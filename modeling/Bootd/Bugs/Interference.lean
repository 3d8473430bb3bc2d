import Bootd.Bugs.HostChain
import Bootd.Bugs.RmpCrash
import Bootd.L4Daemon.LinkReply
import Bootd.L4Daemon.TftpReply

/-!
# A request of one host ends the transfers of the others

What an acknowledgment is answered with depends on its number and the file
alone, in any order and with any packets of other hosts in between. But all
hosts are served by one process, and a packet on which a handler faults ends it:
after a boot request for a file that its host does not have
(src/rmp.c:155) nobody's acknowledgment is answered. The same holds for a
request of over 513 bytes or an error of over 515, whose text the log copies
past the end of a static buffer (src/tftp.c:253-330); that a process may live
on after that is nothing to count on.

Counterexample: such a request of host 1 while host 0 reads a file
(`ack_unanswered`).

* `survives_returns`, `handle_returns`: the packets that the daemon survives, in
  every reachable state.
* `ack_answered`: in every run of such packets, each acknowledgment is answered
  with its block as long as the host has its session, and only the access time
  of the session changes.
-/
namespace Bootd

open Bootd.Core Bootd.Core.Exec Bootd.Core.Blocks

/-- The same answers, on a machine where no store behind the end of an array goes
unnoticed. -/
def Os.strict (os : Os) : Os := { os with pastStore := false }

/-- The daemon survives the packet, and not by luck: nothing is stored behind the
end of an array. -/
def Survives (c : Conf) (w : World) : Ev → Prop
  | .udp os _ frm _ pkt => TftpSafe c os.strict frm pkt w
  | .link os l p =>
    if p.u16 12 = ethertypeRevarp then
      22 ≤ p.len ∧ p.isRarp = true → ∃ o, utilEther2host w p.rarpTha = .ok o
    else p.isSapHp = true → RmpSafe c os.strict l p w

/-- A step of the process: a packet on which the handler faults ends it. -/
inductive MortalStep (c : Conf) : Option Sys → Ev → Option Sys → Prop
  | handled (σ σ' : Sys) (e : Ev) : (daemon c).step σ e σ' → MortalStep c (some σ) e (some σ')
  | faulted (σ : Sys) (e : Ev) : e.Enabled σ.w → ¬Returns (e.handle c) σ.w.start →
      MortalStep c (some σ) e none
  | dead (e : Ev) : MortalStep c none e none

/-- The process, `none` once it is dead. -/
def mortal (c : Conf) : LTS (Option Sys) Ev where
  init o := ∃ σ, o = some σ ∧ (daemon c).init σ
  step := MortalStep c

/-- The client's acknowledgments are answered with the block that they ask for,
and the session `s` stays what it was but for its access time. -/
structure AnswersAcks (c : Conf) (frm : SockAddr) (s : SessId) (ses : Session) (content : List UInt8)
    (σ : Sys) : Prop where
  same : ∃ ses', σ.w.live s = some ses' ∧ ses.Same ses'
  answer : ∀ (os : Os) (l : Listener) (loc : SockAddr) (pkt : Pkt),
    (Ev.udp os l frm loc pkt).Enabled σ.w → pkt.tftpOp = .ack →
    ReadsAll os content (pkt.tftpN * tftpBlock) →
    ∃ σ', (daemon c).step σ (.udp os l frm loc pkt) σ' ∧
      σ'.w.sends = [.udp l (udpVia l frm) (tftpDataBuf ((pkt.tftpN + 1) % 65536)
        (block tftpBlock pkt.tftpN content))] ∧
      ∃ ses', σ'.w.live s = some ses' ∧ ses.Same ses'

section
variable {c : Conf} {os : Os} {l : Listener} {p pkt : Pkt} {frm : SockAddr} {e : Ev} {w : World}
  {σ : Sys} {o : Option Sys} {es : List Ev} {L : List HostId}

theorem rarpHandler_returns (hok : HostsOk w L) : Returns (rarpHandler os l p) w ↔
    (22 ≤ p.len ∧ p.isRarp = true → ∃ o, utilEther2host w p.rarpTha = .ok o) := by
  by_cases hrarp : 22 ≤ p.len ∧ p.isRarp = true
  swap
  · rw [rarpHandler, if_neg hrarp]
    exact iff_of_true (returns_pure _) fun h => absurd h hrarp
  simp only [hrarp, and_self, true_imp_iff]
  cases hk : utilEther2host w p.rarpTha with
  | error err =>
    rw [rarpHandler, if_pos hrarp, returns_get_bind, hk]
    exact iff_of_false (returns_throw err) (by simp)
  | ok o =>
    refine iff_of_true ?_ ⟨o, rfl⟩
    cases o with
    | none =>
      rw [rarpHandler, if_pos hrarp, returns_get_bind, hk]
      exact returns_pure _
    | some h =>
      obtain ⟨-, r, hLp, -⟩ := id hok.lasso
      have hlt := path_lt hLp h (hostFind_mem hok hk)
      exact rarp_returns hrarp.1 hrarp.2 hk (List.getElem?_eq_getElem hlt)

theorem link_returns (hr : (daemon c).Reachable σ) : Returns (linkCallback c os l p) σ.w.start ↔
    if p.u16 12 = ethertypeRevarp then
      22 ≤ p.len ∧ p.isRarp = true → ∃ o, utilEther2host σ.w p.rarpTha = .ok o
    else p.isSapHp = true → RmpSafe c os l p σ.w := by
  obtain ⟨L, hok, hfit⟩ := daemon_listedFit σ hr
  rw [linkCallback]
  by_cases hrarp : p.u16 12 = ethertypeRevarp
  · rw [if_pos hrarp, if_pos hrarp]
    exact rarpHandler_returns hok.start
  rw [if_neg hrarp, if_neg hrarp]
  by_cases hsap : p.isSapHp = true
  · simp only [hsap, if_true, true_imp_iff]
    have hsame : SameHosts σ.w σ.w.start := .of_eq rfl rfl
    exact rmpHandler_returns hok.start (hsame.listedFit hfit) (daemon_descriptors σ hr).start
  · rw [if_neg hsap]
    exact iff_of_true (returns_pure _) fun h => absurd h hsap

theorem tftpSafe_of_strict (h : TftpSafe c os.strict frm pkt w) : TftpSafe c os frm pkt w := by
  obtain ⟨hlog, hrest⟩ := h
  refine ⟨.inr (hlog.resolve_left Bool.false_ne_true), ?_⟩
  cases hk : utilIp2host w frm.addr with
  | error err => rw [hk] at hrest; exact hrest
  | ok o =>
    cases o with
    | none => trivial
    | some h =>
      rw [hk] at hrest
      intro host hh hsvc
      have hserve := hrest host hh hsvc
      cases hop : pkt.tftpOp with
      | rrq =>
        rw [hop] at hserve
        intro hf
        obtain ⟨hown, hnull, ps, hpath, hothers⟩ := hserve hf
        exact ⟨hown, hnull, ps, hpath, hothers.apart, hothers.live, hothers.once⟩
      | ack => rw [hop] at hserve; exact hserve
      | wrq | data | error | unknown n => trivial

/-- Only the room for the name of a clone depends on the machine. -/
theorem rmpSafe_of_strict (h : RmpSafe c os.strict l p w) : RmpSafe c os l p w := by
  intro hrmp
  have hserve := h hrmp
  cases hk : utilEther2host w p.rmpSaddr with
  | error err => rw [hk] at hserve; exact hserve
  | ok o =>
    rw [hk] at hserve
    cases o with
    | some h => exact hserve
    | none =>
      intro hop
      have hclone := hserve hop
      cases hm : utilName2host w p.rmpMachtype with
      | error err => rw [hm] at hclone; exact hclone
      | ok o =>
        rw [hm] at hclone
        cases o with
        | none => trivial
        | some t =>
          intro tmpl ht
          obtain ⟨hname, hrest⟩ := hclone tmpl ht
          refine ⟨fun heth => ⟨fun hres n hn => ?_, (hname heth).2⟩, hrest⟩
          exact .inl (((hname heth).1 hres n hn).resolve_right Bool.false_ne_true)

theorem survives_returns (hr : (daemon c).Reachable σ) (hs : Survives c σ.w e) :
    Returns (e.handle c) σ.w.start := by
  cases e with
  | udp os l frm loc pkt =>
    obtain ⟨L, hok, -⟩ := daemon_listedFit σ hr
    exact (tftpHandler_returns hok.start (daemon_descriptors σ hr).start).mpr
      (tftpSafe_start.mpr (tftpSafe_of_strict hs))
  | link os l p =>
    refine (link_returns hr).mpr ?_
    simp only [Survives] at hs
    by_cases hrarp : p.u16 12 = ethertypeRevarp
    · rwa [if_pos hrarp] at hs ⊢
    · rw [if_neg hrarp] at hs ⊢
      exact fun hsap => rmpSafe_of_strict (hs hsap)

/-- **Which packets the daemon survives**, in every reachable state, where a
store behind an array is noticed. -/
theorem handle_returns (hr : (daemon c).Reachable σ) (hpast : e.os.pastStore = false) :
    Returns (e.handle c) σ.w.start ↔ Survives c σ.w e := by
  have hstrict : e.os.strict = e.os := by
    rw [Os.strict, ← hpast]
  cases e with
  | udp os l frm loc pkt =>
    obtain ⟨L, hok, -⟩ := daemon_listedFit σ hr
    rw [Survives, show os.strict = os from hstrict]
    exact (tftpHandler_returns hok.start (daemon_descriptors σ hr).start).trans tftpSafe_start
  | link os l p =>
    rw [Survives, show os.strict = os from hstrict]
    exact link_returns hr

/-- A process whose packets are all survived does as the daemon. -/
theorem survives_run {σ₀ : Sys} (hr : (daemon c).Reachable σ₀)
    (hrun : ((mortal c).guard fun o e => ∀ σ, o = some σ → Survives c σ.w e).Run (some σ₀) es o) :
    ∃ σ, o = some σ ∧ (daemon c).Run σ₀ es σ := by
  generalize hs : some σ₀ = o₀ at hrun
  induction hrun with
  | nil => exact ⟨σ₀, hs.symm, .nil σ₀⟩
  | snoc _ hstep ih =>
    obtain ⟨σ, rfl, hrun⟩ := ih
    obtain ⟨hstep, hsurv⟩ := hstep
    cases hstep with
    | handled _ σ' e h => exact ⟨σ', rfl, .snoc hrun h⟩
    | faulted _ e _ hfault =>
      exact absurd (survives_returns (run_kept hr hrun).1 (hsurv σ rfl)) hfault

end

/-- **The answer depends on the number and the file**, in every run whose packets
are survived, as long as the host has its session. -/
theorem ack_answered (c : Conf) (σ₀ : Sys) (hr : (daemon c).Reachable σ₀) (frm : SockAddr) (h : HostId)
    (s : SessId) (ses : Session) (path : Option CStr) (content : List UInt8)
    (hses : TftpSession σ₀.w h s ses path content) (hhost : utilIp2host σ₀.w frm.addr = .ok (some h))
    (hsid : ses.sid = frm.port.toNat) (es : List Ev) (o : Option Sys)
    (hrun : ((mortal c).guard fun o e => ∀ σ, o = some σ → Survives c σ.w e).Run (some σ₀) es o) :
    ∃ σ, o = some σ ∧ (HasSession σ.w h s → AnswersAcks c frm s ses content σ) := by
  obtain ⟨σ, rfl, hruns⟩ := survives_run hr hrun
  refine ⟨σ, rfl, fun hhas => ?_⟩
  obtain ⟨ses', hses', hsame, hhost'⟩ := hses.run hr hruns hhost hhas
  obtain ⟨hr', -⟩ := run_kept hr hruns
  refine ⟨⟨ses', hses'.live, hsame⟩, fun os l loc pkt he hop hall => ?_⟩
  have hans := next_ack_block l loc hr' hses' hhost' (hsame.sid_eq.trans hsid) hop hall
  refine ⟨σ.next c (.udp os l frm loc pkt), daemon_next he (by rw [returns, hans]), ?_⟩
  rw [sys_next_eq hans]
  exact ⟨rfl, _, live_touch os.now hses'.live, hsame.trans rfl⟩

/-! ## The client of address 1 reads the file `k`, and host 1 asks for `x` -/

/-- An acknowledgment of the client, or a packet of another host of the table,
whose listener can be made. -/
inductive Interleaved (w : World) (frm : SockAddr) (h : HostId) (content : List UInt8) : Ev → Prop
  | ack (os : Os) (l : Listener) (loc : SockAddr) (pkt : Pkt) : pkt.tftpOp = .ack →
      ReadsAll os content (pkt.tftpN * tftpBlock) → Interleaved w frm h content (.udp os l frm loc pkt)
  | tftp (os : Os) (l : Listener) (frm' loc : SockAddr) (pkt : Pkt) (q : HostId) :
      utilIp2host w frm'.addr = .ok (some q) → q ≠ h → os.socket = true → os.nullStore = true →
      Interleaved w frm h content (.udp os l frm' loc pkt)
  | link (os : Os) (l : Listener) (p : Pkt) (q : HostId) :
      utilEther2host w p.rmpSaddr = .ok (some q) → q ≠ h → Interleaved w frm h content (.link os l p)

/-- The daemon at work for two hosts. -/
def servedTwo : World := { served with hosts := twoHosts.w.hosts, gHosts := twoHosts.w.gHosts }

theorem boot_servedTwo : Boot plainConf servedTwo where
  hosts := ⟨twoHosts, twoHosts_reachable fun os h _ => ⟨os, h, rfl⟩, rfl, rfl⟩
  sessions := rfl
  gN := rfl
  rmpSid := rfl
  ids := boot_served.ids
  listeners := boot_served.listeners
  files := boot_served.files
  stdin := boot_served.stdin

/-- Host 0 reads the file `k`. -/
def readingTwo : Sys := Sys.next plainConf ⟨servedTwo, []⟩ (readK plainOs)

theorem readingTwo_reachable : (daemon plainConf).Reachable readingTwo := by
  have h0 : (daemon plainConf).Reachable ⟨servedTwo, []⟩ := LTS.reachable_init ⟨boot_servedTwo, rfl⟩
  exact h0.step (l := readK plainOs) (daemon_next ⟨List.mem_cons_self, rfl⟩ (by decide +kernel))

/-- Host 1 reads it too. -/
def readK2 : Ev := .udp plainOs port69 ⟨2, 1024⟩ ⟨7, 69⟩ (.ofBytes ([0, 1] ++ cstr "k" ++ [0]))

/-- A boot request of host 1 for the file `x`. -/
def bootX : Pkt := rmpFrame (plainEther 2) 1 0 (be16 rmpVersion ++ List.replicate 20 0x20 ++ [1] ++ cstr "x")

theorem readingTwo_session : ∃ ses, TftpSession readingTwo.w 0 0 ses (some (cstr "/boot/k")) [1, 2, 3] ∧
    ses.sid = 1024 :=
  ⟨_, ⟨rfl, rfl, rfl, rfl⟩, rfl⟩

/-- The read request of host 1 comes in between. -/
theorem ack_answered_readK : ∃ ses,
    AnswersAcks plainConf ⟨1, 1024⟩ 0 ses [1, 2, 3] (readingTwo.next plainConf readK2) := by
  obtain ⟨ses, hses, hsid⟩ := readingTwo_session
  have hstep : (daemon plainConf).step readingTwo readK2 (readingTwo.next plainConf readK2) :=
    daemon_next ⟨List.mem_cons_self, rfl⟩ (by decide +kernel)
  have hrun : ((mortal plainConf).guard fun o e => ∀ σ, o = some σ → Survives plainConf σ.w e).Run
      (some readingTwo) [readK2] (some (readingTwo.next plainConf readK2)) := by
    refine .snoc (.nil _) ⟨.handled _ _ _ hstep, fun σ hσ => ?_⟩
    obtain rfl := Option.some.inj hσ
    exact (handle_returns readingTwo_reachable rfl).mp ⟨_, _, hstep.2.1⟩
  obtain ⟨σ, hσ, hans⟩ := ack_answered plainConf readingTwo readingTwo_reachable ⟨1, 1024⟩ 0 0 ses _
    [1, 2, 3] hses rfl hsid _ _ hrun
  obtain rfl := Option.some.inj hσ
  exact ⟨ses, hans ⟨rfl, _, rfl⟩⟩

theorem bootX_faults : ¬Returns ((Ev.link plainOs linkPort bootX).handle plainConf) readingTwo.w.start := by
  have hret : ¬Returns (rmpHandler plainConf plainOs linkPort bootX) readingTwo.w.start :=
    boot_unknown_faults readingTwo_reachable (h := 1) rfl rfl rfl (by decide) rfl rfl (by decide)
      (rmpFile_x rfl)
  have hrmp : linkCallback plainConf plainOs linkPort bootX = rmpHandler plainConf plainOs linkPort bootX := by
    rw [linkCallback, if_neg (by decide), if_pos (by decide)]
  rwa [← hrmp] at hret

/-- **Counterexample**: host 1's request comes in between, and the acknowledgment
of host 0 finds no process. -/
theorem ack_unanswered : ¬ ∀ (c : Conf) (σ₀ : Sys) (frm : SockAddr) (h : HostId) (s : SessId)
    (ses : Session) (path : Option CStr) (content : List UInt8) (es : List Ev) (o : Option Sys),
    (daemon c).Reachable σ₀ → TftpSession σ₀.w h s ses path content →
    utilIp2host σ₀.w frm.addr = .ok (some h) → ses.sid = frm.port.toNat →
    ((mortal c).guard fun o e => ∀ σ, o = some σ → Interleaved σ.w frm h content e).Run (some σ₀) es o →
    ∃ σ, o = some σ ∧ (HasSession σ.w h s → AnswersAcks c frm s ses content σ) := by
  intro hall
  obtain ⟨ses, hses, hsid⟩ := readingTwo_session
  have hstep : ((mortal plainConf).guard fun o e => ∀ σ, o = some σ →
      Interleaved σ.w ⟨1, 1024⟩ 0 [1, 2, 3] e).step (some readingTwo) (.link plainOs linkPort bootX) none := by
    refine ⟨.faulted _ _ ⟨List.mem_cons_of_mem _ List.mem_cons_self, rfl⟩ bootX_faults, fun σ hσ => ?_⟩
    obtain rfl := Option.some.inj hσ
    exact .link _ _ _ 1 rfl (by decide)
  obtain ⟨σ, hσ, -⟩ := hall plainConf readingTwo ⟨1, 1024⟩ 0 0 ses _ [1, 2, 3] _ none
    readingTwo_reachable hses rfl hsid (.snoc (.nil _) hstep)
  cases hσ

end Bootd
