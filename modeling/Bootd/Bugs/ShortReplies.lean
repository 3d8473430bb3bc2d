import Bootd.Bugs.BootReply

/-!
# Link-level replies are too short

`RMP_BOOT_REPL` and `RMP_READ_REPL` count the header without the 14 bytes of
the Ethernet header (src/rmp.h:48-52), and `rmp_handler` hands that many bytes
to `l->send` (src/rmp.c:113-116,184-187): every reply is cut off 14 bytes before
its end. `i_listener_link_send` moreover refuses frames under 62 bytes
(src/listener.c:764-767): a RARP reply has 60 bytes, a boot reply with a name
of 40 bytes 61, and a read reply with 43 bytes of data 61.

Counterexamples: the first block of a file of two bytes is handed over as 20
bytes (`rmp_read_cut_off`), and a RARP reply is dropped (`rarp_dropped`).

* `rmp_read_never_whole`: no read reply has the length that it should have.
* `link_written_iff`: the frames whose reply is written, in every reachable state.
-/
namespace Bootd

open Bootd.Core Bootd.Core.Exec

/-! ## Cut off -/

/-- The bytes that a read request is due: none where the read fails.
mirrors src/rmp.c:173-175 -/
def readDue (os : Os) (p : Pkt) (content : List UInt8) : Nat :=
  if os.read = none ∨ os.lseek = false ∨ p.rmpSeq < 0 then 0
  else min (min p.rmpReadSize rmpReadReplDatalen) (content.length - p.rmpSeq.toNat)

/-- `frame` is the whole reply to a read request for that content. -/
structure ReadReply (os : Os) (p : Pkt) (content frame : List UInt8) : Prop where
  length : frame.length = 14 + 18 + readDue os p content
  lenField : (frame.drop 12).take 2 = be16 (18 + readDue os p content)
  data : frame.drop 32 = (content.drop p.rmpSeq.toNat).take (readDue os p content)
  eof : 0 ≤ p.rmpSeq → content.length ≤ p.rmpSeq.toNat → os.read ≠ none → os.lseek = true →
    frame[25]? = some rmpEEof
  failed : os.read = none ∨ os.lseek = false ∨ p.rmpSeq < 0 → frame[25]? = some rmpEAbort

/-- A read request of the host `h` in its session, on a file with that content. -/
structure ReadInSession (os : Os) (l : Listener) (p : Pkt) (w : World) (h : HostId) (host : Host)
    (s : SessId) (ses : Session) (content : List UInt8) : Prop where
  isRmp : (Ev.link os l p).isRmp = true
  op : p.rmpOp = .readReq
  known : utilEther2host w p.rmpSaddr = .ok (some h)
  record : w.hosts[h]? = some host
  allowed : host.service &&& serviceRmp ≠ 0
  sessionOf : w.sessionOf h = some s
  live : w.live s = some ses
  service : ses.service = serviceRmp
  sid : ses.sid = p.rmpSession
  file : (w.fdObj ses.bfFd).bind FdObj.content = some content

section
variable {c : Conf} {os : Os} {l : Listener} {p : Pkt} {w : World} {h : HostId} {host : Host}
  {s : SessId} {ses : Session} {content : List UInt8}

/-- A read gives no more than is due. -/
theorem utilRead_due {fd : Fd} {data : List UInt8}
    (hfile : (w.fdObj fd).bind FdObj.content = some content)
    (hr : utilRead w os fd (min p.rmpReadSize rmpReadReplDatalen) p.rmpSeq = some data) :
    data.length ≤ readDue os p content := by
  obtain ⟨d, k, hd, hread, hseek, hseq, rfl⟩ := utilRead_iff.mp hr
  rw [hfile] at hd; cases hd
  rw [readDue, if_neg (by simp [hread, hseek, hseq]), List.length_take, List.length_drop]
  omega

/-- The reply to a read request of a host that may use RMP. -/
theorem linkReply_read (hrmp : (Ev.link os l p).isRmp = true) (hop : p.rmpOp = .readReq)
    (hk : utilEther2host w p.rmpSaddr = .ok (some h)) (hh : w.hosts[h]? = some host)
    (hsvc : host.service &&& serviceRmp ≠ 0) :
    linkReply os l p w = some (rmpReadReply os l p w h) := by
  have hne : p.u16 12 ≠ ethertypeRevarp := (of_decide_eq_true (Bool.and_eq_true_iff.mp hrmp).1).1
  unfold linkReply
  rw [if_neg hne, Ev.host, if_pos hrmp, hk]
  simp only [hh, Option.bind_some, rmpReply, hop]
  rw [if_neg hsvc]

theorem ReadInSession.reply (hi : ReadInSession os l p w h host s ses content) :
    linkReply os l p w = some (rmpReadReply os l p w h) :=
  linkReply_read hi.isRmp hi.op hi.known hi.record hi.allowed

/-- The frame handed over ends at least 14 bytes too soon. -/
theorem ReadInSession.cut_off (hi : ReadInSession os l p w h host s ses content) {frame : List UInt8}
    (hf : linkReply os l p w = some frame) : frame.length + 14 ≤ 14 + 18 + readDue os p content := by
  rw [hi.reply, Option.some.injEq] at hf
  obtain ⟨data, hdata, hreply⟩ := rmpReadReply_session os l hi.sessionOf hi.live hi.service hi.sid
  rw [← hf, hreply, rmpReadReplFrame_length]
  cases data with
  | none => simp only [Option.map_none, Option.getD_none]; omega
  | some d =>
    have := utilRead_due hi.file hdata.symm
    simp only [Option.map_some, Option.getD_some]
    omega

end

/-- What is sent for a read request is not its whole reply. -/
theorem readReply_cut {c : Conf} {σ : Sys} {os : Os} {l : Listener} {p : Pkt} {h : HostId} {host : Host}
    {s : SessId} {ses : Session} {content : List UInt8} (hr : (daemon c).Reachable σ)
    (hi : ReadInSession os l p σ.w h host s ses content) {frame : List UInt8} {b : Bool}
    (hsends : (σ.next c (.link os l p)).w.sends = [.link l frame b]) : ¬ReadReply os p content frame := by
  intro hwhole
  rcases next_sends hr os l p with ⟨-, heq⟩ | ⟨-, heq⟩
  · rw [hi.reply] at heq
    have hframe := List.singleton_inj.mp (heq.symm.trans hsends)
    simp only [frameIo, Io.link.injEq] at hframe
    have hcut := hi.cut_off (by rw [hi.reply, hframe.2.1])
    have hlen := hwhole.length
    omega
  · rw [heq] at hsends; cases hsends

/-- **No read request gets its whole reply**, in any reachable state. -/
theorem rmp_read_never_whole (c : Conf) (σ : Sys) (os : Os) (l : Listener) (p : Pkt) (h : HostId)
    (host : Host) (s : SessId) (ses : Session) (content : List UInt8) (hr : (daemon c).Reachable σ)
    (hi : ReadInSession os l p σ.w h host s ses content) :
    ¬∃ frame b, (σ.next c (.link os l p)).w.sends = [.link l frame b] ∧ ReadReply os p content frame := by
  intro ⟨frame, b, hsends, hwhole⟩
  exact readReply_cut hr hi hsends hwhole

/-- Host 0 has booted, and its session is open on a file of three bytes. -/
def booted : Sys := bootSys.next plainConf (bootK plainOs (plainEther 1) 0)

theorem booted_reachable : (daemon plainConf).Reachable booted :=
  LTS.Reachable.step (l := bootK plainOs (plainEther 1) 0) bootSys_reachable
    (daemon_next ⟨List.mem_cons_of_mem _ List.mem_cons_self, rfl⟩ (by decide +kernel))

/-- Host 0 asks for 100 bytes from the start of the file. -/
def readFirst : Pkt := rmpFrame (plainEther 1) 2 2 (be16 100)

theorem booted_reads : ∃ host ses,
    ReadInSession plainOs linkPort readFirst booted.w 0 host 0 ses [1, 2, 3] :=
  ⟨_, _, (by decide), rfl, rfl, rfl, by decide, rfl, rfl, rfl, rfl, rfl⟩

theorem rmp_read_booted : ¬∃ frame b,
    (booted.next plainConf (.link plainOs linkPort readFirst)).w.sends = [.link linkPort frame b] ∧
      ReadReply plainOs readFirst [1, 2, 3] frame := by
  obtain ⟨host, ses, hi⟩ := booted_reads
  exact rmp_read_never_whole plainConf booted plainOs linkPort readFirst 0 host 0 ses _ booted_reachable hi

/-- **Counterexample**: the host 0 gets 21 of 35 bytes, and none of the file. -/
theorem rmp_read_cut_off : ¬ ∀ (c : Conf) (σ : Sys) (os : Os) (l : Listener) (p : Pkt) (h : HostId)
    (host : Host) (s : SessId) (ses : Session) (content : List UInt8), (daemon c).Reachable σ →
    (Ev.link os l p).Enabled σ.w → ReadInSession os l p σ.w h host s ses content →
    ∃ frame b, (σ.next c (.link os l p)).w.sends = [.link l frame b] ∧
      ReadReply os p content frame := by
  intro hall
  obtain ⟨host, ses, hi⟩ := booted_reads
  obtain ⟨frame, b, hsends, hwhole⟩ := hall plainConf booted plainOs linkPort readFirst 0 host 0 ses
    [1, 2, 3] booted_reachable ⟨List.mem_cons_of_mem _ List.mem_cons_self, rfl⟩ hi
  exact readReply_cut booted_reachable hi hsends hwhole

/-! ## Dropped -/

/-- Whether the frame was written. -/
def Io.written : Io → Bool
  | .link _ _ b => b
  | _ => true

/-- A read request of the host `h` that gives at least 44 bytes. -/
def LongRead (os : Os) (p : Pkt) (w : World) (h : HostId) : Prop :=
  ∃ s ses content k, w.sessionOf h = some s ∧ w.live s = some ses ∧ ses.service = serviceRmp ∧
    ses.sid = p.rmpSession ∧ (w.fdObj ses.bfFd).bind FdObj.content = some content ∧
    os.lseek = true ∧ os.read = some k ∧ 44 ≤ k ∧ 44 ≤ p.rmpReadSize ∧ 0 ≤ p.rmpSeq ∧
    p.rmpSeq.toNat + 44 ≤ content.length

/-- The frame calls for a reply of fewer than 62 bytes. -/
inductive ShortReply (c : Conf) (os : Os) (l : Listener) (p : Pkt) (w : World) : Prop
  | rarp (h : HostId) (host : Host) : p.u16 12 = ethertypeRevarp → 22 ≤ p.len → p.isRarp = true →
      utilEther2host w p.rarpTha = .ok (some h) → w.hosts[h]? = some host →
      host.service &&& serviceRarp ≠ 0 → p.rarpOp = arpopRevrequest → ShortReply c os l p w
  | probe (t : HostId) (host : Host) : (Ev.link os l p).isRmp = true → RmpSafe c os l p w →
      (Ev.link os l p).host w = .ok (some t) → w.hosts[t]? = some host →
      host.service &&& serviceRmp ≠ 0 → p.rmpOp = .bootReq → p.rmpBootVersion = rmpVersion →
      p.rmpSession = rmpProbesid →
      (∀ name, probeName l host p.rmpSeq = some name → name.length % 256 < 41) → ShortReply c os l p w
  | read (h : HostId) (host : Host) : (Ev.link os l p).isRmp = true →
      utilEther2host w p.rmpSaddr = .ok (some h) → w.hosts[h]? = some host →
      host.service &&& serviceRmp ≠ 0 → p.rmpOp = .readReq → w.OwnLive h → ¬LongRead os p w h →
      ShortReply c os l p w

section
variable {c : Conf} {os : Os} {l : Listener} {p : Pkt} {w : World} {h : HostId} {host : Host}

/-- The length of a read reply. -/
theorem rmpReadReply_long : 62 ≤ (rmpReadReply os l p w h).length ↔ LongRead os p w h := by
  constructor
  · intro hlen
    by_cases hcheck : sessionCheckOf serviceRmp p.rmpSession ((w.sessionOf h).bind w.live) = .noError
    swap
    · rw [rmpReadReply_refused os l rfl hcheck, rmpReadReplFrame_length] at hlen
      simp at hlen
    · obtain ⟨ses, hses, hsvc, hsid⟩ := sessionCheckOf_noError.mp hcheck
      obtain ⟨s, hs, hl⟩ := Option.bind_eq_some_iff.mp hses
      obtain ⟨data, hdata, hreply⟩ := rmpReadReply_session os l hs hl hsvc hsid
      rw [hreply, rmpReadReplFrame_length] at hlen
      cases data with
      | none => simp at hlen
      | some d =>
        obtain ⟨content, k, hfile, hread, hseek, hseq, hd⟩ := utilRead_iff.mp hdata.symm
        simp only [Option.map_some, Option.getD_some, hd, List.length_take, List.length_drop] at hlen
        have hmin : 44 ≤ min (min p.rmpReadSize rmpReadReplDatalen) k := by omega
        have hrest : p.rmpSeq.toNat + 44 ≤ content.length := by omega
        rw [le_min_iff, le_min_iff] at hmin
        exact ⟨s, ses, content, k, hs, hl, hsvc, hsid, hfile, hseek, hread, hmin.2, hmin.1.1, hseq, hrest⟩
  · intro ⟨s, ses, content, k, hs, hl, hsvc, hsid, hfile, hseek, hread, hk, hsize, hseq, hlen⟩
    obtain ⟨data, hdata, hreply⟩ := rmpReadReply_session os l hs hl hsvc hsid
    have hgot : data = some ((content.drop p.rmpSeq.toNat).take
        (min (min p.rmpReadSize rmpReadReplDatalen) k)) :=
      hdata.trans (utilRead_iff.mpr ⟨content, k, hfile, hread, hseek, hseq, rfl⟩)
    rw [hreply, rmpReadReplFrame_length, hgot]
    simp only [Option.map_some, Option.getD_some, List.length_take, List.length_drop,
      rmpReadReplDatalen, rmpReadReplLen]
    omega

theorem linkCallback_rarp (hty : p.u16 12 = ethertypeRevarp) :
    (Ev.link os l p).handle c = rarpHandler os l p := if_pos hty

/-- The read requests that the daemon survives. -/
theorem rmpSafe_read (hop : p.rmpOp = .readReq) (hk : utilEther2host w p.rmpSaddr = .ok (some h))
    (hh : w.hosts[h]? = some host) (hown : w.OwnLive h) : RmpSafe c os l p w := by
  intro _
  rw [hk]
  intro host' hh'
  rw [hh] at hh'; cases hh'
  intro _
  simpa only [hop] using hown

/-- A probe that the daemon survives finds a name. -/
theorem probe_named {L : List HostId} {t : HostId} (hok : HostsOk w L)
    (hrmp : (Ev.link os l p).isRmp = true) (hs : RmpSafe c os l p w)
    (ht : (Ev.link os l p).host w = .ok (some t)) (hh : w.hosts[t]? = some host)
    (hsvc : host.service &&& serviceRmp ≠ 0) (hop : p.rmpOp = .bootReq)
    (hver : p.rmpBootVersion = rmpVersion) (hsid : p.rmpSession = rmpProbesid) :
    ∃ name code, rmpProbeName l host p.rmpSeq = .ok (name, code) := by
  have hall := hs (Bool.and_eq_true_iff.mp hrmp).2
  have hmem : t ∈ L := Ev.host_mem hok ht
  obtain ⟨own, sweep, hserve⟩ : ∃ own sweep, RmpServeSafe l p host own sweep := by
    rcases host_rmp hrmp ht with hk | ⟨hk, -, hn⟩
    · rw [hk] at hall
      exact ⟨_, _, hall host hh⟩
    · simp only [hk, hop, true_imp_iff, hn] at hall
      exact ⟨_, _, (hall host hh).2⟩
  have hneeds := hserve hsvc
  simp only [hop, hsid, if_true] at hneeds
  obtain ⟨_, _, hrun⟩ := (rmpProbe_returns (w := w) fun f hf =>
    ((hok.complete t hmem host hh).files f hf).2.1).mpr (hneeds hver)
  obtain ⟨name, code, hname, -⟩ := rmpProbe_ok hrun
  exact ⟨name, code, hname⟩

theorem shortReply_rmp {t : HostId} {frame : List UInt8} (hrmp : (Ev.link os l p).isRmp = true)
    (hs : RmpSafe c os l p w) (ht : (Ev.link os l p).host w = .ok (some t))
    (hh : w.hosts[t]? = some host) (hreply : rmpReply os l p w t host = some frame)
    (hlen : frame.length < 62) : ShortReply c os l p w := by
  unfold rmpReply at hreply
  by_cases hsvc : host.service &&& serviceRmp = 0
  · rw [if_pos hsvc] at hreply; cases hreply
  rw [if_neg hsvc] at hreply
  cases hop : p.rmpOp with
  | bootReq =>
    simp only [hop] at hreply
    by_cases hprobe : p.rmpBootVersion = rmpVersion ∧ p.rmpSession = rmpProbesid
    swap
    · rw [if_neg hprobe] at hreply; cases hreply
    rw [if_pos hprobe] at hreply
    refine .probe t host hrmp hs ht hh hsvc hop hprobe.1 hprobe.2 fun name hname => ?_
    rw [rmpProbeName_some hname] at hreply
    cases hreply
    simp only [rmpBootReplFrame_length, rmpBootReplLen] at hlen
    omega
  | readReq =>
    simp only [hop, Option.some.injEq] at hreply
    have hk : utilEther2host w p.rmpSaddr = .ok (some t) := by
      rcases host_rmp hrmp ht with hk | ⟨-, hop', -⟩
      · exact hk
      · rw [hop] at hop'; cases hop'
    have hall := hs (Bool.and_eq_true_iff.mp hrmp).2
    rw [hk] at hall
    have hown : w.OwnLive t := by simpa only [hop] using hall host hh hsvc
    refine .read t host hrmp hk hh hsvc hop hown fun hlong => ?_
    have := rmpReadReply_long (l := l).mpr hlong
    rw [hreply] at this
    omega
  | bootDone => simp only [hop] at hreply; cases hreply
  | other n => simp only [hop] at hreply; cases hreply

/-- Short replies are those that are handed over short. -/
theorem shortReply_iff {σ : Sys} (hr : (daemon c).Reachable σ) :
    ShortReply c os l p σ.w ↔ Returns ((Ev.link os l p).handle c) σ.w.start ∧
      ∃ frame, linkReply os l p σ.w = some frame ∧ frame.length < 62 := by
  have hsafe := rmp_returns_iff c σ hr os l p
  refine ⟨fun hshort => ?_, fun ⟨hret, frame, hreply, hlen⟩ => ?_⟩
  · cases hshort with
    | rarp h host hty hlen hrarp hk hh hsvc hop =>
      refine ⟨?_, rarpReplFrame p l.eth l.ip host.ip os.stack, ?_, ?_⟩
      · rw [linkCallback_rarp hty]
        exact rarp_returns (w := σ.w.start) hlen hrarp hk hh
      · rw [linkReply, if_pos hty, rarpReply, if_pos ⟨hlen, hrarp⟩, hk]
        simp only [hh, Option.bind_some]
        exact if_pos ⟨hsvc, hop⟩
      · rw [rarpReplFrame_length]
        omega
    | probe t host hrmp hs ht hh hsvc hop hver hsid hname =>
      have hret := hsafe.mpr hs
      refine ⟨by rw [handle_rmp hrmp]; exact hret, ?_⟩
      obtain ⟨L, hok⟩ := daemon_hostsOk σ hr
      obtain ⟨name, code, hrun⟩ := probe_named hok hrmp hs ht hh hsvc hop hver hsid
      rw [linkReply_boot hrmp hop hver ht hh hsvc, if_pos hsid, hrun]
      refine ⟨_, rfl, ?_⟩
      simp only [rmpBootReplFrame_length, rmpBootReplLen]
      rcases rmpProbeName_ok hrun with ⟨hsome, -⟩ | ⟨rfl, -⟩
      · have := hname name hsome
        omega
      · decide
    | read h host hrmp hk hh hsvc hop hown hshort =>
      refine ⟨?_, rmpReadReply os l p σ.w h, ?_, ?_⟩
      · rw [handle_rmp hrmp]
        exact hsafe.mpr (rmpSafe_read hop hk hh hown)
      · exact linkReply_read hrmp hop hk hh hsvc
      · exact not_le.mp fun h62 => hshort (rmpReadReply_long.mp h62)
  · unfold linkReply at hreply
    by_cases hty : p.u16 12 = ethertypeRevarp
    · rw [if_pos hty, rarpReply] at hreply
      by_cases hrarp : 22 ≤ p.len ∧ p.isRarp = true
      swap
      · rw [if_neg hrarp] at hreply; cases hreply
      rw [if_pos hrarp] at hreply
      cases hk : utilEther2host σ.w p.rarpTha with
      | error e => rw [hk] at hreply; cases hreply
      | ok o =>
        cases o with
        | none => rw [hk] at hreply; cases hreply
        | some h =>
          simp only [hk] at hreply
          obtain ⟨host, hh, hreply⟩ := Option.bind_eq_some_iff.mp hreply
          by_cases hserve : host.service &&& serviceRarp ≠ 0 ∧ p.rarpOp = arpopRevrequest
          · exact .rarp h host hty hrarp.1 hrarp.2 hk hh hserve.1 hserve.2
          · rw [if_neg hserve] at hreply; cases hreply
    rw [if_neg hty] at hreply
    cases ht : (Ev.link os l p).host σ.w with
    | error e => rw [ht] at hreply; cases hreply
    | ok o =>
      cases o with
      | none => rw [ht] at hreply; cases hreply
      | some t =>
        simp only [ht] at hreply
        obtain ⟨host, hh, hreply⟩ := Option.bind_eq_some_iff.mp hreply
        have hrmp : (Ev.link os l p).isRmp = true := by
          by_contra hno
          rw [Ev.host, if_neg hno] at ht; cases ht
        rw [handle_rmp hrmp] at hret
        exact shortReply_rmp hrmp (hsafe.mp hret) ht hh hreply hlen

end
/-- **Which frames have their reply written**, in every reachable state. -/
theorem link_written_iff (c : Conf) (σ : Sys) (hr : (daemon c).Reachable σ) (os : Os) (l : Listener)
    (p : Pkt) : (∀ io ∈ (σ.next c (.link os l p)).w.sends, io.written = true) ↔
      ¬ShortReply c os l p σ.w := by
  rw [shortReply_iff hr]
  rcases next_sends hr os l p with ⟨hret, heq⟩ | ⟨hnot, heq⟩
  · rw [heq]
    cases hreply : linkReply os l p σ.w with
    | none => simp
    | some frame => simp [hret, frameIo, Io.written]
  · rw [heq]
    simp [hnot]

/-- A boot request gets no short reply, as it gets none. -/
theorem boot_not_short : ¬ShortReply plainConf plainOs linkPort (bootNamed (cstr "k")) served := by
  refine (link_written_iff plainConf bootSys bootSys_reachable plainOs linkPort _).mp ?_
  have hnone : (bootSys.next plainConf (.link plainOs linkPort (bootNamed (cstr "k")))).w.sends = [] :=
    rfl
  rw [hnone]
  exact fun io hio => by cases hio

/-- A RARP request of the machine `eth` for its own address. -/
def rarpRequest (eth : Ether) : Pkt :=
  .ofBytes (List.replicate 6 0xff ++ eth.octet.toList ++ be16 ethertypeRevarp ++ be16 1 ++
    be16 ethertypeIp ++ [6, 4] ++ be16 3 ++ eth.octet.toList ++ List.replicate 4 0 ++
    eth.octet.toList ++ List.replicate 4 0)

/-- **Counterexample**: the RARP reply for host 0 is dropped. -/
theorem rarp_dropped : ¬ ∀ (c : Conf) (σ : Sys) (os : Os) (l : Listener) (p : Pkt),
    (daemon c).Reachable σ → (Ev.link os l p).Enabled σ.w →
    ∀ io ∈ (σ.next c (.link os l p)).w.sends, io.written = true := by
  intro h
  have hsends : (bootSys.next plainConf (.link plainOs linkPort (rarpRequest (plainEther 1)))).w.sends =
      [.link linkPort (rarpReplFrame (rarpRequest (plainEther 1)) linkPort.eth linkPort.ip 1 plainOs.stack)
        false] := rfl
  have hall := h plainConf bootSys plainOs linkPort (rarpRequest (plainEther 1)) bootSys_reachable
    ⟨List.mem_cons_of_mem _ List.mem_cons_self, rfl⟩
  rw [hsends] at hall
  exact absurd (hall _ List.mem_cons_self) (by decide)

end Bootd
