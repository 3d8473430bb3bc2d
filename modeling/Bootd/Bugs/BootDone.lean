import Bootd.Bugs.RmpCrash
import Bootd.L4Daemon.LinkReply

/-!
# A boot-done message ends any session

A host has one session, for TFTP or for RMP. `rmp_handler` passes a read request to
`host_session_check`, which compares the service and the session id before it notes
the time (src/host.c:249-262). A boot-done message goes to `host_session_delete`
unchecked (src/rmp.c:193): it ends what session there is, also the TFTP transfer of
the kernel that the boot loader just started.

Counterexample: the client reads a file over TFTP, and its boot-done message is
repeated (`boot_done_ends_tftp`).

`session_kept_iff`: in every reachable state, a packet that does not name the
host's session leaves it alone exactly if it is a read request, or the host may not
use RMP.
-/
namespace Bootd

open Bootd.Core Bootd.Core.Exec

/-- The host's session is the one it was, with its access time, and so is the count. -/
structure SessionKept (w w' : World) (h : HostId) : Prop where
  own : w'.sessionOf h = w.sessionOf h
  live : ∀ s, w.sessionOf h = some s → w'.live s = w.live s
  count : w'.gNSessions = w.gNSessions

/-- The packet names the session: it is an RMP session with the id in the packet. -/
def Pkt.Names (p : Pkt) (ses : Session) : Prop := ses.service = serviceRmp ∧ ses.sid = p.rmpSession

instance (p : Pkt) (ses : Session) : Decidable (p.Names ses) := inferInstanceAs (Decidable (_ ∧ _))

section
variable {c : Conf} {os : Os} {l : Listener} {p : Pkt} {w w' : World} {h : HostId} {host : Host} {s : SessId}
  {ses : Session}

theorem SessionKept.refl (w : World) (h : HostId) : SessionKept w w h := ⟨rfl, fun _ _ => rfl, rfl⟩

theorem sessionKept_emits (w : World) (h : HostId) (ios : List Io) : SessionKept w (w.emits ios) h :=
  ⟨rfl, fun _ _ => rfl, rfl⟩

/-- A host that may not use RMP is not served. -/
theorem rmpHandler_denied (c : Conf) (os : Os) (hrmp : p.isRmp l.eth = true)
    (hk : utilEther2host w p.rmpSaddr = .ok (some h)) (hh : w.hosts[h]? = some host)
    (hsvc : host.service &&& serviceRmp = 0) : rmpHandler c os l p w = .ok () w := by
  unfold rmpHandler rmpHost
  rw [if_pos hrmp, bind_assoc, Exec.get_run, bind_assoc, hk, Exec.liftE_ok, pure_bind, pure_bind]
  exact (Exec.bind_run (loadHost_ok.mpr ⟨hh, rfl⟩)).trans (by rw [if_pos hsvc]; rfl)

/-- A read request for another session is refused, and changes nothing. -/
theorem rmpRead_keeps (os : Os) (l : Listener) (hs : w.sessionOf h = some s) (hl : w.live s = some ses)
    (hother : ¬p.Names ses) : ∃ w', rmpRead os l p h w = .ok () w' ∧ SessionKept w w' h := by
  obtain ⟨host, hh, -⟩ := sessionOf_some.mp hs
  have hown : w.OwnLive h := by
    intro t ht
    rw [hs] at ht
    cases ht
    exact ⟨ses, hl⟩
  obtain ⟨_, w', hr⟩ := (rmpRead_returns (List.getElem?_eq_some_iff.mp hh).1).mpr hown
  refine ⟨w', hr, ?_⟩
  rcases rmpRead_ok hr with ⟨_, -, -, rfl⟩ | ⟨t, ses', _, ht, hl', hsvc, hsid, -⟩
  · exact sessionKept_emits w h _
  · rw [hs] at ht
    cases ht
    rw [hl] at hl'
    cases hl'
    exact absurd ⟨hsvc, hsid⟩ hother

/-- A boot-done message ends the session. -/
theorem hostSessionDelete_ends (hd : Descriptors w) (hs : w.sessionOf h = some s) (hl : w.live s = some ses) :
    ∃ w', hostSessionDelete h w = .ok () w' ∧ w'.sessionOf h = none := by
  obtain ⟨host, hh, -⟩ := sessionOf_some.mp hs
  have hown : w.OwnLive h := by
    intro t ht
    rw [hs] at ht
    cases ht
    exact ⟨ses, hl⟩
  obtain ⟨_, w', hr⟩ := (hostSessionDelete_returns hd.unlistened).mpr
    ⟨(List.getElem?_eq_some_iff.mp hh).1, hown⟩
  refine ⟨w', hr, ?_⟩
  obtain ⟨es, he, -, ⟨hn, -⟩ | ⟨t, -, rfl⟩⟩ := hostSessionDelete_ok hr
  · rw [hs] at hn
    cases hn
  · exact (he.mem (List.mem_singleton_self _)).2.2.1

end

/-- **Which packets leave the session of another alone**: in every reachable state, the
read requests and those of a host that may not use RMP. A boot-done message ends it. -/
theorem session_kept_iff (c : Conf) (σ : Sys) (os : Os) (l : Listener) (p : Pkt) (h : HostId) (host : Host)
    (s : SessId) (ses : Session) (hr : (daemon c).Reachable σ) (hrmp : (Ev.link os l p).isRmp = true)
    (hop : p.rmpOp = .readReq ∨ p.rmpOp = .bootDone) (ht : (Ev.link os l p).host σ.w = .ok (some h))
    (hh : σ.w.hosts[h]? = some host) (hs : σ.w.sessionOf h = some s) (hl : σ.w.live s = some ses)
    (hother : ¬p.Names ses) :
    SessionKept σ.w (σ.next c (.link os l p)).w h ↔
      p.rmpOp = .readReq ∨ host.service &&& serviceRmp = 0 := by
  have hk : utilEther2host σ.w.start p.rmpSaddr = .ok (some h) := by
    rcases host_rmp hrmp ht with hk | ⟨-, hboot, -⟩
    · exact hk
    · rw [hboot] at hop
      rcases hop with hop | hop <;> cases hop
  have hisrmp : p.isRmp l.eth = true := (Bool.and_eq_true_iff.mp hrmp).2
  by_cases hsvc : host.service &&& serviceRmp = 0
  · have hrun := rmpHandler_denied c os hisrmp hk hh hsvc
    rw [← handle_rmp (c := c) hrmp] at hrun
    rw [sys_next_eq hrun]
    exact iff_of_true ⟨rfl, fun _ _ => rfl, rfl⟩ (.inr hsvc)
  have hdispatch := rmpHandler_run c os hisrmp hk hh hsvc
  rw [← handle_rmp (c := c) hrmp] at hdispatch
  rcases hop with hop | hop
  · obtain ⟨w', hread, hkept⟩ := rmpRead_keeps (w := σ.w.start) os l hs hl hother
    have hrun : rmpDispatch c os l p h host σ.w.start = .ok () w' := by
      rw [rmpDispatch, hop]
      exact hread
    rw [sys_next_eq (hdispatch.trans hrun)]
    exact iff_of_true ⟨hkept.own, hkept.live, hkept.count⟩ (.inl hop)
  · obtain ⟨w', hdel, hnone⟩ := hostSessionDelete_ends (daemon_descriptors σ hr).start hs hl
    have hrun : rmpDispatch c os l p h host σ.w.start = .ok () w' := by
      rw [rmpDispatch, hop]
      exact hdel
    rw [sys_next_eq (hdispatch.trans hrun)]
    refine iff_of_false (fun hkept => ?_) fun hcase => ?_
    · have hown := hkept.own
      rw [hnone, hs] at hown
      cases hown
    · rcases hcase with hread | hdenied
      · rw [hop] at hread
        cases hread
      · exact hsvc hdenied

/-- The client's machine says that it has booted. -/
def doneFrame : Pkt := rmpFrame (plainEther 1) 3 1 (List.replicate 28 0)

/-- The client's TFTP session. -/
def readingSession : Session := (reading.w.live 0).getD (.fresh 0 0 0)

/-- It does not leave its TFTP session alone. -/
theorem session_kept_reading :
    ¬SessionKept reading.w (reading.next plainConf (.link plainOs linkPort doneFrame)).w 0 := by
  intro hkept
  have hcase := (session_kept_iff plainConf reading plainOs linkPort doneFrame 0
    { plainHost 1 with session := some 0 } 0 readingSession reading_reachable (by decide) (.inr rfl)
      (by decide) rfl rfl rfl
    (by decide)).mp hkept
  revert hcase
  decide

/-- **Counterexample**: the message of the boot loader, repeated during the transfer,
ends the TFTP session. -/
theorem boot_done_ends_tftp : ¬∀ (c : Conf) (σ : Sys) (os : Os) (l : Listener) (p : Pkt) (h : HostId)
    (s : SessId) (ses : Session), (daemon c).Reachable σ → (Ev.link os l p).Enabled σ.w →
    (Ev.link os l p).isRmp = true → p.rmpOp = .readReq ∨ p.rmpOp = .bootDone →
    (Ev.link os l p).host σ.w = .ok (some h) → σ.w.sessionOf h = some s → σ.w.live s = some ses →
    ¬p.Names ses → SessionKept σ.w (σ.next c (.link os l p)).w h := by
  intro h
  have hkept := h plainConf reading plainOs linkPort doneFrame 0 0 readingSession reading_reachable
    ⟨List.mem_cons_of_mem _ List.mem_cons_self, rfl⟩ (by decide) (.inr rfl) (by decide) rfl rfl (by decide)
  have hgone : (reading.next plainConf (.link plainOs linkPort doneFrame)).w.sessionOf 0 = none := rfl
  have hown := hkept.own
  rw [hgone] at hown
  cases hown

end Bootd
