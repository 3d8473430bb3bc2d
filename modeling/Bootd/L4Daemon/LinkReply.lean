import Bootd.L4Daemon.Returns

/-!
# What the link-level handlers send

At most one frame goes out for a frame. `linkReply` is that frame, as a function
of the memory before the packet.

* `link_sends`: a handler that returns sends `linkReply`.
* `next_sends`: the same over the daemon; a handler that faults sends nothing.
-/
namespace Bootd

open Bootd.Core Bootd.Core.Exec

/-- mirrors src/rmp.c:158-190 -/
def rmpReadReply (os : Os) (l : Listener) (p : Pkt) (w : World) (h : HostId) : List UInt8 :=
  match (w.sessionOf h).bind w.live with
  | none => rmpReadReplFrame p l.eth rmpEAbort (some [])
  | some ses =>
    match sessionCheckOf serviceRmp p.rmpSession (some ses) with
    | .noSession => rmpReadReplFrame p l.eth rmpEAbort (some [])
    | .badSid => rmpReadReplFrame p l.eth rmpEBadsid (some [])
    | .noError =>
      let data := utilRead w os ses.bfFd (min p.rmpReadSize rmpReadReplDatalen) p.rmpSeq
      rmpReadReplFrame p l.eth (rmpReadCode data) data

/-- The frame that the RMP handler sends for `host`; a normal boot request gets
none. -/
def rmpReply (os : Os) (l : Listener) (p : Pkt) (w : World) (h : HostId) (host : Host) :
    Option (List UInt8) :=
  if host.service &&& serviceRmp = 0 then none
  else
    match p.rmpOp with
    | .bootReq =>
      if p.rmpBootVersion = rmpVersion ∧ p.rmpSession = rmpProbesid then
        (rmpProbeName l host p.rmpSeq).toOption.map fun r => rmpBootReplFrame p l.eth r.2 r.1
      else none
    | .readReq => some (rmpReadReply os l p w h)
    | .bootDone | .other _ => none

/-- The frame that the RARP handler sends. -/
def rarpReply (os : Os) (l : Listener) (p : Pkt) (w : World) : Option (List UInt8) :=
  if 22 ≤ p.len ∧ p.isRarp then
    match utilEther2host w p.rarpTha with
    | .ok (some h) => (w.hosts[h]?).bind fun host =>
        if host.service &&& serviceRarp ≠ 0 ∧ p.rarpOp = arpopRevrequest then
          some (rarpReplFrame p l.eth l.ip host.ip os.stack)
        else none
    | _ => none
  else none

/-- The frame that goes out for `p`. -/
def linkReply (os : Os) (l : Listener) (p : Pkt) (w : World) : Option (List UInt8) :=
  if p.u16 12 = ethertypeRevarp then rarpReply os l p w
  else
    match (Ev.link os l p).host w with
    | .ok (some t) => (w.hosts[t]?).bind fun host => rmpReply os l p w t host
    | _ => none

section
variable {c : Conf} {os : Os} {l : Listener} {p : Pkt} {w w' : World} {h : HostId} {host : Host}
  {s : SessId} {ses : Session} {L : List HostId} {u : Unit}

/-- Without a session that passes the check there is no data. -/
theorem rmpReadReply_refused (os : Os) (l : Listener) {check : SessionCheck}
    (hcheck : check = sessionCheckOf serviceRmp p.rmpSession ((w.sessionOf h).bind w.live))
    (hne : check ≠ .noError) :
    rmpReadReply os l p w h = rmpReadReplFrame p l.eth (rmpCheckCode check) (some []) := by
  unfold rmpReadReply
  cases hses : (w.sessionOf h).bind w.live with
  | none =>
    rw [hses] at hcheck
    rw [hcheck]
    rfl
  | some ses =>
    rw [hses] at hcheck
    simp only [← hcheck]
    cases check with
    | noError => exact absurd rfl hne
    | noSession | badSid => rfl

/-- The reply of a session is what `util_read` gives. -/
theorem rmpReadReply_session (os : Os) (l : Listener) (hs : w.sessionOf h = some s) (hl : w.live s = some ses)
    (hsvc : ses.service = serviceRmp) (hsid : ses.sid = p.rmpSession) :
    ∃ data, data = utilRead w os ses.bfFd (min p.rmpReadSize rmpReadReplDatalen) p.rmpSeq ∧
      rmpReadReply os l p w h = rmpReadReplFrame p l.eth (rmpReadCode data) data := by
  refine ⟨_, rfl, ?_⟩
  have hcheck : sessionCheckOf serviceRmp p.rmpSession (some ses) = .noError :=
    sessionCheckOf_noError.mpr ⟨ses, rfl, hsvc, hsid⟩
  simp only [rmpReadReply, hs, Option.bind_some, hl, hcheck]

/-- A read request gets one frame. -/
theorem rmpRead_sends (hr : rmpRead os l p h w = .ok u w') :
    w'.sends = w.sends ++ [frameIo l (rmpReadReply os l p w h)] := by
  rcases rmpRead_ok hr with ⟨check, hne, hcheck, rfl⟩ | ⟨s, ses, data, hs, hl, hsvc, hsid, rfl, rfl⟩
  · rw [rmpReadReply_refused os l hcheck hne, sends_emits]
    rfl
  · obtain ⟨data, rfl, hreply⟩ := rmpReadReply_session os l hs hl hsvc hsid
    rw [hreply, sends_emits]
    rfl

theorem rmpDispatch_sends (hout : w.out = []) (hsvc : host.service &&& serviceRmp ≠ 0)
    (hr : rmpDispatch c os l p h host w = .ok u w') :
    w'.sends = ((rmpReply os l p w h host).toList.map (frameIo l)) := by
  unfold rmpReply
  rw [if_neg hsvc]
  have hnil : w.sends = [] := by rw [World.sends, hout]; rfl
  unfold rmpDispatch at hr
  cases hop : p.rmpOp with
  | bootReq =>
    simp only [hop] at hr ⊢
    split at hr
    · rename_i hver
      simp only [Exec.pure_ok] at hr
      rw [← hr.2, hnil, if_neg fun hc => hver hc.1]; rfl
    · rename_i hver
      split at hr
      · rename_i hsid
        obtain ⟨name, code, hname, rfl⟩ := rmpProbe_ok hr
        rw [if_pos ⟨not_not.mp hver, hsid⟩, hname, sends_emits, hnil]; rfl
      · rename_i hsid
        rw [if_neg fun hc => hsid hc.2]
        exact sends_of_emits (rmpBoot_emits isAdmin_isSend fun _ _ _ _ => rfl) hout hr
  | readReq =>
    simp only [hop] at hr
    rw [rmpRead_sends hr, hnil]; rfl
  | bootDone =>
    simp only [hop] at hr
    exact sends_of_emits (hostSessionDelete_emits isAdmin_isSend h) hout hr
  | other n =>
    simp only [hop, Exec.pure_ok] at hr
    rw [← hr.2]
    exact hnil

theorem rarp_sends (hout : w.out = []) (hr : rarpHandler os l p w = .ok u w') :
    w'.sends = (rarpReply os l p w).toList.map (frameIo l) := by
  have hnil : w.sends = [] := by rw [World.sends, hout]; rfl
  unfold rarpHandler at hr
  unfold rarpReply
  split at hr
  swap
  · simp only [Exec.pure_ok] at hr
    rw [if_neg ‹_›, ← hr.2]
    exact hnil
  rw [if_pos ‹_›]
  simp only [Exec.bind_ok, Exec.get_ok, Exec.liftE_ok_iff] at hr
  obtain ⟨_, _, ⟨rfl, rfl⟩, o, _, ⟨ho, rfl⟩, hr⟩ := hr
  rw [ho]
  cases o with
  | none =>
    simp only [Exec.pure_ok] at hr
    rw [← hr.2]
    exact hnil
  | some h =>
    simp only [Exec.bind_ok, loadHost_ok] at hr
    obtain ⟨host, _, ⟨hh, rfl⟩, hr⟩ := hr
    simp only [hh, Option.bind_some]
    split at hr
    · rename_i hsvc
      simp only [Exec.pure_ok] at hr
      rw [if_neg fun hc => hc.1 hsvc, ← hr.2]
      exact hnil
    · rename_i hsvc
      split at hr
      · rename_i hop
        simp only [Exec.bind_ok, emit_ok, iListenerLinkSend_ok] at hr
        obtain ⟨_, _, rfl, rfl⟩ := hr
        rw [if_pos ⟨hsvc, hop⟩, sends_emits, World.sends, World.emit, hout]
        rfl
      · rename_i hop
        simp only [Exec.pure_ok] at hr
        rw [if_neg fun hc => hop hc.2, ← hr.2]
        exact hnil

/-- **What a link-level handler sends.** -/
theorem link_sends (hok : HostsOk w L) (hout : w.out = []) (hr : linkCallback c os l p w = .ok u w') :
    w'.sends = (linkReply os l p w).toList.map (frameIo l) := by
  have hnil : w.sends = [] := by rw [World.sends, hout]; rfl
  unfold linkCallback at hr
  unfold linkReply
  split at hr
  · rw [if_pos ‹_›]
    exact rarp_sends hout hr
  rw [if_neg ‹_›]
  split at hr
  swap
  · rename_i hsap
    have hno : ¬(Ev.link os l p).isRmp = true := fun hc => hsap (Bool.and_eq_true_iff.mp hc).1
    simp only [Exec.pure_ok] at hr
    rw [← hr.2, Ev.host, if_neg hno]
    exact hnil
  rename_i hsap
  rcases rmpHandler_ok hr with ⟨hrmp, rfl⟩ | ⟨hrmp, o, w₁, hhost, hcase⟩
  · have hno : ¬(Ev.link os l p).isRmp = true := fun hc => by
      rw [(Bool.and_eq_true_iff.mp hc).2] at hrmp; cases hrmp
    rw [Ev.host, if_neg hno]
    exact hnil
  have hisrmp : (Ev.link os l p).isRmp = true := Bool.and_eq_true_iff.mpr ⟨hsap, hrmp⟩
  rw [Ev.host, if_pos hisrmp]
  cases hhost with
  | known h hk =>
    rcases hcase with ⟨ho, -⟩ | ⟨h', host, ho, hh, hcase⟩
    · cases ho
    cases ho
    rw [hk]
    simp only [hh, Option.bind_some]
    rcases hcase with ⟨hsvc, rfl⟩ | ⟨hsvc, hd⟩
    · rw [rmpReply, if_pos hsvc]
      exact hnil
    · exact rmpDispatch_sends hout hsvc hd
  | unknown hk hn =>
    rcases hcase with ⟨-, rfl⟩ | ⟨h', host, ho, -⟩
    · rw [hk]
      simp only
      by_cases hop : p.rmpOp = .bootReq
      · rw [if_pos hop, hn hop]
        exact hnil
      · rw [if_neg hop]
        exact hnil
    · cases ho
  | cloned t tmpl h b _ hk hop ht htm hadd =>
    rcases hcase with ⟨ho, -⟩ | ⟨h', host, ho, hh, hcase⟩
    · cases ho
    cases ho
    obtain ⟨-, hf, -, g, hg, -, hsvc', hfiles, -⟩ := clone_ok hok (hostFind_mem hok ht) htm hadd
    rw [hg] at hh; cases hh
    have hreply : rmpReply os l p w₁ h host = rmpReply os l p w t tmpl := by
      simp only [rmpReply, hop, hsvc', rmpProbeName, hfiles]
    rw [hk]
    simp only [hop, if_true, ht, htm, Option.bind_some]
    rw [← hreply]
    rcases hcase with ⟨hsvc, rfl⟩ | ⟨hsvc, hd⟩
    · rw [rmpReply, if_pos hsvc, World.sends, hf.out, hout]; rfl
    · exact rmpDispatch_sends (hf.out.trans hout) hsvc hd

theorem handle_rmp (hrmp : (Ev.link os l p).isRmp = true) :
    (Ev.link os l p).handle c = rmpHandler c os l p := by
  have hsap : p.isSapHp = true := (Bool.and_eq_true_iff.mp hrmp).1
  have hne : p.u16 12 ≠ ethertypeRevarp := (of_decide_eq_true hsap).1
  exact (if_neg hne).trans (if_pos hsap)

/-- The host of an RMP packet is known, or is the one that the machine type names. -/
theorem host_rmp {t : HostId} (hrmp : (Ev.link os l p).isRmp = true)
    (ht : (Ev.link os l p).host w = .ok (some t)) :
    utilEther2host w p.rmpSaddr = .ok (some t) ∨
      (utilEther2host w p.rmpSaddr = .ok none ∧ p.rmpOp = .bootReq ∧
        utilName2host w p.rmpMachtype = .ok (some t)) := by
  rw [Ev.host, if_pos hrmp] at ht
  cases hk : utilEther2host w p.rmpSaddr with
  | error e => rw [hk] at ht; cases ht
  | ok o =>
    cases o with
    | some h => rw [hk] at ht; exact .inl ht
    | none =>
      rw [hk] at ht
      by_cases hop : p.rmpOp = .bootReq
      · simp only [hop, if_true] at ht
        exact .inr ⟨rfl, hop, ht⟩
      · simp only [hop, if_false] at ht
        cases ht

/-- A RARP packet whose host is found. -/
theorem rarp_returns (hlen : 22 ≤ p.len) (hrarp : p.isRarp = true)
    (hk : utilEther2host w p.rarpTha = .ok (some h)) (hh : w.hosts[h]? = some host) :
    Returns (rarpHandler os l p) w := by
  unfold rarpHandler
  rw [if_pos ⟨hlen, hrarp⟩, returns_get_bind, hk, Exec.liftE_ok, pure_bind, returns_loadHost_bind]
  refine ⟨host, hh, ?_⟩
  split
  · exact returns_pure _
  · split
    · exact ⟨_, _, rfl⟩
    · exact returns_pure _

/-- What the daemon sends for a frame. -/
theorem next_sends {σ : Sys} (hr : (daemon c).Reachable σ) (os : Os) (l : Listener) (p : Pkt) :
    (Returns ((Ev.link os l p).handle c) σ.w.start ∧
        (σ.next c (.link os l p)).w.sends = (linkReply os l p σ.w).toList.map (frameIo l)) ∨
      (¬Returns ((Ev.link os l p).handle c) σ.w.start ∧ (σ.next c (.link os l p)).w.sends = []) := by
  obtain ⟨L, hok⟩ := daemon_hostsOk σ hr
  by_cases hret : Returns ((Ev.link os l p).handle c) σ.w.start
  · obtain ⟨u, w', hx⟩ := hret
    have hsends := link_sends hok.start rfl hx
    rw [sys_next_eq hx]
    exact .inl ⟨⟨u, w', hx⟩, hsends⟩
  · exact .inr ⟨hret, next_faults hret⟩

end
end Bootd
