import Bootd.L1Wire.Rmp
import Bootd.L2State.Files
import Bootd.L2State.Hosts
import Bootd.L2State.Trace

/-!
# The link-level handlers (`rmp.c:17-199`, `rarp.c:20-89`)

`rmp_logpacket` and `rarp_logpacket` only write to the log and are left out. A
boot request from an unknown machine whose machine type is the name of a
configured host is served through a clone of that host.

A normal boot request prepares a reply and never sends it, so of the reply only
the session and the open file remain; its last statement logs `f->path`, with
`f` still NULL when no file was found.

* `rmpHost_ok`, `rmpHandler_ok`, `rmpBoot_ok`, `rmpRead_ok`, `rarpHandler_ok`:
  the memory and the trace after a handler that returns.
* `rmpHandler_trace`: what the RMP handler leaves in the trace, for any way it
  ends.
-/
namespace Bootd

open Bootd.Core

/-! ## RMP -/

/-- Whether the frame is an RMP packet for this listener.
mirrors src/rmp.c:28-45 -/
def Pkt.isRmp (p : Pkt) (eth : Ether) : Bool :=
  rmpHeaderLen ≤ p.len ∧ (p.rmpDaddr = rmpAddr ∨ p.rmpDaddr = eth) ∧ p.rmpDsap = sapHp ∧
    p.rmpCntl = cntlHp ∧ p.rmpDxsap = dxsapHp

/-- The host a request is for: the one with the source address, else a clone
of the one named after the machine type.
mirrors src/rmp.c:48-59 -/
def rmpHost (c : Conf) (os : Os) (p : Pkt) : M (Option HostId) := do
  match ← Exec.liftE (utilEther2host (← get) p.rmpSaddr) with
  | some h => pure (some h)
  | none =>
    if p.rmpOp = .bootReq then do
      match ← Exec.liftE (utilName2host (← get) p.rmpMachtype) with
      | none => pure none
      | some t => do
        let (h, _) ← hostClone c os t none (some p.rmpSaddr) none
        pure (some h)
    else pure none

/-- The name a probe asks for, and the return code.
mirrors src/rmp.c:97-112 -/
def rmpProbeName (l : Listener) (host : Host) (seq : Int) : Except Fault (CStr × UInt8) :=
  let text : Option CStr → Except Fault CStr
    | some s => .ok s
    | none => .error .segv
  if seq = 0 then do
    .ok (← text l.name, rmpEOkay)
  else
    match utilName2file host.files serviceRmp none (int32 (seq - 1)) with
    | some f => do
      .ok (← text f.name, rmpEOkay)
    | none => .ok ([], rmpENodflt)

/-- mirrors src/rmp.c:93-118 -/
def rmpProbe (l : Listener) (p : Pkt) (host : Host) : M Unit := do
  let (filename, retcode) ← Exec.liftE (rmpProbeName l host p.rmpSeq)
  iListenerLinkSend l (rmpBootReplFrame p l.eth retcode filename)

/-- `util_name2file(h, SERVICE_RMP, filename, 0)` for the requested name. -/
def rmpFile (host : Host) (p : Pkt) : Option File :=
  utilName2file host.files serviceRmp (some p.rmpFilename) 0

/-- mirrors src/rmp.c:119-157 -/
def rmpBoot (c : Conf) (os : Os) (p : Pkt) (h : HostId) (host : Host) : M Unit := do
  match rmpFile host p with
  | none => throw .segv
  | some f => do
    modify fun w => { w with rmpSid := int32 (w.rmpSid + 1) }
    let granted ← hostSessionAdd c os h serviceRmp (← get).rmpSid
    if granted then do
      let _ ← openFile os h f.path
      pure ()
    else pure ()

/-- mirrors src/rmp.c:158-190 -/
def rmpRead (os : Os) (l : Listener) (p : Pkt) (h : HostId) : M Unit := do
  let send (retcode : UInt8) (data : Option (List UInt8)) : M Unit :=
    iListenerLinkSend l (rmpReadReplFrame p l.eth retcode data)
  match ← hostSessionCheck os h serviceRmp p.rmpSession with
  | .noSession => send rmpEAbort (some [])
  | .badSid => send rmpEBadsid (some [])
  | .noError => do
    match (← get).sessionOf h with
    | none => throw .segv
    | some s => do
      let ses ← loadSession s
      match utilRead (← get) os ses.bfFd (min p.rmpReadSize rmpReadReplDatalen) p.rmpSeq with
      | none => send rmpEAbort none
      | some [] => send rmpEEof (some [])
      | some data => send rmpEOkay (some data)

/-- mirrors src/rmp.c:86-199, for a host that may use RMP. -/
def rmpDispatch (c : Conf) (os : Os) (l : Listener) (p : Pkt) (h : HostId) (host : Host) : M Unit :=
  match p.rmpOp with
  | .bootReq =>
    if p.rmpBootVersion ≠ rmpVersion then pure ()
    else if p.rmpSession = rmpProbesid then rmpProbe l p host
    else rmpBoot c os p h host
  | .readReq => rmpRead os l p h
  | .bootDone => hostSessionDelete h
  | .other _ => pure ()

/-- mirrors src/rmp.c:17-199 -/
def rmpHandler (c : Conf) (os : Os) (l : Listener) (p : Pkt) : M Unit :=
  if p.isRmp l.eth then do
    match ← rmpHost c os p with
    | none => pure ()
    | some h => do
      let host ← loadHost h
      if host.service &&& serviceRmp = 0 then pure ()
      else rmpDispatch c os l p h host
  else pure ()

/-! ## RARP -/

/-- mirrors src/rarp.c:20-89 -/
def rarpHandler (os : Os) (l : Listener) (p : Pkt) : M Unit :=
  if 22 ≤ p.len ∧ p.isRarp then do
    match ← Exec.liftE (utilEther2host (← get) p.rarpTha) with
    | none => pure ()
    | some h => do
      let host ← loadHost h
      if host.service &&& serviceRarp = 0 then pure ()
      else if p.rarpOp = arpopRevrequest then do
        emit (.arp host.ip host.eth)
        iListenerLinkSend l (rarpReplFrame p l.eth l.ip host.ip os.stack)
      else pure ()
  else pure ()

/-! ## What the handlers do -/

section
variable {c : Conf} {os : Os} {l : Listener} {p : Pkt} {h : HostId} {host : Host} {o : Option HostId}
  {w w' : World} {u : Unit}

/-- The frame handed to `i_listener_link_send`. -/
def frameIo (l : Listener) (frame : List UInt8) : Io :=
  .link l frame (decide (62 ≤ frame.length))

@[simp] theorem iListenerLinkSend_ok {frame : List UInt8} :
    iListenerLinkSend l frame w = .ok u w' ↔ w.emits [frameIo l frame] = w' := by
  simp [iListenerLinkSend, World.emit, World.emits, frameIo]

/-- How the host of a packet is found. -/
inductive RmpHost (c : Conf) (os : Os) (p : Pkt) (w : World) : Option HostId → World → Prop
  | known (h : HostId) : utilEther2host w p.rmpSaddr = .ok (some h) → RmpHost c os p w (some h) w
  | unknown : utilEther2host w p.rmpSaddr = .ok none →
      (p.rmpOp = .bootReq → utilName2host w p.rmpMachtype = .ok none) → RmpHost c os p w none w
  | cloned (t : HostId) (tmpl : Host) (h : HostId) (b : Bool) (w' : World) :
      utilEther2host w p.rmpSaddr = .ok none → p.rmpOp = .bootReq →
      utilName2host w p.rmpMachtype = .ok (some t) → w.hosts[t]? = some tmpl →
      hostAddNew c os (cloneOf tmpl none (some p.rmpSaddr) none) w = .ok (h, b) w' →
      RmpHost c os p w (some h) w'

theorem rmpHost_ok (hr : rmpHost c os p w = .ok o w') : RmpHost c os p w o w' := by
  simp only [rmpHost, Exec.bind_ok, Exec.get_ok, Exec.liftE_ok_iff] at hr
  obtain ⟨_, _, ⟨rfl, rfl⟩, known, _, ⟨hk, rfl⟩, hr⟩ := hr
  cases known with
  | some h =>
    simp only [Exec.pure_ok] at hr
    obtain ⟨rfl, rfl⟩ := hr
    exact .known h hk
  | none =>
    by_cases hop : p.rmpOp = .bootReq
    · simp only [hop, if_true, Exec.bind_ok, Exec.get_ok, Exec.liftE_ok_iff] at hr
      obtain ⟨_, _, ⟨rfl, rfl⟩, tmpl, _, ⟨ht, rfl⟩, hr⟩ := hr
      cases tmpl with
      | none =>
        simp only [Exec.pure_ok] at hr
        obtain ⟨rfl, rfl⟩ := hr
        exact .unknown hk fun _ => ht
      | some t =>
        simp only [hostClone, Exec.bind_ok, loadHost_ok, Exec.pure_ok] at hr
        obtain ⟨⟨h, b⟩, w₁, ⟨tmpl, _, ⟨hh, rfl⟩, hr⟩, rfl, rfl⟩ := hr
        exact .cloned t tmpl h b _ hk hop ht hh hr
    · simp only [hop, if_false, Exec.pure_ok] at hr
      obtain ⟨rfl, rfl⟩ := hr
      exact .unknown hk fun e => absurd e hop

theorem rmpHandler_ok (hr : rmpHandler c os l p w = .ok u w') :
    (p.isRmp l.eth = false ∧ w' = w) ∨
      (p.isRmp l.eth = true ∧ ∃ o w₁, RmpHost c os p w o w₁ ∧
        ((o = none ∧ w' = w₁) ∨ ∃ h host, o = some h ∧ w₁.hosts[h]? = some host ∧
          ((host.service &&& serviceRmp = 0 ∧ w' = w₁) ∨
            (host.service &&& serviceRmp ≠ 0 ∧ rmpDispatch c os l p h host w₁ = .ok u w')))) := by
  unfold rmpHandler at hr
  split at hr
  · rename_i hrmp
    simp only [Exec.bind_ok] at hr
    obtain ⟨o, w₁, h1, hr⟩ := hr
    refine .inr ⟨hrmp, o, w₁, rmpHost_ok h1, ?_⟩
    cases o with
    | none =>
      simp only [Exec.pure_ok] at hr
      exact .inl ⟨rfl, hr.2.symm⟩
    | some h =>
      simp only [Exec.bind_ok, loadHost_ok] at hr
      obtain ⟨host, _, ⟨hh, rfl⟩, hr⟩ := hr
      refine .inr ⟨h, host, rfl, hh, ?_⟩
      split at hr
      · simp only [Exec.pure_ok] at hr
        exact .inl ⟨‹_›, hr.2.symm⟩
      · exact .inr ⟨‹_›, hr⟩
  · rename_i hrmp
    simp only [Exec.pure_ok] at hr
    exact .inl ⟨eq_false_of_ne_true hrmp, hr.2.symm⟩

/-- A packet of a host that is in the table. -/
theorem rmpHandler_run (c : Conf) (os : Os) (hrmp : p.isRmp l.eth = true)
    (hk : utilEther2host w p.rmpSaddr = .ok (some h)) (hh : w.hosts[h]? = some host)
    (hsvc : host.service &&& serviceRmp ≠ 0) :
    rmpHandler c os l p w = rmpDispatch c os l p h host w := by
  unfold rmpHandler rmpHost
  rw [if_pos hrmp, bind_assoc, Exec.get_run, bind_assoc, hk, Exec.liftE_ok, pure_bind, pure_bind]
  exact (Exec.bind_run (loadHost_ok.mpr ⟨hh, rfl⟩)).trans (by rw [if_neg hsvc])

theorem rmpProbe_ok (hr : rmpProbe l p host w = .ok u w') :
    ∃ filename retcode, rmpProbeName l host p.rmpSeq = .ok (filename, retcode) ∧
      w' = w.emits [frameIo l (rmpBootReplFrame p l.eth retcode filename)] := by
  simp only [rmpProbe, Exec.bind_ok, Exec.liftE_ok_iff] at hr
  obtain ⟨⟨filename, retcode⟩, _, ⟨hname, rfl⟩, hr⟩ := hr
  exact ⟨filename, retcode, hname, (iListenerLinkSend_ok.mp hr).symm⟩

/-- The session id counts up, whatever becomes of the request. -/
@[simps] def World.nextSid (w : World) : World := { w with rmpSid := int32 (w.rmpSid + 1) }

/-- The end of a normal boot request, once the session `s` is granted. -/
inductive Booted (os : Os) (h : HostId) (f : File) (s : SessId) (w : World) : World → Prop
  | openFailed (e : Errno) : os.openf f.path = .error e → Booted os h f s w (w.openFailed h s f.path)
  | opened (d : List UInt8) : os.openf f.path = .ok d → Booted os h f s w (w.opened h s f.path d)

theorem rmpBoot_ok (hr : rmpBoot c os p h host w = .ok u w') :
    ∃ f ps w₃, rmpFile host p = some f ∧ Chain.Path w.nextSid.next w.nextSid.gHosts ps none ∧
      w.nextSid.SessionsLive ps ∧ Ends (w.nextSid.replaced c os ps h) w.nextSid w₃ ∧
      h < w₃.hosts.length ∧ w₃.sessionOf h = none ∧
      ((c.cSessionMax ≤ w₃.gNSessions ∧ w' = w₃) ∨
        (w₃.gNSessions < c.cSessionMax ∧ Booted os h f w₃.sessions.length
          (w₃.startSession h (.fresh serviceRmp w.nextSid.rmpSid os.now)) w')) := by
  unfold rmpBoot at hr
  cases hf : rmpFile host p with
  | none => simp [hf] at hr
  | some f =>
    simp only [hf, Exec.bind_ok, Exec.modify_ok, Exec.get_ok] at hr
    obtain ⟨_, _, rfl, _, _, ⟨rfl, rfl⟩, granted, w₄, h4, hr⟩ := hr
    obtain ⟨ps, w₃, hpath, hlive, he, hlt, hnone, hcase⟩ := hostSessionAdd_ok h4
    rw [← he.frame.length] at hlt
    refine ⟨f, ps, w₃, rfl, hpath, hlive, he, hlt, hnone, ?_⟩
    rcases hcase with ⟨rfl, hmax, rfl⟩ | ⟨rfl, hmax, rfl⟩
    · refine .inr ⟨hmax, ?_⟩
      rw [if_pos rfl] at hr
      simp only [Exec.bind_ok, Exec.pure_ok] at hr
      obtain ⟨r, w₅, h5, -, rfl⟩ := hr
      obtain ⟨s, ses, hs, hl, hcase⟩ := openFile_ok h5
      rw [sessionOf_startSession, if_pos ⟨rfl, hlt⟩] at hs
      cases hs
      rcases hcase with ⟨e, ho, -, rfl⟩ | ⟨d, ho, -, rfl⟩
      · exact .openFailed e ho
      · exact .opened d ho
    · rw [if_neg (by simp), Exec.pure_ok] at hr
      exact .inl ⟨hmax, hr.2.symm⟩

/-- The return code for what `util_read` gave. -/
def rmpReadCode : Option (List UInt8) → UInt8
  | none => rmpEAbort
  | some [] => rmpEEof
  | some (_ :: _) => rmpEOkay

/-- The return code for a session that does not pass the check. -/
def rmpCheckCode : SessionCheck → UInt8
  | .noSession => rmpEAbort
  | .badSid => rmpEBadsid
  | .noError => rmpEOkay

/-- A read request is refused, or answered from the session's file. -/
theorem rmpRead_ok (hr : rmpRead os l p h w = .ok u w') :
    (∃ check, check ≠ .noError ∧
        check = sessionCheckOf serviceRmp p.rmpSession ((w.sessionOf h).bind w.live) ∧
        w' = w.emits [frameIo l (rmpReadReplFrame p l.eth (rmpCheckCode check) (some []))]) ∨
      ∃ s ses data, w.sessionOf h = some s ∧ w.live s = some ses ∧ ses.service = serviceRmp ∧
        ses.sid = p.rmpSession ∧
        data = utilRead w os ses.bfFd (min p.rmpReadSize rmpReadReplDatalen) p.rmpSeq ∧
        w' = (w.touch s os.now).emits
          [frameIo l (rmpReadReplFrame p l.eth (rmpReadCode data) data)] := by
  simp only [rmpRead, Exec.bind_ok] at hr
  obtain ⟨check, w₁, h1, hr⟩ := hr
  have hcheck := (hostSessionCheck_result h1).1
  rcases hostSessionCheck_ok h1 with ⟨hne, rfl⟩ | ⟨rfl, s, ses, hs, hl, hsvc, hsid, rfl⟩
  · refine .inl ⟨check, hne, hcheck, ?_⟩
    cases check with
    | noError => exact absurd rfl hne
    | noSession => exact (iListenerLinkSend_ok.mp hr).symm
    | badSid => exact (iListenerLinkSend_ok.mp hr).symm
  · refine .inr ⟨s, ses, _, hs, hl, hsvc, hsid, rfl, ?_⟩
    simp only [Exec.bind_ok, Exec.get_ok] at hr
    obtain ⟨_, _, ⟨rfl, rfl⟩, hr⟩ := hr
    have hs' : (w.touch s os.now).sessionOf h = some s := hs
    simp only [hs', Exec.bind_ok, Exec.get_ok, loadSession_ok] at hr
    obtain ⟨ses', _, ⟨hl', rfl⟩, _, _, ⟨rfl, rfl⟩, hr⟩ := hr
    have hfd : ses'.bfFd = ses.bfFd := by
      rw [live_touch _ hl] at hl'
      cases hl'; rfl
    have hread : utilRead (w.touch s os.now) os ses'.bfFd (min p.rmpReadSize rmpReadReplDatalen)
        p.rmpSeq = utilRead w os ses.bfFd (min p.rmpReadSize rmpReadReplDatalen) p.rmpSeq := by
      rw [hfd]; rfl
    rw [hread] at hr
    cases hd : utilRead w os ses.bfFd (min p.rmpReadSize rmpReadReplDatalen) p.rmpSeq with
    | none => simp only [hd] at hr; exact (iListenerLinkSend_ok.mp hr).symm
    | some d =>
      cases d with
      | nil => simp only [hd] at hr; exact (iListenerLinkSend_ok.mp hr).symm
      | cons b bs => simp only [hd] at hr; exact (iListenerLinkSend_ok.mp hr).symm

/-- The frames of RARP are its own. -/
theorem rarpHandler_ok (hr : rarpHandler os l p w = .ok u w') :
    w' = w ∨ ∃ ip eth hip, w' = w.emits
      [.arp ip eth, frameIo l (rarpReplFrame p l.eth l.ip hip os.stack)] := by
  unfold rarpHandler at hr
  split at hr
  · simp only [Exec.bind_ok, Exec.get_ok, Exec.liftE_ok_iff] at hr
    obtain ⟨_, _, ⟨rfl, rfl⟩, o, _, ⟨-, rfl⟩, hr⟩ := hr
    cases o with
    | none =>
      simp only [Exec.pure_ok] at hr
      exact .inl hr.2.symm
    | some h =>
      simp only [Exec.bind_ok, loadHost_ok] at hr
      obtain ⟨host, _, ⟨-, rfl⟩, hr⟩ := hr
      split at hr
      · simp only [Exec.pure_ok] at hr
        exact .inl hr.2.symm
      · split at hr
        · simp only [Exec.bind_ok, emit_ok, iListenerLinkSend_ok] at hr
          obtain ⟨_, _, rfl, rfl⟩ := hr
          exact .inr ⟨host.ip, host.eth, host.ip, by simp [World.emit, World.emits]⟩
        · simp only [Exec.pure_ok] at hr
          exact .inl hr.2.symm
  · simp only [Exec.pure_ok] at hr
    exact .inl hr.2.symm

end

/-! ## What the handlers emit -/

section
variable {P : Io → Prop} {c : Conf} {os : Os} {l : Listener} {p : Pkt} {h : HostId} {host : Host}

theorem iListenerLinkSend_emits (hsend : ∀ frame b, P (.link l frame b)) (frame : List UInt8) :
    Emits P (iListenerLinkSend l frame) :=
  emit_emits (hsend _ _)

theorem rmpHost_emits : Emits P (rmpHost c os p) := by
  refine .bind .get fun w => .bind (.liftE _) fun o => ?_
  cases o with
  | some h => exact .pure _
  | none =>
    refine .ite (fun _ => ?_) fun _ => .pure _
    refine .bind .get fun w => .bind (.liftE _) fun o => ?_
    cases o with
    | none => exact .pure _
    | some t => exact .bind (hostClone_emits c os t _ _ _) fun _ => .pure _

theorem rmpProbe_emits (hsend : ∀ frame b, P (.link l frame b)) : Emits P (rmpProbe l p host) := by
  unfold rmpProbe
  refine .bind (.liftE _) fun r => ?_
  obtain ⟨filename, retcode⟩ := r
  exact iListenerLinkSend_emits hsend _

theorem rmpBoot_emits (hadmin : ∀ io, io.isAdmin = true → P io)
    (hopen : ∀ f, rmpFile host p = some f → ∀ s r, P (.openFile h s f.path r)) :
    Emits P (rmpBoot c os p h host) := by
  unfold rmpBoot
  cases hf : rmpFile host p with
  | none => exact .throw _
  | some f =>
    refine .bind (.silent fun _ => rfl) fun _ => .bind .get fun w => ?_
    refine .bind (hostSessionAdd_emits hadmin c os h _ _) fun granted => ?_
    refine .ite (fun _ => ?_) fun _ => .pure _
    exact .bind (openFile_emits os h f.path (hopen f hf)) fun _ => .pure _

theorem rmpRead_emits (hsend : ∀ frame b, P (.link l frame b)) : Emits P (rmpRead os l p h) := by
  refine .bind (hostSessionCheck_emits os h _ _) fun check => ?_
  cases check with
  | noSession => exact iListenerLinkSend_emits hsend _
  | badSid => exact iListenerLinkSend_emits hsend _
  | noError =>
    refine .bind .get fun w => ?_
    cases w.sessionOf h with
    | none => exact .throw _
    | some s =>
      refine .bind (loadSession_emits s) fun ses => .bind .get fun w => ?_
      dsimp only
      split <;> exact iListenerLinkSend_emits hsend _

theorem rmpDispatch_emits (hadmin : ∀ io, io.isAdmin = true → P io)
    (hsend : ∀ frame b, P (.link l frame b))
    (hopen : ∀ f, p.rmpOp = .bootReq → rmpFile host p = some f → ∀ s r, P (.openFile h s f.path r)) :
    Emits P (rmpDispatch c os l p h host) := by
  unfold rmpDispatch
  cases hop : p.rmpOp with
  | bootReq =>
    refine .ite (fun _ => .pure _) fun _ => .ite (fun _ => ?_) fun _ => ?_
    · exact rmpProbe_emits hsend
    · exact rmpBoot_emits hadmin fun f hf => hopen f hop hf
  | readReq => exact rmpRead_emits hsend
  | bootDone => exact hostSessionDelete_emits hadmin h
  | other n => exact .pure _

/-- The trace of the handler: frames go out on the listener they came in on,
and a file is opened for the host of the packet only. -/
theorem rmpHandler_trace (w : World) (hadmin : ∀ io, io.isAdmin = true → P io)
    (hsend : ∀ frame b, P (.link l frame b))
    (hopen : ∀ h host f w₁, RmpHost c os p w.start (some h) w₁ → w₁.hosts[h]? = some host →
      host.service &&& serviceRmp ≠ 0 → p.rmpOp = .bootReq → rmpFile host p = some f →
      ∀ s r, P (.openFile h s f.path r)) :
    ∀ io ∈ traceOf (rmpHandler c os l p) w, P io := by
  refine Exec.wp_final (I := fun w : World => ∀ io ∈ w.out, P io) ?_
  have hnil : ∀ io ∈ w.start.out, P io := fun io hio => by cases hio
  unfold rmpHandler
  split
  · rw [Exec.wp_bind]
    have hemits : Emits P (rmpHost c os p) := rmpHost_emits
    have hfirst := Exec.wp_iff.mp (hemits.keeps w.start hnil)
    refine Exec.wp_iff.mpr ⟨fun o w₁ h1 => ?_, hfirst.2⟩
    have hout := hfirst.1 o w₁ h1
    cases o with
    | none => exact hout
    | some h =>
      rw [Exec.wp_bind, loadHost_wp]
      refine ⟨fun host hh => ?_, fun _ => hout⟩
      by_cases hsvc : host.service &&& serviceRmp = 0
      · rw [if_pos hsvc]; exact hout
      · rw [if_neg hsvc]
        exact (rmpDispatch_emits hadmin hsend
          fun f hop hf => hopen h host f w₁ (rmpHost_ok h1) hh hsvc hop hf).keeps _ hout
  · exact hnil

theorem rarpHandler_emits (harp : ∀ ip eth, P (.arp ip eth))
    (hsend : ∀ frame b, P (.link l frame b)) : Emits P (rarpHandler os l p) := by
  refine .ite (fun _ => ?_) fun _ => .pure _
  refine .bind .get fun w => .bind (.liftE _) fun o => ?_
  cases o with
  | none => exact .pure _
  | some h =>
    refine .bind (loadHost_emits h) fun host => .ite (fun _ => .pure _) fun _ => ?_
    refine .ite (fun _ => ?_) fun _ => .pure _
    exact .bind (emit_emits (harp _ _)) fun _ => iListenerLinkSend_emits hsend _

/-! ### A fault comes before anything is sent -/

theorem iListenerLinkSend_sendsLast (frame : List UInt8) :
    SendsLast (iListenerLinkSend l frame) :=
  .total fun _ => trivial

theorem rmpProbe_sendsLast : SendsLast (rmpProbe l p host) := by
  unfold rmpProbe
  refine .bind (.liftE _) fun r => ?_
  obtain ⟨filename, retcode⟩ := r
  exact iListenerLinkSend_sendsLast _

theorem rmpRead_sendsLast : SendsLast (rmpRead os l p h) := by
  refine .bind (hostSessionCheck_emits os h _ _) fun check => ?_
  cases check with
  | noSession => exact iListenerLinkSend_sendsLast _
  | badSid => exact iListenerLinkSend_sendsLast _
  | noError =>
    refine .bind .get fun w => ?_
    cases w.sessionOf h with
    | none => exact (Emits.throw _).last
    | some s =>
      refine .bind (loadSession_emits s) fun ses => .bind .get fun w => ?_
      dsimp only
      split <;> exact iListenerLinkSend_sendsLast _

theorem rmpHandler_sendsLast : SendsLast (rmpHandler c os l p) := by
  unfold rmpHandler
  refine .ite (.bind rmpHost_emits fun o => ?_) (Emits.pure ()).last
  cases o with
  | none => exact (Emits.pure ()).last
  | some h =>
    refine .bind (loadHost_emits h) fun host => .ite (Emits.pure ()).last ?_
    unfold rmpDispatch
    cases p.rmpOp with
    | bootReq =>
      refine .ite (Emits.pure ()).last (.ite rmpProbe_sendsLast ?_)
      exact (rmpBoot_emits isAdmin_isSend fun _ _ _ _ => rfl).last
    | readReq => exact rmpRead_sendsLast
    | bootDone => exact (hostSessionDelete_emits isAdmin_isSend h).last
    | other n => exact (Emits.pure ()).last

theorem rarpHandler_sendsLast : SendsLast (rarpHandler os l p) := by
  unfold rarpHandler
  refine .ite (.bind .get fun w => .bind (.liftE _) fun o => ?_) (Emits.pure ()).last
  cases o with
  | none => exact (Emits.pure ()).last
  | some h =>
    refine .bind (loadHost_emits h) fun host => .ite (Emits.pure ()).last ?_
    refine .ite (.bind (emit_emits rfl) fun _ => ?_) (Emits.pure ()).last
    exact iListenerLinkSend_sendsLast _

end
end Bootd
