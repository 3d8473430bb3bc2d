import Bootd.Bugs.RmpCrash
import Bootd.Bugs.SessionId
import Bootd.L4Daemon.LinkReply

/-!
# A normal boot request is never answered

`rmp_handler` builds the reply of a normal boot request (src/rmp.c:119-156) and
then leaves the switch: `l->send` is only called for a probe
(src/rmp.c:115-118). A probe's reply is `RMP_BOOT_REPL + flnm_size` bytes long,
where `RMP_BOOT_REPL` leaves out the Ethernet header, and
`i_listener_link_send` refuses frames under 62 bytes.

Counterexample: a boot request for a configured file gets its session, and no
reply (`rmp_boot_unanswered`).

`rmp_boot_answered_iff`: the boot requests that are answered, in every reachable
state.
-/
namespace Bootd

open Bootd.Core Bootd.Core.Exec

/-- The name a probe asks for: the server's, or that of one of the host's files. -/
def probeName (l : Listener) (host : Host) (seq : Int) : Option CStr :=
  if seq = 0 then l.name
  else (utilName2file host.files serviceRmp none (int32 (seq - 1))).bind File.name

/-- The return code for the outcome of a boot request charged to `host`, the
listed host `t`.
mirrors src/rmp.c:97-112 (probes), src/rmp.c:120-153 -/
inductive BootOutcome (c : Conf) (os : Os) (p : Pkt) (w : World) (t : HostId) (host : Host) :
    UInt8 → Prop
  | serverId : p.rmpSession = rmpProbesid → p.rmpSeq = 0 → BootOutcome c os p w t host rmpEOkay
  | nextFile (f : File) : p.rmpSession = rmpProbesid → p.rmpSeq ≠ 0 →
      utilName2file host.files serviceRmp none (int32 (p.rmpSeq - 1)) = some f →
      BootOutcome c os p w t host rmpEOkay
  | noDefault : p.rmpSession = rmpProbesid → p.rmpSeq ≠ 0 →
      utilName2file host.files serviceRmp none (int32 (p.rmpSeq - 1)) = none →
      BootOutcome c os p w t host rmpENodflt
  | noFile : p.rmpSession ≠ rmpProbesid → rmpFile host p = none →
      BootOutcome c os p w t host rmpENofile
  | busy (f : File) : p.rmpSession ≠ rmpProbesid → rmpFile host p = some f → Busy c os w t →
      BootOutcome c os p w t host rmpEBusy
  | opened (f : File) (d : List UInt8) : p.rmpSession ≠ rmpProbesid → rmpFile host p = some f →
      ¬Busy c os w t → os.openf f.path = .ok d → BootOutcome c os p w t host rmpEOkay
  | missing (f : File) : p.rmpSession ≠ rmpProbesid → rmpFile host p = some f → ¬Busy c os w t →
      os.openf f.path = .error .enoent → BootOutcome c os p w t host rmpENofile
  | crowded (f : File) (e : Errno) : p.rmpSession ≠ rmpProbesid → rmpFile host p = some f →
      ¬Busy c os w t → os.openf f.path = .error e → e = .emfile ∨ e = .enfile →
      BootOutcome c os p w t host rmpEBusy
  | openFailed (f : File) (e : Errno) : p.rmpSession ≠ rmpProbesid → rmpFile host p = some f →
      ¬Busy c os w t → os.openf f.path = .error e → e ≠ .enoent → e ≠ .emfile → e ≠ .enfile →
      BootOutcome c os p w t host rmpEOpenfile

/-- `frame` is the boot reply that such a request calls for, once the daemon is
in `w'`. -/
structure BootReply (c : Conf) (os : Os) (p : Pkt) (w : World) (t : HostId) (host : Host) (w' : World)
    (frame : List UInt8) : Prop where
  type : frame[24]? = some rmpBootRepl
  outcome : ∃ code, frame[25]? = some code ∧ BootOutcome c os p w t host code
  len : ∃ size, frame[34]? = some size ∧ (frame.drop 12).take 2 = be16 (rmpBootReplLen + size.toNat)
  session : p.rmpSession ≠ rmpProbesid → ∀ h s path fd, .openFile h s path (some fd) ∈ w'.out →
    (frame.drop 30).take 2 = be16 (bootReplSession w' h)

/-- The request is answered once, and the answer goes out. -/
def BootAnswered (c : Conf) (os : Os) (l : Listener) (p : Pkt) (w : World) (t : HostId) (host : Host)
    (w' : World) : Prop :=
  ∃ frame, w'.sends = [.link l frame true] ∧ BootReply c os p w t host w' frame

/-- The clone for an unknown machine can be made. -/
def CloneMade (c : Conf) (os : Os) (l : Listener) (p : Pkt) (w : World) : Prop :=
  (Ev.link os l p).clones w → utilEtherValid p.rmpSaddr = true →
    NameFits c os p.rmpSaddr ∧ NameResolves c os w (cloneName c os p.rmpSaddr)

section
variable {c : Conf} {os : Os} {l : Listener} {p : Pkt} {w : World} {t : HostId} {host : Host}

theorem rmpProbeName_ok {name : CStr} {code : UInt8} (h : rmpProbeName l host p.rmpSeq = .ok (name, code)) :
    (probeName l host p.rmpSeq = some name ∧ code = rmpEOkay) ∨ (name = [] ∧ code = rmpENodflt) := by
  unfold rmpProbeName at h
  unfold probeName
  by_cases hseq : p.rmpSeq = 0
  · rw [if_pos hseq] at h ⊢
    cases hn : l.name with
    | none => rw [hn] at h; cases h
    | some n => rw [hn] at h; cases h; exact .inl ⟨rfl, rfl⟩
  · rw [if_neg hseq] at h ⊢
    cases hf : utilName2file host.files serviceRmp none (int32 (p.rmpSeq - 1)) with
    | none => simp only [hf] at h; cases h; exact .inr ⟨rfl, rfl⟩
    | some f =>
      simp only [hf] at h
      cases hn : f.name with
      | none => rw [hn] at h; cases h
      | some n => rw [hn] at h; cases h; exact .inl ⟨hn, rfl⟩

theorem rmpProbeName_some {name : CStr} (h : probeName l host p.rmpSeq = some name) :
    rmpProbeName l host p.rmpSeq = .ok (name, rmpEOkay) := by
  unfold probeName at h
  unfold rmpProbeName
  by_cases hseq : p.rmpSeq = 0
  · rw [if_pos hseq] at h ⊢
    rw [h]; rfl
  · rw [if_neg hseq] at h ⊢
    obtain ⟨f, hf, hn⟩ := Option.bind_eq_some_iff.mp h
    simp only [hf, hn]; rfl

/-- Every name that a probe is answered with is the outcome `RMP_E_OKAY`. -/
theorem probe_outcome {name : CStr} (hsid : p.rmpSession = rmpProbesid)
    (h : probeName l host p.rmpSeq = some name) : BootOutcome c os p w t host rmpEOkay := by
  unfold probeName at h
  by_cases hseq : p.rmpSeq = 0
  · exact .serverId hsid hseq
  · rw [if_neg hseq] at h
    obtain ⟨f, hf, -⟩ := Option.bind_eq_some_iff.mp h
    exact .nextFile f hsid hseq hf

/-- The reply to a boot request of a host that may use RMP. -/
theorem linkReply_boot (hrmp : (Ev.link os l p).isRmp = true) (hop : p.rmpOp = .bootReq)
    (hver : p.rmpBootVersion = rmpVersion) (ht : (Ev.link os l p).host w = .ok (some t))
    (hh : w.hosts[t]? = some host) (hsvc : host.service &&& serviceRmp ≠ 0) :
    linkReply os l p w =
      if p.rmpSession = rmpProbesid then
        (rmpProbeName l host p.rmpSeq).toOption.map fun r => rmpBootReplFrame p l.eth r.2 r.1
      else none := by
  have hne : p.u16 12 ≠ ethertypeRevarp := (of_decide_eq_true (Bool.and_eq_true_iff.mp hrmp).1).1
  unfold linkReply
  rw [if_neg hne, ht]
  simp only [hh, Option.bind_some, rmpReply, if_neg hsvc, hop, hver, true_and]

/-- A probe needs its name, and its clone. -/
theorem rmpSafe_probe {name : CStr} (hop : p.rmpOp = .bootReq)
    (hrmp : (Ev.link os l p).isRmp = true) (ht : (Ev.link os l p).host w = .ok (some t))
    (hh : w.hosts[t]? = some host) (hsid : p.rmpSession = rmpProbesid)
    (hname : probeName l host p.rmpSeq = some name) (hclone : CloneMade c os l p w) :
    RmpSafe c os l p w := by
  have hserve : ∀ own sweep, RmpServeSafe l p host own sweep := by
    intro own sweep _
    simp only [hop, hsid, if_true]
    intro _ hseq hnone
    rw [probeName, if_pos hseq, hnone] at hname
    cases hname
  intro _
  rcases host_rmp hrmp ht with hk | ⟨hk, -, hn⟩
  · rw [hk]
    intro host' hh'
    rw [hh] at hh'; cases hh'
    exact hserve _ _
  · rw [hk]
    intro _
    simp only [hn]
    intro tmpl htm
    rw [hh] at htm; cases htm
    exact ⟨hclone ⟨hrmp, decide_eq_true hop, hk⟩, hserve _ _⟩

end

/-- **Which boot requests are answered**: for every boot request of version 2 from
a host that may use RMP, in every reachable state. -/
theorem rmp_boot_answered_iff (c : Conf) (σ : Sys) (os : Os) (l : Listener) (p : Pkt) (t : HostId)
    (host : Host) (hr : (daemon c).Reachable σ) (hrmp : (Ev.link os l p).isRmp = true)
    (hop : p.rmpOp = .bootReq) (hver : p.rmpBootVersion = rmpVersion)
    (ht : (Ev.link os l p).host σ.w = .ok (some t)) (hh : σ.w.hosts[t]? = some host)
    (hsvc : host.service &&& serviceRmp ≠ 0) :
    BootAnswered c os l p σ.w t host (σ.next c (.link os l p)).w ↔
      p.rmpSession = rmpProbesid ∧ CloneMade c os l p σ.w ∧
        ∃ name, probeName l host p.rmpSeq = some name ∧ 41 ≤ name.length % 256 := by
  have hreply := linkReply_boot hrmp hop hver ht hh hsvc
  have hsafe := rmp_returns_iff c σ hr os l p
  constructor
  · rintro ⟨frame, hsends, -⟩
    rcases next_sends hr os l p with ⟨hret, heq⟩ | ⟨-, heq⟩
    swap
    · rw [heq] at hsends; cases hsends
    rw [hreply] at heq
    by_cases hsid : p.rmpSession = rmpProbesid
    swap
    · rw [if_neg hsid] at heq
      rw [heq] at hsends; cases hsends
    rw [if_pos hsid] at heq
    refine ⟨hsid, ?_, ?_⟩
    · rw [handle_rmp hrmp] at hret
      rintro ⟨_, _, hk⟩ hvalid
      have hall := hsafe.mp hret (Bool.and_eq_true_iff.mp hrmp).2
      rcases host_rmp hrmp ht with hk' | ⟨-, -, hn⟩
      · rw [hk] at hk'; cases hk'
      · simp only [hk, hop, true_imp_iff, hn] at hall
        exact (hall host hh).1 hvalid
    · cases hname : rmpProbeName l host p.rmpSeq with
      | error e => rw [hname] at heq; rw [heq] at hsends; cases hsends
      | ok r =>
        obtain ⟨name, code⟩ := r
        rw [hname] at heq
        have hlink : frameIo l (rmpBootReplFrame p l.eth code name) = .link l frame true :=
          List.singleton_inj.mp (heq.symm.trans hsends)
        simp only [frameIo, Io.link.injEq, decide_eq_true_eq, rmpBootReplFrame_length,
          rmpBootReplLen] at hlink
        rcases rmpProbeName_ok hname with ⟨hsome, -⟩ | ⟨rfl, -⟩
        · exact ⟨name, hsome, by omega⟩
        · exact absurd hlink.2.2 (by decide)
  · rintro ⟨hsid, hclone, name, hname, hlen⟩
    have hret := hsafe.mpr (rmpSafe_probe hop hrmp ht hh hsid hname hclone)
    rcases next_sends hr os l p with ⟨-, heq⟩ | ⟨hnot, -⟩
    swap
    · rw [handle_rmp hrmp] at hnot
      exact absurd hret hnot
    rw [hreply, if_pos hsid, rmpProbeName_some hname] at heq
    obtain ⟨htype, hcode, hsize, hfield⟩ := rmpBootReplFrame_fields p l.eth rmpEOkay name (by omega)
    refine ⟨_, heq.trans ?_, htype, ⟨_, hcode, probe_outcome hsid hname⟩, ⟨_, hsize, ?_⟩,
      fun h => absurd hsid h⟩
    · have hlong : 62 ≤ (rmpBootReplFrame p l.eth rmpEOkay name).length := by
        rw [rmpBootReplFrame_length, rmpBootReplLen]
        omega
      exact congrArg (fun b => [Io.link l _ b]) (decide_eq_true hlong)
    · rw [hfield, UInt8.toNat_ofNat']

/-- A link level listener with a name of 41 letters. -/
def longPort : Listener := { linkPort with name := some (List.replicate 41 97) }

/-- A probe of the host 0 for the server id. -/
def probeId : Pkt := rmpFrame (plainEther 1) 1 rmpProbesid (be16 rmpVersion ++ List.replicate 21 0x20)

/-- A server id of 41 letters goes out. -/
theorem rmp_probe_answered : BootAnswered plainConf plainOs longPort probeId served 0 (plainHost 1)
    (bootSys.next plainConf (.link plainOs longPort probeId)).w := by
  have hknown : utilEther2host served probeId.rmpSaddr = .ok (some 0) := rfl
  have hclone : CloneMade plainConf plainOs longPort probeId served := by
    intro ⟨_, _, hk⟩
    rw [hknown] at hk; cases hk
  have hseq : probeId.rmpSeq = 0 := by
    have h26 : probeId.u16 26 = 0 := rfl
    have h28 : probeId.u16 28 = 0 := rfl
    rw [Pkt.rmpSeq, h26, h28]; rfl
  have hname : probeName longPort (plainHost 1) probeId.rmpSeq = some (List.replicate 41 97) := by
    rw [probeName, if_pos hseq, longPort]
  exact (rmp_boot_answered_iff plainConf bootSys plainOs longPort probeId 0 (plainHost 1)
    bootSys_reachable (by decide) rfl rfl (by decide) rfl (by decide)).mpr ⟨rfl, hclone, _, hname, by simp⟩

/-- **Counterexample**: host 0 boots its file `k`, gets a session, and hears
nothing. -/
theorem rmp_boot_unanswered : ¬ ∀ (c : Conf) (σ : Sys) (os : Os) (l : Listener) (p : Pkt) (t : HostId)
    (host : Host), (daemon c).Reachable σ → (Ev.link os l p).Enabled σ.w →
    (Ev.link os l p).isRmp = true → p.rmpOp = .bootReq → p.rmpBootVersion = rmpVersion →
    (Ev.link os l p).host σ.w = .ok (some t) → σ.w.hosts[t]? = some host →
    host.service &&& serviceRmp ≠ 0 →
    BootAnswered c os l p σ.w t host (σ.next c (.link os l p)).w := by
  intro h
  obtain ⟨frame, hsends, -⟩ := h plainConf bootSys plainOs linkPort (bootNamed (cstr "k")) 0
    (plainHost 1) bootSys_reachable ⟨List.mem_cons_of_mem _ List.mem_cons_self, rfl⟩
      (by decide) rfl rfl (by decide) rfl
    (by decide)
  have hnone : (bootSys.next plainConf (.link plainOs linkPort (bootNamed (cstr "k")))).w.sends = [] :=
    rfl
  rw [hnone] at hsends
  cases hsends

end Bootd
