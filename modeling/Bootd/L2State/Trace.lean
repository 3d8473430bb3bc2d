import Bootd.L2State.Hosts
import Bootd.L2State.Sessions

/-!
# What code leaves in the trace

`Emits P m`: whatever `m` adds to the trace satisfies `P`, whether it returns
or faults. The functions below the handlers are put together with the rules of
`Exec.Keeps`: the session and listener functions only leave marks of sessions,
listeners and closed descriptors (`Io.isAdmin`), the host functions nothing.

`Last p m`: where `m` faults, it has done nothing that `p` says of. Handlers
send last (`SendsLast`).
-/
namespace Bootd

open Bootd.Core

/-- A packet handed to a send function. -/
def Io.isSend : Io → Bool
  | .udp _ _ _ | .link _ _ _ => true
  | _ => false

/-- The mark of an `open`. -/
def Io.isOpen : Io → Bool
  | .openFile _ _ _ _ => true
  | _ => false

/-- Marks of sessions, listeners and closed descriptors. -/
def Io.isAdmin : Io → Bool
  | .listen _ | .close _ | .start _ _ | .stop _ _ => true
  | _ => false

@[simps] def World.emits (w : World) (ios : List Io) : World := { w with out := w.out ++ ios }

/-- Whatever `m` adds to the trace satisfies `P`. -/
structure Emits {α : Type} (P : Io → Prop) (m : M α) : Prop where
  keeps : Exec.Keeps (fun w : World => ∀ io ∈ w.out, P io) m

section
variable {α β : Type} {P : Io → Prop} {m : M α}

theorem Emits.pure (a : α) : Emits P (Pure.pure a : M α) := ⟨Exec.Keeps.pure a⟩

theorem Emits.throw (e : Fault) : Emits P (throw e : M α) := ⟨Exec.Keeps.throw e⟩

theorem Emits.get : Emits P (get : M World) := ⟨Exec.Keeps.get⟩

theorem Emits.liftE (x : Except Fault α) : Emits P (Exec.liftE x : M α) := ⟨Exec.Keeps.liftE x⟩

theorem Emits.bind {f : α → M β} (hm : Emits P m) (hf : ∀ a, Emits P (f a)) : Emits P (m >>= f) :=
  ⟨Exec.Keeps.bind hm.keeps fun a => (hf a).keeps⟩

theorem Emits.ite {c : Prop} [Decidable c] {m' : M α} (h : c → Emits P m) (h' : ¬c → Emits P m') :
    Emits P (if c then m else m') :=
  ⟨Exec.Keeps.ite (fun hc => (h hc).keeps) fun hc => (h' hc).keeps⟩

/-- A change of the memory that adds `ios` to the trace. -/
theorem Emits.adds {f : World → World} (ios : World → List Io)
    (hf : ∀ w, (f w).out = w.out ++ ios w) (hP : ∀ w, ∀ io ∈ ios w, P io) :
    Emits P (modify f : M PUnit) := by
  refine ⟨Exec.Keeps.modify fun w hw io hio => ?_⟩
  rw [hf, List.mem_append] at hio
  rcases hio with hio | hio
  · exact hw io hio
  · exact hP w io hio

theorem Emits.silent {f : World → World} (hf : ∀ w, (f w).out = w.out) :
    Emits P (modify f : M PUnit) :=
  .adds (fun _ => []) (fun w => by rw [hf, List.append_nil]) (by simp)

theorem Emits.mark {f : World → World} (io : World → Io) (hf : ∀ w, (f w).out = w.out ++ [io w])
    (hP : ∀ w, P (io w)) : Emits P (modify f : M PUnit) :=
  .adds (fun w => [io w]) hf fun w io hio => by
    rw [List.mem_singleton.mp hio]; exact hP w

theorem emit_emits {io : Io} (h : P io) : Emits P (emit io) :=
  .mark (fun _ => io) (fun _ => rfl) fun _ => h

theorem loadHost_emits (p : HostId) : Emits P (loadHost p) := by
  refine .bind .get fun w => ?_
  cases w.hosts[p]? with
  | none => exact .throw _
  | some h => exact .pure _

theorem loadSession_emits (s : SessId) : Emits P (loadSession s) := by
  refine .bind .get fun w => ?_
  cases Slots.get w.sessions s with
  | none => exact .throw _
  | some ses => exact .pure _

/-- A fault comes before anything that `p` says of. -/
structure Last {α : Type} (p : Io → Bool) (m : M α) : Prop where
  wp : ∀ w : World, (∀ io ∈ w.out, p io = false) →
    Exec.wp m (fun _ _ => True) (fun _ w' => ∀ io ∈ w'.out, p io = false) w

/-- A fault comes before anything is sent. -/
abbrev SendsLast {α : Type} (m : M α) : Prop := Last Io.isSend m

variable {p : Io → Bool}

theorem Emits.last (h : Emits (fun io => p io = false) m) : Last p m :=
  ⟨fun w hw => Exec.wp_mono (h.keeps w hw) (fun _ _ _ => trivial) fun _ _ hw' => hw'⟩

theorem Last.bind {f : α → M β} (hm : Emits (fun io => p io = false) m)
    (hf : ∀ a, Last p (f a)) : Last p (m >>= f) := by
  refine ⟨fun w hw => ?_⟩
  rw [Exec.wp_bind]
  exact Exec.wp_mono (hm.keeps w hw) (fun a w' hw' => (hf a).wp w' hw') fun _ _ hw' => hw'

theorem Last.total (h : ∀ w, Exec.wp m (fun _ _ => True) (fun _ _ => False) w) : Last p m :=
  ⟨fun w _ => Exec.wp_mono (h w) (fun _ _ _ => trivial) fun _ _ hf => hf.elim⟩

theorem Last.ite {c : Prop} [Decidable c] {m' : M α} (h : Last p m) (h' : Last p m') :
    Last p (if c then m else m') := by
  split
  · exact h
  · exact h'

end

/-- The memory at the start of a packet, with nothing in the trace yet. -/
@[simps] def World.start (w : World) : World := { w with out := [] }

/-- The trace of `m`, run as the handler of a packet that arrives in `w`. -/
def traceOf {α : Type} (m : M α) (w : World) : List Io := (Exec.final m w.start).out

theorem Emits.trace {α : Type} {P : Io → Prop} {m : M α} (h : Emits P m) (w : World) :
    ∀ io ∈ traceOf m w, P io :=
  Exec.Keeps.final h.keeps fun io hio => by cases hio

/-- The packets of the trace. -/
def World.sends (w : World) : List Io := w.out.filter Io.isSend

theorem sends_emits (w : World) (ios : List Io) :
    (w.emits ios).sends = w.sends ++ ios.filter Io.isSend := List.filter_append ..

theorem sends_nil {w : World} (h : ∀ io ∈ w.out, io.isSend = false) : w.sends = [] :=
  List.filter_eq_nil_iff.mpr fun io hio => by rw [h io hio]; simp

/-- Code that does not send leaves the packets as they are. -/
theorem sends_of_emits {α : Type} {m : M α} {a : α} {w w' : World}
    (hm : Emits (fun io => io.isSend = false) m) (hout : w.out = []) (hr : m w = .ok a w') :
    w'.sends = [] := by
  have h0 : ∀ io ∈ w.out, io.isSend = false := fun io hio => by rw [hout] at hio; cases hio
  have hkept : ∀ io ∈ w'.out, io.isSend = false := Exec.wp_ok (hm.keeps w h0) hr
  exact sends_nil hkept

theorem isAdmin_isSend (io : Io) (h : io.isAdmin = true) : io.isSend = false := by
  cases io <;> first | rfl | cases h

/-! ## The functions below the handlers -/

section
variable {P : Io → Prop} (hP : ∀ io, io.isAdmin = true → P io)
include hP

theorem listenerCleanup_emits (l : Listener) : Emits P (listenerCleanup l) :=
  .mark (fun _ => .close l.fd) (fun _ => rfl) fun _ => hP _ rfl

theorem listenerDelete_emits (o : Option Listener) : Emits P (listenerDelete o) := by
  cases o with
  | none => exact .pure _
  | some l =>
    refine .bind .get fun w => ?_
    cases w.listeners with
    | nil => exact listenerCleanup_emits hP l
    | cons n ns =>
      refine .bind (.silent fun _ => rfl) fun _ => .bind (listenerCleanup_emits hP l) fun _ => ?_
      exact .ite (fun _ => .throw _) fun _ => .pure _

theorem releaseFds_emits (fds : List Fd) : Emits P (releaseFds fds) := by
  induction fds with
  | nil => exact .pure _
  | cons fd fds ih =>
    refine .bind (.ite (fun _ => ?_) fun _ => .pure _) fun _ => ih
    exact .bind .get fun w => listenerDelete_emits hP _

theorem hostSessionDelete_emits (p : HostId) : Emits P (hostSessionDelete p) := by
  refine .bind (loadHost_emits p) fun h => ?_
  cases h.session with
  | none => exact .pure _
  | some s =>
    refine .bind (loadSession_emits s) fun ses => .bind (releaseFds_emits hP _) fun _ => ?_
    exact .mark (fun _ => .stop p s) (fun _ => rfl) fun _ => hP _ rfl

theorem hostSessionTimeout_emits (c : Conf) (os : Os) (p : HostId) :
    Emits P (hostSessionTimeout c os p) := by
  refine .bind (loadHost_emits p) fun h => ?_
  cases h.session with
  | none => exact .pure _
  | some s =>
    refine .bind (loadSession_emits s) fun ses => ?_
    exact .ite (fun _ => hostSessionDelete_emits hP p) fun _ => .pure _

theorem timeoutLoop_emits (c : Conf) (os : Os) (n : Nat) (o : Option HostId) :
    Emits P (timeoutLoop c os n o) := by
  induction n generalizing o with
  | zero =>
    cases o with
    | none => exact .pure _
    | some p => exact .throw _
  | succ n ih =>
    cases o with
    | none => exact .pure _
    | some p =>
      refine .bind (hostSessionTimeout_emits hP c os p) fun _ => ?_
      exact .bind (loadHost_emits p) fun h => ih h.next

theorem hostSessionAdd_emits (c : Conf) (os : Os) (p : HostId) (service : Nat) (sid : Int) :
    Emits P (hostSessionAdd c os p service sid) := by
  refine .bind (.bind .get fun w => timeoutLoop_emits hP c os _ _) fun _ => ?_
  refine .bind (hostSessionDelete_emits hP p) fun _ => .bind .get fun w => ?_
  refine .ite (fun _ => ?_) fun _ => .pure _
  refine .bind (.mark (fun w => .start p w.sessions.length) (fun _ => rfl) fun _ => hP _ rfl) ?_
  exact fun _ => .pure _

theorem listenerNewUdp_emits (os : Os) (dst : Option SockAddr) (svc : Service) :
    Emits P (listenerNewUdp os dst svc) := by
  refine .bind .get fun w => .ite (fun _ => ?_) fun _ => .pure _
  exact .bind (.mark (fun _ => .listen _) (fun _ => rfl) fun _ => hP _ rfl) fun _ => .pure _

end

section
variable {P : Io → Prop}

theorem listenerAdd_emits (os : Os) (o : Option Listener) : Emits P (listenerAdd os o) := by
  cases o with
  | none => exact .pure _
  | some l =>
    refine .ite (fun _ => .throw _) fun _ => .silent fun w => ?_
    split <;> rfl

theorem hostSessionCheck_emits (os : Os) (p : HostId) (service : Nat) (sid : Int) :
    Emits P (hostSessionCheck os p service sid) := by
  refine .bind (loadHost_emits p) fun h => ?_
  cases h.session with
  | none => exact .pure _
  | some s =>
    refine .bind (loadSession_emits s) fun ses => .ite (fun _ => .pure _) fun _ => ?_
    refine .ite (fun _ => .pure _) fun _ => ?_
    exact .bind (.silent fun _ => rfl) fun _ => .pure _

theorem openFile_emits (os : Os) (p : HostId) (path : Option CStr)
    (hP : ∀ s r, P (.openFile p s path r)) : Emits P (openFile os p path) := by
  refine .bind .get fun w => ?_
  cases w.sessionOf p with
  | none => exact .throw _
  | some s =>
    refine .bind (loadSession_emits s) fun ses => ?_
    cases os.openf path with
    | error e =>
      exact .bind (.mark (fun _ => .openFile p s path none) (fun _ => rfl) fun _ => hP s _)
        fun _ => .pure _
    | ok content =>
      exact .bind (.mark (fun w => .openFile p s path (some w.freeFd)) (fun _ => rfl) fun _ => hP s _)
        fun _ => .pure _

theorem hostInsert_emits (p : HostId) (name : CStr) : Emits P (hostInsert p name) := by
  refine .bind .get fun w => ?_
  cases w.gHosts with
  | none => exact .bind (.silent fun _ => rfl) fun _ => .pure _
  | some q =>
    refine .bind (.liftE _) fun o => ?_
    cases o with
    | none => exact .pure _
    | some t => exact .bind (.silent fun _ => rfl) fun _ => .pure _

theorem hostAdd_emits (c : Conf) (os : Os) (p : HostId) : Emits P (hostAdd c os p) := by
  refine .bind (loadHost_emits p) fun h => .bind .get fun w => .bind (.liftE _) fun r => ?_
  refine .bind (.silent fun _ => rfl) fun _ => ?_
  cases r.2 with
  | false => exact .pure _
  | true =>
    cases r.1.name with
    | none => exact .pure _
    | some n => exact hostInsert_emits p n

theorem hostClone_emits (c : Conf) (os : Os) (src : HostId) (name : Option CStr)
    (eth : Option Ether) (ip : Option Ip) : Emits P (hostClone c os src name eth ip) := by
  refine .bind (loadHost_emits src) fun h => .bind ?_ fun p => ?_
  · exact .bind .get fun w => .bind (.silent fun _ => rfl) fun _ => .pure _
  · exact .bind (hostAdd_emits c os p) fun _ => .pure _

end
end Bootd
