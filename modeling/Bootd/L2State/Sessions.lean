import Bootd.L2State.Listeners

/-!
# Sessions (`host.c:188-262`, `util.c:260-267`)

`host_session_delete` releases what it finds listed under the descriptor
numbers of the session, then frees the record. `host_session_add` first drops
every session of a listed host that has been idle too long, then the host's
own, and creates a new one if fewer than `c_session_max` are left.

* `Ends es w w'`: the sessions `es` are ended on the way from `w` to `w'`, each
  by the rest of `host_session_delete`. It says what that changes and what it
  leaves alone.
* `hostSessionDelete_ok`, `timeoutLoop_ok`, `hostSessionAdd_ok`: what the three
  functions have done when they return.
* `hostSessionCheck_iff`: what `host_session_check` compares.
-/
namespace Bootd

open Bootd.Core

/-- mirrors src/host.h:38-40 -/
inductive SessionCheck
  | noError | noSession | badSid
  deriving DecidableEq

/-- The descriptor loop of `host_session_delete`, one round and all of them.
mirrors src/host.c:195-199 -/
def releaseFd (fd : Fd) : M Unit := do
  if fd ≠ 0 then listenerDelete (listenerSearchByFd (← get).listeners fd) else pure ()

def releaseFds : List Fd → M Unit
  | [] => pure ()
  | fd :: fds => do
    releaseFd fd
    releaseFds fds

/-- Session `s` of host `p` is freed. -/
@[simps] def World.endSession (w : World) (p : HostId) (s : SessId) : World :=
  { w with
    hosts := w.hosts.modify p fun h => { h with session := none }
    sessions := Slots.clear w.sessions s
    gNSessions := w.gNSessions - 1
    out := w.out ++ [.stop p s] }

/-- mirrors src/host.c:188-207 -/
def hostSessionDelete (p : HostId) : M Unit := do
  match (← loadHost p).session with
  | none => pure ()
  | some s => do
    let ses ← loadSession s
    releaseFds ses.fd.toList
    modify (·.endSession p s)

/-- `(atime + c_session_timeout) < time(NULL)`, the sum in an `int`. -/
def sessionExpired (c : Conf) (os : Os) (ses : Session) : Bool :=
  decide (int32 (ses.atime + c.cSessionTimeout) < os.now)

/-- mirrors src/host.c:210-220 -/
def hostSessionTimeout (c : Conf) (os : Os) (p : HostId) : M Unit := do
  match (← loadHost p).session with
  | none => pure ()
  | some s => do
    if sessionExpired c os (← loadSession s) then hostSessionDelete p else pure ()

/-- mirrors src/util.c:260-267 -/
def timeoutLoop (c : Conf) (os : Os) : Nat → Option HostId → M Unit
  | _, none => pure ()
  | 0, some _ => throw .hang
  | fuel + 1, some p => do
    hostSessionTimeout c os p
    let h ← loadHost p
    timeoutLoop c os fuel h.next

def utilHostSessionTimeoutAll (c : Conf) (os : Os) : M Unit := do
  let w ← get
  timeoutLoop c os w.hosts.length w.gHosts

/-- The record `host_session_add` creates. -/
def Session.fresh (service : Nat) (sid now : Int) : Session :=
  ⟨service, int32 now, sid, .replicate 8 0, none⟩

@[simps] def World.startSession (w : World) (p : HostId) (ses : Session) : World :=
  { w with
    hosts := w.hosts.modify p fun h => { h with session := some w.sessions.length }
    sessions := Slots.push w.sessions ses
    gNSessions := w.gNSessions + 1
    out := w.out ++ [.start p w.sessions.length] }

/-- mirrors src/host.c:222-247 -/
def hostSessionAdd (c : Conf) (os : Os) (p : HostId) (service : Nat) (sid : Int) : M Bool := do
  utilHostSessionTimeoutAll c os
  hostSessionDelete p
  if (← get).gNSessions < c.cSessionMax then do
    modify (·.startSession p (.fresh service sid os.now))
    pure true
  else
    pure false

@[simps] def World.touch (w : World) (s : SessId) (now : Int) : World :=
  { w with sessions := Slots.update w.sessions s fun ses => { ses with atime := int32 now } }

/-- mirrors src/host.c:249-262 -/
def hostSessionCheck (os : Os) (p : HostId) (service : Nat) (sid : Int) : M SessionCheck := do
  match (← loadHost p).session with
  | none => pure .noSession
  | some s => do
    let ses ← loadSession s
    if ses.service ≠ service then pure .noSession
    else if ses.sid ≠ sid then pure .badSid
    else do
      modify (·.touch s os.now)
      pure .noError

/-! ## Ending sessions -/

section
variable {c : Conf} {os : Os} {w w' w₁ w₂ : World} {p q : HostId} {s t : SessId}
  {ses : Session} {es es' : List (HostId × SessId)}

theorem sessionOf_endSession (w : World) (p : HostId) (s : SessId) (q : HostId) :
    (w.endSession p s).sessionOf q = if q = p then none else w.sessionOf q := by
  unfold World.sessionOf
  rw [World.endSession_hosts, List.getElem?_modify]
  by_cases h : q = p
  · subst h; cases w.hosts[q]? <;> simp
  · cases w.hosts[q]? <;> simp [h, Ne.symm h]

theorem live_endSession (w : World) (p : HostId) (s t : SessId) :
    (w.endSession p s).live t = if t = s then none else w.live t :=
  Slots.get_clear _ _ _

theorem live_startSession (w : World) (p : HostId) (ses : Session) (t : SessId) :
    (w.startSession p ses).live t = if t = w.sessions.length then some ses else w.live t :=
  Slots.get_push _ _ _

theorem live_touch (now : Int) (hl : w.live s = some ses) :
    (w.touch s now).live s = some { ses with atime := int32 now } := by
  show Slots.get (Slots.update _ _ _) _ = _
  rw [Slots.get_update, if_pos rfl]
  exact congrArg _ hl

@[simp] theorem startSession_freeFd (w : World) (p : HostId) (ses : Session) :
    (w.startSession p ses).freeFd = w.freeFd := rfl

theorem sessionOf_startSession (w : World) (p : HostId) (ses : Session) (q : HostId) :
    (w.startSession p ses).sessionOf q =
      if q = p ∧ q < w.hosts.length then some w.sessions.length else w.sessionOf q := by
  unfold World.sessionOf
  rw [World.startSession_hosts, List.getElem?_modify]
  by_cases h : q = p
  · subst h
    by_cases hq : q < w.hosts.length <;> simp [hq]
  · cases w.hosts[q]? <;> simp [h, Ne.symm h]

/-- The descriptor loop only closes listeners. -/
structure Released (w w' : World) : Prop where
  hosts : w'.hosts = w.hosts
  gHosts : w'.gHosts = w.gHosts
  sessions : w'.sessions = w.sessions
  gN : w'.gNSessions = w.gNSessions
  rmpSid : w'.rmpSid = w.rmpSid
  nextId : w'.nextId = w.nextId
  listeners : ∀ l ∈ w'.listeners, l ∈ w.listeners
  fds : ∀ fd, w'.fdObj fd = none ∨ w'.fdObj fd = w.fdObj fd
  out : ∃ ios, w'.out = w.out ++ ios ∧ ∀ io ∈ ios, ∃ fd, io = .close fd

theorem Released.refl (w : World) : Released w w :=
  ⟨rfl, rfl, rfl, rfl, rfl, rfl, fun _ h => h, fun _ => .inr rfl, [], by simp, by simp⟩

theorem Released.trans (h : Released w w₁) (h' : Released w₁ w₂) : Released w w₂ where
  hosts := h'.hosts.trans h.hosts
  gHosts := h'.gHosts.trans h.gHosts
  sessions := h'.sessions.trans h.sessions
  gN := h'.gN.trans h.gN
  rmpSid := h'.rmpSid.trans h.rmpSid
  nextId := h'.nextId.trans h.nextId
  listeners l hl := h.listeners l (h'.listeners l hl)
  fds fd := by
    rcases h'.fds fd with e | e
    · exact .inl e
    · rw [e]; exact h.fds fd
  out := by
    obtain ⟨a, ha, hca⟩ := h.out
    obtain ⟨b, hb, hcb⟩ := h'.out
    refine ⟨a ++ b, by rw [hb, ha, List.append_assoc], fun io hio => ?_⟩
    rcases List.mem_append.mp hio with hio | hio
    · exact hca io hio
    · exact hcb io hio

theorem listenerCleanup_released (l : Listener) (ls : List Listener)
    (hls : ∀ k ∈ ls, k ∈ w.listeners) :
    Released w ((({ w with listeners := ls } : World).closeFd l.fd).emit (.close l.fd)) := by
  refine ⟨rfl, rfl, rfl, rfl, rfl, rfl, hls, fun fd => ?_, [.close l.fd], rfl, ?_⟩
  · show Slots.get (Slots.clear w.fds l.fd) fd = none ∨ Slots.get (Slots.clear w.fds l.fd) fd = _
    rw [Slots.get_clear]
    split
    · exact .inl rfl
    · exact .inr rfl
  · intro io hio
    simp only [List.mem_singleton] at hio
    exact ⟨_, hio⟩

theorem listenerDelete_released {o : Option Listener} {u : Unit}
    (h : listenerDelete o w = .ok u w') : Released w w' := by
  cases o with
  | none =>
    simp only [listenerDelete, Exec.pure_ok] at h
    obtain ⟨-, rfl⟩ := h; exact .refl w
  | some l =>
    simp only [listenerDelete, Exec.bind_ok, Exec.get_ok] at h
    obtain ⟨_, _, ⟨rfl, rfl⟩, h⟩ := h
    cases hl : w.listeners with
    | nil =>
      simp only [hl, listenerCleanup, Exec.modify_ok] at h
      subst h
      exact listenerCleanup_released l w.listeners fun _ hk => hk
    | cons n ns =>
      simp only [hl, Exec.bind_ok, Exec.modify_ok, listenerCleanup] at h
      obtain ⟨_, _, rfl, _, _, rfl, h⟩ := h
      rw [← hl] at h
      split at h
      · simp at h
      · simp only [Exec.pure_ok] at h
        obtain ⟨-, rfl⟩ := h
        exact listenerCleanup_released l _ fun k hk => (List.mem_filter.mp hk).1

theorem releaseFds_released {fds : List Fd} {u : Unit} (h : releaseFds fds w = .ok u w') :
    Released w w' := by
  induction fds generalizing w with
  | nil =>
    simp only [releaseFds, Exec.pure_ok] at h
    obtain ⟨-, rfl⟩ := h; exact .refl w
  | cons fd fds ih =>
    simp only [releaseFds, Exec.bind_ok] at h
    obtain ⟨_, w₁, h1, h2⟩ := h
    refine Released.trans ?_ (ih h2)
    unfold releaseFd at h1
    split at h1
    · simp only [Exec.bind_ok, Exec.get_ok] at h1
      obtain ⟨_, _, ⟨rfl, rfl⟩, h1⟩ := h1
      exact listenerDelete_released h1
    · simp only [Exec.pure_ok] at h1
      obtain ⟨-, rfl⟩ := h1; exact .refl w

/-- The sessions `es`, as pairs of host and session, end one after the other. -/
inductive Ends : List (HostId × SessId) → World → World → Prop
  | nil (w : World) : Ends [] w w
  | snoc {w w₁ w₂ : World} {es : List (HostId × SessId)} {p : HostId} {s : SessId} {ses : Session} :
      Ends es w w₁ → w₁.sessionOf p = some s → w₁.live s = some ses →
      releaseFds ses.fd.toList w₁ = .ok () w₂ → Ends (es ++ [(p, s)]) w (w₂.endSession p s)

theorem Ends.trans (h : Ends es w w₁) (h' : Ends es' w₁ w₂) : Ends (es ++ es') w w₂ := by
  induction h' with
  | nil => rw [List.append_nil]; exact h
  | snoc _ hp hs hr ih => rw [← List.append_assoc]; exact .snoc (ih h) hp hs hr

theorem Ends.eq_of_nil (h : Ends [] w w') : w' = w := by
  generalize he : ([] : List (HostId × SessId)) = es at h
  cases h with
  | nil => rfl
  | snoc => simp at he

theorem Ends.gN (h : Ends es w w') : w'.gNSessions = w.gNSessions - es.length := by
  induction h with
  | nil => simp
  | snoc _ _ _ hr ih =>
    have := (releaseFds_released hr).gN
    simp only [World.endSession_gNSessions, List.length_append, List.length_singleton]
    omega

theorem Released.sessionOf (h : Released w w') (p : HostId) : w'.sessionOf p = w.sessionOf p := by
  unfold World.sessionOf; rw [h.hosts]

theorem Released.live (h : Released w w') (s : SessId) : w'.live s = w.live s := by
  unfold World.live; rw [h.sessions]

/-- What ending sessions never touches. -/
structure EndsFrame (w w' : World) : Prop where
  gHosts : w'.gHosts = w.gHosts
  rmpSid : w'.rmpSid = w.rmpSid
  nextId : w'.nextId = w.nextId
  sessions : w'.sessions.length = w.sessions.length
  hosts : ∀ p, w'.hosts[p]? = (w.hosts[p]?).map fun h : Host =>
    ({ h with session := w'.sessionOf p } : Host)
  listeners : ∀ l ∈ w'.listeners, l ∈ w.listeners
  fds : ∀ fd, w'.fdObj fd = none ∨ w'.fdObj fd = w.fdObj fd

theorem Ends.frame (h : Ends es w w') : EndsFrame w w' := by
  induction h with
  | nil w =>
    refine ⟨rfl, rfl, rfl, rfl, fun p => ?_, fun _ hl => hl, fun _ => .inr rfl⟩
    cases hp : w.hosts[p]? with
    | none => rfl
    | some h => simp [sessionOf_eq hp]
  | @snoc w w₁ w₂ es p s ses _ hp hs hr ih =>
    have hrel := releaseFds_released hr
    refine ⟨hrel.gHosts.trans ih.gHosts, hrel.rmpSid.trans ih.rmpSid, hrel.nextId.trans ih.nextId,
      ?_, fun q => ?_, fun l hl => ih.listeners l (hrel.listeners l hl), fun fd => ?_⟩
    · have := ih.sessions
      simp only [World.endSession_sessions, Slots.clear, List.length_set, hrel.sessions, this]
    · rw [sessionOf_endSession, World.endSession_hosts, List.getElem?_modify, hrel.hosts, ih.hosts q,
        hrel.sessionOf]
      by_cases hq : q = p
      · subst hq; cases w.hosts[q]? <;> simp
      · cases w.hosts[q]? <;> simp [hq, Ne.symm hq]
    · show w₂.fdObj fd = none ∨ w₂.fdObj fd = w.fdObj fd
      rcases hrel.fds fd with e | e
      · exact .inl e
      · rw [e]; exact ih.fds fd

theorem EndsFrame.length (h : EndsFrame w w') : w'.hosts.length = w.hosts.length := by
  have h1 : w'.hosts.length ≤ w.hosts.length := by
    rw [← List.getElem?_eq_none_iff, h.hosts]; simp
  have h2 : w.hosts.length ≤ w'.hosts.length := by
    have := h.hosts w'.hosts.length
    rw [List.getElem?_eq_none (Nat.le_refl _), eq_comm, Option.map_eq_none_iff] at this
    exact List.getElem?_eq_none_iff.mp this
  omega

theorem Ends.sessionOf_or (h : Ends es w w') (p : HostId) :
    w'.sessionOf p = w.sessionOf p ∨
      (w'.sessionOf p = none ∧ ∃ s, w.sessionOf p = some s ∧ (p, s) ∈ es) := by
  induction h with
  | nil => exact .inl rfl
  | @snoc w w₁ w₂ es q s ses _ hp hs hr ih =>
    rw [sessionOf_endSession, (releaseFds_released hr).sessionOf]
    by_cases hq : p = q
    · subst hq
      refine .inr ⟨if_pos rfl, s, ?_, by simp⟩
      rcases ih with e | ⟨e, -⟩
      · rw [← e]; exact hp
      · rw [hp] at e; cases e
    · rw [if_neg hq]
      rcases ih with e | ⟨e, t, ht, hm⟩
      · exact .inl e
      · exact .inr ⟨e, t, ht, List.mem_append_left _ hm⟩

theorem Ends.live_or (h : Ends es w w') (t : SessId) :
    w'.live t = w.live t ∨ (w'.live t = none ∧ ∃ p, (p, t) ∈ es) := by
  induction h with
  | nil => exact .inl rfl
  | @snoc w w₁ w₂ es q s ses _ hp hs hr ih =>
    rw [live_endSession, (releaseFds_released hr).live]
    by_cases ht : t = s
    · subst ht; exact .inr ⟨if_pos rfl, q, by simp⟩
    · rw [if_neg ht]
      rcases ih with e | ⟨e, p, hm⟩
      · exact .inl e
      · exact .inr ⟨e, p, List.mem_append_left _ hm⟩

/-- A session that is ended was the host's, was allocated, and is gone. -/
theorem Ends.mem (h : Ends es w w') (hm : (p, s) ∈ es) :
    w.sessionOf p = some s ∧ (∃ ses, w.live s = some ses) ∧ w'.sessionOf p = none ∧
      w'.live s = none := by
  induction h with
  | nil => cases hm
  | @snoc w w₁ w₂ es q t ses he hp hs hr ih =>
    have hrel := releaseFds_released hr
    rw [sessionOf_endSession, live_endSession, hrel.sessionOf, hrel.live]
    rcases List.mem_append.mp hm with hm | hm
    · obtain ⟨h1, h2, h3, h4⟩ := ih hm
      refine ⟨h1, h2, ?_, ?_⟩ <;> split <;> first | rfl | assumption
    · cases List.mem_singleton.mp hm
      refine ⟨?_, ⟨ses, ?_⟩, if_pos rfl, if_pos rfl⟩
      · rcases he.sessionOf_or p with e | ⟨e, -⟩
        · rw [← e]; exact hp
        · rw [hp] at e; cases e
      · rcases he.live_or s with e | ⟨e, -⟩
        · rw [← e]; exact hs
        · rw [hs] at e; cases e

/-- No session ends twice. -/
theorem Ends.nodup (h : Ends es w w') : (es.map Prod.snd).Nodup := by
  induction h with
  | nil => exact List.nodup_nil
  | snoc he hp hs hr ih =>
    rw [List.map_append, List.nodup_append]
    refine ⟨ih, List.nodup_singleton _, fun a ha b hb e => ?_⟩
    obtain ⟨⟨q, t⟩, hm, rfl⟩ := List.mem_map.mp ha
    have hb := List.mem_singleton.mp hb
    subst hb
    have hdead := (he.mem hm).2.2.2
    have e : t = _ := e
    rw [e, hs] at hdead; cases hdead

theorem Ends.live_of (h : Ends es w w') (hs : w'.live s = some ses) : w.live s = some ses := by
  rcases h.live_or s with e | ⟨e, -⟩
  · rw [← e]; exact hs
  · rw [hs] at e; cases e

/-! ## What the session functions do -/

theorem hostSessionDelete_ok {u : Unit} (h : hostSessionDelete p w = .ok u w') :
    ∃ es, Ends es w w' ∧ p < w.hosts.length ∧
      ((w.sessionOf p = none ∧ es = []) ∨ ∃ s, w.sessionOf p = some s ∧ es = [(p, s)]) := by
  simp only [hostSessionDelete, Exec.bind_ok, loadHost_ok] at h
  obtain ⟨hst, _, ⟨hh, rfl⟩, h⟩ := h
  have hlt : p < w.hosts.length := (List.getElem?_eq_some_iff.mp hh).1
  have hp := sessionOf_eq hh
  cases hs : hst.session with
  | none =>
    simp only [hs, Exec.pure_ok] at h
    obtain ⟨-, rfl⟩ := h
    exact ⟨[], .nil w, hlt, .inl ⟨hp.trans hs, rfl⟩⟩
  | some s =>
    simp only [hs, Exec.bind_ok, loadSession_ok, Exec.modify_ok] at h
    obtain ⟨ses, _, ⟨hl, rfl⟩, _, w₂, hr, rfl⟩ := h
    refine ⟨[(p, s)], ?_, hlt, .inr ⟨s, hp.trans hs, rfl⟩⟩
    exact Ends.snoc (.nil w) (hp.trans hs) hl hr

/-- The host and its session, if that has expired. -/
def World.idle (w : World) (c : Conf) (os : Os) (p : HostId) : Option (HostId × SessId) :=
  (w.sessionOf p).bind fun s => (w.live s).bind fun ses =>
    if sessionExpired c os ses then some (p, s) else none

theorem idle_some {e : HostId × SessId} (h : w.idle c os p = some e) :
    e.1 = p ∧ w.sessionOf p = some e.2 ∧
      ∃ ses, w.live e.2 = some ses ∧ sessionExpired c os ses = true := by
  obtain ⟨s, hs, h⟩ := Option.bind_eq_some_iff.mp h
  obtain ⟨ses, hl, h⟩ := Option.bind_eq_some_iff.mp h
  split at h
  · cases h; exact ⟨rfl, hs, ses, hl, ‹_›⟩
  · cases h

theorem idle_eq (hs : w.sessionOf p = some s) (hl : w.live s = some ses) :
    w.idle c os p = if sessionExpired c os ses then some (p, s) else none := by
  rw [World.idle, hs, Option.bind_some, hl, Option.bind_some]

theorem hostSessionTimeout_ok {u : Unit} (h : hostSessionTimeout c os p w = .ok u w') :
    Ends (w.idle c os p).toList w w' ∧ ∀ s, w.sessionOf p = some s → ∃ ses, w.live s = some ses := by
  simp only [hostSessionTimeout, Exec.bind_ok, loadHost_ok] at h
  obtain ⟨hst, _, ⟨hh, rfl⟩, h⟩ := h
  have hp := sessionOf_eq hh
  cases hs : hst.session with
  | none =>
    simp only [hs, Exec.pure_ok] at h
    obtain ⟨-, rfl⟩ := h
    rw [hs] at hp
    refine ⟨?_, fun s he => by rw [hp] at he; cases he⟩
    rw [World.idle, hp]; exact .nil w
  | some s =>
    simp only [hs, Exec.bind_ok, loadSession_ok] at h
    obtain ⟨ses, _, ⟨hl, rfl⟩, h⟩ := h
    rw [hs] at hp
    refine ⟨?_, fun t ht => by rw [hp] at ht; cases ht; exact ⟨ses, hl⟩⟩
    rw [idle_eq hp hl]
    split at h
    · rename_i hx
      rw [if_pos hx]
      obtain ⟨es, he, -, hc⟩ := hostSessionDelete_ok h
      rcases hc with ⟨hn, -⟩ | ⟨t, ht, rfl⟩
      · rw [hp] at hn; cases hn
      · rw [hp] at ht; cases ht; exact he
    · rename_i hx
      simp only [Exec.pure_ok] at h
      obtain ⟨-, rfl⟩ := h
      rw [if_neg hx]; exact .nil w

theorem EndsFrame.next (h : EndsFrame w w') (p : HostId) : w'.next p = w.next p := by
  unfold World.next
  rw [h.hosts p]
  cases w.hosts[p]? <;> rfl

/-- A loop that returns has walked a chain to its end, found every session on
it allocated, and ended the expired ones in the order of the chain. -/
theorem timeoutLoop_ok {u : Unit} : ∀ {n : Nat} {o : Option HostId} {w : World},
    timeoutLoop c os n o w = .ok u w' →
    ∃ ps, Chain.Path w.next o ps none ∧ Ends (ps.filterMap (w.idle c os)) w w' ∧
      ∀ p ∈ ps, ∀ s, w.sessionOf p = some s → ∃ ses, w.live s = some ses
  | n, none, w, h => by
    have : w = w' := by cases n <;> simpa [timeoutLoop] using h
    subst this
    exact ⟨[], rfl, .nil w, by simp⟩
  | 0, some p, w, h => by simp [timeoutLoop] at h
  | n + 1, some p, w, h => by
    simp only [timeoutLoop, Exec.bind_ok, loadHost_ok] at h
    obtain ⟨_, w₁, h1, hst, _, ⟨hh, rfl⟩, h2⟩ := h
    obtain ⟨he, hlive⟩ := hostSessionTimeout_ok h1
    obtain ⟨ps, hpath, he', hlive'⟩ := timeoutLoop_ok h2
    have hnext : w.next p = some hst.next := by
      rw [← he.frame.next p, World.next, hh]; rfl
    have hpath' : Chain.Path w.next (some p) (p :: ps) none :=
      ⟨rfl, _, hnext, hpath.congr fun a _ => (he.frame.next a).symm⟩
    have hnot : p ∉ ps := (List.nodup_cons.mp hpath'.nodup).1
    -- the hosts further on still have their sessions when the loop gets there
    have hkeep : ∀ q ∈ ps, w₁.sessionOf q = w.sessionOf q := by
      intro q hq
      rcases he.sessionOf_or q with e | ⟨-, s, -, hm⟩
      · exact e
      · have := (idle_some (Option.mem_toList.mp hm)).1
        exact absurd (this ▸ hq) hnot
    refine ⟨p :: ps, hpath', ?_, fun q hq s hqs => ?_⟩
    · have hrest : ps.filterMap (w₁.idle c os) = ps.filterMap (w.idle c os) := by
        refine List.filterMap_congr fun q hq => ?_
        unfold World.idle
        rw [hkeep q hq]
        cases hs : w.sessionOf q with
        | none => rfl
        | some s =>
          obtain ⟨ses, hl⟩ := hlive' q hq s ((hkeep q hq).trans hs)
          rw [Option.bind_some, Option.bind_some, hl, he.live_of hl]
      rw [hrest] at he'
      have := he.trans he'
      rw [List.filterMap_cons]
      cases hi : w.idle c os p with
      | none => simpa [hi] using this
      | some e => simpa [hi] using this
    · rcases List.mem_cons.mp hq with rfl | hq
      · exact hlive s hqs
      · obtain ⟨ses, hl⟩ := hlive' q hq s ((hkeep q hq).trans hqs)
        exact ⟨ses, he.live_of hl⟩

/-- On a chain that ends in NULL, the listed hosts are the ones on it. -/
theorem listed_mem {ps : List HostId} (hpath : Chain.Path w.next w.gHosts ps none)
    (h : w.Listed p) : p ∈ ps := by
  obtain ⟨qs, r, hqs, hp⟩ := h
  rcases hpath.prefix_unique hqs with hpre | hpre
  · obtain ⟨ts, rfl⟩ := hpre
    obtain ⟨m, h1, h2⟩ := hqs.split
    cases ts with
    | nil => simpa using hp
    | cons t ts =>
      rw [← hpath.end_unique h1] at h2
      cases h2.1
  · exact hpre.subset hp

/-- What `host_session_add` ends: the idle sessions of the listed hosts `ps`,
then the host's own if it is still there. -/
def World.replaced (w : World) (c : Conf) (os : Os) (ps : List HostId) (p : HostId) :
    List (HostId × SessId) :=
  ps.filterMap (w.idle c os) ++
    if p ∈ ps ∧ w.idle c os p ≠ none then [] else ((w.sessionOf p).map fun s => (p, s)).toList

/-- The sessions of the hosts `ps` are all allocated. -/
def World.SessionsLive (w : World) (ps : List HostId) : Prop :=
  ∀ p ∈ ps, ∀ s, w.sessionOf p = some s → ∃ ses, w.live s = some ses

/-- `host_session_add` walks the whole table, ends the expired sessions and the
host's own, and creates one if the count then allows it. -/
theorem hostSessionAdd_ok {service : Nat} {sid : Int} {b : Bool}
    (h : hostSessionAdd c os p service sid w = .ok b w') :
    ∃ ps w₁, Chain.Path w.next w.gHosts ps none ∧ w.SessionsLive ps ∧
      Ends (w.replaced c os ps p) w w₁ ∧ p < w.hosts.length ∧ w₁.sessionOf p = none ∧
      ((b = true ∧ w₁.gNSessions < c.cSessionMax ∧
          w' = w₁.startSession p (.fresh service sid os.now)) ∨
        (b = false ∧ c.cSessionMax ≤ w₁.gNSessions ∧ w' = w₁)) := by
  simp only [hostSessionAdd, utilHostSessionTimeoutAll, Exec.bind_ok, Exec.get_ok] at h
  obtain ⟨_, w₁, ⟨_, _, ⟨rfl, rfl⟩, h1⟩, _, w₂, h2, _, _, ⟨rfl, rfl⟩, h3⟩ := h
  obtain ⟨ps, hpath, he, hlive⟩ := timeoutLoop_ok h1
  obtain ⟨es', he', hlt, hc⟩ := hostSessionDelete_ok h2
  have hown : es' = if p ∈ ps ∧ w.idle c os p ≠ none then []
      else ((w.sessionOf p).map fun s => (p, s)).toList := by
    by_cases hidle : p ∈ ps ∧ w.idle c os p ≠ none
    · obtain ⟨e, hi⟩ := Option.ne_none_iff_exists'.mp hidle.2
      have hm : (p, e.2) ∈ ps.filterMap (w.idle c os) :=
        List.mem_filterMap.mpr ⟨p, hidle.1, by rw [hi, ← (idle_some hi).1]⟩
      rw [if_pos hidle]
      rcases hc with ⟨-, hn⟩ | ⟨s, hs, -⟩
      · exact hn
      · rw [(he.mem hm).2.2.1] at hs; cases hs
    · rw [if_neg hidle]
      have hsame : w₁.sessionOf p = w.sessionOf p := by
        rcases he.sessionOf_or p with e | ⟨-, s, hs, hm⟩
        · exact e
        · obtain ⟨q, hq, hi⟩ := List.mem_filterMap.mp hm
          have hqp : p = q := (idle_some hi).1
          subst hqp
          exact absurd ⟨hq, by rw [hi]; simp⟩ hidle
      rcases hc with ⟨hn, rfl⟩ | ⟨s, hs, rfl⟩
      · rw [← hsame, hn]; rfl
      · rw [← hsame, hs]; rfl
  have hnone : w₂.sessionOf p = none := by
    rcases hc with ⟨hn, rfl⟩ | ⟨s, hs, rfl⟩
    · rw [he'.eq_of_nil]; exact hn
    · exact (he'.mem (s := s) (by simp)).2.2.1
  refine ⟨ps, w₂, hpath, hlive, ?_, by rw [← he.frame.length]; exact hlt, hnone, ?_⟩
  · rw [World.replaced, ← hown]; exact he.trans he'
  · split at h3
    · simp only [Exec.bind_ok, Exec.modify_ok, Exec.pure_ok] at h3
      obtain ⟨_, _, rfl, rfl, rfl⟩ := h3
      exact .inl ⟨rfl, ‹_›, rfl⟩
    · simp only [Exec.pure_ok] at h3
      obtain ⟨rfl, rfl⟩ := h3
      exact .inr ⟨rfl, by omega, rfl⟩

/-- The outcome of a check, from the session that the host has. -/
def sessionCheckOf (service : Nat) (sid : Int) : Option Session → SessionCheck
  | none => .noSession
  | some ses =>
    if ses.service ≠ service then .noSession else if ses.sid ≠ sid then .badSid else .noError

theorem sessionCheckOf_noError {service : Nat} {sid : Int} {o : Option Session} :
    sessionCheckOf service sid o = .noError ↔
      ∃ ses, o = some ses ∧ ses.service = service ∧ ses.sid = sid := by
  cases o with
  | none => simp [sessionCheckOf]
  | some ses =>
    by_cases hsvc : ses.service = service
    · by_cases hsid : ses.sid = sid
      · simp [sessionCheckOf, hsvc, hsid]
      · simp [sessionCheckOf, hsvc, hsid]
    · simp [sessionCheckOf, hsvc]

/-- A check that passes only notes the time, any other does nothing. -/
theorem hostSessionCheck_result {service : Nat} {sid : Int} {r : SessionCheck}
    (h : hostSessionCheck os p service sid w = .ok r w') :
    r = sessionCheckOf service sid ((w.sessionOf p).bind w.live) ∧
      ((r ≠ .noError ∧ w' = w) ∨ (r = .noError ∧ ∃ s, w.sessionOf p = some s ∧ w' = w.touch s os.now)) := by
  simp only [hostSessionCheck, Exec.bind_ok, loadHost_ok] at h
  obtain ⟨hst, _, ⟨hh, rfl⟩, h⟩ := h
  rw [sessionOf_eq hh]
  cases hs : hst.session with
  | none =>
    simp only [hs, Exec.pure_ok] at h
    obtain ⟨rfl, rfl⟩ := h
    exact ⟨rfl, .inl ⟨by simp, rfl⟩⟩
  | some s =>
    simp only [hs, Exec.bind_ok, loadSession_ok] at h
    obtain ⟨ses, _, ⟨hl, rfl⟩, h⟩ := h
    simp only [Option.bind_some, hl, sessionCheckOf]
    split at h
    · rename_i hsvc
      simp only [Exec.pure_ok] at h
      obtain ⟨rfl, rfl⟩ := h
      exact ⟨(if_pos hsvc).symm, .inl ⟨by simp, rfl⟩⟩
    · rename_i hsvc
      rw [if_neg hsvc]
      split at h
      · rename_i hsid
        simp only [Exec.pure_ok] at h
        obtain ⟨rfl, rfl⟩ := h
        exact ⟨(if_pos hsid).symm, .inl ⟨by simp, rfl⟩⟩
      · rename_i hsid
        simp only [Exec.bind_ok, Exec.modify_ok, Exec.pure_ok] at h
        obtain ⟨_, _, rfl, rfl, rfl⟩ := h
        exact ⟨(if_neg hsid).symm, .inr ⟨rfl, s, rfl, rfl⟩⟩

theorem hostSessionCheck_ok {service : Nat} {sid : Int} {r : SessionCheck}
    (h : hostSessionCheck os p service sid w = .ok r w') :
    (r ≠ .noError ∧ w' = w) ∨
      (r = .noError ∧ ∃ s ses, w.sessionOf p = some s ∧ w.live s = some ses ∧
        ses.service = service ∧ ses.sid = sid ∧ w' = w.touch s os.now) := by
  obtain ⟨hcheck, hcase⟩ := hostSessionCheck_result h
  rcases hcase with hne | ⟨rfl, s, hs, rfl⟩
  · exact .inl hne
  · obtain ⟨ses, hses, hsvc, hsid⟩ := sessionCheckOf_noError.mp hcheck.symm
    rw [hs, Option.bind_some] at hses
    exact .inr ⟨rfl, s, ses, hs, hses, hsvc, hsid, rfl⟩

/-- A check passes on a session of the service with that id. -/
theorem hostSessionCheck_run {service : Nat} {sid : Int} (hs : w.sessionOf p = some s)
    (hl : w.live s = some ses) (hsvc : ses.service = service) (hsid : ses.sid = sid) :
    hostSessionCheck os p service sid w = .ok .noError (w.touch s os.now) := by
  obtain ⟨host, hh, he⟩ := sessionOf_some.mp hs
  simp only [hostSessionCheck, Exec.bind_ok, loadHost_ok]
  refine ⟨host, w, ⟨hh, rfl⟩, ?_⟩
  simp only [he, Exec.bind_ok, loadSession_ok]
  refine ⟨ses, w, ⟨hl, rfl⟩, ?_⟩
  rw [if_neg (not_not.mpr hsvc), if_neg (not_not.mpr hsid)]
  rfl

/-- The session that a check finds passes exactly with its own id. -/
theorem hostSessionCheck_iff {service : Nat} {sid : Int} (hs : w.sessionOf p = some s)
    (hl : w.live s = some ses) (hsvc : ses.service = service) :
    (∃ w', hostSessionCheck os p service sid w = .ok .noError w') ↔ ses.sid = sid := by
  constructor
  · intro ⟨w', hr⟩
    rcases hostSessionCheck_ok hr with ⟨hne, -⟩ | ⟨-, t, ses', ht, hl', -, hsid, -⟩
    · exact absurd rfl hne
    · rw [hs] at ht; cases ht
      rw [hl] at hl'; cases hl'
      exact hsid
  · exact fun hsid => ⟨_, hostSessionCheck_run hs hl hsvc hsid⟩

end
end Bootd
