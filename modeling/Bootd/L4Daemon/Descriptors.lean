import Bootd.L4Daemon.Request

/-!
# Descriptors over a run

Listeners are made with sockets, and the descriptors a session keeps are
those of files. `host_session_delete` looks for a listener under a file's
descriptor, so it never finds one: ending sessions closes nothing
(`Descriptors.ends`), and what was open stays open.

* `Descriptors`: the invariant, for every reachable state
  (`daemon_descriptors`).
* `Carried`: open descriptors stay what they are, and no session's change.
* `handle_carried`: a packet carries everything on, except that a granted
  request adds a session, with the file it asked for or with nothing.
-/
namespace Bootd

open Bootd.Core

structure Descriptors (w : World) : Prop where
  listeners : ∀ l ∈ w.listeners, w.fdObj l.fd = some .socket
  sessions : ∀ s ses, w.live s = some ses → ∀ fd ∈ ses.fd.toList, fd = 0 ∨
    ∃ path d, w.fdObj fd = some (.file path d)
  stdin : w.fdObj 0 ≠ none

/-- The same session, but for the time of its last packet. -/
def Session.Same (ses ses' : Session) : Prop := ses' = { ses with atime := ses'.atime }

/-- What is open stays so, listeners stay listed, and the sessions there are keep
what they have. -/
structure Carried (w w' : World) : Prop where
  fds : ∀ fd o, w.fdObj fd = some o → w'.fdObj fd = some o
  listeners : ∀ l ∈ w.listeners, l ∈ w'.listeners
  sessions : ∀ s ses', w'.live s = some ses' → ∃ ses, w.live s = some ses ∧ ses.Same ses'
  length : w'.sessions.length = w.sessions.length

section
variable {c : Conf} {os : Os} {e : Ev} {w w₀ w₁ w₂ w' : World} {h t : HostId} {host : Host} {f : File}
  {s : SessId} {ses : Session} {es : List (HostId × SessId)} {nl : Option Listener} {L : List HostId}
  {o : FdObj} {svc : Nat} {sid : Int}

theorem Session.Same.fd {ses' : Session} (h : ses.Same ses') : ses'.fd = ses.fd := by
  unfold Session.Same at h
  rw [h]

theorem Session.Same.trans {ses' ses'' : Session} (h : ses.Same ses') (h' : ses'.Same ses'') :
    ses.Same ses'' := by
  unfold Session.Same at *
  rw [h'] at *
  rw [h]

theorem Carried.of_eq (hf : w'.fds = w.fds) (hs : w'.sessions = w.sessions)
    (hl : w'.listeners = w.listeners) : Carried w w' := by
  refine ⟨fun fd o ho => ?_, fun l hm => by rwa [hl], fun s ses' hl => ⟨ses', ?_, rfl⟩, by rw [hs]⟩
  · rwa [World.fdObj, hf]
  · rwa [World.live, ← hs]

theorem Carried.trans (h : Carried w w₁) (h' : Carried w₁ w₂) : Carried w w₂ := by
  refine ⟨fun fd o ho => h'.fds fd o (h.fds fd o ho), fun l hm => h'.listeners l (h.listeners l hm),
    fun s ses' hl => ?_, h'.length.trans h.length⟩
  obtain ⟨ses₁, hl₁, e₁⟩ := h'.sessions s ses' hl
  obtain ⟨ses, hl, e⟩ := h.sessions s ses₁ hl₁
  exact ⟨ses, hl, e.trans e₁⟩

theorem Carried.update {g : Session → Session} (hg : ∀ x : Session, x.Same (g x))
    (hf : w'.fds = w.fds) (hs : w'.sessions = Slots.update w.sessions s g)
    (hl : w'.listeners = w.listeners) : Carried w w' := by
  refine ⟨fun fd o ho => ?_, fun l hm => by rwa [hl], fun t ses' hl => ?_, ?_⟩
  · rwa [World.fdObj, hf]
  · rw [World.live, hs, Slots.get_update] at hl
    split at hl
    · obtain ⟨ses, hl', rfl⟩ := Option.map_eq_some_iff.mp hl
      exact ⟨ses, hl', hg ses⟩
    · exact ⟨ses', hl, rfl⟩
  · rw [hs, Slots.update, List.length_modify]

theorem Carried.descriptors (hc : Carried w w') (hl : w'.listeners = w.listeners)
    (hd : Descriptors w) : Descriptors w' := by
  refine ⟨fun l hm => ?_, fun s ses' hs fd hfd => ?_, ?_⟩
  · rw [hl] at hm
    exact hc.fds _ _ (hd.listeners l hm)
  · obtain ⟨ses, hs, e⟩ := hc.sessions s ses' hs
    rw [e.fd] at hfd
    rcases hd.sessions s ses hs fd hfd with h0 | ⟨path, d, ho⟩
    · exact .inl h0
    · exact .inr ⟨path, d, hc.fds _ _ ho⟩
  · obtain ⟨o, ho⟩ := Option.ne_none_iff_exists'.mp hd.stdin
    rw [hc.fds 0 o ho]; simp

theorem Descriptors.start (hd : Descriptors w) : Descriptors w.start :=
  (Carried.of_eq rfl rfl rfl : Carried w w.start).descriptors rfl hd

/-! ## The trace -/

/-- Marks of sessions, listeners and files, none of a descriptor closed. -/
def Io.isMark : Io → Bool
  | .listen _ | .start _ _ | .stop _ _ | .openFile _ _ _ _ => true
  | _ => false

/-- The trace of `w'` is that of `w` and more, all of it `P`. -/
def Appends (P : Io → Prop) (w w' : World) : Prop :=
  ∃ ios, w'.out = w.out ++ ios ∧ ∀ io ∈ ios, P io

theorem Appends.of_eq {P : Io → Prop} (h : w'.out = w.out) : Appends P w w' :=
  ⟨[], by rw [h, List.append_nil], fun _ hio => by cases hio⟩

theorem Appends.trans {P : Io → Prop} (h : Appends P w w₁) (h' : Appends P w₁ w₂) :
    Appends P w w₂ := by
  obtain ⟨a, ha, hPa⟩ := h
  obtain ⟨b, hb, hPb⟩ := h'
  refine ⟨a ++ b, by rw [hb, ha, List.append_assoc], fun io hio => ?_⟩
  rcases List.mem_append.mp hio with hio | hio
  · exact hPa io hio
  · exact hPb io hio

theorem Appends.mono {P Q : Io → Prop} (h : Appends P w w') (hPQ : ∀ io, P io → Q io) :
    Appends Q w w' := by
  obtain ⟨ios, ho, hP⟩ := h
  exact ⟨ios, ho, fun io hio => hPQ io (hP io hio)⟩

theorem Appends.mem {P : Io → Prop} (h : Appends P w w') {io : Io} (hio : io ∈ w'.out) :
    io ∈ w.out ∨ P io := by
  obtain ⟨ios, ho, hP⟩ := h
  rw [ho] at hio
  rcases List.mem_append.mp hio with hio | hio
  · exact .inl hio
  · exact .inr (hP io hio)

theorem Appends.subset {P : Io → Prop} (h : Appends P w w') {io : Io} (hio : io ∈ w.out) :
    io ∈ w'.out := by
  obtain ⟨ios, ho, -⟩ := h
  rw [ho]
  exact List.mem_append_left _ hio

/-! ## Ending a session closes nothing -/

/-- No session has the descriptor of a listener. -/
def Unlistened (w : World) : Prop :=
  ∀ s ses, w.live s = some ses → ∀ fd ∈ ses.fd.toList, fd = 0 ∨ listenerSearchByFd w.listeners fd = none

/-- No listener is registered under a file's descriptor. -/
theorem Descriptors.unlistened (hd : Descriptors w) : Unlistened w := by
  intro s ses hs fd hfd
  refine (hd.sessions s ses hs fd hfd).imp_right ?_
  rintro ⟨path, d, ho⟩
  refine List.find?_eq_none.mpr fun l hl he => ?_
  have hsock := hd.listeners l hl
  rw [beq_iff_eq.mp he, ho] at hsock
  cases hsock

theorem releaseFds_run {fds : List Fd}
    (hfds : ∀ fd ∈ fds, fd = 0 ∨ listenerSearchByFd w.listeners fd = none) : releaseFds fds w = .ok () w := by
  induction fds with
  | nil => rfl
  | cons fd fds ih =>
    have hone : releaseFd fd w = .ok () w := by
      unfold releaseFd
      split
      · rename_i h0
        rw [Exec.get_run, (hfds fd List.mem_cons_self).resolve_left h0]
        rfl
      · rfl
    rw [releaseFds, Exec.bind_run hone]
    exact ih fun fd hm => hfds fd (List.mem_cons_of_mem _ hm)

theorem Unlistened.releaseFds (hu : Unlistened w) (hs : w.live s = some ses) :
    Bootd.releaseFds ses.fd.toList w = .ok () w := releaseFds_run (hu s ses hs)

theorem Carried.unlistened (hc : Carried w w') (hl : w'.listeners = w.listeners) (hu : Unlistened w) :
    Unlistened w' := by
  intro s ses' hs fd hfd
  obtain ⟨ses, hs, e⟩ := hc.sessions s ses' hs
  rw [e.fd] at hfd
  rw [hl]
  exact hu s ses hs fd hfd

/-- What ending sessions leaves: descriptors, listeners, and a mark for each. -/
theorem Unlistened.ends (hu : Unlistened w) (he : Ends es w w') :
    w'.fds = w.fds ∧ w'.listeners = w.listeners ∧
      w'.out = w.out ++ es.map (fun e => .stop e.1 e.2) ∧ Carried w w' := by
  induction he with
  | nil => exact ⟨rfl, rfl, (List.append_nil _).symm, .of_eq rfl rfl rfl⟩
  | @snoc w w₁ w₂ es p s ses he hp hs hr ih =>
    obtain ⟨hf, hl, ho, hc⟩ := ih hu
    rw [(hc.unlistened hl hu).releaseFds hs] at hr
    cases hr
    refine ⟨hf, hl, ?_, hc.trans ⟨fun _ _ ho => ho, fun _ hm => hm, fun t ses' ht => ?_, ?_⟩⟩
    · rw [World.endSession_out, ho, List.map_append, List.append_assoc]; rfl
    · rw [live_endSession] at ht
      split at ht
      · cases ht
      · exact ⟨ses', ht, rfl⟩
    · simp [Slots.clear]

theorem Descriptors.ends (hd : Descriptors w) (he : Ends es w w') :
    w'.fds = w.fds ∧ w'.listeners = w.listeners ∧
      w'.out = w.out ++ es.map (fun e => .stop e.1 e.2) ∧ Carried w w' :=
  hd.unlistened.ends he

theorem Descriptors.ends_appends {P : Io → Prop} (hd : Descriptors w) (he : Ends es w w')
    (hP : ∀ p s, P (.stop p s)) : Appends P w w' := by
  refine ⟨_, (hd.ends he).2.2.1, fun io hio => ?_⟩
  obtain ⟨x, -, rfl⟩ := List.mem_map.mp hio
  exact hP x.1 x.2

/-! ## The other operations -/

theorem fdObj_put (hf : w'.fds = Slots.put w.fds o) (fd : Fd) :
    w'.fdObj fd = if fd = w.freeFd then some o else w.fdObj fd := by
  rw [World.fdObj, hf]
  exact Slots.get_put _ _ _

theorem fdObj_put_old (hf : w'.fds = Slots.put w.fds o) {fd : Fd} {o' : FdObj}
    (h : w.fdObj fd = some o') : w'.fdObj fd = some o' := by
  rw [fdObj_put hf, if_neg]
  · exact h
  · rintro rfl
    rw [fdObj_freeFd] at h; cases h

theorem Descriptors.newListener {dst : SockAddr} (hd : Descriptors w)
    (hn : NewListener os dst w nl w') : Descriptors w' ∧ Carried w w' := by
  cases hn with
  | failed => exact ⟨hd, .of_eq rfl rfl rfl⟩
  | created l hs hid hfd hp hsvc =>
    have hput : ∀ ls ios, (∀ k ∈ w.listeners, k ∈ ls) → Carried w { w with
        nextId := w.nextId + 1, fds := Slots.put w.fds .socket, listeners := ls, out := ios } :=
      fun ls ios hls => ⟨fun fd o ho => fdObj_put_old (o := .socket) rfl ho, hls,
        fun s ses' h => ⟨ses', h, rfl⟩, rfl⟩
    have hsame := (hput w.listeners [] fun _ hk => hk).descriptors rfl hd
    refine ⟨⟨fun k hk => ?_, hsame.sessions, hsame.stdin⟩, hput _ _ fun k hk => ?_⟩
    · have hk : k = l ∨ k ∈ w.listeners := by
        simp only at hk
        split at hk
        · exact .inr hk
        · rcases List.mem_append.mp hk with hk | hk
          · exact .inr hk
          · exact .inl (List.mem_singleton.mp hk)
      rcases hk with rfl | hk
      · rw [fdObj_put (w := w) (o := .socket) rfl, if_pos hfd]
      · exact hsame.listeners k hk
    · split
      · exact hk
      · exact List.mem_append_left _ hk

theorem Descriptors.prelude (hd : Descriptors w) (hpre : Prelude h w e nl w') :
    Descriptors w' ∧ Carried w w' := by
  cases hpre with
  | tftp os l frm loc pkt es w₁ nl w₂ he hown hnl =>
    obtain ⟨-, hl, -, hc⟩ := hd.ends he
    obtain ⟨hd', hc'⟩ := (hc.descriptors hl hd).newListener hnl
    exact ⟨hd', hc.trans hc'⟩
  | rmp => exact ⟨(Carried.of_eq rfl rfl rfl : Carried w w.nextSid).descriptors rfl hd, .of_eq rfl rfl rfl⟩

theorem Descriptors.prelude_appends {P : Io → Prop} (hd : Descriptors w)
    (hpre : Prelude h w e nl w') (hP : ∀ p s, P (.stop p s)) (hL : ∀ l, P (.listen l)) :
    Appends P w w' := by
  cases hpre with
  | tftp os l frm loc pkt es w₁ nl w₂ he hown hnl =>
    refine (hd.ends_appends he hP).trans ?_
    cases hnl with
    | failed => exact .of_eq rfl
    | created l => exact ⟨[.listen l], rfl, fun io hio => by rw [List.mem_singleton.mp hio]; exact hL l⟩
  | rmp => exact .of_eq rfl

theorem Admitted.carried (hok : HostsOk w L) (ha : Admitted c w e t h w₁) :
    Carried w w₁ ∧ w₁.listeners = w.listeners ∧ w₁.out = w.out := by
  cases ha with
  | known => exact ⟨.of_eq rfl rfl rfl, rfl, rfl⟩
  | cloned os l p t tmpl h b w' hhost hcl htm hadd =>
    obtain ⟨-, hf, -⟩ := clone_ok hok (Ev.host_mem hok hhost) htm hadd
    exact ⟨.of_eq hf.fds hf.sessions hf.listeners, hf.listeners, hf.out⟩

theorem Admitted.sid_eq (hok : HostsOk w L) (ha : Admitted c w e t h w₁) : e.sid w₁ = e.sid w := by
  cases ha with
  | known => rfl
  | cloned os l p t tmpl h b w' hhost hcl htm hadd =>
    obtain ⟨-, hf, -⟩ := clone_ok hok (Ev.host_mem hok hhost) htm hadd
    simp only [Ev.sid, hf.rmpSid]

/-! ## What a packet does to the sessions -/

/-- The session that a granted request makes: with the file `f` open, or with
nothing where `open` failed. -/
inductive NewSession (os : Os) (h : HostId) (f : File) (w' : World) (s : SessId) (ses : Session) : Prop
  | failed (err : Errno) : os.openf f.path = .error err → ses.fd = .replicate 8 0 →
      NewSession os h f w' s ses
  | opened (d : List UInt8) (fd : Fd) : os.openf f.path = .ok d →
      ses.fd = bfFds fd → fd ≠ 0 → w'.fdObj fd = some (.file f.path d) →
      .openFile h s f.path (some fd) ∈ w'.out → NewSession os h f w' s ses

/-- Everything is carried on, and a session of the service `svc` with the id
`sid` is added. -/
structure Adds (os : Os) (svc : Nat) (sid : Int) (h : HostId) (f : File) (w w' : World) : Prop where
  fds : ∀ fd o, w.fdObj fd = some o → w'.fdObj fd = some o
  listeners : ∀ l ∈ w.listeners, l ∈ w'.listeners
  sessions : ∀ s ≠ w.sessions.length, ∀ ses', w'.live s = some ses' →
    ∃ ses, w.live s = some ses ∧ ses.Same ses'
  length : w'.sessions.length = w.sessions.length + 1
  session : ∃ ses, w'.live w.sessions.length = some ses ∧
    NewSession os h f w' w.sessions.length ses ∧ ses.service = svc ∧ ses.sid = sid

theorem live_failed (w : World) (h : HostId) (ses : Session) (path : Option CStr) (t : SessId) :
    ((w.startSession h ses).openFailed h w.sessions.length path).live t =
      if t = w.sessions.length then some (ses.setBfFd 0) else w.live t := by
  rw [World.live, World.openFailed_sessions, Slots.get_update]
  have := live_startSession w h ses t
  rw [World.live] at this
  rw [this]
  split <;> rfl

theorem live_granted (w : World) (h : HostId) (ses : Session) (path : Option CStr) (d : List UInt8)
    (g : Session → Session) (t : SessId) :
    (((w.startSession h ses).opened h w.sessions.length path d).setSession w.sessions.length g).live t =
      if t = w.sessions.length then some (g (ses.setBfFd w.freeFd)) else w.live t := by
  rw [live_setSession, World.live, World.opened_sessions, Slots.get_update]
  have := live_startSession w h ses t
  rw [World.live] at this
  rw [this]
  split <;> rfl

/-- A refused request changes no session; a granted one adds one. -/
theorem granting_carried (hd : Descriptors w) (hg : Granting c os svc sid h f w w') :
    w'.listeners = w.listeners ∧ ((c.cSessionMax ≤ w.gNSessions ∧ Carried w w') ∨
      (w.gNSessions < c.cSessionMax ∧ Adds os svc sid h f w w')) := by
  cases hg with
  | busy ios hmax => exact ⟨rfl, .inl ⟨hmax, .of_eq rfl rfl rfl⟩⟩
  | failed ses err ios hmax hfd ho =>
    refine ⟨rfl, .inr ⟨hmax, fun _ _ h => h, fun _ hm => hm, fun t ht ses' hl => ?_, ?_, ?_⟩⟩
    · exact ⟨ses', ((live_failed w h ses f.path t).trans (if_neg ht)).symm.trans hl, rfl⟩
    · simp [Slots.update, Slots.push]
    · subst hfd
      exact ⟨_, (live_failed w h _ f.path _).trans (if_pos rfl), .failed err ho rfl, rfl, rfl⟩
  | opened ses d g ios w' hmax hfd ho hg hw =>
    subst hw
    have h0 : w.freeFd ≠ 0 := by
      intro e
      have := fdObj_freeFd w
      rw [e] at this
      exact hd.stdin this
    refine ⟨rfl, .inr ⟨hmax, fun fd o h => fdObj_put_old (w := w) (o := .file f.path d) rfl h,
      fun _ hm => hm, fun t ht ses' hl => ?_, ?_, ?_⟩⟩
    · exact ⟨ses', ((live_granted w h ses f.path d g t).trans (if_neg ht)).symm.trans hl, rfl⟩
    · simp [Slots.update, Slots.push]
    · subst hfd
      obtain ⟨hgfd, hgsvc, hgsid⟩ := hg ((Session.fresh svc sid os.now).setBfFd w.freeFd)
      refine ⟨_, (live_granted w h _ f.path d g _).trans (if_pos rfl),
        .opened d w.freeFd ho ?_ h0 ?_ ?_, hgsvc, hgsid rfl⟩
      · rw [hgfd]; rfl
      · exact (fdObj_put (w := w) (o := .file f.path d) rfl _).trans (if_pos rfl)
      · exact List.mem_append_left _ (List.mem_append_right _ (List.mem_singleton.mpr rfl))

theorem Adds.of_carried (hc : Carried w w₁) (ha : Adds os svc sid h f w₁ w') :
    Adds os svc sid h f w w' := by
  refine ⟨fun fd o ho => ha.fds fd o (hc.fds fd o ho), fun l hm => ha.listeners l (hc.listeners l hm),
    fun s hs ses' hl => ?_, ?_, ?_⟩
  · obtain ⟨ses₁, hl₁, e₁⟩ := ha.sessions s (by rw [hc.length]; exact hs) ses' hl
    obtain ⟨ses, hl, e⟩ := hc.sessions s ses₁ hl₁
    exact ⟨ses, hl, e.trans e₁⟩
  · rw [ha.length, hc.length]
  · rw [← hc.length]; exact ha.session

theorem Adds.descriptors (ha : Adds os svc sid h f w w') (hl : w'.listeners = w.listeners)
    (hd : Descriptors w) : Descriptors w' := by
  refine ⟨fun l hm => ?_, fun s ses' hs fd hfd => ?_, ?_⟩
  · rw [hl] at hm
    exact ha.fds _ _ (hd.listeners l hm)
  · by_cases hnew : s = w.sessions.length
    · subst hnew
      obtain ⟨ses, hses, hcase, -⟩ := ha.session
      rw [hs] at hses; cases hses
      cases hcase with
      | failed err ho hfds =>
        rw [hfds, Vector.toList_replicate] at hfd
        exact .inl (List.eq_of_mem_replicate hfd)
      | opened d fd' ho hfds h0 hobj =>
        rw [hfds, Vector.mem_toList_iff] at hfd
        rcases Vector.mem_or_eq_of_mem_set hfd with hfd | rfl
        · exact .inl (Vector.eq_of_mem_replicate hfd)
        · exact .inr ⟨_, _, hobj⟩
    · obtain ⟨ses, hses, e⟩ := ha.sessions s hnew ses' hs
      rw [e.fd] at hfd
      rcases hd.sessions s ses hses fd hfd with h0 | ⟨path, d, ho⟩
      · exact .inl h0
      · exact .inr ⟨path, d, ha.fds _ _ ho⟩
  · obtain ⟨o, ho⟩ := Option.ne_none_iff_exists'.mp hd.stdin
    rw [ha.fds 0 o ho]; simp

/-- What a packet does to descriptors and sessions: it carries all on, or a
request that is not busy adds a session. -/
theorem handle_carried {u : Unit} (hok : HostsOk w L) (hd : Descriptors w)
    (hr : e.handle c w = .ok u w') : Descriptors w' ∧ (Carried w w' ∨
      ∃ t h f, e.Requests w t f ∧ ¬Busy c e.os w t ∧
        Adds e.os e.service (e.sid w) h f w w') := by
  rcases handle_ok hr with ⟨ios, -, rfl⟩ | ⟨t, h, w₁, host, ha, hh, hs⟩
  · have hc : Carried w (w.emits ios) := .of_eq rfl rfl rfl
    exact ⟨hc.descriptors rfl hd, .inl hc⟩
  obtain ⟨hc₁, hl₁, -⟩ := ha.carried hok
  have hd₁ := hc₁.descriptors hl₁ hd
  cases hs with
  | plain ios =>
    have hc : Carried w₁ (w₁.emits ios) := .of_eq rfl rfl rfl
    exact ⟨hc.descriptors rfl hd₁, .inl (hc₁.trans hc)⟩
  | answer s ses ios =>
    have hc : Carried w₁ ((w₁.touch s e.os.now).emits ios) :=
      .update (s := s) (g := fun ses => { ses with atime := int32 e.os.now }) (fun _ => rfl) rfl rfl rfl
    exact ⟨hc.descriptors rfl hd₁, .inl (hc₁.trans hc)⟩
  | done es w' _ _ he =>
    obtain ⟨-, hl, -, hc⟩ := hd₁.ends he
    exact ⟨hc.descriptors hl hd₁, .inl (hc₁.trans hc)⟩
  | request f nl w₀ ps w₃ w' hf hpre hpath hlive he hlt hnone hg _ =>
    obtain ⟨hd₀, hc₀⟩ := hd₁.prelude hpre
    obtain ⟨-, hl₃, -, hc₃⟩ := hd₀.ends he
    have hd₃ := hc₃.descriptors hl₃ hd₀
    have hc := (hc₁.trans hc₀).trans hc₃
    obtain ⟨hl, hcase⟩ := granting_carried hd₃ hg
    rcases hcase with ⟨-, hc'⟩ | ⟨hmax, hadd⟩
    · exact ⟨hc'.descriptors hl hd₃, .inl (hc.trans hc')⟩
    · rw [ha.sid_eq hok] at hadd
      refine ⟨hadd.descriptors hl hd₃, .inr ⟨t, h, f, ha.requests hok hh hf, fun hb => ?_,
        .of_carried hc hadd⟩⟩
      have := (request_busy hok ha hpre hpath hlive he).mp hb
      omega

theorem Granting.appends (hg : Granting c os svc sid h f w w') :
    Appends (fun io => io.isMark = true ∨ io.isPacket = true) w w' := by
  cases hg with
  | busy ios _ hp => exact ⟨ios, rfl, fun io hio => .inr (hp io hio).1⟩
  | failed ses err ios _ _ _ hp =>
    refine ⟨.start h w.sessions.length :: .openFile h w.sessions.length f.path none :: ios,
      by simp, fun io hio => ?_⟩
    rcases List.mem_cons.mp hio with rfl | hio
    · exact .inl rfl
    · rcases List.mem_cons.mp hio with rfl | hio
      · exact .inl rfl
      · exact .inr (hp io hio).1
  | opened ses d g ios w' _ _ _ _ hw hr =>
    subst hw
    refine ⟨.start h w.sessions.length :: .openFile h w.sessions.length f.path (some w.freeFd) :: ios,
      by simp, fun io hio => ?_⟩
    rcases List.mem_cons.mp hio with rfl | hio
    · exact .inl rfl
    · rcases List.mem_cons.mp hio with rfl | hio
      · exact .inl rfl
      · exact .inr (hr io hio).1

/-- **No packet closes a descriptor.** -/
theorem handle_appends {u : Unit} (hok : HostsOk w L) (hd : Descriptors w)
    (hr : e.handle c w = .ok u w') :
    Appends (fun io => io.isMark = true ∨ io.isPacket = true) w w' := by
  rcases handle_ok hr with ⟨ios, hp, rfl⟩ | ⟨t, h, w₁, host, ha, hh, hs⟩
  · exact ⟨ios, rfl, fun io hio => .inr (hp io hio).1⟩
  obtain ⟨hc₁, hl₁, ho₁⟩ := ha.carried hok
  have hd₁ := hc₁.descriptors hl₁ hd
  refine (Appends.of_eq ho₁).trans ?_
  cases hs with
  | plain ios _ hp => exact ⟨ios, rfl, fun io hio => .inr (hp io hio).1⟩
  | answer s ses ios _ _ _ _ hreads => exact ⟨ios, rfl, fun io hio => .inr (hreads io hio).1⟩
  | done es w' _ _ he => exact hd₁.ends_appends he fun _ _ => .inl rfl
  | request f nl w₀ ps w₃ w' hf hpre hpath hlive he hlt hnone hg _ =>
    have hpre' := hd₁.prelude_appends (P := fun io => io.isMark = true ∨ io.isPacket = true) hpre
      (fun _ _ => .inl rfl) fun _ => .inl rfl
    exact (hpre'.trans ((hd₁.prelude hpre).1.ends_appends he fun _ _ => .inl rfl)).trans hg.appends

theorem boot_descriptors (hb : Boot c w) : Descriptors w := by
  refine ⟨fun l hl => (hb.listeners l hl).2.2, fun s ses hs => ?_, hb.stdin⟩
  rw [World.live, hb.sessions] at hs
  cases hs

theorem daemon_descriptors (σ : Sys) (hr : (daemon c).Reachable σ) : Descriptors σ.w := by
  have hind : (daemon c).Inductive fun σ => (∃ L, HostsOk σ.w L) ∧ Descriptors σ.w := by
    refine ⟨fun σ h => ⟨boot_hostsOk h.1, boot_descriptors h.1⟩, fun σ e σ' hi hs => ?_⟩
    obtain ⟨⟨L, hok⟩, hd⟩ := hi
    exact ⟨handle_hostsOk hok.start hs.2.1, (handle_carried hok.start hd.start hs.2.1).1⟩
  exact (hind.reachable σ hr).2

end
end Bootd
