import Bootd.L4Daemon.Descriptors

/-!
# Ended sessions keep their file and their listener

`host_session_delete` (src/host.c:195-199) looks in `g_listeners` for the
descriptors of the session. Those are files, and listeners have sockets, so it
finds nothing: the file stays open, and the data listener of a TFTP session
stays registered.

Counterexample: the same client makes two read requests. The second ends the
session of the first, whose file and listener stay (`session_leak`).

* `release_iff_bare`: the end of a session releases what it acquired exactly if
  that was nothing, in every run; and open files and data listeners stay within
  the number of sessions in every run that ends only such sessions and makes no
  listener for a request that it then refuses.
-/
namespace Bootd

open Bootd.Core

/-! ## What a session acquires -/

/-- `fd` was opened for session `s`. -/
def OpenedFor (hist : List (List Io)) (s : SessId) (fd : Fd) : Prop :=
  ∃ ios ∈ hist, ∃ h path, .openFile h s path (some fd) ∈ ios

/-- `l` was made by the request that got the session `s`. -/
def ListensFor (hist : List (List Io)) (s : SessId) (l : Listener) : Prop :=
  ∃ ios ∈ hist, .listen l ∈ ios ∧ ∃ h, .start h s ∈ ios

/-- The session has acquired nothing. -/
structure Bare (hist : List (List Io)) (s : SessId) : Prop where
  file : ∀ fd, ¬OpenedFor hist s fd
  listener : ∀ l, ¬ListensFor hist s l

/-- The packet that left the memory `w'` closed the session's file, and
unregistered and closed its listener. -/
structure ReleasedBy (hist : List (List Io)) (w' : World) (s : SessId) : Prop where
  file : ∀ fd, OpenedFor hist s fd → .close fd ∈ w'.out
  listener : ∀ l, ListensFor hist s l → l ∉ w'.listeners ∧ .close l.fd ∈ w'.out

/-- The open session files. -/
def World.openFiles (w : World) : Nat := Slots.count FdObj.isFile w.fds

/-- The listeners made for one client. -/
def World.dataListeners (w : World) : Nat := w.listeners.countP fun l => l.peer.isSome

/-! ## What a packet ends -/

/-- Session `s` is dropped for the request `e`, as the host's own or an expired
one, or it is the session of the host that sends `e` to say that it is done. -/
def Ev.Drops (c : Conf) (w : World) (e : Ev) (s : SessId) : Prop :=
  (∃ t f, e.Requests w t f ∧ (w.sessionOf t = some s ∨ ∃ p ses, w.Listed p ∧
    w.sessionOf p = some s ∧ w.live s = some ses ∧ sessionExpired c e.os ses = true)) ∨
  ∃ t host, e.host w = .ok (some t) ∧ w.hosts[t]? = some host ∧ e.done host ∧ w.sessionOf t = some s

/-- A request of this kind makes a listener. -/
def Ev.listens : Ev → Bool
  | .udp os _ _ _ _ => os.socket
  | .link _ _ _ => false

/-- A request makes a listener, and is refused for want of a session. -/
def Ev.ListensInVain (c : Conf) (w : World) (e : Ev) : Prop :=
  e.listens = true ∧ ∃ t f, e.Requests w t f ∧ Busy c e.os w t

/-- The packet ends only sessions that have acquired nothing, and makes no
listener in vain. -/
def Ev.LeakFree (c : Conf) (σ : Sys) (e : Ev) : Prop :=
  (∀ s, e.Drops c σ.w s → Bare σ.hist s) ∧ ¬e.ListensInVain c σ.w

section
variable {c : Conf} {os : Os} {e : Ev} {w w₀ w₁ w₃ w' : World} {h t p : HostId} {host : Host}
  {f : File} {s : SessId} {ps L : List HostId} {nl : Option Listener} {es : List (HostId × SessId)}
  {H H' : List (List Io)} {k : Nat} {svc : Nat} {sid : Int}

/-- No packet releases anything. -/
theorem releasedBy_iff {u : Unit} (hok : HostsOk w L) (hd : Descriptors w) (hout : w.out = [])
    (hr : e.handle c w = .ok u w') : ReleasedBy H w' s ↔ Bare H s := by
  have hclose : ∀ fd, .close fd ∉ w'.out := by
    intro fd hio
    rcases (handle_appends hok hd hr).mem hio with hio | hm | hp
    · rw [hout] at hio; cases hio
    · cases hm
    · cases hp
  refine ⟨fun hrel => ?_, fun hbare => ?_⟩
  · exact ⟨fun fd ho => hclose fd (hrel.file fd ho),
      fun l hl => hclose l.fd (hrel.listener l hl).2⟩
  · exact ⟨fun fd ho => absurd ho (hbare.file fd), fun l hl => absurd hl (hbare.listener l)⟩

theorem mem_replaced (hm : (p, s) ∈ w.replaced c os ps h) :
    (p = h ∧ w.sessionOf h = some s) ∨ (p ∈ ps ∧ w.sessionOf p = some s ∧
      ∃ ses, w.live s = some ses ∧ sessionExpired c os ses = true) := by
  rcases List.mem_append.mp hm with hm | hm
  · obtain ⟨q, hq, hi⟩ := List.mem_filterMap.mp hm
    obtain ⟨hpq, hs, hx⟩ := idle_some hi
    have hpq : p = q := hpq
    subst hpq
    exact .inr ⟨hq, hs, hx⟩
  · split at hm
    · cases hm
    · obtain ⟨t, ht, he⟩ := Option.map_eq_some_iff.mp (Option.mem_toList.mp hm)
      cases he
      exact .inl ⟨rfl, ht⟩

/-- The sessions there are after the prelude were there before. -/
theorem prelude_back (hpre : Prelude h w e nl w') :
    (∀ q t, w'.sessionOf q = some t → w.sessionOf q = some t) ∧
      ∀ t ses, w'.live t = some ses → w.live t = some ses := by
  cases hpre with
  | tftp os l frm loc pkt es w₁ nl w₂ he hown hnl =>
    refine ⟨fun q t hq => ?_, fun t ses ht => he.live_of ?_⟩
    · have hq : w₁.sessionOf q = some t := by cases hnl <;> exact hq
      rcases he.sessionOf_or q with e | ⟨e, -⟩
      · rw [← e]; exact hq
      · rw [hq] at e; cases e
    · cases hnl <;> exact ht
  | rmp => exact ⟨fun _ _ hq => hq, fun _ _ ht => ht⟩

/-- The host that a packet is served as has the session of the one it is
charged to. -/
theorem Admitted.sessions (hok : HostsOk w L) (ha : Admitted c w e t h w₁) :
    w₁.sessions = w.sessions ∧ w₁.sessionOf h = w.sessionOf t ∧ ∃ L', HostsOk w₁ L' ∧
      ∀ q ∈ L', q = h ∨ q ∈ L ∧ w₁.sessionOf q = w.sessionOf q := by
  cases ha with
  | known => exact ⟨rfl, rfl, L, hok, fun q hq => .inr ⟨hq, rfl⟩⟩
  | cloned os l p t tmpl h b w' hhost hcl htm hadd =>
    obtain ⟨rfl, hf, hok', host, hh, hses, -⟩ := clone_ok hok (Ev.host_mem hok hhost) htm hadd
    refine ⟨hf.sessions, by rw [sessionOf_eq hh, hses, sessionOf_eq htm], _, hok', fun q hq => ?_⟩
    obtain ⟨-, r, hpath, -⟩ := id hok.lasso
    split at hq
    · rcases List.mem_append.mp hq with hq | hq
      · exact .inr ⟨hq, hf.sessionOf (path_lt hpath q hq)⟩
      · exact .inl (List.mem_singleton.mp hq)
    · exact .inr ⟨hq, hf.sessionOf (path_lt hpath q hq)⟩

/-- What `host_session_add` ends is dropped for the request. -/
theorem replaced_drops (hok : HostsOk w L) (ha : Admitted c w e t h w₁) (hreq : e.Requests w t f)
    (hpre : Prelude h w₁ e nl w₀) (hpath : Chain.Path w₀.next w₀.gHosts ps none)
    (hm : (p, s) ∈ w₀.replaced c e.os ps h) : e.Drops c w s := by
  obtain ⟨hses, hown, L', hok', hlisted⟩ := ha.sessions hok
  obtain ⟨hback, hlive⟩ := prelude_back hpre
  have hps := ((SameHosts.prelude hpre).hostsOk hok').lasso.eq_of_path hpath
  rcases mem_replaced hm with ⟨-, hs⟩ | ⟨hp, hs, ses, hl, hx⟩
  · exact .inl ⟨t, f, hreq, .inl (hown ▸ hback h s hs)⟩
  · have hs := hback p s hs
    have hl : w.live s = some ses := by
      rw [World.live, ← hses]; exact hlive s ses hl
    rcases hlisted p (hps ▸ hp) with rfl | ⟨hp, hpe⟩
    · exact .inl ⟨t, f, hreq, .inl (hown ▸ hs)⟩
    · exact .inl ⟨t, f, hreq, .inr ⟨p, ses, hok.lasso.mem_iff.mp hp, hpe ▸ hs, hl, hx⟩⟩

/-! ## The books -/

/-- The open files and all but `k` of the data listeners are those of sessions
there are, one each; and the sessions there are, are counted. -/
structure Account (H : List (List Io)) (w : World) (k : Nat) : Prop where
  count : w.gNSessions = Slots.count (fun _ => true) w.sessions
  files : Slots.Owned (fun s => ∃ fd, OpenedFor H s fd) w.sessions w.openFiles
  listeners : ∃ n, Slots.Owned (fun s => ∃ l, ListensFor H s l) w.sessions n ∧
    w.dataListeners = n + k

theorem Account.mono (ha : Account H w k) (hsub : ∀ ios ∈ H, ios ∈ H') : Account H' w k := by
  obtain ⟨n, hn, hl⟩ := ha.listeners
  refine ⟨ha.count, ha.files.mono fun s => ?_, n, hn.mono fun s => ?_, hl⟩
  · intro ⟨fd, ios, hm, ho⟩
    exact ⟨fd, ios, hsub ios hm, ho⟩
  · intro ⟨l, ios, hm, ho⟩
    exact ⟨l, ios, hsub ios hm, ho⟩

theorem Account.congr (ha : Account H w k) (hg : w'.gNSessions = w.gNSessions)
    (hs : w'.sessions = w.sessions) (hf : w'.fds = w.fds) (hl : w'.listeners = w.listeners) :
    Account H w' k := by
  refine ⟨by rw [hg, hs, ha.count], ?_, ?_⟩
  · rw [World.openFiles, hf, hs]; exact ha.files
  · rw [World.dataListeners, hl, hs]; exact ha.listeners

/-- Sessions that have acquired nothing end. -/
theorem Account.ends (hd : Descriptors w) (ha : Account H w k) (he : Ends es w w')
    (hb : ∀ p s, (p, s) ∈ es → Bare H s) : Account H w' k := by
  induction he with
  | nil => exact ha
  | @snoc w w₁ w₂ es p s ses he hp hs hr ih =>
    have ha := ih hd ha fun p s hm => hb p s (List.mem_append_left _ hm)
    obtain ⟨-, hl, -, hc⟩ := hd.ends he
    have hd₁ := hc.descriptors hl hd
    rw [hd₁.unlistened.releaseFds hs] at hr
    cases hr
    have hbare := hb p s (List.mem_append_right _ (List.mem_singleton.mpr rfl))
    obtain ⟨n, hn, hl⟩ := ha.listeners
    refine ⟨?_, ha.files.clear ?_, n, hn.clear ?_, hl⟩
    · have hclear := Slots.count_clear (fun _ => true) hs
      have hcount := ha.count
      rw [World.endSession_gNSessions, World.endSession_sessions]
      simp only [if_true] at hclear
      omega
    · intro ⟨fd, ho⟩
      exact hbare.file fd ho
    · intro ⟨l, ho⟩
      exact hbare.listener l ho

theorem Account.newListener {dst : SockAddr} (hd : Descriptors w) (ha : Account H w 0)
    (hn : NewListener os dst w nl w') : Account H w' 0 ∨
      os.socket = true ∧ (∃ l, .listen l ∈ w'.out) ∧ Account H w' 1 := by
  cases hn with
  | failed => exact .inl ha
  | created l hs hid hfd hp =>
    refine .inr ⟨hs, ⟨l, List.mem_append_right _ (List.mem_singleton.mpr rfl)⟩, ha.count, ?_, ?_⟩
    · rw [World.openFiles, Slots.count_put]
      exact ha.files
    · obtain ⟨n, hn, hl⟩ := ha.listeners
      refine ⟨n, hn, ?_⟩
      have hnew : ¬(w.listeners.any (·.fd == l.fd)) = true := by
        intro hany
        obtain ⟨k, hk, he⟩ := List.any_eq_true.mp hany
        have := hd.listeners k hk
        rw [beq_iff_eq.mp he, hfd, fdObj_freeFd] at this
        cases this
      rw [World.dataListeners, if_neg hnew, List.countP_append, List.countP_singleton, hp]
      exact congrArg (· + 1) hl

theorem Account.prelude (hd : Descriptors w) (ha : Account H w 0) (hpre : Prelude h w e nl w')
    (hb : ∀ s, w.sessionOf h = some s → Bare H s) : Account H w' 0 ∨
      e.listens = true ∧ (∃ l, .listen l ∈ w'.out) ∧ Account H w' 1 := by
  cases hpre with
  | tftp os l frm loc pkt es w₁ nl w₂ he hown hnl =>
    obtain ⟨-, hl, -, hc⟩ := hd.ends he
    refine (ha.ends hd he fun p s hm => ?_).newListener (hc.descriptors hl hd) hnl
    rcases hown with ⟨-, rfl⟩ | ⟨t, ht, rfl⟩
    · cases hm
    · cases List.mem_singleton.mp hm
      exact hb s ht
  | rmp => exact .inl (ha.congr rfl rfl rfl rfl)

/-- A new session, which takes the listener made for it and perhaps a file. -/
theorem Account.granted {g : Session → Session} (ha : Account H w k) (ses : Session)
    (hk : k = 0 ∨ k = 1 ∧ ∃ l, .listen l ∈ w.out) (hg : w'.gNSessions = w.gNSessions + 1)
    (hs : w'.sessions = Slots.update (Slots.push w.sessions ses) w.sessions.length g)
    (hl : w'.listeners = w.listeners) (hsub : ∀ io ∈ w.out, io ∈ w'.out)
    (hstart : .start h w.sessions.length ∈ w'.out)
    (hf : w'.openFiles = w.openFiles ∨ w'.openFiles = w.openFiles + 1 ∧
      ∃ path fd, .openFile h w.sessions.length path (some fd) ∈ w'.out) :
    Account (H ++ [w'.out]) w' 0 := by
  have hlast : w'.out ∈ H ++ [w'.out] := List.mem_append_right _ (List.mem_singleton.mpr rfl)
  have ha : Account (H ++ [w'.out]) w k := ha.mono fun ios hm => List.mem_append_left _ hm
  obtain ⟨n, hn, hdl⟩ := ha.listeners
  refine ⟨?_, ?_, ?_⟩
  · have := ha.count
    rw [hs, Slots.count_update (fun _ => true) g (fun _ _ => rfl), Slots.count_push, hg, this]
    rfl
  · rw [hs]
    rcases hf with hf | ⟨hf, path, fd, ho⟩
    · rw [hf]; exact (ha.files.push ses).update _ _
    · rw [hf]
      exact (ha.files.push_new ses ⟨fd, _, hlast, h, path, ho⟩).update _ _
  · rw [hs, World.dataListeners, hl]
    rcases hk with rfl | ⟨rfl, l, hm⟩
    · exact ⟨n, (hn.push ses).update _ _, hdl⟩
    · exact ⟨n + 1, (hn.push_new ses ⟨l, _, hlast, hsub _ hm, h, hstart⟩).update _ _, hdl⟩

theorem Account.granting (ha : Account H w k)
    (hk : k = 0 ∨ k = 1 ∧ ∃ l, .listen l ∈ w.out) (hg : Granting c os svc sid h f w w') :
    (c.cSessionMax ≤ w.gNSessions ∧ Account H w' k) ∨ Account (H ++ [w'.out]) w' 0 := by
  have hsub : ∀ io ∈ w.out, io ∈ w'.out := fun io hio => hg.appends.subset hio
  cases hg with
  | busy ios hmax => exact .inl ⟨hmax, ha.congr rfl rfl rfl rfl⟩
  | failed ses err ios =>
    refine .inr (ha.granted (h := h) ses hk rfl rfl rfl hsub ?_ (.inl rfl))
    simp
  | opened ses d g ios w' _ _ _ _ hw =>
    subst hw
    refine .inr (ha.granted (h := h) ses hk rfl (Slots.update_update _ _ _ _) rfl hsub ?_
      (.inr ⟨?_, f.path, w.freeFd, ?_⟩))
    · simp
    · exact Slots.count_put _ _ _
    · simp

/-- A packet that ends only such sessions and makes no listener in vain. -/
theorem Account.handle {u : Unit} (hok : HostsOk w L) (hd : Descriptors w) (ha : Account H w 0)
    (hdrops : ∀ s, e.Drops c w s → Bare H s) (hvain : ¬e.ListensInVain c w)
    (hr : e.handle c w = .ok u w') : Account (H ++ [w'.out]) w' 0 := by
  have hsub : ∀ ios ∈ H, ios ∈ H ++ [w'.out] := fun ios hm => List.mem_append_left _ hm
  rcases handle_ok hr with ⟨ios, -, rfl⟩ | ⟨t, h, w₁, host, hadm, hh, hs⟩
  · have ha' : Account H (w.emits ios) 0 := ha.congr rfl rfl rfl rfl
    exact ha'.mono hsub
  have ha₁ : Account H w₁ 0 := by
    cases hadm with
    | known => exact ha
    | cloned os l p t tmpl h b w' hhost hcl htm hadd =>
      obtain ⟨-, hf, -⟩ := clone_ok hok (Ev.host_mem hok hhost) htm hadd
      exact ha.congr hf.gN hf.sessions hf.fds hf.listeners
  obtain ⟨hc₁, hl₁, -⟩ := hadm.carried hok
  have hd₁ := hc₁.descriptors hl₁ hd
  have hown := (hadm.sessions hok).2.1
  cases hs with
  | plain ios =>
    have ha' : Account H (w₁.emits ios) 0 := ha₁.congr rfl rfl rfl rfl
    exact ha'.mono hsub
  | answer s ses ios =>
    obtain ⟨n, hn, hl⟩ := ha₁.listeners
    refine Account.mono ⟨?_, ha₁.files.update _ _, n, hn.update _ _, hl⟩ hsub
    rw [World.emits_sessions, World.touch_sessions, Slots.count_update (fun _ => true) _ fun _ _ => rfl]
    exact ha₁.count
  | done es w' _ hdone he hes =>
    refine (ha₁.ends hd₁ he fun p s hm => hdrops s ?_).mono hsub
    rcases hes with ⟨-, rfl⟩ | ⟨s', hs, rfl⟩
    · cases hm
    · cases List.mem_singleton.mp hm
      cases hadm with
      | known _ _ hhost => exact .inr ⟨_, host, hhost, hh, hdone, hs⟩
      | cloned _ _ p _ _ _ _ _ _ hcl =>
        have := hcl.2.1
        simp [Ev.isBoot, hdone.2] at this
  | request f nl w₀ ps w₃ w' hf hpre hpath hlive he hlt hnone hg _ =>
    have hreq := hadm.requests hok hh hf
    have ha₀ := ha₁.prelude hd₁ hpre fun s hs =>
      hdrops s (.inl ⟨t, f, hreq, .inl (hown ▸ hs)⟩)
    have hends : ∀ p s, (p, s) ∈ w₀.replaced c e.os ps h → Bare H s := fun p s hm =>
      hdrops s (replaced_drops hok hadm hreq hpre hpath hm)
    obtain ⟨hd₀, -⟩ := hd₁.prelude hpre
    rcases ha₀ with ha₀ | ⟨hlis, ⟨l, hm⟩, ha₀⟩
    · rcases (ha₀.ends hd₀ he hends).granting (.inl rfl) hg with ⟨-, ha'⟩ | ha'
      · exact ha'.mono hsub
      · exact ha'
    · have hm := (hd₀.ends_appends (P := fun _ => True) he fun _ _ => trivial).subset hm
      rcases (ha₀.ends hd₀ he hends).granting (.inr ⟨rfl, l, hm⟩) hg with ⟨hmax, -⟩ | ha'
      · -- the listener is not made in vain, so the request is not refused
        have hbusy := (request_busy hok hadm hpre hpath hlive he).mpr hmax
        exact absurd ⟨hlis, t, f, hreq, hbusy⟩ hvain
      · exact ha'

theorem boot_account (hb : Boot c w) : Account H w 0 := by
  refine ⟨?_, ?_, 0, Slots.owned_zero _ _, ?_⟩
  · rw [hb.gN, hb.sessions]; rfl
  · have : w.openFiles = 0 := by
      refine List.countP_eq_zero.mpr fun o ho => ?_
      obtain ⟨fd, hfd⟩ := List.mem_iff_getElem?.mp ho
      cases o with
      | none => simp
      | some o => simp [hb.files fd o (Slots.get_eq_some.mpr hfd)]
    rw [this]
    exact Slots.owned_zero _ _
  · refine List.countP_eq_zero.mpr fun l hl => ?_
    simp [(hb.listeners l hl).2.1]

end

/-- **Ending a session releases what it acquired** exactly if that was nothing;
and in every run that ends only such sessions, open files and data listeners
stay within the number of sessions. -/
theorem release_iff_bare (c : Conf) :
    (∀ σ e σ', (daemon c).Reachable σ → (daemon c).step σ e σ' → ∀ p s, .stop p s ∈ σ'.w.out →
      (ReleasedBy σ.hist σ'.w s ↔ Bare σ.hist s)) ∧
    ∀ σ, ((daemon c).guard fun σ e => e.LeakFree c σ).Reachable σ →
      σ.w.openFiles ≤ σ.w.gNSessions ∧ σ.w.dataListeners ≤ σ.w.gNSessions := by
  refine ⟨fun σ e σ' hr hs p s _ => ?_, fun σ hr => ?_⟩
  · obtain ⟨L, hok⟩ := daemon_hostsOk σ hr
    exact releasedBy_iff hok.start (daemon_descriptors σ hr).start rfl hs.2.1
  · have hind : ((daemon c).guard fun σ e => e.LeakFree c σ).Inductive
        fun σ => ((∃ L, HostsOk σ.w L) ∧ Descriptors σ.w) ∧ Account σ.hist σ.w 0 := by
      refine ⟨fun σ h => ⟨⟨boot_hostsOk h.1, boot_descriptors h.1⟩, boot_account h.1⟩,
        fun σ e σ' hi hs => ?_⟩
      obtain ⟨⟨⟨L, hok⟩, hd⟩, ha⟩ := hi
      obtain ⟨⟨-, hrun, hhist⟩, hdrops, hvain⟩ := hs
      refine ⟨⟨handle_hostsOk hok.start hrun, (handle_carried hok.start hd.start hrun).1⟩, ?_⟩
      have ha : Account σ.hist σ.w.start 0 := ha.congr rfl rfl rfl rfl
      rw [hhist]
      exact ha.handle hok.start hd.start hdrops hvain hrun
    obtain ⟨-, ha⟩ := hind.reachable σ hr
    obtain ⟨n, hn, hl⟩ := ha.listeners
    have hfiles := ha.files.le_count
    have hlisteners := hn.le_count
    have hcount := ha.count
    omega

/-- The boot-done message of the client of `readK`. -/
def doneK : Ev := .link plainOs linkPort (rmpFrame (plainEther 1) 3 0 [])

/-- A boot request whose file cannot be opened gets a session that has nothing
to release when it ends; and a read request has one file and one listener for
its session. -/
theorem release_failed_boot :
    let noFile : Ev := bootK { plainOs with openf := fun _ => .error .enoent } (plainEther 1) 0
    let σ := bootSys.next plainConf noFile
    ReleasedBy σ.hist (σ.next plainConf doneK).w 0 ∧
      (bootSys.next plainConf (readK plainOs)).w.openFiles ≤
        (bootSys.next plainConf (readK plainOs)).w.gNSessions := by
  intro noFile σ
  constructor
  · have h1 : (daemon plainConf).Reachable σ :=
      bootSys_reachable.step (l := noFile)
        (daemon_next ⟨List.mem_cons_of_mem _ List.mem_cons_self, rfl⟩ (by decide +kernel))
    have hs : (daemon plainConf).step σ doneK (σ.next plainConf doneK) :=
      daemon_next ⟨List.mem_cons_of_mem _ List.mem_cons_self, rfl⟩ (by decide +kernel)
    refine ((release_iff_bare plainConf).1 σ doneK _ h1 hs 0 0 List.mem_cons_self).mpr ⟨?_, ?_⟩
    · intro fd ⟨ios, hm, h, path, ho⟩
      rw [List.mem_singleton.mp hm] at ho
      have ho : Io.openFile h 0 path (some fd) ∈
          [Io.start 0 0, .openFile 0 0 (some (cstr "/boot/k")) none] := ho
      simp at ho
    · intro l ⟨ios, hm, ho, _⟩
      rw [List.mem_singleton.mp hm] at ho
      have ho : Io.listen l ∈ [Io.start 0 0, .openFile 0 0 (some (cstr "/boot/k")) none] := ho
      simp at ho
  · have h0 : ((daemon plainConf).guard fun σ e => e.LeakFree plainConf σ).Reachable bootSys :=
      LTS.reachable_init ⟨boot_served, rfl⟩
    refine ((release_iff_bare plainConf).2 _ (h0.step (l := readK plainOs) ⟨?_, ?_, ?_⟩)).1
    · exact readK_step
    · have hnone := boot_sessionOf boot_served
      rintro s (⟨t, f, -, hs | ⟨p, ses, -, hs, -⟩⟩ | ⟨t, host, -, -, -, hs⟩)
      · rw [bootSys, hnone] at hs; cases hs
      · rw [bootSys, hnone] at hs; cases hs
      · rw [bootSys, hnone] at hs; cases hs
    · rintro ⟨-, t, f, -, ps, -, hmax⟩
      have hmax : (5 : Int) ≤ 0 - _ := hmax
      omega

/-- **Counterexample**: a client makes the same read request twice. The second
ends the session of the first, whose file and listener stay open. -/
theorem session_leak :
    (¬ ∀ (c : Conf) (σ : Sys) (e : Ev) (σ' : Sys), (daemon c).Reachable σ → (daemon c).step σ e σ' →
      ∀ p s, .stop p s ∈ σ'.w.out → ReleasedBy σ.hist σ'.w s) ∧
    ¬ ∀ (c : Conf) (σ : Sys), (daemon c).Reachable σ →
      σ.w.openFiles ≤ σ.w.gNSessions ∧ σ.w.dataListeners ≤ σ.w.gNSessions := by
  have h1 : (daemon plainConf).Reachable reading := reading_reachable
  have hs : (daemon plainConf).step reading (readK plainOs) (reading.next plainConf (readK plainOs)) :=
    daemon_next ⟨List.mem_cons_self, rfl⟩ (by decide +kernel)
  refine ⟨fun h => ?_, fun h => ?_⟩
  · obtain ⟨L, hok⟩ := daemon_hostsOk reading h1
    have hbare := (releasedBy_iff hok.start (daemon_descriptors reading h1).start rfl hs.2.1).mp
      (h plainConf reading _ _ h1 hs 0 0 List.mem_cons_self)
    refine hbare.file 6 ⟨_, List.mem_singleton.mpr rfl, 0, some (cstr "/boot/k"), ?_⟩
    exact List.mem_cons_of_mem _ (List.mem_cons_of_mem _ List.mem_cons_self)
  · have := (h plainConf _ (h1.step hs)).1
    have : (2 : Int) ≤ 1 := this
    omega

end Bootd
