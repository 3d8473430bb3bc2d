import Bootd.L4Daemon.Descriptors

/-!
# Following a session through a run

* `Kept`: the sessions there are stay what they are as long as they are
  allocated, open files stay open and listeners listed; over any run
  (`run_kept`).
* `handle_opened`: the session for which a packet opened a file. It is new, has
  the id of the packet, and is held by a host that may use the protocol.
* `InService`: no session is held by a host that may not use its protocol, in
  every reachable state (`daemon_inService`).
* `handle_held`: the session that a host has after a packet was its own before,
  or is the one that the packet asked for.
-/
namespace Bootd

open Bootd.Core

/-- What is open stays so, listeners stay listed, and the sessions that were
there keep what they have. -/
structure Kept (w w' : World) : Prop where
  fds : ∀ fd o, w.fdObj fd = some o → w'.fdObj fd = some o
  listeners : ∀ l ∈ w.listeners, l ∈ w'.listeners
  sessions : ∀ s < w.sessions.length, ∀ ses', w'.live s = some ses' →
    ∃ ses, w.live s = some ses ∧ ses.Same ses'
  length : w.sessions.length ≤ w'.sessions.length

/-- Session pointers are to records, and a host has a session only of a service
that it may use. -/
structure InService (w : World) : Prop where
  bound : ∀ p s, w.sessionOf p = some s → s < w.sessions.length
  service : ∀ p s ses host, w.sessionOf p = some s → w.live s = some ses →
    w.hosts[p]? = some host → host.service &&& ses.service ≠ 0

/-- The session `s` is new, and `fd` is the file that was opened for it. -/
structure OpenedNow (w : World) (e : Ev) (w' : World) (h : HostId) (s : SessId)
    (path : Option CStr) (fd : Fd) (ses : Session) (d : List UInt8) : Prop where
  new : s = w.sessions.length
  sessionOf : w'.sessionOf h = some s
  live : w'.live s = some ses
  service : ses.service = e.service
  sid : ses.sid = e.sid w
  fd_eq : ses.bfFd = fd
  openf : e.os.openf path = .ok d
  file : w'.fdObj fd = some (.file path d)

/-- Where a host's session after a packet comes from: it was there, or the packet
asked for it. -/
inductive Held (w : World) (e : Ev) (w' : World) (h : HostId) (s : SessId) (ses' : Session) : Prop
  | kept (ses : Session) : w.sessionOf h = some s → w.live s = some ses → ses.Same ses' →
      Held w e w' h s ses'
  | made (f : File) : e.Requests w h f → NewSession e.os h f w' s ses' → ses'.service = e.service →
      ses'.sid = e.sid w → Held w e w' h s ses'

section
variable {c : Conf} {e : Ev} {w w₁ w₂ w' : World} {h t : HostId} {s : SessId} {path : Option CStr}
  {fd : Fd} {f : File} {L : List HostId} {os : Os} {svc : Nat} {sid : Int} {ses : Session}
  {host : Host} {u : Unit}

theorem Session.Same.service {ses' : Session} (h : ses.Same ses') : ses'.service = ses.service := by
  unfold Session.Same at h
  rw [h]

theorem Session.Same.sid_eq {ses' : Session} (h : ses.Same ses') : ses'.sid = ses.sid := by
  unfold Session.Same at h
  rw [h]

/-! ## What stays -/

theorem Kept.refl (w : World) : Kept w w :=
  ⟨fun _ _ h => h, fun _ h => h, fun _ _ ses' h => ⟨ses', h, rfl⟩, Nat.le_refl _⟩

theorem Kept.trans (h : Kept w w₁) (h' : Kept w₁ w₂) : Kept w w₂ := by
  refine ⟨fun fd o ho => h'.fds fd o (h.fds fd o ho), fun l hl => h'.listeners l (h.listeners l hl),
    fun s hs ses' hl => ?_, h.length.trans h'.length⟩
  obtain ⟨ses₁, hl₁, e₁⟩ := h'.sessions s (hs.trans_le h.length) ses' hl
  obtain ⟨ses, hl, e⟩ := h.sessions s hs ses₁ hl₁
  exact ⟨ses, hl, e.trans e₁⟩

theorem Carried.kept (h : Carried w w') : Kept w w' :=
  ⟨h.fds, h.listeners, fun s _ => h.sessions s, h.length.ge⟩

theorem kept_emits (w : World) (ios : List Io) : Kept w (w.emits ios) :=
  (Carried.of_eq rfl rfl rfl : Carried w (w.emits ios)).kept

theorem Adds.kept (h : Adds os svc sid t f w w') : Kept w w' :=
  ⟨h.fds, h.listeners, fun s hs => h.sessions s (Nat.ne_of_lt hs), by rw [h.length]; omega⟩

theorem handle_kept (hok : HostsOk w L) (hd : Descriptors w) (hr : e.handle c w = .ok u w') :
    Kept w w' := by
  rcases (handle_carried hok hd hr).2 with hc | ⟨t, h, f, -, -, hadd⟩
  · exact hc.kept
  · exact hadd.kept

theorem run_kept {σ σ' : Sys} {es : List Ev} (hr : (daemon c).Reachable σ)
    (hrun : (daemon c).Run σ es σ') : (daemon c).Reachable σ' ∧ Kept σ.w σ'.w := by
  induction hrun with
  | nil => exact ⟨hr, .refl _⟩
  | snoc _ hs ih =>
    obtain ⟨hr', hk⟩ := ih
    refine ⟨hr'.step hs, hk.trans ?_⟩
    obtain ⟨L, hok⟩ := daemon_hostsOk _ hr'
    have h := handle_kept hok.start (daemon_descriptors _ hr').start hs.2.1
    exact ⟨h.fds, h.listeners, h.sessions, h.length⟩

theorem run_grown {σ σ' : Sys} {es : List Ev} (hr : (daemon c).Reachable σ)
    (hrun : (daemon c).Run σ es σ') : Grown σ.w σ'.w := by
  induction hrun with
  | nil => exact (SameHosts.of_eq rfl rfl : SameHosts σ.w σ.w).grown
  | snoc hrun hs ih =>
    obtain ⟨L, hok⟩ := daemon_hostsOk _ (run_kept hr hrun).1
    have h := handle_grown hok.start hs.2.1
    exact ih.trans ⟨h.head, h.linked, h.hosts, h.length⟩

/-! ## The session of an opened file -/

theorem Ev.service_of_file (hf : e.file host = some f) : host.service &&& e.service ≠ 0 := by
  cases e with
  | udp os l frm loc pkt =>
    simp only [Ev.file] at hf
    split at hf
    · rename_i hc; exact hc.1
    · cases hf
  | link os l p =>
    simp only [Ev.file] at hf
    split at hf
    · rename_i hc; exact hc.1
    · cases hf

theorem granting_opened {d' : HostId} (hg : Granting c os svc sid h f w w') (hlt : h < w.hosts.length)
    (hout : ∀ io ∈ w.out, io.isOpen = false) (hm : .openFile d' s path (some fd) ∈ w'.out) :
    d' = h ∧ s = w.sessions.length ∧ path = f.path ∧ w'.sessionOf h = some s ∧
      ∃ ses d, w'.live s = some ses ∧ ses.service = svc ∧ ses.sid = sid ∧ ses.bfFd = fd ∧
        os.openf path = .ok d ∧ w'.fdObj fd = some (.file path d) := by
  have hpacket : ∀ ios : List Io, (∀ io ∈ ios, io.isPacket = true) →
      .openFile d' s path (some fd) ∉ ios := by
    intro ios hp hio
    cases hp _ hio
  cases hg with
  | busy ios _ hp =>
    rcases List.mem_append.mp hm with hm | hm
    · cases hout _ hm
    · exact absurd hm (hpacket ios fun io hio => (hp io hio).1)
  | failed ses err ios _ _ _ hp =>
    simp only [World.emits_out, World.openFailed_out, World.startSession_out, List.mem_append,
      List.mem_singleton] at hm
    rcases hm with ((hm | hm) | hm) | hm
    · cases hout _ hm
    · cases hm
    · cases hm
    · exact absurd hm (hpacket ios fun io hio => (hp io hio).1)
  | opened ses d g ios w' _ hses ho hg hw hreads =>
    subst hw hses
    simp only [World.emits_out, World.setSession_out, World.opened_out, World.startSession_out,
      List.mem_append, List.mem_singleton] at hm
    rcases hm with ((hm | hm) | hm) | hm
    · cases hout _ hm
    · cases hm
    · cases hm
      have hgs := hg ((Session.fresh svc sid os.now).setBfFd w.freeFd)
      refine ⟨rfl, rfl, rfl, ?_, _, d, (live_granted w h _ f.path d g _).trans (if_pos rfl), hgs.2.1,
        hgs.2.2 rfl, ?_, ho, ?_⟩
      · have := sessionOf_startSession w h (.fresh svc sid os.now) h
        rwa [if_pos ⟨rfl, hlt⟩] at this
      · simp only [Session.bfFd, hgs.1, Vector.getElem_set_self, startSession_freeFd]
      · exact (fdObj_put (w := w) (o := .file f.path d) rfl _).trans (if_pos rfl)
    · exact absurd hm (hpacket ios fun io hio => (hreads io hio).1)

/-- **The session for which a file was opened.** -/
theorem handle_opened (hok : HostsOk w L) (hd : Descriptors w) (hout : w.out = [])
    (hr : e.handle c w = .ok u w') (hm : .openFile h s path (some fd) ∈ w'.out) :
    ∃ t f ses d, e.Requests w t f ∧ f.path = path ∧ (¬e.clones w → t = h) ∧
      OpenedNow w e w' h s path fd ses d := by
  rcases handle_ok hr with ⟨ios, hp, rfl⟩ | ⟨t, h', w₁, host, ha, hh, hs⟩
  · rw [World.emits_out, hout] at hm
    cases (hp _ hm).1
  obtain ⟨hc₁, hl₁, ho₁⟩ := ha.carried hok
  have hd₁ := hc₁.descriptors hl₁ hd
  rw [hout] at ho₁
  cases hs with
  | plain ios _ hp =>
    rw [World.emits_out, ho₁] at hm
    cases (hp _ hm).1
  | answer s ses ios _ _ _ _ hreads =>
    rw [World.emits_out, World.touch_out, ho₁] at hm
    cases (hreads _ hm).1
  | done es w' _ _ he =>
    rcases (hd₁.ends_appends (P := fun io => io.isOpen = false) he fun _ _ => rfl).mem hm with hm | hm
    · rw [ho₁] at hm; cases hm
    · cases hm
  | request f nl w₀ ps w₃ w' hf hpre hpath hlive he hlt hnone hg _ =>
    obtain ⟨hd₀, hc₀⟩ := hd₁.prelude hpre
    have hout₃ : ∀ io ∈ w₃.out, io.isOpen = false := by
      intro io hio
      rcases (hd₀.ends_appends (P := fun io => io.isOpen = false) he fun _ _ => rfl).mem hio with hio | hio
      · rcases (hd₁.prelude_appends (P := fun io => io.isOpen = false) hpre (fun _ _ => rfl)
          fun _ => rfl).mem hio with hio | hio
        · rw [ho₁] at hio; cases hio
        · exact hio
      · exact hio
    obtain ⟨rfl, rfl, rfl, hses, ses, d, hl, hsvc, hsid, hfd, ho, hobj⟩ :=
      granting_opened hg hlt hout₃ hm
    have hlen : w₃.sessions.length = w.sessions.length := by
      rw [he.frame.sessions, hc₀.length, hc₁.length]
    refine ⟨t, f, ses, d, ha.requests hok hh hf, rfl, fun hcl => ?_, hlen, hses, hl, hsvc,
      hsid.trans (ha.sid_eq hok), hfd, ho, hobj⟩
    cases ha with
    | known => rfl
    | cloned _ _ _ _ _ _ _ _ _ hcl' => exact absurd hcl' hcl

/-! ## Sessions and the hosts that have them -/

/-- The sessions of `w'` are those of `w`, held by hosts with the same services. -/
theorem InService.mono (hi : InService w)
    (hses : ∀ p s, w'.sessionOf p = some s → ∃ q, w.sessionOf q = some s ∧
      ∀ host', w'.hosts[p]? = some host' → ∃ host, w.hosts[q]? = some host ∧
        host.service = host'.service)
    (hlive : ∀ s < w.sessions.length, ∀ ses', w'.live s = some ses' →
      ∃ ses, w.live s = some ses ∧ ses.service = ses'.service)
    (hlen : w.sessions.length ≤ w'.sessions.length) : InService w' := by
  refine ⟨fun p s hs => ?_, fun p s ses' host' hs hl hh => ?_⟩
  · obtain ⟨q, hq, -⟩ := hses p s hs
    exact (hi.bound q s hq).trans_le hlen
  · obtain ⟨q, hq, hsvc⟩ := hses p s hs
    obtain ⟨host, hh, e⟩ := hsvc host' hh
    obtain ⟨ses, hl, e'⟩ := hlive s (hi.bound q s hq) ses' hl
    rw [← e, ← e']
    exact hi.service q s ses host hq hl hh

/-- Where only session pointers were changed, and none was made. -/
theorem InService.same (hi : InService w) (hsame : SameHosts w w')
    (hses : ∀ p s, w'.sessionOf p = some s → w.sessionOf p = some s) (hk : Kept w w') :
    InService w' := by
  refine hi.mono (fun p s hs => ⟨p, hses p s hs, fun host' hh => ?_⟩) (fun s hs ses' hl => ?_) hk.length
  · rw [hsame.hosts p, Option.map_eq_some_iff] at hh
    obtain ⟨host, hh, rfl⟩ := hh
    exact ⟨host, hh, rfl⟩
  · obtain ⟨ses, hl, e⟩ := hk.sessions s hs ses' hl
    exact ⟨ses, hl, e.service.symm⟩

theorem InService.admitted (hi : InService w) (hok : HostsOk w L) (ha : Admitted c w e t h w₁) :
    InService w₁ := by
  cases ha with
  | known => exact hi
  | cloned os l p t tmpl h b w' hhost hcl htm hadd =>
    obtain ⟨rfl, hf, -, host, hh, hses, hsvc, -⟩ := clone_ok hok (Ev.host_mem hok hhost) htm hadd
    refine hi.mono (fun p s hs => ?_) (fun s _ ses' hl => ⟨ses', ?_, rfl⟩) (by rw [hf.sessions])
    · rcases Nat.lt_trichotomy p w.hosts.length with hlt | rfl | hgt
      · refine ⟨p, (hf.sessionOf hlt).symm.trans hs, fun host' hh' => ?_⟩
        rw [hf.hosts p hlt, Option.map_eq_some_iff] at hh'
        obtain ⟨g, hg, rfl⟩ := hh'
        exact ⟨g, hg, rfl⟩
      · -- the clone has the session and the services of its template
        refine ⟨t, ?_, fun host' hh' => ⟨tmpl, htm, ?_⟩⟩
        · rw [sessionOf_eq htm, ← hses, ← sessionOf_eq hh]; exact hs
        · rw [hh] at hh'; cases hh'
          exact hsvc.symm
      · have hlen := hf.length
        rw [World.sessionOf, List.getElem?_eq_none (by omega)] at hs
        cases hs
    · rwa [World.live, ← hf.sessions]

theorem InService.ends {es : List (HostId × SessId)} (hi : InService w) (hd : Descriptors w)
    (he : Ends es w w') : InService w' := by
  refine hi.same (.ends he) (fun p s hs => ?_) (hd.ends he).2.2.2.kept
  rcases he.sessionOf_or p with e | ⟨e, -⟩
  · rw [← e]; exact hs
  · rw [hs] at e; cases e

theorem InService.prelude {nl : Option Listener} (hi : InService w) (hd : Descriptors w)
    (hpre : Prelude h w e nl w') : InService w' := by
  have hk := (hd.prelude hpre).2.kept
  refine hi.same (.prelude hpre) (fun p s hs => ?_) hk
  cases hpre with
  | tftp os l frm loc pkt es w₁ nl w₂ he hown hnl =>
    have hs : w₁.sessionOf p = some s := by cases hnl <;> exact hs
    rcases he.sessionOf_or p with e | ⟨e, -⟩
    · rw [← e]; exact hs
    · rw [hs] at e; cases e
  | rmp => exact hs

theorem InService.started (hi : InService w) (ses : Session) (hh : w.hosts[h]? = some host)
    (hsvc : host.service &&& ses.service ≠ 0) : InService (w.startSession h ses) := by
  have hlen : (w.startSession h ses).sessions.length = w.sessions.length + 1 := by simp [Slots.push]
  refine ⟨fun p s hs => ?_, fun p s ses' host' hs hl hh' => ?_⟩
  · rw [sessionOf_startSession] at hs
    rw [hlen]
    split at hs
    · cases hs; exact Nat.lt_succ_self _
    · exact (hi.bound p s hs).trans (Nat.lt_succ_self _)
  · rw [(SameHosts.startSession w h ses).hosts p, Option.map_eq_some_iff] at hh'
    obtain ⟨g, hg, rfl⟩ := hh'
    rw [sessionOf_startSession] at hs
    rw [live_startSession] at hl
    split at hs
    · rename_i hc
      obtain ⟨rfl, -⟩ := hc
      cases hs
      rw [if_pos rfl] at hl
      cases hl
      rw [hh] at hg; cases hg
      exact hsvc
    · rw [if_neg (Nat.ne_of_lt (hi.bound p s hs))] at hl
      exact hi.service p s ses' g hs hl hg

theorem InService.granting (hi : InService w) (hh : w.hosts[h]? = some host)
    (hsvc : host.service &&& svc ≠ 0) (hg : Granting c os svc sid h f w w') : InService w' := by
  cases hg with
  | busy ios =>
    exact hi.same (.of_eq rfl rfl) (fun _ _ hs => hs) (kept_emits w ios)
  | failed ses err ios _ hses =>
    subst hses
    have hi' := hi.started (.fresh svc sid os.now) hh hsvc
    refine hi'.mono (fun p s hs => ⟨p, hs, fun host' hh' => ⟨host', hh', rfl⟩⟩) (fun s hs ses' hl => ?_)
      (by simp [Slots.update])
    have hl := (live_failed w h _ f.path s).symm.trans hl
    rw [live_startSession]
    split at hl
    · cases hl
      rw [if_pos ‹_›]
      exact ⟨_, rfl, rfl⟩
    · rw [if_neg ‹_›]
      exact ⟨ses', hl, rfl⟩
  | opened ses d g ios w' _ hses _ hg hw =>
    subst hw hses
    have hi' := hi.started (.fresh svc sid os.now) hh hsvc
    refine hi'.mono (fun p s hs => ⟨p, hs, fun host' hh' => ⟨host', hh', rfl⟩⟩) (fun s hs ses' hl => ?_)
      (by simp [Slots.update])
    have hl := (live_granted w h _ f.path d g s).symm.trans hl
    rw [live_startSession]
    split at hl
    · cases hl
      rw [if_pos ‹_›]
      exact ⟨_, rfl, by rw [(hg _).2.1]⟩
    · rw [if_neg ‹_›]
      exact ⟨ses', hl, rfl⟩

theorem handle_inService (hok : HostsOk w L) (hd : Descriptors w) (hi : InService w)
    (hr : e.handle c w = .ok u w') : InService w' := by
  rcases handle_ok hr with ⟨ios, -, rfl⟩ | ⟨t, h, w₁, host, ha, hh, hs⟩
  · exact hi.same (.of_eq rfl rfl) (fun _ _ hs => hs) (kept_emits w ios)
  obtain ⟨hc₁, hl₁, -⟩ := ha.carried hok
  have hd₁ := hc₁.descriptors hl₁ hd
  have hi₁ := hi.admitted hok ha
  cases hs with
  | plain ios =>
    exact hi₁.same (.of_eq rfl rfl) (fun _ _ hs => hs) (kept_emits w₁ ios)
  | answer s ses ios =>
    refine hi₁.same (.of_eq rfl rfl) (fun _ _ hs => hs) (Carried.kept ?_)
    exact .update (s := s) (g := fun ses => { ses with atime := int32 e.os.now }) (fun _ => rfl) rfl rfl rfl
  | done es w' _ _ he => exact hi₁.ends hd₁ he
  | request f nl w₀ ps w₃ w' hf hpre hpath hlive he hlt hnone hg _ =>
    have hi₃ := (hi₁.prelude hd₁ hpre).ends (hd₁.prelude hpre).1 he
    have hsame := (SameHosts.prelude hpre).trans (.ends he)
    have hh₃ : w₃.hosts[h]? = some { host with session := w₃.sessionOf h } := by
      rw [hsame.hosts h, hh]; rfl
    exact hi₃.granting hh₃ (Ev.service_of_file hf) hg

theorem daemon_inService (σ : Sys) (hr : (daemon c).Reachable σ) : InService σ.w := by
  have hind : (daemon c).Inductive fun σ => ((∃ L, HostsOk σ.w L) ∧ Descriptors σ.w) ∧ InService σ.w := by
    refine ⟨fun σ h => ⟨⟨boot_hostsOk h.1, boot_descriptors h.1⟩, fun p s hs => ?_,
      fun p s ses host hs => ?_⟩, fun σ e σ' hi hs => ?_⟩
    · rw [boot_sessionOf h.1 p] at hs; cases hs
    · rw [boot_sessionOf h.1 p] at hs; cases hs
    · obtain ⟨⟨⟨L, hok⟩, hd⟩, hi⟩ := hi
      have hi : InService σ.w.start := ⟨hi.bound, hi.service⟩
      exact ⟨⟨handle_hostsOk hok.start hs.2.1, (handle_carried hok.start hd.start hs.2.1).1⟩,
        handle_inService hok.start hd.start hi hs.2.1⟩
  exact (hind.reachable σ hr).2

/-! ## Where a session comes from -/

theorem Admitted.sessionOf (hok : HostsOk w L) (ha : Admitted c w e t h w₁) {p : HostId}
    (hlt : p < w.hosts.length) : w₁.sessionOf p = w.sessionOf p := by
  cases ha with
  | known => rfl
  | cloned os l q t tmpl h b w' hhost hcl htm hadd =>
    exact (clone_ok hok (Ev.host_mem hok hhost) htm hadd).2.1.sessionOf hlt

theorem Prelude.held {nl : Option Listener} (hpre : Prelude h w e nl w') {p : HostId}
    (hs : w'.sessionOf p = some s) : w.sessionOf p = some s := by
  cases hpre with
  | tftp os l frm loc pkt es w₁ nl w₂ he hown hnl =>
    have hs : w₁.sessionOf p = some s := by cases hnl <;> exact hs
    rcases he.sessionOf_or p with e | ⟨e, -⟩
    · rw [← e]; exact hs
    · rw [hs] at e; cases e
  | rmp => exact hs

theorem Granting.sessionOf (hg : Granting c os svc sid h f w w') {p : HostId}
    (hs : w'.sessionOf p = some s) :
    (p = h ∧ s = w.sessions.length) ∨ w.sessionOf p = some s := by
  have hstart : ∀ ses, (w.startSession h ses).sessionOf p = some s →
      (p = h ∧ s = w.sessions.length) ∨ w.sessionOf p = some s := by
    intro ses hs
    rw [sessionOf_startSession] at hs
    split at hs
    · rename_i hp
      exact .inl ⟨hp.1, (Option.some.inj hs).symm⟩
    · exact .inr hs
  cases hg with
  | busy => exact .inr hs
  | failed ses => exact hstart ses hs
  | opened ses d g ios w' _ _ _ _ hw =>
    subst hw
    exact hstart ses hs

/-- **Where the session of a listed host comes from.** -/
theorem handle_held (hok : HostsOk w L) (hd : Descriptors w) (hi : InService w)
    (hr : e.handle c w = .ok u w') (hlt : h < w.hosts.length) {ses' : Session}
    (hs : w'.sessionOf h = some s) (hl : w'.live s = some ses') : Held w e w' h s ses' := by
  have hkept : ∀ w₂ : World, Carried w w₂ → w.sessionOf h = some s → w₂.live s = some ses' →
      Held w e w' h s ses' := by
    intro w₂ hc hs hl
    obtain ⟨ses, hl, hsame⟩ := hc.sessions s ses' hl
    exact .kept ses hs hl hsame
  rcases handle_ok hr with ⟨ios, -, rfl⟩ | ⟨t, h', w₁, host, ha, hh, hserved⟩
  · exact .kept ses' hs hl rfl
  obtain ⟨hc₁, hl₁, -⟩ := ha.carried hok
  have hd₁ := hc₁.descriptors hl₁ hd
  have hw₁ := ha.sessionOf hok hlt
  cases hserved with
  | plain ios =>
    exact hkept w₁ hc₁ (hw₁ ▸ hs) hl
  | answer s' ses ios =>
    have hc : Carried w₁ ((w₁.touch s' e.os.now).emits ios) :=
      .update (s := s') (g := fun ses => { ses with atime := int32 e.os.now }) (fun _ => rfl) rfl rfl rfl
    exact hkept _ (hc₁.trans hc) (hw₁ ▸ hs) hl
  | done es w' _ _ he =>
    have hs₁ : w₁.sessionOf h = some s := by
      rcases he.sessionOf_or h with e | ⟨e, -⟩
      · rw [← e]; exact hs
      · rw [hs] at e; cases e
    exact hkept _ (hc₁.trans (hd₁.ends he).2.2.2) (hw₁ ▸ hs₁) hl
  | request f nl w₀ ps w₃ w' hf hpre hpath hlive he hlt' hnone hg _ =>
    obtain ⟨hd₀, hc₀⟩ := hd₁.prelude hpre
    obtain ⟨-, hl₃, -, hc₃⟩ := hd₀.ends he
    have hc := (hc₁.trans hc₀).trans hc₃
    have hback : w₃.sessionOf h = some s → w.sessionOf h = some s := by
      intro hs
      rw [← hw₁]
      refine hpre.held ?_
      rcases he.sessionOf_or h with e | ⟨e, -⟩
      · rw [← e]; exact hs
      · rw [hs] at e; cases e
    rcases granting_carried (hc₃.descriptors hl₃ hd₀) hg with ⟨-, ⟨-, hc'⟩ | ⟨-, hadd⟩⟩
    · rcases hg.sessionOf hs with ⟨rfl, rfl⟩ | hs₃
      · -- a busy server makes no session
        obtain ⟨ses, hl', -⟩ := hc'.sessions _ _ hl
        exact absurd (Slots.lt_of_get hl') (Nat.lt_irrefl _)
      · exact hkept _ (hc.trans hc') (hback hs₃) hl
    rcases hg.sessionOf hs with ⟨rfl, rfl⟩ | hs₃
    · obtain ⟨ses, hl', hnew, hsvc, hsid⟩ := hadd.session
      rw [hl] at hl'
      cases hl'
      refine .made f ?_ hnew hsvc (hsid.trans (ha.sid_eq hok))
      have hreq := ha.requests hok hh hf
      cases ha with
      | known => exact hreq
      | cloned os l p t tmpl h b w' hhost hcl htm hadd' =>
        have hnew := (clone_ok hok (Ev.host_mem hok hhost) htm hadd').1
        exact absurd hnew (Nat.ne_of_lt hlt)
    · have hb := hi.bound h s (hback hs₃)
      have hne : s ≠ w₃.sessions.length := by
        rw [hc.length]
        exact Nat.ne_of_lt hb
      obtain ⟨ses, hl', hsame⟩ := hadd.sessions s hne ses' hl
      obtain ⟨ses₀, hl₀, hsame₀⟩ := hc.sessions s ses hl'
      exact .kept ses₀ (hback hs₃) hl₀ (hsame₀.trans hsame)

end
end Bootd
