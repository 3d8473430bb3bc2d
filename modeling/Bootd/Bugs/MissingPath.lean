import Bootd.Config.Loaded
import Bootd.Config.Messages
import Bootd.Config.Reorder

/-!
# Configurations that are neither accepted nor refused

`host_file_add` takes a missing path for one that is given: `str_is_equal(f->path,
"\x7b")` is 0 for NULL (src/host.c:149, src/str.c:18-25). So a record with neither a
name nor an alias is named after NULL (src/host.c:156), where the code would report
that the file has no name, and one with a name keeps the NULL path, which `host_add`
copies (src/host.c:91). The program crashes, without a message.

It also crashes when a text does not fit into one of three arrays: `files[2048]`
(src/host.c:48, 86-105), `name[64]` (src/util.c:6) and `b[64]` (src/util.c:72). And a
message with a percent sign in it is no format (src/parse.c:220, 232).

Apart from that, the order of statements with different keywords does not matter.

Counterexample: `host { file { server s; } }` (`missing_path_crashes`).

`order_free_iff`: a configuration and a reordering are both refused with a message, or
both set up the same, exactly if the evaluations come to nothing of that kind.
-/
namespace Bootd

open Bootd.Core
open Bootd.Core.Stops

/-! ## How far the evaluation of a host comes -/

/-- The statements for the name. mirrors src/conf.c:307-309 -/
def Meaning.hostNamed (e : ConfEntry) : MeaningM (Option CStr) := do
  let name ← self e (string none) none
  single e.sub kwName (string name) name

/-- The statements in front of the files. mirrors src/conf.c:307-312 -/
def Meaning.hostFront (env : SetupEnv) (e : ConfEntry) : MeaningM (Option CStr × Ether × Ip × Nat) := do
  let name ← hostNamed e
  let eth ← single e.sub kwEther (ether env) .zero
  let ip ← single e.sub kwIp (ip env) 0
  let service ← services e.sub 0
  pure (name, eth, ip, service)

/-- The `ether` statement `x` of the block `e` is evaluated. -/
def EtherAt (e : ConfEntry) (st : Setup) (x : ConfEntry) : Prop :=
  named kwEther e.sub = [x] ∧ x.values.length = 1 ∧ ∃ name, Meaning.hostNamed e st = .ok (name, st)

/-- `host_file_add` is called with the record `f`, for a host that has `files`. -/
def FileAdded (env : SetupEnv) (e : ConfEntry) (st : Setup) (files : List File) (f : File) : Prop :=
  ∃ x pre post s₁ s₂, named kwFile e.sub = pre ++ x :: post ∧
    (do let _ ← Meaning.hostFront env e; pre.foldlM (fun fs x => Meaning.file x fs) []) st = .ok (files, s₁) ∧
    Meaning.fileRecord x s₁ = .ok (f, s₂)

/-- `host_add` is called with the record `h`. -/
def HostAdded (env : SetupEnv) (e : ConfEntry) (st : Setup) (h : Host) (st' : Setup) : Prop :=
  Meaning.hostRecord env e st = .ok (h, st')

/-- The `host` block `e` has its paths, and the arrays have room for it. -/
structure HostSound (env : SetupEnv) (e : ConfEntry) (st : Setup) : Prop where
  /-- The copy that `util_name2ether` makes of a word fits. -/
  ether : ∀ x, EtherAt e st x → ¬UpperOverrun (st.conf env) env.os st.w x.value
  /-- No record is named after a missing path. -/
  named : ∀ files f, FileAdded env e st files f → ¬f.Nameless
  arrays : ∀ h s, HostAdded env e st h s → ArraysHold (s.conf env) env.os (s.w.allocHost h) h
  /-- No missing path is copied. -/
  paths : ∀ h s, HostAdded env e st h s → Addressed (s.conf env) env.os (s.w.allocHost h) h →
    ∀ f ∈ h.files, f.path ≠ none

/-- The evaluation comes to nothing that ends the program without a message: the `host` blocks are
sound, and the messages can be printed. -/
structure ConfSound (env : SetupEnv) (root : List ConfEntry) (st : Setup) : Prop where
  hosts : ∀ e st', HostAt env root st e st' → HostSound env e st'
  report : ∀ m, Reports env root st m → m.Printable
  warnings : ∀ w st', Refuses env root st w st' → Message.Printable ⟨st'.filename, w⟩

section
variable {env : SetupEnv} {root : List ConfEntry} {st st' : Setup} {e : ConfEntry} {files files' : List File}
  {f : File} {h : Host}

theorem hostRecord_front (env : SetupEnv) (e : ConfEntry) : Meaning.hostRecord env e = (do
    let r ← Meaning.hostFront env e
    let files ← Meaning.each e.sub kwFile Meaning.file []
    Meaning.known e.sub [kwFile.1, kwService.1, kwIp.1, kwEther.1, kwName.1]
    pure (⟨none, r.1, r.2.2.2, r.2.1, r.2.2.1, files, none⟩ : Host)) := by
  simp only [Meaning.hostRecord, Meaning.hostFront, Meaning.hostNamed, bind_assoc, pure_bind]

theorem hostNamed_looks (e : ConfEntry) : Looks (Meaning.hostNamed e) st :=
  .bind (.self (.string _ _)) fun _ => .single (.string _)

/-- A statement that is given once, and its value. -/
theorem single_hits {α : Type} {es : List ConfEntry} {k : Keyword} {conv : ConfEntry → MeaningM α} {dst : α} :
    Hits Refusal.Crash (Meaning.single es k conv dst) st ↔
      ∃ x, named k es = [x] ∧ x.values.length = 1 ∧ Hits Refusal.Crash (conv x) st := by
  unfold Meaning.single
  have hreport : ¬Hits Refusal.Crash (Meaning.report [] : MeaningM α) st := Looks.report.not_hits
  match named k es with
  | [] => exact iff_of_false (Looks.pure dst).not_hits (by simp)
  | [x] =>
    by_cases hlen : x.values.length = 1
    · simp [hlen]
    · simp [hlen, hreport]
  | _ :: _ :: _ => exact iff_of_false hreport (by simp)

theorem single_same {α : Type} {es : List ConfEntry} {k : Keyword} {conv : ConfEntry → MeaningM α} {dst a : α}
    (hconv : ∀ x a s, conv x st = .ok (a, s) → s = st)
    (hrun : Meaning.single es k conv dst st = .ok (a, st')) : st' = st := by
  unfold Meaning.single at hrun
  match hl : named k es with
  | [] =>
    rw [hl] at hrun
    cases hrun
    rfl
  | [x] =>
    rw [hl] at hrun
    by_cases hlen : x.values.length ≠ 1
    · simp only [if_pos hlen] at hrun
      cases hrun
    · simp only [if_neg hlen] at hrun
      exact hconv x a st' hrun
  | x :: y :: l =>
    rw [hl] at hrun
    cases hrun

/-- Behind the `ether` statement. -/
theorem hostRest_looks (hi : st.InOrder) (e : ConfEntry) (name : Option CStr) (eth : Ether) :
    Looks (do
      let ip ← Meaning.single e.sub kwIp (Meaning.ip env) 0
      let service ← Meaning.services e.sub 0
      pure (name, eth, ip, service)) st :=
  .bind (.single (.ip hi)) fun _ => .bind (.services _ _) fun _ => .pure _

theorem hostFront_ok {r : Option CStr × Ether × Ip × Nat} (hi : st.InOrder)
    (hrun : Meaning.hostFront env e st = .ok (r, st')) : st' = st := by
  obtain ⟨name, s₁, hname, hbehind⟩ := bind_ok.mp hrun
  have hs₁ : s₁ = st := (hostNamed_looks e).ok hname
  obtain ⟨eth, s₂, heth, hrest⟩ := bind_ok.mp hbehind
  have hs₂ : s₂ = s₁ := single_same (fun _ _ _ h => ether_ok h) heth
  rw [hs₂, hs₁] at hrest
  exact (hostRest_looks hi e name eth).ok hrest

/-- In front of the files there is only the word for the Ethernet address. -/
theorem hostFront_hits (hi : st.InOrder) : Hits Refusal.Crash (Meaning.hostFront env e) st ↔
    ∃ x, EtherAt e st x ∧ UpperOverrun (st.conf env) env.os st.w x.value := by
  unfold Meaning.hostFront
  rw [hits_bind, or_iff_right (hostNamed_looks e).not_hits]
  have hether : ∀ s, s.InOrder → ∀ name : Option CStr, Hits Refusal.Crash (do
      let eth ← Meaning.single e.sub kwEther (Meaning.ether env) .zero
      let ip ← Meaning.single e.sub kwIp (Meaning.ip env) 0
      let service ← Meaning.services e.sub 0
      pure (name, eth, ip, service)) s ↔
      ∃ x, named kwEther e.sub = [x] ∧ x.values.length = 1 ∧ UpperOverrun (s.conf env) env.os s.w x.value := by
    intro s hs name
    rw [hits_bind, single_hits]
    simp only [ether_hits hs]
    refine or_iff_left ?_
    rintro ⟨eth, s', heth, hrest⟩
    obtain rfl : s' = s := single_same (fun _ _ _ h => ether_ok h) heth
    exact (hostRest_looks hs e name eth).not_hits hrest
  constructor
  · rintro ⟨name, s, hname, hrest⟩
    obtain rfl : s = st := (hostNamed_looks e).ok hname
    obtain ⟨x, hx, hlen, hover⟩ := (hether s hi name).mp hrest
    exact ⟨x, ⟨hx, hlen, name, hname⟩, hover⟩
  · rintro ⟨x, ⟨hx, hlen, name, hname⟩, hover⟩
    exact ⟨name, st, hname, (hether st hi name).mpr ⟨x, hx, hlen, hover⟩⟩

/-! ## Files -/

/-- The state is kept, and every file has a name. -/
theorem file_ok (hrun : Meaning.file e files st = .ok (files', st')) (hnames : ∀ x ∈ files, x.name ≠ none) :
    st' = st ∧ ∀ x ∈ files', x.name ≠ none := by
  obtain ⟨f, s, hrec, hadd⟩ := bind_ok.mp hrun
  have hs : s = st := (Looks.fileRecord e).ok hrec
  obtain ⟨hadd, hst⟩ := lift_ok.mp (call_ok.mp hadd)
  exact ⟨hst.trans hs, hostFileAdd_names hnames hadd⟩

theorem file_hits (hnames : ∀ x ∈ files, x.name ≠ none) : Hits Refusal.Crash (Meaning.file e files) st ↔
    ∃ f s, Meaning.fileRecord e st = .ok (f, s) ∧ f.Nameless := by
  have hcall : ∀ f s,
      Hits Refusal.Crash (Meaning.call (hostFileAdd files f : SetupM (List File))) s ↔ f.Nameless := by
    intro f s
    rw [call_hits]
    simp only [lift_error, hostFileAdd_error hnames]
    exact ⟨fun ⟨_, h, _⟩ => h.2, fun h => ⟨.segv, ⟨rfl, h⟩, fun h => nomatch h⟩⟩
  unfold Meaning.file
  rw [hits_bind]
  simp only [hcall]
  exact or_iff_right (Looks.fileRecord e).not_hits

/-- The files in front of one. -/
theorem files_ok {es : List ConfEntry} (hi : st.InOrder)
    (hrun : (do let _ ← Meaning.hostFront env e; es.foldlM (fun fs x => Meaning.file x fs) []) st =
      .ok (files, st')) :
    st' = st ∧ ∀ x ∈ files, x.name ≠ none := by
  obtain ⟨r, s, hfront, hrun⟩ := bind_ok.mp hrun
  have hs : s = st := hostFront_ok hi hfront
  exact foldlM_keeps (I := fun files s => s = st ∧ ∀ x ∈ files, x.name ≠ none)
    (fun x _ fs s fs' s' ⟨h, hnames⟩ hx => by
      obtain ⟨h', hnames'⟩ := file_ok hx hnames
      exact ⟨h'.trans h, hnames'⟩)
    ⟨hs, by simp⟩ hrun

/-! ## Hosts -/

/-- Every file of the record has a name. -/
theorem record_ok (hi : st.InOrder) (hrun : Meaning.hostRecord env e st = .ok (h, st')) :
    st' = st ∧ h.next = none ∧ ∀ x ∈ h.files, x.name ≠ none := by
  rw [hostRecord_front] at hrun
  obtain ⟨r, s₁, hfront, hrun⟩ := bind_ok.mp hrun
  obtain ⟨files, s₂, hfiles, hrun⟩ := bind_ok.mp hrun
  obtain ⟨u, s₃, hknown, hrun⟩ := bind_ok.mp hrun
  obtain ⟨hs₂, hnames⟩ := files_ok hi (bind_ok.mpr ⟨r, s₁, hfront, hfiles⟩)
  have hs₃ : s₃ = s₂ := (Looks.known _ _).ok hknown
  cases hrun
  exact ⟨hs₃.trans hs₂, rfl, hnames⟩

theorem record_hits (hi : st.InOrder) : Hits Refusal.Crash (Meaning.hostRecord env e) st ↔
    (∃ x, EtherAt e st x ∧ UpperOverrun (st.conf env) env.os st.w x.value) ∨
      ∃ files f, FileAdded env e st files f ∧ f.Nameless := by
  rw [hostRecord_front, hits_bind, hostFront_hits hi]
  refine or_congr_right ⟨?_, ?_⟩
  · rintro ⟨r, s₁, hfront, hrun⟩
    rcases hits_bind.mp hrun with hfiles | ⟨files, s₂, -, hrest⟩
    · obtain ⟨pre, x, post, fs, s₂, hsplit, hpre, hx⟩ := hits_foldlM.mp hfiles
      have hbefore : (do let _ ← Meaning.hostFront env e; pre.foldlM (fun fs x => Meaning.file x fs) []) st =
          .ok (fs, s₂) := bind_ok.mpr ⟨r, s₁, hfront, hpre⟩
      obtain ⟨f, s₃, hrec, hless⟩ := (file_hits (files_ok hi hbefore).2).mp hx
      exact ⟨fs, f, ⟨x, pre, post, s₂, s₃, hsplit, hbefore, hrec⟩, hless⟩
    · have hquiet : Looks (do
          Meaning.known e.sub [kwFile.1, kwService.1, kwIp.1, kwEther.1, kwName.1]
          pure (⟨none, r.1, r.2.2.2, r.2.1, r.2.2.1, files, none⟩ : Host)) s₂ :=
        .bind (.known _ _) fun _ => .pure _
      exact absurd hrest hquiet.not_hits
  · rintro ⟨fs, f, ⟨x, pre, post, s₂, s₃, hsplit, hbefore, hrec⟩, hless⟩
    obtain ⟨r, s₁, hfront, hpre⟩ := bind_ok.mp hbefore
    have hx := (file_hits (files_ok hi hbefore).2).mpr ⟨f, s₃, hrec, hless⟩
    exact ⟨r, s₁, hfront, hits_bind.mpr (.inl (hits_foldlM.mpr ⟨pre, x, post, fs, s₂, hsplit, hpre, hx⟩))⟩

theorem host_hits (hi : st.InOrder) :
    Hits Refusal.Crash (Meaning.host env e ()) st ↔ ¬HostSound env e st := by
  have hadd : ∀ h s, HostAdded env e st h s → (Hits Refusal.Crash (Meaning.call (addHost env h)) s ↔
      ¬ArraysHold (s.conf env) env.os (s.w.allocHost h) h ∨
        Addressed (s.conf env) env.os (s.w.allocHost h) h ∧ ∃ f ∈ h.files, f.path = none) := by
    intro h s hrec
    obtain ⟨rfl, -, hnames⟩ := record_ok hi hrec
    rw [call_hits, addHost_error hi]
    refine or_congr_right (and_congr_right fun _ =>
      ⟨fun ⟨f, hf, hno⟩ => ⟨f, hf, hno.resolve_right (hnames f hf)⟩, ?_⟩)
    exact fun ⟨f, hf, hpath⟩ => ⟨f, hf, .inl hpath⟩
  unfold Meaning.host
  rw [hits_bind, record_hits hi]
  constructor
  · rintro ((⟨x, hat, hover⟩ | ⟨files, f, hfile, hless⟩) | ⟨h, s, hrec, hcrash⟩) hsound
    · exact hsound.ether x hat hover
    · exact hsound.named files f hfile hless
    · rcases (hadd h s hrec).mp hcrash with hfull | ⟨haddr, f, hf, hpath⟩
      · exact hfull (hsound.arrays h s hrec)
      · exact hsound.paths h s hrec haddr f hf hpath
  · intro hno
    by_contra hnot
    simp only [not_or, not_exists, not_and] at hnot
    obtain ⟨⟨hether, hnamed⟩, hcalls⟩ := hnot
    refine hno ⟨hether, hnamed, fun h s hrec => ?_, fun h s hrec haddr f hf hpath => ?_⟩
    · by_contra hfull
      exact hcalls h s hrec ((hadd h s hrec).mpr (.inl hfull))
    · exact hcalls h s hrec ((hadd h s hrec).mpr (.inr ⟨haddr, f, hf, hpath⟩))

theorem host_ok (hi : st.InOrder) {u : Unit} (hrun : Meaning.host env e () st = .ok (u, st')) : st'.InOrder := by
  obtain ⟨h, s, hrec, hadd⟩ := bind_ok.mp hrun
  obtain ⟨rfl, hnext, -⟩ := record_ok hi hrec
  exact addHost_inv hi hnext (call_ok.mp hadd)

/-- The host table when a `host` block is evaluated. -/
theorem HostAt.inOrder (hat : HostAt env root st e st') (hi : st.InOrder) : st'.InOrder := by
  obtain ⟨pre, post, -, hrun⟩ := hat
  obtain ⟨u, s, hhead, hpre⟩ := bind_ok.mp hrun
  have hs : s.InOrder := (Upkeep.head env root st hi).ok hhead
  exact foldlM_keeps (I := fun _ (s : Setup) => s.InOrder) (fun x _ _ s _ s' hI hx => host_ok hI hx) hs hpre

/-- The evaluation crashes at one of its hosts. -/
theorem conf_hits (hi : st.InOrder) : Hits Refusal.Crash (Meaning.conf env root) st ↔
    ∃ e st', HostAt env root st e st' ∧ ¬HostSound env e st' := by
  have hat : Hits Refusal.Crash (Meaning.conf env root) st ↔
      ∃ e st', HostAt env root st e st' ∧ Hits Refusal.Crash (Meaning.host env e ()) st' := by
    unfold Meaning.conf
    rw [hits_bind, or_iff_right (Upkeep.head env root st hi).not_hits]
    constructor
    · rintro ⟨u, s, hhead, hrun⟩
      rcases hits_bind.mp hrun with hhosts | ⟨u', s', -, hknown⟩
      · obtain ⟨pre, e, post, u', st', hsplit, hpre, hhost⟩ := hits_foldlM.mp hhosts
        exact ⟨e, st', ⟨pre, post, hsplit, bind_ok.mpr ⟨u, s, hhead, hpre⟩⟩, hhost⟩
      · exact absurd hknown (Looks.known _ _).not_hits
    · rintro ⟨e, st', ⟨pre, post, hsplit, hrun⟩, hhost⟩
      obtain ⟨u, s, hhead, hpre⟩ := bind_ok.mp hrun
      exact ⟨u, s, hhead, hits_bind.mpr (.inl (hits_foldlM.mpr ⟨pre, e, post, (), st', hsplit, hpre, hhost⟩))⟩
  rw [hat]
  exact exists_congr fun e => exists_congr fun st' => and_congr_right fun h => host_hits (h.inOrder hi)

/-- **When no crash is in the way**: what ends the evaluation is a message that can be printed. -/
theorem conf_sound (hi : st.InOrder) : ConfSound env root st ↔
    ∀ x, Meaning.conf env root st = .error x → x.verdict = .reported ∨ x.verdict = .fault .exit := by
  constructor
  · intro hs x hx
    cases x with
    | reported m =>
      refine .inl (if_pos ?_)
      rcases conf_reported.mp hx with hreport | ⟨w, s, hrefuses, rfl, -⟩
      · exact hs.report m hreport
      · exact hs.warnings w s hrefuses
    | fault f =>
      by_contra hno
      have hcrash : f.Crash := fun hexit => hno (.inr (congrArg Verdict.fault hexit))
      obtain ⟨e, st', hat, hunsound⟩ := (conf_hits hi).mp ⟨.fault f, hx, hcrash⟩
      exact hunsound (hs.hosts e st' hat)
  · intro h
    have hprint : ∀ m, Meaning.conf env root st = .error (.reported m) → m.Printable := by
      intro m hm
      by_contra hno
      have hverdict : (Refusal.reported m).verdict = .format := if_neg hno
      rcases h _ hm with heq | heq <;> rw [hverdict] at heq <;> cases heq
    refine ⟨fun e st' hat => ?_, fun m hm => hprint m (conf_reported.mpr (.inl hm)), fun w st' hw => ?_⟩
    · by_contra hunsound
      obtain ⟨x, hx, hcrash⟩ : Hits Refusal.Crash (Meaning.conf env root) st :=
        (conf_hits hi).mpr ⟨e, st', hat, hunsound⟩
      cases x with
      | reported m => exact hcrash
      | fault f =>
        rcases h _ hx with heq | heq
        · cases heq
        · exact hcrash (Verdict.fault.inj heq)
    · by_contra hno
      exact hno (hprint _ (conf_reported.mpr (.inr ⟨w, st', hw, rfl, hno⟩)))

end

/-! ## Reorderings -/

/-- A report, or a `LOG_ERR`. -/
def EndsRefused (r : EStateM.Result EvalStop EvalState Unit) : Prop :=
  (∃ e msg s, r = .error (.report e msg) s) ∨ ∃ s, r = .error (.fault .exit) s

/-- Both end with a message, or both return with the same setup. -/
def SameEnd (r r' : EStateM.Result EvalStop EvalState Unit) : Prop :=
  EndsRefused r ∧ EndsRefused r' ∨ ∃ s s', r = .ok () s ∧ r' = .ok () s' ∧ s'.setup = s.setup

/-- A configuration and a reordering end the same. -/
def OrderFree (env : SetupEnv) (st : Setup) (f g : Forest) : Prop :=
  SameEnd (confFile env (f.entries 0) (.start st)) (confFile env (g.entries 0) (.start st))

theorem entries_reorder (lo : Nat) (f : Forest) : Reorder (f.entries lo) (f.entries lo) := by
  induction f generalizing lo with
  | nil => exact .nil
  | leaf n vs f ih => exact .cons (g := []) rfl rfl .nil (by simp) (ih (lo + 1))
  | block n vs sub f ihs ihf =>
    exact .cons (g := []) rfl rfl (ihs (lo + 1)) (by simp) (ihf (lo + 1 + sub.size))

section
variable {r : EStateM.Result EvalStop EvalState Unit} {x : Except Refusal (Unit × Setup)}

/-- A run that is refused, as its meaning has it. -/
theorem refused_iff (h : x.mapError Refusal.verdict = ending r) :
    EndsRefused r ↔ ∃ y, x = .error y ∧ (y.verdict = .reported ∨ y.verdict = .fault .exit) := by
  unfold EndsRefused
  cases x with
  | ok p =>
    cases r with
    | ok u s => simp
    | error stop s => cases h
  | error y =>
    cases r with
    | ok u s => cases h
    | error stop s =>
      have hy : y.verdict = stop.verdict := Except.error.inj h
      cases stop <;> simp [hy, EvalStop.verdict]

theorem confFile_meaning (env : SetupEnv) (st : Setup) (f : Forest) :
    (Meaning.conf env (f.entries 0) st).mapError Refusal.verdict =
      ending (confFile env (f.entries 0) (.start st)) :=
  confFile_means (entries_distinct 0 f) fun e _ => start_fresh st e

end

/-- **When the order does not matter**: if neither evaluation comes to something that ends the program without a
message. -/
theorem order_free_iff (env : SetupEnv) (st : Setup) (hi : st.InOrder) (f g : Forest)
    (h : Reorder (f.entries 0) (g.entries 0)) :
    OrderFree env st f g ↔ ConfSound env (f.entries 0) st ∧ ConfSound env (g.entries 0) st := by
  have hagree : Agree (Meaning.conf env (f.entries 0)) (Meaning.conf env (g.entries 0)) := conf_reorder env h
  unfold OrderFree SameEnd
  rw [refused_iff (confFile_meaning env st f), refused_iff (confFile_meaning env st g),
    conf_sound hi, conf_sound hi]
  cases hf : Meaning.conf env (f.entries 0) st with
  | ok r =>
    -- both return
    have hg : Meaning.conf env (g.entries 0) st = .ok r := hagree.ok hf
    obtain ⟨s, hs, hset⟩ := (ending_ok (confFile_meaning env st f)).mp hf
    obtain ⟨s', hs', hset'⟩ := (ending_ok (confFile_meaning env st g)).mp hg
    refine iff_of_true (.inr ⟨s, s', hs, hs', hset'.trans hset.symm⟩) ?_
    simp [hg]
  | error x =>
    have hnot : ∀ s, confFile env (f.entries 0) (.start st) ≠ .ok () s := by
      intro s hs
      have hok := (ending_ok (confFile_meaning env st f)).mpr ⟨s, hs, rfl⟩
      cases hf.symm.trans hok
    obtain ⟨y, hg⟩ : ∃ y, Meaning.conf env (g.entries 0) st = .error y := by
      cases x with
      | reported m =>
        obtain ⟨m', hm'⟩ := hagree.reported hf
        exact ⟨_, hm'⟩
      | fault z => exact ⟨_, hagree.fault hf⟩
    simp [hg, hnot]

/-- `chroot /a; directory /b;` -/
def twoSettings : Forest := .leaf (cstr "chroot") [cstr "/a"] (.leaf (cstr "directory") [cstr "/b"] .nil)

/-- `directory /b; chroot /a;` -/
def twoSettingsBack : Forest := .leaf (cstr "directory") [cstr "/b"] (.leaf (cstr "chroot") [cstr "/a"] .nil)

theorem plain_inOrder : plainSetup.InOrder := ⟨rfl, (fun _ hp => nomatch hp), .nil⟩

/-- Both orders are accepted. -/
theorem two_settings_order : OrderFree plainEnv plainSetup twoSettings twoSettingsBack := by
  have hdirectory : Reorder [⟨1, cstr "directory", [cstr "/b"], []⟩] [⟨0, cstr "directory", [cstr "/b"], []⟩] :=
    .cons (g := []) rfl rfl .nil (by simp) .nil
  have hback : Reorder (twoSettings.entries 0) (twoSettingsBack.entries 0) :=
    .cons (g := [⟨0, cstr "directory", [cstr "/b"], []⟩]) rfl rfl .nil (by decide) hdirectory
  have hsound : ∀ f : Forest, (∃ r, Meaning.conf plainEnv (f.entries 0) plainSetup = .ok r) →
      ConfSound plainEnv (f.entries 0) plainSetup := by
    rintro f ⟨r, hr⟩
    exact (conf_sound plain_inOrder).mpr fun x hx => nomatch hr.symm.trans hx
  exact (order_free_iff plainEnv plainSetup plain_inOrder twoSettings twoSettingsBack hback).mpr
    ⟨hsound twoSettings ⟨_, rfl⟩, hsound twoSettingsBack ⟨_, rfl⟩⟩

/-- `host { file { server s; } }` -/
def pathlessFile : Forest :=
  .block (cstr "host") [] (.block (cstr "file") [] (.leaf (cstr "server") [cstr "s"] .nil) .nil) .nil

/-- **Counterexample**: the evaluation of a file without a path, a name and an alias. -/
theorem missing_path_crashes : ¬∀ (env : SetupEnv) (st : Setup), st.InOrder → ∀ f g : Forest,
    Reorder (f.entries 0) (g.entries 0) → OrderFree env st f g := by
  intro hall
  have hsame := hall plainEnv plainSetup plain_inOrder pathlessFile pathlessFile (entries_reorder 0 pathlessFile)
  have hend : Meaning.conf plainEnv (pathlessFile.entries 0) plainSetup = .error (.fault .segv) := rfl
  have hmeans := confFile_meaning plainEnv plainSetup pathlessFile
  rcases hsame with ⟨hrefused, -⟩ | ⟨s, s', hs, -⟩
  · obtain ⟨y, hy, hverdict⟩ := (refused_iff hmeans).mp hrefused
    obtain rfl : .fault .segv = y := Except.error.inj (hend.symm.trans hy)
    rcases hverdict with h | h <;> cases h
  · cases hend.symm.trans ((ending_ok hmeans).mpr ⟨s, hs, rfl⟩)

end Bootd
