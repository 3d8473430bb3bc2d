import Bootd.Config.Crashes
import Bootd.L2State.Files

/-!
# Records without a path, and with ten aliases

`host_file_add` completes a record: the name after an alias or the path, the path after
the name. It takes the path for given unless it is `"\x7b"`, a token of an older parser;
a path that is not given is NULL (src/host.c:149). So a record without one keeps the
NULL path, or is named after it. And the loop over the aliases reads a slot before it
looks at the bound (src/host.c:150): after ten aliases it reads an eleventh.

Counterexample: `file { name k; }` (`pathless_listed`).

`file_records_iff`: the sequences of records that are added as they should be are those
in which each has a path, or repeats a name, and at most nine aliases.
-/
namespace Bootd

/-- The slots that the loop over the aliases reads, from slot `i` on. After the last one
the next is read, and then the bound is tested.
mirrors src/host.c:150-151 -/
def aliasReads : Nat → List (Option CStr) → List Nat
  | i, [] => [i]
  | i, none :: _ => [i]
  | i, some _ :: as => i :: aliasReads (i + 1) as

/-- The name and the first alias of a record. -/
def File.given (f : File) : Option CStr := f.name <|> f.aliases.toList.head?.join

/-- What a record is called: its name, its first alias, or the end of its path. -/
def File.called (f : File) : Option CStr :=
  f.given <|> if f.path = some tokOpen then none else f.path.map baseName

/-- The name `n`, up to case, is that of a file in the list. -/
def NameTaken (n : CStr) (files : List File) : Prop :=
  ∃ g ∈ files, ∃ m, g.name = some m ∧ strcasecmp n m = true

/-- The call of `host_file_add` with `f` goes from `files` to `files'`, follows no NULL
pointer, reads slots of the array only, rejects a record without anything, and leaves
complete records with different names. -/
structure FileAdd (files : List File) (f : File) (files' : List File) : Prop where
  returns : hostFileAdd files f = .ok files'
  reads : ∀ i ∈ aliasReads 0 f.aliases.toList, i < fileAliasesMax
  rejects : f.Nameless → files' = files
  complete : ∀ g ∈ files', g.name ≠ none ∧ g.path ≠ none
  apart : files'.Pairwise fun a b => ∀ m n, a.name = some m → b.name = some n → strcasecmp m n = false
  kept : files <+: files'

/-- A sequence of calls, the first of them on the list `files`. -/
def FilesAdded : List File → List File → Prop
  | _, [] => True
  | files, f :: fs => ∃ files', FileAdd files f files' ∧ FilesAdded files' fs

/-- After the records `pre`: the record has a path, or is called like one before, and not
all of its aliases are set. -/
def File.Fits (pre : List File) (f : File) : Prop :=
  none ∈ f.aliases.toList ∧
    (f.path ≠ none ∨ ∃ n, f.given = some n ∧ ∃ g ∈ pre, ∃ m, g.called = some m ∧ strcasecmp n m = true)

/-- The list after the records `pre`: complete, with the names they are called by. -/
structure Covers (pre files : List File) : Prop where
  complete : ∀ g ∈ files, g.name ≠ none ∧ g.path ≠ none
  apart : files.Pairwise fun a b => ∀ m n, a.name = some m → b.name = some n → strcasecmp m n = false
  names : ∀ n, NameTaken n files ↔ ∃ g ∈ pre, ∃ m, g.called = some m ∧ strcasecmp n m = true

section
variable {f g : File} {files files' pre fs : List File} {n m : CStr}

/-- The loop stays in the array exactly if a slot is not set. -/
theorem aliasReads_iff : ∀ (as : List (Option CStr)) (i : Nat),
    (∀ j ∈ aliasReads i as, j < i + as.length) ↔ none ∈ as
  | [], i => by simp [aliasReads]
  | none :: as, i => by simp [aliasReads]
  | some a :: as, i => by
    have ih := aliasReads_iff as (i + 1)
    have hlen : i + (some a :: as).length = i + 1 + as.length := by
      rw [List.length_cons]
      omega
    rw [aliasReads, List.forall_mem_cons, hlen, ih, List.mem_cons, and_iff_right (by omega)]
    simp

theorem fileListed_run (hnames : ∀ g ∈ files, g.name ≠ none) :
    ∃ b, fileListed n files = .ok b ∧ (b = true ↔ NameTaken n files) := by
  induction files with
  | nil =>
    refine ⟨false, rfl, iff_of_false Bool.false_ne_true ?_⟩
    rintro ⟨g, hg, -⟩
    cases hg
  | cons g fs ih =>
    obtain ⟨m, hm⟩ := Option.ne_none_iff_exists'.mp (hnames g List.mem_cons_self)
    obtain ⟨b, hb, hiff⟩ := ih fun x hx => hnames x (List.mem_cons_of_mem _ hx)
    rw [fileListed, hm]
    by_cases hlike : strcasecmp n m = true
    · exact ⟨true, if_pos hlike, iff_of_true rfl ⟨g, List.mem_cons_self, m, hm, hlike⟩⟩
    · refine ⟨b, (if_neg hlike).trans hb, hiff.trans ⟨?_, ?_⟩⟩
      · rintro ⟨x, hx, hrest⟩
        exact ⟨x, List.mem_cons_of_mem _ hx, hrest⟩
      · rintro ⟨x, hx, k, hk, hnk⟩
        rcases List.mem_cons.mp hx with rfl | hx
        · rw [hm] at hk
          cases hk
          exact absurd hnk hlike
        · exact ⟨x, hx, k, hk, hnk⟩

theorem File.given_none : f.given = none ↔ f.name = none ∧ f.aliases.toList.head?.join = none := by
  unfold File.given
  cases f.name <;> simp

theorem fileName_called (hno : ¬f.Nameless) : fileName f = .ok f.called := by
  unfold fileName File.called File.given
  cases hn : f.name with
  | some n => rfl
  | none =>
    cases ha : f.aliases.toList.head?.join with
    | some a => rfl
    | none =>
      cases hp : f.path with
      | none => exact absurd ⟨hp, hn, ha⟩ hno
      | some p =>
        by_cases hopen : p = tokOpen
        · subst hopen
          rfl
        · have hneq : ¬strIsEqual (some p) (some tokOpen) = true := fun h =>
            hopen (Option.some.inj (strIsEqual_some.2.mp h))
          simp only
          rw [if_neg hneq, if_neg fun h => hopen (Option.some.inj h)]
          rfl

/-- The record as it is listed under the name `n`. -/
def File.completed (f : File) (n : CStr) : File :=
  { f with name := some n, path := if strIsEqual f.path (some tokOpen) then some n else f.path }

theorem File.completed_path (f : File) (n : CStr) : (f.completed n).path ≠ none ↔ f.path ≠ none := by
  unfold File.completed
  cases hp : f.path with
  | none => exact Iff.rfl
  | some p =>
    refine iff_of_true ?_ (Option.some_ne_none p)
    simp only
    split <;> exact Option.some_ne_none _

/-- What a call does with a record that has a name, an alias or a path. -/
theorem hostFileAdd_run (hnames : ∀ g ∈ files, g.name ≠ none) (hno : ¬f.Nameless) :
    (f.called = none ∧ hostFileAdd files f = .ok files) ∨
      ∃ n, f.called = some n ∧ ((NameTaken n files ∧ hostFileAdd files f = .ok files) ∨
        (¬NameTaken n files ∧ hostFileAdd files f = .ok (files ++ [f.completed n]))) := by
  unfold hostFileAdd
  rw [fileName_called hno]
  cases f.called with
  | none => exact .inl ⟨rfl, rfl⟩
  | some n =>
    obtain ⟨b, hb, hiff⟩ := fileListed_run (n := n) hnames
    refine .inr ⟨n, rfl, ?_⟩
    simp only [bind, Except.bind, hb]
    cases b with
    | true => exact .inl ⟨hiff.mp rfl, rfl⟩
    | false => exact .inr ⟨fun h => Bool.false_ne_true (hiff.mpr h), rfl⟩

/-! ## One call -/

theorem Covers.listed (h : Covers pre files) : ∀ g ∈ files, g.name ≠ none := fun g hg => (h.complete g hg).1

/-- What a record that fits is called is what it is given, where that is taken. -/
theorem File.called_of_given (h : f.given = some n) : f.called = some n := by
  unfold File.called
  rw [h]
  rfl

theorem Covers.nameless (hfit : f.Fits pre) : ¬f.Nameless := by
  rintro ⟨hpath, hname, halias⟩
  rcases hfit.2 with hne | ⟨n, hn, -⟩
  · exact hne hpath
  · rw [File.given_none.mpr ⟨hname, halias⟩] at hn
    cases hn

theorem nameTaken_append : NameTaken n (files ++ [g]) ↔ NameTaken n files ∨
    ∃ m, g.name = some m ∧ strcasecmp n m = true := by
  unfold NameTaken
  simp only [List.mem_append, List.mem_singleton, or_and_right, exists_or, exists_eq_left]

/-- A record that fits is added as it should be. -/
theorem Covers.add (h : Covers pre files) (hfit : f.Fits pre) : ∃ files', FileAdd files f files' := by
  have hno := Covers.nameless hfit
  have hreads : ∀ i ∈ aliasReads 0 f.aliases.toList, i < fileAliasesMax := by
    have hiff := aliasReads_iff f.aliases.toList 0
    rw [Vector.length_toList, Nat.zero_add] at hiff
    exact hiff.mpr hfit.1
  have hsame : hostFileAdd files f = .ok files → FileAdd files f files := fun hrun =>
    ⟨hrun, hreads, fun hnl => absurd hnl hno, h.complete, h.apart, List.prefix_refl files⟩
  rcases hostFileAdd_run h.listed hno with ⟨-, hrun⟩ | ⟨n, hn, ⟨-, hrun⟩ | ⟨hfree, hrun⟩⟩
  · exact ⟨files, hsame hrun⟩
  · exact ⟨files, hsame hrun⟩
  · have hpath : f.path ≠ none := by
      refine hfit.2.resolve_right ?_
      rintro ⟨n', hn', hlike⟩
      rw [File.called_of_given hn'] at hn
      cases hn
      exact hfree ((h.names n).mpr hlike)
    refine ⟨files ++ [f.completed n], hrun, hreads, fun hnl => absurd hnl hno, fun g hg => ?_, ?_,
      List.prefix_append files _⟩
    · rcases List.mem_append.mp hg with hg | hg
      · exact h.complete g hg
      · rw [List.mem_singleton.mp hg]
        exact ⟨Option.some_ne_none n, (File.completed_path f n).mpr hpath⟩
    · refine List.pairwise_append.mpr ⟨h.apart, List.pairwise_singleton _ _, fun a ha b hb m k hm hk => ?_⟩
      rw [List.mem_singleton.mp hb] at hk
      cases hk
      refine Bool.eq_false_iff.mpr fun hlike => hfree ⟨a, ha, m, hm, ?_⟩
      rw [strcasecmp_comm]
      exact hlike

/-- A record that is added as it should be fits. -/
theorem Covers.fits (h : Covers pre files) (ha : FileAdd files f files') : f.Fits pre := by
  constructor
  · have hiff := aliasReads_iff f.aliases.toList 0
    rw [Vector.length_toList, Nat.zero_add] at hiff
    exact hiff.mp ha.reads
  by_cases hpath : f.path = none
  swap
  · exact .inl hpath
  have hno : ¬f.Nameless := fun hnl => by
    have hrun := ha.returns
    rw [(hostFileAdd_error h.listed).mpr ⟨rfl, hnl⟩] at hrun
    cases hrun
  obtain ⟨n, hn⟩ : ∃ n, f.given = some n := Option.ne_none_iff_exists'.mp fun hg =>
    hno ⟨hpath, File.given_none.mp hg⟩
  refine .inr ⟨n, hn, (h.names n).mp ?_⟩
  rcases hostFileAdd_run h.listed hno with ⟨hnone, -⟩ | ⟨n', hn', ⟨htaken, -⟩ | ⟨-, hrun⟩⟩
  · rw [File.called_of_given hn] at hnone
    cases hnone
  · rw [File.called_of_given hn] at hn'
    cases hn'
    exact htaken
  · -- it would be listed without a path
    rw [ha.returns] at hrun
    cases hrun
    have hlast := (ha.complete (f.completed n') (List.mem_append_right _ (List.mem_singleton_self _))).2
    exact absurd hpath ((File.completed_path f n').mp hlast)

/-- And the list goes on as it was. -/
theorem Covers.snoc (h : Covers pre files) (ha : FileAdd files f files') : Covers (pre ++ [f]) files' := by
  have hno := Covers.nameless (h.fits ha)
  refine ⟨ha.complete, ha.apart, fun k => ?_⟩
  have hpre : (∃ g ∈ pre ++ [f], ∃ m, g.called = some m ∧ strcasecmp k m = true) ↔
      NameTaken k files ∨ ∃ m, f.called = some m ∧ strcasecmp k m = true := by
    rw [h.names k]
    simp only [List.mem_append, List.mem_singleton, or_and_right, exists_or, exists_eq_left]
  rw [hpre]
  rcases hostFileAdd_run h.listed hno with ⟨hnone, hrun⟩ | ⟨n, hn, ⟨htaken, hrun⟩ | ⟨-, hrun⟩⟩
  · rw [ha.returns] at hrun
    cases hrun
    simp [hnone]
  · rw [ha.returns] at hrun
    cases hrun
    refine ⟨.inl, fun hcase => hcase.elim id ?_⟩
    rintro ⟨m, hm, hlike⟩
    rw [hn] at hm
    cases hm
    obtain ⟨g, hg, m', hm', hlike'⟩ := htaken
    exact ⟨g, hg, m', hm', strcasecmp_iff.mpr ((strcasecmp_iff.mp hlike).trans (strcasecmp_iff.mp hlike'))⟩
  · rw [ha.returns] at hrun
    cases hrun
    rw [nameTaken_append, hn]
    rfl

/-! ## A sequence of calls -/

/-- From a list that covers the records before. -/
theorem filesAdded_iff : ∀ {fs pre files : List File}, Covers pre files →
    (FilesAdded files fs ↔ ∀ mid f post, fs = mid ++ f :: post → f.Fits (pre ++ mid))
  | [], pre, files, _ => iff_of_true trivial fun mid f post h => by
    have hlen := congrArg List.length h
    rw [List.length_append, List.length_cons, List.length_nil] at hlen
    omega
  | f :: fs, pre, files, hc => by
    constructor
    · rintro ⟨files', ha, hrest⟩ mid g post hsplit
      have hih := (filesAdded_iff (hc.snoc ha)).mp hrest
      cases mid with
      | nil =>
        cases hsplit
        rw [List.append_nil]
        exact hc.fits ha
      | cons x mid =>
        rw [List.cons_append, List.cons.injEq] at hsplit
        obtain ⟨rfl, hsplit⟩ := hsplit
        have hfit := hih mid g post hsplit
        rwa [List.append_assoc, List.singleton_append] at hfit
    · intro hall
      have hfit := hall [] f fs rfl
      rw [List.append_nil] at hfit
      obtain ⟨files', ha⟩ := hc.add hfit
      refine ⟨files', ha, (filesAdded_iff (hc.snoc ha)).mpr fun mid g post hsplit => ?_⟩
      rw [List.append_assoc, List.singleton_append]
      exact hall (f :: mid) g post (by rw [hsplit, List.cons_append])

end

/-- **Which sequences of records are added as they should be**: those in which each record
has a path, or is called like one before it, and at most nine aliases. -/
theorem file_records_iff (fs : List File) :
    FilesAdded [] fs ↔ ∀ pre f post, fs = pre ++ f :: post → f.Fits pre := by
  have hempty : Covers [] [] := by
    refine ⟨fun g hg => absurd hg List.not_mem_nil, .nil, fun n => ?_⟩
    constructor
    · rintro ⟨g, hg, -⟩
      cases hg
    · rintro ⟨g, hg, -⟩
      cases hg
  exact filesAdded_iff hempty

/-! ## A record with a name only -/

/-- `file { name k; }` -/
def nameOnly : ConfEntry :=
  ⟨0, cstr "file", [], [⟨1, cstr "name", [cstr "k"], []⟩]⟩

/-- **Counterexample**: the evaluator builds the record, and it is listed with its NULL
path. -/
theorem pathless_listed : ¬∀ fs : List File,
    (∀ f ∈ fs, ∃ e s s', fileRecord e s = .ok f s') → FilesAdded [] fs := by
  intro h
  have hbuilt : ∃ e s s', fileRecord e s = .ok ⟨none, some (cstr "k"), none, .replicate 10 none, 0⟩ s' :=
    ⟨nameOnly, ⟨fun _ => 0, plainSetup⟩, _, rfl⟩
  obtain ⟨files', ha, -⟩ := h [⟨none, some (cstr "k"), none, .replicate 10 none, 0⟩] fun f hf => by
    rw [List.mem_singleton.mp hf]
    exact hbuilt
  have hrun : hostFileAdd [] ⟨none, some (cstr "k"), none, .replicate 10 none, 0⟩ =
      .ok [⟨none, some (cstr "k"), none, .replicate 10 none, 0⟩] := rfl
  have hret := ha.returns
  rw [hrun] at hret
  cases hret
  exact (ha.complete _ (List.mem_singleton_self _)).2 rfl

end Bootd
