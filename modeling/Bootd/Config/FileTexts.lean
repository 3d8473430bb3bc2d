import Bootd.Config.Crashes
import Bootd.Config.Loaded
import Bootd.Config.Refines
import Bootd.L4Daemon.FileLists

/-!
# Where the texts of a file record come from

The path and the server of a record are copied from a value in its block, and a path
that is given as `\x7b` becomes the name or the first alias of the block. The parser
stores no string of more than 255 bytes.

* `file_read`, `host_read`: the records that a `file` block and a `host` block add.
* `confFile_read`: all records of a configuration.
* `block_texts`: their length.
-/
namespace Bootd

open Bootd.Core
open Bootd.Core.Stops

/-- The value of the statement `k` in a block. -/
def statement (k : Keyword) (es : List ConfEntry) : Option CStr := (named k es).head?.map (·.value)

/-- The values of an entry and of the statements in its block. -/
def ConfEntry.texts (e : ConfEntry) : List CStr := e.values ++ e.sub.flatMap (·.values)

/-- The record is what the block `x` came to. -/
structure File.ReadFrom (f : File) (x : ConfEntry) : Prop where
  path : ∀ p ∈ f.path, p ∈ x.texts
  server : f.server = statement kwServer x.sub

/-- A `file` block of one of the hosts. -/
def HostFile (root : List ConfEntry) (x : ConfEntry) : Prop := ∃ b ∈ named kwHost root, x ∈ named kwFile b.sub

/-- The record of one of the configuration's blocks. -/
def FromBlock (root : List ConfEntry) (f : File) : Prop := ∃ x, HostFile root x ∧ f.ReadFrom x

/-! ## Values -/

section
variable {es : List ConfEntry} {e x b : ConfEntry} {st st' : Setup} {dst r : Option CStr} {k : Keyword} {f : File}
  {files files' : List File}

theorem value_mem (h : e.values.length = 1) : e.value ∈ e.values := by
  obtain ⟨v, hv⟩ := List.length_eq_one_iff.mp h
  rw [ConfEntry.value, hv]
  exact List.mem_cons_self

theorem string_ok (h : Meaning.string dst e st = .ok (r, st')) : r = some e.value := by
  unfold Meaning.string at h
  split at h
  · cases h
  · cases h
    rfl

/-- A statement that may be given once. -/
theorem single_string (h : Meaning.single es k (Meaning.string dst) dst st = .ok (r, st')) :
    named k es = [] ∧ r = dst ∨ ∃ e, named k es = [e] ∧ e.values.length = 1 ∧ r = some e.value := by
  unfold Meaning.single at h
  rcases hnamed : named k es with _ | ⟨e, _ | ⟨e', rest⟩⟩
  all_goals simp only [hnamed] at h
  · cases h
    exact .inl ⟨rfl, rfl⟩
  · split at h
    · cases h
    · exact .inr ⟨e, rfl, not_not.mp ‹_›, string_ok h⟩
  · cases h

theorem single_statement (h : Meaning.single es k (Meaning.string none) none st = .ok (r, st')) :
    r = statement k es := by
  unfold statement
  rcases single_string h with ⟨hnil, rfl⟩ | ⟨e, hone, -, rfl⟩
  · rw [hnil]
    rfl
  · rw [hone]
    rfl

theorem single_texts (h : Meaning.single x.sub k (Meaning.string dst) dst st = .ok (r, st'))
    (hdst : ∀ v ∈ dst, v ∈ x.texts) : ∀ v ∈ r, v ∈ x.texts := by
  rcases single_string h with ⟨-, rfl⟩ | ⟨e, hone, hlen, rfl⟩
  · exact hdst
  · have he : e ∈ x.sub := (mem_named.mp (hone ▸ List.mem_cons_self)).1
    rintro v ⟨⟩
    exact List.mem_append_right _ (List.mem_flatMap.mpr ⟨e, he, value_mem hlen⟩)

theorem self_texts (h : Meaning.self x (Meaning.string none) none st = .ok (r, st')) : ∀ v ∈ r, v ∈ x.texts := by
  unfold Meaning.self at h
  split at h
  · cases h
    exact fun v hv => nomatch hv
  · rename_i hlen
    rw [string_ok h]
    rintro v ⟨⟩
    exact List.mem_append_left _ (value_mem (not_not.mp hlen))

theorem aliases_texts {n : Nat} {v : Vector (Option CStr) n} (h : Meaning.aliases x.sub n st = .ok (v, st')) :
    ∀ a, some a ∈ v.toList → a ∈ x.texts := by
  induction n generalizing st' with
  | zero =>
    cases h
    intro a ha
    cases ha
  | succ n ih =>
    obtain ⟨v, s, hv, h⟩ := bind_ok.mp h
    obtain ⟨o, s', ho, h⟩ := bind_ok.mp h
    cases h
    intro a ha
    rw [Vector.toList_push, List.mem_append, List.mem_singleton] at ha
    rcases ha with ha | rfl
    · exact ih hv a ha
    · cases he : (named kwAlias x.sub)[n]? with
      | none =>
        rw [he] at ho
        cases ho
      | some e =>
        rw [he, Meaning.aliasOf] at ho
        split at ho
        · cases ho
        · rename_i hlen
          cases ho
          have he := (mem_named.mp (List.mem_of_getElem? he)).1
          exact List.mem_append_right _ (List.mem_flatMap.mpr ⟨e, he, value_mem (not_not.mp hlen)⟩)

/-! ## Blocks -/

/-- A record before `host_file_add`. -/
theorem fileRecord_read (h : Meaning.fileRecord x st = .ok (f, st')) : f.ReadFrom x ∧
    (∀ n ∈ f.name, n ∈ x.texts) ∧ ∀ a, some a ∈ f.aliases.toList → a ∈ x.texts := by
  obtain ⟨path₀, s₀, h₀, h⟩ := bind_ok.mp h
  obtain ⟨path, s₁, h₁, h⟩ := bind_ok.mp h
  obtain ⟨name, s₂, h₂, h⟩ := bind_ok.mp h
  obtain ⟨service, s₃, -, h⟩ := bind_ok.mp h
  obtain ⟨aliases, s₄, h₄, h⟩ := bind_ok.mp h
  split at h
  · cases h
  · obtain ⟨server, s₅, h₅, h⟩ := bind_ok.mp h
    obtain ⟨_, s₆, -, h⟩ := bind_ok.mp h
    cases h
    have hname : ∀ n ∈ name, n ∈ x.texts := single_texts h₂ fun v hv => nomatch hv
    exact ⟨⟨single_texts h₁ (self_texts h₀), single_statement h₅⟩, hname, aliases_texts h₄⟩

/-- A record with a path of its own, or with its name for a path. -/
theorem hostFileAdd_read (h : hostFileAdd files f = .ok files') (hread : f.ReadFrom x)
    (hname : ∀ n ∈ f.name, n ∈ x.texts) (halias : ∀ a, some a ∈ f.aliases.toList → a ∈ x.texts) :
    files' = files ∨ ∃ g : File, g.ReadFrom x ∧ files' = files ++ [g] := by
  obtain ⟨n, hn, h⟩ := except_bind_ok h
  cases n with
  | none =>
    cases h
    exact .inl rfl
  | some n =>
    obtain ⟨listed, -, h⟩ := except_bind_ok h
    cases listed with
    | true =>
      cases h
      exact .inl rfl
    | false =>
      cases h
      refine .inr ⟨{ f with name := some n, path := _ }, ⟨?_, hread.server⟩, rfl⟩
      by_cases hopen : strIsEqual f.path (some tokOpen) = true
      · -- such a record got its name from the block
        rw [if_pos hopen]
        rintro p ⟨⟩
        unfold fileName at hn
        cases hfn : f.name with
        | some m =>
          rw [hfn] at hn
          cases hn
          exact hname _ hfn
        | none =>
          rw [hfn] at hn
          cases hfa : f.aliases.toList.head?.join with
          | some a =>
            rw [hfa] at hn
            cases hn
            exact halias _ (List.mem_of_head? (Option.join_eq_some_iff.mp hfa))
          | none =>
            rw [hfa] at hn
            simp only [if_pos hopen] at hn
            cases hn
      · rw [if_neg hopen]
        exact hread.path

theorem file_read (h : Meaning.file x files st = .ok (files', st')) :
    files' = files ∨ ∃ g : File, g.ReadFrom x ∧ files' = files ++ [g] := by
  obtain ⟨f, s, hrec, h⟩ := bind_ok.mp h
  obtain ⟨hread, hname, halias⟩ := fileRecord_read hrec
  exact hostFileAdd_read (lift_ok.mp (call_ok.mp h)).1 hread hname halias

variable {env : SetupEnv} {root : List ConfEntry} {h : Host} {s s' : EvalState} {u : Unit}

theorem hostRecord_read (hrun : Meaning.hostRecord env b st = .ok (h, st')) :
    h.next = none ∧ ∀ f ∈ h.files, ∃ x ∈ named kwFile b.sub, f.ReadFrom x := by
  obtain ⟨_, s₀, -, hrun⟩ := bind_ok.mp hrun
  obtain ⟨name, s₁, -, hrun⟩ := bind_ok.mp hrun
  obtain ⟨eth, s₂, -, hrun⟩ := bind_ok.mp hrun
  obtain ⟨ip, s₃, -, hrun⟩ := bind_ok.mp hrun
  obtain ⟨service, s₄, -, hrun⟩ := bind_ok.mp hrun
  obtain ⟨files, s₅, hfiles, hrun⟩ := bind_ok.mp hrun
  obtain ⟨_, s₆, -, hrun⟩ := bind_ok.mp hrun
  cases hrun
  refine ⟨rfl, foldlM_keeps (I := fun fs _ => ∀ f ∈ fs, ∃ x ∈ named kwFile b.sub, f.ReadFrom x)
    (fun x hx fs _ fs' _ hI hround => ?_) (by simp) hfiles⟩
  rcases file_read hround with rfl | ⟨g, hread, rfl⟩
  · exact hI
  · intro f hf
    rcases List.mem_append.mp hf with hf | hf
    · exact hI f hf
    · rw [List.mem_singleton.mp hf]
      exact ⟨x, hx, hread⟩

/-! ## The hosts -/

/-- A round of the loop over the hosts. -/
theorem host_read (hd : Distinct root) (hb : b ∈ named kwHost root) (hf : Fresh s b)
    (hi : TableInv ⟨s.setup.w, s.setup.accepted⟩) (hall : s.setup.w.FilesAll (FromBlock root))
    (hrun : evalHost env b u (s.take b) = .ok u s') :
    TableInv ⟨s'.setup.w, s'.setup.accepted⟩ ∧ s'.setup.w.FilesAll (FromBlock root) := by
  have he := (mem_named.mp hb).1
  obtain ⟨h, s₁, hrec, hadd⟩ := Exec.bind_ok.mp hrun
  obtain ⟨-, -, hset, -⟩ := hostRecord_ok (hd.sub he) (hf.inside hd he) hrec
  have hmean : Means (hostRecord env b) (Meaning.hostRecord env b) (s.take b) :=
    hostRecord_means (hd.sub he) (hf.inside hd he)
  obtain ⟨hnext, hfiles⟩ := hostRecord_read ((ending_ok hmean).mpr ⟨s₁, hrec, rfl⟩)
  obtain ⟨st, hst, rfl⟩ := liftSetup_ok hadd
  obtain ⟨p, listed, w', hnew, rfl⟩ := addHost_ok hst
  rw [hset] at hnew ⊢
  have hmaskless : Maskless (FromBlock root) := fun f m ⟨x, hx, hread⟩ => ⟨x, hx, hread.path, hread.server⟩
  refine ⟨hostAddNew_inv hi hnew rfl fun _ => hnext, hostAddNew_files hmaskless (.of_path hi.chain) hnew hall ?_⟩
  intro f hf
  obtain ⟨x, hx, hread⟩ := hfiles f hf
  exact ⟨x, ⟨b, hb, hx⟩, hread⟩

theorem hosts_read {es : List ConfEntry} {u u' : Unit} (hd : Distinct root) (hin : ∀ b ∈ es, b ∈ named kwHost root)
    (hr : Rounds (evalHost env) es u s u' s') (hi : TableInv ⟨s.setup.w, s.setup.accepted⟩)
    (hall : s.setup.w.FilesAll (FromBlock root)) :
    TableInv ⟨s'.setup.w, s'.setup.accepted⟩ ∧ s'.setup.w.FilesAll (FromBlock root) := by
  induction hr with
  | nil => exact ⟨hi, hall⟩
  | cons hf hrun _ ih =>
    obtain ⟨hi, hall⟩ := host_read hd (hin _ List.mem_cons_self) hf hi hall hrun
    exact ih (fun b hb => hin b (List.mem_cons_of_mem _ hb)) hi hall

/-- **Every record is one of the configuration's blocks.** -/
theorem confFile_read (hd : Distinct root) (hf : ∀ e ∈ root, Fresh s e)
    (hi : TableInv ⟨s.setup.w, s.setup.accepted⟩) (hall : s.setup.w.FilesAll (FromBlock root))
    (hrun : confFile env root s = .ok u s') :
    TableInv ⟨s'.setup.w, s'.setup.accepted⟩ ∧ s'.setup.w.FilesAll (FromBlock root) := by
  obtain ⟨-, s₁, -, hkeep, hr⟩ := confFile_ok hd hf hrun
  replace hi := hi.opensOwn hkeep.w
  rw [← hkeep.accepted] at hi
  exact hosts_read hd (fun _ hb => hb) hr hi ((SameHosts.of_eq hkeep.w.gHosts hkeep.w.hosts).filesAll hall)

/-- The texts of a `file` block that was parsed. -/
theorem block_texts {τ : Type} {S : Source τ} {stack : Nat → Locals} {mem : EntId → Entry} {tok : τ} {f : Forest}
    {st : ParseState τ} (hload : Loads S stack mem tok f st) (hx : HostFile (f.entries 0) x) :
    ∀ t ∈ x.texts, t.length < parseStringMax := by
  obtain ⟨b, hb, hx⟩ := hx
  obtain ⟨-, sub, hsub, hholds⟩ := hload.holds.entries (mem_named.mp hb).1
  have hx := (mem_named.mp hx).1
  rw [hsub] at hx
  obtain ⟨-, sub', hsub', hholds'⟩ := hholds.entries hx
  intro t ht
  rcases List.mem_append.mp ht with ht | ht
  · exact hholds.values_short hload.short hx t ht
  · obtain ⟨e, he, ht⟩ := List.mem_flatMap.mp ht
    rw [hsub'] at he
    exact hholds'.values_short hload.short he t ht

end

end Bootd
