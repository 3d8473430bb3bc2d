import Bootd.L2State.World

/-!
# File lookup (`util.c:195-258`)

`iFileMatch` ranks a file record for a requested name, `utilName2file` makes
one pass over the list per rank, best first, and skips the first `no` hits.

* `utilName2file_some`: what is found is a record of the list whose rank is not
  0, so (`iFileMatch_pos`) it is allowed for the service and answers to the
  name or is a wildcard.
-/
namespace Bootd

/-- The string `"*"`. -/
def wildcard : CStr := cstr "*"

/-- mirrors src/util.c:219-258 -/
def iFileMatch (n : File) (service : Nat) (name : Option CStr) : Nat :=
  if n.service &&& service = 0 then 0
  else if name = none then 1
  else if strIsEqual name n.path then 1
  else if strIsEqual name n.name then 2
  else if n.aliases.any (strIsEqual name ·) then 3
  else if strIsEqual n.path (some wildcard) || strIsEqual n.name (some wildcard) then 4
  else if n.aliases.any (strIsEqual · (some wildcard)) then 4
  else 0

/-- The pass for rank `i`: the file found, or what is left of `no`.
mirrors src/util.c:207-214 -/
def fileScan (service : Nat) (name : Option CStr) (i : Nat) : List File → Int → File ⊕ Int
  | [], no => .inr no
  | n :: fs, no =>
    if iFileMatch n service name = i then
      if no ≠ 0 then fileScan service name i fs (no - 1) else .inl n
    else fileScan service name i fs no

/-- The passes for the ranks `is`, best first. -/
def fileRanks (service : Nat) (name : Option CStr) (fs : List File) : List Nat → Int → Option File
  | [], _ => none
  | i :: is, no =>
    match fileScan service name i fs no with
    | .inl n => some n
    | .inr no => fileRanks service name fs is no

/-- mirrors src/util.c:195-217 -/
def utilName2file (fs : List File) (service : Nat) (name : Option CStr) (no : Int) : Option File :=
  fileRanks service name fs [1, 2, 3, 4] no

/-- The requested name is one the record goes by, or the record takes any. -/
def File.AnswersTo (n : File) (name : CStr) : Prop :=
  n.path = some name ∨ n.name = some name ∨ some name ∈ n.aliases.toList ∨
  n.path = some wildcard ∨ n.name = some wildcard ∨ some wildcard ∈ n.aliases.toList

theorem strIsEqual_some {a : Option CStr} {x : CStr} :
    (strIsEqual (some x) a = true ↔ a = some x) ∧ (strIsEqual a (some x) = true ↔ a = some x) := by
  constructor
  · rw [strIsEqual_iff]
    constructor
    · intro ⟨y, e, h⟩; cases e; exact h
    · rintro rfl; exact ⟨x, rfl, rfl⟩
  · rw [strIsEqual_iff]
    constructor
    · intro ⟨y, h, e⟩; cases e; exact h
    · rintro rfl; exact ⟨x, rfl, rfl⟩

theorem iFileMatch_service {n : File} {service : Nat} {name : Option CStr}
    (h : iFileMatch n service name ≠ 0) : n.service &&& service ≠ 0 := by
  intro hs
  rw [iFileMatch, if_pos hs] at h
  exact h rfl

theorem iFileMatch_pos {n : File} {service : Nat} {name : CStr}
    (h : iFileMatch n service (some name) ≠ 0) : n.AnswersTo name := by
  have hany : ∀ p : Option CStr → Bool, n.aliases.any p = true → ∃ a ∈ n.aliases.toList, p a := by
    intro p hp
    rw [← Vector.any_toList, List.any_eq_true] at hp
    exact hp
  unfold iFileMatch at h
  split at h
  · exact absurd rfl h
  · split at h
    · rename_i hn; cases hn
    · split at h
      · rename_i hp; exact .inl (strIsEqual_some.1.mp hp)
      · split at h
        · rename_i hp; exact .inr (.inl (strIsEqual_some.1.mp hp))
        · split at h
          · rename_i ha
            obtain ⟨a, hm, ha⟩ := hany _ ha
            exact .inr (.inr (.inl (strIsEqual_some.1.mp ha ▸ hm)))
          · split at h
            · rename_i hw
              rcases Bool.or_eq_true_iff.mp hw with hw | hw
              · exact .inr (.inr (.inr (.inl (strIsEqual_some.2.mp hw))))
              · exact .inr (.inr (.inr (.inr (.inl (strIsEqual_some.2.mp hw)))))
            · split at h
              · rename_i ha
                obtain ⟨a, hm, ha⟩ := hany _ ha
                exact .inr (.inr (.inr (.inr (.inr (strIsEqual_some.2.mp ha ▸ hm)))))
              · exact absurd rfl h

theorem fileScan_inl {service : Nat} {name : Option CStr} {i : Nat} {n : File} :
    ∀ {fs : List File} {no : Int}, fileScan service name i fs no = .inl n →
      n ∈ fs ∧ iFileMatch n service name = i
  | [], _, h => by cases h
  | m :: fs, no, h => by
    simp only [fileScan] at h
    split at h
    · split at h
      · obtain ⟨hm, hr⟩ := fileScan_inl h
        exact ⟨List.mem_cons_of_mem _ hm, hr⟩
      · cases h
        exact ⟨List.mem_cons_self, ‹_›⟩
    · obtain ⟨hm, hr⟩ := fileScan_inl h
      exact ⟨List.mem_cons_of_mem _ hm, hr⟩

theorem fileRanks_some {service : Nat} {name : Option CStr} {fs : List File} {n : File} :
    ∀ {is : List Nat} {no : Int}, fileRanks service name fs is no = some n →
      n ∈ fs ∧ iFileMatch n service name ∈ is
  | [], _, h => by cases h
  | i :: is, no, h => by
    simp only [fileRanks] at h
    split at h
    · rename_i m hs
      obtain ⟨hm, hr⟩ := fileScan_inl hs
      cases h
      exact ⟨hm, by simp [hr]⟩
    · obtain ⟨hm, hr⟩ := fileRanks_some h
      exact ⟨hm, List.mem_cons_of_mem _ hr⟩

/-- A file that is found is configured for the service under that name. -/
theorem utilName2file_some {service : Nat} {name : CStr} {fs : List File} {n : File} {no : Int}
    (h : utilName2file fs service (some name) no = some n) :
    n ∈ fs ∧ n.service &&& service ≠ 0 ∧ n.AnswersTo name := by
  obtain ⟨hm, hr⟩ := fileRanks_some h
  have hpos : iFileMatch n service (some name) ≠ 0 := by
    intro h0; rw [h0] at hr; simp at hr
  exact ⟨hm, iFileMatch_service hpos, iFileMatch_pos hpos⟩

end Bootd
