import Bootd.Core.Buckets
import Bootd.L2State.Files

/-!
# The best match (`util.c:195-258`)

`util_name2file` passes over the list once for each rank, with one counter for
all four passes. It counts through the matching records in the order of their
ranks, and within a rank in the order of the list.

* `iFileMatch_iff`: the rank of a record is the first of the four ways to match
  that applies, on a record that is allowed for the service.
* `name2file_best`: the record at place `k` of that order, for every list, name,
  service and `k`.
-/
namespace Bootd

open Bootd.Core

/-- The four ways to match: the path, or no name asked for; the official name; an
alias; a wildcard. -/
def File.Goes (n : File) (name : Option CStr) : Nat → Prop
  | 1 => name = none ∨ n.path = name
  | 2 => n.name = name
  | 3 => name ∈ n.aliases.toList
  | 4 => n.path = some wildcard ∨ n.name = some wildcard ∨ some wildcard ∈ n.aliases.toList
  | _ => False

/-- The record is allowed for the service, and `r` is the first way in which it
matches. -/
def File.HasRank (n : File) (service : Nat) (name : Option CStr) (r : Nat) : Prop :=
  n.service &&& service ≠ 0 ∧ n.Goes name r ∧ ∀ i < r, ¬n.Goes name i

/-- The records that match, best rank first. -/
def filesByRank (fs : List File) (service : Nat) (name : Option CStr) : List File :=
  (fs.filter fun n => iFileMatch n service name ≠ 0).mergeSort (byKey fun n => iFileMatch n service name)

section
variable {n : File} {fs : List File} {service : Nat} {name : Option CStr} {i r k : Nat}

theorem any_alias {x : CStr} : (n.aliases.any fun a => strIsEqual (some x) a) = true ↔
    some x ∈ n.aliases.toList := by
  rw [← Vector.any_toList, List.any_eq_true]
  constructor
  · rintro ⟨a, hm, ha⟩
    exact strIsEqual_some.1.mp ha ▸ hm
  · exact fun hm => ⟨_, hm, strIsEqual_some.1.mpr rfl⟩

theorem any_wildcard : (n.aliases.any fun a => strIsEqual a (some wildcard)) = true ↔
    some wildcard ∈ n.aliases.toList := by
  rw [← Vector.any_toList, List.any_eq_true]
  constructor
  · rintro ⟨a, hm, ha⟩
    exact strIsEqual_some.2.mp ha ▸ hm
  · exact fun hm => ⟨_, hm, strIsEqual_some.2.mpr rfl⟩

/-- The cascade, on a record that is allowed for the service. -/
theorem iFileMatch_eq (hs : n.service &&& service ≠ 0) [∀ i, Decidable (n.Goes name i)] :
    iFileMatch n service name = if n.Goes name 1 then 1 else if n.Goes name 2 then 2
      else if n.Goes name 3 then 3 else if n.Goes name 4 then 4 else 0 := by
  cases name with
  | none => rw [iFileMatch, if_neg hs, if_pos rfl, if_pos (.inl rfl)]
  | some x =>
    unfold iFileMatch
    rw [if_neg hs, if_neg (Option.some_ne_none x)]
    simp only [File.Goes, any_alias, any_wildcard, strIsEqual_some.1, strIsEqual_some.2, Bool.or_eq_true,
      reduceCtorEq, false_or]
    by_cases h1 : n.path = some x
    · rw [if_pos h1, if_pos h1]
    · rw [if_neg h1, if_neg h1]
      by_cases h2 : n.name = some x
      · rw [if_pos h2, if_pos h2]
      · rw [if_neg h2, if_neg h2]
        by_cases h3 : some x ∈ n.aliases.toList
        · rw [if_pos h3, if_pos h3]
        · rw [if_neg h3, if_neg h3]
          by_cases hw : n.path = some wildcard ∨ n.name = some wildcard
          · rw [if_pos hw, if_pos (or_assoc.mp (.inl hw))]
          · rw [if_neg hw]
            exact if_congr (by rw [← or_assoc, or_iff_right hw]) rfl rfl

/-- The ranks that the passes go over. -/
theorem iFileMatch_mem (h : iFileMatch n service name ≠ 0) : iFileMatch n service name ∈ [1, 2, 3, 4] := by
  unfold iFileMatch at h ⊢
  split_ifs at h ⊢ <;> first | decide | exact absurd rfl h

/-- There is one first way. -/
theorem first_iff {G : Nat → Prop} (hi : G i) (hmin : ∀ j < i, ¬G j) : i = r ↔ G r ∧ ∀ j < r, ¬G j := by
  constructor
  · rintro rfl
    exact ⟨hi, hmin⟩
  · rintro ⟨hr, hrmin⟩
    refine Nat.le_antisymm (Nat.not_lt.mp fun h => ?_) (Nat.not_lt.mp fun h => ?_)
    · exact hmin r h hr
    · exact hrmin i h hi

/-- What the ranks mean. -/
theorem iFileMatch_iff (hr : r ≠ 0) : iFileMatch n service name = r ↔ n.HasRank service name r := by
  classical
  by_cases hs : n.service &&& service = 0
  · refine iff_of_false (fun h => ?_) fun h => h.1 hs
    rw [iFileMatch, if_pos hs] at h
    exact hr h.symm
  · rw [File.HasRank, and_iff_right hs, iFileMatch_eq hs]
    have h0 : ∀ j < 1, ¬n.Goes name j := Nat.forall_lt_succ_right.mpr ⟨fun j hj => absurd hj (Nat.not_lt_zero j), id⟩
    by_cases h1 : n.Goes name 1
    · rw [if_pos h1]
      exact first_iff h1 h0
    rw [if_neg h1]
    have hlt := Nat.forall_lt_succ_right.mpr ⟨h0, h1⟩
    by_cases h2 : n.Goes name 2
    · rw [if_pos h2]
      exact first_iff h2 hlt
    rw [if_neg h2]
    have hlt := Nat.forall_lt_succ_right.mpr ⟨hlt, h2⟩
    by_cases h3 : n.Goes name 3
    · rw [if_pos h3]
      exact first_iff h3 hlt
    rw [if_neg h3]
    have hlt := Nat.forall_lt_succ_right.mpr ⟨hlt, h3⟩
    by_cases h4 : n.Goes name 4
    · rw [if_pos h4]
      exact first_iff h4 hlt
    rw [if_neg h4]
    refine iff_of_false hr.symm fun h => ?_
    have hgoes := h.1
    rcases r with _ | _ | _ | _ | _ | r
    · exact hr rfl
    · exact h1 hgoes
    · exact h2 hgoes
    · exact h3 hgoes
    · exact h4 hgoes
    · exact hgoes

/-! ## The passes -/

/-- A pass with the counter at `k`. -/
theorem fileScan_eq (i : Nat) : ∀ (fs : List File) (k : Nat), fileScan service name i fs k =
    match (fs.filter fun n => iFileMatch n service name = i)[k]? with
    | some n => .inl n
    | none => .inr (k - (fs.filter fun n => iFileMatch n service name = i).length : Int)
  | [], k => by simp [fileScan]
  | n :: fs, k => by
    by_cases hn : iFileMatch n service name = i
    · rw [List.filter_cons_of_pos (by simpa using hn), fileScan, if_pos hn]
      cases k with
      | zero => rfl
      | succ k =>
        rw [if_pos (by simp; omega), List.getElem?_cons_succ, List.length_cons]
        rw [show ((k + 1 : Nat) : Int) - 1 = (k : Int) by omega, fileScan_eq i fs k]
        cases (fs.filter fun n => iFileMatch n service name = i)[k]? with
        | some m => rfl
        | none =>
          show Sum.inr _ = Sum.inr _
          congr 1
          push_cast
          omega
    · rw [List.filter_cons_of_neg (by simpa using hn), fileScan, if_neg hn, fileScan_eq i fs k]

/-- All passes, with one counter. -/
theorem fileRanks_eq (is : List Nat) (k : Nat) : fileRanks service name fs is k =
    (buckets (fun n => iFileMatch n service name) is fs)[k]? := by
  induction is generalizing k with
  | nil => rfl
  | cons i is ih =>
    rw [fileRanks, fileScan_eq, buckets, List.flatMap_cons]
    by_cases hk : k < (fs.filter fun n => iFileMatch n service name = i).length
    · rw [List.getElem?_append_left hk, List.getElem?_eq_getElem hk]
    · have hk := Nat.not_lt.mp hk
      rw [List.getElem?_append_right hk, List.getElem?_eq_none hk]
      show fileRanks service name fs is _ = _
      rw [← Nat.cast_sub hk, ih, buckets]

theorem utilName2file_eq (fs : List File) (service : Nat) (name : Option CStr) (k : Nat) :
    utilName2file fs service name k = (filesByRank fs service name)[k]? := by
  have hranks : [1, 2, 3, 4].Pairwise (· < ·) := by decide
  have hsame : ∀ i ∈ [1, 2, 3, 4], (fs.filter fun n => iFileMatch n service name ≠ 0).filter
      (fun n => iFileMatch n service name = i) = fs.filter fun n => iFileMatch n service name = i := by
    intro i hi
    rw [List.filter_filter]
    refine List.filter_congr fun n _ => ?_
    by_cases hn : iFileMatch n service name = i
    · have : i ≠ 0 := by rintro rfl; simp at hi
      simp [hn, this]
    · simp [hn]
  rw [utilName2file, fileRanks_eq, filesByRank, ← buckets_eq_mergeSort hranks]
  · rw [buckets, buckets, List.flatMap_congr hsame]
  · intro n hn
    exact iFileMatch_mem (by simpa using (List.mem_filter.mp hn).2)

/-- **The best match**: the record at place `k` of the matching ones, in the order of
their ranks and of the list; none if `k + 1` do not match. With `k = 0` no better
record is passed over. -/
theorem name2file_best (fs : List File) (service : Nat) (name : Option CStr) (k : Nat) :
    (∀ n r, r ≠ 0 → (iFileMatch n service name = r ↔ n.HasRank service name r)) ∧
      utilName2file fs service name k = (filesByRank fs service name)[k]? ∧
      (utilName2file fs service name k = none ↔
        (fs.filter fun n => iFileMatch n service name ≠ 0).length < k + 1) ∧
      ∀ n, utilName2file fs service name 0 = some n → ∃ pre post, fs = pre ++ n :: post ∧
        (∀ m ∈ pre, iFileMatch m service name ≠ 0 →
          iFileMatch n service name < iFileMatch m service name) ∧
        ∀ m ∈ post, iFileMatch m service name ≠ 0 →
          iFileMatch n service name ≤ iFileMatch m service name := by
  refine ⟨fun n r hr => iFileMatch_iff hr, utilName2file_eq fs service name k, ?_, fun n hn => ?_⟩
  · rw [utilName2file_eq, List.getElem?_eq_none_iff, filesByRank, List.length_mergeSort, Nat.lt_succ_iff]
  · have hhead : (buckets (fun n => iFileMatch n service name) [1, 2, 3, 4] fs).head? = some n := by
      rw [List.head?_eq_getElem?, ← fileRanks_eq]
      exact hn
    obtain ⟨pre, post, hfs, -, hpre, hpost⟩ := buckets_head (by decide) hhead
    exact ⟨pre, post, hfs, fun m hm h0 => hpre m hm (iFileMatch_mem h0),
      fun m hm h0 => hpost m hm (iFileMatch_mem h0)⟩

end
end Bootd
