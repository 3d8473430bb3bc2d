import Mathlib.Data.List.Basic

/-!
# Sorting by buckets

`buckets key is l` goes over the keys `is` and takes, for each, the elements of
`l` that have it. One pass over the list for each key, best key first, is a
stable sort:

* `buckets_eq_mergeSort`: with all keys of `l` in `is`, and `is` in order, the
  buckets are `l` sorted by key, elements of one key in the order of `l`.
* `buckets_head`: of the elements with a key in `is`, the first one has the least
  key, and is the first in `l` that has it.
-/
namespace Bootd.Core

variable {α : Type} {key : α → Nat} {is : List Nat} {l : List α} {a : α}

def buckets (key : α → Nat) (is : List Nat) (l : List α) : List α :=
  is.flatMap fun i => l.filter fun a => key a = i

/-- Earlier keys come first. -/
def byKey (key : α → Nat) (a b : α) : Bool := decide (key a ≤ key b)

/-- A list in order of its keys begins with the elements of the least one. -/
theorem sorted_split {i : Nat} (hs : l.Pairwise fun a b => key a ≤ key b) (hi : ∀ a ∈ l, i ≤ key a) :
    l = (l.filter fun a => key a = i) ++ l.filter fun a => ¬key a = i := by
  induction l with
  | nil => rfl
  | cons a l ih =>
    obtain ⟨ha, hs⟩ := List.pairwise_cons.mp hs
    have hrest := ih hs fun b hb => hi b (List.mem_cons_of_mem _ hb)
    by_cases hk : key a = i
    · rw [List.filter_cons_of_pos (by simpa using hk), List.filter_cons_of_neg (by simpa using hk)]
      exact congrArg (a :: ·) hrest
    · -- nothing of key `i` can follow
      have hlt : i < key a := Nat.lt_of_le_of_ne (hi a List.mem_cons_self) (Ne.symm hk)
      have hnone : (a :: l).filter (fun a => key a = i) = [] := by
        refine List.filter_eq_nil_iff.mpr fun b hb => ?_
        rcases List.mem_cons.mp hb with rfl | hb
        · simpa using hk
        · have := ha b hb
          simp only [decide_eq_true_eq]
          omega
      rw [hnone, List.nil_append, eq_comm, List.filter_eq_self]
      intro b hb
      rcases List.mem_cons.mp hb with rfl | hb
      · simpa using hk
      · have := ha b hb
        simp only [decide_not, Bool.not_eq_true', decide_eq_false_iff_not]
        omega

/-- A list in order of its keys is its buckets. -/
theorem sorted_eq_buckets (his : is.Pairwise (· < ·)) (hs : l.Pairwise fun a b => key a ≤ key b)
    (hk : ∀ a ∈ l, key a ∈ is) : l = buckets key is l := by
  induction is generalizing l with
  | nil =>
    cases l with
    | nil => rfl
    | cons a l => cases hk a List.mem_cons_self
  | cons i is ih =>
    obtain ⟨hi, his⟩ := List.pairwise_cons.mp his
    have hle : ∀ a ∈ l, i ≤ key a := by
      intro a ha
      rcases List.mem_cons.mp (hk a ha) with h | h
      · exact Nat.le_of_eq h.symm
      · exact Nat.le_of_lt (hi _ h)
    have hrest := ih (l := l.filter fun a => ¬key a = i) his (hs.sublist List.filter_sublist) fun a ha => by
      obtain ⟨ha, hne⟩ := List.mem_filter.mp ha
      exact (List.mem_cons.mp (hk a ha)).resolve_left (by simpa using hne)
    have hsame : ∀ j ∈ is, (l.filter fun a => ¬key a = i).filter (fun a => key a = j) =
        l.filter fun a => key a = j := by
      intro j hj
      rw [List.filter_filter]
      refine List.filter_congr fun a _ => ?_
      have := hi j hj
      by_cases h : key a = j
      · simp only [h, decide_true, Bool.true_and, decide_eq_true_eq]
        omega
      · simp [h]
    conv_lhs => rw [sorted_split hs hle, hrest]
    rw [buckets, buckets, List.flatMap_cons]
    exact congrArg _ (List.flatMap_congr hsame)

/-- Sorting leaves the elements of one key in their order. -/
theorem filter_mergeSort (i : Nat) : (l.mergeSort (byKey key)).filter (fun a => key a = i) =
    l.filter fun a => key a = i := by
  have htrans : ∀ a b c : α, byKey key a b = true → byKey key b c = true → byKey key a c = true := by
    simp only [byKey, decide_eq_true_eq]
    omega
  have htotal : ∀ a b : α, (byKey key a b || byKey key b a) = true := by
    intro a b
    simp only [byKey, Bool.or_eq_true, decide_eq_true_eq]
    omega
  have hsub : (l.filter fun a => key a = i).Sublist (l.mergeSort (byKey key)) := by
    refine List.sublist_mergeSort htrans htotal ?_ List.filter_sublist
    refine List.pairwise_iff_forall_sublist.mpr fun {a b} hab => ?_
    have hmem := hab.subset
    have ha : key a = i := by simpa using (List.mem_filter.mp (hmem (by simp : a ∈ [a, b]))).2
    have hb : key b = i := by simpa using (List.mem_filter.mp (hmem (by simp : b ∈ [a, b]))).2
    simp [byKey, ha, hb]
  have hfilter := hsub.filter fun a => key a = i
  rw [List.filter_filter] at hfilter
  simp only [Bool.and_self] at hfilter
  refine (hfilter.eq_of_length ?_).symm
  exact ((List.mergeSort_perm l (byKey key)).filter _).length_eq.symm

/-- **One pass for each key is a stable sort.** -/
theorem buckets_eq_mergeSort (his : is.Pairwise (· < ·)) (hk : ∀ a ∈ l, key a ∈ is) :
    buckets key is l = l.mergeSort (byKey key) := by
  have hs : (l.mergeSort (byKey key)).Pairwise fun a b => key a ≤ key b := by
    refine (List.pairwise_mergeSort ?_ ?_ l).imp fun h => by simpa [byKey] using h
    · simp only [byKey, decide_eq_true_eq]
      omega
    · intro a b
      simp only [byKey, Bool.or_eq_true, decide_eq_true_eq]
      omega
  rw [sorted_eq_buckets his hs fun a ha => hk a (List.mem_mergeSort.mp ha)]
  exact List.flatMap_congr fun i _ => (filter_mergeSort i).symm

/-- What comes first is passed over by nothing. -/
theorem buckets_head (his : is.Pairwise (· < ·)) (h : (buckets key is l).head? = some a) :
    ∃ pre post, l = pre ++ a :: post ∧ key a ∈ is ∧ (∀ b ∈ pre, key b ∈ is → key a < key b) ∧
      ∀ b ∈ post, key b ∈ is → key a ≤ key b := by
  induction is with
  | nil => cases h
  | cons i is ih =>
    obtain ⟨hi, his⟩ := List.pairwise_cons.mp his
    rw [buckets, List.flatMap_cons] at h
    cases hf : l.filter fun a => key a = i with
    | nil =>
      rw [hf, List.nil_append] at h
      obtain ⟨pre, post, rfl, ha, hpre, hpost⟩ := ih his h
      have hnone : ∀ b ∈ pre ++ a :: post, key b ≠ i := fun b hb => by
        simpa using List.filter_eq_nil_iff.mp hf b hb
      refine ⟨pre, post, rfl, List.mem_cons_of_mem _ ha, fun b hb hk => ?_, fun b hb hk => ?_⟩
      · exact hpre b hb ((List.mem_cons.mp hk).resolve_left (hnone b (by simp [hb])))
      · exact hpost b hb ((List.mem_cons.mp hk).resolve_left (hnone b (by simp [hb])))
    | cons b bs =>
      rw [hf] at h
      cases h
      obtain ⟨pre, post, rfl, hpre, ha, -⟩ := List.filter_eq_cons_iff.mp hf
      have ha : key a = i := by simpa using ha
      refine ⟨pre, post, rfl, by simp [ha], fun b hb hk => ?_, fun b _ hk => ?_⟩
      · have hne : key b ≠ i := by simpa using hpre b hb
        exact ha ▸ hi _ ((List.mem_cons.mp hk).resolve_left hne)
      · rcases List.mem_cons.mp hk with h | h
        · omega
        · have := hi _ h
          omega

end Bootd.Core
