import Mathlib.Data.Finset.Card

/-!
# Tables of slots

A table is a list of options, indexed by slot number; a slot is in use when it
holds a value. `put` takes the lowest free slot and grows the table when there
is none (file descriptors), `push` always takes a new one (heap records that
are never reused), `clear` frees a slot and `update` changes a value in place.
`count p` is the number of slots in use whose value passes `p`, and `Owned P n`
says that there are `n` of those whose number satisfies `P`.
-/
namespace Bootd.Core.Slots

variable {α : Type} {xs : List (Option α)} {a b : α} {i j : Nat} {p : α → Bool}

def get (xs : List (Option α)) (i : Nat) : Option α := (xs[i]?).join

/-- The lowest free slot. -/
def free (xs : List (Option α)) : Nat := xs.findIdx Option.isNone

def put (xs : List (Option α)) (a : α) : List (Option α) :=
  xs.take (free xs) ++ some a :: xs.drop (free xs + 1)

def push (xs : List (Option α)) (a : α) : List (Option α) := xs ++ [some a]

def clear (xs : List (Option α)) (i : Nat) : List (Option α) := xs.set i none

def update (xs : List (Option α)) (i : Nat) (f : α → α) : List (Option α) :=
  xs.modify i (Option.map f)

def count (p : α → Bool) (xs : List (Option α)) : Nat := xs.countP (Option.any p)

theorem lt_of_get (h : get xs i = some a) : i < xs.length := by
  unfold get at h
  by_contra hn
  rw [List.getElem?_eq_none (by omega)] at h
  cases h

theorem get_eq_some : get xs i = some a ↔ xs[i]? = some (some a) := by
  unfold get
  cases xs[i]? with
  | none => simp
  | some o => simp

theorem get_none_of_le (h : xs.length ≤ i) : get xs i = none := by
  simp [get, List.getElem?_eq_none h]

theorem free_le (xs : List (Option α)) : free xs ≤ xs.length := List.findIdx_le_length

@[simp] theorem get_free (xs : List (Option α)) : get xs (free xs) = none := by
  by_cases h : free xs < xs.length
  · have := List.findIdx_getElem (w := h)
    simp only [Option.isNone_iff_eq_none] at this
    simp only [get, List.getElem?_eq_getElem h]
    exact congrArg Option.join (congrArg some this)
  · exact get_none_of_le (by omega)

theorem get_put (xs : List (Option α)) (a : α) (i : Nat) :
    get (put xs a) i = if i = free xs then some a else get xs i := by
  have hlen : (xs.take (free xs)).length = free xs := by simp [free_le]
  unfold put get
  rcases Nat.lt_trichotomy i (free xs) with h | h | h
  · rw [List.getElem?_append_left (by omega), List.getElem?_take_of_lt h, if_neg (by omega)]
  · subst h
    rw [List.getElem?_append_right (by omega), hlen]
    simp
  · rw [List.getElem?_append_right (by omega), hlen, if_neg (by omega)]
    obtain ⟨k, rfl⟩ : ∃ k, i = free xs + 1 + k := ⟨i - (free xs + 1), by omega⟩
    rw [show free xs + 1 + k - free xs = k + 1 by omega, List.getElem?_cons_succ,
      List.getElem?_drop]

theorem get_push (xs : List (Option α)) (a : α) (i : Nat) :
    get (push xs a) i = if i = xs.length then some a else get xs i := by
  unfold push get
  rcases Nat.lt_trichotomy i xs.length with h | h | h
  · rw [List.getElem?_append_left h, if_neg (by omega)]
  · subst h; simp
  · rw [List.getElem?_eq_none (by simp; omega), List.getElem?_eq_none (by omega), if_neg (by omega)]

theorem get_clear (xs : List (Option α)) (i j : Nat) :
    get (clear xs i) j = if j = i then none else get xs j := by
  unfold clear get
  rw [List.getElem?_set]
  by_cases h : i = j
  · subst h
    rw [if_pos rfl, if_pos rfl]
    split <;> rfl
  · rw [if_neg h, if_neg (Ne.symm h)]

theorem get_update (xs : List (Option α)) (i : Nat) (f : α → α) (j : Nat) :
    get (update xs i f) j = if j = i then (get xs j).map f else get xs j := by
  unfold update get
  rw [List.getElem?_modify]
  cases hx : xs[j]? with
  | none => by_cases h : j = i <;> simp [h]
  | some o =>
    by_cases h : i = j
    · subst h; simp
    · simp [h, Ne.symm h]

theorem update_update (xs : List (Option α)) (i : Nat) (f g : α → α) :
    update (update xs i f) i g = update xs i (g ∘ f) := by
  rw [update, update, List.modify_modify_eq, Option.map_comp_map, update]

/-! ## Counting -/

/-- A table around one of its slots. -/
theorem count_split (p : α → Bool) (h : i < xs.length) :
    count p xs = count p (xs.take i) + count p [xs[i]] + count p (xs.drop (i + 1)) := by
  conv_lhs => rw [← List.take_append_drop i xs, List.drop_eq_getElem_cons h]
  simp only [count, List.countP_append, List.countP_cons, List.countP_nil]
  omega

theorem getElem_of_get (h : get xs i = some a) (hi : i < xs.length) : xs[i] = some a := by
  have := get_eq_some.mp h
  rwa [List.getElem?_eq_getElem hi, Option.some_inj] at this

theorem count_put (p : α → Bool) (xs : List (Option α)) (a : α) :
    count p (put xs a) = count p xs + if p a then 1 else 0 := by
  have key : count p xs = count p (xs.take (free xs)) + count p (xs.drop (free xs + 1)) := by
    by_cases h : free xs < xs.length
    · have hx : xs[free xs] = none := Option.isNone_iff_eq_none.mp (List.findIdx_getElem (w := h))
      rw [count_split p h, hx]; rfl
    · rw [List.take_of_length_le (by omega), List.drop_eq_nil_of_le (by omega)]; rfl
  rw [key]
  simp only [count, put, List.countP_append, List.countP_cons, Option.any_some]
  omega

theorem count_push (p : α → Bool) (xs : List (Option α)) (a : α) :
    count p (push xs a) = count p xs + if p a then 1 else 0 := by
  simp [count, push, List.countP_append, List.countP_cons]

theorem count_clear (p : α → Bool) (h : get xs i = some a) :
    count p (clear xs i) + (if p a then 1 else 0) = count p xs := by
  have hi := lt_of_get h
  rw [count_split p hi, getElem_of_get h hi, clear, List.set_eq_take_cons_drop none hi]
  simp only [count, List.countP_append, List.countP_cons, List.countP_nil, Option.any_some,
    Option.any_none, Bool.false_eq_true, if_false]
  omega

/-- Changing a value in place, where the change does not decide `p`. -/
theorem count_update (p : α → Bool) (f : α → α) (h : ∀ a, get xs i = some a → p (f a) = p a) :
    count p (update xs i f) = count p xs := by
  by_cases hi : i < xs.length
  · rw [count_split p hi, update, List.modify_eq_take_cons_drop hi]
    have hx : count p [Option.map f xs[i]] = count p [xs[i]] := by
      cases hv : xs[i] with
      | none => rfl
      | some a =>
        have ha : get xs i = some a := get_eq_some.mpr (by rw [List.getElem?_eq_getElem hi, hv])
        simp [count, h a ha]
    simp only [count, List.countP_append, List.countP_cons, List.countP_nil] at hx ⊢
    omega
  · rw [update, List.modify_eq_self (by omega)]

/-! ## Slots with a property -/

/-- There are `n` slots in use whose numbers satisfy `P`. -/
def Owned (P : Nat → Prop) (xs : List (Option α)) (n : Nat) : Prop :=
  ∃ A : Finset Nat, A.card = n ∧ ∀ i ∈ A, P i ∧ ∃ a, get xs i = some a

variable {P P' : Nat → Prop} {n : Nat}

theorem owned_zero (P : Nat → Prop) (xs : List (Option α)) : Owned P xs 0 :=
  ⟨∅, rfl, fun _ hi => by cases hi⟩

theorem Owned.mono (h : Owned P xs n) (hP : ∀ i, P i → P' i) : Owned P' xs n := by
  obtain ⟨A, hA, h⟩ := h
  exact ⟨A, hA, fun i hi => ⟨hP i (h i hi).1, (h i hi).2⟩⟩

/-- Freeing a slot without the property. -/
theorem Owned.clear (h : Owned P xs n) (hi : ¬P i) : Owned P (clear xs i) n := by
  obtain ⟨A, hA, h⟩ := h
  refine ⟨A, hA, fun j hj => ⟨(h j hj).1, ?_⟩⟩
  rw [get_clear, if_neg]
  · exact (h j hj).2
  · intro e
    exact hi (e ▸ (h j hj).1)

theorem Owned.update (h : Owned P xs n) (i : Nat) (f : α → α) : Owned P (update xs i f) n := by
  obtain ⟨A, hA, h⟩ := h
  refine ⟨A, hA, fun j hj => ⟨(h j hj).1, ?_⟩⟩
  obtain ⟨a, ha⟩ := (h j hj).2
  rw [get_update]
  split
  · exact ⟨f a, by rw [ha]; rfl⟩
  · exact ⟨a, ha⟩

theorem Owned.push (h : Owned P xs n) (a : α) : Owned P (push xs a) n := by
  obtain ⟨A, hA, h⟩ := h
  refine ⟨A, hA, fun j hj => ⟨(h j hj).1, ?_⟩⟩
  obtain ⟨b, hb⟩ := (h j hj).2
  refine ⟨b, ?_⟩
  rw [get_push, if_neg (Nat.ne_of_lt (lt_of_get hb))]
  exact hb

/-- A new slot with the property. -/
theorem Owned.push_new (h : Owned P xs n) (a : α) (hP : P xs.length) :
    Owned P (Slots.push xs a) (n + 1) := by
  obtain ⟨A, hA, h⟩ := h
  have hnew : xs.length ∉ A := by
    intro hm
    obtain ⟨b, hb⟩ := (h _ hm).2
    exact Nat.lt_irrefl _ (lt_of_get hb)
  refine ⟨insert xs.length A, by rw [Finset.card_insert_of_notMem hnew, hA], fun j hj => ?_⟩
  rcases Finset.mem_insert.mp hj with rfl | hj
  · exact ⟨hP, a, by rw [get_push, if_pos rfl]⟩
  · obtain ⟨b, hb⟩ := (h j hj).2
    refine ⟨(h j hj).1, b, ?_⟩
    rw [get_push, if_neg (Nat.ne_of_lt (lt_of_get hb))]
    exact hb

theorem card_le_count {A : Finset Nat} (h : ∀ i ∈ A, ∃ a, get xs i = some a) :
    A.card ≤ count (fun _ => true) xs := by
  induction A using Finset.induction_on generalizing xs with
  | empty => exact Nat.zero_le _
  | insert i A hi ih =>
    obtain ⟨a, ha⟩ := h i (Finset.mem_insert_self i A)
    have hclear := count_clear (fun _ => true) ha
    have hrest : A.card ≤ count (fun _ => true) (Slots.clear xs i) := ih fun j hj => by
      have hji : j ≠ i := fun e => hi (e ▸ hj)
      rw [get_clear, if_neg hji]
      exact h j (Finset.mem_insert_of_mem hj)
    rw [Finset.card_insert_of_notMem hi]
    simp only [if_true] at hclear
    omega

theorem Owned.le_count (h : Owned P xs n) : n ≤ count (fun _ => true) xs := by
  obtain ⟨A, rfl, h⟩ := h
  exact card_le_count fun i hi => (h i hi).2

end Bootd.Core.Slots
