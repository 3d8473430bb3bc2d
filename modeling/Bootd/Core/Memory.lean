import Mathlib.Data.List.Basic

/-!
# Strings in memory

A memory gives a value to every place. Writes are pairs of a place and a value, in the
order in which they are made. A string is a list without zeroes, with a zero behind it.

* `after_along`: the memory after a list was written from some place on.
* `scan_iff`: what is found from a place on, up to the first zero.
* `Spells.apart`: writing elsewhere does not change it.
-/
namespace Bootd.Core.Memory

variable {α : Type}

/-- The memory after some writes. -/
def after (us : List (Nat × α)) (m : Nat → α) : Nat → α :=
  us.foldl (fun m u j => if j = u.1 then u.2 else m j) m

/-- The writes of a list, from place `p` on. -/
def along : Nat → List α → List (Nat × α)
  | _, [] => []
  | p, a :: s => (p, a) :: along (p + 1) s

/-- The list stands in the memory, from place `p` on. -/
def Spells (m : Nat → α) : Nat → List α → Prop
  | _, [] => True
  | p, a :: s => m p = a ∧ Spells m (p + 1) s

/-- The values in front of the first zero, which is looked for in `n` places. -/
def scan [OfNat α 0] [DecidableEq α] (m : Nat → α) : Nat → Nat → Option (List α)
  | _, 0 => none
  | p, n + 1 => if m p = 0 then some [] else (scan m (p + 1) n).map (m p :: ·)

section
variable {m : Nat → α} {p q n j : Nat} {a : α} {s t : List α} {us vs : List (Nat × α)}

@[simp] theorem after_nil : after [] m = m := rfl

@[simp] theorem after_append : after (us ++ vs) m = after vs (after us m) := List.foldl_append

@[simp] theorem after_cons (u : Nat × α) :
    after (u :: us) m = after us fun j => if j = u.1 then u.2 else m j := rfl

/-- A place that nothing is written to. -/
theorem after_of_notMem (h : ∀ u ∈ us, u.1 ≠ j) : after us m j = m j := by
  induction us generalizing m with
  | nil => rfl
  | cons u us ih =>
    obtain ⟨hu, hus⟩ := List.forall_mem_cons.mp h
    rw [after_cons, ih hus, if_neg (Ne.symm hu)]

theorem along_append : along p (s ++ t) = along p s ++ along (p + s.length) t := by
  induction s generalizing p with
  | nil => rfl
  | cons a s ih => simp [along, ih, Nat.add_comm 1, Nat.add_assoc]

/-- The values that are written. -/
theorem map_along (p : Nat) (s : List α) : (along p s).map Prod.snd = s := by
  induction s generalizing p with
  | nil => rfl
  | cons a s ih => rw [along, List.map_cons, ih]

theorem mem_along {u : Nat × α} (h : u ∈ along p s) : p ≤ u.1 ∧ u.1 < p + s.length := by
  induction s generalizing p with
  | nil => cases h
  | cons a s ih =>
    rw [List.length_cons]
    rcases List.mem_cons.mp h with rfl | h
    · dsimp only
      omega
    · have := ih h
      omega

/-- The last place that is written to. -/
theorem along_last (hs : s ≠ []) : ∃ a, (p + s.length - 1, a) ∈ along p s := by
  obtain ⟨t, a, rfl⟩ := (List.eq_nil_or_concat' s).resolve_left hs
  exact ⟨a, by simp [along_append, along]⟩

theorem along_inside : (∀ u ∈ along p s, u.1 < n) ↔ s = [] ∨ p + s.length ≤ n := by
  constructor
  · intro h
    by_cases hs : s = []
    · exact .inl hs
    · obtain ⟨a, ha⟩ := along_last (p := p) hs
      have := h _ ha
      dsimp only at this
      omega
  · rintro (rfl | hle) u hu
    · cases hu
    · have := (mem_along hu).2
      omega

/-- **After a list was written**: the list, and around it what was there. -/
theorem after_along : after (along p s) m j = if p ≤ j then s[j - p]?.getD (m j) else m j := by
  induction s generalizing p m with
  | nil => simp [along]
  | cons a s ih =>
    rw [along, after_cons, ih]
    rcases Nat.lt_trichotomy j p with hlt | rfl | hgt
    · rw [if_neg (by omega), if_neg (by omega), if_neg (by omega)]
    · rw [if_neg (by omega), if_pos (Nat.le_refl j), if_pos rfl, Nat.sub_self]
      rfl
    · obtain ⟨k, rfl⟩ := Nat.exists_eq_add_of_lt hgt
      rw [if_pos (show p + 1 ≤ p + k + 1 by omega), if_pos (show p ≤ p + k + 1 by omega),
        if_neg (show p + k + 1 ≠ p by omega), show p + k + 1 - (p + 1) = k by omega,
        show p + k + 1 - p = k + 1 by omega, List.getElem?_cons_succ]

/-! ## Lists that stand in memory -/

theorem spells_append : Spells m p (s ++ t) ↔ Spells m p s ∧ Spells m (p + s.length) t := by
  induction s generalizing p with
  | nil => simp [Spells]
  | cons a s ih => simp [Spells, ih, and_assoc, Nat.add_comm 1, Nat.add_assoc]

theorem Spells.congr {m' : Nat → α} (h : Spells m p s) (heq : ∀ j, p ≤ j → j < p + s.length → m' j = m j) :
    Spells m' p s := by
  induction s generalizing p with
  | nil => trivial
  | cons a s ih =>
    rw [List.length_cons] at heq
    obtain ⟨ha, hs⟩ := h
    exact ⟨(heq p (Nat.le_refl p) (by omega)).trans ha, ih hs fun j hp hj => heq j (by omega) (by omega)⟩

theorem spells_along (m : Nat → α) (p : Nat) (s : List α) : Spells (after (along p s) m) p s := by
  induction s generalizing p m with
  | nil => trivial
  | cons a s ih =>
    refine ⟨?_, ih _ _⟩
    rw [after_along, if_pos (Nat.le_refl p), Nat.sub_self]
    rfl

/-- **Writing elsewhere.** -/
theorem Spells.apart (h : Spells m p s) (hapart : p + s.length ≤ q ∨ q + t.length ≤ p) :
    Spells (after (along q t) m) p s := by
  refine h.congr fun j hp hj => after_of_notMem fun u hu he => ?_
  have := mem_along hu
  omega

variable [OfNat α 0] [DecidableEq α]

/-- **What a scan finds** is the string from that place on. -/
theorem scan_iff : scan m p n = some s ↔ Spells m p (s ++ [0]) ∧ 0 ∉ s ∧ s.length < n := by
  induction n generalizing p s with
  | zero => simp [scan]
  | succ n ih =>
    unfold scan
    cases s with
    | nil => by_cases h0 : m p = 0 <;> simp [h0, Spells]
    | cons a s =>
      by_cases h0 : m p = 0
      · simp only [h0, if_true, Option.some.injEq, reduceCtorEq, List.cons_append, Spells, false_iff]
        rintro ⟨⟨rfl, -⟩, hnot, -⟩
        exact hnot List.mem_cons_self
      · simp only [h0, if_false, Option.map_eq_some_iff, ih, List.cons_append, Spells, List.cons.injEq,
          List.mem_cons, not_or, List.length_cons, Nat.add_lt_add_iff_right]
        constructor
        · rintro ⟨s, ⟨hs, hnot, hlt⟩, rfl, rfl⟩
          exact ⟨⟨rfl, hs⟩, ⟨Ne.symm h0, hnot⟩, hlt⟩
        · rintro ⟨⟨rfl, hs⟩, ⟨-, hnot⟩, hlt⟩
          exact ⟨s, ⟨hs, hnot, hlt⟩, rfl, rfl⟩

/-- There is one string at a place. -/
theorem spells_inj (hs : Spells m p (s ++ [0])) (ht : Spells m p (t ++ [0])) (hs0 : 0 ∉ s) (ht0 : 0 ∉ t) : s = t := by
  have hs := scan_iff.mpr ⟨hs, hs0, show s.length < s.length + t.length + 1 by omega⟩
  have ht := scan_iff.mpr ⟨ht, ht0, show t.length < s.length + t.length + 1 by omega⟩
  exact Option.some.inj (hs.symm.trans ht)

/-- A string that was written. -/
theorem scan_along (h0 : 0 ∉ s) (hn : s.length < n) : scan (after (along p (s ++ [0])) m) p n = some s :=
  scan_iff.mpr ⟨spells_along m p (s ++ [0]), h0, hn⟩

end
end Bootd.Core.Memory
