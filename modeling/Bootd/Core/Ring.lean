import Mathlib.Logic.Function.Basic

/-!
# Ring buffers

`items t n i k` are the contents of the `k` slots from `i` on in a ring of `n`
slots, in order.

* `items_push`: what was stored behind them comes last.
* `items_pop`: the first of them is the one at `i`.
-/
namespace Bootd.Core.Ring

variable {α β : Type}

/-- The slot behind `i`. -/
def succ (n i : Nat) : Nat := if n ≤ i + 1 then 0 else i + 1

def items (t : Nat → α) (n i k : Nat) : List α := (List.range k).map fun j => t ((i + j) % n)

theorem succ_eq {n i : Nat} (hi : i < n) : succ n i = (i + 1) % n := by
  unfold succ
  split
  · rw [show i + 1 = n by omega, Nat.mod_self]
  · rw [Nat.mod_eq_of_lt (by omega)]

theorem succ_lt {n i : Nat} (hi : i < n) : succ n i < n := by
  rw [succ_eq hi]
  exact Nat.mod_lt _ (by omega)

/-- Fewer than `n` steps do not lead to the same slot. -/
theorem mod_ne {n i j k : Nat} (hi : i < n) (hj : j < k) (hk : k < n) : (i + j) % n ≠ (i + k) % n := by
  have hmod : ∀ {m}, m < n → (i + m) % n = if i + m < n then i + m else i + m - n := by
    intro m hm
    split
    · exact Nat.mod_eq_of_lt ‹_›
    · rw [Nat.mod_eq_sub_mod (by omega), Nat.mod_eq_of_lt (by omega)]
  rw [hmod (by omega), hmod hk]
  split <;> split <;> omega

@[simp] theorem items_zero (t : Nat → α) (n i : Nat) : items t n i 0 = [] := rfl

@[simp] theorem items_length (t : Nat → α) (n i k : Nat) : (items t n i k).length = k := by
  simp [items]

theorem items_pop (t : Nat → α) {n i : Nat} (k : Nat) (hi : i < n) :
    items t n i (k + 1) = t i :: items t n (succ n i) k := by
  unfold items
  rw [List.range_succ_eq_map, List.map_cons, List.map_map, Nat.add_zero, Nat.mod_eq_of_lt hi, succ_eq hi]
  congr 1
  refine List.map_congr_left fun j _ => ?_
  simp only [Function.comp_apply, Nat.mod_add_mod]
  congr 2
  omega

/-- A slot that is not among them may change. -/
theorem items_update (t : Nat → α) {n i k : Nat} (a : α) (hi : i < n) (hk : k < n) :
    items (Function.update t ((i + k) % n) a) n i k = items t n i k := by
  unfold items
  refine List.map_congr_left fun j hj => ?_
  exact Function.update_of_ne (mod_ne hi (List.mem_range.mp hj) hk) _ _

theorem items_push (t : Nat → α) {n i k : Nat} (a : α) (hi : i < n) (hk : k < n) :
    items (Function.update t ((i + k) % n) a) n i (k + 1) = items t n i k ++ [a] := by
  rw [← items_update t a hi hk]
  unfold items
  rw [List.range_succ, List.map_append, List.map_singleton, Function.update_self]

end Bootd.Core.Ring
