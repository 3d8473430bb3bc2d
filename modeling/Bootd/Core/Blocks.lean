import Mathlib.Data.List.Basic

/-!
# Cutting a list into blocks

`block b n xs` are the `b` elements of `xs` from `n * b` on, or what there is
of them. The list is its blocks one after the other, up to the first that is
short.

* `take_append_block`: the next block goes on from the first `k * b` elements.
* `flatten_blocks`: the first `k` blocks are the first `k * b` elements.
* `short_iff`: a block is short exactly from number `xs.length / b` on.
-/
namespace Bootd.Core.Blocks

variable {α : Type} (b n : Nat) (xs : List α)

def block : List α := (xs.drop (n * b)).take b

theorem length_block : (block b n xs).length = min b (xs.length - n * b) := by
  rw [block, List.length_take, List.length_drop]

theorem take_append_block : xs.take (n * b) ++ block b n xs = xs.take ((n + 1) * b) := by
  rw [block, ← List.take_add, Nat.succ_mul]

/-- The first `k` blocks, one after the other. -/
theorem flatten_blocks (k : Nat) :
    ((List.range k).map fun i => block b i xs).flatten = xs.take (k * b) := by
  induction k with
  | zero => simp
  | succ k ih =>
    rw [List.range_succ, List.map_append, List.flatten_append, ih, List.map_singleton,
      List.flatten_singleton, take_append_block]

variable {b n}

theorem short_iff (hb : 0 < b) : (block b n xs).length < b ↔ xs.length / b ≤ n := by
  rw [length_block, Nat.div_le_iff_le_mul_add_pred hb, Nat.mul_comm]
  omega

end Bootd.Core.Blocks
