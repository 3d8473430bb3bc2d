import Bootd.Config.Source
import Bootd.Core.Memory

/-!
# The program's `strncpy`, store by store (`replace.c`)

`strncpy` of `Source.lean` gives the buffer as a whole. Here every store to `dst` stands
in a list with its place, as the loop makes it, so that one outside of the array can be
seen. The source is what `src + i` points at: the characters up to the NUL.

`i` is an `int`, `size` a `size_t`. If `i` overflows, the run has no result.

* `copyLoop_run`: the loop stores the first `size - 1` bytes of the source, its NUL included.
* `strncpyStores_run`: what a call stores and returns.
* `strncpyStores_buf`: the stores leave what `strncpy` says.
-/
namespace Bootd

open Bootd.Core

/-- A store to an array: the place and the byte. -/
abbrev ByteStore := Nat × UInt8

/-- `i++` for an `int` -/
def intSucc (i : Nat) : Option Nat := if i + 1 < 2 ^ 31 then some (i + 1) else none

/-- The loop: its stores, and `i` and the rest of the source behind it.
mirrors src/replace.c:12-17 -/
def copyLoop (size : UInt64) : Nat → CStr → Option (List ByteStore × Nat × CStr)
  | i, src =>
    -- `i` is converted to `size_t` for the comparison
    if i < (size - 1).toNat then
      match src with
      | [] => some ([(i, 0)], i, [])
      | c :: src => do
        let (us, last, rest) ← copyLoop size (← intSucc i) src
        some ((i, c) :: us, last, rest)
    else some ([], i, src)

/-- mirrors src/replace.c:20-22 -/
def copyRest : Nat → CStr → Option Nat
  | i, [] => some i
  | i, _ :: src => do copyRest (← intSucc i) src

/-- The stores of a call, and what it returns. mirrors src/replace.c:7-26 -/
def strncpyStores (src : CStr) (size : UInt64) : Option (List ByteStore × Nat) := do
  let (us, i, rest) ← copyLoop size 0 src
  match rest with
  | [] => some (us, i)
  | _ :: _ => some (us ++ [(size.toNat, 0)], ← copyRest i rest)

section
variable {src : CStr} {size : UInt64} {i n : Nat}

theorem copyRest_run (hi : i < 2 ^ 31) (src : CStr) :
    copyRest i src = if i + src.length < 2 ^ 31 then some (i + src.length) else none := by
  induction src generalizing i with
  | nil => exact (if_pos hi).symm
  | cons c src ih =>
    have hlen : i + 1 + src.length = i + (c :: src).length := by
      rw [List.length_cons]
      omega
    unfold copyRest intSucc
    by_cases h : i + 1 < 2 ^ 31
    · rw [if_pos h, Option.bind_eq_bind, Option.bind_some, ih h, hlen]
    · rw [if_neg h, if_neg (by omega)]
      rfl

/-- **The loop** stores the source as far as there is room for it, with its NUL. -/
theorem copyLoop_run (hi : i < 2 ^ 31) (src : CStr) :
    copyLoop size i src =
      if i + min src.length ((size - 1).toNat - i) < 2 ^ 31 then
        some (Memory.along i ((src ++ [0]).take ((size - 1).toNat - i)),
          i + min src.length ((size - 1).toNat - i), src.drop ((size - 1).toNat - i))
      else none := by
  generalize hn : (size - 1).toNat = n
  induction src generalizing i with
  | nil =>
    unfold copyLoop
    rw [hn]
    split
    · rename_i hlt
      obtain ⟨k, hk⟩ : ∃ k, n - i = k + 1 := ⟨n - i - 1, by omega⟩
      simpa [hk, Memory.along] using hi
    · rename_i hge
      simpa [show n - i = 0 by omega, Memory.along] using hi
  | cons c src ih =>
    unfold copyLoop
    rw [hn]
    split
    · rename_i hlt
      obtain ⟨k, hk⟩ : ∃ k, n - i = k + 1 := ⟨n - i - 1, by omega⟩
      have hmin : i + min (c :: src).length (n - i) = i + 1 + min src.length (n - (i + 1)) := by
        rw [List.length_cons]
        omega
      rw [hmin, hk]
      dsimp only
      unfold intSucc
      by_cases h : i + 1 < 2 ^ 31
      · rw [if_pos h, Option.bind_eq_bind, Option.bind_some, ih h, show n - (i + 1) = k by omega]
        split <;> rfl
      · rw [if_neg h, if_neg (by omega)]
        rfl
    · rename_i hge
      simpa [show n - i = 0 by omega, Memory.along] using hi

/-- **A call** has a result if the source is as long as an `int` can say. -/
theorem strncpyStores_run (src : CStr) (size : UInt64) :
    strncpyStores src size =
      if src.length < 2 ^ 31 then
        some (Memory.along 0 ((src ++ [0]).take (size - 1).toNat) ++
          if (size - 1).toNat < src.length then [(size.toNat, 0)] else [], src.length)
      else none := by
  unfold strncpyStores
  rw [copyLoop_run (by decide)]
  generalize (size - 1).toNat = n
  simp only [Nat.zero_add, Nat.sub_zero]
  by_cases hlong : n < src.length
  · obtain ⟨c, rest, hrest⟩ := List.exists_cons_of_ne_nil (l := src.drop n) (by simpa using hlong)
    have hlen : n + (c :: rest).length = src.length := by
      rw [← hrest, List.length_drop]
      omega
    rw [Nat.min_eq_right hlong.le, if_pos hlong]
    by_cases hn : n < 2 ^ 31
    · rw [if_pos hn, Option.bind_eq_bind, Option.bind_some]
      simp only [hrest, copyRest_run hn, hlen]
      split <;> rfl
    · rw [if_neg hn, if_neg (by omega)]
      rfl
  · rw [Nat.min_eq_left (Nat.le_of_not_lt hlong), if_neg hlong, List.append_nil]
    split
    · simp only [Option.bind_eq_bind, Option.bind_some, List.drop_of_length_le (Nat.le_of_not_lt hlong)]
    · rfl

/-- `size - 1` does not wrap round. -/
theorem size_pred (hs : 1 ≤ size) : (size - 1).toNat = size.toNat - 1 :=
  UInt64.toNat_sub_of_le _ _ hs

/-- A list with old bytes behind it. -/
theorem after_along_buf (s : List UInt8) (w : Buf) (j : Nat) :
    Memory.after (Memory.along 0 s) (w.getD · 0) j = (s ++ w.drop s.length).getD j 0 := by
  simp only [Memory.after_along, Nat.zero_le, if_true, Nat.sub_zero, List.getD_eq_getElem?_getD,
    List.getElem?_append]
  split
  · rename_i hlt
    rw [List.getElem?_eq_getElem hlt]
    rfl
  · rename_i hge
    rw [List.getElem?_eq_none (by omega), List.getElem?_drop, Nat.add_sub_cancel' (Nat.le_of_not_lt hge)]
    rfl

/-- **The stores leave the buffer** as `strncpy` says. -/
theorem strncpyStores_buf (hs : 1 ≤ size) {us : List ByteStore} {ret : Nat}
    (hrun : strncpyStores src size = some (us, ret)) (w : Buf) (j : Nat) :
    Memory.after us (w.getD · 0) j = (strncpy w src size.toNat).getD j 0 := by
  have hpos : 1 ≤ size.toNat := UInt64.le_iff_toNat_le.mp hs
  have hlen : ((src ++ [0]).take (size.toNat - 1)).length = min (src.length + 1) (size.toNat - 1) := by
    rw [List.length_take, List.length_append, List.length_singleton, Nat.min_comm]
  have hcopy := after_along_buf ((src ++ [0]).take (size.toNat - 1)) w j
  rw [hlen] at hcopy
  rw [strncpyStores_run] at hrun
  split at hrun
  · cases hrun
    unfold strncpy
    rw [size_pred hs, Memory.after_append]
    by_cases hlong : size.toNat ≤ src.length
    · rw [if_pos (by omega), if_pos hlong]
      show (if j = size.toNat then 0 else Memory.after _ _ j) = _
      rw [hcopy, List.getD_eq_getElem?_getD, List.getD_eq_getElem?_getD, List.getElem?_set]
      by_cases hj : size.toNat = j
      · rw [if_pos hj.symm, if_pos hj]
        split <;> rfl
      · rw [if_neg (Ne.symm hj), if_neg hj]
    · rw [if_neg (by omega), if_neg hlong]
      exact hcopy
  · cases hrun

end
end Bootd
