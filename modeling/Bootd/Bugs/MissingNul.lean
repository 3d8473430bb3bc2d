import Bootd.Config.StringCopy

/-!
# `strncpy` puts its NUL behind the array

The loop of the program's `strncpy` (src/replace.c:12-17) leaves the last byte of the
array to the NUL. If the source goes on, the NUL is stored to `dst[size]`, one place
behind the array (src/replace.c:19), and if the source ends there, the last byte is not
written at all: the loop has ended before it comes to the NUL of the source. The callers
pass the sizes of their arrays; only `parse_string_add` stores a NUL of its own behind the
call (src/parse.c:95-96).

Counterexample: three characters for an array of two (`nul_behind_array`).

`strncpy_bounds_iff`: when a copy is as it should be.
-/
namespace Bootd

open Bootd.Core

/-- A call writes only the array, leaves as much of the source there as fits, with a NUL behind it, and returns
the length of the source. -/
def CopiesWithin (src : CStr) (size : UInt64) (dst : Nat → UInt8) : Prop :=
  ∃ us ret, strncpyStores src size = some (us, ret) ∧ (∀ u ∈ us, u.1 < size.toNat) ∧
    Memory.scan (Memory.after us dst) 0 size.toNat = some (src.take (size.toNat - 1)) ∧ ret = src.length

section
variable {src : CStr} {size : UInt64} {dst : Nat → UInt8}

/-- Room for the source and one byte more. -/
theorem copy_room (h0 : 0 ∉ src) (hint : src.length < 2 ^ 31) (h : src.length + 1 < size.toNat) :
    CopiesWithin src size dst := by
  have hs : 1 ≤ size := UInt64.le_iff_toNat_le.mpr (by show 1 ≤ size.toNat; omega)
  have hlen : (src ++ [0]).length ≤ size.toNat - 1 := by
    rw [List.length_append, List.length_singleton]
    omega
  refine ⟨_, _, (strncpyStores_run src size).trans (if_pos hint), ?_, ?_, rfl⟩
  · rw [size_pred hs, if_neg (by omega), List.append_nil, List.take_of_length_le hlen, Memory.along_inside]
    exact .inr (by omega)
  · rw [size_pred hs, if_neg (by omega), List.append_nil, List.take_of_length_le hlen,
      List.take_of_length_le (by omega)]
    exact Memory.scan_along h0 (by omega)

/-- Room for the source and its NUL, which is not written. -/
theorem copy_exact (h0 : 0 ∉ src) (hint : src.length < 2 ^ 31) (h : src.length + 1 = size.toNat) :
    CopiesWithin src size dst ↔ dst src.length = 0 := by
  have hs : 1 ≤ size := UInt64.le_iff_toNat_le.mpr (by show 1 ≤ size.toNat; omega)
  have htake : (src ++ [0]).take (size.toNat - 1) = src := by
    rw [← h, Nat.add_sub_cancel, List.take_left']
    rfl
  have htake' : src.take (size.toNat - 1) = src := List.take_of_length_le (by omega)
  have hrun : strncpyStores src size = some (Memory.along 0 src, src.length) := by
    rw [strncpyStores_run, if_pos hint, size_pred hs, htake, if_neg (by omega), List.append_nil]
  have hlast : Memory.after (Memory.along 0 src) dst src.length = dst src.length := by
    rw [Memory.after_along, if_pos (Nat.zero_le _), List.getElem?_eq_none (by omega)]
    rfl
  have hscan : Memory.scan (Memory.after (Memory.along 0 src) dst) 0 size.toNat = some src ↔
      dst src.length = 0 := by
    rw [Memory.scan_iff, Memory.spells_append, Nat.zero_add]
    simp only [Memory.spells_along, Memory.Spells, hlast, true_and, and_true]
    exact and_iff_left ⟨h0, by omega⟩
  rw [← hscan, CopiesWithin]
  simp only [hrun, Option.some.injEq, Prod.mk.injEq]
  constructor
  · rintro ⟨us, ret, ⟨rfl, rfl⟩, -, h, -⟩
    rwa [htake'] at h
  · intro h
    refine ⟨_, _, ⟨rfl, rfl⟩, ?_, ?_, rfl⟩
    · rw [Memory.along_inside]
      exact .inr (by omega)
    · rwa [htake']

/-- A longer source. -/
theorem copy_outside (hs : 1 ≤ size) (h : size.toNat ≤ src.length) : ¬CopiesWithin src size dst := by
  rintro ⟨us, ret, hrun, hin, -⟩
  rw [strncpyStores_run, size_pred hs] at hrun
  split at hrun
  · cases hrun
    have hpos : 1 ≤ size.toNat := UInt64.le_iff_toNat_le.mp hs
    rw [if_pos (by omega)] at hin
    exact Nat.lt_irrefl _ (hin (size.toNat, 0) (List.mem_append_right _ (List.mem_singleton_self _)))
  · cases hrun

end

/-- **When a copy is inside the array and complete**: there is room for the source and one byte more, or just
for its NUL and there is one already. -/
theorem strncpy_bounds_iff (src : CStr) (size : UInt64) (dst : Nat → UInt8) (h0 : 0 ∉ src) (hs : 1 ≤ size) :
    CopiesWithin src size dst ↔ src.length < 2 ^ 31 ∧
      (src.length + 1 < size.toNat ∨ src.length + 1 = size.toNat ∧ dst src.length = 0) := by
  have hpos : 1 ≤ size.toNat := UInt64.le_iff_toNat_le.mp hs
  by_cases hint : src.length < 2 ^ 31
  · rw [and_iff_right hint]
    rcases Nat.lt_trichotomy (src.length + 1) size.toNat with h | h | h
    · exact iff_of_true (copy_room h0 hint h) (.inl h)
    · rw [copy_exact h0 hint h, or_iff_right h.not_lt, and_iff_right h]
    · exact iff_of_false (copy_outside hs (by omega)) (by omega)
  · refine iff_of_false ?_ fun h => hint h.1
    rintro ⟨us, ret, hrun, -⟩
    rw [strncpyStores_run, if_neg hint] at hrun
    cases hrun

/-- `eth0` fits into five bytes if the last is a NUL already. -/
theorem copy_exact_zeroed : CopiesWithin (cstr "eth0") 5 (fun _ => 0) :=
  (strncpy_bounds_iff (cstr "eth0") 5 (fun _ => 0) (by decide) (by decide)).mpr (by decide)

/-- **Counterexample**: three characters for an array of two. -/
theorem nul_behind_array : ¬∀ (src : CStr) (size : UInt64) (dst : Nat → UInt8), 0 ∉ src → 1 ≤ size →
    CopiesWithin src size dst := by
  intro hall
  exact copy_outside (by decide) (by decide) (hall (cstr "tap") 2 (fun _ => 0) (by decide) (by decide))

end Bootd
