import Mathlib.Algebra.Order.Ring.Int

/-!
# The lowest bit of a word

A word is shifted to the right until its bit 0 is set, by fewer than `n` places; `n`
says that none of the first `n` bits is.

* `shift_lowest`: what the search finds.
* `LowestAt.unique`: there is one lowest bit.
* `lowest_bit`: the words with one bit.
-/
namespace Bootd.Core.LowBit

variable {w : Nat}

/-- The search. -/
def shift (x : BitVec w) (n : Nat) : Nat := ((List.range n).find? fun i => x.sshiftRight i &&& 1#w ≠ 0).getD n

/-- Bit `k` is the lowest of the first `n` bits that is set, or `k` is `n`. -/
structure LowestAt (n : Nat) (x : BitVec w) (k : Nat) : Prop where
  le : k ≤ n
  set : k < n → x.getLsbD k = true
  clear : ∀ j < k, x.getLsbD j = false

section
variable {n j k : Nat} {x : BitVec w} {m : Int}

theorem LowestAt.unique (hj : LowestAt n x j) (hk : LowestAt n x k) : j = k := by
  rcases Nat.lt_trichotomy j k with h | h | h
  · exact absurd (hj.set (h.trans_le hk.le)) (by simp [hk.clear j h])
  · exact h
  · exact absurd (hk.set (h.trans_le hj.le)) (by simp [hj.clear k h])

/-- Bit 0 of the shifted word. -/
theorem low_set (h : k < w) : x.sshiftRight k &&& 1#w ≠ 0 ↔ x.getLsbD k = true := by
  have hbit : (x.sshiftRight k).getLsbD 0 = x.getLsbD k := by
    rw [BitVec.getLsbD_sshiftRight, Nat.add_zero, if_pos h, decide_eq_false (by omega), Bool.not_false, Bool.true_and]
  rw [BitVec.and_one_eq_setWidth_ofBool_getLsbD, hbit]
  cases x.getLsbD k with
  | false => simp
  | true =>
    refine iff_of_true (fun h0 => ?_) rfl
    have h1 := congrArg (·.getLsbD 0) h0
    simp at h1
    omega

/-- **What the search finds.** -/
theorem shift_lowest (h : n ≤ w) (x : BitVec w) : LowestAt n x (shift x n) := by
  unfold shift
  cases hfind : (List.range n).find? fun i => x.sshiftRight i &&& 1#w ≠ 0 with
  | none =>
    have hnone := List.find?_range_eq_none.mp hfind
    refine ⟨Nat.le_refl n, fun hlt => absurd hlt (Nat.lt_irrefl n), fun j (hj : j < n) => ?_⟩
    have hj' := hnone j hj
    rw [Bool.not_eq_true', decide_eq_false_iff_not, low_set (by omega), Bool.not_eq_true] at hj'
    exact hj'
  | some i =>
    obtain ⟨hi, hmem, hlow⟩ := List.find?_range_eq_some.mp hfind
    have hlt := List.mem_range.mp hmem
    refine ⟨hlt.le, fun _ => ?_, fun j (hj : j < i) => ?_⟩
    · exact (low_set (by omega)).mp (of_decide_eq_true hi)
    · have hj' := hlow j hj
      rw [Bool.not_eq_true', decide_eq_false_iff_not, low_set (by omega), Bool.not_eq_true] at hj'
      exact hj'

theorem shift_eq_iff (h : n ≤ w) : shift x n = k ↔ LowestAt n x k := by
  constructor
  · rintro rfl
    exact shift_lowest h x
  · exact (shift_lowest h x).unique

/-! ## Words with one bit -/

theorem bit_set (h : k < w) : (1#w <<< k).getLsbD j = decide (j = k) := by
  rw [← BitVec.twoPow_eq, BitVec.getLsbD_twoPow]
  simp [h, eq_comm]

theorem lowest_bit (h : n ≤ w) (hk : k < n) : LowestAt n (1#w <<< k) k := by
  refine ⟨hk.le, fun _ => ?_, fun j hj => ?_⟩
  · rw [bit_set (by omega), decide_eq_true rfl]
  · rw [bit_set (by omega), decide_eq_false (by omega)]

/-- No two bits are the same word. -/
theorem bit_inj (h : j < w) (hk : k < w) : 1#w <<< j = 1#w <<< k ↔ j = k := by
  refine ⟨fun heq => ?_, fun heq => by rw [heq]⟩
  have hset : (1#w <<< k).getLsbD j = true := by rw [← heq, bit_set h, decide_eq_true rfl]
  rw [bit_set hk] at hset
  exact of_decide_eq_true hset

theorem bit_toInt (h : k + 1 < w) : (1#w <<< k).toInt = 2 ^ k := by
  have hnat : (1#w <<< k).toNat = 2 ^ k := by rw [← BitVec.twoPow_eq, BitVec.toNat_twoPow_of_lt (by omega)]
  rw [BitVec.toInt_eq_toNat_of_lt, hnat]
  · push_cast
    rfl
  · rw [hnat, ← Nat.pow_succ']
    exact Nat.pow_lt_pow_right (by decide) h

/-- An arithmetic shift divides. -/
theorem le_shifted : m ≤ (x.sshiftRight k).toInt ↔ m * 2 ^ k ≤ x.toInt := by
  have hpos : (0 : Int) < 2 ^ k := Int.pow_pos (by decide)
  rw [BitVec.toInt_sshiftRight, Int.shiftRight_eq_div_pow]
  push_cast
  exact Int.le_ediv_iff_mul_le hpos

/-- Only the lowest bit is left of a word with one bit. -/
theorem bit_shifted (h : k + 1 < w) : (1#w <<< k).sshiftRight k = 1#w := by
  have hle : (1#w <<< k).toInt = 2 ^ k := bit_toInt h
  apply BitVec.eq_of_toInt_eq
  rw [BitVec.toInt_sshiftRight, Int.shiftRight_eq_div_pow, hle]
  have hone : (1#w).toInt = 1 := by
    have := bit_toInt (w := w) (k := 0) (by omega)
    simpa using this
  push_cast
  rw [hone, Int.ediv_self (Int.pow_pos (by decide)).ne']

end
end Bootd.Core.LowBit
