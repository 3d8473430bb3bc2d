import Bootd.Config.Words

/-!
# Decimal numbers

`intText w` is the number that the whole of `w` stands for, in the form that
`strtol` takes: blanks, a sign, and then digits up to the end.

* `strtol_intText`: such a word is read to its end, with the value cut off at
  the limits of `long`.
* `strtol_rest`: of any other word something is left, unless it is empty.
* `intText_decText`: what `%d` prints is read back.
-/
namespace Bootd

def intText (w : CStr) : Option Int :=
  let (neg, ds) := signOf (w.dropWhile isspace)
  if ds ≠ [] ∧ ds.all isdigit then some (if neg then -(digitsValue ds : Int) else digitsValue ds) else none

/-- The limits of `long`. -/
def clampLong (n : Int) : Int := max (-2 ^ 63) (min n (2 ^ 63 - 1))

/-- The text of `%d`. -/
def decText (n : Nat) : CStr := cstr (toString n)

section
variable {w : CStr} {v : Int} {n : Nat}

theorem clampLong_of_fits (h : -2 ^ 63 ≤ v) (h' : v < 2 ^ 63) : clampLong v = v := by
  unfold clampLong
  omega

/-- A number is read to its end. -/
theorem strtol_intText (h : intText w = some v) : strtol w = (clampLong v, []) := by
  unfold intText at h
  unfold strtol clampLong
  generalize signOf (w.dropWhile isspace) = p at h ⊢
  obtain ⟨neg, ds⟩ := p
  simp only [Option.ite_none_right_eq_some, Option.some.injEq] at h
  obtain ⟨⟨hne, hall⟩, rfl⟩ := h
  have htake : ds.takeWhile isdigit = ds := List.takeWhile_eq_self_iff.mpr (List.all_eq_true.mp hall)
  simp only [htake, if_neg hne, List.drop_length]

/-- Of anything else something is left. -/
theorem strtol_rest (h : intText w = none) (hw : w ≠ []) : (strtol w).2 ≠ [] := by
  unfold intText at h
  unfold strtol
  generalize signOf (w.dropWhile isspace) = p at h ⊢
  obtain ⟨neg, ds⟩ := p
  simp only [ite_eq_right_iff, reduceCtorEq, imp_false, not_and] at h
  by_cases hds : ds.takeWhile isdigit = []
  · simp only [if_pos hds]
    exact hw
  · simp only [if_neg hds]
    intro hdrop
    have hlen : ds.length ≤ (ds.takeWhile isdigit).length := List.drop_eq_nil_iff.mp hdrop
    have hself : ds.takeWhile isdigit = ds :=
      (List.takeWhile_prefix isdigit).eq_of_length (Nat.le_antisymm (List.takeWhile_prefix _).length_le hlen)
    rw [hself] at hds
    exact h hds (List.all_eq_true.mpr (List.takeWhile_eq_self_iff.mp hself))

/-! ## Printed numbers -/

theorem decText_eq (n : Nat) : decText n = (Nat.toDigits 10 n).map fun c => UInt8.ofNat c.toNat := by
  unfold decText cstr
  rw [show toString n = n.repr from rfl, Nat.toList_repr]

theorem isdigit_digit {c : Char} (h : c.isDigit = true) :
    isdigit (UInt8.ofNat c.toNat) = true ∧ (UInt8.ofNat c.toNat).toNat = c.toNat := by
  obtain ⟨h48, h57⟩ : 48 ≤ c.toNat ∧ c.toNat ≤ 57 := by
    simpa [Char.isDigit, UInt32.le_iff_toNat_le] using h
  have hval : (UInt8.ofNat c.toNat).toNat = c.toNat := by
    rw [UInt8.toNat_ofNat']
    omega
  exact ⟨isdigit_iff.mpr ⟨hval.symm ▸ h48, hval.symm ▸ h57⟩, hval⟩

theorem decText_digits (n : Nat) : ∀ b ∈ decText n, isdigit b = true := by
  intro b hb
  rw [decText_eq] at hb
  obtain ⟨c, hc, rfl⟩ := List.mem_map.mp hb
  exact (isdigit_digit (Nat.isDigit_of_mem_toDigits (by decide) (by decide) hc)).1

/-- There is no percent sign in it. -/
theorem decText_plain (n : Nat) : 37 ∉ decText n := by
  intro h
  exact absurd (decText_digits n _ h) (by decide)

theorem decText_ne_nil (n : Nat) : decText n ≠ [] := by
  rw [decText_eq]
  simp [Nat.toDigits_ne_nil]

theorem digitsValue_map {cs : List Char} (h : ∀ c ∈ cs, c.isDigit = true) (m : Nat) :
    (cs.map fun c => UInt8.ofNat c.toNat).foldl (fun n b => n * 10 + (b.toNat - 48)) m =
      Nat.ofDigitChars 10 cs m := by
  induction cs generalizing m with
  | nil => rfl
  | cons c cs ih =>
    rw [List.map_cons, List.foldl_cons, Nat.ofDigitChars_cons, (isdigit_digit (h c List.mem_cons_self)).2,
      Nat.mul_comm 10 m]
    exact ih (fun d hd => h d (List.mem_cons_of_mem c hd)) _

theorem digitsValue_decText (n : Nat) : digitsValue (decText n) = n := by
  have hall : ∀ c ∈ Nat.toDigits 10 n, c.isDigit = true := fun c hc =>
    Nat.isDigit_of_mem_toDigits (by decide) (by decide) hc
  rw [decText_eq, digitsValue, digitsValue_map hall, Nat.ofDigitChars_ten_toDigits]

/-- Digits are a number. -/
theorem intText_digits (h : ∀ b ∈ w, isdigit b = true) (hw : w ≠ []) : intText w = some (digitsValue w : Int) := by
  cases w with
  | nil => exact absurd rfl hw
  | cons b w =>
    have hb := h b List.mem_cons_self
    have hspace : (b :: w).dropWhile isspace = b :: w :=
      List.dropWhile_cons_of_neg (by rw [isspace_of_isdigit hb]; exact Bool.false_ne_true)
    unfold intText
    simp only [hspace, signOf_of_isdigit hb]
    rw [if_pos ⟨hw, List.all_eq_true.mpr h⟩, if_neg Bool.false_ne_true]

/-- What `%d` prints is read back. -/
theorem intText_decText (n : Nat) : intText (decText n) = some (n : Int) := by
  rw [intText_digits (decText_digits n) (decText_ne_nil n), digitsValue_decText]

end

end Bootd
