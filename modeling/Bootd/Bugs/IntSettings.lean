import Bootd.Config.Eval
import Bootd.Config.Numbers

/-!
# Numbers that are not the number given

`str_get_int` stores what `strtol` returned before it looks whether the word ends there,
and narrows it from `long` to `int` without a check (src/str.c:82). So a word that is
refused still changes `*dst`, which the sibling functions leave alone; a number beyond
the limits of `int` is accepted with another value; and so is the empty word, as 0.

Counterexample: `session_max 4294967297`, which is taken for 1 (`wrapped_setting`).

* `strGetInt_intText`, `strGetInt_refused`: what is stored for which words.
* `int_means_iff`: the words, and the values before, with which all is well.
-/
namespace Bootd

open Bootd.Core

/-- The values of an `int`. -/
def FitsInt (v : Int) : Prop := -2 ^ 31 ≤ v ∧ v < 2 ^ 31

instance (v : Int) : Decidable (FitsInt v) := inferInstanceAs (Decidable (_ ∧ _))

/-- `w` is an integer, and `int` has room for it. -/
def IntWord (w : CStr) : Prop := ∃ v, intText w = some v ∧ FitsInt v

/-- `str_get_int(w, dst)` with `old` in `*dst`: if it returns 1, `*dst` is the number `w`;
if `w` is not a number that fits, it returns 0 and `*dst` is `old`. A setting that
`i_get_int` reads from `w` is the number `w`. -/
structure IntMeans (w : CStr) (old : Int) : Prop where
  accepted : (strGetInt w).2 = true → ∃ v, intText w = some v ∧ FitsInt v ∧ (strGetInt w).1 = v
  refused : ¬IntWord w → strGetInt w = (old, false)
  setting : ∀ (e : ConfEntry) (st st' : EvalState) (n : Int), e.value = w → convInt e st = .ok n st' →
    intText w = some n ∧ FitsInt n

section
variable {w : CStr} {v old : Int}

theorem strGetInt_intText (h : intText w = some v) : strGetInt w = (int32 (clampLong v), true) := by
  unfold strGetInt
  rw [strtol_intText h]
  rfl

/-- A number that fits is stored as it is. -/
theorem strGetInt_fits (h : intText w = some v) (hv : FitsInt v) : strGetInt w = (v, true) := by
  obtain ⟨hlo, hhi⟩ := hv
  rw [strGetInt_intText h, clampLong_of_fits (by omega) (by omega), int32_of_fits hlo hhi]

/-- Anything else is refused, unless it is empty. -/
theorem strGetInt_refused (h : intText w = none) (hw : w ≠ []) : strGetInt w = (int32 (strtol w).1, false) := by
  have hrest := strtol_rest h hw
  unfold strGetInt
  rw [beq_eq_false_iff_ne.mpr hrest]

theorem convInt_value {e : ConfEntry} {st st' : EvalState} {n : Int} (h : convInt e st = .ok n st') :
    strGetInt e.value = (n, true) := by
  unfold convInt at h
  generalize strGetInt e.value = p at h ⊢
  obtain ⟨m, b⟩ := p
  cases b with
  | true =>
    cases h
    rfl
  | false => cases h

/-- What is accepted with its value is a setting with its value. -/
theorem IntMeans.of_str
    (haccepted : (strGetInt w).2 = true → ∃ v, intText w = some v ∧ FitsInt v ∧ (strGetInt w).1 = v)
    (hrefused : ¬IntWord w → strGetInt w = (old, false)) : IntMeans w old where
  accepted := haccepted
  refused := hrefused
  setting e st st' n he hn := by
    have hget := convInt_value hn
    rw [he] at hget
    obtain ⟨v, hv, hfits, hval⟩ := haccepted (congrArg Prod.snd hget)
    rw [hget] at hval
    cases hval
    exact ⟨hv, hfits⟩

end

/-- **The words that mean what they say**: numbers that fit into an `int`, and what is no
number, not empty, and begins with the number that was there before. -/
theorem int_means_iff (w : CStr) (old : Int) : IntMeans w old ↔
    IntWord w ∨ intText w = none ∧ w ≠ [] ∧ int32 (strtol w).1 = old := by
  cases h : intText w with
  | some v =>
    constructor
    · intro hm
      obtain ⟨v', hv', hfits, -⟩ := hm.accepted (congrArg Prod.snd (strGetInt_intText h))
      exact .inl ⟨v', hv', hfits⟩
    · rintro (hword | ⟨hnone, -⟩)
      · obtain ⟨v', hv', hfits⟩ := hword
        refine .of_str (fun _ => ⟨v', hv', hfits, ?_⟩) fun hno => absurd ⟨v', hv', hfits⟩ hno
        rw [strGetInt_fits hv' hfits]
      · cases hnone
  | none =>
    have hno : ¬IntWord w := by
      rintro ⟨v, hv, -⟩
      rw [h] at hv
      cases hv
    by_cases hw : w = []
    · subst hw
      refine iff_of_false (fun hm => ?_) ?_
      · obtain ⟨v, hv, -⟩ := hm.accepted rfl
        cases hv
      · rintro (hword | ⟨-, hne, -⟩)
        · exact hno hword
        · exact hne rfl
    · have hget := strGetInt_refused h hw
      constructor
      · intro hm
        have hold := hm.refused hno
        rw [hget] at hold
        exact .inr ⟨rfl, hw, congrArg Prod.fst hold⟩
      · rintro (hword | ⟨-, -, hold⟩)
        · exact absurd hword hno
        · refine .of_str (fun hacc => ?_) fun _ => by rw [hget, hold]
          rw [hget] at hacc
          cases hacc

/-- **Counterexample**: 2^32 + 1 is taken for 1. -/
theorem wrapped_setting : ¬∀ (w : CStr) (old : Int), IntMeans w old := by
  intro h
  obtain ⟨v, hv, -, hval⟩ := (h (cstr "4294967297") 5).accepted (by decide)
  have hone : (strGetInt (cstr "4294967297")).1 = 1 := by decide
  have htext : intText (cstr "4294967297") = some 4294967297 := by decide
  rw [htext] at hv
  cases hv
  rw [hone] at hval
  cases hval

/-- `12abc` is refused, but stored as 12. -/
example : strGetInt (cstr "12abc") = (12, false) := by decide

end Bootd
