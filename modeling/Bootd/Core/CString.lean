import Mathlib.Data.List.Basic

/-!
# Strings in arrays

A string is put together in an array of a fixed size. The operations go by the string
in the array, up to its NUL (`text`); `touched` are the places they have read or
written, that of the NUL included.

* `Arr.format`, `Arr.append`: `snprintf` and `strcat`.
* `inside_format`, `inside_append`, `inside_chop`: when one operation stays inside.
* `inside_appends`: when a sequence of them does.
-/
namespace Bootd.Core.CString

structure Arr (α : Type) where
  text : List α
  touched : List Int

/-- The `n` places from `lo` on. -/
def span (lo n : Nat) : List Int := (List.range' lo n).map fun i : Nat => (i : Int)

namespace Arr

variable {α : Type}

/-- Only places of an array of that size were touched. -/
def Inside (size : Nat) (a : Arr α) : Prop := ∀ i ∈ a.touched, 0 ≤ i ∧ i < size

/-- An array that was not touched yet; what is in it does not matter. -/
def fresh : Arr α := ⟨[], []⟩

/-- `strlen` -/
def scan (a : Arr α) : Arr α := { a with touched := a.touched ++ span 0 (a.text.length + 1) }

/-- A string with its NUL, behind the first `off` bytes of the text. -/
def write (off : Nat) (s : List α) (a : Arr α) : Arr α :=
  ⟨a.text.take off ++ s, a.touched ++ span off (s.length + 1)⟩

/-- `snprintf` at place `off`, which was told a size. -/
def format (off size : Nat) (s : List α) (a : Arr α) : Arr α :=
  if size = 0 then a else a.write off (s.take (size - 1))

/-- `strcat` -/
def append (s : List α) (a : Arr α) : Arr α := a.scan.write a.text.length s

/-- The text without its last byte, if that is one in `p`. -/
def cut (p : α → Bool) (s : List α) : List α := if s.getLast?.any p then s.dropLast else s

/-- `i = strlen(a) - 1; if (p(a[i])) a[i] = 0;` -/
def chop (p : α → Bool) (a : Arr α) : Arr α :=
  ⟨cut p a.text, a.scan.touched ++ [(a.text.length : Int) - 1]⟩

end Arr

open Arr

variable {α : Type} {a : Arr α} {s : List α} {size off lo n : Nat} {p : α → Bool}

theorem mem_span {i : Int} : i ∈ span lo n ↔ (lo : Int) ≤ i ∧ i < lo + n := by
  unfold span
  simp only [List.mem_map, List.mem_range'_1]
  constructor
  · rintro ⟨j, hj, rfl⟩
    omega
  · intro h
    exact ⟨i.toNat, by omega, by omega⟩

theorem span_inside : (∀ i ∈ span lo (n + 1), 0 ≤ i ∧ i < (size : Int)) ↔ lo + n < size := by
  simp only [mem_span]
  constructor
  · intro h
    have := h (lo + n) (by omega)
    omega
  · intro h i hi
    omega

theorem inside_more {is : List Int} (t : List α) : (⟨t, a.touched ++ is⟩ : Arr α).Inside size ↔
    a.Inside size ∧ ∀ i ∈ is, 0 ≤ i ∧ i < (size : Int) := by
  unfold Inside
  simp only [List.mem_append, or_imp, forall_and]
  tauto

@[simp] theorem inside_fresh : (fresh : Arr α).Inside size := fun _ hi => nomatch hi

@[simp] theorem scan_text : a.scan.text = a.text := rfl

@[simp] theorem chop_text : (a.chop p).text = cut p a.text := rfl

@[simp] theorem inside_scan : a.scan.Inside size ↔ a.Inside size ∧ a.text.length < size := by
  rw [scan, inside_more, span_inside, Nat.zero_add]

@[simp] theorem inside_write : (a.write off s).Inside size ↔ a.Inside size ∧ off + s.length < size := by
  rw [write, inside_more, span_inside]

theorem write_text (h : off = a.text.length) : (a.write off s).text = a.text ++ s := by
  rw [write, h, List.take_length]

@[simp] theorem append_text : (a.append s).text = a.text ++ s := write_text rfl

@[simp] theorem inside_append :
    (a.append s).Inside size ↔ a.Inside size ∧ a.text.length + s.length < size := by
  rw [append, inside_write, inside_scan, and_assoc]
  exact and_congr_right fun _ => by omega

/-- `snprintf` at the end of the text. -/
theorem format_text (hoff : off = a.text.length) (h : size ≠ 0) :
    (a.format off size s).text = a.text ++ s.take (size - 1) := by
  rw [format, if_neg h, write_text hoff]

theorem inside_format (h : size ≠ 0) {m : Nat} :
    (a.format off size s).Inside m ↔ a.Inside m ∧ off + min s.length (size - 1) < m := by
  rw [format, if_neg h, inside_write, List.length_take, Nat.min_comm]

/-- There is a last byte, and a NUL. -/
@[simp] theorem inside_chop : (a.chop p).Inside size ↔ a.Inside size ∧ a.text ≠ [] ∧ a.text.length < size := by
  have hlen : a.text ≠ [] ↔ 0 < a.text.length := List.length_pos_iff.symm
  rw [chop, inside_more, inside_scan, hlen, and_assoc]
  simp only [List.mem_singleton, forall_eq]
  exact and_congr_right fun _ => by omega

/-- One byte is taken away at most. -/
theorem cut_length_succ : s.length ≤ (cut p s).length + 1 := by
  unfold cut
  split
  · rw [List.length_dropLast]
    exact Nat.le_add_of_sub_le (Nat.le_refl _)
  · exact Nat.le_succ _

/-! ## One string after the other -/

/-- `strcat` for each. -/
def Arr.appends (a : Arr α) (l : List (List α)) : Arr α := l.foldl (fun a s => a.append s) a

@[simp] theorem appends_text (l : List (List α)) : (a.appends l).text = a.text ++ l.flatten := by
  unfold Arr.appends
  induction l generalizing a with
  | nil => simp
  | cons s l ih => rw [List.foldl_cons, ih, append_text, List.flatten_cons, List.append_assoc]

/-- What was touched before counts too. -/
theorem Arr.Inside.of_appends {l : List (List α)} (h : (a.appends l).Inside size) : a.Inside size := by
  unfold Arr.appends at h
  induction l generalizing a with
  | nil => exact h
  | cons s l ih => exact (inside_append.mp (ih h)).1

/-- All of it has to fit, with the NUL. -/
theorem inside_appends (l : List (List α)) (h : a.text.length < size) :
    (a.appends l).Inside size ↔ a.Inside size ∧ a.text.length + l.flatten.length < size := by
  induction l generalizing a with
  | nil => simp [appends, h]
  | cons s l ih =>
    have hcons : a.appends (s :: l) = (a.append s).appends l := rfl
    rw [hcons, List.flatten_cons, List.length_append]
    by_cases hs : a.text.length + s.length < size
    · rw [ih (by rwa [append_text, List.length_append]), inside_append, append_text, List.length_append, and_assoc]
      exact and_congr_right fun _ => by omega
    · refine iff_of_false (fun hin => hs (inside_append.mp hin.of_appends).2) fun hin => ?_
      have := hin.2
      omega

end Bootd.Core.CString
