import Bootd.Config.Quote

/-!
# `str_do_quote` writes escapes that the tokenizer does not read

`str_do_quote` puts a backslash in front of each `"` and backslash of the word
(src/str.c:463-471). The tokenizer looks for a closing quote mark before it looks
for anything else, and adds every other character (src/tokenize.c:119-131); a
backslash is an escape outside of quotes only. So the backslash becomes part of
the token and the quote mark behind it ends the quotes. Nor is `""` a token: at
the end of a lexeme without characters no token is made (src/tokenize.c:147-151).

Counterexample: the word `a\b` comes back as `a\\b` (`backslash_doubled`).

`reads_back_iff`: the words that come back.
-/
namespace Bootd

open Bootd.Core

section
variable {b w t : CStr} {m : Nat} {cs : List UInt8} {ts : List CStr}

/-- The word has no character that `str_do_quote` escapes. -/
def Unescaped (w : CStr) : Prop := 34 ∉ w ∧ 92 ∉ w

instance (w : CStr) : Decidable (Unescaped w) := inferInstanceAs (Decidable (_ ∧ _))

theorem unescaped_flatMap (h : Unescaped w) : w.flatMap quoteChar = w := by
  induction w with
  | nil => rfl
  | cons c w ih =>
    obtain ⟨h34, h92⟩ := h
    simp only [List.mem_cons, not_or] at h34 h92
    rw [List.flatMap_cons, quoteChar, if_neg fun h => h.elim (Ne.symm h34.1) (Ne.symm h92.1), ih ⟨h34.2, h92.2⟩]
    rfl

theorem quoteChars_escape {c : UInt8} (hc : c = 34 ∨ c = 92) (w cs : CStr) :
    (c :: w).flatMap quoteChar ++ cs = 92 :: c :: (w.flatMap quoteChar ++ cs) := by
  rw [List.flatMap_cons, quoteChar, if_pos hc]
  rfl

theorem quoteChars_plain {c : UInt8} (hc : ¬(c = 34 ∨ c = 92)) (w cs : CStr) :
    (c :: w).flatMap quoteChar ++ cs = c :: (w.flatMap quoteChar ++ cs) := by
  rw [List.flatMap_cons, quoteChar, if_neg hc]
  rfl

/-- A character in quotes. -/
theorem double_step {c : UInt8} (h0 : c ≠ 0) (h : c ≠ 34) (hm : b.length + 1 < m) (cs : List UInt8) :
    Mealy.out (feed (some m)) ⟨b, false, .double, false⟩ (c :: cs) =
      Mealy.out (feed (some m)) ⟨b ++ [c], false, .double, false⟩ cs := by
  have hlen : (b ++ [c]).length < m := by
    rw [List.length_append, List.length_singleton]
    exact hm
  rw [Mealy.out_cons, feed_go (lexChar_double h0 h b) hlen, List.nil_append]

/-- More backslashes were read than the word has so far. -/
theorem too_many {j : Nat} (hj : 0 < j) (h0 : 0 ∉ w) (hm : b.length + j + 2 * w.length < m) :
    Mealy.out (feed (some m)) ⟨b ++ List.replicate j 92, false, .double, false⟩ (w.flatMap quoteChar ++ cs) ≠
      (b ++ w) :: ts := by
  induction w generalizing b j with
  | nil =>
    intro h
    have hle := (out_begins h).length_le
    simp at hle
    omega
  | cons c w ih =>
    intro h
    simp only [List.length_cons, List.mem_cons, not_or] at hm h0
    by_cases hc : c = 92
    · -- one backslash of the word, two that are read
      subst hc
      have happ : b ++ List.replicate j 92 ++ [92] ++ [92] = (b ++ [92]) ++ List.replicate (j + 1) 92 := by
        rw [List.replicate_succ]
        simp [← List.replicate_succ', List.replicate_succ]
      rw [quoteChars_escape (.inr rfl), double_step (by decide) (by decide) (by simp; omega),
        double_step (by decide) (by decide) (by simp; omega), happ] at h
      refine ih (b := b ++ [92]) (j := j + 1) (Nat.succ_pos j) h0.2 (by simp; omega) ?_
      rw [h]
      simp
    · obtain ⟨j, rfl⟩ := Nat.exists_eq_succ_of_ne_zero hj.ne'
      have hpre := out_begins h
      rw [List.prefix_append_right_inj, List.replicate_succ, List.cons_prefix_cons] at hpre
      exact hc hpre.1.symm

/-- If the word itself is the next token, nothing in it is escaped. -/
theorem unescaped_of_read (h0 : 0 ∉ w) (hm : b.length + 2 * w.length < m)
    (h : Mealy.out (feed (some m)) ⟨b, false, .double, false⟩ (w.flatMap quoteChar ++ cs) = (b ++ w) :: ts) :
    Unescaped w := by
  induction w generalizing b with
  | nil => exact ⟨List.not_mem_nil, List.not_mem_nil⟩
  | cons c w ih =>
    simp only [List.length_cons, List.mem_cons, not_or] at hm h0
    by_cases hc : c = 34 ∨ c = 92
    · rw [quoteChars_escape hc, double_step (by decide) (by decide) (by omega)] at h
      rcases hc with rfl | rfl
      · have hpre := out_begins h
        rw [List.prefix_append_right_inj, List.cons_prefix_cons] at hpre
        exact absurd hpre.1 (by decide)
      · rw [double_step (by decide) (by decide) (by simp; omega)] at h
        have happ : b ++ 92 :: w = b ++ [92] ++ w := by simp
        rw [happ] at h
        exact absurd h (too_many (j := 1) Nat.one_pos h0.2 (by simp; omega))
    · obtain ⟨h34, h92⟩ := not_or.mp hc
      rw [quoteChars_plain hc, double_step (Ne.symm h0.1) h34 (by omega)] at h
      obtain ⟨hw34, hw92⟩ := ih (b := b ++ [c]) h0.2 (by simp; omega) (by rw [h]; simp)
      simp only [Unescaped, List.mem_cons, not_or]
      exact ⟨⟨Ne.symm h34, hw34⟩, Ne.symm h92, hw92⟩

/-- The word comes back, as the only token. -/
theorem read_iff (h0 : 0 ∉ w) (hm : 2 * w.length + 1 < m) :
    tokens (some m) (34 :: w.flatMap quoteChar ++ [34] ++ [10]) = [w] ↔ w ≠ [] ∧ Unescaped w := by
  have hm0 : some m ≠ some 0 := fun h => (Nat.zero_lt_of_lt hm).ne' (Option.some.inj h)
  have hopen : feed (some m) .start 34 = ([], ⟨[], false, .double, false⟩) :=
    feed_open .double (by decide) (Nat.zero_lt_of_lt hm)
  rw [tokens_out hm0, List.cons_append, List.cons_append, Mealy.out_cons, hopen, List.nil_append]
  constructor
  · intro h
    have hne : w ≠ [] := by
      rintro rfl
      have hclose : feed (some m) ⟨[], false, .double, false⟩ 34 = ([], .start) :=
        feed_close .double (by decide) (Nat.zero_lt_of_lt hm)
      have hend : feed (some m) .start 10 = ([], .start) := feed_go rfl (Nat.zero_lt_of_lt hm)
      simp [hclose, hend] at h
    rw [List.append_assoc] at h
    exact ⟨hne, unescaped_of_read (b := []) h0 (by rw [List.length_nil]; omega) h⟩
  · rintro ⟨hne, hun⟩
    have hword := hun
    obtain ⟨h34, -⟩ := hword
    have hv : ∀ c ∈ w, ∀ b, lexChar ⟨b, false, .double, false⟩ c = .go ⟨b ++ [c], false, .double, false⟩ :=
      fun c hc => lexChar_double (fun h => h0 (h ▸ hc)) fun h => h34 (h ▸ hc)
    obtain ⟨ho, hf⟩ := quotes_read .double (by decide) hv (show w.length < m by omega)
    have htok : feed (some m) ⟨w, false, .none, false⟩ 10 = ([w], .start) := by
      simp [feed, lexChar, lexSwitch, hne]
    rw [unescaped_flatMap hun]
    have hall : Mealy.out (feed (some m)) .start (34 :: w ++ [34] ++ [10]) = _ := Mealy.out_append
    rw [show Mealy.out (feed (some m)) .start (34 :: w ++ [34]) = [] from ho,
      show Mealy.fin (feed (some m)) .start (34 :: w ++ [34]) = _ from hf] at hall
    simp only [List.cons_append, Mealy.out_cons, hopen, List.nil_append, htok] at hall
    exact hall

end

/-- **The words that come back** from what `str_do_quote` writes: all but the empty word and those
with a `"` or a backslash. -/
theorem reads_back_iff (w : CStr) (l : Int) (dst : Buf) (h0 : 0 ∉ w) (hw : w.length ≤ 2000)
    (hl : 2 * (w.length : Int) + 3 < l) :
    Yields (strOf (strDoQuote (some w) l dst) ++ [10]) [w] ↔ w ≠ [] ∧ 34 ∉ w ∧ 92 ∉ w := by
  have hsize : tokenizeBufsize = 4096 := rfl
  rw [yields_iff, strDoQuote_fits h0 hl, eq_comm]
  exact read_iff h0 (by omega)

/-- `eth0 up` comes back. -/
theorem reads_back_blank : Yields (strOf (strDoQuote (some (cstr "eth0 up")) 64 []) ++ [10]) [cstr "eth0 up"] :=
  (reads_back_iff _ _ _ (by decide) (by decide) (by decide)).mpr (by decide)

/-- **Counterexample**: `a\b` comes back with two backslashes. -/
theorem backslash_doubled : ¬ ∀ (w : CStr) (l : Int) (dst : Buf), 0 ∉ w → w.length ≤ 2000 →
    2 * (w.length : Int) + 3 < l → Yields (strOf (strDoQuote (some w) l dst) ++ [10]) [w] := by
  intro hall
  have h := hall [97, 92, 98] 10 [] (by decide) (by decide) (by decide)
  rw [yields_iff] at h
  exact absurd h (by decide)

end Bootd
