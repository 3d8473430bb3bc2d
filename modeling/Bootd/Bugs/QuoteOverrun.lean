import Bootd.Config.Quote
import Bootd.Config.StringCopy

/-!
# An escape in the last place of a quoted word

The loop of `str_do_quote` goes on while there is room for one character and the quote
mark behind it (src/str.c:463). A round stores two if it escapes the character, so that
one that begins at `dst + l - 3` leaves no room for the NUL, which is stored to `dst[l]`.
"need dest and at least 3 bytes total length" (src/str.c:453) is a test for the room that
the rest needs.

Counterexample: a quote mark, in an array of four (`quote_overruns`).

`quote_bounds_iff`: which words stay inside.
-/
namespace Bootd

open Bootd.Core

/-- The loop, from `dst + d` on: its stores, and the place behind them. mirrors src/str.c:463-471 -/
def quoteStores (l : Int) : Nat → CStr → List ByteStore × Nat
  | d, [] => ([], d)
  | d, c :: w =>
    if (d : Int) + 2 < l then
      if c = 34 ∨ c = 92 then
        let (us, e) := quoteStores l (d + 2) w
        ((d, 92) :: (d + 1, c) :: us, e)
      else
        let (us, e) := quoteStores l (d + 1) w
        ((d, c) :: us, e)
    else ([], d)

/-- The stores of a call. mirrors src/str.c:448-475 -/
def strDoQuoteStores (w : Option CStr) (l : Int) : List ByteStore :=
  if l < 3 then []
  else match w with
    | none => [(0, 34), (1, 34), (2, 0)]
    | some w =>
      let (us, e) := quoteStores l 1 w
      (0, 34) :: us ++ [(e, 34), (e + 1, 0)]

/-- A call writes only the array, and leaves a string there: a beginning of the word, escaped and in quotes. -/
def QuotesWithin (w : Option CStr) (l : Int) (dst : Nat → UInt8) : Prop :=
  (∀ u ∈ strDoQuoteStores w l, (u.1 : Int) < l) ∧ ∃ p, p <+: w.getD [] ∧
    Memory.scan (Memory.after (strDoQuoteStores w l) dst) 0 l.toNat = some (34 :: p.flatMap quoteChar ++ [34])

section
variable {w : CStr} {l : Int} {d : Nat} {dst : Nat → UInt8}

/-! ## What is stored -/

theorem quoteStores_eq (l : Int) (d : Nat) (w : CStr) :
    quoteStores l d w = (Memory.along d (quoteLoop l d w), d + (quoteLoop l d w).length) := by
  induction w generalizing d with
  | nil => rfl
  | cons c w ih =>
    unfold quoteStores quoteLoop
    split
    · split
      · simp only [ih, Memory.along, List.length_cons, Prod.mk.injEq, true_and]
        omega
      · simp only [ih, Memory.along, List.length_cons, Prod.mk.injEq, true_and]
        omega
    · rfl

theorem strDoQuoteStores_some (hl : 3 ≤ l) (w : CStr) :
    strDoQuoteStores (some w) l = Memory.along 0 (34 :: quoteLoop l 1 w ++ [34, 0]) := by
  have hnot : ¬l < 3 := by omega
  unfold strDoQuoteStores
  rw [if_neg hnot, Memory.along_append]
  simp only [quoteStores_eq, Memory.along, List.length_cons, Nat.zero_add, Nat.add_comm 1]

/-- **The stores leave the buffer** as `strDoQuote` says. -/
theorem strDoQuoteStores_buf (w : Option CStr) (l : Int) (dst : Buf) (j : Nat) :
    Memory.after (strDoQuoteStores w l) (dst.getD · 0) j = (strDoQuote w l dst).getD j 0 := by
  by_cases hl : l < 3
  · unfold strDoQuoteStores strDoQuote
    rw [if_pos hl, if_pos hl]
    rfl
  · cases w with
    | none =>
      unfold strDoQuoteStores strDoQuote
      rw [if_neg hl, if_neg hl]
      exact after_along_buf [34, 34, 0] dst j
    | some w =>
      rw [strDoQuoteStores_some (by omega), strDoQuote, if_neg hl]
      exact after_along_buf _ dst j

/-- The loop escapes a beginning of the word. -/
theorem quoteLoop_prefix (l : Int) (d : Nat) (w : CStr) :
    ∃ p, p <+: w ∧ quoteLoop l d w = p.flatMap quoteChar := by
  induction w generalizing d with
  | nil => exact ⟨[], List.prefix_refl _, rfl⟩
  | cons c w ih =>
    unfold quoteLoop
    split
    · split
      · rename_i hc
        obtain ⟨p, hp, heq⟩ := ih (d + 2)
        refine ⟨c :: p, List.cons_prefix_cons.mpr ⟨rfl, hp⟩, ?_⟩
        rw [heq, List.flatMap_cons, quoteChar, if_pos hc]
        rfl
      · rename_i hc
        obtain ⟨p, hp, heq⟩ := ih (d + 1)
        refine ⟨c :: p, List.cons_prefix_cons.mpr ⟨rfl, hp⟩, ?_⟩
        rw [heq, List.flatMap_cons, quoteChar, if_neg hc]
        rfl
    · exact ⟨[], List.nil_prefix, rfl⟩

/-! ## The room that is left -/

/-- A character that is escaped comes to stand at place `l - 3`. -/
def EscapeLast (l : Int) (d : Nat) (w : CStr) : Prop :=
  ∃ p c rest, w = p ++ c :: rest ∧ (c = 34 ∨ c = 92) ∧ (d : Int) + (p.flatMap quoteChar).length + 3 = l

theorem escapeLast_nil : ¬EscapeLast l d [] := by
  rintro ⟨p, c, rest, h, -⟩
  cases p <;> cases h

/-- The first character, or one behind it. -/
theorem escapeLast_cons (c : UInt8) (w : CStr) : EscapeLast l d (c :: w) ↔
    (c = 34 ∨ c = 92) ∧ (d : Int) + 3 = l ∨ EscapeLast l (d + (quoteChar c).length) w := by
  constructor
  · rintro ⟨p, e, rest, h, he, hlen⟩
    cases p with
    | nil =>
      cases h
      exact .inl ⟨he, by simpa using hlen⟩
    | cons b p =>
      cases h
      refine .inr ⟨p, e, rest, rfl, he, ?_⟩
      rw [List.flatMap_cons, List.length_append] at hlen
      omega
  · rintro (⟨hc, hlen⟩ | ⟨p, e, rest, rfl, he, hlen⟩)
    · exact ⟨[], c, w, rfl, hc, by simpa using hlen⟩
    · refine ⟨c :: p, e, rest, rfl, he, ?_⟩
      rw [List.flatMap_cons, List.length_append]
      omega

/-- **What the loop leaves room for**: the quote mark and the NUL, unless it ends with that character. -/
theorem quoteLoop_room (h : (d : Int) + 2 ≤ l) :
    (d : Int) + (quoteLoop l d w).length + 2 ≤ l ↔ ¬EscapeLast l d w := by
  induction w generalizing d with
  | nil => exact iff_of_true (by simpa [quoteLoop] using h) escapeLast_nil
  | cons c w ih =>
    rw [escapeLast_cons]
    unfold quoteLoop
    by_cases hroom : (d : Int) + 2 < l
    · rw [if_pos hroom]
      by_cases hc : c = 34 ∨ c = 92
      · rw [if_pos hc, quoteChar, if_pos hc]
        by_cases hlast : (d : Int) + 3 = l
        · -- the escape takes the place of the NUL
          simp only [hc, hlast, and_self, true_or, not_true_eq_false, iff_false, List.length_cons]
          omega
        · have hrest := ih (d := d + 2) (by omega)
          simp only [hc, hlast, and_false, false_or, List.length_cons, List.length_nil]
          rw [← hrest]
          omega
      · have hrest := ih (d := d + 1) (by omega)
        rw [if_neg hc, quoteChar, if_neg hc]
        simp only [hc, false_and, false_or, List.length_cons, List.length_nil]
        rw [← hrest]
        omega
    · rw [if_neg hroom]
      refine iff_of_true (by simpa using h) ?_
      rintro (⟨-, hlen⟩ | ⟨p, e, rest, -, -, hlen⟩)
      · omega
      · omega

/-- A call with a word. -/
theorem quotes_some (h0 : 0 ∉ w) (hl : 3 ≤ l) : QuotesWithin (some w) l dst ↔ ¬EscapeLast l 1 w := by
  have hin : (∀ u ∈ strDoQuoteStores (some w) l, (u.1 : Int) < l) ↔ ¬EscapeLast l 1 w := by
    rw [← quoteLoop_room (by omega), strDoQuoteStores_some hl]
    have hnat := Memory.along_inside (p := 0) (s := 34 :: quoteLoop l 1 w ++ [34, 0]) (n := l.toNat)
    simp only [List.length_append, List.length_cons, List.length_nil, List.cons_append, reduceCtorEq,
      false_or] at hnat
    have hcast : ∀ n : Nat, (n : Int) < l ↔ n < l.toNat := by omega
    simp only [hcast, List.cons_append]
    rw [hnat]
    omega
  unfold QuotesWithin
  rw [hin, and_iff_left_iff_imp]
  intro hnot
  obtain ⟨p, hp, heq⟩ := quoteLoop_prefix l 1 w
  refine ⟨p, hp, ?_⟩
  have hlen := (quoteLoop_room (by omega)).mpr hnot
  have hp0 : 0 ∉ p := fun h => h0 (hp.subset h)
  have happ : 34 :: p.flatMap quoteChar ++ [34, 0] = (34 :: p.flatMap quoteChar ++ [34]) ++ [0] := by simp
  rw [heq] at hlen
  rw [strDoQuoteStores_some hl, heq, happ]
  refine Memory.scan_along (by simp [quoteChars_nul hp0]) ?_
  simp only [List.length_append, List.length_cons, List.length_nil]
  omega

end

/-- **When a quoted word stays inside its array**: unless a character that is escaped comes to stand in the third
place from the end. -/
theorem quote_bounds_iff (w : Option CStr) (l : Int) (dst : Nat → UInt8) (h0 : ∀ v ∈ w, 0 ∉ v) (hl : 3 ≤ l) :
    QuotesWithin w l dst ↔ ¬∃ p c rest, w = some (p ++ c :: rest) ∧ (c = 34 ∨ c = 92) ∧
      ((p.flatMap quoteChar).length : Int) + 4 = l := by
  cases w with
  | none =>
    refine iff_of_true ⟨?_, [], List.nil_prefix, ?_⟩ fun ⟨p, c, rest, h, _⟩ => by cases h
    · unfold strDoQuoteStores
      rw [if_neg (by omega)]
      simp
      omega
    · unfold strDoQuoteStores
      rw [if_neg (by omega)]
      exact Memory.scan_along (s := [34, 34]) (by decide) (by simp; omega)
  | some w =>
    rw [quotes_some (h0 w rfl) hl, EscapeLast]
    simp only [Option.some.injEq]
    refine not_congr (exists_congr fun p => exists_congr fun c => exists_congr fun rest => ?_)
    refine and_congr_right fun _ => and_congr_right fun _ => ?_
    omega

/-- `eth0` in an array of six is cut, and stays inside. -/
theorem quote_bounds_cut : QuotesWithin (some (cstr "eth0")) 6 (fun _ => 0) := by
  refine (quote_bounds_iff (some (cstr "eth0")) 6 (fun _ => 0) (by decide) (by decide)).mpr ?_
  rintro ⟨p, c, rest, h, hc, -⟩
  have hmem : c ∈ cstr "eth0" := Option.some.inj h ▸ List.mem_append_right p List.mem_cons_self
  rcases hc with rfl | rfl
  · exact absurd hmem (by decide)
  · exact absurd hmem (by decide)

/-- **Counterexample**: a quote mark, in an array of four. -/
theorem quote_overruns : ¬∀ (w : Option CStr) (l : Int) (dst : Nat → UInt8), (∀ v ∈ w, 0 ∉ v) → 3 ≤ l →
    QuotesWithin w l dst := by
  intro hall
  have hescape : EscapeLast 4 1 [34] := ⟨[], 34, [], rfl, .inl rfl, rfl⟩
  exact (quotes_some (by decide) (by decide)).mp (hall (some [34]) 4 (fun _ => 0) (by decide) (by decide)) hescape

end Bootd
