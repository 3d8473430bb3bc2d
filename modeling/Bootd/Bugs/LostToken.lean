import Bootd.Config.Stream

/-!
# The word at the end of a file is lost

A token is put into the ring when a character behind it is read. At the end of
the file `gen_tokenize_tokenize` just returns (src/tokenize.c:84-86), and a word
that no character has ended stays in its slot, without its NUL and without being
counted. A `;` is complete as soon as it is read, but a `}` is a word.

Counterexample: a file that consists of `}` (`brace_lost`).

`final_newline_iff`: the texts for which it makes no difference whether a newline
follows.
-/
namespace Bootd

open Bootd.Core

/-- No quote, escape or comment is open at the end of the text. -/
structure Terminated (text : List UInt8) : Prop where
  esc : (Lex.after (some tokenizeBufsize) text).esc = false
  quo : (Lex.after (some tokenizeBufsize) text).quo = .none
  com : (Lex.after (some tokenizeBufsize) text).com = false

/-- The characters of the word at the end of the text that nothing has ended: no white space, NUL or `;`,
and not the size of the buffer. -/
def openWord (text : List UInt8) : CStr := (Lex.after (some tokenizeBufsize) text).b

section
variable {text : List UInt8}

theorem Terminated.after (h : Terminated text) :
    Lex.after (some tokenizeBufsize) text = ⟨openWord text, false, .none, false⟩ := by
  obtain ⟨hesc, hquo, hcom⟩ := h
  unfold openWord
  generalize Lex.after (some tokenizeBufsize) text = l at *
  obtain ⟨b, esc, quo, com⟩ := l
  cases hesc
  cases hquo
  cases hcom
  rfl

/-- A newline completes the word that is open. -/
theorem newline_out (h : Terminated text) : tokens (some tokenizeBufsize) (text ++ [10]) =
    tokens (some tokenizeBufsize) text ++ if openWord text = [] then [] else [openWord text] := by
  rw [tokens_append limit_ne, h.after]
  congr 1
  have hchar : lexChar ⟨openWord text, false, .none, false⟩ 10 =
      if openWord text = [] then .go ⟨openWord text, false, .none, false⟩ else .tok (openWord text) := by
    simp [lexChar, lexSwitch]
  split
  · rename_i hnil
    rw [if_pos hnil] at hchar
    have hnf := after_not_full limit_ne text
    rw [h.after] at hnf
    rw [Mealy.out_cons, feed, hchar]
    simp only [if_neg hnf, Mealy.out_nil, List.append_nil]
  · rename_i hne
    rw [if_neg hne] at hchar
    rw [Mealy.out_cons, feed, hchar]
    rfl

end

/-- **When a final newline makes no difference**: if the text does not end in a word. -/
theorem final_newline_iff (text : List UInt8) (h : Terminated text) :
    SameTokens text (text ++ [10]) ↔ openWord text = [] := by
  rw [sameTokens_iff, newline_out h]
  split
  · rename_i hnil
    simp [hnil]
  · rename_i hne
    simp [hne]

/-- `ip 10.0.0.1;` may end a file. -/
theorem final_newline_semi : SameTokens (cstr "ip 10.0.0.1;") (cstr "ip 10.0.0.1;" ++ [10]) :=
  (final_newline_iff _ ⟨by decide, by decide, by decide⟩).mpr (by decide)

/-- **Counterexample**: a `}` may not. -/
theorem brace_lost : ¬ ∀ text, Terminated text → SameTokens text (text ++ [10]) := by
  intro hall
  have h := sameTokens_iff.mp (hall [125] ⟨by decide, by decide, by decide⟩)
  exact absurd h (by decide)

end Bootd
