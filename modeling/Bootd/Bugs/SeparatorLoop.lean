import Bootd.Config.Refusals

/-!
# A separator never gets read

The value loop of `parse_sub` means to accept `,` and `|` between values, but its
branch for them is a bare `continue` (src/parse.c:193-196): the next token is
never fetched, and the loop goes round with the same word for ever. The branch
is taken before the number of values is checked, so nothing stops it.

Counterexample: `a , b ;` (`separator_hangs`).

`parse_finishes_iff`: parsing finishes, with a tree or a reported error, exactly
if the parser does not come to a separator in the values of a statement, nor to a
statement whose report is taken for a format: `gen_tokenize_error` passes the text
that it has put together to `log_msg` as the format (src/tokenize.c:247-251). There
is no other way in which it fails to: the end of the file in the middle of a
statement stops the loop at the 33rd value.
-/
namespace Bootd

open Bootd.Core
open Bootd.Core.Fuel

/-- `parse_sub` returns, or an error is reported. -/
def Finishes {τ α : Type} (m : Nat → ParseM τ α) (st : ParseState τ) : Prop := Returned m st ∨ Fails m st

/-- Reading `ts`, the parser comes to a `,` or `|` where a value is expected. -/
def Separated (fname : CStr) (stack : Nat → Locals) (σ : Scan) (ts : List CStr) : Prop :=
  ∃ σ' ts', Reaches fname stack σ ts σ' ts' ∧ StuckHere fname σ' ts'

/-- Reading `ts`, the parser comes to a statement that it refuses with such a report. -/
def Garbled (fname : CStr) (stack : Nat → Locals) (σ : Scan) (ts : List CStr) : Prop :=
  ∃ σ' ts', Reaches fname stack σ ts σ' ts' ∧ GarbledHere fname σ' ts'

section
variable {τ : Type}

theorem hangs_not_finishes {α : Type} {m : Nat → ParseM τ α} {st : ParseState τ} (h : Hangs m st) :
    ¬Finishes m st := not_or.mpr ⟨h.not_returned, h.not_fails⟩

end

/-- **When parsing finishes**: for every stream of tokens, from every state of the
tables. -/
theorem parse_finishes_iff {τ : Type} (S : Source τ) (stack : Nat → Locals) (st : ParseState τ) :
    Finishes (fun k => parseSub S stack k) st ↔
      ¬Separated S.fname stack (st.scan stack) (S.rest st.tok) ∧
        ¬Garbled S.fname stack (st.scan stack) (S.rest st.tok) := by
  constructor
  · refine fun hf => ⟨?_, ?_⟩
    · rintro ⟨σ', ts, hr, hs⟩
      exact hangs_not_finishes (parse_stuck hr hs) hf
    · rintro ⟨σ', ts, hr, hg⟩
      have hgarbles := parse_garbled hr hg
      exact hf.elim hgarbles.not_returned hgarbles.not_fails
  · rintro ⟨hno, hsafe⟩
    rcases parse_total S stack st with ⟨f, rest, σ', hb⟩ | ⟨σ', ts, hr, hs⟩ | ⟨σ', ts, hr, hf⟩
    · obtain ⟨p, st', hrun, -⟩ := parse_block hb
      exact .inl ⟨p, st', hrun⟩
    · exact absurd ⟨σ', ts, hr, hs⟩ hno
    · exact .inr (parse_fails hr hf fun hg => hsafe ⟨σ', ts, hr, hg⟩)

/-- **Counterexample**: `a , b ;` is never read. -/
theorem separator_hangs : ¬ ∀ (τ : Type) (S : Source τ) (stack : Nat → Locals) (st : ParseState τ),
    Finishes (fun k => parseSub S stack k) st := by
  intro hall
  have hhangs : Hangs (fun k => parseSub (listSource (cstr "bootd.conf")) (fun _ => plainLocals) k)
      (startState ([cstr "a"] ++ tokComma :: [cstr "b", tokSemi]) (by decide)) :=
    parse_stuck (.refl _ _) (.value _ ⟨by decide, by simp, by decide, rfl⟩ (.inl rfl))
  exact hangs_not_finishes hhangs (hall _ _ _ _)

end Bootd
