import Bootd.L2State.Log

/-!
# The log's buffer is longer than what is left of it

`log_msg` appends the message to the header with `vsnprintf(buf + strlen(buf),
sizeof(buf), fmt, ap)` (src/log.c:128): the size is that of the whole array, not of
what is behind the header. So a message of 4095 bytes is written up to place
`strlen(header) + 4095`. A message that just fits has no place for the newline that
`strcat` appends (src/log.c:135). `parse_error` does the same two steps with
`sizeof(msg) - strlen(msg)` (src/parse.c:216-218).

Counterexample: a header of 41 bytes and a message of 4060 (`long_message_overruns`).

`log_fits_iff`: which messages are put together inside the array.
-/
namespace Bootd.Log

open Bootd.Core.CString

/-- Only the array is touched, and the beginning of header and body is written, as one line. -/
def Fits (st : State) (what : BitVec 32) (header body : CStr) : Prop :=
  ∀ a ∈ msg st what header body, a.Inside bufsize ∧ ∃ t, t <+: header ++ body ∧ a.text = Arr.cut lineEnd t ++ [10]

section
variable {st : State} {what : BitVec 32} {header body : CStr}

/-- Nothing is lost between header and body if both together are short enough. -/
theorem formatted_prefix (h : (formatted header body).length < bufsize) :
    formatted header body <+: header ++ body := by
  have hlen : (formatted header body).length = min header.length (bufsize - 1) + min body.length (bufsize - 1) := by
    simp [formatted, Nat.min_comm]
  unfold formatted
  by_cases hheader : header.length ≤ bufsize - 1
  · rw [List.take_of_length_le hheader]
    exact (List.prefix_append_right_inj header).mpr (List.take_prefix _ _)
  · have hnil : body.take (bufsize - 1) = [] := by
      rw [← List.length_eq_zero_iff, List.length_take]
      unfold bufsize at *
      omega
    rw [hnil, List.append_nil]
    exact (List.take_prefix _ _).trans (List.prefix_append _ _)

end

/-- **Which messages fit.** -/
theorem log_fits_iff (st : State) (what : BitVec 32) (header body : CStr) : Fits st what header body ↔
    ¬st.Passes what ∨
      formatted header body ≠ [] ∧ (Arr.cut lineEnd (formatted header body)).length < bufsize - 1 := by
  unfold Fits msg
  by_cases hpass : st.Passes what
  · rw [if_pos hpass]
    simp only [Option.mem_some_iff, forall_eq', hpass, not_true_eq_false, false_or, line_inside, line_text]
    have hcut := cut_length_succ (p := lineEnd) (s := formatted header body)
    constructor
    · rintro ⟨⟨hne, hfit⟩, -⟩
      exact ⟨hne, Nat.lt_sub_of_add_lt hfit⟩
    · rintro ⟨hne, hfit⟩
      have hfit : (Arr.cut lineEnd (formatted header body)).length + 1 < bufsize := Nat.add_lt_of_lt_sub hfit
      exact ⟨⟨hne, hfit⟩, _, formatted_prefix (by omega), rfl⟩
  · simp [hpass]

/-- `"Jan 01 00:00:00.000 2000 [1] WARN  CONF  "` -/
def plainHeader : CStr := cstr "Jan 01 00:00:00.000 2000 [1] WARN  CONF  "

/-- **Counterexample**: `chdir` to a directory with a name of about 4000 bytes fails. -/
theorem long_message_overruns :
    ¬∀ (st : State) (what : BitVec 32) (header body : CStr), Fits st what header body := by
  intro hall
  have hin := (hall ⟨0, fun _ => logErr, fun _ => 0⟩ 258 plainHeader (List.replicate 4060 97) _ rfl).1
  have hlen : (formatted plainHeader (List.replicate 4060 97)).length = 4101 := by
    rw [formatted, List.length_append, List.length_take, List.length_take, List.length_replicate]
    rfl
  have hcut := cut_length_succ (p := lineEnd) (s := formatted plainHeader (List.replicate 4060 97))
  have hfit := ((line_inside _ _).mp hin).2
  unfold bufsize at hfit
  omega

end Bootd.Log
