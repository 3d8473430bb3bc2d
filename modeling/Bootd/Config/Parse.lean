import Bootd.Config.Numbers
import Bootd.Config.Table
import Bootd.L2State.Log

/-!
# The configuration parser

`parse_sub` reads statements until it comes to a `}` or to the end of the file.
The entries are linked through `prev_next`, which aims at the local `result`
first and at the `next` field of the last entry from then on. `result` and the
buffer `w` are not initialised: `Locals` is what the stack held, for every call.

The recursion and the two loops share one fuel. `parseValues` is the inner loop;
its branch for `,` and `|` goes round without reading.

`gen_tokenize_error` puts the text of its report together and then passes it to
`log_msg` as the format, so a percent sign in the name of the file or in a word that
is reported can make it read arguments that are not there (`ParseStop.format`).

* `parseFile`, `parseSub`: the functions of src/parse.c.
-/
namespace Bootd

open Bootd.Core

/-- What `gen_tokenize_error` prints before the program exits. -/
structure Report where
  file : CStr
  line : Nat
  msg : CStr
  deriving DecidableEq

/-- The text behind the header of the log. mirrors src/tokenize.c:247-250 -/
def Report.text (r : Report) : CStr := r.file ++ cstr ":" ++ decText r.line ++ cstr ": " ++ r.msg

/-- How a run of the parser stops without returning. -/
inductive ParseStop
  | report (r : Report)
  /-- `log_msg` follows an argument that was not passed -/
  | format
  /-- no fuel is left -/
  | fuel
  deriving DecidableEq

/-- `log_msg(LOG_ERR | LOG_CONF, text)`: the text is the format. -/
def Report.stop (r : Report) : ParseStop := if Log.formatSafe r.text then .report r else .format

/-- The uninitialised locals of one call of `parse_sub`. -/
structure Locals where
  w : Buf
  result : Option EntId

/-- `calls` counts the calls of `parse_sub`. -/
structure ParseState (τ : Type) where
  tok : τ
  tbl : Tables
  mem : EntId → Entry
  calls : Nat

abbrev ParseM (τ : Type) := EStateM ParseStop (ParseState τ)

/-- `PARSE_VALUES_MAX`. -/
def parseValuesMax : Nat := 32

section
variable {τ : Type}

def ParseState.setEntry (st : ParseState τ) (e : EntId) (f : Entry → Entry) : ParseState τ :=
  { st with mem := Function.update st.mem e (f (st.mem e)) }

def setEntry (e : EntId) (f : Entry → Entry) : ParseM τ Unit := modify (·.setEntry e f)

variable (S : Source τ)

/-- mirrors src/tokenize.c:242-252 -/
def genTokenizeError {α : Type} (msg : CStr) : ParseM τ α := do
  throw (Report.stop ⟨S.fname, S.y (← get).tok + 1, msg⟩)

/-- `gen_tokenize_next` into `w`, which it leaves alone at the end of the file.
mirrors src/tokenize.c:185-219 -/
def genTokenizeNext (w : Buf) : ParseM τ (Bool × Buf) := do
  let st ← get
  set { st with tok := (S.next st.tok).2 }
  match (S.next st.tok).1 with
  | some b => pure (true, strncpy w b parseStringMax)
  | none => pure (false, w)

def parseStringAdd (s : CStr) : ParseM τ StrId := do
  let st ← get
  match st.tbl.stringAdd s with
  | .ok (p, T) => set { st with tbl := T }; pure p
  | .error msg => genTokenizeError S msg

def parseEntryNew : ParseM τ EntId := do
  let st ← get
  match st.tbl.entryNew with
  | .ok (e, T) => set { st with tbl := T, mem := Function.update st.mem e .zero }; pure e
  | .error msg => genTokenizeError S msg

/-- `*prev_next = e`: into `result`, or into the entry before. -/
def linkEntry (prev result : Option EntId) (e : EntId) : ParseM τ (Option EntId) :=
  match prev with
  | none => pure (some e)
  | some p => do
    setEntry p ({ · with next := some e })
    pure result

def valuesExceeded : CStr := cstr "maximum number of values (32) exceeded"

/-- The values of entry `e`. mirrors src/parse.c:192-202 -/
def parseValues (e : EntId) : Nat → Buf → ParseM τ Buf
  | 0, _ => throw .fuel
  | fuel + 1, w => do
    if strOf w = tokOpen ∨ strOf w = tokSemi then pure w
    else if strOf w = tokComma ∨ strOf w = tokBar then
      -- accept blanks, ',' and '|' as separators: `continue`, with the same `w`
      parseValues e fuel w
    else if parseValuesMax ≤ ((← get).mem e).values.length then
      genTokenizeError S valuesExceeded
    else
      let v ← parseStringAdd S (strOf w)
      setEntry e fun x => { x with values := x.values ++ [v] }
      let (_, w) ← genTokenizeNext S w
      parseValues e fuel w

/-- A new entry named by the word in `w`, and the token that follows.
mirrors src/parse.c:176-191 -/
def parseHead (prev result : Option EntId) (w : Buf) : ParseM τ (EntId × Option EntId × Buf) := do
  let e ← parseEntryNew S
  let result ← linkEntry prev result e
  let name ← parseStringAdd S (strOf w)
  let line := S.y (← get).tok
  setEntry e fun x => { x with
    name := some name, values := [], next := none, sub := none, processed := false, line := line }
  let file ← parseStringAdd S S.fname
  setEntry e ({ · with filename := some file })
  let (_, w) ← genTokenizeNext S w
  pure (e, result, w)

/-- A call of `parse_sub` begins. -/
def enterSub (stack : Nat → Locals) : ParseM τ Locals := do
  let st ← get
  set { st with calls := st.calls + 1 }
  pure (stack st.calls)

/-- The loop of `parse_sub`. mirrors src/parse.c:171-208 -/
def parseLoop (stack : Nat → Locals) : Nat → Buf → Option EntId → Option EntId → ParseM τ (Option EntId)
  | 0, _, _, _ => throw .fuel
  | fuel + 1, w, prev, result => do
    let (more, w) ← genTokenizeNext S w
    if more ∧ strOf w ≠ tokClose then
      let (e, result, w) ← parseHead S prev result w
      let w ← parseValues S e fuel w
      if strOf w = tokOpen then
        -- the recursive call
        let locals ← enterSub stack
        let sub ← parseLoop stack fuel locals.w none locals.result
        setEntry e ({ · with sub := sub })
      parseLoop stack fuel w (some e) result
    else pure result

/-- mirrors src/parse.c:163-209 -/
def parseSub (stack : Nat → Locals) (fuel : Nat) : ParseM τ (Option EntId) := do
  let locals ← enterSub stack
  parseLoop S stack fuel locals.w none locals.result

end

/-- `parse_file`, with the tables as the program starts with them and the
tokenizer `gen_tokenize_new` returns. mirrors src/parse.c:28-43 -/
def parseFile {τ : Type} (S : Source τ) (stack : Nat → Locals) (mem : EntId → Entry) (tokenize : τ)
    (fuel : Nat) : EStateM.Result ParseStop (ParseState τ) (Option EntId) :=
  parseSub S stack fuel ⟨tokenize, .empty, mem, 0⟩

/-! ## Reports -/

section
variable {r : Report}

/-- The line has no percent sign. -/
theorem text_safe (r : Report) :
    Log.formatSafe r.text = (Log.formatSafe r.file && Log.formatSafe r.msg) := by
  have htext : r.text = r.file ++ 58 :: (decText r.line ++ 58 :: 32 :: r.msg) := by
    simp [Report.text, cstr]
  rw [htext, Log.formatSafe_append_cons (by decide), Log.formatSafe_append (decText_plain _),
    Log.formatSafe_cons (by decide), Log.formatSafe_cons (by decide)]

theorem stop_safe (hfile : Log.formatSafe r.file = true) (hmsg : Log.formatSafe r.msg = true) :
    r.stop = .report r := by
  rw [Report.stop, text_safe, hfile, hmsg]
  rfl

theorem stop_format (h : Log.formatSafe r.file = false ∨ Log.formatSafe r.msg = false) : r.stop = .format := by
  rw [Report.stop, text_safe]
  rcases h with h | h <;> simp [h]

/-- A report that was printed is the one that was made. -/
theorem stop_report {r' : Report} (h : r.stop = .report r') :
    r = r' ∧ Log.formatSafe r.file = true ∧ Log.formatSafe r.msg = true := by
  rw [Report.stop, text_safe] at h
  split at h
  · rename_i hsafe
    exact ⟨ParseStop.report.inj h, Bool.and_eq_true_iff.mp hsafe⟩
  · cases h

end

/-! ## Settings for runs on concrete inputs -/

/-- Locals full of zeros. -/
def plainLocals : Locals := ⟨[], none⟩

/-- A parser in front of the tokens `ts`. -/
def startState (ts : List CStr) (h : ∀ tok ∈ ts, 0 ∉ tok) :
    ParseState { ts : List CStr // ∀ tok ∈ ts, 0 ∉ tok } :=
  ⟨⟨ts, h⟩, .empty, fun _ => .zero, 0⟩

end Bootd
