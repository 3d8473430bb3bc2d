import Bootd.Core.CString
import Bootd.Core.LowBit
import Bootd.L1Wire.Bytes
import Mathlib.Logic.Function.Basic

/-!
# Messages (`log.c`)

An `int` holds a severity, a category and a module in bits of their own, both where a
threshold is set and where a message is written. A message is written if its severity
reaches the global threshold, that of its category or that of its module.

The date, the process and the names in front of a message are its header; header and
body are given as the texts that `snprintf` has to write.

* `Log.init`, `Log.setLevel`: the thresholds.
* `Log.msg`: the array in which a message is put together, if it is written.
* `Log.logSetModName`: the names of the modules.
* `Log.formatSafe`: the texts that may be passed as a format.
-/
namespace Bootd.Log

open Bootd.Core.CString

/-! ## Levels -/

/-- `LOG_DEBUG`, and the threshold for all that is not set. mirrors src/genutil.h:124-128 -/
def logDebug : Int := 0

def logErr : Int := 3

/-- `LOG_CONF` -/
def logConf : BitVec 32 := 1 <<< 8

/-- `LOG_LEVEL`, `LOG_CAT` and `LOG_MOD`. mirrors src/genutil.h:128-143 -/
def logLevel : BitVec 32 := 3

def logCat : BitVec 32 := 7 <<< 8

def logMod : BitVec 32 := 15 <<< 16

/-- `n & LOG_LEVEL` -/
def severity (n : BitVec 32) : Int := (n &&& logLevel).toNat

/-- `(n & LOG_CAT) >> LOG_CAT_SHIFT` -/
def catOf (n : BitVec 32) : Nat := (n &&& logCat).toNat >>> 8

/-- `(n & LOG_MOD) >> LOG_MOD_SHIFT` -/
def modOf (n : BitVec 32) : Nat := (n &&& logMod).toNat >>> 16

/-- The thresholds. mirrors src/log.c:18-20 -/
structure State where
  minlevel : Int
  cat : Nat → Int
  mod : Nat → Int

/-- Before the program starts. -/
def State.start : State := ⟨-1, fun _ => 0, fun _ => 0⟩

/-- mirrors src/log.c:80-90 -/
def setLevel (minlevel : BitVec 32) (st : State) : State :=
  if minlevel &&& logCat ≠ 0 then
    { st with cat := Function.update st.cat (catOf minlevel) (severity minlevel) }
  else if minlevel &&& logMod ≠ 0 then
    { st with mod := Function.update st.mod (modOf minlevel) (severity minlevel) }
  else { st with minlevel := minlevel.toInt }

/-- `LOG_CAT_MAX` -/
def logCatMax : Nat := 8

/-- The modules are left alone. mirrors src/log.c:37-55 -/
def init (level : BitVec 32) (st : State) : State :=
  if st.minlevel ≠ -1 then st
  else setLevel (level &&& logLevel)
    { st with minlevel := logDebug, cat := fun i => if i ≤ logCatMax then logErr else st.cat i }

/-- mirrors src/log.c:107-115 -/
def State.Passes (st : State) (what : BitVec 32) : Prop :=
  st.minlevel ≤ severity what ∨ st.cat (catOf what) ≤ severity what ∨ st.mod (modOf what) ≤ severity what

instance (st : State) (what : BitVec 32) : Decidable (st.Passes what) := inferInstanceAs (Decidable (_ ∨ _))

/-- The thresholds there can be. -/
inductive State.Reachable : State → Prop
  | start : State.Reachable .start
  | init {st : State} (level : BitVec 32) : st.Reachable → State.Reachable (init level st)
  | setLevel {st : State} (minlevel : BitVec 32) : st.Reachable → State.Reachable (setLevel minlevel st)

/-! ## Modules -/

/-- `LOG_MOD_MAX` -/
def logModMax : Nat := 16

/-- The place of a module in the table of the names, 0 if `level` is no module. mirrors src/log.c:24-35 -/
def lModlevel2modnum (level : BitVec 32) : Nat :=
  (((List.range logModMax).find? fun i => level = 1#32 <<< i).map (· + 1)).getD 0

/-- mirrors src/log.c:92-96 -/
def logSetModName (mod : BitVec 32) (name : CStr) (names : Nat → CStr) : Nat → CStr :=
  Function.update names (lModlevel2modnum mod) name

/-- `l_mod_names` before the program starts. -/
def lModNames : Nat → CStr := fun _ => []

/-! ## Formats -/

/-- A text that can stand as the format of a message without arguments: its percent signs come in pairs. For
any other conversion `vsnprintf` takes an argument that was not passed. -/
def formatSafe : CStr → Bool
  | 37 :: 37 :: s => formatSafe s
  | c :: s => c ≠ 37 && formatSafe s
  | [] => true

/-! ## Messages -/

/-- `sizeof(buf)` -/
def bufsize : Nat := 4096

/-- A line feed or a carriage return. -/
def lineEnd (c : UInt8) : Bool := c = 10 ∨ c = 13

/-- What both formats leave in the array. -/
def formatted (header body : CStr) : CStr := header.take (bufsize - 1) ++ body.take (bufsize - 1)

/-- The array when it was written to the file. mirrors src/log.c:121-136 -/
def line (header body : CStr) : Arr UInt8 :=
  let a := Arr.fresh.format 0 bufsize header
  let a := a.scan.format a.text.length bufsize body
  ((a.chop lineEnd).append [10]).scan

/-- mirrors src/log.c:98-142 -/
def msg (st : State) (what : BitVec 32) (header body : CStr) : Option (Arr UInt8) :=
  if st.Passes what then some (line header body) else none

/-- A message and what becomes of the program: behind an error that is written, `exit(1)`.
mirrors src/log.c:107-141 -/
def logMsg (st : State) (what : BitVec 32) (body : CStr) : Except CStr Unit :=
  if st.Passes what ∧ severity what = logErr then .error body else .ok ()

section
variable {s t : CStr} {c : UInt8}

@[simp] theorem formatSafe_nil : formatSafe [] = true := rfl

theorem formatSafe_cons (hc : c ≠ 37) : formatSafe (c :: s) = formatSafe s := by
  rw [formatSafe]
  · simp [hc]
  · simp [hc]

/-- Two texts with a byte between them that is no percent sign. -/
theorem formatSafe_append_cons (hc : c ≠ 37) : formatSafe (s ++ c :: t) = (formatSafe s && formatSafe t) := by
  fun_induction formatSafe s with
  | case1 s ih => simpa [formatSafe] using ih
  | case2 d s hpair ih =>
    by_cases hd : d = 37
    · subst hd
      have hlone : ∀ u, s ++ c :: t ≠ 37 :: u := by
        intro u hu
        cases s with
        | nil => exact hc (List.cons.inj hu).1
        | cons b s => exact hpair s rfl (by rw [(List.cons.inj hu).1])
      rw [List.cons_append, formatSafe]
      · simp
      · exact fun u _ hu => hlone u hu
    · rw [List.cons_append, formatSafe_cons hd, ih]
      simp [hd]
  | case3 => rw [List.nil_append, formatSafe_cons hc]; rfl

theorem formatSafe_append (h : 37 ∉ s) : formatSafe (s ++ t) = formatSafe t := by
  induction s with
  | nil => rfl
  | cons b s ih =>
    obtain ⟨hb, hs⟩ := not_or.mp (mt List.mem_cons.mpr h)
    rw [List.cons_append, formatSafe_cons (Ne.symm hb)]
    exact ih hs

theorem formatSafe_plain (h : 37 ∉ s) : formatSafe s = true := by
  have hnil := formatSafe_append (t := []) h
  rwa [List.append_nil] at hnil

end

section
variable {st : State} {n what : BitVec 32} {header body : CStr}

/-- The table of the categories has nine entries. -/
theorem catOf_lt (n : BitVec 32) : catOf n < logCatMax := by
  have h : (n &&& logCat).toNat ≤ 1792 := by
    rw [BitVec.toNat_and]
    exact Nat.and_le_right
  unfold catOf logCatMax
  rw [Nat.shiftRight_eq_div_pow]
  omega

/-- No severity is above `LOG_ERR`. -/
theorem severity_le (n : BitVec 32) : severity n ≤ logErr := by
  have h : (n &&& logLevel).toNat ≤ 3 := by
    rw [BitVec.toNat_and]
    exact Nat.and_le_right
  unfold severity logErr
  omega

theorem severity_nonneg (n : BitVec 32) : 0 ≤ severity n := Int.natCast_nonneg _

/-- No threshold of a category is above `LOG_ERR`. -/
theorem State.Reachable.cat_le (h : st.Reachable) (k : Nat) : st.cat k ≤ logErr := by
  have hset (st : State) (hst : ∀ k, st.cat k ≤ logErr) (n : BitVec 32) (k : Nat) :
      (Log.setLevel n st).cat k ≤ logErr := by
    unfold Log.setLevel
    split_ifs
    · refine (Function.update_apply _ _ _ _).trans_le ?_
      split_ifs
      · exact severity_le n
      · exact hst k
    · exact hst k
    · exact hst k
  induction h generalizing k with
  | start => exact (by decide : (0 : Int) ≤ logErr)
  | setLevel n _ ih => exact hset _ ih n k
  | @init st level _ ih =>
    unfold Log.init
    split_ifs
    · exact ih k
    · refine hset _ (fun k => ?_) _ k
      show (if k ≤ logCatMax then logErr else st.cat k) ≤ logErr
      split_ifs
      · exact le_refl _
      · exact ih k

/-- **An error is always written.** -/
theorem State.Reachable.passes (h : st.Reachable) (hwhat : severity what = logErr) : st.Passes what :=
  .inr (.inl (hwhat ▸ h.cat_le _))

/-- Each module has a place of its own. -/
theorem lModlevel2modnum_bit {k : Nat} (hk : k < logModMax) : lModlevel2modnum (1#32 <<< k) = k + 1 := by
  have hfind : (List.range logModMax).find? (fun i => 1#32 <<< k = 1#32 <<< i) = some k := by
    refine List.find?_range_eq_some.mpr ⟨decide_eq_true rfl, List.mem_range.mpr hk, fun j hj => ?_⟩
    unfold logModMax at hk
    rw [Bool.not_eq_true', decide_eq_false_iff_not]
    exact fun heq => hj.ne ((Core.LowBit.bit_inj (by omega) (by omega)).mp heq).symm
  rw [lModlevel2modnum, hfind]
  rfl

theorem msg_isSome : (msg st what header body).isSome ↔ st.Passes what := by
  unfold msg
  split <;> simp [*]

/-- Header and body, in front of the search for a line end. -/
theorem formats_text (header body : CStr) : ((Arr.fresh.format 0 bufsize header).scan.format
    (Arr.fresh.format 0 bufsize header).text.length bufsize body).text = formatted header body := by
  have hheader : (Arr.fresh.format 0 bufsize header).text = header.take (bufsize - 1) := format_text rfl (by decide)
  rw [format_text, scan_text, hheader]
  · rfl
  · rw [scan_text]
  · decide

/-- A line end of the message is replaced by that of the log. -/
theorem line_text (header body : CStr) :
    (line header body).text = Arr.cut lineEnd (formatted header body) ++ [10] := by
  unfold line
  rw [scan_text, append_text, chop_text, formats_text]

/-- The message without its line end needs room for that of the log and for the NUL. -/
theorem line_inside (header body : CStr) : (line header body).Inside bufsize ↔
    formatted header body ≠ [] ∧ (Arr.cut lineEnd (formatted header body)).length + 1 < bufsize := by
  have hheader : (Arr.fresh.format 0 bufsize header).text = header.take (bufsize - 1) := format_text rfl (by decide)
  have hlen : (formatted header body).length = min header.length (bufsize - 1) + min body.length (bufsize - 1) := by
    simp [formatted, Nat.min_comm]
  have hpos : formatted header body ≠ [] ↔ 0 < (formatted header body).length := List.length_pos_iff.symm
  have hcut := cut_length_succ (p := lineEnd) (s := formatted header body)
  unfold line
  rw [inside_scan, inside_append, inside_chop, append_text, chop_text, formats_text, inside_format (by decide),
    inside_scan, inside_format (by decide), hheader, hpos]
  simp only [inside_fresh, true_and, List.length_take, List.length_append, List.length_singleton]
  unfold bufsize at *
  omega

end
end Bootd.Log
