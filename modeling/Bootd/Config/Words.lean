import Bootd.Config.Source
import Mathlib.Data.List.TakeWhile

/-!
# Reading words (`str.c:18-135`)

What `conf.c` makes of a word of the configuration: a truth value, a number, a
log level, an address with a port. `int` has 32 bits and `long` has 64.
-/
namespace Bootd

/-- `isspace` of the C locale. -/
def isspace (b : UInt8) : Bool := b = 32 ∨ 9 ≤ b ∧ b ≤ 13

def isdigit (b : UInt8) : Bool := 48 ≤ b ∧ b ≤ 57

/-- mirrors src/str.c:27-34 -/
def strIsEqualnc (w1 w2 : CStr) : Bool := strcasecmp w1 w2

/-- mirrors src/str.c:36-47 -/
def strIsTrue (w : CStr) : Bool :=
  strcasecmp w (cstr "yes") || strcasecmp w (cstr "true") || strcasecmp w (cstr "ok") || w == cstr "1"

/-- mirrors src/str.c:49-59 -/
def strIsFalse (w : CStr) : Bool :=
  strcasecmp w (cstr "no") || strcasecmp w (cstr "false") || w == cstr "0"

/-- mirrors src/str.c:61-76 -/
def strGetBool (w : CStr) : Option Bool :=
  if strIsTrue w then some true else if strIsFalse w then some false else none

/-- The value of decimal digits. -/
def digitsValue (ds : CStr) : Nat := ds.foldl (fun n b => n * 10 + (b.toNat - 48)) 0

/-- The sign in front of a number. -/
def signOf : CStr → Bool × CStr
  | 45 :: w => (true, w)
  | 43 :: w => (false, w)
  | w => (false, w)

/-- `strtol(w, &p, 10)`: the number, and what is left behind `p`. -/
def strtol (w : CStr) : Int × CStr :=
  let (neg, v) := signOf (w.dropWhile isspace)
  let ds := v.takeWhile isdigit
  if ds = [] then (0, w)
  else
    let n : Int := if neg then -(digitsValue ds : Int) else digitsValue ds
    (max (-2 ^ 63) (min n (2 ^ 63 - 1)), v.drop ds.length)

/-- The value stored, and whether the word ends behind the number.
mirrors src/str.c:78-84 -/
def strGetInt (w : CStr) : Int × Bool := (int32 (strtol w).1, (strtol w).2 == [])

/-- mirrors src/str.c:86-106 -/
def strGetLoglevel (w : CStr) : Option Nat :=
  if w = cstr "debug" then some 0
  else if w = cstr "info" then some 1
  else if w = cstr "warn" ∨ w = cstr "warning" then some 2
  else if w = cstr "err" ∨ w = cstr "error" then some 3
  else none

/-- `host` and `port` in the copy of the word. mirrors src/str.c:151-167 -/
def splitPort (host : CStr) : CStr × CStr :=
  if 58 ∈ host then
    let name := host.takeWhile (· ≠ 58)
    let port := (host.dropWhile (· ≠ 58)).drop 1
    (if name = cstr "*" then [] else name, if port = cstr "*" then [] else port)
  else (host, [])

/-- `stack` is what the buffers held before.
mirrors src/str.c:137-193 -/
def strGetHostport (inetAton : CStr → Option Ip) (stack : Buf) (w : CStr) : Option (CStr × CStr) :=
  if 32 ∈ w then none
  else
    let (host, port) := splitPort (strOf (strncpy stack w 256))
    let dsthost := strOf (strncpy stack host 512)
    let dstport := strOf (strncpy stack port 512)
    if dsthost.head?.any isdigit ∧ inetAton w = none then none
    else if dstport.head?.any isdigit then
      let (p, rest) := strtol dstport
      if rest ≠ [] then none
      else if p < 0 ∨ 65535 < p then none
      else some (dsthost, if p = 0 then [] else dstport)
    else some (dsthost, dstport)

section
variable {w : CStr} {b : UInt8}

theorem isdigit_iff : isdigit b = true ↔ 48 ≤ b.toNat ∧ b.toNat ≤ 57 := by
  simp only [isdigit, decide_eq_true_eq, UInt8.le_iff_toNat_le]
  rfl

theorem isspace_of_isdigit (h : isdigit b = true) : isspace b = false := by
  obtain ⟨h48, h57⟩ := isdigit_iff.mp h
  have h32 : b ≠ 32 := by
    rintro rfl
    exact absurd h48 (by decide)
  simp only [isspace, decide_eq_false_iff_not, not_or, UInt8.le_iff_toNat_le]
  exact ⟨h32, fun hle => by have : b.toNat ≤ 13 := hle.2; omega⟩

theorem signOf_of_isdigit (h : isdigit b = true) : signOf (b :: w) = (false, b :: w) := by
  obtain ⟨h48, -⟩ := isdigit_iff.mp h
  unfold signOf
  split
  · rename_i heq
    cases heq
    simp at h48
  · rename_i heq
    cases heq
    simp at h48
  · rfl

end
end Bootd
