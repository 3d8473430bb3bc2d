import Bootd.L1Wire.Bytes

/-!
# Tokens and the word buffer

`parse_sub` sees the tokenizer through `gen_tokenize_next`, which copies a token
into the buffer `w` with the program's own `strncpy`. A `Source` is anything
that hands out tokens one after the other; `rest` are the ones still to come.

`strncpy` writes at most 255 bytes of `w` and, for a longer token, a NUL behind
the array. So byte 255 of `w` keeps what the stack held before. `word` is the
string then found in `w`, unless it is too long to be stored.

* `strOf_strncpy`: what is in `w` after a token was copied.
* `strOf_strncpy_delim`: `w` is a one-byte token exactly if the token is.
-/
namespace Bootd

/-- `PARSE_STRING_MAX`. -/
def parseStringMax : Nat := 256

/-! The tokens `parse_sub` compares with. -/

def tokOpen : CStr := cstr "\x7b"
def tokClose : CStr := cstr "\x7d"
def tokSemi : CStr := cstr ";"
def tokComma : CStr := cstr ","
def tokBar : CStr := cstr "|"

/-- `w` and the bytes behind it. -/
abbrev Buf := List UInt8

/-- The C string at the start of a buffer. -/
def strOf (w : Buf) : CStr := w.takeWhile (· ≠ 0)

/-- The program's `strncpy`. mirrors src/replace.c:7-26 -/
def strncpy (dst : Buf) (src : CStr) (size : Nat) : Buf :=
  let dst' := (src ++ [0]).take (size - 1) ++ dst.drop (min (src.length + 1) (size - 1))
  if size ≤ src.length then dst'.set size 0 else dst'

/-- Byte 255 of `w`. -/
def Buf.last (w : Buf) : UInt8 := (w.drop 255).headD 0

/-- The string in `w` after `gen_tokenize_next`, if `parse_string_add` takes it. -/
def word (c : UInt8) (tok : CStr) : Option CStr :=
  if tok.length ≤ 254 then some tok else if c = 0 then some (tok.take 255) else none

/-- A stream of tokens. -/
structure Source (τ : Type) where
  /-- the token's bytes, `none` at the end of the file -/
  next : τ → Option CStr × τ
  /-- `tokenize->y` -/
  y : τ → Nat
  /-- `tokenize->fname` -/
  fname : CStr
  /-- the tokens still to come -/
  rest : τ → List CStr
  next_eq : ∀ t, (next t).1 = (rest t).head?
  rest_next : ∀ t, rest (next t).2 = (rest t).tail
  nul : ∀ t, ∀ tok ∈ rest t, 0 ∉ tok

/-- The tokens of a list, all on one line. -/
def listSource (fname : CStr) : Source { ts : List CStr // ∀ tok ∈ ts, 0 ∉ tok } where
  next ts := (ts.1.head?, ⟨ts.1.tail, fun tok h => ts.2 tok (List.mem_of_mem_tail h)⟩)
  y _ := 0
  fname := fname
  rest := Subtype.val
  next_eq _ := rfl
  rest_next _ := rfl
  nul ts := ts.2

/-! ## What is in `w` -/

section
variable {w : Buf} {tok : CStr} {c d : UInt8}

theorem last_strncpy (w : Buf) (tok : CStr) : (strncpy w tok 256).last = w.last := by
  unfold strncpy Buf.last
  simp only
  rcases Nat.lt_or_ge tok.length 255 with hlt | hge
  · rw [if_neg (by omega), List.take_of_length_le (by simp; omega), List.drop_append, List.drop_drop]
    have h : (tok ++ [0]).drop 255 = ([] : List UInt8) := List.drop_of_length_le (by simp; omega)
    rw [h, List.nil_append, Nat.min_eq_left (by omega)]
    congr 2
    simp; omega
  · have hlen : ((tok ++ [0]).take 255).length = 255 := by simp; omega
    have hdrop : (((tok ++ [0]).take 255) ++ w.drop 255).drop 255 = w.drop 255 := List.drop_left' hlen
    rw [Nat.min_eq_right (by omega)]
    split
    · rw [List.drop_set, if_neg (by omega), hdrop]
      cases w.drop 255 <;> rfl
    · rw [hdrop]

theorem strOf_append (h : 0 ∉ tok) (w : Buf) : strOf (tok ++ w) = tok ++ strOf w := by
  unfold strOf
  rw [List.takeWhile_append_of_pos]
  intro b hb
  simp only [ne_eq, decide_eq_true_eq]
  exact fun h0 => h (h0 ▸ hb)

theorem strOf_strncpy_fits {size : Nat} (h0 : 0 ∉ tok) (h : tok.length + 2 ≤ size) :
    strOf (strncpy w tok size) = tok := by
  unfold strncpy
  simp only
  rw [if_neg (by omega), List.take_of_length_le (by simp; omega), List.append_assoc, strOf_append h0]
  simp [strOf]

theorem strOf_strncpy_short (h0 : 0 ∉ tok) (h : tok.length ≤ 254) : strOf (strncpy w tok 256) = tok :=
  strOf_strncpy_fits h0 (by omega)

theorem strOf_strncpy_long (w : Buf) (h0 : 0 ∉ tok) (h : 255 ≤ tok.length) :
    strOf (strncpy w tok 256) = tok.take 255 ++ strOf ((strncpy w tok 256).drop 255) := by
  have h0' : 0 ∉ tok.take 255 := fun hm => h0 (List.mem_of_mem_take hm)
  have htake : (strncpy w tok 256).take 255 = tok.take 255 := by
    have hpre : ((tok ++ [0]).take 255).take 255 = tok.take 255 := by
      rw [List.take_take, Nat.min_self, List.take_append_of_le_length h]
    have hlen : ((tok ++ [0]).take (256 - 1)).length = 255 := by simp; omega
    unfold strncpy
    simp only
    split
    · rw [List.take_set_of_le (by omega), List.take_append_of_le_length (by omega), hpre]
    · rw [List.take_append_of_le_length (by omega), hpre]
  conv_lhs => rw [← List.take_append_drop 255 (strncpy w tok 256), htake]
  exact strOf_append h0' _

theorem strOf_cons (w : Buf) (hw : w.headD 0 ≠ 0) : 1 ≤ (strOf w).length := by
  cases w with
  | nil => exact absurd rfl hw
  | cons b w =>
    have hb : b ≠ 0 := hw
    simp [strOf, hb]

theorem strOf_headD (w : Buf) (hw : w.headD 0 = 0) : strOf w = [] := by
  cases w with
  | nil => rfl
  | cons b w =>
    have hb : b = 0 := hw
    simp [strOf, hb]

/-- What is in `w` after a token was copied. -/
theorem strOf_strncpy (w : Buf) (h0 : 0 ∉ tok) :
    match word w.last tok with
    | some s => strOf (strncpy w tok 256) = s ∧ s.length < parseStringMax
    | none => parseStringMax ≤ (strOf (strncpy w tok 256)).length := by
  unfold word parseStringMax
  rcases Nat.lt_or_ge tok.length 255 with hlt | hge
  · rw [if_pos (by omega)]
    exact ⟨strOf_strncpy_short h0 (by omega), by omega⟩
  · rw [if_neg (by omega)]
    have hlast := last_strncpy w tok
    have hlong := strOf_strncpy_long w h0 hge
    split
    · rename_i hc
      split at hc
      · cases hc
        rename_i hz
        rw [hlong, strOf_headD _ (hlast.trans hz), List.append_nil]
        exact ⟨rfl, by simp⟩
      · cases hc
    · rename_i hc
      split at hc
      · cases hc
      · rename_i hz
        have h1 := strOf_cons _ (show (strncpy w tok 256).last ≠ 0 from hlast.trans_ne hz)
        rw [hlong, List.length_append, List.length_take]
        omega

/-- Of a token that cannot be stored, `w` shows the first 255 bytes. -/
theorem strOf_strncpy_take (w : Buf) (h0 : 0 ∉ tok) (h : word c tok = none) :
    (strOf (strncpy w tok 256)).take 255 = tok.take 255 := by
  have hge : 255 ≤ tok.length := by
    by_contra hlt
    rw [word, if_pos (by omega)] at h
    cases h
  rw [strOf_strncpy_long w h0 hge, List.take_append_of_le_length (by simp; omega), List.take_take, Nat.min_self]

/-- `w` is a one-byte string exactly if the token is. -/
theorem strOf_strncpy_delim (h0 : 0 ∉ tok) : strOf (strncpy w tok 256) = [d] ↔ tok = [d] := by
  rcases Nat.lt_or_ge tok.length 255 with hlt | hge
  · rw [strOf_strncpy_short h0 (by omega)]
  · constructor
    · intro h
      have hlen := congrArg List.length h
      rw [strOf_strncpy_long w h0 hge, List.length_append, List.length_take, List.length_singleton] at hlen
      omega
    · intro h
      rw [h, List.length_singleton] at hge
      omega

theorem word_short (h : tok.length ≤ 254) : word c tok = some tok := if_pos h

end
end Bootd
