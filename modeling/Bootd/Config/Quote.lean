import Bootd.Config.Stream

/-!
# Quoted words

A word is quoted with `"`, with `'`, or with a backslash in front of each
character. Inside quotes a backslash is a character like any other.

`str_do_quote` puts a word in `"` and a backslash in front of each `"` and
backslash in it; it stops where the buffer ends.

* `quoted_semi`: a quoted word in front of a `;` is read as that word.
* `strDoQuote_fits`: what is written if the buffer is large enough.
* `out_begins`: the next token begins with the lexeme.
-/
namespace Bootd

open Bootd.Core

/-! ## Reading -/

/-- A character that stands for itself. -/
def IsPlain (c : UInt8) : Prop := c ∉ [0, 92, 34, 39, 13, 10, 32, 9, 35, 59]

instance (c : UInt8) : Decidable (IsPlain c) := inferInstanceAs (Decidable (c ∉ _))

inductive Quoting
  | double
  | single
  | backslash
  deriving DecidableEq

def Quoting.write (v : CStr) : Quoting → List UInt8
  | .double => 34 :: v ++ [34]
  | .single => 39 :: v ++ [39]
  | .backslash => escaped v

section
variable {lim : Option Nat} {l : Lex} {c : UInt8} {v b t : CStr} {cs post : List UInt8} {ts : List CStr} {m : Nat}

theorem lexChar_plain (hc : IsPlain c) (b : CStr) :
    lexChar ⟨b, false, .none, false⟩ c = .go ⟨b ++ [c], false, .none, false⟩ := by
  simp only [IsPlain, List.mem_cons, List.not_mem_nil, or_false, not_or] at hc
  simp [lexChar, lexSwitch, Lex.add, hc]

theorem lexChar_double (h0 : c ≠ 0) (h : c ≠ 34) (b : CStr) :
    lexChar ⟨b, false, .double, false⟩ c = .go ⟨b ++ [c], false, .double, false⟩ := by
  simp [lexChar, Lex.add, h0, h]

theorem lexChar_single (h0 : c ≠ 0) (h : c ≠ 39) (b : CStr) :
    lexChar ⟨b, false, .single, false⟩ c = .go ⟨b ++ [c], false, .single, false⟩ := by
  simp [lexChar, Lex.add, h0, h]

theorem not_full (h : l.b.length < m) : ¬l.Full (some m) := by
  rintro ⟨m', hm', hle⟩
  cases hm'
  omega

theorem feed_go {l' : Lex} (h : lexChar l c = .go l') (hm : l'.b.length < m) : feed (some m) l c = ([], l') := by
  rw [feed, h]
  exact if_neg (not_full hm)

/-- A quote mark. -/
theorem feed_open (q : Quote) (hq : q ≠ .none) (hm : b.length < m) :
    feed (some m) ⟨b, false, .none, false⟩ (if q = .double then 34 else 39) = ([], ⟨b, false, q, false⟩) := by
  cases q with
  | none => exact absurd rfl hq
  | single => exact feed_go (by simp [lexChar, lexSwitch]) hm
  | double => exact feed_go (by simp [lexChar, lexSwitch]) hm

theorem feed_close (q : Quote) (hq : q ≠ .none) (hm : b.length < m) :
    feed (some m) ⟨b, false, q, false⟩ (if q = .double then 34 else 39) = ([], ⟨b, false, .none, false⟩) := by
  cases q with
  | none => exact absurd rfl hq
  | single => exact feed_go (by simp [lexChar]) hm
  | double => exact feed_go (by simp [lexChar]) hm

theorem quotes_read (q : Quote) (hq : q ≠ .none)
    (hv : ∀ c ∈ v, ∀ b, lexChar ⟨b, false, q, false⟩ c = .go ⟨b ++ [c], false, q, false⟩) (hm : v.length < m) :
    let mark := if q = .double then 34 else 39
    Mealy.out (feed (some m)) .start (mark :: v ++ [mark]) = [] ∧
      Mealy.fin (feed (some m)) .start (mark :: v ++ [mark]) = ⟨v, false, .none, false⟩ := by
  have hopen : feed (some m) .start (if q = .double then 34 else 39) = ([], ⟨[], false, q, false⟩) :=
    feed_open q hq (Nat.zero_lt_of_lt hm)
  obtain ⟨ho, hf⟩ := adds (l := ⟨[], false, q, false⟩) (m := m) hv
    (by rw [List.length_nil, Nat.zero_add]; exact hm)
  simp only [List.nil_append] at hf
  simp [Mealy.out_append, Mealy.fin_append, hopen, ho, hf, feed_close q hq hm]

/-- A quoted word makes the lexeme. -/
theorem quoted_read (q : Quoting) (h0 : 0 ∉ v) (h34 : 34 ∉ v) (h39 : 39 ∉ v) (hm : v.length < m) :
    Mealy.out (feed (some m)) .start (q.write v) = [] ∧
      Mealy.fin (feed (some m)) .start (q.write v) = ⟨v, false, .none, false⟩ := by
  have hne : ∀ {d : UInt8}, d ∉ v → ∀ c ∈ v, c ≠ d := fun hd c hc h => hd (h ▸ hc)
  cases q with
  | double =>
    exact quotes_read .double (by decide) (fun c hc => lexChar_double (hne h0 c hc) (hne h34 c hc)) hm
  | single =>
    exact quotes_read .single (by decide) (fun c hc => lexChar_single (hne h0 c hc) (hne h39 c hc)) hm
  | backslash => exact escaped_adds h0 (by rw [List.length_nil, Nat.zero_add]; exact hm)

/-- Behind a word comes a `;`. -/
theorem word_semi (hv : v ≠ []) (cs : List UInt8) :
    Mealy.out (feed lim) ⟨v, false, .none, false⟩ (59 :: cs) = v :: [59] :: Mealy.out (feed lim) .start cs := by
  have hback : lexChar ⟨v, false, .none, false⟩ 59 = .back v := by simp [lexChar, lexSwitch, hv]
  rw [Mealy.out_cons, feed, hback]
  rfl

theorem word_blank (hv : v ≠ []) (cs : List UInt8) :
    Mealy.out (feed lim) ⟨v, false, .none, false⟩ (32 :: cs) = v :: Mealy.out (feed lim) .start cs := by
  have htok : lexChar ⟨v, false, .none, false⟩ 32 = .tok v := by simp [lexChar, lexSwitch, hv]
  rw [Mealy.out_cons, feed, htok]
  rfl

/-- A quoted word in front of a `;` is read as that word. -/
theorem quoted_semi (q : Quoting) (hne : v ≠ []) (h0 : 0 ∉ v) (h34 : 34 ∉ v) (h39 : 39 ∉ v) (hm : v.length < m)
    (post : List UInt8) :
    tokens (some m) (q.write v ++ 59 :: post) = v :: [59] :: tokens (some m) post := by
  have hm0 : some m ≠ some 0 := fun h => (Nat.zero_lt_of_lt hm).ne' (Option.some.inj h)
  obtain ⟨ho, hf⟩ := quoted_read q h0 h34 h39 hm
  rw [tokens_out hm0, tokens_out hm0, Mealy.out_append, ho, hf]
  exact word_semi hne post

/-- A plain word in front of a blank. -/
theorem plain_blank (hne : v ≠ []) (hv : ∀ c ∈ v, IsPlain c) (hm : v.length < m) (post : List UInt8) :
    tokens (some m) (v ++ 32 :: post) = v :: tokens (some m) post := by
  have hm0 : some m ≠ some 0 := fun h => (Nat.zero_lt_of_lt hm).ne' (Option.some.inj h)
  obtain ⟨ho, hf⟩ := adds (l := .start) (m := m) (fun c hc => lexChar_plain (hv c hc))
    (by rw [show Lex.start.b.length = 0 from rfl, Nat.zero_add]; exact hm)
  rw [tokens_out hm0, tokens_out hm0, Mealy.out_append, ho, hf]
  exact word_blank hne post

/-- What a character writes first begins with the lexeme, with the character added to it. -/
theorem feed_begins (hgo : ∀ l', lexChar l c = .go l' → Mealy.out (feed lim) l' cs = t :: ts → l'.b <+: t)
    (h : Mealy.out (feed lim) l (c :: cs) = t :: ts) : (lexChar l c).b <+: t := by
  rw [Mealy.out_cons] at h
  unfold feed at h
  cases hlex : lexChar l c with
  | go l' =>
    simp only [hlex] at h
    split at h
    · cases h; exact List.prefix_refl _
    · exact hgo l' hlex h
  | tok b =>
    simp only [hlex] at h
    cases h; exact List.prefix_refl _
  | back b =>
    simp only [hlex] at h
    cases h; exact List.prefix_refl _

/-- The next token begins with the lexeme. -/
theorem out_begins (h : Mealy.out (feed lim) l cs = t :: ts) : l.b <+: t := by
  induction cs generalizing l with
  | nil => cases h
  | cons c cs ih => exact (lexChar_begins l c).trans (feed_begins (fun l' _ h => ih h) h)

theorem out_begins_cons (h : Mealy.out (feed lim) l (c :: cs) = t :: ts) : (lexChar l c).b <+: t :=
  feed_begins (fun _ _ h => out_begins h) h

end

/-! ## Writing -/

/-- The loop, from `dst + d` on. mirrors src/str.c:463-471 -/
def quoteLoop (l : Int) : Nat → CStr → CStr
  | _, [] => []
  | d, c :: w =>
    if (d : Int) + 2 < l then
      if c = 34 ∨ c = 92 then 92 :: c :: quoteLoop l (d + 2) w else c :: quoteLoop l (d + 1) w
    else []

/-- `dst` afterwards, unless it is NULL. mirrors src/str.c:448-475 -/
def strDoQuote (w : Option CStr) (l : Int) (dst : Buf) : Buf :=
  if l < 3 then dst
  else
    let out := match w with
      | none => [34, 34, 0]
      | some w => 34 :: quoteLoop l 1 w ++ [34, 0]
    out ++ dst.drop out.length

def quoteChar (c : UInt8) : CStr := if c = 34 ∨ c = 92 then [92, c] else [c]

section
variable {l : Int} {d : Nat} {w : CStr}

theorem quoteLoop_fits (h : (d : Int) + 2 * w.length + 1 < l) : quoteLoop l d w = w.flatMap quoteChar := by
  induction w generalizing d with
  | nil => rfl
  | cons c w ih =>
    simp only [List.length_cons] at h
    rw [quoteLoop, if_pos (by omega), List.flatMap_cons, quoteChar]
    split
    · rw [ih (by omega)]; rfl
    · rw [ih (by omega)]; rfl

theorem quoteChars_nul (h0 : 0 ∉ w) : 0 ∉ w.flatMap quoteChar := by
  intro h
  obtain ⟨c, hc, h⟩ := List.mem_flatMap.mp h
  have hne : (0 : UInt8) ≠ c := fun heq => h0 (heq ▸ hc)
  unfold quoteChar at h
  split at h <;> simp [hne] at h

/-- What is written if the buffer is large enough. -/
theorem strDoQuote_fits (h0 : 0 ∉ w) (hl : 2 * (w.length : Int) + 3 < l) (dst : Buf) :
    strOf (strDoQuote (some w) l dst) = 34 :: w.flatMap quoteChar ++ [34] := by
  have hnul : (0 : UInt8) ∉ 34 :: w.flatMap quoteChar ++ [34] := by simp [quoteChars_nul h0]
  unfold strDoQuote
  simp only
  rw [if_neg (by omega), quoteLoop_fits (by omega)]
  have happ : ∀ more : Buf, 34 :: w.flatMap quoteChar ++ [34, 0] ++ more =
      (34 :: w.flatMap quoteChar ++ [34]) ++ 0 :: more := fun more => by simp
  rw [happ, strOf_append hnul, show strOf (0 :: _) = [] from rfl, List.append_nil]

end
end Bootd
