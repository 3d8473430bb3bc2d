import Bootd.L1Wire.Bytes

/-!
# The rules for tokens

`lexChar` is one round of the loop in `gen_tokenize_tokenize`: what one more
character does to the token under construction and to the flags `esc`, `quo` and
`com`. `tokens` applies the rules in a single pass over a whole text; a lexeme
that reaches `lim` bytes is cut there, and the lexeme at the end of the text that
no character ends is no token.

* `tokens_eq`: one token, then the rest.
* `tokens_short`: without a limit, if no lexeme reaches it.
* `tokens_cut`: the tokens up to the first that reaches it.
-/
namespace Bootd

inductive Quote
  | none
  /-- between `'` -/
  | single
  /-- between `"` -/
  | double
  deriving DecidableEq

/-- The locals of the loop; `t` is the length of `b`. -/
structure Lex where
  b : CStr
  esc : Bool
  quo : Quote
  com : Bool
  deriving DecidableEq

/-- The start of a token. -/
def Lex.start : Lex := ⟨[], false, .none, false⟩

/-- What a character does. -/
inductive LexStep
  | go (l : Lex)
  /-- the token is complete -/
  | tok (b : CStr)
  /-- the token is complete, and the character is put back -/
  | back (b : CStr)
  deriving DecidableEq

/-- The bytes after a round. -/
def LexStep.b : LexStep → CStr
  | .go l => l.b
  | .tok b => b
  | .back b => b

def Lex.add (l : Lex) (c : UInt8) : Lex := { l with b := l.b ++ [c] }

/-- A character outside of quotes. mirrors src/tokenize.c:132-171 -/
def lexSwitch (l : Lex) (c : UInt8) : LexStep :=
  if c = 92 then .go { l with esc := true }
  else if c = 34 then .go { l with quo := .double }
  else if c = 39 then .go { l with quo := .single }
  else if c = 13 ∨ c = 10 ∨ c = 32 ∨ c = 9 then
    if l.b ≠ [] then .tok l.b else .go l
  else if c = 35 then .go { l with com := true }
  else if c = 59 then
    if l.b = [] then .tok [59] else .back l.b
  else .go (l.add c)

/-- mirrors src/tokenize.c:87-172 (without the positions) -/
def lexChar (l : Lex) (c : UInt8) : LexStep :=
  if (c = 10 ∨ c = 13) ∧ l.com then .go { l with com := false }
  else if l.com then .go l
  else if c = 0 then
    if l.b = [] then .go l else .tok l.b
  else if l.esc then .go { l.add c with esc := false }
  else if l.quo = .double ∧ c = 34 then .go { l with quo := .none }
  else if l.quo = .single ∧ c = 39 then .go { l with quo := .none }
  else if l.quo ≠ .none then .go (l.add c)
  else lexSwitch l c

/-! ## A single pass -/

/-- Where a pass for one token ends. -/
inductive Lexed
  /-- the end of the text, with a lexeme that is not complete -/
  | eof (b : CStr)
  | tok (b : CStr) (rest : List UInt8)

/-- The bytes of a lexeme. -/
def Lexed.b : Lexed → CStr
  | .eof b => b
  | .tok b _ => b

/-- The lexeme has reached the limit. -/
def Lex.Full (lim : Option Nat) (l : Lex) : Prop := ∃ m ∈ lim, m ≤ l.b.length

instance (lim : Option Nat) (l : Lex) : Decidable (l.Full lim) :=
  match lim with
  | none => .isFalse fun ⟨_, h, _⟩ => nomatch h
  | some m => decidable_of_iff (m ≤ l.b.length)
      ⟨fun h => ⟨m, rfl, h⟩, fun ⟨_, hm, h⟩ => Option.some.inj hm ▸ h⟩

def lexOne (lim : Option Nat) : Lex → List UInt8 → Lexed
  | l, [] => if l.Full lim then .tok l.b [] else .eof l.b
  | l, c :: cs =>
    if l.Full lim then .tok l.b (c :: cs)
    else match lexChar l c with
      | .go l => lexOne lim l cs
      | .tok b => .tok b cs
      | .back b => .tok b (c :: cs)

/-- The lexemes of a text: its tokens, and what is left at its end. -/
def lexemesOf (lim : Option Nat) : Nat → List UInt8 → List CStr
  | 0, _ => []
  | n + 1, cs =>
    match lexOne lim .start cs with
    | .eof b => [b]
    | .tok b rest => b :: lexemesOf lim n rest

def lexemes (lim : Option Nat) (cs : List UInt8) : List CStr := lexemesOf lim (cs.length + 1) cs

/-- The tokens of a text. -/
def tokens (lim : Option Nat) (cs : List UInt8) : List CStr := (lexemes lim cs).dropLast

example : tokens none (cstr "a 'b c';# d\n\"\"e f") = [cstr "a", cstr "b c", cstr ";", cstr "e"] := by decide

/-! ## Every token takes a character -/

section
variable {lim : Option Nat} {l l' : Lex} {c : UInt8} {cs rest : List UInt8} {b : CStr}

theorem lexSwitch_b (h0 : c ≠ 0) :
    (lexSwitch l c).b = l.b ∨ c ≠ 0 ∧ (lexSwitch l c).b = l.b ++ [c] := by
  unfold lexSwitch
  split; · exact .inl rfl
  split; · exact .inl rfl
  split; · exact .inl rfl
  split
  · split <;> exact .inl rfl
  split; · exact .inl rfl
  split
  · split
    · rename_i hc hb
      exact .inr ⟨h0, by rw [hb, hc]; rfl⟩
    · exact .inl rfl
  · exact .inr ⟨h0, rfl⟩

/-- A round adds the character, or nothing. -/
theorem lexChar_b (l : Lex) (c : UInt8) :
    (lexChar l c).b = l.b ∨ c ≠ 0 ∧ (lexChar l c).b = l.b ++ [c] := by
  unfold lexChar
  split; · exact .inl rfl
  split; · exact .inl rfl
  split
  · split <;> exact .inl rfl
  rename_i h0
  split; · exact .inr ⟨h0, rfl⟩
  split; · exact .inl rfl
  split; · exact .inl rfl
  split; · exact .inr ⟨h0, rfl⟩
  exact lexSwitch_b h0

theorem lexSwitch_back (h : lexSwitch l c = .back b) : b = l.b ∧ b ≠ [] := by
  unfold lexSwitch at h
  split at h; · cases h
  split at h; · cases h
  split at h; · cases h
  split at h
  · split at h <;> cases h
  split at h; · cases h
  split at h
  · split at h
    · cases h
    · cases h; exact ⟨rfl, ‹_›⟩
  · cases h

/-- A character is put back only behind a token that is not empty. -/
theorem lexChar_back (h : lexChar l c = .back b) : b = l.b ∧ b ≠ [] := by
  unfold lexChar at h
  split at h; · cases h
  split at h; · cases h
  split at h
  · split at h <;> cases h
  split at h; · cases h
  split at h; · cases h
  split at h; · cases h
  split at h; · cases h
  exact lexSwitch_back h

/-- What is left behind a token is shorter, if the token began in the text. -/
theorem lexOne_length (h : lexOne lim l cs = .tok b rest) :
    rest.length ≤ cs.length ∧ (l.b = [] → lim ≠ some 0 → rest.length < cs.length) := by
  induction cs generalizing l with
  | nil =>
    unfold lexOne at h
    split at h
    · rename_i hfull
      cases h
      obtain ⟨m, hm, hle⟩ := hfull
      refine ⟨Nat.le_refl _, fun hb h0 => ?_⟩
      rw [hb] at hle
      exact absurd (by rw [hm, Nat.le_zero.mp hle]) h0
    · cases h
  | cons c cs ih =>
    unfold lexOne at h
    split at h
    · rename_i hfull
      cases h
      obtain ⟨m, hm, hle⟩ := hfull
      refine ⟨Nat.le_refl _, fun hb h0 => ?_⟩
      rw [hb] at hle
      exact absurd (by rw [hm, Nat.le_zero.mp hle]) h0
    · split at h
      · have hle := (ih h).1
        simp only [List.length_cons]
        exact ⟨by omega, fun _ _ => by omega⟩
      · cases h; simp
      · rename_i b' hback
        cases h
        obtain ⟨rfl, hne⟩ := lexChar_back hback
        exact ⟨Nat.le_refl _, fun hb => absurd hb hne⟩

theorem lexemesOf_fuel (h0 : lim ≠ some 0) {n m : Nat} (hn : cs.length < n) (hm : cs.length < m) :
    lexemesOf lim n cs = lexemesOf lim m cs := by
  induction n generalizing m cs with
  | zero => omega
  | succ n ih =>
    cases m with
    | zero => omega
    | succ m =>
      unfold lexemesOf
      split
      · rfl
      · rename_i b rest hlex
        have hlt := (lexOne_length hlex).2 rfl h0
        rw [ih (m := m) (by omega) (by omega)]

theorem lexemes_eq (h0 : lim ≠ some 0) (cs : List UInt8) : lexemes lim cs =
    match lexOne lim .start cs with
    | .eof b => [b]
    | .tok b rest => b :: lexemes lim rest := by
  unfold lexemes
  rw [lexemesOf]
  split
  · rfl
  · rename_i b rest hlex
    have hlt := (lexOne_length hlex).2 rfl h0
    rw [lexemesOf_fuel h0 hlt (Nat.lt_succ_self _)]

theorem lexemes_ne_nil (h0 : lim ≠ some 0) (cs : List UInt8) : lexemes lim cs ≠ [] := by
  rw [lexemes_eq h0]
  split <;> simp

/-- One token, then the rest. -/
theorem tokens_eq (h0 : lim ≠ some 0) (cs : List UInt8) : tokens lim cs =
    match lexOne lim .start cs with
    | .eof _ => []
    | .tok b rest => b :: tokens lim rest := by
  unfold tokens
  rw [lexemes_eq h0]
  split
  · rfl
  · exact List.dropLast_cons_of_ne_nil (lexemes_ne_nil h0 _)

/-! ## The limit -/

/-- A round takes nothing back. -/
theorem lexChar_begins (l : Lex) (c : UInt8) : l.b <+: (lexChar l c).b := by
  rcases lexChar_b l c with h | ⟨-, h⟩
  · exact ⟨[], by rw [h, List.append_nil]⟩
  · exact ⟨[c], h.symm⟩

/-- A lexeme is only made longer. -/
theorem lexOne_begins (lim : Option Nat) (l : Lex) (cs : List UInt8) : l.b <+: (lexOne lim l cs).b := by
  induction cs generalizing l with
  | nil => unfold lexOne; split <;> exact List.prefix_refl _
  | cons c cs ih =>
    have hb := lexChar_begins l c
    unfold lexOne
    split
    · exact List.prefix_refl _
    · split
      · rename_i l' hgo
        rw [hgo] at hb
        exact hb.trans (ih l')
      · rename_i b' htok
        rw [htok] at hb
        exact hb
      · rename_i b' hback
        rw [hback] at hb
        exact hb

theorem not_full_none (l : Lex) : ¬l.Full none := fun ⟨_, h, _⟩ => nomatch h

theorem lexOne_full (h : l.Full lim) : lexOne lim l cs = .tok l.b cs := by
  cases cs <;> rw [lexOne, if_pos h]

/-- With a limit, a lexeme is the same as without, or it is cut at the limit. -/
theorem lexOne_cut (m : Nat) (l : Lex) (cs : List UInt8) : (lexOne (some m) l cs).b <+: (lexOne none l cs).b ∧
    ((lexOne (some m) l cs).b.length < m → lexOne (some m) l cs = lexOne none l cs) := by
  have hcut : ∀ {l cs}, l.Full (some m) → (lexOne (some m) l cs).b <+: (lexOne none l cs).b ∧
      ((lexOne (some m) l cs).b.length < m → lexOne (some m) l cs = lexOne none l cs) := by
    rintro l cs hfull
    rw [lexOne_full hfull]
    obtain ⟨m', hm, hle⟩ := hfull
    cases hm
    exact ⟨lexOne_begins none l cs, fun hlt => absurd hlt (not_lt.mpr hle)⟩
  induction cs generalizing l with
  | nil =>
    by_cases hfull : l.Full (some m)
    · exact hcut hfull
    · rw [lexOne, lexOne, if_neg hfull, if_neg (not_full_none l)]
      exact ⟨List.prefix_refl _, fun _ => rfl⟩
  | cons c cs ih =>
    by_cases hfull : l.Full (some m)
    · exact hcut hfull
    rw [lexOne, lexOne, if_neg hfull, if_neg (not_full_none l)]
    cases lexChar l c with
    | go l' => exact ih l'
    | tok b | back b => exact ⟨List.prefix_refl _, fun _ => rfl⟩

/-- The limit is not felt by a lexeme that does not reach it. -/
theorem lexOne_short {m : Nat} (h : (lexOne none l cs).b.length < m) :
    lexOne (some m) l cs = lexOne none l cs :=
  have ⟨hcut, hsame⟩ := lexOne_cut m l cs
  hsame (hcut.length_le.trans_lt h)

theorem lexemesOf_short {m n : Nat} (h : ∀ b ∈ lexemesOf none n cs, b.length < m) :
    lexemesOf (some m) n cs = lexemesOf none n cs := by
  induction n generalizing cs with
  | zero => rfl
  | succ n ih =>
    unfold lexemesOf at h ⊢
    cases hlex : lexOne none .start cs with
    | eof b =>
      rw [hlex] at h
      rw [lexOne_short (by rw [hlex]; exact h b (by simp)), hlex]
    | tok b rest =>
      rw [hlex] at h
      rw [lexOne_short (by rw [hlex]; exact h b (by simp)), hlex]
      exact congrArg (b :: ·) (ih fun x hx => h x (List.mem_cons_of_mem _ hx))

/-- Without a limit, if no lexeme reaches it. -/
theorem tokens_short {m : Nat} (h : ∀ b ∈ lexemes none cs, b.length < m) :
    tokens (some m) cs = tokens none cs := by
  unfold tokens lexemes
  rw [lexemesOf_short h]

/-- The token that is cut first. -/
theorem tokens_cut {m : Nat} (hm : 0 < m) {a ts : List CStr} (h : tokens (some m) cs = a ++ ts)
    (ha : ∀ t ∈ a, t.length < m) : ∃ us, tokens none cs = a ++ us ∧
      ∀ t ∈ ts.head?, us = [] ∨ ∃ t' ∈ us.head?, t <+: t' := by
  have hm0 : some m ≠ some 0 := fun h => hm.ne' (Option.some.inj h)
  have hnone : none ≠ some 0 := nofun
  induction a generalizing cs with
  | nil =>
    refine ⟨tokens none cs, rfl, fun t ht => ?_⟩
    rw [tokens_eq hm0] at h
    obtain ⟨hcut, -⟩ := lexOne_cut m .start cs
    rw [tokens_eq hnone]
    cases hlex : lexOne (some m) .start cs with
    | eof b =>
      rw [hlex] at h
      rw [← List.nil_append ts, ← h] at ht
      cases ht
    | tok b rest =>
      rw [hlex] at h hcut
      rw [← List.nil_append ts, ← h] at ht
      cases ht
      cases hlex' : lexOne none .start cs with
      | eof b' => exact .inl rfl
      | tok b' rest' =>
        rw [hlex'] at hcut
        exact .inr ⟨b', rfl, hcut⟩
  | cons x a ih =>
    simp only [List.mem_cons, forall_eq_or_imp] at ha
    rw [tokens_eq hm0] at h
    obtain ⟨-, hsame⟩ := lexOne_cut m .start cs
    cases hlex : lexOne (some m) .start cs with
    | eof b =>
      rw [hlex] at h
      cases h
    | tok b rest =>
      rw [hlex] at h hsame
      obtain ⟨rfl, hrest⟩ := List.cons.inj h
      obtain ⟨us, hus, hcut⟩ := ih hrest ha.2
      refine ⟨us, ?_, hcut⟩
      rw [tokens_eq hnone, ← hsame ha.1]
      exact congrArg (b :: ·) hus

/-! ## What tokens are -/

/-- A token has no NULs. -/
theorem lexOne_nul (lim : Option Nat) (cs : List UInt8) (h : 0 ∉ l.b) : 0 ∉ (lexOne lim l cs).b := by
  induction cs generalizing l with
  | nil => unfold lexOne; split <;> exact h
  | cons c cs ih =>
    have hb : 0 ∉ (lexChar l c).b := by
      rcases lexChar_b l c with hb | ⟨h0, hb⟩
      · rw [hb]; exact h
      · rw [hb]
        simp only [List.mem_append, List.mem_singleton, not_or]
        exact ⟨h, fun heq => h0 heq.symm⟩
    unfold lexOne
    split
    · exact h
    · split
      · rename_i l' hgo
        rw [hgo] at hb
        exact ih hb
      · rename_i b' htok
        rw [htok] at hb
        exact hb
      · rename_i b' hback
        rw [hback] at hb
        exact hb

theorem tokens_nul (lim : Option Nat) (cs : List UInt8) : ∀ b ∈ tokens lim cs, 0 ∉ b := by
  have hlex : ∀ n cs, ∀ b ∈ lexemesOf lim n cs, 0 ∉ b := by
    intro n
    induction n with
    | zero => intro cs b hb; cases hb
    | succ n ih =>
      intro cs b hb
      have h0 := lexOne_nul lim cs (show 0 ∉ Lex.start.b by simp [Lex.start])
      unfold lexemesOf at hb
      split at hb
      · rename_i b' h
        rw [h] at h0
        rw [List.mem_singleton.mp hb]
        exact h0
      · rename_i b' rest h
        rw [h] at h0
        rcases List.mem_cons.mp hb with rfl | hb
        · exact h0
        · exact ih rest b hb
  exact fun b hb => hlex _ cs b ((List.dropLast_sublist _).subset hb)

end
end Bootd
