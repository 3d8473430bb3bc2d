import Bootd.Config.Quote
import Bootd.Bugs.LostToken

/-!
# A comment takes its line end with it

The line end behind a comment is dealt with where positions are counted: it ends
the comment, and the round is over (src/tokenize.c:89-98). It is not seen as white
space. A word in front of the comment is not complete then, and goes on behind
the line end (src/tokenize.c:143-151).

Counterexample: `a#`, a newline and `b` are the token `ab` (`comment_joins`).

`comment_iff`: the comments that are nothing but a line end. `wordEnds` says that
what comes behind the line end ends a word before anything is added to it.
-/
namespace Bootd

open Bootd.Core

/-- `cs` gives the same words behind the flags of `l` and without them. These need not be none, and
words may begin inside quotes and go on outside: it takes both runs to know. -/
def flagBlind (lim : Option Nat) (l : Lex) (cs : List UInt8) : Bool :=
  Mealy.out (feed lim) .start cs = Mealy.out (feed lim) l cs

/-- One word that is a blank, in quotes and outside of them. -/
example : flagBlind none ⟨[], false, .double, false⟩ (cstr " \" \" ") = true := by decide

/-- Before a character of a word comes, behind quote marks, backslashes and comments, white space, a `;`
or a NUL. A NUL in quotes or behind a backslash ends the word and the quotes, but does nothing where no
word is open. -/
def wordEnds (lim : Option Nat) : Lex → List UInt8 → Bool
  | _, [] => false
  | l, c :: cs =>
    if l.com then wordEnds lim { l with com := c ≠ 10 ∧ c ≠ 13 } cs
    else if c = 0 then flagBlind lim l cs
    else if l.esc then false
    else if l.quo = .double then c = 34 && wordEnds lim { l with quo := .none } cs
    else if l.quo = .single then c = 39 && wordEnds lim { l with quo := .none } cs
    else if c = 92 then wordEnds lim { l with esc := true } cs
    else if c = 34 then wordEnds lim { l with quo := .double } cs
    else if c = 39 then wordEnds lim { l with quo := .single } cs
    else if c = 35 then wordEnds lim { l with com := true } cs
    else c ∈ [13, 10, 32, 9, 59]

section
variable {lim : Option Nat} {l l' : Lex} {b : CStr} {c : UInt8} {cs pre body post : List UInt8} {ts : List CStr}

/-- A character that is added makes the word another one. -/
theorem added_ne (h : (lexChar l c).b = l.b ++ [c]) : Mealy.out (feed lim) l (c :: cs) ≠ l.b :: ts := by
  intro hout
  have hlen := (out_begins_cons hout).length_le
  rw [h, List.length_append, List.length_singleton] at hlen
  omega

theorem feed_flags (h : lexChar l c = .go l') (hnf : ¬l'.Full lim) : feed lim l c = ([], l') := by
  rw [feed, h]
  exact if_neg hnf

/-- A character of a comment. -/
theorem lexChar_com {esc : Bool} {quo : Quote} :
    lexChar ⟨b, esc, quo, true⟩ c = .go ⟨b, esc, quo, c ≠ 10 ∧ c ≠ 13⟩ := by
  unfold lexChar
  by_cases hc : c = 10 ∨ c = 13
  · have hn : ¬(c ≠ 10 ∧ c ≠ 13) := by tauto
    simp [hc, hn]
  · simp [not_or.mp hc]

/-- A comment up to its line end writes nothing. -/
theorem comment_out (hnf : ∀ l : Lex, l.b = b → ¬l.Full lim) (hbody : ∀ c ∈ body, c ≠ 10 ∧ c ≠ 13)
    (post : List UInt8) : Mealy.out (feed lim) ⟨b, false, .none, false⟩ (35 :: body ++ post) =
      Mealy.out (feed lim) ⟨b, false, .none, true⟩ post := by
  have hopen : feed lim ⟨b, false, .none, false⟩ 35 = ([], ⟨b, false, .none, true⟩) :=
    feed_flags (by simp [lexChar, lexSwitch]) (hnf _ rfl)
  have hquiet : ∀ c ∈ body, feed lim ⟨b, false, .none, true⟩ c = ([], ⟨b, false, .none, true⟩) := by
    intro c hc
    have hchar : lexChar ⟨b, false, .none, true⟩ c = _ := lexChar_com
    rw [decide_eq_true (hbody c hc)] at hchar
    exact feed_flags hchar (hnf _ rfl)
  obtain ⟨ho, hf⟩ := Mealy.quiet hquiet
  rw [List.cons_append, Mealy.out_cons, hopen, Mealy.out_append, ho, hf]
  rfl

/-- White space behind a word, and where no word is open. -/
theorem blank_out (hb : b ≠ []) (hnf : ∀ l : Lex, l.b = [] → ¬l.Full lim) (hc : c ∈ [13, 10, 32, 9]) :
    Mealy.out (feed lim) ⟨b, false, .none, false⟩ (c :: cs) = b :: Mealy.out (feed lim) .start (c :: cs) := by
  have hopen : feed lim ⟨b, false, .none, false⟩ c = ([b], .start) := by
    have hchar : lexChar ⟨b, false, .none, false⟩ c = .tok b := by
      simp only [List.mem_cons, List.not_mem_nil, or_false] at hc
      rcases hc with rfl | rfl | rfl | rfl <;> exact if_pos hb
    rw [feed, hchar]
  have hnone : feed lim .start c = ([], .start) := by
    refine feed_flags ?_ (hnf _ rfl)
    simp only [List.mem_cons, List.not_mem_nil, or_false] at hc
    rcases hc with rfl | rfl | rfl | rfl <;> rfl
  rw [Mealy.out_cons, Mealy.out_cons, hopen, hnone]
  rfl

/-- The same flags, with a word open and without: the word is the only difference exactly if it ends. -/
theorem wordEnds_iff (h0 : lim ≠ some 0) (hb : b ≠ []) (hl : l.b = []) (hnf : ∀ l : Lex, l.b = b → ¬l.Full lim) :
    Mealy.out (feed lim) { l with b := b } cs = b :: Mealy.out (feed lim) l cs ↔ wordEnds lim l cs = true := by
  have hnf0 : ∀ l : Lex, l.b = [] → ¬l.Full lim := fun l hl ⟨m, hm, hle⟩ => h0 (by
    rw [hl] at hle
    rw [hm, Nat.le_zero.mp hle])
  induction cs generalizing l with
  | nil => simp [wordEnds]
  | cons c cs ih =>
    obtain ⟨b', esc, quo, com⟩ := l
    cases hl
    -- both runs go on with other flags
    have hgo : ∀ l' : Lex, l'.b = [] → lexChar ⟨[], esc, quo, com⟩ c = .go l' →
        lexChar ⟨b, esc, quo, com⟩ c = .go { l' with b := b } →
        (Mealy.out (feed lim) ⟨b, esc, quo, com⟩ (c :: cs) = b :: Mealy.out (feed lim) ⟨[], esc, quo, com⟩ (c :: cs) ↔
          wordEnds lim l' cs = true) := by
      intro l' hl' h h'
      rw [Mealy.out_cons, Mealy.out_cons, feed_flags h (hnf0 l' hl'), feed_flags h' (hnf _ rfl)]
      exact ih hl'
    -- the open word gets longer
    have hadd : lexChar ⟨b, esc, quo, com⟩ c = .go ⟨b ++ [c], false, quo, com⟩ →
        ¬Mealy.out (feed lim) ⟨b, esc, quo, com⟩ (c :: cs) =
          b :: Mealy.out (feed lim) ⟨[], esc, quo, com⟩ (c :: cs) :=
      fun h => added_ne (l := ⟨b, esc, quo, com⟩) (by rw [h]; rfl)
    unfold wordEnds
    simp only
    by_cases hcom : com = true
    · rw [if_pos hcom]
      exact hgo ⟨[], esc, quo, _⟩ rfl (hcom ▸ lexChar_com) (hcom ▸ lexChar_com)
    rw [if_neg hcom]
    cases eq_false_of_ne_true hcom
    by_cases hc : c = 0
    · rw [if_pos hc, Mealy.out_cons, Mealy.out_cons, hc]
      have hopen : feed lim ⟨b, esc, quo, false⟩ 0 = ([b], .start) := by simp [feed, lexChar, hb]
      have hnone : feed lim ⟨[], esc, quo, false⟩ 0 = ([], ⟨[], esc, quo, false⟩) :=
        feed_flags (by simp [lexChar]) (hnf0 _ rfl)
      simp [hopen, hnone, flagBlind]
    rw [if_neg hc]
    by_cases hesc : esc = true
    · rw [if_pos hesc]
      cases hesc
      exact iff_of_false (hadd (by simp [lexChar, hc, Lex.add])) Bool.false_ne_true
    rw [if_neg hesc]
    cases eq_false_of_ne_true hesc
    by_cases hdouble : quo = .double
    · rw [if_pos hdouble]
      cases hdouble
      by_cases h34 : c = 34
      · rw [hgo ⟨[], false, .none, false⟩ rfl (by simp [lexChar, h34]) (by simp [lexChar, h34])]
        simp [h34]
      · exact iff_of_false (hadd (lexChar_double hc h34 b)) (by simp [h34])
    rw [if_neg hdouble]
    by_cases hsingle : quo = .single
    · rw [if_pos hsingle]
      cases hsingle
      by_cases h39 : c = 39
      · rw [hgo ⟨[], false, .none, false⟩ rfl (by simp [lexChar, h39]) (by simp [lexChar, h39])]
        simp [h39]
      · exact iff_of_false (hadd (lexChar_single hc h39 b)) (by simp [h39])
    rw [if_neg hsingle]
    have hquo : quo = .none := by
      cases quo with
      | none => rfl
      | single => exact absurd rfl hsingle
      | double => exact absurd rfl hdouble
    cases hquo
    by_cases h92 : c = 92
    · rw [if_pos h92]
      exact hgo ⟨[], true, .none, false⟩ rfl (by rw [h92]; rfl) (by rw [h92]; rfl)
    rw [if_neg h92]
    by_cases h34 : c = 34
    · rw [if_pos h34]
      exact hgo ⟨[], false, .double, false⟩ rfl (by rw [h34]; rfl) (by rw [h34]; rfl)
    rw [if_neg h34]
    by_cases h39 : c = 39
    · rw [if_pos h39]
      exact hgo ⟨[], false, .single, false⟩ rfl (by rw [h39]; rfl) (by rw [h39]; rfl)
    rw [if_neg h39]
    by_cases h35 : c = 35
    · rw [if_pos h35]
      exact hgo ⟨[], false, .none, true⟩ rfl (by rw [h35]; rfl) (by rw [h35]; rfl)
    rw [if_neg h35]
    by_cases hend : c ∈ [13, 10, 32, 9, 59]
    · refine iff_of_true ?_ (decide_eq_true hend)
      by_cases hsemi : c = 59
      · rw [hsemi]
        exact word_semi hb cs
      · refine blank_out hb hnf0 ?_
        simp only [List.mem_cons, List.not_mem_nil, or_false] at hend ⊢
        tauto
    · refine iff_of_false (hadd (lexChar_plain ?_ b)) (by simpa using hend)
      simp only [List.mem_cons, List.not_mem_nil, or_false, not_or] at hend
      simp [IsPlain, hc, h92, h34, h39, h35, hend]

end

/-- **The comments that are nothing but a line end**: `#` and `body`, with the line end at the start of
`post`, stand directly behind no word, or at the end of the file, or in front of the end of the word. -/
theorem comment_iff (pre body post : List UInt8) (h : Terminated pre) (hbody : ∀ c ∈ body, c ≠ 10 ∧ c ≠ 13)
    (hpost : ∀ c ∈ post.head?, c = 10 ∨ c = 13) :
    SameTokens (pre ++ 35 :: body ++ post) (pre ++ post) ↔
      openWord pre = [] ∨ post = [] ∨ wordEnds (some tokenizeBufsize) .start post.tail := by
  have hnf : ∀ l : Lex, l.b = openWord pre → ¬l.Full (some tokenizeBufsize) := by
    intro l hl hfull
    refine after_not_full limit_ne pre ?_
    obtain ⟨m, hm, hle⟩ := hfull
    rw [hl] at hle
    exact ⟨m, hm, hle⟩
  rw [sameTokens_iff, List.append_assoc, tokens_append limit_ne, tokens_append limit_ne, List.append_cancel_left_eq,
    h.after, comment_out hnf hbody]
  cases post with
  | nil => simp
  | cons c rest =>
    have hc := hpost c rfl
    have hend : feed (some tokenizeBufsize) ⟨openWord pre, false, .none, true⟩ c =
        ([], ⟨openWord pre, false, .none, false⟩) := by
      have hchar : lexChar ⟨openWord pre, false, .none, true⟩ c = _ := lexChar_com
      rw [decide_eq_false (by tauto)] at hchar
      exact feed_flags hchar (hnf _ rfl)
    rw [Mealy.out_cons, hend, List.nil_append]
    have hblank : c ∈ [13, 10, 32, 9] := by rcases hc with rfl | rfl <;> decide
    by_cases hw : openWord pre = []
    · rw [hw] at hnf ⊢
      have hstart : feed (some tokenizeBufsize) .start c = ([], .start) :=
        feed_flags (by rcases hc with rfl | rfl <;> rfl) (hnf _ rfl)
      rw [show (⟨[], false, .none, false⟩ : Lex) = .start from rfl, Mealy.out_cons, hstart]
      simp
    · have hnf0 : ∀ l : Lex, l.b = [] → ¬l.Full (some tokenizeBufsize) := fun l hl ⟨m, hm, hle⟩ => by
        cases hm
        rw [hl] at hle
        exact absurd hle (by decide)
      have hstart : feed (some tokenizeBufsize) .start c = ([], .start) :=
        feed_flags (by rcases hc with rfl | rfl <;> rfl) (hnf0 _ rfl)
      have hiff : Mealy.out (feed (some tokenizeBufsize)) ⟨openWord pre, false, .none, false⟩ rest = _ ↔ _ :=
        wordEnds_iff (l := .start) limit_ne hw rfl hnf
      rw [blank_out hw hnf0 hblank, Mealy.out_cons, hstart, List.nil_append]
      simp only [hw, List.cons_ne_nil, List.tail_cons, false_or]
      exact hiff

/-- A comment in front of a blank line. -/
theorem comment_blank : SameTokens (cstr "a" ++ 35 :: cstr " b" ++ cstr "\n\nc ") (cstr "a" ++ cstr "\n\nc ") := by
  have hbody : (cstr " b").all (fun c => c ≠ 10 ∧ c ≠ 13) = true := by decide
  refine (comment_iff _ _ _ ⟨by decide, by decide, by decide⟩
    (fun c hc => of_decide_eq_true (List.all_eq_true.mp hbody c hc)) ?_).mpr (.inr (.inr (by decide)))
  rintro c ⟨⟩
  exact .inl rfl

/-- **Counterexample**: a word in front of a comment is joined to the one behind it. -/
theorem comment_joins : ¬ ∀ pre body post : List UInt8, Terminated pre → (∀ c ∈ body, c ≠ 10 ∧ c ≠ 13) →
    (∀ c ∈ post.head?, c = 10 ∨ c = 13) → SameTokens (pre ++ 35 :: body ++ post) (pre ++ post) := by
  intro hall
  have hpost : ∀ c ∈ (cstr "\nb ").head?, c = 10 ∨ c = 13 := by
    rintro c ⟨⟩
    exact .inl rfl
  have h := sameTokens_iff.mp (hall (cstr "a") [] (cstr "\nb ") ⟨by decide, by decide, by decide⟩ (by simp) hpost)
  exact absurd h (by decide)

end Bootd
