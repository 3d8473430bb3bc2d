import Bootd.Core.Mealy
import Bootd.Config.Tokenize

/-!
# The rules for tokens, one character after the other

`feed` is `lexChar` as a machine that writes a token as soon as it is complete:
its state is the lexeme at the end of what was read. A text is therefore read in
parts, and what comes behind it sees only this lexeme (`Lex.after`).

`Yields text ts`: the calls of `gen_tokenize_next` return the tokens `ts` for a
file with this text, and then 0, in whatever pieces the file is read.

* `tokens_out`: the machine writes the tokens.
* `yields_iff`, `sameTokens_iff`: they are what the calls return.
* `adds`, `escaped_adds`: text that only makes the lexeme longer.
-/
namespace Bootd

open Bootd.Core

/-- What a character completes, and the lexeme behind it. -/
def feed (lim : Option Nat) (l : Lex) (c : UInt8) : List CStr × Lex :=
  match lexChar l c with
  | .go l' => if l'.Full lim then ([l'.b], .start) else ([], l')
  | .tok b => ([b], .start)
  -- only a ';' is put back
  | .back b => ([b, [59]], .start)

/-- The lexeme at the end of a text. -/
def Lex.after (lim : Option Nat) (cs : List UInt8) : Lex := Mealy.fin (feed lim) .start cs

section
variable {lim : Option Nat} {l l' : Lex} {c : UInt8} {cs cs' v : List UInt8} {b : CStr}

theorem lexChar_back_semi (h : lexChar l c = .back b) : c = 59 := by
  unfold lexChar at h
  split at h; · cases h
  split at h; · cases h
  split at h
  · split at h <;> cases h
  split at h; · cases h
  split at h; · cases h
  split at h; · cases h
  split at h; · cases h
  unfold lexSwitch at h
  split at h; · cases h
  split at h; · cases h
  split at h; · cases h
  split at h
  · split at h <;> cases h
  split at h; · cases h
  split at h
  · assumption
  · cases h

theorem not_full_start (h0 : lim ≠ some 0) : ¬Lex.start.Full lim := by
  rintro ⟨m, hm, hle⟩
  have hz : m = 0 := Nat.le_zero.mp hle
  exact h0 (hz ▸ hm)

/-- A `;` is a token of its own. -/
theorem tokens_semi (h0 : lim ≠ some 0) (cs : List UInt8) : tokens lim (59 :: cs) = [59] :: tokens lim cs := by
  rw [tokens_eq h0, lexOne, if_neg (not_full_start h0)]
  rfl

/-- The rest of a lexeme and the tokens behind it. -/
theorem lexOne_out (h0 : lim ≠ some 0) (hl : ¬l.Full lim) (cs : List UInt8) :
    (match lexOne lim l cs with
      | .eof _ => []
      | .tok b rest => b :: tokens lim rest) = Mealy.out (feed lim) l cs := by
  induction cs generalizing l with
  | nil =>
    rw [lexOne, if_neg hl]
    rfl
  | cons c cs ih =>
    have hstart : tokens lim cs = Mealy.out (feed lim) .start cs :=
      (tokens_eq h0 cs).trans (ih (not_full_start h0))
    rw [lexOne, if_neg hl, Mealy.out_cons, feed]
    cases hlex : lexChar l c with
    | go l' =>
      by_cases hfull : l'.Full lim
      · simp only [lexOne_full hfull, if_pos hfull, hstart]
        rfl
      · simp only [if_neg hfull]
        exact ih hfull
    | tok b =>
      simp only [hstart]
      rfl
    | back b =>
      cases lexChar_back_semi hlex
      simp only [tokens_semi h0, hstart]
      rfl

/-- The machine writes the tokens. -/
theorem tokens_out (h0 : lim ≠ some 0) (cs : List UInt8) : tokens lim cs = Mealy.out (feed lim) .start cs :=
  (tokens_eq h0 cs).trans (lexOne_out h0 (not_full_start h0) cs)

theorem tokens_append (h0 : lim ≠ some 0) (cs cs' : List UInt8) :
    tokens lim (cs ++ cs') = tokens lim cs ++ Mealy.out (feed lim) (.after lim cs) cs' := by
  rw [tokens_out h0, tokens_out h0, Mealy.out_append]
  rfl

/-- The lexeme is never longer than a token. -/
theorem after_not_full (h0 : lim ≠ some 0) (cs : List UInt8) : ¬(Lex.after lim cs).Full lim := by
  refine Mealy.fin_keeps (I := fun l : Lex => ¬l.Full lim) (fun l c _ _ => ?_) (not_full_start h0)
  unfold feed
  split
  · split
    · exact not_full_start h0
    · assumption
  · exact not_full_start h0
  · exact not_full_start h0

/-! ## Text that is added to the lexeme -/

/-- Characters that are added one by one. -/
theorem adds {m : Nat} (hv : ∀ c ∈ v, ∀ b, lexChar { l with b := b } c = .go { l with b := b ++ [c] })
    (hm : l.b.length + v.length < m) : Mealy.out (feed (some m)) l v = [] ∧
      Mealy.fin (feed (some m)) l v = { l with b := l.b ++ v } := by
  induction v generalizing l with
  | nil => simp
  | cons c v ih =>
    simp only [List.length_cons] at hm
    have hnf : ¬Lex.Full (some m) { l with b := l.b ++ [c] } := by
      rintro ⟨m', hm', hle⟩
      cases hm'
      simp only [List.length_append, List.length_singleton] at hle
      omega
    have hfeed : feed (some m) l c = ([], { l with b := l.b ++ [c] }) := by
      rw [feed, hv c List.mem_cons_self l.b]
      exact if_neg hnf
    have hlen : (l.b ++ [c]).length + v.length < m := by
      rw [List.length_append, List.length_singleton]
      omega
    obtain ⟨ho, hf⟩ := @ih { l with b := l.b ++ [c] } (fun d hd => hv d (List.mem_cons_of_mem _ hd)) hlen
    simp [hfeed, ho, hf]

/-- A backslash in front of each character. -/
def escaped (v : List UInt8) : List UInt8 := v.flatMap fun c => [92, c]

theorem escaped_adds {m : Nat} (hv : 0 ∉ v) (hm : b.length + v.length < m) :
    Mealy.out (feed (some m)) ⟨b, false, .none, false⟩ (escaped v) = [] ∧
      Mealy.fin (feed (some m)) ⟨b, false, .none, false⟩ (escaped v) = ⟨b ++ v, false, .none, false⟩ := by
  induction v generalizing b with
  | nil => simp [escaped]
  | cons c v ih =>
    simp only [List.length_cons, List.mem_cons, not_or] at hm hv
    have hnf : ∀ {l : Lex}, l.b.length < m → ¬l.Full (some m) := by
      rintro l hlt ⟨m', hm', hle⟩
      cases hm'
      omega
    have hesc : feed (some m) ⟨b, false, .none, false⟩ 92 = ([], ⟨b, true, .none, false⟩) :=
      if_neg (hnf (by simp only; omega))
    have hadd : feed (some m) ⟨b, true, .none, false⟩ c = ([], ⟨b ++ [c], false, .none, false⟩) := by
      have hchar : lexChar ⟨b, true, .none, false⟩ c = .go ⟨b ++ [c], false, .none, false⟩ := by
        simp [lexChar, Lex.add, Ne.symm hv.1]
      rw [feed, hchar]
      exact if_neg (hnf (by simp only [List.length_append, List.length_singleton]; omega))
    obtain ⟨ho, hf⟩ := ih (b := b ++ [c]) hv.2 (by simp only [List.length_append, List.length_singleton]; omega)
    rw [show escaped (c :: v) = 92 :: c :: escaped v from rfl]
    simp [hesc, hadd, ho, hf]

end

/-! ## What the calls return -/

/-- The calls of `gen_tokenize_next`, with room for every token, return these tokens and then 0. -/
def Yields (text : List UInt8) (ts : List CStr) : Prop :=
  ∀ (fname : CStr) (fd : List Chunk) (calls : List TokCall), (fd.map Subtype.val).flatten = text →
    (∀ c ∈ calls, tokenizeBufsize + 2 ≤ c.l) → nexts calls (.new fname fd) =
      some ((List.range (calls.countP TokCall.isNext)).map fun i => ts[i]?)

/-- A file that is read byte by byte. -/
def chunks (text : List UInt8) : List Chunk :=
  text.map fun c => ⟨[c], List.cons_ne_nil c [], Nat.succ_le_succ (Nat.zero_le _)⟩

theorem chunks_text (text : List UInt8) : ((chunks text).map Subtype.val).flatten = text := by
  induction text with
  | nil => rfl
  | cons c text ih =>
    rw [chunks, List.map_cons, List.map_cons, List.flatten_cons]
    exact congrArg (c :: ·) ih

section
variable {lim : Option Nat} {l : Lex} {cs : List UInt8} {m : Nat}

theorem lexOne_length_le {b : CStr} {rest : List UInt8} (hl : l.b.length ≤ m)
    (h : lexOne (some m) l cs = .tok b rest) : b.length ≤ m := by
  induction cs generalizing l with
  | nil =>
    unfold lexOne at h
    split at h
    · cases h; exact hl
    · cases h
  | cons c cs ih =>
    unfold lexOne at h
    split at h
    · cases h; exact hl
    · rename_i hfull
      have hlt : l.b.length < m := not_le.mp fun hle => hfull ⟨m, rfl, hle⟩
      have hchar := lexChar_b l c
      have hle : (lexChar l c).b.length ≤ m := by
        rcases hchar with hb | ⟨-, hb⟩
        · rw [hb]; omega
        · rw [hb, List.length_append, List.length_singleton]; omega
      split at h
      · rename_i l' hgo
        rw [hgo] at hle
        exact ih hle h
      · rename_i b' htok
        rw [htok] at hle
        cases h; exact hle
      · rename_i b' hback
        rw [hback] at hle
        cases h; exact hle

/-- No token is longer than the buffer. -/
theorem tokens_length (h0 : 0 < m) (cs : List UInt8) : ∀ tok ∈ tokens (some m) cs, tok.length ≤ m := by
  have hne : some m ≠ some 0 := fun h => h0.ne' (Option.some.inj h)
  induction hn : cs.length using Nat.strong_induction_on generalizing cs with
  | _ n ih =>
    intro tok hmem
    rw [tokens_eq hne] at hmem
    split at hmem
    · cases hmem
    · rename_i b rest hlex
      rcases List.mem_cons.mp hmem with rfl | hmem
      · exact lexOne_length_le (l := .start) (Nat.zero_le m) hlex
      · have hlt := (lexOne_length hlex).2 rfl hne
        exact ih rest.length (hn ▸ hlt) rest rfl tok hmem

end

/-- The calls return the tokens of the text. -/
theorem tokens_yields (text : List UInt8) : Yields text (tokens (some tokenizeBufsize) text) := by
  intro fname fd calls htext hl
  have hp := new_pending fname fd
  rw [htext] at hp
  rw [← hp]
  refine nexts_pending (new_good fname fd) calls (fun tok hmem => ?_) fun c hc tok hmem => ?_
  · rw [hp] at hmem
    exact tokens_nul _ _ tok hmem
  · rw [hp] at hmem
    have hlen := tokens_length (by decide) text tok hmem
    have hc := hl c hc
    omega

theorem yields_iff {text : List UInt8} {ts : List CStr} :
    Yields text ts ↔ ts = tokens (some tokenizeBufsize) text := by
  refine ⟨fun h => List.ext_getElem? fun i => ?_, fun h => h ▸ tokens_yields text⟩
  let calls := List.replicate (i + 1) (TokCall.next (tokenizeBufsize + 2) [])
  have hl : ∀ c ∈ calls, tokenizeBufsize + 2 ≤ c.l := fun c hc => by
    rw [List.eq_of_mem_replicate hc]
    exact Nat.le_refl _
  have heq := (h [] (chunks text) calls (chunks_text text) hl).symm.trans
    (tokens_yields text [] (chunks text) calls (chunks_text text) hl)
  have hcount : calls.countP TokCall.isNext = i + 1 := by
    simp [calls, List.countP_replicate, TokCall.isNext]
  rw [hcount, Option.some_inj, List.map_inj_left] at heq
  exact heq i (List.mem_range.mpr (Nat.lt_succ_self i))

/-- The same tokens, whatever is called. -/
def SameTokens (text text' : List UInt8) : Prop := ∀ ts, Yields text ts ↔ Yields text' ts

theorem sameTokens_iff {text text' : List UInt8} : SameTokens text text' ↔
    tokens (some tokenizeBufsize) text = tokens (some tokenizeBufsize) text' := by
  unfold SameTokens
  simp only [yields_iff]
  exact ⟨fun h => (h _).mp rfl, fun h ts => by rw [h]⟩

end Bootd
