import Bootd.Config.Lexer
import Bootd.Config.Source
import Bootd.Core.Ring

/-!
# The tokenizer

`gen_tokenize_t` reads a file in pieces of at most 4096 bytes into `b`, where
`s` and `e` delimit what was not looked at yet, and keeps up to five tokens
ahead in the ring `t`: `ts` is the next one, `te` the slot behind the last, and
`ts` is -1 while the ring is empty, since `ts = te` means that it is full.

A file is the list of what `read` returns, one after the other; behind them
`read` returns 0 for ever. A token of `TOKENIZE_BUFSIZE` bytes is left without its
NUL, since the write behind the array has no effect here.

* `tokenize_spec`: the tokens still to come are the ones in the ring, then those
  of the text that was not read. Filling the ring does not change them.
* `next_spec`, `ahead_spec`: `gen_tokenize_next` takes the first of them,
  `gen_tokenize_ahead(0)` looks at it.
* `nexts_tokens`: neither the ring nor the pieces can be seen from outside.
-/
namespace Bootd

/-- `TOKENIZE_LOOKAHEAD`. -/
def tokenizeLookahead : Nat := 4

/-- `TOKENIZE_BUFSIZE`. -/
def tokenizeBufsize : Nat := 4096

/-- What a `read` returns. -/
abbrev Chunk := { c : List UInt8 // c ≠ [] ∧ c.length ≤ tokenizeBufsize }

/-- mirrors src/genutil.h:178-181 -/
structure GenToken where
  x : Nat
  y : Nat
  b : Buf

/-- mirrors src/genutil.h:185-193 -/
structure GenTokenize where
  fname : CStr
  /-- what `read` will return from `fd` -/
  fd : List Chunk
  s : Nat
  e : Nat
  x : Nat
  y : Nat
  b : Buf
  ts : Int
  te : Nat
  t : Nat → GenToken

/-- A buffer after `memset`. -/
def zeroBuf : Buf := List.replicate tokenizeBufsize 0

/-- mirrors src/tokenize.c:16-34 -/
def GenTokenize.new (fname : CStr) (fd : List Chunk) : GenTokenize :=
  ⟨fname, fd, 0, 0, 0, 0, zeroBuf, -1, 0, fun _ => ⟨0, 0, zeroBuf⟩⟩

/-- mirrors src/tokenize.c:46-64 -/
def GenTokenize.read (tk : GenTokenize) : Bool × GenTokenize :=
  if tk.e ≤ tk.s then
    match tk.fd with
    | [] => (false, { tk with s := 0, e := 0 })
    | c :: fd =>
      (true, { tk with s := 0, e := c.1.length, b := c.1 ++ tk.b.drop c.1.length, fd := fd })
  else (true, tk)

/-- Behind the next character, with the position kept. mirrors src/tokenize.c:89-102 -/
def GenTokenize.advance (tk : GenTokenize) (c : UInt8) : GenTokenize :=
  if c = 10 ∨ c = 13 then { tk with s := tk.s + 1, x := 0, y := tk.y + 1 }
  else { tk with s := tk.s + 1, x := tk.x + 1 }

/-- A scan for one token. -/
structure Scanned where
  /-- the token is complete; otherwise the file has ended -/
  full : Bool
  /-- what was written to the token's buffer -/
  b : CStr
  x : Nat
  y : Nat
  tk : GenTokenize

/-- The inner loop. `x` and `y` are those of the token; `none` if the fuel is used up.
mirrors src/tokenize.c:83-173 -/
def scanToken : Nat → Lex → Nat → Nat → GenTokenize → Option Scanned
  | 0, _, _, _, _ => none
  | n + 1, l, x, y, tk =>
    if l.Full (some tokenizeBufsize) then some ⟨true, l.b, x, y, tk⟩
    else match GenTokenize.read tk with
      | (false, tk) => some ⟨false, l.b, x, y, tk⟩
      | (true, tk) =>
        let c := tk.b.getD tk.s 0
        let tk' := tk.advance c
        -- a newline that ends a comment leaves the round before the token's position is noted
        let first := l.b = [] ∧ ¬((c = 10 ∨ c = 13) ∧ l.com)
        let x' := if first then tk'.x else x
        let y' := if first then tk'.y else y
        match lexChar l c with
        | .go l => scanToken n l x' y' tk'
        | .tok b => some ⟨true, b, x', y', tk'⟩
        | .back b => some ⟨true, b, x', y', { tk' with s := tk'.s - 1, x := tk'.x - 1 }⟩

/-- The bytes left to scan. -/
def GenTokenize.left (tk : GenTokenize) : Nat :=
  tk.e - tk.s + (tk.fd.map fun c => c.1.length).sum

/-- What is in the slot after a scan. -/
def Scanned.slot (r : Scanned) (b : Buf) : GenToken :=
  let b := r.b ++ (b.set 0 0).drop r.b.length
  ⟨r.x, r.y, if r.full then b.set r.b.length 0 else b⟩

/-- The outer loop; `none` if the fuel is used up. mirrors src/tokenize.c:66-183 -/
def GenTokenize.tokenize : Nat → GenTokenize → Option GenTokenize
  | 0, _ => none
  | n + 1, tk =>
    if tk.ts = tk.te then some tk
    else do
      let slot := tk.t tk.te
      let r ← scanToken (tk.left + 1) .start slot.x slot.y tk
      let t := Function.update tk.t tk.te (r.slot slot.b)
      if r.full then
        GenTokenize.tokenize n { r.tk with
          t := t
          te := if tokenizeLookahead < tk.te + 1 then 0 else tk.te + 1
          ts := if tk.ts = -1 then 0 else tk.ts }
      else some { r.tk with t := t }

/-- One round more than there are slots. -/
def tokenizeFuel : Nat := tokenizeLookahead + 2

/-- mirrors src/tokenize.c:202-219 -/
def GenTokenize.ahead (n : Int) (l : Nat) (w : Buf) (tk : GenTokenize) : Option (Bool × Buf × GenTokenize) := do
  let tk ← GenTokenize.tokenize tokenizeFuel tk
  if tk.ts = -1 then return (false, w, tk)
  let d := tk.te - tk.ts
  let max := if d ≤ 0 then d + tokenizeLookahead else d
  if n > max then return (false, w, tk)
  let n := (n + tk.ts) % (tokenizeLookahead + 1)
  return (true, strncpy w (strOf (tk.t n.toNat).b) l, tk)

/-- mirrors src/tokenize.c:185-200 -/
def GenTokenize.next (l : Nat) (w : Buf) (tk : GenTokenize) : Option (Bool × Buf × GenTokenize) := do
  let (ret, w, tk) ← GenTokenize.ahead 0 l w tk
  if ret then
    let ts := if tk.ts + 1 > tokenizeLookahead then 0 else tk.ts + 1
    return (true, w, { tk with ts := if ts = tk.te then -1 else ts })
  return (false, w, tk)

/-! ## The text -/

/-- The bytes that were not looked at. -/
def GenTokenize.input (tk : GenTokenize) : List UInt8 :=
  (tk.b.take tk.e).drop tk.s ++ (tk.fd.map Subtype.val).flatten

/-- What was read is in `b`. -/
def GenTokenize.Bounded (tk : GenTokenize) : Prop := tk.b.length = tokenizeBufsize ∧ tk.e ≤ tokenizeBufsize

/-- Reading leaves the ring alone. -/
def GenTokenize.SameRing (tk tk' : GenTokenize) : Prop := tk.ts = tk'.ts ∧ tk.te = tk'.te ∧ tk.t = tk'.t

section
variable {tk tk' tk'' : GenTokenize} {c : UInt8} {cs : List UInt8} {n x y : Nat} {l : Lex}

theorem GenTokenize.SameRing.refl (tk : GenTokenize) : tk.SameRing tk := ⟨rfl, rfl, rfl⟩

theorem GenTokenize.SameRing.trans (h : tk.SameRing tk') (h' : tk'.SameRing tk'') : tk.SameRing tk'' :=
  ⟨h.1.trans h'.1, h.2.1.trans h'.2.1, h.2.2.trans h'.2.2⟩

theorem left_eq (hb : tk.Bounded) : tk.left = tk.input.length := by
  obtain ⟨hlen, he⟩ := hb
  unfold GenTokenize.left GenTokenize.input
  rw [List.length_append, List.length_drop, List.length_take, hlen, Nat.min_eq_left he, List.length_flatten,
    List.map_map]
  rfl

/-- `gen_tokenize_read` finds the next character, if there is one. -/
theorem read_nil (hb : tk.Bounded) (hin : tk.input = []) :
    ∃ tk', GenTokenize.read tk = (false, tk') ∧ tk'.input = [] ∧ tk'.Bounded ∧ tk'.SameRing tk := by
  obtain ⟨hlen, he⟩ := hb
  unfold GenTokenize.input at hin
  obtain ⟨hbuf, hfd⟩ := List.append_eq_nil_iff.mp hin
  have hse : tk.e ≤ tk.s := by
    have h := congrArg List.length hbuf
    rw [List.length_drop, List.length_take, hlen, List.length_nil] at h
    omega
  have hnil : tk.fd = [] := by
    cases h : tk.fd with
    | nil => rfl
    | cons c fd =>
      rw [h, List.map_cons, List.flatten_cons] at hfd
      exact absurd (List.append_eq_nil_iff.mp hfd).1 c.2.1
  unfold GenTokenize.read
  rw [if_pos hse, hnil]
  exact ⟨_, rfl, by simp [GenTokenize.input], ⟨hlen, Nat.zero_le _⟩, .refl _⟩

theorem read_cons (hb : tk.Bounded) (hin : tk.input = c :: cs) :
    ∃ tk', GenTokenize.read tk = (true, tk') ∧ tk'.b.getD tk'.s 0 = c ∧ tk'.input = c :: cs ∧
      tk'.s < tk'.e ∧ tk'.Bounded ∧ tk'.SameRing tk := by
  have hget : ∀ {tk : GenTokenize}, tk.Bounded → tk.s < tk.e → tk.input = c :: cs →
      tk.b.getD tk.s 0 = c := by
    rintro tk ⟨hlen, he⟩ hse hin
    have hs : tk.s < (tk.b.take tk.e).length := by rw [List.length_take]; omega
    unfold GenTokenize.input at hin
    rw [List.drop_eq_getElem_cons hs, List.cons_append, List.getElem_take] at hin
    rw [List.getD_eq_getElem?_getD, List.getElem?_eq_getElem (by omega)]
    exact (List.cons.inj hin).1
  unfold GenTokenize.read
  split
  · rename_i hse
    have hnil : (tk.b.take tk.e).drop tk.s = [] := by
      refine List.drop_of_length_le ?_
      rw [List.length_take]
      omega
    cases hfd : tk.fd with
    | nil => simp [GenTokenize.input, hnil, hfd] at hin
    | cons d fd =>
      obtain ⟨d, hne, hd⟩ := d
      have hpos := List.length_pos_of_ne_nil hne
      have hin' : { tk with s := 0, e := d.length, b := d ++ tk.b.drop d.length, fd := fd }.input = c :: cs := by
        rw [← hin]
        unfold GenTokenize.input
        rw [hnil, hfd]
        simp
      have hb' : { tk with s := 0, e := d.length, b := d ++ tk.b.drop d.length, fd := fd }.Bounded := by
        refine ⟨?_, hd⟩
        simp only [List.length_append, List.length_drop, hb.1]
        omega
      exact ⟨_, rfl, hget hb' hpos hin', hin', hpos, hb', .refl _⟩
  · rename_i hse
    exact ⟨tk, rfl, hget hb (by omega) hin, hin, by omega, hb, .refl _⟩

theorem advance_input (hb : tk.Bounded) (hse : tk.s < tk.e) (hin : tk.input = c :: cs) (d : UInt8) :
    (tk.advance d).input = cs ∧ (tk.advance d).Bounded ∧ (tk.advance d).SameRing tk := by
  obtain ⟨hlen, he⟩ := hb
  have hs : tk.s < (tk.b.take tk.e).length := by rw [List.length_take]; omega
  have htail : (tk.b.take tk.e).drop (tk.s + 1) ++ (tk.fd.map Subtype.val).flatten = cs := by
    unfold GenTokenize.input at hin
    rw [List.drop_eq_getElem_cons hs, List.cons_append] at hin
    exact (List.cons.inj hin).2
  unfold GenTokenize.advance
  split <;> exact ⟨htail, ⟨hlen, he⟩, .refl _⟩

/-- Putting the character back does not leave the piece it came from. -/
theorem back_input (hb : tk.Bounded) (hin : tk.input = c :: cs) (d : UInt8) :
    let tk' := { tk.advance d with s := (tk.advance d).s - 1, x := (tk.advance d).x - 1 }
    tk'.input = c :: cs ∧ tk'.Bounded ∧ tk'.SameRing tk := by
  unfold GenTokenize.advance
  split <;> exact ⟨hin, hb, .refl _⟩

/-- A scan follows the rules for one token, wherever the pieces end. -/
theorem scanToken_spec (hb : tk.Bounded) (hn : tk.input.length < n) :
    ∃ r, scanToken n l x y tk = some r ∧ r.b = (lexOne (some tokenizeBufsize) l tk.input).b ∧
      r.tk.Bounded ∧ r.tk.SameRing tk ∧
      match lexOne (some tokenizeBufsize) l tk.input with
      | .eof _ => r.full = false ∧ r.tk.input = []
      | .tok _ rest => r.full = true ∧ r.tk.input = rest := by
  induction n generalizing l x y tk with
  | zero => omega
  | succ n ih =>
    unfold scanToken
    split
    · rename_i hfull
      refine ⟨_, rfl, ?_⟩
      unfold lexOne
      split
      all_goals
        rename_i heq
        rw [if_pos hfull]
        exact ⟨rfl, hb, .refl _, rfl, heq⟩
    · rename_i hfull
      cases hin : tk.input with
      | nil =>
        obtain ⟨tk', hread, hin', hb', hring⟩ := read_nil hb hin
        rw [hread]
        refine ⟨_, rfl, ?_⟩
        unfold lexOne
        rw [if_neg hfull]
        exact ⟨rfl, hb', hring, rfl, hin'⟩
      | cons c cs =>
        obtain ⟨tk', hread, hget, hin', hse, hb', hring⟩ := read_cons hb hin
        obtain ⟨hadv, hbadv, hradv⟩ := advance_input hb' hse hin' c
        rw [hread]
        simp only [hget]
        unfold lexOne
        rw [if_neg hfull]
        have hlen : cs.length < n := by
          rw [hin, List.length_cons] at hn
          omega
        cases hlex : lexChar l c with
        | go l' =>
          obtain ⟨r, hr, hrb, hrB, hrr, hrm⟩ := ih (l := l') hbadv (by rw [hadv]; exact hlen)
          rw [hadv] at hrb hrm
          exact ⟨r, hr, hrb, hrB, hrr.trans (hradv.trans hring), hrm⟩
        | tok b => exact ⟨_, rfl, rfl, hbadv, hradv.trans hring, rfl, hadv⟩
        | back b =>
          obtain ⟨hbk, hbB, hbr⟩ := back_input hb' hin' c
          exact ⟨_, rfl, rfl, hbB, hbr.trans hring, rfl, hbk⟩

end

/-! ## The ring -/

/-- How many tokens are in the ring. -/
def GenTokenize.count (tk : GenTokenize) : Nat :=
  if tk.ts = -1 then 0 else if tk.te ≤ tk.ts.toNat then tk.te + 5 - tk.ts.toNat else tk.te - tk.ts.toNat

/-- The tokens in the ring. -/
def GenTokenize.queue (tk : GenTokenize) : List CStr :=
  (Core.Ring.items tk.t 5 tk.ts.toNat tk.count).map fun g => strOf g.b

/-- The tokens still to come. -/
def GenTokenize.pending (tk : GenTokenize) : List CStr :=
  tk.queue ++ tokens (some tokenizeBufsize) tk.input

/-- Where the markers stand. An empty ring begins at slot 0 while there is something to read. -/
structure GenTokenize.Good (tk : GenTokenize) : Prop where
  bounded : tk.Bounded
  te : tk.te < 5
  ts : tk.ts = -1 ∨ 0 ≤ tk.ts ∧ tk.ts < 5
  empty : tk.ts = -1 → tk.te = 0 ∨ tk.input = []

/-- The ring is full, or nothing is left to read. -/
def GenTokenize.Filled (tk : GenTokenize) : Prop := tk.ts = tk.te ∨ tk.input = []

section
variable {tk tk' : GenTokenize} {r : Scanned} {n : Nat}

theorem limit_ne : some tokenizeBufsize ≠ some 0 := by decide

theorem strOf_nul_set (w : Buf) : strOf (w.set 0 0) = [] := by
  cases w <;> rfl

/-- A complete token is the string in its slot. -/
theorem strOf_slot (hf : r.full = true) (h0 : 0 ∉ r.b) (b : Buf) : strOf (r.slot b).b = r.b := by
  unfold Scanned.slot
  simp only
  rw [if_pos hf, List.set_append_right _ _ (Nat.le_refl _), Nat.sub_self, strOf_append h0, strOf_nul_set,
    List.append_nil]

theorem tokens_nil : tokens (some tokenizeBufsize) [] = [] := by
  rw [tokens_eq limit_ne]
  rfl

/-- What a filled ring does not hold will not come. -/
theorem pending_filled (hf : tk.Filled) (hts : tk.ts ≠ tk.te) : tk.pending = tk.queue := by
  unfold GenTokenize.pending
  rw [hf.resolve_left hts, tokens_nil, List.append_nil]

/-- The slot behind the last. -/
theorem live_slot (h : tk.Good) (hne : tk.ts ≠ tk.te) (hts : tk.ts ≠ -1) :
    tk.ts.toNat < 5 ∧ tk.count < 5 ∧ (tk.ts.toNat + tk.count) % 5 = tk.te := by
  have hte := h.te
  have ⟨h0, h5⟩ := h.ts.resolve_left hts
  unfold GenTokenize.count
  rw [if_neg hts]
  refine ⟨by omega, ?_⟩
  split
  · refine ⟨by omega, ?_⟩
    rw [show tk.ts.toNat + (tk.te + 5 - tk.ts.toNat) = tk.te + 5 by omega, Nat.add_mod_right,
      Nat.mod_eq_of_lt hte]
  · refine ⟨by omega, ?_⟩
    rw [show tk.ts.toNat + (tk.te - tk.ts.toNat) = tk.te by omega, Nat.mod_eq_of_lt hte]

theorem end_slot (h : tk.Good) (hne : tk.ts ≠ tk.te) (hin : tk.input ≠ []) :
    tk.ts.toNat < 5 ∧ tk.count < 5 ∧ (tk.ts.toNat + tk.count) % 5 = tk.te := by
  by_cases hts : tk.ts = -1
  · have h0 := (h.empty hts).resolve_right hin
    unfold GenTokenize.count
    rw [if_pos hts, hts, h0]
    decide
  · exact live_slot h hne hts

/-- What a round of the outer loop leaves, with a token or at the end of the file. -/
def GenTokenize.stored (tk : GenTokenize) (r : Scanned) : GenTokenize :=
  { r.tk with
    t := Function.update tk.t tk.te (r.slot (tk.t tk.te).b)
    te := if tokenizeLookahead < tk.te + 1 then 0 else tk.te + 1
    ts := if tk.ts = -1 then 0 else tk.ts }

theorem stored_ts (tk : GenTokenize) (r : Scanned) : (tk.stored r).ts.toNat = tk.ts.toNat := by
  unfold GenTokenize.stored
  simp only
  split
  · rename_i hts
    rw [hts]
    rfl
  · rfl

theorem stored_count (h : tk.Good) (hne : tk.ts ≠ tk.te) (hin : tk.input ≠ []) :
    (tk.stored r).count = tk.count + 1 := by
  have hte := h.te
  unfold GenTokenize.count
  rw [stored_ts]
  unfold GenTokenize.stored tokenizeLookahead
  simp only
  rcases h.ts with hts | ⟨h0, h5⟩
  · have h0 := (h.empty hts).resolve_right hin
    simp [hts, h0]
  · have hts : tk.ts ≠ -1 := by omega
    rw [if_neg hts, if_neg hts, if_neg hts]
    split <;> split <;> split <;> omega

theorem stored_good (h : tk.Good) (hb : r.tk.Bounded) : (tk.stored r).Good := by
  have hte := h.te
  refine ⟨hb, ?_, ?_, ?_⟩
  · unfold GenTokenize.stored tokenizeLookahead
    simp only
    split <;> omega
  · right
    have hts := h.ts
    unfold GenTokenize.stored
    simp only
    split <;> omega
  · intro hts
    have hts' := h.ts
    unfold GenTokenize.stored at hts
    simp only at hts
    split at hts <;> omega

/-- A token goes from the text to the end of the ring. -/
theorem stored_queue (h : tk.Good) (hne : tk.ts ≠ tk.te) (hin : tk.input ≠ []) (hf : r.full = true)
    (h0 : 0 ∉ r.b) : (tk.stored r).queue = tk.queue ++ [r.b] := by
  obtain ⟨hi, hk, hmod⟩ := end_slot h hne hin
  unfold GenTokenize.queue
  rw [stored_ts, stored_count h hne hin]
  have ht : (tk.stored r).t =
      Function.update tk.t ((tk.ts.toNat + tk.count) % 5) (r.slot (tk.t tk.te).b) := by
    rw [hmod]
    rfl
  rw [ht, Core.Ring.items_push _ _ hi hk, List.map_append, List.map_singleton, strOf_slot hf h0]

/-- At the end of the file only the slot behind the last is written. -/
theorem eof_queue (h : tk.Good) (hne : tk.ts ≠ tk.te) (hr : r.tk.SameRing tk) (g : GenToken) :
    { r.tk with t := Function.update tk.t tk.te g }.queue = tk.queue := by
  obtain ⟨hts, hte, -⟩ := hr
  unfold GenTokenize.queue
  have hcount : { r.tk with t := Function.update tk.t tk.te g }.count = tk.count := by
    unfold GenTokenize.count
    rw [hts, hte]
  rw [hcount]
  simp only [hts]
  by_cases h1 : tk.ts = -1
  · rw [show tk.count = 0 from if_pos h1]
    rfl
  · obtain ⟨hi, hk, hmod⟩ := live_slot h hne h1
    rw [← hmod, Core.Ring.items_update _ _ hi hk]

end

/-! ## The calls -/

section
variable {tk : GenTokenize} {n l : Nat} {w : Buf} {tok : CStr}

theorem count_le (h : tk.Good) : tk.count ≤ 5 := by
  have hte := h.te
  have hts := h.ts
  unfold GenTokenize.count
  split
  · omega
  · split <;> omega

theorem count_empty (h : tk.Good) : tk.ts = -1 ↔ tk.count = 0 := by
  have hte := h.te
  have hts := h.ts
  unfold GenTokenize.count
  split
  · exact ⟨fun _ => rfl, fun _ => ‹_›⟩
  · refine ⟨fun h => absurd h ‹_›, fun h0 => ?_⟩
    split at h0 <;> omega

/-- Filling the ring leaves the tokens still to come. -/
theorem tokenize_spec (h : tk.Good) (hn : 6 ≤ n + tk.count) :
    ∃ tk', GenTokenize.tokenize n tk = some tk' ∧ tk'.Good ∧ tk'.Filled ∧ tk'.pending = tk.pending := by
  induction n generalizing tk with
  | zero => have := count_le h; omega
  | succ n ih =>
    unfold GenTokenize.tokenize
    by_cases hne : tk.ts = tk.te
    · rw [if_pos hne]
      exact ⟨tk, rfl, h, .inl hne, rfl⟩
    rw [if_neg hne]
    obtain ⟨r, hr, hrb, hrB, hring, hrm⟩ := scanToken_spec (n := tk.left + 1) (l := .start)
      (x := (tk.t tk.te).x) (y := (tk.t tk.te).y) h.bounded (by rw [left_eq h.bounded]; omega)
    simp only [hr, Option.bind_eq_bind, Option.bind_some]
    have htok := tokens_eq limit_ne tk.input
    have h0 : 0 ∉ r.b := hrb ▸ lexOne_nul _ _ (show 0 ∉ Lex.start.b by simp [Lex.start])
    cases hlex : lexOne (some tokenizeBufsize) .start tk.input with
    | eof b =>
      rw [hlex] at hrm htok
      obtain ⟨hf, hin⟩ := hrm
      have hin' : { r.tk with t := Function.update tk.t tk.te (r.slot (tk.t tk.te).b) }.input = [] := hin
      rw [hf, if_neg Bool.false_ne_true]
      refine ⟨_, rfl, ⟨hrB, hring.2.1 ▸ h.te, hring.1 ▸ h.ts, fun _ => .inr hin'⟩, .inr hin', ?_⟩
      unfold GenTokenize.pending
      rw [eof_queue h hne hring, hin', tokens_nil, htok]
    | tok b rest =>
      rw [hlex] at hrm htok hrb
      obtain ⟨hf, hin⟩ := hrm
      have hinp : tk.input ≠ [] := by
        intro hnil
        rw [hnil] at hlex
        cases hlex
      rw [if_pos hf]
      obtain ⟨tk', htk', hg, hfill, hp⟩ := ih (stored_good h hrB)
        (by rw [stored_count h hne hinp]; omega)
      refine ⟨tk', htk', hg, hfill, ?_⟩
      have hin' : (tk.stored r).input = rest := hin
      rw [hp]
      unfold GenTokenize.pending
      rw [stored_queue h hne hinp hf h0, hin', htok, hrb, List.append_assoc]
      rfl

/-- `gen_tokenize_ahead(0)` looks at the first token still to come. -/
theorem ahead_spec (h : tk.Good) (l : Nat) (w : Buf) :
    ∃ tk', tk'.Good ∧ tk'.Filled ∧ tk'.pending = tk.pending ∧
      match tk.pending with
      | [] => GenTokenize.ahead 0 l w tk = some (false, w, tk')
      | tok :: _ => GenTokenize.ahead 0 l w tk = some (true, strncpy w tok l, tk') ∧ tk'.ts ≠ -1 := by
  obtain ⟨tk', htk', hg, hfill, hp⟩ := tokenize_spec h (show 6 ≤ tokenizeFuel + tk.count by
    unfold tokenizeFuel tokenizeLookahead; omega)
  refine ⟨tk', hg, hfill, hp, ?_⟩
  have hte := hg.te
  unfold GenTokenize.ahead
  simp only [htk', Option.bind_eq_bind, Option.bind_some]
  rw [← hp]
  by_cases hts : tk'.ts = -1
  · have hq : tk'.pending = [] := by
      rw [pending_filled hfill (by omega), GenTokenize.queue, (count_empty hg).mp hts]
      rfl
    rw [hq, if_pos hts]
    rfl
  · obtain ⟨h0, h5⟩ := hg.ts.resolve_left hts
    obtain ⟨k, hk⟩ := Nat.exists_eq_succ_of_ne_zero (mt (count_empty hg).mpr hts)
    have hq : tk'.pending = strOf (tk'.t tk'.ts.toNat).b :: tk'.pending.tail := by
      unfold GenTokenize.pending GenTokenize.queue
      rw [hk, Core.Ring.items_pop _ _ (by omega)]
      rfl
    rw [hq, if_neg hts, if_neg]
    · refine ⟨?_, hts⟩
      have hmod : ((0 + tk'.ts) % (tokenizeLookahead + 1)).toNat = tk'.ts.toNat := by
        unfold tokenizeLookahead
        omega
      rw [hmod]
      rfl
    · unfold tokenizeLookahead
      split <;> omega

/-- The ring without its first token. mirrors src/tokenize.c:189-194 -/
def GenTokenize.popped (tk : GenTokenize) : GenTokenize :=
  let ts := if tk.ts + 1 > tokenizeLookahead then 0 else tk.ts + 1
  { tk with ts := if ts = tk.te then -1 else ts }

theorem popped_ts (h : tk.Good) (hts : tk.ts ≠ -1) : tk.popped.ts =
    if Core.Ring.succ 5 tk.ts.toNat = tk.te then -1 else (Core.Ring.succ 5 tk.ts.toNat : Int) := by
  obtain ⟨h0, h5⟩ := h.ts.resolve_left hts
  have hsucc : (if tk.ts + 1 > (4 : Nat) then 0 else tk.ts + 1) = (Core.Ring.succ 5 tk.ts.toNat : Int) := by
    unfold Core.Ring.succ
    split <;> split <;> omega
  unfold GenTokenize.popped tokenizeLookahead
  simp only [hsucc, Int.natCast_inj]

theorem popped_count (h : tk.Good) (hts : tk.ts ≠ -1) : tk.popped.count + 1 = tk.count := by
  have hte := h.te
  obtain ⟨h0, h5⟩ := h.ts.resolve_left hts
  have hpop := popped_ts h hts
  have hte' : tk.popped.te = tk.te := rfl
  unfold GenTokenize.count
  rw [if_neg hts, hpop, hte']
  have hsucc : Core.Ring.succ 5 tk.ts.toNat = if 5 ≤ tk.ts.toNat + 1 then 0 else tk.ts.toNat + 1 := rfl
  split
  · rw [if_pos rfl]
    split at hsucc <;> split <;> omega
  · rw [if_neg (by omega), Int.toNat_natCast]
    split at hsucc <;> split <;> split <;> omega

theorem popped_good (h : tk.Good) (hfill : tk.Filled) (hts : tk.ts ≠ -1) : tk.popped.Good := by
  have hte := h.te
  have hcount := popped_count h hts
  obtain ⟨h0, h5⟩ := h.ts.resolve_left hts
  refine ⟨h.bounded, h.te, ?_, fun hpop => .inr (hfill.resolve_left fun heq => ?_)⟩
  · have hlt := Core.Ring.succ_lt (show tk.ts.toNat < 5 by omega)
    rw [popped_ts h hts]
    split <;> omega
  · -- a full ring is not empty without its first token
    have hz : tk.popped.count = 0 := if_pos hpop
    rw [hz, GenTokenize.count, if_neg hts] at hcount
    split at hcount <;> omega

theorem popped_queue (h : tk.Good) (hts : tk.ts ≠ -1) : tk.popped.queue = tk.queue.tail := by
  have hcount := popped_count h hts
  obtain ⟨h0, h5⟩ := h.ts.resolve_left hts
  unfold GenTokenize.queue
  rw [← hcount, Core.Ring.items_pop _ _ (show tk.ts.toNat < 5 by omega), List.map_cons, List.tail_cons]
  by_cases hz : tk.popped.count = 0
  · rw [hz]
    rfl
  · have hne : tk.popped.ts ≠ -1 := fun hpop => hz (if_pos hpop)
    have hsucc : tk.popped.ts.toNat = Core.Ring.succ 5 tk.ts.toNat := by
      have hpop := popped_ts h hts
      split at hpop
      · exact absurd hpop hne
      · rw [hpop, Int.toNat_natCast]
    rw [hsucc]
    rfl

theorem popped_pending (h : tk.Good) (hts : tk.ts ≠ -1) : tk.popped.pending = tk.pending.tail := by
  have hne : tk.queue ≠ [] := by
    intro hnil
    have hlen := congrArg List.length hnil
    rw [GenTokenize.queue, List.length_map, Core.Ring.items_length] at hlen
    exact hts ((count_empty h).mpr hlen)
  unfold GenTokenize.pending
  rw [popped_queue h hts, List.tail_append_of_ne_nil hne]
  rfl

/-- `gen_tokenize_next` takes it. -/
theorem next_spec (h : tk.Good) (l : Nat) (w : Buf) :
    ∃ tk', tk'.Good ∧ tk'.pending = tk.pending.tail ∧
      match tk.pending with
      | [] => GenTokenize.next l w tk = some (false, w, tk')
      | tok :: _ => GenTokenize.next l w tk = some (true, strncpy w tok l, tk') := by
  obtain ⟨tk', hg, hfill, hp, hahead⟩ := ahead_spec h l w
  unfold GenTokenize.next
  cases hpend : tk.pending with
  | nil =>
    rw [hpend] at hahead
    rw [hahead]
    exact ⟨tk', hg, hp.trans hpend, rfl⟩
  | cons tok rest =>
    rw [hpend] at hahead
    obtain ⟨hret, hts⟩ := hahead
    rw [hret]
    exact ⟨tk'.popped, popped_good hg hfill hts, by rw [popped_pending hg hts, hp, hpend], rfl⟩

end

/-- A call to the tokenizer, with the size of the buffer and the buffer. -/
inductive TokCall
  | next (l : Nat) (w : Buf)
  /-- `gen_tokenize_ahead(0)` -/
  | ahead (l : Nat) (w : Buf)

def TokCall.l : TokCall → Nat
  | .next l _ => l
  | .ahead l _ => l

def TokCall.isNext : TokCall → Bool
  | .next .. => true
  | .ahead .. => false

/-- What the calls of `gen_tokenize_next` return: a token, or 0. -/
def nexts : List TokCall → GenTokenize → Option (List (Option CStr))
  | [], _ => some []
  | .next l w :: cs, tk => do
    let (ret, w, tk) ← GenTokenize.next l w tk
    let rs ← nexts cs tk
    return (if ret then some (strOf w) else none) :: rs
  | .ahead l w :: cs, tk => do
    let (_, _, tk) ← GenTokenize.ahead 0 l w tk
    nexts cs tk

theorem new_good (fname : CStr) (fd : List Chunk) : (GenTokenize.new fname fd).Good :=
  ⟨⟨List.length_replicate, Nat.zero_le _⟩, Nat.zero_lt_succ 4, .inl rfl, fun _ => .inl rfl⟩

theorem new_pending (fname : CStr) (fd : List Chunk) :
    (GenTokenize.new fname fd).pending = tokens (some tokenizeBufsize) (fd.map Subtype.val).flatten := rfl

theorem nexts_pending {tk : GenTokenize} (h : tk.Good) (calls : List TokCall)
    (h0 : ∀ tok ∈ tk.pending, 0 ∉ tok) (hl : ∀ c ∈ calls, ∀ tok ∈ tk.pending, tok.length + 2 ≤ c.l) :
    nexts calls tk = some ((List.range (calls.countP TokCall.isNext)).map fun i => tk.pending[i]?) := by
  induction calls generalizing tk with
  | nil => rfl
  | cons c cs ih =>
    cases c with
    | next l w =>
      obtain ⟨tk', hg, hp, hret⟩ := next_spec h l w
      have hsub : ∀ tok ∈ tk'.pending, tok ∈ tk.pending := by
        intro tok hmem
        rw [hp] at hmem
        exact List.mem_of_mem_tail hmem
      have hrest := ih hg (fun tok hmem => h0 tok (hsub tok hmem))
        fun c hc tok hmem => hl c (List.mem_cons_of_mem _ hc) tok (hsub tok hmem)
      rw [List.countP_cons_of_pos rfl, List.range_succ_eq_map, List.map_cons, List.map_map]
      unfold nexts
      cases hpend : tk.pending with
      | nil =>
        rw [hpend] at hret hp
        rw [hp] at hrest
        simp only [hret, hrest, Option.bind_eq_bind, Option.bind_some]
        rfl
      | cons tok rest =>
        rw [hpend] at hret hp
        rw [hp] at hrest
        have hmem : tok ∈ tk.pending := by rw [hpend]; exact List.mem_cons_self
        have hw : strOf (strncpy w tok l) = tok :=
          strOf_strncpy_fits (h0 tok hmem) (hl _ List.mem_cons_self tok hmem)
        simp only [hret, hrest, Option.bind_eq_bind, Option.bind_some, ↓reduceIte, hw]
        rfl
    | ahead l w =>
      obtain ⟨tk', hg, -, hp, hret⟩ := ahead_spec h l w
      have hrest := ih hg (hp ▸ h0) fun c hc => hp ▸ hl c (List.mem_cons_of_mem _ hc)
      rw [hp] at hrest
      rw [List.countP_cons_of_neg Bool.false_ne_true]
      unfold nexts
      cases hpend : tk.pending with
      | nil =>
        rw [hpend] at hret hrest
        simp only [hret, Option.bind_eq_bind, Option.bind_some]
        exact hrest
      | cons tok rest =>
        rw [hpend] at hret hrest
        simp only [hret.1, Option.bind_eq_bind, Option.bind_some]
        exact hrest

/-- However the file comes in pieces and whatever is looked at ahead, the calls of `gen_tokenize_next`
return the tokens of the text, and then 0. -/
theorem nexts_tokens (fname : CStr) (fd : List Chunk) (calls : List TokCall)
    (hshort : ∀ b ∈ lexemes none (fd.map Subtype.val).flatten, b.length < tokenizeBufsize)
    (hl : ∀ c ∈ calls, ∀ tok ∈ tokens none (fd.map Subtype.val).flatten, tok.length + 2 ≤ c.l) :
    nexts calls (GenTokenize.new fname fd) = some ((List.range (calls.countP TokCall.isNext)).map
      fun i => (tokens none (fd.map Subtype.val).flatten)[i]?) := by
  have hp := (new_pending fname fd).trans (tokens_short hshort)
  rw [← hp] at hl ⊢
  exact nexts_pending (new_good fname fd) calls (hp ▸ tokens_nul none _) hl

theorem nexts_tokens_split :
    let fd : List Chunk := [⟨cstr "ab", by decide⟩, ⟨cstr "c; d", by decide⟩, ⟨cstr "\n", by decide⟩]
    nexts [.ahead 256 [], .next 256 [], .next 256 [], .ahead 256 [], .next 256 [], .next 256 []]
      (GenTokenize.new (cstr "bootd.conf") fd) =
        some [some (cstr "abc"), some (cstr ";"), some (cstr "d"), none] :=
  nexts_tokens _ _ _ (by decide) (by decide)

end Bootd
