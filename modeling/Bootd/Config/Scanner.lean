import Bootd.Config.Parse
import Bootd.Config.Stream

/-!
# The tokenizer under the parser

A `Scanner` is the tokenizer of a file between two calls of `gen_tokenize_next`:
after `k` calls the first `k` tokens of the text are gone, and the ring was filled
with the next ones when the last call was made. So the scanner stands behind
`scanned k` tokens, and `y` counts the line ends up to there, not those in front
of the token that was returned.

`fileSource` is what `parse_file` reads from.

* `next_taken`: `fileSource` does what `gen_tokenize_next` does.
* `y_behind`: `y` after a token was taken.
-/
namespace Bootd

/-- The text behind `n` tokens, or nothing. -/
def behind (lim : Option Nat) : Nat → List UInt8 → List UInt8
  | 0, cs => cs
  | n + 1, cs =>
    match lexOne lim .start cs with
    | .eof _ => []
    | .tok _ rest => behind lim n rest

/-- `y` is increased at each of these. -/
def lineEnds (cs : List UInt8) : Nat := cs.countP fun c => c = 10 ∨ c = 13

section
variable {lim : Option Nat} {cs : List UInt8} {m n : Nat}

theorem behind_nil (h0 : lim ≠ some 0) (n : Nat) : behind lim n [] = [] := by
  cases n with
  | zero => rfl
  | succ n => rw [behind, lexOne, if_neg (not_full_start h0)]

theorem behind_add (h0 : lim ≠ some 0) (m n : Nat) (cs : List UInt8) :
    behind lim (m + n) cs = behind lim n (behind lim m cs) := by
  induction m generalizing cs with
  | zero => rw [Nat.zero_add]; rfl
  | succ m ih =>
    rw [Nat.succ_add, behind, behind]
    split
    · exact (behind_nil h0 n).symm
    · exact ih _

end

/-! ## Line ends -/

section
variable {tk tk' : GenTokenize} {r : Scanned} {c : UInt8} {cs : List UInt8} {n x y : Nat} {l : Lex}

/-- The line ends in front of the scanner and those that `y` has counted. -/
def GenTokenize.lines (tk : GenTokenize) : Nat := tk.y + lineEnds tk.input

theorem read_kept (tk : GenTokenize) :
    (GenTokenize.read tk).2.y = tk.y ∧ (GenTokenize.read tk).2.fname = tk.fname := by
  unfold GenTokenize.read
  split
  · split <;> exact ⟨rfl, rfl⟩
  · exact ⟨rfl, rfl⟩

theorem advance_y (tk : GenTokenize) (c : UInt8) (cs : List UInt8) :
    (tk.advance c).y + lineEnds cs = tk.y + lineEnds (c :: cs) := by
  unfold GenTokenize.advance lineEnds
  rw [List.countP_cons]
  split
  · rename_i hc
    simp only [hc, decide_true, if_true]
    omega
  · rename_i hc
    simp only [hc, decide_false, Bool.false_eq_true, if_false]
    omega

theorem advance_fname (tk : GenTokenize) (c : UInt8) : (tk.advance c).fname = tk.fname := by
  unfold GenTokenize.advance
  split <;> rfl

/-- Scanning for a token counts the line ends it passes. -/
theorem scanToken_lines (hb : tk.Bounded) (hr : scanToken n l x y tk = some r) :
    r.tk.lines = tk.lines ∧ r.tk.fname = tk.fname := by
  induction n generalizing l x y tk with
  | zero => cases hr
  | succ n ih =>
    obtain ⟨hy, hname⟩ := read_kept tk
    unfold scanToken at hr
    split at hr
    · cases hr
      exact ⟨rfl, rfl⟩
    · cases hin : tk.input with
      | nil =>
        obtain ⟨tk', hread, hin', -, -⟩ := read_nil hb hin
        rw [hread] at hr hy hname
        cases hr
        exact ⟨by rw [GenTokenize.lines, GenTokenize.lines, hin, hin', hy], hname⟩
      | cons c cs =>
        obtain ⟨tk', hread, hget, hin', hse, hb', -⟩ := read_cons hb hin
        obtain ⟨hadv, hbadv, -⟩ := advance_input hb' hse hin' c
        rw [hread] at hr hy hname
        simp only [hget] at hr
        have hlines : (tk'.advance c).lines = tk.lines := by
          rw [GenTokenize.lines, hadv, advance_y, GenTokenize.lines, hin, hy]
        have hfname := (advance_fname tk' c).trans hname
        cases hlex : lexChar l c with
        | go l' =>
          simp only [hlex] at hr
          obtain ⟨h₁, h₂⟩ := ih hbadv hr
          exact ⟨h₁.trans hlines, h₂.trans hfname⟩
        | tok b =>
          simp only [hlex] at hr
          cases hr
          exact ⟨hlines, hfname⟩
        | back b =>
          -- only a ';' is put back, so no line end is counted twice
          have hc := lexChar_back_semi hlex
          simp only [hlex] at hr
          cases hr
          obtain ⟨hbk, -, -⟩ := back_input hb' hin' c
          have hy' : (tk'.advance c).y = tk'.y := by
            unfold GenTokenize.advance
            rw [if_neg (by rw [hc]; decide)]
          refine ⟨?_, hfname⟩
          rw [GenTokenize.lines, hbk, GenTokenize.lines, hin, ← hy, ← hy']

/-- Filling the ring scans as many tokens as there is room for. -/
theorem tokenize_behind (h : tk.Good) (hr : GenTokenize.tokenize n tk = some tk') :
    tk'.input = behind (some tokenizeBufsize) (5 - tk.count) tk.input ∧ tk'.lines = tk.lines ∧
      tk'.fname = tk.fname := by
  induction n generalizing tk with
  | zero => cases hr
  | succ n ih =>
    have hle := count_le h
    have hte := h.te
    unfold GenTokenize.tokenize at hr
    by_cases hne : tk.ts = tk.te
    · have hcount : tk.count = 5 := by
        unfold GenTokenize.count
        rw [if_neg (by omega), if_pos (by omega)]
        omega
      rw [if_pos hne] at hr
      rw [hcount, ← Option.some.inj hr]
      exact ⟨rfl, rfl, rfl⟩
    rw [if_neg hne] at hr
    obtain ⟨r, hs, -, hrB, -, hrm⟩ := scanToken_spec (n := tk.left + 1) (l := .start)
      (x := (tk.t tk.te).x) (y := (tk.t tk.te).y) h.bounded (by rw [left_eq h.bounded]; omega)
    obtain ⟨hlines, hname⟩ := scanToken_lines h.bounded hs
    simp only [hs, Option.bind_eq_bind, Option.bind_some] at hr
    cases hlex : lexOne (some tokenizeBufsize) .start tk.input with
    | eof b =>
      rw [hlex] at hrm
      obtain ⟨hf, hin⟩ := hrm
      rw [hf, if_neg Bool.false_ne_true] at hr
      cases hr
      have hcount : tk.count < 5 := by
        by_cases hts : tk.ts = -1
        · rw [(count_empty h).mp hts]; decide
        · exact (live_slot h hne hts).2.1
      obtain ⟨k, hk⟩ := Nat.exists_eq_succ_of_ne_zero (show 5 - tk.count ≠ 0 by omega)
      refine ⟨?_, hlines, hname⟩
      rw [hk, behind, hlex]
      exact hin
    | tok b rest =>
      rw [hlex] at hrm
      obtain ⟨hf, hin⟩ := hrm
      have hinp : tk.input ≠ [] := by
        intro hnil
        rw [hnil] at hlex
        cases hlex
      rw [if_pos hf] at hr
      obtain ⟨hin', hlines', hname'⟩ := ih (stored_good h hrB) hr
      have hcount := stored_count (r := r) h hne hinp
      obtain ⟨-, hlt, -⟩ := end_slot h hne hinp
      refine ⟨?_, hlines'.trans hlines, hname'.trans hname⟩
      have hinr : (tk.stored r).input = rest := hin
      rw [hin', hcount, hinr, show 5 - tk.count = (5 - (tk.count + 1)) + 1 by omega, behind, hlex]

end

/-! ## Taking a token -/

/-- How many tokens were scanned when `k` were taken. -/
def scanned (k : Nat) : Nat := if k = 0 then 0 else k + tokenizeLookahead

/-- Where the tokenizer of a text stands after `k` calls. -/
structure GenTokenize.Past (tk : GenTokenize) (text : List UInt8) (k : Nat) : Prop where
  good : tk.Good
  pending : tk.pending = (tokens (some tokenizeBufsize) text).drop k
  input : tk.input = behind (some tokenizeBufsize) (scanned k) text
  count : k + tk.count = scanned k ∨ tk.input = []
  lines : tk.lines = lineEnds text

/-- The ring was filled. -/
def GenTokenize.filled (tk : GenTokenize) : GenTokenize := (GenTokenize.tokenize tokenizeFuel tk).getD tk

/-- The next token, and what is left. -/
def GenTokenize.taken (tk : GenTokenize) : Option CStr × GenTokenize :=
  if tk.filled.ts = -1 then (none, tk.filled)
  else (some (strOf (tk.filled.t tk.filled.ts.toNat).b), tk.filled.popped)

section
variable {tk : GenTokenize} {text : List UInt8} {k : Nat}

theorem filled_spec (h : tk.Good) : GenTokenize.tokenize tokenizeFuel tk = some tk.filled ∧ tk.filled.Good ∧
    tk.filled.Filled ∧ tk.filled.pending = tk.pending := by
  obtain ⟨tk', htk', hg, hfill, hp⟩ := tokenize_spec h (show 6 ≤ tokenizeFuel + tk.count by
    unfold tokenizeFuel tokenizeLookahead; omega)
  have heq : tk.filled = tk' := by rw [GenTokenize.filled, htk']; rfl
  rw [heq]
  exact ⟨htk', hg, hfill, hp⟩

/-- An empty ring after it was filled: there are no more tokens. -/
theorem filled_empty (h : tk.Good) : tk.filled.ts = -1 ↔ tk.pending = [] := by
  obtain ⟨-, hg, hfill, hp⟩ := filled_spec h
  have hte := hg.te
  constructor
  · intro hts
    rw [← hp, pending_filled hfill (by omega), GenTokenize.queue, (count_empty hg).mp hts]
    rfl
  · intro hnil
    by_contra hts
    have hc : tk.filled.count = 0 := by
      have hlen := congrArg List.length (List.append_eq_nil_iff.mp (hp.trans hnil)).1
      rwa [GenTokenize.queue, List.length_map, Core.Ring.items_length] at hlen
    exact hts ((count_empty hg).mpr hc)

/-- `gen_tokenize_next` in these terms. -/
theorem next_taken (h : tk.Good) (l : Nat) (w : Buf) : GenTokenize.next l w tk = some (match tk.taken with
    | (none, tk') => (false, w, tk')
    | (some b, tk') => (true, strncpy w b l, tk')) := by
  obtain ⟨htk, hg, -, -⟩ := filled_spec h
  have hte := hg.te
  unfold GenTokenize.next GenTokenize.ahead GenTokenize.taken
  simp only [htk, Option.bind_eq_bind, Option.bind_some]
  by_cases hts : tk.filled.ts = -1
  · rw [if_pos hts, if_pos hts]
    rfl
  · obtain ⟨h0, h5⟩ := hg.ts.resolve_left hts
    have hmod : ((0 + tk.filled.ts) % (tokenizeLookahead + 1)).toNat = tk.filled.ts.toNat := by
      unfold tokenizeLookahead
      omega
    rw [if_neg hts, if_neg hts, if_neg, hmod]
    · rfl
    · unfold tokenizeLookahead
      split <;> omega

theorem taken_token (h : tk.Good) : tk.taken.1 = tk.pending.head? := by
  obtain ⟨-, hg, -, hp⟩ := filled_spec h
  unfold GenTokenize.taken
  by_cases hts : tk.filled.ts = -1
  · rw [if_pos hts, (filled_empty h).mp hts]
    rfl
  · obtain ⟨h0, h5⟩ := hg.ts.resolve_left hts
    obtain ⟨k, hk⟩ := Nat.exists_eq_succ_of_ne_zero (mt (count_empty hg).mpr hts)
    rw [if_neg hts, ← hp, GenTokenize.pending, GenTokenize.queue, hk, Core.Ring.items_pop _ _ (by omega)]
    rfl

theorem taken_pending (h : tk.Good) : tk.taken.2.pending = tk.pending.tail := by
  obtain ⟨-, hg, -, hp⟩ := filled_spec h
  unfold GenTokenize.taken
  by_cases hts : tk.filled.ts = -1
  · rw [if_pos hts, (filled_empty h).mp hts]
    exact hp.trans ((filled_empty h).mp hts)
  · rw [if_neg hts]
    exact (popped_pending hg hts).trans (by rw [hp])

/-- One more call. -/
theorem GenTokenize.Past.taken (h : tk.Past text k) : tk.taken.2.Past text (k + 1) := by
  obtain ⟨htk, hg, hfill, hp⟩ := filled_spec h.good
  obtain ⟨hin, hlines, -⟩ := tokenize_behind h.good htk
  have hpend : tk.taken.2.pending = (tokens (some tokenizeBufsize) text).drop (k + 1) := by
    rw [taken_pending h.good, h.pending, List.tail_drop]
  have hinput : tk.filled.input = behind (some tokenizeBufsize) (scanned (k + 1)) text := by
    have hk : scanned (k + 1) = k + 5 := rfl
    have hle : scanned k ≤ k + 5 := by unfold scanned tokenizeLookahead; split <;> omega
    have hcount := count_le h.good
    rcases h.count with hc | hnil
    · rw [hin, h.input, ← behind_add limit_ne, hk]
      congr 1
      omega
    · obtain ⟨d, hd⟩ := Nat.exists_eq_add_of_le hle
      rw [hin, hnil, behind_nil limit_ne, hk, hd, behind_add limit_ne, ← h.input, hnil, behind_nil limit_ne]
  have hfull : tk.filled.ts ≠ -1 → k + 1 + tk.filled.popped.count = scanned (k + 1) ∨ tk.filled.input = [] := by
    intro hts
    refine hfill.imp (fun heq => ?_) id
    have hpop := popped_count hg hts
    have hcount : tk.filled.count = 5 := by
      unfold GenTokenize.count
      rw [if_neg hts, if_pos (by omega)]
      omega
    have hk : scanned (k + 1) = k + 5 := rfl
    omega
  unfold GenTokenize.taken at hpend ⊢
  by_cases hts : tk.filled.ts = -1
  · have hte := hg.te
    rw [if_pos hts] at hpend ⊢
    exact ⟨hg, hpend, hinput, .inr (hfill.resolve_left (by omega)), hlines.trans h.lines⟩
  · rw [if_neg hts] at hpend ⊢
    exact ⟨popped_good hg hfill hts, hpend, hinput, hfull hts, hlines.trans h.lines⟩

theorem taken_fname (h : tk.Good) : tk.taken.2.fname = tk.fname := by
  obtain ⟨htk, -, -, -⟩ := filled_spec h
  obtain ⟨-, -, hname⟩ := tokenize_behind h htk
  unfold GenTokenize.taken
  split <;> exact hname

end

/-! ## The source -/

/-- The tokenizer of a file between two calls. -/
structure Scanner (fname : CStr) (text : List UInt8) where
  tk : GenTokenize
  name : tk.fname = fname
  past : ∃ k, tk.Past text k

section
variable {fname : CStr} {text : List UInt8}

theorem Scanner.good (t : Scanner fname text) : t.tk.Good :=
  let ⟨_, h⟩ := t.past
  h.good

def Scanner.next (t : Scanner fname text) : Option CStr × Scanner fname text :=
  (t.tk.taken.1, ⟨t.tk.taken.2, (taken_fname t.good).trans t.name, t.past.imp' _ fun _ h => h.taken⟩)

theorem Scanner.nul (t : Scanner fname text) : ∀ tok ∈ t.tk.pending, 0 ∉ tok := by
  obtain ⟨k, h⟩ := t.past
  intro tok hmem
  rw [h.pending] at hmem
  exact tokens_nul _ _ tok (List.mem_of_mem_drop hmem)

/-- What `parse_file` reads from. -/
def fileSource (fname : CStr) (text : List UInt8) : Source (Scanner fname text) where
  next := Scanner.next
  y t := t.tk.y
  fname := fname
  rest t := t.tk.pending
  next_eq t := taken_token t.good
  rest_next t := taken_pending t.good
  nul := Scanner.nul

theorem new_past (fname : CStr) (fd : List Chunk) :
    (GenTokenize.new fname fd).Past (fd.map Subtype.val).flatten 0 :=
  ⟨new_good fname fd, new_pending fname fd, rfl, .inl rfl, Nat.zero_add _⟩

/-- The tokenizer of a file that was opened. -/
def Scanner.new (fname : CStr) (fd : List Chunk) (htext : (fd.map Subtype.val).flatten = text) : Scanner fname text :=
  ⟨.new fname fd, rfl, 0, htext ▸ new_past fname fd⟩

theorem Scanner.new_rest (fname : CStr) (fd : List Chunk) (htext : (fd.map Subtype.val).flatten = text) :
    (fileSource fname text).rest (.new fname fd htext) = tokens (some tokenizeBufsize) text := by
  subst htext
  exact new_pending fname fd

/-- The parser at the start of a file. -/
def fileStart (fname : CStr) (fd : List Chunk) (mem : EntId → Entry) :
    ParseState (Scanner fname (fd.map Subtype.val).flatten) :=
  ⟨.new fname fd rfl, .empty, mem, 0⟩

/-- `y` when a token was taken and `left` tokens were still to come before. -/
def yBehind (text : List UInt8) (left : Nat) : Nat :=
  lineEnds text - lineEnds (behind (some tokenizeBufsize)
    ((tokens (some tokenizeBufsize) text).length - left + 1 + tokenizeLookahead) text)

theorem y_behind (t : Scanner fname text) (h : t.tk.pending ≠ []) :
    (fileSource fname text).y t.next.2 = yBehind text t.tk.pending.length := by
  obtain ⟨k, hp⟩ := t.past
  have hlen : t.tk.pending.length = (tokens (some tokenizeBufsize) text).length - k := by
    rw [hp.pending, List.length_drop]
  have hpos := List.length_pos_of_ne_nil h
  have hk : (tokens (some tokenizeBufsize) text).length - t.tk.pending.length = k := by omega
  have hlines : t.tk.taken.2.y + lineEnds t.tk.taken.2.input = lineEnds text := hp.taken.lines
  rw [hp.taken.input] at hlines
  unfold yBehind
  rw [hk]
  exact Nat.eq_sub_of_add_eq hlines

end
end Bootd
