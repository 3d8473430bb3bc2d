import Bootd.Config.Kept
import Bootd.Config.Scanner

/-!
# An entry carries the scanner's line

`parse_sub` sets `e->line` to `tokenize->y` (src/parse.c:188). This is where the
scanner stands, and not where the name does, though each token in the ring has a
`y` of its own (src/tokenize.c:100-103): when the parser takes a token, the
scanner has filled the ring and stands behind the fourth token after it, or at
the end of the file. And it counts from 0, with two line ends for a CR LF
(src/tokenize.c:89-91), while `gen_tokenize_error` prints `y + 1`. So the messages
of `parse_error` and `parse_warn` name a line further down, depending on how the
text goes on.

Counterexample: `a;` with and without a newline behind it (`line_depends`).

`entry_lines_iff`: when each entry has the line its name is on, wherever one starts
to count: if the line ends up to the fourth token behind the name are as many as
those in front of it.
-/
namespace Bootd

open Bootd.Core
open Bootd.Core.Fuel

/-! ## The names of a forest -/

/-- The tokens it is read from, with a `}` for each block. -/
def Forest.tokenCount : Forest → Nat
  | .nil => 0
  | .leaf _ vs f => vs.length + 2 + f.tokenCount
  | .block _ vs sub f => vs.length + 3 + sub.tokenCount + f.tokenCount

/-- Which of the tokens are names, counting from `i`. -/
def Forest.names : Nat → Forest → List Nat
  | _, .nil => []
  | i, .leaf _ vs f => i :: f.names (i + vs.length + 2)
  | i, .block _ vs sub f =>
    i :: (sub.names (i + vs.length + 2) ++ f.names (i + vs.length + 3 + sub.tokenCount))

/-- The list at `p` has an entry for each statement, with the line of its name. -/
def Numbered (mem : EntId → Entry) (line : Nat → Nat) : Nat → Forest → Option EntId → Prop
  | _, .nil, _ => True
  | i, .leaf _ vs f, p => ∃ e, p = some e ∧ (mem e).line = line i ∧
      Numbered mem line (i + vs.length + 2) f (mem e).next
  | i, .block _ vs sub f, p => ∃ e, p = some e ∧ (mem e).line = line i ∧
      Numbered mem line (i + vs.length + 2) sub (mem e).sub ∧
      Numbered mem line (i + vs.length + 3 + sub.tokenCount) f (mem e).next

/-! ## Lines of a text -/

/-- The text from its first token on, read from `l` at the start and kept in `rest` while there is none. -/
def skipBlanks : Lex → List UInt8 → List UInt8 → List UInt8
  | _, rest, [] => rest
  | l, rest, c :: cs =>
    match lexChar l c with
    | .go l' => if l' = .start then skipBlanks .start cs cs else skipBlanks l' rest cs
    | .tok _ => rest
    | .back _ => rest

/-- The line ends in a text: LF, CR, or CR LF. -/
def countLines : List UInt8 → Nat
  | [] => 0
  | 13 :: 10 :: cs => countLines cs + 1
  | c :: cs => if c = 10 ∨ c = 13 then countLines cs + 1 else countLines cs

/-- How many lines there are in front of the one on which token `i` starts. -/
def lineOf (text : List UInt8) (i : Nat) : Nat :=
  let cs := behind (some tokenizeBufsize) i text
  countLines (text.take (text.length - (skipBlanks .start cs cs).length))

/-- The CR and LF up to the end of token `i + TOKENIZE_LOOKAHEAD`, or of the file. -/
def lineEndsAhead (text : List UInt8) (i : Nat) : Nat :=
  lineEnds text - lineEnds (behind (some tokenizeBufsize) (i + 1 + tokenizeLookahead) text)

/-- What `parse_file` can read in the file. -/
def FileBlock (fname : CStr) (fd : List Chunk) (stack : Nat → Locals) (f : Forest) : Prop :=
  ∃ rest σ', Block fname stack ⟨(stack 0).w.last, 1, .empty⟩ f
    (tokens (some tokenizeBufsize) (fd.map Subtype.val).flatten) rest σ'

/-- Each entry of the tree that `parse_file` returns has the line of its name; `first` is the number of the first
line. -/
def EntryLines (first : Nat) (fname : CStr) (fd : List Chunk) (stack : Nat → Locals) (mem : EntId → Entry) : Prop :=
  let text := (fd.map Subtype.val).flatten
  ∀ p st', Settles .fuel (fun k => parseSub (fileSource fname text) stack k) (fileStart fname fd mem) (.ok p st') →
    ∀ f, FileBlock fname fd stack f → Numbered st'.mem (fun i => first + lineOf text i) 0 f p

section
variable {mem mem' : EntId → Entry} {line line' : Nat → Nat} {strs : List CStr} {f : Forest} {i lo : Nat}
  {p : Option EntId}

/-- `Numbered`, by the place of the entries in the table. -/
def Lined (mem : EntId → Entry) (line : Nat → Nat) : Nat → Nat → Forest → Prop
  | _, _, .nil => True
  | lo, i, .leaf _ vs f => (mem lo).line = line i ∧ Lined mem line (lo + 1) (i + vs.length + 2) f
  | lo, i, .block _ vs sub f => (mem lo).line = line i ∧ Lined mem line (lo + 1) (i + vs.length + 2) sub ∧
      Lined mem line (lo + 1 + sub.size) (i + vs.length + 3 + sub.tokenCount) f

theorem Lined.frame (h : Lined mem line lo i f)
    (hmem : ∀ j : Nat, lo ≤ j → j < lo + f.size → (mem' j).line = (mem j).line) : Lined mem' line lo i f := by
  induction f generalizing lo i with
  | nil => trivial
  | leaf n vs f ih =>
    simp only [Forest.size] at hmem
    refine ⟨(hmem lo (Nat.le_refl _) (by omega)).trans h.1, ih h.2 fun j h₁ h₂ => hmem j (by omega) (by omega)⟩
  | block n vs sub f ihs ihf =>
    simp only [Forest.size] at hmem
    exact ⟨(hmem lo (Nat.le_refl _) (by omega)).trans h.1,
      ihs h.2.1 fun j h₁ h₂ => hmem j (by omega) (by omega),
      ihf h.2.2 fun j h₁ h₂ => hmem j (by omega) (by omega)⟩

theorem Lined.numbered (h : Lined mem line lo i f) (hh : Holds strs mem lo f) :
    Numbered mem line i f (f.link lo) := by
  induction f generalizing lo i with
  | nil => trivial
  | leaf n vs f ih =>
    obtain ⟨-, hnext, -, hf⟩ := hh
    exact ⟨lo, rfl, h.1, hnext ▸ ih h.2 hf⟩
  | block n vs sub f ihs ihf =>
    obtain ⟨-, hnext, hsub, hs, hf⟩ := hh
    refine ⟨lo, rfl, h.1, ?_, hnext ▸ ihf h.2.2 hf⟩
    by_cases hnil : sub = .nil
    · rw [hnil]
      trivial
    · rw [hsub hnil, ← link_ne_nil hnil]
      exact ihs h.2.1 hs

/-- The lines are right if they are right for every name. -/
theorem Numbered.iff (h : Numbered mem line i f p) :
    Numbered mem line' i f p ↔ ∀ j ∈ f.names i, line j = line' j := by
  induction f generalizing i p with
  | nil => simp [Numbered, Forest.names]
  | leaf n vs f ih =>
    obtain ⟨e, rfl, hl, hf⟩ := h
    simp only [Numbered, Forest.names, List.mem_cons, forall_eq_or_imp, Option.some.injEq, exists_eq_left', hl, ih hf]
  | block n vs sub f ihs ihf =>
    obtain ⟨e, rfl, hl, hs, hf⟩ := h
    simp only [Numbered, Forest.names, List.mem_cons, List.mem_append, forall_eq, Option.some.injEq,
      exists_eq_left', hl, ihs hs, ihf hf, or_imp, forall_and]

end

/-! ## The lines of the entries -/

section
variable {τ : Type} {S : Source τ} {stack : Nat → Locals} {σ σ' : Scan} {f : Forest} {ts rest : List CStr}
  {L : Nat → Nat} {total : Nat} {fname : CStr}

/-- Unless the file ends, a block takes the tokens of its forest and a `}`. -/
theorem Block.tokenCount (h : Block fname stack σ f ts rest σ') :
    rest = [] ∨ ts.length = f.tokenCount + 1 + rest.length := by
  induction h with
  | eof | lastLeaf | lastBlock => exact .inl rfl
  | close σ rest => exact .inr (by simp [Forest.tokenCount]; omega)
  | leaf _ _ ih =>
    refine ih.imp id fun h => ?_
    simp only [Forest.tokenCount, List.length_append, List.length_cons, List.length_map, h]
    omega
  | block _ _ _ ihs ih =>
    refine ih.imp id fun h => ?_
    have hs := ihs.resolve_left (List.ne_nil_of_length_pos (by omega))
    simp only [Forest.tokenCount, List.length_append, List.length_cons, List.length_map, hs, h]
    omega

/-- `y` is `L i` when token `i` of `total` was taken. -/
def ScansLines (S : Source τ) (L : Nat → Nat) (total : Nat) : Prop :=
  ∀ t i, S.rest t ≠ [] → i + (S.rest t).length = total → S.y (S.next t).2 = L i

/-- Every run of the loop over the forest notes the lines. -/
def NotesLines (S : Source τ) (stack : Nat → Locals) (L : Nat → Nat) (total : Nat) (σ : Scan) (f : Forest)
    (ts : List CStr) : Prop :=
  ∀ (st : ParseState τ) (w : Buf) (prev res : Option EntId), st.tbl = σ.tbl → st.calls = σ.calls →
    w.last = σ.c → S.rest st.tok = ts → (∀ p ∈ prev, p < st.tbl.entries) → ∀ i p st',
    ts = [] ∨ i + ts.length = total →
    Settles .fuel (fun k => parseLoop S stack k w prev res) st (.ok p st') →
    Lined st'.mem L st.tbl.entries i f

theorem notes_nil (σ : Scan) (ts : List CStr) : NotesLines S stack L total σ .nil ts :=
  fun _ _ _ _ _ _ _ _ _ _ _ _ _ _ => trivial

theorem notes_leaf {n : CStr} {vs ts' : List CStr} {T : Tables}
    (hy : ScansLines S L total) (head : Head S.fname σ n vs T)
    (hon : onward n ts = vs ++ tokSemi :: ts') (hlen : ts' = [] ∨ ts = vs ++ tokSemi :: ts')
    (hb : Block S.fname stack { σ with tbl := T } f ts' rest σ')
    (ih : NotesLines S stack L total { σ with tbl := T } f ts') :
    NotesLines S stack L total σ (.leaf (stored σ.c n) (vs.map (stored σ.c)) f) (n :: ts) := by
  intro st w prev res hs hc hw hr hprev i p st' hi hrun
  have hi : i + (n :: ts).length = total := hi.resolve_left (List.cons_ne_nil n ts)
  have hline := (loop_line hr head.name hrun).trans (hy st.tok i (by rw [hr]; exact List.cons_ne_nil n ts)
    (by rw [hr]; exact hi))
  obtain ⟨w₃, st₃, res', he, hlo, hrun₃⟩ := leaf_rest ⟨hs, hc, hw, hr, hprev⟩ head hon hb hrun
  refine ⟨hline, ?_⟩
  rw [← hlo, List.length_map]
  refine ih st₃ w₃ _ res' he.tbl he.calls he.last he.rest he.prev _ _ _ (hlen.imp id fun h => ?_) hrun₃
  rw [h] at hi
  simp only [List.length_cons, List.length_append] at hi
  omega

theorem notes_block {n : CStr} {vs ts₁ ts₂ : List CStr} {T : Tables} {sub : Forest} {σ₁ : Scan}
    (hy : ScansLines S L total) (head : Head S.fname σ n vs T)
    (hon : onward n ts = vs ++ tokOpen :: ts₁) (hlen : ts₁ = [] ∨ ts = vs ++ tokOpen :: ts₁)
    (hbs : Block S.fname stack (σ.enter stack T) sub ts₁ ts₂ σ₁)
    (hb : Block S.fname stack { σ₁ with c := σ.c } f ts₂ rest σ')
    (ihs : NotesLines S stack L total (σ.enter stack T) sub ts₁)
    (ih : NotesLines S stack L total { σ₁ with c := σ.c } f ts₂) :
    NotesLines S stack L total σ (.block (stored σ.c n) (vs.map (stored σ.c)) sub f) (n :: ts) := by
  intro st w prev res hs hc hw hr hprev i p st' hi hrun
  have hi : i + (n :: ts).length = total := hi.resolve_left (List.cons_ne_nil n ts)
  have hline := (loop_line hr head.name hrun).trans (hy st.tok i (by rw [hr]; exact List.cons_ne_nil n ts)
    (by rw [hr]; exact hi))
  -- where the tokens of the block are, and those behind it
  have hi₁ : ts₁ = [] ∨ i + vs.length + 2 + ts₁.length = total := by
    refine hlen.imp id fun h => ?_
    rw [h] at hi
    simp only [List.length_cons, List.length_append] at hi
    omega
  have hi₂ : ts₂ = [] ∨ i + vs.length + 3 + sub.tokenCount + ts₂.length = total := by
    refine hbs.tokenCount.imp id fun h => ?_
    have h₁ := hi₁.resolve_left (List.ne_nil_of_length_pos (by omega))
    omega
  obtain ⟨st₄, st₅, r, w₃, res', he₄, hlo, hrun₅, -, he₆, hlo₅, hrun₆, -⟩ :=
    block_rest ⟨hs, hc, hw, hr, hprev⟩ head hon hbs hb hrun
  have hsub := ihs st₄ _ none _ he₄.tbl he₄.calls he₄.last he₄.rest he₄.prev _ _ _ hi₁ hrun₅
  have hrest := ih _ w₃ _ res' he₆.tbl he₆.calls he₆.last he₆.rest he₆.prev _ _ _ hi₂ hrun₆
  let st₆ := st₅.setEntry st.tbl.entries ({ · with sub := r })
  have hlo₆ : st₆.tbl.entries = st.tbl.entries + 1 + sub.size := hlo₅
  refine ⟨hline, ?_, ?_⟩
  · rw [List.length_map]
    rw [show st₄.tbl.entries = st.tbl.entries + 1 from hlo] at hsub
    refine hsub.frame fun j h₁ h₂ => ?_
    have hj : j < st₆.tbl.entries := by omega
    have hhas : Has Entry.line j (st₅.mem j).line st₆ := by
      refine ⟨hj, ?_⟩
      simp only [st₆, ParseState.setEntry, Function.update_of_ne (show j ≠ st.tbl.entries by omega)]
    exact (hhas.settles line_linkless hrun₆).2
  · rw [List.length_map, ← hlo₆]
    exact hrest

theorem block_notes (hy : ScansLines S L total)
    (h : Block S.fname stack σ f ts rest σ') : NotesLines S stack L total σ f ts := by
  induction h with
  | eof σ => exact notes_nil σ _
  | close σ rest => exact notes_nil σ _
  | leaf head hb ih => exact notes_leaf hy head (onward_append _ _ _ _) (.inr rfl) hb ih
  | block head hbs hb ihs ih => exact notes_block hy head (onward_append _ _ _ _) (.inr rfl) hbs hb ihs ih
  | lastLeaf head => exact notes_leaf hy head rfl (.inl rfl) (.eof _) (notes_nil _ _)
  | lastBlock head => exact notes_block hy head rfl (.inl rfl) (.eof _) (.eof _) (notes_nil _ _) (notes_nil _ _)

end

theorem file_scans (fname : CStr) (text : List UInt8) :
    ScansLines (fileSource fname text) (lineEndsAhead text) (tokens (some tokenizeBufsize) text).length := by
  intro t i hne hi
  rw [show ((fileSource fname text).next t).2 = t.next.2 from rfl, y_behind t hne, yBehind, lineEndsAhead]
  congr 3
  exact congrArg (· + 1 + tokenizeLookahead) (Nat.sub_eq_of_eq_add hi.symm)

/-- The lines of a file's entries. -/
theorem file_lines {fname : CStr} {fd : List Chunk} {stack : Nat → Locals} {f : Forest} (mem : EntId → Entry)
    (hb : FileBlock fname fd stack f) : ∃ p st', Settles .fuel
      (fun k => parseSub (fileSource fname (fd.map Subtype.val).flatten) stack k) (fileStart fname fd mem) (.ok p st') ∧
      Numbered st'.mem (lineEndsAhead (fd.map Subtype.val).flatten) 0 f p := by
  obtain ⟨rest, σ', hb⟩ := hb
  let S := fileSource fname (fd.map Subtype.val).flatten
  let st : ParseState (Scanner fname (fd.map Subtype.val).flatten) := { fileStart fname fd mem with calls := 1 }
  have hr : S.rest st.tok = tokens (some tokenizeBufsize) (fd.map Subtype.val).flatten := new_pending fname fd
  obtain ⟨st', hrun, hblock⟩ := block_run (S := S) hb st (stack 0).w none (stack 0).result rfl rfl rfl hr (by simp)
  have hlined := block_notes (file_scans fname _) hb st (stack 0).w none (stack 0).result rfl rfl rfl hr (by simp) 0
    _ _ (.inr (Nat.zero_add _)) hrun
  refine ⟨_, st', hrun.congr fun _ => rfl, ?_⟩
  have hnum := hlined.numbered hblock.holds
  by_cases hnil : f = .nil
  · rw [hnil]
    trivial
  · rw [if_pos ⟨rfl, hnil⟩]
    rwa [link_ne_nil hnil] at hnum

theorem EntryLines.ahead {first : Nat} {fname : CStr} {fd : List Chunk} {stack : Nat → Locals} {mem : EntId → Entry}
    (h : EntryLines first fname fd stack mem) {f : Forest} (hb : FileBlock fname fd stack f) {i : Nat}
    (hi : i ∈ f.names 0) :
    lineEndsAhead (fd.map Subtype.val).flatten i = first + lineOf (fd.map Subtype.val).flatten i := by
  obtain ⟨p, st', hrun, hnum⟩ := file_lines mem hb
  exact hnum.iff.mp (h p st' hrun f hb) i hi

/-- **When entries carry their own line**: for every file, in whatever pieces, and wherever one starts to count. -/
theorem entry_lines_iff (first : Nat) (fname : CStr) (fd : List Chunk) (stack : Nat → Locals) (mem : EntId → Entry) :
    let text := (fd.map Subtype.val).flatten
    EntryLines first fname fd stack mem ↔
      ∀ f, FileBlock fname fd stack f → ∀ i ∈ f.names 0, lineEndsAhead text i = first + lineOf text i := by
  refine ⟨fun h f hb i hi => h.ahead hb hi, fun h p st' hrun f hb => ?_⟩
  obtain ⟨p', st'', hrun', hnum⟩ := file_lines mem hb
  cases hrun.unique hrun'
  exact hnum.iff.mpr (h f hb)

/-- A file with the entry `a`. -/
theorem lone_entry (fd : List Chunk)
    (htext : tokens (some tokenizeBufsize) (fd.map Subtype.val).flatten = [cstr "a", tokSemi]) :
    FileBlock [] fd (fun _ => plainLocals) (.leaf (cstr "a") [] .nil) := by
  have head : Head [] ⟨0, 1, .empty⟩ (cstr "a") [] ⟨[cstr "a", []], 2, 1, 1, 2⟩ :=
    ⟨by decide, by simp, by decide, by decide⟩
  refine ⟨[], ⟨0, 1, ⟨[cstr "a", []], 2, 1, 1, 2⟩⟩, ?_⟩
  rw [htext]
  exact .leaf head (.eof _)

/-- **Counterexample**: `a;` gets another line when a newline follows. -/
theorem line_depends : ¬∃ first, ∀ (fname : CStr) (fd : List Chunk) (stack : Nat → Locals) (mem : EntId → Entry),
    EntryLines first fname fd stack mem := by
  intro ⟨first, hall⟩
  have h₀ := (hall [] [⟨cstr "a;", by decide⟩] (fun _ => plainLocals) fun _ => .zero).ahead
    (lone_entry _ (by decide)) (List.mem_singleton_self 0)
  have h₁ := (hall [] [⟨cstr "a;\n", by decide⟩] (fun _ => plainLocals) fun _ => .zero).ahead
    (lone_entry _ (by decide)) (List.mem_singleton_self 0)
  have hfirst : 0 = first + 0 := h₀
  have hnext : 1 = first + 0 := h₁
  omega

end Bootd
