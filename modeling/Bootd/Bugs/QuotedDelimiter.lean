import Bootd.Config.Scanner
import Bootd.Config.Quote
import Bootd.Config.PrintParse
import Bootd.Config.Room

/-!
# A quoted delimiter is a delimiter

The tokenizer takes the quotes off (src/tokenize.c:114-139) and hands out the bytes
of the token alone. `parse_sub` compares them with `"\x7b"`, `";"`, `","` and `"|"`
(src/parse.c:193-204), so it cannot tell a quoted delimiter from a plain one: `key
";";` is the entry `key` without a value and an entry `;`, `key "\x7b";` opens a
block, and behind `key ",";` the parser hangs.

Counterexample: `key ";";` (`semi_not_protected`).

`quoting_protects_iff`: quoting protects exactly the values that are none of these
four.
-/
namespace Bootd

open Bootd.Core
open Bootd.Core.Fuel

/-- Wherever the statement `key v;` stands, with `v` quoted, it is read as the entry `key` with the value `v`
and the parser goes on behind it, with the rest of the text, as after any statement. -/
def QuotingProtects (key v : CStr) (q : Quoting) : Prop :=
  ∀ (fname : CStr) (text post : List UInt8) (stack : Nat → Locals) (st : ParseState (Scanner fname text)) (w : Buf)
    (prev res : Option EntId) (T : Tables),
    let S := fileSource fname text
    S.rest st.tok = tokens (some tokenizeBufsize) (key ++ 32 :: q.write v ++ 59 :: post) →
    (∀ p ∈ prev, p < st.tbl.entries) →
    -- there is room for it in the tables
    (st.tbl.addName w.last fname key).bind (·.addValues w.last [v]) = some T →
    ∃ w' st' res', StmtRead w.last prev key [v] T st st' ∧ (st'.mem st.tbl.entries).Is T.strings key [v] ∧
      w'.last = w.last ∧ S.rest st'.tok = tokens (some tokenizeBufsize) post ∧
      Goes .fuel (fun k => parseLoop S stack k w prev res) st
        (fun k => parseLoop S stack k w' (some st.tbl.entries) res') st'

/-- A name that needs no quotes. -/
structure PlainKey (key : CStr) : Prop where
  ne : key ≠ []
  plain : ∀ c ∈ key, IsPlain c
  len : key.length ≤ 254
  close : key ≠ tokClose

/-- A value that can be quoted in every way. -/
structure Quotable (v : CStr) : Prop where
  ne : v ≠ []
  nul : 0 ∉ v
  double : 34 ∉ v
  single : 39 ∉ v
  len : v.length ≤ 254

instance (key : CStr) : Decidable (PlainKey key) :=
  decidable_of_iff (key ≠ [] ∧ key.all (fun c => IsPlain c) = true ∧ key.length ≤ 254 ∧ key ≠ tokClose)
    ⟨fun ⟨h₁, h₂, h₃, h₄⟩ => ⟨h₁, by simpa using h₂, h₃, h₄⟩, fun h => ⟨h.ne, by simpa using h.plain, h.len, h.close⟩⟩

instance (v : CStr) : Decidable (Quotable v) :=
  decidable_of_iff (v ≠ [] ∧ 0 ∉ v ∧ 34 ∉ v ∧ 39 ∉ v ∧ v.length ≤ 254)
    ⟨fun ⟨h₁, h₂, h₃, h₄, h₅⟩ => ⟨h₁, h₂, h₃, h₄, h₅⟩, fun h => ⟨h.ne, h.nul, h.double, h.single, h.len⟩⟩

section
variable {key v : CStr} {q : Quoting}

/-- The tokens of the statement. -/
theorem stmt_tokens (hk : PlainKey key) (hv : Quotable v) (q : Quoting) (post : List UInt8) :
    tokens (some tokenizeBufsize) (key ++ 32 :: q.write v ++ 59 :: post) =
      key :: v :: tokSemi :: tokens (some tokenizeBufsize) post := by
  have hsize : tokenizeBufsize = 4096 := rfl
  have hkl := hk.len
  have hvl := hv.len
  rw [List.append_assoc, List.cons_append, plain_blank hk.ne hk.plain (by omega),
    quoted_semi q hv.ne hv.nul hv.double hv.single (by omega)]
  rfl

/-- A value that is no delimiter. -/
theorem quoting_protects (hk : PlainKey key) (hv : Quotable v) (q : Quoting) (hval : IsValue v) :
    QuotingProtects key v q := by
  intro fname text post stack st w prev res T S hr hprev hroom
  rw [stmt_tokens hk hv] at hr
  let σ : Scan := ⟨w.last, st.calls, st.tbl⟩
  have hs : st.tbl = σ.tbl := rfl
  have hw : w.last = σ.c := rfl
  have head : Head S.fname σ key [v] T := ⟨hk.close, by simpa using hval, by simp [parseValuesMax], hroom⟩
  obtain ⟨w', st', res', -, hread, hw', hr', hgoes⟩ := leaf_goes stack res hs hw hr hprev head
    (onward_append key tokSemi [v] _)
  have his := hread.is
  rw [stored_short hk.len, List.map_singleton, stored_short hv.len] at his
  exact ⟨w', st', res', hread, his, hw', hr', hgoes⟩

/-! ## The first statements of a file -/

/-- A file with this statement only. -/
def stmtText (key v : CStr) (q : Quoting) : List UInt8 := key ++ 32 :: q.write v ++ 59 :: []

/-- The parser in front of it. -/
def stmtStart (key v : CStr) (q : Quoting) : ParseState (Scanner [] (stmtText key v q)) :=
  ⟨.new [] (chunks (stmtText key v q)) (chunks_text _), .empty, fun _ => .zero, 0⟩

def stmtLoop (key v : CStr) (q : Quoting) (k : Nat) : ParseM (Scanner [] (stmtText key v q)) (Option EntId) :=
  parseLoop (fileSource [] (stmtText key v q)) (fun _ => plainLocals) k [] none none

theorem stmtStart_rest (hk : PlainKey key) (hv : Quotable v) :
    (fileSource [] (stmtText key v q)).rest (stmtStart key v q).tok = [key, v, tokSemi] := by
  have hr := Scanner.new_rest [] (chunks (stmtText key v q)) (chunks_text _)
  rw [stmtStart, hr, stmtText, stmt_tokens hk hv, tokens_nil]

theorem key_room (hk : PlainKey key) : ∃ T, Tables.empty.addName 0 [] key = some T ∧ T.tableNext ≤ 3 :=
  addName_room (by decide) (word_short hk.len) (by decide)

/-- A quoted value that is read has been stored. -/
theorem QuotingProtects.stored (h : QuotingProtects key v q) (hk : PlainKey key) (hv : Quotable v) : ∃ p st',
    Settles .fuel (stmtLoop key v q) (stmtStart key v q) (.ok p st') ∧ (st'.mem 0).values.length = 1 := by
  obtain ⟨T₁, h₁, ht₁⟩ := key_room hk
  have hvl := hv.len
  have hmax : parseStringMax = 256 := rfl
  obtain ⟨T₂, h₂⟩ := Option.ne_none_iff_exists'.mp (add_room (T := T₁) (s := v)
    (lt_of_le_of_lt ht₁ (by decide)) (by omega))
  have hroom : (Tables.empty.addName 0 [] key).bind (·.addValues 0 [v]) = some T₂ := by
    rw [h₁, Option.bind_some, addValues_cons, word_short hv.len, Option.bind_some, h₂]
    rfl
  have hr := stmtStart_rest (q := q) hk hv
  rw [← tokens_nil, ← stmt_tokens hk hv q []] at hr
  obtain ⟨w', st', res', -, his, -, hr', hgoes⟩ := h [] (stmtText key v q) [] (fun _ => plainLocals)
    (stmtStart key v q) [] none none T₂ hr (by simp) hroom
  have hend : Settles .fuel (fun k => parseLoop (fileSource [] (stmtText key v q)) (fun _ => plainLocals) k w'
    (some 0) res') st' (.ok res' (st'.next (fileSource [] (stmtText key v q)))) :=
    loop_end [] (.inl (hr'.trans tokens_nil))
  exact ⟨_, _, hgoes.settles hend, his.values.length_eq⟩

/-- A delimiter ends the values, or the parser hangs. -/
theorem delimiter_not_stored (hk : PlainKey key) (hv : Quotable v) (q : Quoting) (hval : ¬IsValue v) : ¬∃ p st',
    Settles .fuel (stmtLoop key v q) (stmtStart key v q) (.ok p st') ∧ (st'.mem 0).values.length = 1 := by
  intro ⟨p, st', hrun, hlen⟩
  let S := fileSource [] (stmtText key v q)
  let σ : Scan := ⟨0, 0, .empty⟩
  obtain ⟨T₁, h₁, ht₁⟩ := key_room hk
  obtain ⟨T₂, h₂, -⟩ := addName_room (T := T₁) (n := tokSemi) (c := 0) (show [].length < parseStringMax by decide)
    (word_short (by decide)) (le_trans (Nat.add_le_add_right ht₁ 3) (by decide))
  have head : Head S.fname σ key [] T₁ := ⟨hk.close, by simp, by decide, congrArg (Option.bind · _) h₁⟩
  have hsemi : ∀ calls, Head S.fname ⟨0, calls, T₁⟩ tokSemi [] T₂ :=
    fun calls => ⟨by decide, by simp, by decide, congrArg (Option.bind · _) h₂⟩
  have hr := stmtStart_rest (q := q) hk hv
  -- the entry has no values
  have hno : ∀ {f rest σ'}, Block S.fname (fun _ => plainLocals) σ f [key, v, tokSemi] rest σ' →
      (∀ strs mem, Holds strs mem 0 f → (mem 0).values.length = 0) → False := by
    intro f rest σ' hb hf
    obtain ⟨st'', hrun', hblock⟩ := block_run hb (stmtStart key v q) [] none none rfl rfl rfl hr (by simp)
    cases hrun.unique hrun'
    have hz := hf _ _ hblock.holds
    omega
  rcases not_isValue hval with rfl | rfl | hsep
  · have hb : Block S.fname (fun _ => plainLocals) σ (.block (stored 0 key) [] (.leaf tokSemi [] .nil) .nil)
        (key :: [] ++ tokOpen :: [tokSemi]) [] _ := .block head (.lastLeaf (hsemi _)) (.eof _)
    exact hno hb fun strs mem hh => hh.1.values.length_eq
  · have hb : Block S.fname (fun _ => plainLocals) σ (.leaf (stored 0 key) [] (.leaf tokSemi [] .nil))
        (key :: [] ++ tokSemi :: [tokSemi]) [] _ := .leaf head (.lastLeaf (hsemi _))
    exact hno hb fun strs mem hh => hh.1.values.length_eq
  · have hstuck : From S (fun _ => plainLocals) Hangs σ [key, v, tokSemi] :=
      stuck_run (.value [tokSemi] head hsep)
    exact (hstuck (stmtStart key v q) [] none none rfl rfl rfl hr (by simp)).not_returned ⟨p, st', hrun⟩

end

/-- **What quoting protects**: every value but the four delimiters. -/
theorem quoting_protects_iff (key v : CStr) (q : Quoting) (hk : PlainKey key) (hv : Quotable v) :
    QuotingProtects key v q ↔ v ∉ [tokOpen, tokSemi, tokComma, tokBar] := by
  have hval : IsValue v ↔ v ∉ [tokOpen, tokSemi, tokComma, tokBar] := by
    simp [IsValue]
  rw [← hval]
  refine ⟨fun h => ?_, quoting_protects hk hv q⟩
  by_contra hno
  exact delimiter_not_stored hk hv q hno (h.stored hk hv)

/-- `key "a;b";` -/
theorem quoting_protects_inner : QuotingProtects (cstr "key") (cstr "a;b") .double :=
  (quoting_protects_iff _ _ _ (by decide) (by decide)).mpr (by decide)

/-- **Counterexample**: `key ";";` -/
theorem semi_not_protected :
    ¬ ∀ (key v : CStr) (q : Quoting), PlainKey key → Quotable v → QuotingProtects key v q := by
  intro hall
  have h := hall (cstr "key") tokSemi .double (by decide) (by decide)
  exact delimiter_not_stored (by decide) (by decide) .double (by decide) (h.stored (by decide) (by decide))

end Bootd
