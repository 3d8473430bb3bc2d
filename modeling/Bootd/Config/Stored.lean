import Bootd.Config.Kept
import Bootd.Config.Room
import Bootd.Core.Mealy

/-!
# What is stored when the parser stops

The words of a token stream are its names and values in order, without the
delimiters (`wordsOf`). The parser stores the words that it passes, each in the
first 255 bytes.

`StopsAfter ws P`: the loop stops with a report whose text is in `P`, and from the
first entry it made on, the names and values stored are `ws`.

* `block_words`: a block that is read has the words of its tokens.
* `reaches_stops`: what a stop in a statement further on says of the whole stream.
-/
namespace Bootd

open Bootd.Core
open Bootd.Core.Exec
open Bootd.Core.Fuel

/-! ## The words of a stream -/

/-- One token; `name` if a name is expected. -/
def wordStep (name : Bool) (t : CStr) : List CStr × Bool :=
  if name then (if t = tokClose then ([], true) else ([t], false))
  else if IsValue t then ([t], false) else ([], !decide (IsSep t))

/-- The names and the values. -/
def wordsOf (ts : List CStr) : List CStr := Mealy.out wordStep true ts

/-- The names and the values of a forest. -/
def Forest.words : Forest → List CStr
  | .nil => []
  | .leaf n vs f => n :: vs ++ f.words
  | .block n vs sub f => n :: vs ++ (sub.words ++ f.words)

section
variable {fname : CStr} {stack : Nat → Locals} {σ σ' : Scan} {f : Forest} {n d : CStr} {vs ts rest : List CStr}
  {T : Tables}

theorem values_words (hv : ∀ v ∈ vs, IsValue v) :
    Mealy.out wordStep false vs = vs ∧ Mealy.fin wordStep false vs = false := by
  induction vs with
  | nil => exact ⟨rfl, rfl⟩
  | cons v vs ih =>
    simp only [List.mem_cons, forall_eq_or_imp] at hv
    obtain ⟨ho, hf⟩ := ih hv.2
    have hstep : wordStep false v = ([v], false) := by simp [wordStep, hv.1]
    simp [hstep, ho, hf]

theorem name_word (hn : n ≠ tokClose) : wordStep true n = ([n], false) := by
  simp [wordStep, hn]

/-- A statement up to its delimiter. -/
theorem stmt_words (hn : n ≠ tokClose) (hv : ∀ v ∈ vs, IsValue v) (hd : d = tokOpen ∨ d = tokSemi)
    (more : List CStr) : Mealy.out wordStep true (n :: vs ++ d :: more) = n :: vs ++ Mealy.out wordStep true more ∧
      Mealy.fin wordStep true (n :: vs ++ d :: more) = Mealy.fin wordStep true more := by
  obtain ⟨ho, hf⟩ := values_words hv
  have hstep : wordStep false d = ([], true) := by
    rcases hd with rfl | rfl <;> decide
  rw [List.cons_append]
  simp [name_word hn, Mealy.out_append, Mealy.fin_append, ho, hf, hstep]

/-- A word that is stored. -/
theorem word_eq {c : UInt8} {s : CStr} (h : word c n = some s) : s = n.take 255 := by
  unfold word at h
  split at h
  · cases h
    exact (List.take_of_length_le (by omega)).symm
  · split at h <;> cases h
    rfl

theorem Head.stored (h : Head fname σ n vs T) :
    Bootd.stored σ.c n = n.take 255 ∧ vs.map (Bootd.stored σ.c) = vs.map (List.take 255) := by
  have hword : ∀ {n s}, word σ.c n = some s → Bootd.stored σ.c n = n.take 255 := fun h => by
    rw [Bootd.stored, h]
    exact word_eq h
  obtain ⟨T₁, hname, hvals⟩ := Option.bind_eq_some_iff.mp h.granted
  obtain ⟨-, -, s, -, -, -, hs, -⟩ := addName_some (S := listSource fname) hname
  refine ⟨hword hs, ?_⟩
  clear hname hs h
  induction vs generalizing T₁ with
  | nil => rfl
  | cons v vs ih =>
    rw [addValues_cons] at hvals
    obtain ⟨T₂, hv, hvs⟩ := Option.bind_eq_some_iff.mp hvals
    obtain ⟨s, hs, -⟩ := Option.bind_eq_some_iff.mp hv
    rw [List.map_cons, List.map_cons, hword hs, ih T₂ hvs]

/-- A block that is read has the words of its tokens. -/
theorem block_words (h : Block fname stack σ f ts rest σ') : ∃ pre, ts = pre ++ rest ∧
    f.words = (Mealy.out wordStep true pre).map (List.take 255) ∧
      (rest = [] ∨ Mealy.fin wordStep true pre = true) := by
  induction h with
  | eof => exact ⟨[], rfl, rfl, .inl rfl⟩
  | close σ rest => exact ⟨[tokClose], rfl, rfl, .inr rfl⟩
  | @leaf σ σ' n vs T f ts rest head _ ih =>
    obtain ⟨pre, rfl, hw, hf⟩ := ih
    obtain ⟨hn, hv⟩ := head.stored
    obtain ⟨ho, hfin⟩ := stmt_words head.name head.plain (.inr rfl) pre
    refine ⟨n :: vs ++ tokSemi :: pre, by simp, ?_, hfin ▸ hf⟩
    rw [Forest.words, ho, hn, hv, hw]
    simp
  | @block σ σ₁ σ' n vs T sub f ts ts' rest head _ _ ihs ih =>
    obtain ⟨pre₁, rfl, hw₁, hf₁⟩ := ihs
    obtain ⟨pre₂, hts, hw₂, hf₂⟩ := ih
    obtain ⟨hn, hv⟩ := head.stored
    obtain ⟨ho, hfin⟩ := stmt_words head.name head.plain (.inl rfl) (pre₁ ++ pre₂)
    -- the file may end with the block
    have hopen : pre₂ = [] ∧ rest = [] ∨ Mealy.fin wordStep true pre₁ = true := by
      refine hf₁.imp (fun h => ?_) id
      rw [hts] at h
      exact List.append_eq_nil_iff.mp h
    refine ⟨n :: vs ++ tokOpen :: (pre₁ ++ pre₂), by simp [hts], ?_, ?_⟩
    · rw [Forest.words, ho, hn, hv, hw₁, hw₂, Mealy.out_append]
      rcases hopen with ⟨rfl, -⟩ | h
      · simp
      · simp [h]
    · rw [hfin, Mealy.fin_append]
      rcases hopen with ⟨-, hr⟩ | h
      · exact .inl hr
      · rw [h]
        exact hf₂
  | lastLeaf head => exact ⟨[tokSemi], rfl, rfl, .inl rfl⟩
  | lastBlock head => exact ⟨[tokOpen], rfl, rfl, .inl rfl⟩

end

/-! ## The words in the table -/

/-- The name of an entry, if it has one, and its values. -/
def Entry.words (strs : List CStr) (x : Entry) : List CStr := (x.name.toList ++ x.values).filterMap (strs[·]?)

/-- The words of the entries from `lo` on. -/
def ParseState.words {τ : Type} (s : ParseState τ) (lo : Nat) : List CStr :=
  (List.range' lo (s.tbl.entries - lo)).flatMap fun e => (s.mem e).words s.tbl.strings

section
variable {τ : Type} {S : Source τ} {stack : Nat → Locals} {st st' s : ParseState τ} {strs strs' : List CStr}
  {x : Entry} {n : CStr} {vs : List CStr} {mem : EntId → Entry} {lo i : Nat} {f : Forest} {w : Buf}
    {prev res : Option EntId}

theorem Entry.Is.words (h : x.Is strs n vs) : x.words strs = n :: vs := by
  obtain ⟨p, hp, hn⟩ := h.name
  have hvs : x.values.filterMap (strs[·]?) = vs := by
    have hv := h.values
    clear h
    generalize x.values = ids at hv
    induction hv with
    | nil => rfl
    | cons hv _ ih => rw [List.filterMap_cons_some hv, ih]
  rw [Entry.words, hp, Option.toList_some, List.singleton_append, List.filterMap_cons_some hn, hvs]

theorem words_entry (h : lo < s.tbl.entries) : s.words lo = (s.mem lo).words s.tbl.strings ++ s.words (lo + 1) := by
  obtain ⟨k, hk⟩ := Nat.exists_eq_succ_of_ne_zero (show s.tbl.entries - lo ≠ 0 by omega)
  rw [ParseState.words, hk, List.range'_succ, List.flatMap_cons, ParseState.words,
    show s.tbl.entries - (lo + 1) = k by omega]

/-- The entries of a forest that are still as they were. -/
theorem words_forest (h : Holds strs mem lo f) (hlen : lo + f.size ≤ s.tbl.entries) (hstr : strs <+: s.tbl.strings)
    (hmem : ∀ j, lo ≤ j → j < lo + f.size → (s.mem j).name = (mem j).name ∧ (s.mem j).values = (mem j).values) :
    s.words lo = f.words ++ s.words (lo + f.size) := by
  have hone : ∀ {j n vs}, (s.mem j).name = (mem j).name ∧ (s.mem j).values = (mem j).values → (mem j).Is strs n vs →
      (s.mem j).words s.tbl.strings = n :: vs := by
    rintro j n vs ⟨hn, hv⟩ his
    rw [Entry.words, hn, hv]
    exact (his.mono hstr).words
  induction f generalizing lo with
  | nil => rfl
  | leaf n vs f ih =>
    simp only [Forest.size] at hmem hlen ⊢
    obtain ⟨his, -, -, hf⟩ := h
    rw [words_entry (by omega), hone (hmem lo (Nat.le_refl _) (by omega)) his,
      ih hf (by omega) fun j h₁ h₂ => hmem j (by omega) (by omega), Forest.words, List.append_assoc,
      show lo + 1 + f.size = lo + (f.size + 1) by omega]
  | block n vs sub f ihs ihf =>
    simp only [Forest.size] at hmem hlen ⊢
    obtain ⟨his, -, -, hs, hf⟩ := h
    rw [words_entry (by omega), hone (hmem lo (Nat.le_refl _) (by omega)) his,
      ihs hs (by omega) fun j h₁ h₂ => hmem j (by omega) (by omega),
      ihf hf (by omega) fun j h₁ h₂ => hmem j (by omega) (by omega), Forest.words]
    simp only [List.append_assoc]
    rw [show lo + 1 + sub.size + f.size = lo + (sub.size + f.size + 1) by omega]

end

/-! ## Stops -/

/-- What an entry says. -/
def Entry.said (x : Entry) : Option StrId × List StrId := (x.name, x.values)

theorem said_linkless : Linkless Entry.said := ⟨fun _ _ => rfl, fun _ _ => rfl⟩

/-- The loop stops with a report in `P` about the file, and the words stored by then are `ws`. -/
def StopsAfter {τ : Type} (fname : CStr) (ws : List CStr) (P : CStr → Prop) (m : Nat → ParseM τ (Option EntId))
    (st : ParseState τ) : Prop :=
  ∃ (r : Report) (st' : ParseState τ), Settles .fuel m st (.error r.stop st') ∧ r.file = fname ∧ P r.msg ∧
    st'.words st.tbl.entries = ws

section
variable {τ : Type} {S : Source τ} {stack : Nat → Locals} {st st' s : ParseState τ} {strs : List CStr} {x : Entry}
  {n : CStr} {vs : List CStr} {i : Nat} {w : Buf} {prev res : Option EntId} {e : ParseStop}

/-- An entry when the loop has stopped further on. -/
theorem said_kept (his : x.Is strs n vs) (hx : Has Entry.said i x.said s) (hstr : strs <+: s.tbl.strings)
    (hrun : Settles .fuel (fun k => parseLoop S stack k w prev res) s (.error e st')) :
    i < st'.tbl.entries ∧ (st'.mem i).words st'.tbl.strings = n :: vs := by
  obtain ⟨hi, hsaid⟩ := hx.settles said_linkless hrun
  have hpre : strs <+: st'.tbl.strings := Strings.settles hstr hrun
  obtain ⟨hname, hvals⟩ := Prod.mk.inj hsaid
  rw [Entry.words, hname, hvals]
  exact ⟨hi, (his.mono hpre).words⟩

/-- What a stop further on says of the whole stream. -/
theorem reaches_stops {σ σ' : Scan} {ts ts' : List CStr} (h : Reaches S.fname stack σ ts σ' ts') :
    ∃ pre, ts = pre ++ ts' ∧ (ts' = [] ∨ Mealy.fin wordStep true pre = true) ∧ ∀ ws P,
      From S stack (StopsAfter S.fname ws P) σ' ts' →
        From S stack (StopsAfter S.fname ((Mealy.out wordStep true pre).map (List.take 255) ++ ws) P) σ ts := by
  induction h with
  | refl σ ts => exact ⟨[], rfl, .inr rfl, fun _ _ hq => hq⟩
  | @leaf σ σ' n vs T ts ts' head _ ih =>
    obtain ⟨pre, rfl, hfin, ih⟩ := ih
    obtain ⟨hn, hv⟩ := head.stored
    obtain ⟨ho, hf⟩ := stmt_words head.name head.plain (.inr rfl) pre
    refine ⟨n :: vs ++ tokSemi :: pre, by simp, hfin.imp id hf.trans, fun ws P hq => ?_⟩
    intro st w prev res hs hc hw hr hprev
    obtain ⟨w₃, st₃, res', -, hread, hw₃, hr₃, hgoes⟩ :=
      leaf_goes stack res hs hw hr hprev head (onward_append _ _ _ _)
    have hlo : st₃.tbl.entries = st.tbl.entries + 1 := hread.tbl ▸ hread.entries
    obtain ⟨r, st', hrun, hfile, hP, hws⟩ := ih ws P hq st₃ w₃ (some st.tbl.entries) res' hread.tbl
      (hread.calls.trans hc)
      hw₃ hr₃ (by rw [hlo]; exact lt_prev)
    have hlt₃ : st.tbl.entries < st₃.tbl.entries := by omega
    have hsaid : Has Entry.said st.tbl.entries (st₃.mem st.tbl.entries).said st₃ := ⟨hlt₃, rfl⟩
    obtain ⟨hlt, hword⟩ := said_kept hread.is hsaid (hread.tbl ▸ List.prefix_refl _) hrun
    refine ⟨r, st', hgoes.settles hrun, hfile, hP, ?_⟩
    rw [words_entry hlt, hword, ← hlo, hws, hn, hv, ho]
    simp
  | @sub σ σ' n vs T ts ts' head _ ih =>
    obtain ⟨pre, rfl, hfin, ih⟩ := ih
    obtain ⟨hn, hv⟩ := head.stored
    obtain ⟨ho, hf⟩ := stmt_words head.name head.plain (.inl rfl) pre
    refine ⟨n :: vs ++ tokOpen :: pre, by simp, hfin.imp id hf.trans, fun ws P hq => ?_⟩
    intro st w prev res hs hc hw hr hprev
    obtain ⟨w₃, st₃, res', -, hread, -, hr₃, hgoes⟩ :=
      block_goes stack res hs hw hr hprev head (onward_append _ _ _ _)
    have hcalls : st₃.calls = σ.calls := hread.calls.trans hc
    have hlo : st₃.tbl.entries = st.tbl.entries + 1 := hread.tbl ▸ hread.entries
    let st₄ : ParseState τ := { st₃ with calls := st₃.calls + 1 }
    obtain ⟨r, st', hrun, hfile, hP, hws⟩ := ih ws P hq st₄ (stack st₃.calls).w none
      (stack st₃.calls).result hread.tbl
      (by rw [Scan.enter, ← hcalls]) (by rw [Scan.enter, hcalls]) hr₃ (by simp)
    have hlt₃ : st.tbl.entries < st₃.tbl.entries := by omega
    have hsaid : Has Entry.said st.tbl.entries (st₃.mem st.tbl.entries).said st₄ := ⟨hlt₃, rfl⟩
    obtain ⟨hlt, hword⟩ := said_kept hread.is hsaid (hread.tbl ▸ List.prefix_refl _) hrun
    refine ⟨r, st', hgoes.settles hrun.bind_error, hfile, hP, ?_⟩
    rw [show st₄.tbl.entries = st.tbl.entries + 1 from hlo] at hws
    rw [words_entry hlt, hword, hws, hn, hv, ho]
    simp
  | @block σ σ₁ σ' n vs T f ts ts₁ ts' head hsub _ ih =>
    obtain ⟨pre₂, rfl, hfin, ih⟩ := ih
    obtain ⟨pre₁, rfl, hw₁, hf₁⟩ := block_words hsub
    obtain ⟨hn, hv⟩ := head.stored
    obtain ⟨ho, hf⟩ := stmt_words head.name head.plain (.inl rfl) (pre₁ ++ pre₂)
    have hnext : Mealy.out wordStep true (pre₁ ++ pre₂) =
          Mealy.out wordStep true pre₁ ++ Mealy.out wordStep true pre₂ ∧
        (ts' = [] ∨ Mealy.fin wordStep true (pre₁ ++ pre₂) = true) := by
      rw [Mealy.out_append, Mealy.fin_append]
      rcases hf₁ with h | h
      · obtain ⟨rfl, rfl⟩ := List.append_eq_nil_iff.mp h
        exact ⟨rfl, .inl rfl⟩
      · rw [h]
        exact ⟨rfl, hfin⟩
    refine ⟨n :: vs ++ tokOpen :: (pre₁ ++ pre₂), by simp, hnext.2.imp id hf.trans, fun ws P hq => ?_⟩
    intro st w prev res hs hc hw hr hprev
    obtain ⟨w₃, st₃, res', -, hread, hw₃, hr₃, hgoes⟩ :=
      block_goes stack res hs hw hr hprev head (onward_append _ _ _ _)
    have hcalls : st₃.calls = σ.calls := hread.calls.trans hc
    have hlo : st₃.tbl.entries = st.tbl.entries + 1 := hread.tbl ▸ hread.entries
    let st₄ : ParseState τ := { st₃ with calls := st₃.calls + 1 }
    obtain ⟨st₅, hrun₅, hblock₅⟩ := block_run hsub st₄ (stack st₃.calls).w none (stack st₃.calls).result hread.tbl
      (by rw [Scan.enter, ← hcalls]) (by rw [Scan.enter, hcalls]) hr₃ (by simp)
    obtain ⟨p, hp⟩ : ∃ p, p = if (none : Option EntId) = none ∧ f ≠ .nil then some st₄.tbl.entries
      else (stack st₃.calls).result := ⟨_, rfl⟩
    rw [← hp] at hrun₅
    let st₆ := st₅.setEntry st.tbl.entries ({ · with sub := p })
    have hlo₆ : st₆.tbl.entries = st.tbl.entries + 1 + f.size := by
      rw [← hlo]; exact hblock₅.entries
    have hprev₆ : ∀ q ∈ some st.tbl.entries, q < st₆.tbl.entries := fun q hq =>
      lt_of_lt_of_le (lt_prev q hq) (by omega)
    obtain ⟨r, st', hrun, hfile, hP, hws⟩ :=
      ih ws P hq st₆ w₃ (some st.tbl.entries) res' hblock₅.tbl hblock₅.calls hw₃
      hblock₅.rest hprev₆
    -- the entry of the statement, those of the block, and the rest
    have hlt₆ : st.tbl.entries < st₆.tbl.entries := by omega
    have hmem₅ : st₅.mem st.tbl.entries = st₃.mem st.tbl.entries := by
      rw [hblock₅.frame _ (by show _ < st₃.tbl.entries; omega), relink_none, ite_self]
    have hsaid : Has Entry.said st.tbl.entries (st₃.mem st.tbl.entries).said st₆ := by
      refine ⟨hlt₆, ?_⟩
      simp only [st₆, ParseState.setEntry, Function.update_self, hmem₅]
      rfl
    have hpre₅ : T.strings <+: st₆.tbl.strings := hread.tbl ▸ hblock₅.strings
    obtain ⟨hlt, hword⟩ := said_kept hread.is hsaid hpre₅ hrun
    have hkept : ∀ j, j < st₆.tbl.entries → j < st'.tbl.entries ∧ (st'.mem j).said = (st₆.mem j).said := fun j hj =>
      Has.settles said_linkless (show Has Entry.said j (st₆.mem j).said st₆ from ⟨hj, rfl⟩) hrun
    have hlen : st.tbl.entries + 1 + f.size ≤ st'.tbl.entries := by
      by_contra hlt
      exact lt_irrefl _ (hkept st'.tbl.entries (by omega)).1
    have hforest := words_forest (s := st') (hlo ▸ hblock₅.holds) hlen (Strings.settles (List.prefix_refl _) hrun)
      fun j h₁ h₂ => by
        have hj : j < st₆.tbl.entries := by omega
        have hne : j ≠ st.tbl.entries := by omega
        have hsame := (hkept j hj).2
        simp only [st₆, ParseState.setEntry, Function.update_of_ne hne] at hsame
        exact Prod.mk.inj hsame
    refine ⟨r, st', hgoes.settles (hrun₅.bind (hrun.congr fun _ => rfl)), hfile, hP, ?_⟩
    rw [words_entry hlt, hword, hforest, ← hlo₆, hws, hn, hv, ho, hnext.1, hw₁]
    simp

end
end Bootd
