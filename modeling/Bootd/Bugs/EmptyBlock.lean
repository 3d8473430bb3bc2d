import Bootd.Config.PrintParse

/-!
# An empty block is what the stack held

`parse_sub` links its entries through `prev_next`, which aims at the local
`result` first (src/parse.c:166-170). Nothing sets `result` if the loop is left
before the first entry, and it is returned all the same (src/parse.c:171, 208).
So the list of an empty block, or of an empty file, is whatever the stack held;
a configuration without a statement is not seen as such, and the entry of
`host x { }` gets a block that the evaluation follows.

Counterexample: an empty file (`empty_file_garbage`).

`forest_determined_iff`: the tokens alone determine the forest that is returned
exactly if neither the file nor a block that is read is empty.
-/
namespace Bootd

open Bootd.Core
open Bootd.Core.Fuel

/-- The forest at `p`, by its pointers alone. -/
def Reads (strs : List CStr) (mem : EntId → Entry) : Forest → Option EntId → Prop
  | .nil, p => p = none
  | .leaf n vs f, p => ∃ e, p = some e ∧ (mem e).Is strs n vs ∧ (mem e).sub = none ∧
      Reads strs mem f (mem e).next
  | .block n vs sub f, p => ∃ e, p = some e ∧ (mem e).Is strs n vs ∧ Reads strs mem sub (mem e).sub ∧
      Reads strs mem f (mem e).next

/-- There are statements in it, and in each of its blocks. -/
def Forest.Full : Forest → Prop
  | .nil => False
  | .leaf _ _ f => f = .nil ∨ f.Full
  | .block _ _ sub f => sub.Full ∧ (f = .nil ∨ f.Full)

/-- What the calls of `parse_sub` find in their locals. -/
def localsOf (ws : Nat → Buf) (results : Nat → Option EntId) (i : Nat) : Locals := ⟨ws i, results i⟩

section
variable {τ : Type} (S : Source τ) (ws : Nat → Buf) (st : ParseState τ)

/-- What `result` held before makes no difference, and there is no entry if the tokens start with `}` or there
are none. -/
structure ForestDetermined : Prop where
  same : ∀ (results results' : Nat → Option EntId) (p p' : Option EntId) (st₁ st₂ : ParseState τ),
    Settles .fuel (fun k => parseSub S (localsOf ws results) k) st (.ok p st₁) →
    Settles .fuel (fun k => parseSub S (localsOf ws results') k) st (.ok p' st₂) →
    ∀ f, Reads st₁.tbl.strings st₁.mem f p ↔ Reads st₂.tbl.strings st₂.mem f p'
  empty : S.rest st.tok = [] ∨ (S.rest st.tok).head? = some tokClose → ∀ results p st₁,
    Settles .fuel (fun k => parseSub S (localsOf ws results) k) st (.ok p st₁) → p = none

/-- Neither the stream nor a block that is read in it is empty. -/
def NoEmptyBlock : Prop :=
  let stack := localsOf ws fun _ => none
  ∀ f rest σ', Block S.fname stack (st.scan stack) f (S.rest st.tok) rest σ' → f.Full

end

section
variable {strs strs' : List CStr} {mem mem' : EntId → Entry} {f g : Forest} {p p' q : Option EntId} {lo : Nat}
  {n m : CStr} {vs us : List CStr} {x y : Entry}

/-! ## Reading a forest -/

theorem Entry.Is.transfer (h : x.Is strs n vs) (h' : y.Is strs' n vs) (hg : x.Is strs m us) : y.Is strs' m us := by
  obtain ⟨i, hi, hn⟩ := h.name
  obtain ⟨j, hj, hm⟩ := hg.name
  rw [hi] at hj
  cases hj
  rw [hn] at hm
  cases hm
  have huniq : ∀ {ids : List StrId} {vs us : List CStr}, List.Forall₂ (fun p v => strs[p]? = some v) ids vs →
      List.Forall₂ (fun p v => strs[p]? = some v) ids us → vs = us := by
    intro ids vs us h h'
    induction h generalizing us with
    | nil => exact (List.forall₂_nil_left_iff.mp h').symm
    | cons hv _ ih =>
      cases h' with
      | cons hu hus =>
        rw [hv] at hu
        rw [Option.some.inj hu, ih hus]
  cases huniq h.values hg.values
  exact h'

/-- Two memories that hold a common forest hold the same forests. -/
theorem Reads.transfer (h : Reads strs mem f p) (h' : Reads strs' mem' f p') (hg : Reads strs mem g p) :
    Reads strs' mem' g p' := by
  induction f generalizing g p p' with
  | nil =>
    cases h
    cases g with
    | nil => exact h'
    | leaf => obtain ⟨e, he, -⟩ := hg; cases he
    | block => obtain ⟨e, he, -⟩ := hg; cases he
  | leaf n vs f ih =>
    obtain ⟨e, rfl, his, hsub, hnext⟩ := h
    obtain ⟨e', rfl, his', hsub', hnext'⟩ := h'
    cases g with
    | nil => cases hg
    | leaf m us g =>
      obtain ⟨e₁, he, hgis, -, hgnext⟩ := hg
      cases he
      exact ⟨e', rfl, his.transfer his' hgis, hsub', ih hnext hnext' hgnext⟩
    | block m us gsub g =>
      obtain ⟨e₁, he, hgis, hgsub, hgnext⟩ := hg
      cases he
      rw [hsub] at hgsub
      cases gsub with
      | nil => exact ⟨e', rfl, his.transfer his' hgis, hsub', ih hnext hnext' hgnext⟩
      | leaf => obtain ⟨_, he, -⟩ := hgsub; cases he
      | block => obtain ⟨_, he, -⟩ := hgsub; cases he
  | block n vs sub f ihs ih =>
    obtain ⟨e, rfl, his, hsub, hnext⟩ := h
    obtain ⟨e', rfl, his', hsub', hnext'⟩ := h'
    cases g with
    | nil => cases hg
    | leaf m us g =>
      obtain ⟨e₁, he, hgis, hgsub, hgnext⟩ := hg
      cases he
      have hnil : Reads strs mem .nil (mem e).sub := hgsub
      exact ⟨e', rfl, his.transfer his' hgis, ihs hsub hsub' hnil, ih hnext hnext' hgnext⟩
    | block m us gsub g =>
      obtain ⟨e₁, he, hgis, hgsub, hgnext⟩ := hg
      cases he
      exact ⟨e', rfl, his.transfer his' hgis, ihs hsub hsub' hgsub, ih hnext hnext' hgnext⟩

/-- The list of every empty block in the forest that is stored from `lo` on is `q`. -/
def EmptySubs (q : Option EntId) (mem : EntId → Entry) : Nat → Forest → Prop
  | _, .nil => True
  | lo, .leaf _ _ f => EmptySubs q mem (lo + 1) f
  | lo, .block _ _ sub f => (sub = .nil → (mem lo).sub = q) ∧ EmptySubs q mem (lo + 1) sub ∧
      EmptySubs q mem (lo + 1 + sub.size) f

theorem EmptySubs.frame (h : EmptySubs q mem lo f)
    (hmem : ∀ i : Nat, lo ≤ i → i < lo + f.size → (mem' i).sub = (mem i).sub) : EmptySubs q mem' lo f := by
  induction f generalizing lo with
  | nil => trivial
  | leaf n vs f ih =>
    simp only [Forest.size] at hmem
    have hf : EmptySubs q mem (lo + 1) f := h
    exact ih hf fun i h₁ h₂ => hmem i (by omega) (by omega)
  | block n vs sub f ihs ihf =>
    simp only [Forest.size] at hmem
    obtain ⟨hsub, hs, hf⟩ := h
    refine ⟨fun hnil => (hmem lo (Nat.le_refl _) (by omega)).trans (hsub hnil),
      ihs hs fun i h₁ h₂ => hmem i (by omega) (by omega), ihf hf fun i h₁ h₂ => hmem i (by omega) (by omega)⟩

theorem Holds.reads (h : Holds strs mem lo f) (he : EmptySubs none mem lo f) : Reads strs mem f (f.link lo) := by
  induction f generalizing lo with
  | nil => rfl
  | leaf n vs f ih =>
    obtain ⟨his, hnext, hsub, hf⟩ := h
    exact ⟨lo, rfl, his, hsub, hnext ▸ ih hf he⟩
  | block n vs sub f ihs ihf =>
    obtain ⟨his, hnext, hsub, hs, hf⟩ := h
    obtain ⟨hempty, hes, hef⟩ := he
    refine ⟨lo, rfl, his, ?_, hnext ▸ ihf hf hef⟩
    by_cases hnil : sub = .nil
    · rw [hnil]
      exact hempty hnil
    · rw [hsub hnil, ← link_ne_nil hnil]
      exact ihs hs hes

/-- Garbage in an empty block is seen. -/
theorem not_reads_garbage {e : EntId} (h : Holds strs mem lo f) (he : EmptySubs (some e) mem lo f)
    (hf : f ≠ .nil) (hfull : ¬f.Full) : ¬Reads strs mem f (some lo) := by
  induction f generalizing lo with
  | nil => exact absurd rfl hf
  | leaf n vs f ih =>
    rintro ⟨e₁, he₁, -, -, hnext⟩
    cases he₁
    have hne : f ≠ .nil := fun hnil => hfull (.inl hnil)
    rw [h.2.1, link_ne_nil hne] at hnext
    exact ih h.2.2.2 he hne (fun hf => hfull (.inr hf)) hnext
  | block n vs sub f ihs ihf =>
    rintro ⟨e₁, he₁, -, hsub, hnext⟩
    cases he₁
    obtain ⟨-, hlink, hlsub, hs, hf'⟩ := h
    obtain ⟨hempty, hes, hef⟩ := he
    by_cases hnil : sub = .nil
    · rw [hempty hnil, hnil] at hsub
      cases hsub
    · rw [hlsub hnil] at hsub
      by_cases hsfull : sub.Full
      · have hne : f ≠ .nil := fun hnil => hfull ⟨hsfull, .inl hnil⟩
        rw [hlink, link_ne_nil hne] at hnext
        exact ihf hf' hef hne (fun hf => hfull ⟨hsfull, .inr hf⟩) hnext
      · exact ihs hs hes hnil hsfull hsub

/-- A forest without empty blocks. -/
theorem Forest.Full.emptySubs (hf : f = .nil ∨ f.Full) : EmptySubs q mem lo f := by
  induction f generalizing lo with
  | nil => trivial
  | leaf n vs f ih => exact ih (hf.resolve_left (by simp))
  | block n vs sub f ihs ihf =>
    obtain ⟨hs, hf⟩ := hf.resolve_left (by simp)
    refine ⟨fun hnil => ?_, ihs (.inr hs), ihf hf⟩
    rw [hnil] at hs
    exact hs.elim

end

/-! ## What the calls leave in empty blocks -/

section
variable {τ : Type} {S : Source τ} {stack stack' : Nat → Locals} {σ σ' : Scan} {f : Forest} {ts rest : List CStr}
  {q : Option EntId} {fname : CStr}

/-- Every run of the loop over the forest leaves `q` in its empty blocks. -/
def LeavesEmpty (S : Source τ) (stack : Nat → Locals) (q : Option EntId) (σ : Scan) (f : Forest) (ts : List CStr) :
    Prop :=
  ∀ (st : ParseState τ) (w : Buf) (prev res : Option EntId), st.tbl = σ.tbl → st.calls = σ.calls →
    w.last = σ.c → S.rest st.tok = ts → (∀ p ∈ prev, p < st.tbl.entries) → ∀ p st',
    Settles .fuel (fun k => parseLoop S stack k w prev res) st (.ok p st') →
    EmptySubs q st'.mem st.tbl.entries f

theorem leaves_nil (σ : Scan) (ts : List CStr) : LeavesEmpty S stack q σ .nil ts :=
  fun _ _ _ _ _ _ _ _ _ _ _ _ => trivial

theorem leaves_leaf {n : CStr} {vs ts' : List CStr} {T : Tables} (head : Head S.fname σ n vs T)
    (hon : onward n ts = vs ++ tokSemi :: ts') (hb : Block S.fname stack { σ with tbl := T } f ts' rest σ')
    (ih : LeavesEmpty S stack q { σ with tbl := T } f ts') :
    LeavesEmpty S stack q σ (.leaf (stored σ.c n) (vs.map (stored σ.c)) f) (n :: ts) := by
  intro st w prev res hs hc hw hr hprev p st' hrun
  obtain ⟨w₃, st₃, res', he, hlo, hrun₃⟩ := leaf_rest ⟨hs, hc, hw, hr, hprev⟩ head hon hb hrun
  have hrest := ih st₃ w₃ _ res' he.tbl he.calls he.last he.rest he.prev _ _ hrun₃
  rw [hlo] at hrest
  exact hrest

theorem leaves_block {n : CStr} {vs ts₁ ts₂ : List CStr} {T : Tables} {sub : Forest} {σ₁ : Scan}
    (hq : ∀ i, (stack i).result = q) (head : Head S.fname σ n vs T) (hon : onward n ts = vs ++ tokOpen :: ts₁)
    (hbs : Block S.fname stack (σ.enter stack T) sub ts₁ ts₂ σ₁)
    (hb : Block S.fname stack { σ₁ with c := σ.c } f ts₂ rest σ')
    (ihs : LeavesEmpty S stack q (σ.enter stack T) sub ts₁) (ih : LeavesEmpty S stack q { σ₁ with c := σ.c } f ts₂) :
    LeavesEmpty S stack q σ (.block (stored σ.c n) (vs.map (stored σ.c)) sub f) (n :: ts) := by
  intro st w prev res hs hc hw hr hprev p st' hrun
  obtain ⟨st₄, st₅, r, w₃, res', he₄, hlo, hrun₅, hr₅, he₆, hlo₅, hrun₆, hblock⟩ :=
    block_rest ⟨hs, hc, hw, hr, hprev⟩ head hon hbs hb hrun
  have hsubs := ihs st₄ _ none _ he₄.tbl he₄.calls he₄.last he₄.rest he₄.prev _ _ hrun₅
  have hrest := ih _ w₃ _ res' he₆.tbl he₆.calls he₆.last he₆.rest he₆.prev _ _ hrun₆
  let st₆ := st₅.setEntry st.tbl.entries ({ · with sub := r })
  have hlo₆ : st₆.tbl.entries = st.tbl.entries + 1 + sub.size := hlo₅
  have hframe : ∀ i, i < st₆.tbl.entries → (st'.mem i).sub = (st₆.mem i).sub := by
    intro i hi
    rw [hblock.frame i hi]
    split
    · rfl
    · unfold relink
      split <;> rfl
  refine ⟨fun hnil => ?_, ?_, hlo₆ ▸ hrest⟩
  · have hself : (st₆.mem st.tbl.entries).sub = r := by
      simp only [st₆, ParseState.setEntry, Function.update_self]
    rw [hframe _ (by omega), hself, hr₅, if_neg (not_not_intro hnil), hq]
  · refine EmptySubs.frame (hlo ▸ hsubs) fun i h₁ h₂ => ?_
    rw [hframe i (by omega)]
    have hne : i ≠ st.tbl.entries := by omega
    simp only [st₆, ParseState.setEntry, Function.update_of_ne hne]

theorem block_leaves (hq : ∀ i, (stack i).result = q) (h : Block S.fname stack σ f ts rest σ') :
    LeavesEmpty S stack q σ f ts := by
  induction h with
  | eof σ => exact leaves_nil σ _
  | close σ rest => exact leaves_nil σ _
  | leaf head hb ih => exact leaves_leaf head (onward_append _ _ _ _) hb ih
  | block head hbs hb ihs ih => exact leaves_block hq head (onward_append _ _ _ _) hbs hb ihs ih
  | lastLeaf head => exact leaves_leaf head rfl (.eof _) (leaves_nil _ _)
  | lastBlock head => exact leaves_block hq head rfl (.eof _) (.eof _) (leaves_nil _ _) (leaves_nil _ _)

/-- What a block is read as does not depend on `result`. -/
theorem Block.congr (hw : ∀ i, (stack i).w = (stack' i).w) (h : Block fname stack σ f ts rest σ') :
    Block fname stack' σ f ts rest σ' := by
  have henter : ∀ (σ : Scan) (T : Tables), σ.enter stack T = σ.enter stack' T := fun σ T => by
    rw [Scan.enter, Scan.enter, hw]
  induction h with
  | eof σ => exact .eof σ
  | close σ rest => exact .close σ rest
  | leaf head _ ih => exact .leaf head ih
  | block head _ _ ihs ih => exact .block head (henter _ _ ▸ ihs) ih
  | lastLeaf head => exact .lastLeaf head
  | lastBlock head => exact .lastBlock head

end

section
variable {τ : Type} {S : Source τ} {ws : Nat → Buf} {st st₁ : ParseState τ} {results : Nat → Option EntId}
  {p q : Option EntId} {f : Forest} {rest : List CStr} {σ' : Scan}

theorem same_words (results results' : Nat → Option EntId) (i : Nat) :
    (localsOf ws results i).w = (localsOf ws results' i).w := rfl

/-- The run over a forest. -/
theorem parse_forest (results : Nat → Option EntId)
    (h : Block S.fname (localsOf ws fun _ => none) (st.scan (localsOf ws fun _ => none)) f (S.rest st.tok) rest σ') :
    ∃ st₁, Settles .fuel (fun k => parseSub S (localsOf ws results) k) st
        (.ok (if f = .nil then results st.calls else some st.tbl.entries) st₁) ∧
      Holds st₁.tbl.strings st₁.mem st.tbl.entries f ∧
      ∀ q, (∀ i, results i = q) → EmptySubs q st₁.mem st.tbl.entries f := by
  have hb : Block S.fname (localsOf ws results) (st.scan (localsOf ws results)) f (S.rest st.tok) rest σ' :=
    h.congr (same_words _ _)
  obtain ⟨st₁, hrun, hblock⟩ := block_run hb { st with calls := st.calls + 1 } (ws st.calls) none (results st.calls)
    rfl rfl rfl rfl (by simp)
  have hres : (if (none : Option EntId) = none ∧ f ≠ .nil then some st.tbl.entries else results st.calls) =
      if f = .nil then results st.calls else some st.tbl.entries := by
    by_cases hf : f = .nil <;> simp [hf]
  refine ⟨st₁, ?_, hblock.holds, fun q hq => ?_⟩
  · rw [← hres]
    exact hrun.congr fun _ => rfl
  · exact block_leaves hq hb { st with calls := st.calls + 1 } (ws st.calls) none (results st.calls)
      rfl rfl rfl rfl (by simp) _ _ hrun

/-- A run that returns has read a forest. -/
theorem forest_of_settles (hr : Settles .fuel (fun k => parseSub S (localsOf ws results) k) st (.ok p st₁)) :
    ∃ f rest σ', Block S.fname (localsOf ws fun _ => none) (st.scan (localsOf ws fun _ => none)) f (S.rest st.tok)
      rest σ' := by
  rcases parse_total S (localsOf ws results) st with ⟨f, rest, σ', hb⟩ | ⟨σ', ts, hreach, hs⟩ | ⟨σ', ts, hreach, hf⟩
  · exact ⟨f, rest, σ', hb.congr (same_words _ _)⟩
  · exact absurd ⟨p, st₁, hr⟩ (parse_stuck hreach hs).not_returned
  · exact absurd (parse_stops hreach hf) (Returned.not_stops ⟨p, st₁, hr⟩)

/-- A forest without empty blocks is read back, whatever `result` held. -/
theorem full_reads (hfull : f.Full)
    (hb : Block S.fname (localsOf ws fun _ => none) (st.scan (localsOf ws fun _ => none)) f (S.rest st.tok) rest σ')
    (hr : Settles .fuel (fun k => parseSub S (localsOf ws results) k) st (.ok p st₁)) :
    Reads st₁.tbl.strings st₁.mem f p := by
  obtain ⟨st₁', hr', hholds, -⟩ := parse_forest results hb
  have hne : f ≠ .nil := by
    rintro rfl
    exact hfull
  rw [if_neg hne] at hr'
  cases hr.unique hr'
  rw [← link_ne_nil hne]
  exact hholds.reads (Forest.Full.emptySubs (.inr hfull))

end

/-- **When the tokens determine the forest**: for every stream, and every content of the word buffers. -/
theorem forest_determined_iff {τ : Type} (S : Source τ) (ws : Nat → Buf) (st : ParseState τ) :
    ForestDetermined S ws st ↔ NoEmptyBlock S ws st := by
  constructor
  · intro hd f rest σ' hb
    by_contra hfull
    obtain ⟨st₁, hr₁, hh₁, he₁⟩ := parse_forest (fun _ => none) hb
    obtain ⟨st₂, hr₂, hh₂, he₂⟩ := parse_forest (fun _ => some 0) hb
    have hreads := hh₁.reads (he₁ none fun _ => rfl)
    have hsame := (hd.same _ _ _ _ st₁ st₂ hr₁ hr₂ f).mp
    by_cases hnil : f = .nil
    · rw [if_pos hnil, if_pos hnil, hnil] at hsame
      cases hsame rfl
    · rw [if_neg hnil, if_neg hnil] at hsame
      rw [link_ne_nil hnil] at hreads
      exact not_reads_garbage hh₂ (he₂ _ fun _ => rfl) hnil hfull (hsame hreads)
  · intro hno
    refine ⟨fun results results' p p' st₁ st₂ hr₁ hr₂ g => ?_, fun hts results p st₁ hr => ?_⟩
    · obtain ⟨f, rest, σ', hb⟩ := forest_of_settles hr₁
      have h₁ := full_reads (hno f rest σ' hb) hb hr₁
      have h₂ := full_reads (hno f rest σ' hb) hb hr₂
      exact ⟨h₁.transfer h₂, h₂.transfer h₁⟩
    · -- an empty stream is excluded
      rcases hts with hts | hts
      · rw [NoEmptyBlock, hts] at hno
        exact (hno .nil [] _ (.eof _)).elim
      · obtain ⟨rest, hrest⟩ : ∃ rest, S.rest st.tok = tokClose :: rest := List.head?_eq_some_iff.mp hts
        rw [NoEmptyBlock, hrest] at hno
        exact (hno .nil rest _ (.close _ rest)).elim

/-- **Counterexample**: an empty file has an entry. -/
theorem empty_file_garbage : ¬ ∀ (τ : Type) (S : Source τ) (ws : Nat → Buf) (st : ParseState τ),
    ForestDetermined S ws st := by
  intro hall
  let S := listSource (cstr "bootd.conf")
  let st := startState [] (by decide)
  have hb : Block S.fname (localsOf (fun _ => []) fun _ => none) (st.scan (localsOf (fun _ => []) fun _ => none))
    .nil (S.rest st.tok) [] _ := .eof _
  obtain ⟨st₁, hr, -⟩ := parse_forest (fun _ => some 0) hb
  cases (hall _ S (fun _ => []) st).empty (.inl rfl) _ _ _ hr

end Bootd
