import Bootd.Config.PrintParse
import Bootd.Config.Refusals
import Bootd.Config.Room
import Mathlib.Data.List.Induction

/-!
# The parser accepts more than its grammar, and less

`parse_sub` takes the end of the file for a `}` and, at the top level, a `}` for
the end of the file (src/parse.c:171). The value loop ignores that
`gen_tokenize_next` found no token and looks at the old word again
(src/parse.c:191-202), and any word but `}` is taken for a name. So

* what follows an unmatched `}` is dropped without a word: `} a ;`;
* a block that is not closed is accepted: `a {`;
* a statement may be called `;` or `{`: `; a ;`;
* and a separator between values is never read past: `a , b ;`.

Counterexample: the first of these (`stray_brace_dropped`).

`config_iff`: the parser does as the grammar says exactly if the stream is derived
without separators, or reading it breaks off (`Breaks`): at a 33rd value, or at
the end of the file behind a word. The report about that shows the name of the file,
which is taken for a format with the rest of it (`Log.formatSafe`). `config_cases`
says what becomes of a stream that the grammar derives.
-/
namespace Bootd

open Bootd.Core
open Bootd.Core.Fuel

/-! ## The grammar -/

/-- Neither a delimiter nor a separator. -/
def IsWord (w : CStr) : Prop := w ≠ tokClose ∧ IsValue w

instance (w : CStr) : Decidable (IsWord w) := inferInstanceAs (Decidable (_ ∧ _))

/-- The tokens of a value list, with separators between values, and the values. -/
inductive Values : List CStr → List CStr → Prop
  | nil : Values [] []
  | one {v : CStr} : IsWord v → Values [v] [v]
  | more {v v' : CStr} {seps toks vs : List CStr} : IsWord v → (∀ s ∈ seps, IsSep s) →
      Values (v' :: toks) vs → Values (v :: (seps ++ v' :: toks)) (v :: vs)

/-- `config ::= stmt*`, `stmt ::= word value* (';' | '{' stmt* '}')`, with at most
32 values. -/
inductive Config : List CStr → Prop
  | nil : Config []
  | leaf {n : CStr} {toks vs ts : List CStr} : IsWord n → Values toks vs → vs.length ≤ parseValuesMax →
      Config ts → Config (n :: toks ++ tokSemi :: ts)
  | block {n : CStr} {toks vs sub ts : List CStr} : IsWord n → Values toks vs →
      vs.length ≤ parseValuesMax → Config sub → Config ts →
      Config (n :: toks ++ tokOpen :: (sub ++ tokClose :: ts))

/-- A derivable stream is parsed, and nothing of it is lost; any other ends in a
reported error. -/
structure FollowsGrammar {τ : Type} (S : Source τ) (stack : Nat → Locals) (st : ParseState τ) : Prop where
  accepts : Config (S.rest st.tok) → ∃ p st' f, Settles .fuel (fun k => parseSub S stack k) st (.ok p st') ∧
    (f ≠ .nil → Tree st'.tbl.strings st'.mem f p) ∧ f.print = (S.rest st.tok).filter fun t => ¬IsSep t
  rejects : ¬Config (S.rest st.tok) → Fails (fun k => parseSub S stack k) st

/-- The size limits: short words, and tables with room at every statement that
the parser comes to. -/
structure WithinLimits (fname : CStr) (stack : Nat → Locals) (σ : Scan) (ts : List CStr) : Prop where
  short : ∀ tok ∈ ts, tok.length ≤ 254
  name : ∀ σ' n rest, Reaches fname stack σ ts σ' (n :: rest) → n ≠ tokClose →
    σ'.tbl.addName σ'.c fname n ≠ none
  value : ∀ σ' n vs v rest T, Reaches fname stack σ ts σ' (n :: vs ++ v :: rest) → Head fname σ' n vs T →
    IsValue v → vs.length < parseValuesMax → T.add v ≠ none

/-- Reading breaks off in the middle of a statement: at a value too many, or at
the end of the file behind a word. -/
inductive BreaksHere (fname : CStr) : Scan → List CStr → Prop
  | tooMany {σ : Scan} {n v : CStr} {vs : List CStr} {T : Tables} (rest : List CStr) :
      Head fname σ n vs T → vs.length = parseValuesMax → IsValue v → BreaksHere fname σ (n :: vs ++ v :: rest)
  | unended {σ : Scan} {n : CStr} {vs : List CStr} {T : Tables} : Head fname σ n vs T →
      IsValue (vs.getLastD n) → BreaksHere fname σ (n :: vs)

def Breaks (fname : CStr) (stack : Nat → Locals) (σ : Scan) (ts : List CStr) : Prop :=
  ∃ σ' ts', Reaches fname stack σ ts σ' ts' ∧ BreaksHere fname σ' ts'

/-! ## Limits -/

section
variable {fname : CStr} {stack : Nat → Locals} {σ σ' σ₁ : Scan} {T T₁ : Tables} {f : Forest} {n v : CStr}
  {vs toks ts ts' rest : List CStr}

theorem BreaksHere.fails (h : BreaksHere fname σ ts) : FailsHere fname σ ts := by
  cases h with
  | tooMany rest head hlen hv => exact .value rest head hv (.inl hlen)
  | unended head hlast => exact .eof head hlast

/-- Within the limits no word is too long. -/
theorem WithinLimits.not_long {pre : List CStr} (hl : WithinLimits fname stack σ ts) (hsuf : ts' <:+ ts)
    (hr : Reaches fname stack σ ts σ' ts') : ¬LongHere fname σ' pre v ts' := by
  intro h
  cases h with
  | name rest hn hnew hroom hlong =>
    rw [word_short (hl.short v (hsuf.subset List.mem_cons_self))] at hlong
    cases hlong
  | @file n s p T T' rest hn hnew hword hadd hroom hlong =>
    refine hl.name _ _ _ hr hn ?_
    have hno : T'.add fname = none := add_none.mpr (stringAdd_oversized hlong)
    simp [Tables.addName, hnew, hword, add_some.mpr ⟨p, hadd⟩, hno, Except.toOption]
  | value rest head hv hlen hroom hlong =>
    rw [word_short (hl.short v (hsuf.subset (by simp)))] at hlong
    cases hlong

/-- Within the limits a statement is refused only where it breaks off. -/
theorem WithinLimits.breaks (hl : WithinLimits fname stack σ ts) (hsuf : ts' <:+ ts)
    (hr : Reaches fname stack σ ts σ' ts') (h : FailsHere fname σ' ts') : BreaksHere fname σ' ts' := by
  cases h with
  | name rest hn hadd => exact absurd hadd (hl.name _ _ _ hr hn)
  | @value n vs T v rest head hv hno =>
    have hshort : v.length ≤ 254 := hl.short v (hsuf.subset (by simp))
    rw [word_short hshort] at hno
    refine .tooMany rest head (le_antisymm head.le (not_lt.mp fun hlt => ?_)) hv
    exact (hno.resolve_left hlt.ne) |> hl.value _ _ _ _ _ _ hr head hv hlt
  | eof head hlast => exact .unended head hlast

theorem Block.suffix (h : Block fname stack σ f ts rest σ') : rest <:+ ts := by
  induction h with
  | eof => exact List.suffix_refl _
  | close => exact List.suffix_cons _ _
  | leaf _ _ ih => exact ih.trans ((List.suffix_cons _ _).trans (List.suffix_append _ _))
  | block _ _ _ ihs ih =>
    exact ih.trans (ihs.trans ((List.suffix_cons _ _).trans (List.suffix_append _ _)))
  | lastLeaf | lastBlock => exact List.nil_suffix

theorem Reaches.suffix (h : Reaches fname stack σ ts σ' ts') : ts' <:+ ts := by
  induction h with
  | refl => exact List.suffix_refl _
  | leaf _ _ ih | sub _ _ ih => exact ih.trans ((List.suffix_cons _ _).trans (List.suffix_append _ _))
  | block _ hb _ ih =>
    exact ih.trans (hb.suffix.trans ((List.suffix_cons _ _).trans (List.suffix_append _ _)))

/-- The limits hold from a statement further on. -/
theorem WithinLimits.onward (hl : WithinLimits fname stack σ ts) (hsuf : ts' <:+ ts)
    (hr : ∀ σ'' ts'', Reaches fname stack σ' ts' σ'' ts'' → Reaches fname stack σ ts σ'' ts'') :
    WithinLimits fname stack σ' ts' :=
  ⟨fun tok h => hl.short tok (hsuf.subset h), fun _ _ _ h => hl.name _ _ _ (hr _ _ h),
    fun _ _ _ _ _ _ h => hl.value _ _ _ _ _ _ (hr _ _ h)⟩

/-- A statement of words can be read. -/
theorem WithinLimits.head (hl : WithinLimits fname stack σ (n :: vs ++ rest)) (hn : IsWord n)
    (hvs : ∀ v ∈ vs, IsWord v) (hle : vs.length ≤ parseValuesMax) : ∃ T, Head fname σ n vs T := by
  obtain ⟨T₀, hname⟩ := Option.ne_none_iff_exists'.mp (hl.name _ _ _ (.refl _ _) hn.1)
  induction vs using List.reverseRecOn generalizing rest with
  | nil => exact ⟨T₀, hn.1, by simp, Nat.zero_le _, by rw [hname]; rfl⟩
  | append_singleton vs v ih =>
    rw [List.length_append, List.length_singleton] at hle
    have hl' : WithinLimits fname stack σ (n :: vs ++ ([v] ++ rest)) := by simpa using hl
    obtain ⟨T, head⟩ := ih hl' (fun x hx => hvs x (by simp [hx])) (by omega)
    have hshort : v.length ≤ 254 := hl.short v (by simp)
    obtain ⟨T', hT'⟩ := Option.ne_none_iff_exists'.mp
      (hl'.value _ _ _ _ _ _ (show Reaches fname stack σ _ σ (n :: vs ++ v :: rest) from .refl _ _) head
        (hvs v (by simp)).2 (by omega))
    refine ⟨T', hn.1, fun x hx => (hvs x hx).2, by simpa using hle, ?_⟩
    have hgr := head.granted
    rw [hname, Option.bind_some] at hgr ⊢
    rw [addValues_append, hgr, Option.bind_some, addValues_cons, word_short hshort, Option.bind_some, hT']
    rfl

/-! ## What becomes of a derivable stream -/

/-- A value list without separators is its values; any other has values up to its
first separator. -/
theorem Values.cases_sep (h : Values toks vs) :
    ((∀ t ∈ toks, ¬IsSep t) ∧ toks = vs ∧ ∀ v ∈ vs, IsWord v) ∨
      ∃ vs' sep more, toks = vs' ++ sep :: more ∧ IsSep sep ∧ (∀ v ∈ vs', IsWord v) ∧
        vs'.length ≤ vs.length := by
  have hnot : ∀ {v : CStr}, IsWord v → ¬IsSep v := by
    rintro v ⟨-, -, -, hc, hb⟩ (h | h)
    · exact hc h
    · exact hb h
  induction h with
  | nil => exact .inl ⟨by simp, rfl, by simp⟩
  | one hv => exact .inl ⟨by simpa using hnot hv, rfl, by simpa using hv⟩
  | @more v v' seps toks vs hv hseps _ ih =>
    cases seps with
    | cons s seps =>
      exact .inr ⟨[v], s, seps ++ v' :: toks, rfl, hseps s (by simp), by simpa using hv, by simp⟩
    | nil =>
      rcases ih with ⟨hno, heq, hw⟩ | ⟨vs', sep, more, heq, hsep, hw, hle⟩
      · refine .inl ⟨?_, by rw [List.nil_append, heq], ?_⟩
        · simp only [List.nil_append, List.mem_cons, forall_eq_or_imp] at hno ⊢
          exact ⟨hnot hv, hno⟩
        · simp only [List.mem_cons, forall_eq_or_imp]
          exact ⟨hv, hw⟩
      · refine .inr ⟨v :: vs', sep, more, by rw [List.nil_append, heq]; rfl, hsep, ?_, by simpa using hle⟩
        simp only [List.mem_cons, forall_eq_or_imp]
        exact ⟨hv, hw⟩

/-- A derivable stream without separators is read as it is written; in any other
the parser comes to a separator. -/
theorem config_cases (h : Config ts) (σ : Scan) (more rest : List CStr)
    (hl : WithinLimits fname stack σ (ts ++ more))
    (hmore : more = [] ∧ rest = [] ∨ more = tokClose :: rest) :
    ((∀ t ∈ ts, ¬IsSep t) ∧ ∃ f σ', Block fname stack σ f (ts ++ more) rest σ' ∧ f.print = ts) ∨
      (∃ t ∈ ts, IsSep t) ∧
        ∃ σ' ts', Reaches fname stack σ (ts ++ more) σ' ts' ∧ StuckHere fname σ' ts' := by
  have hdelim : ¬IsSep tokSemi ∧ ¬IsSep tokOpen ∧ ¬IsSep tokClose := by decide
  have hword : ∀ {v : CStr}, IsWord v → ¬IsSep v := by
    rintro v ⟨-, -, -, hc, hb⟩ (h | h)
    · exact hc h
    · exact hb h
  induction h generalizing σ more rest with
  | nil =>
    refine .inl ⟨by simp, .nil, σ, ?_, rfl⟩
    rcases hmore with ⟨rfl, rfl⟩ | rfl
    · exact .eof σ
    · exact .close σ rest
  | @leaf n toks vs ts hn hv hle _ ih =>
    have happ : n :: toks ++ tokSemi :: ts ++ more = n :: toks ++ tokSemi :: (ts ++ more) := by simp
    rw [happ] at hl ⊢
    have hsn : n.length ≤ 254 := hl.short n (by simp)
    rcases hv.cases_sep with ⟨hno, rfl, hw⟩ | ⟨vs', sep, rest', rfl, hsep, hw, hle'⟩
    · have hsv : ∀ v ∈ toks, v.length ≤ 254 := fun v hv => hl.short v (by simp [hv])
      obtain ⟨T, head⟩ := hl.head hn hw hle
      have hl' := hl.onward ((List.suffix_cons _ _).trans (List.suffix_append _ _)) fun _ _ => .leaf head
      rcases ih { σ with tbl := T } more rest hl' hmore with
          ⟨hnos, f, σ', hb, hp⟩ | ⟨⟨t, ht, hsep⟩, σ', ts', hr, hs⟩
      · have hblock := Block.leaf head hb
        rw [stored_short hsn, map_stored_short hsv] at hblock
        refine .inl ⟨?_, _, σ', hblock, by rw [Forest.print, hp]⟩
        simp only [List.cons_append, List.mem_cons, List.mem_append]
        rintro t (rfl | ht | rfl | ht)
        · exact hword hn
        · exact hno t ht
        · exact hdelim.1
        · exact hnos t ht
      · exact .inr ⟨⟨t, by simp [ht], hsep⟩, σ', ts', .leaf head hr, hs⟩
    · rw [show n :: (vs' ++ sep :: rest') ++ tokSemi :: (ts ++ more) =
        n :: vs' ++ sep :: (rest' ++ tokSemi :: (ts ++ more)) by simp] at hl ⊢
      obtain ⟨T, head⟩ := hl.head hn hw (by omega)
      exact .inr ⟨⟨sep, by simp, hsep⟩, σ, _, .refl _ _, .value _ head hsep⟩
  | @block n toks vs sub ts hn hv hle _ _ ihs ih =>
    have happ : n :: toks ++ tokOpen :: (sub ++ tokClose :: ts) ++ more =
        n :: toks ++ tokOpen :: (sub ++ tokClose :: (ts ++ more)) := by simp
    rw [happ] at hl ⊢
    have hsn : n.length ≤ 254 := hl.short n (by simp)
    rcases hv.cases_sep with ⟨hno, rfl, hw⟩ | ⟨vs', sep, rest', rfl, hsep, hw, hle'⟩
    · have hsv : ∀ v ∈ toks, v.length ≤ 254 := fun v hv => hl.short v (by simp [hv])
      obtain ⟨T, head⟩ := hl.head hn hw hle
      have hl' := hl.onward ((List.suffix_cons _ _).trans (List.suffix_append _ _)) fun _ _ => .sub head
      rcases ihs (σ.enter stack T) (tokClose :: (ts ++ more)) (ts ++ more) hl' (.inr rfl) with
        ⟨hnosub, fsub, σ₁, hbsub, hpsub⟩ | ⟨⟨t, ht, hsep⟩, σ', ts', hr, hs⟩
      · have hl'' := hl.onward (hbsub.suffix.trans ((List.suffix_cons _ _).trans (List.suffix_append _ _)))
          fun _ _ => .block head hbsub
        rcases ih { σ₁ with c := σ.c } more rest hl'' hmore with
          ⟨hnos, f, σ', hb, hp⟩ | ⟨⟨t, ht, hsep⟩, σ', ts', hr, hs⟩
        · have hblock := Block.block head hbsub hb
          rw [stored_short hsn, map_stored_short hsv] at hblock
          refine .inl ⟨?_, _, σ', hblock, by rw [Forest.print, hp, hpsub]⟩
          simp only [List.cons_append, List.mem_cons, List.mem_append]
          rintro t (rfl | ht | rfl | ht | rfl | ht)
          · exact hword hn
          · exact hno t ht
          · exact hdelim.2.1
          · exact hnosub t ht
          · exact hdelim.2.2
          · exact hnos t ht
        · exact .inr ⟨⟨t, by simp [ht], hsep⟩, σ', ts', .block head hbsub hr, hs⟩
      · exact .inr ⟨⟨t, by simp [ht], hsep⟩, σ', ts', .sub head hr, hs⟩
    · rw [show n :: (vs' ++ sep :: rest') ++ tokOpen :: (sub ++ tokClose :: (ts ++ more)) =
        n :: vs' ++ sep :: (rest' ++ tokOpen :: (sub ++ tokClose :: (ts ++ more))) by simp] at hl ⊢
      obtain ⟨T, head⟩ := hl.head hn hw (by omega)
      exact .inr ⟨⟨sep, by simp, hsep⟩, σ, _, .refl _ _, .value _ head hsep⟩

end

/-! ## When the parser follows the grammar -/

section
variable {τ : Type} {S : Source τ} {stack : Nat → Locals} {st : ParseState τ}

/-- A derivable stream without separators is parsed whole. -/
theorem parse_config (hl : WithinLimits S.fname stack (st.scan stack) (S.rest st.tok))
    (h : Config (S.rest st.tok)) :
    ((∀ t ∈ S.rest st.tok, ¬IsSep t) ∧ ∃ p st' f,
      Settles .fuel (fun k => parseSub S stack k) st (.ok p st') ∧
      (f ≠ .nil → Tree st'.tbl.strings st'.mem f p) ∧ f.print = S.rest st.tok) ∨
    (∃ t ∈ S.rest st.tok, IsSep t) ∧ Hangs (fun k => parseSub S stack k) st := by
  have happ := List.append_nil (S.rest st.tok)
  rcases config_cases h (st.scan stack) [] [] (by rw [happ]; exact hl) (.inl ⟨rfl, rfl⟩) with
    ⟨hno, f, σ', hb, hp⟩ | ⟨hsep, σ', ts', hr, hs⟩
  · rw [happ] at hb
    obtain ⟨p, st', hrun, -, hholds, hroot⟩ := parse_block hb
    refine .inl ⟨hno, p, st', f, hrun, fun hf => ?_, hp⟩
    rw [hroot hf, ← link_ne_nil hf]
    exact hholds.tree
  · rw [happ] at hr
    exact .inr ⟨hsep, parse_stuck hr hs⟩

end

/-- **When the parser follows the grammar**: for every stream within the size
limits. -/
theorem config_iff {τ : Type} (S : Source τ) (stack : Nat → Locals) (st : ParseState τ)
    (hl : WithinLimits S.fname stack (st.scan stack) (S.rest st.tok)) :
    FollowsGrammar S stack st ↔
      (Config (S.rest st.tok) ∧ ∀ t ∈ S.rest st.tok, ¬IsSep t) ∨
        Breaks S.fname stack (st.scan stack) (S.rest st.tok) ∧ Log.formatSafe S.fname = true := by
  constructor
  · intro hf
    by_cases hc : Config (S.rest st.tok)
    · obtain ⟨p, st', f, hrun, -⟩ := hf.accepts hc
      rcases parse_config hl hc with ⟨hno, -⟩ | ⟨-, hh⟩
      · exact .inl ⟨hc, hno⟩
      · exact absurd ⟨p, st', hrun⟩ hh.not_returned
    · have hfail := hf.rejects hc
      rcases parse_total S stack st with ⟨f, rest, σ', hb⟩ | ⟨σ', ts, hr, hs⟩ | ⟨σ', ts, hr, hbad⟩
      · obtain ⟨p, st', hrun, -⟩ := parse_block hb
        exact absurd hfail (Returned.not_fails ⟨p, st', hrun⟩)
      · exact absurd hfail (parse_stuck hr hs).not_fails
      · refine .inr ⟨⟨σ', ts, hr, hl.breaks hr.suffix hr hbad⟩, ?_⟩
        by_contra hname
        exact (parse_garbled hr ⟨hbad, .inl (eq_false_of_ne_true hname)⟩).not_fails hfail
  · rintro (⟨hc, hno⟩ | ⟨⟨σ', ts, hr, hbreak⟩, hname⟩)
    · refine ⟨fun _ => ?_, fun hnc => absurd hc hnc⟩
      rcases parse_config hl hc with ⟨-, p, st', f, hrun, htree, hp⟩ | ⟨⟨t, ht, hsep⟩, -⟩
      · refine ⟨p, st', f, hrun, htree, hp.trans (List.filter_eq_self.mpr fun t ht => ?_).symm⟩
        simpa using hno t ht
      · exact absurd hsep (hno t ht)
    · have hfail : Fails (fun k => parseSub S stack k) st := by
        refine parse_fails hr hbreak.fails ?_
        rintro ⟨-, hgarbled | ⟨pre, v, hlong, -⟩⟩
        · rw [hname] at hgarbled
          cases hgarbled
        · exact hl.not_long hr.suffix hr hlong
      refine ⟨fun hc => ?_, fun _ => hfail⟩
      rcases parse_config hl hc with ⟨-, p, st', f, hrun, -⟩ | ⟨-, hh⟩
      · exact absurd hfail (Returned.not_fails ⟨p, st', hrun⟩)
      · exact absurd hfail hh.not_fails

/-! ## Small streams -/

section
variable {fname : CStr} {stack : Nat → Locals} {σ σ' : Scan} {T T' : Tables} {f : Forest} {n s : CStr}
  {vs ts ts' rest : List CStr} {c : UInt8}

theorem Block.tableNext (h : Block fname stack σ f ts rest σ') :
    σ'.tbl.tableNext + 3 * rest.length ≤ σ.tbl.tableNext + 3 * ts.length := by
  induction h with
  | eof => exact Nat.le_refl _
  | close => simp only [List.length_cons]; omega
  | leaf head _ ih =>
    have h := head.tableNext
    simp only [List.cons_append, List.length_cons, List.length_append] at ih ⊢
    omega
  | block head _ _ ihs ih =>
    have h := head.tableNext
    simp only [Scan.enter, List.cons_append, List.length_cons, List.length_append] at ihs ih ⊢
    omega
  | lastLeaf head | lastBlock head =>
    have h := head.tableNext
    simp only [List.length_nil, List.length_singleton] at h ⊢
    omega

theorem Reaches.tableNext (h : Reaches fname stack σ ts σ' ts') :
    σ'.tbl.tableNext + 3 * ts'.length ≤ σ.tbl.tableNext + 3 * ts.length := by
  induction h with
  | refl => exact Nat.le_refl _
  | leaf head _ ih | sub head _ ih =>
    have h := head.tableNext
    simp only [Scan.enter, List.cons_append, List.length_cons, List.length_append] at ih ⊢
    omega
  | block head hb _ ih =>
    have h := head.tableNext
    have hb := hb.tableNext
    simp only [Scan.enter, List.cons_append, List.length_cons, List.length_append] at hb ih ⊢
    omega

/-- A stream of 85 tokens at most, with short words, is within the limits. -/
theorem limits_of_small (hfile : fname.length < parseStringMax)
    (hsize : σ.tbl.tableNext + 3 * ts.length ≤ parseTblTableSize) (hshort : ∀ tok ∈ ts, tok.length ≤ 254) :
    WithinLimits fname stack σ ts := by
  have hmax : parseStringMax = 256 := rfl
  refine ⟨hshort, fun σ' n rest hr _ hnone => ?_, fun σ' n vs v rest T hr head _ _ => ?_⟩
  · have hle := hr.tableNext
    have hn := hshort n (hr.suffix.subset (by simp))
    simp only [List.length_cons] at hle
    have hroom : σ'.tbl.tableNext + 3 ≤ parseTblTableSize := by omega
    obtain ⟨T₁, hT₁, -⟩ := addName_room (c := σ'.c) hfile (word_short hn) hroom
    rw [hT₁] at hnone
    cases hnone
  · have hle := hr.tableNext
    have h := head.tableNext
    have hv := hshort v (hr.suffix.subset (by simp))
    simp only [List.cons_append, List.length_cons, List.length_append] at hle
    exact add_room (by omega) (by omega)

end

/-- `host x { ip 10.0.0.1 ; }` is parsed. -/
theorem host_follows : FollowsGrammar (listSource (cstr "bootd.conf")) (fun _ => plainLocals)
    (startState plainForest.print (by decide)) := by
  refine (config_iff _ _ _ (limits_of_small (by decide) (by decide) (by decide))).mpr (.inl ⟨?_, by decide⟩)
  exact .block (by decide) (.one (by decide)) (by decide)
    (.leaf (by decide) (.one (by decide)) (by decide) .nil)
    (.leaf (by decide) (.one (by decide)) (by decide) .nil)

/-- **Counterexample**: what follows a stray `}` is dropped. -/
theorem stray_brace_dropped : ¬ ∀ (τ : Type) (S : Source τ) (stack : Nat → Locals) (st : ParseState τ),
    WithinLimits S.fname stack (st.scan stack) (S.rest st.tok) → FollowsGrammar S stack st := by
  intro hall
  let st := startState (tokClose :: [cstr "a", tokSemi]) (by decide)
  have hf := hall _ (listSource (cstr "bootd.conf")) (fun _ => plainLocals) st
    (limits_of_small (by decide) (by decide) (by decide))
  have hno : ¬Config (tokClose :: [cstr "a", tokSemi]) := by
    intro h
    generalize hts : tokClose :: [cstr "a", tokSemi] = ts at h
    cases h with
    | nil => cases hts
    | leaf hn => exact hn.1 (List.cons.inj hts).1.symm
    | block hn => exact hn.1 (List.cons.inj hts).1.symm
  have hb : Block (cstr "bootd.conf") (fun _ => plainLocals) (st.scan fun _ => plainLocals) .nil
      (tokClose :: [cstr "a", tokSemi]) _ _ := .close _ _
  obtain ⟨p, st', hrun, -⟩ := parse_block (S := listSource (cstr "bootd.conf")) hb
  exact absurd (hf.rejects hno) (Returned.not_fails ⟨p, st', hrun⟩)

end Bootd
