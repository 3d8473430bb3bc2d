import Bootd.Config.Parse

/-!
# What the parser reads

A `Forest` is a list of statements, each with its name, its values and, after a
`{`, the forest of its block. `print` writes one down.

A `Scan` is what reading so far leaves behind for the rest: the tables, the
number of calls, and byte 255 of the current `w`. `Head` says that a name and
its values can be read. From a stream of tokens the parser

* reads a block to its end (`Block`): to a `}`, or to the end of the file, which
  closes every block; a last lone `;` or `{` is a statement,
* or comes to a statement (`Reaches`) whose values a `,` or `|` interrupts
  (`StuckHere`),
* or comes to one it refuses (`FailsHere`): the tables are full, a word is too
  long, there are more than 32 values, or the file ends in the middle of it.

`scan_total`: one of the three is always the case.
-/
namespace Bootd

/-! ## Forests -/

inductive Forest
  | nil
  | leaf (name : CStr) (values : List CStr) (next : Forest)
  | block (name : CStr) (values : List CStr) (sub next : Forest)
  deriving DecidableEq

namespace Forest

/-- The number of entries. -/
def size : Forest → Nat
  | .nil => 0
  | .leaf _ _ f => f.size + 1
  | .block _ _ sub f => sub.size + f.size + 1

/-- `name values ;` and `name values { sub }`. -/
def print : Forest → List CStr
  | .nil => []
  | .leaf n vs f => n :: vs ++ tokSemi :: f.print
  | .block n vs sub f => n :: vs ++ tokOpen :: (sub.print ++ tokClose :: f.print)

end Forest

/-! ## Statements -/

/-- A token that is stored as a value. -/
def IsValue (v : CStr) : Prop := v ≠ tokOpen ∧ v ≠ tokSemi ∧ v ≠ tokComma ∧ v ≠ tokBar

def IsSep (v : CStr) : Prop := v = tokComma ∨ v = tokBar

instance (v : CStr) : Decidable (IsValue v) := inferInstanceAs (Decidable (_ ∧ _))

instance (v : CStr) : Decidable (IsSep v) := inferInstanceAs (Decidable (_ ∨ _))

/-- The string stored for a token. -/
def stored (c : UInt8) (tok : CStr) : CStr := (word c tok).getD tok

/-- What reading so far leaves behind. -/
structure Scan where
  c : UInt8
  calls : Nat
  tbl : Tables

/-- The start of a block. -/
def Scan.enter (stack : Nat → Locals) (σ : Scan) (T : Tables) : Scan :=
  ⟨(stack σ.calls).w.last, σ.calls + 1, T⟩

/-- The name and the values of a statement can be read. -/
structure Head (fname : CStr) (σ : Scan) (n : CStr) (vs : List CStr) (T : Tables) : Prop where
  name : n ≠ tokClose
  plain : ∀ v ∈ vs, IsValue v
  le : vs.length ≤ parseValuesMax
  granted : (σ.tbl.addName σ.c fname n).bind (·.addValues σ.c vs) = some T

section
variable (fname : CStr) (stack : Nat → Locals)

/-- From `ts`, the forest is read and `rest` is left. -/
inductive Block : Scan → Forest → List CStr → List CStr → Scan → Prop
  | eof (σ : Scan) : Block σ .nil [] [] σ
  | close (σ : Scan) (rest : List CStr) : Block σ .nil (tokClose :: rest) rest σ
  | leaf {σ σ' : Scan} {n : CStr} {vs : List CStr} {T : Tables} {f : Forest} {ts rest : List CStr} :
      Head fname σ n vs T → Block { σ with tbl := T } f ts rest σ' →
      Block σ (.leaf (stored σ.c n) (vs.map (stored σ.c)) f) (n :: vs ++ tokSemi :: ts) rest σ'
  | block {σ σ₁ σ' : Scan} {n : CStr} {vs : List CStr} {T : Tables} {sub f : Forest}
      {ts ts' rest : List CStr} :
      Head fname σ n vs T → Block (σ.enter stack T) sub ts ts' σ₁ →
      Block { σ₁ with c := σ.c } f ts' rest σ' →
      Block σ (.block (stored σ.c n) (vs.map (stored σ.c)) sub f) (n :: vs ++ tokOpen :: ts) rest σ'
  | lastLeaf {σ : Scan} {T : Tables} : Head fname σ tokSemi [] T →
      Block σ (.leaf tokSemi [] .nil) [tokSemi] [] { σ with tbl := T }
  | lastBlock {σ : Scan} {T : Tables} : Head fname σ tokOpen [] T →
      Block σ (.block tokOpen [] .nil .nil) [tokOpen] [] { σ with tbl := T, calls := σ.calls + 1 }

/-- Reading `ts`, the parser comes to the statement at the start of `ts'`. -/
inductive Reaches : Scan → List CStr → Scan → List CStr → Prop
  | refl (σ : Scan) (ts : List CStr) : Reaches σ ts σ ts
  | leaf {σ σ' : Scan} {n : CStr} {vs : List CStr} {T : Tables} {ts ts' : List CStr} :
      Head fname σ n vs T → Reaches { σ with tbl := T } ts σ' ts' →
      Reaches σ (n :: vs ++ tokSemi :: ts) σ' ts'
  | sub {σ σ' : Scan} {n : CStr} {vs : List CStr} {T : Tables} {ts ts' : List CStr} :
      Head fname σ n vs T → Reaches (σ.enter stack T) ts σ' ts' →
      Reaches σ (n :: vs ++ tokOpen :: ts) σ' ts'
  | block {σ σ₁ σ' : Scan} {n : CStr} {vs : List CStr} {T : Tables} {f : Forest}
      {ts ts₁ ts' : List CStr} :
      Head fname σ n vs T → Block fname stack (σ.enter stack T) f ts ts₁ σ₁ →
      Reaches { σ₁ with c := σ.c } ts₁ σ' ts' → Reaches σ (n :: vs ++ tokOpen :: ts) σ' ts'

/-- A separator comes where a value is expected. -/
inductive StuckHere : Scan → List CStr → Prop
  | value {σ : Scan} {n : CStr} {vs : List CStr} {T : Tables} {sep : CStr} (rest : List CStr) :
      Head fname σ n vs T → IsSep sep → StuckHere σ (n :: vs ++ sep :: rest)
  /-- the file ends after a name that is a separator -/
  | name {σ : Scan} {n : CStr} {T : Tables} : Head fname σ n [] T → IsSep n → StuckHere σ [n]

/-- The statement is refused. -/
inductive FailsHere : Scan → List CStr → Prop
  | name {σ : Scan} {n : CStr} (rest : List CStr) : n ≠ tokClose →
      σ.tbl.addName σ.c fname n = none → FailsHere σ (n :: rest)
  | value {σ : Scan} {n : CStr} {vs : List CStr} {T : Tables} {v : CStr} (rest : List CStr) :
      Head fname σ n vs T → IsValue v → vs.length = parseValuesMax ∨ (word σ.c v).bind T.add = none →
      FailsHere σ (n :: vs ++ v :: rest)
  | eof {σ : Scan} {n : CStr} {vs : List CStr} {T : Tables} : Head fname σ n vs T →
      IsValue (vs.getLastD n) → FailsHere σ (n :: vs)

end

/-! ## One of the three -/

section
variable {fname : CStr} {stack : Nat → Locals} {σ : Scan} {T : Tables} {c : UInt8} {ts : List CStr}

@[simp] theorem addValues_nil : T.addValues c [] = some T := rfl

@[simp] theorem addValues_cons (v : CStr) (vs : List CStr) :
    T.addValues c (v :: vs) = ((word c v).bind T.add).bind (·.addValues c vs) := by
  simp [Tables.addValues, List.foldlM_cons]

theorem addValues_append (vs vs' : List CStr) :
    T.addValues c (vs ++ vs') = (T.addValues c vs).bind (·.addValues c vs') := by
  simp [Tables.addValues, List.foldlM_append]

/-- The values up to the first token that cannot be stored as one. -/
theorem values_split (T : Tables) (c : UInt8) (k : Nat) (ts : List CStr) :
    ∃ vs ts' T', ts = vs ++ ts' ∧ (∀ v ∈ vs, IsValue v) ∧ vs.length ≤ k ∧ T.addValues c vs = some T' ∧
      ∀ d ∈ ts'.head?, ¬IsValue d ∨ vs.length = k ∨ (word c d).bind T'.add = none := by
  induction ts generalizing T k with
  | nil => exact ⟨[], [], T, rfl, by simp, Nat.zero_le k, rfl, by simp⟩
  | cons v ts ih =>
    by_cases hv : IsValue v ∧ k ≠ 0 ∧ (word c v).bind T.add ≠ none
    · obtain ⟨hp, hk, hadd⟩ := hv
      obtain ⟨T₁, hT₁⟩ := Option.ne_none_iff_exists'.mp hadd
      obtain ⟨vs, ts', T', rfl, hplain, hle, hvs, hend⟩ := ih T₁ (k - 1)
      refine ⟨v :: vs, ts', T', rfl, ?_, ?_, ?_, fun d hd => ?_⟩
      · simp only [List.mem_cons, forall_eq_or_imp]
        exact ⟨hp, hplain⟩
      · simp only [List.length_cons]; omega
      · rw [addValues_cons, hT₁]; exact hvs
      · rcases hend d hd with h | h | h
        · exact .inl h
        · exact .inr (.inl (by simp only [List.length_cons]; omega))
        · exact .inr (.inr h)
    · refine ⟨[], v :: ts, T, rfl, by simp, Nat.zero_le k, rfl, fun d hd => ?_⟩
      cases hd
      by_cases hp : IsValue v
      · by_cases hk : k = 0
        · exact .inr (.inl hk.symm)
        · exact .inr (.inr (not_not.mp fun hadd => hv ⟨hp, hk, hadd⟩))
      · exact .inl hp

theorem not_isValue {d : CStr} (h : ¬IsValue d) : d = tokOpen ∨ d = tokSemi ∨ IsSep d := by
  unfold IsValue at h
  unfold IsSep
  tauto

/-- A stream that starts with a statement: it is read up to its `;` or `{`, or
the parser gets no further. -/
theorem stmt_cases (fname : CStr) (σ : Scan) (n : CStr) (ts : List CStr) (hn : n ≠ tokClose) :
    (∃ vs T ts', Head fname σ n vs T ∧ (n :: ts = n :: vs ++ tokSemi :: ts' ∨
      n :: ts = n :: vs ++ tokOpen :: ts')) ∨
    (∃ T, Head fname σ n [] T ∧ ts = [] ∧ (n = tokSemi ∨ n = tokOpen)) ∨
    StuckHere fname σ (n :: ts) ∨ FailsHere fname σ (n :: ts) := by
  cases hname : σ.tbl.addName σ.c fname n with
  | none => exact .inr (.inr (.inr (.name ts hn hname)))
  | some T₀ =>
    obtain ⟨vs, ts', T, rfl, hplain, hle, hvs, hend⟩ := values_split T₀ σ.c parseValuesMax ts
    have head : Head fname σ n vs T := ⟨hn, hplain, hle, by rw [hname]; exact hvs⟩
    cases ts' with
    | nil =>
      rw [List.append_nil]
      by_cases hlast : IsValue (vs.getLastD n)
      · exact .inr (.inr (.inr (.eof head hlast)))
      · cases vs with
        | cons v vs =>
          refine absurd (hplain _ ?_) hlast
          rw [List.getLastD_eq_getLast?, List.getLast?_eq_some_getLast (List.cons_ne_nil v vs)]
          exact List.getLast_mem _
        | nil =>
          rcases not_isValue hlast with h | h | h
          · exact .inr (.inl ⟨T, head, rfl, .inr h⟩)
          · exact .inr (.inl ⟨T, head, rfl, .inl h⟩)
          · exact .inr (.inr (.inl (.name head h)))
    | cons d ts' =>
      by_cases hd : IsValue d
      · exact .inr (.inr (.inr (.value ts' head hd ((hend d rfl).resolve_left (not_not.mpr hd)))))
      · rcases not_isValue hd with rfl | rfl | h
        · exact .inl ⟨vs, T, ts', head, .inr rfl⟩
        · exact .inl ⟨vs, T, ts', head, .inl rfl⟩
        · exact .inr (.inr (.inl (.value ts' head h)))

/-- What is left is not longer. -/
theorem Block.length_le {σ' : Scan} {f : Forest} {rest : List CStr}
    (h : Block fname stack σ f ts rest σ') : rest.length ≤ ts.length := by
  induction h with
  | eof | lastLeaf | lastBlock => simp
  | close => simp
  | leaf _ _ ih => simp; omega
  | block _ _ _ ih ih' => simp; omega

/-- The block is read to its end, or the parser comes to a statement that it
cannot read. -/
theorem scan_total (fname : CStr) (stack : Nat → Locals) (σ : Scan) (ts : List CStr) :
    (∃ f rest σ', Block fname stack σ f ts rest σ') ∨
      ∃ σ' ts', Reaches fname stack σ ts σ' ts' ∧ (StuckHere fname σ' ts' ∨ FailsHere fname σ' ts') := by
  induction hlen : ts.length using Nat.strongRecOn generalizing σ ts with
  | ind k ih =>
    subst hlen
    cases ts with
    | nil => exact .inl ⟨_, _, _, .eof σ⟩
    | cons n ts =>
      by_cases hn : n = tokClose
      · rw [hn]
        exact .inl ⟨_, _, _, .close σ ts⟩
      rcases stmt_cases fname σ n ts hn with ⟨vs, T, ts', head, h⟩ | ⟨T, head, rfl, rfl | rfl⟩ | h | h
      · rcases h with h | h
        · rw [h]
          rcases ih ts'.length (by rw [h]; simp; omega) { σ with tbl := T } ts' rfl with
            ⟨f, rest, σ', hb⟩ | ⟨σ', ts₁, hr, hs⟩
          · exact .inl ⟨_, _, _, .leaf head hb⟩
          · exact .inr ⟨_, _, .leaf head hr, hs⟩
        · rw [h]
          rcases ih ts'.length (by rw [h]; simp; omega) (σ.enter stack T) ts' rfl with
            ⟨sub, ts₁, σ₁, hsub⟩ | ⟨σ', ts₁, hr, hs⟩
          · have hle := hsub.length_le
            rcases ih ts₁.length (by rw [h]; simp; omega) { σ₁ with c := σ.c } ts₁ rfl with
              ⟨f, rest, σ', hb⟩ | ⟨σ', ts₂, hr, hs⟩
            · exact .inl ⟨_, _, _, .block head hsub hb⟩
            · exact .inr ⟨_, _, .block head hsub hr, hs⟩
          · exact .inr ⟨_, _, .sub head hr, hs⟩
      · exact .inl ⟨_, _, _, .lastLeaf head⟩
      · exact .inl ⟨_, _, _, .lastBlock head⟩
      · exact .inr ⟨_, _, .refl _ _, .inl h⟩
      · exact .inr ⟨_, _, .refl _ _, .inr h⟩

end
end Bootd
