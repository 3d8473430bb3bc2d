import Bootd.Config.Runs

/-!
# Parsing undoes printing

`Tree` follows the pointers: the string table and the entries hold a forest from
a pointer on. For a forest that can be written down, `parse_sub` reads what
`Forest.print` wrote, up to and including the `}` that closes it, and returns a
pointer to that forest.

* `parse_print`: the round trip.
-/
namespace Bootd

open Bootd.Core
open Bootd.Core.Fuel

/-- The entry `p` points to, its siblings and their blocks hold the forest. A
block without statements is left out: its `sub` is what `result` was. -/
def Tree (strs : List CStr) (mem : EntId → Entry) : Forest → Option EntId → Prop
  | .nil, p => p = none
  | .leaf n vs f, p => ∃ e, p = some e ∧ (mem e).Is strs n vs ∧ (mem e).sub = none ∧
      Tree strs mem f (mem e).next
  | .block n vs sub f, p => ∃ e, p = some e ∧ (mem e).Is strs n vs ∧
      (sub ≠ .nil → Tree strs mem sub (mem e).sub) ∧ Tree strs mem f (mem e).next

namespace Forest

/-- What printing needs: names and values that are read back as such, and no
empty block. -/
def Printable : Forest → Prop
  | .nil => True
  | .leaf n vs f => (n ≠ tokClose ∧ n.length ≤ 254) ∧ (∀ v ∈ vs, IsValue v ∧ v.length ≤ 254) ∧
      vs.length ≤ parseValuesMax ∧ f.Printable
  | .block n vs sub f => (n ≠ tokClose ∧ n.length ≤ 254) ∧ (∀ v ∈ vs, IsValue v ∧ v.length ≤ 254) ∧
      vs.length ≤ parseValuesMax ∧ sub ≠ .nil ∧ sub.Printable ∧ f.Printable

instance decPrintable : (f : Forest) → Decidable f.Printable
  | .nil => .isTrue trivial
  | .leaf _ _ f => @instDecidableAnd _ _ _ (@instDecidableAnd _ _ _ (@instDecidableAnd _ _ _ (decPrintable f)))
  | .block _ _ sub f =>
    @instDecidableAnd _ _ _ (@instDecidableAnd _ _ _ (@instDecidableAnd _ _ _ (@instDecidableAnd _ _ _
      (@instDecidableAnd _ _ (decPrintable sub) (decPrintable f)))))

/-- The tables after the forest was stored, if they have room for it. -/
def store (fname : CStr) : Tables → Forest → Option Tables
  | T, .nil => some T
  | T, .leaf n vs f => do
    let T ← T.addName 0 fname n
    let T ← T.addValues 0 vs
    f.store fname T
  | T, .block n vs sub f => do
    let T ← T.addName 0 fname n
    let T ← T.addValues 0 vs
    let T ← sub.store fname T
    f.store fname T

/-- The number of blocks. -/
def blocks : Forest → Nat
  | .nil => 0
  | .leaf _ _ f => f.blocks
  | .block _ _ sub f => sub.blocks + f.blocks + 1

end Forest

section
variable {strs : List CStr} {mem : EntId → Entry} {f : Forest} {fname : CStr}

theorem Holds.tree {lo : Nat} (h : Holds strs mem lo f) : Tree strs mem f (f.link lo) := by
  induction f generalizing lo with
  | nil => rfl
  | leaf n vs f ih =>
    obtain ⟨his, hnext, hsub, hf⟩ := h
    exact ⟨lo, rfl, his, hsub, hnext ▸ ih hf⟩
  | block n vs sub f ihs ihf =>
    obtain ⟨his, hnext, hsub, hs, hf⟩ := h
    refine ⟨lo, rfl, his, fun hne => ?_, hnext ▸ ihf hf⟩
    rw [hsub hne, ← link_ne_nil hne]
    exact ihs hs

/-! ## Short words are stored as they are -/

theorem addName_short {T : Tables} {c : UInt8} {n : CStr} (h : n.length ≤ 254) :
    T.addName c fname n = T.addName 0 fname n := by
  unfold Tables.addName
  rw [word_short h, word_short h]

theorem addValues_short {T : Tables} {c : UInt8} {vs : List CStr} (h : ∀ v ∈ vs, v.length ≤ 254) :
    T.addValues c vs = T.addValues 0 vs := by
  induction vs generalizing T with
  | nil => rfl
  | cons v vs ih =>
    simp only [List.mem_cons, forall_eq_or_imp] at h
    simp only [addValues_cons, word_short h.1, ih h.2]

theorem stored_short {c : UInt8} {tok : CStr} (h : tok.length ≤ 254) : stored c tok = tok := by
  unfold stored
  rw [word_short h]
  rfl

theorem map_stored_short {c : UInt8} {vs : List CStr} (h : ∀ v ∈ vs, v.length ≤ 254) :
    vs.map (stored c) = vs := by
  rw [List.map_congr_left fun v hv => stored_short (h v hv), List.map_id']

/-- A statement that was printed. -/
theorem printed_head {σ : Scan} {n : CStr} {vs : List CStr} {T₁ T : Tables}
    (hn : n ≠ tokClose ∧ n.length ≤ 254) (hvs : ∀ v ∈ vs, IsValue v ∧ v.length ≤ 254)
    (hle : vs.length ≤ parseValuesMax) (hname : σ.tbl.addName 0 fname n = some T₁)
    (hvals : T₁.addValues 0 vs = some T) : Head fname σ n vs T := by
  refine ⟨hn.1, fun v hv => (hvs v hv).1, hle, ?_⟩
  rw [addName_short hn.2, hname]
  exact (addValues_short fun v hv => (hvs v hv).2).trans hvals

theorem print_leaf_append (n : CStr) (vs more : List CStr) (f : Forest) :
    (Forest.leaf n vs f).print ++ more = n :: vs ++ tokSemi :: (f.print ++ more) := by
  simp [Forest.print]

theorem print_block_append (n : CStr) (vs more : List CStr) (sub f : Forest) :
    (Forest.block n vs sub f).print ++ more =
      n :: vs ++ tokOpen :: (sub.print ++ tokClose :: (f.print ++ more)) := by
  simp [Forest.print]

/-- What was printed is read back, up to where the block ends. -/
theorem print_until (stack : Nat → Locals) (hf : f.Printable) (σ : Scan) (T : Tables)
    (hst : f.store fname σ.tbl = some T) {tail rest : List CStr}
    (hend : ∀ σ, Block fname stack σ .nil tail rest σ) :
    Block fname stack σ f (f.print ++ tail) rest ⟨σ.c, σ.calls + f.blocks, T⟩ := by
  induction f generalizing σ T tail rest with
  | nil =>
    cases hst
    exact hend σ
  | leaf n vs f ih =>
    obtain ⟨hn, hvs, hle, hf⟩ := hf
    simp only [Forest.store, Option.bind_eq_bind, Option.bind_eq_some_iff] at hst
    obtain ⟨T₁, hname, T₂, hvals, hst⟩ := hst
    have h := Block.leaf (printed_head hn hvs hle hname hvals) (ih hf { σ with tbl := T₂ } T hst hend)
    rw [stored_short hn.2, map_stored_short fun v hv => (hvs v hv).2] at h
    rw [print_leaf_append]
    exact h
  | block n vs sub f ihs ihf =>
    obtain ⟨hn, hvs, hle, -, hsub, hf⟩ := hf
    simp only [Forest.store, Option.bind_eq_bind, Option.bind_eq_some_iff] at hst
    obtain ⟨T₁, hname, T₂, hvals, T₃, hsubst, hst⟩ := hst
    -- the inner block is closed by its `}`
    have h := Block.block (printed_head hn hvs hle hname hvals)
      (ihs hsub (σ.enter stack T₂) T₃ hsubst fun σ => .close σ (f.print ++ tail))
      (ihf hf ⟨σ.c, σ.calls + 1 + sub.blocks, T₃⟩ T hst hend)
    rw [stored_short hn.2, map_stored_short fun v hv => (hvs v hv).2] at h
    rw [print_block_append]
    have hcalls : σ.calls + 1 + sub.blocks + f.blocks = σ.calls + (sub.blocks + f.blocks + 1) := by omega
    rw [Forest.blocks, ← hcalls]
    exact h

/-- What was printed is read back. -/
theorem print_block (stack : Nat → Locals) (hf : f.Printable) (σ : Scan) (T : Tables)
    (hst : f.store fname σ.tbl = some T) (more : List CStr) : Block fname stack σ f (f.print ++ tokClose :: more) more
      ⟨σ.c, σ.calls + f.blocks, T⟩ := print_until stack hf σ T hst fun σ => .close σ more

end

/-- **Parsing undoes printing**: for every forest that can be printed and that the
tables have room for. -/
theorem parse_print {τ : Type} (S : Source τ) (stack : Nat → Locals) (st : ParseState τ) (f : Forest)
    (more : List CStr) (hne : f ≠ .nil) (hf : f.Printable) (hroom : f.store S.fname st.tbl ≠ none)
    (hts : S.rest st.tok = f.print ++ tokClose :: more) :
    ∃ p st', Settles .fuel (fun k => parseSub S stack k) st (.ok p st') ∧
      Tree st'.tbl.strings st'.mem f p ∧ S.rest st'.tok = more := by
  obtain ⟨T, hT⟩ := Option.ne_none_iff_exists'.mp hroom
  have hblock := print_block stack hf (st.scan stack) T hT more
  rw [← hts] at hblock
  obtain ⟨p, st', hrun, hrest, hholds, hp⟩ := parse_block hblock
  refine ⟨p, st', hrun, ?_, hrest⟩
  rw [hp hne, ← link_ne_nil hne]
  exact hholds.tree

/-- `host x { ip 10.0.0.1 ; } chroot / ;`. -/
def plainForest : Forest :=
  .block (cstr "host") [cstr "x"] (.leaf (cstr "ip") [cstr "10.0.0.1"] .nil)
    (.leaf (cstr "chroot") [cstr "/"] .nil)

/-- The word behind the block stays unread. -/
theorem parse_print_host : ∃ p st', Settles .fuel
      (fun k => parseSub (listSource (cstr "bootd.conf")) (fun _ => plainLocals) k)
      (startState (plainForest.print ++ tokClose :: [cstr "x"]) (by decide)) (.ok p st') ∧
    Tree st'.tbl.strings st'.mem plainForest p ∧ st'.tok.1 = [cstr "x"] :=
  parse_print (listSource (cstr "bootd.conf")) _ (startState _ _) plainForest _ (by decide) (by decide)
    (by decide) rfl

end Bootd
