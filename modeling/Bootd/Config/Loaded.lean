import Bootd.Config.Marks
import Bootd.Config.Runs

/-!
# The entries of a file that was read

`Forest.entries lo f` are the records of a forest that the parser stored from
entry `lo` on, with their addresses. No two records have the same one
(`entries_distinct`), and no record is marked yet (`EvalState.start`).

* `Holds.entries`: what is stored behind these addresses.
* `entryIds_entries`: the addresses, without a gap.
* `Loads.short`: no string that the parser has stored is longer than 255 bytes.
-/
namespace Bootd

open Bootd.Core.Fuel

namespace Forest

/-- The records, at the addresses from `lo` on. -/
def entries : (lo : Nat) → Forest → List ConfEntry
  | _, .nil => []
  | lo, .leaf n vs f => ⟨lo, n, vs, []⟩ :: f.entries (lo + 1)
  | lo, .block n vs sub f => ⟨lo, n, vs, sub.entries (lo + 1)⟩ :: f.entries (lo + 1 + sub.size)

end Forest

/-- `parse_file` returns with the tables of `st`, and the forest `f` is in them. -/
structure Loads {τ : Type} (S : Source τ) (stack : Nat → Locals) (mem : EntId → Entry) (tok : τ) (f : Forest)
    (st : ParseState τ) : Prop where
  returns : ∃ fuel p, parseFile S stack mem tok fuel = .ok p st ∧ (f ≠ .nil → p = some 0)
  holds : Holds st.tbl.strings st.mem 0 f

/-- `parse_string_add` has taken them. -/
def Tables.Short (T : Tables) : Prop := ∀ s ∈ T.strings, s.length < parseStringMax

section
variable {strs : List CStr} {mem : EntId → Entry} {lo : Nat} {f : Forest} {e : ConfEntry}

theorem entryIds_entries (lo : Nat) (f : Forest) : entryIds (f.entries lo) = List.range' lo f.size := by
  induction f generalizing lo with
  | nil => rfl
  | leaf n vs f ih =>
    rw [Forest.entries, entryIds, ConfEntry.ids, entryIds, ih, Forest.size, List.range'_succ]
    rfl
  | block n vs sub f ihs ihf =>
    have hsize : sub.size + f.size + 1 = (sub.size + f.size).succ := rfl
    rw [Forest.entries, entryIds, ConfEntry.ids, ihs, ihf, Forest.size, hsize, List.range'_succ,
      ← List.range'_append_1]
    rfl

theorem entries_distinct (lo : Nat) (f : Forest) : Distinct (f.entries lo) := by
  unfold Distinct
  rw [entryIds_entries]
  exact List.nodup_range'

/-- Name and values are those behind the address, and a block is stored right behind its entry. -/
theorem Holds.entries (h : Holds strs mem lo f) (he : e ∈ f.entries lo) :
    (mem e.id).Is strs e.name e.values ∧ ∃ sub, e.sub = sub.entries (e.id + 1) ∧ Holds strs mem (e.id + 1) sub := by
  induction f generalizing lo with
  | nil => cases he
  | leaf n vs f ih =>
    obtain ⟨his, -, -, hf⟩ := h
    rcases List.mem_cons.mp he with rfl | he
    · exact ⟨his, .nil, rfl, trivial⟩
    · exact ih hf he
  | block n vs sub f _ ihf =>
    obtain ⟨his, -, -, hs, hf⟩ := h
    rcases List.mem_cons.mp he with rfl | he
    · exact ⟨his, sub, rfl, hs⟩
    · exact ihf hf he

/-! ## The strings -/

variable {fname : CStr} {stack : Nat → Locals} {T T' : Tables} {σ σ' : Scan} {n s : CStr} {vs ts rest : List CStr}
  {c : UInt8}

theorem add_strings (h : T.Short) (hadd : T.add s = some T') : T'.Short := by
  obtain ⟨p, hadd⟩ := add_some.mp hadd
  unfold Tables.stringAdd at hadd
  split at hadd
  · cases hadd
  · rename_i T₁ hroom
    have hs := (stringRoom_ok hroom).1
    have h₁ : T₁.Short := by
      unfold Tables.Short
      rw [hs]
      exact h
    split at hadd
    · cases hadd
    · rename_i hlen
      split at hadd
      · cases hadd
        exact h₁
      · cases hadd
        intro x hx
        rcases List.mem_append.mp hx with hx | hx
        · exact h₁ x hx
        · rw [List.mem_singleton.mp hx]
          exact Nat.lt_of_not_le hlen

theorem addValues_strings (h : T.Short) (hadd : T.addValues c vs = some T') : T'.Short := by
  induction vs generalizing T with
  | nil =>
    cases hadd
    exact h
  | cons v vs ih =>
    rw [addValues_cons] at hadd
    obtain ⟨T₁, hv, hvs⟩ := Option.bind_eq_some_iff.mp hadd
    obtain ⟨w, -, hw⟩ := Option.bind_eq_some_iff.mp hv
    exact ih (add_strings h hw) hvs

theorem Head.strings (head : Head fname σ n vs T) (h : σ.tbl.Short) : T.Short := by
  obtain ⟨T₂, hname, hvs⟩ := Option.bind_eq_some_iff.mp head.granted
  simp only [Tables.addName, Option.bind_eq_bind, Option.bind_eq_some_iff, Option.map_eq_some_iff] at hname
  obtain ⟨T₀, ⟨⟨e, T₀⟩, hnew, rfl⟩, T₁, ⟨w, -, hn⟩, hf⟩ := hname
  have h₀ : T₀.Short := by
    cases hentry : σ.tbl.entryNew with
    | error msg =>
      rw [hentry] at hnew
      cases hnew
    | ok r =>
      rw [hentry] at hnew
      cases hnew
      unfold Tables.Short
      rw [(entryNew_ok hentry).2.2]
      exact h
  exact addValues_strings (add_strings (add_strings h₀ hn) hf) hvs

theorem Block.strings (hb : Block fname stack σ f ts rest σ') (h : σ.tbl.Short) : σ'.tbl.Short := by
  induction hb with
  | eof => exact h
  | close => exact h
  | leaf head _ ih => exact ih (head.strings h)
  | block head _ _ ihs ih => exact ih (ihs (head.strings h))
  | lastLeaf head => exact head.strings h
  | lastBlock head => exact head.strings h

/-- A call of `parse_sub` that returns has read a block. -/
theorem parse_returns {τ : Type} {S : Source τ} {st st' : ParseState τ} {fuel : Nat} {p : Option EntId}
    (h : parseSub S stack fuel st = .ok p st') :
    ∃ f rest σ', Block S.fname stack (st.scan stack) f (S.rest st.tok) rest σ' ∧ st'.tbl = σ'.tbl := by
  rcases parse_total S stack st with ⟨f, rest, σ', hb⟩ | ⟨σ', ts, hr, hstuck⟩ | ⟨σ', ts, hr, hfails⟩
  · obtain ⟨st₁, hrun, hblock⟩ := block_run hb { st with calls := st.calls + 1 } (stack st.calls).w none
      (stack st.calls).result rfl rfl rfl rfl (by simp)
    rcases hrun.short fuel with hsame | ⟨s, hsame⟩
    · cases h.symm.trans hsame
      exact ⟨f, rest, σ', hb, hblock.tbl⟩
    · cases h.symm.trans hsame
  · obtain ⟨s, hs⟩ := parse_stuck hr hstuck fuel
    cases h.symm.trans hs
  · obtain ⟨r, st₁, hs⟩ := parse_stops hr hfails
    rcases hs.short fuel with hsame | ⟨s, hsame⟩
    · cases h.symm.trans hsame
    · cases h.symm.trans hsame

theorem Loads.short {τ : Type} {S : Source τ} {mem : EntId → Entry} {tok : τ} {st : ParseState τ}
    (h : Loads S stack mem tok f st) : st.tbl.Short := by
  obtain ⟨⟨fuel, p, hrun, -⟩, -⟩ := h
  obtain ⟨f, rest, σ', hb, htbl⟩ := parse_returns hrun
  rw [htbl]
  exact hb.strings fun s hs => nomatch hs

/-- The values of a stored entry. -/
theorem Holds.values_short {T : Tables} (hT : T.Short) (h : Holds T.strings mem lo f) (he : e ∈ f.entries lo) :
    ∀ v ∈ e.values, v.length < parseStringMax := by
  intro v hv
  obtain ⟨i, hi, rfl⟩ := List.mem_iff_getElem.mp hv
  have hstored := List.forall₂_iff_get.mp (h.entries he).1.values
  have hlt := hstored.1 ▸ hi
  exact hT _ (List.mem_of_getElem? (hstored.2 i hlt hi))

end
end Bootd
