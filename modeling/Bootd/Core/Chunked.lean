import Mathlib.Data.List.Basic

/-!
# Items in chunks

Items are put into chunks of `k` slots each, one behind the other; a new chunk is taken
when the last is full. The place of an item is its chunk and its slot.

* `place_inj`: no two items have one place.
* `place_prefix`: new chunks leave the places of the items alone.
* `Filled`: the fill count of the last chunk.
-/
namespace Bootd.Core.Chunked

variable {α : Type}

/-- The place of item `i`. -/
def place (k : Nat) (cs : List α) (i : Nat) : Option (α × Nat) := cs[i / k]?.map (·, i % k)

/-- There are `n` items in the chunks `cs`, the last `fill` of them in the last chunk. -/
structure Filled (k : Nat) (cs : List α) (n fill : Nat) : Prop where
  empty : cs = [] → n = 0
  count : cs ≠ [] → n + k = k * cs.length + fill ∧ fill ≤ k

section
variable {k n fill i j : Nat} {cs ds : List α} {a : α} {p : α × Nat}

/-! ## Places -/

theorem place_prefix (h : cs <+: ds) (hp : place k cs i = some p) : place k ds i = some p := by
  obtain ⟨es, rfl⟩ := h
  obtain ⟨b, hb, rfl⟩ := Option.map_eq_some_iff.mp hp
  have hlt := (List.getElem?_eq_some_iff.mp hb).1
  rw [place, List.getElem?_append_left hlt, hb]
  rfl

theorem place_mem (hp : place k cs i = some p) : p.1 ∈ cs := by
  obtain ⟨b, hb, rfl⟩ := Option.map_eq_some_iff.mp hp
  exact List.mem_of_getElem? hb

theorem place_slot (hk : 0 < k) (hp : place k cs i = some p) : p.2 < k := by
  obtain ⟨b, -, rfl⟩ := Option.map_eq_some_iff.mp hp
  exact Nat.mod_lt i hk

/-- **Two items have two places.** -/
theorem place_inj (hcs : cs.Nodup) (hi : place k cs i = some p) (hj : place k cs j = some p) : i = j := by
  obtain ⟨b, hb, rfl⟩ := Option.map_eq_some_iff.mp hi
  obtain ⟨c, hc, hpair⟩ := Option.map_eq_some_iff.mp hj
  obtain ⟨rfl, hmod⟩ := Prod.mk.inj hpair
  have hlt := (List.getElem?_eq_some_iff.mp hb).1
  have hdiv : i / k = j / k := (List.getElem?_inj hlt hcs).mp (hb.trans hc.symm)
  rw [← Nat.div_add_mod i k, hdiv, ← hmod, Nat.div_add_mod]

/-- The slots of the last chunk. -/
theorem place_last (hj : j < k) (cs : List α) (a : α) :
    place k (cs ++ [a]) (k * cs.length + j) = some (a, j) := by
  have hdiv : (k * cs.length + j) / k = cs.length := by
    rw [Nat.mul_add_div (by omega), Nat.div_eq_of_lt hj, Nat.add_zero]
  have hmod : (k * cs.length + j) % k = j := by rw [Nat.mul_add_mod, Nat.mod_eq_of_lt hj]
  rw [place, hdiv, hmod, List.getElem?_concat_length]
  rfl

/-! ## The fill count -/

theorem filled_nil : Filled k ([] : List α) 0 0 := ⟨fun _ => rfl, fun h => absurd rfl h⟩

theorem Filled.last (h : Filled k (cs ++ [a]) n fill) : n = k * cs.length + fill ∧ fill ≤ k := by
  obtain ⟨hn, hfill⟩ := h.count (List.concat_ne_nil a cs)
  rw [List.length_append, List.length_singleton, Nat.mul_add, Nat.mul_one] at hn
  omega

/-- The chunks are as full as they can be, where a new one is taken. -/
theorem Filled.full (h : Filled k cs n fill) (hfull : cs = [] ∨ fill = k) : n = k * cs.length := by
  by_cases hcs : cs = []
  · rw [h.empty hcs, hcs]
    rfl
  · obtain ⟨hn, -⟩ := h.count hcs
    rw [hfull.resolve_left hcs] at hn
    omega

/-- A new chunk. -/
theorem Filled.grow (h : Filled k cs n fill) (hfull : cs = [] ∨ fill = k) (a : α) : Filled k (cs ++ [a]) n 0 := by
  refine ⟨fun hnil => absurd hnil (List.concat_ne_nil a cs), fun _ => ?_⟩
  rw [List.length_append, List.length_singleton, Nat.mul_add, Nat.mul_one, h.full hfull]
  omega

/-- The next item is put into the last chunk. -/
theorem Filled.next (h : Filled k (cs ++ [a]) n fill) (hfill : fill < k) :
    Filled k (cs ++ [a]) (n + 1) (fill + 1) := by
  refine ⟨fun hnil => absurd hnil (List.concat_ne_nil a cs), fun _ => ?_⟩
  obtain ⟨hn, -⟩ := h.count (List.concat_ne_nil a cs)
  omega

/-- An item of the last chunk. -/
theorem Filled.place (h : Filled k (cs ++ [a]) n fill) (hj : j < k) :
    Chunked.place k (cs ++ [a]) (n - fill + j) = some (a, j) := by
  obtain ⟨hn, -⟩ := h.last
  rw [show n - fill = k * cs.length by omega]
  exact place_last hj cs a

/-- Where the next item is put. -/
theorem Filled.place_next (h : Filled k (cs ++ [a]) n fill) (hfill : fill < k) :
    Chunked.place k (cs ++ [a]) n = some (a, fill) := by
  obtain ⟨hn, -⟩ := h.last
  rw [hn]
  exact place_last hfill cs a

end
end Bootd.Core.Chunked
