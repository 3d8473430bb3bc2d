import Mathlib.Data.List.Nodup
import Mathlib.Data.List.Induction
import Mathlib.Data.List.TakeWhile

/-!
# Rows gathered by key

A table is filled entry by entry: an entry whose key has a row is put into that row, and
some entries open a row for a key that has none. The entries of a key count from the one
that opens its row on, whether those behind it could have opened it or not.

* `rows_eq`: the rows are the keys in the order of the entries that open them, each
  with all its entries that count.
* `rowsM_ok`, `rowsM_error`: when entries can be bad, the table is lost with the first
  bad one that counts, and with no other.
-/
namespace Bootd.Core.Gather

/-- How a table of rows `β` takes entries `α`. -/
structure Table (κ α β : Type*) where
  key : α → κ
  opens : α → Bool
  rowKey : β → κ
  fresh : κ → β
  put : β → α → β
  rowKey_fresh : ∀ k, rowKey (fresh k) = k
  rowKey_put : ∀ b a, rowKey (put b a) = rowKey b

variable {κ α β ε : Type*} [BEq κ] (T : Table κ α β) {as : List α} {a : α} {k : κ} {good : α → Bool}
  {e : ε}

namespace Table

def known (rows : List β) (a : α) : Bool := rows.any (T.rowKey · == T.key a)

/-- The first row of the key takes the entry. -/
def update (rows : List β) (a : α) : List β := rows.modify (rows.findIdx (T.rowKey · == T.key a)) (T.put · a)

def step (rows : List β) (a : α) : List β :=
  if T.known rows a then T.update rows a
  else if T.opens a then T.update (rows ++ [T.fresh (T.key a)]) a
  else rows

def rows (as : List α) : List β := as.foldl T.step []

/-- A bad entry that a row has to take ends it all. -/
def stepM (good : α → Bool) (e : ε) (rows : List β) (a : α) : Except ε (List β) :=
  if T.known rows a || T.opens a then
    if good a then .ok (T.step rows a) else .error e
  else .ok rows

def rowsM (good : α → Bool) (e : ε) (as : List α) : Except ε (List β) := as.foldlM (T.stepM good e) []

/-! ## What the table is -/

/-- The keys that get a row, in their order. -/
def keys (as : List α) : List κ := ((as.filter T.opens).map T.key).eraseDups

/-- The entries of a key that count. -/
def share (k : κ) (as : List α) : List α :=
  (as.dropWhile fun a => !(T.opens a && T.key a == k)).filter (T.key · == k)

def row (as : List α) (k : κ) : β := (T.share k as).foldl T.put (T.fresh k)

end Table

open Table

theorem rowKey_row : T.rowKey (T.row as k) = k := by
  have hput : ∀ (es : List α) (b : β), T.rowKey (es.foldl T.put b) = T.rowKey b := by
    intro es
    induction es with
    | nil => exact fun _ => rfl
    | cons a es ih => exact fun b => (ih _).trans (T.rowKey_put b a)
  rw [Table.row, hput, T.rowKey_fresh]

theorem rows_append : T.rows (as ++ [a]) = T.step (T.rows as) a := by
  rw [Table.rows, List.foldl_append]
  rfl

theorem rowsM_append : T.rowsM good e (as ++ [a]) = T.rowsM good e as >>= fun rows => T.stepM good e rows a := by
  rw [Table.rowsM, List.foldlM_append]
  simp [Table.rowsM]

variable [LawfulBEq κ]

theorem mem_keys : k ∈ T.keys as ↔ ∃ a ∈ as, T.opens a = true ∧ T.key a = k := by
  simp [Table.keys, List.mem_eraseDups, and_assoc]

theorem keys_append : T.keys (as ++ [a]) =
    if T.opens a = true ∧ T.key a ∉ T.keys as then T.keys as ++ [T.key a] else T.keys as := by
  rw [Table.keys, List.filter_append, List.map_append, List.eraseDups_append, ← Table.keys]
  by_cases ha : T.opens a = true
  · have hmem : T.key a ∈ (as.filter T.opens).map T.key ↔ T.key a ∈ T.keys as := List.mem_eraseDups.symm
    rw [List.filter_cons_of_pos ha, List.filter_nil, List.map_singleton]
    by_cases hk : T.key a ∈ T.keys as
    · simp [List.removeAll, hmem, hk]
    · simp [List.removeAll, hmem, hk, ha, List.eraseDups_cons]
  · simp [List.removeAll, ha]

theorem keys_nodup (as : List α) : (T.keys as).Nodup := by
  induction as using List.reverseRecOn with
  | nil => exact List.nodup_nil
  | append_singleton as a ih =>
    rw [keys_append]
    split_ifs with h
    · exact List.nodup_append.mpr ⟨ih, List.nodup_singleton _, fun x hx y hy => by
        rintro rfl
        exact h.2 (List.mem_singleton.mp hy ▸ hx)⟩
    · exact ih

/-- Of a key without a row, no entry counts. -/
theorem share_nil (h : k ∉ T.keys as) : T.share k as = [] := by
  have hnone : ∀ a ∈ as, (!(T.opens a && T.key a == k)) = true := by
    intro a ha
    by_contra hc
    exact h ((mem_keys T).mpr ⟨a, ha, by simpa using hc⟩)
  rw [Table.share, List.dropWhile_eq_nil_iff.mpr hnone, List.filter_nil]

theorem known_map {ks : List κ} {f : κ → β} (hf : ∀ k, T.rowKey (f k) = k) (a : α) :
    T.known (ks.map f) a = decide (T.key a ∈ ks) := by
  rw [Bool.eq_iff_iff, Table.known]
  simp [hf]

variable [DecidableEq κ]

theorem share_append : T.share k (as ++ [a]) =
    if T.key a = k ∧ (k ∈ T.keys as ∨ T.opens a = true) then T.share k as ++ [a] else T.share k as := by
  by_cases hk : k ∈ T.keys as
  · -- the entry that opens the row lies in `as`
    obtain ⟨b, hb, hab⟩ := (mem_keys T).mp hk
    have hne : as.dropWhile (fun a => !(T.opens a && T.key a == k)) ≠ [] := by
      intro hnil
      have := List.dropWhile_eq_nil_iff.mp hnil b hb
      simp [hab] at this
    unfold Table.share
    rw [List.dropWhile_append, if_neg (by simpa using hne), List.filter_append]
    by_cases ha : T.key a = k <;> simp [ha, hk]
  · rw [share_nil T hk]
    unfold Table.share
    rw [List.dropWhile_append_of_pos]
    · by_cases ha : T.key a = k <;> by_cases ho : T.opens a = true <;> simp [ha, ho, hk]
    · intro b hb
      by_contra hc
      exact hk ((mem_keys T).mpr ⟨b, hb, by simpa using hc⟩)

theorem mem_share_append {b : α} : b ∈ T.share k (as ++ [a]) ↔
    b ∈ T.share k as ∨ b = a ∧ T.key a = k ∧ (T.key a ∈ T.keys as ∨ T.opens a = true) := by
  rw [share_append]
  split_ifs with h
  · obtain ⟨rfl, h⟩ := h
    simp [h]
  · have hnot : ¬(T.key a = k ∧ (T.key a ∈ T.keys as ∨ T.opens a = true)) := by
      rintro ⟨rfl, h'⟩
      exact h ⟨rfl, h'⟩
    simp [hnot]

theorem keys_iff_share : k ∈ T.keys as ↔ T.share k as ≠ [] := by
  constructor
  · intro hk
    induction as using List.reverseRecOn with
    | nil => cases hk
    | append_singleton as a ih =>
      obtain ⟨b, hb, hopens, hkey⟩ := (mem_keys T).mp hk
      rcases List.mem_append.mp hb with hb | hb
      · obtain ⟨c, hc⟩ := List.exists_mem_of_ne_nil _ (ih ((mem_keys T).mpr ⟨b, hb, hopens, hkey⟩))
        exact List.ne_nil_of_mem ((mem_share_append T).mpr (.inl hc))
      · rw [List.mem_singleton] at hb
        subst hb
        exact List.ne_nil_of_mem ((mem_share_append T).mpr (.inr ⟨rfl, hkey, .inr hopens⟩))
  · intro h
    by_contra hk
    exact h (share_nil T hk)

theorem row_append : T.row (as ++ [a]) k =
    if T.key a = k ∧ (k ∈ T.keys as ∨ T.opens a = true) then T.put (T.row as k) a else T.row as k := by
  unfold Table.row
  rw [share_append]
  split_ifs
  · rw [List.foldl_append]
    rfl
  · rfl

/-- Among rows with different keys, only the one of the entry's key changes. -/
theorem update_map {ks : List κ} (hks : ks.Nodup) {f : κ → β} (hf : ∀ k, T.rowKey (f k) = k) (a : α) :
    T.update (ks.map f) a = ks.map fun k => if T.key a = k then T.put (f k) a else f k := by
  unfold Table.update
  induction ks with
  | nil => rfl
  | cons k ks ih =>
    obtain ⟨hk, hks⟩ := List.nodup_cons.mp hks
    by_cases ha : k = T.key a
    · subst ha
      have hrest : ∀ x ∈ ks, f x = if T.key a = x then T.put (f x) a else f x := by
        intro x hx
        rw [if_neg]
        rintro rfl
        exact hk hx
      simpa [List.findIdx_cons, hf] using hrest
    · have hk' : ¬T.key a = k := fun h => ha h.symm
      have hbeq : (k == T.key a) = false := beq_false_of_ne ha
      simpa [List.findIdx_cons, hf, hbeq, hk'] using ih hks

/-- The rows are the keys, each with its entries that count. -/
theorem rows_eq (as : List α) : T.rows as = (T.keys as).map (T.row as) := by
  induction as using List.reverseRecOn with
  | nil => rfl
  | append_singleton as a ih =>
    have hrow : ∀ k, T.rowKey (T.row as k) = k := fun k => rowKey_row T
    have hnil : T.key a ∉ T.keys as → T.row as (T.key a) = T.fresh (T.key a) := fun hk => by
      rw [Table.row, share_nil T hk, List.foldl_nil]
    rw [rows_append, ih, keys_append, Table.step, known_map T hrow]
    by_cases hk : T.key a ∈ T.keys as
    · rw [if_pos (decide_eq_true hk), update_map T (keys_nodup T as) hrow, if_neg fun h => h.2 hk]
      refine List.map_congr_left fun k hkk => ?_
      rw [row_append]
      simp [hkk]
    · rw [if_neg (by simpa using hk)]
      by_cases ha : T.opens a = true
      · rw [if_pos ha, if_pos ⟨ha, hk⟩, ← hnil hk, ← List.map_singleton (f := T.row as), ← List.map_append,
          update_map T _ hrow]
        · refine List.map_congr_left fun k _ => ?_
          rw [row_append]
          simp [ha]
        · have := keys_nodup T (as ++ [a])
          rwa [keys_append, if_pos ⟨ha, hk⟩] at this
      · rw [if_neg ha, if_neg fun h => ha h.1]
        refine List.map_congr_left fun k hkk => ?_
        rw [row_append, if_neg]
        rintro ⟨rfl, -⟩
        exact hk hkk

/-! ## Bad entries -/

/-- An entry counts when a row takes it. -/
theorem taken_iff : (T.known (T.rows as) a || T.opens a) = true ↔ T.key a ∈ T.keys as ∨ T.opens a = true := by
  rw [rows_eq, known_map T fun k => rowKey_row T, Bool.or_eq_true, decide_eq_true_eq]

theorem rowsM_ok (h : ∀ k, ∀ a ∈ T.share k as, good a = true) : T.rowsM good e as = .ok (T.rows as) := by
  induction as using List.reverseRecOn with
  | nil => rfl
  | append_singleton as a ih =>
    have hstep : T.rowsM good e (as ++ [a]) = T.stepM good e (T.rows as) a := by
      rw [rowsM_append, ih fun k b hb => h k b ((mem_share_append T).mpr (.inl hb))]
      rfl
    rw [hstep, rows_append, Table.stepM]
    split_ifs with ht hg
    · rfl
    · exact absurd (h _ a ((mem_share_append T).mpr (.inr ⟨rfl, rfl, (taken_iff T).mp ht⟩))) hg
    · have hk := Bool.or_eq_false_iff.mp (eq_false_of_ne_true ht)
      rw [Table.step, if_neg (by simp [hk.1]), if_neg (by simp [hk.2])]

theorem rowsM_error (h : ∃ k, ∃ a ∈ T.share k as, good a = false) : T.rowsM good e as = .error e := by
  induction as using List.reverseRecOn with
  | nil =>
    obtain ⟨k, a, ha, -⟩ := h
    cases ha
  | append_singleton as b ih =>
    rw [rowsM_append]
    by_cases hearlier : ∃ k, ∃ a ∈ T.share k as, good a = false
    · rw [ih hearlier]
      rfl
    · -- the bad one is the last entry
      have hall : ∀ k, ∀ a ∈ T.share k as, good a = true := by
        intro k a ha
        by_contra hg
        exact hearlier ⟨k, a, ha, eq_false_of_ne_true hg⟩
      obtain ⟨k, a, ha, hbad⟩ := h
      rcases (mem_share_append T).mp ha with hmem | ⟨rfl, -, ht⟩
      · rw [hall k a hmem] at hbad
        cases hbad
      · rw [rowsM_ok T hall]
        show T.stepM good e (T.rows as) a = _
        rw [Table.stepM, if_pos ((taken_iff T).mpr ht), if_neg (by simp [hbad])]

end Bootd.Core.Gather
