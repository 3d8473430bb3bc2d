import Bootd.Config.Grammar

/-!
# Room in the tables

A string or an entry takes a new chunk at most, so three are enough for a
statement without values, and one more for each value.

* `Head.tableNext`: how many chunks a statement takes.
* `add_room`, `addName_room`: there is room while there are chunks.
-/
namespace Bootd

section
variable {fname : CStr} {σ : Scan} {T T' : Tables} {n s : CStr} {vs : List CStr} {c : UInt8}

theorem stringRoom_tableNext (h : T.stringRoom = .ok T') : T'.tableNext ≤ T.tableNext + 1 := by
  unfold Tables.stringRoom at h
  split at h
  · split at h
    · cases h
    · cases h; exact Nat.le_refl _
  · cases h; exact Nat.le_succ _

theorem add_tableNext (h : T.add s = some T') : T'.tableNext ≤ T.tableNext + 1 := by
  obtain ⟨p, h⟩ := add_some.mp h
  unfold Tables.stringAdd at h
  split at h
  · cases h
  · rename_i T₁ hroom
    have hle := stringRoom_tableNext hroom
    split at h
    · cases h
    · split at h <;> · cases h; exact hle

theorem addName_tableNext (h : T.addName c fname n = some T') : T'.tableNext ≤ T.tableNext + 3 := by
  simp only [Tables.addName, Option.bind_eq_bind, Option.bind_eq_some_iff, Option.map_eq_some_iff] at h
  obtain ⟨T₁, ⟨⟨e, T₁'⟩, hnew, rfl⟩, T₂, ⟨w, -, hn⟩, hf⟩ := h
  have h₁ : T₁'.tableNext ≤ T.tableNext + 1 := by
    unfold Tables.entryNew at hnew
    split at hnew
    · split at hnew
      · cases hnew
      · cases hnew; exact Nat.le_refl _
    · cases hnew; exact Nat.le_succ _
  have h₂ : T₂.tableNext ≤ T₁'.tableNext + 1 := add_tableNext hn
  have h₃ := add_tableNext hf
  omega

theorem addValues_tableNext (h : T.addValues c vs = some T') : T'.tableNext ≤ T.tableNext + vs.length := by
  induction vs generalizing T with
  | nil => cases h; exact Nat.le_refl _
  | cons v vs ih =>
    rw [addValues_cons] at h
    obtain ⟨T₁, hv, hvs⟩ := Option.bind_eq_some_iff.mp h
    obtain ⟨w, -, hw⟩ := Option.bind_eq_some_iff.mp hv
    have h₁ := add_tableNext hw
    have h₂ := ih hvs
    simp only [List.length_cons]
    omega

theorem Head.tableNext (h : Head fname σ n vs T) : T.tableNext ≤ σ.tbl.tableNext + 3 + vs.length := by
  obtain ⟨T₁, hname, hvals⟩ := Option.bind_eq_some_iff.mp h.granted
  have h₁ := addName_tableNext hname
  have h₂ := addValues_tableNext hvals
  omega

theorem entryNew_room (hT : T.tableNext < parseTblTableSize) :
    ∃ T₁, T.entryNew = .ok (T.entries, T₁) ∧ T₁.tableNext ≤ T.tableNext + 1 := by
  unfold Tables.entryNew
  split
  · rw [if_neg (by omega)]; exact ⟨_, rfl, Nat.le_refl _⟩
  · exact ⟨_, rfl, Nat.le_succ _⟩

theorem add_room (hT : T.tableNext < parseTblTableSize) (hs : s.length < parseStringMax) :
    T.add s ≠ none := by
  intro h
  obtain ⟨msg, h⟩ := add_none.mp h
  unfold Tables.stringAdd at h
  split at h
  · rename_i hroom
    unfold Tables.stringRoom at hroom
    split at hroom
    · rw [if_neg hT.ne] at hroom
      cases hroom
    · cases hroom
  · rw [if_neg (not_le.mpr hs)] at h
    split at h <;> cases h

theorem word_length (h : word c n = some s) : s.length < parseStringMax := by
  unfold word parseStringMax at *
  split at h
  · cases h; omega
  · split at h
    · cases h; simp
    · cases h

/-- A name that is not too long. -/
theorem addName_room (hfile : fname.length < parseStringMax) (hn : word c n = some s)
    (hT : T.tableNext + 3 ≤ parseTblTableSize) :
    ∃ T', T.addName c fname n = some T' ∧ T'.tableNext ≤ T.tableNext + 3 := by
  obtain ⟨T₁, hnew, hT₁⟩ := entryNew_room (T := T) (by omega)
  obtain ⟨T₂, hT₂⟩ := Option.ne_none_iff_exists'.mp (add_room (T := T₁) (by omega) (word_length hn))
  have h₂ := add_tableNext hT₂
  obtain ⟨T₃, hT₃⟩ := Option.ne_none_iff_exists'.mp (add_room (T := T₂) (by omega) hfile)
  have h : T.addName c fname n = some T₃ := by
    simp [Tables.addName, hnew, Except.toOption, hn, hT₂, hT₃]
  exact ⟨T₃, h, addName_tableNext h⟩

end
end Bootd
