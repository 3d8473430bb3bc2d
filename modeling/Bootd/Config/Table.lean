import Bootd.Config.Source
import Bootd.Core.Fuel
import Mathlib.Logic.Function.Basic

/-!
# The tables behind the parser

Strings and entries are kept in chunks of 256. All chunks are listed in
`l_tbl_table`, which has room for 256 of them; that is the size limit of a
configuration. A string is looked up in the current chunk only before it is
stored. A pointer is the place of the string or entry among all those stored;
`malloc` is taken to succeed.

* `stringAdd_ok`, `entryNew_ok`: what is found behind the pointer returned.
* `Tables.addName`, `Tables.addValues`: whether the requests made for a
  statement are granted, and the tables afterwards.
-/
namespace Bootd

abbrev StrId := Nat
abbrev EntId := Nat

/-- mirrors src/genutil.h:234-243 (`parse_entry_t`); `values` are the pointers
below `values_next`. -/
structure Entry where
  name : Option StrId
  values : List StrId
  next : Option EntId
  sub : Option EntId
  processed : Bool
  line : Nat
  filename : Option StrId
  deriving DecidableEq

/-- After `memset`. -/
def Entry.zero : Entry := ⟨none, [], none, none, false, 0, none⟩

/-- `PARSE_TBL_TABLE_SIZE`, and the number of slots in a chunk. -/
def parseTblTableSize : Nat := 256

def parseTblStringSize : Nat := 256

def parseTblEntrySize : Nat := 256

/-- mirrors src/parse.c:15-26. `strings` are those of all chunks, `stringNext` of
them in the current one; `entries` is the number of entries. -/
structure Tables where
  strings : List CStr
  stringNext : Nat
  entries : Nat
  entryNext : Nat
  tableNext : Nat
  deriving DecidableEq

def Tables.empty : Tables := ⟨[], 0, 0, 0, 0⟩

def tblTableFull : CStr := cstr "running out of config entries, increase PARSE_TBL_TABLE_SIZE"

/-- The first string of the current chunk. -/
def Tables.chunk (T : Tables) : StrId := T.strings.length - T.stringNext

/-- A string chunk with a free slot. mirrors src/parse.c:80-89 -/
def Tables.stringRoom (T : Tables) : Except CStr Tables :=
  if T.strings = [] ∨ T.stringNext = parseTblStringSize then
    if T.tableNext = parseTblTableSize then .error tblTableFull
    else .ok { T with stringNext := 0, tableNext := T.tableNext + 1 }
  else .ok T

/-- `parse_string_add`. mirrors src/parse.c:71-107 -/
def Tables.stringAdd (T : Tables) (s : CStr) : Except CStr (StrId × Tables) :=
  match T.stringRoom with
  | .error msg => .error msg
  | .ok T =>
    if parseStringMax ≤ s.length then .error (cstr "oversized token: " ++ s.take (parseStringMax - 1))
    else match (T.strings.drop T.chunk).findIdx? (· == s) with
      | some i => .ok (T.chunk + i, T)
      | none =>
        .ok (T.strings.length, { T with strings := T.strings ++ [s], stringNext := T.stringNext + 1 })

/-- `parse_entry_new`. mirrors src/parse.c:109-134 -/
def Tables.entryNew (T : Tables) : Except CStr (EntId × Tables) :=
  if T.entries = 0 ∨ T.entryNext = parseTblEntrySize then
    if T.tableNext = parseTblTableSize then .error tblTableFull
    else .ok (T.entries,
      { T with entries := T.entries + 1, entryNext := 1, tableNext := T.tableNext + 1 })
  else .ok (T.entries, { T with entries := T.entries + 1, entryNext := T.entryNext + 1 })

/-! ## What a statement asks for -/

/-- The tables after a string was stored. -/
def Tables.add (T : Tables) (s : CStr) : Option Tables := (T.stringAdd s).toOption.map Prod.snd

/-- The tables after an entry, its name and the file's name. -/
def Tables.addName (T : Tables) (c : UInt8) (fname n : CStr) : Option Tables := do
  let T ← T.entryNew.toOption.map Prod.snd
  let T ← (word c n).bind T.add
  T.add fname

/-- The tables after a list of values. -/
def Tables.addValues (T : Tables) (c : UInt8) (vs : List CStr) : Option Tables :=
  vs.foldlM (fun T v => (word c v).bind T.add) T

section
variable {T T' : Tables} {s : CStr} {p : StrId} {e : EntId} {msg : CStr}

theorem stringRoom_ok (h : T.stringRoom = .ok T') :
    T'.strings = T.strings ∧ T'.entries = T.entries := by
  unfold Tables.stringRoom at h
  split at h
  · split at h
    · cases h
    · cases h; exact ⟨rfl, rfl⟩
  · cases h; exact ⟨rfl, rfl⟩

/-- The string behind the pointer is the one asked for, and the strings stored
before are kept. -/
theorem stringAdd_ok (h : T.stringAdd s = .ok (p, T')) :
    T'.strings[p]? = some s ∧ T.strings <+: T'.strings ∧ T'.entries = T.entries := by
  unfold Tables.stringAdd at h
  split at h
  · cases h
  · rename_i T₁ hroom
    obtain ⟨hs, he⟩ := stringRoom_ok hroom
    split at h
    · cases h
    · split at h
      · rename_i i hi
        cases h
        obtain ⟨hlt, heq, -⟩ := List.findIdx?_eq_some_iff_getElem.mp hi
        refine ⟨?_, hs ▸ List.prefix_refl _, he⟩
        rw [← List.getElem?_drop, List.getElem?_eq_getElem hlt, eq_of_beq heq]
      · cases h
        exact ⟨by simp, hs ▸ List.prefix_append _ _, he⟩

theorem entryNew_ok (h : T.entryNew = .ok (e, T')) :
    e = T.entries ∧ T'.entries = T.entries + 1 ∧ T'.strings = T.strings := by
  unfold Tables.entryNew at h
  split at h
  · split at h
    · cases h
    · cases h; exact ⟨rfl, rfl, rfl⟩
  · cases h; exact ⟨rfl, rfl, rfl⟩

theorem add_some : T.add s = some T' ↔ ∃ p, T.stringAdd s = .ok (p, T') := by
  unfold Tables.add
  cases h : T.stringAdd s with
  | error msg => simp [Except.toOption]
  | ok r =>
    obtain ⟨p, T₁⟩ := r
    simp [Except.toOption]

theorem add_none : T.add s = none ↔ ∃ msg, T.stringAdd s = .error msg := by
  unfold Tables.add
  cases h : T.stringAdd s <;> simp [Except.toOption]

/-- A string that does not fit is refused. -/
theorem stringAdd_oversized (h : parseStringMax ≤ s.length) : ∃ msg, T.stringAdd s = .error msg := by
  unfold Tables.stringAdd
  split
  · exact ⟨_, rfl⟩
  · rw [if_pos h]
    exact ⟨_, rfl⟩

end
end Bootd
