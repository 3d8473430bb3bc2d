import Bootd.Config.Parse
import Bootd.Core.Chunked
import Bootd.Core.Memory
import Bootd.Core.Slots
import Bootd.L2State.World

/-!
# The tables behind the parser, pointer by pointer (`parse.c`)

`Tables` has the strings of all chunks in one list. Here the chunks are what `malloc`
has handed out: blocks of bytes and of entries, with whatever they held before, and
`l_tbl_table` is a block too, with the pointers to the others. The calls of `malloc` and
`free` are recorded. To use a block that was freed, or to leave one, is a fault.

* `parseStringAdd`, `parseEntryNew`, `parseCleanup`: the functions of the source.
* `recordChunk_run`: a new block is entered into the table.
-/
namespace Bootd.Chunks

open Bootd.Core Bootd.Core.Exec

abbrev Addr := Nat

/-- A slot of a chunk. -/
structure Ptr where
  chunk : Addr
  slot : Nat
  deriving DecidableEq

/-- mirrors src/genutil.h:234-243 (`parse_entry_t`) -/
structure ParseEntry where
  name : Option Ptr
  values : List (Option Ptr)
  valuesNext : Int
  next : Option Ptr
  sub : Option Ptr
  processed : Int
  line : Int
  filename : Option Ptr

/-- After `memset`. -/
def ParseEntry.zero : ParseEntry := ⟨none, List.replicate parseValuesMax none, 0, none, none, 0, 0, none⟩

/-- What `malloc` hands out. -/
inductive Block
  | table (slots : List (Option Addr))
  | strings (bytes : Nat → UInt8)
  | entries (es : Nat → ParseEntry)

/-- mirrors src/parse.c:21-26 -/
structure Mem where
  blocks : List (Option Block)
  lTblTable : Option Addr
  lTblString : Option Addr
  lTblEntry : Option Addr
  lTblTableNext : Nat
  lTblStringNext : Nat
  lTblEntryNext : Nat
  /-- the results of the calls of `malloc` -/
  allocated : List Addr
  /-- the calls of `free` -/
  freed : List Addr

/-- What a block holds when it is handed out. -/
structure Junk where
  bytes : Addr → Nat → UInt8
  entries : Addr → Nat → ParseEntry

inductive Stop
  /-- `gen_tokenize_error` -/
  | exit (msg : CStr)
  | fault (f : Fault)
  deriving DecidableEq

abbrev CM := EStateM Stop Mem

/-! ## Blocks -/

def Mem.block (m : Mem) (a : Addr) : Option Block := Slots.get m.blocks a

def Mem.setBlock (m : Mem) (a : Addr) (b : Block) : Mem :=
  { m with blocks := Slots.update m.blocks a fun _ => b }

/-- The block handed out next. -/
def Mem.fresh (m : Mem) : Nat := m.blocks.length

def Mem.malloc (m : Mem) (b : Block) : Mem :=
  { m with blocks := Slots.push m.blocks b, allocated := m.allocated ++ [m.fresh] }

def Mem.free (m : Mem) (a : Addr) : Mem :=
  { m with blocks := Slots.clear m.blocks a, freed := m.freed ++ [a] }

/-- `l_tbl_table[l_tbl_table_next++] = a;` with the table at `t`. -/
def Mem.record (m : Mem) (t : Addr) (slots : List (Option Addr)) (a : Addr) : Mem :=
  { m.setBlock t (.table (slots.set m.lTblTableNext (some a))) with lTblTableNext := m.lTblTableNext + 1 }

/-- The string behind a pointer. -/
def Mem.stringAt (m : Mem) (p : Ptr) : Option CStr :=
  match m.block p.chunk with
  | some (.strings bytes) => Memory.scan bytes (parseTblStringSize * p.slot) parseStringMax
  | _ => none

/-- The entry behind a pointer. -/
def Mem.entryAt (m : Mem) (p : Ptr) : Option ParseEntry :=
  match m.block p.chunk with
  | some (.entries es) => if p.slot < parseTblEntrySize then some (es p.slot) else none
  | _ => none

def loadTable (a : Addr) : CM (List (Option Addr)) := do
  match (← get).block a with
  | some (.table slots) => pure slots
  | _ => throw (.fault .uaf)

def loadStrings (a : Addr) : CM (Nat → UInt8) := do
  match (← get).block a with
  | some (.strings bytes) => pure bytes
  | _ => throw (.fault .uaf)

def loadEntries (a : Addr) : CM (Nat → ParseEntry) := do
  match (← get).block a with
  | some (.entries es) => pure es
  | _ => throw (.fault .uaf)

/-- `free(a);` -/
def free (a : Addr) : CM Unit := do
  match (← get).block a with
  | some _ => modify (·.free a)
  | none => throw (.fault .uaf)

def recordChunk (a : Addr) : CM Unit := do
  let m ← get
  match m.lTblTable with
  | none => throw (.fault .segv)
  | some t =>
    let slots ← loadTable t
    if m.lTblTableNext < slots.length then set (m.record t slots a)
    else throw (.fault .segv)

/-! ## The functions -/

def tblTableNull : CStr := cstr "l_tbl_table == NULL"

/-- `strerror(errno)` after `malloc` has failed. -/
def enomem : CStr := cstr "Cannot allocate memory"

/-- The table, empty. mirrors src/parse.c:36-37 -/
def parseTables : CM Unit := do
  let m ← get
  set { m.malloc (.table (List.replicate parseTblTableSize none)) with lTblTable := some m.fresh }

/-- `strcmp(s, bytes + p) == 0` -/
def strcmpEq (bytes : Nat → UInt8) (p : Nat) (s : CStr) : Bool := Memory.scan bytes p (s.length + 1) == some s

/-- mirrors src/parse.c:80-89 -/
def stringRoom (env : Junk) : CM Unit := do
  let m ← get
  if m.lTblString = none ∨ m.lTblStringNext = parseTblStringSize then
    if m.lTblTableNext = parseTblTableSize then throw (.exit tblTableFull)
    else
      set { m.malloc (.strings (env.bytes m.fresh)) with lTblString := some m.fresh, lTblStringNext := 0 }
      recordChunk m.fresh
  else pure ()

/-- `strcpy` into a slot. -/
def strcpySlot (a : Addr) (i : Nat) (s : CStr) : CM Unit := do
  let bytes ← loadStrings a
  let p := parseTblStringSize * i
  if p + s.length < parseStringMax * parseTblStringSize then
    modify (·.setBlock a (.strings (Memory.after (Memory.along p (s ++ [0])) bytes)))
  else throw (.fault .segv)

/-- mirrors src/parse.c:71-107 -/
def parseStringAdd (env : Junk) (s : CStr) : CM Ptr := do
  if (← get).lTblTable = none then throw (.exit tblTableNull)
  else
    stringRoom env
    let m ← get
    match m.lTblString with
    | none => throw (.exit enomem)
    | some a =>
      if parseStringMax ≤ s.length then throw (.exit (cstr "oversized token: " ++ s.take (parseStringMax - 1)))
      else
        let bytes ← loadStrings a
        match (List.range m.lTblStringNext).find? fun i => strcmpEq bytes (parseTblStringSize * i) s with
        | some i => pure ⟨a, i⟩
        | none =>
          strcpySlot a m.lTblStringNext s
          modify fun m => { m with lTblStringNext := m.lTblStringNext + 1 }
          pure ⟨a, m.lTblStringNext⟩

/-- mirrors src/parse.c:117-126 -/
def entryRoom (env : Junk) : CM Unit := do
  let m ← get
  if m.lTblEntry = none ∨ m.lTblEntryNext = parseTblEntrySize then
    if m.lTblTableNext = parseTblTableSize then throw (.exit tblTableFull)
    else
      set { m.malloc (.entries (env.entries m.fresh)) with lTblEntry := some m.fresh, lTblEntryNext := 0 }
      recordChunk m.fresh
  else pure ()

/-- A store to an entry. -/
def storeEntry (p : Ptr) (e : ParseEntry) : CM Unit := do
  let es ← loadEntries p.chunk
  if p.slot < parseTblEntrySize then
    modify (·.setBlock p.chunk (.entries (Function.update es p.slot e)))
  else throw (.fault .segv)

/-- mirrors src/parse.c:109-134 -/
def parseEntryNew (env : Junk) : CM Ptr := do
  if (← get).lTblTable = none then throw (.exit tblTableNull)
  else
    entryRoom env
    let m ← get
    match m.lTblEntry with
    | none => throw (.exit enomem)
    | some a =>
      modify fun m => { m with lTblEntryNext := m.lTblEntryNext + 1 }
      storeEntry ⟨a, m.lTblEntryNext⟩ .zero
      pure ⟨a, m.lTblEntryNext⟩

/-- mirrors src/parse.c:53-57 -/
def freeChunk (t : Addr) (i : Nat) : CM Unit := do
  let slots ← loadTable t
  match slots[i]? with
  | some (some a) => free a
  | some none => pure ()
  | none => throw (.fault .segv)

/-- mirrors src/parse.c:45-65 -/
def parseCleanup : CM Unit := do
  match (← get).lTblTable with
  | none => pure ()
  | some t =>
    (List.range parseTblTableSize).forM (freeChunk t)
    free t
    modify fun m => { m with
      lTblTable := none, lTblTableNext := 0, lTblString := none, lTblStringNext := 0,
      lTblEntry := none, lTblEntryNext := 0 }

/-! ## The table -/

/-- The slots of the table, with the `n` blocks from `s` on. -/
def chunkSlots (s n : Nat) : List (Option Addr) :=
  (List.range' s n).map some ++ List.replicate (parseTblTableSize - n) none

/-- The blocks handed out since `m₀`: the table, and `n` chunks that are entered into it. -/
structure Registry (m₀ m : Mem) (n : Nat) : Prop where
  table : m.lTblTable = some m₀.fresh
  next : m.lTblTableNext = n
  slots : m.block m₀.fresh = some (.table (chunkSlots (m₀.fresh + 1) n))
  room : n ≤ parseTblTableSize
  fresh : m.fresh = m₀.fresh + 1 + n
  allocated : m.allocated = m₀.allocated ++ List.range' m₀.fresh (n + 1)
  freed : m.freed = m₀.freed
  old : ∀ a < m₀.fresh, m.block a = m₀.block a

section
variable {m₀ m m' : Mem} {a t n : Nat} {b b' : Block} {slots : List (Option Addr)} {bytes : Nat → UInt8}
  {es : Nat → ParseEntry}

theorem block_setBlock (m : Mem) (t : Nat) (b : Block) (a : Nat) :
    (m.setBlock t b).block a = if a = t then (m.block a).map fun _ => b else m.block a :=
  Slots.get_update _ _ _ _

theorem block_setBlock_self (h : m.block a = some b') : (m.setBlock a b).block a = some b := by
  rw [block_setBlock, if_pos rfl, h]
  rfl

theorem block_setBlock_of_ne (h : a ≠ t) : (m.setBlock t b).block a = m.block a := by
  rw [block_setBlock, if_neg h]

@[simp] theorem fresh_setBlock : (m.setBlock t b).fresh = m.fresh := List.length_modify ..

theorem block_malloc (m : Mem) (b : Block) (a : Nat) :
    (m.malloc b).block a = if a = m.fresh then some b else m.block a := Slots.get_push _ _ _

theorem block_free (m : Mem) (t a : Nat) : (m.free t).block a = if a = t then none else m.block a :=
  Slots.get_clear _ _ _

theorem loadTable_run (h : m.block a = some (.table slots)) : loadTable a m = .ok slots m := by
  unfold loadTable
  rw [get_run, h]
  rfl

theorem loadStrings_run (h : m.block a = some (.strings bytes)) : loadStrings a m = .ok bytes m := by
  unfold loadStrings
  rw [get_run, h]
  rfl

theorem loadEntries_run (h : m.block a = some (.entries es)) : loadEntries a m = .ok es m := by
  unfold loadEntries
  rw [get_run, h]
  rfl

theorem free_run (h : m.block a = some b) : free a m = .ok () (m.free a) := by
  unfold free
  rw [get_run, h]
  rfl

/-- The registry goes by the blocks up to the table, and by what was handed out. -/
theorem Registry.congr (h : Registry m₀ m n) (htable : m'.lTblTable = m.lTblTable)
    (hnext : m'.lTblTableNext = m.lTblTableNext) (hfresh : m'.fresh = m.fresh) (halloc : m'.allocated = m.allocated)
    (hfreed : m'.freed = m.freed) (hblock : ∀ a ≤ m₀.fresh, m'.block a = m.block a) : Registry m₀ m' n where
  table := htable.trans h.table
  next := hnext.trans h.next
  slots := (hblock _ (Nat.le_refl _)).trans h.slots
  room := h.room
  fresh := hfresh.trans h.fresh
  allocated := halloc.trans h.allocated
  freed := hfreed.trans h.freed
  old a ha := (hblock a ha.le).trans (h.old a ha)

theorem Registry.table_ne (h : Registry m₀ m n) : m.lTblTable ≠ none := by
  rw [h.table]
  exact Option.some_ne_none _

/-- The table is not the block handed out next. -/
theorem Registry.fresh_ne (h : Registry m₀ m n) : m.fresh ≠ m₀.fresh := by
  have := h.fresh
  omega

theorem chunkSlots_length (s : Nat) (h : n ≤ parseTblTableSize) : (chunkSlots s n).length = parseTblTableSize := by
  rw [chunkSlots, List.length_append, List.length_map, List.length_range', List.length_replicate]
  omega

/-- One slot more is in use. -/
theorem chunkSlots_set (s : Nat) (h : n < parseTblTableSize) :
    (chunkSlots s n).set n (some (s + n)) = chunkSlots s (n + 1) := by
  have hlen : ((List.range' s n).map (some : Nat → Option Nat)).length = n := by simp
  unfold chunkSlots
  rw [List.set_append_right _ _ hlen.le, hlen, Nat.sub_self,
    show parseTblTableSize - n = parseTblTableSize - (n + 1) + 1 by omega, List.replicate_succ,
    List.set_cons_zero, List.range'_concat, List.map_append, List.append_assoc, Nat.one_mul]
  rfl

/-- **A new chunk** is entered into the table. `m'` differs from `m` by the block handed out, and by what the
registry does not look at. -/
theorem recordChunk_run (h : Registry m₀ m n) (hn : n < parseTblTableSize) (b : Block) (m' : Mem)
    (hblocks : m'.blocks = (m.malloc b).blocks)
    (hrest : m'.allocated = (m.malloc b).allocated ∧ m'.freed = m.freed ∧ m'.lTblTable = m.lTblTable ∧
      m'.lTblTableNext = m.lTblTableNext) :
    ∃ slots, recordChunk m.fresh m' = .ok () (m'.record m₀.fresh slots m.fresh) ∧
      Registry m₀ (m'.record m₀.fresh slots m.fresh) (n + 1) ∧
      ∀ a ≠ m₀.fresh, (m'.record m₀.fresh slots m.fresh).block a = if a = m.fresh then some b else m.block a := by
  obtain ⟨halloc, hfreed, htable, hnext⟩ := hrest
  have hblock : ∀ a, m'.block a = if a = m.fresh then some b else m.block a := by
    intro a
    rw [← block_malloc, Mem.block, hblocks]
    rfl
  have hslots := (hblock m₀.fresh).trans ((if_neg h.fresh_ne.symm).trans h.slots)
  have hnext' : m'.lTblTableNext = n := hnext.trans h.next
  refine ⟨chunkSlots (m₀.fresh + 1) n, ?_, ?_, fun a ha => ?_⟩
  · unfold recordChunk
    rw [get_run, htable, h.table]
    show (loadTable m₀.fresh >>= _) m' = _
    have hlt : m'.lTblTableNext < (chunkSlots (m₀.fresh + 1) n).length := by
      rw [hnext', chunkSlots_length _ hn.le]
      exact hn
    rw [bind_run (loadTable_run hslots), if_pos hlt]
    rfl
  · have hfresh : m'.fresh = m.fresh + 1 := by
      rw [Mem.fresh, hblocks]
      exact List.length_append
    constructor
    · exact htable.trans h.table
    · exact congrArg (· + 1) hnext'
    · refine (block_setBlock_self hslots).trans ?_
      rw [hnext', h.fresh, chunkSlots_set _ hn]
    · exact hn
    · refine fresh_setBlock.trans (hfresh.trans ?_)
      rw [h.fresh]
      rfl
    · refine halloc.trans ?_
      show m.allocated ++ [m.fresh] = _
      rw [h.allocated, h.fresh, List.append_assoc, List.range'_concat (n := n + 1), Nat.one_mul, Nat.add_assoc,
        Nat.add_comm 1]
    · exact hfreed.trans h.freed
    · intro a ha
      have hm := h.fresh
      refine (block_setBlock_of_ne ha.ne).trans ((hblock a).trans ?_)
      rw [if_neg (show a ≠ m.fresh by omega), h.old a ha]
  · exact (block_setBlock_of_ne ha).trans (hblock a)

/-- The table of `parse_file`. -/
theorem parseTables_run (m₀ : Mem) (hnext : m₀.lTblTableNext = 0) : ∃ m, parseTables m₀ = .ok () m ∧
    Registry m₀ m 0 ∧ m.lTblString = m₀.lTblString ∧ m.lTblStringNext = m₀.lTblStringNext ∧
    m.lTblEntry = m₀.lTblEntry ∧ m.lTblEntryNext = m₀.lTblEntryNext := by
  refine ⟨_, rfl, ?_, rfl, rfl, rfl, rfl⟩
  constructor
  · rfl
  · exact hnext
  · exact (block_malloc _ _ _).trans (if_pos rfl)
  · exact Nat.zero_le _
  · exact List.length_append
  · rfl
  · rfl
  · exact fun a ha => (block_malloc _ _ _).trans (if_neg ha.ne)

end
end Bootd.Chunks
