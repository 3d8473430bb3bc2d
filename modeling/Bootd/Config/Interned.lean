import Bootd.Config.ChunkTables
import Mathlib.Data.List.Perm.Basic

/-!
# Strings and entries stay where they are

The parser asks for strings and entries in any order, and fills in the entries in
between; at the end `parse_cleanup` gives everything back. `run` is the table of
`parse_file` and a list of such requests behind it. `Given` are the pointers that were
handed to the parser, with what was asked for.

* `request_run`: a request keeps what was given before.
* `parseCleanup_run`: which blocks `parse_cleanup` frees.
* `interned_stable`: every string still reads as it was asked for, the entries are
  zeroed and apart, and every block is freed once.
-/
namespace Bootd.Chunks

open Bootd.Core Bootd.Core.Exec

/-- The globals before `parse_file`, and after `parse_cleanup`. -/
structure Mem.Unset (m : Mem) : Prop where
  table : m.lTblTable = none
  tableNext : m.lTblTableNext = 0
  string : m.lTblString = none
  stringNext : m.lTblStringNext = 0
  entry : m.lTblEntry = none
  entryNext : m.lTblEntryNext = 0

inductive Req
  | string (s : CStr)
  | entry
  /-- a store to the entry that was given out as number `k` -/
  | fill (k : Nat) (e : ParseEntry)

/-- A string has no NUL in it, and fits into a slot. -/
def Req.Short : Req → Prop
  | .string s => 0 ∉ s ∧ s.length < parseStringMax
  | _ => True

instance : (r : Req) → Decidable r.Short
  | .string s => inferInstanceAs (Decidable (0 ∉ s ∧ s.length < parseStringMax))
  | .entry => .isTrue trivial
  | .fill _ _ => .isTrue trivial

def Req.text? : Req → Option CStr
  | .string s => some s
  | _ => none

def Req.isEntry : Req → Bool
  | .entry => true
  | _ => false

/-- The strings asked for with the pointers returned, and the pointers to entries with what was in them then. -/
structure Given where
  strings : List (CStr × Ptr)
  entries : List (Ptr × Option ParseEntry)

def request (env : Junk) (g : Given) : Req → CM Given
  | .string s => do
    let p ← parseStringAdd env s
    pure { g with strings := g.strings ++ [(s, p)] }
  | .entry => do
    let p ← parseEntryNew env
    let m ← get
    pure { g with entries := g.entries ++ [(p, m.entryAt p)] }
  | .fill k e =>
    match g.entries[k]? with
    | some (p, _) => do
      storeEntry p e
      pure g
    | none => pure g

def run (env : Junk) (rs : List Req) : CM Given := do
  parseTables
  rs.foldlM (request env) ⟨[], []⟩

/-! ## Requests -/

/-- What was given for the requests `rs`. -/
structure Kept (m₀ m : Mem) (T : Tables) (cs es : List Addr) (rs : List Req) (g : Given) : Prop where
  rep : Rep m₀ m T cs es
  settled : Settled T cs es
  strings : ∀ q ∈ g.strings, ∃ i, T.strings[i]? = some q.1 ∧
    Chunked.place parseTblStringSize cs i = some (q.2.chunk, q.2.slot)
  entries : ∀ i q, g.entries[i]? = some q →
    Chunked.place parseTblEntrySize es i = some (q.1.chunk, q.1.slot)
  length : g.entries.length = T.entries
  zeroed : ∀ q ∈ g.entries, q.2 = some .zero
  texts : g.strings.map Prod.fst = rs.filterMap Req.text?
  count : g.entries.length = rs.countP Req.isEntry

section
variable {m₀ m m' : Mem} {T : Tables} {cs es : List Addr} {a i k n : Nat} {rs : List Req} {r : Req} {g : Given}

/-- **A request** keeps what was given, or meets the limit. -/
theorem request_run (env : Junk) (h : Kept m₀ m T cs es rs g) (hr : r.Short) :
    (∃ g' m' T' cs' es', request env g r m = .ok g' m' ∧ Kept m₀ m' T' cs' es' (rs ++ [r]) g') ∨
    request env g r m = .error (.exit tblTableFull) m ∧ m.lTblTableNext = parseTblTableSize := by
  cases r with
  | string s =>
    rcases parseStringAdd_run env h.rep h.settled hr with
      ⟨p, m', j, T', cs', hrun, hT, hrep, hset, hpre, hplace⟩ | ⟨hrun, _, hfull⟩
    · obtain ⟨hj, hstrings, hentries⟩ := stringAdd_ok hT
      refine .inl ⟨_, m', T', cs', es, bind_run hrun, hrep, hset, fun q hq => ?_, h.entries,
        h.length.trans hentries.symm, h.zeroed, ?_, ?_⟩
      · rcases List.mem_append.mp hq with hq | hq
        · obtain ⟨i, hi, hp⟩ := h.strings q hq
          have hlt := (List.getElem?_eq_some_iff.mp hi).1
          exact ⟨i, (List.prefix_iff_getElem?.mp hstrings i hlt).trans (List.getElem?_eq_getElem hlt ▸ hi),
            Chunked.place_prefix hpre hp⟩
        · obtain rfl := List.mem_singleton.mp hq
          exact ⟨j, hj, hplace⟩
      · rw [List.map_append, List.filterMap_append, h.texts]
        rfl
      · rw [List.countP_append, h.count]
        rfl
    · exact .inr ⟨bind_stop hrun, hfull⟩
  | entry =>
    rcases parseEntryNew_run env h.rep h.settled with
      ⟨p, m', T', es', hrun, hT, hrep, hset, hpre, hplace, hzero⟩ | ⟨hrun, _, hfull⟩
    · obtain ⟨-, hentries, hstrings⟩ := entryNew_ok hT
      refine .inl ⟨_, m', T', cs, es', (bind_run hrun).trans rfl, hrep, hset, fun q hq => ?_, fun i q hq => ?_, ?_,
        fun q hq => ?_, ?_, ?_⟩
      · rw [hstrings]
        exact h.strings q hq
      · rcases Nat.lt_or_ge i g.entries.length with hi | hi
        · rw [List.getElem?_append_left hi] at hq
          exact Chunked.place_prefix hpre (h.entries i q hq)
        · obtain ⟨rfl, rfl⟩ : i = T.entries ∧ q = (p, m'.entryAt p) := by
            have hlt := (List.getElem?_eq_some_iff.mp hq).1
            rw [List.length_append, List.length_singleton] at hlt
            obtain rfl : i = g.entries.length := by omega
            exact ⟨h.length, by simpa using hq.symm⟩
          exact hplace
      · rw [List.length_append, h.length, hentries]
        rfl
      · rcases List.mem_append.mp hq with hq | hq
        · exact h.zeroed q hq
        · rw [List.mem_singleton.mp hq]
          exact hzero
      · rw [List.filterMap_append, ← h.texts]
        exact (List.append_nil _).symm
      · rw [List.length_append, List.countP_append, h.count]
        rfl
    · exact .inr ⟨bind_stop hrun, hfull⟩
  | fill k e =>
    have htexts : g.strings.map Prod.fst = (rs ++ [Req.fill k e]).filterMap Req.text? := by
      rw [List.filterMap_append, ← h.texts]
      exact (List.append_nil _).symm
    have hcount : g.entries.length = (rs ++ [Req.fill k e]).countP Req.isEntry := by
      rw [List.countP_append, h.count]
      rfl
    left
    cases hk : g.entries[k]? with
    | none =>
      have hrun : request env g (.fill k e) m = .ok g m := by
        unfold request
        simp only [hk]
        rfl
      exact ⟨g, m, T, cs, es, hrun, h.rep, h.settled, h.strings, h.entries, h.length, h.zeroed, htexts, hcount⟩
    | some q =>
      obtain ⟨m', hstore, hrep⟩ := h.rep.storeEntry (h.entries k q hk) e
      have hrun : request env g (.fill k e) m = .ok g m' := by
        unfold request
        simp only [hk]
        exact bind_run hstore
      exact ⟨g, m', T, cs, es, hrun, hrep, h.settled, h.strings, h.entries, h.length, h.zeroed, htexts,
        hcount⟩

/-- **A run of requests.** -/
theorem requests_run (env : Junk) (rs' : List Req) (h : Kept m₀ m T cs es rs g) (hrs : ∀ r ∈ rs', r.Short) :
    (∃ g' m' T' cs' es', rs'.foldlM (request env) g m = .ok g' m' ∧ Kept m₀ m' T' cs' es' (rs ++ rs') g') ∨
    ∃ m', rs'.foldlM (request env) g m = .error (.exit tblTableFull) m' ∧ m'.lTblTableNext = parseTblTableSize := by
  induction rs' generalizing m T cs es rs g with
  | nil => exact .inl ⟨g, m, T, cs, es, rfl, by rwa [List.append_nil]⟩
  | cons r rs' ih =>
    obtain ⟨hr, hrs⟩ := List.forall_mem_cons.mp hrs
    rw [List.foldlM_cons]
    rcases request_run env h hr with ⟨g₁, m₁, T₁, cs₁, es₁, hrun, h₁⟩ | ⟨hrun, hfull⟩
    · rw [bind_run hrun]
      have hrest := ih h₁ hrs
      rwa [List.append_assoc] at hrest
    · rw [bind_stop hrun]
      exact .inr ⟨m, rfl, hfull⟩

/-! ## Giving everything back -/

/-- The first `k` chunks are freed. -/
def Mem.freeFirst (m : Mem) (s k : Nat) : Mem := (List.range' s k).foldl Mem.free m

theorem freeFirst_succ (m : Mem) (s k : Nat) : m.freeFirst s (k + 1) = (m.freeFirst s k).free (s + k) := by
  unfold Mem.freeFirst
  rw [List.range'_concat, List.foldl_append, Nat.one_mul]
  rfl

theorem freeFirst_block (m : Mem) (s k a : Nat) :
    (m.freeFirst s k).block a = if s ≤ a ∧ a < s + k then none else m.block a := by
  induction k with
  | zero => exact (if_neg (by omega)).symm
  | succ k ih =>
    rw [freeFirst_succ, block_free, ih]
    by_cases hlast : a = s + k
    · rw [if_pos hlast, if_pos (by omega)]
    · have hiff : (s ≤ a ∧ a < s + k) ↔ (s ≤ a ∧ a < s + (k + 1)) := by omega
      simp only [if_neg hlast, hiff]

theorem freeFirst_freed (m : Mem) (s k : Nat) : (m.freeFirst s k).freed = m.freed ++ List.range' s k := by
  induction k with
  | zero => exact (List.append_nil _).symm
  | succ k ih =>
    rw [freeFirst_succ, List.range'_concat, Nat.one_mul, ← List.append_assoc, ← ih]
    rfl

theorem chunkSlots_get (s : Nat) (hn : n ≤ parseTblTableSize) (hi : i < parseTblTableSize) :
    (chunkSlots s n)[i]? = some (if i < n then some (s + i) else none) := by
  have hlen : ((List.range' s n).map (some : Nat → Option Nat)).length = n := by simp
  unfold chunkSlots
  rw [List.getElem?_append, hlen]
  split
  · rename_i hlt
    rw [List.getElem?_map, List.getElem?_range' hlt, Nat.one_mul]
    rfl
  · exact List.getElem?_replicate_of_lt (by omega)

/-- A round of the loop frees chunk `i`, if there is one. -/
theorem freeChunk_run (h : Registry m₀ m n) (hlive : ∀ a, m₀.fresh < a → a ≤ m₀.fresh + n → m.block a ≠ none)
    (hi : i < parseTblTableSize) :
    freeChunk m₀.fresh i (m.freeFirst (m₀.fresh + 1) (min i n)) =
      .ok () (m.freeFirst (m₀.fresh + 1) (min (i + 1) n)) := by
  have htable : (m.freeFirst (m₀.fresh + 1) (min i n)).block m₀.fresh =
      some (.table (chunkSlots (m₀.fresh + 1) n)) := by
    rw [freeFirst_block, if_neg (by omega)]
    exact h.slots
  unfold freeChunk
  rw [bind_run (loadTable_run htable), chunkSlots_get _ h.room hi]
  by_cases hin : i < n
  · obtain ⟨b, hb⟩ := Option.ne_none_iff_exists'.mp (hlive (m₀.fresh + 1 + i) (by omega) (by omega))
    have hblock : (m.freeFirst (m₀.fresh + 1) i).block (m₀.fresh + 1 + i) = some b := by
      rw [freeFirst_block, if_neg (by omega)]
      exact hb
    rw [if_pos hin, Nat.min_eq_left hin.le, Nat.min_eq_left hin, freeFirst_succ]
    exact free_run hblock
  · rw [if_neg hin, Nat.min_eq_right (Nat.le_of_not_lt hin), Nat.min_eq_right (by omega)]
    rfl

theorem freeChunks_run (h : Registry m₀ m n) (hlive : ∀ a, m₀.fresh < a → a ≤ m₀.fresh + n → m.block a ≠ none)
    (hk : i + k ≤ parseTblTableSize) :
    (List.range' i k).forM (freeChunk m₀.fresh) (m.freeFirst (m₀.fresh + 1) (min i n)) =
      .ok () (m.freeFirst (m₀.fresh + 1) (min (i + k) n)) := by
  induction k generalizing i with
  | zero => rfl
  | succ k ih =>
    rw [List.range'_succ, show i + (k + 1) = i + 1 + k by omega]
    exact (bind_run (freeChunk_run h hlive (by omega))).trans (ih (by omega))

/-- **`parse_cleanup`** frees the chunks, then the table, and resets the globals. -/
theorem parseCleanup_run (h : Registry m₀ m n)
    (hlive : ∀ a, m₀.fresh < a → a ≤ m₀.fresh + n → m.block a ≠ none) :
    ∃ m', parseCleanup m = .ok () m' ∧
      m'.freed = m.freed ++ (List.range' (m₀.fresh + 1) n ++ [m₀.fresh]) ∧ (∀ a : Nat, m'.block a = m₀.block a) ∧
      m'.Unset := by
  have hloop := freeChunks_run (i := 0) h hlive (Nat.le_of_eq (Nat.zero_add parseTblTableSize))
  have hzero : m.freeFirst (m₀.fresh + 1) (min 0 n) = m := by
    rw [Nat.zero_min]
    rfl
  rw [hzero, Nat.zero_add, Nat.min_eq_right h.room, ← List.range_eq_range'] at hloop
  have htable : (m.freeFirst (m₀.fresh + 1) n).block m₀.fresh = some (.table (chunkSlots (m₀.fresh + 1) n)) := by
    rw [freeFirst_block, if_neg (by omega)]
    exact h.slots
  unfold parseCleanup
  rw [get_run, h.table]
  simp only
  rw [bind_run hloop, bind_run (free_run htable)]
  refine ⟨_, rfl, ?_, fun a => ?_, ⟨rfl, rfl, rfl, rfl, rfl, rfl⟩⟩
  · rw [← List.append_assoc, ← freeFirst_freed]
    rfl
  · refine (block_free _ m₀.fresh a).trans ?_
    rw [freeFirst_block]
    by_cases ha : a < m₀.fresh
    · rw [if_neg (by omega), if_neg (by omega)]
      exact h.old a ha
    · have hnone : m₀.block a = none := Slots.get_none_of_le (Nat.le_of_not_lt ha)
      rw [hnone]
      split; · rfl
      split; · rfl
      have hfresh := h.fresh
      exact Slots.get_none_of_le (show m.fresh ≤ a by omega)

end

/-! ## The whole run -/

/-- What a run that started in `m₀` has given for `rs`, and what is left for `parse_cleanup`. -/
structure Interned (m₀ m : Mem) (rs : List Req) (g : Given) : Prop where
  texts : g.strings.map Prod.fst = rs.filterMap Req.text?
  stable : ∀ q ∈ g.strings, m.stringAt q.2 = some q.1
  count : g.entries.length = rs.countP Req.isEntry
  distinct : (g.entries.map Prod.fst).Nodup
  zeroed : ∀ q ∈ g.entries, q.2 = some .zero
  apart : ∀ q ∈ g.entries, ∀ u ∈ g.strings, q.1.chunk ≠ u.2.chunk
  /-- every block but the table itself is in one slot, and nothing else is -/
  recorded : ∃ t slots chunks, m.lTblTable = some t ∧ m.block t = some (.table slots) ∧
    m.allocated = m₀.allocated ++ t :: chunks ∧ (t :: chunks).Nodup ∧
    ∀ a, slots.count (some a) = chunks.count a
  cleaned : ∃ m' fs, parseCleanup m = .ok () m' ∧ m'.freed = m₀.freed ++ fs ∧
    m.allocated.Perm (m₀.allocated ++ fs) ∧ fs.Nodup ∧ (∀ a : Nat, m'.block a = m₀.block a) ∧ m'.Unset

section
variable {m₀ m : Mem} {T : Tables} {cs es : List Addr} {rs : List Req} {g : Given}

/-- The entries are numbered in the order in which they were given out. -/
theorem Kept.distinct (h : Kept m₀ m T cs es rs g) : (g.entries.map Prod.fst).Nodup := by
  refine List.nodup_iff_getElem?_ne_getElem?.mpr fun i j hij hj heq => ?_
  rw [List.length_map] at hj
  have hi := h.entries i _ (List.getElem?_eq_getElem (hij.trans hj))
  have hj' := h.entries j _ (List.getElem?_eq_getElem hj)
  rw [List.getElem?_map, List.getElem?_map, List.getElem?_eq_getElem (hij.trans hj),
    List.getElem?_eq_getElem hj] at heq
  have hsame : g.entries[i].1 = g.entries[j].1 := Option.some.inj heq
  rw [hsame] at hi
  exact hij.ne (Chunked.place_inj (List.nodup_append.mp h.rep.nodup).2.1 hi hj')

theorem Kept.interned (h : Kept m₀ m T cs es rs g) : Interned m₀ m rs g where
  texts := h.texts
  stable q hq := by
    obtain ⟨i, hi, hp⟩ := h.strings q hq
    exact h.rep.reads hp hi
  count := h.count
  distinct := h.distinct
  zeroed := h.zeroed
  apart q hq u hu := by
    obtain ⟨i, hi⟩ := List.getElem?_of_mem hq
    obtain ⟨j, -, hp⟩ := h.strings u hu
    have hentry : q.1.chunk ∈ es := Chunked.place_mem (h.entries i q hi)
    have hstring : u.2.chunk ∈ cs := Chunked.place_mem hp
    exact fun he => h.rep.apart _ hstring (he ▸ hentry)
  recorded := by
    refine ⟨m₀.fresh, _, List.range' (m₀.fresh + 1) T.tableNext, h.rep.registry.table, h.rep.registry.slots, ?_, ?_,
      fun a => ?_⟩
    · rw [h.rep.registry.allocated, List.range'_succ]
    · rw [← List.range'_succ]
      exact List.nodup_range'
    · rw [chunkSlots, List.count_append, List.count_replicate,
        List.count_map_of_injective _ _ (Option.some_injective _)]
      rfl
  cleaned := by
    have hlive : ∀ a, m₀.fresh < a → a ≤ m₀.fresh + T.tableNext → m.block a ≠ none := by
      intro a hlt hle
      have hlast : a < m₀.fresh + 1 + T.tableNext := by omega
      have hmem := h.rep.chunks.mem_iff.mpr (List.mem_range'_1.mpr ⟨hlt, hlast⟩)
      rcases List.mem_append.mp hmem with hmem | hmem
      · obtain ⟨b, hb⟩ := h.rep.strings.blocks a hmem
        rw [hb]
        exact Option.some_ne_none _
      · obtain ⟨f, hf⟩ := h.rep.entries.blocks a hmem
        rw [hf]
        exact Option.some_ne_none _
    obtain ⟨m', hrun, hfreed, hblock, hunset⟩ := parseCleanup_run h.rep.registry hlive
    have hperm : (List.range' m₀.fresh (T.tableNext + 1)).Perm
        (List.range' (m₀.fresh + 1) T.tableNext ++ [m₀.fresh]) := by
      rw [List.range'_succ]
      exact (List.perm_append_singleton _ _).symm
    refine ⟨m', _, hrun, hfreed.trans (congrArg (· ++ _) h.rep.registry.freed), ?_, ?_, hblock, hunset⟩
    · rw [h.rep.registry.allocated]
      exact hperm.append_left m₀.allocated
    · exact hperm.nodup_iff.mp List.nodup_range'

/-- The empty table. -/
theorem start_run (h₀ : m₀.Unset) : ∃ m, parseTables m₀ = .ok () m ∧ Kept m₀ m .empty [] [] [] ⟨[], []⟩ := by
  obtain ⟨m, hrun, hreg, hstring, hstringNext, hentry, hentryNext⟩ := parseTables_run m₀ h₀.tableNext
  refine ⟨m, hrun, ⟨hreg, List.Perm.refl _, ?_, ?_⟩, ⟨fun _ => rfl, fun _ => rfl⟩, List.forall_mem_nil _,
    fun i q hq => ?_, rfl, List.forall_mem_nil _, rfl, rfl⟩
  · refine ⟨hstring.trans h₀.string, hstringNext.trans h₀.stringNext, Chunked.filled_nil, List.forall_mem_nil _,
      fun i q hq => ?_, List.forall_mem_nil _⟩
    rw [Tables.empty, List.getElem?_nil] at hq
    cases hq
  · exact ⟨hentry.trans h₀.entry, hentryNext.trans h₀.entryNext, Chunked.filled_nil, List.forall_mem_nil _⟩
  · rw [List.getElem?_nil] at hq
    cases hq

end

/-- **Strings and entries stay where they are, and every block is freed once**, for every run of requests that does
not meet the limit, from whatever was on the heap. -/
theorem interned_stable (env : Junk) (m₀ : Mem) (h₀ : m₀.Unset) (rs : List Req) (hrs : ∀ r ∈ rs, r.Short) :
    (∃ g m, run env rs m₀ = .ok g m ∧ Interned m₀ m rs g) ∨
    ∃ m, run env rs m₀ = .error (.exit tblTableFull) m ∧ m.lTblTableNext = parseTblTableSize := by
  obtain ⟨m₁, hstart, h₁⟩ := start_run h₀
  unfold run
  rw [bind_run hstart]
  rcases requests_run env rs h₁ hrs with ⟨g, m, T, cs, es, hrun, h⟩ | hfull
  · exact .inl ⟨g, m, hrun, h.interned⟩
  · exact .inr hfull

/-- Before the program starts. -/
def Mem.start : Mem := ⟨[], none, none, none, 0, 0, 0, [], []⟩

/-- The requests for `device eth0;` in a file without a name. -/
def deviceStatement : List Req := [.entry, .string (cstr "device"), .string [], .string (cstr "eth0")]

/-- Fresh blocks are full of ones. -/
def ones : Junk := ⟨fun _ _ => 255, fun _ _ => { ParseEntry.zero with valuesNext := -1 }⟩

/-- That statement does not meet the limit. -/
theorem interned_statement :
    ∃ g m, run ones deviceStatement .start = .ok g m ∧ Interned .start m deviceStatement g := by
  refine (interned_stable ones .start ⟨rfl, rfl, rfl, rfl, rfl, rfl⟩ deviceStatement (by decide)).resolve_right ?_
  rintro ⟨m, hrun, -⟩
  have hok : (match run ones deviceStatement .start with | .ok .. => true | .error .. => false) = true := by
    decide +kernel
  rw [hrun] at hok
  cases hok

end Bootd.Chunks
