import Bootd.Config.Chunks

/-!
# The chunks hold what the tables say

String `i` of a `Tables` is in slot `i % 256` of string chunk `i / 256`, and likewise the
entries. `Rep` says so of the blocks, for the chunks of either kind in the order in which
they were handed out. They share one table, but neither a chunk nor a fill count.

* `parseStringAdd_run`, `parseEntryNew_run`: the functions do to the blocks what
  `stringAdd` and `entryNew` do to the `Tables`, and stop where these do.
* `Rep.reads`: the string behind a pointer.
-/
namespace Bootd.Chunks

open Bootd.Core Bootd.Core.Exec

/-- The strings, in the chunks `cs`. -/
structure StringChunks (m : Mem) (cs : List Addr) (ss : List CStr) (fill : Nat) : Prop where
  last : m.lTblString = cs.getLast?
  next : m.lTblStringNext = fill
  filled : Chunked.Filled parseTblStringSize cs ss.length fill
  blocks : ∀ a ∈ cs, ∃ bytes, m.block a = some (.strings bytes)
  reads : ∀ i s, ss[i]? = some s → ∃ a j bytes, Chunked.place parseTblStringSize cs i = some (a, j) ∧
    m.block a = some (.strings bytes) ∧ Memory.Spells bytes (parseTblStringSize * j) (s ++ [0])
  short : ∀ s ∈ ss, 0 ∉ s ∧ s.length < parseStringMax

/-- `n` entries, in the chunks `es`. -/
structure EntryChunks (m : Mem) (es : List Addr) (n fill : Nat) : Prop where
  last : m.lTblEntry = es.getLast?
  next : m.lTblEntryNext = fill
  filled : Chunked.Filled parseTblEntrySize es n fill
  blocks : ∀ a ∈ es, ∃ f, m.block a = some (.entries f)

/-- What was handed out since `m₀` are the chunks of a `Tables`. -/
structure Rep (m₀ m : Mem) (T : Tables) (cs es : List Addr) : Prop where
  registry : Registry m₀ m T.tableNext
  chunks : (cs ++ es).Perm (List.range' (m₀.fresh + 1) T.tableNext)
  strings : StringChunks m cs T.strings T.stringNext
  entries : EntryChunks m es T.entries T.entryNext

/-- A chunk is taken only to put something into it. -/
structure Settled (T : Tables) (cs es : List Addr) : Prop where
  strings : T.strings = [] → cs = []
  entries : T.entries = 0 → es = []

section
variable {m₀ m m' : Mem} {T T' : Tables} {cs ds es : List Addr} {a n fill : Nat} {s : CStr} {ss : List CStr}

/-! ## Frames -/

theorem StringChunks.congr (h : StringChunks m cs ss fill) (hlast : m'.lTblString = m.lTblString)
    (hnext : m'.lTblStringNext = m.lTblStringNext) (hblock : ∀ a ∈ cs, m'.block a = m.block a) :
    StringChunks m' cs ss fill where
  last := hlast.trans h.last
  next := hnext.trans h.next
  filled := h.filled
  blocks a ha := (h.blocks a ha).imp fun _ hb => (hblock a ha).trans hb
  reads i s hs := by
    obtain ⟨a, j, bytes, hp, hb, hread⟩ := h.reads i s hs
    exact ⟨a, j, bytes, hp, (hblock a (Chunked.place_mem hp)).trans hb, hread⟩
  short := h.short

theorem EntryChunks.congr (h : EntryChunks m es n fill) (hlast : m'.lTblEntry = m.lTblEntry)
    (hnext : m'.lTblEntryNext = m.lTblEntryNext) (hblock : ∀ a ∈ es, m'.block a = m.block a) :
    EntryChunks m' es n fill where
  last := hlast.trans h.last
  next := hnext.trans h.next
  filled := h.filled
  blocks a ha := (h.blocks a ha).imp fun _ hb => (hblock a ha).trans hb

/-- The chunks come behind the table, and are handed out. -/
theorem Rep.chunk_gt (h : Rep m₀ m T cs es) (ha : a ∈ cs ++ es) : m₀.fresh < a ∧ a < m.fresh := by
  have hmem := List.mem_range'_1.mp (h.chunks.mem_iff.mp ha)
  have hfresh := h.registry.fresh
  omega

theorem Rep.nodup (h : Rep m₀ m T cs es) : (cs ++ es).Nodup := h.chunks.nodup_iff.mpr List.nodup_range'

theorem Rep.apart (h : Rep m₀ m T cs es) : ∀ a ∈ cs, a ∉ es :=
  fun a ha hb => (List.nodup_append.mp h.nodup).2.2 a ha a hb rfl

/-! ## Strings -/

/-- A string chunk that was handed out is empty. -/
theorem StringChunks.grow (h : StringChunks m cs ss fill) (hfull : cs = [] ∨ fill = parseTblStringSize)
    {bytes : Nat → UInt8} (hblock : ∀ a ∈ cs, m'.block a = m.block a) (ha : m'.block a = some (.strings bytes))
    (hlast : m'.lTblString = some a) (hnext : m'.lTblStringNext = 0) : StringChunks m' (cs ++ [a]) ss 0 where
  last := by rw [hlast, List.getLast?_concat]
  next := hnext
  filled := h.filled.grow hfull a
  blocks b hb := by
    rcases List.mem_append.mp hb with hb | hb
    · exact (h.blocks b hb).imp fun _ hm => (hblock b hb).trans hm
    · exact ⟨bytes, List.mem_singleton.mp hb ▸ ha⟩
  reads i s hs := by
    obtain ⟨b, j, bytes, hp, hb, hread⟩ := h.reads i s hs
    exact ⟨b, j, bytes, Chunked.place_prefix (List.prefix_append cs [a]) hp,
      (hblock b (Chunked.place_mem hp)).trans hb, hread⟩
  short := h.short

/-- The blocks around a new chunk. -/
theorem Rep.block_old (h : Rep m₀ m T cs es) {b : Block}
    (hblock : ∀ a ≠ m₀.fresh, m'.block a = if a = m.fresh then some b else m.block a) (ha : a ∈ cs ++ es) :
    m'.block a = m.block a := by
  have hgt := h.chunk_gt ha
  rw [hblock a hgt.1.ne', if_neg hgt.2.ne]

/-- A chunk more. -/
theorem Rep.chunks_grow (h : Rep m₀ m T cs es) : (cs ++ es ++ [m.fresh]).Perm
    (List.range' (m₀.fresh + 1) (T.tableNext + 1)) := by
  rw [List.range'_concat, Nat.one_mul, ← h.registry.fresh]
  exact h.chunks.append_right [m.fresh]

/-- **Room for a string**: in the last chunk, or in a new one. -/
theorem stringRoom_run (env : Junk) (h : Rep m₀ m T cs es) (hT : T.strings = [] → cs = []) :
    (∃ m' T' ds a, stringRoom env m = .ok () m' ∧ T.stringRoom = .ok T' ∧ Rep m₀ m' T' (ds ++ [a]) es ∧
      cs <+: ds ++ [a] ∧ T'.stringNext < parseTblStringSize ∧ T'.strings = T.strings ∧ T'.entries = T.entries) ∨
    stringRoom env m = .error (.exit tblTableFull) m ∧ T.stringRoom = .error tblTableFull ∧
      m.lTblTableNext = parseTblTableSize := by
  have hnull : m.lTblString = none ↔ cs = [] := by rw [h.strings.last, List.getLast?_eq_none_iff]
  have hempty : T.strings = [] ↔ cs = [] := ⟨hT, fun hnil => List.length_eq_zero_iff.mp (h.strings.filled.empty hnil)⟩
  have hcond : (m.lTblString = none ∨ m.lTblStringNext = parseTblStringSize) ↔
      (T.strings = [] ∨ T.stringNext = parseTblStringSize) := by rw [hnull, hempty, h.strings.next]
  unfold stringRoom Tables.stringRoom
  simp only [get_run]
  by_cases hroll : T.strings = [] ∨ T.stringNext = parseTblStringSize
  · rw [if_pos (hcond.mpr hroll), if_pos hroll, h.registry.next]
    by_cases hfull : T.tableNext = parseTblTableSize
    · rw [if_pos hfull, if_pos hfull]
      exact .inr ⟨rfl, rfl, hfull⟩
    · rw [if_neg hfull, if_neg hfull]
      have hroom := Nat.lt_of_le_of_ne h.registry.room hfull
      obtain ⟨slots, hrun, hreg, hblock⟩ := recordChunk_run h.registry hroom (.strings (env.bytes m.fresh))
        { m.malloc (.strings (env.bytes m.fresh)) with lTblString := some m.fresh, lTblStringNext := 0 }
        rfl ⟨rfl, rfl, rfl, rfl⟩
      refine .inl ⟨_, _, cs, m.fresh, hrun, rfl, ⟨hreg, ?_, ?_, ?_⟩, List.prefix_append _ _,
        show 0 < parseTblStringSize by decide, rfl, rfl⟩
      · refine .trans ?_ h.chunks_grow
        rw [List.append_assoc, List.append_assoc]
        exact List.perm_append_comm.append_left cs
      · have hnew : _ = some (Block.strings (env.bytes m.fresh)) :=
          (hblock m.fresh h.registry.fresh_ne).trans (if_pos rfl)
        exact h.strings.grow (hroll.imp_left hempty.mp)
          (fun a ha => h.block_old hblock (List.mem_append_left _ ha)) hnew rfl rfl
      · exact h.entries.congr rfl rfl fun a ha => h.block_old hblock (List.mem_append_right _ ha)
  · rw [if_neg fun hc => hroll (hcond.mp hc), if_neg hroll]
    obtain ⟨hne, hfill⟩ := not_or.mp hroll
    obtain ⟨ds, a, rfl⟩ := (List.eq_nil_or_concat' cs).resolve_left fun hnil => hne (hempty.mpr hnil)
    have hlt := Nat.lt_of_le_of_ne h.strings.filled.last.2 hfill
    exact .inl ⟨m, T, ds, a, rfl, rfl, h, List.prefix_refl _, hlt, rfl, rfl⟩

/-- A search through the numbers below the length of a list. -/
theorem find_range {α : Type} (l : List α) (p : α → Bool) (q : Nat → Bool)
    (h : ∀ i (hi : i < l.length), q i = p l[i]) : (List.range l.length).find? q = l.findIdx? p := by
  cases hfind : l.findIdx? p with
  | none =>
    rw [List.findIdx?_eq_none_iff] at hfind
    refine List.find?_eq_none.mpr fun i hi => ?_
    have hi := List.mem_range.mp hi
    rw [h i hi, hfind _ (List.getElem_mem hi)]
    decide
  | some i =>
    obtain ⟨hi, hp, hbefore⟩ := List.findIdx?_eq_some_iff_getElem.mp hfind
    refine List.find?_range_eq_some.mpr ⟨(h i hi).trans hp, List.mem_range.mpr hi, fun j hj => ?_⟩
    rw [h j (hj.trans hi)]
    simpa using hbefore j hj

/-- A slot holds the string if `strcmp` says so. -/
theorem strcmpEq_iff {bytes : Nat → UInt8} {p : Nat} {t : CStr} (hread : Memory.Spells bytes p (t ++ [0]))
    (ht : 0 ∉ t) (hs : 0 ∉ s) : strcmpEq bytes p s = (t == s) := by
  rw [Bool.eq_iff_iff, strcmpEq, beq_iff_eq, beq_iff_eq, Memory.scan_iff]
  constructor
  · rintro ⟨hspells, -, -⟩
    exact Memory.spells_inj hread hspells ht hs
  · rintro rfl
    exact ⟨hread, ht, Nat.lt_succ_self _⟩

/-- **The search** for a string that is in the current chunk already. -/
theorem StringChunks.find (h : StringChunks m (ds ++ [a]) ss fill) {bytes : Nat → UInt8}
    (hblock : m.block a = some (.strings bytes)) (hs : 0 ∉ s) :
    ((List.range fill).find? fun i => strcmpEq bytes (parseTblStringSize * i) s) =
      (ss.drop (ss.length - fill)).findIdx? (· == s) := by
  obtain ⟨hlen, hfill⟩ := h.filled.last
  have hdrop : (ss.drop (ss.length - fill)).length = fill := by
    rw [List.length_drop]
    omega
  rw [← find_range _ _ _ fun i hi => ?_, hdrop]
  rw [hdrop] at hi
  rw [List.getElem_drop]
  obtain ⟨b, j, bytes', hp, hb, hread⟩ := h.reads (ss.length - fill + i) _ (List.getElem?_eq_getElem (by omega))
  have hplace := h.filled.place (j := i) (by omega)
  obtain ⟨rfl, rfl⟩ := Prod.mk.inj (Option.some.inj (hp.symm.trans hplace))
  obtain rfl := Block.strings.inj (Option.some.inj (hb.symm.trans hblock))
  exact strcmpEq_iff hread (h.short _ (List.getElem_mem _)).1 hs

/-- **A string more**, in the next slot of the last chunk. -/
theorem StringChunks.add (h : StringChunks m (ds ++ [a]) ss fill) (hnd : (ds ++ [a]).Nodup)
    (hfill : fill < parseTblStringSize) {bytes : Nat → UInt8} (hblock : m.block a = some (.strings bytes))
    (hs : 0 ∉ s ∧ s.length < parseStringMax) (hlast : m'.lTblString = m.lTblString)
    (hnext : m'.lTblStringNext = fill + 1)
    (hold : ∀ b, b ≠ a → m'.block b = m.block b) (hnew : m'.block a = some (.strings
      (Memory.after (Memory.along (parseTblStringSize * fill) (s ++ [0])) bytes))) :
    StringChunks m' (ds ++ [a]) (ss ++ [s]) (fill + 1) where
  last := hlast.trans h.last
  next := hnext
  filled := by
    rw [List.length_append]
    exact h.filled.next hfill
  blocks b hb := by
    by_cases hba : b = a
    · exact ⟨_, hba ▸ hnew⟩
    · exact (h.blocks b hb).imp fun _ hm => (hold b hba).trans hm
  reads i t ht := by
    have hplace := h.filled.place_next hfill
    rcases Nat.lt_or_ge i ss.length with hi | hi
    · rw [List.getElem?_append_left hi] at ht
      obtain ⟨b, j, bytes', hp, hb, hread⟩ := h.reads i t ht
      by_cases hba : b = a
      · subst hba
        obtain rfl := Block.strings.inj (Option.some.inj (hb.symm.trans hblock))
        have hj : j ≠ fill := fun he => hi.ne (Chunked.place_inj hnd hp (he ▸ hplace))
        have ht := (h.short t (List.mem_of_getElem? ht)).2
        refine ⟨b, j, _, hp, hnew, hread.apart ?_⟩
        -- two slots do not overlap
        simp only [List.length_append, List.length_singleton, parseTblStringSize, parseStringMax] at *
        omega
      · exact ⟨b, j, bytes', hp, (hold b hba).trans hb, hread⟩
    · obtain rfl : i = ss.length := by
        have hlt := (List.getElem?_eq_some_iff.mp ht).1
        rw [List.length_append, List.length_singleton] at hlt
        omega
      obtain rfl : s = t := by simpa using ht
      exact ⟨a, fill, _, hplace, hnew, Memory.spells_along _ _ _⟩
  short t ht := by
    rcases List.mem_append.mp ht with ht | ht
    · exact h.short t ht
    · exact List.mem_singleton.mp ht ▸ hs

/-- `strcpy` into a slot of the chunk. -/
theorem strcpySlot_run {i : Nat} {bytes : Nat → UInt8} (hblock : m.block a = some (.strings bytes))
    (hi : i < parseTblStringSize) (hs : s.length < parseStringMax) :
    strcpySlot a i s m = .ok () (m.setBlock a (.strings
      (Memory.after (Memory.along (parseTblStringSize * i) (s ++ [0])) bytes))) := by
  unfold strcpySlot
  rw [bind_run (loadStrings_run hblock), if_pos]
  · rfl
  · unfold parseTblStringSize parseStringMax at *
    omega

/-- **`parse_string_add`** gives out the place of the string that `stringAdd` says, or stops where it does. -/
theorem parseStringAdd_run (env : Junk) (h : Rep m₀ m T cs es) (hset : Settled T cs es)
    (hs : 0 ∉ s ∧ s.length < parseStringMax) :
    (∃ p m' i T' cs', parseStringAdd env s m = .ok p m' ∧ T.stringAdd s = .ok (i, T') ∧ Rep m₀ m' T' cs' es ∧
      Settled T' cs' es ∧ cs <+: cs' ∧ Chunked.place parseTblStringSize cs' i = some (p.chunk, p.slot)) ∨
    parseStringAdd env s m = .error (.exit tblTableFull) m ∧ T.stringAdd s = .error tblTableFull ∧
      m.lTblTableNext = parseTblTableSize := by
  unfold parseStringAdd Tables.stringAdd
  simp only [get_run, if_neg h.registry.table_ne]
  rcases stringRoom_run env h hset.strings with
    ⟨m₁, T₁, ds, a, hroom, hTroom, h₁, hpre, hfill, hstrings, hentries⟩ | ⟨hroom, hTroom, hfull⟩
  · have hlast : m₁.lTblString = some a := by rw [h₁.strings.last, List.getLast?_concat]
    obtain ⟨bytes, hblock⟩ := h₁.strings.blocks a (List.mem_append_right _ (List.mem_singleton_self a))
    have hfind := h₁.strings.find hblock hs.1
    have hshort : ¬parseStringMax ≤ s.length := Nat.not_le.mpr hs.2
    have hents : T₁.entries = 0 → es = [] := fun he => hset.entries (hentries.symm.trans he)
    left
    rw [bind_run hroom, get_run, hTroom, h₁.strings.next]
    simp only [hlast, if_neg hshort]
    rw [bind_run (loadStrings_run hblock), hfind, Tables.chunk]
    cases hidx : (T₁.strings.drop (T₁.strings.length - T₁.stringNext)).findIdx? (· == s) with
    | some i =>
      obtain ⟨hi, -, -⟩ := List.findIdx?_eq_some_iff_getElem.mp hidx
      rw [List.length_drop] at hi
      have hlen := h₁.strings.filled.last
      have hne : T₁.strings ≠ [] := fun hnil => by
        rw [hnil, List.length_nil] at hi
        omega
      refine ⟨⟨a, i⟩, m₁, _, T₁, ds ++ [a], rfl, rfl, h₁, ⟨fun hnil => absurd hnil hne, hents⟩, hpre, ?_⟩
      exact h₁.strings.filled.place (by omega)
    | none =>
      have hblock' := block_setBlock_self (b := .strings
        (Memory.after (Memory.along (parseTblStringSize * T₁.stringNext) (s ++ [0])) bytes)) hblock
      have hmem : a ∈ ds ++ [a] ++ es := List.mem_append_left _ (List.mem_append_right _ (List.mem_singleton_self a))
      have hgt := h₁.chunk_gt hmem
      refine ⟨⟨a, T₁.stringNext⟩, _, _, _, ds ++ [a], bind_run (strcpySlot_run hblock hfill hs.2), rfl, ?_, ?_, hpre,
        h₁.strings.filled.place_next hfill⟩
      · refine ⟨h₁.registry.congr rfl rfl fresh_setBlock rfl rfl fun b hb => ?_, h₁.chunks, ?_, ?_⟩
        · exact block_setBlock_of_ne (show b ≠ a by omega)
        · exact h₁.strings.add (List.nodup_append.mp h₁.nodup).1 hfill hblock hs rfl
            (congrArg (· + 1) h₁.strings.next) (fun b hb => block_setBlock_of_ne hb) hblock'
        · refine h₁.entries.congr rfl rfl fun b hb => block_setBlock_of_ne fun he => ?_
          exact h₁.apart a (List.mem_append_right _ (List.mem_singleton_self a)) (he ▸ hb)
      · exact ⟨fun hnil => absurd hnil (List.concat_ne_nil s T₁.strings), hents⟩
  · right
    rw [bind_stop hroom, hTroom]
    exact ⟨rfl, rfl, hfull⟩

/-- **The string behind a pointer.** -/
theorem Rep.reads (h : Rep m₀ m T cs es) {p : Ptr} {i : Nat}
    (hp : Chunked.place parseTblStringSize cs i = some (p.chunk, p.slot)) (hs : T.strings[i]? = some s) :
    m.stringAt p = some s := by
  obtain ⟨a, j, bytes, hplace, hblock, hread⟩ := h.strings.reads i s hs
  obtain ⟨ha, hj⟩ := Prod.mk.inj (Option.some.inj (hp.symm.trans hplace))
  obtain ⟨h0, hlen⟩ := h.strings.short s (List.mem_of_getElem? hs)
  unfold Mem.stringAt
  rw [ha, hblock, hj]
  exact Memory.scan_iff.mpr ⟨hread, h0, hlen⟩

/-! ## Entries -/

/-- An entry chunk that was handed out is empty. -/
theorem EntryChunks.grow (h : EntryChunks m es n fill) (hfull : es = [] ∨ fill = parseTblEntrySize)
    {f : Nat → ParseEntry} (hblock : ∀ a ∈ es, m'.block a = m.block a) (ha : m'.block a = some (.entries f))
    (hlast : m'.lTblEntry = some a) (hnext : m'.lTblEntryNext = 0) : EntryChunks m' (es ++ [a]) n 0 where
  last := by rw [hlast, List.getLast?_concat]
  next := hnext
  filled := h.filled.grow hfull a
  blocks b hb := by
    rcases List.mem_append.mp hb with hb | hb
    · exact (h.blocks b hb).imp fun _ hm => (hblock b hb).trans hm
    · exact ⟨f, List.mem_singleton.mp hb ▸ ha⟩

/-- **Room for an entry**: in the last chunk, or in a new one. -/
theorem entryRoom_run (env : Junk) (h : Rep m₀ m T cs es) (hT : T.entries = 0 → es = []) :
    (∃ m' T' ds a, entryRoom env m = .ok () m' ∧ Rep m₀ m' T' cs (ds ++ [a]) ∧ es <+: ds ++ [a] ∧
      T'.entryNext < parseTblEntrySize ∧ T'.strings = T.strings ∧ T'.entries = T.entries ∧
      T.entryNew = .ok (T.entries, { T' with entries := T.entries + 1, entryNext := T'.entryNext + 1 })) ∨
    entryRoom env m = .error (.exit tblTableFull) m ∧ T.entryNew = .error tblTableFull ∧
      m.lTblTableNext = parseTblTableSize := by
  have hnull : m.lTblEntry = none ↔ es = [] := by rw [h.entries.last, List.getLast?_eq_none_iff]
  have hempty : T.entries = 0 ↔ es = [] := ⟨hT, h.entries.filled.empty⟩
  have hcond : (m.lTblEntry = none ∨ m.lTblEntryNext = parseTblEntrySize) ↔
      (T.entries = 0 ∨ T.entryNext = parseTblEntrySize) := by rw [hnull, hempty, h.entries.next]
  unfold entryRoom Tables.entryNew
  simp only [get_run]
  by_cases hroll : T.entries = 0 ∨ T.entryNext = parseTblEntrySize
  · rw [if_pos (hcond.mpr hroll), if_pos hroll, h.registry.next]
    by_cases hfull : T.tableNext = parseTblTableSize
    · rw [if_pos hfull, if_pos hfull]
      exact .inr ⟨rfl, rfl, hfull⟩
    · rw [if_neg hfull, if_neg hfull]
      have hroom := Nat.lt_of_le_of_ne h.registry.room hfull
      obtain ⟨slots, hrun, hreg, hblock⟩ := recordChunk_run h.registry hroom (.entries (env.entries m.fresh))
        { m.malloc (.entries (env.entries m.fresh)) with lTblEntry := some m.fresh, lTblEntryNext := 0 }
        rfl ⟨rfl, rfl, rfl, rfl⟩
      refine .inl ⟨_, { T with entryNext := 0, tableNext := T.tableNext + 1 }, es, m.fresh, hrun,
        ⟨hreg, ?_, ?_, ?_⟩, List.prefix_append _ _, show 0 < parseTblEntrySize by decide, rfl, rfl, rfl⟩
      · rw [← List.append_assoc]
        exact h.chunks_grow
      · exact h.strings.congr rfl rfl fun a ha => h.block_old hblock (List.mem_append_left _ ha)
      · have hnew : _ = some (Block.entries (env.entries m.fresh)) :=
          (hblock m.fresh h.registry.fresh_ne).trans (if_pos rfl)
        exact h.entries.grow (hroll.imp_left hempty.mp)
          (fun a ha => h.block_old hblock (List.mem_append_right _ ha)) hnew rfl rfl
  · rw [if_neg fun hc => hroll (hcond.mp hc), if_neg hroll]
    obtain ⟨hne, hfill⟩ := not_or.mp hroll
    obtain ⟨ds, a, rfl⟩ := (List.eq_nil_or_concat' es).resolve_left fun hnil => hne (hempty.mpr hnil)
    have hlt := Nat.lt_of_le_of_ne h.entries.filled.last.2 hfill
    exact .inl ⟨m, T, ds, a, rfl, h, List.prefix_refl _, hlt, rfl, rfl, rfl⟩

theorem storeEntry_run {p : Ptr} {f : Nat → ParseEntry} (hblock : m.block p.chunk = some (.entries f))
    (hp : p.slot < parseTblEntrySize) (e : ParseEntry) :
    storeEntry p e m = .ok () (m.setBlock p.chunk (.entries (Function.update f p.slot e))) := by
  unfold storeEntry
  rw [bind_run (loadEntries_run hblock), if_pos hp]
  rfl

/-- A store to an entry leaves the rest of the memory alone. -/
theorem Rep.setEntries (h : Rep m₀ m T cs es) (ha : a ∈ es) (f : Nat → ParseEntry) :
    Rep m₀ (m.setBlock a (.entries f)) T cs es := by
  have hgt := h.chunk_gt (List.mem_append_right cs ha)
  refine ⟨h.registry.congr rfl rfl fresh_setBlock rfl rfl fun b hb => ?_, h.chunks, ?_, ?_⟩
  · exact block_setBlock_of_ne (show b ≠ a by omega)
  · exact h.strings.congr rfl rfl fun b hb => block_setBlock_of_ne fun he => h.apart b hb (he ▸ ha)
  · refine ⟨h.entries.last, h.entries.next, h.entries.filled, fun b hb => ?_⟩
    by_cases hba : b = a
    · subst hba
      obtain ⟨g, hg⟩ := h.entries.blocks b ha
      exact ⟨f, block_setBlock_self hg⟩
    · exact (h.entries.blocks b hb).imp fun _ hg => (block_setBlock_of_ne hba).trans hg

/-- A store to an entry that was given out. -/
theorem Rep.storeEntry (h : Rep m₀ m T cs es) {p : Ptr} {i : Nat}
    (hp : Chunked.place parseTblEntrySize es i = some (p.chunk, p.slot)) (e : ParseEntry) :
    ∃ m', Chunks.storeEntry p e m = .ok () m' ∧ Rep m₀ m' T cs es := by
  have hmem : p.chunk ∈ es := Chunked.place_mem hp
  obtain ⟨f, hblock⟩ := h.entries.blocks _ hmem
  exact ⟨_, storeEntry_run hblock (Chunked.place_slot (by decide) hp) e, h.setEntries hmem _⟩

/-- **`parse_entry_new`** gives out the place of the entry that `entryNew` says, zeroed, or stops where it does. -/
theorem parseEntryNew_run (env : Junk) (h : Rep m₀ m T cs es) (hset : Settled T cs es) :
    (∃ p m' T' es', parseEntryNew env m = .ok p m' ∧ T.entryNew = .ok (T.entries, T') ∧ Rep m₀ m' T' cs es' ∧
      Settled T' cs es' ∧ es <+: es' ∧
      Chunked.place parseTblEntrySize es' T.entries = some (p.chunk, p.slot) ∧ m'.entryAt p = some .zero) ∨
    parseEntryNew env m = .error (.exit tblTableFull) m ∧ T.entryNew = .error tblTableFull ∧
      m.lTblTableNext = parseTblTableSize := by
  unfold parseEntryNew
  simp only [get_run, if_neg h.registry.table_ne]
  rcases entryRoom_run env h hset.entries with
    ⟨m₁, T₁, ds, a, hroom, h₁, hpre, hfill, hstrings, hentries, hnew⟩ | ⟨hroom, hnew, hfull⟩
  · have hlast : m₁.lTblEntry = some a := by rw [h₁.entries.last, List.getLast?_concat]
    have hmem : a ∈ ds ++ [a] := List.mem_append_right _ (List.mem_singleton_self a)
    have hplace := h₁.entries.filled.place_next hfill
    rw [hentries] at hplace
    let m₂ : Mem := { m₁ with lTblEntryNext := m₁.lTblEntryNext + 1 }
    have h₂ : Rep m₀ m₂ { T₁ with entries := T.entries + 1, entryNext := T₁.entryNext + 1 } cs (ds ++ [a]) := by
      refine ⟨h₁.registry.congr rfl rfl rfl rfl rfl fun _ _ => rfl, h₁.chunks, ?_, ?_⟩
      · exact h₁.strings.congr rfl rfl fun _ _ => rfl
      · refine ⟨h₁.entries.last, congrArg (· + 1) h₁.entries.next, ?_, h₁.entries.blocks⟩
        rw [← hentries]
        exact h₁.entries.filled.next hfill
    obtain ⟨f, hblock⟩ := h₂.entries.blocks a hmem
    have hrun := storeEntry_run (p := ⟨a, T₁.entryNext⟩) hblock hfill .zero
    refine .inl ⟨⟨a, T₁.entryNext⟩, m₂.setBlock a (.entries (Function.update f T₁.entryNext .zero)), _, ds ++ [a], ?_,
      hnew, h₂.setEntries hmem _, ⟨fun hnil => ?_, ?_⟩, hpre, hplace, ?_⟩
    · rw [bind_run hroom, get_run]
      simp only [hlast, h₁.entries.next]
      exact bind_run hrun
    · exact hset.strings (hstrings.symm.trans hnil)
    · exact fun he => absurd he (Nat.succ_ne_zero _)
    · unfold Mem.entryAt
      rw [block_setBlock_self hblock]
      simp only [if_pos hfill, Function.update_self]
  · right
    rw [bind_stop hroom]
    exact ⟨rfl, hnew, hfull⟩

end
end Bootd.Chunks
