import Bootd.Config.Crashes
import Bootd.Config.Layout
import Bootd.Config.Refines

/-!
# The host table as a configuration

`tableForest` writes a host table down: a `host` block for each host with its Ethernet
and IP address and its services, and in it a `file` block for each file. A service mask
is written as the names of its bits, or as `all`.

`Host.Writable` is what a host needs for that: its record is complete, its texts are
words that the parser stores as they are, and the C library reads back the addresses that
it prints.

* `services_read`: a mask is read back from its words.
* `fileRecord_read_back`, `hostRecord_read_back`: a record is read back from its block.
* `addHost_chained`: and is added behind the others.
* `table_reloads`: in a fresh process the configuration leads to the same table.
-/
namespace Bootd

open Bootd.Core
open Bootd.Core.Stops
open Bootd.Meaning

/-! ## Writing -/

/-- A word that is stored as a value, as it is. -/
structure StoredAs (v : CStr) : Prop where
  ne : v ≠ []
  nul : 0 ∉ v
  short : v.length ≤ 254
  plain : IsValue v

/-- A mask that `service` statements can give. -/
def IsMask (m : Nat) : Prop := m = serviceAll ∨ 0 < m ∧ m < 64

instance (m : Nat) : Decidable (IsMask m) := inferInstanceAs (Decidable (_ ∨ _))

def serviceWords (m : Nat) : List CStr :=
  if m = serviceAll then [cstr "all"]
  else (serviceInit.filter fun s => m &&& s.id ≠ 0).map (·.name)

/-- The aliases in use. -/
def File.aliasList (f : File) : List CStr := f.aliases.toList.reduceOption

def aliasStatements : List CStr → Forest → Forest
  | [], f => f
  | a :: as, f => .leaf kwAlias.1 [a] (aliasStatements as f)

def serverStatements : Option CStr → Forest
  | none => .nil
  | some s => .leaf kwServer.1 [s] .nil

def Forest.append : Forest → Forest → Forest
  | .nil, g => g
  | .leaf n vs f, g => .leaf n vs (f.append g)
  | .block n vs sub f, g => .block n vs sub (f.append g)

/-- The block of a file. -/
def fileBody (f : File) : Forest :=
  .leaf kwName.1 [f.name.getD []] (.leaf kwService.1 (serviceWords f.service)
    (aliasStatements f.aliasList (serverStatements f.server)))

def filesForest : List File → Forest
  | [] => .nil
  | f :: fs => .block kwFile.1 [f.path.getD []] (fileBody f) (filesForest fs)

/-- The block of a host. -/
def hostBody (lib : Conf) (h : Host) : Forest :=
  .leaf kwEther.1 [lib.etherNtoa h.eth] (.leaf kwIp.1 [lib.inetNtoa h.ip]
    (.leaf kwService.1 (serviceWords h.service) (filesForest h.files)))

def tableForest (lib : Conf) : List Host → Forest
  | [] => .nil
  | h :: hs => .block kwHost.1 [h.name.getD []] (hostBody lib h) (tableForest lib hs)

/-- A file that can be written down. -/
structure File.Writable (f : File) : Prop where
  path : ∃ p, f.path = some p ∧ StoredAs p
  name : ∃ n, f.name = some n ∧ StoredAs n
  service : IsMask f.service
  server : ∀ s ∈ f.server, StoredAs s
  /-- no gap between the aliases -/
  aliases : f.aliases.toList = f.aliasList.map some ++ List.replicate (fileAliasesMax - f.aliasList.length) none
  words : ∀ a ∈ f.aliasList, StoredAs a

/-- The name of the second is not that of the first. -/
def File.Apart (f g : File) : Prop := ∀ n m, f.name = some n → g.name = some m → strcasecmp m n = false

/-- A host that can be written down, with this C library. -/
structure Host.Writable (lib : Conf) (h : Host) : Prop where
  name : ∃ n, h.name = some n ∧ StoredAs n
  etherValid : utilEtherValid h.eth = true
  ether : lib.etherAton (lib.etherNtoa h.eth) = some h.eth
  etherWord : StoredAs (lib.etherNtoa h.eth)
  ipValid : utilIpValid h.ip = true
  ip : lib.inetAton (lib.inetNtoa h.ip) = some h.ip
  ipWord : StoredAs (lib.inetNtoa h.ip)
  service : IsMask h.service
  files : ∀ f ∈ h.files, f.Writable
  distinct : h.files.Pairwise File.Apart
  /-- `files` of `host_add` has room for them. -/
  room : (beforeNull (filesTexts (strService serviceInit) h.service h.files)).flatten.length < filesSize

def Host.Apart (h g : Host) : Prop := ∀ n m, h.name = some n → g.name = some m → strcasecmp m n = false

/-- The records in memory, each with a pointer to the one behind it. -/
def chained (hs : List Host) : List Host :=
  hs.mapIdx fun i h => { h with next := if i + 1 < hs.length then some (i + 1) else none, session := none }

/-! ## Masks -/

/-- A mask is read back from its words. -/
theorem services_read {m : Nat} (h : IsMask m) :
    (serviceWords m).foldlM (fun dst w => strGetService serviceInit w dst) 0 = some m := by
  have hall : ∀ m : Fin 64,
      (serviceWords m.1).foldlM (fun dst w => strGetService serviceInit w dst) 0 = some m.1 := by
    decide +kernel
  rcases h with rfl | ⟨-, hlt⟩
  · decide +kernel
  · exact hall ⟨m, hlt⟩

theorem serviceWords_stored {m : Nat} {w : CStr} (h : w ∈ serviceWords m) : StoredAs w := by
  have hall : ∀ w ∈ cstr "all" :: serviceInit.map (·.name), w ≠ [] ∧ 0 ∉ w ∧ w.length ≤ 254 ∧ IsValue w := by
    decide +kernel
  have hw : w ∈ cstr "all" :: serviceInit.map (·.name) := by
    unfold serviceWords at h
    split at h
    · exact List.mem_cons.mpr (.inl (List.mem_singleton.mp h))
    · obtain ⟨s, hs, rfl⟩ := List.mem_map.mp h
      exact List.mem_cons_of_mem _ (List.mem_map.mpr ⟨s, (List.mem_filter.mp hs).1, rfl⟩)
  obtain ⟨hne, h0, hlen, hv⟩ := hall w hw
  exact ⟨hne, h0, hlen, hv⟩

theorem serviceWords_length (m : Nat) : (serviceWords m).length ≤ parseValuesMax := by
  unfold serviceWords
  split
  · decide
  · rw [List.length_map]
    exact (List.length_filter_le _ _).trans (by decide)

/-! ## What is written can be read -/

/-- Words that are stored as they are, and no empty blocks. -/
def Forest.Stored : Forest → Prop
  | .nil => True
  | .leaf n vs f => (n ≠ tokClose ∧ StoredAs n) ∧ (∀ v ∈ vs, StoredAs v) ∧ vs.length ≤ parseValuesMax ∧ f.Stored
  | .block n vs sub f => (n ≠ tokClose ∧ StoredAs n) ∧ (∀ v ∈ vs, StoredAs v) ∧ vs.length ≤ parseValuesMax ∧
      sub ≠ .nil ∧ sub.Stored ∧ f.Stored

section
variable {f : Forest} {n v : CStr}

theorem Forest.Stored.printable (h : f.Stored) : f.Printable := by
  induction f with
  | nil => trivial
  | leaf n vs f ih =>
    obtain ⟨hn, hvs, hle, hf⟩ := h
    exact ⟨⟨hn.1, hn.2.short⟩, fun v hv => ⟨(hvs v hv).plain, (hvs v hv).short⟩, hle, ih hf⟩
  | block n vs sub f ihs ihf =>
    obtain ⟨hn, hvs, hle, hne, hsub, hf⟩ := h
    exact ⟨⟨hn.1, hn.2.short⟩, fun v hv => ⟨(hvs v hv).plain, (hvs v hv).short⟩, hle, hne, ihs hsub, ihf hf⟩

theorem Forest.Stored.words (h : f.Stored) : ∀ v ∈ f.print, v ≠ [] ∧ 0 ∉ v := by
  have hdelim : ∀ d ∈ [tokOpen, tokClose, tokSemi], d ≠ [] ∧ 0 ∉ d := by decide
  induction f with
  | nil => exact fun v hv => nomatch hv
  | leaf n vs f ih =>
    obtain ⟨hn, hvs, -, hf⟩ := h
    simp only [Forest.print, List.cons_append, List.mem_cons, List.mem_append]
    rintro v (rfl | hv | rfl | hv)
    · exact ⟨hn.2.ne, hn.2.nul⟩
    · exact ⟨(hvs v hv).ne, (hvs v hv).nul⟩
    · exact hdelim _ (by simp)
    · exact ih hf v hv
  | block n vs sub f ihs ihf =>
    obtain ⟨hn, hvs, -, -, hsub, hf⟩ := h
    simp only [Forest.print, List.cons_append, List.mem_cons, List.mem_append]
    rintro v (rfl | hv | rfl | hv | rfl | hv)
    · exact ⟨hn.2.ne, hn.2.nul⟩
    · exact ⟨(hvs v hv).ne, (hvs v hv).nul⟩
    · exact hdelim _ (by simp)
    · exact ihs hsub v hv
    · exact hdelim _ (by simp)
    · exact ihf hf v hv

/-- The keywords of `host` and `file` blocks. -/
theorem keyword_stored {k : Keyword}
    (hk : k ∈ [kwHost, kwFile, kwName, kwEther, kwIp, kwService, kwAlias, kwServer]) :
    k.1 ≠ tokClose ∧ StoredAs k.1 := by
  have hall : ∀ k ∈ [kwHost, kwFile, kwName, kwEther, kwIp, kwService, kwAlias, kwServer],
      k.1 ≠ tokClose ∧ k.1 ≠ [] ∧ 0 ∉ k.1 ∧ k.1.length ≤ 254 ∧ IsValue k.1 := by decide
  obtain ⟨hclose, hne, h0, hlen, hv⟩ := hall k hk
  exact ⟨hclose, hne, h0, hlen, hv⟩

theorem leaf_stored {k : Keyword} (hk : k ∈ [kwHost, kwFile, kwName, kwEther, kwIp, kwService, kwAlias, kwServer])
    (hv : StoredAs v) (hf : f.Stored) : (Forest.leaf k.1 [v] f).Stored :=
  ⟨keyword_stored hk, fun w hw => List.mem_singleton.mp hw ▸ hv, (by decide : 1 ≤ parseValuesMax), hf⟩

theorem services_stored (m : Nat) (hf : f.Stored) : (Forest.leaf kwService.1 (serviceWords m) f).Stored :=
  ⟨keyword_stored (by simp), fun _ hw => serviceWords_stored hw, serviceWords_length m, hf⟩

theorem fileBody_stored {g : File} (h : g.Writable) : (fileBody g).Stored := by
  obtain ⟨n, hn, hname⟩ := h.name
  have hserver : (serverStatements g.server).Stored := by
    cases hs : g.server with
    | none => trivial
    | some s => exact leaf_stored (by simp) (h.server s hs) trivial
  have halias : ∀ as : List CStr, (∀ a ∈ as, StoredAs a) → (aliasStatements as (serverStatements g.server)).Stored := by
    intro as
    induction as with
    | nil => exact fun _ => hserver
    | cons a as ih =>
      intro has
      exact leaf_stored (by simp) (has a List.mem_cons_self) (ih fun b hb => has b (List.mem_cons_of_mem _ hb))
  rw [fileBody, hn]
  exact leaf_stored (by simp) hname (services_stored _ (halias _ h.words))

theorem filesForest_stored {fs : List File} (h : ∀ g ∈ fs, g.Writable) : (filesForest fs).Stored := by
  induction fs with
  | nil => trivial
  | cons g fs ih =>
    have hg := h g List.mem_cons_self
    obtain ⟨p, hp, hpath⟩ := hg.path
    rw [filesForest, hp]
    exact ⟨keyword_stored (by simp), fun w hw => List.mem_singleton.mp hw ▸ hpath, (by decide : 1 ≤ parseValuesMax),
      by simp [fileBody], fileBody_stored hg, ih fun g hg => h g (List.mem_cons_of_mem _ hg)⟩

/-- A table that can be written down can be read. -/
theorem tableForest_stored {lib : Conf} {hs : List Host} (h : ∀ g ∈ hs, g.Writable lib) :
    (tableForest lib hs).Stored := by
  induction hs with
  | nil => trivial
  | cons g hs ih =>
    have hg := h g List.mem_cons_self
    obtain ⟨n, hn, hname⟩ := hg.name
    rw [tableForest, hn]
    refine ⟨keyword_stored (by simp), fun w hw => List.mem_singleton.mp hw ▸ hname, (by decide : 1 ≤ parseValuesMax),
      by simp [hostBody], ?_,
      ih fun g hg => h g (List.mem_cons_of_mem _ hg)⟩
    exact leaf_stored (by simp) hg.etherWord (leaf_stored (by simp) hg.ipWord
      (services_stored _ (filesForest_stored hg.files)))

end

/-! ## Statements of a block -/

namespace Forest

/-- The keywords. -/
def keywords : Forest → List CStr
  | .nil => []
  | .leaf n _ f => n :: f.keywords
  | .block n _ _ f => n :: f.keywords

/-- The values of the statements with this keyword. -/
def valuesOf (k : CStr) : Forest → List (List CStr)
  | .nil => []
  | .leaf n vs f => if n = k then vs :: f.valuesOf k else f.valuesOf k
  | .block n vs _ f => if n = k then vs :: f.valuesOf k else f.valuesOf k

end Forest

section
variable {f : Forest} {k : Keyword} {lo : Nat} {es : List ConfEntry} {st : Setup} {L : List CStr}

theorem keywords_entries (lo : Nat) (f : Forest) : (f.entries lo).map (·.name) = f.keywords := by
  induction f generalizing lo with
  | nil => rfl
  | leaf n vs f ih => rw [Forest.entries, List.map_cons, ih, Forest.keywords]
  | block n vs sub f _ ih => rw [Forest.entries, List.map_cons, ih, Forest.keywords]

theorem valuesOf_entries (k : Keyword) (lo : Nat) (f : Forest) :
    (named k (f.entries lo)).map (·.values) = f.valuesOf k.1 := by
  induction f generalizing lo with
  | nil => rfl
  | leaf n vs f ih =>
    rw [Forest.entries, Forest.valuesOf]
    by_cases hn : n = k.1
    · rw [named_cons_pos hn, List.map_cons, ih, if_pos hn]
    · rw [named_cons_neg hn, ih, if_neg hn]
  | block n vs sub f _ ih =>
    rw [Forest.entries, Forest.valuesOf]
    by_cases hn : n = k.1
    · rw [named_cons_pos hn, List.map_cons, ih, if_pos hn]
    · rw [named_cons_neg hn, ih, if_neg hn]

theorem known_run (h : ∀ n ∈ f.keywords, n ∈ L) : known (f.entries lo) L st = .ok ((), st) := by
  have hin : ∀ e ∈ f.entries lo, e.name ∈ L := fun e he => by
    refine h e.name ?_
    rw [← keywords_entries lo f]
    exact List.mem_map_of_mem he
  exact known_ok.mpr ⟨hin, rfl⟩

/-- A statement that is missing. -/
theorem single_absent {α : Type} {conv : ConfEntry → MeaningM α} {dst : α} (h : f.valuesOf k.1 = []) :
    single (f.entries lo) k conv dst st = .ok (dst, st) := by
  have hnil : named k (f.entries lo) = [] := List.map_eq_nil_iff.mp ((valuesOf_entries k lo f).trans h)
  unfold single
  rw [hnil]
  rfl

/-- A statement with its value. -/
theorem single_present {α : Type} {conv : ConfEntry → MeaningM α} {dst a : α} {v : CStr}
    (h : f.valuesOf k.1 = [[v]]) (hconv : ∀ e : ConfEntry, e.value = v → conv e st = .ok (a, st)) :
    single (f.entries lo) k conv dst st = .ok (a, st) := by
  obtain ⟨e, hone, hv⟩ := List.map_eq_singleton_iff.mp ((valuesOf_entries k lo f).trans h)
  unfold single
  simp only [hone, hv, List.length_singleton, ne_eq, not_true_eq_false, if_false]
  exact hconv e (by rw [ConfEntry.value, hv]; rfl)

theorem services_run (lo : Nat) {m : Nat} (hm : IsMask m) (h : f.valuesOf kwService.1 = [serviceWords m])
    (hst : svcKeys st.services = svcKeys serviceInit) : services (f.entries lo) 0 st = .ok (m, st) := by
  have hread : readServices st.services (named kwService (f.entries lo)) 0 = some m := by
    rw [readServices_congr hst]
    unfold readServices
    rw [List.flatMap_def, valuesOf_entries, h, List.flatten_singleton]
    exact services_read hm
  show orReport [] (readServices st.services _ 0) st = _
  rw [hread]
  rfl

theorem aliases_run (lo : Nat) (st : Setup) {as : List CStr} (h : f.valuesOf kwAlias.1 = as.map fun a => [a])
    (n : Nat) :
    ∃ v : Vector (Option CStr) n, aliases (f.entries lo) n st = .ok (v, st) ∧
      v.toList = (List.range n).map fun i => as[i]? := by
  induction n with
  | zero => exact ⟨#v[], rfl, rfl⟩
  | succ n ih =>
    obtain ⟨v, hv, hlist⟩ := ih
    have hlast : aliasOf (named kwAlias (f.entries lo))[n]? st = .ok (as[n]?, st) := by
      have hget := congrArg (·[n]?) ((valuesOf_entries kwAlias lo f).trans h)
      simp only [List.getElem?_map] at hget
      cases he : (named kwAlias (f.entries lo))[n]? with
      | none =>
        rw [he, Option.map_none] at hget
        rw [Option.map_eq_none_iff.mp hget.symm]
        rfl
      | some e =>
        rw [he, Option.map_some] at hget
        obtain ⟨a, ha, hval⟩ := Option.map_eq_some_iff.mp hget.symm
        rw [ha, aliasOf, if_neg (by rw [← hval]; exact not_not.mpr rfl), ConfEntry.value, ← hval]
        rfl
    refine ⟨v.push as[n]?, bind_ok.mpr ⟨v, st, hv, bind_ok.mpr ⟨_, st, hlast, rfl⟩⟩, ?_⟩
    rw [Vector.toList_push, hlist, List.range_succ, List.map_append]
    rfl

end

/-! ## The blocks -/

theorem aliasStatements_keywords (as : List CStr) (f : Forest) :
    (aliasStatements as f).keywords = as.map (fun _ => kwAlias.1) ++ f.keywords := by
  induction as with
  | nil => rfl
  | cons a as ih => rw [aliasStatements, Forest.keywords, ih]; rfl

theorem aliasStatements_values (as : List CStr) (f : Forest) (k : CStr) : (aliasStatements as f).valuesOf k =
    (if kwAlias.1 = k then as.map fun a => [a] else []) ++ f.valuesOf k := by
  induction as with
  | nil => simp [aliasStatements]
  | cons a as ih =>
    rw [aliasStatements, Forest.valuesOf, ih]
    split <;> simp

theorem serverStatements_values (s : Option CStr) (k : CStr) : (serverStatements s).valuesOf k =
    if kwServer.1 = k then s.toList.map fun s => [s] else [] := by
  cases s with
  | none => simp [serverStatements, Forest.valuesOf]
  | some s => simp [serverStatements, Forest.valuesOf]

theorem serverStatements_keywords (s : Option CStr) : ∀ n ∈ (serverStatements s).keywords, n = kwServer.1 := by
  cases s with
  | none => exact fun n hn => nomatch hn
  | some s => exact fun n hn => List.mem_singleton.mp hn

theorem filesForest_keywords (fs : List File) : ∀ n ∈ (filesForest fs).keywords, n = kwFile.1 := by
  induction fs with
  | nil => exact fun n hn => nomatch hn
  | cons f fs ih =>
    intro n hn
    exact (List.mem_cons.mp hn).elim id (ih n)

theorem filesForest_values (fs : List File) {k : CStr} (hk : kwFile.1 ≠ k) : (filesForest fs).valuesOf k = [] := by
  induction fs with
  | nil => rfl
  | cons f fs ih => rw [filesForest, Forest.valuesOf, if_neg hk, ih]

/-! ## A file -/

section
variable {f : File} {files : List File} {lo : Nat} {st : Setup}

theorem File.Writable.aliasList_length (h : f.Writable) : f.aliasList.length ≤ fileAliasesMax := by
  have hlen := congrArg List.length h.aliases
  rw [Vector.length_toList, List.length_append, List.length_map, List.length_replicate] at hlen
  omega

/-- The first `n` of a shorter list. -/
theorem range_getElem? {α : Type} {as : List α} {n : Nat} (h : as.length ≤ n) :
    (List.range n).map (fun i => as[i]?) = as.map some ++ List.replicate (n - as.length) none := by
  refine List.ext_getElem (by simp; omega) fun i hi _ => ?_
  rw [List.getElem_map, List.getElem_range]
  by_cases hlt : i < as.length
  · rw [List.getElem_append_left (by rwa [List.length_map]), List.getElem_map, List.getElem?_eq_getElem hlt]
  · rw [List.getElem_append_right (by rw [List.length_map]; omega), List.getElem_replicate,
      List.getElem?_eq_none (by omega)]

/-- **A file's record is read back from its block.** -/
theorem fileRecord_read_back (h : f.Writable) (hst : svcKeys st.services = svcKeys serviceInit) {e : ConfEntry}
    (hvals : e.values = [f.path.getD []]) (hsub : e.sub = (fileBody f).entries lo) :
    Meaning.fileRecord e st = .ok (f, st) := by
  obtain ⟨p, hp, -⟩ := h.path
  obtain ⟨n, hn, -⟩ := h.name
  have hbody : ∀ k : CStr, (fileBody f).valuesOf k = (if kwName.1 = k then [[f.name.getD []]] else []) ++
      ((if kwService.1 = k then [serviceWords f.service] else []) ++
      ((if kwAlias.1 = k then f.aliasList.map fun a => [a] else []) ++
      if kwServer.1 = k then f.server.toList.map fun s => [s] else [])) := by
    intro k
    rw [fileBody, Forest.valuesOf, Forest.valuesOf, aliasStatements_values, serverStatements_values]
    split_ifs <;> simp
  have hself : self e (Meaning.string none) none st = .ok (f.path, st) := by
    have hone : ¬e.values.length ≠ 1 := by rw [hvals]; exact not_not.mpr rfl
    rw [self, if_neg hone, Meaning.string, ConfEntry.value, hvals, hp]
    rfl
  have hpath : single ((fileBody f).entries lo) kwPath (Meaning.string f.path) f.path st = .ok (f.path, st) :=
    single_absent (hbody kwPath.1)
  have hname : single ((fileBody f).entries lo) kwName (Meaning.string none) none st = .ok (f.name, st) := by
    refine single_present (hbody kwName.1) fun e he => ?_
    rw [Meaning.string, he, hn]
    rfl
  have hservice := services_run lo h.service (hbody kwService.1) hst
  have halias : (fileBody f).valuesOf kwAlias.1 = f.aliasList.map fun a => [a] :=
    (hbody kwAlias.1).trans (List.append_nil _)
  obtain ⟨v, haliases, hlist⟩ := aliases_run lo st halias fileAliasesMax
  have hv : v = f.aliases := by
    rw [← Vector.toList_inj, hlist, h.aliases]
    exact range_getElem? h.aliasList_length
  have hmax : ¬fileAliasesMax < (named kwAlias ((fileBody f).entries lo)).length := by
    have hlen := congrArg List.length ((valuesOf_entries kwAlias lo (fileBody f)).trans halias)
    rw [List.length_map, List.length_map] at hlen
    rw [hlen]
    exact Nat.not_lt.mpr h.aliasList_length
  have hserver : single ((fileBody f).entries lo) kwServer (Meaning.string none) none st = .ok (f.server, st) := by
    cases hs : f.server with
    | none =>
      have hnil := hbody kwServer.1
      rw [hs] at hnil
      exact single_absent hnil
    | some s =>
      have hone := hbody kwServer.1
      rw [hs] at hone
      refine single_present hone fun e he => ?_
      rw [Meaning.string, he]
      rfl
  have hknown : known ((fileBody f).entries lo) [kwServer.1, kwAlias.1, kwService.1, kwName.1, kwPath.1] st =
      .ok ((), st) := by
    refine known_run fun n hn => ?_
    rw [fileBody, Forest.keywords, Forest.keywords, aliasStatements_keywords] at hn
    simp only [List.mem_cons, List.mem_append, List.mem_map] at hn ⊢
    rcases hn with rfl | rfl | ⟨a, -, rfl⟩ | hn
    · simp
    · simp
    · simp
    · simp [serverStatements_keywords _ n hn]
  unfold Meaning.fileRecord
  rw [hsub]
  refine bind_ok.mpr ⟨_, st, hself, bind_ok.mpr ⟨_, st, hpath, bind_ok.mpr ⟨_, st, hname,
    bind_ok.mpr ⟨_, st, hservice, bind_ok.mpr ⟨v, st, haliases, ?_⟩⟩⟩⟩⟩
  rw [if_neg hmax]
  refine bind_ok.mpr ⟨_, st, hserver, bind_ok.mpr ⟨_, st, hknown, ?_⟩⟩
  rw [hv]
  rfl

theorem fileListed_apart {n : CStr} (h : ∀ g ∈ files, ∃ m, g.name = some m ∧ strcasecmp n m = false) :
    fileListed n files = .ok false := by
  induction files with
  | nil => rfl
  | cons g files ih =>
    obtain ⟨m, hm, hne⟩ := h g List.mem_cons_self
    simp only [fileListed, hm, hne, Bool.false_eq_true, if_false]
    exact ih fun g hg => h g (List.mem_cons_of_mem _ hg)

/-- `host_file_add` takes it as it is. -/
theorem hostFileAdd_writable (h : f.Writable) (hfiles : ∀ g ∈ files, g.Writable) (hapart : ∀ g ∈ files, g.Apart f) :
    hostFileAdd files f = .ok (files ++ [f]) := by
  obtain ⟨p, hp, hstored⟩ := h.path
  obtain ⟨n, hn, -⟩ := h.name
  have hname : fileName f = .ok (some n) := by rw [fileName, hn]
  have hopen : strIsEqual f.path (some tokOpen) = false := by
    rw [hp, strIsEqual]
    exact beq_eq_false_iff_ne.mpr hstored.plain.1
  have hlisted : fileListed n files = .ok false := fileListed_apart fun g hg => by
    obtain ⟨m, hm, -⟩ := (hfiles g hg).name
    exact ⟨m, hm, hapart g hg m n hm hn⟩
  unfold hostFileAdd
  rw [hname]
  show (fileListed n files >>= _) = _
  rw [hlisted, hopen]
  show Except.ok _ = _
  simp only [Bool.false_eq_true, if_false]
  rw [← hn]

/-- The files are read back one after the other. -/
theorem files_read_back (lo : Nat) (files : List File) {fs : List File}
    (hst : svcKeys st.services = svcKeys serviceInit) (hfs : ∀ f ∈ files ++ fs, f.Writable)
    (hapart : (files ++ fs).Pairwise File.Apart) :
    (named kwFile ((filesForest fs).entries lo)).foldlM (fun b e => Meaning.file e b) files st =
      .ok (files ++ fs, st) := by
  induction fs generalizing lo files with
  | nil => rw [List.append_nil]; rfl
  | cons f fs ih =>
    have hf := hfs f (List.mem_append_right _ List.mem_cons_self)
    obtain ⟨-, -, hcross⟩ := List.pairwise_append.mp hapart
    rw [filesForest, Forest.entries, named_cons_pos rfl, List.foldlM_cons]
    have hadd : hostFileAdd files f = .ok (files ++ [f]) := hostFileAdd_writable hf
      (fun g hg => hfs g (List.mem_append_left _ hg)) fun g hg => hcross g hg f List.mem_cons_self
    have hround : ∀ e : ConfEntry, e.values = [f.path.getD []] → e.sub = (fileBody f).entries (lo + 1) →
        Meaning.file e files st = .ok (files ++ [f], st) := by
      intro e hvals hsub
      exact bind_ok.mpr ⟨f, st, fileRecord_read_back hf hst hvals hsub, call_ok.mpr (lift_ok.mpr ⟨hadd, rfl⟩)⟩
    rw [List.append_cons] at hfs hapart ⊢
    exact bind_ok.mpr ⟨_, st, hround _ rfl rfl, ih _ _ hfs hapart⟩

end

/-! ## A host -/

section
variable {env : SetupEnv} {h : Host} {hs : List Host} {lo : Nat} {st : Setup}

/-- **A host's record is read back from its block.** -/
theorem hostRecord_read_back (h' : h.Writable env.lib) (hst : svcKeys st.services = svcKeys serviceInit)
    {e : ConfEntry} (hvals : e.values = [h.name.getD []]) (hsub : e.sub = (hostBody env.lib h).entries lo) :
    Meaning.hostRecord env e st = .ok (h.fresh, st) := by
  obtain ⟨n, hn, -⟩ := h'.name
  have hbody : ∀ k : CStr, kwFile.1 ≠ k → (hostBody env.lib h).valuesOf k =
      (if kwEther.1 = k then [[env.lib.etherNtoa h.eth]] else []) ++
      ((if kwIp.1 = k then [[env.lib.inetNtoa h.ip]] else []) ++
      if kwService.1 = k then [serviceWords h.service] else []) := by
    intro k hk
    rw [hostBody, Forest.valuesOf, Forest.valuesOf, Forest.valuesOf, filesForest_values _ hk]
    split_ifs <;> simp
  have hself : self e (Meaning.string none) none st = .ok (h.name, st) := by
    have hone : ¬e.values.length ≠ 1 := by rw [hvals]; exact not_not.mpr rfl
    rw [self, if_neg hone, Meaning.string, ConfEntry.value, hvals, hn]
    rfl
  have hname : single ((hostBody env.lib h).entries lo) kwName (Meaning.string h.name) h.name st = .ok (h.name, st) :=
    single_absent (hbody kwName.1 (by decide))
  have hether : single ((hostBody env.lib h).entries lo) kwEther (Meaning.ether env) .zero st = .ok (h.eth, st) := by
    refine single_present (hbody kwEther.1 (by decide)) fun e he => ?_
    rw [Meaning.ether, he, h'.ether]
    rfl
  have hip : single ((hostBody env.lib h).entries lo) kwIp (Meaning.ip env) 0 st = .ok (h.ip, st) := by
    refine single_present (hbody kwIp.1 (by decide)) fun e he => ?_
    rw [Meaning.ip, he, h'.ip]
    rfl
  have hservice := services_run lo h'.service (hbody kwService.1 (by decide)) hst
  have hfiles : each ((hostBody env.lib h).entries lo) kwFile Meaning.file [] st = .ok (h.files, st) := by
    unfold each hostBody
    rw [Forest.entries, named_cons_neg (show kwEther.1 ≠ kwFile.1 by decide), Forest.entries,
      named_cons_neg (show kwIp.1 ≠ kwFile.1 by decide), Forest.entries,
      named_cons_neg (show kwService.1 ≠ kwFile.1 by decide)]
    exact files_read_back _ [] hst h'.files h'.distinct
  have hknown : known ((hostBody env.lib h).entries lo) [kwFile.1, kwService.1, kwIp.1, kwEther.1, kwName.1] st =
      .ok ((), st) := by
    refine known_run fun n hn => ?_
    rw [hostBody, Forest.keywords, Forest.keywords, Forest.keywords] at hn
    simp only [List.mem_cons] at hn ⊢
    rcases hn with rfl | rfl | rfl | hn
    · simp
    · simp
    · simp
    · simp [filesForest_keywords _ n hn]
  unfold Meaning.hostRecord
  rw [hsub]
  exact bind_ok.mpr ⟨_, st, hself, bind_ok.mpr ⟨_, st, hname, bind_ok.mpr ⟨_, st, hether, bind_ok.mpr ⟨_, st, hip,
    bind_ok.mpr ⟨_, st, hservice, bind_ok.mpr ⟨_, st, hfiles, bind_ok.mpr ⟨_, st, hknown, rfl⟩⟩⟩⟩⟩⟩⟩

/-- `host_add` has nothing to complete. -/
theorem Host.Writable.complete (h' : h.Writable env.lib) {c : Conf} (hc : c.strService = strService serviceInit)
    (os : Os) (w : World) : hostComplete c os w h.fresh = .ok (h.fresh, true) := by
  obtain ⟨n, hn, -⟩ := h'.name
  have hmask : ∀ {m : Nat}, IsMask m → m ≠ 0 := by
    rintro m (rfl | h)
    · decide
    · omega
  have hnamed : ¬∃ f ∈ h.files, f.path = none ∨ f.name = none := by
    rintro ⟨f, hf, hno⟩
    obtain ⟨p, hp, -⟩ := (h'.files f hf).path
    obtain ⟨n, hn, -⟩ := (h'.files f hf).name
    simp [hp, hn] at hno
  have hname : hostName c os w h.fresh = .ok (some n) := by
    rw [hostName, Host.fresh]
    simp only [hn]
  have hip : hostIp c os w h.fresh n = .ok h.ip := if_pos h'.ipValid
  have heth : hostEther c os w h.fresh n = .ok (some h.eth) := if_pos h'.etherValid
  have hservice : h.fresh.mask = h.service := if_neg (hmask h'.service)
  have hfit : TextsFit c h.fresh.mask h.fresh.files := by
    unfold TextsFit
    rw [hservice, hc]
    exact h'.room
  have hsame : h.files.map (File.masked h.service) = h.files :=
    (List.map_congr_left fun f hf => masked_of_ne (hmask (h'.files f hf).service)).trans (List.map_id' _)
  have hfiles : filesMasked h.service h.fresh.files = .ok h.files := (if_neg hnamed).trans (congrArg _ hsame)
  rw [hostComplete_addressed hname hip heth, if_pos hfit]
  unfold hostMasked
  rw [hservice, hfiles, Host.fresh, hn]
  rfl

/-- The table, record by record in memory. -/
structure World.Lists (w : World) (hs : List Host) : Prop where
  hosts : w.hosts = chained hs
  head : w.gHosts = if hs = [] then none else some 0

theorem chained_length (hs : List Host) : (chained hs).length = hs.length := List.length_mapIdx

theorem chained_getElem? (hs : List Host) (i : Nat) : (chained hs)[i]? = hs[i]?.map fun h =>
    { h with next := if i + 1 < hs.length then some (i + 1) else none, session := none } := List.getElem?_mapIdx

/-- The last pointer is set to the new record. -/
theorem chained_push (hs : List Host) (hne : hs ≠ []) (h : Host) :
    (chained hs ++ [h.fresh]).modify (hs.length - 1) (fun h => { h with next := some hs.length }) =
      chained (hs ++ [h]) := by
  have hpos := List.length_pos_of_ne_nil hne
  refine List.ext_getElem? fun i => ?_
  rw [List.getElem?_modify, chained_getElem?, List.length_append, List.length_singleton]
  rcases Nat.lt_trichotomy i hs.length with hlt | rfl | hgt
  · rw [List.getElem?_append_left (by rwa [chained_length]), List.getElem?_append_left hlt, chained_getElem?,
      List.getElem?_eq_getElem hlt]
    by_cases hlast : hs.length - 1 = i
    · simp [hlast, show i + 1 = hs.length by omega]
    · simp [hlast, show i + 1 < hs.length + 1 by omega, show i + 1 < hs.length by omega]
  · rw [List.getElem?_append_right (by rw [chained_length]), chained_length, Nat.sub_self,
      List.getElem?_append_right (Nat.le_refl _), Nat.sub_self]
    simp [show hs.length - 1 ≠ hs.length by omega, Host.fresh]
  · rw [List.getElem?_eq_none (by rw [List.length_append, chained_length, List.length_singleton]; omega),
      List.getElem?_eq_none (by rw [List.length_append, List.length_singleton]; omega)]
    rfl

/-- The walk to the last record, if no name on the way is that of the new one. -/
theorem hostTail_chained {w : World} {n : CStr} {g : Host} (hw : w.hosts = chained hs ++ [g])
    (hnames : ∀ h ∈ hs, ∃ m, h.name = some m ∧ strcasecmp n m = false) (k i m : Nat) (hk : i + k + 1 = hs.length) :
    hostTail w n (k + 1 + m) i = .ok (some (hs.length - 1)) := by
  induction k generalizing i with
  | zero =>
    have hi : i < hs.length := by omega
    have hget : w.hosts[i]? = some { hs[i] with next := none, session := none } := by
      rw [hw, List.getElem?_append_left (by rwa [chained_length]), chained_getElem?, List.getElem?_eq_getElem hi,
        if_neg (by omega)]
      rfl
    obtain ⟨l, hl, hne⟩ := hnames _ (List.getElem_mem hi)
    rw [show 0 + 1 + m = m + 1 by omega, hostTail, hget]
    simp only [hostNamed, hl, hne]
    rw [show i = hs.length - 1 by omega]
  | succ k ih =>
    have hi : i < hs.length := by omega
    have hget : w.hosts[i]? = some { hs[i] with next := some (i + 1), session := none } := by
      rw [hw, List.getElem?_append_left (by rwa [chained_length]), chained_getElem?, List.getElem?_eq_getElem hi,
        if_pos (by omega)]
      rfl
    obtain ⟨l, hl, hne⟩ := hnames _ (List.getElem_mem hi)
    rw [show k + 1 + 1 + m = k + 1 + m + 1 by omega, hostTail, hget]
    simp only [hostNamed, hl, hne]
    exact ih (i + 1) (by omega)

/-- **A host is added behind the others.** -/
theorem addHost_chained (hl : st.w.Lists hs) (hst : svcKeys st.services = svcKeys serviceInit)
    (h' : h.Writable env.lib) (hhs : ∀ g ∈ hs, g.Writable env.lib) (hapart : ∀ g ∈ hs, g.Apart h) :
    ∃ w acc, addHost env h.fresh st = .ok ((), { st with w := w, accepted := acc }) ∧ w.Lists (hs ++ [h]) := by
  obtain ⟨n, hn, -⟩ := h'.name
  have hlen : st.w.hosts.length = hs.length := by rw [hl.hosts, chained_length]
  have hload : loadHost st.w.hosts.length (st.w.allocHost h.fresh) = .ok h.fresh (st.w.allocHost h.fresh) :=
    loadHost_ok.mpr ⟨allocHost_new _ _, rfl⟩
  have hinsert : ∃ w', hostInsert st.w.hosts.length n (st.w.allocHost h.fresh) = .ok true w' ∧
      w'.Lists (hs ++ [h]) := by
    unfold hostInsert
    rw [Exec.get_run, World.allocHost_gHosts, hl.head]
    by_cases hnil : hs = []
    · subst hnil
      refine ⟨_, rfl, ?_, ?_⟩
      · show st.w.hosts ++ [h.fresh] = chained [h]
        rw [hl.hosts]
        rfl
      · show some st.w.hosts.length = _
        rw [hlen]
        rfl
    · have hpos := List.length_pos_of_ne_nil hnil
      have htail : hostTail (st.w.allocHost h.fresh) n (st.w.allocHost h.fresh).hosts.length 0 =
          .ok (some (hs.length - 1)) := by
        have hsize : (st.w.allocHost h.fresh).hosts.length = (hs.length - 1) + 1 + 1 := by
          rw [World.allocHost_hosts, List.length_append, hlen, List.length_singleton]
          omega
        rw [hsize]
        refine hostTail_chained (g := h.fresh) (by rw [World.allocHost_hosts, hl.hosts]) (fun g hg => ?_) _ 0 1
          (by omega)
        obtain ⟨m, hm, -⟩ := (hhs g hg).name
        exact ⟨m, hm, hapart g hg m n hm hn⟩
      rw [if_neg hnil]
      simp only
      rw [htail]
      refine ⟨_, rfl, ?_, ?_⟩
      · show (st.w.hosts ++ [h.fresh]).modify (hs.length - 1) _ = _
        rw [hlen, hl.hosts]
        exact chained_push hs hnil h
      · show st.w.gHosts = _
        rw [hl.head, if_neg hnil, if_neg (by simp)]
  obtain ⟨w', hins, hlists⟩ := hinsert
  have hfresh : h.fresh.name = some n := hn
  have hset : (st.w.allocHost h.fresh).setHost st.w.hosts.length (fun _ => h.fresh) = st.w.allocHost h.fresh :=
    setHost_allocHost _ _ _
  have hhost : hostAdd (st.conf env) env.os st.w.hosts.length (st.w.allocHost h.fresh) = .ok true w' := by
    unfold hostAdd
    rw [Exec.bind_run hload, Exec.get_run, h'.complete (strService_congr hst), Exec.liftE_ok, pure_bind]
    simp only [hfresh]
    exact Exec.bind_ok.mpr ⟨(), _, congrArg (EStateM.Result.ok ()) hset, hins⟩
  have hadd : hostAddNew (st.conf env) env.os h.fresh st.w = .ok (st.w.hosts.length, true) w' :=
    Exec.bind_ok.mpr ⟨_, _, hostAlloc_ok.mpr ⟨rfl, rfl⟩, Exec.bind_ok.mpr ⟨true, w', hhost, rfl⟩⟩
  refine ⟨w', st.accepted ++ [st.w.hosts.length], ?_, hlists⟩
  refine bind_ok.mpr ⟨st, st, rfl, ?_⟩
  rw [hadd]
  rfl

/-- The hosts are read back one after the other. -/
theorem hosts_read_back (lo : Nat) {todo : List Host} (hl : st.w.Lists hs)
    (hst : svcKeys st.services = svcKeys serviceInit)
    (hw : ∀ g ∈ hs ++ todo, g.Writable env.lib) (hapart : (hs ++ todo).Pairwise Host.Apart) :
    ∃ w acc, (named kwHost ((tableForest env.lib todo).entries lo)).foldlM (fun b e => Meaning.host env e b) () st =
      .ok ((), { st with w := w, accepted := acc }) ∧ w.Lists (hs ++ todo) := by
  induction todo generalizing hs lo st with
  | nil => exact ⟨st.w, st.accepted, rfl, by rwa [List.append_nil]⟩
  | cons h todo ih =>
    have h' := hw h (List.mem_append_right _ List.mem_cons_self)
    obtain ⟨-, -, hcross⟩ := List.pairwise_append.mp hapart
    obtain ⟨w₁, acc₁, hadd, hl₁⟩ := addHost_chained hl hst h' (fun g hg => hw g (List.mem_append_left _ hg))
      fun g hg => hcross g hg h List.mem_cons_self
    have hround : ∀ e : ConfEntry, e.values = [h.name.getD []] → e.sub = (hostBody env.lib h).entries (lo + 1) →
        Meaning.host env e () st = .ok ((), { st with w := w₁, accepted := acc₁ }) := fun e hvals hsub =>
      bind_ok.mpr ⟨_, st, hostRecord_read_back h' hst hvals hsub, call_ok.mpr hadd⟩
    rw [List.append_cons] at hw hapart ⊢
    let st₁ : Setup := { st with w := w₁, accepted := acc₁ }
    obtain ⟨w, acc, hrest, hl'⟩ := @ih _ st₁ (lo + 1 + (hostBody env.lib h).size) hl₁ hst hw hapart
    refine ⟨w, acc, ?_, hl'⟩
    rw [tableForest, Forest.entries, named_cons_pos rfl, List.foldlM_cons]
    exact bind_ok.mpr ⟨(), _, hround _ rfl rfl, hrest⟩

/-! ## Behind other statements -/

theorem tableForest_values (lib : Conf) (hs : List Host) {k : CStr} (hk : kwHost.1 ≠ k) :
    (tableForest lib hs).valuesOf k = [] := by
  induction hs with
  | nil => rfl
  | cons h hs ih => rw [tableForest, Forest.valuesOf, if_neg hk, ih]

theorem tableForest_keywords (lib : Conf) (hs : List Host) : ∀ n ∈ (tableForest lib hs).keywords, n = kwHost.1 := by
  induction hs with
  | nil => exact fun n hn => nomatch hn
  | cons h hs ih =>
    intro n hn
    exact (List.mem_cons.mp hn).elim id (ih n)

theorem entries_append (lo : Nat) (f g : Forest) :
    (f.append g).entries lo = f.entries lo ++ g.entries (lo + f.size) := by
  induction f generalizing lo with
  | nil => rfl
  | leaf n vs f ih =>
    rw [Forest.append, Forest.entries, ih, Forest.entries, Forest.size, List.cons_append]
    congr 3
    omega
  | block n vs sub f _ ih =>
    rw [Forest.append, Forest.entries, ih, Forest.entries, Forest.size, List.cons_append]
    congr 3
    omega

theorem append_printable {f g : Forest} (hf : f.Printable) (hg : g.Printable) : (f.append g).Printable := by
  induction f with
  | nil => exact hg
  | leaf n vs f ih => exact ⟨hf.1, hf.2.1, hf.2.2.1, ih hf.2.2.2⟩
  | block n vs sub f _ ih => exact ⟨hf.1, hf.2.1, hf.2.2.1, hf.2.2.2.1, hf.2.2.2.2.1, ih hf.2.2.2.2.2⟩

/-- What is evaluated in front of the hosts does not look at them. -/
theorem head_congr {es es' : List ConfEntry} (h : ∀ k : Keyword, kwHost.1 ≠ k.1 → named k es = named k es') :
    Meaning.head env es = Meaning.head env es' := by
  have hsingle : ∀ {α : Type} (k : Keyword), kwHost.1 ≠ k.1 →
      (single es k : (ConfEntry → MeaningM α) → α → MeaningM α) = single es' k := by
    intro α k hk
    unfold single
    rw [h k hk]
  unfold Meaning.head Meaning.log Meaning.basic each
  simp only [h kwLog (by decide), h kwService (by decide), hsingle kwChroot (by decide),
    hsingle kwDirectory (by decide), hsingle kwResolveEther (by decide), hsingle kwResolveIp (by decide),
    hsingle kwSessionMax (by decide), hsingle kwSessionTimeout (by decide)]

theorem named_append (k : Keyword) (es es' : List ConfEntry) : named k (es ++ es') = named k es ++ named k es' :=
  List.filter_append ..

theorem named_missing {k : Keyword} {f : Forest} (hk : k.1 ∉ f.keywords) (lo : Nat) : named k (f.entries lo) = [] := by
  refine List.filter_eq_nil_iff.mpr fun e he hname => hk ?_
  rw [← of_decide_eq_true hname, ← keywords_entries lo f]
  exact List.mem_map_of_mem he

/-- **The hosts of the configuration are the table**: put behind any statements that are
accepted and have no hosts, it adds exactly these hosts. -/
theorem confFile_reads {front : Forest} {s₀ : EvalState} (hfront : kwHost.1 ∉ front.keywords)
    (hconf : confFile env (front.entries 0) (.start st) = .ok () s₀) (hst : svcKeys st.services = svcKeys serviceInit)
    (hhosts : st.w.hosts = []) (hg : st.w.gHosts = none) (hw : ∀ g ∈ hs, g.Writable env.lib)
    (hapart : hs.Pairwise Host.Apart) :
    ∃ s w acc, confFile env ((front.append (tableForest env.lib hs)).entries 0) (.start st) = .ok () s ∧
      s.setup = { s₀.setup with w := w, accepted := acc } ∧ w.Lists hs := by
  have hd := entries_distinct 0 front
  obtain ⟨-, s₁, -, hkeep, hrounds⟩ := confFile_ok hd (fun e _ => start_fresh st e) hconf
  rw [named_missing hfront] at hrounds
  cases hrounds
  obtain ⟨_, st₁, hhead, hrest⟩ := bind_ok.mp ((conf_accepted hd).mpr ⟨s₀, hconf, rfl⟩)
  obtain ⟨_, st₂, hnone, hrest⟩ := bind_ok.mp hrest
  rw [each, named_missing hfront] at hnone
  cases hnone
  obtain ⟨hknown, hsetup⟩ := known_ok.mp hrest
  rw [← hsetup] at hhead
  -- the statements in front of the hosts are the same
  have hsplit := entries_append 0 front (tableForest env.lib hs)
  rw [Nat.zero_add] at hsplit
  have hnamed : ∀ k : Keyword, kwHost.1 ≠ k.1 →
      named k (front.entries 0) = named k (front.entries 0 ++ (tableForest env.lib hs).entries front.size) := by
    intro k hk
    have hnil : named k ((tableForest env.lib hs).entries front.size) = [] :=
      List.map_eq_nil_iff.mp ((valuesOf_entries k _ _).trans (tableForest_values env.lib hs hk))
    rw [named_append, hnil, List.append_nil]
  have hlists : s₀.setup.w.Lists [] := ⟨hkeep.w.hosts.trans hhosts, hkeep.w.gHosts.trans hg⟩
  obtain ⟨w, acc, hrun, hl⟩ := hosts_read_back front.size hlists (hkeep.keys.trans hst) hw hapart
  have hmean : Meaning.conf env ((front.append (tableForest env.lib hs)).entries 0) st =
      .ok ((), { s₀.setup with w := w, accepted := acc }) := by
    rw [hsplit]
    refine bind_ok.mpr ⟨(), _, (congrFun (head_congr hnamed) st).symm.trans hhead,
      bind_ok.mpr ⟨(), { s₀.setup with w := w, accepted := acc }, ?_, ?_⟩⟩
    · rw [each, named_append, named_missing hfront]
      exact hrun
    · refine known_ok.mpr ⟨fun e he => ?_, rfl⟩
      rcases List.mem_append.mp he with he | he
      · exact hknown e he
      · have hname : e.name ∈ (tableForest env.lib hs).keywords := by
          rw [← keywords_entries front.size]
          exact List.mem_map_of_mem he
        rw [tableForest_keywords _ _ _ hname]
        exact List.mem_cons_self
  obtain ⟨s, hs, hsame⟩ := (conf_accepted (entries_distinct 0 _)).mp hmean
  exact ⟨s, w, acc, hs, hsame, hl⟩

end

end Bootd
