import Bootd.Config.Complete
import Bootd.Config.Loaded

/-!
# Blocks whose entries are ignored

`conf.c` reports an entry that is left in a list with `i_assure_no_entry`. It does
so for the outermost level and for the blocks of `host`, `file` and `log`
(src/conf.c:98, 293, 314, 340), but

* `i_eval_services` does not: what a `service` block holds besides `device` or
  `bind` is never looked at (src/conf.c:370-388);
* no function looks at the block of a statement that has a value only: in
  `i_get_entry_single_value` and in the loops `e->sub` does not occur.

A misspelt setting at such a place is dropped without a word, although an unknown
keyword is an error wherever it is looked for (src/conf.c:134).

Counterexample: the keyword in `service tftp { misspelt; }`
(`ignored_keyword`).

`all_consumed_iff`: of a configuration that is evaluated to its end, all entries
were taken once exactly if no block hides one (`NoneHidden`).
-/
namespace Bootd

open Bootd.Core

/-- The entries in the block are looked at, for an entry at the outermost level. -/
def NoneHidden (svs : List NetService) (e : ConfEntry) : Prop :=
  if e.name = kwLog.1 then ∀ x ∈ e.sub, x.sub = []
  else if e.name = kwService.1 then
    ∀ x ∈ e.sub, (bindKeyword svs e).map Subtype.val = some x.name ∧ x.sub = []
  else if e.name = kwHost.1 then
    ∀ x ∈ e.sub, if x.name = kwFile.1 then ∀ y ∈ x.sub, y.sub = [] else x.sub = []
  else e.sub = []

/-- The entry and all in its block were taken once. -/
def Consumed (s : EvalState) (e : ConfEntry) : Prop := ∀ i ∈ e.ids, s.used i = 1

section
variable {svs : List NetService} {s : EvalState} {e : ConfEntry}

theorem consumed_iff : Consumed s e ↔ s.used e.id = 1 ∧ ∀ x ∈ e.sub, Consumed s x := by
  refine ⟨fun h => ⟨h e.id (id_mem e), fun x hx i hi => h i (sub_mem hx hi)⟩, fun ⟨h1, hsub⟩ i hi => ?_⟩
  rcases mem_ids.mp hi with rfl | ⟨x, hx, hix⟩
  · exact h1
  · exact hsub x hx i hix

theorem Fresh.not_consumed (h : Fresh s e) : ¬Consumed s e := by
  intro hc
  have h0 := h e.id (id_mem e)
  rw [hc e.id (id_mem e)] at h0
  exact absurd h0 Nat.one_ne_zero

theorem Leaf.consumed (h : Leaf s e) : Consumed s e ↔ e.sub = [] := by
  rw [consumed_iff, List.eq_nil_iff_forall_not_mem]
  refine ⟨fun ⟨_, hsub⟩ x hx => (h.2 x hx).not_consumed (hsub x hx), fun hnone => ⟨h.1, fun x hx => ?_⟩⟩
  exact absurd hx (hnone x)

theorem BlockDone.consumed (h : BlockDone s e) : Consumed s e ↔ ∀ x ∈ e.sub, x.sub = [] := by
  rw [consumed_iff, and_iff_right h.1]
  exact forall₂_congr fun x hx => (h.2 x hx).consumed

theorem HostDone.consumed (h : HostDone s e) :
    Consumed s e ↔ ∀ x ∈ e.sub, if x.name = kwFile.1 then ∀ y ∈ x.sub, y.sub = [] else x.sub = [] := by
  rw [consumed_iff, and_iff_right h.1]
  refine forall₂_congr fun x hx => ?_
  have hp := h.2 x hx
  unfold HostPart at hp
  split
  · rename_i hn
    rw [if_pos hn] at hp
    exact hp.consumed
  · rename_i hn
    rw [if_neg hn] at hp
    exact hp.consumed

theorem ServiceDone.consumed (h : ServiceDone svs s e) :
    Consumed s e ↔ ∀ x ∈ e.sub, (bindKeyword svs e).map Subtype.val = some x.name ∧ x.sub = [] := by
  rw [consumed_iff, and_iff_right h.1]
  refine forall₂_congr fun x hx => ?_
  have hp := h.2 x hx
  split at hp
  · rename_i hn
    rw [and_iff_right hn]
    exact hp.consumed
  · rename_i hn
    exact iff_of_false hp.not_consumed fun hc => hn hc.1

theorem RootDone.consumed (h : RootDone svs s e) : Consumed s e ↔ NoneHidden svs e := by
  unfold RootDone at h
  unfold NoneHidden
  split_ifs at h ⊢
  · exact BlockDone.consumed h
  · exact ServiceDone.consumed h
  · exact HostDone.consumed h
  · exact Leaf.consumed h

end

/-- All entries of an evaluated configuration were taken exactly once, iff no block hides one. -/
theorem all_consumed_iff {env : SetupEnv} {root : List ConfEntry} {st st' : EvalState} (hd : Distinct root)
    (hfresh : ∀ e ∈ root, Fresh st e) (hrun : confFile env root st = .ok () st') :
    (∀ i ∈ entryIds root, st'.used i = 1) ↔ ∀ e ∈ root, NoneHidden st.setup.services e := by
  obtain ⟨hdone, -⟩ := confFile_ok hd hfresh hrun
  have hall : (∀ i ∈ entryIds root, st'.used i = 1) ↔ ∀ e ∈ root, Consumed st' e := by
    simp only [mem_entryIds, Consumed]
    exact ⟨fun h e he i hi => h i ⟨e, he, hi⟩, fun h i ⟨e, he, hi⟩ => h e he i hi⟩
  rw [hall]
  exact forall₂_congr fun e he => (hdone e he).consumed

/-! ## A keyword that is ignored -/

/-- `service tftp { misspelt; }` -/
def misspeltService : Forest := .block (cstr "service") [cstr "tftp"] (.leaf (cstr "misspelt") [] .nil) .nil

/-- The first entry is taken, the second is not. -/
def misspeltEnd : EvalState := ⟨Function.update (fun _ => 0) 0 1, { plainSetup with log := some (0, none) }⟩

/-- Nothing is reported. -/
theorem misspelt_run : confFile plainEnv (misspeltService.entries 0) (.start plainSetup) = .ok () misspeltEnd :=
  rfl

theorem ignored_keyword : ¬∀ (env : SetupEnv) (root : List ConfEntry) (st st' : EvalState), Distinct root →
    (∀ e ∈ root, Fresh st e) → confFile env root st = .ok () st' → ∀ i ∈ entryIds root, st'.used i = 1 := by
  intro h
  have h1 := h _ _ _ _ (entries_distinct 0 misspeltService) (fun e _ => start_fresh _ e) misspelt_run 1 (by decide)
  exact absurd h1 (by decide)

/-! ## A block that is taken as a whole -/

/-- `service rarp { device eth0; }` -/
def boundService : Forest :=
  .block (cstr "service") [cstr "rarp"] (.leaf (cstr "device") [cstr "eth0"] .nil) .nil

def boundEnd : EvalState :=
  ⟨Function.update (Function.update (fun _ => 0) 0 1) 1 1, { plainSetup with
    log := some (0, none)
    services := ⟨cstr "rarp", serviceRarp, [cstr "eth0"], []⟩ :: serviceInit.tail
    devices := plainEnv.sysDevices }⟩

theorem bound_run : confFile plainEnv (boundService.entries 0) (.start plainSetup) = .ok () boundEnd := rfl

/-- Both entries of the block are taken exactly once. -/
theorem all_consumed_bound :
    entryIds (boundService.entries 0) = [0, 1] ∧ boundEnd.used 0 = 1 ∧ boundEnd.used 1 = 1 := by
  have hall : ∀ i ∈ entryIds (boundService.entries 0), boundEnd.used i = 1 := by
    refine (all_consumed_iff (entries_distinct 0 boundService) (fun e _ => start_fresh _ e) bound_run).mpr ?_
    intro e he
    rw [List.mem_singleton.mp he]
    unfold NoneHidden
    decide
  exact ⟨rfl, hall 0 (by decide), hall 1 (by decide)⟩

end Bootd
