import Bootd.Core.LTS
import Bootd.L2State.ListenerRefines

/-!
# The head of the list is cleaned up twice

`listener_delete` returns after it has unlinked a record from the middle of the list,
but not after it has unlinked the head: it goes on to the end of the function, where
records that are not listed are cleaned up (src/listener.c:348-361). The handler has
freed the record by then.

Counterexample: one listener is added and deleted (`head_deleted_twice`).

`listener_list_exact`: in every run of additions and deletions the list is free of
duplicates and in order, and deleting a listed listener is exact if and only if it is
not the head.
-/
namespace Bootd.Heap

open Bootd.Core

/-- The heap, and when each listener got on the list, counting calls of `listener_add`. -/
structure St where
  mem : Mem
  addedAt : LisId → Nat
  calls : Nat

/-- Nothing is allocated yet. -/
def St.start : St := ⟨⟨[], none, []⟩, fun _ => 0, 0⟩

/-- A constructor has made `l`. -/
def St.created (σ : St) (l : Node) : St :=
  { σ with mem := { σ.mem with nodes := Slots.push σ.mem.nodes l } }

/-- The calls: a constructor, `listener_add` and `listener_delete`. -/
inductive Call
  | create (l : Node)
  | add (nullStore : Bool) (p : LisId)
  | delete (p : LisId)

/-- The call of `listener_add` for `p` is noted if it put `p` on the list. -/
def St.noted (σ : St) (p : LisId) (m' : Mem) : LisId → Nat :=
  if p ∉ σ.mem.listed ∧ p ∈ m'.listed then fun a => if a = p then σ.calls else σ.addedAt a else σ.addedAt

/-- Every listener has its handlers, as the constructors set them. -/
def Call.Step (σ : St) : Call → St → Prop
  | .create l, σ' => l.receive = true ∧ l.cleanup = true ∧ σ' = σ.created l
  | .add nullStore p, σ' => (∃ l, σ.mem.node p = some l) ∧
      listenerAdd nullStore (some p) σ.mem = .ok () σ'.mem ∧
      σ'.addedAt = σ.noted p σ'.mem ∧ σ'.calls = σ.calls + 1
  | .delete p, σ' => (∃ l, σ.mem.node p = some l) ∧ listenerDelete (some p) σ.mem = .ok () σ'.mem ∧
      σ'.addedAt = σ.addedAt ∧ σ'.calls = σ.calls

def listeners : LTS St Call where
  init σ := σ = .start
  step σ e σ' := e.Step σ σ'

/-- A list without duplicates in order of addition, in which searches find what is there. -/
structure ExactList (σ : St) : Prop where
  chain : Chain.Path σ.mem.next σ.mem.gListeners σ.mem.listed none
  fds : σ.mem.listed.Pairwise fun a b => σ.mem.fdOf a ≠ σ.mem.fdOf b
  order : σ.mem.listed.Pairwise fun a b => σ.addedAt a < σ.addedAt b
  search : ∀ fd, ∃ o, listenerSearchByFd σ.mem fd = .ok o ∧
    ∀ p, o = some p ↔ p ∈ σ.mem.listed ∧ σ.mem.fdOf p = some fd

/-- Deleting `p` takes `p` from the list and nothing else, and calls its handler once. -/
def DeletesExactly (m : Mem) (p : LisId) : Prop :=
  ∃ m', listenerDelete (some p) m = .ok () m' ∧ Chain.Path m'.next m'.gListeners m'.listed none ∧
    m'.listed = m.listed.erase p ∧ m'.cleaned = m.cleaned ++ [p]

/-- The list `L` and the time of each addition. -/
structure Good (σ : St) (L : List LisId) : Prop where
  listed : Listed σ.mem L
  valid : σ.mem.Valid
  order : L.Pairwise fun a b => σ.addedAt a < σ.addedAt b
  past : ∀ p ∈ L, σ.addedAt p < σ.calls

section
variable {σ σ' : St} {L : List LisId} {p : LisId} {l : Node} {nullStore : Bool}

theorem Good.create (h : Good σ L) (hrec : l.receive = true) (hcl : l.cleanup = true) :
    Good (σ.created l) L := by
  have hnode : ∀ a, (σ.created l).mem.node a = if a = σ.mem.nodes.length then some l else σ.mem.node a :=
    fun a => Slots.get_push _ _ _
  have hold : ∀ a ∈ L, (σ.created l).mem.node a = σ.mem.node a := by
    intro a ha
    obtain ⟨r, hr⟩ := path_node h.listed.chain ha
    rw [hnode, if_neg (Nat.ne_of_lt (Slots.lt_of_get hr))]
  refine ⟨⟨?_, ?_⟩, fun a r ha => ?_, h.order, h.past⟩
  · exact h.listed.chain.congr fun a ha => by rw [Mem.next, hold a ha]; rfl
  · refine h.listed.fds.imp_of_mem fun {a b} ha hb hab => ?_
    rw [Mem.fdOf, Mem.fdOf, hold a ha, hold b hb]
    exact hab
  · rw [hnode] at ha
    split at ha
    · cases ha
      exact ⟨hrec, hcl⟩
    · exact h.valid a r ha

theorem Good.add (h : Good σ L) (hp : ∃ l, σ.mem.node p = some l)
    (hrun : listenerAdd nullStore (some p) σ.mem = .ok () σ'.mem) (hat : σ'.addedAt = σ.noted p σ'.mem)
    (hcalls : σ'.calls = σ.calls + 1) : ∃ L', Good σ' L' := by
  obtain ⟨l, hp⟩ := hp
  rw [listenerAdd_run h.valid hp] at hrun
  split at hrun
  · cases hrun
  obtain ⟨m', L', hlink, hL', hadd, hv', -, -, -⟩ := linkLast_run h.listed h.valid hp
  rw [hlink] at hrun
  injection hrun with _ hm
  subst hm
  suffices htimes : (L'.Pairwise fun a b => σ'.addedAt a < σ'.addedAt b) ∧ ∀ a ∈ L', σ'.addedAt a < σ'.calls from
    ⟨L', hL', hv', htimes.1, htimes.2⟩
  have hstay : ¬(p ∉ L ∧ p ∈ L') → σ'.addedAt = σ.addedAt := by
    intro hno
    rw [hat, St.noted, h.listed.listed, hL'.listed, if_neg hno]
  cases hadd with
  | new hnew =>
    have hat : ∀ a, σ'.addedAt a = if a = p then σ.calls else σ.addedAt a := by
      intro a
      rw [hat, St.noted, h.listed.listed, hL'.listed,
        if_pos ⟨hnew, List.mem_append_right _ (List.mem_singleton_self p)⟩]
    have hold : ∀ a ∈ L, σ'.addedAt a = σ.addedAt a := by
      intro a ha
      rw [hat, if_neg fun he => hnew (by rw [← he]; exact ha)]
    refine ⟨List.pairwise_append.mpr ⟨?_, List.pairwise_singleton _ _, fun a ha b hb => ?_⟩, fun a ha => ?_⟩
    · refine h.order.imp_of_mem fun {a b} ha hb hab => ?_
      rw [hold a ha, hold b hb]
      exact hab
    · rw [List.mem_singleton.mp hb, hold a ha, hat p, if_pos rfl]
      exact h.past a ha
    · rw [hcalls]
      rcases List.mem_append.mp ha with ha | ha
      · rw [hold a ha]
        exact Nat.lt_succ_of_lt (h.past a ha)
      · rw [List.mem_singleton.mp ha, hat p, if_pos rfl]
        exact Nat.lt_succ_self _
  | taken q hnew =>
    rw [hcalls, hstay fun hc => hc.1 hc.2]
    exact ⟨h.order, fun a ha => Nat.lt_succ_of_lt (h.past a ha)⟩
  | again A B hAB =>
    have hsub : (A ++ [p]).Sublist L := by
      rw [hAB]
      exact (List.Sublist.refl A).append (List.singleton_sublist.mpr List.mem_cons_self)
    rw [hcalls, hstay fun hc => hc.1 (hsub.subset (List.mem_append_right _ (List.mem_singleton_self p)))]
    exact ⟨h.order.sublist hsub, fun a ha => Nat.lt_succ_of_lt (h.past a (hsub.subset ha))⟩

/-- A deletion that returns: the record was not the head. -/
theorem Listed.delete {m : Mem} (h : Listed m L) (hv : m.Valid) (hp : ∃ l, m.node p = some l)
    (hg : m.gListeners ≠ some p) : ∃ m', listenerDelete (some p) m = .ok () m' ∧ Listed m' (L.erase p) ∧ m'.Valid ∧
      m'.cleaned = m.cleaned ++ [p] := by
  obtain ⟨l, hp⟩ := hp
  by_cases hm : p ∈ L
  · obtain ⟨A, B, rfl⟩ := List.append_of_mem hm
    rcases List.eq_nil_or_concat' A with rfl | ⟨A', a, rfl⟩
    · exact absurd h.chain.1 hg
    have hnd := h.chain.nodup
    have hpA : p ∉ A' ++ [a] := fun hc => (List.nodup_append.mp hnd).2.2 p hc p List.mem_cons_self rfl
    have herase : (A' ++ [a] ++ p :: B).erase p = A' ++ a :: B := by
      rw [List.erase_append_right _ hpA, List.erase_cons_head, List.append_assoc]
      rfl
    rw [List.append_assoc, List.singleton_append] at h
    rw [herase]
    exact ⟨_, listenerDelete_inner h hv hp, h.unlink hp, (hv.setNext a l.next).free p, rfl⟩
  · rw [List.erase_of_not_mem hm]
    exact ⟨_, listenerDelete_unlisted h hv hp hm, h.free hm, hv.free p, rfl⟩

theorem Good.delete (h : Good σ L) (hp : ∃ l, σ.mem.node p = some l)
    (hrun : listenerDelete (some p) σ.mem = .ok () σ'.mem) (hat : σ'.addedAt = σ.addedAt)
    (hcalls : σ'.calls = σ.calls) : Good σ' (L.erase p) := by
  have hg : σ.mem.gListeners ≠ some p := by
    intro hg
    obtain ⟨l, hp⟩ := hp
    rw [listenerDelete_head hg h.valid hp] at hrun
    cases hrun
  obtain ⟨m', hrun', hL', hv', -⟩ := h.listed.delete h.valid hp hg
  rw [hrun'] at hrun
  injection hrun with _ hm
  subst hm
  refine ⟨hL', hv', ?_, fun a ha => ?_⟩
  · rw [hat]
    exact h.order.sublist List.erase_sublist
  · rw [hat, hcalls]
    exact h.past a (List.erase_subset ha)

theorem Good.step {e : Call} (h : Good σ L) (hs : e.Step σ σ') : ∃ L', Good σ' L' := by
  cases e with
  | create l =>
    obtain ⟨hrec, hcl, rfl⟩ := hs
    exact ⟨L, h.create hrec hcl⟩
  | add nullStore p =>
    obtain ⟨hp, hrun, hat, hcalls⟩ := hs
    exact h.add hp hrun hat hcalls
  | delete p =>
    obtain ⟨hp, hrun, hat, hcalls⟩ := hs
    exact ⟨_, h.delete hp hrun hat hcalls⟩

theorem reachable_good (hr : listeners.Reachable σ) : ∃ L, Good σ L := by
  have hind : listeners.Inductive fun σ => ∃ L, Good σ L := by
    refine ⟨fun σ hi => ?_, fun σ e σ' hi hs => ?_⟩
    · obtain rfl : σ = .start := hi
      refine ⟨[], ⟨rfl, List.Pairwise.nil⟩, fun p l hp => ?_, List.Pairwise.nil, fun p hp => by cases hp⟩
      rw [Mem.node, Slots.get_none_of_le (Nat.zero_le p)] at hp
      cases hp
    · obtain ⟨L, h⟩ := hi
      exact h.step hs
  exact hind.reachable σ hr

end

/-- **The list of listeners**, in every run: no descriptor twice, in order of addition,
and deleting a listed listener removes that one and calls its handler once, exactly if
it is not the head. -/
theorem listener_list_exact (σ : St) (hr : listeners.Reachable σ) :
    ExactList σ ∧ ∀ p ∈ σ.mem.listed, (DeletesExactly σ.mem p ↔ σ.mem.gListeners ≠ some p) := by
  obtain ⟨L, h⟩ := reachable_good hr
  have hlisted := h.listed.listed
  refine ⟨⟨?_, ?_, ?_, fun fd => ?_⟩, fun p hp => ⟨fun hdel hg => ?_, fun hg => ?_⟩⟩
  · rw [hlisted]
    exact h.listed.chain
  · rw [hlisted]
    exact h.listed.fds
  · rw [hlisted]
    exact h.order
  · rw [hlisted]
    exact listenerSearchByFd_iff h.listed fd
  · obtain ⟨m', hrun, -⟩ := hdel
    rw [hlisted] at hp
    obtain ⟨l, hl⟩ := path_node h.listed.chain hp
    rw [listenerDelete_head hg h.valid hl] at hrun
    cases hrun
  · rw [hlisted] at hp
    obtain ⟨m', hrun, hL', -, hcl⟩ := h.listed.delete h.valid (path_node h.listed.chain hp) hg
    refine ⟨m', hrun, ?_, ?_, hcl⟩
    · rw [hL'.listed]
      exact hL'.chain
    · rw [hL'.listed, hlisted]

/-! ## Two listeners -/

/-- A listener of the descriptor `fd`. -/
def plainNode (fd : Fd) : Node := ⟨none, fd, some (cstr "boot"), true, true⟩

/-- After `listener_add`, where it returns. -/
def St.added (σ : St) (nullStore : Bool) (p : LisId) : St :=
  let m' := Exec.final (listenerAdd nullStore (some p)) σ.mem
  ⟨m', σ.noted p m', σ.calls + 1⟩

/-- Two listeners have been made and added. -/
def twoListeners : St :=
  (((St.start.created (plainNode 4)).added false 0).created (plainNode 5)).added false 1

theorem twoListeners_reachable : listeners.Reachable twoListeners := by
  have h0 : listeners.Reachable St.start := LTS.reachable_init rfl
  have h1 : listeners.Reachable (St.start.created (plainNode 4)) :=
    h0.step (l := Call.create (plainNode 4)) ⟨rfl, rfl, rfl⟩
  have h2 : listeners.Reachable ((St.start.created (plainNode 4)).added false 0) :=
    h1.step (l := Call.add false 0) ⟨⟨_, rfl⟩, rfl, rfl, rfl⟩
  have h3 : listeners.Reachable (((St.start.created (plainNode 4)).added false 0).created (plainNode 5)) :=
    h2.step (l := Call.create (plainNode 5)) ⟨rfl, rfl, rfl⟩
  exact h3.step (l := Call.add false 1) ⟨⟨_, rfl⟩, rfl, rfl, rfl⟩

/-- The second one can be deleted. -/
theorem listener_list_two : ExactList twoListeners ∧ DeletesExactly twoListeners.mem 1 :=
  ⟨(listener_list_exact twoListeners twoListeners_reachable).1,
    ((listener_list_exact twoListeners twoListeners_reachable).2 1 (by decide)).mpr (by decide)⟩

/-- **Counterexample**: deleting the first one calls the handler of a record that was
just freed. -/
theorem head_deleted_twice : ¬∀ σ : St, listeners.Reachable σ →
    ExactList σ ∧ ∀ p ∈ σ.mem.listed, DeletesExactly σ.mem p := by
  intro h
  obtain ⟨m', hrun, -⟩ := (h twoListeners twoListeners_reachable).2 0 (by decide)
  have hfault : ∃ m'', listenerDelete (some 0) twoListeners.mem = .error .uaf m'' := ⟨_, rfl⟩
  obtain ⟨m'', hfault⟩ := hfault
  rw [hfault] at hrun
  cases hrun

end Bootd.Heap
