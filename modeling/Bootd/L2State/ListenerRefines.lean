import Bootd.L2State.Listeners
import Bootd.L2State.ListenerHeap
import Mathlib.Data.List.Find

/-!
# The list of values is the list on the heap

`Shows m ls` says that the records of the heap `m` that `g_listeners` leads to are
the listeners `ls`, in this order. The functions of `Listeners.lean`, on lists of
values, then do what those of `ListenerHeap.lean` do on the heap, and fail where these
fail: `listenerSearchByFd_refines`, `listenerAdd_refines` (for a record that is not on
the list, as all that the daemon adds), `listenerDelete_refines`.
-/
namespace Bootd.Heap

open Bootd.Core Bootd.Core.Exec

structure Shows (m : Mem) (ls : List Listener) : Prop where
  chain : Chain.Path m.next m.gListeners (ls.map Listener.id) none
  nodes : ∀ l ∈ ls, ∃ n, m.node l.id = some n ∧ n.fd = l.fd
  fds : (ls.map Listener.fd).Nodup

section
variable {m m' : Mem} {ls : List Listener} {l : Listener} {n : Node} {w w' : World} {os : Os}

theorem Shows.fdOf (h : Shows m ls) (hl : l ∈ ls) : m.fdOf l.id = some l.fd := by
  obtain ⟨n, hn, hfd⟩ := h.nodes l hl
  rw [Mem.fdOf, hn, ← hfd]
  rfl

theorem Shows.listed (h : Shows m ls) : Listed m (ls.map Listener.id) := by
  refine ⟨h.chain, List.pairwise_map.mpr ((List.pairwise_map.mp h.fds).imp_of_mem fun {a b} ha hb hab => ?_)⟩
  rw [h.fdOf ha, h.fdOf hb]
  exact fun he => hab (Option.some.inj he)

/-- The other way round: the records listed, with the descriptors of the values. -/
theorem Listed.shows (h : Listed m (ls.map Listener.id)) (hfd : ∀ l ∈ ls, m.fdOf l.id = some l.fd) : Shows m ls := by
  refine ⟨h.chain, fun l hl => ?_, List.pairwise_map.mpr ?_⟩
  · obtain ⟨n, hn, he⟩ := Option.map_eq_some_iff.mp (hfd l hl)
    exact ⟨n, hn, he⟩
  · refine (List.pairwise_map.mp h.fds).imp_of_mem fun {a b} ha hb hab he => hab ?_
    rw [hfd a ha, hfd b hb, he]

theorem listenerSearchByFd_refines (h : Shows m ls) (fd : Fd) :
    listenerSearchByFd m fd = .ok ((Bootd.listenerSearchByFd ls fd).map Listener.id) := by
  rw [listenerSearchByFd_run h.listed, List.find?_map]
  refine congrArg (fun o => Except.ok (Option.map Listener.id o)) (List.find?_congr fun l hl => ?_)
  simp only [Function.comp_apply]
  rw [h.fdOf hl]
  rfl

/-- Adding a record that is not on the list. -/
theorem listenerAdd_refines (h : Shows m w.listeners) (hv : m.Valid) (hn : m.node l.id = some n)
    (hfd : n.fd = l.fd) (hname : n.name = l.name) (hnew : l.id ∉ w.listeners.map Listener.id) :
    (∃ w' m', Bootd.listenerAdd os (some l) w = .ok () w' ∧ listenerAdd os.nullStore (some l.id) m = .ok () m' ∧
        Shows m' w'.listeners) ∨
      (Bootd.listenerAdd os (some l) w = .error .segv w ∧
        listenerAdd os.nullStore (some l.id) m = .error .segv m) := by
  have hfdl : m.fdOf l.id = some l.fd := by
    rw [Mem.fdOf, hn, ← hfd]
    rfl
  rw [listenerAdd_run hv hn, hname]
  by_cases hnull : l.name = none ∧ os.nullStore = false
  · refine .inr ⟨?_, if_pos hnull⟩
    have hnull' : l.name = none ∧ ¬os.nullStore = true := ⟨hnull.1, by rw [hnull.2]; exact Bool.false_ne_true⟩
    rw [Bootd.listenerAdd, if_pos hnull']
    rfl
  · have hnull' : ¬(l.name = none ∧ ¬os.nullStore = true) := by
      rintro ⟨h1, h2⟩
      exact hnull ⟨h1, Bool.eq_false_iff.mpr h2⟩
    rw [if_neg hnull]
    obtain ⟨m', L', hrun, hL', hadd, -, -, hsame, -⟩ := linkLast_run h.listed hv hn
    have hadded : Bootd.listenerAdd os (some l) w = .ok ()
        (if w.listeners.any (·.fd == l.fd) then w else { w with listeners := w.listeners ++ [l] }) := by
      rw [Bootd.listenerAdd, if_neg hnull']
      rfl
    refine .inl ⟨_, m', hadded, hrun, ?_⟩
    have hany : w.listeners.any (·.fd == l.fd) = true ↔
        ∃ q ∈ w.listeners.map Listener.id, m.fdOf q = m.fdOf l.id := by
      rw [List.any_eq_true, hfdl]
      constructor
      · rintro ⟨a, ha, he⟩
        exact ⟨a.id, List.mem_map_of_mem ha, by rw [h.fdOf ha, beq_iff_eq.mp he]⟩
      · rintro ⟨_, hq, he⟩
        obtain ⟨a, ha, rfl⟩ := List.mem_map.mp hq
        rw [h.fdOf ha] at he
        exact ⟨a, ha, beq_iff_eq.mpr (Option.some.inj he)⟩
    cases hadd with
    | new _ hfree =>
      rw [if_neg fun hc => by obtain ⟨q, hq, he⟩ := hany.mp hc; exact hfree q hq he]
      refine Listed.shows (by rw [List.map_append]; exact hL') fun a ha => ?_
      rw [hsame]
      rcases List.mem_append.mp ha with ha | ha
      · exact h.fdOf ha
      · rw [List.mem_singleton.mp ha]
        exact hfdl
    | taken q _ hq he =>
      rw [if_pos (hany.mpr ⟨q, hq, he⟩)]
      exact hL'.shows fun a ha => by rw [hsame]; exact h.fdOf ha
    | again A B hAB =>
      exact absurd (by rw [hAB]; exact List.mem_append_right _ List.mem_cons_self) hnew

theorem valueDelete_cons {a : Listener} (hls : w.listeners = a :: ls) :
    Bootd.listenerDelete (some l) w = (do
      modify fun w => { w with listeners := w.listeners.filter (·.id ≠ l.id) }
      listenerCleanup l
      if a.id = l.id then throw .uaf else pure () : M Unit) w := by
  show ((get : M World) >>= _) w = _
  rw [get_run]
  simp only [hls]

/-- Deleting a record: the head is cleaned up twice on both levels, any other once. -/
theorem listenerDelete_refines (h : Shows m w.listeners) (hv : m.Valid) (hn : m.node l.id = some n) :
    (∃ w' m', Bootd.listenerDelete (some l) w = .ok () w' ∧ listenerDelete (some l.id) m = .ok () m' ∧
        Shows m' w'.listeners ∧ m'.cleaned = m.cleaned ++ [l.id]) ∨
      ∃ w' m', Bootd.listenerDelete (some l) w = .error .uaf w' ∧ listenerDelete (some l.id) m = .error .uaf m' := by
  have hfilter : ∀ ls : List Listener, l.id ∉ ls.map Listener.id → ls.filter (·.id ≠ l.id) = ls := by
    intro ls hno
    refine List.filter_eq_self.mpr fun a ha => decide_eq_true fun he => hno ?_
    rw [← he]
    exact List.mem_map_of_mem ha
  have hfree : ∀ {m : Mem} {ls : List Listener}, Shows m ls → l.id ∉ ls.map Listener.id → Shows (m.free l.id) ls := by
    intro m ls h hno
    refine (h.listed.free hno).shows fun a ha => ?_
    rw [fdOf_free_of_ne fun he => hno (by rw [← he]; exact List.mem_map_of_mem ha)]
    exact h.fdOf ha
  cases hls : w.listeners with
  | nil =>
    rw [hls] at h
    have hno : l.id ∉ ([] : List Listener).map Listener.id := fun hm => by cases hm
    have hrun : Bootd.listenerDelete (some l) w = .ok () ((w.closeFd l.fd).emit (.close l.fd)) := by
      show ((get : M World) >>= _) w = _
      rw [get_run]
      simp only [hls]
      rfl
    refine .inl ⟨_, _, hrun, listenerDelete_unlisted h.listed hv hn hno, ?_, rfl⟩
    show Shows (m.free l.id) w.listeners
    rw [hls]
    exact hfree h hno
  | cons a ls =>
    rw [hls] at h
    by_cases ha : a.id = l.id
    · have hrun : ∃ w', Bootd.listenerDelete (some l) w = .error .uaf w' := by
        rw [valueDelete_cons hls, if_pos ha]
        exact ⟨_, rfl⟩
      obtain ⟨w', hrun⟩ := hrun
      exact .inr ⟨w', _, hrun, listenerDelete_head (h.chain.1.trans (congrArg some ha)) hv hn⟩
    have hrun : Bootd.listenerDelete (some l) w = .ok ()
        ((({ w with listeners := w.listeners.filter (·.id ≠ l.id) } : World).closeFd l.fd).emit (.close l.fd)) := by
      rw [valueDelete_cons hls, if_neg ha]
      rfl
    by_cases hm : l.id ∈ (a :: ls).map Listener.id
    · obtain ⟨b, hb, hbl⟩ := List.mem_map.mp hm
      obtain ⟨A, B, hAB⟩ := List.append_of_mem hb
      obtain ⟨A', c, rfl⟩ : ∃ A' c, A = A' ++ [c] := by
        rcases List.eq_nil_or_concat' A with rfl | ⟨A', c, rfl⟩
        · exact absurd (by cases hAB; exact hbl) ha
        · exact ⟨A', c, rfl⟩
      rw [List.append_assoc, List.singleton_append] at hAB
      have hids : (a :: ls).map Listener.id = A'.map Listener.id ++ c.id :: l.id :: B.map Listener.id := by
        rw [hAB, List.map_append, List.map_cons, List.map_cons, hbl]
      have hL := h.listed
      rw [hids] at hL
      have hnd := hL.chain.nodup
      have hrest : (a :: ls).filter (·.id ≠ l.id) = A' ++ c :: B := by
        obtain ⟨-, hndB, hdisj⟩ := List.nodup_append.mp hnd
        obtain ⟨hcB, hndB⟩ := List.nodup_cons.mp hndB
        have hc : c.id ≠ l.id := fun he => hcB (by rw [he]; exact List.mem_cons_self)
        have hA : l.id ∉ A'.map Listener.id := fun hA =>
          hdisj l.id hA l.id (List.mem_cons_of_mem _ List.mem_cons_self) rfl
        rw [hAB, List.filter_append, hfilter A' hA, List.filter_cons, if_pos (decide_eq_true hc), List.filter_cons,
          if_neg (by simp [hbl]), hfilter B (List.nodup_cons.mp hndB).1]
      refine .inl ⟨_, _, hrun, listenerDelete_inner hL hv hn, ?_, rfl⟩
      show Shows _ (w.listeners.filter (·.id ≠ l.id))
      rw [hls, hrest]
      refine Listed.shows ?_ fun d hd => ?_
      · rw [List.map_append, List.map_cons]
        exact hL.unlink hn
      · have hd' : d ∈ (a :: ls).filter (·.id ≠ l.id) := by rw [hrest]; exact hd
        obtain ⟨hdls, hdl⟩ := List.mem_filter.mp hd'
        rw [fdOf_free_of_ne (of_decide_eq_true hdl), fdOf_setNext]
        exact h.fdOf hdls
    · refine .inl ⟨_, _, hrun, listenerDelete_unlisted h.listed hv hn hm, ?_, rfl⟩
      show Shows _ (w.listeners.filter (·.id ≠ l.id))
      rw [hls, hfilter _ hm]
      exact hfree h hm

end
end Bootd.Heap
