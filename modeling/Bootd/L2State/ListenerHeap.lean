import Bootd.L2State.World
import Mathlib.Data.List.Pairwise

/-!
# The list of listeners, pointer by pointer (`listener.c:271-375`)

`Listeners.lean` has the list of listeners as a list of values. Here it is what the
source has: records on the heap, linked by `next`, with `g_listeners` as the head. A
record is freed by its `cleanup` handler, and following a pointer to it afterwards is a
fault.

`listener_add` resets `next` of the record before it walks the list. If the record is
listed already, the list ends with it from then on. `listener_delete` does not return
on the branch that unlinks the head: it falls through to the end of the function, and
calls the handler of the freed record.

* `Listed`: the records that the list consists of.
* `listenerAdd_ok`, `listenerDelete_inner`, `listenerDelete_unlisted`,
  `listenerDelete_head`: what adding and deleting does to them.
* `listenerSearchByFd_iff`: what a search finds.
-/
namespace Bootd.Heap

open Bootd.Core Bootd.Core.Exec

/-- The fields of `listener_t` that the list functions use. mirrors src/listener.h:13-29 -/
structure Node where
  next : Option LisId
  fd : Fd
  name : Option CStr
  /-- the handlers are set -/
  receive : Bool
  cleanup : Bool

structure Mem where
  nodes : List (Option Node)
  gListeners : Option LisId
  /-- the calls of `cleanup` -/
  cleaned : List LisId

def Mem.node (m : Mem) (p : LisId) : Option Node := Slots.get m.nodes p

def Mem.next (m : Mem) (p : LisId) : Option (Option LisId) := (m.node p).map Node.next

def Mem.fdOf (m : Mem) (p : LisId) : Option Fd := (m.node p).map Node.fd

def Mem.setNext (m : Mem) (p : LisId) (q : Option LisId) : Mem :=
  { m with nodes := Slots.update m.nodes p fun n => { n with next := q } }

def Mem.free (m : Mem) (p : LisId) : Mem :=
  { m with nodes := Slots.clear m.nodes p, cleaned := m.cleaned ++ [p] }

/-- The records of the list. -/
def Mem.listed (m : Mem) : List LisId := Chain.walk m.next m.nodes.length m.gListeners

abbrev LM := EStateM Fault Mem

def loadNode (p : LisId) : LM Node := do
  match (← get).node p with
  | some l => pure l
  | none => throw .uaf

/-- `l->cleanup(l)`, which frees the record.
mirrors src/listener.c:730-747 (link), src/listener.c:830-841 (sockets) -/
def cleanup (p : LisId) : LM Unit := do
  let l ← loadNode p
  if l.cleanup then modify (·.free p) else throw .segv

/-- mirrors src/listener.c:314-329 -/
def addLoop (p : LisId) : Nat → LisId → LM Unit
  | 0, _ => throw .hang
  | fuel + 1, n => do
    let l ← loadNode p
    let r ← loadNode n
    if l.fd = r.fd then pure ()
    else
      match r.next with
      | none => modify (·.setNext n (some p))
      | some q => addLoop p fuel q

/-- mirrors src/listener.c:310-330 -/
def linkLast (p : LisId) : LM Unit := do
  modify (·.setNext p none)
  let m ← get
  match m.gListeners with
  | none => set { m with gListeners := some p }
  | some n => addLoop p m.nodes.length n

/-- mirrors src/listener.c:271-331 -/
def listenerAdd (nullStore : Bool) : Option LisId → LM Unit
  | none => pure ()
  | some p => do
    let l ← loadNode p
    if l.receive = false then pure ()
    else if l.cleanup = false then pure ()
    else if l.name = none ∧ nullStore = false then throw .segv
    else linkLast p

/-- Whether the record was found, unlinked and freed. mirrors src/listener.c:352-358 -/
def deleteLoop (p : LisId) : Nat → LisId → LM Bool
  | 0, _ => throw .hang
  | fuel + 1, n => do
    let r ← loadNode n
    match r.next with
    | none => pure false
    | some q =>
      if q = p then do
        let l ← loadNode p
        modify (·.setNext n l.next)
        cleanup p
        pure true
      else deleteLoop p fuel q

/-- mirrors src/listener.c:333-362 -/
def listenerDelete : Option LisId → LM Unit
  | none => pure ()
  | some p => do
    let m ← get
    match m.gListeners with
    | none => cleanup p
    | some n =>
      if n = p then do
        let l ← loadNode p
        modify fun m => { m with gListeners := l.next }
        cleanup p
        -- this branch goes on to the end of the function
        cleanup p
      else do
        let found ← deleteLoop p m.nodes.length n
        if found then pure () else cleanup p

/-- mirrors src/listener.c:364-375 -/
def listenerSearchByFd (m : Mem) (fd : Fd) : Except Fault (Option LisId) :=
  Chain.find (fun p => match m.node p with
    | some l => .ok (l.fd == fd, l.next)
    | none => .error .uaf) .hang m.nodes.length m.gListeners

/-- The records `L`, in this order, no two with one descriptor. -/
structure Listed (m : Mem) (L : List LisId) : Prop where
  chain : Chain.Path m.next m.gListeners L none
  fds : L.Pairwise fun a b => m.fdOf a ≠ m.fdOf b

/-- Every record has its handlers. -/
def Mem.Valid (m : Mem) : Prop := ∀ p l, m.node p = some l → l.receive = true ∧ l.cleanup = true

section
variable {m m' : Mem} {p q n a : LisId} {l r : Node} {L A B ps : List LisId} {o : Option LisId} {fd : Fd}
  {fuel : Nat} {nullStore : Bool}

/-! ## The heap -/

theorem node_setNext (m : Mem) (p : LisId) (o : Option LisId) (a : LisId) :
    (m.setNext p o).node a = if a = p then (m.node a).map fun n => { n with next := o } else m.node a :=
  Slots.get_update _ _ _ _

theorem node_free (m : Mem) (p a : LisId) : (m.free p).node a = if a = p then none else m.node a :=
  Slots.get_clear _ _ _

theorem next_setNext_of_ne (h : a ≠ p) : (m.setNext p o).next a = m.next a := by
  rw [Mem.next, node_setNext, if_neg h]
  rfl

theorem next_setNext_self (h : m.node p = some l) : (m.setNext p o).next p = some o := by
  rw [Mem.next, node_setNext, if_pos rfl, h]
  rfl

@[simp] theorem fdOf_setNext : (m.setNext p o).fdOf a = m.fdOf a := by
  rw [Mem.fdOf, node_setNext]
  split
  · unfold Mem.fdOf
    cases m.node a <;> rfl
  · rfl

theorem next_free_of_ne (h : a ≠ p) : (m.free p).next a = m.next a := by
  rw [Mem.next, node_free, if_neg h]
  rfl

theorem fdOf_free_of_ne (h : a ≠ p) : (m.free p).fdOf a = m.fdOf a := by
  rw [Mem.fdOf, node_free, if_neg h]
  rfl

theorem next_some (h : m.next p = some o) : ∃ l, m.node p = some l ∧ l.next = o :=
  Option.map_eq_some_iff.mp h

theorem Mem.Valid.setNext (h : m.Valid) (p : LisId) (o : Option LisId) : (m.setNext p o).Valid := by
  intro a l ha
  rw [node_setNext] at ha
  split at ha
  · obtain ⟨n, hn, rfl⟩ := Option.map_eq_some_iff.mp ha
    exact h a n hn
  · exact h a l ha

theorem Mem.Valid.free (h : m.Valid) (p : LisId) : (m.free p).Valid := by
  intro a l ha
  rw [node_free] at ha
  split at ha
  · cases ha
  · exact h a l ha

theorem loadNode_run (h : m.node p = some l) : loadNode p m = .ok l m := by
  unfold loadNode
  rw [get_run, h]
  rfl

theorem cleanup_run (hv : m.Valid) (h : m.node p = some l) : cleanup p m = .ok () (m.free p) := by
  unfold cleanup
  rw [bind_run (loadNode_run h), if_pos (hv p l h).2]
  rfl

/-- A freed record cannot be cleaned up again. -/
theorem cleanup_freed (h : m.node p = none) : cleanup p m = .error .uaf m := by
  unfold cleanup loadNode
  rw [bind_assoc, get_run, h]
  rfl

/-! ## The list -/

theorem path_node (h : Chain.Path m.next o L none) (ha : a ∈ L) : ∃ l, m.node a = some l := by
  obtain ⟨q, hq⟩ := h.mem_next ha
  obtain ⟨l, hl, -⟩ := next_some hq
  exact ⟨l, hl⟩

theorem path_length_le (h : Chain.Path m.next o L none) : L.length ≤ m.nodes.length := by
  have hsub : L ⊆ List.range m.nodes.length := fun a ha => by
    obtain ⟨l, hl⟩ := path_node h ha
    exact List.mem_range.mpr (Slots.lt_of_get hl)
  have := (List.subperm_of_subset h.nodup hsub).length_le
  rwa [List.length_range] at this

theorem Listed.listed (h : Listed m L) : m.listed = L := Chain.walk_path h.chain (path_length_le h.chain)

/-- A record that is not on the list is freed. -/
theorem Listed.free (h : Listed m L) (hp : p ∉ L) : Listed (m.free p) L := by
  have hne : ∀ a ∈ L, a ≠ p := fun a ha he => hp (he ▸ ha)
  refine ⟨h.chain.congr fun a ha => next_free_of_ne (hne a ha), ?_⟩
  refine h.fds.imp_of_mem fun {a b} ha hb hab => ?_
  rw [fdOf_free_of_ne (hne a ha), fdOf_free_of_ne (hne b hb)]
  exact hab

/-! ## Adding -/

/-- A record with the descriptor is on the list: nothing happens. -/
theorem addLoop_listed (hp : m.node p = some l) : ∀ {ps : List LisId} {fuel : Nat} {n : LisId},
    Chain.Path m.next (some n) ps none → ps.length ≤ fuel → (∃ q ∈ ps, m.fdOf q = some l.fd) →
    addLoop p fuel n m = .ok () m
  | [], _, _, hpath, _, _ => by cases hpath
  | _ :: _, 0, _, _, hlen, _ => by cases hlen
  | b :: ps, fuel + 1, n, hpath, hlen, hq => by
    obtain ⟨hb, o, ho, hpath⟩ := hpath
    obtain rfl := Option.some.inj hb
    obtain ⟨r, hr, rfl⟩ := next_some ho
    rw [addLoop, bind_run (loadNode_run hp), bind_run (loadNode_run hr)]
    by_cases hfd : l.fd = r.fd
    · rw [if_pos hfd]
      rfl
    rw [if_neg hfd]
    obtain ⟨q, hq, hqfd⟩ := hq
    have hq : q ∈ ps := by
      rcases List.mem_cons.mp hq with rfl | hq
      · rw [Mem.fdOf, hr] at hqfd
        exact absurd (Option.some.inj hqfd).symm hfd
      · exact hq
    cases hnext : r.next with
    | none =>
      rw [hnext] at hpath
      cases ps with
      | nil => cases hq
      | cons a ps => cases hpath.1
    | some c =>
      rw [hnext] at hpath
      exact addLoop_listed hp hpath (Nat.le_of_succ_le_succ hlen) ⟨q, hq, hqfd⟩

/-- No record has the descriptor: the new one is hung behind the last. -/
theorem addLoop_last (hp : m.node p = some l) : ∀ {ps : List LisId} {fuel : Nat} {n : LisId},
    Chain.Path m.next (some n) (ps ++ [a]) none → ps.length < fuel →
    (∀ q ∈ ps ++ [a], m.fdOf q ≠ some l.fd) → addLoop p fuel n m = .ok () (m.setNext a (some p))
  | _, 0, _, _, hlen, _ => by cases hlen
  | [], fuel + 1, n, hpath, hlen, hq => by
    obtain ⟨hb, o, ho, hend⟩ := hpath
    obtain rfl := Option.some.inj hb
    obtain ⟨r, hr, rfl⟩ := next_some ho
    have hfd : l.fd ≠ r.fd := fun he => hq n (List.mem_singleton_self n) (by rw [Mem.fdOf, hr, he]; rfl)
    have hend : r.next = none := hend
    rw [addLoop, bind_run (loadNode_run hp), bind_run (loadNode_run hr), if_neg hfd]
    simp only [hend]
    rfl
  | b :: ps, fuel + 1, n, hpath, hlen, hq => by
    obtain ⟨hb, o, ho, hpath⟩ := hpath
    obtain rfl := Option.some.inj hb
    obtain ⟨r, hr, rfl⟩ := next_some ho
    have hfd : l.fd ≠ r.fd := fun he => hq n List.mem_cons_self (by rw [Mem.fdOf, hr, he]; rfl)
    rw [addLoop, bind_run (loadNode_run hp), bind_run (loadNode_run hr), if_neg hfd]
    cases hnext : r.next with
    | none =>
      rw [hnext] at hpath
      cases ps with
      | nil => cases hpath.1
      | cons c ps => cases hpath.1
    | some c =>
      rw [hnext] at hpath
      exact addLoop_last hp hpath (Nat.lt_of_succ_lt_succ hlen) fun q hm => hq q (List.mem_cons_of_mem _ hm)

/-- What `listener_add` leaves of the list: the record is hung behind the last one, or was
refused because of its descriptor, or was on the list already, and now is its end. -/
inductive Added (m : Mem) (L : List LisId) (p : LisId) : List LisId → Prop
  | new : p ∉ L → (∀ q ∈ L, m.fdOf q ≠ m.fdOf p) → Added m L p (L ++ [p])
  | taken (q : LisId) : p ∉ L → q ∈ L → m.fdOf q = m.fdOf p → Added m L p L
  | again (A B : List LisId) : L = A ++ p :: B → Added m L p (A ++ [p])

theorem Listed.setNext_of_notMem (h : Listed m L) (hp : p ∉ L) : Listed (m.setNext p o) L := by
  refine ⟨h.chain.congr fun a ha => next_setNext_of_ne fun he => hp (he ▸ ha), h.fds.imp fun {a b} hab => ?_⟩
  rw [fdOf_setNext, fdOf_setNext]
  exact hab

/-- The list is cut behind `p`. -/
theorem Listed.cut (h : Listed m (A ++ p :: B)) : Listed (m.setNext p none) (A ++ [p]) := by
  obtain ⟨q, hA, hp⟩ := h.chain.split
  obtain ⟨l, hl⟩ := path_node hp List.mem_cons_self
  have hnd := h.chain.nodup
  have hpA : p ∉ A := fun hm => (List.nodup_append.mp hnd).2.2 p hm p List.mem_cons_self rfl
  constructor
  · exact (hA.congr fun a ha => next_setNext_of_ne fun he => hpA (by rw [← he]; exact ha)).append
      ⟨hp.1, none, next_setNext_self hl, rfl⟩
  · have hsub : (A ++ [p]).Sublist (A ++ p :: B) :=
      (List.Sublist.refl A).append (List.singleton_sublist.mpr List.mem_cons_self)
    refine (h.fds.sublist hsub).imp fun {a b} hab => ?_
    rw [fdOf_setNext, fdOf_setNext]
    exact hab

/-- `p` is hung behind the list. -/
theorem Listed.append (h : Listed m (ps ++ [a])) (hp : m.next p = some none) (hnew : p ∉ ps ++ [a])
    (hfd : ∀ q ∈ ps ++ [a], m.fdOf q ≠ m.fdOf p) : Listed (m.setNext a (some p)) (ps ++ [a] ++ [p]) := by
  have hnd := h.chain.nodup
  have haps : a ∉ ps := fun hm => (List.nodup_append.mp hnd).2.2 a hm a (List.mem_singleton_self a) rfl
  have hpa : p ≠ a := fun he => hnew (by rw [he]; exact List.mem_append_right _ (List.mem_singleton_self a))
  obtain ⟨l, hl⟩ := path_node h.chain (List.mem_append_right _ (List.mem_singleton_self a))
  constructor
  · refine h.chain.append_tail (fun c hc => next_setNext_of_ne fun he => haps (he ▸ hc)) (next_setNext_self hl) ?_
    rw [next_setNext_of_ne hpa]
    exact hp
  · refine List.pairwise_append.mpr
      ⟨h.fds.imp fun {a b} hab => ?_, List.pairwise_singleton _ _, fun q hq b hb => ?_⟩
    · rw [fdOf_setNext, fdOf_setNext]
      exact hab
    · rw [List.mem_singleton.mp hb, fdOf_setNext, fdOf_setNext]
      exact hfd q hq

/-- Linking in: nothing happens to the records but to `next`. -/
theorem linkLast_run (hL : Listed m L) (hv : m.Valid) (hp : m.node p = some l) :
    ∃ m' L', linkLast p m = .ok () m' ∧ Listed m' L' ∧ Added m L p L' ∧ m'.Valid ∧
      m'.cleaned = m.cleaned ∧ (∀ a, m'.fdOf a = m.fdOf a) ∧ ∀ a, (m'.node a).isSome = (m.node a).isSome := by
  have hsome : ∀ (m : Mem) (q : LisId) (o : Option LisId) (a : LisId),
      ((m.setNext q o).node a).isSome = (m.node a).isSome := by
    intro m q o a
    rw [node_setNext]
    split
    · cases m.node a <;> rfl
    · rfl
  have hfdp : m.fdOf p = some l.fd := by
    rw [Mem.fdOf, hp]
    rfl
  have hp' : (m.setNext p none).node p = some { l with next := none } := by
    rw [node_setNext, if_pos rfl, hp]
    rfl
  have hreset : (modify (·.setNext p none) : LM PUnit) m = .ok ⟨⟩ (m.setNext p none) := rfl
  unfold linkLast
  rw [bind_run hreset, get_run]
  cases L with
  | nil =>
    have hg : (m.setNext p none).gListeners = none := hL.chain
    simp only [hg]
    refine ⟨_, [p], rfl, ⟨⟨rfl, none, next_setNext_self hp, rfl⟩, List.pairwise_singleton _ _⟩, ?_,
      hv.setNext p none, rfl, fun a => fdOf_setNext, hsome m p none⟩
    exact .new (fun hm => by cases hm) fun q hq => by cases hq
  | cons n L =>
    have hg : (m.setNext p none).gListeners = some n := hL.chain.1
    simp only [hg]
    by_cases hm : p ∈ n :: L
    · obtain ⟨A, B, hAB⟩ := List.append_of_mem hm
      rw [hAB] at hL
      have hcut := hL.cut
      have hlen := path_length_le hcut.chain
      have hpath := hcut.chain
      rw [hg] at hpath
      have hmem : p ∈ A ++ [p] := List.mem_append_right _ (List.mem_singleton_self p)
      refine ⟨_, A ++ [p], addLoop_listed hp' hpath hlen ⟨p, hmem, ?_⟩, hcut, .again A B hAB,
        hv.setNext p none, rfl, fun a => fdOf_setNext, hsome m p none⟩
      rw [fdOf_setNext]
      exact hfdp
    · have hL' := hL.setNext_of_notMem (o := none) hm
      have hlen := path_length_le hL'.chain
      have hpath := hL'.chain
      rw [hg] at hpath
      by_cases hq : ∃ q ∈ n :: L, m.fdOf q = some l.fd
      · obtain ⟨q, hq, hqfd⟩ := hq
        refine ⟨_, n :: L, addLoop_listed hp' hpath hlen ⟨q, hq, by rw [fdOf_setNext]; exact hqfd⟩, hL',
          .taken q hm hq (hqfd.trans hfdp.symm), hv.setNext p none, rfl, fun a => fdOf_setNext, hsome m p none⟩
      · have hq : ∀ q ∈ n :: L, m.fdOf q ≠ some l.fd := fun q hqm he => hq ⟨q, hqm, he⟩
        obtain ⟨ps, a, hps⟩ : ∃ ps a, n :: L = ps ++ [a] :=
          ⟨_, _, (List.dropLast_append_getLast (List.cons_ne_nil n L)).symm⟩
        rw [hps] at hpath hlen hL' hq hm ⊢
        rw [List.length_append, List.length_singleton] at hlen
        refine ⟨_, ps ++ [a] ++ [p], addLoop_last hp' hpath hlen fun q hqm => ?_,
          hL'.append (next_setNext_self hp) hm fun q hqm => ?_, .new hm fun q hqm => ?_,
          (hv.setNext p none).setNext a (some p), rfl, fun b => ?_, fun b => ?_⟩
        · rw [fdOf_setNext]
          exact hq q hqm
        · rw [fdOf_setNext, fdOf_setNext, hfdp]
          exact hq q hqm
        · rw [hfdp]
          exact hq q hqm
        · rw [fdOf_setNext, fdOf_setNext]
        · rw [hsome, hsome]

/-- A listener with a name, or whose NULL name is written to unnoticed, is linked in. -/
theorem listenerAdd_run (hv : m.Valid) (hp : m.node p = some l) :
    listenerAdd nullStore (some p) m =
      if l.name = none ∧ nullStore = false then .error .segv m else linkLast p m := by
  obtain ⟨hrec, hcl⟩ := hv p l hp
  show (loadNode p >>= _) m = _
  rw [bind_run (loadNode_run hp), if_neg (by rw [hrec]; exact Bool.noConfusion),
    if_neg (by rw [hcl]; exact Bool.noConfusion)]
  split <;> rfl

/-! ## Deleting -/

/-- The record behind `a` is unlinked. -/
theorem Listed.unlink (h : Listed m (A ++ a :: p :: B)) (hp : m.node p = some l) :
    Listed ((m.setNext a l.next).free p) (A ++ a :: B) := by
  have hnd := h.chain.nodup
  obtain ⟨-, hndB, hdisj⟩ := List.nodup_append.mp hnd
  obtain ⟨haB, hndB⟩ := List.nodup_cons.mp hndB
  have hpB := (List.nodup_cons.mp hndB).1
  have hap : a ≠ p := fun he => haB (by rw [he]; exact List.mem_cons_self)
  obtain ⟨q, hA, rfl, q', hnext, rfl, q'', hq'', hB⟩ := h.chain.split
  obtain ⟨l', hl', rfl⟩ := next_some hq''
  rw [hp] at hl'
  cases hl'
  obtain ⟨r, hr, -⟩ := next_some hnext
  have hsame : ∀ c, c ≠ a → c ≠ p → ((m.setNext a l.next).free p).next c = m.next c := by
    intro c hca hcp
    rw [next_free_of_ne hcp, next_setNext_of_ne hca]
  have hfd : ∀ c, c ≠ p → ((m.setNext a l.next).free p).fdOf c = m.fdOf c := by
    intro c hcp
    rw [fdOf_free_of_ne hcp, fdOf_setNext]
  constructor
  · refine (hA.congr fun c hc => ?_).append ⟨rfl, l.next, ?_, hB.congr fun c hc => ?_⟩
    · exact hsame c (hdisj c hc a List.mem_cons_self) (hdisj c hc p (List.mem_cons_of_mem _ List.mem_cons_self))
    · rw [next_free_of_ne hap]
      exact next_setNext_self hr
    · refine hsame c (fun he => haB ?_) fun he => hpB ?_
      · rw [← he]
        exact List.mem_cons_of_mem _ hc
      · rw [← he]
        exact hc
  · have hsub : (A ++ a :: B).Sublist (A ++ a :: p :: B) :=
      (List.Sublist.refl A).append (List.Sublist.cons_cons a (List.sublist_cons_self p B))
    have hne : ∀ c ∈ A ++ a :: B, c ≠ p := by
      rintro c hc rfl
      rcases List.mem_append.mp hc with hc | hc
      · exact hdisj c hc c (List.mem_cons_of_mem _ List.mem_cons_self) rfl
      · rcases List.mem_cons.mp hc with he | hc
        · exact hap he.symm
        · exact hpB hc
    refine (h.fds.sublist hsub).imp_of_mem fun {b c} hb hc hbc => ?_
    rw [hfd b (hne b hb), hfd c (hne c hc)]
    exact hbc

theorem deleteLoop_absent : ∀ {ps : List LisId} {fuel : Nat} {n : LisId},
    Chain.Path m.next (some n) (n :: ps) none → ps.length < fuel → p ∉ ps → deleteLoop p fuel n m = .ok false m
  | _, 0, _, _, hlen, _ => by cases hlen
  | ps, fuel + 1, n, hpath, hlen, hp => by
    obtain ⟨-, o, ho, hpath⟩ := hpath
    obtain ⟨r, hr, rfl⟩ := next_some ho
    rw [deleteLoop, bind_run (loadNode_run hr)]
    cases ps with
    | nil =>
      have hend : r.next = none := hpath
      simp only [hend]
      rfl
    | cons b ps =>
      have hnext : r.next = some b := hpath.1
      rw [hnext] at hpath
      simp only [hnext]
      rw [if_neg fun he => hp (by rw [he]; exact List.mem_cons_self)]
      exact deleteLoop_absent hpath (Nat.lt_of_succ_lt_succ hlen) fun hm => hp (List.mem_cons_of_mem _ hm)

theorem deleteLoop_found (hv : m.Valid) (hp : m.node p = some l) : ∀ {A : List LisId} {fuel : Nat} {n : LisId},
    Chain.Path m.next (some n) (A ++ a :: p :: B) none → A.length < fuel →
    deleteLoop p fuel n m = .ok true ((m.setNext a l.next).free p)
  | _, 0, _, _, hlen => by cases hlen
  | [], fuel + 1, n, hpath, hlen => by
    have hnd := hpath.nodup
    obtain ⟨hb, o, ho, hnext, -⟩ := hpath
    obtain rfl := Option.some.inj hb
    obtain ⟨r, hr, rfl⟩ := next_some ho
    have hpn : p ≠ n := fun he => (List.nodup_cons.mp hnd).1 (by rw [he]; exact List.mem_cons_self)
    have hp' : (m.setNext n l.next).node p = some l := by
      rw [node_setNext, if_neg hpn]
      exact hp
    rw [deleteLoop, bind_run (loadNode_run hr)]
    simp only [hnext]
    rw [if_pos trivial, bind_run (loadNode_run hp)]
    exact bind_run (cleanup_run (hv.setNext n l.next) hp')
  | b :: A, fuel + 1, n, hpath, hlen => by
    have hnd := hpath.nodup
    obtain ⟨hb, o, ho, hpath⟩ := hpath
    obtain rfl := Option.some.inj hb
    obtain ⟨r, hr, rfl⟩ := next_some ho
    rw [deleteLoop, bind_run (loadNode_run hr)]
    obtain ⟨c, hc, hcp⟩ : ∃ c, r.next = some c ∧ c ≠ p := by
      have hnd := (List.nodup_cons.mp hnd).2
      cases A with
      | nil =>
        refine ⟨a, hpath.1, fun he => ?_⟩
        exact (List.nodup_cons.mp hnd).1 (by rw [he]; exact List.mem_cons_self)
      | cons c A =>
        refine ⟨c, hpath.1, fun he => ?_⟩
        refine (List.nodup_cons.mp hnd).1 (List.mem_append_right _ ?_)
        rw [he]
        exact List.mem_cons_of_mem _ List.mem_cons_self
    rw [hc] at hpath
    simp only [hc]
    rw [if_neg hcp]
    exact deleteLoop_found hv hp hpath (Nat.lt_of_succ_lt_succ hlen)

/-- **Deleting a record behind the head**: it is unlinked and cleaned up once. -/
theorem listenerDelete_inner (hL : Listed m (A ++ a :: p :: B)) (hv : m.Valid) (hp : m.node p = some l) :
    listenerDelete (some p) m = .ok () ((m.setNext a l.next).free p) := by
  have hlen := path_length_le hL.chain
  have hnd := hL.chain.nodup
  rw [List.length_append, List.length_cons, List.length_cons] at hlen
  obtain ⟨n, hg, hnp⟩ : ∃ n, m.gListeners = some n ∧ n ≠ p := by
    cases A with
    | nil =>
      exact ⟨a, hL.chain.1, fun he => (List.nodup_cons.mp hnd).1 (by rw [he]; exact List.mem_cons_self)⟩
    | cons c A =>
      refine ⟨c, hL.chain.1, fun he => (List.nodup_cons.mp hnd).1 (List.mem_append_right _ ?_)⟩
      rw [he]
      exact List.mem_cons_of_mem _ List.mem_cons_self
  have hpath := hL.chain
  rw [hg] at hpath
  show ((get : LM Mem) >>= _) m = _
  rw [get_run]
  simp only [hg]
  rw [if_neg hnp, bind_run (deleteLoop_found hv hp hpath (by omega))]
  rfl

/-- Deleting a record that is not on the list: it is cleaned up once. -/
theorem listenerDelete_unlisted (hL : Listed m L) (hv : m.Valid) (hp : m.node p = some l) (hnew : p ∉ L) :
    listenerDelete (some p) m = .ok () (m.free p) := by
  have hlen := path_length_le hL.chain
  show ((get : LM Mem) >>= _) m = _
  rw [get_run]
  cases L with
  | nil =>
    have hg : m.gListeners = none := hL.chain
    simp only [hg]
    exact cleanup_run hv hp
  | cons n L =>
    have hg : m.gListeners = some n := hL.chain.1
    have hpath := hL.chain
    rw [hg] at hpath
    simp only [hg]
    rw [if_neg fun he => hnew (by rw [he]; exact List.mem_cons_self),
      bind_run (deleteLoop_absent hpath hlen fun hm => hnew (List.mem_cons_of_mem _ hm))]
    exact cleanup_run hv hp

/-- **Deleting the head**: it is unlinked and cleaned up, and then cleaned up again. -/
theorem listenerDelete_head (hg : m.gListeners = some p) (hv : m.Valid) (hp : m.node p = some l) :
    listenerDelete (some p) m = .error .uaf ({ m with gListeners := l.next }.free p) := by
  show ((get : LM Mem) >>= _) m = _
  rw [get_run]
  simp only [hg, if_true]
  have hclean : cleanup p { m with gListeners := l.next } = .ok () ({ m with gListeners := l.next }.free p) :=
    cleanup_run hv hp
  rw [bind_run (loadNode_run hp)]
  refine (bind_run hclean).trans (cleanup_freed ?_)
  rw [node_free, if_pos rfl]

/-! ## Searching -/

theorem listenerSearchByFd_run (hL : Listed m L) (fd : Fd) :
    listenerSearchByFd m fd = .ok (L.find? fun p => m.fdOf p == some fd) := by
  refine Chain.find_path (fun a ha => ?_) hL.chain (path_length_le hL.chain)
  obtain ⟨l, hl⟩ := path_node hL.chain ha
  refine ⟨l.next, by rw [Mem.next, hl]; rfl, ?_⟩
  simp only [hl, Mem.fdOf]
  rfl

/-- **A search** finds the one record with the descriptor, or none if there is none. -/
theorem listenerSearchByFd_iff (hL : Listed m L) (fd : Fd) : ∃ o, listenerSearchByFd m fd = .ok o ∧
    ∀ p, o = some p ↔ p ∈ L ∧ m.fdOf p = some fd := by
  refine ⟨_, listenerSearchByFd_run hL fd, fun p => ?_⟩
  constructor
  · intro hf
    exact ⟨List.mem_of_find?_eq_some hf, by simpa using List.find?_some hf⟩
  · rintro ⟨hp, hfd⟩
    cases hf : L.find? fun p => m.fdOf p == some fd with
    | none => exact absurd hfd (by simpa using List.find?_eq_none.mp hf p hp)
    | some q =>
      have hq := List.mem_of_find?_eq_some hf
      have hqfd : m.fdOf q = some fd := by simpa using List.find?_some hf
      by_contra hne
      have hqp : q ≠ p := fun he => hne (by rw [he])
      have hsymm : Std.Symm fun a b => m.fdOf a ≠ m.fdOf b := ⟨fun _ _ h => h.symm⟩
      exact hL.fds.forall hq hp hqp (hqfd.trans hfd.symm)

end
end Bootd.Heap
