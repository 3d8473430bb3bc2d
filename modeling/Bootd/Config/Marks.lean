import Bootd.Config.Entries

/-!
# Which entries are taken

The addresses in a forest are distinct (`Distinct`), so that what an evaluator
does to an entry and its block leaves all others alone. `Part es K D s s'` says
what evaluating a block `es` has come to: on the way from `s` to `s'` only
entries with a name in `K` and their blocks were touched, and each of these is
as `D` says. Such parts are put together along the code (`Part.trans`).

`Leaf` is the case of a statement without a block of its own: it is taken, and
nothing inside it is.

* `iGet_part`: a single statement.
* `whileEntry_eq`, `whileEntry_rounds`: a loop has one round for each entry, in order.
-/
namespace Bootd

open Bootd.Core

mutual

/-- The addresses of an entry and of those in its block. -/
def ConfEntry.ids : ConfEntry → List EntId
  | ⟨id, _, _, sub⟩ => id :: entryIds sub

def entryIds : List ConfEntry → List EntId
  | [] => []
  | e :: es => e.ids ++ entryIds es

end

/-- Every entry has an address of its own. -/
def Distinct (es : List ConfEntry) : Prop := (entryIds es).Nodup

/-- Nothing in the entry was taken. -/
def Fresh (s : EvalState) (e : ConfEntry) : Prop := ∀ i ∈ e.ids, s.used i = 0

theorem start_fresh (st : Setup) (e : ConfEntry) : Fresh (EvalState.start st) e := fun _ _ => rfl

def SameMarks (s s' : EvalState) (e : ConfEntry) : Prop := ∀ i ∈ e.ids, s'.used i = s.used i

/-- The entry is taken, nothing in its block is. -/
def Leaf (s : EvalState) (e : ConfEntry) : Prop := s.used e.id = 1 ∧ ∀ x ∈ e.sub, Fresh s x

/-- The part `K` of a block was evaluated. -/
structure Part (es : List ConfEntry) (K : CStr → Prop) (D : EvalState → ConfEntry → Prop)
    (s s' : EvalState) : Prop where
  only : ∀ i, (∀ e ∈ es, K e.name → i ∉ e.ids) → s'.used i = s.used i
  done : ∀ e ∈ es, K e.name → D s' e

/-- `D` looks at the marks of the entry and of its block only. -/
def Local (D : EvalState → ConfEntry → Prop) : Prop := ∀ s s' e, SameMarks s s' e → D s e → D s' e

section
variable {es : List ConfEntry} {e e' x : ConfEntry} {i : EntId} {s s' s'' : EvalState} {K K' : CStr → Prop}
  {D D' : EvalState → ConfEntry → Prop}

/-! ## Addresses -/

theorem ids_eq (e : ConfEntry) : e.ids = e.id :: entryIds e.sub := by
  obtain ⟨id, n, vs, sub⟩ := e
  rw [ConfEntry.ids]

theorem mem_entryIds : i ∈ entryIds es ↔ ∃ e ∈ es, i ∈ e.ids := by
  induction es with
  | nil => simp [entryIds]
  | cons e es ih => simp [entryIds, ih]

theorem id_mem (e : ConfEntry) : e.id ∈ e.ids := by
  rw [ids_eq]
  exact List.mem_cons_self

theorem sub_mem (hx : x ∈ e.sub) (hi : i ∈ x.ids) : i ∈ e.ids := by
  rw [ids_eq]
  exact List.mem_cons_of_mem _ (mem_entryIds.mpr ⟨x, hx, hi⟩)

theorem mem_ids : i ∈ e.ids ↔ i = e.id ∨ ∃ x ∈ e.sub, i ∈ x.ids := by
  rw [ids_eq, List.mem_cons, mem_entryIds]

theorem Distinct.tail (h : Distinct (e :: es)) : Distinct es := by
  unfold Distinct at h
  rw [entryIds] at h
  exact (List.nodup_append.mp h).2.1

/-- An address is in one entry only. -/
theorem Distinct.apart (h : Distinct es) (he : e ∈ es) (he' : e' ∈ es) (hi : i ∈ e.ids) (hi' : i ∈ e'.ids) :
    e = e' := by
  induction es with
  | nil => cases he
  | cons x es ih =>
    have hx := h
    unfold Distinct at hx
    rw [entryIds, List.nodup_append] at hx
    have hout : ∀ {y}, y ∈ es → i ∈ y.ids → i ∉ x.ids := fun hy hiy hix =>
      hx.2.2 i hix i (mem_entryIds.mpr ⟨_, hy, hiy⟩) rfl
    rcases List.mem_cons.mp he with heq | hm
    · rcases List.mem_cons.mp he' with heq' | hm'
      · rw [heq, heq']
      · rw [heq] at hi
        exact absurd hi (hout hm' hi')
    · rcases List.mem_cons.mp he' with heq' | hm'
      · rw [heq'] at hi'
        exact absurd hi' (hout hm hi)
      · exact ih h.tail hm hm'

theorem Distinct.ids (h : Distinct es) (he : e ∈ es) : e.ids.Nodup := by
  induction es with
  | nil => cases he
  | cons x es ih =>
    rcases List.mem_cons.mp he with rfl | he
    · unfold Distinct at h
      rw [entryIds] at h
      exact (List.nodup_append.mp h).1
    · exact ih h.tail he

theorem Distinct.sub (h : Distinct es) (he : e ∈ es) : Distinct e.sub := by
  have hids := h.ids he
  rw [ids_eq] at hids
  exact (List.nodup_cons.mp hids).2

theorem Distinct.id_notMem (h : Distinct es) (he : e ∈ es) (hx : x ∈ e.sub) : e.id ∉ x.ids := by
  have hids := h.ids he
  rw [ids_eq] at hids
  exact fun hi => (List.nodup_cons.mp hids).1 (mem_entryIds.mpr ⟨x, hx, hi⟩)

/-! ## Parts -/

theorem Fresh.congr (h : Fresh s e) (hs : SameMarks s s' e) : Fresh s' e :=
  fun i hi => (hs i hi).trans (h i hi)

theorem Fresh.sub (h : Fresh s e) (hx : x ∈ e.sub) : Fresh s x := fun i hi => h i (sub_mem hx hi)

theorem SameMarks.sub (h : SameMarks s s' e) (hx : x ∈ e.sub) : SameMarks s s' x :=
  fun i hi => h i (sub_mem hx hi)

theorem local_leaf : Local Leaf := fun _ _ e hs ⟨h1, hsub⟩ =>
  ⟨(hs e.id (id_mem e)).trans h1, fun _ hx => (hsub _ hx).congr (hs.sub hx)⟩

/-- Entries with another name are as they were. -/
theorem Part.same (h : Part es K D s s') (hd : Distinct es) (he : e ∈ es) (hn : ¬K e.name) :
    SameMarks s s' e := by
  refine fun i hi => h.only i fun e' he' hK hi' => ?_
  rw [hd.apart he he' hi hi'] at hn
  exact hn hK

theorem Part.trans (h : Part es K D s s') (h' : Part es K' D s' s'') (hd : Distinct es) (hl : Local D)
    (hdis : ∀ n, K n → ¬K' n) : Part es (fun n => K n ∨ K' n) D s s'' := by
  refine ⟨fun i hi => ?_, fun e he hK => ?_⟩
  · rw [h'.only i fun e he hK => hi e he (.inr hK), h.only i fun e he hK => hi e he (.inl hK)]
  · rcases hK with hK | hK
    · exact hl _ _ e (h'.same hd he (hdis _ hK)) (h.done e he hK)
    · exact h'.done e he hK

theorem Part.mono (h : Part es K D s s') (hD : ∀ e ∈ es, K e.name → D s' e → D' s' e) : Part es K D' s s' :=
  ⟨h.only, fun e he hK => hD e he hK (h.done e he hK)⟩

/-- One more name. -/
theorem Part.next {L : List CStr} {k : Keyword} (h : Part es (· ∈ L) D s s') (hd : Distinct es) (hl : Local D)
    (hk : k.1 ∉ L) (h' : Part es (· = k.1) D s' s'') : Part es (· ∈ k.1 :: L) D s s'' := by
  have ht := h.trans h' hd hl fun n hn hnk => hk (hnk ▸ hn)
  refine ⟨fun i hi => ht.only i fun e he hK => hi e he ?_, fun e he hK => ht.done e he ?_⟩
  · rcases hK with hK | hK
    · exact List.mem_cons_of_mem _ hK
    · rw [hK]
      exact List.mem_cons_self
  · rcases List.mem_cons.mp hK with hK | hK
    · exact .inr hK
    · exact .inl hK

theorem Part.append {L L' : List CStr} (h : Part es (· ∈ L) D s s') (h' : Part es (· ∈ L') D s' s'')
    (hd : Distinct es) (hl : Local D) (hdis : ∀ n ∈ L, n ∉ L') : Part es (· ∈ L' ++ L) D s s'' := by
  have ht := h.trans h' hd hl hdis
  refine ⟨fun i hi => ht.only i fun e he hK => hi e he ?_, fun e he hK => ht.done e he ?_⟩
  · exact List.mem_append.mpr hK.symm
  · exact (List.mem_append.mp hK).symm

theorem Part.nil (es : List ConfEntry) (D : EvalState → ConfEntry → Prop) (s : EvalState) :
    Part es (· ∈ []) D s s := ⟨fun _ _ => rfl, fun _ _ h => nomatch h⟩

/-- Entries with a new name are still fresh. -/
theorem Part.fresh {L : List CStr} {n : CStr} (h : Part es (· ∈ L) D s s') (hd : Distinct es) (hn : n ∉ L)
    (hfresh : ∀ e ∈ es, Fresh s e) : ∀ e ∈ es, e.name = n → Fresh s' e :=
  fun e he hen => (hfresh e he).congr (h.same hd he (hen ▸ hn))

/-- If none of the names in `K` is left out, all entries are as `D` says. -/
theorem Part.all (h : Part es K D s s') (hd : Distinct es) (hfresh : ∀ e ∈ es, Fresh s e)
    (hall : ∀ e ∈ es, s'.used e.id ≠ 0) : ∀ e ∈ es, K e.name ∧ D s' e := by
  intro e he
  have hK : K e.name := by
    refine by_contra fun hn => hall e he ?_
    rw [h.same hd he hn e.id (id_mem e)]
    exact hfresh e he e.id (id_mem e)
  exact ⟨hK, h.done e he hK⟩

/-! ## One statement -/

theorem take_same (h : Distinct es) (he : e ∈ es) (hx : x ∈ es) (hne : e ≠ x) : SameMarks s (s.take e) x := by
  intro i hi
  refine Function.update_of_ne (fun heq => ?_) _ _
  rw [heq] at hi
  exact hne (h.apart he hx (id_mem e) hi)

theorem take_self (s : EvalState) (e : ConfEntry) : (s.take e).used e.id = s.used e.id + 1 :=
  Function.update_self _ _ _

theorem take_sub (h : Distinct es) (he : e ∈ es) (hx : x ∈ e.sub) : SameMarks s (s.take e) x := by
  intro i hi
  refine Function.update_of_ne (fun heq => ?_) _ _
  rw [heq] at hi
  exact h.id_notMem he hx hi

/-- The block of an entry that was just taken. -/
theorem Fresh.inside (hf : Fresh s e) (h : Distinct es) (he : e ∈ es) : ∀ x ∈ e.sub, Fresh (s.take e) x :=
  fun _ hx => (hf.sub hx).congr (take_sub h he hx)

theorem take_leaf (h : Distinct es) (he : e ∈ es) (hf : Fresh s e) : Leaf (s.take e) e := by
  refine ⟨?_, hf.inside h he⟩
  rw [take_self, hf e.id (id_mem e)]

variable {α β : Type} {k : Keyword} {a dst : α} {conv : ConfEntry → EvalM α}

/-- A statement that may be given once. -/
theorem iGet_part (hd : Distinct es) (hfresh : ∀ e ∈ es, e.name = k.1 → Fresh s e)
    (hconv : ∀ {e a s s'}, conv e s = .ok a s' → s' = s)
    (h : iGet conv es (some k) true dst s = .ok a s') : Part es (· = k.1) Leaf s s' ∧ s'.setup = s.setup := by
  rcases iGet_ok h with ⟨-, rfl, hnone⟩ | ⟨e, he, hn, -, hval, hrest⟩
  · exact ⟨⟨fun _ _ => rfl, fun e he hn => absurd (hfresh e he hn e.id (id_mem e)) (hnone e he hn)⟩, rfl⟩
  · obtain rfl := hconv hval
    refine ⟨⟨fun i hi => ?_, fun x hx hxn => ?_⟩, rfl⟩
    · exact Function.update_of_ne (fun heq => hi e he hn (by rw [heq]; exact id_mem e)) _ _
    · -- another one would be left
      have hex : e = x := by
        refine by_contra fun hne => hrest rfl x hx hxn ?_
        rw [take_same hd he hx hne x.id (id_mem x)]
        exact hfresh x hx hxn x.id (id_mem x)
      rw [← hex]
      exact take_leaf hd he (hfresh e he hn)

end
/-! ## Loops -/

/-- The entries of that name, in order. -/
def named (k : Keyword) (es : List ConfEntry) : List ConfEntry := es.filter (·.name = k.1)

/-- One round for each entry. -/
def forEach {β : Type} (body : ConfEntry → β → EvalM β) : List ConfEntry → β → EvalM β
  | [], b => pure b
  | e :: es, b => do
    takeEntry e
    let b ← body e b
    forEach body es b

/-- One round of `body` after the other, from `b` and `s` to `b'` and `s'`. -/
inductive Rounds {β : Type} (body : ConfEntry → β → EvalM β) :
    List ConfEntry → β → EvalState → β → EvalState → Prop
  | nil (b : β) (s : EvalState) : Rounds body [] b s b s
  | cons {e : ConfEntry} {es : List ConfEntry} {b b₁ b' : β} {s s₁ s' : EvalState} : Fresh s e →
      body e b (s.take e) = .ok b₁ s₁ → Rounds body es b₁ s₁ b' s' → Rounds body (e :: es) b s b' s'

/-- A round touches the entry and its block, which it leaves as `D` says, and keeps `I`. -/
def Eats {β : Type} (I : EvalState → Prop) (body : ConfEntry → β → EvalM β) (D : EvalState → ConfEntry → Prop)
    (e : ConfEntry) : Prop :=
  ∀ b s b' s', I s → Fresh s e → body e b (s.take e) = .ok b' s' →
    I s' ∧ (∀ i ∉ e.ids, s'.used i = s.used i) ∧ D s' e

section
variable {β : Type} {pre post es : List ConfEntry} {e : ConfEntry} {s s' : EvalState} {k : Keyword} {n : Nat}
  {b b' : β} {I : EvalState → Prop} {body : ConfEntry → β → EvalM β} {D : EvalState → ConfEntry → Prop}

theorem entryIds_append (es es' : List ConfEntry) : entryIds (es ++ es') = entryIds es ++ entryIds es' := by
  induction es with
  | nil => rfl
  | cons e es ih =>
    simp only [List.cons_append, entryIds, ih, List.append_assoc]

theorem Distinct.split {x : ConfEntry} (h : Distinct (pre ++ post)) (he : e ∈ pre) (hx : x ∈ post) : e ≠ x := by
  unfold Distinct at h
  rw [entryIds_append, List.nodup_append] at h
  rintro rfl
  exact h.2.2 e.id (mem_entryIds.mpr ⟨e, he, id_mem e⟩) e.id (mem_entryIds.mpr ⟨e, hx, id_mem e⟩) rfl

theorem mem_named : e ∈ named k es ↔ e ∈ es ∧ e.name = k.1 := by
  simp [named]

theorem named_cons_pos (hk : e.name = k.1) : named k (e :: es) = e :: named k es := by
  simp [named, hk]

theorem named_cons_neg (hk : e.name ≠ k.1) : named k (e :: es) = named k es := by
  simp [named, hk]

theorem Distinct.named (h : Distinct es) (k : Keyword) : Distinct (named k es) := by
  induction es with
  | nil => exact h
  | cons e es ih =>
    by_cases hk : e.name = k.1
    · unfold Distinct at h ⊢
      rw [named_cons_pos hk, entryIds, List.nodup_append]
      rw [entryIds, List.nodup_append] at h
      refine ⟨h.1, ih h.2.1, fun i hi j hj => h.2.2 i hi j ?_⟩
      obtain ⟨x, hx, hjx⟩ := mem_entryIds.mp hj
      exact mem_entryIds.mpr ⟨x, (mem_named.mp hx).1, hjx⟩
    · rw [named_cons_neg hk]
      exact ih h.tail

/-- The next entry of that name, when those in front are taken. -/
theorem find_next (hpre : ∀ e ∈ pre, e.name = k.1 → s.used e.id ≠ 0) :
    ((pre ++ post).find? fun e => s.Finds (some k) e) = post.find? fun e => s.Finds (some k) e := by
  have hnone : (pre.find? fun e => s.Finds (some k) e) = none := by
    rw [List.find?_eq_none]
    intro e he hf
    have hf := of_decide_eq_true hf
    exact hpre e he (hf.2 k rfl) hf.1
  rw [List.find?_append, hnone, Option.none_or]

theorem find_head (hk : e.name = k.1) (h0 : s.used e.id = 0) :
    ((e :: es).find? fun e => s.Finds (some k) e) = some e := by
  refine List.find?_cons_of_pos (decide_eq_true ⟨h0, fun k' hk' => ?_⟩)
  cases hk'
  exact hk

/-- A loop that has come to `post` has a round for each entry of that name there. -/
theorem forEntry_eq (pre : List ConfEntry) (hd : Distinct (pre ++ post)) (hD : ∀ s e, D s e → s.used e.id ≠ 0)
    (hI : I s) (hpre : ∀ e ∈ pre, e.name = k.1 → s.used e.id ≠ 0)
    (hpost : ∀ e ∈ post, e.name = k.1 → Fresh s e) (hbody : ∀ e ∈ post, e.name = k.1 → Eats I body D e)
    (hn : post.length < n) :
    forEntry (pre ++ post) k body n b s = forEach body (named k post) b s := by
  induction post generalizing pre n b s with
  | nil =>
    obtain ⟨n, rfl⟩ := Nat.exists_eq_succ_of_ne_zero (Nat.ne_of_gt hn)
    unfold forEntry
    rw [Exec.bind_run (parseEntryGet_run _ _ _), find_next hpre]
    rfl
  | cons e post ih =>
    have hd' : Distinct (pre ++ [e] ++ post) := by rwa [List.append_assoc]
    have hnext : ∀ {n b s}, I s → (∀ x ∈ pre ++ [e], x.name = k.1 → s.used x.id ≠ 0) →
        (∀ x ∈ post, x.name = k.1 → Fresh s x) → post.length < n →
        forEntry (pre ++ e :: post) k body n b s = forEach body (named k post) b s := by
      intro n b s hI hpre hpost hn
      have hnow := ih (b := b) _ hd' hI hpre hpost (fun x hx => hbody x (List.mem_cons_of_mem _ hx)) hn
      rwa [List.append_assoc] at hnow
    by_cases hk : e.name = k.1
    · have he : e ∈ pre ++ e :: post := by simp
      have hfresh := hpost e List.mem_cons_self hk
      obtain ⟨n, rfl⟩ := Nat.exists_eq_succ_of_ne_zero (Nat.ne_of_gt (Nat.zero_lt_of_lt hn))
      rw [named_cons_pos hk]
      unfold forEntry forEach
      rw [Exec.bind_run (parseEntryGet_run _ _ _), find_next hpre, find_head hk (hfresh e.id (id_mem e))]
      have htake : takeEntry e s = .ok () (s.take e) := rfl
      simp only
      rw [Exec.bind_run htake, Exec.bind_run htake]
      cases hround : body e b (s.take e) with
      | error stop s₁ => rw [Exec.bind_stop hround, Exec.bind_stop hround]
      | ok b₁ s₁ =>
        rw [Exec.bind_run hround, Exec.bind_run hround]
        obtain ⟨hI₁, honly, hdone⟩ := hbody e List.mem_cons_self hk b s b₁ s₁ hI hfresh hround
        have hsame : ∀ {x}, x ∈ pre ++ e :: post → e ≠ x → SameMarks s s₁ x := fun hx hne i hi =>
          honly i fun hi' => hne (hd.apart he hx hi' hi)
        refine hnext hI₁ (fun x hx hxk => ?_) (fun x hx hxk => ?_) (Nat.lt_of_succ_lt_succ hn)
        · rcases List.mem_append.mp hx with hx | hx
          · rw [hsame (List.mem_append_left _ hx) (hd.split hx List.mem_cons_self).symm x.id (id_mem x)]
            exact hpre x hx hxk
          · rw [List.mem_singleton.mp hx]
            exact hD s₁ e hdone
        · exact (hpost x (List.mem_cons_of_mem _ hx) hxk).congr
            (hsame (List.mem_append_right _ (List.mem_cons_of_mem _ hx)) (hd'.split (by simp) hx))
    · rw [named_cons_neg hk]
      refine hnext hI (fun x hx hxk => ?_) (fun x hx => hpost x (List.mem_cons_of_mem _ hx))
        (Nat.lt_of_succ_lt hn)
      rcases List.mem_append.mp hx with hx | hx
      · exact hpre x hx hxk
      · exact absurd (List.mem_singleton.mp hx ▸ hxk) hk

/-- Rounds that touch their entries only. -/
theorem forEach_rounds (hd : Distinct es) (hl : Local D) (hI : I s) (hfresh : ∀ e ∈ es, Fresh s e)
    (hbody : ∀ e ∈ es, Eats I body D e) (h : forEach body es b s = .ok b' s') :
    I s' ∧ Rounds body es b s b' s' ∧ (∀ i, (∀ e ∈ es, i ∉ e.ids) → s'.used i = s.used i) ∧
      ∀ e ∈ es, D s' e := by
  induction es generalizing b s with
  | nil =>
    obtain ⟨rfl, rfl⟩ := Exec.pure_ok.mp h
    exact ⟨hI, .nil _ _, fun _ _ => rfl, fun _ he => nomatch he⟩
  | cons e es ih =>
    obtain ⟨_, s₀, htake, r₀⟩ := Exec.bind_ok.mp h
    obtain rfl := Exec.modify_ok.mp htake
    obtain ⟨b₁, s₁, hround, r₁⟩ := Exec.bind_ok.mp r₀
    have hf := hfresh e List.mem_cons_self
    obtain ⟨hI₁, honly, hdone⟩ := hbody e List.mem_cons_self b s b₁ s₁ hI hf hround
    have hapart : ∀ {x i}, x ∈ es → i ∈ e.ids → i ∉ x.ids := by
      intro x i hx hi hix
      unfold Distinct at hd
      rw [entryIds, List.nodup_append] at hd
      exact hd.2.2 i hi i (mem_entryIds.mpr ⟨x, hx, hix⟩) rfl
    obtain ⟨hI', hr, hrest, hall⟩ := ih hd.tail hI₁
      (fun x hx => (hfresh x (List.mem_cons_of_mem _ hx)).congr fun i hi => honly i fun hie => hapart hx hie hi)
      (fun x hx => hbody x (List.mem_cons_of_mem _ hx)) r₁
    refine ⟨hI', .cons hf hround hr, fun i hi => ?_, fun x hx => ?_⟩
    · rw [hrest i fun x hx => hi x (List.mem_cons_of_mem _ hx)]
      exact honly i (hi e List.mem_cons_self)
    · rcases List.mem_cons.mp hx with rfl | hx
      · exact hl _ _ x (fun i hi => hrest i fun y hy => hapart hy hi) hdone
      · exact hall x hx

/-- A loop has a round for each entry of that name. -/
theorem whileEntry_eq (hd : Distinct es) (hD : ∀ s e, D s e → s.used e.id ≠ 0) (hI : I s)
    (hfresh : ∀ e ∈ es, e.name = k.1 → Fresh s e) (hbody : ∀ e ∈ es, e.name = k.1 → Eats I body D e) :
    whileEntry es k body b s = forEach body (named k es) b s :=
  forEntry_eq [] hd hD hI (fun _ he => nomatch he) hfresh hbody (Nat.lt_succ_self _)

/-- The loop goes through the entries of that name in order. -/
theorem whileEntry_rounds (hd : Distinct es) (hl : Local D) (hD : ∀ s e, D s e → s.used e.id ≠ 0) (hI : I s)
    (hfresh : ∀ e ∈ es, e.name = k.1 → Fresh s e) (hbody : ∀ e ∈ es, e.name = k.1 → Eats I body D e)
    (h : whileEntry es k body b s = .ok b' s') :
    I s' ∧ Rounds body (named k es) b s b' s' ∧ Part es (· = k.1) D s s' := by
  rw [whileEntry_eq hd hD hI hfresh hbody] at h
  have hin : ∀ {e}, e ∈ named k es → e ∈ es ∧ e.name = k.1 := mem_named.mp
  obtain ⟨hI', hr, hrest, hall⟩ := forEach_rounds (hd.named k) hl hI
    (fun e he => hfresh e (hin he).1 (hin he).2) (fun e he => hbody e (hin he).1 (hin he).2) h
  refine ⟨hI', hr, fun i hi => hrest i fun e he => hi e (hin he).1 (hin he).2, fun e he hn => ?_⟩
  exact hall e (mem_named.mpr ⟨he, hn⟩)

end

end Bootd
