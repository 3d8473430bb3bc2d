import Mathlib.Data.List.Basic

/-!
# A walk along a list that grows

The loop `for (p = head; p != NULL; p = p->next) body(p)`, where the body may
append to the list it is walked along. `next` reads the list as it is when the
loop moves on, so the walk also comes to what was appended, and it ends only if
that is eventually passed by.

* `walk_run`: the body is folded over the items that were there at first, and then the
  walk goes on along what was appended.
* `walk_passed`: it ends there if the body does nothing with these.
* `walk_keeps`: what the body keeps holds after a walk that ends.
-/
namespace Bootd.Core.Walk

variable {S α ε : Type} {hang : ε} {next : S → α → Except ε (Option α)} {body : S → α → Except ε S}
  {items : S → List α} {I P : S → Prop} {s s' : S} {pre todo new : List α} {n : Nat}

/-- `n` bounds the rounds. -/
def walk (hang : ε) (next : S → α → Except ε (Option α)) (body : S → α → Except ε S) :
    Nat → Option α → S → Except ε S
  | _, none, s => .ok s
  | 0, some _, _ => .error hang
  | n + 1, some a, s => do
    let s ← body s a
    walk hang next body n (← next s a) s

/-- `body` keeps `I`, and appends at most one item to the list `items`. -/
structure Grows (next : S → α → Except ε (Option α)) (body : S → α → Except ε S) (items : S → List α)
    (I : S → Prop) : Prop where
  next : ∀ {s pre a post}, I s → items s = pre ++ a :: post → next s a = .ok post.head?
  step : ∀ {s a s'}, I s → a ∈ items s → body s a = .ok s' →
    I s' ∧ ∃ o : Option α, items s' = items s ++ o.toList

/-- A round. -/
theorem walk_cons (h : Grows next body items I) (hs : I s) {a : α} (hi : items s = pre ++ a :: new) :
    walk hang next body (n + 1) (some a) s = body s a >>= fun s' =>
      walk hang next body n ((items s').drop (pre.length + 1)).head? s' := by
  show (body s a >>= fun s => next s a >>= fun o => walk hang next body n o s) = _
  cases hb : body s a with
  | error e => rfl
  | ok s' =>
    obtain ⟨hs', o, ho⟩ := h.step hs (by simp [hi]) hb
    have hi' : items s' = pre ++ a :: (new ++ o.toList) := by simp [ho, hi]
    have hdrop : (items s').drop (pre.length + 1) = new ++ o.toList := by simp [hi']
    show (next s' a >>= fun o => walk hang next body n o s') =
      walk hang next body n ((items s').drop (pre.length + 1)).head? s'
    rw [h.next hs' hi', hdrop]
    rfl

/-- By induction on the items that are left of the first ones. -/
theorem walk_run (h : Grows next body items I) (hs : I s) (hi : items s = pre ++ (todo ++ new))
    (hn : todo.length ≤ n) :
    walk hang next body n (todo ++ new).head? s = todo.foldlM body s >>= fun s' =>
      walk hang next body (n - todo.length) ((items s').drop (pre.length + todo.length)).head? s' := by
  induction todo generalizing pre new n s with
  | nil =>
    have hdrop : (items s).drop pre.length = new := by simp [hi]
    show walk hang next body n new.head? s = walk hang next body n ((items s).drop pre.length).head? s
    rw [hdrop]
  | cons a todo ih =>
    cases n with
    | zero => simp at hn
    | succ n =>
      rw [List.length_cons] at hn
      rw [List.cons_append, List.head?_cons, walk_cons h hs hi, List.foldlM_cons, bind_assoc]
      cases hb : body s a with
      | error e => rfl
      | ok s' =>
        obtain ⟨hs', o, ho⟩ := h.step hs (by simp [hi]) hb
        have hi' : items s' = (pre ++ [a]) ++ (todo ++ (new ++ o.toList)) := by simp [ho, hi]
        have hdrop : (items s').drop (pre.length + 1) = todo ++ (new ++ o.toList) := by simp [hi']
        have hlen : (pre ++ [a]).length + todo.length = pre.length + (a :: todo).length := by
          simp only [List.length_append, List.length_cons, List.length_nil]
          omega
        have hrest := ih hs' hi' (Nat.le_of_succ_le_succ hn)
        rw [hlen] at hrest
        show walk hang next body n ((items s').drop (pre.length + 1)).head? s' = _
        rw [hdrop, hrest, List.length_cons, Nat.add_sub_add_right]
        rfl

/-- A fold appends at most one item for each that it takes. -/
theorem fold_grows (h : Grows next body items I) (hs : I s) (hin : ∀ a ∈ todo, a ∈ items s)
    (hr : todo.foldlM body s = .ok s') :
    I s' ∧ ∃ new, items s' = items s ++ new ∧ new.length ≤ todo.length := by
  induction todo generalizing s with
  | nil =>
    cases hr
    exact ⟨hs, [], by simp, by simp⟩
  | cons a todo ih =>
    rw [List.foldlM_cons] at hr
    cases hb : body s a with
    | error e =>
      rw [hb] at hr
      cases hr
    | ok s₁ =>
      rw [hb] at hr
      obtain ⟨hs₁, o, ho⟩ := h.step hs (hin a List.mem_cons_self) hb
      have hin₁ : ∀ b ∈ todo, b ∈ items s₁ := fun b hb => by
        rw [ho]
        exact List.mem_append_left _ (hin b (List.mem_cons_of_mem _ hb))
      obtain ⟨hs', new, hnew, hlen⟩ := ih hs₁ hin₁ hr
      have ho1 : o.toList.length ≤ 1 := by cases o <;> simp
      refine ⟨hs', o.toList ++ new, by simp [hnew, ho], ?_⟩
      simp only [List.length_append, List.length_cons]
      omega

/-- The walk ends along items that the body passes by. -/
theorem walk_passed (h : Grows next body items I) (hs : I s) (hi : items s = pre ++ new)
    (hp : ∀ a ∈ new, body s a = .ok s) (hn : new.length ≤ n) : walk hang next body n new.head? s = .ok s := by
  induction new generalizing pre n with
  | nil => cases n <;> rfl
  | cons a new ih =>
    cases n with
    | zero => simp at hn
    | succ n =>
      have hi' : items s = (pre ++ [a]) ++ new := by simp [hi]
      have hdrop : (items s).drop (pre.length + 1) = new := by simp [hi]
      have hrest := ih hi' (fun b hb => hp b (List.mem_cons_of_mem _ hb)) (Nat.le_of_succ_le_succ hn)
      rw [List.head?_cons, walk_cons h hs hi, hp a List.mem_cons_self]
      show walk hang next body n ((items s).drop (pre.length + 1)).head? s = .ok s
      rw [hdrop]
      exact hrest

/-- What the body keeps at each item of the list holds in the end. -/
theorem walk_keeps {o : Option α}
    (hnext : ∀ {s a o}, P s → a ∈ items s → next s a = .ok o → ∀ b ∈ o, b ∈ items s)
    (hbody : ∀ {s a s'}, P s → a ∈ items s → body s a = .ok s' → P s' ∧ a ∈ items s')
    (ho : ∀ a ∈ o, a ∈ items s)
    (hs : P s) (hr : walk hang next body n o s = .ok s') : P s' := by
  induction n generalizing o s with
  | zero =>
    cases o with
    | none =>
      cases hr
      exact hs
    | some a => cases hr
  | succ n ih =>
    cases o with
    | none =>
      cases hr
      exact hs
    | some a =>
      have hr : (body s a >>= fun s => next s a >>= fun o => walk hang next body n o s) = .ok s' := hr
      cases hb : body s a with
      | error e =>
        rw [hb] at hr
        cases hr
      | ok s₁ =>
        rw [hb] at hr
        have hr : (next s₁ a >>= fun o => walk hang next body n o s₁) = .ok s' := hr
        obtain ⟨hs₁, ha⟩ := hbody hs (ho a rfl) hb
        cases hnx : next s₁ a with
        | error e =>
          rw [hnx] at hr
          cases hr
        | ok o₁ =>
          rw [hnx] at hr
          exact ih (hnext hs₁ ha hnx) hs₁ hr

end Bootd.Core.Walk
