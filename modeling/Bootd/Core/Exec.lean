import Mathlib.Data.List.Basic

/-!
# Pre- and postconditions for code with a state and an error exit

`EStateM ε σ α` runs on a state `σ` and either returns an `α` or stops with an
`ε`; both ways keep the state reached. `wp m Q E s` says that `m` run from `s`
satisfies `Q` when it returns and `E` when it stops. The rules below take a
program apart along its binds and branches; `Returns m s` says that `m` does
return; `Keeps` is the rule for an invariant of the state that every way out of
the program has to meet.
-/
namespace Bootd.Core.Exec

variable {ε σ α β : Type}

/-- Weakest precondition, for returning and for stopping. -/
def wp (m : EStateM ε σ α) (Q : α → σ → Prop) (E : ε → σ → Prop) (s : σ) : Prop :=
  match m s with
  | .ok a s' => Q a s'
  | .error e s' => E e s'

variable {Q Q' : α → σ → Prop} {E E' : ε → σ → Prop} {s s' : σ} {m : EStateM ε σ α}

theorem wp_ok {a : α} (h : wp m Q E s) (hr : m s = .ok a s') : Q a s' := by
  unfold wp at h; rw [hr] at h; exact h

theorem wp_error {e : ε} (h : wp m Q E s) (hr : m s = .error e s') : E e s' := by
  unfold wp at h; rw [hr] at h; exact h

theorem wp_iff : wp m Q E s ↔
    (∀ a s', m s = .ok a s' → Q a s') ∧ ∀ e s', m s = .error e s' → E e s' := by
  unfold wp
  cases m s <;> simp

theorem wp_mono (h : wp m Q E s) (hQ : ∀ a s', Q a s' → Q' a s') (hE : ∀ e s', E e s' → E' e s') :
    wp m Q' E' s := by
  unfold wp at *
  split
  · rename_i a s' hr; rw [hr] at h; exact hQ a s' h
  · rename_i e s' hr; rw [hr] at h; exact hE e s' h

@[simp] theorem wp_pure (a : α) : wp (pure a) Q E s ↔ Q a s := Iff.rfl

@[simp] theorem wp_throw (e : ε) : wp (throw e : EStateM ε σ α) Q E s ↔ E e s := Iff.rfl

@[simp] theorem wp_bind (f : α → EStateM ε σ β) {Q : β → σ → Prop} :
    wp (m >>= f) Q E s ↔ wp m (fun a s' => wp (f a) Q E s') E s := by
  simp only [wp, bind, EStateM.bind]
  cases m s <;> rfl

@[simp] theorem wp_get {Q : σ → σ → Prop} : wp (get : EStateM ε σ σ) Q E s ↔ Q s s := Iff.rfl

@[simp] theorem wp_modify (f : σ → σ) {Q : PUnit → σ → Prop} :
    wp (modify f : EStateM ε σ PUnit) Q E s ↔ Q ⟨⟩ (f s) := Iff.rfl

/-- A computation without effects of its own, run inside the state. -/
def liftE (x : Except ε α) : EStateM ε σ α :=
  match x with
  | .ok a => pure a
  | .error e => throw e

@[simp] theorem liftE_ok (a : α) : (liftE (.ok a) : EStateM ε σ α) = pure a := rfl

@[simp] theorem liftE_error (e : ε) : (liftE (.error e) : EStateM ε σ α) = throw e := rfl

@[simp] theorem wp_liftE (x : Except ε α) :
    wp (liftE x) Q E s ↔ (∀ a, x = .ok a → Q a s) ∧ (∀ e, x = .error e → E e s) := by
  cases x <;> simp

/-- An effect-free beginning, followed by what leaves the state alone. -/
theorem liftE_bind {x : Except ε α} {f : α → Except ε β} {g : α → EStateM ε σ β}
    (h : ∀ a, x = .ok a → g a s = liftE (f a) s) : (liftE x >>= g) s = liftE (x >>= f) s := by
  cases x with
  | error e => rfl
  | ok a => exact h a rfl

/-- Whatever a run comes to, it leaves the state `s'`. -/
theorem wp_leaves {x : Except ε α} {P : σ → Prop} (h : m s = liftE x s') :
    wp m (fun _ => P) (fun _ => P) s ↔ P s' := by
  unfold wp
  rw [h]
  cases x <;> rfl

/-! ## Runs that return -/

theorem bind_ok {f : α → EStateM ε σ β} {b : β} {s'' : σ} :
    (m >>= f) s = .ok b s'' ↔ ∃ a s', m s = .ok a s' ∧ f a s' = .ok b s'' := by
  simp only [bind, EStateM.bind]
  cases m s <;> simp

/-- A run goes on where its first part returns. -/
theorem bind_run {f : α → EStateM ε σ β} {a : α} (h : m s = .ok a s') : (m >>= f) s = f a s' := by
  simp only [bind, EStateM.bind, h]

/-- A run stops where its first part stops. -/
theorem bind_stop {f : α → EStateM ε σ β} {e : ε} (h : m s = .error e s') :
    (m >>= f) s = .error e s' := by
  simp only [bind, EStateM.bind, h]

theorem get_run (f : σ → EStateM ε σ β) : (get >>= f) s = f s s := rfl

@[simp] theorem pure_ok {a b : α} : (pure a : EStateM ε σ α) s = .ok b s' ↔ a = b ∧ s = s' := by
  simp [pure, EStateM.pure]

@[simp] theorem throw_ok {e : ε} {b : α} : (throw e : EStateM ε σ α) s = .ok b s' ↔ False := by
  show EStateM.Result.error e s = .ok b s' ↔ False
  simp

@[simp] theorem get_ok {b : σ} : (get : EStateM ε σ σ) s = .ok b s' ↔ s = b ∧ s = s' := by
  show EStateM.Result.ok s s = .ok b s' ↔ s = b ∧ s = s'
  simp

@[simp] theorem modify_ok {f : σ → σ} {b : PUnit} :
    (modify f : EStateM ε σ PUnit) s = .ok b s' ↔ f s = s' := by
  show EStateM.Result.ok PUnit.unit (f s) = .ok b s' ↔ f s = s'
  simp

@[simp] theorem liftE_ok_iff {x : Except ε α} {b : α} :
    (liftE x : EStateM ε σ α) s = .ok b s' ↔ x = .ok b ∧ s = s' := by
  cases x <;> simp

section
variable {as : List α} {a : α} {f : α → EStateM ε σ PUnit}

/-- A loop that returns: so does every round, and the rounds behind it. -/
theorem forM_ok (h : as.forM f s = .ok ⟨⟩ s') (ha : a ∈ as) :
    ∃ s₁ s₂, ∃ rest : List α, f a s₁ = .ok ⟨⟩ s₂ ∧ rest.forM f s₂ = .ok ⟨⟩ s' := by
  induction as generalizing s with
  | nil => cases ha
  | cons b as ih =>
    obtain ⟨_, s₁, hb, hrest⟩ := bind_ok.mp h
    rcases List.mem_cons.mp ha with rfl | ha
    · exact ⟨s, s₁, as, hb, hrest⟩
    · exact ih hrest ha

/-- A loop whose rounds return; `P` says what has been done after some of them. -/
theorem forM_run {P : List α → σ → Prop}
    (hf : ∀ done a s, a ∈ as → P done s → ∃ s', f a s = .ok ⟨⟩ s' ∧ P (done ++ [a]) s') (done : List α)
    (h : P done s) : ∃ s', as.forM f s = .ok ⟨⟩ s' ∧ P (done ++ as) s' := by
  induction as generalizing s done with
  | nil => exact ⟨s, rfl, by rwa [List.append_nil]⟩
  | cons a as ih =>
    obtain ⟨s₁, ha, h₁⟩ := hf done a s List.mem_cons_self h
    obtain ⟨s₂, hrest, h₂⟩ := ih (fun done b s hb => hf done b s (List.mem_cons_of_mem _ hb)) _ h₁
    exact ⟨s₂, (bind_run ha).trans hrest, by rwa [List.append_assoc] at h₂⟩

end

/-! ## Whether a run returns -/

/-- `m` run from `s` returns. -/
def Returns (m : EStateM ε σ α) (s : σ) : Prop := ∃ a s', m s = .ok a s'

theorem returns_bind {f : α → EStateM ε σ β} :
    Returns (m >>= f) s ↔ ∃ a s', m s = .ok a s' ∧ Returns (f a) s' := by
  unfold Returns
  simp only [bind_ok]
  refine ⟨fun ⟨b, s'', a, s', h, h'⟩ => ?_, fun ⟨a, s', h, b, s'', h'⟩ => ?_⟩
  · exact ⟨a, s', h, b, s'', h'⟩
  · exact ⟨b, s'', a, s', h, h'⟩

@[simp] theorem returns_pure (a : α) : Returns (pure a : EStateM ε σ α) s := ⟨a, s, rfl⟩

@[simp] theorem returns_throw (e : ε) : ¬Returns (throw e : EStateM ε σ α) s := by
  intro ⟨_, _, h⟩
  exact throw_ok.mp h

@[simp] theorem returns_get_bind {f : σ → EStateM ε σ β} : Returns (get >>= f) s ↔ Returns (f s) s :=
  Iff.rfl

@[simp] theorem returns_modify_bind {g : σ → σ} {f : PUnit → EStateM ε σ β} :
    Returns (modify g >>= f) s ↔ Returns (f ⟨⟩) (g s) := Iff.rfl

@[simp] theorem returns_modify (g : σ → σ) : Returns (modify g : EStateM ε σ PUnit) s :=
  ⟨⟨⟩, g s, rfl⟩

@[simp] theorem returns_liftE_bind {x : Except ε α} {f : α → EStateM ε σ β} :
    Returns (liftE x >>= f) s ↔ ∃ a, x = .ok a ∧ Returns (f a) s := by
  simp [returns_bind]

/-- What a run that does not return leaves is what it stops with. -/
theorem error_of_not_returns (h : ¬Returns m s) : ∃ e s', m s = .error e s' := by
  cases hr : m s with
  | ok a s' => exact absurd ⟨a, s', hr⟩ h
  | error e s' => exact ⟨e, s', rfl⟩

/-! ## Invariants -/

/-- `I` survives `m`, whether `m` returns or stops. -/
def Keeps (I : σ → Prop) (m : EStateM ε σ α) : Prop :=
  ∀ s, I s → wp m (fun _ => I) (fun _ => I) s

variable {I : σ → Prop}

theorem Keeps.pure (a : α) : Keeps I (Pure.pure a : EStateM ε σ α) := fun _ h => h

theorem Keeps.throw (e : ε) : Keeps I (throw e : EStateM ε σ α) := fun _ h => h

theorem Keeps.get : Keeps I (get : EStateM ε σ σ) := fun _ h => h

theorem Keeps.modify {f : σ → σ} (hf : ∀ s, I s → I (f s)) :
    Keeps I (modify f : EStateM ε σ PUnit) := fun s h => hf s h

theorem Keeps.liftE (x : Except ε α) : Keeps I (liftE x : EStateM ε σ α) := by
  intro s h; cases x <;> exact h

theorem Keeps.bind {f : α → EStateM ε σ β} (hm : Keeps I m) (hf : ∀ a, Keeps I (f a)) :
    Keeps I (m >>= f) := by
  intro s h
  rw [wp_bind]
  exact wp_mono (hm s h) (fun a s' h' => hf a s' h') (fun _ _ h' => h')

theorem Keeps.ite {c : Prop} [Decidable c] {m' : EStateM ε σ α} (h : c → Keeps I m)
    (h' : ¬c → Keeps I m') : Keeps I (if c then m else m') := by
  split
  · exact h ‹_›
  · exact h' ‹_›

/-- The state in which `m` leaves the machine, either way. -/
def final (m : EStateM ε σ α) (s : σ) : σ :=
  match m s with
  | .ok _ s' => s'
  | .error _ s' => s'

theorem wp_final (h : wp m (fun _ => I) (fun _ => I) s) : I (final m s) := by
  unfold wp at h; unfold final
  cases hr : m s <;> simpa [hr] using h

theorem Keeps.final (h : Keeps I m) (hs : I s) : I (Exec.final m s) := wp_final (h s hs)

end Bootd.Core.Exec
