import Bootd.Core.LTS

/-!
# Infinite runs and fairness

An infinite run takes a step at a time, or rests. `WeakFair` says of an action that it
is taken if it stays possible from some time on.

* `LeadsTo.of_fair`: what one fair action brings about.
* `LeadsTo.trans`, `LeadsTo.orElse`: one thing after the other.
* `LeadsTo.climb`: a number that is bounded and always grows again.
-/
namespace Bootd.Core.LTS

variable {S L : Type} {M : LTS S L} {run : Nat → S} {P Q R En : S → Prop} {Act : S → S → Prop}

structure Trace (M : LTS S L) (run : Nat → S) : Prop where
  start : M.Reachable (run 0)
  next : ∀ n, run (n + 1) = run n ∨ ∃ l, M.step (run n) l (run (n + 1))

theorem Trace.reachable (h : M.Trace run) : ∀ n, M.Reachable (run n)
  | 0 => h.start
  | n + 1 => by
    rcases h.next n with heq | ⟨l, hs⟩
    · rw [heq]
      exact h.reachable n
    · exact (h.reachable n).step hs

/-- After `P` there is `Q`, at once or later. -/
def LeadsTo (run : Nat → S) (P Q : S → Prop) : Prop := ∀ n, P (run n) → ∃ k, n ≤ k ∧ Q (run k)

/-- If the action is possible from some time on, it is taken after that time. -/
def WeakFair (run : Nat → S) (En : S → Prop) (Act : S → S → Prop) : Prop :=
  ∀ n, (∀ k, n ≤ k → En (run k)) → ∃ k, n ≤ k ∧ Act (run k) (run (k + 1))

theorem LeadsTo.trans (h : LeadsTo run P Q) (h' : LeadsTo run Q R) : LeadsTo run P R := by
  intro n hp
  obtain ⟨k, hk, hq⟩ := h n hp
  obtain ⟨m, hm, hr⟩ := h' k hq
  exact ⟨m, Nat.le_trans hk hm, hr⟩

theorem LeadsTo.orElse (h : LeadsTo run P R) : LeadsTo run (fun s => R s ∨ P s) R := by
  rintro n (hr | hp)
  · exact ⟨n, Nat.le_refl n, hr⟩
  · exact h n hp

/-- `P` makes the action possible and lasts until `Q`, and the action brings `Q`. -/
theorem LeadsTo.of_fair (hfair : WeakFair run En Act) (hen : ∀ n, P (run n) → En (run n))
    (hkeep : ∀ n, P (run n) → Q (run (n + 1)) ∨ P (run (n + 1)))
    (hact : ∀ n, P (run n) → Act (run n) (run (n + 1)) → Q (run (n + 1))) : LeadsTo run P Q := by
  intro n hp
  refine by_contra fun hnever => ?_
  have hno : ∀ k, n ≤ k → ¬Q (run k) := fun k hk hq => hnever ⟨k, hk, hq⟩
  have hstays : ∀ k, n ≤ k → P (run k) := by
    intro k hk
    induction hk with
    | refl => exact hp
    | @step k hk ih => exact (hkeep k ih).resolve_left (hno (k + 1) (Nat.le_succ_of_le hk))
  obtain ⟨k, hk, ha⟩ := hfair n fun k hk => hen k (hstays k hk)
  exact hno (k + 1) (Nat.le_succ_of_le hk) (hact k (hstays k hk) ha)

/-- While `P` lasts, a bounded number always grows, or there is `Q`. -/
theorem LeadsTo.climb {m : S → Nat} {B : Nat} (hbound : ∀ n, P (run n) → m (run n) ≤ B)
    (hup : ∀ v, LeadsTo run (fun s => P s ∧ m s = v) fun s => Q s ∨ P s ∧ v < m s) : LeadsTo run P Q := by
  intro n hp
  induction hv : B - m (run n) using Nat.strongRecOn generalizing n with
  | ind v ih =>
    obtain ⟨k, hk, hq | ⟨hp', hlt⟩⟩ := hup _ n ⟨hp, rfl⟩
    · exact ⟨k, hk, hq⟩
    · have hle := hbound k hp'
      obtain ⟨j, hj, hq⟩ := ih (B - m (run k)) (by omega) k hp' rfl
      exact ⟨j, Nat.le_trans hk hj, hq⟩

/-- An action that is taken again and again where it is possible. -/
theorem WeakFair.of_often (h : ∀ n, ∃ k, n ≤ k ∧ (En (run k) → Act (run k) (run (k + 1)))) :
    WeakFair run En Act := by
  intro n hen
  obtain ⟨k, hk, hact⟩ := h n
  exact ⟨k, hk, hact (hen k hk)⟩

end Bootd.Core.LTS
