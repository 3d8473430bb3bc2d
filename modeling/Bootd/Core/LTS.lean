import Mathlib.Data.List.Basic

/-!
# Labelled transition systems

Initial states and labelled steps, finite runs, reachable states, and the
invariant rule. `guard` restricts a system to the steps that meet a condition
on the state before the step and the label, so "in every run whose steps all
meet `C`" is reachability in `M.guard C`. `Maps` is a refinement: one system's
steps are runs of another, so what holds of every reachable state there holds
here too. `Simulates` is the same with a relation in place of the function.
-/
namespace Bootd.Core

structure LTS (S L : Type) where
  init : S → Prop
  step : S → L → S → Prop

namespace LTS

variable {S T L K : Type} {M : LTS S L} {N : LTS T K}

/-- A finite run, last step outermost. -/
inductive Run (M : LTS S L) : S → List L → S → Prop
  | nil (s : S) : Run M s [] s
  | snoc {s s' s'' : S} {ls : List L} {l : L} :
      Run M s ls s' → M.step s' l s'' → Run M s (ls ++ [l]) s''

def Reachable (M : LTS S L) (s : S) : Prop := ∃ s₀ ls, M.init s₀ ∧ M.Run s₀ ls s

theorem reachable_init {s : S} (h : M.init s) : M.Reachable s := ⟨s, [], h, .nil s⟩

theorem Reachable.step {s s' : S} {l : L} (h : M.Reachable s) (hs : M.step s l s') :
    M.Reachable s' := by
  obtain ⟨s₀, ls, h₀, hr⟩ := h
  exact ⟨s₀, ls ++ [l], h₀, .snoc hr hs⟩

/-- `I` holds initially and every step keeps it. -/
structure Inductive (M : LTS S L) (I : S → Prop) : Prop where
  init : ∀ s, M.init s → I s
  step : ∀ s l s', I s → M.step s l s' → I s'

theorem Inductive.run {I : S → Prop} (hI : M.Inductive I) {s s' : S} {ls : List L}
    (hr : M.Run s ls s') (h : I s) : I s' := by
  induction hr with
  | nil => exact h
  | snoc _ hs ih => exact hI.step _ _ _ ih hs

theorem Inductive.reachable {I : S → Prop} (hI : M.Inductive I) (s : S) (h : M.Reachable s) :
    I s := by
  obtain ⟨s₀, ls, h₀, hr⟩ := h
  exact hI.run hr (hI.init s₀ h₀)

/-- The same with the state before the step known to be reachable. -/
theorem Reachable.induction {I : S → Prop} {s : S} (h : M.Reachable s) (init : ∀ s, M.init s → I s)
    (step : ∀ s l s', M.Reachable s → I s → M.step s l s' → I s') : I s := by
  have hind : M.Inductive fun s => M.Reachable s ∧ I s :=
    ⟨fun s hs => ⟨reachable_init hs, init s hs⟩, fun s l s' hi hs => ⟨hi.1.step hs, step s l s' hi.1 hi.2 hs⟩⟩
  exact (hind.reachable s h).2

/-- The same system, keeping only the steps that meet `C`. -/
def guard (M : LTS S L) (C : S → L → Prop) : LTS S L where
  init := M.init
  step s l s' := M.step s l s' ∧ C s l

theorem Run.of_guard {C : S → L → Prop} {s s' : S} {ls : List L} (h : (M.guard C).Run s ls s') :
    M.Run s ls s' := by
  induction h with
  | nil => exact .nil _
  | snoc _ hs ih => exact .snoc ih hs.1

theorem Reachable.of_guard {C : S → L → Prop} {s : S} (h : (M.guard C).Reachable s) :
    M.Reachable s := by
  obtain ⟨s₀, ls, h₀, hr⟩ := h
  exact ⟨s₀, ls, h₀, hr.of_guard⟩

theorem Inductive.guard {I : S → Prop} (hI : M.Inductive I) (C : S → L → Prop) :
    (M.guard C).Inductive I where
  init := hI.init
  step s l s' h hs := hI.step s l s' h hs.1

theorem Run.append {s s' s'' : S} {ls ls' : List L} (h : M.Run s ls s') (h' : M.Run s' ls' s'') :
    M.Run s (ls ++ ls') s'' := by
  induction h' with
  | nil => rwa [List.append_nil]
  | snoc _ hs ih =>
    rw [← List.append_assoc]
    exact .snoc ih hs

theorem Reachable.run {s s' : S} {ls : List L} (h : M.Reachable s) (hr : M.Run s ls s') :
    M.Reachable s' := by
  obtain ⟨s₀, ks, h₀, hr₀⟩ := h
  exact ⟨s₀, ks ++ ls, h₀, hr₀.append hr⟩

/-- `f` takes every step of `M` from a reachable state to a run of `N`. -/
structure Maps (M : LTS S L) (N : LTS T K) (f : S → T) : Prop where
  init : ∀ s, M.init s → N.init (f s)
  step : ∀ s l s', M.Reachable s → M.step s l s' → ∃ ks, N.Run (f s) ks (f s')

theorem Maps.reachable {f : S → T} (hf : Maps M N f) {s : S} (h : M.Reachable s) :
    N.Reachable (f s) := by
  obtain ⟨s₀, ls, h₀, hr⟩ := h
  obtain ⟨ks, hks⟩ : ∃ ks, N.Run (f s₀) ks (f s) := by
    induction hr with
    | nil => exact ⟨[], .nil _⟩
    | @snoc s s' ls l hr hs ih =>
      obtain ⟨ks, hks⟩ := ih
      obtain ⟨ks', hks'⟩ := hf.step _ _ _ ⟨s₀, _, h₀, hr⟩ hs
      exact ⟨ks ++ ks', hks.append hks'⟩
  exact ⟨f s₀, ks, hf.init s₀ h₀, hks⟩

/-- `N` follows every step of `M` with a run, in states that `R` relates. -/
def Simulates (M : LTS S L) (N : LTS T K) (R : S → T → Prop) : Prop :=
  ∀ s l s' t, R s t → N.Reachable t → M.step s l s' → ∃ ks t', N.Run t ks t' ∧ R s' t'

theorem Simulates.run {R : S → T → Prop} (hR : Simulates M N R) {s s' : S} {ls : List L}
    (hr : M.Run s ls s') {t : T} (h : R s t) (ht : N.Reachable t) : ∃ ks t', N.Run t ks t' ∧ R s' t' := by
  induction hr with
  | nil => exact ⟨[], t, .nil _, h⟩
  | snoc _ hs ih =>
    obtain ⟨ks, t', hks, h'⟩ := ih
    obtain ⟨ks', t'', hks', h''⟩ := hR _ _ _ _ h' (ht.run hks) hs
    exact ⟨ks ++ ks', t'', hks.append hks', h''⟩

end LTS
end Bootd.Core
