import Mathlib.Data.List.Forall2
import Bootd.Core.Stops

/-!
# Runs of steps with keys

`Runs step as s s'`: the steps for the elements of `as`, one after the other, lead from
`s` to `s'`. If steps of different keys commute, only the order within each key counts;
they need to commute only where an invariant of the steps holds.

* `runs_foldlM`: the runs of a loop over a list.
* `Commutes.last`: a step can be taken after others with different keys.
* `Runs.reorder`: lists with the same elements of each key, in the same order, have the
  same runs.
-/
namespace Bootd.Core.Keyed

variable {α κ σ : Type*} {step : α → σ → σ → Prop} {key : α → κ} {R : α → α → Prop}
  {I : σ → Prop} {as bs gs : List α} {a : α} {s s' s'' : σ}

inductive Runs (step : α → σ → σ → Prop) : List α → σ → σ → Prop
  | nil (s : σ) : Runs step [] s s
  | cons {a : α} {as : List α} {s s' s'' : σ} : step a s s' → Runs step as s' s'' → Runs step (a :: as) s s''

def Keeps (I : σ → Prop) (step : α → σ → σ → Prop) : Prop := ∀ a s s', I s → step a s s' → I s'

/-- Steps of different keys can change places. -/
def Commutes (I : σ → Prop) (key : α → κ) (step : α → σ → σ → Prop) : Prop :=
  ∀ a b s s' s'', I s → key a ≠ key b → step a s s' → step b s' s'' → ∃ t, step b s t ∧ step a t s''

theorem runs_append : Runs step (as ++ bs) s s'' ↔ ∃ s', Runs step as s s' ∧ Runs step bs s' s'' := by
  induction as generalizing s with
  | nil =>
    refine ⟨fun h => ⟨s, .nil s, h⟩, ?_⟩
    rintro ⟨s', h, h'⟩
    cases h
    exact h'
  | cons a as ih =>
    constructor
    · intro h
      cases h with
      | cons ha hrest =>
        obtain ⟨s', has, hbs⟩ := ih.mp hrest
        exact ⟨s', .cons ha has, hbs⟩
    · rintro ⟨s', h, hbs⟩
      cases h with
      | cons ha has => exact .cons ha (ih.mpr ⟨s', has, hbs⟩)

/-- The runs of a loop over a list. -/
theorem runs_foldlM {ε τ : Type} {f : α → StateT τ (Except ε) Unit} {t t' : τ} :
    as.foldlM (fun _ a => f a) () t = .ok ((), t') ↔ Runs (fun a t t' => f a t = .ok ((), t')) as t t' := by
  induction as generalizing t with
  | nil =>
    constructor
    · intro h
      cases h
      exact .nil _
    · intro h
      cases h
      rfl
  | cons a as ih =>
    rw [List.foldlM_cons]
    constructor
    · intro h
      obtain ⟨_, t₁, ha, hrest⟩ := Stops.bind_ok.mp h
      exact .cons ha (ih.mp hrest)
    · intro h
      cases h with
      | cons ha hrest => exact Stops.bind_ok.mpr ⟨_, _, ha, ih.mpr hrest⟩

/-- A step can be taken after others with different keys. -/
theorem Commutes.last (hc : Commutes I key step) (hI : Keeps I step) (hs : I s)
    (hgs : ∀ g ∈ gs, key g ≠ key a) (ha : step a s s') (hr : Runs step gs s' s'') :
    ∃ t, Runs step gs s t ∧ step a t s'' := by
  induction gs generalizing s s' with
  | nil =>
    cases hr
    exact ⟨s, .nil s, ha⟩
  | cons g gs ih =>
    cases hr with
    | cons hg hr =>
      obtain ⟨t, hg', ha'⟩ := hc a g s s' _ hs (Ne.symm (hgs g List.mem_cons_self)) ha hg
      obtain ⟨t', hr', ha''⟩ := ih (hI g s t hs hg') (fun x hx => hgs x (List.mem_cons_of_mem _ hx)) ha' hr
      exact ⟨t', .cons hg' hr', ha''⟩

variable [DecidableEq κ]

theorem filter_key_neg (h : ∀ x ∈ gs, key x ≠ key a) : gs.filter (key · = key a) = [] := by
  simpa using h

/-- The order of elements with different keys does not matter. `R` relates elements
whose steps are the same. -/
theorem Runs.reorder (hc : Commutes I key step) (hI : Keeps I step) (hR : ∀ a b, R a b → key b = key a)
    (hstep : ∀ a b s s', R a b → step a s s' → step b s s')
    (hsame : ∀ k, List.Forall₂ R (as.filter (key · = k)) (bs.filter (key · = k))) (hs : I s)
    (h : Runs step as s s') : Runs step bs s s' := by
  induction as generalizing bs s with
  | nil =>
    have hnil : bs = [] := by
      refine List.eq_nil_iff_forall_not_mem.mpr fun b hb => ?_
      have hmem : b ∈ bs.filter (key · = key b) := by simp [hb]
      rw [List.forall₂_nil_left_iff.mp (hsame (key b))] at hmem
      cases hmem
    rw [hnil]
    exact h
  | cons a as ih =>
    -- the first of its key in `bs`, and what stands in front of it
    have ha := hsame (key a)
    rw [List.filter_cons_of_pos (by simp)] at ha
    obtain ⟨b, rest, hab, -, hb⟩ := List.forall₂_cons_left_iff.mp ha
    obtain ⟨gs, rest', rfl, hgs, -, -⟩ := List.filter_eq_cons_iff.mp hb
    have hgs : ∀ x ∈ gs, key x ≠ key b := fun x hx => by simpa [hR a b hab] using hgs x hx
    cases h with
    | cons hstep_a hrest =>
      have hsame' : ∀ k, List.Forall₂ R (as.filter (key · = k)) ((gs ++ rest').filter (key · = k)) := by
        intro k
        have hk := hsame k
        rw [List.filter_append] at hk ⊢
        by_cases hak : key a = k
        · have hbk : key b = k := (hR a b hab).trans hak
          have hnil : gs.filter (key · = k) = [] := hbk ▸ filter_key_neg hgs
          rw [hnil] at hk ⊢
          rw [List.filter_cons_of_pos (by simpa using hak), List.nil_append,
            List.filter_cons_of_pos (by simpa using hbk)] at hk
          exact (List.forall₂_cons.mp hk).2
        · have hbk : key b ≠ k := fun h => hak ((hR a b hab).symm.trans h)
          rwa [List.filter_cons_of_neg (by simpa using hak), List.filter_cons_of_neg (by simpa using hbk)] at hk
      obtain ⟨m, hruns, hend⟩ := runs_append.mp (ih hsame' (hI a _ _ hs hstep_a) hrest)
      obtain ⟨t, hgt, hbt⟩ := hc.last hI hs hgs (hstep a b _ _ hab hstep_a) hruns
      exact runs_append.mpr ⟨t, hgt, .cons hbt hend⟩

end Bootd.Core.Keyed
