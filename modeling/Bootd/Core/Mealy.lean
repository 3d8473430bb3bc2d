import Mathlib.Data.List.Basic

/-!
# Machines that write while they read

A machine takes one letter after the other and writes a list of outputs at each:
`out` is what it has written at the end of a word, `fin` the state it is left in.
A word can be read in parts.

* `out_append`, `fin_append`: the second part is read from the state behind the first.
* `fin_keeps`: what every letter keeps holds at the end.
* `quiet`: a word whose letters are all silent.
-/
namespace Bootd.Core.Mealy

variable {σ α β : Type*} (step : σ → α → List β × σ)

/-- The state behind a word. -/
def fin (s : σ) (as : List α) : σ := as.foldl (fun s a => (step s a).2) s

/-- What is written for a word. -/
def out : σ → List α → List β
  | _, [] => []
  | s, a :: as => (step s a).1 ++ out (step s a).2 as

section
variable {step} {s s' : σ} {a : α} {as bs : List α}

@[simp] theorem fin_nil : fin step s [] = s := rfl

@[simp] theorem out_nil : out step s [] = [] := rfl

@[simp] theorem fin_cons : fin step s (a :: as) = fin step (step s a).2 as := rfl

@[simp] theorem out_cons : out step s (a :: as) = (step s a).1 ++ out step (step s a).2 as := rfl

theorem fin_append : fin step s (as ++ bs) = fin step (fin step s as) bs := List.foldl_append

theorem out_append : out step s (as ++ bs) = out step s as ++ out step (fin step s as) bs := by
  induction as generalizing s with
  | nil => rfl
  | cons a as ih => simp [ih]

/-- What every letter keeps. -/
theorem fin_keeps {I : σ → Prop} (hstep : ∀ s, ∀ a ∈ as, I s → I (step s a).2) (h : I s) : I (fin step s as) := by
  induction as generalizing s with
  | nil => exact h
  | cons a as ih =>
    exact ih (fun s b hb => hstep s b (List.mem_cons_of_mem _ hb)) (hstep s a List.mem_cons_self h)

/-- Letters at which nothing is written and the state stays. -/
theorem quiet (h : ∀ a ∈ as, step s a = ([], s)) : out step s as = [] ∧ fin step s as = s := by
  induction as with
  | nil => exact ⟨rfl, rfl⟩
  | cons a as ih =>
    obtain ⟨ho, hf⟩ := ih fun b hb => h b (List.mem_cons_of_mem _ hb)
    simp [h a List.mem_cons_self, ho, hf]

end
end Bootd.Core.Mealy
