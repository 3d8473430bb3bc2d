import Mathlib.Data.List.Basic

/-!
# Where a program with an error exit stops

`StateT σ (Except ε)` loses the state when it stops. `bind_error`, `foldlM_error` and
`forM_error` say which part stopped, and in what state it was started. `Avoids Bad m s Q` says
that `m` run from `s` does not stop with an error in `Bad`, and that `Q` holds when
it returns; the rules take a program apart along its binds.

* `bind_error`, `foldlM_error`, `forM_error`: the part that stopped.
* `Avoids.bind`, `Avoids.foldlM`: programs whose parts avoid an error.
* `hits_bind`, `hits_foldlM`: the part that meets one.
-/
namespace Bootd.Core.Stops

variable {ε σ α β : Type}

section
variable {m : StateT σ (Except ε) α} {f : α → StateT σ (Except ε) β} {g : β → α → StateT σ (Except ε) β} {s s' : σ}
  {l : List α} {b b' : β} {e : ε}

theorem bind_run (m : StateT σ (Except ε) α) (f : α → StateT σ (Except ε) β) (s : σ) :
    (m >>= f) s = m s >>= fun r => f r.1 r.2 := rfl

theorem bind_ok : (m >>= f) s = .ok (b, s') ↔ ∃ a s₁, m s = .ok (a, s₁) ∧ f a s₁ = .ok (b, s') := by
  rw [bind_run]
  cases m s with
  | error e => simp [bind, Except.bind]
  | ok r =>
    obtain ⟨a, s₁⟩ := r
    simp [bind, Except.bind]

theorem bind_error : (m >>= f) s = .error e ↔
    m s = .error e ∨ ∃ a s₁, m s = .ok (a, s₁) ∧ f a s₁ = .error e := by
  rw [bind_run]
  cases m s with
  | error e' => simp [bind, Except.bind]
  | ok r =>
    obtain ⟨a, s₁⟩ := r
    simp [bind, Except.bind]

theorem except_bind_error {x : Except ε α} {f : α → Except ε β} : x >>= f = .error e ↔
    x = .error e ∨ ∃ a, x = .ok a ∧ f a = .error e := by
  cases x with
  | error e' => simp [bind, Except.bind]
  | ok a => simp [bind, Except.bind]

/-- The element at which a fold stopped. -/
theorem foldlM_error : l.foldlM g b s = .error e ↔ ∃ pre a post b' s', l = pre ++ a :: post ∧
    pre.foldlM g b s = .ok (b', s') ∧ g b' a s' = .error e := by
  induction l generalizing b s with
  | nil =>
    show Except.ok (b, s) = .error e ↔ _
    simp
  | cons a l ih =>
    rw [List.foldlM_cons, bind_error]
    constructor
    · rintro (h | ⟨b', s', ha, h⟩)
      · exact ⟨[], a, l, b, s, rfl, rfl, h⟩
      · obtain ⟨pre, a', post, b'', s'', rfl, hpre, hstop⟩ := ih.mp h
        exact ⟨a :: pre, a', post, b'', s'', rfl, bind_ok.mpr ⟨b', s', ha, hpre⟩, hstop⟩
    · rintro ⟨pre, a', post, b'', s'', hl, hpre, hstop⟩
      cases pre with
      | nil =>
        cases hl
        cases hpre
        exact .inl hstop
      | cons c pre =>
        cases hl
        obtain ⟨b', s', ha, hpre⟩ := bind_ok.mp hpre
        exact .inr ⟨b', s', ha, ih.mpr ⟨pre, a', post, b'', s'', rfl, hpre, hstop⟩⟩

/-- The element at which a loop without a result stopped. -/
theorem forM_error {k : α → StateT σ (Except ε) PUnit} : l.forM k s = .error e ↔
    ∃ pre a post s', l = pre ++ a :: post ∧
    pre.forM k s = .ok (⟨⟩, s') ∧ k a s' = .error e := by
  induction l generalizing s with
  | nil =>
    show Except.ok (PUnit.unit, s) = .error e ↔ _
    simp
  | cons a l ih =>
    show (k a >>= fun _ => l.forM k) s = .error e ↔ _
    rw [bind_error]
    constructor
    · rintro (h | ⟨⟨⟩, s', ha, h⟩)
      · exact ⟨[], a, l, s, rfl, rfl, h⟩
      · obtain ⟨pre, a', post, s'', rfl, hpre, hstop⟩ := ih.mp h
        exact ⟨a :: pre, a', post, s'', rfl, bind_ok.mpr ⟨⟨⟩, s', ha, hpre⟩, hstop⟩
    · rintro ⟨pre, a', post, s'', hl, hpre, hstop⟩
      cases pre with
      | nil =>
        cases hl
        cases hpre
        exact .inl hstop
      | cons c pre =>
        cases hl
        obtain ⟨⟨⟩, s', ha, hpre⟩ := bind_ok.mp hpre
        exact .inr ⟨⟨⟩, s', ha, ih.mpr ⟨pre, a', post, s'', rfl, hpre, hstop⟩⟩

/-- What every round keeps. -/
theorem foldlM_keeps {I : β → σ → Prop} (hg : ∀ a ∈ l, ∀ b s b' s', I b s → g b a s = .ok (b', s') → I b' s')
    (h : I b s) (hrun : l.foldlM g b s = .ok (b', s')) : I b' s' := by
  induction l generalizing b s with
  | nil =>
    cases hrun
    exact h
  | cons a l ih =>
    rw [List.foldlM_cons] at hrun
    obtain ⟨b₁, s₁, ha, hrun⟩ := bind_ok.mp hrun
    exact ih (fun c hc => hg c (List.mem_cons_of_mem _ hc)) (hg a List.mem_cons_self b s b₁ s₁ h ha) hrun

end

/-! ## Errors that are avoided -/

/-- `m` does not stop with an error in `Bad`, and what it returns is in `Q`. -/
def Avoids (Bad : ε → Prop) (m : StateT σ (Except ε) α) (s : σ) (Q : α → σ → Prop) : Prop :=
  match m s with
  | .ok (a, s') => Q a s'
  | .error e => ¬Bad e

section
variable {Bad : ε → Prop} {m : StateT σ (Except ε) α} {f : α → StateT σ (Except ε) β} {s s' : σ} {a : α} {e : ε}
  {Q Q' : α → σ → Prop} {R : β → σ → Prop}

theorem Avoids.ok (h : Avoids Bad m s Q) (hr : m s = .ok (a, s')) : Q a s' := by
  unfold Avoids at h
  rw [hr] at h
  exact h

theorem Avoids.error (h : Avoids Bad m s Q) (hr : m s = .error e) : ¬Bad e := by
  unfold Avoids at h
  rw [hr] at h
  exact h

theorem Avoids.intro (hok : ∀ a s', m s = .ok (a, s') → Q a s') (herr : ∀ e, m s = .error e → ¬Bad e) :
    Avoids Bad m s Q := by
  unfold Avoids
  cases h : m s with
  | ok r => exact hok r.1 r.2 h
  | error e => exact herr e h

theorem Avoids.mono (h : Avoids Bad m s Q) (hQ : ∀ a s', Q a s' → Q' a s') : Avoids Bad m s Q' :=
  .intro (fun a s' hr => hQ a s' (h.ok hr)) fun _ hr => h.error hr

theorem Avoids.pure (a : α) (h : Q a s) : Avoids Bad (pure a) s Q := h

theorem Avoids.throw (h : ¬Bad e) : Avoids Bad (throw e) s Q := h

theorem Avoids.bind (h : Avoids Bad m s Q) (hf : ∀ a s', Q a s' → Avoids Bad (f a) s' R) :
    Avoids Bad (m >>= f) s R := by
  refine .intro (fun b s' hr => ?_) fun e hr => ?_
  · obtain ⟨a, s₁, hm, hf'⟩ := bind_ok.mp hr
    exact (hf a s₁ (h.ok hm)).ok hf'
  · rcases bind_error.mp hr with hm | ⟨a, s₁, hm, hf'⟩
    · exact h.error hm
    · exact (hf a s₁ (h.ok hm)).error hf'

/-- The program looks at the state. -/
theorem Avoids.get {f : σ → StateT σ (Except ε) β} (h : Avoids Bad (f s) s R) : Avoids Bad (get >>= f) s R := h

theorem Avoids.modify {g : σ → σ} {Q : PUnit → σ → Prop} (h : Q ⟨⟩ (g s)) : Avoids Bad (modify g) s Q := h

theorem Avoids.foldlM {g : β → α → StateT σ (Except ε) β} {I : β → σ → Prop} {l : List α} {b : β} (h : I b s)
    (hg : ∀ a ∈ l, ∀ b s, I b s → Avoids Bad (g b a) s I) : Avoids Bad (l.foldlM g b) s I := by
  induction l generalizing b s with
  | nil => exact h
  | cons a l ih =>
    rw [List.foldlM_cons]
    exact (hg a List.mem_cons_self b s h).bind fun b' s' hI =>
      ih hI fun c hc => hg c (List.mem_cons_of_mem _ hc)

theorem Avoids.forM {g : α → StateT σ (Except ε) PUnit} {I : σ → Prop} {l : List α} (h : I s)
    (hg : ∀ a ∈ l, ∀ s, I s → Avoids Bad (g a) s fun _ => I) : Avoids Bad (l.forM g) s fun _ => I := by
  induction l generalizing s with
  | nil => exact h
  | cons a l ih =>
    exact (hg a List.mem_cons_self s h).bind fun _ s' hI => ih hI fun c hc => hg c (List.mem_cons_of_mem _ hc)

end

/-! ## Errors that are met -/

/-- `m` stops with an error in `Bad`. -/
def Hits (Bad : ε → Prop) (m : StateT σ (Except ε) α) (s : σ) : Prop := ∃ e, m s = .error e ∧ Bad e

section
variable {Bad : ε → Prop} {m : StateT σ (Except ε) α} {f : α → StateT σ (Except ε) β} {s : σ} {Q : α → σ → Prop}

theorem Avoids.not_hits (h : Avoids Bad m s Q) : ¬Hits Bad m s := fun ⟨_, he, hbad⟩ => h.error he hbad

theorem hits_bind : Hits Bad (m >>= f) s ↔ Hits Bad m s ∨ ∃ a s', m s = .ok (a, s') ∧ Hits Bad (f a) s' := by
  unfold Hits
  simp only [bind_error]
  constructor
  · rintro ⟨e, h | ⟨a, s', hm, hf⟩, hbad⟩
    · exact .inl ⟨e, h, hbad⟩
    · exact .inr ⟨a, s', hm, e, hf, hbad⟩
  · rintro (⟨e, h, hbad⟩ | ⟨a, s', hm, e, hf, hbad⟩)
    · exact ⟨e, .inl h, hbad⟩
    · exact ⟨e, .inr ⟨a, s', hm, hf⟩, hbad⟩

theorem hits_foldlM {g : β → α → StateT σ (Except ε) β} {l : List α} {b : β} : Hits Bad (l.foldlM g b) s ↔
    ∃ pre a post b' s', l = pre ++ a :: post ∧ pre.foldlM g b s = .ok (b', s') ∧ Hits Bad (g b' a) s' := by
  unfold Hits
  simp only [foldlM_error]
  constructor
  · rintro ⟨e, ⟨pre, a, post, b', s', hl, hpre, hstop⟩, hbad⟩
    exact ⟨pre, a, post, b', s', hl, hpre, e, hstop, hbad⟩
  · rintro ⟨pre, a, post, b', s', hl, hpre, e, hstop, hbad⟩
    exact ⟨e, ⟨pre, a, post, b', s', hl, hpre, hstop⟩, hbad⟩

end
end Bootd.Core.Stops
