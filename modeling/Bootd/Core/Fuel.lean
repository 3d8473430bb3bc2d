import Bootd.Core.Exec

/-!
# Loops with fuel

`m n` is a computation whose loops are cut off after `n` rounds; it then stops
with an `e` of its own. `Settles e m s r` says that `m` run from `s` ends as
`r`, unless the fuel is used up, and that there is a fuel that is enough;
`Starves e m s` that no fuel is. The rules take both along a bind and along the
round that uses up one unit.

* `Settles.unique`: at most one result.
* `Starves.not_settles`: a loop that never ends has none.
-/
namespace Bootd.Core.Fuel

variable {ε σ α β : Type} {m m' : Nat → EStateM ε σ α} {f : Nat → α → EStateM ε σ β}
  {s s' : σ} {a : α} {e e' : ε} {r r' : EStateM.Result ε σ α}

/-- `m` run from `s` ends as `r`. -/
structure Settles (e : ε) (m : Nat → EStateM ε σ α) (s : σ) (r : EStateM.Result ε σ α) : Prop where
  enough : ∃ N, ∀ n, N ≤ n → m n s = r
  short : ∀ n, m n s = r ∨ ∃ s', m n s = .error e s'

/-- Whatever the fuel, `m` run from `s` uses it up. -/
def Starves (e : ε) (m : Nat → EStateM ε σ α) (s : σ) : Prop := ∀ n, ∃ s', m n s = .error e s'

theorem Settles.unique (h : Settles e m s r) (h' : Settles e m s r') : r = r' := by
  obtain ⟨N, hN⟩ := h.enough
  obtain ⟨N', hN'⟩ := h'.enough
  rw [← hN (max N N') (Nat.le_max_left _ _), hN' (max N N') (Nat.le_max_right _ _)]

theorem Settles.of_eq (h : ∀ n, m n s = r) : Settles e m s r :=
  ⟨⟨0, fun n _ => h n⟩, fun n => .inl (h n)⟩

theorem Settles.congr (hs : Settles e m' s' r) (h : ∀ n, m n s = m' n s') : Settles e m s r := by
  obtain ⟨N, hN⟩ := hs.enough
  exact ⟨⟨N, fun n hn => (h n).trans (hN n hn)⟩, fun n => h n ▸ hs.short n⟩

/-- One unit of fuel. -/
theorem Settles.succ (hs : Settles e m' s' r) (hz : ∃ s', m 0 s = .error e s')
    (h : ∀ n, m (n + 1) s = m' n s') : Settles e m s r := by
  obtain ⟨N, hN⟩ := hs.enough
  refine ⟨⟨N + 1, fun n hn => ?_⟩, fun n => ?_⟩
  · cases n with
    | zero => omega
    | succ n => rw [h n, hN n (by omega)]
  · cases n with
    | zero => exact .inr hz
    | succ n => exact h n ▸ hs.short n

theorem Settles.of_succ (hz : ∃ s', m 0 s = .error e s') (h : ∀ n, m (n + 1) s = r) : Settles e m s r := by
  refine ⟨⟨1, fun n hn => ?_⟩, fun n => ?_⟩
  · cases n with
    | zero => omega
    | succ n => exact h n
  · cases n with
    | zero => exact .inr hz
    | succ n => exact .inl (h n)

theorem Settles.bind {r : EStateM.Result ε σ β} (hm : Settles e m s (.ok a s'))
    (hf : Settles e (fun n => f n a) s' r) : Settles e (fun n => m n >>= f n) s r := by
  obtain ⟨N, hN⟩ := hm.enough
  obtain ⟨N', hN'⟩ := hf.enough
  refine ⟨⟨max N N', fun n hn => ?_⟩, fun n => ?_⟩
  · exact (Exec.bind_run (hN n (by omega))).trans (hN' n (by omega))
  · simp only [Bind.bind, EStateM.bind]
    rcases hm.short n with h | ⟨s'', h⟩
    · rw [h]; exact hf.short n
    · rw [h]; exact .inr ⟨s'', rfl⟩

theorem Settles.bind_error (hm : Settles e m s (.error e' s')) :
    Settles e (fun n => m n >>= f n) s (.error e' s') := by
  obtain ⟨N, hN⟩ := hm.enough
  refine ⟨⟨N, fun n hn => ?_⟩, fun n => ?_⟩
  · exact Exec.bind_stop (hN n hn)
  · simp only [Bind.bind, EStateM.bind]
    rcases hm.short n with h | ⟨s'', h⟩
    · rw [h]; exact .inl rfl
    · rw [h]; exact .inr ⟨s'', rfl⟩

theorem Starves.not_settles (h : Starves e m s) (hs : Settles e m s r) : ∃ s', r = .error e s' := by
  obtain ⟨N, hN⟩ := hs.enough
  obtain ⟨s', hs'⟩ := h N
  exact ⟨s', (hN N (Nat.le_refl N)).symm.trans hs'⟩

theorem Starves.succ (hs : Starves e m' s') (hz : ∃ s', m 0 s = .error e s')
    (h : ∀ n, m (n + 1) s = m' n s') : Starves e m s := by
  intro n
  cases n with
  | zero => exact hz
  | succ n => rw [h n]; exact hs n

theorem Starves.congr (hs : Starves e m' s') (h : ∀ n, m n s = m' n s') : Starves e m s :=
  fun n => h n ▸ hs n

/-- A loop that goes round to where it was. -/
theorem Starves.cycle (hz : ∃ s', m 0 s = .error e s') (h : ∀ n, m (n + 1) s = m n s) : Starves e m s := by
  intro n
  induction n with
  | zero => exact hz
  | succ n ih => rw [h n]; exact ih

theorem Starves.bind (hm : Starves e m s) : Starves e (fun n => m n >>= f n) s := by
  intro n
  obtain ⟨s', hs'⟩ := hm n
  exact ⟨s', Exec.bind_stop hs'⟩

theorem Starves.bind_right (hm : Settles e m s (.ok a s')) (hf : Starves e (fun n => f n a) s') :
    Starves e (fun n => m n >>= f n) s := by
  intro n
  simp only [Bind.bind, EStateM.bind]
  rcases hm.short n with h | ⟨s'', h⟩
  · rw [h]; exact hf n
  · rw [h]; exact ⟨s'', rfl⟩

/-! ## One loop that goes on as another -/

/-- What becomes of `m'` becomes of `m`. -/
structure Goes (e : ε) (m : Nat → EStateM ε σ α) (s : σ) (m' : Nat → EStateM ε σ α) (s' : σ) : Prop where
  settles : ∀ {r}, Settles e m' s' r → Settles e m s r
  starves : Starves e m' s' → Starves e m s

variable {m'' : Nat → EStateM ε σ α} {s'' : σ}

theorem Goes.congr (h : ∀ n, m n s = m' n s') : Goes e m s m' s' :=
  ⟨fun hs => hs.congr h, fun hs => hs.congr h⟩

theorem Goes.trans (h : Goes e m s m' s') (h' : Goes e m' s' m'' s'') : Goes e m s m'' s'' :=
  ⟨fun hs => h.settles (h'.settles hs), fun hs => h.starves (h'.starves hs)⟩

theorem Goes.succ (hz : ∃ s', m 0 s = .error e s') (h : ∀ n, m (n + 1) s = m' n s')
    (hg : Goes e m' s' m'' s'') : Goes e m s m'' s'' :=
  ⟨fun hs => (hg.settles hs).succ hz h, fun hs => (hg.starves hs).succ hz h⟩

theorem Goes.bind {k : Nat → EStateM ε σ β} {b : β} {f : Nat → β → EStateM ε σ α}
    (hk : Settles e k s (.ok b s')) (hg : Goes e (fun n => f n b) s' m'' s'') :
    Goes e (fun n => k n >>= f n) s m'' s'' :=
  ⟨fun hs => hk.bind (hg.settles hs), fun hs => .bind_right hk (hg.starves hs)⟩

end Bootd.Core.Fuel
