import Mathlib.Data.List.Nodup
import Mathlib.Data.List.Basic

/-!
# Linked chains in a heap

A heap of records is a function `nx : P → Option (Option P)`: the next pointer
of a record, or `none` when the pointer is wild. `Path nx p ps q` says that
following next pointers from `p` visits exactly `ps` and arrives at `q`.

* `Path.nodup`: a chain that ends in NULL visits no record twice.
* `Lasso`: a chain without repetition that either ends in NULL or runs back
  into itself; appending at the end of a NULL-terminated one gives a lasso
  again (`Path.append_tail`).
* `find`: the search loop `for (n = head; n; n = n->next) if (test) return n;`
  with `fuel` for its iterations. On a NULL-terminated chain it is the
  first hit (`find_path`), and fuel for one iteration per record is enough;
  on a chain that runs back into itself it returns a hit or never ends,
  whatever the fuel (`find_loop`).
-/
namespace Bootd.Core.Chain

variable {P ε : Type}

/-- Next pointers from `p` visit `ps` in order and arrive at `q`. -/
def Path (nx : P → Option (Option P)) : Option P → List P → Option P → Prop
  | p, [], q => p = q
  | p, a :: ps, q => p = some a ∧ ∃ n, nx a = some n ∧ Path nx n ps q

variable {nx nx' : P → Option (Option P)} {p q r : Option P} {a b : P} {ps qs : List P}

theorem Path.append (h : Path nx p ps q) (h' : Path nx q qs r) : Path nx p (ps ++ qs) r := by
  induction ps generalizing p with
  | nil => cases h; exact h'
  | cons a ps ih => obtain ⟨e, n, hn, hp⟩ := h; exact ⟨e, n, hn, ih hp⟩

theorem Path.split : ∀ {ps : List P} {p : Option P}, Path nx p (ps ++ qs) r →
    ∃ q, Path nx p ps q ∧ Path nx q qs r
  | [], p, h => ⟨p, rfl, h⟩
  | _ :: _, _, ⟨e, n, hn, h⟩ => by
    obtain ⟨q, h1, h2⟩ := Path.split h
    exact ⟨q, ⟨e, n, hn, h1⟩, h2⟩

/-- Following the same number of pointers arrives at the same place. -/
theorem Path.end_unique : ∀ {ps : List P} {p q q' : Option P}, Path nx p ps q → Path nx p ps q' →
    q = q'
  | [], _, _, _, h, h' => h.symm.trans h'
  | a :: ps, _, _, _, ⟨e, n, hn, h⟩, ⟨_, n', hn', h'⟩ => by
    rw [hn] at hn'; cases hn'
    exact Path.end_unique h h'

/-- A chain that ends in NULL is determined by its head. -/
theorem Path.unique : ∀ {ps qs : List P} {p : Option P}, Path nx p ps none → Path nx p qs none →
    ps = qs
  | [], [], _, _, _ => rfl
  | [], _ :: _, _, h, h' => by cases h; cases h'.1
  | _ :: _, [], _, h, h' => by cases h'; cases h.1
  | a :: ps, b :: qs, _, ⟨e, n, hn, h⟩, ⟨e', n', hn', h'⟩ => by
    subst e; cases e'
    rw [hn] at hn'; cases hn'
    rw [Path.unique h h']

theorem Path.nodup (h : Path nx p ps none) : ps.Nodup := by
  induction ps generalizing p with
  | nil => exact List.nodup_nil
  | cons a ps ih =>
    obtain ⟨e, n, hn, h⟩ := h
    refine List.nodup_cons.mpr ⟨fun ha => ?_, ih h⟩
    -- a second visit to `a` would leave two chains of different lengths from it
    obtain ⟨l₁, l₂, rfl⟩ := List.append_of_mem ha
    obtain ⟨q, -, h2⟩ := h.split
    have hq : q = some a := h2.1
    have h1 : Path nx (some a) (a :: (l₁ ++ a :: l₂)) none := ⟨rfl, n, hn, h⟩
    have := congrArg List.length (Path.unique h1 (hq ▸ h2))
    simp at this; omega

theorem Path.congr (h : Path nx p ps q) (he : ∀ a ∈ ps, nx' a = nx a) : Path nx' p ps q := by
  induction ps generalizing p with
  | nil => exact h
  | cons a ps ih =>
    obtain ⟨e, n, hn, h⟩ := h
    exact ⟨e, n, by rw [he a (by simp), hn], ih h (fun b hb => he b (by simp [hb]))⟩

theorem Path.mem_next (h : Path nx p ps q) (ha : a ∈ ps) : ∃ n, nx a = some n := by
  induction ps generalizing p with
  | nil => cases ha
  | cons b ps ih =>
    obtain ⟨-, n, hn, h⟩ := h
    rcases List.mem_cons.mp ha with rfl | ha
    · exact ⟨n, hn⟩
    · exact ih h ha

/-- The next pointer of a listed record is the end of the chain or listed. -/
theorem Path.next_mem (h : Path nx p ps q) (ha : a ∈ ps) (hb : nx a = some r) :
    r = q ∨ ∃ b ∈ ps, r = some b := by
  induction ps generalizing p with
  | nil => cases ha
  | cons c ps ih =>
    obtain ⟨-, n, hn, h⟩ := h
    rcases List.mem_cons.mp ha with rfl | ha
    · rw [hn] at hb; cases hb
      cases ps with
      | nil => exact .inl h
      | cons d ps => exact .inr ⟨d, by simp, h.1⟩
    · rcases ih h ha with e | ⟨b, hb', e⟩
      · exact .inl e
      · exact .inr ⟨b, by simp [hb'], e⟩

theorem Path.head_mem (h : Path nx p ps q) : p = q ∨ ∃ b ∈ ps, p = some b := by
  cases ps with
  | nil => exact .inl h
  | cons a ps => exact .inr ⟨a, by simp, h.1⟩

/-! ## Lassos -/

/-- No record twice, and the end is NULL or one of the records. -/
def Lasso (nx : P → Option (Option P)) (p : Option P) (ps : List P) : Prop :=
  ps.Nodup ∧ ∃ q, Path nx p ps q ∧ ∀ a, q = some a → a ∈ ps

theorem Lasso.of_path (h : Path nx p ps none) : Lasso nx p ps :=
  ⟨h.nodup, none, h, fun _ e => by cases e⟩

theorem Lasso.congr (h : Lasso nx p ps) (he : ∀ a ∈ ps, nx' a = nx a) : Lasso nx' p ps := by
  obtain ⟨hn, q, hp, hq⟩ := h
  exact ⟨hn, q, hp.congr he, hq⟩

/-- Following pointers from anywhere in a lasso stays in it. -/
theorem Lasso.closed (h : Lasso nx p ps) : (∀ a, p = some a → a ∈ ps) ∧
    ∀ a ∈ ps, ∃ n, nx a = some n ∧ ∀ b, n = some b → b ∈ ps := by
  obtain ⟨-, q, hp, hq⟩ := h
  refine ⟨fun a e => ?_, fun a ha => ?_⟩
  · rcases hp.head_mem with e' | ⟨b, hb, e'⟩
    · exact hq a (e'.symm.trans e)
    · rw [e] at e'; cases e'; exact hb
  · obtain ⟨n, hn⟩ := hp.mem_next ha
    refine ⟨n, hn, fun b e => ?_⟩
    rcases hp.next_mem ha hn with e' | ⟨c, hc, e'⟩
    · exact hq b (e'.symm.trans e)
    · rw [e] at e'; cases e'; exact hc

/-- Every record on a chain from the head is in the lasso, and the other way
round. -/
theorem Lasso.mem_iff (h : Lasso nx p ps) : a ∈ ps ↔ ∃ qs q, Path nx p qs q ∧ a ∈ qs := by
  constructor
  · obtain ⟨-, q, hp, -⟩ := h
    exact fun ha => ⟨ps, q, hp, ha⟩
  · intro ⟨qs, q, hq, ha⟩
    obtain ⟨hhead, hnext⟩ := h.closed
    clear h
    induction qs generalizing p with
    | nil => cases ha
    | cons b qs ih =>
      obtain ⟨e, n, hn, hq⟩ := hq
      have hb := hhead b e
      rcases List.mem_cons.mp ha with rfl | ha
      · exact hb
      · obtain ⟨m, hm, hmem⟩ := hnext b hb
        rw [hn] at hm; cases hm
        exact ih hq ha hmem

/-- The list of a lasso is determined by its head. -/
theorem Path.prefix_unique : ∀ {ps qs : List P} {p q q' : Option P}, Path nx p ps q →
    Path nx p qs q' → ps <+: qs ∨ qs <+: ps
  | [], qs, _, _, _, _, _ => .inl (List.nil_prefix)
  | _ :: _, [], _, _, _, _, _ => .inr (List.nil_prefix)
  | a :: ps, b :: qs, _, _, _, ⟨e, n, hn, h⟩, ⟨e', n', hn', h'⟩ => by
    subst e; cases e'
    rw [hn] at hn'; cases hn'
    rcases Path.prefix_unique h h' with hp | hp
    · exact .inl (List.cons_prefix_cons.mpr ⟨rfl, hp⟩)
    · exact .inr (List.cons_prefix_cons.mpr ⟨rfl, hp⟩)

/-- A lasso that ends in NULL is the chain from its head. -/
theorem Lasso.eq_of_path (h : Lasso nx p qs) (hp : Path nx p ps none) : qs = ps := by
  obtain ⟨hn, q, hq, hmem⟩ := h
  rcases hq.prefix_unique hp with hpre | hpre
  · obtain ⟨ts, rfl⟩ := hpre
    obtain ⟨m, h1, h2⟩ := hp.split
    cases ts with
    | nil => rw [List.append_nil]
    | cons t ts =>
      -- the lasso would run back into a record that the chain visits again
      have ht : q = some t := (hq.end_unique h1).trans h2.1
      have := List.nodup_append.mp hp.nodup
      exact absurd rfl (this.2.2 t (hmem t ht) t List.mem_cons_self)
  · obtain ⟨ts, rfl⟩ := hpre
    obtain ⟨m, h1, h2⟩ := hq.split
    have hm : none = m := hp.end_unique h1
    cases ts with
    | nil => rw [List.append_nil]
    | cons t ts => rw [← hm] at h2; cases h2.1

/-- Hanging `b` behind the last record `a` of a NULL-terminated chain. -/
theorem Path.append_tail (h : Path nx p (ps ++ [a]) none) (he : ∀ c ∈ ps, nx' c = nx c)
    (ha : nx' a = some (some b)) (hn : nx' b = some r) :
    Path nx' p (ps ++ [a] ++ [b]) r := by
  obtain ⟨q, h1, h2⟩ := h.split
  have h1' : Path nx' p ps q := h1.congr he
  have h3 : Path nx' q [a] (some b) := ⟨h2.1, _, ha, rfl⟩
  have h4 : Path nx' (some b) [b] r := ⟨rfl, _, hn, rfl⟩
  exact (h1'.append h3).append h4

/-! ## The records as a list -/

/-- The records from `p` on, at most `n`. -/
def walk (nx : P → Option (Option P)) : Nat → Option P → List P
  | 0, _ => []
  | _, none => []
  | n + 1, some p =>
    match nx p with
    | none => []
    | some q => p :: walk nx n q

/-- Of a chain that ends in NULL, all. -/
theorem walk_path {n : Nat} (h : Path nx p ps none) (hn : ps.length ≤ n) : walk nx n p = ps := by
  induction ps generalizing p n with
  | nil =>
    cases h
    cases n <;> rfl
  | cons a ps ih =>
    obtain ⟨rfl, q, hq, h⟩ := h
    cases n with
    | zero => cases hn
    | succ n =>
      simp only [walk, hq]
      exact congrArg _ (ih h (Nat.le_of_succ_le_succ hn))

/-! ## The search loop -/

/-- `for (n = p; n; n = n->next) if (test) return n;` with at most `fuel`
iterations; `load` reads the test's outcome and the next pointer. -/
def find (load : P → Except ε (Bool × Option P)) (hang : ε) : Nat → Option P → Except ε (Option P)
  | _, none => .ok none
  | 0, some _ => .error hang
  | n + 1, some p =>
    match load p with
    | .error e => .error e
    | .ok (true, _) => .ok (some p)
    | .ok (false, q) => find load hang n q

variable {load : P → Except ε (Bool × Option P)} {hang : ε} {n : Nat}

/-- `find` over a chain whose records all load: the first hit, else the end. -/
theorem find_path {hit : P → Bool} (hl : ∀ a ∈ ps, ∃ q, nx a = some q ∧ load a = .ok (hit a, q))
    (h : Path nx p ps none) (hn : ps.length ≤ n) : find load hang n p = .ok (ps.find? hit) := by
  induction ps generalizing p n with
  | nil => cases h; cases n <;> rfl
  | cons a ps ih =>
    obtain ⟨rfl, q, hq, h⟩ := h
    obtain ⟨q', hq', hld⟩ := hl a (by simp)
    rw [hq] at hq'; cases hq'
    obtain ⟨n, rfl⟩ : ∃ m, n = m + 1 := ⟨n - 1, by simp at hn; omega⟩
    simp only [find, hld]
    cases hh : hit a with
    | true => simp [hh]
    | false => simpa [hh] using ih (fun b hb => hl b (by simp [hb])) h (by simpa using hn)

/-- What a search that returns has seen: the records before the hit (all of
them when there is none), none of which passes the test. -/
theorem find_ok : ∀ {n : Nat} {p : Option P} {o : Option P}, find load hang n p = .ok o →
    ∃ ps, Path (fun a => (load a).toOption.map Prod.snd) p ps o ∧ ps.length ≤ n ∧
      (∀ a ∈ ps, ∃ q, load a = .ok (false, q)) ∧ ∀ a, o = some a → ∃ q, load a = .ok (true, q)
  | n, none, o, h => by
    have : o = none := by cases n <;> simpa [find, eq_comm] using h
    subst this
    exact ⟨[], rfl, Nat.zero_le _, by simp, by simp⟩
  | 0, some p, o, h => by simp [find] at h
  | n + 1, some p, o, h => by
    simp only [find] at h
    split at h
    · cases h
    · rename_i q hld
      simp only [Except.ok.injEq] at h; subst h
      exact ⟨[], rfl, Nat.zero_le _, by simp, fun a e => by cases e; exact ⟨q, hld⟩⟩
    · rename_i q hld
      obtain ⟨ps, h1, h2, h3, h4⟩ := find_ok h
      refine ⟨p :: ps, ⟨rfl, q, by simp [hld, Except.toOption], h1⟩, by simpa using h2, ?_, h4⟩
      intro a ha
      rcases List.mem_cons.mp ha with rfl | ha
      · exact ⟨q, hld⟩
      · exact h3 a ha

/-- A search that stays inside `ps` and finds nothing there never ends. -/
theorem find_loop (hc : ∀ a ∈ ps, ∃ b ∈ ps, load a = .ok (false, some b)) (ha : a ∈ ps) :
    find load hang n (some a) = .error hang := by
  induction n generalizing a with
  | zero => rfl
  | succ n ih =>
    obtain ⟨b, hb, hld⟩ := hc a ha
    simp only [find, hld]
    exact ih hb

/-- A search in a lasso only returns records of it. -/
theorem find_mem (hc : ∀ a ∈ ps, ∀ h q, load a = .ok (h, q) → ∀ b, q = some b → b ∈ ps)
    (hp : ∀ b, p = some b → b ∈ ps) (h : find load hang n p = .ok (some a)) : a ∈ ps := by
  induction n generalizing p with
  | zero => cases p <;> simp [find] at h
  | succ n ih =>
    cases p with
    | none => simp [find] at h
    | some c =>
      simp only [find] at h
      split at h
      · cases h
      · simp only [Except.ok.injEq, Option.some.injEq] at h; subst h; exact hp _ rfl
      · rename_i q hld
        exact ih (hc c (hp c rfl) _ q hld) h

/-- A hit is found again when records have only been hung behind the last one:
those before the hit still load, and point where they did. -/
theorem find_grown {load' : P → Except ε (Bool × Option P)} {m : Nat} (hnm : n ≤ m)
    (hpass : ∀ b c, load b = .ok (false, some c) → load' b = .ok (false, some c))
    (hhit : ∀ b q, load b = .ok (true, q) → ∃ q', load' b = .ok (true, q'))
    (h : find load hang n p = .ok (some a)) : find load' hang m p = .ok (some a) := by
  induction n generalizing p m with
  | zero => cases p <;> simp [find] at h
  | succ n ih =>
    obtain ⟨m, rfl⟩ : ∃ k, m = k + 1 := ⟨m - 1, by omega⟩
    cases p with
    | none => simp [find] at h
    | some c =>
      simp only [find] at h ⊢
      split at h
      · cases h
      · rename_i q hld
        obtain ⟨q', hld'⟩ := hhit c q hld
        rw [hld']; exact h
      · rename_i q hld
        cases q with
        | none => cases n <;> simp [find] at h
        | some d =>
          rw [hpass c d hld]
          exact ih (by omega) h

end Bootd.Core.Chain
