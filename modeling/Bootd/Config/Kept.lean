import Bootd.Config.Runs

/-!
# What the parser does not touch again

Once the parser is past a statement, it only ever writes to the links of its
entry. `Has π i a` says that there is an entry `i` and that `a` is what `π` reads
off it; for a `π` that does not see the links, reading on keeps this, whether it
returns or stops. The strings that were stored are kept as well.

* `loop_keeps`, `loop_strings`: an entry and the strings survive the loop.
* `loop_line`: the line of a statement's entry is that of the scanner, when it
  has handed out the name.
-/
namespace Bootd

open Bootd.Core
open Bootd.Core.Exec
open Bootd.Core.Fuel

/-- Entry `i` exists, and `π` reads `a` off it. -/
def Has {τ α : Type} (π : Entry → α) (i : EntId) (a : α) (s : ParseState τ) : Prop :=
  i < s.tbl.entries ∧ π (s.mem i) = a

/-- Nothing that concerns the links. -/
structure Linkless {α : Type} (π : Entry → α) : Prop where
  next : ∀ x p, π { x with next := p } = π x
  sub : ∀ x p, π { x with sub := p } = π x

theorem line_linkless : Linkless Entry.line := ⟨fun _ _ => rfl, fun _ _ => rfl⟩

/-- The strings `strs` are stored. -/
def Strings {τ : Type} (strs : List CStr) (s : ParseState τ) : Prop := strs <+: s.tbl.strings

section
variable {τ α : Type} {S : Source τ} {stack : Nat → Locals} {π : Entry → α} {i e : EntId} {a : α}
  {I : ParseState τ → Prop} {s s' st st' : ParseState τ} {T : Tables} {strs : List CStr} {w w' : Buf}

theorem error_keeps {β : Type} (msg : CStr) : Keeps I (genTokenizeError S msg : ParseM τ β) :=
  Keeps.get.bind fun _ => .throw _

theorem next_keeps (hI : ∀ s t, I s → I { s with tok := t }) (w : Buf) : Keeps I (genTokenizeNext S w) := by
  refine fun s hs => ?_
  unfold genTokenizeNext
  rw [wp_bind, wp_get, wp_bind]
  show wp _ _ _ { s with tok := (S.next s.tok).2 }
  split <;> exact hI s _ hs

theorem stringAdd_keeps (hI : ∀ s v p T, I s → s.tbl.stringAdd v = .ok (p, T) → I { s with tbl := T }) (v : CStr) :
    Keeps I (parseStringAdd S v) := by
  refine fun s hs => ?_
  unfold parseStringAdd
  rw [wp_bind, wp_get]
  cases hadd : s.tbl.stringAdd v with
  | error msg => exact error_keeps msg s hs
  | ok r => exact hI s v r.1 r.2 hs hadd

theorem wp_setEntry {f : Entry → Entry} {Q : Unit → ParseState τ → Prop} {E : ParseStop → ParseState τ → Prop} :
    wp (setEntry e f) Q E s ↔ Q () (s.setEntry e f) := Iff.rfl

theorem setEntry_keeps {f : Entry → Entry} (hI : ∀ s, I s → I (s.setEntry e f)) :
    Keeps I (setEntry e f : ParseM τ Unit) :=
  .modify hI

/-! ## An entry -/

theorem Has.setEntry {f : Entry → Entry} (h : Has π i a s) (hf : e ≠ i ∨ ∀ x, π (f x) = π x) :
    Has π i a (s.setEntry e f) := by
  obtain ⟨hi, hx⟩ := h
  refine ⟨hi, ?_⟩
  by_cases he : e = i
  · subst he
    simp only [ParseState.setEntry, Function.update_self]
    rw [hf.resolve_left (not_not.mpr rfl)]
    exact hx
  · simp only [ParseState.setEntry, Function.update_of_ne (Ne.symm he)]
    exact hx

theorem has_next (s : ParseState τ) (t : τ) (h : Has π i a s) : Has π i a { s with tok := t } := h

theorem has_stringAdd (s : ParseState τ) (v : CStr) (p : StrId) (T : Tables) (h : Has π i a s)
    (hadd : s.tbl.stringAdd v = .ok (p, T)) : Has π i a { s with tbl := T } := by
  obtain ⟨-, -, hent⟩ := stringAdd_ok hadd
  exact ⟨lt_of_lt_of_eq h.1 hent.symm, h.2⟩

/-- A new entry is another one. -/
theorem entryNew_has (h : Has π i a s) :
    wp (parseEntryNew S) (fun e s' => Has π i a s' ∧ e ≠ i) (fun _ => Has π i a) s := by
  unfold parseEntryNew
  rw [wp_bind, wp_get]
  cases hnew : s.tbl.entryNew with
  | error msg => exact h
  | ok r =>
    obtain ⟨e, T⟩ := r
    obtain ⟨rfl, hent, -⟩ := entryNew_ok hnew
    obtain ⟨hi, hx⟩ := h
    refine ⟨⟨?_, ?_⟩, hi.ne'⟩
    · exact lt_trans hi (by show s.tbl.entries < T.entries; omega)
    · show π (Function.update s.mem s.tbl.entries .zero i) = a
      rw [Function.update_of_ne hi.ne]
      exact hx

theorem link_keeps (hπ : Linkless π) (prev res : Option EntId) (e : EntId) :
    Keeps (Has π i a) (linkEntry prev res e : ParseM τ (Option EntId)) := by
  cases prev with
  | none => exact .pure _
  | some p => exact (setEntry_keeps fun s hs => hs.setEntry (.inr fun x => hπ.next x _)).bind fun _ => .pure _

/-- The values of another entry, or for a `π` that does not see them. -/
theorem values_keeps (he : e ≠ i ∨ ∀ x vs, π { x with values := vs } = π x) (k : Nat) (w : Buf) :
    Keeps (Has π i a) (parseValues S e k w) := by
  induction k generalizing w with
  | zero => exact .throw _
  | succ k ih =>
    unfold parseValues
    refine .ite (fun _ => .pure _) fun _ => .ite (fun _ => ih w) fun _ => Keeps.get.bind fun st =>
      .ite (fun _ => error_keeps _) fun _ => (stringAdd_keeps has_stringAdd _).bind fun p => ?_
    refine (setEntry_keeps fun s hs => hs.setEntry (he.imp id fun h x => h x _)).bind fun _ => ?_
    exact (next_keeps has_next w).bind fun r => ih r.2

/-- The head of another statement. -/
theorem head_has (hπ : Linkless π) (prev res : Option EntId) (w : Buf) (h : Has π i a s) :
    wp (parseHead S prev res w) (fun r s' => Has π i a s' ∧ r.1 ≠ i) (fun _ => Has π i a) s := by
  unfold parseHead
  rw [wp_bind]
  refine wp_mono (entryNew_has h) (fun e s₁ ⟨h₁, he⟩ => ?_) fun _ _ h => h
  have hset : ∀ f : Entry → Entry, Keeps (Has π i a) (setEntry e f : ParseM τ Unit) :=
    fun f => setEntry_keeps fun s hs => hs.setEntry (.inl he)
  rw [wp_bind]
  refine wp_mono (link_keeps hπ prev res e s₁ h₁) (fun res' s₂ h₂ => ?_) fun _ _ h => h
  rw [wp_bind]
  refine wp_mono (stringAdd_keeps has_stringAdd _ s₂ h₂) (fun p s₃ h₃ => ?_) fun _ _ h => h
  rw [wp_bind, wp_get, wp_bind]
  refine wp_mono (hset _ s₃ h₃) (fun _ s₄ h₄ => ?_) fun _ _ h => h
  rw [wp_bind]
  refine wp_mono (stringAdd_keeps has_stringAdd _ s₄ h₄) (fun q s₅ h₅ => ?_) fun _ _ h => h
  rw [wp_bind]
  refine wp_mono (hset _ s₅ h₅) (fun _ s₆ h₆ => ?_) fun _ _ h => h
  rw [wp_bind]
  exact wp_mono (next_keeps has_next w s₆ h₆) (fun r s₇ h₇ => ⟨h₇, he⟩) fun _ _ h => h

theorem tail_of {k : Nat} (hπ : Linkless π)
    (h : ∀ w prev res, Keeps (Has π i a) (parseLoop S stack k w prev res)) (e : EntId) (res : Option EntId)
    (w : Buf) : Keeps (Has π i a) (loopTail S stack e res k w) := by
  unfold loopTail
  have hsub : Keeps (Has π i a) (enterSub stack : ParseM τ Locals) := fun s hs => hs
  refine .ite (fun _ => hsub.bind fun l => (h _ _ _).bind fun p => ?_) fun _ => h _ _ _
  exact (setEntry_keeps fun s hs => hs.setEntry (.inr fun x => hπ.sub x _)).bind fun _ => h _ _ _

/-- Reading on. -/
theorem loop_keeps (hπ : Linkless π) (k : Nat) (w : Buf) (prev res : Option EntId) :
    Keeps (Has π i a) (parseLoop S stack k w prev res) := by
  induction k generalizing w prev res with
  | zero => exact .throw _
  | succ k ih =>
    unfold parseLoop
    refine (next_keeps has_next w).bind fun r => .ite (fun _ s hs => ?_) fun _ => .pure _
    rw [wp_bind]
    refine wp_mono (head_has hπ prev res r.2 hs) (fun r s₁ hr => ?_) fun _ _ h => h
    rw [wp_bind]
    refine wp_mono (values_keeps (.inl hr.2) k _ s₁ hr.1) (fun w s₂ h₂ => ?_) fun _ _ h => h
    exact tail_of hπ ih _ _ _ s₂ h₂

theorem tail_keeps (hπ : Linkless π) (e : EntId) (res : Option EntId) (k : Nat) (w : Buf) :
    Keeps (Has π i a) (loopTail S stack e res k w) := tail_of hπ (loop_keeps hπ k) e res w

theorem Has.settles (hπ : Linkless π) {prev res : Option EntId}
    {r : EStateM.Result ParseStop (ParseState τ) (Option EntId)} (h : Has π i a st)
    (hrun : Settles .fuel (fun k => parseLoop S stack k w prev res) st r) :
    match r with
    | .ok _ st' => Has π i a st'
    | .error _ st' => Has π i a st' := by
  obtain ⟨N, hN⟩ := hrun.enough
  have hk : wp (parseLoop S stack N w prev res) (fun _ => Has π i a) (fun _ => Has π i a) st :=
    loop_keeps hπ N w prev res st h
  rw [wp_iff] at hk
  cases r with
  | ok p st' => exact hk.1 p st' (hN N (Nat.le_refl N))
  | error e st' => exact hk.2 e st' (hN N (Nat.le_refl N))

/-! ## The strings -/

theorem strings_next (s : ParseState τ) (t : τ) (h : Strings strs s) : Strings strs { s with tok := t } := h

theorem strings_set (f : Entry → Entry) : Keeps (Strings strs) (setEntry e f : ParseM τ Unit) :=
  setEntry_keeps fun _ hs => hs

theorem strings_add (v : CStr) : Keeps (Strings strs) (parseStringAdd S v) :=
  stringAdd_keeps (fun _ _ _ _ hs hadd => List.IsPrefix.trans hs (stringAdd_ok hadd).2.1) v

theorem strings_head (prev res : Option EntId) (w : Buf) : Keeps (Strings strs) (parseHead S prev res w) := by
  have hnew : Keeps (Strings strs) (parseEntryNew S) := by
    refine fun s hs => ?_
    unfold parseEntryNew
    rw [wp_bind, wp_get]
    cases hnew : s.tbl.entryNew with
    | error msg => exact hs
    | ok r => exact List.IsPrefix.trans hs ((entryNew_ok hnew).2.2 ▸ List.prefix_refl _)
  have hlink : ∀ e, Keeps (Strings strs) (linkEntry prev res e : ParseM τ (Option EntId)) := by
    intro e
    cases prev with
    | none => exact .pure _
    | some p => exact (strings_set _).bind fun _ => .pure _
  unfold parseHead
  refine hnew.bind fun e => (hlink e).bind fun _ => (strings_add _).bind fun _ => Keeps.get.bind fun _ => ?_
  refine (strings_set _).bind fun _ => (strings_add _).bind fun _ => (strings_set _).bind fun _ => ?_
  exact (next_keeps strings_next w).bind fun _ => .pure _

theorem strings_values (k : Nat) (w : Buf) : Keeps (Strings strs) (parseValues S e k w) := by
  induction k generalizing w with
  | zero => exact .throw _
  | succ k ih =>
    unfold parseValues
    refine .ite (fun _ => .pure _) fun _ => .ite (fun _ => ih w) fun _ => Keeps.get.bind fun st =>
      .ite (fun _ => error_keeps _) fun _ => (strings_add _).bind fun p => (strings_set _).bind fun _ => ?_
    exact (next_keeps strings_next w).bind fun r => ih r.2

theorem loop_strings (k : Nat) (w : Buf) (prev res : Option EntId) :
    Keeps (Strings strs) (parseLoop S stack k w prev res) := by
  induction k generalizing w prev res with
  | zero => exact .throw _
  | succ k ih =>
    have hsub : Keeps (Strings strs) (enterSub stack : ParseM τ Locals) := fun s hs => hs
    unfold parseLoop
    refine (next_keeps strings_next w).bind fun r => .ite (fun _ => (strings_head prev res r.2).bind fun r => ?_)
      fun _ => .pure _
    refine (strings_values k _).bind fun w => .ite (fun _ => hsub.bind fun l => (ih _ _ _).bind fun p => ?_)
      fun _ => ih _ _ _
    exact (strings_set _).bind fun _ => ih _ _ _

theorem Strings.settles {prev res : Option EntId} {x : ParseStop} (h : Strings strs st)
    (hrun : Settles .fuel (fun k => parseLoop S stack k w prev res) st (.error x st')) : Strings strs st' := by
  obtain ⟨N, hN⟩ := hrun.enough
  have hk : wp (parseLoop S stack N w prev res) (fun _ => Strings strs) (fun _ => Strings strs) st :=
    loop_strings N w prev res st h
  exact (wp_iff.mp hk).2 x st' (hN N (Nat.le_refl N))

/-! ## The line of an entry -/

/-- The entry was made, and no token was read since. -/
def Allotted (st s : ParseState τ) : Prop := st.tbl.entries < s.tbl.entries ∧ s.tok = st.tok

theorem allotted_stringAdd (s : ParseState τ) (v : CStr) (p : StrId) (T : Tables) (h : Allotted st s)
    (hadd : s.tbl.stringAdd v = .ok (p, T)) : Allotted st { s with tbl := T } := by
  obtain ⟨-, -, hent⟩ := stringAdd_ok hadd
  exact ⟨lt_of_lt_of_eq h.1 hent.symm, h.2⟩

theorem entryNew_allotted (st : ParseState τ) :
    wp (parseEntryNew S) (fun e s => Allotted st s ∧ e = st.tbl.entries) (fun _ _ => True) st := by
  unfold parseEntryNew
  rw [wp_bind, wp_get]
  cases hnew : st.tbl.entryNew with
  | error msg => trivial
  | ok r =>
    obtain ⟨e, T⟩ := r
    obtain ⟨rfl, hent, -⟩ := entryNew_ok hnew
    exact ⟨⟨by show _ < T.entries; omega, rfl⟩, rfl⟩

theorem link_allotted (prev res : Option EntId) (e : EntId) :
    Keeps (Allotted st) (linkEntry prev res e : ParseM τ (Option EntId)) := by
  cases prev with
  | none => exact .pure _
  | some p => exact (setEntry_keeps fun s hs => hs).bind fun _ => .pure _

theorem head_line (prev res : Option EntId) (w : Buf) (st : ParseState τ) : wp (parseHead S prev res w)
    (fun r s => r.1 = st.tbl.entries ∧ Has Entry.line st.tbl.entries (S.y st.tok) s) (fun _ _ => True) st := by
  unfold parseHead
  rw [wp_bind]
  refine wp_mono (entryNew_allotted st) (fun e s₁ ⟨h₁, he⟩ => ?_) fun _ _ h => h
  subst he
  rw [wp_bind]
  refine wp_mono (link_allotted prev res _ s₁ h₁) (fun res' s₂ h₂ => ?_) fun _ _ _ => trivial
  rw [wp_bind]
  refine wp_mono (stringAdd_keeps allotted_stringAdd _ s₂ h₂) (fun p s₃ h₃ => ?_) fun _ _ _ => trivial
  rw [wp_bind, wp_get, wp_bind]
  -- the line is noted, and stays
  have hline : Has Entry.line st.tbl.entries (S.y st.tok) (s₃.setEntry st.tbl.entries fun x => { x with
      name := some p, values := [], next := none, sub := none, processed := false, line := S.y s₃.tok }) :=
    ⟨h₃.1, by simp only [ParseState.setEntry, Function.update_self, h₃.2]⟩
  rw [wp_setEntry, wp_bind]
  refine wp_mono (stringAdd_keeps has_stringAdd _ _ hline) (fun q s₅ h₅ => ?_) fun _ _ _ => trivial
  rw [wp_bind]
  refine wp_mono (setEntry_keeps (fun s hs => hs.setEntry (.inr fun _ => rfl)) s₅ h₅) (fun _ s₆ h₆ => ?_)
    fun _ _ _ => trivial
  rw [wp_bind]
  exact wp_mono (next_keeps has_next w s₆ h₆) (fun r s₇ h₇ => ⟨rfl, h₇⟩) fun _ _ _ => trivial

/-- The entry of the statement at which the loop starts. -/
theorem loop_line {n : CStr} {ts : List CStr} {prev res p : Option EntId} (hr : S.rest st.tok = n :: ts)
    (hn : n ≠ tokClose) (hrun : Settles .fuel (fun k => parseLoop S stack k w prev res) st (.ok p st')) :
    (st'.mem st.tbl.entries).line = S.y (S.next st.tok).2 := by
  obtain ⟨N, hN⟩ := hrun.enough
  have hk := hN (N + 1) (Nat.le_succ N)
  obtain ⟨w₁, -, hloop⟩ := loop_stmt stack w prev res hr hn
  rw [hloop] at hk
  simp only [bind_ok] at hk
  obtain ⟨⟨e, res', w₂⟩, s₁, hhead, w₃, s₂, hvals, htail⟩ := hk
  obtain ⟨rfl, h₁⟩ := wp_ok (head_line prev res w₁ (st.next S)) hhead
  have h₂ := wp_ok (values_keeps (.inr fun _ _ => rfl) N w₂ s₁ h₁) hvals
  have h₃ : wp (loopTail S stack st.tbl.entries res' N w₃)
    (fun _ => Has Entry.line st.tbl.entries (S.y (st.next S).tok))
    (fun _ => Has Entry.line st.tbl.entries (S.y (st.next S).tok)) s₂ := tail_keeps line_linkless _ res' N w₃ s₂ h₂
  exact (wp_ok h₃ htail).2

end
end Bootd
