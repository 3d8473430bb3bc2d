import Bootd.Config.Services
import Bootd.Config.Table

/-!
# Taking entries (`parse.c:136-161`, `conf.c:100-275`)

`conf.c` walks over the entries that the parser has linked together. A
`ConfEntry` is an entry with its block, a pointer to an entry is the list that
starts with it, and `id` is the record's address. The only field that changes is
`processed`: `used` counts how often it was set.

* `parseEntryGet`, `iGetEntrySingleValue`: one entry.
* `parseError`, `parseWarn`: messages, which are used as formats.
* `iGet`: the pattern of the `i_get_*` functions.
* `whileEntry`: the pattern of the loops, which take an entry in every round.
* `single_ok`, `iGet_ok`, `assure_none`: what is taken when they return.
-/
namespace Bootd

open Bootd.Core

/-- mirrors src/genutil.h:234-243 -/
structure ConfEntry where
  id : EntId
  name : CStr
  values : List CStr
  sub : List ConfEntry

/-- `values[0]`. -/
def ConfEntry.value (e : ConfEntry) : CStr := e.values.headD []

/-- A name to look for. Those in conf.c are constants, without a percent sign. -/
abbrev Keyword := { k : CStr // k.length < parseStringMax ∧ Log.formatSafe k = true }

/-- How an evaluation stops without returning. -/
inductive EvalStop
  /-- `parse_error` at an entry -/
  | report (e : EntId) (msg : CStr)
  /-- a message that is no format without arguments -/
  | format
  | fault (f : Fault)
  deriving DecidableEq

structure EvalState where
  /-- how often an entry was marked as processed -/
  used : EntId → Nat
  setup : Setup

/-- Nothing is processed yet. -/
def EvalState.start (st : Setup) : EvalState := ⟨fun _ => 0, st⟩

abbrev EvalM := EStateM EvalStop EvalState

/-- `log_msg` gets the finished text of `parse_error` and `parse_warn` for a format. Between
the name of the file and the message there are a colon and a number. -/
def Setup.Printable (st : Setup) (msg : CStr) : Prop :=
  Log.formatSafe st.filename = true ∧ Log.formatSafe msg = true

instance (st : Setup) (msg : CStr) : Decidable (st.Printable msg) := inferInstanceAs (Decidable (_ ∧ _))

/-- A message of level `LOG_ERR` at the entry `e`. -/
def Setup.stop (st : Setup) (e : ConfEntry) (msg : CStr) : EvalStop :=
  if st.Printable msg then .report e.id msg else .format

/-- mirrors src/parse.c:211-221 -/
def parseError {α : Type} (e : List ConfEntry) (msg : CStr) : EvalM α :=
  match e with
  | [] => throw (.fault .segv)
  | e :: _ => do throw ((← get).setup.stop e msg)

/-- mirrors src/parse.c:223-233 -/
def parseWarn (msg : CStr) : EvalM Unit := do
  if (← get).setup.Printable msg then pure () else throw .format

/-- `e->processed = 1`. -/
def EvalState.take (st : EvalState) (e : ConfEntry) : EvalState :=
  { st with used := Function.update st.used e.id (st.used e.id + 1) }

def takeEntry (e : ConfEntry) : EvalM Unit := modify (·.take e)

def modifySetup (f : Setup → Setup) : EvalM Unit := modify fun st => { st with setup := f st.setup }

/-- A call that has nothing to do with entries. -/
def liftSetup {α : Type} (m : SetupM α) : EvalM α := do
  let st ← get
  match m st.setup with
  | .ok (a, s) => set { st with setup := s }; pure a
  | .error f => throw (.fault f)

/-- What `parse_entry_get` stops at. -/
def EvalState.Finds (st : EvalState) (name : Option Keyword) (e : ConfEntry) : Prop :=
  st.used e.id = 0 ∧ ∀ k ∈ name, e.name = k.1

instance (st : EvalState) (name : Option Keyword) (e : ConfEntry) : Decidable (st.Finds name e) :=
  inferInstanceAs (Decidable (_ ∧ _))

/-- mirrors src/parse.c:136-161 -/
def parseEntryGet (root : List ConfEntry) (name : Option Keyword) : EvalM (Option ConfEntry) := do
  let st ← get
  return root.find? fun e => st.Finds name e

/-- mirrors src/conf.c:128-141 -/
def iAssureNoEntry (root : List ConfEntry) (name : Option Keyword) : EvalM Unit := do
  match ← parseEntryGet root name with
  | none => pure ()
  | some e =>
    match name with
    | none => parseError [e] (cstr "unknown keyword: " ++ e.name)
    | some k => parseError [e] (k.1 ++ cstr " already set")

/-- mirrors src/conf.c:102-126 -/
def iGetEntrySingleValue (root : List ConfEntry) (name : Option Keyword) (single : Bool) :
    EvalM (Option ConfEntry) := do
  match name with
  | some k =>
    match ← parseEntryGet root (some k) with
    | none => pure none
    | some e =>
      takeEntry e
      if single then iAssureNoEntry root (some k)
      if e.values.length ≠ 1 then parseError [e] (cstr "expecting single value")
      else pure (some e)
  | none =>
    match root with
    | [] => throw (.fault .segv)
    | e :: _ => if e.values.length ≠ 1 then pure none else pure (some e)

/-- `*dst` afterwards: what the entry's value stands for, or as it was. -/
def iGet {α : Type} (conv : ConfEntry → EvalM α) (root : List ConfEntry) (name : Option Keyword)
    (single : Bool) (dst : α) : EvalM α := do
  match ← iGetEntrySingleValue root name single with
  | none => pure dst
  | some e => conv e

/-- One round for every entry `k`, with what the rounds before left in `b`. -/
def forEntry {β : Type} (root : List ConfEntry) (k : Keyword) (body : ConfEntry → β → EvalM β) :
    Nat → β → EvalM β
  | 0, _ => throw (.fault .hang)
  | n + 1, b => do
    match ← parseEntryGet root (some k) with
    | none => pure b
    | some e =>
      takeEntry e
      let b ← body e b
      forEntry root k body n b

/-- `while ((e = parse_entry_get(root, k)) != NULL) { e->processed = 1; … }` -/
def whileEntry {β : Type} (root : List ConfEntry) (k : Keyword) (body : ConfEntry → β → EvalM β)
    (b : β) : EvalM β :=
  forEntry root k body (root.length + 1) b

/-! ## What they return -/

section
variable {α β : Type} {root : List ConfEntry} {name : Option Keyword} {k : Keyword} {single : Bool}
  {s s' : EvalState} {r : Option ConfEntry} {a dst : α} {u : Unit} {conv : ConfEntry → EvalM α}

theorem parseEntryGet_run (root : List ConfEntry) (name : Option Keyword) (s : EvalState) :
    parseEntryGet root name s = .ok (root.find? fun e => s.Finds name e) s := rfl

/-- What is found is in the list and was not taken yet. -/
theorem find_some {e : ConfEntry} (h : (root.find? fun e => s.Finds (some k) e) = some e) :
    e ∈ root ∧ s.used e.id = 0 ∧ e.name = k.1 := by
  have hf : s.Finds (some k) e := by simpa using List.find?_some h
  exact ⟨List.mem_of_find?_eq_some h, hf.1, hf.2 k rfl⟩

theorem find_none (h : (root.find? fun e => s.Finds (some k) e) = none) :
    ∀ e ∈ root, e.name = k.1 → s.used e.id ≠ 0 := by
  intro e he hn h0
  have hf := List.find?_eq_none.mp h e he
  refine hf (decide_eq_true ⟨h0, fun k' hk' => ?_⟩)
  cases hk'
  exact hn

theorem parseError_run (e : ConfEntry) (es : List ConfEntry) (msg : CStr) (s : EvalState) :
    (parseError (e :: es) msg : EvalM α) s = .error (s.setup.stop e msg) s := rfl

@[simp] theorem parseError_ok {e : List ConfEntry} {msg : CStr} :
    (parseError e msg : EvalM α) s = .ok a s' ↔ False := by
  cases e with
  | nil => simp [parseError]
  | cons x e => simp [parseError_run]

theorem parseWarn_ok {msg : CStr} : parseWarn msg s = .ok u s' ↔ s.setup.Printable msg ∧ s' = s := by
  unfold parseWarn
  rw [Exec.get_run]
  split
  · rename_i h
    rw [Exec.pure_ok]
    exact ⟨fun hs => ⟨h, hs.2.symm⟩, fun hs => ⟨rfl, hs.2.symm⟩⟩
  · rename_i h
    simp [h]

/-- All entries of a block are taken, or an error is reported. -/
theorem assure_ok (h : iAssureNoEntry root name s = .ok u s') :
    s' = s ∧ (root.find? fun e => s.Finds name e) = none := by
  unfold iAssureNoEntry at h
  rw [Exec.bind_run (parseEntryGet_run root name s)] at h
  cases hfind : root.find? fun e => s.Finds name e with
  | none =>
    rw [hfind] at h
    exact ⟨(Exec.pure_ok.mp h).2.symm, rfl⟩
  | some e =>
    rw [hfind] at h
    cases name <;> exact absurd h (by simp)

theorem assure_none (h : iAssureNoEntry root none s = .ok u s') : s' = s ∧ ∀ e ∈ root, s.used e.id ≠ 0 := by
  obtain ⟨rfl, hnone⟩ := assure_ok h
  refine ⟨rfl, fun e he h0 => ?_⟩
  exact List.find?_eq_none.mp hnone e he (decide_eq_true ⟨h0, fun k hk => nomatch hk⟩)

/-- An entry is taken, and it has one value; or none is left. -/
theorem single_ok (h : iGetEntrySingleValue root (some k) single s = .ok r s') :
    (r = none ∧ s' = s ∧ ∀ e ∈ root, e.name = k.1 → s.used e.id ≠ 0) ∨
    ∃ e ∈ root, r = some e ∧ e.name = k.1 ∧ s.used e.id = 0 ∧ s' = s.take e ∧ e.values.length = 1 ∧
      (single = true → ∀ x ∈ root, x.name = k.1 → s'.used x.id ≠ 0) := by
  unfold iGetEntrySingleValue at h
  simp only at h
  rw [Exec.bind_run (parseEntryGet_run root (some k) s)] at h
  cases hfind : root.find? fun e => s.Finds (some k) e with
  | none =>
    rw [hfind] at h
    obtain ⟨rfl, rfl⟩ := Exec.pure_ok.mp h
    exact .inl ⟨rfl, rfl, find_none hfind⟩
  | some e =>
    rw [hfind] at h
    obtain ⟨he, h0, hn⟩ := find_some hfind
    obtain ⟨_, s₁, htake, h⟩ := Exec.bind_ok.mp h
    obtain rfl := Exec.modify_ok.mp htake
    have hend : ∀ {s₁}, (if e.values.length ≠ 1 then parseError [e] (cstr "expecting single value")
        else pure (some e) : EvalM (Option ConfEntry)) s₁ = .ok r s' →
        r = some e ∧ s₁ = s' ∧ e.values.length = 1 := by
      intro s₁ h
      split at h
      · exact absurd h (by simp)
      · rename_i hlen
        obtain ⟨rfl, rfl⟩ := Exec.pure_ok.mp h
        exact ⟨rfl, rfl, not_not.mp hlen⟩
    right
    split at h
    · obtain ⟨_, s₂, hassure, hlast⟩ := Exec.bind_ok.mp h
      obtain ⟨rfl, hnone⟩ := assure_ok hassure
      obtain ⟨rfl, rfl, hlen⟩ := hend hlast
      exact ⟨e, he, rfl, hn, h0, rfl, hlen, fun _ => find_none hnone⟩
    · rename_i hsingle
      obtain ⟨rfl, rfl, hlen⟩ := hend h
      exact ⟨e, he, rfl, hn, h0, rfl, hlen, fun h => absurd h hsingle⟩

/-- As for `iGetEntrySingleValue`; the value is read in the state behind it. -/
theorem iGet_ok (h : iGet conv root (some k) single dst s = .ok a s') :
    (a = dst ∧ s' = s ∧ ∀ e ∈ root, e.name = k.1 → s.used e.id ≠ 0) ∨
    ∃ e ∈ root, e.name = k.1 ∧ s.used e.id = 0 ∧ conv e (s.take e) = .ok a s' ∧
      (single = true → ∀ x ∈ root, x.name = k.1 → (s.take e).used x.id ≠ 0) := by
  obtain ⟨r, s₁, hr, hval⟩ := Exec.bind_ok.mp h
  rcases single_ok hr with ⟨rfl, rfl, hnone⟩ | ⟨e, he, rfl, hn, h0, rfl, -, hrest⟩
  · obtain ⟨rfl, rfl⟩ := Exec.pure_ok.mp hval
    exact .inl ⟨rfl, rfl, hnone⟩
  · exact .inr ⟨e, he, hn, h0, hval, hrest⟩

/-- The value of an entry itself: nothing is taken. -/
theorem iGet_self {e : ConfEntry} (h : iGet conv [e] none single dst s = .ok a s') :
    a = dst ∧ s' = s ∨ conv e s = .ok a s' := by
  obtain ⟨r, s₁, hr, hval⟩ := Exec.bind_ok.mp h
  unfold iGetEntrySingleValue at hr
  simp only at hr
  split at hr
  · obtain ⟨rfl, rfl⟩ := Exec.pure_ok.mp hr
    obtain ⟨rfl, rfl⟩ := Exec.pure_ok.mp hval
    exact .inl ⟨rfl, rfl⟩
  · obtain ⟨rfl, rfl⟩ := Exec.pure_ok.mp hr
    exact .inr hval

theorem liftSetup_ok {m : SetupM α} (h : liftSetup m s = .ok a s') :
    ∃ st, m s.setup = .ok (a, st) ∧ s' = { s with setup := st } := by
  unfold liftSetup at h
  rw [Exec.get_run] at h
  cases hm : m s.setup with
  | error f =>
    rw [hm] at h
    exact absurd h (by simp)
  | ok r =>
    rw [hm] at h
    obtain ⟨_, s₁, hset, hret⟩ := Exec.bind_ok.mp h
    obtain ⟨rfl, rfl⟩ := Exec.pure_ok.mp hret
    cases hset
    exact ⟨r.2, rfl, rfl⟩

end

end Bootd
