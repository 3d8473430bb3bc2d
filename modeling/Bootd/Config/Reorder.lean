import Bootd.Config.Refines
import Bootd.Core.Stops
import Mathlib.Data.List.Forall2

/-!
# The order of unrelated entries

`Reorder f g`: `g` has the entries of `f`, in an order in which those of the same
name follow each other as in `f`, and so in every block (`reorder_iff`). Addresses
are left out, as the entries of the two files are stored at different places.

Which of several unknown keywords a message shows is a matter of the order, nothing
else is (`Agree`).

`conf_reorder`: both forests mean the same, up to the message.
-/
namespace Bootd

open Bootd.Core

/-- The head is found behind entries with other names. -/
inductive Reorder : List ConfEntry → List ConfEntry → Prop
  | nil : Reorder [] []
  | cons {e e' : ConfEntry} {f g g' : List ConfEntry} : e'.name = e.name → e'.values = e.values →
      Reorder e.sub e'.sub → (∀ x ∈ g, x.name ≠ e.name) → Reorder f (g ++ g') → Reorder (e :: f) (g ++ e' :: g')

/-- The same entry, with its block in another order. -/
structure Alike (e e' : ConfEntry) : Prop where
  name : e'.name = e.name
  values : e'.values = e.values
  sub : Reorder e.sub e'.sub

/-- The entries of a name. -/
def ofName (n : CStr) (es : List ConfEntry) : List ConfEntry := es.filter (·.name = n)

section
variable {f g : List ConfEntry} {e e' : ConfEntry} {k : Keyword} {n : CStr}

theorem ofName_pos {es : List ConfEntry} (h : e.name = n) : ofName n (e :: es) = e :: ofName n es := by
  simp [ofName, h]

theorem ofName_neg {es : List ConfEntry} (h : e.name ≠ n) : ofName n (e :: es) = ofName n es := by
  simp [ofName, h]

theorem ofName_append (es es' : List ConfEntry) : ofName n (es ++ es') = ofName n es ++ ofName n es' :=
  List.filter_append ..

theorem ofName_other {es : List ConfEntry} (h : ∀ x ∈ es, x.name ≠ n) : ofName n es = [] := by
  simpa [ofName] using h

/-- The entries of each name are the same, in the same order. -/
theorem Reorder.ofName (h : Reorder f g) (n : CStr) : List.Forall₂ Alike (ofName n f) (ofName n g) := by
  induction h with
  | nil => exact .nil
  | @cons e e' f g g' hname hvalues hsub hother _ _ ih =>
    rw [ofName_append] at ih ⊢
    by_cases hn : e.name = n
    · have hg : Bootd.ofName n g = [] := ofName_other (hn ▸ hother)
      rw [hg] at ih ⊢
      rw [ofName_pos hn, ofName_pos (hname.trans hn)]
      exact .cons ⟨hname, hvalues, hsub⟩ ih
    · rwa [ofName_neg hn, ofName_neg (hname ▸ hn)]

/-- Any two lists with the same entries of each name, in the same order. -/
theorem reorder_iff : Reorder f g ↔ ∀ n, List.Forall₂ Alike (ofName n f) (ofName n g) := by
  refine ⟨Reorder.ofName, fun h => ?_⟩
  induction f generalizing g with
  | nil =>
    have hnil : g = [] := by
      refine List.eq_nil_iff_forall_not_mem.mpr fun x hx => ?_
      have hmem : x ∈ ofName x.name g := by simp [ofName, hx]
      rw [List.forall₂_nil_left_iff.mp (h x.name)] at hmem
      cases hmem
    rw [hnil]
    exact .nil
  | cons e f ih =>
    have he := h e.name
    rw [ofName_pos rfl] at he
    obtain ⟨e', rest, halike, -, hg⟩ := List.forall₂_cons_left_iff.mp he
    obtain ⟨g₁, g₂, rfl, hother, -, -⟩ := List.filter_eq_cons_iff.mp hg
    have hother : ∀ x ∈ g₁, x.name ≠ e.name := fun x hx => by simpa using hother x hx
    refine .cons halike.name halike.values halike.sub hother (ih fun n => ?_)
    have hn := h n
    rw [ofName_append] at hn ⊢
    by_cases heq : e.name = n
    · have hg₁ : ofName n g₁ = [] := ofName_other (heq ▸ hother)
      rw [hg₁] at hn ⊢
      rw [ofName_pos heq, ofName_pos (halike.name.trans heq)] at hn
      exact (List.forall₂_cons.mp hn).2
    · rwa [ofName_neg heq, ofName_neg (halike.name ▸ heq)] at hn

theorem Reorder.named (h : Reorder f g) (k : Keyword) : List.Forall₂ Alike (named k f) (named k g) := h.ofName k.1

theorem Reorder.names (h : Reorder f g) (L : List CStr) : (∀ e ∈ f, e.name ∈ L) ↔ ∀ e ∈ g, e.name ∈ L := by
  induction h with
  | nil => rfl
  | @cons e e' f g g' hname _ _ _ _ _ ih =>
    simp only [List.forall_mem_append, List.forall_mem_cons] at ih ⊢
    rw [ih, hname]
    tauto

theorem Alike.value (h : Alike e e') : e'.value = e.value := by
  unfold ConfEntry.value
  rw [h.values]

/-! ## Evaluations that agree -/

/-- Without the message. -/
def Refusal.blur : Refusal → Option Fault
  | .reported _ => none
  | .fault f => some f

/-- `ν` ends like `μ`, but perhaps with another message. -/
def Agree {α : Type} (μ ν : MeaningM α) : Prop :=
  ∀ st, (ν st).mapError Refusal.blur = (μ st).mapError Refusal.blur

section
variable {α β : Type} {μ ν : MeaningM α} {φ ψ : α → MeaningM β} {a : α} {st st' : Setup}
  {m : Message} {x : Fault}

theorem Agree.refl (μ : MeaningM α) : Agree μ μ := fun _ => rfl

theorem Agree.of_eq (h : ν = μ) : Agree μ ν := h ▸ .refl μ

theorem Agree.symm (h : Agree μ ν) : Agree ν μ := fun st => (h st).symm

theorem Agree.ok (h : Agree μ ν) (hr : μ st = .ok (a, st')) : ν st = .ok (a, st') := by
  have hst := h st
  rw [hr] at hst
  cases hν : ν st with
  | ok r => rw [hν] at hst; exact congrArg _ (Except.ok.inj hst)
  | error r => rw [hν] at hst; cases hst

theorem Agree.reported (h : Agree μ ν) (hr : μ st = .error (.reported m)) :
    ∃ m', ν st = .error (.reported m') := by
  have hst := h st
  rw [hr] at hst
  cases hν : ν st with
  | ok r => rw [hν] at hst; cases hst
  | error r =>
    rw [hν] at hst
    cases r with
    | reported m' => exact ⟨m', rfl⟩
    | fault f => cases hst

theorem Agree.fault (h : Agree μ ν) (hr : μ st = .error (.fault x)) : ν st = .error (.fault x) := by
  have hst := h st
  rw [hr] at hst
  cases hν : ν st with
  | ok r => rw [hν] at hst; cases hst
  | error r =>
    rw [hν] at hst
    cases r with
    | reported m' => cases hst
    | fault f => rw [Option.some.inj (Except.error.inj hst)]

theorem Agree.bind (h : Agree μ ν) (hφ : ∀ a, Agree (φ a) (ψ a)) : Agree (μ >>= φ) (ν >>= ψ) := by
  intro st
  rw [Core.Stops.bind_run, Core.Stops.bind_run]
  cases hμ : μ st with
  | ok r =>
    rw [h.ok hμ]
    exact hφ r.1 r.2
  | error r =>
    cases r with
    | reported m =>
      obtain ⟨m', hν⟩ := h.reported hμ
      rw [hν]
      rfl
    | fault f =>
      rw [h.fault hμ]
      rfl

theorem Agree.ite {c : Prop} [Decidable c] {μ' ν' : MeaningM α} (h : Agree μ ν) (h' : Agree μ' ν') :
    Agree (if c then μ else μ') (if c then ν else ν') := by
  split
  · exact h
  · exact h'

end

/-! ## The kinds of lookup -/

section
variable {α β : Type} {conv conv' : ConfEntry → MeaningM α} {body body' : ConfEntry → β → MeaningM β} {b : β}

theorem self_reorder (h : Alike e e') (hconv : conv' e' = conv e) : Meaning.self e' conv' = Meaning.self e conv := by
  funext dst
  unfold Meaning.self
  rw [h.values, hconv]

theorem single_reorder (h : Reorder f g) (hconv : ∀ e e', Alike e e' → conv' e' = conv e) :
    Meaning.single g k conv' = Meaning.single f k conv := by
  funext dst
  unfold Meaning.single
  have hn := h.named k
  generalize named k f = fs at hn
  generalize named k g = gs at hn
  cases hn with
  | nil => rfl
  | @cons e e' _ _ he hes =>
    cases hes with
    | nil => simp only [he.values, hconv e e' he]
    | cons => rfl

theorem each_reorder (h : Reorder f g) (hbody : ∀ e e', Alike e e' → body' e' = body e) :
    Meaning.each g k body' b = Meaning.each f k body b := by
  unfold Meaning.each
  have hn := h.named k
  generalize named k f = fs at hn
  generalize named k g = gs at hn
  induction hn generalizing b with
  | nil => rfl
  | cons he _ ih =>
    rw [List.foldlM_cons, List.foldlM_cons, hbody _ _ he]
    exact bind_congr fun b => ih

/-- The rounds agree one by one. -/
theorem each_agree (h : Reorder f g) (hbody : ∀ e e', Alike e e' → ∀ b, Agree (body e b) (body' e' b)) :
    Agree (Meaning.each f k body b) (Meaning.each g k body' b) := by
  unfold Meaning.each
  have hn := h.named k
  generalize named k f = fs at hn
  generalize named k g = gs at hn
  induction hn generalizing b with
  | nil => exact .refl _
  | cons he _ ih =>
    rw [List.foldlM_cons, List.foldlM_cons]
    exact (hbody _ _ he b).bind fun b => ih

/-- Another keyword may be the first one that is not known. -/
theorem known_agree (h : Reorder f g) (L : List CStr) : Agree (Meaning.known f L) (Meaning.known g L) := by
  intro st
  have hnames := h.names L
  rw [← Meaning.unknown_none, ← Meaning.unknown_none] at hnames
  unfold Meaning.known
  cases hf : f.find? (·.name ∉ L) with
  | none => rw [hnames.mp hf]
  | some e =>
    cases hg : g.find? (·.name ∉ L) with
    | none =>
      rw [hnames.mpr hg] at hf
      cases hf
    | some e' => rfl

end

/-! ## Values and settings -/

section
variable {env : SetupEnv} {root root' : List ConfEntry}

theorem string_alike (dst : Option CStr) (e e' : ConfEntry) (h : Alike e e') :
    Meaning.string dst e' = Meaning.string dst e := by
  unfold Meaning.string
  rw [h.value]

theorem bool_alike (e e' : ConfEntry) (h : Alike e e') : Meaning.bool e' = Meaning.bool e := by
  unfold Meaning.bool
  rw [h.value]

theorem int_alike (e e' : ConfEntry) (h : Alike e e') : Meaning.int e' = Meaning.int e := by
  unfold Meaning.int
  rw [h.value]

theorem loglevel_alike (e e' : ConfEntry) (h : Alike e e') : Meaning.loglevel e' = Meaning.loglevel e := by
  unfold Meaning.loglevel
  rw [h.value]

theorem ether_alike (env : SetupEnv) (e e' : ConfEntry) (h : Alike e e') :
    Meaning.ether env e' = Meaning.ether env e := by
  unfold Meaning.ether
  rw [h.value]

theorem ip_alike (env : SetupEnv) (e e' : ConfEntry) (h : Alike e e') : Meaning.ip env e' = Meaning.ip env e := by
  unfold Meaning.ip
  rw [h.value]

/-- The words of the entries of a name. -/
theorem words_reorder (h : Reorder f g) (k : Keyword) :
    (named k g).flatMap (·.values) = (named k f).flatMap (·.values) := by
  have hn := h.named k
  generalize named k f = fs at hn
  generalize named k g = gs at hn
  induction hn with
  | nil => rfl
  | cons he _ ih => rw [List.flatMap_cons, List.flatMap_cons, he.values, ih]

theorem services_reorder (h : Reorder f g) (dst : Nat) : Meaning.services g dst = Meaning.services f dst := by
  unfold Meaning.services readServices
  rw [words_reorder h]

theorem basic_reorder (h : Reorder root root') : Meaning.basic root' = Meaning.basic root := by
  unfold Meaning.basic
  simp only [single_reorder h (string_alike _), single_reorder h bool_alike, single_reorder h int_alike]

theorem logBlock_agree (e e' : ConfEntry) (h : Alike e e') :
    Agree (Meaning.logBlock e) (Meaning.logBlock e') := by
  have hfile : ∀ x x' : ConfEntry, Alike x x' →
      (pure (some x'.value) : MeaningM (Option CStr)) = pure (some x.value) := fun x x' hx => by rw [hx.value]
  unfold Meaning.logBlock
  rw [single_reorder h.sub hfile, single_reorder h.sub loglevel_alike]
  exact (Agree.refl _).bind fun _ => (Agree.refl _).bind fun _ => (known_agree h.sub _).bind fun _ => .refl _

theorem log_agree (h : Reorder root root') : Agree (Meaning.log env root) (Meaning.log env root') := by
  unfold Meaning.log
  have hn := h.named kwLog
  generalize named kwLog root = fs at hn
  generalize named kwLog root' = gs at hn
  cases hn with
  | nil => exact .refl _
  | @cons e e' _ _ he hes =>
    cases hes with
    | nil => exact (logBlock_agree e e' he).bind fun _ => .refl _
    | cons => exact .refl _

/-! ## Blocks -/

theorem addBindings_alike (add : CStr → SetupM Bool) (e e' : ConfEntry) (h : Alike e e') :
    Meaning.addBindings add e' = Meaning.addBindings add e := by
  unfold Meaning.addBindings
  rw [h.values]

theorem bindings_reorder (id s : Nat) (h : Reorder f g) :
    Meaning.bindings env id s g = Meaning.bindings env id s f := by
  unfold Meaning.bindings
  rw [each_reorder h (addBindings_alike _), each_reorder h (addBindings_alike _)]

theorem service_alike (env : SetupEnv) (e e' : ConfEntry) (h : Alike e e') :
    Meaning.service env e' = Meaning.service env e := by
  unfold Meaning.service
  simp only [h.values, h.value, bindings_reorder _ _ h.sub]

theorem aliasOf_alike {fs gs : List ConfEntry} (h : List.Forall₂ Alike fs gs) (n : Nat) :
    Meaning.aliasOf gs[n]? = Meaning.aliasOf fs[n]? := by
  induction h generalizing n with
  | nil => rfl
  | @cons e e' fs gs he _ ih =>
    cases n with
    | zero =>
      rw [List.getElem?_cons_zero, List.getElem?_cons_zero, Meaning.aliasOf, Meaning.aliasOf, he.values, he.value]
    | succ n => exact ih n

theorem aliases_reorder (h : Reorder f g) (n : Nat) : Meaning.aliases g n = Meaning.aliases f n := by
  induction n with
  | zero => rfl
  | succ n ih =>
    have hsucc : ∀ sub, Meaning.aliases sub (n + 1) = Meaning.aliases sub n >>= fun v =>
        Meaning.aliasOf (named kwAlias sub)[n]? >>= fun a => pure (v.push a) := fun _ => rfl
    rw [hsucc, hsucc, ih, aliasOf_alike (h.named kwAlias)]

theorem fileRecord_agree (e e' : ConfEntry) (h : Alike e e') :
    Agree (Meaning.fileRecord e) (Meaning.fileRecord e') := by
  unfold Meaning.fileRecord
  simp only [self_reorder h (string_alike _ e e' h), single_reorder h.sub (string_alike _), services_reorder h.sub,
    aliases_reorder h.sub, (h.sub.named kwAlias).length_eq]
  refine (Agree.refl _).bind fun _ => (Agree.refl _).bind fun _ => (Agree.refl _).bind fun _ =>
    (Agree.refl _).bind fun _ => (Agree.refl _).bind fun _ => .ite (.refl _) ?_
  exact (Agree.refl _).bind fun _ => (known_agree h.sub _).bind fun _ => .refl _

theorem file_agree (e e' : ConfEntry) (h : Alike e e') (files : List File) :
    Agree (Meaning.file e files) (Meaning.file e' files) :=
  (fileRecord_agree e e' h).bind fun _ => .refl _

theorem hostRecord_agree (env : SetupEnv) (e e' : ConfEntry) (h : Alike e e') :
    Agree (Meaning.hostRecord env e) (Meaning.hostRecord env e') := by
  unfold Meaning.hostRecord
  simp only [self_reorder h (string_alike _ e e' h), single_reorder h.sub (string_alike _),
    single_reorder h.sub (ether_alike env), single_reorder h.sub (ip_alike env), services_reorder h.sub]
  refine (Agree.refl _).bind fun _ => (Agree.refl _).bind fun _ => (Agree.refl _).bind fun _ =>
    (Agree.refl _).bind fun _ => (Agree.refl _).bind fun _ => (each_agree h.sub file_agree).bind fun _ => ?_
  exact (known_agree h.sub _).bind fun _ => .refl _

theorem host_agree (env : SetupEnv) (e e' : ConfEntry) (h : Alike e e') (u : Unit) :
    Agree (Meaning.host env e u) (Meaning.host env e' u) :=
  (hostRecord_agree env e e' h).bind fun _ => .refl _

/-- Both configurations mean the same. -/
theorem conf_reorder (env : SetupEnv) (h : Reorder root root') :
    Agree (Meaning.conf env root) (Meaning.conf env root') := by
  unfold Meaning.conf Meaning.head
  rw [basic_reorder h, each_reorder h (service_alike env)]
  refine ((log_agree h).bind fun _ => .refl _).bind fun _ => ?_
  exact (each_agree h (host_agree env)).bind fun _ => known_agree h _

end

end

end Bootd
