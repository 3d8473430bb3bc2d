import Bootd.Config.Meaning
import Mathlib.Data.List.Find

/-!
# The code evaluates a configuration to its meaning

`Means m μ s`: run from `s`, the code `m` ends as `μ` says, up to the text and the
place of a report. Marks stand for what is left of the lists: an entry that is not
taken yet is found by its keyword alone (`find_named`), so that a lookup gets the
first one of its list, and at the end of a block those are left whose keyword it
does not know (`known_means`).

* `single_means`, `aliases_means`, `whileEntry_means`: the three kinds of lookup.
* `Part.step`: a statement of a block, and the statements behind it.
* `confFile_means`: a whole configuration.
-/
namespace Bootd

open Bootd.Core
open Bootd.Meaning

/-- How the program ends without a setup. -/
inductive Verdict
  | reported
  | format
  | fault (f : Fault)
  deriving DecidableEq

def EvalStop.verdict : EvalStop → Verdict
  | .report _ _ => .reported
  | .format => .format
  | .fault f => .fault f

/-- The message decides. -/
def Refusal.verdict : Refusal → Verdict
  | .reported m => if m.Printable then .reported else .format
  | .fault f => .fault f

/-- How a run ends, without the marks. -/
def ending {α : Type} : EStateM.Result EvalStop EvalState α → Except Verdict (α × Setup)
  | .ok a s => .ok (a, s.setup)
  | .error stop _ => .error stop.verdict

def Means {α : Type} (m : EvalM α) (μ : MeaningM α) (s : EvalState) : Prop :=
  (μ s.setup).mapError Refusal.verdict = ending (m s)

/-- What returns is in both the same. -/
theorem ending_ok {α : Type} {x : Except Refusal (α × Setup)} {r : EStateM.Result EvalStop EvalState α} {a : α}
    {st : Setup} (h : x.mapError Refusal.verdict = ending r) :
    x = .ok (a, st) ↔ ∃ t, r = .ok a t ∧ t.setup = st := by
  cases x with
  | ok p =>
    cases r with
    | ok b t =>
      obtain rfl : p = (b, t.setup) := Except.ok.inj h
      simp
    | error e t => cases h
  | error e =>
    cases r with
    | ok b t => cases h
    | error e' t => simp

section
variable {α β : Type} {m : EvalM α} {μ : MeaningM α} {f : α → EvalM β} {φ : α → MeaningM β}
  {s s' : EvalState} {es : List ConfEntry} {e : ConfEntry} {k : Keyword} {conv : ConfEntry → EvalM α}
  {cμ : ConfEntry → MeaningM α} {dst : α}

/-! ## Messages -/

/-- The text and the word are as good as each other. -/
theorem stop_verdict {st : Setup} {msg w : CStr} (hw : Log.formatSafe msg = Log.formatSafe w) :
    (st.stop e msg).verdict = (Refusal.reported ⟨st.filename, w⟩).verdict := by
  have hsame : st.Printable msg ↔ Message.Printable ⟨st.filename, w⟩ := by
    simp [Setup.Printable, Message.Printable, hw]
  unfold Setup.stop Refusal.verdict
  split
  · rename_i h
    exact (if_pos (hsame.mp h)).symm
  · rename_i h
    exact (if_neg (hsame.not.mp h)).symm

theorem quoted_safe (w : CStr) : Log.formatSafe (quoted w) = Log.formatSafe w := by
  have hquote : cstr "\"" = [34] := by decide
  unfold quoted
  rw [List.append_assoc, hquote, List.singleton_append, Log.formatSafe_cons (by decide),
    Log.formatSafe_append_cons (by decide), Log.formatSafe_nil, Bool.and_true]

theorem keyword_safe (k : Keyword) : Log.formatSafe (k.1 ++ cstr " already set") = Log.formatSafe [] := by
  have hset : cstr " already set" = 32 :: cstr "already set" := by decide
  rw [hset, Log.formatSafe_append_cons (by decide), k.2.2]
  decide

/-! ## Rules -/

theorem Means.pure (a : α) : Means (pure a) (pure a) s := rfl

theorem Means.report {msg w : CStr} (h : es ≠ []) (hw : Log.formatSafe msg = Log.formatSafe w) :
    Means (parseError es msg : EvalM α) (report w) s := by
  cases es with
  | nil => exact absurd rfl h
  | cons e es => exact congrArg Except.error (stop_verdict hw).symm

theorem Means.bind (h : Means m μ s) (hf : ∀ a s', m s = .ok a s' → Means (f a) (φ a) s') :
    Means (m >>= f) (μ >>= φ) s := by
  unfold Means at h hf ⊢
  have hμ : (μ >>= φ) s.setup = μ s.setup >>= fun r => φ r.1 r.2 := rfl
  rw [hμ]
  cases hm : m s with
  | ok a s' =>
    rw [hm] at h
    rw [Exec.bind_run hm]
    cases hr : μ s.setup with
    | ok r =>
      rw [hr] at h
      obtain rfl : r = (a, s'.setup) := Except.ok.inj h
      exact hf a s' hm
    | error r =>
      rw [hr] at h
      cases h
  | error stop s' =>
    rw [hm] at h
    rw [Exec.bind_stop hm]
    cases hr : μ s.setup with
    | ok r =>
      rw [hr] at h
      cases h
    | error r =>
      rw [hr] at h
      exact congrArg Except.error (Except.error.inj h)

/-- The code and its meaning look at the state. -/
theorem Means.get {f : EvalState → EvalM β} {φ : Setup → MeaningM β} (h : Means (f s) (φ s.setup) s) :
    Means (get >>= f) (get >>= φ) s := h

theorem Means.warn {msg w : CStr} (hw : Log.formatSafe msg = Log.formatSafe w) :
    Means (parseWarn msg) (warn w) s := by
  have hsame : s.setup.Printable msg ↔ Message.Printable ⟨s.setup.filename, w⟩ := by
    simp [Setup.Printable, Message.Printable, hw]
  refine .get ?_
  by_cases h : s.setup.Printable msg
  · rw [if_pos h, if_pos (hsame.mp h)]
    exact .pure ()
  · rw [if_neg h, if_neg (hsame.not.mp h)]
    exact congrArg Except.error (if_neg (hsame.not.mp h))

theorem Means.modify (g : Setup → Setup) : Means (modifySetup g) (modify g) s := rfl

theorem Means.call (c : SetupM α) : Means (liftSetup c) (call c) s := by
  unfold Means liftSetup Meaning.call
  rw [Exec.get_run]
  cases c s.setup <;> rfl

/-! ## Lookups -/

theorem find_named (es : List ConfEntry) (k : Keyword) (s : EvalState) :
    (es.find? fun e => s.Finds (some k) e) = (named k es).find? fun e => s.used e.id = 0 := by
  rw [named, List.find?_filter]
  refine congrArg (es.find? ·) (funext fun e => ?_)
  unfold EvalState.Finds
  simp [and_comm]

/-- What a lookup finds in a list that is not touched yet. -/
theorem find_fresh (hfresh : ∀ e ∈ es, e.name = k.1 → Fresh s e) :
    (es.find? fun e => s.Finds (some k) e) = (named k es).head? := by
  rw [find_named]
  cases hl : named k es with
  | nil => rfl
  | cons e rest =>
    obtain ⟨he, hn⟩ := mem_named.mp (hl ▸ List.mem_cons_self)
    exact List.find?_cons_of_pos (decide_eq_true (hfresh e he hn e.id (id_mem e)))

/-- The entries behind the first one. -/
theorem find_second {rest : List ConfEntry} (hd : Distinct es) (hfresh : ∀ e ∈ es, e.name = k.1 → Fresh s e)
    (hl : named k es = e :: rest) :
    (es.find? fun x => (s.take e).Finds (some k) x) = rest.head? := by
  have hin : ∀ {x}, x ∈ e :: rest → x ∈ es ∧ x.name = k.1 := fun hx => mem_named.mp (hl ▸ hx)
  have hdn : Distinct (e :: rest) := hl ▸ hd.named k
  rw [find_named, hl, List.find?_cons_of_neg (by simp [take_self])]
  cases rest with
  | nil => rfl
  | cons x rest =>
    obtain ⟨hx, hn⟩ := hin (List.mem_cons_of_mem _ List.mem_cons_self)
    have hne : e ≠ x := (hdn : Distinct ([e] ++ x :: rest)).split (List.mem_singleton.mpr rfl) List.mem_cons_self
    refine List.find?_cons_of_pos (decide_eq_true ?_)
    rw [take_same hd (hin List.mem_cons_self).1 hx hne x.id (id_mem x)]
    exact hfresh x hx hn x.id (id_mem x)

theorem takeEntry_run (e : ConfEntry) (s : EvalState) : takeEntry e s = .ok () (s.take e) := rfl

/-- A second entry is reported. -/
theorem assure_fresh {rest : List ConfEntry} (hd : Distinct es) (hfresh : ∀ e ∈ es, e.name = k.1 → Fresh s e)
    (hl : named k es = e :: rest) : iAssureNoEntry es (some k) (s.take e) = match rest.head? with
      | none => .ok () (s.take e)
      | some x => .error (s.setup.stop x (k.1 ++ cstr " already set")) (s.take e) := by
  unfold iAssureNoEntry
  rw [Exec.bind_run (parseEntryGet_run _ _ _), find_second hd hfresh hl]
  cases rest <;> rfl

/-- What `i_get_entry_single_value` gets out of a list that is not touched yet. -/
theorem single_run (hd : Distinct es) (hfresh : ∀ e ∈ es, e.name = k.1 → Fresh s e) :
    iGetEntrySingleValue es (some k) true s = match named k es with
      | [] => .ok none s
      | [e] => if e.values.length ≠ 1 then .error (s.setup.stop e (cstr "expecting single value")) (s.take e)
        else .ok (some e) (s.take e)
      | e :: x :: _ => .error (s.setup.stop x (k.1 ++ cstr " already set")) (s.take e) := by
  unfold iGetEntrySingleValue
  simp only
  rw [Exec.bind_run (parseEntryGet_run _ _ _), find_fresh hfresh]
  cases hl : named k es with
  | nil => rfl
  | cons e rest =>
    have hassure := assure_fresh hd hfresh hl
    simp only [List.head?_cons, if_true]
    rw [Exec.bind_run (takeEntry_run e s)]
    cases rest with
    | nil =>
      rw [Exec.bind_run hassure]
      by_cases hlen : e.values.length ≠ 1
      · rw [if_pos hlen]
        exact (if_pos hlen).symm
      · rw [if_neg hlen]
        exact (if_neg hlen).symm
    | cons x rest => rw [Exec.bind_stop hassure]

/-- A single statement. -/
theorem single_means (hd : Distinct es) (hfresh : ∀ e ∈ es, e.name = k.1 → Fresh s e)
    (hconv : ∀ e ∈ es, e.name = k.1 → Means (conv e) (cμ e) (s.take e)) :
    Means (iGet conv es (some k) true dst) (single es k cμ dst) s := by
  have hrun := single_run hd hfresh
  unfold Means iGet single
  match hl : named k es with
  | [] =>
    rw [hl] at hrun
    rw [Exec.bind_run hrun]
    rfl
  | [e] =>
    rw [hl] at hrun
    simp only at hrun ⊢
    obtain ⟨he, hn⟩ := mem_named.mp (hl ▸ List.mem_singleton.mpr rfl)
    split
    · rename_i hlen
      rw [if_pos hlen] at hrun
      rw [Exec.bind_stop hrun]
      exact congrArg Except.error (stop_verdict (by decide)).symm
    · rename_i hlen
      rw [if_neg hlen] at hrun
      rw [Exec.bind_run hrun]
      exact hconv e he hn
  | e :: x :: rest =>
    rw [hl] at hrun
    rw [Exec.bind_stop hrun]
    exact congrArg Except.error (stop_verdict (keyword_safe k)).symm

/-- The value of an entry itself. -/
theorem self_means (hconv : Means (conv e) (cμ e) s) :
    Means (iGet conv [e] none true dst) (self e cμ dst) s := by
  unfold iGet iGetEntrySingleValue self
  simp only
  split
  · exact .pure dst
  · exact hconv

end

/-! ## Loops -/

section
variable {β : Type} {I : EvalState → Prop} {body : ConfEntry → β → EvalM β} {μ : ConfEntry → β → MeaningM β}
  {D : EvalState → ConfEntry → Prop} {es : List ConfEntry} {e : ConfEntry} {s : EvalState} {b : β} {k : Keyword}

theorem forEach_means (hd : Distinct es) (hI : I s) (hfresh : ∀ e ∈ es, Fresh s e)
    (hbody : ∀ e ∈ es, Eats I body D e)
    (hm : ∀ e ∈ es, ∀ b s, Fresh s e → Means (body e b) (μ e b) (s.take e)) :
    Means (forEach body es b) (es.foldlM (fun b e => μ e b) b) s := by
  induction es generalizing b s with
  | nil => exact .pure b
  | cons e es ih =>
    have hf := hfresh e List.mem_cons_self
    have hround : Means (do takeEntry e; body e b) (μ e b) s := hm e List.mem_cons_self b s hf
    rw [List.foldlM_cons, forEach, ← bind_assoc]
    refine hround.bind fun b₁ s₁ hrun => ?_
    have hrun : body e b (s.take e) = .ok b₁ s₁ := hrun
    obtain ⟨hI₁, honly, -⟩ := hbody e List.mem_cons_self b s b₁ s₁ hI hf hrun
    refine ih hd.tail hI₁ (fun x hx => ?_) (fun x hx => hbody x (List.mem_cons_of_mem _ hx))
      fun x hx => hm x (List.mem_cons_of_mem _ hx)
    refine (hfresh x (List.mem_cons_of_mem _ hx)).congr fun i hi => honly i fun hie => ?_
    unfold Distinct at hd
    rw [entryIds, List.nodup_append] at hd
    exact hd.2.2 i hie i (mem_entryIds.mpr ⟨x, hx, hi⟩) rfl

/-- A loop over the entries of a name. -/
theorem whileEntry_means (hd : Distinct es) (hD : ∀ s e, D s e → s.used e.id ≠ 0) (hI : I s)
    (hfresh : ∀ e ∈ es, e.name = k.1 → Fresh s e) (hbody : ∀ e ∈ es, e.name = k.1 → Eats I body D e)
    (hm : ∀ e ∈ es, ∀ b s, Fresh s e → Means (body e b) (μ e b) (s.take e)) :
    Means (whileEntry es k body b) (each es k μ b) s := by
  have hin : ∀ {e}, e ∈ named k es → e ∈ es ∧ e.name = k.1 := mem_named.mp
  have hloop := forEach_means (b := b) (hd.named k) hI (fun e he => hfresh e (hin he).1 (hin he).2)
    (fun e he => hbody e (hin he).1 (hin he).2) fun e he => hm e (hin he).1
  unfold Means at hloop ⊢
  rw [whileEntry_eq hd hD hI hfresh hbody]
  exact hloop

end

/-! ## Blocks -/

section
variable {α β : Type} {m : EvalM α} {μ : MeaningM α} {f : α → EvalM β} {φ : α → MeaningM β}
  {s s₀ : EvalState} {es : List ConfEntry} {e : ConfEntry} {k : Keyword} {L : List CStr}
  {D : EvalState → ConfEntry → Prop}

/-- A statement of a block, and those behind it. -/
theorem Part.step (hp : Part es (· ∈ L) D s₀ s) (hd : Distinct es) (hl : Local D) (hf : ∀ e ∈ es, Fresh s₀ e)
    (hk : k.1 ∉ L) (hm : (∀ e ∈ es, e.name = k.1 → Fresh s e) → Means m μ s)
    (hpart : ∀ a s', (∀ e ∈ es, e.name = k.1 → Fresh s e) → m s = .ok a s' → Part es (· = k.1) D s s')
    (hrest : ∀ a s', Part es (· ∈ k.1 :: L) D s₀ s' → Means (f a) (φ a) s') :
    Means (m >>= f) (μ >>= φ) s := by
  have hfresh := hp.fresh hd hk hf
  exact (hm hfresh).bind fun a s' hrun => hrest a s' (hp.next hd hl hk (hpart a s' hfresh hrun))

/-- What is left of a block are the keywords that it does not know. -/
theorem known_means (hp : Part es (· ∈ L) D s₀ s) (hd : Distinct es) (hD : ∀ s e, D s e → s.used e.id ≠ 0)
    (hf : ∀ e ∈ es, Fresh s₀ e) : Means (iAssureNoEntry es none) (known es L) s := by
  have hleft : ∀ e ∈ es, s.used e.id = 0 ↔ e.name ∉ L := by
    refine fun e he => ⟨fun h0 hn => hD s e (hp.done e he hn) h0, fun hn => ?_⟩
    rw [hp.same hd he hn e.id (id_mem e)]
    exact hf e he e.id (id_mem e)
  have hfinds : ∀ e ∈ es, s.Finds none e ↔ e.name ∉ L := fun e he =>
    (and_iff_left fun k hk => nomatch hk).trans (hleft e he)
  have hfind : (es.find? fun e => s.Finds none e) = es.find? (·.name ∉ L) :=
    List.find?_congr fun e he => by simp only [hfinds e he]
  unfold Means iAssureNoEntry known
  rw [Exec.bind_run (parseEntryGet_run _ _ _), hfind]
  cases es.find? (·.name ∉ L) with
  | none => rfl
  | some e => exact congrArg Except.error (stop_verdict (Log.formatSafe_append (by decide))).symm

end

/-! ## Values -/

section
variable {env : SetupEnv} {es root : List ConfEntry} {e : ConfEntry} {s : EvalState} {k : Keyword}

/-- A message that ends in a word of the configuration. -/
theorem shown_safe {s : CStr} (h : 37 ∉ s) (w : CStr) :
    Log.formatSafe (s ++ quoted w) = Log.formatSafe w :=
  (Log.formatSafe_append h).trans (quoted_safe w)

theorem convString_means (name : Option Keyword) (dst : Option CStr) (hr : root ≠ []) :
    Means (convString root name dst e) (string dst e) s := by
  unfold convString string
  split
  · refine .report hr ?_
    cases name with
    | none => decide
    | some k => exact keyword_safe k
  · exact .pure _

theorem convBool_means : Means (convBool e) (Meaning.bool e) s := by
  unfold convBool Meaning.bool
  cases strGetBool e.value with
  | none => exact .report (by simp) (shown_safe (by decide) _)
  | some b => exact .pure b

theorem convLoglevel_means : Means (convLoglevel e) (loglevel e) s := by
  unfold convLoglevel loglevel
  cases strGetLoglevel e.value with
  | none => exact .report (by simp) (by decide)
  | some n => exact .pure n

theorem convInt_means : Means (convInt e) (int e) s := by
  unfold convInt int
  match strGetInt e.value with
  | (n, true) => exact .pure n
  | (_, false) => exact .report (by simp) (shown_safe (by decide) _)

theorem convEther_means : Means (convEther env e) (ether env e) s := by
  unfold convEther ether
  cases env.lib.etherAton e.value with
  | some eth => exact .pure eth
  | none =>
    refine .get ?_
    split
    · exact .report (by simp) (shown_safe (by decide) _)
    · refine (Means.call _).bind fun o s' _ => ?_
      cases o with
      | none =>
        refine .report (by simp) ?_
        have hparen : cstr ")" = [41] := by decide
        rw [hparen, Log.formatSafe_append_cons (by decide), shown_safe (by decide),
          Log.formatSafe_nil, Bool.and_true]
      | some eth => exact .pure eth

theorem convIp_means : Means (convIp env e) (ip env e) s := by
  unfold convIp ip
  cases env.lib.inetAton e.value with
  | some ip => exact .pure ip
  | none =>
    refine .get ?_
    split
    · exact .report (by simp) (shown_safe (by decide) _)
    · exact .call _

theorem iGetString_means {dst : Option CStr} (hd : Distinct es) (hf : ∀ e ∈ es, e.name = k.1 → Fresh s e) :
    Means (iGetString es (some k) dst true) (single es k (string dst) dst) s :=
  single_means hd hf fun _ he _ => convString_means _ _ (List.ne_nil_of_mem he)

theorem iGetString_self_means {dst : Option CStr} :
    Means (iGetString [e] none dst true) (self e (string dst) dst) s :=
  self_means (convString_means _ _ (by simp))

/-- The words of one statement. -/
theorem addService_run (e : ConfEntry) (dst : Nat) (s : EvalState) : addService e dst s =
    match e.values.foldlM (fun dst w => strGetService s.setup.services w dst) dst with
    | some m => .ok m s
    | none => .error (s.setup.stop e serviceExpected) s := by
  unfold addService
  induction e.values generalizing dst with
  | nil => rfl
  | cons w ws ih =>
    rw [List.foldlM_cons, List.foldlM_cons]
    cases hw : strGetService s.setup.services w dst with
    | none =>
      refine Exec.bind_stop ?_
      rw [Exec.get_run, hw]
      rfl
    | some m =>
      refine (Exec.bind_run ?_).trans (ih m)
      rw [Exec.get_run, hw]
      rfl

theorem services_means {dst : Nat} (hd : Distinct es) (hf : ∀ e ∈ es, e.name = kwService.1 → Fresh s e) :
    Means (iGetService es kwService dst) (services es dst) s := by
  have hin : ∀ {e}, e ∈ named kwService es → e ∈ es ∧ e.name = kwService.1 := mem_named.mp
  have hloop : ∀ (cs : List ConfEntry) (dst : Nat) (s : EvalState),
      Means (forEach addService cs dst) (do orReport [] (readServices (← get).services cs dst)) s := by
    intro cs
    induction cs with
    | nil => exact fun dst s => rfl
    | cons c cs ih =>
      intro dst s
      have hrun := addService_run c dst (s.take c)
      unfold Means forEach
      rw [Exec.bind_run (takeEntry_run c s)]
      have hread : ∀ st : Setup,
          (do orReport [] (readServices (← get).services (c :: cs) dst) : MeaningM Nat) st =
          orReport [] (readServices st.services (c :: cs) dst) st := fun _ => rfl
      rw [hread, readServices_cons]
      cases hfold : c.values.foldlM (fun dst w => strGetService s.setup.services w dst) dst with
      | none =>
        rw [show (s.take c).setup = s.setup from rfl, hfold] at hrun
        rw [Exec.bind_stop hrun]
        exact congrArg Except.error (stop_verdict (by decide)).symm
      | some m =>
        rw [show (s.take c).setup = s.setup from rfl, hfold] at hrun
        rw [Exec.bind_run hrun]
        exact ih m (s.take c)
  have heq := whileEntry_eq (b := dst) (I := fun _ => True) hd (fun _ _ => leaf_used) trivial hf
    fun e he _ => addService_eats hd he
  have hall := hloop (named kwService es) dst s
  unfold Means at hall ⊢
  unfold iGetService
  rw [heq]
  exact hall

end

/-! ## Hosts and files -/

/-- The first `n` aliases are taken. -/
def AliasesTaken (es : List ConfEntry) (n : Nat) (s : EvalState) : Prop :=
  ∀ i x, (named kwAlias es)[i]? = some x → (s.used x.id = 0 ↔ n ≤ i)

theorem find?_getElem? {α : Type} {p : α → Bool} {l : List α} {n : Nat}
    (h : ∀ i x, l[i]? = some x → (p x = true ↔ n ≤ i)) : l.find? p = l[n]? := by
  induction l generalizing n with
  | nil => rfl
  | cons a l ih =>
    have ha := h 0 a rfl
    cases n with
    | zero => exact List.find?_cons_of_pos (ha.mpr (le_refl 0))
    | succ n =>
      rw [List.find?_cons_of_neg fun hp => absurd (ha.mp hp) (by omega), List.getElem?_cons_succ]
      exact ih fun i x hx => by rw [h (i + 1) x (by simpa using hx)]; omega

section
variable {env : SetupEnv} {es root : List ConfEntry} {e : ConfEntry} {s s' : EvalState} {n : Nat}

theorem AliasesTaken.find (h : AliasesTaken es n s) :
    (es.find? fun e => s.Finds (some kwAlias) e) = (named kwAlias es)[n]? := by
  rw [find_named]
  refine find?_getElem? fun i x hx => ?_
  rw [decide_eq_true_iff]
  exact h i x hx

theorem Distinct.nodup (h : Distinct es) : es.Nodup := by
  induction es with
  | nil => exact .nil
  | cons e es ih =>
    refine List.nodup_cons.mpr ⟨fun he => ?_, ih h.tail⟩
    unfold Distinct at h
    rw [entryIds, List.nodup_append] at h
    exact h.2.2 e.id (id_mem e) e.id (mem_entryIds.mpr ⟨e, he, id_mem e⟩) rfl

/-- One alias more. -/
theorem AliasesTaken.take (h : AliasesTaken es n s) (hd : Distinct es) (hl : (named kwAlias es)[n]? = some e) :
    AliasesTaken es (n + 1) (s.take e) := by
  have hin : ∀ {i x}, (named kwAlias es)[i]? = some x → x ∈ es := fun hx =>
    (mem_named.mp (List.mem_of_getElem? hx)).1
  intro i x hx
  by_cases hi : i = n
  · rw [hi, hl] at hx
    cases hx
    rw [take_self]
    omega
  · have hne : e ≠ x := by
      rintro rfl
      have hnodup := (hd.named kwAlias).nodup
      exact hi ((List.getElem?_inj (List.getElem?_eq_some_iff.mp hx).1 hnodup).mp (hx.trans hl.symm))
    rw [take_same hd (hin hl) (hin hx) hne x.id (id_mem x), h i x hx]
    omega

/-- The call for the next alias. -/
theorem alias_run (h : AliasesTaken es n s) : iGetString es (some kwAlias) none false s =
    match (named kwAlias es)[n]? with
    | none => .ok none s
    | some e => if e.values.length ≠ 1 then .error (s.setup.stop e (cstr "expecting single value")) (s.take e)
      else .ok (some e.value) (s.take e) := by
  unfold iGetString iGet iGetEntrySingleValue
  simp only
  rw [bind_assoc, Exec.bind_run (parseEntryGet_run _ _ _), h.find]
  cases (named kwAlias es)[n]? with
  | none => rfl
  | some e =>
    by_cases hlen : e.values.length ≠ 1
    · simp only [if_pos hlen]
      rfl
    · simp only [if_neg hlen]
      rfl

/-- The aliases that fit in a record. -/
theorem aliases_means (hd : Distinct es) (hf : ∀ e ∈ es, e.name = kwAlias.1 → Fresh s e) (n : Nat) :
    Means (iGetAliases es n) (aliases es n) s ∧ ∀ v s', iGetAliases es n s = .ok v s' → AliasesTaken es n s' := by
  induction n with
  | zero =>
    refine ⟨.pure _, fun v s' h i x hx => ?_⟩
    obtain ⟨-, rfl⟩ := Exec.pure_ok.mp h
    obtain ⟨hx, hn⟩ := mem_named.mp (List.mem_of_getElem? hx)
    exact iff_of_true (hf x hx hn x.id (id_mem x)) (Nat.zero_le i)
  | succ n ih =>
    obtain ⟨hm, hafter⟩ := ih
    refine ⟨hm.bind fun v s₁ hrun => ?_, fun v s' h => ?_⟩
    · refine Means.bind ?_ fun a s₂ _ => .pure _
      unfold Means
      rw [alias_run (hafter v s₁ hrun)]
      unfold aliasOf
      cases (named kwAlias es)[n]? with
      | none => rfl
      | some e =>
        by_cases hlen : e.values.length ≠ 1
        · simp only [if_pos hlen]
          exact congrArg Except.error (stop_verdict (by decide)).symm
        · simp only [if_neg hlen]
          rfl
    · obtain ⟨v₁, s₁, hrun, r₁⟩ := Exec.bind_ok.mp h
      obtain ⟨a, s₂, halias, r₂⟩ := Exec.bind_ok.mp r₁
      obtain ⟨-, rfl⟩ := Exec.pure_ok.mp r₂
      have htaken := hafter v₁ s₁ hrun
      rw [alias_run htaken] at halias
      cases hl : (named kwAlias es)[n]? with
      | none =>
        rw [hl] at halias
        cases halias
        have hlen := List.getElem?_eq_none_iff.mp hl
        intro i x hx
        have hi := (List.getElem?_eq_some_iff.mp hx).1
        rw [htaken i x hx]
        omega
      | some e =>
        rw [hl] at halias
        simp only at halias
        split at halias
        · cases halias
        · cases halias
          exact htaken.take hd hl

/-- The record of a `file` block. -/
theorem fileRecord_means (hd : Distinct e.sub) (hf : ∀ x ∈ e.sub, Fresh s x) :
    Means (Bootd.fileRecord e) (Meaning.fileRecord e) s := by
  have hp := Part.nil e.sub Leaf s
  refine iGetString_self_means.bind fun path₀ s₀ h₀ => ?_
  obtain rfl := iGetString_self h₀
  refine hp.step hd local_leaf hf (by decide) (iGetString_means hd)
    (fun _ _ hf h => (iGetString_part hd hf h).1) fun path s₁ hp => ?_
  refine hp.step hd local_leaf hf (by decide) (iGetString_means hd)
    (fun _ _ hf h => (iGetString_part hd hf h).1) fun name s₂ hp => ?_
  refine hp.step hd local_leaf hf (by decide) (services_means hd)
    (fun _ _ hf h => (iGetService_part hd hf h).1) fun service s₃ hp => ?_
  have hf₃ := hp.fresh (n := kwAlias.1) hd (by decide) hf
  obtain ⟨hmeans, hafter⟩ := aliases_means hd hf₃ fileAliasesMax
  refine hmeans.bind fun aliases s₄ h₄ => ?_
  obtain ⟨hp₄, -⟩ := iGetAliases_part hd hf₃ h₄
  have hfind := (hafter aliases s₄ h₄).find
  have hget := parseEntryGet_run e.sub (some kwAlias) s₄
  cases hl : (named kwAlias e.sub)[fileAliasesMax]? with
  | some a =>
    have hlen := (List.getElem?_eq_some_iff.mp hl).1
    rw [hfind, hl] at hget
    unfold Means
    rw [Exec.bind_run hget, if_pos hlen]
    exact congrArg Except.error (stop_verdict (by decide)).symm
  | none =>
    have hlen := List.getElem?_eq_none_iff.mp hl
    rw [hfind, hl] at hget
    unfold Means
    rw [Exec.bind_run hget, if_neg (Nat.not_lt.mpr hlen)]
    -- no alias is left
    have hp₄ : Part e.sub (· = kwAlias.1) Leaf s₃ s₄ := hp₄.mono fun x hx hxn hd =>
      hd.resolve_left fun hf => find_none (hfind.trans hl) x hx hxn (hf x.id (id_mem x))
    replace hp := hp.next hd local_leaf (by decide) hp₄
    refine hp.step hd local_leaf hf (by decide) (iGetString_means hd)
      (fun _ _ hf h => (iGetString_part hd hf h).1) fun server s₅ hp => ?_
    exact (known_means hp hd (fun _ _ => leaf_used) hf).bind fun _ _ _ => .pure _

/-- A `file` block. -/
theorem evalFile_means {fs : List File} (hd : Distinct e.sub) (hf : ∀ x ∈ e.sub, Fresh s x) :
    Means (evalFile e fs) (file e fs) s :=
  (fileRecord_means hd hf).bind fun _ _ _ => .call _

theorem hostPart_used {x : ConfEntry} (h : HostPart s x) : s.used x.id ≠ 0 := by
  unfold HostPart at h
  split at h
  · rw [h.1]
    exact Nat.one_ne_zero
  · exact leaf_used h

/-- The record of a `host` block. -/
theorem hostRecord_means (hd : Distinct e.sub) (hf : ∀ x ∈ e.sub, Fresh s x) :
    Means (Bootd.hostRecord env e) (Meaning.hostRecord env e) s := by
  have hp := Part.nil e.sub HostPart s
  have hleaf : ∀ {k : Keyword} {s s' : EvalState}, k.1 ≠ kwFile.1 → Part e.sub (· = k.1) Leaf s s' →
      Part e.sub (· = k.1) HostPart s s' := fun hk hp => hp.mono fun x hx hxn hl => by
    unfold HostPart
    rwa [if_neg (by rw [hxn]; exact hk)]
  refine iGetString_self_means.bind fun name₀ s₀ h₀ => ?_
  obtain rfl := iGetString_self h₀
  refine hp.step hd local_hostPart hf (by decide) (iGetString_means hd)
    (fun _ _ hf h => hleaf (by decide) (iGetString_part hd hf h).1) fun name s₁ hp => ?_
  refine hp.step hd local_hostPart hf (by decide) (fun hf => single_means hd hf fun _ _ _ => convEther_means)
    (fun _ _ hf h => hleaf (by decide) (iGet_part hd hf convEther_ok h).1) fun eth s₂ hp => ?_
  refine hp.step hd local_hostPart hf (by decide) (fun hf => single_means hd hf fun _ _ _ => convIp_means)
    (fun _ _ hf h => hleaf (by decide) (iGet_part hd hf convIp_ok h).1) fun ip s₃ hp => ?_
  refine hp.step hd local_hostPart hf (by decide) (services_means hd)
    (fun _ _ hf h => hleaf (by decide) (iGetService_part hd hf h).1) fun service s₄ hp => ?_
  have hbody := fun x hx (_ : x.name = kwFile.1) => evalFile_eats (e := x) hd hx s₄.setup
  have hD : ∀ s x, BlockDone s x → s.used x.id ≠ 0 := fun _ _ hb => by rw [hb.1]; exact Nat.one_ne_zero
  refine hp.step hd local_hostPart hf (by decide)
    (fun hf => whileEntry_means (I := fun s => s.setup = s₄.setup) hd hD rfl hf hbody
      fun x hx _ _ hfx => evalFile_means (hd.sub hx) (hfx.inside hd hx))
    (fun _ _ hf h => ?_) fun files s₅ hp => ?_
  · obtain ⟨-, -, hp₅⟩ := whileEntry_rounds (I := fun s => s.setup = s₄.setup) hd local_blockDone hD rfl hf
      hbody h
    refine hp₅.mono fun x hx hxn hb => ?_
    unfold HostPart
    rwa [if_pos hxn]
  · refine (known_means hp hd (fun _ x hx => ?_) hf).bind fun _ _ _ => .pure _
    exact hostPart_used hx

/-- A `host` block. -/
theorem evalHost_means {u : Unit} (hd : Distinct e.sub) (hf : ∀ x ∈ e.sub, Fresh s x) :
    Means (evalHost env e u) (host env e u) s :=
  (hostRecord_means hd hf).bind fun _ _ _ => .call _

end

/-! ## The outermost level -/

section
variable {env : SetupEnv} {root es : List ConfEntry} {e : ConfEntry} {s s₀ : EvalState} {u : Unit}

theorem setting_means {α : Type} {cur : Setup → α} {read : α → EvalM α} {readM : α → MeaningM α}
    {set : α → Setup → Setup} (h : ∀ a, Means (read a) (readM a) s) :
    Means (evalSetting cur read set) (setting cur readM set) s :=
  .get ((h _).bind fun _ _ _ => .modify _)

theorem evalLog_means (hd : Distinct e.sub) (hf : ∀ x ∈ e.sub, Fresh s x) : Means (evalLog e) (logBlock e) s := by
  have hp := Part.nil e.sub Leaf s
  refine hp.step hd local_leaf hf (by decide) (fun hf => single_means hd hf fun _ _ _ => .pure _)
    (fun _ _ hf h => (iGet_part hd hf (fun h => (Exec.pure_ok.mp h).2.symm) h).1) fun file s₁ hp => ?_
  refine hp.step hd local_leaf hf (by decide) (fun hf => single_means hd hf fun _ _ _ => convLoglevel_means)
    (fun _ _ hf h => (iGet_part hd hf convLoglevel_ok h).1) fun level s₂ hp => ?_
  exact (known_means hp hd (fun _ _ => leaf_used) hf).bind fun _ _ _ => .pure _

theorem iEvalLogMsg_means (hd : Distinct root) (hf : ∀ e ∈ root, Fresh s e) :
    Means (iEvalLogMsg env root) (log env root) s := by
  have hfind := find_fresh (k := kwLog) fun e he _ => hf e he
  have hget := parseEntryGet_run root (some kwLog) s
  rw [hfind] at hget
  unfold iEvalLogMsg log
  match hl : named kwLog root with
  | [] =>
    rw [hl] at hget
    unfold Means
    rw [Exec.bind_run hget]
    rfl
  | e :: rest =>
    rw [hl] at hget
    have he := (mem_named.mp (hl ▸ List.mem_cons_self : e ∈ named kwLog root)).1
    have hassure := assure_fresh (k := kwLog) hd (fun e he _ => hf e he) hl
    unfold Means
    rw [Exec.bind_run hget]
    simp only [List.head?_cons]
    rw [Exec.bind_run (takeEntry_run e s)]
    cases rest with
    | nil =>
      rw [Exec.bind_run hassure]
      exact (evalLog_means (hd.sub he) ((hf e he).inside hd he)).bind fun _ _ _ => .modify _
    | cons x rest =>
      rw [Exec.bind_stop hassure]
      exact congrArg Except.error (stop_verdict (keyword_safe kwLog)).symm

/-- All settings. -/
theorem iEvalBasic_means {svs : List NetService} (hd : Distinct root) (hf : ∀ e ∈ root, Fresh s₀ e)
    (hp : Part root (· ∈ [kwLog.1]) (RootDone svs) s₀ s) : Means (iEvalBasic root) (basic root) s := by
  have hl := local_rootDone svs
  have hstep : ∀ {α : Type} {k : Keyword} {cur : Setup → α} {read : α → EvalM α} {readM : α → MeaningM α}
      {set : α → Setup → Setup} {L : List CStr} {s : EvalState} {f : Unit → EvalM Unit} {φ : Unit → MeaningM Unit},
      k.1 ∉ [kwLog.1, kwService.1, kwHost.1] → (∀ a st, KeepsHosts st (set a st)) →
      Part root (· ∈ L) (RootDone svs) s₀ s → k.1 ∉ L →
      (∀ a, (∀ e ∈ root, e.name = k.1 → Fresh s e) → Means (read a) (readM a) s) →
      (∀ a a' s₁, (∀ e ∈ root, e.name = k.1 → Fresh s e) → read a s = .ok a' s₁ →
        Part root (· = k.1) Leaf s s₁ ∧ s₁.setup = s.setup) →
      (∀ u s', Part root (· ∈ k.1 :: L) (RootDone svs) s₀ s' → Means (f u) (φ u) s') →
      Means (evalSetting cur read set >>= f) (setting cur readM set >>= φ) s :=
    fun hblock hset hp hk hm hpart hrest => hp.step hd hl hf hk (fun hf => setting_means fun a => hm a hf)
      (fun _ _ hf h => (evalSetting_part h (fun a a' s₁ => hpart a a' s₁ hf) hset).1.leaf_rootDone
        fun _ hn => hn ▸ hblock) hrest
  refine hstep (k := kwChroot) (by decide) (fun _ _ => .same rfl rfl rfl) hp (by decide)
    (fun _ => iGetString_means hd) (fun _ _ _ => iGetString_part hd) fun _ s₁ hp => ?_
  refine hstep (k := kwDirectory) (by decide) (fun _ _ => .same rfl rfl rfl) hp (by decide)
    (fun _ => iGetString_means hd) (fun _ _ _ => iGetString_part hd) fun _ s₂ hp => ?_
  refine hstep (k := kwResolveEther) (by decide) (fun _ _ => .same rfl rfl rfl) hp (by decide)
    (fun _ hf => single_means hd hf fun _ _ _ => convBool_means) (fun _ _ _ hf => iGet_part hd hf convBool_ok)
    fun _ s₃ hp => ?_
  refine hstep (k := kwResolveIp) (by decide) (fun _ _ => .same rfl rfl rfl) hp (by decide)
    (fun _ hf => single_means hd hf fun _ _ _ => convBool_means) (fun _ _ _ hf => iGet_part hd hf convBool_ok)
    fun _ s₄ hp => ?_
  refine hstep (k := kwSessionMax) (by decide) (fun _ _ => .same rfl rfl rfl) hp (by decide)
    (fun _ hf => single_means hd hf fun _ _ _ => convInt_means) (fun _ _ _ hf => iGet_part hd hf convInt_ok)
    fun _ s₅ hp => ?_
  exact setting_means fun _ => single_means hd (hp.fresh (n := kwSessionTimeout.1) hd (by decide) hf)
    fun _ _ _ => convInt_means

theorem addBindings_means {add : CStr → SetupM Bool} {msg : CStr} (hmsg : 37 ∉ msg) :
    Means (Bootd.addBindings add msg e u) (Meaning.addBindings add e u) s := by
  unfold Bootd.addBindings Meaning.addBindings
  induction e.values generalizing s with
  | nil => exact .pure _
  | cons w ws ih =>
    refine Means.bind ((Means.call _).bind fun b _ _ => ?_) fun _ _ _ => ih
    cases b with
    | true => exact .pure ()
    | false => exact .warn (Log.formatSafe_append hmsg)

theorem evalBindings_means {id sv : Nat} (hd : Distinct es) (hf : ∀ x ∈ es, Fresh s x) :
    Means (evalBindings env id sv es) (bindings env id sv es) s := by
  have hloop : ∀ {k : Keyword} {add : CStr → SetupM Bool} {msg : CStr}, (∀ w, Binding (add w)) → 37 ∉ msg →
      Means (whileEntry es k (Bootd.addBindings add msg) ()) (each es k (Meaning.addBindings add) ()) s :=
    fun hadd hmsg => whileEntry_means hd (fun _ _ => leaf_used) (KeepsHosts.refl s.setup)
      (fun x hx _ => hf x hx)
      (fun x hx _ => addBindings_eats hadd hd hx s.setup) fun _ _ _ _ _ => addBindings_means hmsg
  unfold evalBindings bindings
  split_ifs
  · exact hloop (fun w => Binding.linkAdd env sv w) (by decide)
  · exact hloop (fun w => Binding.udpAdd env sv w) (by decide)
  · exact .pure _

/-- A `service` block. -/
theorem evalService_means (hd : Distinct e.sub) (hf : ∀ x ∈ e.sub, Fresh s x) :
    Means (evalService env e u) (service env e u) s := by
  unfold evalService service
  split
  · exact .report (by simp) (by decide)
  · refine .get ?_
    cases hid : strGetService s.setup.services e.value 0 with
    | none =>
      simp only [hid]
      exact .report (by simp) (by decide)
    | some id =>
      cases hsv : serviceSearchById s.setup.services id with
      | none =>
        simp only [hid, hsv, orReport_some, pure_bind]
        refine .report (by simp) ?_
        rw [Log.formatSafe_append (by decide), Log.formatSafe_plain (decText_plain id), Log.formatSafe_nil]
      | some sv =>
        simp only [hid, hsv, orReport_some, pure_bind]
        exact evalBindings_means hd hf

theorem iEvalServices_means (hd : Distinct root) (hf : ∀ e ∈ root, e.name = kwService.1 → Fresh s e) :
    Means (iEvalServices env root) (each root kwService (service env) ()) s :=
  whileEntry_means hd (fun _ _ hsv => by rw [hsv.1]; exact Nat.one_ne_zero) (KeepsHosts.refl s.setup) hf
    (fun _ he _ => evalService_eats hd he s.setup)
    fun _ he _ _ hfe => evalService_means (hd.sub he) (hfe.inside hd he)

theorem rootDone_used {svs : List NetService} (h : RootDone svs s e) : s.used e.id ≠ 0 := by
  have h1 : s.used e.id = 1 := by
    unfold RootDone at h
    split_ifs at h
    all_goals exact h.1
  rw [h1]
  exact Nat.one_ne_zero

/-- A configuration ends as its meaning says. -/
theorem confFile_means (hd : Distinct root) (hf : ∀ e ∈ root, Fresh s e) :
    Means (confFile env root) (conf env root) s := by
  have hl := local_rootDone s.setup.services
  have hp := Part.nil root (RootDone s.setup.services) s
  unfold conf head
  simp only [bind_assoc]
  refine (iEvalLogMsg_means hd hf).bind fun _ s₁ h₁ => ?_
  obtain ⟨hp₁, -⟩ := iEvalLogMsg_part hd hf h₁
  refine (iEvalBasic_means hd hf (hp.next hd hl (by decide) hp₁.log_rootDone)).bind fun _ s₂ h₂ => ?_
  obtain ⟨hp₂, hs₂⟩ := basic_rootDone hd hf h₁ h₂
  have hsub : ∀ {e s}, e ∈ root → Fresh s e → ∀ x ∈ e.sub, Fresh (s.take e) x := fun he hf => hf.inside hd he
  refine hp₂.step hd hl hf (by decide) (fun hf => iEvalServices_means hd hf)
    (fun _ _ hf h => (iEvalServices_part hd hf h).1.service_rootDone hs₂.keys) fun _ s₃ hp => ?_
  refine hp.step hd hl hf (by decide) (fun hf => ?_)
    (fun _ _ hf h => (iEvalHosts_part hd hf h).1.host_rootDone) fun _ s₄ hp => ?_
  · exact whileEntry_means (I := fun _ => True) hd (fun _ _ hh => by rw [hh.1]; exact Nat.one_ne_zero) trivial hf
      (fun e he _ => evalHost_eats hd he) fun e he _ _ hfe => evalHost_means (hd.sub he) (hsub he hfe)
  exact known_means hp hd (fun _ _ => rootDone_used) hf

/-- A configuration that is accepted, by its meaning. -/
theorem conf_accepted {st st' : Setup} (hd : Distinct root) :
    Meaning.conf env root st = .ok ((), st') ↔ ∃ s, confFile env root (.start st) = .ok () s ∧ s.setup = st' :=
  ending_ok (confFile_means hd fun e _ => start_fresh st e)

end

end Bootd
