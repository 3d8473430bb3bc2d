import Bootd.Config.Crashes

/-!
# The messages of an evaluation

`parse_error` and `parse_warn` pass the finished text to `log_msg` for a format
(src/parse.c:220, 232). A percent sign in the name of the file, or in a word that is
shown, takes an argument that is not there.

* `ServiceAt`, `HostAt`: how far the evaluation comes.
* `Reports`, `Refuses`: the report it ends with, and the words it warns about.
* `conf_reported`: an evaluation that ends with a message.
-/
namespace Bootd

open Bootd.Core
open Bootd.Core.Stops

/-! ## How far the evaluation comes -/

/-- The `service` block `e` is evaluated, from `st'` on. -/
def ServiceAt (env : SetupEnv) (root : List ConfEntry) (st : Setup) (e : ConfEntry) (st' : Setup) : Prop :=
  ∃ pre post, named kwService root = pre ++ e :: post ∧
    (do Meaning.log env root; Meaning.basic root
        pre.foldlM (fun u e => Meaning.service env e u) ()) st = .ok ((), st')

/-- The `host` block `e` is evaluated, from `st'` on. -/
def HostAt (env : SetupEnv) (root : List ConfEntry) (st : Setup) (e : ConfEntry) (st' : Setup) : Prop :=
  ∃ pre post, named kwHost root = pre ++ e :: post ∧
    (do Meaning.head env root; pre.foldlM (fun u e => Meaning.host env e u) ()) st = .ok ((), st')

/-- The service that a block is for, with its place. mirrors src/conf.c:357-368 -/
def Meaning.serviceFound (e : ConfEntry) : MeaningM (Nat × Nat) :=
  if e.values.length ≠ 1 then report []
  else do
    let svs := (← get).services
    let id ← orReport [] (strGetService svs e.value 0)
    let s ← orReport [] (serviceSearchById svs id)
    pure (id, s)

/-- The statement that the block of the service at place `s` may have, and what it calls. -/
def bindCall (env : SetupEnv) (id s : Nat) : Option (Keyword × (CStr → SetupM Bool)) :=
  if id &&& listenLink ≠ 0 then some (kwDevice, serviceLinkAdd env s)
  else if id &&& listenUdp ≠ 0 ∨ id &&& listenRpcUdp ≠ 0 then some (kwBind, serviceUdpAdd env s)
  else none

/-- The words of all statements `k`. -/
def wordsOfAll (k : Keyword) (es : List ConfEntry) : List CStr := (named k es).flatMap (·.values)

/-- The word `w` of a `device` or `bind` statement is refused, and `st'` is the setup then. -/
def Refuses (env : SetupEnv) (root : List ConfEntry) (st : Setup) (w : CStr) (st' : Setup) : Prop :=
  ∃ e s id sv k add pre post s₁, ServiceAt env root st e s ∧ Meaning.serviceFound e s = .ok ((id, sv), s) ∧
    bindCall env id sv = some (k, add) ∧ wordsOfAll k e.sub = pre ++ w :: post ∧
    pre.forM (Meaning.bindWord add) s = .ok ((), s₁) ∧ add w s₁ = .ok (false, st')

/-- The evaluation ends with a report: about the log, a setting, the head of a `service` block,
a `host` block, or a keyword that is left over. -/
inductive Reports (env : SetupEnv) (root : List ConfEntry) (st : Setup) : Message → Prop
  | log {m : Message} : Meaning.log env root st = .error (.reported m) → Reports env root st m
  | basic {m : Message} {s : Setup} : Meaning.log env root st = .ok ((), s) →
      Meaning.basic root s = .error (.reported m) → Reports env root st m
  | service {m : Message} {e : ConfEntry} {s : Setup} : ServiceAt env root st e s →
      Meaning.serviceFound e s = .error (.reported m) → Reports env root st m
  | host {m : Message} {e : ConfEntry} {s : Setup} : HostAt env root st e s →
      Meaning.hostRecord env e s = .error (.reported m) → Reports env root st m
  | left {m : Message} {s : Setup} :
      (do Meaning.head env root; Meaning.each root kwHost (Meaning.host env) ()) st = .ok ((), s) →
      Meaning.known root [kwHost.1, kwService.1, kwSessionTimeout.1, kwSessionMax.1, kwResolveIp.1,
        kwResolveEther.1, kwDirectory.1, kwChroot.1, kwLog.1] s = .error (.reported m) → Reports env root st m

section
variable {env : SetupEnv} {root : List ConfEntry} {st st' : Setup} {e : ConfEntry} {m : Message} {u : Unit}
  {id s : Nat} {w : CStr}

/-! ## The words of a service -/

theorem call_reported {α : Type} {c : SetupM α} : ¬Meaning.call c st = .error (.reported m) := by
  rw [call_run]
  cases c st <;> simp

/-- A word that is refused, if the warning cannot be printed. -/
theorem bindWord_reported {add : CStr → SetupM Bool} : Meaning.bindWord add w st = .error (.reported m) ↔
    ∃ s, add w st = .ok (false, s) ∧ m = ⟨s.filename, w⟩ ∧ ¬m.Printable := by
  unfold Meaning.bindWord
  rw [bind_error, or_iff_right call_reported]
  constructor
  · rintro ⟨b, s, hcall, hwarn⟩
    cases b with
    | true => cases hwarn
    | false =>
      have hwarn : (if Message.Printable ⟨s.filename, w⟩ then pure () else Meaning.report w : MeaningM Unit) s =
          .error (.reported m) := hwarn
      split at hwarn
      · cases hwarn
      · rename_i hno
        cases hwarn
        exact ⟨s, call_ok.mp hcall, rfl, hno⟩
  · rintro ⟨s, hadd, rfl, hno⟩
    refine ⟨false, s, call_ok.mpr hadd, ?_⟩
    show (if Message.Printable ⟨s.filename, w⟩ then pure () else Meaning.report w : MeaningM Unit) s = _
    rw [if_neg hno]
    rfl

/-- The statements one after the other are their words one after the other. -/
theorem each_words (add : CStr → SetupM Bool) (k : Keyword) (es : List ConfEntry) :
    Meaning.each es k (Meaning.addBindings add) () = (wordsOfAll k es).forM (Meaning.bindWord add) := by
  unfold Meaning.each wordsOfAll
  induction named k es with
  | nil => rfl
  | cons e es ih =>
    rw [List.foldlM_cons, List.flatMap_cons]
    exact (bind_congr fun _ => ih).trans List.forM_append.symm

theorem bindings_words (env : SetupEnv) (id s : Nat) (es : List ConfEntry) :
    Meaning.bindings env id s es = match bindCall env id s with
      | none => pure ()
      | some (k, add) => (wordsOfAll k es).forM (Meaning.bindWord add) := by
  unfold Meaning.bindings bindCall
  split_ifs
  · exact each_words _ _ _
  · exact each_words _ _ _
  · rfl

theorem serviceFound_looks (e : ConfEntry) : Looks (Meaning.serviceFound e) st :=
  .ite .report (.get (.bind (.orReport _) fun _ => .bind (.orReport _) fun _ => .pure _))

theorem service_found (env : SetupEnv) (e : ConfEntry) (u : Unit) : Meaning.service env e u = (do
    let r ← Meaning.serviceFound e
    Meaning.bindings env r.1 r.2 e.sub) := by
  unfold Meaning.service Meaning.serviceFound
  split
  · rfl
  · simp only [bind_assoc, pure_bind]

theorem service_reported : Meaning.service env e u st = .error (.reported m) ↔
    Meaning.serviceFound e st = .error (.reported m) ∨ ∃ id sv k add pre w post s₁ s₂,
      Meaning.serviceFound e st = .ok ((id, sv), st) ∧ bindCall env id sv = some (k, add) ∧
      wordsOfAll k e.sub = pre ++ w :: post ∧ pre.forM (Meaning.bindWord add) st = .ok ((), s₁) ∧
      add w s₁ = .ok (false, s₂) ∧ m = ⟨s₂.filename, w⟩ ∧ ¬m.Printable := by
  rw [service_found, bind_error]
  refine or_congr_right ⟨?_, ?_⟩
  · rintro ⟨⟨id, sv⟩, s, hfound, hrun⟩
    obtain rfl : s = st := (serviceFound_looks e).ok hfound
    rw [bindings_words] at hrun
    cases hcall : bindCall env id sv with
    | none =>
      simp only [hcall] at hrun
      cases hrun
    | some r =>
      obtain ⟨k, add⟩ := r
      simp only [hcall] at hrun
      obtain ⟨pre, w, post, s₁, hwords, hpre, hw⟩ := forM_error.mp hrun
      obtain ⟨s₂, hadd, hm, hno⟩ := bindWord_reported.mp hw
      exact ⟨id, sv, k, add, pre, w, post, s₁, s₂, hfound, hcall, hwords, hpre, hadd, hm, hno⟩
  · rintro ⟨id, sv, k, add, pre, w, post, s₁, s₂, hfound, hcall, hwords, hpre, hadd, hm, hno⟩
    refine ⟨(id, sv), st, hfound, ?_⟩
    rw [bindings_words]
    simp only [hcall]
    exact forM_error.mpr ⟨pre, w, post, s₁, hwords, hpre, bindWord_reported.mpr ⟨s₂, hadd, hm, hno⟩⟩

/-! ## The whole configuration -/

theorem host_reported : Meaning.host env e u st = .error (.reported m) ↔
    Meaning.hostRecord env e st = .error (.reported m) := by
  unfold Meaning.host
  rw [bind_error, or_iff_left]
  rintro ⟨_, _, -, h⟩
  exact call_reported h

/-- A block of a service that stops the evaluation. -/
theorem ServiceAt.stops {r : Refusal} (hat : ServiceAt env root st e st')
    (h : Meaning.service env e () st' = .error r) : Meaning.head env root st = .error r := by
  obtain ⟨pre, post, hsplit, hrun⟩ := hat
  obtain ⟨⟨⟩, s₁, hlog, hrun⟩ := bind_ok.mp hrun
  obtain ⟨⟨⟩, s₂, hbasic, hpre⟩ := bind_ok.mp hrun
  refine bind_error.mpr (.inr ⟨(), s₁, hlog, bind_error.mpr (.inr ⟨(), s₂, hbasic, ?_⟩)⟩)
  exact foldlM_error.mpr ⟨pre, e, post, (), st', hsplit, hpre, h⟩

/-- **Where an evaluation ends with a message**: a report, or a warning that cannot be printed. -/
theorem conf_reported : Meaning.conf env root st = .error (.reported m) ↔
    Reports env root st m ∨ ∃ w s, Refuses env root st w s ∧ m = ⟨s.filename, w⟩ ∧ ¬m.Printable := by
  constructor
  · intro h
    unfold Meaning.conf at h
    rcases bind_error.mp h with hhead | ⟨⟨⟩, s, hhead, h⟩
    · rcases bind_error.mp hhead with hlog | ⟨⟨⟩, s₁, hlog, h⟩
      · exact .inl (.log hlog)
      rcases bind_error.mp h with hbasic | ⟨⟨⟩, s₂, hbasic, h⟩
      · exact .inl (.basic hlog hbasic)
      obtain ⟨pre, e, post, ⟨⟩, s₃, hsplit, hpre, h⟩ := foldlM_error.mp h
      have hat : ServiceAt env root st e s₃ :=
        ⟨pre, post, hsplit, bind_ok.mpr ⟨(), s₁, hlog, bind_ok.mpr ⟨(), s₂, hbasic, hpre⟩⟩⟩
      rcases service_reported.mp h with hfound | ⟨id, sv, k, add, pre', w, post', s₄, s₅, hfound, hcall, hwords,
        hwpre, hadd, hm, hno⟩
      · exact .inl (.service hat hfound)
      · exact .inr ⟨w, s₅, ⟨e, s₃, id, sv, k, add, pre', post', s₄, hat, hfound, hcall, hwords,
        hwpre, hadd⟩, hm, hno⟩
    · rcases bind_error.mp h with hhosts | ⟨⟨⟩, s', hhosts, h⟩
      · obtain ⟨pre, e, post, ⟨⟩, s₁, hsplit, hpre, h⟩ := foldlM_error.mp hhosts
        exact .inl (.host ⟨pre, post, hsplit, bind_ok.mpr ⟨(), s, hhead, hpre⟩⟩ (host_reported.mp h))
      · exact .inl (.left (bind_ok.mpr ⟨(), s, hhead, hhosts⟩) h)
  · intro h
    unfold Meaning.conf
    rcases h with h | ⟨w, s₅, ⟨e, s₃, id, sv, k, add, pre', post', s₄, hat, hfound, hcall, hwords,
      hwpre, hadd⟩, hm, hno⟩
    · cases h with
      | log h => exact bind_error.mpr (.inl (bind_error.mpr (.inl h)))
      | basic hlog h =>
        exact bind_error.mpr (.inl (bind_error.mpr (.inr ⟨(), _, hlog, bind_error.mpr (.inl h)⟩)))
      | service hat h =>
        exact bind_error.mpr (.inl (hat.stops (service_reported.mpr (.inl h))))
      | host hat h =>
        obtain ⟨pre, post, hsplit, hrun⟩ := hat
        obtain ⟨⟨⟩, s, hhead, hpre⟩ := bind_ok.mp hrun
        refine bind_error.mpr (.inr ⟨(), s, hhead, bind_error.mpr (.inl ?_)⟩)
        exact foldlM_error.mpr ⟨pre, _, post, (), _, hsplit, hpre, host_reported.mpr h⟩
      | left hrun h =>
        obtain ⟨⟨⟩, s, hhead, hhosts⟩ := bind_ok.mp hrun
        exact bind_error.mpr (.inr ⟨(), s, hhead, bind_error.mpr (.inr ⟨(), _, hhosts, h⟩)⟩)
    · refine bind_error.mpr (.inl (hat.stops (service_reported.mpr (.inr ?_))))
      exact ⟨id, sv, k, add, pre', w, post', s₄, s₅, hfound, hcall, hwords, hwpre, hadd, hm, hno⟩

end

end Bootd
