import Bootd.Config.Devices
import Bootd.Config.Reorder
import Bootd.Core.Keyed
import Bootd.Core.Stops

/-!
# Blocks of different services

Once the device table is known, the block of a service looks at the settings and at
its own service, and changes that service only (`OnlyService`). So the blocks of
different services can change places.

* `OnlyService.linkAdd`, `OnlyService.udpAdd`: the words of `device` and of `bind`.
* `service_ok`, `service_commute`: a block, and two blocks of different services.
* `services_reorder_blocks`: blocks in an order that differs between services only.
-/
namespace Bootd

open Bootd.Core

/-- When `m` returns, it has changed service `s` at most, and it would have done the same
had the other services been different. -/
def OnlyService {ε α : Type} (env : SetupEnv) (s : Nat) (m : StateT Setup (Except ε) α) : Prop :=
  ∀ st svs sv a st', st.devices = env.sysDevices → st.services[s]? = some sv → svs[s]? = some sv →
    m st = .ok (a, st') → ∃ sv', sv'.name = sv.name ∧ sv'.id = sv.id ∧
      st' = { st with services := st.services.set s sv' } ∧
      m { st with services := svs } = .ok (a, { st with services := svs.set s sv' })

section
variable {ε α β : Type} {env : SetupEnv} {s : Nat}

theorem OnlyService.pure (a : α) : OnlyService env s (pure a : StateT Setup (Except ε) α) := by
  intro st svs sv b st' _ hsv hsv' h
  cases h
  exact ⟨sv, rfl, rfl, by rw [set_eq_self hsv], by rw [set_eq_self hsv']; rfl⟩

theorem OnlyService.throw (e : ε) : OnlyService env s (throw e : StateT Setup (Except ε) α) :=
  fun _ _ _ _ _ _ _ _ h => nomatch h

theorem OnlyService.lift (x : Except ε α) : OnlyService env s (x : StateT Setup (Except ε) α) := by
  cases x with
  | error e =>
    intro st svs sv a st' _ _ _ h
    cases h
  | ok a => exact .pure a

theorem OnlyService.bind {m : StateT Setup (Except ε) α} {f : α → StateT Setup (Except ε) β}
    (hm : OnlyService env s m) (hf : ∀ a, OnlyService env s (f a)) : OnlyService env s (m >>= f) := by
  intro st svs sv b st'' hk hsv hsv' h
  obtain ⟨a, st', h₁, h₂⟩ := Stops.bind_ok.mp h
  obtain ⟨sv₁, hn₁, hi₁, rfl, hrun₁⟩ := hm st svs sv a st' hk hsv hsv' h₁
  have hset : ∀ {svs : List NetService}, svs[s]? = some sv → (svs.set s sv₁)[s]? = some sv₁ := fun hsv =>
    List.getElem?_set_self (List.getElem?_eq_some_iff.mp hsv).1
  obtain ⟨sv₂, hn₂, hi₂, rfl, hrun₂⟩ := hf a { st with services := st.services.set s sv₁ } (svs.set s sv₁) sv₁ b
    st'' hk (hset hsv) (hset hsv') h₂
  refine ⟨sv₂, hn₂.trans hn₁, hi₂.trans hi₁, by rw [List.set_set], ?_⟩
  rw [List.set_set] at hrun₂
  exact Stops.bind_ok.mpr ⟨a, _, hrun₁, hrun₂⟩

/-- `f` is given the state, of which it does not look at the services. -/
theorem OnlyService.onState {f : Setup → StateT Setup (Except ε) β} (hf : ∀ st, OnlyService env s (f st))
    (hother : ∀ st svs, f { st with services := svs } = f st) : OnlyService env s (get >>= f) := by
  intro st svs sv b st' hk hsv hsv' h
  obtain ⟨sv', hn, hi, hst, hrun⟩ := hf st st svs sv b st' hk hsv hsv' h
  refine ⟨sv', hn, hi, hst, ?_⟩
  show f { st with services := svs } { st with services := svs } = _
  rw [hother]
  exact hrun

theorem OnlyService.foldlM {f : β → α → StateT Setup (Except ε) β} (hf : ∀ b a, OnlyService env s (f b a))
    (as : List α) (b : β) : OnlyService env s (as.foldlM f b) := by
  induction as generalizing b with
  | nil => exact .pure b
  | cons a as ih => exact (hf b a).bind ih

theorem OnlyService.forM {f : α → StateT Setup (Except ε) PUnit} (hf : ∀ a, OnlyService env s (f a))
    (as : List α) : OnlyService env s (as.forM f) := by
  induction as with
  | nil => exact .pure _
  | cons a as ih => exact (hf a).bind fun _ => ih

/-! ## The words of a block -/

/-- The table is known. -/
theorem OnlyService.deviceInit (env : SetupEnv) : OnlyService env s (deviceInit env) := by
  intro st svs sv a st' hk hsv hsv' h
  have hrun : ∀ st : Setup, st.devices = env.sysDevices → Bootd.deviceInit env st = .ok (env.sysDevices, st) := by
    intro st hk
    have htable : deviceTable env st = st.devices := by
      unfold deviceTable
      split_ifs with h0
      · exact hk.symm
      · rfl
    rw [deviceInit_run, htable, hk]
    rw [← hk]
  rw [hrun st hk] at h
  cases h
  refine ⟨sv, rfl, rfl, by rw [set_eq_self hsv], ?_⟩
  rw [set_eq_self hsv']
  exact hrun { st with services := svs } hk

theorem OnlyService.bindSlot {slots : NetService → Nat} {f : NetService → NetService}
    (hf : ∀ sv, (f sv).name = sv.name ∧ (f sv).id = sv.id) : OnlyService env s (bindSlot s slots f) := by
  intro st svs sv a st' _ hsv hsv' h
  rw [bindSlot_run hsv] at h
  cases h
  have hst : ({ st with services := svs } : Setup).services[s]? = some sv := hsv'
  rw [bindSlot_run hst]
  by_cases hfree : slots sv < serviceBindMax
  · exact ⟨f sv, (hf sv).1, (hf sv).2, by rw [if_pos hfree], by rw [if_pos hfree]⟩
  · exact ⟨sv, rfl, rfl, by rw [if_neg hfree, set_eq_self hsv], by rw [if_neg hfree, set_eq_self hsv']⟩

theorem OnlyService.closed (env : SetupEnv) (s : Nat) : SlotClosed env (OnlyService env s) where
  pure := .pure
  bind := .bind
  lift := .lift
  onState := .onState
  deviceInit := .deviceInit env

theorem OnlyService.linkAdd (env : SetupEnv) (s : Nat) (w : CStr) : OnlyService env s (serviceLinkAdd env s w) :=
  (OnlyService.closed env s).linkAdd (fun _ => .bindSlot fun _ => ⟨rfl, rfl⟩) w

theorem OnlyService.udpAdd (env : SetupEnv) (s : Nat) (w : CStr) : OnlyService env s (serviceUdpAdd env s w) :=
  (OnlyService.closed env s).udpAdd (fun _ _ => .bindSlot fun _ => ⟨rfl, rfl⟩) w

/-! ## Blocks -/

theorem OnlyService.call {m : SetupM α} (h : OnlyService env s m) : OnlyService env s (Meaning.call m) := by
  intro st svs sv a st' hk hsv hsv' hrun
  unfold Meaning.call at hrun
  cases hm : m st with
  | error f =>
    rw [hm] at hrun
    cases hrun
  | ok r =>
    rw [hm] at hrun
    cases hrun
    obtain ⟨sv', hn, hi, hst, hother⟩ := h st svs sv a st' hk hsv hsv' hm
    refine ⟨sv', hn, hi, hst, ?_⟩
    unfold Meaning.call
    rw [hother]

theorem OnlyService.report (w : CStr) : OnlyService env s (Meaning.report w : MeaningM α) :=
  .onState (fun _ => .throw _) fun _ _ => rfl

theorem OnlyService.warn (w : CStr) : OnlyService env s (Meaning.warn w) := by
  refine .onState (fun st => ?_) fun _ _ => rfl
  split
  · exact .pure ()
  · exact .report w

theorem OnlyService.bindWord {add : CStr → SetupM Bool} (hadd : ∀ w, OnlyService env s (add w)) (w : CStr) :
    OnlyService env s (Meaning.bindWord add w) := by
  refine (OnlyService.call (hadd w)).bind fun b => ?_
  cases b with
  | true => exact .pure ()
  | false => exact .warn w

theorem OnlyService.bindings (env : SetupEnv) (id s : Nat) (sub : List ConfEntry) :
    OnlyService env s (Meaning.bindings env id s sub) := by
  have hadd : ∀ {k : Keyword} {add : CStr → SetupM Bool}, (∀ w, OnlyService env s (add w)) →
      OnlyService env s (Meaning.each sub k (Meaning.addBindings add) ()) := by
    intro k add hadd
    unfold Meaning.each Meaning.addBindings
    exact .foldlM (fun _ _ => .forM (.bindWord hadd) _) _ _
  unfold Meaning.bindings
  split_ifs
  · exact hadd fun w => .linkAdd env s w
  · exact hadd fun w => .udpAdd env s w
  · exact .pure _

end

/-- The place of the service that a block is for. -/
def blockService (svs : List NetService) (e : ConfEntry) : Option Nat :=
  (strGetService svs e.value 0).bind (serviceSearchById svs)

/-- The blocks of each service are the same, in the same order. -/
def SameBlocks (svs : List NetService) (root root' : List ConfEntry) : Prop :=
  ∀ k, List.Forall₂ Alike ((named kwService root).filter (blockService svs · = k))
    ((named kwService root').filter (blockService svs · = k))

section
variable {env : SetupEnv} {st st' st'' : Setup} {svs svs' : List NetService} {s : Nat} {sv sv' : NetService}
  {e e₁ e₂ : ConfEntry} {root root' : List ConfEntry}

theorem blockService_congr (h : svcKeys svs' = svcKeys svs) : blockService svs' = blockService svs := by
  funext e
  unfold blockService
  rw [strGetService_congr h]
  exact congrArg (Option.bind _) (funext (serviceSearchById_congr h))

/-- A `service` block that is accepted. -/
theorem service_ok : Meaning.service env e () st = .ok ((), st') ↔ e.values.length = 1 ∧
    ∃ id s, strGetService st.services e.value 0 = some id ∧ serviceSearchById st.services id = some s ∧
      Meaning.bindings env id s e.sub st = .ok ((), st') := by
  unfold Meaning.service
  by_cases hlen : e.values.length ≠ 1
  · rw [if_pos hlen]
    refine iff_of_false (fun h => ?_) fun h => hlen h.1
    cases h
  · rw [if_neg hlen, and_iff_right (not_not.mp hlen)]
    show (Meaning.orReport [] (strGetService st.services e.value 0) >>= fun id =>
      Meaning.orReport [] (serviceSearchById st.services id) >>= fun s =>
        Meaning.bindings env id s e.sub) st = _ ↔ _
    cases hid : strGetService st.services e.value 0 with
    | none =>
      refine iff_of_false (fun h => ?_) ?_
      · cases h
      · rintro ⟨id, s, h, -⟩
        cases h
    | some id =>
      rw [Meaning.orReport_some, pure_bind]
      cases hs : serviceSearchById st.services id with
      | none =>
        refine iff_of_false (fun h => ?_) ?_
        · cases h
        · rintro ⟨id, s, ⟨⟩, h, -⟩
          rw [hs] at h
          cases h
      | some s =>
        rw [Meaning.orReport_some, pure_bind]
        constructor
        · exact fun h => ⟨id, s, rfl, hs, h⟩
        · rintro ⟨id', s', ⟨⟩, hs', h⟩
          rw [hs] at hs'
          cases hs'
          exact h

/-- What a block does, and what it does where the other services are different. -/
theorem service_run (hk : st.devices = env.sysDevices) (h : Meaning.service env e () st = .ok ((), st')) :
    ∃ s sv sv', blockService st.services e = some s ∧ st.services[s]? = some sv ∧ sv'.name = sv.name ∧
      sv'.id = sv.id ∧ st' = { st with services := st.services.set s sv' } ∧
      ∀ svs, svcKeys svs = svcKeys st.services → svs[s]? = some sv →
        Meaning.service env e () { st with services := svs } = .ok ((), { st with services := svs.set s sv' }) := by
  obtain ⟨hlen, id, s, hid, hs, hrun⟩ := service_ok.mp h
  have hlt : s < st.services.length := (List.findIdx?_eq_some_iff_getElem.mp hs).1
  have hsv : st.services[s]? = some st.services[s] := List.getElem?_eq_getElem hlt
  have hblock : blockService st.services e = some s := by rw [blockService, hid]; exact hs
  obtain ⟨sv', hn, hi, hst, -⟩ := OnlyService.bindings env id s e.sub st st.services _ () st' hk hsv hsv hrun
  refine ⟨s, _, sv', hblock, hsv, hn, hi, hst, fun svs hkeys hsv' => ?_⟩
  obtain ⟨sv'', -, -, hst', hother⟩ := OnlyService.bindings env id s e.sub st svs _ () st' hk hsv hsv' hrun
  have hset : st.services.set s sv'' = st.services.set s sv' := congrArg Setup.services (hst'.symm.trans hst)
  have hsame : sv'' = sv' := by
    have hget := congrArg (·[s]?) hset
    simpa [List.getElem?_set_self hlt] using hget
  rw [hsame] at hother
  refine service_ok.mpr ⟨hlen, id, s, ?_, ?_, hother⟩
  · exact (strGetService_congr hkeys _ _).trans hid
  · exact (serviceSearchById_congr hkeys _).trans hs

/-- What every block keeps: the table, and the names and ids of the services. -/
structure Known (env : SetupEnv) (svs : List NetService) (st : Setup) : Prop where
  table : st.devices = env.sysDevices
  keys : svcKeys st.services = svcKeys svs

theorem service_keeps (env : SetupEnv) (svs : List NetService) : Keyed.Keeps (Known env svs)
    fun e st st' => Meaning.service env e () st = .ok ((), st') := by
  intro e st st' hk h
  obtain ⟨s, sv, sv', -, hsv, hn, hi, rfl, -⟩ := service_run hk.table h
  exact ⟨hk.table, (svcKeys_set hsv hn hi).trans hk.keys⟩

/-- Blocks of different services can change places. -/
theorem service_commute (env : SetupEnv) (svs : List NetService) : Keyed.Commutes (Known env svs)
    (blockService svs) fun e st st' => Meaning.service env e () st = .ok ((), st') := by
  intro e₁ e₂ st st' st'' hk hne h₁ h₂
  obtain ⟨s₁, sv₁, sv₁', hb₁, hsv₁, hn₁, hi₁, rfl, hother₁⟩ := service_run hk.table h₁
  have hk₁ := service_keeps env svs e₁ _ _ hk h₁
  obtain ⟨s₂, sv₂, sv₂', hb₂, hsv₂, hn₂, hi₂, rfl, hother₂⟩ := service_run hk₁.table h₂
  rw [blockService_congr hk.keys] at hb₁
  rw [blockService_congr hk₁.keys] at hb₂
  have hs : s₁ ≠ s₂ := fun hs => hne (by rw [hb₁, hb₂, hs])
  -- the second block finds its service as the first one leaves it
  have hsv₂' : st.services[s₂]? = some sv₂ := by
    rw [← hsv₂]
    exact (List.getElem?_set_ne hs).symm
  refine ⟨_, hother₂ st.services (hk.keys.trans hk₁.keys.symm) hsv₂', ?_⟩
  have hsv₁' : (st.services.set s₂ sv₂')[s₁]? = some sv₁ := (List.getElem?_set_ne hs.symm).trans hsv₁
  have hrun := hother₁ _ (svcKeys_set hsv₂' hn₂ hi₂) hsv₁'
  rw [List.set_comm _ _ hs.symm] at hrun
  exact hrun

/-- The order of blocks of different services does not matter, once the table is known. -/
theorem services_reorder_blocks (hk : st.devices = env.sysDevices) (hsame : SameBlocks st.services root root')
    (h : Meaning.each root kwService (Meaning.service env) () st = .ok ((), st')) :
    Meaning.each root' kwService (Meaning.service env) () st = .ok ((), st') := by
  have hstep : ∀ e e' st st', Alike e e' → Meaning.service env e () st = .ok ((), st') →
      Meaning.service env e' () st = .ok ((), st') := fun e e' _ _ he h => by rwa [service_alike env e e' he]
  have hkey : ∀ e e', Alike e e' → blockService st.services e' = blockService st.services e := by
    intro e e' he
    unfold blockService
    rw [he.value]
  have hruns := (Keyed.runs_foldlM (f := fun e => Meaning.service env e ())).mp h
  exact Keyed.runs_foldlM.mpr (hruns.reorder (service_commute env st.services) (service_keeps env st.services) hkey
    hstep hsame ⟨hk, rfl⟩)

end

end Bootd
