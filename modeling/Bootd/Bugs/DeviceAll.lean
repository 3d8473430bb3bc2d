import Bootd.Config.Loaded
import Bootd.Config.Separate

/-!
# `device all` binds nothing if no device was looked for

The lookups by name and by address call `device_init` if the table is empty
(src/device.c:139, 154). `service_link_add` gets the devices for `*` and `all` by
`device_search_by_name(NULL)`, which returns the table as it is (src/device.c:136). At
the start that is empty: a first statement `device all;` binds no device, and returns 1.

Counterexample: `all` on a machine with one device, before and after a lookup
(`all_binds_nothing`).

* `Lookup`: the earlier lookups.
* `bindsAll_iff`: all devices are bound if one of them filled the table.
* `blockOrderFree_of_known`, `block_order_matters`: exchanging whole service blocks.
* `device_all_iff`: what an earlier lookup decides.
-/
namespace Bootd

open Bootd.Core

/-- A call of one of the lookups; `list` is `device_search_by_name(NULL)`. -/
inductive Lookup
  | list
  | byName (name : CStr)
  | byEth (eth : Ether)

def Lookup.run (env : SetupEnv) : Lookup → SetupM (Option Device)
  | .list => return (← get).devices.head?
  | .byName name => deviceSearchByName env name
  | .byEth eth => deviceSearchByEth env eth

/-- Whether the lookup fills the table. -/
def Lookup.fills : Lookup → Bool
  | .list => false
  | .byName _ | .byEth _ => true

def history (env : SetupEnv) (h : List Lookup) : SetupM Unit :=
  h.forM fun l => do
    let _ ← l.run env

/-- A lookup in it has filled the table. -/
def Looked (h : List Lookup) : Prop := h.any (·.fills) = true

instance (h : List Lookup) : Decidable (Looked h) := inferInstanceAs (Decidable (_ = _))

/-- After these lookups, `w` binds every device of the system while slots remain. -/
def BindsAll (env : SetupEnv) (h : List Lookup) (st : Setup) (s : Nat) (sv : NetService) (w : CStr) : Prop :=
  ∃ r st', (history env h >>= fun _ => serviceLinkAdd env s w) st = .ok (r, st') ∧
    st'.services = st.services.set s (sv.bindDevices (env.sysDevices.map (·.name)))

/-- The services of a configuration are evaluated after these lookups. -/
def evalServicesAfter (env : SetupEnv) (h : List Lookup) (f : Forest) : EvalM Unit := do
  liftSetup (history env h)
  iEvalServices env (f.entries 0)

/-- Exchanging whole blocks of different services gives each service the same bindings. -/
def BlockOrderFree (env : SetupEnv) (h : List Lookup) (st : Setup) : Prop :=
  ∀ f g : Forest, SameBlocks st.services (f.entries 0) (g.entries 0) →
    ∀ t, evalServicesAfter env h f (.start st) = .ok () t →
      ∃ t', evalServicesAfter env h g (.start st) = .ok () t' ∧ t'.setup.services = t.setup.services

section
variable {env : SetupEnv} {h : List Lookup} {st st' : Setup} {s : Nat} {sv : NetService} {w : CStr} {f : Forest}

/-! ## The table after some lookups -/

theorem lookup_run (env : SetupEnv) (l : Lookup) (st : Setup) : ∃ d, l.run env st =
    .ok (d, { st with devices := if l.fills then deviceTable env st else st.devices }) := by
  cases l with
  | list => exact ⟨_, rfl⟩
  | byName name => exact ⟨_, deviceSearchByName_run env name st⟩
  | byEth eth => exact ⟨_, deviceSearchByEth_run env eth st⟩

/-- The table when these lookups are made at the start. -/
theorem history_run (h : List Lookup) (h0 : st.devices = [] ∨ st.devices = env.sysDevices) : history env h st =
    .ok ((), { st with devices := if Looked h then env.sysDevices else st.devices }) := by
  induction h generalizing st with
  | nil => rfl
  | cons l h ih =>
    have htable : deviceTable env st = env.sysDevices := by
      unfold deviceTable
      split_ifs with hnil
      · rfl
      · exact h0.resolve_left hnil
    obtain ⟨d, hl⟩ := lookup_run env l st
    rw [htable] at hl
    show ((l.run env >>= fun _ => (pure () : SetupM Unit)) >>= fun _ => history env h) st = _
    rw [Stops.bind_run, Stops.bind_run, hl]
    show history env h { st with devices := if l.fills then env.sysDevices else st.devices } = _
    cases hf : l.fills with
    | false =>
      have hlook : Looked (l :: h) ↔ Looked h := by simp [Looked, hf]
      simp only [Bool.false_eq_true, if_false, hlook]
      exact ih h0
    | true =>
      have hlook : Looked (l :: h) := by simp [Looked, hf]
      simp only [if_true, if_pos hlook]
      refine (ih (.inr rfl)).trans ?_
      simp only [ite_self]

/-- **When all devices are bound**, from the start on. -/
theorem bindsAll_iff (h0 : st.devices = []) (hsv : st.services[s]? = some sv) (hw : AllDevices w) :
    BindsAll env h st s sv w ↔
      Looked h ∨ env.sysDevices = [] ∨ serviceBindMax ≤ sv.device.length := by
  have hlt := (List.getElem?_eq_some_iff.mp hsv).1
  have hst : ({ st with devices := if Looked h then env.sysDevices else st.devices } : Setup).services[s]? =
      some sv := hsv
  unfold BindsAll
  rw [Stops.bind_run, history_run h (.inl h0)]
  show (∃ r st', serviceLinkAdd env s w _ = _ ∧ _) ↔ _
  rw [serviceLinkAdd_all hw hst]
  by_cases hlook : Looked h
  · rw [if_pos hlook]
    exact iff_of_true ⟨_, _, rfl, rfl⟩ (.inl hlook)
  · rw [if_neg hlook, h0, List.map_nil, bindDevices_nil, or_iff_right hlook]
    constructor
    · rintro ⟨r, st', hrun, hsame⟩
      cases hrun
      have hlen := congrArg (fun svs => (svs[s]?).map (·.device.length)) hsame
      simp only [List.getElem?_set_self hlt, Option.map_some, bindDevices_length, List.length_map,
        Option.some.injEq] at hlen
      by_cases hfull : serviceBindMax ≤ sv.device.length
      · exact .inr hfull
      · exact .inl (List.eq_nil_of_length_eq_zero (by omega))
    · intro hnone
      refine ⟨_, _, rfl, ?_⟩
      rcases hnone with hnil | hfull
      · rw [hnil, List.map_nil, bindDevices_nil]
      · rw [bindDevices_full hfull]

/-! ## Whole blocks -/

theorem evalServicesAfter_means (env : SetupEnv) (h : List Lookup) (f : Forest) (h0 : st.devices = []) :
    ((Meaning.each (f.entries 0) kwService (Meaning.service env) ())
      { st with devices := if Looked h then env.sysDevices else st.devices }).mapError Refusal.verdict =
      ending (evalServicesAfter env h f (.start st)) := by
  have hlift : liftSetup (history env h) (.start st) = .ok ()
      (.start { st with devices := if Looked h then env.sysDevices else st.devices }) := by
    unfold liftSetup
    rw [Exec.get_run]
    have hrun : history env h (EvalState.start st).setup = _ := history_run h (.inl h0)
    rw [hrun]
    rfl
  unfold evalServicesAfter
  rw [Exec.bind_run hlift]
  exact iEvalServices_means (entries_distinct 0 f) fun e _ _ => start_fresh _ e

/-- With a known table every order of the blocks will do. -/
theorem blockOrderFree_of_known (h0 : st.devices = []) (hk : Looked h ∨ env.sysDevices = []) :
    BlockOrderFree env h st := by
  intro f g hsame t ht
  have hmeans := (ending_ok (evalServicesAfter_means env h f h0)).mpr ⟨t, ht, rfl⟩
  have hknown : ({ st with devices := if Looked h then env.sysDevices else st.devices } : Setup).devices =
      env.sysDevices := by
    show (if Looked h then env.sysDevices else st.devices) = _
    split_ifs with hlook
    · rfl
    · rw [h0, hk.resolve_left hlook]
  have hother := services_reorder_blocks hknown hsame hmeans
  obtain ⟨t', ht', hset⟩ := (ending_ok (evalServicesAfter_means env h g h0)).mp hother
  exact ⟨t', ht', by rw [hset]⟩

/-! ## Two blocks -/

/-- `service n { device w; } service n' { device w'; }` -/
def twoBlocks (n w n' w' : CStr) : Forest :=
  .block (cstr "service") [n] (.leaf (cstr "device") [w] .nil)
    (.block (cstr "service") [n'] (.leaf (cstr "device") [w'] .nil) .nil)

/-- A word that is bound, or whose message can be printed. -/
def WordPasses (st : Setup) (w : CStr) (r : Bool) : Prop := r = true ∨ Message.Printable ⟨st.filename, w⟩

theorem bindWord_run {add : CStr → SetupM Bool} {r : Bool} (hadd : add w st = .ok (r, st'))
    (hpass : WordPasses st' w r) : Meaning.bindWord add w st = .ok ((), st') := by
  have hcall : Meaning.call (add w) st = .ok (r, st') := by rw [Meaning.call, hadd]
  unfold Meaning.bindWord
  rw [Stops.bind_run, hcall]
  cases r with
  | true => rfl
  | false =>
    have hprint : Message.Printable ⟨st'.filename, w⟩ := hpass.resolve_left Bool.false_ne_true
    show (if Message.Printable ⟨st'.filename, w⟩ then pure () else Meaning.report w : MeaningM Unit) st' = _
    rw [if_pos hprint]
    rfl

theorem deviceBlock_run {id : Nat} {n : CStr} {r : Bool} (i j : EntId)
    (hid : strGetService st.services n 0 = some id) (hs : serviceSearchById st.services id = some s)
    (hlink : id &&& listenLink ≠ 0) (hadd : serviceLinkAdd env s w st = .ok (r, st'))
    (hpass : WordPasses st' w r) :
    Meaning.service env ⟨i, kwService.1, [n], [⟨j, kwDevice.1, [w], []⟩]⟩ () st = .ok ((), st') := by
  refine service_ok.mpr ⟨rfl, id, s, hid, hs, ?_⟩
  have hnamed : named kwDevice [⟨j, kwDevice.1, [w], []⟩] = [⟨j, kwDevice.1, [w], []⟩] := rfl
  have hword : Meaning.addBindings (serviceLinkAdd env s) ⟨j, kwDevice.1, [w], []⟩ () st = .ok ((), st') := by
    show (Meaning.bindWord (serviceLinkAdd env s) w >>= fun _ => pure ()) st = _
    rw [Stops.bind_run, bindWord_run hadd hpass]
    rfl
  unfold Meaning.bindings Meaning.each
  rw [if_pos hlink, hnamed, List.foldlM_cons, Stops.bind_run, hword]
  rfl

/-- The place and the id of the two services. -/
structure LinkService (svs : List NetService) (n : CStr) (s id : Nat) : Prop where
  number : strGetService svs n 0 = some id
  place : serviceSearchById svs id = some s
  link : id &&& listenLink ≠ 0

theorem twoBlocks_run {n n' w' : CStr} {s' id id' : Nat} {r r' : Bool} {st'' : Setup}
    (hn : LinkService st.services n s id) (hn' : LinkService st.services n' s' id')
    (h₁ : serviceLinkAdd env s w st = .ok (r, st')) (hw : WordPasses st' w r)
    (h₂ : serviceLinkAdd env s' w' st' = .ok (r', st'')) (hw' : WordPasses st'' w' r') :
    Meaning.each ((twoBlocks n w n' w').entries 0) kwService (Meaning.service env) () st = .ok ((), st'') := by
  have hkeys := (Binding.linkAdd env s w _ _ _ h₁).keys
  have hid' := (strGetService_congr hkeys n' 0).trans hn'.number
  have hplace' := (serviceSearchById_congr hkeys id').trans hn'.place
  show (Meaning.service env ⟨0, kwService.1, [n], [⟨1, kwDevice.1, [w], []⟩]⟩ () st >>= _) = _
  rw [deviceBlock_run 0 1 hn.number hn.place hn.link h₁ hw]
  show (Meaning.service env ⟨2, kwService.1, [n'], [⟨3, kwDevice.1, [w'], []⟩]⟩ () st' >>= _) = _
  rw [deviceBlock_run 2 3 hid' hplace' hn'.link h₂ hw']
  rfl

/-- A name fills the table and changes its own service at most. -/
theorem serviceLinkAdd_fills (env : SetupEnv) (hw : ¬AllDevices w) (hsv : st.services[s]? = some sv) :
    ∃ r sv', serviceLinkAdd env s w st =
      .ok (r, { st with devices := deviceTable env st, services := st.services.set s sv' }) := by
  rw [serviceLinkAdd_named hw]
  have hst : ({ st with devices := deviceTable env st } : Setup).services[s]? = some sv := hsv
  cases (deviceTable env st).find? (·.name == w) with
  | some d => exact ⟨_, _, lServiceLinkDeviceAdd_run hst⟩
  | none => exact ⟨false, sv, by rw [set_eq_self hsv]⟩

end

theorem linkService_rarp : LinkService plainSetup.services (cstr "rarp") 0 serviceRarp := ⟨rfl, rfl, by decide⟩

theorem linkService_rmp : LinkService plainSetup.services (cstr "rmp") 3 serviceRmp := ⟨rfl, rfl, by decide⟩

theorem sameBlocks_swapped (w w' : CStr) : SameBlocks plainSetup.services
    ((twoBlocks (cstr "rarp") w (cstr "rmp") w').entries 0)
    ((twoBlocks (cstr "rmp") w' (cstr "rarp") w).entries 0) := by
  intro k
  have halike : ∀ (i j i' j' : EntId) (n w : CStr), Alike ⟨i, kwService.1, [n], [⟨j, kwDevice.1, [w], []⟩]⟩
      ⟨i', kwService.1, [n], [⟨j', kwDevice.1, [w], []⟩]⟩ := fun i j i' j' n w =>
    ⟨rfl, rfl, Reorder.cons (g := []) rfl rfl .nil (by simp) .nil⟩
  have hrarp : ∀ (i : EntId) (sub : List ConfEntry),
      blockService plainSetup.services ⟨i, kwService.1, [cstr "rarp"], sub⟩ = some 0 := fun _ _ => rfl
  have hrmp : ∀ (i : EntId) (sub : List ConfEntry),
      blockService plainSetup.services ⟨i, kwService.1, [cstr "rmp"], sub⟩ = some 3 := fun _ _ => rfl
  have hnamed : ∀ n w n' w' : CStr, named kwService ((twoBlocks n w n' w').entries 0) =
      [⟨0, kwService.1, [n], [⟨1, kwDevice.1, [w], []⟩]⟩, ⟨2, kwService.1, [n'], [⟨3, kwDevice.1, [w'], []⟩]⟩] :=
    fun _ _ _ _ => rfl
  simp only [hnamed, List.filter_cons, List.filter_nil, hrarp, hrmp, decide_eq_true_eq]
  by_cases h0 : some 0 = k
  · have h3 : ¬some 3 = k := by rw [← h0]; decide
    simp only [if_pos h0, if_neg h3]
    exact .cons (halike _ _ _ _ _ _) .nil
  · by_cases h3 : some 3 = k
    · simp only [if_neg h0, if_pos h3]
      exact .cons (halike _ _ _ _ _ _) .nil
    · simp only [if_neg h0, if_neg h3]
      exact .nil

/-- Without a known table `service rarp { device *; }` binds nothing as the first block,
and all devices behind another one. -/
theorem block_order_matters {env : SetupEnv} {h : List Lookup} (hlook : ¬Looked h) (hsys : env.sysDevices ≠ []) :
    ¬BlockOrderFree env h plainSetup := by
  intro hfree
  have hword : ¬AllDevices (cstr "eth0") := by decide
  have hsv : plainSetup.services[3]? = some (serviceNew (cstr "rmp") serviceRmp) := rfl
  obtain ⟨r, sv', hrmp⟩ := serviceLinkAdd_fills env hword hsv
  have hsv' : ({ plainSetup with devices := env.sysDevices, services := plainSetup.services.set 3 sv' } :
      Setup).services[0]? = some (serviceNew (cstr "rarp") serviceRarp) := rfl
  have hrarp : serviceLinkAdd env 0 (cstr "*") plainSetup = .ok (true, plainSetup) := rfl
  have hfile : Log.formatSafe plainSetup.filename = true := by decide
  have hprint : ∀ (w : CStr) (r : Bool) (st : Setup), st.filename = plainSetup.filename →
      Log.formatSafe w = true → WordPasses st w r := fun w r st hname hw =>
    .inr ⟨(congrArg Log.formatSafe hname).trans hfile, hw⟩
  have heth0 := fun r st hname => hprint (cstr "eth0") r st hname (by decide)
  have hstar := fun r st hname => hprint (cstr "*") r st hname (by decide)
  have hf := twoBlocks_run linkService_rarp linkService_rmp hrarp (hstar _ _ rfl) hrmp (heth0 _ _ rfl)
  have hg := twoBlocks_run linkService_rmp linkService_rarp hrmp (heth0 _ _ rfl)
    (serviceLinkAdd_all (w := cstr "*") (.inl rfl) hsv') (hstar _ _ rfl)
  have hempty : plainSetup.devices = [] := rfl
  have hmeans := fun f => evalServicesAfter_means env h f hempty
  simp only [if_neg hlook] at hmeans
  obtain ⟨t, ht, hset⟩ := (ending_ok (hmeans _)).mp hf
  obtain ⟨t', ht', hsame⟩ := hfree _ _ (sameBlocks_swapped (cstr "*") (cstr "eth0")) t ht
  obtain ⟨t'', ht'', hset'⟩ := (ending_ok (hmeans _)).mp hg
  rw [ht'] at ht''
  cases ht''
  -- the service rarp in both
  rw [hset, hset'] at hsame
  have hlen := congrArg (fun svs => (svs[0]?).map (·.device.length)) hsame
  have hrarp_f : ((plainSetup.services.set 3 sv')[0]?).map (·.device.length) = some 0 := rfl
  simp only [hrarp_f, List.getElem?_set_self (List.getElem?_eq_some_iff.mp hsv').1, Option.map_some,
    bindDevices_length, List.length_map, Option.some.injEq] at hlen
  have hdev : (serviceNew (cstr "rarp") serviceRarp).device.length = 0 := rfl
  have hpos : 0 < (deviceTable env plainSetup).length := List.length_pos_iff.mpr hsys
  rw [hdev, serviceBindMax] at hlen
  omega

/-- **When `device all` does not depend on what was evaluated before.** After some
lookups it binds all devices if one of them filled the table, and exchanging whole
blocks is harmless then; otherwise only without devices, or without free slots. -/
theorem device_all_iff (env : SetupEnv) (h h' : List Lookup) :
    (∀ (st : Setup) (s : Nat) (sv : NetService) (w : CStr), st.devices = [] → st.services[s]? = some sv →
      AllDevices w → (BindsAll env h st s sv w ∧ BindsAll env h' st s sv w ↔
        Looked h ∧ Looked h' ∨ env.sysDevices = [] ∨ serviceBindMax ≤ sv.device.length)) ∧
    ((∀ st : Setup, st.devices = [] → BlockOrderFree env h st) ↔ Looked h ∨ env.sysDevices = []) := by
  refine ⟨fun st s sv w h0 hsv hw => ?_, fun hfree => ?_, fun hk st h0 => blockOrderFree_of_known h0 hk⟩
  · rw [bindsAll_iff h0 hsv hw, bindsAll_iff h0 hsv hw]
    tauto
  · by_contra hno
    obtain ⟨hlook, hsys⟩ := not_or.mp hno
    exact block_order_matters hlook hsys (hfree plainSetup rfl)

/-- Behind a lookup of `eth0`, `all` binds it. -/
theorem device_all_eth0 : BindsAll plainEnv [.byName (cstr "eth0")] plainSetup 0
    (serviceNew (cstr "rarp") serviceRarp) (cstr "all") :=
  (((device_all_iff plainEnv [.byName (cstr "eth0")] [.byName (cstr "eth0")]).1 plainSetup 0 _ (cstr "all") rfl rfl
    (.inr rfl)).mpr (.inl ⟨by decide, by decide⟩)).1

/-- **Counterexample**: `all` binds `eth0` behind a lookup, and nothing without one. -/
theorem all_binds_nothing : ¬∀ (env : SetupEnv) (h h' : List Lookup) (st : Setup) (s : Nat) (sv : NetService)
    (w : CStr), st.devices = [] → st.services[s]? = some sv → AllDevices w →
    BindsAll env h st s sv w ∧ BindsAll env h' st s sv w := by
  intro hall
  have hempty : plainSetup.devices = [] := rfl
  have hsv : plainSetup.services[0]? = some (serviceNew (cstr "rarp") serviceRarp) := rfl
  have hword : AllDevices (cstr "all") := .inr rfl
  have hbinds := (hall plainEnv [] [.byName (cstr "eth0")] plainSetup 0 _ (cstr "all") hempty hsv hword).1
  rcases (bindsAll_iff hempty hsv hword).mp hbinds with hlook | hnil | hfull
  · exact absurd hlook (by decide)
  · exact List.cons_ne_nil _ _ hnil
  · exact absurd hfull (by decide)

end Bootd
