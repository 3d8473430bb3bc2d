import Bootd.Config.Services

/-!
# Binding devices (`service.c:131-168`, `device.c:132-163`)

What `service_link_add` does, as equations. `deviceTable` are the devices that a
lookup by name or address goes through: it fills the table first if that is empty.

* `serviceLinkAdd_named`: a word is looked for among the names only.
* `serviceLinkAdd_all`: `*` and `all` bind what the table holds already.
-/
namespace Bootd

/-- The words that stand for all devices. -/
def AllDevices (w : CStr) : Prop := w = cstr "*" ∨ w = cstr "all"

instance (w : CStr) : Decidable (AllDevices w) := inferInstanceAs (Decidable (_ ∨ _))

/-- The table once a device has been looked for. -/
def deviceTable (env : SetupEnv) (st : Setup) : List Device :=
  if st.devices = [] then env.sysDevices else st.devices

/-- The devices of these names are bound while there are free slots. -/
def NetService.bindDevices (sv : NetService) (names : List CStr) : NetService :=
  { sv with device := sv.device ++ names.take (serviceBindMax - sv.device.length) }

section
variable {env : SetupEnv} {st : Setup} {s : Nat} {sv : NetService} {w : CStr} {d : Device}

@[simp] theorem bindDevices_nil (sv : NetService) : sv.bindDevices [] = sv := by
  simp [NetService.bindDevices]

theorem bindDevices_full {names : List CStr} (h : serviceBindMax ≤ sv.device.length) :
    sv.bindDevices names = sv := by
  unfold NetService.bindDevices
  rw [Nat.sub_eq_zero_of_le h, List.take_zero, List.append_nil]

theorem bindDevices_free (hfree : sv.device.length < serviceBindMax) (n : CStr) :
    sv.bindDevices [n] = { sv with device := sv.device ++ [n] } := by
  have htake : [n].take (serviceBindMax - sv.device.length) = [n] :=
    List.take_of_length_le (by rw [List.length_singleton]; omega)
  rw [NetService.bindDevices, htake]

@[simp] theorem bindDevices_length (sv : NetService) (names : List CStr) :
    (sv.bindDevices names).device.length =
      sv.device.length + min (serviceBindMax - sv.device.length) names.length := by
  simp [NetService.bindDevices]

/-- Binding some devices and then others. -/
theorem bindDevices_append (sv : NetService) (names names' : List CStr) :
    (sv.bindDevices names).bindDevices names' = sv.bindDevices (names ++ names') := by
  have hroom : serviceBindMax - (sv.bindDevices names).device.length =
      serviceBindMax - sv.device.length - names.length := by
    rw [bindDevices_length]
    omega
  unfold NetService.bindDevices at hroom ⊢
  simp only [hroom, List.take_append, List.append_assoc]

/-! ## Lookups -/

theorem deviceInit_run (env : SetupEnv) (st : Setup) :
    deviceInit env st = .ok (deviceTable env st, { st with devices := deviceTable env st }) := by
  unfold deviceTable
  show (if st.devices = [] then _ else _ : SetupM (List Device)) st = _
  split <;> rfl

theorem deviceSearchByName_run (env : SetupEnv) (name : CStr) (st : Setup) : deviceSearchByName env name st =
    .ok ((deviceTable env st).find? (·.name == name), { st with devices := deviceTable env st }) := by
  unfold deviceSearchByName
  show (deviceInit env st >>= _) = _
  rw [deviceInit_run]
  rfl

theorem deviceSearchByEth_run (env : SetupEnv) (eth : Ether) (st : Setup) : deviceSearchByEth env eth st =
    .ok ((deviceTable env st).find? (·.eth == eth), { st with devices := deviceTable env st }) := by
  unfold deviceSearchByEth
  show (deviceInit env st >>= _) = _
  rw [deviceInit_run]
  rfl

/-! ## Slots -/

theorem set_eq_self {svs : List NetService} (h : svs[s]? = some sv) : svs.set s sv = svs := by
  obtain ⟨hlt, rfl⟩ := List.getElem?_eq_some_iff.mp h
  exact List.set_getElem_self hlt

theorem bindSlot_run {slots : NetService → Nat} {f : NetService → NetService} (hsv : st.services[s]? = some sv) :
    bindSlot s slots f st = .ok (decide (slots sv < serviceBindMax),
      { st with services := if slots sv < serviceBindMax then st.services.set s (f sv) else st.services }) := by
  unfold bindSlot
  simp only [bind, StateT.bind, Except.bind, get, getThe, MonadStateOf.get, StateT.get, pure, Except.pure, hsv]
  by_cases hfree : slots sv < serviceBindMax
  · rw [if_pos hfree, if_pos hfree, decide_eq_true hfree]
    rfl
  · rw [if_neg hfree, if_neg hfree, decide_eq_false hfree]
    rfl

theorem lServiceLinkDeviceAdd_run (hsv : st.services[s]? = some sv) : lServiceLinkDeviceAdd s d st =
    .ok (decide (sv.device.length < serviceBindMax),
      { st with services := st.services.set s (sv.bindDevices [d.name]) }) := by
  unfold lServiceLinkDeviceAdd
  rw [bindSlot_run hsv]
  by_cases hfree : sv.device.length < serviceBindMax
  · rw [if_pos hfree, bindDevices_free hfree]
  · rw [if_neg hfree, bindDevices_full (by omega), set_eq_self hsv]

/-- All devices of a list, one after the other. -/
theorem linkDevices_run (ds : List Device) (b : Bool) (hsv : st.services[s]? = some sv) :
    ds.foldlM (fun result d => return (← lServiceLinkDeviceAdd s d) && result : Bool → Device → SetupM Bool) b st =
      .ok (b && decide (ds.length ≤ serviceBindMax - sv.device.length),
        { st with services := st.services.set s (sv.bindDevices (ds.map (·.name))) }) := by
  induction ds generalizing b sv st with
  | nil =>
    rw [List.map_nil, bindDevices_nil, set_eq_self hsv]
    simp only [List.length_nil, Nat.zero_le, decide_true, Bool.and_true]
    rfl
  | cons d ds ih =>
    have hlt := (List.getElem?_eq_some_iff.mp hsv).1
    have hset : ({ st with services := st.services.set s (sv.bindDevices [d.name]) } : Setup).services[s]? =
        some (sv.bindDevices [d.name]) := List.getElem?_set_self hlt
    rw [List.foldlM_cons]
    show (lServiceLinkDeviceAdd s d st >>= _) >>= _ = _
    rw [lServiceLinkDeviceAdd_run hsv]
    refine Eq.trans (ih (decide (sv.device.length < serviceBindMax) && b) hset) ?_
    -- there is room for all of them if there is room for the first and then for the others
    have hroom : (decide (sv.device.length < serviceBindMax) && b &&
        decide (ds.length ≤ serviceBindMax - (sv.bindDevices [d.name]).device.length)) =
        (b && decide ((d :: ds).length ≤ serviceBindMax - sv.device.length)) := by
      rw [bindDevices_length, List.length_singleton, List.length_cons, Bool.and_comm _ b, Bool.and_assoc,
        ← Bool.decide_and]
      congr 2
      rw [eq_iff_iff]
      omega
    rw [List.set_set, bindDevices_append, hroom]
    rfl

/-! ## `service_link_add` -/

/-- The branch for addresses ends where `util_name2ether` knows the word, and it knows
every address. -/
theorem serviceLinkAdd_named (hw : ¬AllDevices w) : serviceLinkAdd env s w st =
    match (deviceTable env st).find? (·.name == w) with
    | some d => lServiceLinkDeviceAdd s d { st with devices := deviceTable env st }
    | none => .ok (false, { st with devices := deviceTable env st }) := by
  have hno : ¬(w = cstr "*" ∨ w = cstr "all") := hw
  unfold serviceLinkAdd
  rw [if_neg hno]
  show (deviceSearchByName env w st >>= _) = _
  rw [deviceSearchByName_run]
  cases hfind : (deviceTable env st).find? (·.name == w) with
  | some d => rfl
  | none =>
    cases heth : env.lib.etherAton w with
    | none => rfl
    | some eth =>
      have hconv : utilName2ether (({ st with devices := deviceTable env st } : Setup).conf env) env.os st.w w =
          .ok (some eth) := by
        unfold utilName2ether
        simp only [Setup.conf, heth]
      simp only [bind, StateT.bind, Except.bind, get, getThe, MonadStateOf.get, StateT.get, pure, Except.pure]
      rw [hconv]
      rfl

theorem serviceLinkAdd_all (hw : AllDevices w) (hsv : st.services[s]? = some sv) : serviceLinkAdd env s w st =
    .ok (decide (st.devices.length ≤ serviceBindMax - sv.device.length),
      { st with services := st.services.set s (sv.bindDevices (st.devices.map (·.name))) }) := by
  have hall : w = cstr "*" ∨ w = cstr "all" := hw
  unfold serviceLinkAdd
  rw [if_pos hall]
  exact linkDevices_run st.devices true hsv

end

end Bootd
