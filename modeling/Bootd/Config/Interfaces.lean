import Bootd.Config.BindSpec
import Bootd.Config.Eval
import Bootd.Core.Gather

/-!
# The devices of the machine (`device.c:24-128`, `service.c:231-244`)

`getifaddrs` lists an entry for each address, with the device it is an address of.
`device_init` makes a device of the entries with one name, but only if one of them is up
and no loopback, and of that one and those behind it only. The sixteen address slots
keep the first addresses and the Ethernet address is the last one.

* `devices_found`: the table for any list of entries, and which entries without an
  address make `device_init` crash.
* `interface_binds`: a device name in a bind specification binds the addresses of the
  entries that count, in their order, while there are free slots.
-/
namespace Bootd

/-- What `ifa_addr` points to: an address of IPv4, the six bytes behind the name in
`sdl_data`, or another family. -/
inductive IfaSockaddr
  | inet (ip : Ip)
  | link (eth : Ether)
  | other

/-- An entry of `getifaddrs`. -/
structure IfAddr where
  ifaName : CStr
  ifaFlags : Nat
  ifaAddr : Option IfaSockaddr

def iffUp : Nat := 0x1
def iffLoopback : Nat := 0x8

def deviceIpAddrsMax : Nat := 16

/-- mirrors src/device.c:14 -/
def isLoopbackIfa (ifa : IfAddr) : Bool := ifa.ifaFlags &&& iffLoopback != 0

def IfAddr.isUp (ifa : IfAddr) : Bool := ifa.ifaFlags &&& iffUp != 0

/-! ## `device_init` -/

/-- mirrors src/device.c:101-108, with the name -/
def deviceNew (name : CStr) : Device := ⟨name, .zero, .replicate deviceIpAddrsMax 0⟩

/-- mirrors src/device.c:110-130 -/
def deviceAdd (ds : List Device) (d : Device) : List Device :=
  if ds.any (·.name == d.name) then ds else ds ++ [d]

/-- The first free slot, if there is one. mirrors src/device.c:56-61 -/
def ipSlotAdd (slots : List Ip) (ip : Ip) : List Ip := slots.set (slots.findIdx fun slot => !utilIpValid slot) ip

/-- mirrors src/device.c:52-71 -/
def Device.takeAddr (d : Device) : IfaSockaddr → Device
  | .inet ip => if utilIpValid ip then { d with ip := ipSlotAdd d.ip ip } else d
  | .link eth => { d with eth := eth }
  | .other => d

theorem takeAddr_name (d : Device) (addr : IfaSockaddr) : (d.takeAddr addr).name = d.name := by
  cases addr with
  | inet ip =>
    show (if utilIpValid ip then { d with ip := ipSlotAdd d.ip ip } else d : Device).name = _
    split_ifs <;> rfl
  | link eth => rfl
  | other => rfl

/-- The address goes to the device of that name. -/
def deviceTakeAddr (ds : List Device) (ifa : IfAddr) : Except Fault (List Device) :=
  match ifa.ifaAddr with
  | none => .error .segv
  | some addr => .ok (ds.modify (ds.findIdx (·.name == ifa.ifaName)) (·.takeAddr addr))

/-- mirrors src/device.c:38-72 -/
def deviceInitStep (ds : List Device) (ifa : IfAddr) : Except Fault (List Device) :=
  if ds.any (·.name == ifa.ifaName) then deviceTakeAddr ds ifa
  else if isLoopbackIfa ifa then .ok ds
  else if !ifa.isUp then .ok ds
  else deviceTakeAddr (deviceAdd ds (deviceNew ifa.ifaName)) ifa

/-- The devices `device_init` leaves, `none` when `getifaddrs` fails. mirrors src/device.c:24-73 -/
def deviceInitIfaddrs : Option (List IfAddr) → Except Fault (List Device)
  | none => .error .exit
  | some ifas => ifas.foldlM deviceInitStep []

/-! ## What the table should be -/

/-- The names of the devices, in the order of their first usable entries. -/
def deviceNames (ifas : List IfAddr) : List CStr :=
  ((ifas.filter fun ifa => !isLoopbackIfa ifa && ifa.isUp).map (·.ifaName)).eraseDups

/-- The entries of a name, from the first usable one on. -/
def entriesOf (name : CStr) (ifas : List IfAddr) : List IfAddr :=
  (ifas.dropWhile fun ifa => !((!isLoopbackIfa ifa && ifa.isUp) && ifa.ifaName == name)).filter (·.ifaName == name)

def IfAddr.ip (ifa : IfAddr) : Option Ip :=
  match ifa.ifaAddr with
  | some (.inet ip) => if utilIpValid ip then some ip else none
  | _ => none

def IfAddr.eth (ifa : IfAddr) : Option Ether :=
  match ifa.ifaAddr with
  | some (.link eth) => some eth
  | _ => none

/-- The addresses a device has room for. -/
def deviceIps (ifas : List IfAddr) : List Ip := (ifas.filterMap IfAddr.ip).take deviceIpAddrsMax

/-- The device its entries make. -/
def deviceOf (name : CStr) (ifas : List IfAddr) : Device where
  name := name
  eth := (ifas.filterMap IfAddr.eth).getLast?.getD .zero
  ip := deviceIps ifas ++ .replicate (deviceIpAddrsMax - (deviceIps ifas).length) 0

/-- A device as a row that takes the entries with its name. -/
def deviceRows : Core.Gather.Table CStr IfAddr Device where
  key := (·.ifaName)
  opens ifa := !isLoopbackIfa ifa && ifa.isUp
  rowKey := (·.name)
  fresh := deviceNew
  put d ifa := match ifa.ifaAddr with
    | none => d
    | some addr => d.takeAddr addr
  rowKey_fresh _ := rfl
  rowKey_put d ifa := by
    cases ifa.ifaAddr with
    | none => rfl
    | some addr => exact takeAddr_name d addr

section
variable {ifas es : List IfAddr} {ifa : IfAddr} {ips : List Ip} {ip : Ip} {name : CStr}

/-! ## Slots -/

theorem free_slot (hips : ∀ x ∈ ips, utilIpValid x = true) (n : Nat) :
    (ips ++ List.replicate n 0).findIdx (fun slot => !utilIpValid slot) = ips.length := by
  have hfilled : ips.findIdx (fun slot => !utilIpValid slot) = ips.length :=
    List.findIdx_eq_length.mpr fun x hx => by rw [hips x hx]; rfl
  have hzero : (List.replicate n (0 : Ip)).findIdx (fun slot => !utilIpValid slot) = 0 := by
    cases n <;> rfl
  rw [List.findIdx_append, hfilled, if_neg (Nat.lt_irrefl _), hzero, Nat.zero_add]

/-- An address goes behind the others while there is a slot. -/
theorem ipSlotAdd_slots (hips : ∀ x ∈ ips, utilIpValid x = true) (hlen : ips.length ≤ deviceIpAddrsMax) :
    ipSlotAdd (ips ++ .replicate (deviceIpAddrsMax - ips.length) 0) ip =
      (ips ++ [ip]).take deviceIpAddrsMax ++
        .replicate (deviceIpAddrsMax - ((ips ++ [ip]).take deviceIpAddrsMax).length) 0 := by
  rw [ipSlotAdd, free_slot hips, List.set_append_right _ _ (Nat.le_refl _), Nat.sub_self]
  cases hn : deviceIpAddrsMax - ips.length with
  | zero =>
    have hfull : ips.length = deviceIpAddrsMax := by omega
    rw [← hfull, List.take_left]
    simp
  | succ n =>
    have hroom : (ips ++ [ip]).length ≤ deviceIpAddrsMax := by
      rw [List.length_append, List.length_singleton]
      omega
    have hrest : deviceIpAddrsMax - (ips ++ [ip]).length = n := by
      rw [List.length_append, List.length_singleton]
      omega
    rw [List.take_of_length_le hroom, hrest, List.append_assoc]
    rfl

theorem deviceIps_valid (h : ip ∈ deviceIps es) : utilIpValid ip = true := by
  obtain ⟨ifa, -, hip⟩ := List.mem_filterMap.mp (List.mem_of_mem_take h)
  unfold IfAddr.ip at hip
  split at hip
  · split_ifs at hip with hv
    cases hip
    exact hv
  · cases hip

theorem deviceIps_length (es : List IfAddr) : (deviceIps es).length ≤ deviceIpAddrsMax :=
  List.length_take_le _ _

theorem deviceIps_append (h : ifa.ip = some ip) :
    deviceIps (es ++ [ifa]) = (deviceIps es ++ [ip]).take deviceIpAddrsMax := by
  have hone : [ifa].filterMap IfAddr.ip = [ip] := by simp [h]
  rw [deviceIps, List.filterMap_append, hone, deviceIps, List.take_append, List.take_append, List.take_take,
    Nat.min_self, List.length_take]
  congr 2
  omega

/-! ## The table -/

/-- The entries put into the row of a name make its device. -/
theorem fold_deviceOf (name : CStr) (es : List IfAddr) :
    es.foldl deviceRows.put (deviceNew name) = deviceOf name es := by
  induction es using List.reverseRecOn with
  | nil => rfl
  | append_singleton es ifa ih =>
    have hput : deviceRows.put (deviceOf name es) ifa = deviceOf name (es ++ [ifa]) := by
      rw [deviceOf, deviceOf, List.filterMap_append]
      cases haddr : ifa.ifaAddr with
      | none =>
        have hip : ifa.ip = none := by rw [IfAddr.ip, haddr]
        have heth : ifa.eth = none := by rw [IfAddr.eth, haddr]
        simp [deviceRows, haddr, hip, heth, deviceIps]
      | some addr =>
        cases addr with
        | inet ip =>
          have heth : ifa.eth = none := by rw [IfAddr.eth, haddr]
          by_cases hv : utilIpValid ip = true
          · have hip : ifa.ip = some ip := by simp [IfAddr.ip, haddr, hv]
            have hslots := @ipSlotAdd_slots (deviceIps es) ip (fun _ => deviceIps_valid) (deviceIps_length es)
            simp [deviceRows, haddr, heth, Device.takeAddr, hv, hslots, deviceIps_append hip]
          · have hip : ifa.ip = none := by simp [IfAddr.ip, haddr, hv]
            simp [deviceRows, haddr, hip, heth, Device.takeAddr, hv, deviceIps]
        | link eth =>
          have hip : ifa.ip = none := by rw [IfAddr.ip, haddr]
          have heth : ifa.eth = some eth := by rw [IfAddr.eth, haddr]
          simp [deviceRows, haddr, hip, heth, Device.takeAddr, deviceIps]
        | other =>
          have hip : ifa.ip = none := by rw [IfAddr.ip, haddr]
          have heth : ifa.eth = none := by rw [IfAddr.eth, haddr]
          simp [deviceRows, haddr, hip, heth, Device.takeAddr, deviceIps]
    rw [List.foldl_append, ih]
    exact hput

theorem deviceRows_known (ds : List Device) (ifa : IfAddr) :
    deviceRows.known ds ifa = ds.any (·.name == ifa.ifaName) := rfl

theorem deviceTakeAddr_eq (ds : List Device) (ifa : IfAddr) : deviceTakeAddr ds ifa =
    if ifa.ifaAddr.isSome then .ok (deviceRows.update ds ifa) else .error .segv := by
  unfold deviceTakeAddr
  cases haddr : ifa.ifaAddr with
  | none => rfl
  | some addr => simp [Core.Gather.Table.update, deviceRows, haddr]

theorem deviceInitStep_eq (ds : List Device) (ifa : IfAddr) :
    deviceInitStep ds ifa = deviceRows.stepM (·.ifaAddr.isSome) .segv ds ifa := by
  have hopens : deviceRows.opens ifa = (!isLoopbackIfa ifa && ifa.isUp) := rfl
  unfold deviceInitStep Core.Gather.Table.stepM Core.Gather.Table.step
  rw [deviceRows_known, hopens, deviceTakeAddr_eq, deviceTakeAddr_eq]
  by_cases hk : ds.any (·.name == ifa.ifaName) = true
  · simp [hk]
  · have hadd : deviceAdd ds (deviceNew ifa.ifaName) = ds ++ [deviceRows.fresh ifa.ifaName] := if_neg hk
    have hkey : deviceRows.key ifa = ifa.ifaName := rfl
    rw [hadd, hkey]
    by_cases hl : isLoopbackIfa ifa = true <;> by_cases hu : ifa.isUp = true <;> simp [hk, hl, hu]

theorem deviceNames_nodup (ifas : List IfAddr) : (deviceNames ifas).Nodup := Core.Gather.keys_nodup deviceRows ifas

theorem deviceInit_rows (ifas : List IfAddr) :
    deviceInitIfaddrs (some ifas) = deviceRows.rowsM (·.ifaAddr.isSome) .segv ifas := by
  show ifas.foldlM deviceInitStep [] = ifas.foldlM _ []
  congr 1
  funext ds ifa
  exact deviceInitStep_eq ds ifa

theorem deviceInit_ok (h : ∀ name, ∀ ifa ∈ entriesOf name ifas, ifa.ifaAddr ≠ none) :
    deviceInitIfaddrs (some ifas) =
      .ok ((deviceNames ifas).map fun name => deviceOf name (entriesOf name ifas)) := by
  rw [deviceInit_rows, Core.Gather.rowsM_ok deviceRows fun name ifa hifa => Option.isSome_iff_ne_none.mpr
    (h name ifa hifa), Core.Gather.rows_eq]
  refine congrArg Except.ok (List.map_congr_left fun name _ => ?_)
  exact fold_deviceOf name _

theorem deviceInit_segv (h : ∃ name, ∃ ifa ∈ entriesOf name ifas, ifa.ifaAddr = none) :
    deviceInitIfaddrs (some ifas) = .error .segv := by
  obtain ⟨name, ifa, hmem, hnone⟩ := h
  rw [deviceInit_rows]
  exact Core.Gather.rowsM_error deviceRows ⟨name, ifa, hmem, by rw [hnone]; rfl⟩

/-- Every device has the addresses of its entries that count, and `device_init` crashes
if and only if one of these has no address. -/
theorem devices_found (ifas : List IfAddr) :
    ((deviceNames ifas).Nodup ∧ ∀ name, name ∈ deviceNames ifas ↔ entriesOf name ifas ≠ []) ∧
    ((∀ name, ∀ ifa ∈ entriesOf name ifas, ifa.ifaAddr ≠ none) → deviceInitIfaddrs (some ifas) =
      .ok ((deviceNames ifas).map fun name => deviceOf name (entriesOf name ifas))) ∧
    ((∃ name, ∃ ifa ∈ entriesOf name ifas, ifa.ifaAddr = none) → deviceInitIfaddrs (some ifas) = .error .segv) :=
  ⟨⟨deviceNames_nodup ifas, fun _ => Core.Gather.keys_iff_share deviceRows⟩,
    deviceInit_ok, deviceInit_segv⟩

/-! ## Binding a device -/

theorem deviceOf_filter (name : CStr) (es : List IfAddr) : (deviceOf name es).ip.filter utilIpValid = deviceIps es := by
  have hvalid : (deviceIps es).filter utilIpValid = deviceIps es :=
    List.filter_eq_self.mpr fun _ => deviceIps_valid
  have hzero : ∀ n, (List.replicate n (0 : Ip)).filter utilIpValid = [] := fun n =>
    List.filter_eq_nil_iff.mpr fun x hx => by
      rw [List.eq_of_mem_replicate hx]
      decide
  rw [deviceOf, List.filter_append, hvalid, hzero, List.append_nil]

variable {env : SetupEnv} {st : Setup} {s : Nat} {sv : NetService} {w u : CStr} {port : UInt16} {d : Device}

/-- These addresses are bound to the port while there are free slots. -/
def NetService.bindIps (sv : NetService) (port : UInt16) (ips : List Ip) : NetService :=
  { sv with bindaddr := sv.bindaddr ++ (ips.map (⟨·, port⟩)).take (serviceBindMax - sv.bindaddr.length) }

theorem bindIps_nil (sv : NetService) (port : UInt16) : sv.bindIps port [] = sv := by
  simp [NetService.bindIps]

theorem bindIps_full (h : serviceBindMax ≤ sv.bindaddr.length) (port : UInt16) (ips : List Ip) :
    sv.bindIps port ips = sv := by
  rw [NetService.bindIps, Nat.sub_eq_zero_of_le h, List.take_zero, List.append_nil]

theorem bindIps_length (sv : NetService) (port : UInt16) (ips : List Ip) :
    (sv.bindIps port ips).bindaddr.length =
      sv.bindaddr.length + min (serviceBindMax - sv.bindaddr.length) ips.length := by
  simp [NetService.bindIps]

theorem bindIps_append (sv : NetService) (port : UInt16) (ips ips' : List Ip) :
    (sv.bindIps port ips).bindIps port ips' = sv.bindIps port (ips ++ ips') := by
  have hroom : serviceBindMax - (sv.bindIps port ips).bindaddr.length =
      serviceBindMax - sv.bindaddr.length - ips.length := by
    rw [bindIps_length]
    omega
  unfold NetService.bindIps at hroom ⊢
  simp only [hroom, List.map_append, List.take_append, List.append_assoc, List.length_map]

theorem lServiceUdpIpAdd_slot (hsv : st.services[s]? = some sv) : lServiceUdpIpAdd s ip port st =
    .ok (decide (sv.bindaddr.length < serviceBindMax),
      { st with services := st.services.set s (sv.bindIps port [ip]) }) := by
  unfold lServiceUdpIpAdd
  rw [bindSlot_run hsv]
  by_cases hfree : sv.bindaddr.length < serviceBindMax
  · have htake : [(⟨ip, port⟩ : SockAddr)].take (serviceBindMax - sv.bindaddr.length) = [⟨ip, port⟩] :=
      List.take_of_length_le (by rw [List.length_singleton]; omega)
    rw [if_pos hfree, NetService.bindIps, List.map_singleton, htake]
  · rw [if_neg hfree, bindIps_full (by omega), set_eq_self hsv]

/-- The addresses of a device, one after the other. -/
theorem lServiceUdpDeviceAdd_run (hsv : st.services[s]? = some sv) : lServiceUdpDeviceAdd s d port st =
    .ok (decide ((d.ip.filter utilIpValid).length ≤ serviceBindMax - sv.bindaddr.length),
      { st with services := st.services.set s (sv.bindIps port (d.ip.filter utilIpValid)) }) := by
  have hloop : ∀ (ips : List Ip) (b : Bool) (sv : NetService) (st : Setup), st.services[s]? = some sv →
      ips.foldlM (fun result ip =>
        if utilIpValid ip then return (← lServiceUdpIpAdd s ip port) && result else pure result :
          Bool → Ip → SetupM Bool) b st =
        .ok (b && decide ((ips.filter utilIpValid).length ≤ serviceBindMax - sv.bindaddr.length),
          { st with services := st.services.set s (sv.bindIps port (ips.filter utilIpValid)) }) := by
    intro ips
    induction ips with
    | nil =>
      intro b sv st hsv
      rw [List.filter_nil, bindIps_nil, set_eq_self hsv]
      simp only [List.length_nil, Nat.zero_le, decide_true, Bool.and_true]
      rfl
    | cons ip ips ih =>
      intro b sv st hsv
      rw [List.foldlM_cons]
      by_cases hv : utilIpValid ip = true
      · have hset : ({ st with services := st.services.set s (sv.bindIps port [ip]) } : Setup).services[s]? =
            some (sv.bindIps port [ip]) := List.getElem?_set_self (List.getElem?_eq_some_iff.mp hsv).1
        rw [if_pos hv, List.filter_cons_of_pos hv]
        show (lServiceUdpIpAdd s ip port st >>= _) >>= _ = _
        rw [lServiceUdpIpAdd_slot hsv]
        refine Eq.trans (ih (decide (sv.bindaddr.length < serviceBindMax) && b) _ _ hset) ?_
        have hroom : (decide (sv.bindaddr.length < serviceBindMax) && b &&
            decide ((ips.filter utilIpValid).length ≤
              serviceBindMax - (sv.bindIps port [ip]).bindaddr.length)) =
            (b && decide ((ip :: ips.filter utilIpValid).length ≤ serviceBindMax - sv.bindaddr.length)) := by
          rw [bindIps_length, List.length_singleton, List.length_cons, Bool.and_comm _ b, Bool.and_assoc,
            ← Bool.decide_and]
          congr 2
          rw [eq_iff_iff]
          omega
        rw [List.set_set, bindIps_append, hroom]
        rfl
      · rw [if_neg hv, List.filter_cons_of_neg hv]
        exact ih b sv st hsv
  exact hloop d.ip true sv st hsv

/-- The devices of a machine on which `device_init` returns. -/
theorem deviceInit_devices {ds : List Device} (hload : deviceInitIfaddrs (some ifas) = .ok ds) :
    ds = (deviceNames ifas).map fun name => deviceOf name (entriesOf name ifas) := by
  have hok : ∀ name, ∀ ifa ∈ entriesOf name ifas, ifa.ifaAddr ≠ none := by
    intro name ifa hifa hnone
    rw [deviceInit_segv ⟨name, ifa, hifa, hnone⟩] at hload
    cases hload
  exact (Except.ok.inj ((deviceInit_ok hok).symm.trans hload)).symm

theorem deviceInit_names {ds : List Device} (hload : deviceInitIfaddrs (some ifas) = .ok ds) :
    ds.map (·.name) = deviceNames ifas := by
  rw [deviceInit_devices hload, List.map_map]
  exact List.map_id _

/-- A device is found under its name. -/
theorem find_device (ifas : List IfAddr) (hname : name ∈ deviceNames ifas) :
    ((deviceNames ifas).map fun name => deviceOf name (entriesOf name ifas)).find? (·.name == name) =
      some (deviceOf name (entriesOf name ifas)) := by
  have hfind : ((deviceNames ifas).find? (· == name)).isSome = true :=
    List.find?_isSome.mpr ⟨name, hname, beq_self_eq_true name⟩
  obtain ⟨n, hn⟩ := Option.isSome_iff_exists.mp hfind
  have hname' : n = name := by simpa using List.find?_some hn
  rw [hname'] at hn
  rw [List.find?_map]
  exact congrArg (Option.map _) hn

/-- The name of a device binds the addresses of its entries that count. -/
theorem interface_binds (hload : deviceInitIfaddrs (some ifas) = .ok env.sysDevices)
    (hst : st.devices = [] ∨ st.devices = env.sysDevices) (hsv : st.services[s]? = some sv)
    (hname : name ∈ deviceNames ifas) (hne : name ≠ [])
    (hw : strGetHostport env.lib.inetAton env.stack w = some (name, u)) (hport : bindPort env u = some port)
    (hip : env.lib.inetAton name = none) (heth : env.lib.etherAton name = none) :
    serviceUdpAdd env s w st =
      .ok (decide ((deviceIps (entriesOf name ifas)).length ≤ serviceBindMax - sv.bindaddr.length),
        { st with
          devices := env.sysDevices
          services := st.services.set s (sv.bindIps port (deviceIps (entriesOf name ifas))) }) := by
  have htable : deviceTable env st = env.sysDevices := by
    unfold deviceTable
    split_ifs with hnil
    · rfl
    · exact hst.resolve_left hnil
  have hfind : env.sysDevices.find? (·.name == name) = some (deviceOf name (entriesOf name ifas)) := by
    rw [deviceInit_devices hload]
    exact find_device ifas hname
  rw [serviceUdpAdd_bound hw hport, bindHost, if_neg hne, hip]
  dsimp only
  rw [heth]
  show (deviceSearchByName env name st >>= _) = _
  rw [deviceSearchByName_run, htable, hfind]
  show lServiceUdpDeviceAdd s (deviceOf name (entriesOf name ifas)) port { st with devices := env.sysDevices } = _
  have hsv' : ({ st with devices := env.sysDevices } : Setup).services[s]? = some sv := hsv
  rw [lServiceUdpDeviceAdd_run hsv', deviceOf_filter]

end

/-! ## A machine with one card -/

/-- `lo` and `eth0`, with an Ethernet address and two addresses of IPv4. -/
def oneCard : List IfAddr :=
  [⟨cstr "lo", 0x9, some (.inet 127)⟩, ⟨cstr "eth0", 0x1, some (.link (plainEther 9))⟩,
    ⟨cstr "eth0", 0x1, some (.inet 9)⟩, ⟨cstr "lo", 0x9, none⟩, ⟨cstr "eth0", 0x1, some (.inet 10)⟩]

def oneCardEnv : SetupEnv := { plainEnv with
  sysDevices := [deviceOf (cstr "eth0") (entriesOf (cstr "eth0") oneCard)] }

/-- `bind eth0:69` binds both addresses. -/
theorem interface_binds_card : deviceIps (entriesOf (cstr "eth0") oneCard) = [9, 10] ∧
    serviceUdpAdd oneCardEnv 4 (cstr "eth0:69") plainSetup =
      .ok (decide ((deviceIps (entriesOf (cstr "eth0") oneCard)).length ≤ serviceBindMax - 0),
        { plainSetup with
          devices := oneCardEnv.sysDevices
          services := plainSetup.services.set 4
            ((serviceNew (cstr "tftp") serviceTftp).bindIps 69 (deviceIps (entriesOf (cstr "eth0") oneCard))) }) := by
  have hload : deviceInitIfaddrs (some oneCard) = .ok oneCardEnv.sysDevices := by rfl
  have hsv : plainSetup.services[4]? = some (serviceNew (cstr "tftp") serviceTftp) := rfl
  have hw : strGetHostport oneCardEnv.lib.inetAton oneCardEnv.stack (cstr "eth0:69") =
      some (cstr "eth0", cstr "69") := by decide
  have hport : bindPort oneCardEnv (cstr "69") = some 69 := by decide
  exact ⟨by rfl, interface_binds hload (.inl rfl) hsv (by decide) (by decide) hw hport rfl rfl⟩

end Bootd
