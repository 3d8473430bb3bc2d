import Bootd.Config.Numbers
import Bootd.L2State.Log
import Bootd.L3Protocol.Bootparam

/-!
# What a configuration sets up (`service.c`, `device.c`, `ngenutil.c`)

`Setup` is the part of the daemon's state that the configuration decides: the
settings `c_*`, the bindings of the services, and the hosts. The device table is
filled when a device is first looked for by name or address; `device all` takes
it as it is.

`SetupEnv` is what the system answers meanwhile: the conversions and the resolver
of the C library, the devices found by `device_init`, and what the buffers on the
stack held before.

* `strService`: the names of a mask.
* `serviceLinkAdd`, `serviceUdpAdd`: the bindings of a service.
-/
namespace Bootd

/-- mirrors src/device.h:10-20 (`device_t`, what binding a service reads) -/
structure Device where
  name : CStr
  eth : Ether
  ip : List Ip

/-- `SERVICE_BIND_MAX`. -/
def serviceBindMax : Nat := 16

/-- mirrors src/service.h:10-39 (`service_t`). The slots in use of `d.link.device`
and of `bindaddr`, which is at the same place in `d.udp` and `d.rpc_udp`. -/
structure NetService where
  name : CStr
  id : Nat
  device : List CStr
  bindaddr : List SockAddr

def serviceDhcp : Nat := 2
def serviceMop : Nat := 4

/-! mirrors src/service.h:63-65 -/

def listenLink : Nat := serviceRarp ||| serviceMop ||| serviceRmp
def listenUdp : Nat := serviceDhcp ||| serviceTftp
def listenRpcUdp : Nat := serviceBootparm

/-- `service_new` with its name and id. -/
def serviceNew (name : CStr) (id : Nat) : NetService := ⟨name, id, [], []⟩

/-- mirrors src/service.c:16-64 (`bootparam` by `bootparam_service_init`) -/
def serviceInit : List NetService :=
  [serviceNew (cstr "rarp") serviceRarp, serviceNew (cstr "dhcp") serviceDhcp,
    serviceNew (cstr "mop") serviceMop, serviceNew (cstr "rmp") serviceRmp,
    serviceNew (cstr "tftp") serviceTftp, serviceNew (cstr "bootparam") serviceBootparm]

/-! ## The names of a mask -/

/-- The place of a service in `l_services`. mirrors src/service.c:119-129 -/
def serviceSearchById (svs : List NetService) (id : Nat) : Option Nat :=
  svs.findIdx? (·.id == id)

/-- `sizeof(service_str)`, and that of `buf` in `str_service`. -/
def serviceStrSize : Nat := 512

/-- The service with that bit, or its number. mirrors src/ngenutil.c:44-56 -/
def bitText (svs : List NetService) (j : Nat) : CStr :=
  match (serviceSearchById svs j).bind (svs[·]?) with
  | none => decText j
  | some s => s.name

/-- mirrors src/ngenutil.c:30-60 -/
def strService (svs : List NetService) (service : Nat) : CStr :=
  if service = serviceAll then cstr "all"
  else (List.range Log.logModMax).foldl (fun buf i =>
    if service.testBit i then
      let text := if buf = [] then bitText svs (2 ^ i) else cstr " " ++ bitText svs (2 ^ i)
      buf ++ text.take (serviceStrSize - buf.length - 1)
    else buf) []

/-! ## The setup -/

/-- mirrors src/global.h:17-27, with `l_services`, `l_devices` and the hosts that
`host_add` has linked in -/
structure Setup where
  /-- the file that is read, which a message shows in front -/
  filename : CStr
  cChroot : Option CStr
  cDirectory : Option CStr
  cResolveEther : Bool
  cResolveIp : Bool
  cSessionMax : Int
  cSessionTimeout : Int
  /-- the level and the file of `log_init` -/
  log : Option (Nat × Option CStr)
  services : List NetService
  devices : List Device
  w : World
  accepted : List HostId

structure SetupEnv where
  lib : Conf
  os : Os
  sysDevices : List Device
  /-- the port `getservbyname(_, "udp")` knows -/
  getservbyname : CStr → Option UInt16
  /-- the log file can be opened -/
  openLog : CStr → Bool
  stack : Buf

abbrev SetupM := StateT Setup (Except Fault)

/-- What the resolver functions and `host_add` look at. -/
def Setup.conf (st : Setup) (env : SetupEnv) : Conf :=
  { env.lib with
    strService := strService st.services
    cResolveEther := st.cResolveEther
    cResolveIp := st.cResolveIp
    cSessionMax := st.cSessionMax
    cSessionTimeout := st.cSessionTimeout }

/-! ## Devices -/

/-- `device_init`, if no device is known. -/
def deviceInit (env : SetupEnv) : SetupM (List Device) := do
  let st ← get
  if st.devices = [] then
    set { st with devices := env.sysDevices }
    pure env.sysDevices
  else pure st.devices

/-- mirrors src/device.c:132-148 -/
def deviceSearchByName (env : SetupEnv) (name : CStr) : SetupM (Option Device) := do
  return (← deviceInit env).find? (·.name == name)

/-- mirrors src/device.c:150-163 -/
def deviceSearchByEth (env : SetupEnv) (eth : Ether) : SetupM (Option Device) := do
  return (← deviceInit env).find? (·.eth == eth)

/-! ## Services -/

/-- mirrors src/service.c:107-117 -/
def serviceSearchByName (svs : List NetService) (name : CStr) : Option NetService :=
  svs.find? (·.name == name)

/-- mirrors src/ngenutil.c:8-28 -/
def strGetService (svs : List NetService) (w : CStr) (dst : Nat) : Option Nat :=
  if strIsEqualnc w (cstr "all") then some serviceAll
  else if strIsEqualnc w (cstr "none") then some 0
  else (serviceSearchByName svs w).map (dst ||| ·.id)

/-- The first free slot of service `s`, if there is one.
mirrors src/service.c:157-168, src/service.c:213-229 -/
def bindSlot (s : Nat) (slots : NetService → Nat) (f : NetService → NetService) : SetupM Bool := do
  let st ← get
  match st.services[s]? with
  | none => throw .segv
  | some sv =>
    if slots sv < serviceBindMax then
      set { st with services := st.services.set s (f sv) }
      pure true
    else pure false

def lServiceLinkDeviceAdd (s : Nat) (d : Device) : SetupM Bool :=
  bindSlot s (·.device.length) fun sv => { sv with device := sv.device ++ [d.name] }

def lServiceUdpIpAdd (s : Nat) (ip : Ip) (port : UInt16) : SetupM Bool :=
  bindSlot s (·.bindaddr.length) fun sv => { sv with bindaddr := sv.bindaddr ++ [⟨ip, port⟩] }

/-- mirrors src/service.c:231-244 -/
def lServiceUdpDeviceAdd (s : Nat) (d : Device) (port : UInt16) : SetupM Bool :=
  d.ip.foldlM (fun result ip =>
    if utilIpValid ip then return (← lServiceUdpIpAdd s ip port) && result else pure result) true

/-- mirrors src/service.c:131-155 -/
def serviceLinkAdd (env : SetupEnv) (s : Nat) (device : CStr) : SetupM Bool := do
  if device = cstr "*" ∨ device = cstr "all" then
    (← get).devices.foldlM (fun result d => return (← lServiceLinkDeviceAdd s d) && result) true
  else match ← deviceSearchByName env device with
    | some d => lServiceLinkDeviceAdd s d
    | none =>
      match env.lib.etherAton device with
      | none => pure false
      | some eth =>
        let st ← get
        -- a name that `str_get_eth` takes is one that `util_name2ether` takes
        match ← utilName2ether (st.conf env) env.os st.w device with
        | some _ => pure false
        | none =>
          match ← deviceSearchByEth env eth with
          | none => pure false
          | some d => lServiceLinkDeviceAdd s d

/-- The port of a bind specification. mirrors src/service.c:181-188 -/
def bindPort (env : SetupEnv) (port : CStr) : Option UInt16 :=
  match strGetInt port with
  | (n, true) => some (UInt16.ofInt n)
  | (_, false) => env.getservbyname port

/-- mirrors src/service.c:170-211 -/
def serviceUdpAdd (env : SetupEnv) (s : Nat) (bind : CStr) : SetupM Bool := do
  match strGetHostport env.lib.inetAton env.stack bind with
  | none => pure false
  | some (host, portText) =>
    match bindPort env portText with
    | none => pure false
    | some port =>
      if host = [] then lServiceUdpIpAdd s 0 port
      else match env.lib.inetAton host with
        | some ip => lServiceUdpIpAdd s ip port
        | none =>
          match env.lib.etherAton host with
          | some eth =>
            match ← deviceSearchByEth env eth with
            | none => pure false
            | some d => lServiceUdpDeviceAdd s d port
          | none =>
            match ← deviceSearchByName env host with
            | some d => lServiceUdpDeviceAdd s d port
            | none =>
              let st ← get
              let ip ← utilName2ip (st.conf env) env.os st.w host
              lServiceUdpIpAdd s ip port

end Bootd
