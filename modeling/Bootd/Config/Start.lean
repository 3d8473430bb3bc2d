import Bootd.Config.Bindings
import Bootd.Config.Devices
import Bootd.L2State.Constructors

/-!
# Starting the services (`service.c:245-322`)

`service_start` goes through the bindings of each service up to the first empty slot.
A link service adds its filter to the devices it is bound to, and each device with a
filter gets one listener at the end; the others get a listener for each address.

The arrays of bindings are members of a union (src/service.h:15-35) and what stands
behind them is read as a slot too: `filter` behind the 16 devices, `defport`, or
`prognum` and `versnum`, behind the 16 addresses. The slot behind that is empty for all
services, as it lies in what `service_new` has set to 0.

`StartIo` records the slots that were looked at and the listeners.

* `eachSlot_run`, `eachSlot_reads`: the loops over slots.
* `Starting`: what has been done after some bindings.
* `startService_run`, `serviceStart_run`: a service, and all.
-/
namespace Bootd

open Bootd.Core

/-- `service_t` as `service_start` reads it: the handler, and what stands behind the
bindings; of that only what belongs to the kind of the service is set.
mirrors src/service.h:10-39 -/
structure ServiceT extends NetService where
  handler : Service
  filter : CStr
  /-- the port, which is stored in network order -/
  defport : UInt16
  prognum : UInt32
  versnum : UInt32

/-- `device_t` with its filter. -/
structure DeviceT extends Device where
  filter : CStr

/-- What a listener was created for. -/
inductive Started
  | link (device : CStr)
  | udp (frm : SockAddr) (service : CStr)
  | rpcUdp (frm : SockAddr) (service : CStr)
  deriving DecidableEq

inductive StartIo
  /-- slot `i` of a service's bindings is looked at -/
  | slot (service : CStr) (i : Nat)
  /-- a constructor returned `l` -/
  | listener (k : Started) (l : Listener)

structure StartState where
  w : World
  devices : List DeviceT
  trace : List StartIo

abbrev StartM := EStateM Fault StartState

/-- What the libraries answer while the listeners are created. -/
structure StartEnv extends SetupEnv where
  /-- for the listener on a device -/
  link : CStr → LinkOs
  /-- the RPC service can be created and registered -/
  rpc : Bool

def StartState.note (st : StartState) (e : StartIo) : StartState := { st with trace := st.trace ++ [e] }

def note (e : StartIo) : StartM Unit := modify (·.note e)

def onWorld {α : Type} (m : M α) : StartM α := do
  let st ← get
  match m st.w with
  | .ok a w => do
    modify fun st => { st with w := w }
    pure a
  | .error f _ => throw f

/-! ## Slots -/

/-- The memory from the first of the 16 slots on, with what is read in the one behind. -/
def slotsOf {β : Type} (bs : List β) (behind : Option β) : List (Option β) :=
  bs.map some ++ (List.replicate (serviceBindMax - bs.length) none ++ [behind, none])

/-- `for (i = 0; slot i; i++)` -/
def eachSlot {β : Type} (name : CStr) (body : β → StartM Unit) : (i : Nat) → List (Option β) → StartM Unit
  | _, [] => pure ()
  | i, none :: _ => note (.slot name i)
  | i, some b :: m => do
    note (.slot name i)
    body b
    eachSlot name body (i + 1) m

def ServiceT.linkSlots (s : ServiceT) : List (Option CStr) := slotsOf s.device (some s.filter)

/-- `sin_family`, `sin_port` and `sin_addr` are in the first two, the next two and the
next four bytes. On a little-endian host an `int` begins with its low half. -/
def ServiceT.udpSlots (s : ServiceT) : List (Option SockAddr) :=
  slotsOf s.bindaddr (if s.defport = 0 then none else some ⟨0, 0⟩)

def ServiceT.rpcUdpSlots (s : ServiceT) : List (Option SockAddr) :=
  slotsOf s.bindaddr (if s.prognum.toUInt16 = 0 then none
    else some ⟨ntohl s.versnum, .ofNat ((s.prognum >>> 16).toUInt8.toNat * 256 + (s.prognum >>> 24).toUInt8.toNat)⟩)

/-! ## Listeners -/

def noteListener (k : Started) : Option Listener → StartM Unit
  | none => pure ()
  | some l => note (.listener k l)

/-- A constructor, and `listener_add`. -/
def startListener (os : Os) (k : Started) (new : M (Option Listener)) : StartM Unit := do
  let l ← onWorld new
  noteListener k l
  onWorld (listenerAdd os l)

/-- mirrors src/service.c:288-297 -/
def lServiceStartLink (env : StartEnv) (d : DeviceT) : StartM Unit :=
  if cstr "or" <:+: d.filter then
    startListener env.os (.link d.name) (listenerNewLink (env.link d.name) (some d.name) (some d.filter))
  else pure ()

/-- The address that a slot stands for. mirrors src/service.c:305-307 -/
def ServiceT.udpFrom (s : ServiceT) (a : SockAddr) : SockAddr :=
  if a.port = 0 then { a with port := s.defport } else a

/-- mirrors src/service.c:299-312; that the port is stored in the slot has no reader -/
def lServiceStartUdp (env : StartEnv) (s : ServiceT) : StartM Unit :=
  eachSlot s.name (fun a => startListener env.os (.udp (s.udpFrom a) s.name) (listenerNewUdp env.os none s.handler))
    0 s.udpSlots

/-- mirrors src/service.c:313-322 -/
def lServiceStartRpcUdp (env : StartEnv) (s : ServiceT) : StartM Unit :=
  eachSlot s.name (fun a => startListener env.os (.rpcUdp a s.name) (listenerNewRpcUdp env.os env.rpc)) 0 s.rpcUdpSlots

/-! ## `service_start` -/

/-- `sizeof(d->filter)`, without the NUL. -/
def filterMax : Nat := 4095

/-- The filter for the device's own address, if it has none yet. mirrors src/service.c:268-271 -/
def DeviceT.baseFilter (lib : Conf) (d : DeviceT) : CStr :=
  if d.filter = [] then (cstr "(ether dst " ++ (lib.etherNtoa d.eth).take 32 ++ cstr ")").take filterMax
  else d.filter

/-- mirrors src/service.c:268-273 -/
def DeviceT.addFilter (lib : Conf) (s : ServiceT) (d : DeviceT) : DeviceT :=
  { d with filter := (d.baseFilter lib ++ (cstr " or " ++ s.filter)).take filterMax }

/-- The place of a device in the table. mirrors src/device.c:132-148 -/
def startDeviceByName (env : StartEnv) (name : CStr) : StartM (Option Nat) := do
  modify fun st => if st.devices.isEmpty then { st with devices := env.sysDevices.map (⟨·, []⟩) } else st
  return (← get).devices.findIdx? (·.name == name)

/-- One binding of a link service. mirrors src/service.c:260-273 -/
def startLinkBinding (env : StartEnv) (s : ServiceT) (name : CStr) : StartM Unit := do
  match ← startDeviceByName env name with
  | none => throw .exit
  | some i => modify fun st => { st with devices := st.devices.modify i (·.addFilter env.lib s) }

/-- mirrors src/service.c:254-279 -/
def startService (env : StartEnv) (s : ServiceT) : StartM Unit :=
  if s.id &&& listenLink ≠ 0 then eachSlot s.name (startLinkBinding env s) 0 s.linkSlots
  else if s.id &&& listenUdp ≠ 0 then lServiceStartUdp env s
  else if s.id &&& listenRpcUdp ≠ 0 then lServiceStartRpcUdp env s
  else pure ()

/-- mirrors src/service.c:245-286 -/
def serviceStart (env : StartEnv) (svs : List ServiceT) : StartM Unit := do
  svs.forM (startService env)
  (← get).devices.forM fun d => if d.filter ≠ [] then lServiceStartLink env d else pure ()

/-- Before it: no device has a filter yet. -/
def StartState.start (w : World) (ds : List Device) : StartState := ⟨w, ds.map (⟨·, []⟩), []⟩

/-- What `service_init` has set besides name and id.
mirrors src/service.c:22-61, src/bootparam.c:14-19, src/bootparam_prot.x:92-97 -/
def NetService.full (sv : NetService) : ServiceT where
  toNetService := sv
  handler := if sv.id = serviceTftp then .tftp else if sv.id = serviceDhcp then .dhcp else .link
  filter :=
    if sv.id = serviceRarp then cstr "(rarp)"
    else if sv.id = serviceRmp then cstr "(ether dst 9:0:9:0:0:4)"
    else cstr "(ether dst 08:00:2b:60:01:00 || 08:00:2b:60:02:00 || 08:00:2b:90:00)"
  defport := if sv.id = serviceTftp then 69 else 67
  prognum := 100026
  versnum := 1

/-! ## The loops over slots -/

/-- The listeners that were created, and what for. -/
def startedIn (tr : List StartIo) : List (Started × Listener) := tr.filterMap fun
  | .listener k l => some (k, l)
  | .slot _ _ => none

/-- Reading slot `i` of an array of 16. -/
def InArray : StartIo → Prop
  | .slot _ i => i < serviceBindMax
  | .listener _ _ => True

section
variable {β : Type} {bs : List β} {behind : Option β} {name : CStr} {body : β → StartM Unit} {env : StartEnv}
  {st st' : StartState} {e : StartIo} {i : Nat}

@[simp] theorem startedIn_note_slot (tr : List StartIo) (n : CStr) (i : Nat) :
    startedIn (tr ++ [.slot n i]) = startedIn tr := by simp [startedIn]

@[simp] theorem startedIn_note_listener (tr : List StartIo) (k : Started) (l : Listener) :
    startedIn (tr ++ [.listener k l]) = startedIn tr ++ [(k, l)] := by simp [startedIn]

theorem note_run (e : StartIo) (st : StartState) : note e st = .ok () (st.note e) := rfl

/-- What is read behind the slots in use: an empty slot if there is one in the array. -/
theorem slotsOf_split (bs : List β) (behind : Option β) : ∃ o m, slotsOf bs behind = bs.map some ++ o :: m ∧
    (bs.length < serviceBindMax → o = none) := by
  unfold slotsOf
  cases hn : serviceBindMax - bs.length with
  | zero => exact ⟨behind, [none], rfl, fun hlt => absurd hlt (by omega)⟩
  | succ n =>
    rw [List.replicate_succ]
    exact ⟨none, _, rfl, fun _ => rfl⟩

/-- A loop over slots in use, of which the last is not the last of the array. `P` says
what has been done after some of them. -/
theorem eachSlot_run {P : List β → StartState → Prop} {m : List (Option β)}
    (hnote : ∀ done j st, j < serviceBindMax → P done st → P done (st.note (.slot name j)))
    (hbody : ∀ done b st, b ∈ bs → P done st → ∃ st', body b st = .ok () st' ∧ P (done ++ [b]) st')
    (hlen : i + bs.length < serviceBindMax) (done : List β) (h : P done st) :
    ∃ st', eachSlot name body i (bs.map some ++ none :: m) st = .ok () st' ∧ P (done ++ bs) st' := by
  induction bs generalizing i st done with
  | nil =>
    rw [List.append_nil]
    exact ⟨_, rfl, hnote done i st (by simpa using hlen) h⟩
  | cons b bs ih =>
    rw [List.length_cons] at hlen
    obtain ⟨st₁, hb, h₁⟩ := hbody done b _ List.mem_cons_self (hnote done i st (by omega) h)
    obtain ⟨st₂, hrest, h₂⟩ := ih (fun done c st hc => hbody done c st (List.mem_cons_of_mem _ hc))
      (i := i + 1) (by omega) _ h₁
    refine ⟨st₂, ?_, by rwa [List.append_assoc] at h₂⟩
    show (note (.slot name i) >>= fun _ => body b >>= fun _ => eachSlot name body (i + 1) (bs.map some ++ none :: m))
      st = _
    rw [Exec.bind_run (note_run _ _), Exec.bind_run hb]
    exact hrest

/-! ## What is never taken back -/

theorem onWorld_run {α : Type} (m : M α) (st : StartState) : onWorld m st = match m st.w with
    | .ok a w => .ok a { st with w := w }
    | .error f _ => .error f st := by
  unfold onWorld
  rw [Exec.get_run]
  cases m st.w <;> rfl

/-- What is in the trace stays there. -/
def Records {α : Type} (m : StartM α) : Prop := ∀ e, Exec.Keeps (fun st => e ∈ st.trace) m

theorem Records.pure {α : Type} (a : α) : Records (pure a : StartM α) := fun _ => .pure a

theorem Records.note (e : StartIo) : Records (note e) := fun _ =>
  .modify fun _ h => List.mem_append_left _ h

theorem Records.onWorld {α : Type} (m : M α) : Records (onWorld m) := by
  intro e st h
  unfold Exec.wp
  rw [onWorld_run]
  cases m st.w <;> exact h

theorem Records.bind {α β : Type} {m : StartM α} {f : α → StartM β} (hm : Records m) (hf : ∀ a, Records (f a)) :
    Records (m >>= f) := fun e => (hm e).bind fun a => hf a e

theorem Records.eachSlot (hbody : ∀ b, Records (body b)) (i : Nat) (m : List (Option β)) :
    Records (eachSlot name body i m) := by
  induction m generalizing i with
  | nil => exact .pure ()
  | cons o m ih =>
    cases o with
    | none => exact .note _
    | some b => exact (Records.note _).bind fun _ => (hbody b).bind fun _ => ih (i + 1)

theorem Records.startListener (os : Os) (k : Started) (new : M (Option Listener)) :
    Records (startListener os k new) := by
  refine (Records.onWorld new).bind fun l => Records.bind ?_ fun _ => .onWorld _
  cases l with
  | none => exact .pure ()
  | some l => exact .note _

theorem Records.startLinkBinding (env : StartEnv) (s : ServiceT) (n : CStr) :
    Records (startLinkBinding env s n) := by
  refine Records.bind (fun _ => ?_) fun o => ?_
  · refine (Exec.Keeps.modify fun st h => ?_).bind fun _ => Exec.Keeps.get.bind fun _ => .pure _
    split
    · exact h
    · exact h
  · cases o with
    | none => exact fun _ => .throw _
    | some i => exact fun _ => .modify fun _ h => h

theorem Records.startService (env : StartEnv) (s : ServiceT) : Records (startService env s) := by
  unfold Bootd.startService lServiceStartUdp lServiceStartRpcUdp
  split_ifs
  · exact .eachSlot (.startLinkBinding env s) 0 _
  · exact .eachSlot (fun _ => .startListener _ _ _) 0 _
  · exact .eachSlot (fun _ => .startListener _ _ _) 0 _
  · exact .pure ()

theorem Records.forM {α : Type} {f : α → StartM Unit} (hf : ∀ a, Records (f a)) (as : List α) :
    Records (as.forM f) := by
  induction as with
  | nil => exact .pure _
  | cons a as ih => exact (hf a).bind fun _ => ih

theorem Records.startLink (env : StartEnv) (d : DeviceT) :
    Records (if d.filter ≠ [] then lServiceStartLink env d else Pure.pure ()) := by
  unfold lServiceStartLink
  split_ifs
  · exact .startListener _ _ _
  · exact .pure ()
  · exact .pure ()

theorem Records.mem {α : Type} {m : StartM α} (hm : Records m) {a : α} (h : m st = .ok a st') (he : e ∈ st.trace) :
    e ∈ st'.trace := by
  have hwp := Exec.wp_iff.mp (hm e st he)
  exact hwp.1 a st' h

/-- The slot behind those in use is looked at. -/
theorem eachSlot_reads (hbody : ∀ b, Records (body b)) {o : Option β} {m : List (Option β)}
    (h : eachSlot name body i (bs.map some ++ o :: m) st = .ok () st') :
    .slot name (i + bs.length) ∈ st'.trace := by
  induction bs generalizing i st with
  | nil =>
    cases o with
    | none =>
      cases h
      exact List.mem_append_right _ List.mem_cons_self
    | some b =>
      obtain ⟨_, st₁, hnote, hrest⟩ := Exec.bind_ok.mp h
      cases hnote
      exact ((hbody b).bind fun _ => Records.eachSlot hbody (i + 1) m).mem hrest
        (List.mem_append_right _ List.mem_cons_self)
  | cons b bs ih =>
    obtain ⟨_, st₁, -, hrest⟩ := Exec.bind_ok.mp h
    obtain ⟨_, st₂, -, hrest⟩ := Exec.bind_ok.mp hrest
    rw [List.length_cons, ← Nat.add_assoc, Nat.add_right_comm]
    exact ih hrest

end

/-! ## What has been done -/

/-- The devices that a service is bound to. -/
def ServiceT.linkNames (s : ServiceT) : List CStr := if s.id &&& listenLink ≠ 0 then s.device else []

/-- The listeners that a service gets for its addresses. -/
def ServiceT.sockets (s : ServiceT) : List Started :=
  if s.id &&& listenLink ≠ 0 then []
  else if s.id &&& listenUdp ≠ 0 then s.bindaddr.map fun a => .udp (s.udpFrom a) s.name
  else if s.id &&& listenRpcUdp ≠ 0 then s.bindaddr.map fun a => .rpcUdp a s.name
  else []

/-- The filter of a device, when these names were bound: only those have one. -/
def FilterOk (names : List CStr) (d : DeviceT) : Prop :=
  d.name ∈ names ∧ cstr "or" <:+: d.filter ∧ d.filter.length ≤ filterMax ∨ d.name ∉ names ∧ d.filter = []

/-- The devices `names` were bound, and the listeners `made` are there. -/
structure Starting (ds : List Device) (names : List CStr) (made : List Started) (st : StartState) : Prop where
  devices : st.devices.map (·.toDevice) = ds
  filters : ∀ d ∈ st.devices, FilterOk names d
  reads : ∀ e ∈ st.trace, InArray e
  made : (startedIn st.trace).map (·.1) = made
  listeners : st.w.listeners = (startedIn st.trace).map (·.2)
  fds : ∀ l ∈ st.w.listeners, st.w.fdObj l.fd ≠ none

section
variable {ds : List Device} {names : List CStr} {made : List Started} {st st' : StartState} {env : StartEnv}
  {os : Os} {c : Ctor} {k : Started} {s : ServiceT} {n : CStr} {d : DeviceT}

theorem Starting.start (ds : List Device) {w : World} (hw : w.listeners = []) :
    Starting ds [] [] (.start w ds) where
  devices := by simp [StartState.start, Function.comp_def]
  filters d hd := by
    obtain ⟨d', -, rfl⟩ := List.mem_map.mp hd
    exact .inr ⟨List.not_mem_nil, rfl⟩
  reads e he := nomatch he
  made := rfl
  listeners := hw
  fds l hl := by
    rw [show (StartState.start w ds).w.listeners = w.listeners from rfl, hw] at hl
    cases hl

theorem Starting.note (h : Starting ds names made st) (n : CStr) {i : Nat} (hi : i < serviceBindMax) :
    Starting ds names made (st.note (.slot n i)) where
  devices := h.devices
  filters := h.filters
  reads e he := by
    rcases List.mem_append.mp he with he | he
    · exact h.reads e he
    · rw [List.mem_singleton.mp he]
      exact hi
  made := by simpa [StartState.note] using h.made
  listeners := by simpa [StartState.note] using h.listeners
  fds := h.fds

/-- Where the calls succeed, a listener is created and added. -/
theorem startListener_run (h : Starting ds names made st) (hc : c.Succeeds os)
    (hname : c.name ≠ none ∨ os.nullStore = true) (k : Started) :
    ∃ st', startListener os k (c.run os) st = .ok () st' ∧ Starting ds names (made ++ [k]) st' := by
  obtain ⟨l, hl⟩ := Ctor.run_succeeds hc st.w
  obtain ⟨-, hfd, -, hn, hlist⟩ := Ctor.run_ok hl
  rw [← hn] at hname
  have hfds : (st.w.listening l).fds = Slots.put st.w.fds .socket := rfl
  generalize st.w.listening l = w' at hl hlist hfds
  have hnew := onWorld_run (c.run os) st
  rw [hl] at hnew
  -- the descriptor of no listener is free
  have hany : w'.listeners.any (·.fd == l.fd) = false := by
    rw [hlist]
    refine List.any_eq_false.mpr fun l' hl' heq => h.fds l' hl' ?_
    rw [beq_iff_eq.mp heq, hfd]
    exact fdObj_freeFd st.w
  have hadd := listenerAdd_run os w' hname
  rw [hany, if_neg Bool.false_ne_true, hlist] at hadd
  have hlast := onWorld_run (listenerAdd os (some l))
    { w := w', devices := st.devices, trace := st.trace ++ [.listener k l] }
  rw [hadd] at hlast
  have hrun : startListener os k (c.run os) st = onWorld (listenerAdd os (some l))
      { w := w', devices := st.devices, trace := st.trace ++ [.listener k l] } := by
    unfold startListener
    rw [Exec.bind_run hnew]
    rfl
  refine ⟨_, hrun.trans hlast, h.devices, h.filters, fun e he => ?_, ?_, ?_, fun l' hl' => ?_⟩
  · rcases List.mem_append.mp he with he | he
    · exact h.reads e he
    · rw [List.mem_singleton.mp he]
      trivial
  · simp [h.made]
  · simp [h.listeners]
  · show Slots.get w'.fds l'.fd ≠ none
    rw [hfds, Slots.get_put]
    split_ifs with hfree
    · exact Option.some_ne_none _
    · rcases List.mem_append.mp hl' with hl' | hl'
      · exact h.fds l' hl'
      · rw [List.mem_singleton.mp hl', hfd] at hfree
        exact absurd rfl hfree

/-! ### Filters -/

/-- `FilterOk`, and nothing else, decides whether a device gets a listener. -/
theorem FilterOk.bound (h : FilterOk names d) : d.filter ≠ [] ↔ d.name ∈ names := by
  rcases h with ⟨hn, hor, -⟩ | ⟨hn, hnil⟩
  · refine iff_of_true (fun hnil => ?_) hn
    have hlen := hor.length_le
    rw [hnil] at hlen
    exact absurd hlen (by decide)
  · exact iff_of_false (not_not.mpr hnil) hn

theorem FilterOk.or (h : FilterOk names d) (hn : d.name ∈ names) : cstr "or" <:+: d.filter := by
  rcases h with ⟨-, hor, -⟩ | ⟨hno, -⟩
  · exact hor
  · exact absurd hn hno

@[simp] theorem addFilter_toDevice (lib : Conf) (s : ServiceT) (d : DeviceT) :
    (d.addFilter lib s).toDevice = d.toDevice := rfl

/-- What is within the first bytes is not cut off. -/
theorem infix_take {xs ys zs : CStr} {m : Nat} (h : zs <:+: xs) (hlen : xs.length ≤ m) :
    zs <:+: (xs ++ ys).take m := by
  have hpre : xs <+: (xs ++ ys).take m := by
    rw [List.take_append, List.take_of_length_le hlen]
    exact List.prefix_append _ _
  exact h.trans hpre.isInfix

/-- Room is left behind the filter for the device's own address. -/
theorem baseFilter_length (lib : Conf) (h : d.filter = []) : (d.baseFilter lib).length ≤ 44 := by
  have h32 := List.length_take_le 32 (lib.etherNtoa d.eth)
  have hopen : (cstr "(ether dst ").length = 11 := rfl
  have hclose : (cstr ")").length = 1 := rfl
  rw [DeviceT.baseFilter, if_pos h]
  refine (List.length_take_le' _ _).trans ?_
  rw [List.length_append, List.length_append, hopen, hclose]
  omega

theorem addFilter_ok (h : FilterOk names d) (lib : Conf) (s : ServiceT) :
    cstr "or" <:+: (d.addFilter lib s).filter ∧ (d.addFilter lib s).filter.length ≤ filterMax := by
  refine ⟨?_, List.length_take_le _ _⟩
  show cstr "or" <:+: (d.baseFilter lib ++ (cstr " or " ++ s.filter)).take filterMax
  have hbound := h.bound
  rcases h with ⟨hn, hor, hlen⟩ | ⟨-, hnil⟩
  · have hbase : d.baseFilter lib = d.filter := if_neg (hbound.mpr hn)
    rw [hbase]
    exact infix_take hor hlen
  · have hbase := baseFilter_length lib hnil
    have hor : cstr "or" <:+: d.baseFilter lib ++ cstr " or " :=
      List.infix_append_of_infix_right (by decide)
    rw [← List.append_assoc]
    refine infix_take hor ?_
    have hlen : (cstr " or ").length = 4 := rfl
    rw [List.length_append, hlen]
    exact Nat.le_trans (Nat.add_le_add_right hbase 4) (by decide)

/-- A device gets the filter of a service. -/
theorem startLinkBinding_run (h : Starting ds names made st) (hnodup : (ds.map (·.name)).Nodup)
    (hn : ∃ d ∈ ds, d.name = n) : ∃ st', startLinkBinding env s n st = .ok () st' ∧
      Starting ds (names ++ [n]) made st' := by
  have hmap : st.devices.map (·.name) = ds.map (·.name) := by
    rw [← h.devices, List.map_map]
    rfl
  -- there is one device of this name
  cases hfind : st.devices.findIdx? (·.name == n) with
  | none =>
    obtain ⟨d, hd, hdn⟩ := hn
    have hmem : n ∈ st.devices.map (·.name) := by
      rw [hmap]
      exact List.mem_map.mpr ⟨d, hd, hdn⟩
    obtain ⟨d', hd', hdn'⟩ := List.mem_map.mp hmem
    have hno := List.findIdx?_eq_none_iff.mp hfind d' hd'
    rw [hdn', beq_self_eq_true] at hno
    cases hno
  | some i =>
    obtain ⟨hi, hname, -⟩ := List.findIdx?_eq_some_iff_getElem.mp hfind
    have hin : (st.devices.map (·.name))[i]? = some n := by
      rw [List.getElem?_map, List.getElem?_eq_getElem hi, Option.map_some, beq_iff_eq.mp hname]
    have hother : ∀ (j : Nat) (d : DeviceT), st.devices[j]? = some d → d.name = n → i = j := by
      intro j d hj hd
      have hjn : (st.devices.map (·.name))[j]? = some n := by rw [List.getElem?_map, hj, Option.map_some, hd]
      exact (List.getElem?_inj (by simpa using hi) (hmap ▸ hnodup)).mp (hin.trans hjn.symm)
    have hne : st.devices.isEmpty = false := by
      rw [List.isEmpty_eq_false_iff_exists_mem]
      exact ⟨_, List.getElem_mem hi⟩
    have hsearch : startDeviceByName env n st = .ok (some i) st := by
      have hinit : (if st.devices.isEmpty then { st with devices := env.sysDevices.map (⟨·, []⟩) } else st) = st :=
        if_neg (by rw [hne]; exact Bool.false_ne_true)
      show EStateM.Result.ok ((if st.devices.isEmpty then { st with devices := env.sysDevices.map (⟨·, []⟩) }
        else st).devices.findIdx? (·.name == n)) _ = _
      rw [hinit, hfind]
      exact congrArg _ hinit
    refine ⟨{ st with devices := st.devices.modify i (·.addFilter env.lib s) }, ?_, ?_, fun d hd => ?_, h.reads,
      h.made, h.listeners, h.fds⟩
    · unfold startLinkBinding
      rw [Exec.bind_run hsearch]
      rfl
    · rw [← h.devices]
      refine List.ext_getElem? fun j => ?_
      rw [List.getElem?_map, List.getElem?_map, List.getElem?_modify]
      cases st.devices[j]? with
      | none => rfl
      | some d =>
        show some (if i = j then d.addFilter env.lib s else d).toDevice = _
        split_ifs
        · rfl
        · rfl
    · obtain ⟨j, hj⟩ := List.mem_iff_getElem?.mp hd
      rw [List.getElem?_modify] at hj
      obtain ⟨d', hj', rfl⟩ := Option.map_eq_some_iff.mp hj
      have hok := h.filters d' (List.mem_of_getElem? hj')
      split_ifs with hij
      · subst hij
        have hdn : d'.name = n := by
          rw [List.getElem?_map, hj'] at hin
          exact Option.some.inj hin
        have hmem : (d'.addFilter env.lib s).name ∈ names ++ [n] :=
          List.mem_append_right _ (List.mem_singleton.mpr hdn)
        exact .inl ⟨hmem, addFilter_ok hok env.lib s⟩
      · have hdn : d'.name ≠ n := fun hdn => hij (hother j d' hj' hdn)
        have hmem : d'.name ∈ names ++ [n] ↔ d'.name ∈ names := by simp [hdn]
        unfold FilterOk at hok ⊢
        simp only [hmem]
        exact hok

/-! ### Services -/

/-- The calls of the libraries succeed. -/
structure StartEnv.Succeeds (env : StartEnv) : Prop where
  socket : env.os.socket = true
  rpc : env.rpc = true
  link : ∀ device, (env.link device).libnetInit = true ∧ (env.link device).pcapOpen = some dltEn10mb ∧
    (env.link device).filter = true

/-- What has been bound to the service is in the array, and the devices are known. -/
structure ServiceT.Accepted (ds : List Device) (s : ServiceT) : Prop where
  device : s.device.length ≤ serviceBindMax
  bindaddr : s.bindaddr.length ≤ serviceBindMax
  known : ∀ n ∈ s.device, ∃ d ∈ ds, d.name = n

/-- The number of bindings that `service_start` goes through. -/
def ServiceT.bindings (s : ServiceT) : Nat :=
  if s.id &&& listenLink ≠ 0 then s.device.length
  else if s.id &&& listenUdp ≠ 0 then s.bindaddr.length
  else if s.id &&& listenRpcUdp ≠ 0 then s.bindaddr.length
  else 0

/-- The addresses of a service. -/
theorem sockets_run {β : Type} {bs : List β} {behind : Option β} {kind : β → Started} {name : CStr}
    (ctor : β → Ctor) (h : Starting ds names made st) (hc : ∀ b, (ctor b).Succeeds os)
    (hname : bs = [] ∨ os.nullStore = true) (hlt : bs.length < serviceBindMax) : ∃ st',
    eachSlot name (fun b => startListener os (kind b) ((ctor b).run os)) 0 (slotsOf bs behind) st = .ok () st' ∧
      Starting ds names (made ++ bs.map kind) st' := by
  obtain ⟨o, m, hsplit, ho⟩ := slotsOf_split bs behind
  rw [hsplit, ho hlt]
  refine eachSlot_run (P := fun done st => Starting ds names (made ++ done.map kind) st)
    (fun done j st hj h => h.note name hj) (fun done b st hb h => ?_) (by omega) [] (by simpa using h)
  have hnull : os.nullStore = true := hname.resolve_left (List.ne_nil_of_mem hb)
  obtain ⟨st', hrun, h'⟩ := startListener_run h (hc b) (.inr hnull) (kind b)
  exact ⟨st', hrun, by simpa using h'⟩

theorem startService_run (h : Starting ds names made st) (henv : env.Succeeds) (hnodup : (ds.map (·.name)).Nodup)
    (hacc : s.Accepted ds) (hlt : s.bindings < serviceBindMax) (hnull : s.sockets = [] ∨ env.os.nullStore = true) :
    ∃ st', startService env s st = .ok () st' ∧ Starting ds (names ++ s.linkNames) (made ++ s.sockets) st' := by
  unfold startService ServiceT.linkNames
  unfold ServiceT.sockets at hnull ⊢
  unfold ServiceT.bindings at hlt
  split_ifs at hlt hnull ⊢ with hlink hudp hrpc
  · obtain ⟨o, m, hsplit, ho⟩ := slotsOf_split s.device (some s.filter)
    unfold ServiceT.linkSlots
    rw [hsplit, ho hlt, List.append_nil]
    exact eachSlot_run (P := fun done st => Starting ds (names ++ done) made st)
      (fun done j st hj h => h.note s.name hj) (fun done n st hn h => by
        obtain ⟨st', hrun, h'⟩ := startLinkBinding_run h hnodup (hacc.known n hn)
        exact ⟨st', hrun, by rwa [List.append_assoc] at h'⟩) (by omega) [] (by rwa [List.append_nil])
  · rw [List.append_nil]
    exact sockets_run (fun _ => .udp none s.handler) h (fun _ => henv.socket)
      (hnull.imp_left List.map_eq_nil_iff.mp) hlt
  · rw [List.append_nil]
    exact sockets_run (fun _ => .rpcUdp env.rpc) h (fun _ => ⟨henv.socket, henv.rpc⟩)
      (hnull.imp_left List.map_eq_nil_iff.mp) hlt
  · exact ⟨st, rfl, by rwa [List.append_nil, List.append_nil]⟩

/-! ### `service_start` -/

/-- The listeners for devices of which some were bound. -/
def linksOf (names devices : List CStr) : List Started := (devices.filter names.contains).map .link

/-- A listener for each address, and one for each device that is bound. -/
def wanted (svs : List ServiceT) (ds : List Device) : List Started :=
  svs.flatMap (·.sockets) ++ linksOf (svs.flatMap (·.linkNames)) (ds.map (·.name))

/-- The loop over the devices. -/
theorem startLinks_run (h : Starting ds names made st) (henv : env.Succeeds) {devs : List DeviceT}
    (hdevs : ∀ d ∈ devs, FilterOk names d) : ∃ st',
    devs.forM (fun d => if d.filter ≠ [] then lServiceStartLink env d else pure ()) st = .ok () st' ∧
      Starting ds names (made ++ linksOf names (devs.map (·.name))) st' := by
  refine Exec.forM_run (P := fun (done : List DeviceT) st =>
    Starting ds names (made ++ linksOf names (done.map (·.name))) st) (fun done d st hd h => ?_) []
    (by simpa [linksOf] using h)
  have hok := hdevs d hd
  have hlinks : linksOf names ((done ++ [d]).map (·.name)) =
      linksOf names (done.map (·.name)) ++ if d.name ∈ names then [.link d.name] else [] := by
    unfold linksOf
    rw [List.map_append, List.filter_append, List.map_append, List.map_singleton, List.filter_singleton]
    split_ifs <;> simp_all
  by_cases hn : d.name ∈ names
  · obtain ⟨hlib, hpcap, hfilter⟩ := henv.link d.name
    have hc : (Ctor.link (env.link d.name) (some d.name) (some d.filter)).Succeeds env.os :=
      ⟨Option.some_ne_none _, hlib, hpcap, .inr hfilter⟩
    obtain ⟨st', hrun, h'⟩ := startListener_run h hc (.inl (Option.some_ne_none _)) (.link d.name)
    rw [if_pos (hok.bound.mpr hn), lServiceStartLink, if_pos (hok.or hn), hlinks, if_pos hn, ← List.append_assoc]
    exact ⟨st', hrun, h'⟩
  · rw [if_neg (fun hne => hn (hok.bound.mp hne)), hlinks, if_neg hn, List.append_nil]
    exact ⟨st, rfl, h⟩

/-- All services are started. -/
theorem serviceStart_run {svs : List ServiceT} {w : World} (hw : w.listeners = []) (henv : env.Succeeds)
    (hnodup : (ds.map (·.name)).Nodup) (hacc : ∀ s ∈ svs, s.Accepted ds)
    (hlt : ∀ s ∈ svs, s.bindings < serviceBindMax) (hnull : ∀ s ∈ svs, s.sockets = [] ∨ env.os.nullStore = true) :
    ∃ st', serviceStart env svs (.start w ds) = .ok () st' ∧
      Starting ds (svs.flatMap (·.linkNames)) (wanted svs ds) st' := by
  obtain ⟨st₁, hrun₁, h₁⟩ := Exec.forM_run (f := startService env)
    (P := fun (done : List ServiceT) st => Starting ds (done.flatMap (·.linkNames)) (done.flatMap (·.sockets)) st)
    (fun done s st hs h => by
      obtain ⟨st', hrun, h'⟩ := startService_run h henv hnodup (hacc s hs) (hlt s hs) (hnull s hs)
      exact ⟨st', hrun, by simpa using h'⟩) [] (Starting.start ds hw)
  obtain ⟨st₂, hrun₂, h₂⟩ := startLinks_run h₁ henv h₁.filters
  have hnames : st₁.devices.map (·.name) = ds.map (·.name) := by
    rw [← h₁.devices, List.map_map]
    rfl
  rw [hnames] at h₂
  refine ⟨st₂, ?_, h₂⟩
  unfold serviceStart
  rw [Exec.bind_run hrun₁, Exec.get_run]
  exact hrun₂

end

/-! ## What is bound

The slots of the services hold what `Accepted` says, from `service_init` on. -/

/-- The services as `service_link_add` and `service_udp_add` leave them. -/
def Setup.Bound (st : Setup) : Prop := ∀ sv ∈ st.services, sv.full.Accepted st.devices

/-- A call that leaves them so. -/
def KeepsBound {α : Type} (m : SetupM α) : Prop := ∀ st a st', st.Bound → m st = .ok (a, st') → st'.Bound

section
variable {env : SetupEnv} {st : Setup} {s : Nat} {sv sv' : NetService}

theorem bound_init (h : st.services = serviceInit) : st.Bound := by
  have hempty : ∀ sv ∈ serviceInit, sv.device = [] ∧ sv.bindaddr = [] := by decide
  intro sv hsv
  rw [h] at hsv
  obtain ⟨hdev, haddr⟩ := hempty sv hsv
  exact ⟨by simp [NetService.full, hdev], by simp [NetService.full, haddr], by simp [NetService.full, hdev]⟩

theorem Setup.Bound.set (h : st.Bound) (hsv : sv.full.Accepted st.devices) :
    Setup.Bound { st with services := st.services.set s sv } := by
  intro sv' hmem
  rcases List.mem_or_eq_of_mem_set hmem with hold | rfl
  · exact h sv' hold
  · exact hsv

/-- The table is filled only while it is empty, and then nothing is bound. -/
theorem Setup.Bound.fill (h : st.Bound) (env : SetupEnv) :
    Setup.Bound { st with devices := deviceTable env st } := by
  intro sv hsv
  obtain ⟨hdev, haddr, hknown⟩ := h sv hsv
  refine ⟨hdev, haddr, fun n hn => ?_⟩
  obtain ⟨d, hd, hname⟩ := hknown n hn
  refine ⟨d, ?_, hname⟩
  unfold deviceTable
  rwa [if_neg (List.ne_nil_of_mem hd)]

/-- Devices of the table are bound. -/
theorem ServiceT.Accepted.bindDevices {ds : List Device} (h : sv.full.Accepted ds) {names : List CStr}
    (hnames : ∀ n ∈ names, ∃ d ∈ ds, d.name = n) : (sv.bindDevices names).full.Accepted ds where
  device := by
    have hdev : sv.device.length ≤ serviceBindMax := h.device
    show (sv.bindDevices names).device.length ≤ serviceBindMax
    rw [bindDevices_length]
    omega
  bindaddr := h.bindaddr
  known n hn := by
    rcases List.mem_append.mp hn with hold | hnew
    · exact h.known n hold
    · exact hnames n (List.mem_of_mem_take hnew)

theorem KeepsBound.udpIp (s : Nat) (ip : Ip) (port : UInt16) : KeepsBound (lServiceUdpIpAdd s ip port) := by
  intro st a st' hb h
  cases hsv : st.services[s]? with
  | none =>
    unfold lServiceUdpIpAdd bindSlot at h
    simp only [bind, StateT.bind, Except.bind, get, getThe, MonadStateOf.get, StateT.get, pure, Except.pure, hsv] at h
    cases h
  | some sv =>
    unfold lServiceUdpIpAdd at h
    rw [bindSlot_run hsv] at h
    cases h
    split_ifs with hfree
    · obtain ⟨hdev, -, hknown⟩ := hb sv (List.mem_of_getElem? hsv)
      refine hb.set ⟨hdev, ?_, hknown⟩
      show (sv.bindaddr ++ [_]).length ≤ serviceBindMax
      rw [List.length_append, List.length_singleton]
      exact hfree
    · exact hb

theorem KeepsBound.closed (env : SetupEnv) : SlotClosed env KeepsBound where
  pure a st b st' hb h := by
    cases h
    exact hb
  bind hm hf st b st' hb h := by
    obtain ⟨⟨a, st₁⟩, h₁, h₂⟩ := except_bind_ok h
    exact hf a st₁ b st' (hm st a st₁ hb h₁) h₂
  lift x st b st' hb h := by
    cases x with
    | error f => cases h
    | ok a =>
      cases h
      exact hb
  onState hf _ st b st' hb h := hf st st b st' hb h
  deviceInit st ds st' hb h := by
    rw [deviceInit_run] at h
    cases h
    exact hb.fill env

theorem KeepsBound.udpAdd (env : SetupEnv) (s : Nat) (w : CStr) : KeepsBound (serviceUdpAdd env s w) :=
  (KeepsBound.closed env).udpAdd (KeepsBound.udpIp s) w

/-- `device` and `*` bind devices of the table. -/
theorem Setup.Bound.linkAdd (hb : st.Bound) (hsv : st.services[s]? = some sv) {w : CStr} {r : Bool} {st' : Setup}
    (h : serviceLinkAdd env s w st = .ok (r, st')) : st'.Bound := by
  have hacc : sv.full.Accepted st.devices := hb sv (List.mem_of_getElem? hsv)
  by_cases hall : AllDevices w
  · rw [serviceLinkAdd_all hall hsv] at h
    cases h
    exact hb.set (hacc.bindDevices fun n hn => List.mem_map.mp hn)
  · rw [serviceLinkAdd_named hall] at h
    cases hfind : (deviceTable env st).find? (·.name == w) with
    | none =>
      rw [hfind] at h
      cases h
      exact hb.fill env
    | some d =>
      have htab := hb.fill env
      rw [hfind] at h
      simp only at h
      have hrun : lServiceLinkDeviceAdd s d { st with devices := deviceTable env st } = _ :=
        lServiceLinkDeviceAdd_run hsv
      rw [hrun] at h
      cases h
      refine htab.set ((htab sv (List.mem_of_getElem? hsv)).bindDevices fun n hn => ?_)
      rw [List.mem_singleton] at hn
      exact ⟨d, List.mem_of_find?_eq_some hfind, hn.symm⟩

end

end Bootd
