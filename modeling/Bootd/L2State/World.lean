import Mathlib.Tactic.Simps.Basic
import Bootd.Core.Chain
import Bootd.Core.Exec
import Bootd.Core.Slots
import Bootd.L1Wire.Bytes

/-!
# The daemon's memory and what it asks of the kernel

One process, no threads: a handler runs to its end before the next packet is
read. `World` is the memory that survives from packet to packet (the host and
session records on the heap, `g_hosts`, `g_listeners`, `g_n_sessions`, the
static `rmp_sid`) together with the kernel's descriptor table. Pointers are
indices: host records are never freed, a freed session leaves `none` behind,
so a dangling session pointer is caught when it is followed.

`Conf` is what the configuration and the C library fix for the whole run, `Os`
what the system calls of one packet answer. Both are arbitrary in every
theorem.

`Io` is the trace of a packet: the packets handed to the kernel, and the
points at which sessions, listeners and files come and go. `M` runs code on a
`World`; `Fault` is how a C program stops without returning.
-/
namespace Bootd

/-- How a handler can fail to return. -/
inductive Fault
  /-- `log_msg(LOG_ERR, …)`, which calls `exit(1)` -/
  | exit
  /-- a NULL or wild pointer is followed -/
  | segv
  /-- a freed record is used or freed again -/
  | uaf
  /-- a loop that never ends -/
  | hang
  /-- a store behind the end of an array -/
  | overrun
  /-- a text with a directive in it is used as a format -/
  | format
  deriving DecidableEq, Repr

inductive Errno
  | enoent | eacces | eperm | emfile | enfile
  | other (n : Nat)
  deriving DecidableEq

abbrev HostId := Nat
abbrev SessId := Nat
abbrev LisId := Nat
abbrev Fd := Nat

/-- mirrors src/global.h:20-27 (the settings the handlers read), with the texts of
the service masks and the conversions of the C library. -/
structure Conf where
  cResolveEther : Bool
  cResolveIp : Bool
  cSessionMax : Int
  cSessionTimeout : Int
  strService : Nat → CStr
  inetAton : CStr → Option Ip
  etherAton : CStr → Option Ether
  inetNtoa : Ip → CStr
  etherNtoa : Ether → CStr
  strerror : Errno → CStr

/-- What the system and the resolver answer while one packet is handled. -/
structure Os where
  /-- `time(NULL)` -/
  now : Int
  etherNtohost : Ether → Option CStr
  etherHostton : CStr → Option Ether
  /-- `some none`: an answer of another address family -/
  gethostbyname : CStr → Option (Option Ip)
  gethostbyaddr : Ip → Option CStr
  /-- `socket`, `bind` and `connect` all succeed -/
  socket : Bool
  /-- a store through a NULL pointer goes unnoticed -/
  nullStore : Bool
  /-- a store behind the end of an array goes unnoticed -/
  pastStore : Bool
  /-- the file's content, if `open` succeeds -/
  openf : Option CStr → Except Errno (List UInt8)
  lseek : Bool
  /-- `read` fails, or returns at most that many bytes -/
  read : Option Nat
  /-- `errno` where no failed call of this packet sets it -/
  errno : Errno
  /-- what the reply buffer on the stack held before -/
  stack : Nat → UInt8

/-! ## Records -/

/-- `FILE_ALIASES_MAX`. -/
def fileAliasesMax : Nat := 10

/-- mirrors src/host.h:9-18 (`file_t`) -/
structure File where
  path : Option CStr
  name : Option CStr
  server : Option CStr
  aliases : Vector (Option CStr) fileAliasesMax
  service : Nat
  deriving DecidableEq

/-- mirrors src/host.h:28-37 (`host_t`; `device` has no reader). The file list
is never changed once the record is in the table, so a clone's shared list is
a copy here. -/
structure Host where
  next : Option HostId
  name : Option CStr
  service : Nat
  eth : Ether
  ip : Ip
  files : List File
  session : Option SessId

/-- mirrors src/host.h:19-26 (`session_t`; `data` has no reader). -/
structure Session where
  service : Nat
  atime : Int
  sid : Int
  fd : Vector Fd 8
  l : Option LisId

/-- `BF_FD`, the descriptor of the session's file. mirrors src/rmp.c:15, src/tftp.c:7 -/
abbrev Session.bfFd (ses : Session) : Fd := ses.fd[0]

/-- The descriptors of a session of which only `BF_FD` is set. -/
abbrev bfFds (fd : Fd) : Vector Fd 8 := (Vector.replicate 8 0).set 0 fd

/-- `BF_FD = fd`. -/
abbrev Session.setBfFd (ses : Session) (fd : Fd) : Session := { ses with fd := ses.fd.set 0 fd }

/-! Service bits. mirrors src/service.h:40-53 -/

def serviceRarp : Nat := 1
def serviceRmp : Nat := 8
def serviceTftp : Nat := 16
def serviceAll : Nat := 0xffff

inductive ListenType
  | link | udp | rpcUdp
  deriving DecidableEq

/-- The `service` handler of a listener. -/
inductive Service
  | tftp | dhcp | link
  deriving DecidableEq

/-- mirrors src/listener.h:12-56. `peer` is the address the socket is connected
to, `udpTo` the copy in `d.udp.to`; `listener_new_udp` sets both or none. -/
structure Listener where
  id : LisId
  type : ListenType
  service : Service
  fd : Fd
  ip : Ip
  eth : Ether
  name : Option CStr
  udpTo : SockAddr
  peer : Option SockAddr
  udpTo_eq : udpTo = peer.getD .any

/-- What a descriptor refers to. -/
inductive FdObj
  /-- an opened file, with its content -/
  | file (path : Option CStr) (content : List UInt8)
  | socket
  /-- anything inherited, such as standard input; seekable if it has content -/
  | stream (content : Option (List UInt8))
  /-- what the program opened for itself before its loop, the configuration or the log file -/
  | own
  deriving DecidableEq

def FdObj.isFile : FdObj → Bool
  | .file _ _ => true
  | _ => false

/-- The bytes behind a descriptor of a session on which `lseek` works. -/
def FdObj.content : FdObj → Option (List UInt8)
  | .file _ d => some d
  | .stream d => d
  | .socket | .own => none

/-! ## The trace of a packet -/

/-- The system call `i_listener_udp_send` ends up with. -/
inductive Via
  | send
  | sendto (a : SockAddr)
  deriving DecidableEq

inductive Io
  /-- a datagram handed to the kernel -/
  | udp (l : Listener) (via : Via) (pkt : List UInt8)
  /-- a frame handed to `i_listener_link_send`, and whether it was written -/
  | link (l : Listener) (frame : List UInt8) (written : Bool)
  /-- `listener_new_udp` returned `l` -/
  | listen (l : Listener)
  | close (fd : Fd)
  /-- session `s` of host `h` begins and ends -/
  | start (h : HostId) (s : SessId)
  | stop (h : HostId) (s : SessId)
  /-- `open(path)` for session `s`, and the descriptor it returned -/
  | openFile (h : HostId) (s : SessId) (path : Option CStr) (r : Option Fd)
  /-- an ARP table entry -/
  | arp (ip : Ip) (eth : Ether)

structure World where
  hosts : List Host
  gHosts : Option HostId
  sessions : List (Option Session)
  gNSessions : Int
  listeners : List Listener
  nextId : LisId
  fds : List (Option FdObj)
  rmpSid : Int
  out : List Io

abbrev M := EStateM Fault World

/-! ## Memory -/

open Bootd.Core

def loadHost (p : HostId) : M Host := do
  match (← get).hosts[p]? with
  | some h => pure h
  | none => throw .segv

/-- Following a session pointer: only records that were allocated and not
freed since can be read. -/
def loadSession (s : SessId) : M Session := do
  match Slots.get (← get).sessions s with
  | some ses => pure ses
  | none => throw .uaf

@[simps] def World.emit (w : World) (io : Io) : World := { w with out := w.out ++ [io] }

def emit (io : Io) : M Unit := modify (·.emit io)

@[simps] def World.setHost (w : World) (p : HostId) (f : Host → Host) : World :=
  { w with hosts := w.hosts.modify p f }

@[simps] def World.setSession (w : World) (s : SessId) (f : Session → Session) : World :=
  { w with sessions := Slots.update w.sessions s f }

/-- `h->session` of a host record. -/
def World.sessionOf (w : World) (p : HostId) : Option SessId := (w.hosts[p]?).bind Host.session

/-- `h->next` as a chain of the heap. -/
def World.next (w : World) (p : HostId) : Option (Option HostId) := (w.hosts[p]?).map Host.next

/-- The hosts on the chain that starts at `g_hosts`. -/
def World.Listed (w : World) (p : HostId) : Prop :=
  ∃ ps q, Chain.Path w.next w.gHosts ps q ∧ p ∈ ps

/-- The session record `s`, while it is allocated. -/
def World.live (w : World) (s : SessId) : Option Session := Slots.get w.sessions s

/-- What descriptor `fd` refers to. -/
def World.fdObj (w : World) (fd : Fd) : Option FdObj := Slots.get w.fds fd

/-- The descriptor the kernel returns next. -/
def World.freeFd (w : World) : Fd := Slots.free w.fds

@[simps] def World.openFd (w : World) (o : FdObj) : World := { w with fds := Slots.put w.fds o }

@[simps] def World.closeFd (w : World) (fd : Fd) : World := { w with fds := Slots.clear w.fds fd }

/-! ## Reading back -/

section
variable {w w' : World} {p q : HostId} {h : Host} {s t : SessId} {ses : Session} {fd : Fd}

@[simp] theorem loadHost_ok : loadHost p w = .ok h w' ↔ w.hosts[p]? = some h ∧ w = w' := by
  unfold loadHost
  simp only [Exec.bind_ok, Exec.get_ok]
  constructor
  · rintro ⟨_, _, ⟨rfl, rfl⟩, hr⟩
    cases hx : w.hosts[p]? <;> simp_all
  · rintro ⟨hh, rfl⟩
    exact ⟨w, w, ⟨rfl, rfl⟩, by simp [hh]⟩

@[simp] theorem loadSession_ok : loadSession s w = .ok ses w' ↔ w.live s = some ses ∧ w = w' := by
  unfold loadSession World.live
  simp only [Exec.bind_ok, Exec.get_ok]
  constructor
  · rintro ⟨_, _, ⟨rfl, rfl⟩, hr⟩
    cases hx : Slots.get w.sessions s <;> simp_all
  · rintro ⟨hs, rfl⟩
    exact ⟨w, w, ⟨rfl, rfl⟩, by simp [hs]⟩

@[simp] theorem loadHost_wp {Q : Host → World → Prop} {E : Fault → World → Prop} :
    Exec.wp (loadHost p) Q E w ↔
      (∀ h, w.hosts[p]? = some h → Q h w) ∧ (w.hosts[p]? = none → E .segv w) := by
  simp only [loadHost, Exec.wp_bind, Exec.wp_get]
  cases w.hosts[p]? <;> simp

@[simp] theorem loadSession_wp {Q : Session → World → Prop} {E : Fault → World → Prop} :
    Exec.wp (loadSession s) Q E w ↔
      (∀ ses, w.live s = some ses → Q ses w) ∧ (w.live s = none → E .uaf w) := by
  simp only [loadSession, Exec.wp_bind, Exec.wp_get, World.live]
  cases Slots.get w.sessions s <;> simp

@[simp] theorem emit_ok {io : Io} {u : Unit} : emit io w = .ok u w' ↔ w.emit io = w' := by
  simp [emit]

theorem sessionOf_some : w.sessionOf p = some s ↔ ∃ h, w.hosts[p]? = some h ∧ h.session = some s := by
  simp [World.sessionOf, Option.bind_eq_some_iff]

theorem sessionOf_eq (hh : w.hosts[p]? = some h) : w.sessionOf p = h.session := by
  simp [World.sessionOf, hh]

theorem live_setSession (w : World) (s t : SessId) (f : Session → Session) :
    (w.setSession s f).live t = if t = s then (w.live t).map f else w.live t :=
  Slots.get_update _ _ _ _

@[simp] theorem fdObj_freeFd (w : World) : w.fdObj w.freeFd = none := Slots.get_free _

theorem fdObj_openFd (w : World) (o : FdObj) (fd : Fd) :
    (w.openFd o).fdObj fd = if fd = w.freeFd then some o else w.fdObj fd := Slots.get_put _ _ _

end

/-! ## The program's own files -/

/-- From `w` to `w'` the program opened files of its own at most. -/
structure World.OpensOwn (w w' : World) : Prop where
  rest : w' = { w with fds := w'.fds }
  old : ∀ fd o, w.fdObj fd = some o → w'.fdObj fd = some o
  new : ∀ fd o, w'.fdObj fd = some o → w.fdObj fd = some o ∨ o = .own

section
variable {w w' w'' : World}

theorem World.OpensOwn.refl (w : World) : w.OpensOwn w := ⟨rfl, fun _ _ h => h, fun _ _ h => .inl h⟩

theorem World.OpensOwn.trans (h : w.OpensOwn w') (h' : w'.OpensOwn w'') : w.OpensOwn w'' where
  rest := by
    rw [h'.rest, h.rest]
  old fd o ho := h'.old fd o (h.old fd o ho)
  new fd o ho := (h'.new fd o ho).elim (h.new fd o) .inr

theorem World.opensOwn_open (w : World) : w.OpensOwn (w.openFd .own) where
  rest := rfl
  old fd o ho := by
    rw [fdObj_openFd, if_neg]
    · exact ho
    · rintro rfl
      simp at ho
  new fd o ho := by
    rw [fdObj_openFd] at ho
    split at ho
    · exact .inr (Option.some.inj ho).symm
    · exact .inl ho

theorem World.OpensOwn.hosts (h : w.OpensOwn w') : w'.hosts = w.hosts := by
  rw [h.rest]

theorem World.OpensOwn.gHosts (h : w.OpensOwn w') : w'.gHosts = w.gHosts := by
  rw [h.rest]

end

/-! ## Settings for runs on concrete inputs -/

/-- The default settings, with resolvers that know nothing. -/
def plainConf : Conf where
  cResolveEther := true
  cResolveIp := true
  cSessionMax := 5
  cSessionTimeout := 120
  strService _ := []
  inetAton _ := none
  etherAton _ := none
  inetNtoa _ := []
  etherNtoa e := e.octet.toList
  strerror _ := []

/-- A system on which everything works, and every file reads 1, 2, 3. The
listener of a client has no name, and `listener_add` stores through that NULL
pointer: on this machine the store goes unnoticed. -/
def plainOs : Os where
  now := 1000
  etherNtohost _ := none
  etherHostton _ := none
  gethostbyname _ := some (some 77)
  gethostbyaddr _ := none
  socket := true
  nullStore := true
  pastStore := false
  openf _ := .ok [1, 2, 3]
  lseek := true
  read := some 4096
  errno := .enoent
  stack _ := 0

def plainEther (n : UInt8) : Ether := ⟨#v[2, 0, 0, 0, 0, n]⟩

def plainFile : File where
  path := some (cstr "/boot/k")
  name := some (cstr "k")
  server := none
  aliases := .replicate _ none
  service := serviceAll

/-- A host named with one byte. -/
def plainHost (n : UInt8) : Host where
  next := none
  name := some [n]
  service := serviceAll
  eth := plainEther n
  ip := n.toUInt32
  files := [plainFile]
  session := none

/-- The listener on port 69. -/
def port69 : Listener := ⟨0, .udp, .tftp, 3, 0, .zero, none, .any, none, rfl⟩

/-- A daemon before its configuration, listening on port 69. -/
def emptyWorld : World where
  hosts := []
  gHosts := none
  sessions := []
  gNSessions := 0
  listeners := [port69]
  nextId := 1
  fds := [some (.stream none), some (.stream none), some (.stream none), some .socket]
  rmpSid := 1
  out := []

/-- The daemon with one host configured, at address 1. -/
def oneHost : World := { emptyWorld with hosts := [plainHost 1], gHosts := some 0 }

end Bootd
