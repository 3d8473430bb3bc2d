import Bootd.L3Protocol.Rmp
import Bootd.L3Protocol.Tftp
import Bootd.L4Daemon.HostTable

/-!
# The daemon over a run

`daemon` takes one step per packet that reaches a TFTP handler or the link
level handlers, with arbitrary contents from arbitrary senders, and with any
answers of the system. A step is a handler that returns; a packet on which it
faults ends the run, and what such a packet leaves in the trace is
`traceOf (e.handle c) w`. `hist` keeps the trace of every packet handled.

`Boot` is the state in which `service_start` leaves the daemon: the table the
configuration built, no sessions, no open files, and listeners on
unconnected sockets.

* `Ev.host`, `Ev.file`: the listed host that a packet is charged to, and the
  file of that host it asks for, as functions of the memory before the packet.
-/
namespace Bootd

open Bootd.Core

/-! ## Packets -/

/-- A packet, with what the system answers while it is handled. -/
inductive Ev
  | udp (os : Os) (l : Listener) (frm loc : SockAddr) (pkt : Pkt)
  | link (os : Os) (l : Listener) (p : Pkt)

def Ev.os : Ev → Os
  | .udp os _ _ _ _ => os
  | .link os _ _ => os

/-- The frame goes to `rmp_handler`. -/
def Pkt.isSapHp (p : Pkt) : Bool :=
  p.u16 12 ≠ ethertypeRevarp ∧ p.u16 12 < 1536 ∧ p.mem 14 = sapHp

/-- mirrors src/listener.c:669-710 -/
def linkCallback (c : Conf) (os : Os) (l : Listener) (p : Pkt) : M Unit :=
  if p.u16 12 = ethertypeRevarp then rarpHandler os l p
  else if p.isSapHp then rmpHandler c os l p
  else pure ()

def Ev.handle (c : Conf) : Ev → M Unit
  | .udp os l frm loc pkt => tftpHandler c os l frm loc pkt
  | .link os l p => linkCallback c os l p

/-- A packet on which the handler faults is not answered. -/
theorem handle_sendsLast (c : Conf) (e : Ev) : SendsLast (e.handle c) := by
  cases e with
  | udp os l frm loc pkt => exact tftpHandler_sendsLast
  | link os l p => exact .ite rarpHandler_sendsLast (.ite rmpHandler_sendsLast (Emits.pure ()).last)

/-- The packet arrives on a registered listener, at its service. -/
def Ev.Enabled (w : World) : Ev → Prop
  | .udp _ l _ _ _ => l ∈ w.listeners ∧ l.service = .tftp
  | .link _ l _ => l ∈ w.listeners ∧ l.service = .link

/-! ## Runs -/

structure Sys where
  w : World
  hist : List (List Io)

/-- Everything that happened, oldest first. -/
def Sys.past (σ : Sys) : List Io := σ.hist.flatten

/-- A host table as the configuration can build it. -/
def Configured (c : Conf) (w : World) : Prop :=
  ∃ t : Table, ((hostTable c).guard fun _ op => ∃ os h, op = .add os h).Reachable t ∧
    t.w.hosts = w.hosts ∧ t.w.gHosts = w.gHosts

/-- The daemon after `service_start`; no file has been opened for a session. -/
structure Boot (c : Conf) (w : World) : Prop where
  hosts : Configured c w
  sessions : w.sessions = []
  gN : w.gNSessions = 0
  rmpSid : w.rmpSid = 1
  ids : (w.listeners.map Listener.id).Nodup
  listeners : ∀ l ∈ w.listeners, l.id < w.nextId ∧ l.peer = none ∧ w.fdObj l.fd = some .socket
  files : ∀ fd o, w.fdObj fd = some o → o.isFile = false
  stdin : w.fdObj 0 ≠ none

def daemon (c : Conf) : LTS Sys Ev where
  init σ := Boot c σ.w ∧ σ.hist = []
  step σ e σ' := e.Enabled σ.w ∧ e.handle c σ.w.start = .ok () σ'.w ∧ σ'.hist = σ.hist ++ [σ'.w.out]

/-! ## What a packet asks for -/

/-- An RMP packet for this daemon. -/
def Ev.isRmp : Ev → Bool
  | .udp _ _ _ _ _ => false
  | .link _ l p => p.isSapHp && p.isRmp l.eth

/-- The listed host a packet is charged to: the one with the sender's address,
or the template that a boot request from an unknown machine names. -/
def Ev.host (w : World) : Ev → Except Fault (Option HostId)
  | .udp _ _ frm _ _ => utilIp2host w frm.addr
  | .link os l p =>
    if (Ev.link os l p).isRmp then
      match utilEther2host w p.rmpSaddr with
      | .ok none => if p.rmpOp = .bootReq then utilName2host w p.rmpMachtype else .ok none
      | r => r
    else .ok none

/-- An RMP boot request. -/
def Ev.isBoot : Ev → Bool
  | .udp _ _ _ _ _ => false
  | .link _ _ p => p.rmpOp = .bootReq

/-- The packet is served as a new clone of that host. -/
def Ev.clones (w : World) : Ev → Prop
  | .udp _ _ _ _ _ => False
  | .link os l p => (Ev.link os l p).isRmp = true ∧ (Ev.link os l p).isBoot = true ∧
      utilEther2host w p.rmpSaddr = .ok none

/-- The file of `host` that a read request or a normal boot request asks for. -/
def Ev.file (host : Host) : Ev → Option File
  | .udp _ _ _ _ pkt =>
    if host.service &&& serviceTftp ≠ 0 ∧ pkt.tftpOp = .rrq then tftpFile host pkt else none
  | .link _ _ p =>
    if host.service &&& serviceRmp ≠ 0 ∧ p.rmpOp = .bootReq ∧ p.rmpBootVersion = rmpVersion ∧
        p.rmpSession ≠ rmpProbesid then rmpFile host p
    else none

/-- A boot-done message that `host` may send. -/
def Ev.done (host : Host) : Ev → Prop
  | .udp _ _ _ _ _ => False
  | .link _ _ p => host.service &&& serviceRmp ≠ 0 ∧ p.rmpOp = .bootDone

/-- The packet asks for the file `f`, charged to the listed host `t`. -/
def Ev.Requests (w : World) (e : Ev) (t : HostId) (f : File) : Prop :=
  e.host w = .ok (some t) ∧ ∃ host, w.hosts[t]? = some host ∧ e.file host = some f

/-! ## A daemon with one host, for runs on concrete packets -/

/-- The link level listener. -/
def linkPort : Listener :=
  ⟨1, .link, .link, 4, 7, plainEther 99, some (cstr "boot"), .any, none, rfl⟩

/-- The daemon at work, with a seekable standard input. -/
def served : World :=
  { oneHost with
    listeners := [port69, linkPort]
    nextId := 2
    fds := [some (.stream (some [7, 7])), some (.stream none), some (.stream none), some .socket,
      some .socket] }

theorem boot_max (n : Int) : Boot { plainConf with cSessionMax := n } served where
  hosts := by
    refine ⟨⟨oneHost, [0]⟩, ?_, rfl, rfl⟩
    refine tableRun_reachable (t := ⟨emptyWorld, []⟩) [.add plainOs (plainHost 1)]
      (fun op hm t => ?_) (LTS.reachable_init ⟨rfl, rfl, rfl⟩) rfl
    exact ⟨_, _, List.mem_singleton.mp hm⟩
  sessions := rfl
  gN := rfl
  rmpSid := rfl
  ids := by decide
  listeners l hl := by
    rcases List.mem_pair.mp hl with rfl | rfl
    · exact ⟨by decide, rfl, rfl⟩
    · exact ⟨by decide, rfl, rfl⟩
  files fd o h := by
    match fd, h with
    | 0, h | 1, h | 2, h | 3, h | 4, h => cases h; rfl
  stdin := by simp [World.fdObj, served, Slots.get]

theorem boot_served : Boot plainConf served := boot_max 5

/-- Whether `m` returns. -/
def returns (m : M Unit) (w : World) : Bool :=
  match m w with
  | .ok _ _ => true
  | .error _ _ => false

/-- The system after a packet on which the handler returns. -/
def Sys.next (c : Conf) (σ : Sys) (e : Ev) : Sys :=
  let w := Exec.final (e.handle c) σ.w.start
  ⟨w, σ.hist ++ [w.out]⟩

theorem daemon_next {c : Conf} {σ : Sys} {e : Ev} (he : e.Enabled σ.w)
    (hr : returns (e.handle c) σ.w.start = true) : (daemon c).step σ e (σ.next c e) := by
  refine ⟨he, ?_, rfl⟩
  unfold returns at hr
  unfold Sys.next Exec.final
  split at hr
  · rename_i h; simp only [h]
  · cases hr

theorem sys_next_eq {c : Conf} {σ : Sys} {e : Ev} {u : Unit} {w' : World}
    (hr : e.handle c σ.w.start = .ok u w') : (σ.next c e).w = w' := by
  simp only [Sys.next, Exec.final, hr]

/-- A packet on which the handler faults is not answered. -/
theorem next_faults {c : Conf} {σ : Sys} {e : Ev} (hn : ¬Exec.Returns (e.handle c) σ.w.start) :
    (σ.next c e).w.sends = [] := by
  obtain ⟨err, w', hr⟩ := Exec.error_of_not_returns hn
  have hnone : ∀ io ∈ w'.out, io.isSend = false :=
    Exec.wp_error ((handle_sendsLast c e).wp σ.w.start fun io hio => by cases hio) hr
  have hw : (σ.next c e).w = w' := by simp only [Sys.next, Exec.final, hr]
  rw [hw]
  exact sends_nil hnone

def bootSys : Sys := ⟨served, []⟩

theorem bootSys_reachable : (daemon plainConf).Reachable bootSys :=
  LTS.reachable_init ⟨boot_served, rfl⟩

/-- A read request for the file `k` from address 1, port 1024. -/
def readK (os : Os) : Ev := .udp os port69 ⟨1, 1024⟩ ⟨7, 69⟩ (.ofBytes ([0, 1] ++ cstr "k" ++ [0]))

/-- The client of address 1 reads the file `k`. -/
def reading : Sys := bootSys.next plainConf (readK plainOs)

theorem readK_step : (daemon plainConf).step bootSys (readK plainOs) reading :=
  daemon_next ⟨List.mem_cons_self, rfl⟩ (by decide +kernel)

theorem reading_reachable : (daemon plainConf).Reachable reading := bootSys_reachable.step readK_step

/-- An RMP frame of type `op` to the server, with what follows the session id. -/
def rmpFrame (eth : Ether) (op : UInt8) (session : Nat) (rest : List UInt8) : Pkt :=
  .ofBytes (rmpAddr.octet.toList ++ eth.octet.toList ++ be16 60 ++ [sapHp, sapHp] ++ be16 cntlHp ++
    be16 0 ++ be16 dxsapHp ++ be16 sxsapHp ++ [op, 0, 0, 0, 0, 0] ++ be16 session ++ rest)

/-- A boot request of the machine `eth`, of the type that is host 0's name, for
the file `k`. -/
def bootK (os : Os) (eth : Ether) (session : Nat) : Ev :=
  .link os linkPort (rmpFrame eth 1 session
    (be16 rmpVersion ++ [1] ++ List.replicate 19 0x20 ++ [1] ++ cstr "k"))

end Bootd
