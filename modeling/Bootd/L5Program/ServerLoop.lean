import Bootd.Core.Walk
import Bootd.L3Protocol.Bootparam
import Bootd.L3Protocol.Dhcp
import Bootd.L4Daemon.Track
import Bootd.L5Program.Startup

/-!
# The server loop (`listener_select`, `listener.c:376-411`)

`server` takes one step per call of `listener_select`: `select` names the
descriptors that are ready, and the loop after it goes along `g_listeners` and
calls the `receive` handler of each listener whose descriptor is among them. A
handler may append to the list while the loop goes along it: a read request
makes a listener for the transfer.

What the kernel has for a listener is asked for when its handler runs, so it may
depend on all that happened before; a DHCP request and an RPC call are events of
the loop too, though not of `daemon`.

* `select_serves`: a call serves the listeners that were ready, each once and in
  their order; it follows no stale pointer, and it passes by the listeners it has made
  unless one of them has a descriptor for which there is no room in the set.
* `server_simulates`: a call is a run of `daemon`.
* `program_refines`: so is whatever the program does after `service_start`, with the
  same calls of the system in the same order.
* `program_exhausts`: each read request adds a listener for good, and the descriptor
  set has room for 1024.
-/
namespace Bootd

open Bootd.Core

/-! ## The `receive` handlers -/

/-- A call that the RPC library hands to a service, with the port of its transport. -/
inductive RpcCall
  | whoami (pip : Ip) (port : Nat)
  | getfile (clientName fileId : CStr) (port : Nat)

def RpcCall.run (w : World) : RpcCall → Except Fault Unit
  | .whoami pip port => (bootparamprocWhoami w pip port).map fun _ => ()
  | .getfile clientName fileId port => (bootparamprocGetfile w clientName fileId port).map fun _ => ()

/-- What the kernel and the libraries have for a listener. -/
structure Arrival where
  os : Os
  /-- what `recvfrom` returns, or `pcap_loop` hands on -/
  pkt : Option Pkt
  frm : SockAddr
  /-- `getsockname` -/
  loc : Option SockAddr
  /-- the calls that `svc_getreqset` makes -/
  calls : List RpcCall

/-- mirrors src/listener.c:792-829 -/
def iListenerUdpReceive (c : Conf) (l : Listener) (a : Arrival) : M Unit :=
  match a.pkt, a.loc with
  | some pkt, some loc =>
    match l.service with
    | .tftp => tftpHandler c a.os l a.frm loc pkt
    | .dhcp => dhcpHandler l pkt
    -- rejected: there is no service handler
    | .link => pure ()
  | _, _ => pure ()

/-- mirrors src/listener.c:724-729 -/
def iListenerLinkReceive (c : Conf) (l : Listener) (a : Arrival) : M Unit :=
  match a.pkt with
  | some p => linkCallback c a.os l p
  | none => pure ()

def rpcCalls : List RpcCall → M Unit
  | [] => pure ()
  | call :: calls => do
    Exec.liftE (call.run (← get))
    rpcCalls calls

/-- mirrors src/listener.c:894-906 -/
def iListenerRpcUdpReceive (a : Arrival) : M Unit := rpcCalls a.calls

/-- `l->receive`. Only `listener_new_udp` is given a service. -/
def Listener.receive (c : Conf) (l : Listener) (a : Arrival) : M Unit :=
  match l.service, l.type with
  | .link, .link => iListenerLinkReceive c l a
  | .link, .rpcUdp => iListenerRpcUdpReceive a
  | _, _ => iListenerUdpReceive c l a

/-- The system after the handler. -/
def Sys.receive (c : Conf) (σ : Sys) (l : Listener) (a : Arrival) : Except Fault Sys :=
  match l.receive c a σ.w.start with
  | .ok () w => .ok ⟨w, σ.hist ++ [w.out]⟩
  | .error f _ => .error f

/-! ## `listener_select` -/

/-- `l->next`, as the list is now. -/
def World.nextListener (w : World) (l : Listener) : Except Fault (Option Listener) :=
  match w.listeners.dropWhile (·.id ≠ l.id) with
  | [] => .error .uaf
  | _ :: ls => .ok ls.head?

/-- `FD_SETSIZE` -/
def fdSetsize : Nat := 1024

/-- The greatest descriptor, or `m`. -/
def maxFd (m : Nat) (ls : List Listener) : Nat := ls.foldl (fun m l => if m < l.fd then l.fd else m) m

/-- The set of the listeners' descriptors, and the greatest. -/
def fdsOf (ls : List Listener) : (Fd → Bool) × Fd := (fun fd => ls.any (·.fd == fd), maxFd 0 ls)

/-- The first loop. mirrors src/listener.c:383-393 -/
def listenerFds (ls : List Listener) : Except Fault ((Fd → Bool) × Fd) :=
  -- `FD_SET` does not look whether there is room for the descriptor
  if ls.all (·.fd < fdSetsize) then .ok (fdsOf ls)
  else .error .segv

/-- What `select` leaves of the set: it looks at the descriptors below its first argument. -/
def selectSet (ready : Fd → Bool) (fds : (Fd → Bool) × Fd) : Fd → Bool := fun fd =>
  fds.1 fd && decide (fd < fds.2 + 1) && ready fd

/-- `FD_ISSET`. Behind the set it finds what stands there, `none` if the process ends for it. -/
def fdIsset (set : Fd → Bool) (past : Fd → Option Bool) (fd : Fd) : Except Fault Bool :=
  if fd < fdSetsize then .ok (set fd)
  else
    match past fd with
    | some b => .ok b
    | none => .error .segv

/-- What the system does in a call. -/
structure Round where
  /-- what `select` finds, and nothing if it fails -/
  ready : Option (Fd → Bool)
  /-- what stands behind the set when `FD_ISSET` looks there -/
  past : Sys → Fd → Option Bool
  answer : Sys → Listener → Arrival

/-- The body of the second loop. mirrors src/listener.c:403-409 -/
def Sys.selected (c : Conf) (r : Round) (set : Fd → Bool) (σ : Sys) (l : Listener) : Except Fault Sys := do
  if ← fdIsset set (r.past σ) l.fd then σ.receive c l (r.answer σ l) else .ok σ

/-- The second loop, from a listener on. mirrors src/listener.c:402-410 -/
def selectFrom (c : Conf) (r : Round) (set : Fd → Bool) (fuel : Nat) (o : Option Listener) (σ : Sys) :
    Except Fault Sys :=
  Walk.walk .hang (fun σ l => σ.w.nextListener l) (Sys.selected c r set) fuel o σ

/-- mirrors src/listener.c:376-411 -/
def listenerSelect (c : Conf) (r : Round) (fuel : Nat) (σ : Sys) : Except Fault Sys := do
  let fds ← listenerFds σ.w.listeners
  match r.ready with
  | none => .ok σ
  | some ready => selectFrom c r (selectSet ready fds) fuel σ.w.listeners.head? σ

/-- mirrors src/bootd.c:24-26 -/
def server (c : Conf) : LTS Sys Round where
  init σ := Boot c σ.w ∧ σ.hist = []
  step σ r σ' := ∃ fuel, listenerSelect c r fuel σ = .ok σ'

/-! ## What a packet does to the list -/

/-- The list has no repetition, and new records get new numbers. -/
structure ListenerIds (w : World) : Prop where
  nodup : (w.listeners.map Listener.id).Nodup
  lt : ∀ l ∈ w.listeners, l.id < w.nextId

/-- The listener that was made. -/
def Io.made : Io → Option Listener
  | .listen l => some l
  | _ => none

/-- At most one listener is made, on a descriptor that was free, and it is appended. -/
structure Enlists (w w' : World) (o : Option Listener) : Prop where
  listeners : w'.listeners = w.listeners ++ o.toList
  nextId : w.nextId ≤ w'.nextId
  new : ∀ l ∈ o, w.nextId ≤ l.id ∧ l.id < w'.nextId ∧ w.fdObj l.fd = none
  made : w'.out.filterMap Io.made = w.out.filterMap Io.made ++ o.toList

/-- A read request for a file, while there are sockets. -/
def Ev.Transfers (host : Host) : Ev → Prop
  | .udp os l frm loc pkt => (Ev.udp os l frm loc pkt).file host ≠ none ∧ os.socket = true
  | .link _ _ _ => False

section
variable {c : Conf} {e : Ev} {w w₁ w₂ w' : World} {h t : HostId} {host : Host} {nl o : Option Listener}
  {L : List HostId} {u : Unit} {l : Listener} {os : Os} {dst : SockAddr}

theorem Enlists.of_eq (hl : w'.listeners = w.listeners) (hn : w'.nextId = w.nextId)
    (ho : Appends (fun io => io.made = none) w w') : Enlists w w' none := by
  obtain ⟨ios, hout, hios⟩ := ho
  refine ⟨by rw [hl]; simp, hn.ge, fun l hl => (by cases hl), ?_⟩
  rw [hout, List.filterMap_append, List.filterMap_eq_nil_iff.mpr hios]
  simp

/-- What comes before may make no listener, and closes nothing. -/
theorem Enlists.after (h₁ : Enlists w w₁ none) (hfds : ∀ fd o, w.fdObj fd = some o → w₁.fdObj fd = some o)
    (h : Enlists w₁ w' o) : Enlists w w' o where
  listeners := by
    rw [h.listeners, h₁.listeners]
    simp
  nextId := h₁.nextId.trans h.nextId
  new l hm := by
    obtain ⟨hid, hlt, hfd⟩ := h.new l hm
    refine ⟨h₁.nextId.trans hid, hlt, ?_⟩
    by_contra hne
    obtain ⟨x, hx⟩ := Option.ne_none_iff_exists'.mp hne
    rw [hfds _ _ hx] at hfd
    cases hfd
  made := by
    rw [h.made, h₁.made]
    simp

theorem Enlists.before (h : Enlists w w₁ o) (h₁ : Enlists w₁ w' none) : Enlists w w' o where
  listeners := by
    rw [h₁.listeners, h.listeners]
    simp
  nextId := h.nextId.trans h₁.nextId
  new l hm := by
    obtain ⟨hid, hlt, hfd⟩ := h.new l hm
    exact ⟨hid, hlt.trans_le h₁.nextId, hfd⟩
  made := by
    rw [h₁.made, h.made]
    simp

theorem ListenerIds.enlists (hn : ListenerIds w) (h : Enlists w w' o) : ListenerIds w' := by
  have hold : ∀ l ∈ w.listeners, l.id < w'.nextId := fun l hl => (hn.lt l hl).trans_le h.nextId
  cases o with
  | none =>
    have hl : w'.listeners = w.listeners := by simpa using h.listeners
    refine ⟨by rw [hl]; exact hn.nodup, fun l hm => hold l (by rwa [hl] at hm)⟩
  | some new =>
    have hl : w'.listeners = w.listeners ++ [new] := h.listeners
    obtain ⟨hid, hlt, -⟩ := h.new new rfl
    refine ⟨?_, fun l hm => ?_⟩
    · rw [hl, List.map_append, List.map_singleton, List.nodup_append]
      refine ⟨hn.nodup, List.nodup_singleton _, fun a ha b hb => ?_⟩
      obtain ⟨k, hk, rfl⟩ := List.mem_map.mp ha
      rw [List.mem_singleton.mp hb]
      exact Nat.ne_of_lt ((hn.lt k hk).trans_le hid)
    · rw [hl] at hm
      rcases List.mem_append.mp hm with hm | hm
      · exact hold l hm
      · rw [List.mem_singleton.mp hm]
        exact hlt

theorem NewListener.enlists (hd : Descriptors w) (hn : NewListener os dst w nl w') :
    Enlists w w' nl ∧ (nl ≠ none ↔ os.socket = true) := by
  cases hn with
  | failed hs => exact ⟨.of_eq rfl rfl (.of_eq rfl), by simp [hs]⟩
  | created l hs hid hfd hp hsvc =>
    refine ⟨⟨?_, Nat.le_succ _, fun k hk => ?_, by simp [Io.made]⟩, by simp [hs]⟩
    · -- the descriptors of the listed ones are in use
      have hany : w.listeners.any (·.fd == l.fd) = false := by
        refine List.any_eq_false.mpr fun k hk he => ?_
        have hsock := hd.listeners k hk
        rw [beq_iff_eq.mp he, hfd, fdObj_freeFd] at hsock
        cases hsock
      simp [hany]
    · cases hk
      refine ⟨hid.ge, hid ▸ Nat.lt_succ_self _, ?_⟩
      rw [hfd]
      exact fdObj_freeFd w

theorem Ends.enlists {es : List (HostId × SessId)} (hd : Descriptors w) (he : Ends es w w') : Enlists w w' none :=
  .of_eq (hd.ends he).2.1 he.frame.nextId (hd.ends_appends he fun _ _ => rfl)

theorem Prelude.enlists (hd : Descriptors w) (hpre : Prelude h w e nl w') (hf : e.file host ≠ none) :
    Enlists w w' nl ∧ (nl ≠ none ↔ e.Transfers host) := by
  cases hpre with
  | tftp os l frm loc pkt es w₁ nl w₂ he hown hnl =>
    obtain ⟨-, hl, -, hc⟩ := hd.ends he
    obtain ⟨hnew, hiff⟩ := hnl.enlists (hc.descriptors hl hd)
    exact ⟨(he.enlists hd).after hc.fds hnew, hiff.trans ⟨fun hs => ⟨hf, hs⟩, fun ht => ht.2⟩⟩
  | rmp => exact ⟨.of_eq rfl rfl (.of_eq rfl), by simp [Ev.Transfers]⟩

theorem Plain.appends {ios : List Io} (hp : Plain ios) : Appends (fun io => io.made = none) w (w.emits ios) := by
  refine ⟨ios, rfl, fun io hio => ?_⟩
  have hpacket := (hp io hio).1
  cases io <;> first | rfl | cases hpacket

theorem ReadsFrom.appends {ios : List Io} {fd : Fd} (hout : w'.out = w.out ++ ios) (hr : ReadsFrom w₁ fd ios) :
    Appends (fun io => io.made = none) w w' := by
  refine ⟨ios, hout, fun io hio => ?_⟩
  have hpacket := (hr io hio).1
  cases io <;> first | rfl | cases hpacket

theorem Granting.enlists {svc : Nat} {sid : Int} {f : File} (hd : Descriptors w)
    (hg : Granting c os svc sid h f w w') : Enlists w w' none := by
  have hl := (granting_carried hd hg).1
  cases hg with
  | busy ios _ hp => exact .of_eq hl rfl hp.appends
  | failed ses err ios _ _ _ hp =>
    have ho : Appends (fun io => io.made = none) w ((w.startSession h ses).openFailed h w.sessions.length f.path) :=
      ⟨[.start h w.sessions.length, .openFile h w.sessions.length f.path none], by simp, by simp [Io.made]⟩
    exact .of_eq hl rfl (ho.trans hp.appends)
  | opened ses d g ios w' _ _ _ _ hw hr =>
    subst hw
    have ho : Appends (fun io => io.made = none) w ((w.startSession h ses).opened h w.sessions.length f.path d) :=
      ⟨[.start h w.sessions.length, .openFile h w.sessions.length f.path (some w.freeFd)], by simp, by simp [Io.made]⟩
    exact .of_eq hl rfl (ho.trans (hr.appends rfl))

theorem Admitted.enlists (hok : HostsOk w L) (ha : Admitted c w e t h w₁) : Enlists w w₁ none := by
  obtain ⟨-, hl, ho⟩ := ha.carried hok
  refine .of_eq hl ?_ (.of_eq ho)
  cases ha with
  | known => rfl
  | cloned os l p t tmpl h b w' hhost hcl htm hadd => exact (clone_ok hok (Ev.host_mem hok hhost) htm hadd).2.1.nextId

/-- Only the read request that makes a listener for its transfer touches the list. -/
theorem Served.enlists (hd : Descriptors w) (hs : Served c e h host w w') :
    ∃ o, Enlists w w' o ∧ (o ≠ none ↔ e.Transfers host) := by
  have hno : e.file host = none → ((none : Option Listener) ≠ none ↔ e.Transfers host) := by
    intro hf
    cases e with
    | udp => simp [Ev.Transfers, hf]
    | link => simp [Ev.Transfers]
  cases hs with
  | plain ios hf hp => exact ⟨none, .of_eq rfl rfl hp.appends, hno hf⟩
  | answer s ses ios hf _ _ _ hr => exact ⟨none, .of_eq rfl rfl (hr.appends rfl), hno hf⟩
  | done es w' hf _ he => exact ⟨none, he.enlists hd, hno hf⟩
  | request f nl w₀ ps w₃ w' hf hpre hpath hlive he hlt hnone hg _ =>
    obtain ⟨hd₀, hc₀⟩ := hd.prelude hpre
    obtain ⟨-, hl₃, -, hc₃⟩ := hd₀.ends he
    have hne : e.file host ≠ none := by simp [hf]
    obtain ⟨hnew, hiff⟩ := hpre.enlists hd hne
    exact ⟨nl, (hnew.before (he.enlists hd₀)).before (hg.enlists (hc₃.descriptors hl₃ hd₀)), hiff⟩

theorem handle_enlists (hok : HostsOk w L) (hd : Descriptors w) (hr : e.handle c w = .ok u w') :
    ∃ o, Enlists w w' o := by
  rcases handle_ok hr with ⟨ios, hp, rfl⟩ | ⟨t, h, w₁, host, ha, hh, hs⟩
  · exact ⟨none, .of_eq rfl rfl hp.appends⟩
  · obtain ⟨hc₁, hl₁, -⟩ := ha.carried hok
    obtain ⟨o, ho, -⟩ := hs.enlists (hc₁.descriptors hl₁ hd)
    exact ⟨o, (ha.enlists hok).after hc₁.fds ho⟩

theorem daemon_listenerIds (σ : Sys) (hr : (daemon c).Reachable σ) : ListenerIds σ.w := by
  have hind : (daemon c).Inductive fun σ => (∃ L, HostsOk σ.w L) ∧ Descriptors σ.w ∧ ListenerIds σ.w := by
    refine ⟨fun σ h => ⟨boot_hostsOk h.1, boot_descriptors h.1, h.1.ids, fun l hl => (h.1.listeners l hl).1⟩,
      fun σ e σ' hi hs => ?_⟩
    obtain ⟨⟨L, hok⟩, hd, hn⟩ := hi
    obtain ⟨o, ho⟩ := handle_enlists hok.start hd.start hs.2.1
    have hn : ListenerIds σ.w.start := ⟨hn.nodup, hn.lt⟩
    exact ⟨handle_hostsOk hok.start hs.2.1, (handle_carried hok.start hd.start hs.2.1).1, hn.enlists ho⟩
  exact (hind.reachable σ hr).2.2

end

/-! ## The loop and the daemon -/

/-- The same daemon, but for what it has written down of the last packet. -/
structure Sys.Same (σ σ₀ : Sys) : Prop where
  w : σ.w.start = σ₀.w.start
  past : σ.past = σ₀.past

/-- The state is one of `daemon`. -/
def Sys.Reached (c : Conf) (σ : Sys) : Prop := ∃ σ₀, (daemon c).Reachable σ₀ ∧ σ.Same σ₀

section
variable {c : Conf} {w w' : World} {l : Listener} {a : Arrival} {u : Unit} {σ σ' σ₀ : Sys} {ls : List Listener}
  {set ready : Fd → Bool} {past : Fd → Option Bool} {r : Round} {fuel : Nat}

theorem Sys.Same.listeners (h : σ.Same σ₀) : σ.w.listeners = σ₀.w.listeners := by
  show σ.w.start.listeners = σ₀.w.start.listeners
  rw [h.w]

theorem Sys.Same.nextId (h : σ.Same σ₀) : σ.w.nextId = σ₀.w.nextId := by
  show σ.w.start.nextId = σ₀.w.start.nextId
  rw [h.w]

theorem Sys.Same.fdObj (h : σ.Same σ₀) (fd : Fd) : σ.w.fdObj fd = σ₀.w.fdObj fd := by
  show σ.w.start.fdObj fd = σ₀.w.start.fdObj fd
  rw [h.w]

theorem rpcCalls_ok {calls : List RpcCall} (hr : rpcCalls calls w = .ok u w') : w' = w := by
  induction calls with
  | nil => exact (Exec.pure_ok.mp hr).2.symm
  | cons call calls ih =>
    simp only [rpcCalls, Exec.bind_ok, Exec.get_ok, Exec.liftE_ok_iff] at hr
    obtain ⟨_, _, ⟨rfl, rfl⟩, _, _, ⟨-, rfl⟩, hr⟩ := hr
    exact ih hr

/-- A handler serves a packet of `daemon`, or it leaves the memory alone. -/
theorem receive_cases (hr : l.receive c a w = .ok u w') :
    w' = w ∨ ∃ e : Ev, (∀ x : World, l ∈ x.listeners → e.Enabled x) ∧ e.handle c w = .ok u w' := by
  have hudp : iListenerUdpReceive c l a w = .ok u w' → w' = w ∨
      ∃ e : Ev, (∀ x : World, l ∈ x.listeners → e.Enabled x) ∧ e.handle c w = .ok u w' := by
    intro hr
    cases hp : a.pkt with
    | none =>
      simp only [iListenerUdpReceive, hp] at hr
      exact .inl (Exec.pure_ok.mp hr).2.symm
    | some pkt =>
      cases hloc : a.loc with
      | none =>
        simp only [iListenerUdpReceive, hp, hloc] at hr
        exact .inl (Exec.pure_ok.mp hr).2.symm
      | some loc =>
        cases hsvc : l.service <;> simp only [iListenerUdpReceive, hp, hloc, hsvc] at hr
        · exact .inr ⟨.udp a.os l a.frm loc pkt, fun x hl => ⟨hl, hsvc⟩, hr⟩
        · exact .inl (dhcpHandler_ok hr)
        · exact .inl (Exec.pure_ok.mp hr).2.symm
  cases hsvc : l.service with
  | tftp | dhcp =>
    simp only [Listener.receive, hsvc] at hr
    exact hudp hr
  | link =>
    cases hty : l.type <;> simp only [Listener.receive, hsvc, hty] at hr
    · cases hp : a.pkt <;> simp only [iListenerLinkReceive, hp] at hr
      · exact .inl (Exec.pure_ok.mp hr).2.symm
      · rename_i p
        exact .inr ⟨.link a.os l p, fun x hl => ⟨hl, hsvc⟩, hr⟩
    · exact hudp hr
    · exact .inl (rpcCalls_ok hr)

theorem sys_receive_ok (hr : σ.receive c l a = .ok σ') :
    l.receive c a σ.w.start = .ok () σ'.w ∧ σ'.hist = σ.hist ++ [σ'.w.out] := by
  unfold Sys.receive at hr
  split at hr
  · rename_i w hw
    cases hr
    exact ⟨hw, rfl⟩
  · cases hr

/-- What happens at one listener is a step of `daemon`, or nothing. -/
theorem Sys.Same.receive (h : σ.Same σ₀) (hl : l ∈ σ.w.listeners) (hr : σ.receive c l a = .ok σ') :
    σ'.Same σ₀ ∨ ∃ e σ₁, (daemon c).step σ₀ e σ₁ ∧ σ'.Same σ₁ := by
  obtain ⟨hrun, hhist⟩ := sys_receive_ok hr
  have hpast : σ'.past = σ.past ++ σ'.w.out := by simp [Sys.past, hhist]
  rcases receive_cases hrun with hw | ⟨e, hen, he⟩
  · refine .inl ⟨?_, ?_⟩
    · rw [← h.w, hw]
      rfl
    · rw [hpast, hw, ← h.past]
      exact List.append_nil _
  · rw [h.w] at he
    refine .inr ⟨e, ⟨σ'.w, σ₀.hist ++ [σ'.w.out]⟩, ⟨hen σ₀.w (h.listeners ▸ hl), he, rfl⟩, rfl, ?_⟩
    rw [hpast, h.past]
    simp [Sys.past]

/-! ## One call -/

theorem ListenerIds.next (hn : ListenerIds w) {pre post : List Listener}
    (hl : w.listeners = pre ++ l :: post) : w.nextListener l = .ok post.head? := by
  have hids := hn.nodup
  rw [hl, List.map_append, List.map_cons, List.nodup_append] at hids
  have hpre : ∀ k ∈ pre, decide (k.id ≠ l.id) = true := fun k hk =>
    decide_eq_true (hids.2.2 k.id (List.mem_map_of_mem hk) l.id List.mem_cons_self)
  unfold World.nextListener
  rw [hl, List.dropWhile_append_of_pos hpre, List.dropWhile_cons_of_neg (by simp)]

theorem fdIsset_below (hlt : l.fd < fdSetsize) : fdIsset set past l.fd = .ok (set l.fd) := if_pos hlt

/-- What happens at a listener for whose descriptor there is room in the set. -/
theorem selected_below (hlt : l.fd < fdSetsize) :
    Sys.selected c r set σ l = if set l.fd then σ.receive c l (r.answer σ l) else .ok σ := by
  unfold Sys.selected
  rw [fdIsset_below hlt]
  rfl

theorem selected_cases (h : Sys.selected c r set σ l = .ok σ') :
    σ' = σ ∨ σ.receive c l (r.answer σ l) = .ok σ' := by
  obtain ⟨b, -, h⟩ := except_bind_ok h
  cases b with
  | true => exact .inr h
  | false => exact .inl (Except.ok.inj h).symm

/-- In a call with the set `set` that began with the listeners `ls`: the descriptors in the set stay
open, and so those of new listeners are not among them. -/
structure Selecting (c : Conf) (set : Fd → Bool) (ls : List Listener) (σ : Sys) : Prop where
  reached : σ.Reached c
  used : ∀ fd, set fd = true → σ.w.fdObj fd ≠ none
  made : ∃ new, σ.w.listeners = ls ++ new ∧ ∀ l ∈ new, set l.fd = false

theorem Selecting.receive (h : Selecting c set ls σ) (hl : l ∈ σ.w.listeners)
    (hrec : σ.receive c l a = .ok σ') :
    Selecting c set ls σ' ∧ ∃ o : Option Listener, σ'.w.listeners = σ.w.listeners ++ o.toList := by
  obtain ⟨⟨σ₀, hr, hs⟩, hused, new, hnew, hout⟩ := h
  rcases hs.receive hl hrec with hs' | ⟨e, σ₁, hstep, hs'⟩
  · have hsame : σ'.w.listeners = σ.w.listeners := hs'.listeners.trans hs.listeners.symm
    refine ⟨⟨⟨σ₀, hr, hs'⟩, fun fd hfd => ?_, new, hsame.trans hnew, hout⟩, none, by simp [hsame]⟩
    rw [hs'.fdObj, ← hs.fdObj]
    exact hused fd hfd
  · obtain ⟨L, hok⟩ := daemon_hostsOk _ hr
    have hd := daemon_descriptors _ hr
    obtain ⟨o, ho⟩ := handle_enlists hok.start hd.start hstep.2.1
    have hkeep := (handle_kept hok.start hd.start hstep.2.1).fds
    have hgrown : σ'.w.listeners = σ.w.listeners ++ o.toList := by
      rw [hs'.listeners, hs.listeners]
      exact ho.listeners
    refine ⟨⟨⟨σ₁, hr.step hstep, hs'⟩, fun fd hfd => ?_, new ++ o.toList, by simp [hgrown, hnew],
      fun k hk => ?_⟩,
      o, hgrown⟩
    · obtain ⟨x, hx⟩ := Option.ne_none_iff_exists'.mp (hused fd hfd)
      rw [hs.fdObj] at hx
      rw [hs'.fdObj, hkeep fd x hx]
      exact Option.some_ne_none x
    · rcases List.mem_append.mp hk with hk | hk
      · exact hout k hk
      · -- its descriptor was free
        have hfree : σ₀.w.fdObj k.fd = none := (ho.new k (Option.mem_toList.mp hk)).2.2
        rw [← hs.fdObj] at hfree
        by_contra hne
        exact hused k.fd (by simpa using hne) hfree

theorem Sys.Reached.next (hσ : σ.Reached c) {pre post : List Listener} (hl : σ.w.listeners = pre ++ l :: post) :
    σ.w.nextListener l = .ok post.head? := by
  obtain ⟨σ₀, hr, hs⟩ := hσ
  have hn := daemon_listenerIds σ₀ hr
  exact ListenerIds.next ⟨hs.listeners ▸ hn.nodup, fun k hk => hs.nextId ▸ hn.lt k (hs.listeners ▸ hk)⟩ hl

theorem selected_grows : Walk.Grows (fun σ l => σ.w.nextListener l) (Sys.selected c r set)
    (fun σ => σ.w.listeners) (Selecting c set ls) where
  next h hl := h.reached.next hl
  step h hl hb := by
    rcases selected_cases hb with rfl | hrec
    · exact ⟨h, none, by simp⟩
    · exact h.receive hl hrec

/-- No descriptor is above the greatest. -/
theorem le_maxFd (ls : List Listener) (m : Nat) : m ≤ maxFd m ls ∧ ∀ l ∈ ls, l.fd ≤ maxFd m ls := by
  induction ls generalizing m with
  | nil => exact ⟨Nat.le_refl m, fun l hl => by cases hl⟩
  | cons k ls ih =>
    have hboth : ∀ n : Nat, m ≤ (if m < n then n else m) ∧ n ≤ if m < n then n else m := by
      intro n
      split <;> omega
    obtain ⟨hm, hk⟩ := hboth k.fd
    obtain ⟨hle, hall⟩ := ih (if m < k.fd then k.fd else m)
    refine ⟨hm.trans hle, fun l hl => ?_⟩
    rcases List.mem_cons.mp hl with rfl | hl
    · exact hk.trans hle
    · exact hall l hl

/-- The set has the listeners that are ready, and nothing but descriptors of listeners. -/
theorem selectSet_iff {fd : Fd} :
    selectSet ready (fdsOf ls) fd = true ↔ (∃ l ∈ ls, l.fd = fd) ∧ ready fd = true := by
  simp only [selectSet, fdsOf, Bool.and_eq_true, List.any_eq_true, beq_iff_eq]
  constructor
  · rintro ⟨⟨hl, -⟩, hready⟩
    exact ⟨hl, hready⟩
  · rintro ⟨⟨l, hl, rfl⟩, hready⟩
    exact ⟨⟨⟨l, hl, rfl⟩, decide_eq_true (Nat.lt_succ_of_le ((le_maxFd ls 0).2 l hl))⟩, hready⟩

/-- Those that are not ready are passed by. -/
theorem fold_selected (hls : ∀ l ∈ ls, l.fd < fdSetsize ∧ set l.fd = ready l.fd) :
    ls.foldlM (Sys.selected c r set) σ =
      (ls.filter fun l => ready l.fd).foldlM (fun σ l => σ.receive c l (r.answer σ l)) σ := by
  induction ls generalizing σ with
  | nil => rfl
  | cons l ls ih =>
    obtain ⟨hlt, hset⟩ := hls l List.mem_cons_self
    have hrest : ∀ {σ : Sys}, ls.foldlM (Sys.selected c r set) σ =
        (ls.filter fun l => ready l.fd).foldlM (fun σ l => σ.receive c l (r.answer σ l)) σ :=
      ih fun k hk => hls k (List.mem_cons_of_mem _ hk)
    rw [List.foldlM_cons, selected_below hlt, hset, List.filter_cons]
    split
    · rw [List.foldlM_cons]
      exact congrArg _ (funext fun _ => hrest)
    · exact hrest

/-- The state in which a call begins. -/
theorem Sys.Reached.selecting (hσ : σ.Reached c) :
    Selecting c (selectSet ready (fdsOf σ.w.listeners)) σ.w.listeners σ := by
  obtain ⟨σ₀, hr, hs⟩ := id hσ
  refine ⟨hσ, fun fd hfd => ?_, [], (List.append_nil _).symm, fun l hl => nomatch hl⟩
  obtain ⟨⟨l, hl, rfl⟩, -⟩ := selectSet_iff.mp hfd
  rw [hs.fdObj, (daemon_descriptors _ hr).listeners l (hs.listeners ▸ hl)]
  exact Option.some_ne_none _

theorem select_eq (hσ : σ.Reached c) (hready : r.ready = some ready) (hfuel : 2 * σ.w.listeners.length ≤ fuel) :
    listenerSelect c r fuel σ =
      if σ.w.listeners.all (·.fd < fdSetsize) then
        (σ.w.listeners.filter fun l => ready l.fd).foldlM
            (fun σ l => σ.receive c l (r.answer σ l)) σ >>= fun σ' =>
          if σ'.w.listeners.all (·.fd < fdSetsize) then .ok σ'
          else selectFrom c r (selectSet ready (fdsOf σ.w.listeners)) (fuel - σ.w.listeners.length)
            (σ'.w.listeners.drop σ.w.listeners.length).head? σ'
      else .error .segv := by
  unfold listenerSelect listenerFds
  split
  · rename_i hall
    have hsel : Selecting c (selectSet ready (fdsOf σ.w.listeners)) σ.w.listeners σ := hσ.selecting
    have hls : ∀ l ∈ σ.w.listeners,
        l.fd < fdSetsize ∧ selectSet ready (fdsOf σ.w.listeners) l.fd = ready l.fd :=
      fun l hl => ⟨of_decide_eq_true (List.all_eq_true.mp hall l hl), Bool.eq_iff_iff.mpr
        ⟨fun h => (selectSet_iff.mp h).2, fun h => selectSet_iff.mpr ⟨⟨l, hl, rfl⟩, h⟩⟩⟩
    have hitems : σ.w.listeners = [] ++ (σ.w.listeners ++ []) := (List.append_nil _).symm
    have hlen : σ.w.listeners.length ≤ fuel := by omega
    have hwalk : selectFrom c r (selectSet ready (fdsOf σ.w.listeners)) fuel (σ.w.listeners ++ []).head? σ = _ :=
      Walk.walk_run selected_grows hsel hitems hlen
    rw [List.append_nil, List.length_nil, Nat.zero_add] at hwalk
    rw [hready]
    refine hwalk.trans ?_
    rw [← fold_selected hls]
    cases hfold : σ.w.listeners.foldlM (Sys.selected c r (selectSet ready (fdsOf σ.w.listeners))) σ with
    | error f => rfl
    | ok σ' =>
      obtain ⟨hsel', new, hnew, hlen⟩ := Walk.fold_grows selected_grows hsel (fun _ hl => hl) hfold
      obtain ⟨new', hnew', hout⟩ := hsel'.made
      obtain rfl : new' = new := List.append_cancel_left (hnew'.symm.trans hnew)
      show selectFrom c r _ _ _ σ' = ite _ _ _
      split
      · rename_i hall'
        -- the new ones are below `FD_SETSIZE`, and not in the set
        rw [hnew, List.drop_left]
        refine Walk.walk_passed selected_grows hsel' hnew (fun l hl => ?_) (by omega)
        have hlt : l.fd < fdSetsize :=
          of_decide_eq_true (List.all_eq_true.mp hall' l (hnew ▸ List.mem_append_right _ hl))
        rw [selected_below hlt, hout l hl]
        rfl
      · rfl
  · rfl

/-- The state of a run of `daemon` that goes on from `σ₀`. -/
def Sys.Follows (c : Conf) (σ₀ σ : Sys) : Prop := ∃ es σ₁, (daemon c).Run σ₀ es σ₁ ∧ σ.Same σ₁

theorem Sys.Follows.receive (hr : (daemon c).Reachable σ₀) (h : Sys.Follows c σ₀ σ) (hl : l ∈ σ.w.listeners)
    (hrec : σ.receive c l a = .ok σ') : Sys.Follows c σ₀ σ' ∧ l ∈ σ'.w.listeners := by
  obtain ⟨es, σ₁, hes, hs⟩ := h
  rcases hs.receive hl hrec with hs' | ⟨e, σ₂, hstep, hs'⟩
  · refine ⟨⟨es, σ₁, hes, hs'⟩, ?_⟩
    rwa [hs'.listeners, ← hs.listeners]
  · have hrun : (daemon c).Run σ₁ [e] σ₂ := .snoc (.nil σ₁) hstep
    obtain ⟨-, hkept⟩ := run_kept (hr.run hes) hrun
    refine ⟨⟨es ++ [e], σ₂, hes.append hrun, hs'⟩, ?_⟩
    rw [hs'.listeners]
    exact hkept.listeners l (hs.listeners ▸ hl)

theorem nextListener_mem {o : Option Listener} (h : w.nextListener l = .ok o) : ∀ k ∈ o, k ∈ w.listeners := by
  unfold World.nextListener at h
  split at h
  · cases h
  · rename_i x ls heq
    cases h
    intro k hk
    have hmem : k ∈ x :: ls := List.mem_cons_of_mem _ (List.mem_of_mem_head? hk)
    rw [← heq] at hmem
    exact (List.dropWhile_suffix _).subset hmem

/-- The second loop is a run of `daemon`, also if it comes to new listeners. -/
theorem selectFrom_follows {o : Option Listener} (hr : (daemon c).Reachable σ₀)
    (ho : ∀ l ∈ o, l ∈ σ.w.listeners)
    (hs : Sys.Follows c σ₀ σ) (hrun : selectFrom c r set fuel o σ = .ok σ') : Sys.Follows c σ₀ σ' := by
  have hbody : ∀ {σ l σ'}, Sys.Follows c σ₀ σ → l ∈ σ.w.listeners → Sys.selected c r set σ l = .ok σ' →
      Sys.Follows c σ₀ σ' ∧ l ∈ σ'.w.listeners := by
    intro σ l σ' hs hl hb
    rcases selected_cases hb with rfl | hrec
    · exact ⟨hs, hl⟩
    · exact hs.receive hr hl hrec
  exact Walk.walk_keeps (fun _ _ hn => nextListener_mem hn) hbody ho hs hrun

theorem server_simulates : (server c).Simulates (daemon c) Sys.Same := by
  rintro σ r σ' σ₀ hs hr ⟨fuel, hsel⟩
  obtain ⟨fds, -, hsel⟩ := except_bind_ok hsel
  split at hsel
  · cases hsel
    exact ⟨[], σ₀, .nil _, hs⟩
  · exact selectFrom_follows hr (fun l hl => List.mem_of_mem_head? hl) ⟨[], σ₀, .nil _, hs⟩ hsel

theorem server_reached (hr : (server c).Reachable σ) : σ.Reached c := by
  obtain ⟨σ₀, rs, hinit, hrun⟩ := hr
  have hr₀ : (daemon c).Reachable σ₀ := LTS.reachable_init hinit
  obtain ⟨es, σ₁, hes, hs⟩ := server_simulates.run hrun ⟨rfl, rfl⟩ hr₀
  exact ⟨σ₁, hr₀.run hes, hs⟩

end

/-- **One call of `listener_select`**, in any state that the loop reaches: the walk along
the list that its handlers append to is a fold over the listeners that were ready when
the call began. Each of them is served once, in order, with what it finds then. The
listeners made on the way are passed by if there is room for their descriptors in the set; if
not, the walk goes on along them, and what stands behind the set decides. Before that only a
handler, or a descriptor for which `FD_SET` has no room, can make the call fail. -/
theorem select_serves (c : Conf) (σ : Sys) (ready : Fd → Bool) (past : Sys → Fd → Option Bool)
    (answer : Sys → Listener → Arrival) (fuel : Nat) (hσ : (server c).Reachable σ)
    (hfuel : 2 * σ.w.listeners.length ≤ fuel) :
    let r : Round := ⟨some ready, past, answer⟩
    listenerSelect c r fuel σ =
      if σ.w.listeners.all (·.fd < fdSetsize) then
        (σ.w.listeners.filter fun l => ready l.fd).foldlM
            (fun σ l => σ.receive c l (answer σ l)) σ >>= fun σ' =>
          if σ'.w.listeners.all (·.fd < fdSetsize) then .ok σ'
          else selectFrom c r (selectSet ready (fdsOf σ.w.listeners)) (fuel - σ.w.listeners.length)
            (σ'.w.listeners.drop σ.w.listeners.length).head? σ'
      else .error .segv :=
  select_eq (server_reached hσ) rfl hfuel

/-- The client of address 1 asks for the file `k`. -/
def arrivedK : Arrival where
  os := plainOs
  pkt := some (.ofBytes ([0, 1] ++ cstr "k" ++ [0]))
  frm := ⟨1, 1024⟩
  loc := some ⟨7, 69⟩
  calls := []

/-- Everything is ready, also the descriptor that the transfer gets, but that listener is
not served. -/
theorem select_serves_k : ∃ σ,
    listenerSelect plainConf ⟨some fun _ => true, fun _ _ => none, fun _ _ => arrivedK⟩ 4
    bootSys = .ok σ ∧ σ.w.listeners.length = 3 ∧ σ.hist.length = 2 := by
  rw [select_serves plainConf bootSys _ _ _ 4 (LTS.reachable_init ⟨boot_served, rfl⟩) (by decide)]
  exact ⟨_, rfl, rfl, rfl⟩

/-- **The loop of `main` is the daemon**: the program was started with any command line and
any configuration. However often `listener_select` is called, and whatever is ready and
arrives in each call, the state is one to which `daemon` gets packet by packet, and the
same was done on the way. -/
theorem program_refines (env : StartEnv) (opts : List CmdOpt) (root : List ConfEntry) (w₀ w : World) (c : Conf)
    (hd : Distinct root) (hw : w₀.Fresh) (hstart : mainInit env opts root w₀ = .ok (c, w)) (rs : List Round)
    (σ : Sys) (hrun : (server c).Run ⟨w, []⟩ rs σ) :
    ∃ es σ₁, (daemon c).Run ⟨w, []⟩ es σ₁ ∧ σ.w.start = σ₁.w.start ∧ σ.past = σ₁.past := by
  have hr : (daemon c).Reachable ⟨w, []⟩ := LTS.reachable_init ⟨(mainInit_ok hd hw hstart).1, rfl⟩
  obtain ⟨es, σ₁, hes, hs⟩ := server_simulates.run hrun ⟨rfl, rfl⟩ hr
  exact ⟨es, σ₁, hes, hs.w, hs.past⟩

/-- A call in which the client of `bootForest` asks for its file. -/
def roundK : Round :=
  ⟨some fun _ => true, fun _ _ => none, fun _ _ => { arrivedK with frm := ⟨.ofBytes 10 0 0 2, 1024⟩ }⟩

/-- It makes a listener for the transfer. -/
theorem roundK_runs : ∃ c w, mainInit bootEnv [.c (cstr "bootd.conf")] (bootForest.entries 0) freshWorld =
    .ok (c, w) ∧ ∃ σ, (server c).Run ⟨w, []⟩ [roundK] σ ∧ (σ.past.filterMap Io.made).length = 1 := by
  have h : (mainInit bootEnv [.c (cstr "bootd.conf")] (bootForest.entries 0) freshWorld).toOption.any (fun r =>
      (listenerSelect r.1 roundK 2 ⟨r.2, []⟩).toOption.any fun σ =>
        decide ((σ.past.filterMap Io.made).length = 1)) = true := by decide +kernel
  obtain ⟨r, hr, h⟩ := ok_of_any h
  obtain ⟨σ, hsel, h⟩ := ok_of_any h
  exact ⟨r.1, r.2, hr, σ, .snoc (.nil _) ⟨2, hsel⟩, of_decide_eq_true h⟩

theorem program_refines_k : ∃ c w, mainInit bootEnv [.c (cstr "bootd.conf")] (bootForest.entries 0) freshWorld =
    .ok (c, w) ∧ ∃ σ es σ₁, (server c).Run ⟨w, []⟩ [roundK] σ ∧ (daemon c).Run ⟨w, []⟩ es σ₁ ∧
      σ.w.start = σ₁.w.start ∧ σ.past = σ₁.past := by
  obtain ⟨c, w, hstart, σ, hrun, -⟩ := roundK_runs
  obtain ⟨es, σ₁, hes, hsame⟩ := program_refines bootEnv _ _ freshWorld w c (entries_distinct 0 bootForest)
    freshWorld_fresh hstart _ σ hrun
  exact ⟨c, w, hstart, σ, es, σ₁, hrun, hes, hsame⟩

/-! ## How long the loop can run -/

/-- No two listeners have the same descriptor. -/
structure OwnFds (w : World) : Prop where
  nodup : (w.listeners.map Listener.fd).Nodup
  used : ∀ l ∈ w.listeners, w.fdObj l.fd ≠ none

section
variable {c : Conf} {w w' : World} {l : Listener} {o : Option Listener} {σ σ' : Sys} {es : List Ev}
  {r : Round} {fuel : Nat}

/-- A listener on a descriptor that was free. -/
theorem OwnFds.append (h : OwnFds w) (hl : w'.listeners = w.listeners ++ [l]) (hfree : w.fdObj l.fd = none) :
    (w'.listeners.map Listener.fd).Nodup := by
  rw [hl, List.map_append, List.map_singleton, List.nodup_append]
  refine ⟨h.nodup, List.nodup_singleton _, fun a ha b hb => ?_⟩
  obtain ⟨k, hk, rfl⟩ := List.mem_map.mp ha
  rw [List.mem_singleton.mp hb]
  intro he
  exact h.used k hk (he ▸ hfree)

theorem ownFds_kept (env : StartEnv) : KeptByListeners OwnFds env := by
  refine keptByListeners fun w l h hid hfd hpeer => ?_
  have hold : ∀ k ∈ w.listeners, (w.listening l).fdObj k.fd ≠ none := by
    intro k hk
    obtain ⟨x, hx⟩ := Option.ne_none_iff_exists'.mp (h.used k hk)
    rw [fdObj_put_old (o := .socket) (w := w) rfl hx]
    exact Option.some_ne_none x
  have hnew : (w.listening l).fdObj l.fd ≠ none := by
    rw [fdObj_put (o := .socket) (w := w) rfl, if_pos hfd]
    exact Option.some_ne_none _
  refine ⟨⟨h.nodup, hold⟩, h.append rfl (hfd ▸ fdObj_freeFd w), fun k hk => ?_⟩
  rcases List.mem_append.mp hk with hk | hk
  · exact hold k hk
  · rw [List.mem_singleton.mp hk]
    exact hnew

theorem mainInit_ownFds {env : StartEnv} {opts : List CmdOpt} {root : List ConfEntry} (hd : Distinct root)
    (hw : w.Fresh) (hstart : mainInit env opts root w = .ok (c, w')) : OwnFds w' := by
  obtain ⟨st, hbuilt, -, hkept⟩ := mainInit_kept hd hw hstart
  refine hkept _ (ownFds_kept env) ?_
  have hnone := hbuilt.idle.listeners
  exact ⟨by rw [hnone]; exact List.nodup_nil, fun l hl => by rw [hnone] at hl; cases hl⟩

/-- The list grows by what a run makes. -/
theorem run_made (hr : (daemon c).Reachable σ) (hrun : (daemon c).Run σ es σ')
    (hfds : (σ.w.listeners.map Listener.fd).Nodup) :
    (σ'.w.listeners.map Listener.fd).Nodup ∧ ∃ new, σ'.w.listeners = σ.w.listeners ++ new ∧
      σ'.past.filterMap Io.made = σ.past.filterMap Io.made ++ new := by
  induction hrun with
  | nil => exact ⟨hfds, [], by simp, by simp⟩
  | @snoc σ₁ σ₂ es e hrun hs ih =>
    obtain ⟨hnodup, new, hl, hpast⟩ := ih
    obtain ⟨hr₁, -⟩ := run_kept hr hrun
    obtain ⟨L, hok⟩ := daemon_hostsOk _ hr₁
    have hd := daemon_descriptors _ hr₁
    obtain ⟨o, ho⟩ := handle_enlists hok.start hd.start hs.2.1
    have hl₂ : σ₂.w.listeners = σ₁.w.listeners ++ o.toList := ho.listeners
    refine ⟨?_, new ++ o.toList, by rw [hl₂, hl, List.append_assoc], ?_⟩
    · cases o with
      | none =>
        rw [hl₂]
        simpa using hnodup
      | some l =>
        have hown : OwnFds σ₁.w := ⟨hnodup, fun k hk => by rw [hd.listeners k hk]; exact Option.some_ne_none _⟩
        exact hown.append hl₂ (ho.new l rfl).2.2
    · have hmade : σ₂.w.out.filterMap Io.made = o.toList := by simpa [World.start] using ho.made
      rw [Sys.past, hs.2.2, List.flatten_append, List.filterMap_append, ← Sys.past, hpast]
      simp [hmade]

/-- So many descriptors do not fit into the set. -/
theorem select_full (hn : (σ.w.listeners.map Listener.fd).Nodup) (hlen : fdSetsize < σ.w.listeners.length) :
    listenerSelect c r fuel σ = .error .segv := by
  have hall : ¬σ.w.listeners.all (·.fd < fdSetsize) = true := by
    intro hall
    have hsub : σ.w.listeners.map Listener.fd ⊆ List.range fdSetsize := by
      intro fd hfd
      obtain ⟨l, hl, rfl⟩ := List.mem_map.mp hfd
      exact List.mem_range.mpr (of_decide_eq_true (List.all_eq_true.mp hall l hl))
    have hle := (hn.subperm hsub).length_le
    rw [List.length_map, List.length_range] at hle
    omega
  unfold listenerSelect listenerFds
  rw [if_neg hall]
  rfl

end

/-- **Transfers use the daemon up**: the program was started with any command line and any
configuration. Its listeners are those it started with and one for each read request for
a file that was handled since, and none is ever taken away; when they are more than `FD_SETSIZE`,
the next call of `listener_select` writes past its set. -/
theorem program_exhausts (env : StartEnv) (opts : List CmdOpt) (root : List ConfEntry) (w₀ w : World) (c : Conf)
    (hd : Distinct root) (hw : w₀.Fresh) (hstart : mainInit env opts root w₀ = .ok (c, w)) (rs : List Round)
    (σ : Sys) (hrun : (server c).Run ⟨w, []⟩ rs σ) :
    σ.w.listeners = w.listeners ++ σ.past.filterMap Io.made ∧
    (∀ (os : Os) (l : Listener) (frm loc : SockAddr) (pkt : Pkt) (h : HostId) (host : Host) (w' : World),
      utilIp2host σ.w frm.addr = .ok (some h) → σ.w.hosts[h]? = some host →
      (Ev.udp os l frm loc pkt).file host ≠ none → os.socket = true →
      tftpHandler c os l frm loc pkt σ.w.start = .ok () w' → ∃ l', w'.listeners = σ.w.listeners ++ [l']) ∧
    (fdSetsize < σ.w.listeners.length →
      ∀ r fuel, listenerSelect c r fuel σ = .error .segv) := by
  have hr : (daemon c).Reachable ⟨w, []⟩ := LTS.reachable_init ⟨(mainInit_ok hd hw hstart).1, rfl⟩
  obtain ⟨es, σ₁, hes, hs⟩ := server_simulates.run hrun ⟨rfl, rfl⟩ hr
  obtain ⟨hnodup, new, hl, hpast⟩ := run_made hr hes (mainInit_ownFds hd hw hstart).nodup
  have hnew : σ.past.filterMap Io.made = new := by
    rw [hs.past, hpast]
    rfl
  refine ⟨by rw [hs.listeners, hl, hnew],
    fun os l frm loc pkt h host w' hip hh hf hsock hrun => ?_, fun hlen _ _ =>
    select_full (by rwa [hs.listeners]) hlen⟩
  have hd₁ := (daemon_descriptors _ (hr.run hes)).start
  have hip₁ : utilIp2host σ₁.w.start frm.addr = .ok (some h) := hs.w ▸ hip
  have hh₁ : σ₁.w.start.hosts[h]? = some host := hs.w ▸ hh
  rw [hs.w] at hrun
  rcases tftp_served hrun with ⟨hno, -⟩ | ⟨h', host', hip', hh', hserved⟩
  · rw [hip₁] at hno
    cases hno
  · rw [hip₁] at hip'
    cases hip'
    rw [hh₁] at hh'
    cases hh'
    obtain ⟨o, ho, hiff⟩ := hserved.enlists hd₁
    obtain ⟨l', rfl⟩ := Option.ne_none_iff_exists'.mp (hiff.mpr ⟨hf, hsock⟩)
    refine ⟨l', ?_⟩
    rw [hs.listeners]
    exact ho.listeners

theorem program_exhausts_k : ∃ c w, mainInit bootEnv [.c (cstr "bootd.conf")] (bootForest.entries 0) freshWorld =
    .ok (c, w) ∧ ∃ σ l, (server c).Run ⟨w, []⟩ [roundK] σ ∧ σ.w.listeners = w.listeners ++ [l] := by
  obtain ⟨c, w, hstart, σ, hrun, hlen⟩ := roundK_runs
  obtain ⟨l, hl⟩ := List.length_eq_one_iff.mp hlen
  refine ⟨c, w, hstart, σ, l, hrun, ?_⟩
  rw [← hl]
  exact (program_exhausts bootEnv _ _ freshWorld w c (entries_distinct 0 bootForest) freshWorld_fresh hstart _ σ
    hrun).1

end Bootd
