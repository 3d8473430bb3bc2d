import Bootd.L2State.World

/-!
# Listeners, sending and reading (`listener.c`, `util_read`)

A listener record never changes after its creation, so it is passed around by
value and compared by its `id`, the pointer. `g_listeners` is the list
`World.listeners`.

`udpVia` is the destination decision of `i_listener_udp_send`, `Via.dest` where
the kernel then sends the datagram. `openFile` and `utilRead` are the only ways
in which a handler gets at a file.
-/
namespace Bootd

open Bootd.Core

/-! ## The list -/

/-- mirrors src/listener.c:364-375 -/
def listenerSearchByFd (ls : List Listener) (fd : Fd) : Option Listener := ls.find? (·.fd == fd)

/-- The socket, bind and connect calls and the new record; sockets get the
lowest free descriptor, and on failure nothing is left behind.
mirrors src/listener.c:97-168 -/
def listenerNewUdp (os : Os) (dst : Option SockAddr) (svc : Service) : M (Option Listener) := do
  let w ← get
  if os.socket then
    let l : Listener := ⟨w.nextId, .udp, svc, w.freeFd, 0, .zero, none, dst.getD .any, dst, rfl⟩
    modify fun w => ({ w with nextId := w.nextId + 1 }.openFd .socket).emit (.listen l)
    pure (some l)
  else
    pure none

/-- Appends `l` unless its descriptor is listed. A listener without a name (the
constructors for UDP and RPC leave it NULL) is first written through that NULL
pointer.
mirrors src/listener.c:271-331 -/
def listenerAdd (os : Os) : Option Listener → M Unit
  | none => pure ()
  | some l => do
    if l.name = none ∧ ¬os.nullStore then throw .segv
    else modify fun w =>
      if w.listeners.any (·.fd == l.fd) then w else { w with listeners := w.listeners ++ [l] }

/-- The `cleanup` handler: the descriptor is closed and the record freed.
mirrors src/listener.c:830-841 (sockets), src/listener.c:730-747 (link) -/
def listenerCleanup (l : Listener) : M Unit := modify fun w => (w.closeFd l.fd).emit (.close l.fd)

/-- The head of the list is cleaned up a second time at the end of the
function, after its record was freed.
mirrors src/listener.c:333-362 -/
def listenerDelete : Option Listener → M Unit
  | none => pure ()
  | some l => do
    match (← get).listeners with
    | [] => listenerCleanup l
    | n :: _ => do
      modify fun w => { w with listeners := w.listeners.filter (·.id ≠ l.id) }
      listenerCleanup l
      if n.id = l.id then throw .uaf else pure ()

/-! ## Sending -/

/-- mirrors src/listener.c:855-878: an address equal to the listener's own
`to`, or an unspecified one, is dropped and `send` used. -/
def udpVia (l : Listener) (dst : SockAddr) : Via :=
  if dst = l.udpTo then .send else if dst = .any then .send else .sendto dst

/-- Where the kernel sends a datagram: the peer of a connected socket, the
address given to `sendto`; `send` on an unconnected socket goes nowhere. -/
def Via.dest (l : Listener) : Via → Option SockAddr
  | .send => l.peer
  | .sendto a => some a

/-- mirrors src/listener.c:843-892 -/
def iListenerUdpSend (l : Listener) (_frm dst : SockAddr) (pkt : List UInt8) : M Unit :=
  emit (.udp l (udpVia l dst) pkt)

/-- Frames under 62 bytes are refused.
mirrors src/listener.c:750-790 -/
def iListenerLinkSend (l : Listener) (frame : List UInt8) : M Unit :=
  emit (.link l frame (decide (62 ≤ frame.length)))

/-! ## Files -/

@[simps] def World.openFailed (w : World) (p : HostId) (s : SessId) (path : Option CStr) : World :=
  { w with
    sessions := Slots.update w.sessions s fun ses => ses.setBfFd 0
    out := w.out ++ [.openFile p s path none] }

@[simps] def World.opened (w : World) (p : HostId) (s : SessId) (path : Option CStr)
    (content : List UInt8) : World :=
  { w with
    fds := Slots.put w.fds (.file path content)
    sessions := Slots.update w.sessions s fun ses => ses.setBfFd w.freeFd
    out := w.out ++ [.openFile p s path (some w.freeFd)] }

/-- `h->session->fd[0] = open(path, O_RDONLY)`, with the descriptor set back to
0 where `open` fails.
mirrors src/tftp.c:77-80, src/rmp.c:135-137 -/
def openFile (os : Os) (p : HostId) (path : Option CStr) : M (Option Errno) := do
  match (← get).sessionOf p with
  | none => throw .segv
  | some s => do
    let _ ← loadSession s
    match os.openf path with
    | .error e => do
      modify (·.openFailed p s path)
      pure (some e)
    | .ok content => do
      modify (·.opened p s path content)
      pure none

/-- What `util_read` leaves in the buffer, or `none` for a negative result.
Callers pass offsets that fit the `int` which takes `lseek`'s result.
mirrors src/util.c:269-285 -/
def utilRead (w : World) (os : Os) (fd : Fd) (len : Nat) (offs : Int) : Option (List UInt8) :=
  match (w.fdObj fd).bind FdObj.content, os.read with
  | some d, some k => if os.lseek ∧ 0 ≤ offs then some ((d.drop offs.toNat).take (min len k)) else none
  | _, _ => none

/-! ## What these do when they return -/

section
variable {os : Os} {w w' : World} {p : HostId} {path : Option CStr}

theorem utilRead_iff {fd : Fd} {len : Nat} {offs : Int} {data : List UInt8} :
    utilRead w os fd len offs = some data ↔
      ∃ content k, (w.fdObj fd).bind FdObj.content = some content ∧ os.read = some k ∧
        os.lseek = true ∧ 0 ≤ offs ∧ data = (content.drop offs.toNat).take (min len k) := by
  unfold utilRead
  cases (w.fdObj fd).bind FdObj.content with
  | none => simp
  | some content =>
    cases os.read with
    | none => simp
    | some k =>
      by_cases hseek : os.lseek = true ∧ 0 ≤ offs
      · simp [hseek.1, hseek.2, eq_comm]
      · simp only [if_neg hseek, reduceCtorEq, false_iff]
        rintro ⟨_, _, -, -, hl, ho, -⟩
        exact hseek ⟨hl, ho⟩

/-- There is nothing before the start of a file. -/
theorem utilRead_neg {fd : Fd} {len : Nat} {offs : Int} (h : offs < 0) :
    utilRead w os fd len offs = none := by
  refine Option.eq_none_iff_forall_ne_some.mpr fun data hr => ?_
  obtain ⟨_, _, -, -, -, hoffs, -⟩ := utilRead_iff.mp hr
  omega

/-- A new listener, registered: `listener_new_udp` and `listener_add`. -/
inductive NewListener (os : Os) (dst : SockAddr) (w : World) : Option Listener → World → Prop
  | failed : os.socket = false → NewListener os dst w none w
  | created (l : Listener) : os.socket = true → l.id = w.nextId → l.fd = w.freeFd →
      l.peer = some dst → l.service = .tftp →
      NewListener os dst w (some l) { w with
        nextId := w.nextId + 1
        fds := Slots.put w.fds .socket
        listeners := if w.listeners.any (·.fd == l.fd) then w.listeners else w.listeners ++ [l]
        out := w.out ++ [.listen l] }

theorem newListener_ok {dst : SockAddr} {u : Unit} {nl : Option Listener} {w₁ : World}
    (h1 : listenerNewUdp os (some dst) .tftp w = .ok nl w₁) (h2 : listenerAdd os nl w₁ = .ok u w') :
    NewListener os dst w nl w' := by
  simp only [listenerNewUdp, Exec.bind_ok, Exec.get_ok] at h1
  obtain ⟨_, _, ⟨rfl, rfl⟩, h1⟩ := h1
  split at h1
  · simp only [Exec.bind_ok, Exec.modify_ok, Exec.pure_ok] at h1
    obtain ⟨_, _, rfl, rfl, rfl⟩ := h1
    simp only [listenerAdd] at h2
    split at h2
    · simp at h2
    · simp only [Exec.modify_ok] at h2
      have key := @NewListener.created os dst w
        ⟨w.nextId, .udp, .tftp, w.freeFd, 0, .zero, none, dst, some dst, rfl⟩ ‹_› rfl rfl rfl rfl
      rw [← h2]
      simp only [World.emit_listeners, World.openFd_listeners]
      split at key <;> rename_i hd
      · rw [if_pos hd]; exact key
      · rw [if_neg hd]; exact key
  · simp only [Exec.pure_ok] at h1
    obtain ⟨rfl, rfl⟩ := h1
    simp only [listenerAdd, Exec.pure_ok] at h2
    obtain ⟨-, rfl⟩ := h2
    exact .failed (eq_false_of_ne_true ‹_›)

theorem listenerAdd_run {l : Listener} (os : Os) (w : World) (h : l.name ≠ none ∨ os.nullStore = true) :
    listenerAdd os (some l) w = .ok ()
      { w with listeners := if w.listeners.any (·.fd == l.fd) then w.listeners else w.listeners ++ [l] } := by
  have hno : ¬(l.name = none ∧ ¬os.nullStore = true) := by
    rintro ⟨hn, hs⟩
    rcases h with h | h
    · exact h hn
    · exact hs h
  rw [listenerAdd, if_neg hno, Exec.modify_ok]
  split <;> rfl

theorem openFile_ok {r : Option Errno} (h : openFile os p path w = .ok r w') :
    ∃ s ses, w.sessionOf p = some s ∧ w.live s = some ses ∧
      ((∃ e, os.openf path = .error e ∧ r = some e ∧ w' = w.openFailed p s path) ∨
        ∃ content, os.openf path = .ok content ∧ r = none ∧ w' = w.opened p s path content) := by
  simp only [openFile, Exec.bind_ok, Exec.get_ok] at h
  obtain ⟨_, _, ⟨rfl, rfl⟩, h⟩ := h
  cases hs : w.sessionOf p with
  | none => simp [hs] at h
  | some s =>
    simp only [hs, Exec.bind_ok, loadSession_ok] at h
    obtain ⟨ses, _, ⟨hl, rfl⟩, h⟩ := h
    refine ⟨s, ses, rfl, hl, ?_⟩
    cases ho : os.openf path with
    | error e =>
      simp only [ho, Exec.bind_ok, Exec.modify_ok, Exec.pure_ok] at h
      obtain ⟨_, _, rfl, rfl, rfl⟩ := h
      exact .inl ⟨e, rfl, rfl, rfl⟩
    | ok content =>
      simp only [ho, Exec.bind_ok, Exec.modify_ok, Exec.pure_ok] at h
      obtain ⟨_, _, rfl, rfl, rfl⟩ := h
      exact .inr ⟨content, rfl, rfl, rfl⟩

end
end Bootd
