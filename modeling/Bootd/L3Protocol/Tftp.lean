import Bootd.L1Wire.Tftp
import Bootd.L2State.Files
import Bootd.L2State.Hosts
import Bootd.L2State.Trace

/-!
# The TFTP handler (`tftp.c:12-172`)

`frm` is the client's address, `loc` the address the datagram came in on.

The packet is logged before anything is checked. Of `tftp_log_msgpacket` the
model has what can go wrong in it: the string getters (`L1Wire.Tftp`) fill
their static buffers, and a packet that is too long for them makes stores
behind the end. What becomes of these is up to the machine (`Os.pastStore`).
The texts of the log and the logging of the daemon's own packets, whose texts
are short, are left out.

A read request creates its listener, registers it, creates the session and
opens the file, in this order. After a failed read the handler sends an error
and then, on the same path as after a good one, `4 + size` bytes of the reply
with `size` -1.

* `tftpLogMsgpacket_eq`: when the log stops the daemon.
* `tftpHandler_ok`, `tftpRrq_ok`, `tftpAck_ok`: the memory and the trace after
  a handler that returns.
* `tftpHandler_trace`: what a handler leaves in the trace, for any way it ends:
  marks of sessions and listeners, replies to the client, and opens of the file
  that the request names.
-/
namespace Bootd

open Bootd.Core

/-- Both messages go from the local address to the client.
mirrors src/tftp.c:332-351 -/
def tftpSendError (l : Listener) (frm loc : SockAddr) (err : Nat) (msg : CStr) : M Unit :=
  iListenerUdpSend l loc frm (tftpErrorPkt err msg)

/-- The error code for a failed `open`.
mirrors src/tftp.c:81-99 -/
def tftpErrnoCode : Errno → Nat
  | .enoent => tftpENoent
  | .eacces | .eperm => tftpEAccess
  | _ => tftpEUndef

/-- The bytes sent for block `n` when `util_read` gave `data`.
mirrors src/tftp.c:111-123, src/tftp.c:148-158 -/
def tftpDataPkt (n : Nat) : Option (List UInt8) → List UInt8
  | some data => tftpDataBuf n data
  | none => (tftpDataBuf n []).take 3

/-- `BF_FD`: the first descriptor of the host's session. -/
def bfFd (h : HostId) : M Fd := do
  match (← get).sessionOf h with
  | none => throw .segv
  | some s => do
    let ses ← loadSession s
    pure ses.bfFd

/-- `if (size < 0) tftp_send_error(…)`. -/
def tftpReadError (c : Conf) (os : Os) (l : Listener) (frm loc : SockAddr)
    (data : Option (List UInt8)) : M Unit :=
  if data = none then tftpSendError l frm loc tftpEUndef (c.strerror os.errno) else pure ()

/-- Reads block `n` at `offs` from the session's file and sends it through `dl`,
after an error through `l` if the read fails.
mirrors src/tftp.c:108-123, src/tftp.c:146-159 -/
def tftpSendBlock (c : Conf) (os : Os) (l dl : Listener) (frm loc : SockAddr) (h : HostId)
    (n offs : Nat) : M Unit := do
  let fd ← bfFd h
  let data := utilRead (← get) os fd tftpBlock offs
  tftpReadError c os l frm loc data
  iListenerUdpSend dl loc frm (tftpDataPkt n data)

@[simps] def World.attach (w : World) (s : SessId) (sid : Int) (nl : Option Listener) : World :=
  { w with
    sessions := Slots.update w.sessions s fun ses =>
      { ses with sid := sid, l := nl.map Listener.id } }

/-- `h->session->sid = sid; h->session->l = nl;`
mirrors src/tftp.c:102-104 -/
def tftpSetSession (h : HostId) (sid : Int) (nl : Option Listener) : M Unit := do
  match (← get).sessionOf h with
  | none => throw .segv
  | some s => do
    let _ ← loadSession s
    modify (·.attach s sid nl)

/-- mirrors src/tftp.c:53-124; `f` is the file record found. -/
def tftpRrq (c : Conf) (os : Os) (l : Listener) (frm loc : SockAddr) (h : HostId) (f : File) :
    M Unit := do
  hostSessionDelete h
  let nl ← listenerNewUdp os (some frm) .tftp
  listenerAdd os nl
  let granted ← hostSessionAdd c os h serviceTftp frm.port.toNat
  if granted then
    match ← openFile os h f.path with
    | some e => tftpSendError l frm loc (tftpErrnoCode e) (c.strerror e)
    | none => do
      tftpSetSession h frm.port.toNat nl
      match nl with
      | none => tftpSendError l frm loc tftpEUndef (c.strerror os.errno)
      | some nl => tftpSendBlock c os l nl frm loc h 1 0
  else
    tftpSendError l frm loc tftpEUndef (cstr "server busy")

/-- mirrors src/tftp.c:133-161 -/
def tftpAck (c : Conf) (os : Os) (l : Listener) (frm loc : SockAddr) (h : HostId) (n : Nat) :
    M Unit := do
  let check ← hostSessionCheck os h serviceTftp frm.port.toNat
  if check = .noError then tftpSendBlock c os l l frm loc h (n + 1) (n * tftpBlock)
  else if n = 1 then pure ()
  else tftpSendError l frm loc tftpEBadsid (cstr "no session")

/-- `util_name2file(h, SERVICE_TFTP, tftp_get_filename(packet, pktlen), 0)`. -/
def tftpFile (host : Host) (pkt : Pkt) : Option File :=
  utilName2file host.files serviceTftp ((tftpGetFilename pkt).map cstrOf) 0

/-- The dispatch on the opcode, for a host that may use TFTP.
mirrors src/tftp.c:55-172 -/
def tftpDispatch (c : Conf) (os : Os) (l : Listener) (frm loc : SockAddr) (pkt : Pkt) (h : HostId)
    (host : Host) : M Unit :=
  match pkt.tftpOp with
  | .rrq =>
    match tftpFile host pkt with
    | none => tftpSendError l frm loc tftpENoent (cstr "file not configured")
    | some f => tftpRrq c os l frm loc h f
  | .wrq | .data => tftpSendError l frm loc tftpEUndef (cstr "writing files not supported")
  | .ack => tftpAck c os l frm loc h pkt.tftpN
  | .error => pure ()
  | .unknown _ => pure ()

/-- The stores of a getter to its buffer. -/
def tftpFill (os : Os) : Option Stores → M Unit
  | none => pure ()
  | some st => if st.all (·.1 < tftpBufSize) || os.pastStore then pure () else throw .overrun

/-- The getters that `tftp_log_msgpacket` calls.
mirrors src/tftp.c:175-251 -/
def tftpLogMsgpacket (os : Os) (pkt : Pkt) : M Unit :=
  match pkt.tftpOp with
  | .rrq | .wrq => do
    tftpFill os (tftpGetFilename pkt)
    tftpFill os (tftpGetMode pkt)
  | .error => tftpFill os (tftpGetErrmsg pkt)
  | .data | .ack | .unknown _ => pure ()

/-- The second `tftp_get_filename`, of a read request, makes the stores of the
first one again.
mirrors src/tftp.c:12-172 -/
def tftpHandler (c : Conf) (os : Os) (l : Listener) (frm loc : SockAddr) (pkt : Pkt) : M Unit := do
  tftpLogMsgpacket os pkt
  match ← Exec.liftE (utilIp2host (← get) frm.addr) with
  | none => tftpSendError l frm loc tftpEAccess (cstr "access denied, client unknown")
  | some h => do
    let host ← loadHost h
    if host.service &&& serviceTftp = 0 then
      tftpSendError l frm loc tftpEAccess (cstr "access denied, tftp not allowed for this host")
    else tftpDispatch c os l frm loc pkt h host

/-! ## The log -/

/-- The daemon gets past the log. -/
def Logged (os : Os) (pkt : Pkt) : Prop := os.pastStore = true ∨ pkt.LogFits

instance (os : Os) (pkt : Pkt) : Decidable (Logged os pkt) := inferInstanceAs (Decidable (_ ∨ _))

section
variable {os : Os} {pkt : Pkt} {w w' : World} {u : Unit} {P : Io → Prop}

theorem tftpFill_past (h : os.pastStore = true) (st : Option Stores) : tftpFill os st = pure () := by
  cases st with
  | none => rfl
  | some st => rw [tftpFill, h, Bool.or_true, if_pos rfl]

theorem tftpFill_inside {st : Option Stores} (h : ∀ st', st = some st' → st'.InBuf) :
    tftpFill os st = pure () := by
  cases st with
  | none => rfl
  | some st =>
    have hall : st.all (·.1 < tftpBufSize) = true := List.all_eq_true.mpr fun s hs => by
      simpa using (h st rfl).bound s hs
    rw [tftpFill, hall, Bool.true_or, if_pos rfl]

theorem tftpFill_outside (h : os.pastStore = false) {d : Nat → UInt8} {n : Nat} (hn : tftpBufSize ≤ n) :
    tftpFill os (some (copyStores d n)) = throw .overrun := by
  have hall : (copyStores d n).all (·.1 < tftpBufSize) = false := by
    rw [List.all_eq_false]
    exact ⟨(n, 0), by simp [copyStores], by simpa using hn⟩
  rw [tftpFill, hall, h, Bool.false_or, if_neg Bool.false_ne_true]

/-- **When the log stops the daemon.** It does for a request of over 513 bytes
and an error of over 515, unless stores behind a static buffer go unnoticed. -/
theorem tftpLogMsgpacket_eq :
    tftpLogMsgpacket os pkt = if Logged os pkt then pure () else throw .overrun := by
  cases hp : os.pastStore with
  | true =>
    rw [if_pos (.inl hp)]
    unfold tftpLogMsgpacket
    split <;> simp only [tftpFill_past hp] <;> rfl
  | false =>
    have hlogged : Logged os pkt ↔ pkt.LogFits := by simp [Logged, hp]
    by_cases hfit : pkt.LogFits
    · rw [if_pos (hlogged.mpr hfit)]
      have hname : tftpFill os (tftpGetFilename pkt) = pure () :=
        tftpFill_inside ((filename_inBuf_iff pkt).mpr hfit.1)
      have hmode : tftpFill os (tftpGetMode pkt) = pure () := tftpFill_inside (mode_inBuf pkt hfit.1)
      have hmsg : tftpFill os (tftpGetErrmsg pkt) = pure () :=
        tftpFill_inside ((errmsg_inBuf_iff pkt).mpr hfit.2)
      unfold tftpLogMsgpacket
      split <;> simp only [hname, hmode, hmsg] <;> rfl
    · rw [if_neg (hlogged.not.mpr hfit)]
      unfold tftpLogMsgpacket
      cases hop : pkt.tftpOp with
      | rrq | wrq =>
        have hlen : 513 < pkt.len := by
          by_contra hle
          exact hfit ⟨fun _ => by omega, by simp [hop]⟩
        have hover : tftpFill os (tftpGetFilename pkt) = throw .overrun := by
          simp only [tftpGetFilename, hop]
          exact tftpFill_outside hp (by rw [tftpBufSize]; omega)
        simp only [hover]
        rfl
      | error =>
        have hlen : 515 < pkt.len := by
          by_contra hle
          exact hfit ⟨by simp [hop], fun _ => by omega⟩
        simp only [tftpGetErrmsg, hop]
        exact tftpFill_outside hp (by rw [tftpBufSize]; omega)
      | data | ack | unknown n => exact absurd ⟨by simp [hop], by simp [hop]⟩ hfit

@[simp] theorem tftpLogMsgpacket_ok : tftpLogMsgpacket os pkt w = .ok u w' ↔ Logged os pkt ∧ w = w' := by
  rw [tftpLogMsgpacket_eq]
  split <;> simp [*]

/-- Before the log nothing has happened. -/
theorem tftpLogMsgpacket_bind (m : M Unit) : (tftpLogMsgpacket os pkt >>= fun _ => m) =
    if Logged os pkt then m else throw .overrun := by
  rw [tftpLogMsgpacket_eq]
  split <;> rfl

/-- Only requests and errors have a text that can be too long. -/
theorem logged_ack (hop : pkt.tftpOp = .ack) : Logged os pkt := .inr ⟨by simp [hop], by simp [hop]⟩

theorem logged_rrq (hop : pkt.tftpOp = .rrq) (hlen : pkt.len ≤ 513) : Logged os pkt :=
  .inr ⟨fun _ => hlen, by simp [hop]⟩

theorem tftpLogMsgpacket_emits : Emits P (tftpLogMsgpacket os pkt) := by
  rw [tftpLogMsgpacket_eq]
  exact .ite (fun _ => .pure _) fun _ => .throw _

end

/-! ## What the handler does -/

section
variable {c : Conf} {os : Os} {l dl : Listener} {frm loc : SockAddr} {pkt : Pkt} {h : HostId}
  {host : Host} {f : File} {w w' : World} {u : Unit}

/-- The datagram of an error message. -/
def errorIo (l : Listener) (frm : SockAddr) (err : Nat) (msg : CStr) : Io :=
  .udp l (udpVia l frm) (tftpErrorPkt err msg)

@[simp] theorem tftpSendError_ok {err : Nat} {msg : CStr} :
    tftpSendError l frm loc err msg w = .ok u w' ↔ w.emits [errorIo l frm err msg] = w' := by
  simp [tftpSendError, iListenerUdpSend, World.emit, World.emits, errorIo]

/-- What is sent for a block: after a failed read an error, and then the data
packet in any case. -/
def blockIos (c : Conf) (os : Os) (l dl : Listener) (frm : SockAddr) (n : Nat)
    (data : Option (List UInt8)) : List Io :=
  (if data = none then [errorIo l frm tftpEUndef (c.strerror os.errno)] else []) ++
    [.udp dl (udpVia dl frm) (tftpDataPkt n data)]

theorem tftpSendBlock_ok {n offs : Nat}
    (hr : tftpSendBlock c os l dl frm loc h n offs w = .ok u w') :
    ∃ s ses, w.sessionOf h = some s ∧ w.live s = some ses ∧
      w' = w.emits (blockIos c os l dl frm n (utilRead w os ses.bfFd tftpBlock offs)) := by
  simp only [tftpSendBlock, bfFd, Exec.bind_ok, Exec.get_ok] at hr
  obtain ⟨fd, _, ⟨_, _, ⟨rfl, rfl⟩, hfd⟩, _, _, ⟨rfl, rfl⟩, _, w₁, he, hr⟩ := hr
  cases hs : w.sessionOf h with
  | none => simp [hs] at hfd
  | some s =>
    simp only [hs, Exec.bind_ok, loadSession_ok, Exec.pure_ok] at hfd
    obtain ⟨ses, _, ⟨hl, rfl⟩, rfl, rfl⟩ := hfd
    refine ⟨s, ses, rfl, hl, ?_⟩
    simp only [iListenerUdpSend, emit_ok] at hr
    subst hr
    simp only [tftpReadError] at he
    cases hd : utilRead w os ses.bfFd tftpBlock offs with
    | none =>
      rw [hd, if_pos rfl, tftpSendError_ok] at he
      subst he
      simp [World.emit, World.emits, blockIos]
    | some d =>
      rw [hd, if_neg (by simp), Exec.pure_ok] at he
      obtain ⟨-, rfl⟩ := he
      simp [World.emit, World.emits, blockIos]

theorem tftpSendBlock_run {n offs : Nat} {s : SessId} {ses : Session}
    (hs : w.sessionOf h = some s) (hl : w.live s = some ses) :
    tftpSendBlock c os l dl frm loc h n offs w =
      .ok () (w.emits (blockIos c os l dl frm n (utilRead w os ses.bfFd tftpBlock offs))) := by
  have hfd : bfFd h w = .ok ses.bfFd w := by
    simp only [bfFd, Exec.bind_ok, Exec.get_ok]
    refine ⟨_, _, ⟨rfl, rfl⟩, ?_⟩
    simp only [hs, Exec.bind_ok, loadSession_ok]
    exact ⟨ses, w, ⟨hl, rfl⟩, Exec.pure_ok.mpr ⟨rfl, rfl⟩⟩
  simp only [tftpSendBlock, Exec.bind_ok, Exec.get_ok]
  cases hd : utilRead w os ses.bfFd tftpBlock offs with
  | none =>
    refine ⟨_, _, hfd, _, _, ⟨rfl, rfl⟩, (), w.emits [errorIo l frm tftpEUndef (c.strerror os.errno)],
      ?_, ?_⟩
    · rw [hd, tftpReadError, if_pos rfl, tftpSendError_ok]
    · rw [hd]
      simp [iListenerUdpSend, World.emit, World.emits, blockIos]
  | some d =>
    refine ⟨_, _, hfd, _, _, ⟨rfl, rfl⟩, (), w, ?_, ?_⟩
    · rw [hd, tftpReadError, if_neg (by simp)]
      exact Exec.pure_ok.mpr ⟨rfl, rfl⟩
    · rw [hd]
      simp [iListenerUdpSend, World.emit, World.emits, blockIos]

/-- The end of a read request, once the session `s` is granted in `w`. -/
inductive Granted (c : Conf) (os : Os) (l : Listener) (frm : SockAddr) (h : HostId) (f : File)
    (nl : Option Listener) (s : SessId) (w : World) : World → Prop
  | openFailed (e : Errno) : os.openf f.path = .error e →
      Granted c os l frm h f nl s w
        ((w.openFailed h s f.path).emits [errorIo l frm (tftpErrnoCode e) (c.strerror e)])
  | noListener (d : List UInt8) : os.openf f.path = .ok d → nl = none →
      Granted c os l frm h f nl s w
        (((w.opened h s f.path d).attach s frm.port.toNat none).emits
          [errorIo l frm tftpEUndef (c.strerror os.errno)])
  | sent (d : List UInt8) (dl : Listener) (ses : Session) : os.openf f.path = .ok d → nl = some dl →
      ((w.opened h s f.path d).attach s frm.port.toNat nl).live s = some ses →
      Granted c os l frm h f nl s w
        (((w.opened h s f.path d).attach s frm.port.toNat nl).emits
          (blockIos c os l dl frm 1 (utilRead ((w.opened h s f.path d).attach s frm.port.toNat nl) os
            ses.bfFd tftpBlock (0 : Nat))))

/-- A read request for the file `f`: the old session ends, a listener is made,
idle sessions end, and the new session is granted or not. -/
theorem tftpRrq_ok (hr : tftpRrq c os l frm loc h f w = .ok u w') :
    ∃ es w₁ nl w₂ ps w₃, Ends es w w₁ ∧
      ((w.sessionOf h = none ∧ es = []) ∨ ∃ s, w.sessionOf h = some s ∧ es = [(h, s)]) ∧
      NewListener os frm w₁ nl w₂ ∧ Chain.Path w₂.next w₂.gHosts ps none ∧ w₂.SessionsLive ps ∧
      Ends (w₂.replaced c os ps h) w₂ w₃ ∧ h < w₃.hosts.length ∧ w₃.sessionOf h = none ∧
      ((c.cSessionMax ≤ w₃.gNSessions ∧
          w' = w₃.emits [errorIo l frm tftpEUndef (cstr "server busy")]) ∨
        (w₃.gNSessions < c.cSessionMax ∧ Granted c os l frm h f nl w₃.sessions.length
          (w₃.startSession h (.fresh serviceTftp frm.port.toNat os.now)) w')) := by
  simp only [tftpRrq, Exec.bind_ok] at hr
  obtain ⟨_, w₁, h1, nl, wl, h2, _, w₂, h3, granted, w₄, h4, hr⟩ := hr
  obtain ⟨es, he, -, hown⟩ := hostSessionDelete_ok h1
  have hnl := newListener_ok h2 h3
  obtain ⟨ps, w₃, hpath, hlive, he', hlt, hnone, hcase⟩ := hostSessionAdd_ok h4
  rw [← he'.frame.length] at hlt
  refine ⟨es, w₁, nl, w₂, ps, w₃, he, hown, hnl, hpath, hlive, he', hlt, hnone, ?_⟩
  rcases hcase with ⟨rfl, hmax, rfl⟩ | ⟨rfl, hmax, rfl⟩
  · refine .inr ⟨hmax, ?_⟩
    rw [if_pos rfl] at hr
    simp only [Exec.bind_ok] at hr
    obtain ⟨r, w₅, h5, hr⟩ := hr
    obtain ⟨s, ses, hs, hl, hcase⟩ := openFile_ok h5
    rw [sessionOf_startSession, if_pos ⟨rfl, hlt⟩] at hs
    cases hs
    rcases hcase with ⟨e, ho, rfl, rfl⟩ | ⟨d, ho, rfl, rfl⟩
    · simp only [tftpSendError_ok] at hr
      rw [← hr]
      exact .openFailed e ho
    · simp only [Exec.bind_ok, tftpSetSession, Exec.get_ok] at hr
      obtain ⟨_, w₆, ⟨_, _, ⟨rfl, rfl⟩, h6⟩, hr⟩ := hr
      have hs : ((w₃.startSession h (.fresh serviceTftp frm.port.toNat os.now)).opened h
          w₃.sessions.length f.path d).sessionOf h = some w₃.sessions.length := by
        have := sessionOf_startSession w₃ h (.fresh serviceTftp frm.port.toNat os.now) h
        rwa [if_pos ⟨rfl, hlt⟩] at this
      simp only [hs, Exec.bind_ok, loadSession_ok, Exec.modify_ok] at h6
      obtain ⟨_, _, ⟨-, rfl⟩, rfl⟩ := h6
      cases nl with
      | none =>
        simp only [tftpSendError_ok] at hr
        rw [← hr]
        exact .noListener d ho rfl
      | some dl =>
        obtain ⟨t, ses', ht, hl', rfl⟩ := tftpSendBlock_ok hr
        have ht : some w₃.sessions.length = some t := hs.symm.trans ht
        cases ht
        exact .sent d dl ses' ho rfl hl'
  · rw [if_neg (by simp), tftpSendError_ok] at hr
    exact .inl ⟨hmax, hr.symm⟩

/-- An acknowledgment is answered with a block, ignored, or refused. -/
theorem tftpAck_ok {n : Nat} (hr : tftpAck c os l frm loc h n w = .ok u w') :
    (∃ s ses, w.sessionOf h = some s ∧ w.live s = some ses ∧ ses.service = serviceTftp ∧
        ses.sid = frm.port.toNat ∧
        w' = (w.touch s os.now).emits (blockIos c os l l frm (n + 1)
          (utilRead w os ses.bfFd tftpBlock (n * tftpBlock : Nat)))) ∨
      (n = 1 ∧ w' = w) ∨ w' = w.emits [errorIo l frm tftpEBadsid (cstr "no session")] := by
  simp only [tftpAck, Exec.bind_ok] at hr
  obtain ⟨check, w₁, h1, hr⟩ := hr
  rcases hostSessionCheck_ok h1 with ⟨hne, rfl⟩ | ⟨rfl, s, ses, hs, hl, hsvc, hsid, rfl⟩
  · rw [if_neg hne] at hr
    split at hr
    · simp only [Exec.pure_ok] at hr
      exact .inr (.inl ⟨‹_›, hr.2.symm⟩)
    · exact .inr (.inr (tftpSendError_ok.mp hr).symm)
  · rw [if_pos rfl] at hr
    obtain ⟨t, ses', ht, hl', rfl⟩ := tftpSendBlock_ok hr
    have ht : some s = some t := hs.symm.trans ht
    cases ht
    have hfd : ses'.bfFd = ses.bfFd := by
      rw [live_touch _ hl] at hl'
      cases hl'; rfl
    refine .inl ⟨s, ses, hs, hl, hsvc, hsid, ?_⟩
    rw [hfd]; rfl

/-- An acknowledgment in a session is answered. -/
theorem tftpAck_run (c : Conf) (os : Os) (l : Listener) (loc : SockAddr) (n : Nat)
    {s : SessId} {ses : Session} (hs : w.sessionOf h = some s)
    (hl : w.live s = some ses) (hsvc : ses.service = serviceTftp) (hsid : ses.sid = frm.port.toNat) :
    tftpAck c os l frm loc h n w = .ok () ((w.touch s os.now).emits
      (blockIos c os l l frm (n + 1) (utilRead w os ses.bfFd tftpBlock (n * tftpBlock : Nat)))) := by
  simp only [tftpAck, Exec.bind_ok]
  refine ⟨_, _, hostSessionCheck_run hs hl hsvc hsid, ?_⟩
  rw [if_pos rfl, tftpSendBlock_run (w := w.touch s os.now) hs (live_touch os.now hl)]
  rfl

/-- What the handler comes to before the opcode decides. -/
theorem tftpHandler_ok (hr : tftpHandler c os l frm loc pkt w = .ok u w') :
    (utilIp2host w frm.addr = .ok none ∧
        w' = w.emits [errorIo l frm tftpEAccess (cstr "access denied, client unknown")]) ∨
      ∃ h host, utilIp2host w frm.addr = .ok (some h) ∧ w.hosts[h]? = some host ∧
        ((host.service &&& serviceTftp = 0 ∧
            w' = w.emits [errorIo l frm tftpEAccess
              (cstr "access denied, tftp not allowed for this host")]) ∨
          (host.service &&& serviceTftp ≠ 0 ∧
            tftpDispatch c os l frm loc pkt h host w = .ok u w')) := by
  simp only [tftpHandler, Exec.bind_ok, tftpLogMsgpacket_ok, Exec.get_ok, Exec.liftE_ok_iff] at hr
  obtain ⟨_, _, ⟨-, rfl⟩, _, _, ⟨rfl, rfl⟩, o, _, ⟨ho, rfl⟩, hr⟩ := hr
  cases o with
  | none => exact .inl ⟨ho, (tftpSendError_ok.mp hr).symm⟩
  | some h =>
    simp only [Exec.bind_ok, loadHost_ok] at hr
    obtain ⟨host, _, ⟨hh, rfl⟩, hr⟩ := hr
    refine .inr ⟨h, host, ho, hh, ?_⟩
    split at hr
    · exact .inl ⟨‹_›, (tftpSendError_ok.mp hr).symm⟩
    · exact .inr ⟨‹_›, hr⟩

theorem tftpHandler_logged (hr : tftpHandler c os l frm loc pkt w = .ok u w') : Logged os pkt := by
  unfold tftpHandler at hr
  obtain ⟨_, _, hlog, -⟩ := Exec.bind_ok.mp hr
  exact (tftpLogMsgpacket_ok.mp hlog).1

/-- A datagram from an address that nobody has. -/
theorem tftpHandler_unknown (hlog : Logged os pkt) (hk : utilIp2host w frm.addr = .ok none) :
    tftpHandler c os l frm loc pkt w =
      tftpSendError l frm loc tftpEAccess (cstr "access denied, client unknown") w := by
  unfold tftpHandler
  rw [tftpLogMsgpacket_bind, if_pos hlog, Exec.get_run, hk]
  rfl

/-- A datagram from a host that may use TFTP. -/
theorem tftpHandler_run (hlog : Logged os pkt) (hk : utilIp2host w frm.addr = .ok (some h))
    (hh : w.hosts[h]? = some host)
    (hsvc : host.service &&& serviceTftp ≠ 0) :
    tftpHandler c os l frm loc pkt w = tftpDispatch c os l frm loc pkt h host w := by
  have hl : loadHost h w = .ok host w := loadHost_ok.mpr ⟨hh, rfl⟩
  unfold tftpHandler
  rw [tftpLogMsgpacket_bind, if_pos hlog]
  show (Exec.liftE (utilIp2host w frm.addr) >>= _) w = _
  rw [hk, Exec.liftE_ok, pure_bind]
  exact (Exec.bind_run hl).trans (by rw [if_neg hsvc])

end

/-! ## What the handler emits -/

section
variable {P : Io → Prop} {c : Conf} {os : Os} {l : Listener} {frm loc : SockAddr} {h : HostId}

theorem tftpSendError_emits (hsend : ∀ dl pkt, P (.udp dl (udpVia dl frm) pkt)) (err : Nat)
    (msg : CStr) : Emits P (tftpSendError l frm loc err msg) :=
  emit_emits (hsend _ _)

theorem bfFd_emits : Emits P (bfFd h) := by
  refine .bind .get fun w => ?_
  cases w.sessionOf h with
  | none => exact .throw _
  | some s => exact .bind (loadSession_emits s) fun _ => .pure _

theorem tftpSendBlock_emits (hsend : ∀ dl pkt, P (.udp dl (udpVia dl frm) pkt)) (dl : Listener)
    (n offs : Nat) : Emits P (tftpSendBlock c os l dl frm loc h n offs) := by
  refine .bind bfFd_emits fun fd => .bind .get fun w => .bind ?_ fun _ => emit_emits (hsend _ _)
  exact .ite (fun _ => tftpSendError_emits hsend _ _) fun _ => .pure _

theorem tftpSetSession_emits (sid : Int) (nl : Option Listener) :
    Emits P (tftpSetSession h sid nl) := by
  refine .bind .get fun w => ?_
  cases w.sessionOf h with
  | none => exact .throw _
  | some s => exact .bind (loadSession_emits s) fun _ => .silent fun _ => rfl

theorem tftpRrq_emits (hadmin : ∀ io, io.isAdmin = true → P io)
    (hsend : ∀ dl pkt, P (.udp dl (udpVia dl frm) pkt)) {f : File}
    (hopen : ∀ s r, P (.openFile h s f.path r)) : Emits P (tftpRrq c os l frm loc h f) := by
  refine .bind (hostSessionDelete_emits hadmin h) fun _ => ?_
  refine .bind (listenerNewUdp_emits hadmin os _ _) fun nl => ?_
  refine .bind (listenerAdd_emits os nl) fun _ => ?_
  refine .bind (hostSessionAdd_emits hadmin c os h _ _) fun granted => ?_
  refine .ite (fun _ => ?_) fun _ => tftpSendError_emits hsend _ _
  refine .bind (openFile_emits os h f.path hopen) fun r => ?_
  cases r with
  | some e => exact tftpSendError_emits hsend _ _
  | none =>
    refine .bind (tftpSetSession_emits _ _) fun _ => ?_
    cases nl with
    | none => exact tftpSendError_emits hsend _ _
    | some nl => exact tftpSendBlock_emits hsend nl 1 0

theorem tftpAck_emits (hsend : ∀ dl pkt, P (.udp dl (udpVia dl frm) pkt)) (n : Nat) :
    Emits P (tftpAck c os l frm loc h n) := by
  refine .bind (hostSessionCheck_emits os h _ _) fun check => ?_
  refine .ite (fun _ => tftpSendBlock_emits hsend l _ _) fun _ => ?_
  exact .ite (fun _ => .pure _) fun _ => tftpSendError_emits hsend _ _

theorem tftpDispatch_emits (hadmin : ∀ io, io.isAdmin = true → P io)
    (hsend : ∀ dl pkt, P (.udp dl (udpVia dl frm) pkt)) {pkt : Pkt} {host : Host}
    (hopen : ∀ f, pkt.tftpOp = .rrq → tftpFile host pkt = some f →
      ∀ s r, P (.openFile h s f.path r)) :
    Emits P (tftpDispatch c os l frm loc pkt h host) := by
  unfold tftpDispatch
  cases hop : pkt.tftpOp with
  | rrq =>
    cases hf : tftpFile host pkt with
    | none => exact tftpSendError_emits hsend _ _
    | some f => exact tftpRrq_emits hadmin hsend (hopen f hop hf)
  | wrq => exact tftpSendError_emits hsend _ _
  | data => exact tftpSendError_emits hsend _ _
  | ack => exact tftpAck_emits hsend _
  | error => exact .pure _
  | unknown n => exact .pure _

/-- The trace of the handler: replies go to `frm`, and a file is opened for the
host with the client's address only. -/
theorem tftpHandler_trace (w : World) {pkt : Pkt} (hadmin : ∀ io, io.isAdmin = true → P io)
    (hsend : ∀ dl p, P (.udp dl (udpVia dl frm) p))
    (hopen : ∀ h host f, utilIp2host w frm.addr = .ok (some h) → w.hosts[h]? = some host →
      host.service &&& serviceTftp ≠ 0 → pkt.tftpOp = .rrq → tftpFile host pkt = some f →
      ∀ s r, P (.openFile h s f.path r)) :
    ∀ io ∈ traceOf (tftpHandler c os l frm loc pkt) w, P io := by
  refine Exec.wp_final (I := fun w : World => ∀ io ∈ w.out, P io) ?_
  have hnil : ∀ io ∈ w.start.out, P io := fun io hio => by cases hio
  unfold tftpHandler
  rw [tftpLogMsgpacket_bind]
  split
  swap
  · exact hnil
  simp only [Exec.wp_bind, Exec.wp_get, Exec.wp_liftE]
  refine ⟨fun o ho => ?_, fun _ _ => hnil⟩
  cases o with
  | none => exact (tftpSendError_emits hsend _ _).keeps _ hnil
  | some h =>
    rw [Exec.wp_bind, loadHost_wp]
    refine ⟨fun host hh => ?_, fun _ => hnil⟩
    by_cases hsvc : host.service &&& serviceTftp = 0
    · rw [if_pos hsvc]; exact (tftpSendError_emits hsend _ _).keeps _ hnil
    · rw [if_neg hsvc]
      exact (tftpDispatch_emits hadmin hsend
        fun f hop hf => hopen h host f ho hh hsvc hop hf).keeps _ hnil

/-! ### A fault comes before anything is sent -/

theorem tftpSendError_total (w : World) (err : Nat) (msg : CStr) :
    Exec.wp (tftpSendError l frm loc err msg) (fun _ _ => True) (fun _ _ => False) w := trivial

theorem tftpSendBlock_sendsLast (dl : Listener) (n offs : Nat) :
    SendsLast (tftpSendBlock c os l dl frm loc h n offs) := by
  refine .bind bfFd_emits fun fd => .bind .get fun w => .total fun w' => ?_
  rw [Exec.wp_bind]
  unfold tftpReadError
  split <;> exact trivial

theorem tftpRrq_sendsLast (f : File) : SendsLast (tftpRrq c os l frm loc h f) := by
  refine .bind (hostSessionDelete_emits isAdmin_isSend h) fun _ => ?_
  refine .bind (listenerNewUdp_emits isAdmin_isSend os _ _) fun nl => ?_
  refine .bind (listenerAdd_emits os nl) fun _ => ?_
  refine .bind (hostSessionAdd_emits isAdmin_isSend c os h _ _) fun granted => ?_
  refine .ite ?_ (.total fun w => tftpSendError_total w _ _)
  refine .bind (openFile_emits os h f.path fun _ _ => rfl) fun r => ?_
  cases r with
  | some e => exact .total fun w => tftpSendError_total w _ _
  | none =>
    refine .bind (tftpSetSession_emits _ _) fun _ => ?_
    cases nl with
    | none => exact .total fun w => tftpSendError_total w _ _
    | some nl => exact tftpSendBlock_sendsLast nl 1 0

theorem tftpAck_sendsLast (n : Nat) : SendsLast (tftpAck c os l frm loc h n) := by
  refine .bind (hostSessionCheck_emits os h _ _) fun check => ?_
  refine .ite (tftpSendBlock_sendsLast l _ _) (.ite ?_ (.total fun w => tftpSendError_total w _ _))
  exact (Emits.pure ()).last

theorem tftpHandler_sendsLast {pkt : Pkt} : SendsLast (tftpHandler c os l frm loc pkt) := by
  refine .bind tftpLogMsgpacket_emits fun _ => .bind .get fun w => .bind (.liftE _) fun o => ?_
  cases o with
  | none => exact .total fun w => tftpSendError_total w _ _
  | some h =>
    refine .bind (loadHost_emits h) fun host => .ite (.total fun w => tftpSendError_total w _ _) ?_
    unfold tftpDispatch
    cases pkt.tftpOp with
    | rrq =>
      cases tftpFile host pkt with
      | none => exact .total fun w => tftpSendError_total w _ _
      | some f => exact tftpRrq_sendsLast f
    | wrq | data => exact .total fun w => tftpSendError_total w _ _
    | ack => exact tftpAck_sendsLast _
    | error | unknown n => exact (Emits.pure ()).last

end
end Bootd
