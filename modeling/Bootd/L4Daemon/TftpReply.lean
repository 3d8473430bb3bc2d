import Bootd.Core.Blocks
import Bootd.L4Daemon.TftpReturns
import Bootd.L4Daemon.Track

/-!
# What the TFTP handler sends

* `RrqEnd`, `tftpRrq_end`: the four ways in which a read request for a
  configured file comes back, told apart by the memory before it and the answers
  of the system.
* `next_rrq`: over the daemon, a read request that is granted a session sends
  the first block.
* `next_ack`: in every reachable state, an acknowledgment of block `n` in a
  session is answered with block `n + 1` of its file.
-/
namespace Bootd

open Bootd.Core Bootd.Core.Exec Bootd.Core.Blocks

/-- What `util_read` gives at offset `offs` of that content. -/
def readOf (os : Os) (content : List UInt8) (len offs : Nat) : Option (List UInt8) :=
  match os.read with
  | some k => if os.lseek then some ((content.drop offs).take (min len k)) else none
  | none => none

/-- Reading a block at `offs` works, and gives all that there is. -/
def ReadsAll (os : Os) (content : List UInt8) (offs : Nat) : Prop :=
  os.lseek = true ∧ ∃ k, os.read = some k ∧ min tftpBlock (content.length - offs) ≤ k

/-- An active TFTP session of the host `h`, on an open file. -/
structure TftpSession (w : World) (h : HostId) (s : SessId) (ses : Session) (path : Option CStr)
    (content : List UInt8) : Prop where
  sessionOf : w.sessionOf h = some s
  live : w.live s = some ses
  service : ses.service = serviceTftp
  file : w.fdObj ses.bfFd = some (.file path content)

/-- The host's session is `s`. -/
def HasSession (w : World) (h : HostId) (s : SessId) : Prop :=
  w.sessionOf h = some s ∧ ∃ ses, w.live s = some ses

/-- How a read request for `f` comes back. -/
inductive RrqEnd (c : Conf) (os : Os) (l : Listener) (frm : SockAddr) (h : HostId) (f : File) (w w' : World) :
    Prop
  | busy : Busy c os w h → w'.sends = [errorIo l frm tftpEUndef (cstr "server busy")] →
      RrqEnd c os l frm h f w w'
  | openFailed (e : Errno) : os.openf f.path = .error e →
      w'.sends = [errorIo l frm (tftpErrnoCode e) (c.strerror e)] → RrqEnd c os l frm h f w w'
  | noListener : os.socket = false →
      w'.sends = [errorIo l frm tftpEUndef (c.strerror os.errno)] → RrqEnd c os l frm h f w w'
  | sent (d : List UInt8) (dl : Listener) (s : SessId) (fd : Fd) : ¬Busy c os w h →
      os.socket = true → os.openf f.path = .ok d → dl.peer = some frm →
      .openFile h s f.path (some fd) ∈ w'.out →
      w'.sends = blockIos c os l dl frm 1 (readOf os d tftpBlock 0) → RrqEnd c os l frm h f w w'

section
variable {c : Conf} {os : Os} {l dl : Listener} {frm loc : SockAddr} {pkt : Pkt} {w w' : World}
  {h : HostId} {host : Host} {s : SessId} {ses : Session} {f : File} {L : List HostId}
  {content : List UInt8} {fd : Fd} {u : Unit} {σ : Sys}

theorem utilRead_file (hfile : (w.fdObj fd).bind FdObj.content = some content) (len offs : Nat) :
    utilRead w os fd len offs = readOf os content len offs := by
  unfold utilRead readOf
  rw [hfile]
  cases os.read with
  | none => rfl
  | some k => simp

theorem readOf_all {n : Nat} (hr : ReadsAll os content (n * tftpBlock)) :
    readOf os content tftpBlock (n * tftpBlock) = some (block tftpBlock n content) := by
  obtain ⟨hseek, k, hk, hmin⟩ := hr
  rw [readOf, hk]
  simp only [hseek, if_true, Option.some.injEq, block]
  have hlen := List.length_drop (l := content) (i := n * tftpBlock)
  rcases Nat.lt_or_ge k tftpBlock with hlt | hle
  · have hshort : content.length - n * tftpBlock ≤ k := by omega
    rw [Nat.min_eq_right hlt.le, List.take_of_length_le (by omega), List.take_of_length_le (by omega)]
  · rw [Nat.min_eq_left hle]

theorem blockIos_isSend (dl : Listener) (n : Nat) (data : Option (List UInt8)) :
    (blockIos c os l dl frm n data).filter Io.isSend = blockIos c os l dl frm n data := by
  unfold blockIos
  split <;> rfl

/-- A read request that comes back. -/
theorem tftpRrq_end (hok : HostsOk w L) (hd : Descriptors w) (hout : w.out = [])
    (hk : utilIp2host w frm.addr = .ok (some h)) (hr : tftpRrq c os l frm loc h f w = .ok u w') :
    RrqEnd c os l frm h f w w' := by
  obtain ⟨es, w₁, nl, w₂, ps, w₃, he, hown, hnl, hpath, hlive, he', hlt, hnone, hcase⟩ := tftpRrq_ok hr
  have hpre : Prelude h w (.udp os l frm loc ⟨fun _ => 0, 0⟩) nl w₂ :=
    .tftp _ _ _ _ _ es w₁ nl w₂ he hown hnl
  have hbusy : Busy c os w h ↔ c.cSessionMax ≤ w₃.gNSessions :=
    request_busy (e := .udp os l frm loc ⟨fun _ => 0, 0⟩) hok (.known _ _ hk id) hpre hpath hlive he'
  have hd₂ := (hd.prelude hpre).1
  have hout₃ : ∀ io ∈ w₃.out, io.isSend = false := by
    intro io hio
    rcases (hd₂.ends_appends (P := fun io => io.isSend = false) he' fun _ _ => rfl).mem hio with hio | hio
    · rcases (hd.prelude_appends (P := fun io => io.isSend = false) hpre (fun _ _ => rfl)
        fun _ => rfl).mem hio with hio | hio
      · rw [hout] at hio; cases hio
      · exact hio
    · exact hio
  have hquiet : ∀ (w₄ : World) (ios : List Io), w₄.out = w₃.out ++ ios →
      (∀ io ∈ ios, io.isSend = false) → w₄.sends = [] := by
    intro w₄ ios ho hios
    refine sends_nil fun io hio => ?_
    rw [ho] at hio
    rcases List.mem_append.mp hio with hio | hio
    · exact hout₃ io hio
    · exact hios io hio
  rcases hcase with ⟨hmax, rfl⟩ | ⟨hmax, hg⟩
  · refine .busy (hbusy.mpr hmax) ?_
    rw [sends_emits, sends_nil hout₃]
    rfl
  have hfree : ¬Busy c os w h := fun hb => absurd (hbusy.mp hb) (by omega)
  cases hg with
  | openFailed e ho =>
    refine .openFailed e ho ?_
    rw [sends_emits, hquiet _ [.start h w₃.sessions.length, .openFile h w₃.sessions.length f.path none]
      (by simp) (by simp [Io.isSend])]
    rfl
  | noListener d ho hno =>
    subst hno
    cases hnl with
    | failed hs =>
      refine .noListener hs ?_
      rw [sends_emits, hquiet _ [.start h w₃.sessions.length,
        .openFile h w₃.sessions.length f.path (some w₃.freeFd)] (by simp) (by simp [Io.isSend])]
      rfl
  | sent d dl ses ho hsome hl =>
    subst hsome
    cases hnl with
    | created _ hs _ _ hpeer _ =>
      refine .sent d dl w₃.sessions.length w₃.freeFd hfree hs ho hpeer ?_ ?_
      · simp
      · have hg := live_granted w₃ h (.fresh serviceTftp frm.port.toNat os.now) f.path d
          (fun ses => { ses with sid := frm.port.toNat, l := (some dl).map Listener.id }) w₃.sessions.length
        rw [if_pos rfl] at hg
        have hl := hl.symm.trans hg
        cases hl
        rw [sends_emits, hquiet _ [.start h w₃.sessions.length,
          .openFile h w₃.sessions.length f.path (some w₃.freeFd)] (by simp) (by simp [Io.isSend]),
          blockIos_isSend, utilRead_file]
        · rfl
        · have hobj : (((w₃.startSession h (.fresh serviceTftp frm.port.toNat os.now)).opened h
              w₃.sessions.length f.path d).attach w₃.sessions.length frm.port.toNat (some dl)).fdObj
              w₃.freeFd = some (.file f.path d) :=
            (fdObj_put (w := w₃) (o := .file f.path d) rfl _).trans (if_pos rfl)
          simp only [Session.bfFd, Vector.getElem_set_self, hobj, Option.bind_some, FdObj.content]

/-! ## Acknowledgments -/

/-- The block number is 16 bits wide. -/
theorem tftpDataBuf_mod (n : Nat) (data : List UInt8) :
    tftpDataBuf (n % 65536) data = tftpDataBuf n data := by
  have h : be16 (n % 65536) = be16 n := by
    simp only [be16, List.cons.injEq, and_true]
    constructor
    · refine UInt8.toNat_inj.mp ?_
      simp only [UInt8.toNat_ofNat']
      omega
    · refine UInt8.toNat_inj.mp ?_
      simp only [UInt8.toNat_ofNat']
      omega
  rw [tftpDataBuf, h, tftpDataBuf]

/-- An acknowledgment of block `n` from the client of a session. -/
theorem next_ack (os : Os) (l : Listener) (loc : SockAddr) {path : Option CStr} (hr : (daemon c).Reachable σ)
    (hs : TftpSession σ.w h s ses path content) (hk : utilIp2host σ.w frm.addr = .ok (some h))
    (hsid : ses.sid = frm.port.toNat) (hop : pkt.tftpOp = .ack) :
    (Ev.udp os l frm loc pkt).handle c σ.w.start = .ok () ((σ.w.start.touch s os.now).emits
      (blockIos c os l l frm (pkt.tftpN + 1) (readOf os content tftpBlock (pkt.tftpN * tftpBlock)))) := by
  obtain ⟨host, hh, -⟩ := sessionOf_some.mp hs.sessionOf
  have hallowed : host.service &&& serviceTftp ≠ 0 := by
    have := (daemon_inService σ hr).service h s ses host hs.sessionOf hs.live hh
    rwa [hs.service] at this
  have hfile : (σ.w.start.fdObj ses.bfFd).bind FdObj.content = some content :=
    congrArg (Option.bind · FdObj.content) hs.file
  have hrun := tftpAck_run (w := σ.w.start) c os l loc pkt.tftpN
    hs.sessionOf hs.live hs.service hsid
  rw [utilRead_file hfile] at hrun
  show tftpHandler c os l frm loc pkt σ.w.start = _
  rw [tftpHandler_run (w := σ.w.start) (logged_ack hop) hk hh hallowed, tftpDispatch]
  simp only [hop]
  exact hrun

/-- If the read gives all that there is, the answer is the next block. -/
theorem next_ack_block (l : Listener) (loc : SockAddr) {path : Option CStr} (hr : (daemon c).Reachable σ)
    (hs : TftpSession σ.w h s ses path content) (hk : utilIp2host σ.w frm.addr = .ok (some h))
    (hsid : ses.sid = frm.port.toNat) (hop : pkt.tftpOp = .ack)
    (hall : ReadsAll os content (pkt.tftpN * tftpBlock)) :
    (Ev.udp os l frm loc pkt).handle c σ.w.start = .ok () ((σ.w.start.touch s os.now).emits
      [.udp l (udpVia l frm) (tftpDataBuf ((pkt.tftpN + 1) % 65536)
        (block tftpBlock pkt.tftpN content))]) := by
  rw [next_ack os l loc hr hs hk hsid hop, readOf_all hall, tftpDataBuf_mod]
  rfl

/-! ## Read requests -/

/-- A read request for the file `f` of `h`, with that content, that is granted a
session, a listener and a file. -/
structure Accepted (c : Conf) (σ : Sys) (os : Os) (l : Listener) (frm loc : SockAddr) (pkt : Pkt)
    (h : HostId) (f : File) (content : List UInt8) : Prop where
  requests : (Ev.udp os l frm loc pkt).Requests σ.w h f
  free : ¬Busy c os σ.w h
  openf : os.openf f.path = .ok content
  socket : os.socket = true

theorem Accepted.client (ha : Accepted c σ os l frm loc pkt h f content) :
    utilIp2host σ.w frm.addr = .ok (some h) := ha.requests.1

/-- A read request that is accepted and comes back sends the first block, and
leaves its session open on the file. -/
theorem next_rrq {σ' : Sys} (hr : (daemon c).Reachable σ)
    (ha : Accepted c σ os l frm loc pkt h f content)
    (hstep : (daemon c).step σ (.udp os l frm loc pkt) σ') :
    ∃ dl s ses, dl.peer = some frm ∧ TftpSession σ'.w h s ses f.path content ∧
      ses.sid = frm.port.toNat ∧
      σ'.w.sends = blockIos c os l dl frm 1 (readOf os content tftpBlock 0) := by
  obtain ⟨L, hok⟩ := daemon_hostsOk σ hr
  have hd := (daemon_descriptors σ hr).start
  obtain ⟨host, hh, hf⟩ := ha.requests.2
  simp only [Ev.file] at hf
  by_cases hrrq : host.service &&& serviceTftp ≠ 0 ∧ pkt.tftpOp = .rrq
  swap
  · rw [if_neg hrrq] at hf; cases hf
  rw [if_pos hrrq] at hf
  have hrun : tftpRrq c os l frm loc h f σ.w.start = .ok () σ'.w := by
    have hhandle : tftpHandler c os l frm loc pkt σ.w.start = .ok () σ'.w := hstep.2.1
    rw [tftpHandler_run (w := σ.w.start) (tftpHandler_logged hhandle) ha.client hh hrrq.1,
      tftpDispatch] at hhandle
    simpa only [hrrq.2, hf] using hhandle
  cases tftpRrq_end hok.start hd rfl ha.client hrun with
  | busy hb => exact absurd hb ha.free
  | openFailed e he => rw [ha.openf] at he; cases he
  | noListener hs => rw [ha.socket] at hs; cases hs
  | sent d dl s fd _ _ ho hpeer hm hs =>
    rw [ha.openf] at ho; cases ho
    obtain ⟨t, f', ses, d', hreq, -, -, hnew⟩ := handle_opened hok.start hd rfl hstep.2.1 hm
    have hd' : d' = content := by
      have h1 : os.openf f.path = .ok d' := hnew.openf
      rw [ha.openf] at h1; cases h1; rfl
    subst hd'
    refine ⟨dl, s, ses, hpeer, ⟨hnew.sessionOf, hnew.live, hnew.service, ?_⟩, hnew.sid, hs⟩
    rw [hnew.fd_eq]
    exact hnew.file

/-! ## Later on -/

/-- As long as the host `h` has the session, that stays on its file, and the
client's address is that of `h`. -/
theorem TftpSession.run {path : Option CStr} {σ' : Sys} {es : List Ev} {ip : Ip}
    (hr : (daemon c).Reachable σ) (hrun : (daemon c).Run σ es σ')
    (hs : TftpSession σ.w h s ses path content) (hk : utilIp2host σ.w ip = .ok (some h))
    (hhas : HasSession σ'.w h s) :
    ∃ ses', TftpSession σ'.w h s ses' path content ∧ ses.Same ses' ∧
      utilIp2host σ'.w ip = .ok (some h) := by
  obtain ⟨hs', ses', hl'⟩ := hhas
  obtain ⟨-, hkept⟩ := run_kept hr hrun
  obtain ⟨ses₀, hl, hsame⟩ := hkept.sessions s (Slots.lt_of_get hs.live) ses' hl'
  rw [hs.live] at hl; cases hl
  refine ⟨ses', ⟨hs', hl', hsame.service.trans hs.service, ?_⟩, hsame,
    (run_grown hr hrun).utilIp2host hk⟩
  rw [Session.bfFd, hsame.fd]
  exact hkept.fds _ _ hs.file

end
end Bootd
