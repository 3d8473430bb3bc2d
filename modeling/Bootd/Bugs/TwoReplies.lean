import Bootd.Bugs.StaleSession
import Bootd.L4Daemon.TftpReply

/-!
# After a failed read an error and a data packet go out

Where `util_read` returns -1, `tftp_handler` sends an error and goes on to the
reply of a good read (src/tftp.c:113-122, src/tftp.c:150-158): the client gets a
second packet, with opcode DATA and `4 + size`, 3, bytes.

Counterexample: the read fails at an acknowledgment (`tftp_two_replies`).

`one_reply_iff`: the datagrams that get at most one reply, in every reachable
state.
-/
namespace Bootd

open Bootd.Core Bootd.Core.Exec

/-- At most one packet, and no cut off DATA packet. -/
def OneReply (w' : World) : Prop :=
  w'.sends.length ≤ 1 ∧
    ∀ l via pkt, .udp l via pkt ∈ w'.sends → opOf pkt = some .data → 4 ≤ pkt.length

/-- Seeking or reading in that file fails. -/
def ReadFails (os : Os) (o : Option (List UInt8)) : Prop :=
  o = none ∨ os.lseek = false ∨ os.read = none

/-- The datagram gets the handler to read from a session's file, and that fails. -/
inductive FailingRead (c : Conf) (os : Os) (frm : SockAddr) (pkt : Pkt) (w : World) : Prop
  | ack (h : HostId) (host : Host) (s : SessId) (ses : Session) :
      utilIp2host w frm.addr = .ok (some h) → w.hosts[h]? = some host →
      host.service &&& serviceTftp ≠ 0 → pkt.tftpOp = .ack → w.sessionOf h = some s →
      w.live s = some ses → ses.service = serviceTftp → ses.sid = frm.port.toNat →
      ReadFails os ((w.fdObj ses.bfFd).bind FdObj.content) → FailingRead c os frm pkt w
  | rrq (h : HostId) (host : Host) (f : File) (d : List UInt8) :
      utilIp2host w frm.addr = .ok (some h) → w.hosts[h]? = some host →
      host.service &&& serviceTftp ≠ 0 → pkt.tftpOp = .rrq → tftpFile host pkt = some f →
      Logged os pkt → RrqSafe c os w h → os.socket = true → ¬Busy c os w h → os.openf f.path = .ok d →
      ReadFails os (some d) → FailingRead c os frm pkt w

section
variable {c : Conf} {os : Os} {l dl : Listener} {frm loc : SockAddr} {pkt : Pkt} {w w' : World}
  {h : HostId} {host : Host} {L : List HostId} {u : Unit} {data : Option (List UInt8)} {n : Nat}

theorem utilRead_fails {fd : Fd} {offs : Nat} : utilRead w os fd tftpBlock offs = none ↔
    ReadFails os ((w.fdObj fd).bind FdObj.content) := by
  unfold utilRead ReadFails
  cases (w.fdObj fd).bind FdObj.content with
  | none => simp
  | some d =>
    cases os.read with
    | none => simp
    | some k => simp

theorem readOf_fails {d : List UInt8} {offs : Nat} :
    readOf os d tftpBlock offs = none ↔ ReadFails os (some d) := by
  unfold readOf ReadFails
  cases os.read with
  | none => simp
  | some k => simp

theorem oneReply_nil (hs : w'.sends = []) : OneReply w' := by
  rw [OneReply, hs]
  exact ⟨by simp, fun _ _ _ hm => by cases hm⟩

theorem oneReply_error {err : Nat} {msg : CStr} (hs : w'.sends = [errorIo l frm err msg]) :
    OneReply w' := by
  rw [OneReply, hs]
  refine ⟨by simp, fun l' via pkt hm hop => ?_⟩
  cases List.mem_singleton.mp hm
  rw [opOf_error] at hop
  cases hop

/-- A block is one reply if it was read. -/
theorem oneReply_block (hs : w'.sends = blockIos c os l dl frm n data) :
    OneReply w' ↔ data ≠ none := by
  rw [OneReply, hs]
  cases data with
  | none => simp [blockIos]
  | some d =>
    refine iff_of_true ⟨by simp [blockIos], fun l' via pkt hm _ => ?_⟩ (by simp)
    cases List.mem_singleton.mp hm
    simp only [tftpDataPkt, tftpDataBuf, List.length_append, be16_length]
    omega

theorem ack_sends {s : SessId} (hout : w.out = []) :
    ((w.touch s os.now).emits (blockIos c os l dl frm n data)).sends = blockIos c os l dl frm n data := by
  rw [sends_emits, blockIos_isSend, World.sends, World.touch_out, hout]
  rfl

/-- A handler that returns sends once, unless a read fails. -/
theorem tftpHandler_oneReply (hok : HostsOk w L) (hd : Descriptors w) (hout : w.out = [])
    (hr : tftpHandler c os l frm loc pkt w = .ok u w') (hno : ¬FailingRead c os frm pkt w) :
    OneReply w' := by
  have hnil : w.sends = [] := by rw [World.sends, hout]; rfl
  have herror : ∀ err msg, OneReply (w.emits [errorIo l frm err msg]) := fun err msg =>
    oneReply_error (l := l) (by rw [sends_emits, hnil]; rfl)
  rcases tftpHandler_ok hr with ⟨-, rfl⟩ | ⟨h, host, hk, hh, ⟨-, rfl⟩ | ⟨hsvc, hd'⟩⟩
  · exact herror _ _
  · exact herror _ _
  unfold tftpDispatch at hd'
  cases hop : pkt.tftpOp with
  | rrq =>
    simp only [hop] at hd'
    cases hf : tftpFile host pkt with
    | none =>
      simp only [hf, tftpSendError_ok] at hd'
      rw [← hd']
      exact herror _ _
    | some f =>
      simp only [hf] at hd'
      have hsafe : RrqSafe c os w h := ((tftpRrq_returns hd).mp ⟨_, _, hd'⟩).2
      cases tftpRrq_end hok hd hout hk hd' with
      | busy _ hs => exact oneReply_error hs
      | openFailed e _ hs => exact oneReply_error hs
      | noListener _ hs => exact oneReply_error hs
      | sent d dl s fd hfree hsock ho _ _ hs =>
        refine (oneReply_block hs).mpr fun hnone => hno ?_
        exact .rrq h host f d hk hh hsvc hop hf (tftpHandler_logged hr) hsafe hsock hfree ho
          (readOf_fails.mp hnone)
  | wrq | data =>
    simp only [hop, tftpSendError_ok] at hd'
    rw [← hd']
    exact herror _ _
  | ack =>
    simp only [hop] at hd'
    rcases tftpAck_ok hd' with ⟨s, ses, hs, hl, hss, hsid, rfl⟩ | ⟨-, rfl⟩ | rfl
    · refine (oneReply_block (ack_sends hout)).mpr fun hnone => hno ?_
      exact .ack h host s ses hk hh hsvc hop hs hl hss hsid (utilRead_fails.mp hnone)
    · exact oneReply_nil hnil
    · exact herror _ _
  | error | unknown n =>
    simp only [hop, pure_ok] at hd'
    rw [← hd'.2]
    exact oneReply_nil hnil

theorem FailingRead.setOut (ios : List Io) (hfail : FailingRead c os frm pkt w) :
    FailingRead c os frm pkt { w with out := ios } := by
  cases hfail with
  | ack h host s ses hk hh hsvc hop hs hl hss hsid hread =>
    exact .ack h host s ses hk hh hsvc hop hs hl hss hsid hread
  | rrq h host f d hk hh hsvc hop hf hlog hsafe hsock hfree ho hread =>
    exact .rrq h host f d hk hh hsvc hop hf hlog (hsafe.setOut ios) hsock hfree ho hread

theorem failingRead_start : FailingRead c os frm pkt w.start ↔ FailingRead c os frm pkt w :=
  ⟨fun hfail => hfail.setOut w.out, fun hfail => hfail.setOut []⟩

/-- A failing read is answered twice. -/
theorem failingRead_twice (l : Listener) (loc : SockAddr) (hok : HostsOk w L) (hd : Descriptors w)
    (hout : w.out = []) (hfail : FailingRead c os frm pkt w) :
    ∃ w', tftpHandler c os l frm loc pkt w = .ok () w' ∧ ¬OneReply w' := by
  cases hfail with
  | ack h host s ses hk hh hsvc hop hs hl hss hsid hread =>
    have hrun := tftpAck_run c os l loc pkt.tftpN hs hl hss hsid
    have hhandler : tftpHandler c os l frm loc pkt w =
        tftpAck c os l frm loc h pkt.tftpN w := by
      rw [tftpHandler_run (logged_ack hop) hk hh hsvc, tftpDispatch]
      simp only [hop]
    refine ⟨_, hhandler.trans hrun, fun hone => ?_⟩
    exact (oneReply_block (ack_sends hout)).mp hone (utilRead_fails.mpr hread)
  | rrq h host f d hk hh hsvc hop hf hlog hsafe hsock hfree ho hread =>
    obtain ⟨-, r, hLp, -⟩ := id hok.lasso
    obtain ⟨_, w', hrun⟩ := (tftpRrq_returns (c := c) (l := l)
      (f := f) hd).mpr ⟨path_lt hLp h (hostFind_mem hok hk), hsafe⟩
    refine ⟨w', ?_, fun hone => ?_⟩
    · rw [tftpHandler_run hlog hk hh hsvc, tftpDispatch]
      simp only [hop, hf]
      exact hrun
    · cases tftpRrq_end hok hd hout hk hrun with
      | busy hbusy => exact hfree hbusy
      | openFailed e he => rw [ho] at he; cases he
      | noListener hs => rw [hsock] at hs; cases hs
      | sent d' dl s fd _ _ ho' _ _ hs =>
        rw [ho] at ho'; cases ho'
        exact (oneReply_block hs).mp hone (readOf_fails.mpr hread)

end

/-- **Which datagrams get at most one reply**, in every reachable state. -/
theorem one_reply_iff (c : Conf) (σ : Sys) (hr : (daemon c).Reachable σ) (os : Os) (l : Listener)
    (frm loc : SockAddr) (pkt : Pkt) :
    OneReply (σ.next c (.udp os l frm loc pkt)).w ↔ ¬FailingRead c os frm pkt σ.w := by
  obtain ⟨L, hok⟩ := daemon_hostsOk σ hr
  have hd := (daemon_descriptors σ hr).start
  rw [← failingRead_start]
  refine ⟨fun hone hfail => ?_, fun hno => ?_⟩
  · obtain ⟨w', hrun, htwo⟩ := failingRead_twice l loc hok.start hd rfl hfail
    rw [sys_next_eq (e := .udp os l frm loc pkt) hrun] at hone
    exact htwo hone
  · by_cases hret : Returns ((Ev.udp os l frm loc pkt).handle c) σ.w.start
    · obtain ⟨u, w', hrun⟩ := hret
      rw [sys_next_eq hrun]
      exact tftpHandler_oneReply hok.start hd rfl hrun hno
    · exact oneReply_nil (next_faults hret)

/-- The file can be read: one reply. -/
theorem readK_no_failure : ¬FailingRead plainConf plainOs ⟨1, 1024⟩
    (.ofBytes ([0, 1] ++ cstr "k" ++ [0])) served := by
  refine (one_reply_iff plainConf bootSys bootSys_reachable plainOs port69 ⟨1, 1024⟩ ⟨7, 69⟩ _).mp ?_
  obtain ⟨dl, hsends⟩ : ∃ dl, (bootSys.next plainConf (readK plainOs)).w.sends =
      blockIos plainConf plainOs port69 dl ⟨1, 1024⟩ 1 (some [1, 2, 3]) := ⟨_, rfl⟩
  exact (oneReply_block hsends).mpr (by simp)

/-- **Counterexample**: the read fails at an acknowledgment, and the client gets
an error and three bytes of a DATA packet. -/
theorem tftp_two_replies : ¬ ∀ (c : Conf) (σ : Sys) (os : Os) (l : Listener) (frm loc : SockAddr)
    (pkt : Pkt), (daemon c).Reachable σ → (Ev.udp os l frm loc pkt).Enabled σ.w →
    OneReply (σ.next c (.udp os l frm loc pkt)).w := by
  intro h
  have hone := h plainConf reading { plainOs with read := none } port69 ⟨1, 1024⟩ ⟨7, 69⟩
    (.ofBytes ([0, 4] ++ be16 1)) reading_reachable ⟨List.mem_cons_self, rfl⟩
  have htwo : (reading.next plainConf (.udp { plainOs with read := none } port69 ⟨1, 1024⟩ ⟨7, 69⟩
      (.ofBytes ([0, 4] ++ be16 1)))).w.sends =
      blockIos plainConf plainOs port69 port69 ⟨1, 1024⟩ 2 none := rfl
  exact (oneReply_block htwo).mp hone rfl

end Bootd
