import Bootd.Bugs.StaleSession
import Bootd.Bugs.TwoReplies
import Bootd.L4Daemon.Transfer

/-!
# A finished transfer goes on

The session does not record that a transfer has come to its end, and
`tftp_handler` answers each acknowledgment without a look at how much it read
(src/tftp.c:144-161). The acknowledgment of the final block is answered with
one more DATA packet, and so is each duplicate of it.

Counterexample: a file of three bytes (`final_ack_answered`).

`final_ack_data`: it is so for every file and every transfer.
-/
namespace Bootd

open Bootd.Core Bootd.Core.Exec Bootd.Core.Blocks

/-- No DATA packet is sent. -/
def NoData (w' : World) : Prop := ∀ l via pkt, .udp l via pkt ∈ w'.sends → opOf pkt ≠ some .data

/-- The client acknowledges the final block. -/
inductive Ev.AcksLast (frm : SockAddr) (content : List UInt8) : Ev → Prop
  | ack (os : Os) (l : Listener) (loc : SockAddr) (pkt : Pkt) :
      pkt.tftpOp = .ack → pkt.tftpN = content.length / tftpBlock + 1 →
      AcksLast frm content (.udp os l frm loc pkt)

section
variable {c : Conf} {os : Os} {l dl : Listener} {frm : SockAddr} {w w' : World} {n : Nat}
  {data : Option (List UInt8)} {h : HostId} {s : SessId} {content : List UInt8} {x : Xfer}
  {es : List Ev} {σ : Sys}

theorem block_data (hs : w'.sends = blockIos c os l dl frm n data) : ¬NoData w' := by
  rw [NoData, hs]
  intro hq
  cases data with
  | none =>
    refine hq dl _ _ (List.mem_cons_of_mem _ List.mem_cons_self) ?_
    exact opOf_data n [] 3 (by decide)
  | some d =>
    refine hq dl _ (tftpDataBuf n d) List.mem_cons_self ?_
    rw [← List.take_length (l := tftpDataBuf n d)]
    exact opOf_data n d _ (by simp [tftpDataBuf])

end

/-- **The acknowledgment of the final block is always answered with a DATA
packet**, whatever came after the transfer. -/
theorem final_ack_data (c : Conf) (frm : SockAddr) (h : HostId) (s : SessId) (content : List UInt8)
    (x : Xfer) (hx : (xfer c frm h s content).Reachable x) (es : List Ev) (σ : Sys)
    (hrun : (daemon c).Run x.σ es σ) (hhas : HasSession σ.w h s) (e : Ev) (he : e.Enabled σ.w)
    (hack : e.AcksLast frm content) :
    ∃ σ', (daemon c).step σ e σ' ∧ ¬NoData σ'.w := by
  have hi := xfer_inv hx
  obtain ⟨ses, path, hses, hsid⟩ := hi.session
  obtain ⟨ses', hses', hsame, hhost⟩ := hses.run hi.reachable hrun hi.host hhas
  obtain ⟨hr, -⟩ := run_kept hi.reachable hrun
  obtain ⟨os, l, loc, pkt, hop, hn⟩ := hack
  have hans := next_ack os l loc hr hses' hhost (hsame.sid_eq.trans hsid) hop
  refine ⟨σ.next c (.udp os l frm loc pkt), daemon_next he (by rw [returns, hans]), ?_⟩
  rw [sys_next_eq hans]
  exact block_data (ack_sends rfl)

theorem ackK_last : (ackK 1).AcksLast ⟨1, 1024⟩ [1, 2, 3] := .ack _ _ _ _ (by decide) (by decide)

/-- The acknowledgment of block 1 of three bytes. -/
theorem final_ack_readK : ∃ σ', (daemon plainConf).step (begun [1, 2, 3]).σ (ackK 1) σ' ∧
    ¬NoData σ'.w :=
  final_ack_data plainConf ⟨1, 1024⟩ 0 0 [1, 2, 3] _ (begun_reachable _) [] _ (.nil _)
    ⟨rfl, _, rfl⟩ (ackK 1) ⟨List.mem_cons_self, rfl⟩ ackK_last

/-- **Counterexample**: a file of three bytes has come in one packet, and the
acknowledgment of that is answered with packet 2. -/
theorem final_ack_answered : ¬ ∀ (c : Conf) (frm : SockAddr) (h : HostId) (s : SessId)
    (content : List UInt8) (x : Xfer), (xfer c frm h s content).Reachable x → x.Finished →
    content.length / tftpBlock + 1 ≤ 65535 → ∀ (e : Ev) (σ' : Sys), e.AcksLast frm content →
    (daemon c).step x.σ e σ' → NoData σ'.w := by
  intro hall
  have hsends : ((begun [1, 2, 3]).σ.next plainConf (ackK 1)).w.sends =
      blockIos plainConf plainOs port69 port69 ⟨1, 1024⟩ 2 (some []) := rfl
  refine block_data hsends (hall _ _ _ _ _ _ (begun_reachable _) ⟨1, [1, 2, 3], rfl, by decide⟩
    (by decide) (ackK 1) _ ackK_last (daemon_next ⟨List.mem_cons_self, rfl⟩ (by decide +kernel)))

end Bootd
