import Bootd.L1Wire.Tftp

/-!
# The TFTP string getters run past their static buffers

`tftp_get_filename`, `tftp_get_mode` and `tftp_get_errmsg` (src/tftp.c:253-330)
copy packet bytes into a `static char buf[512]`. The loops are bounded by
`pktlen` only, and `i_listener_udp_receive` (src/listener.c:792-828) hands over
up to 4096 bytes, so a long read request or error packet writes behind the
buffer. `tftp_log_msgpacket` calls the getters for every packet, before any
access check.

Counterexample: a read request of 514 bytes stores its terminating NUL at
index 512 (`tftp_buffers_overrun`). What the handler does then is the business
of `tftpLogMsgpacket` in `L3Protocol.Tftp`.

`tftp_buffers_iff`: the getters stay in their buffers exactly for requests of
at most 513 bytes and error packets of at most 515.
-/
namespace Bootd

/-- The three getters make no store outside `buf[0..511]` and leave a
terminated string there. -/
def TftpBuffersSafe (p : Pkt) : Prop :=
  (∀ st, tftpGetFilename p = some st → st.InBuf) ∧
  (∀ st, tftpGetMode p = some st → st.InBuf) ∧
  (∀ st, tftpGetErrmsg p = some st → st.InBuf)

/-- **When the buffers hold.** The getters stay in their static buffers for
exactly the packets whose copied part is shorter than the buffer. -/
theorem tftp_buffers_iff (p : Pkt) : TftpBuffersSafe p ↔
    (p.tftpOp = .rrq ∨ p.tftpOp = .wrq → p.len ≤ 513) ∧ (p.tftpOp = .error → p.len ≤ 515) := by
  unfold TftpBuffersSafe
  rw [filename_inBuf_iff, errmsg_inBuf_iff]
  constructor
  · rintro ⟨h1, -, h3⟩; exact ⟨h1, h3⟩
  · intro ⟨h1, h3⟩; exact ⟨h1, mode_inBuf p h1, h3⟩

/-- A read request for a name of 512 bytes without a NUL. -/
def longRrq : Pkt := ⟨fun i => if i = 0 then 0 else 1, 514⟩

/-- **Counterexample**: 514 bytes are well below what the receive buffer takes. -/
theorem tftp_buffers_overrun : ¬ ∀ p : Pkt, p.len ≤ 4096 → TftpBuffersSafe p := by
  intro h
  have hs := (tftp_buffers_iff longRrq).mp (h longRrq (by decide))
  exact absurd (hs.1 (.inl (by decide))) (by decide)

end Bootd
