import Bootd.L4Daemon.Reply

/-!
# TFTP errors are answered with errors

`tftp_handler` (src/tftp.c:38-52) checks the sender before it looks at the
opcode, and both checks send an ERROR. The `case TFTPOP_ERROR` of the dispatch,
which stays silent, is only reached by hosts that may use TFTP; an ERROR from
anybody else is answered, against rfc1350 and against that very case label.

Counterexample: with an empty host table the server's own error message,
arriving at port 69, is answered with the same message (`tftp_error_echo`), so
two such servers, or one that hears itself, never stop.

`tftp_error_silent_iff`: an ERROR is not answered exactly when its sender is a
host that may use TFTP, or when it is so long that logging it already ends the
process; and then no run of ERROR packets sends anything.
-/
namespace Bootd

open Bootd.Core

/-- A datagram with the listener it arrived on, and the answers of the system
while it is handled. -/
structure Datagram where
  os : Os
  l : Listener
  frm : SockAddr
  loc : SockAddr
  pkt : Pkt

def Datagram.handle (c : Conf) (d : Datagram) : M Unit :=
  tftpHandler c d.os d.l d.frm d.loc d.pkt

/-- A run of the handler over datagrams, up to the first fault. -/
def serve (c : Conf) : List Datagram → M Unit
  | [] => pure ()
  | d :: ds => do
    d.handle c
    serve c ds

/-- No packet is handed to a send function. -/
def SendsNothing (m : M Unit) (w : World) : Prop := ∀ io ∈ traceOf m w, io.isSend = false

/-- Past the log, the lookup of the sender does not end without a host, and a
host it finds may use TFTP. -/
def Datagram.Allowed (d : Datagram) (w : World) : Prop :=
  Logged d.os d.pkt →
  match utilIp2host w d.frm.addr with
  | .ok none => False
  | .ok (some h) => ∀ host, w.hosts[h]? = some host → host.service &&& serviceTftp ≠ 0
  | .error _ => True

/-- An ERROR from a host that may use TFTP changes nothing, whether the handler
returns or not. -/
theorem tftp_error_final {c : Conf} {d : Datagram} {w : World} (hop : d.pkt.tftpOp = .error)
    (ha : d.Allowed w) : Exec.wp (d.handle c) (fun _ s => s = w) (fun _ s => s = w) w := by
  unfold Datagram.handle tftpHandler
  rw [tftpLogMsgpacket_bind]
  split
  swap
  · exact rfl
  rename_i hlog
  have ha := ha hlog
  simp only [Exec.wp_bind, Exec.wp_get, Exec.wp_liftE]
  refine ⟨fun o ho => ?_, fun _ _ => trivial⟩
  rw [ho] at ha
  cases o with
  | none => exact absurd ha id
  | some h =>
    rw [Exec.wp_bind, loadHost_wp]
    refine ⟨fun host hh => ?_, fun _ => rfl⟩
    rw [if_neg (ha host hh), tftpDispatch, hop]
    rfl

/-- An ERROR from anybody else is answered. -/
theorem tftp_error_answered {c : Conf} {d : Datagram} {w : World} (ha : ¬d.Allowed w) :
    ∃ l via p, .udp l via p ∈ traceOf (d.handle c) w := by
  have key : Exec.wp (d.handle c) (fun _ s => ∃ l via p, .udp l via p ∈ s.out)
      (fun _ _ => False) w.start := by
    unfold Datagram.Allowed at ha
    obtain ⟨hlog, ha⟩ := Classical.not_imp.mp ha
    unfold Datagram.handle tftpHandler
    rw [tftpLogMsgpacket_bind, if_pos hlog]
    simp only [Exec.wp_bind, Exec.wp_get, Exec.wp_liftE]
    have hw : utilIp2host w.start d.frm.addr = utilIp2host w d.frm.addr := rfl
    rw [hw]
    split at ha
    · rename_i ho
      refine ⟨fun o ho' => ?_, fun e he => by rw [ho] at he; cases he⟩
      rw [ho] at ho'; cases ho'
      exact ⟨_, _, _, List.mem_append_right _ (List.mem_singleton.mpr rfl)⟩
    · rename_i h ho
      refine ⟨fun o ho' => ?_, fun e he => by rw [ho] at he; cases he⟩
      rw [ho] at ho'; cases ho'
      simp only [not_forall, not_not] at ha
      obtain ⟨host, hh, hsvc⟩ := ha
      rw [Exec.wp_bind, loadHost_wp]
      refine ⟨fun host' hh' => ?_, fun hn => by rw [World.start_hosts, hh] at hn; cases hn⟩
      rw [World.start_hosts, hh] at hh'; cases hh'
      rw [if_pos hsvc]
      exact ⟨_, _, _, List.mem_append_right _ (List.mem_singleton.mpr rfl)⟩
    · exact absurd trivial ha
  unfold traceOf Exec.final
  unfold Exec.wp at key
  cases hr : d.handle c w.start with
  | ok u s => rw [hr] at key; exact key
  | error e s => rw [hr] at key; exact absurd key id

/-- A run of ERROR packets from hosts that may use TFTP leaves the memory and
the trace as they are. -/
theorem serve_errors {c : Conf} {w : World} {ds : List Datagram}
    (h : ∀ d ∈ ds, d.pkt.tftpOp = .error ∧ d.Allowed w) :
    Exec.wp (serve c ds) (fun _ s => s = w) (fun _ s => s = w) w := by
  induction ds with
  | nil => exact rfl
  | cons d ds ih =>
    obtain ⟨hop, ha⟩ := h d List.mem_cons_self
    rw [serve, Exec.wp_bind]
    refine Exec.wp_mono (tftp_error_final hop ha) ?_ fun _ s hs => hs
    rintro _ s rfl
    exact ih fun d hd => h d (List.mem_cons_of_mem _ hd)

/-- **When errors stay unanswered.** An ERROR datagram is not answered exactly
when its sender may use TFTP, and as long as all senders may, no run of ERROR
datagrams sends a packet. -/
theorem tftp_error_silent_iff (c : Conf) (w : World) :
    (∀ d : Datagram, d.pkt.tftpOp = .error → (SendsNothing (d.handle c) w ↔ d.Allowed w)) ∧
    ∀ ds : List Datagram, (∀ d ∈ ds, d.pkt.tftpOp = .error ∧ d.Allowed w) →
      SendsNothing (serve c ds) w := by
  have hnil : ∀ {m : M Unit}, Exec.wp m (fun _ s => s = w.start) (fun _ s => s = w.start) w.start →
      SendsNothing m w := by
    intro m hm io hio
    rw [traceOf, Exec.wp_final (I := fun s => s = w.start) hm] at hio
    cases hio
  refine ⟨fun d hop => ⟨fun h => ?_, fun ha => hnil (tftp_error_final hop ha)⟩,
    fun ds h => hnil (serve_errors h)⟩
  by_contra ha
  obtain ⟨l, via, p, hm⟩ := tftp_error_answered (c := c) ha
  have := h _ hm
  cases this

/-- The server's answer to a client it does not know. -/
def unknownError : List UInt8 := tftpErrorPkt tftpEAccess (cstr "access denied, client unknown")

/-- **Counterexample**: with no hosts configured, the server's own error
message, coming back to port 69, is answered with the same message again. -/
theorem tftp_error_echo : ∃ (c : Conf) (w : World) (d : Datagram),
    d.pkt = .ofBytes unknownError ∧ d.pkt.tftpOp = .error ∧
    traceOf (d.handle c) w = [.udp d.l (.sendto d.frm) unknownError] ∧
    ¬ SendsNothing (d.handle c) w := by
  refine ⟨plainConf, emptyWorld, ⟨plainOs, port69, ⟨1, 69⟩, ⟨1, 69⟩, .ofBytes unknownError⟩, rfl,
    by decide, rfl, ?_⟩
  intro h
  have := h (.udp port69 (.sendto ⟨1, 69⟩) unknownError) (List.mem_singleton.mpr rfl)
  cases this

end Bootd
