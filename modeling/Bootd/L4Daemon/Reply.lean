import Bootd.L3Protocol.Tftp

/-!
# Where TFTP replies go

`tftp_handler` swaps its two addresses at every call of `send`, and
`i_listener_udp_send` decides again: an address equal to the listener's own
peer is served by `send` on the connected socket, an unspecified one
(0.0.0.0 port 0) by `send` on whatever the socket is, any other by `sendto`.

`tftp_replies_to_client`: whatever happens, replies reach the client. The
one exception is a datagram from 0.0.0.0 port 0, which cannot be answered by
`sendto`: its replies go through `send` without an address, and
`tftp_reply_unspecified` shows that on the unconnected socket of port 69 this
is a reply to nobody.
-/
namespace Bootd

/-- A datagram in the trace gets to `a`. -/
def Io.ReachesAddr (a : SockAddr) : Io → Prop
  | .udp l via _ => via.dest l = some a
  | _ => True

/-- A datagram in the trace gets to `a`, or is sent without naming an address
when `a` is the unspecified one. -/
def Io.RepliesTo (a : SockAddr) (io : Io) : Prop :=
  (a ≠ .any → io.ReachesAddr a) ∧
    (a = .any → ∀ l via p, io = .udp l via p → via = .send)

/-- Every packet of the handler, for any outcome. -/
def TftpReplies (P : Io → Prop) (c : Conf) (os : Os) (l : Listener) (frm loc : SockAddr) (pkt : Pkt)
    (w : World) : Prop :=
  ∀ io ∈ traceOf (tftpHandler c os l frm loc pkt) w, P io

/-- An address that is not the unspecified one is reached either way. -/
theorem udpVia_dest (dl : Listener) {a : SockAddr} (h : a ≠ .any) :
    (udpVia dl a).dest dl = some a := by
  by_cases he : a = dl.udpTo
  · -- the peer is this address: without a peer, `udpTo` is the unspecified one
    have hp := dl.udpTo_eq
    rw [udpVia, if_pos he]
    cases hpeer : dl.peer with
    | none => rw [hpeer] at hp; exact absurd (he.trans hp) h
    | some b =>
      rw [hpeer] at hp
      show dl.peer = some a
      rw [hpeer, he, hp]; rfl
  · rw [udpVia, if_neg he, if_neg h]; rfl

theorem udpVia_any (dl : Listener) : udpVia dl .any = .send := by
  unfold udpVia
  by_cases h : SockAddr.any = dl.udpTo
  · rw [if_pos h]
  · rw [if_neg h, if_pos rfl]

/-- **Replies go to the client**, whatever the host table, the session state,
the listener and the datagram. -/
theorem tftp_replies_to_client (c : Conf) (os : Os) (l : Listener) (frm loc : SockAddr) (pkt : Pkt)
    (w : World) : TftpReplies (Io.RepliesTo frm) c os l frm loc pkt w := by
  refine tftpHandler_trace w ?_ ?_ ?_
  · intro io hio
    cases io <;> first | exact ⟨fun _ => trivial, fun _ _ _ _ e => by cases e⟩ | cases hio
  · intro dl p
    refine ⟨fun h => udpVia_dest dl h, ?_⟩
    rintro rfl l via q e
    cases e; exact udpVia_any dl
  · intro _ _ _ _ _ _ _ _ s r
    exact ⟨fun _ => trivial, fun _ _ _ _ e => by cases e⟩

/-- **Counterexample**: an empty datagram from 0.0.0.0 port 0 is answered with
an error that names no address, on a socket without a peer. -/
theorem tftp_reply_unspecified : ¬ ∀ (c : Conf) (os : Os) (l : Listener) (frm loc : SockAddr)
    (pkt : Pkt) (w : World), TftpReplies (Io.ReachesAddr frm) c os l frm loc pkt w := by
  intro h
  have h1 := h plainConf plainOs port69 .any ⟨1, 69⟩ (.ofBytes []) emptyWorld
    (.udp port69 .send (tftpErrorPkt tftpEAccess (cstr "access denied, client unknown")))
    (List.mem_singleton.mpr rfl)
  cases h1

end Bootd
