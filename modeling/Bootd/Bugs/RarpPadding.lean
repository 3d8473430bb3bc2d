import Bootd.Bugs.ShortReplies

/-!
# RARP replies end with 18 bytes of the stack

The reply is put together in `buf`, which is not initialised. The handler fills in
the 42 bytes of `struct rarp_header` (src/rarp.c:58-78, src/rarp.h:15-32) and
sends `max(60, sizeof(struct rarp_header))` of them (src/rarp.c:81-83). What is
behind the header is what the calls before have left there.

Counterexample: the same request, answered with other bytes (`rarp_not_determined`).

`rarp_leaks`: this is so for every request that is answered.
-/
namespace Bootd

open Bootd.Core Bootd.Core.Exec

/-- The packet is a RARP request of a configured host that may use RARP. -/
structure RarpAllowed (p : Pkt) (w : World) (host : Host) : Prop where
  len : 22 ≤ p.len
  rarp : p.isRarp = true
  op : p.rarpOp = arpopRevrequest
  known : ∃ h, utilEther2host w p.rarpTha = .ok (some h) ∧ w.hosts[h]? = some host
  allowed : host.service &&& serviceRarp ≠ 0

/-- What is handed to the send function does not depend on what `buf` held before. -/
def RarpDetermined (os : Os) (l : Listener) (p : Pkt) (w : World) : Prop :=
  ∀ (stack : Nat → UInt8) (w₁ w₂ : World), rarpHandler os l p w = .ok () w₁ →
    rarpHandler { os with stack := stack } l p w = .ok () w₂ → w₁.sends = w₂.sends

section
variable {os : Os} {l : Listener} {p : Pkt} {w : World} {host : Host}

/-- An allowed request is answered. -/
theorem RarpAllowed.run (h : RarpAllowed p w host) (os : Os) (l : Listener) : rarpHandler os l p w = .ok ()
    (w.emits [.arp host.ip host.eth, frameIo l (rarpReplFrame p l.eth l.ip host.ip os.stack)]) := by
  obtain ⟨id, hk, hh⟩ := h.known
  unfold rarpHandler
  rw [if_pos ⟨h.len, h.rarp⟩]
  simp only [bind_ok, get_ok, liftE_ok_iff]
  refine ⟨w, w, ⟨rfl, rfl⟩, some id, w, ⟨hk, rfl⟩, ?_⟩
  simp only [bind_ok, loadHost_ok]
  refine ⟨host, w, ⟨hh, rfl⟩, ?_⟩
  rw [if_neg h.allowed, if_pos h.op]
  simp only [bind_ok, emit_ok, iListenerLinkSend_ok]
  exact ⟨(), _, rfl, by simp [World.emit, World.emits]⟩

theorem RarpAllowed.sends (h : RarpAllowed p w host) (os : Os) (l : Listener) : ∃ w',
    rarpHandler os l p w = .ok () w' ∧
      w'.sends = w.sends ++ [frameIo l (rarpReplFrame p l.eth l.ip host.ip os.stack)] :=
  ⟨_, h.run os l, sends_emits w _⟩

/-- The header, and what is behind it. -/
theorem rarpReplFrame_padding (p : Pkt) (eth : Ether) (lip hip : Ip) : ∃ header : List UInt8, header.length = 42 ∧
    ∀ stack, rarpReplFrame p eth lip hip stack = header ++ (List.range 18).map fun i => stack (42 + i) :=
  ⟨_, by simp [ipBytes], fun _ => rfl⟩

/-- The frames for all contents of the buffer. -/
theorem RarpAllowed.frames (h : RarpAllowed p w host) (os : Os) (l : Listener) :
    ∃ header : List UInt8, header.length = 42 ∧ ∀ stack : Nat → UInt8, ∃ w',
      rarpHandler { os with stack := stack } l p w = .ok () w' ∧
        w'.sends = w.sends ++ [frameIo l (header ++ (List.range 18).map fun i => stack (42 + i))] := by
  obtain ⟨header, hlen, hframe⟩ := rarpReplFrame_padding p l.eth l.ip host.ip
  refine ⟨header, hlen, fun stack => ?_⟩
  obtain ⟨w', hr, hs⟩ := h.sends { os with stack := stack } l
  exact ⟨w', hr, hs.trans (by rw [hframe])⟩

theorem RarpAllowed.not_determined (h : RarpAllowed p w host) (os : Os) (l : Listener) :
    ¬RarpDetermined os l p w := by
  intro hd
  obtain ⟨header, -, hall⟩ := h.frames os l
  obtain ⟨w₁, hr₁, hs₁⟩ := hall os.stack
  obtain ⟨w₂, hr₂, hs₂⟩ := hall fun i => os.stack i + 1
  have heq := hd _ w₁ w₂ hr₁ hr₂
  rw [hs₁, hs₂, List.append_cancel_left_eq, List.singleton_inj, frameIo, frameIo, Io.link.injEq] at heq
  have hbyte := congrArg (fun bs => bs[0]?) (List.append_cancel_left heq.2.1)
  simp at hbyte

end

/-- **RARP replies leak**: whenever a request is answered, the last 18 bytes of the frame are those of the
buffer, and another content of the buffer makes another frame. -/
theorem rarp_leaks (os : Os) (l : Listener) (p : Pkt) (w : World) (host : Host) (h : RarpAllowed p w host) :
    (∃ header : List UInt8, header.length = 42 ∧ ∀ stack : Nat → UInt8, ∃ w',
      rarpHandler { os with stack := stack } l p w = .ok () w' ∧
        w'.sends = w.sends ++ [frameIo l (header ++ (List.range 18).map fun i => stack (42 + i))]) ∧
      ¬RarpDetermined os l p w :=
  ⟨h.frames os l, h.not_determined os l⟩

theorem rarpRequest_allowed : ∃ host, RarpAllowed (rarpRequest (plainEther 1)) served host :=
  ⟨_, by decide, by decide, by decide, ⟨_, rfl, rfl⟩, by decide⟩

/-- The request of host 0. -/
theorem rarp_leaks_served : ¬RarpDetermined plainOs linkPort (rarpRequest (plainEther 1)) served := by
  obtain ⟨host, h⟩ := rarpRequest_allowed
  exact (rarp_leaks plainOs linkPort _ served host h).2

/-- **Counterexample**: with other bytes in the buffer host 0 gets another frame. -/
theorem rarp_not_determined : ¬ ∀ (os : Os) (l : Listener) (p : Pkt) (w : World) (host : Host),
    RarpAllowed p w host → RarpDetermined os l p w := by
  intro hall
  obtain ⟨host, h⟩ := rarpRequest_allowed
  exact h.not_determined plainOs linkPort (hall plainOs linkPort _ served host h)

end Bootd
