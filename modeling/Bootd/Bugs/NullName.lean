import Bootd.L2State.Constructors
import Bootd.L3Protocol.Dhcp
import Bootd.L3Protocol.Rmp

/-!
# Socket listeners have no name

Only `i_listener_link_init_addr` sets `l->name` (src/listener.c:547).
`listener_add` handles a listener without one by writing through the NULL
pointer, `l->name[0] = 0` (src/listener.c:305-308), and `dhcp_handler` and a
probe for the server's id follow it (src/dhcp.c:33, src/rmp.c:99).

Counterexample: the listener on port 69 cannot be added (`udp_unusable`).

`usable_iff`: a listener can be used exactly if `listener_new_link` built it.
-/
namespace Bootd

open Bootd.Core

/-- What its users rely on: it can be added, whatever the system does with a
store through NULL, and no request makes a handler follow a NULL name. -/
structure Listener.Usable (l : Listener) : Prop where
  add : ∀ (os : Os) (w : World), listenerAdd os (some l) w = .ok ()
    { w with listeners := if w.listeners.any (·.fd == l.fd) then w.listeners else w.listeners ++ [l] }
  dhcp : ∀ p : Pkt, dhcpOtherServer l p.dhcpSname ≠ .error .segv
  rmp : ∀ host : Host, rmpProbeName l host 0 ≠ .error .segv

def Ctor.isLink : Ctor → Bool
  | .link _ _ _ => true
  | .udp _ _ | .rpcUdp _ => false

section
variable {l : Listener}

/-- All that counts is the name. -/
theorem usable_iff_name : l.Usable ↔ l.name ≠ none := by
  refine ⟨fun hu hn => ?_, fun hn => ⟨fun os w => listenerAdd_run os w (.inl hn), fun p => ?_, fun host => ?_⟩⟩
  · have hadd := hu.add { plainOs with nullStore := false } emptyWorld
    rw [listenerAdd, if_pos ⟨hn, Bool.false_ne_true⟩] at hadd
    cases hadd
  · obtain ⟨name, hname⟩ := Option.ne_none_iff_exists'.mp hn
    unfold dhcpOtherServer
    split
    · simp
    · simp [hname]
  · obtain ⟨name, hname⟩ := Option.ne_none_iff_exists'.mp hn
    simp [rmpProbeName, hname, bind, Except.bind]

end

/-- **The listeners that can be used** are those that `listener_new_link` built. -/
theorem usable_iff (k : Ctor) (os : Os) (w w' : World) (l : Listener)
    (hk : k.run os w = .ok (some l) w') : l.Usable ↔ k.isLink = true := by
  obtain ⟨-, -, -, hname, -⟩ := Ctor.run_ok hk
  rw [usable_iff_name, hname]
  cases k <;> simp [Ctor.name, Ctor.isLink]

/-- The listener on the interface `eth0`. -/
theorem usable_eth0 : ∃ l w', listenerNewLink plainLink (some (cstr "eth0")) none emptyWorld =
    .ok (some l) w' ∧ l.Usable :=
  ⟨_, _, rfl, (usable_iff (.link plainLink (some (cstr "eth0")) none) plainOs emptyWorld _ _ rfl).mpr rfl⟩

/-- **Counterexample**: the socket for port 69 is opened, and adding its listener
writes through NULL. -/
theorem udp_unusable : ¬ ∀ (k : Ctor) (os : Os) (w w' : World) (l : Listener),
    k.run os w = .ok (some l) w' → l.Usable := by
  intro hall
  have hu := hall (.udp none .tftp) plainOs { emptyWorld with listeners := [] } _ _ rfl
  exact usable_iff_name.mp hu rfl

end Bootd
