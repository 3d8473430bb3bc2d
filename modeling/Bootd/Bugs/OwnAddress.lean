import Bootd.Bugs.ShortReplies
import Bootd.L2State.Constructors
import Bootd.L3Protocol.Bootparam

/-!
# The server's own address goes out backwards

`libnet_get_ipaddr4` returns the address in network order, as `inet_aton` does
for the hosts. `i_listener_link_init_addr` puts it through `ntohl` all the same
(src/listener.c:526-531) and `rarp_handler` copies the result into the reply
(src/rarp.c:75). On a little-endian host the bytes are turned round. The
bootparam procedures copy the field too (src/bootparam.c:64, src/bootparam.c:118).

Counterexample: a server at 10.0.0.1 calls itself 1.0.0.10 (`own_address_reversed`).

`sends_ip_iff`: it is right exactly for the addresses that read the same both ways.
-/
namespace Bootd

open Bootd.Core

/-- `repl->spa` and `repl->tpa`. mirrors src/rarp.h:13-27 -/
def rarpSpa (frame : List UInt8) : List UInt8 := (frame.drop 28).take 4

def rarpTpa (frame : List UInt8) : List UInt8 := (frame.drop 38).take 4

/-- Every RARP reply on `l` has the bytes of `ip` as the server's address and
those of the host's address as the target's, and so has every bootparam reply
that takes its address from `l`. -/
structure Listener.SendsIp (l : Listener) (ip : Ip) : Prop where
  rarp : ∀ (os : Os) (p : Pkt) (w w' : World) (frame : List UInt8) (b : Bool),
    w.out = [] → rarpHandler os l p w = .ok () w' → .link l frame b ∈ w'.sends →
    rarpSpa frame = ipBytes ip ∧ ∃ h host, utilEther2host w p.rarpTha = .ok (some h) ∧
      w.hosts[h]? = some host ∧ rarpTpa frame = ipBytes host.ip
  whoami : ∀ (w : World) (pip : Ip) (port : Nat) (res : WhoamiRes),
    listenerSearchByFd w.listeners port = some l → bootparamprocWhoami w pip port = .ok (some res) →
    res.routerAddress = ipBytes ip
  getfile : ∀ (w : World) (clientName fileId : CStr) (port : Nat) (res : GetfileRes),
    listenerSearchByFd w.listeners port = some l →
    bootparamprocGetfile w clientName fileId port = .ok (some res) → res.serverAddress = ipBytes ip

/-- The address `a.b.c.d` is `d.c.b.a`. -/
def Ip.palindrome (ip : Ip) : Prop := (ipBytes ip).reverse = ipBytes ip

instance (ip : Ip) : Decidable ip.palindrome := inferInstanceAs (Decidable (_ = _))

section
variable {os : Os} {l : Listener} {p : Pkt} {w w' : World} {frame : List UInt8} {b : Bool}

theorem rarpReplFrame_spa (p : Pkt) (eth : Ether) (lip hip : Ip) (stack : Nat → UInt8) :
    rarpSpa (rarpReplFrame p eth lip hip stack) = ipBytes lip ∧
      rarpTpa (rarpReplFrame p eth lip hip stack) = ipBytes hip := by
  have h28 : ((p.ether 6).octet.toList ++ eth.octet.toList ++ be16 ethertypeRevarp ++ be16 1 ++
      be16 ethertypeIp ++ [6, 4] ++ be16 4 ++ eth.octet.toList).length = 28 := by simp
  have h4 : ∀ ip, (ipBytes ip).length = 4 := fun _ => rfl
  unfold rarpSpa rarpTpa rarpReplFrame
  constructor
  · rw [List.append_assoc, List.append_assoc, List.append_assoc, List.drop_left' h28,
      List.take_left' (h4 lip)]
  · have h38 : ((p.ether 6).octet.toList ++ eth.octet.toList ++ be16 ethertypeRevarp ++ be16 1 ++
        be16 ethertypeIp ++ [6, 4] ++ be16 4 ++ eth.octet.toList ++ ipBytes lip ++
        p.rarpTha.octet.toList).length = 38 := by simp [h4]
    rw [List.append_assoc, List.drop_left' h38, List.take_left' (h4 hip)]

/-- A RARP reply. -/
theorem rarp_reply_addresses (hout : w.out = []) (hr : rarpHandler os l p w = .ok () w')
    (hm : .link l frame b ∈ w'.sends) :
    rarpSpa frame = ipBytes l.ip ∧ ∃ h host, utilEther2host w p.rarpTha = .ok (some h) ∧
      w.hosts[h]? = some host ∧ rarpTpa frame = ipBytes host.ip := by
  rw [rarp_sends hout hr] at hm
  obtain ⟨frame', hf, hio⟩ := List.mem_map.mp hm
  cases hio
  rw [Option.mem_toList, rarpReply] at hf
  split at hf
  · split at hf
    · rename_i h hk
      obtain ⟨host, hh, hf⟩ := Option.bind_eq_some_iff.mp hf
      split at hf
      · obtain rfl := Option.some.inj hf
        obtain ⟨hspa, htpa⟩ := rarpReplFrame_spa p l.eth l.ip host.ip os.stack
        exact ⟨hspa, h, host, hk, hh, htpa⟩
      · cases hf
    · cases hf
  · cases hf

/-- What is sent is the `ip` field. -/
theorem sends_ip_of_eq {ip : Ip} (h : ipBytes l.ip = ipBytes ip) : l.SendsIp ip := by
  refine ⟨fun os p w w' frame b hout hr hm => ?_, fun w pip port res hl hr => ?_,
    fun w clientName fileId port res hl hr => ?_⟩
  · obtain ⟨hspa, hrest⟩ := rarp_reply_addresses hout hr hm
    exact ⟨hspa.trans h, hrest⟩
  · obtain ⟨_, _, l', -, -, -, hl', rfl⟩ := whoami_ok hr
    rw [hl] at hl'; cases hl'
    exact h
  · obtain ⟨_, _, _, l', -, -, -, -, hl', rfl⟩ := getfile_ok hr
    rw [hl] at hl'; cases hl'
    exact h

/-- The reply to host 0. -/
theorem rarp_served (l : Listener) : ∃ w', rarpHandler plainOs l (rarpRequest (plainEther 1)) served =
    .ok () w' ∧ .link l (rarpReplFrame (rarpRequest (plainEther 1)) l.eth l.ip 1 plainOs.stack) false ∈
      w'.sends := by
  obtain ⟨_, w', hx⟩ : Exec.Returns (rarpHandler plainOs l (rarpRequest (plainEther 1))) served :=
    rarp_returns (by decide) (by decide) rfl rfl
  refine ⟨w', hx, ?_⟩
  have hreply : rarpReply plainOs l (rarpRequest (plainEther 1)) served =
      some (rarpReplFrame (rarpRequest (plainEther 1)) l.eth l.ip 1 plainOs.stack) := rfl
  rw [rarp_sends rfl hx, hreply]
  exact List.mem_singleton.mpr (by simp [frameIo, rarpReplFrame_length])

theorem sends_ip_eq {ip : Ip} (h : l.SendsIp ip) : ipBytes l.ip = ipBytes ip := by
  obtain ⟨w', hr, hm⟩ := rarp_served l
  rw [← (h.rarp plainOs _ served w' _ _ rfl hr hm).1, (rarpReplFrame_spa _ _ _ _ _).1]

end

/-- **When a server's own address is sent as it is**: exactly if it reads the
same both ways. -/
theorem sends_ip_iff (ls : LinkOs) (device filter : Option CStr) (w w' : World) (l : Listener)
    (hl : listenerNewLink ls device filter w = .ok (some l) w') :
    l.SendsIp ls.ipaddr4 ↔ ls.ipaddr4.palindrome := by
  have hrun : (Ctor.link ls device filter).run plainOs w = .ok (some l) w' := hl
  obtain ⟨-, -, hip, -⟩ := Ctor.run_ok hrun
  have hbytes : ipBytes l.ip = (ipBytes ls.ipaddr4).reverse := by
    rw [hip]
    exact ipBytes_ntohl _
  unfold Ip.palindrome
  rw [← hbytes]
  exact ⟨sends_ip_eq, sends_ip_of_eq⟩

/-- A server at 10.1.1.10. -/
theorem sends_ip_palindrome : ∃ l w', listenerNewLink { plainLink with ipaddr4 := .ofBytes 10 1 1 10 }
    (some (cstr "eth0")) none emptyWorld = .ok (some l) w' ∧ l.SendsIp (.ofBytes 10 1 1 10) :=
  ⟨_, _, rfl, (sends_ip_iff { plainLink with ipaddr4 := .ofBytes 10 1 1 10 } (some (cstr "eth0")) none
    emptyWorld _ _ rfl).mpr (by decide)⟩

/-- **Counterexample**: the replies of a server at 10.0.0.1 have the address
1.0.0.10. -/
theorem own_address_reversed : ¬ ∀ (ls : LinkOs) (device filter : Option CStr) (w w' : World)
    (l : Listener), listenerNewLink ls device filter w = .ok (some l) w' → l.SendsIp ls.ipaddr4 := by
  intro hall
  have h := sends_ip_eq (hall plainLink (some (cstr "eth0")) none emptyWorld _ _ rfl)
  exact absurd h (by decide)

end Bootd
