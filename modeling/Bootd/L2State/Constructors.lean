import Bootd.L1Wire.Rmp
import Bootd.L2State.Listeners

/-!
# The listener constructors (`listener.c:42-269`, `listener.c:497-548`)

`listener_new_udp` is in `L2State.Listeners`. The two others are here, and
`Ctor` is a call of any of the three.

The addresses of a link listener come from libnet. `libnet_get_ipaddr4` returns
the address in network order, and `i_listener_link_init_addr` puts it through
`ntohl`, which turns the four bytes round on a little-endian host.

* `Ctor.run_ok`: the fields of the listener returned.
* `Ctor.run_cases`: what a constructor leaves behind, whether it fails or not.
* `Ctor.run_succeeds`: when there is one.
* `ipBytes_ntohl`: the bytes of an address after `ntohl`.
-/
namespace Bootd

open Bootd.Core

/-! ## `ntohl` on a little-endian host -/

/-- The address whose bytes in memory are `a`, `b`, `c`, `d`. -/
def Ip.ofBytes (a b c d : UInt8) : Ip :=
  .ofNat (a.toNat * 2 ^ 24 + b.toNat * 2 ^ 16 + c.toNat * 2 ^ 8 + d.toNat)

def ntohl (ip : Ip) : Ip :=
  Ip.ofBytes ip.toUInt8 (ip >>> 8).toUInt8 (ip >>> 16).toUInt8 (ip >>> 24).toUInt8

theorem toUInt8_shift (ip : Ip) (k : Nat) (hk : k < 32) :
    ((ip >>> UInt32.ofNat k).toUInt8).toNat = ip.toNat / 2 ^ k % 256 := by
  have hk' : (UInt32.ofNat k).toNat % 32 = k := by
    rw [UInt32.toNat_ofNat']
    omega
  rw [UInt32.toNat_toUInt8, UInt32.toNat_shiftRight, hk', Nat.shiftRight_eq_div_pow]

@[simp] theorem ipBytes_ofBytes (a b c d : UInt8) : ipBytes (.ofBytes a b c d) = [a, b, c, d] := by
  have ha := a.toNat_lt
  have hb := b.toNat_lt
  have hc := c.toNat_lt
  have hd := d.toNat_lt
  have hval : (Ip.ofBytes a b c d).toNat =
      a.toNat * 2 ^ 24 + b.toNat * 2 ^ 16 + c.toNat * 2 ^ 8 + d.toNat := by
    rw [Ip.ofBytes, UInt32.toNat_ofNat']
    omega
  have h24 := toUInt8_shift (.ofBytes a b c d) 24 (by omega)
  have h16 := toUInt8_shift (.ofBytes a b c d) 16 (by omega)
  have h8 := toUInt8_shift (.ofBytes a b c d) 8 (by omega)
  have h0 := UInt32.toNat_toUInt8 (Ip.ofBytes a b c d)
  rw [hval] at h24 h16 h8 h0
  have e24 : ((Ip.ofBytes a b c d) >>> 24).toUInt8 = a := UInt8.toNat_inj.mp (h24.trans (by omega))
  have e16 : ((Ip.ofBytes a b c d) >>> 16).toUInt8 = b := UInt8.toNat_inj.mp (h16.trans (by omega))
  have e8 : ((Ip.ofBytes a b c d) >>> 8).toUInt8 = c := UInt8.toNat_inj.mp (h8.trans (by omega))
  have e0 : (Ip.ofBytes a b c d).toUInt8 = d := UInt8.toNat_inj.mp (h0.trans (by omega))
  rw [ipBytes, e24, e16, e8, e0]

/-- `ntohl` turns the bytes round. -/
theorem ipBytes_ntohl (ip : Ip) : ipBytes (ntohl ip) = (ipBytes ip).reverse := ipBytes_ofBytes _ _ _ _

/-! ## The constructors -/

/-- `DLT_EN10MB`. -/
def dltEn10mb : Nat := 1

/-- What the libraries answer while a link listener is opened. -/
structure LinkOs where
  /-- `libnet_init` succeeds -/
  libnetInit : Bool
  /-- `libnet_get_hwaddr` -/
  hwaddr : Option Ether
  /-- `libnet_get_ipaddr4`, in network order -/
  ipaddr4 : Ip
  /-- `gethostname` -/
  hostname : CStr
  /-- `pcap_open_live`, and the link type it opened -/
  pcapOpen : Option Nat
  /-- `pcap_lookupnet`, `pcap_compile` and `pcap_setfilter` all succeed -/
  filter : Bool

/-- The host's name up to the first dot. mirrors src/listener.c:543-547 -/
def serverName (hostname : CStr) : CStr := hostname.takeWhile (· ≠ 46)

/-- `i_listener_link_init_addr` fills in the addresses and the name and never
fails; each of the other steps may, and then nothing is left open.
mirrors src/listener.c:42-95, src/listener.c:497-656 -/
def listenerNewLink (ls : LinkOs) (device filter : Option CStr) : M (Option Listener) := do
  match device with
  | none => pure none
  | some _ =>
    let w ← get
    let l : Listener :=
      ⟨w.nextId, .link, .link, w.freeFd, ntohl ls.ipaddr4, ls.hwaddr.getD .zero,
        some (serverName ls.hostname), .any, none, rfl⟩
    if ls.libnetInit ∧ ls.pcapOpen = some dltEn10mb ∧ (filter = none ∨ ls.filter) then
      modify fun w => ({ w with nextId := w.nextId + 1 }.openFd .socket).emit (.listen l)
      pure (some l)
    else pure none

/-- `rpc` is whether the service can be created and registered; if not, the
socket is closed again. The listener has no service handler, as a link listener
has none.
mirrors src/listener.c:170-269 -/
def listenerNewRpcUdp (os : Os) (rpc : Bool) : M (Option Listener) := do
  let w ← get
  if os.socket ∧ rpc then
    let l : Listener := ⟨w.nextId, .rpcUdp, .link, w.freeFd, 0, .zero, none, .any, none, rfl⟩
    modify fun w => ({ w with nextId := w.nextId + 1 }.openFd .socket).emit (.listen l)
    pure (some l)
  else pure none

/-- A call of one of the constructors. -/
inductive Ctor
  | link (ls : LinkOs) (device filter : Option CStr)
  | udp (dst : Option SockAddr) (svc : Service)
  | rpcUdp (rpc : Bool)

def Ctor.run (os : Os) : Ctor → M (Option Listener)
  | .link ls device filter => listenerNewLink ls device filter
  | .udp dst svc => listenerNewUdp os dst svc
  | .rpcUdp rpc => listenerNewRpcUdp os rpc

/-- The `ip` field that the constructor fills in; those for sockets leave it 0. -/
def Ctor.ip : Ctor → Ip
  | .link ls _ _ => ntohl ls.ipaddr4
  | .udp _ _ | .rpcUdp _ => 0

/-- The `name` field, likewise. -/
def Ctor.name : Ctor → Option CStr
  | .link ls _ _ => some (serverName ls.hostname)
  | .udp _ _ | .rpcUdp _ => none

section
variable {os : Os} {k : Ctor} {ls : LinkOs} {device filter : Option CStr} {w w' : World} {l : Listener}

/-- A listener that was built. -/
theorem Ctor.run_ok (h : k.run os w = .ok (some l) w') :
    l.id = w.nextId ∧ l.fd = w.freeFd ∧ l.ip = k.ip ∧ l.name = k.name ∧
      w'.listeners = w.listeners := by
  cases k with
  | link ls device filter =>
    simp only [Ctor.run, listenerNewLink] at h
    cases device with
    | none => simp at h
    | some d =>
      simp only [Exec.bind_ok, Exec.get_ok] at h
      obtain ⟨_, _, ⟨rfl, rfl⟩, h⟩ := h
      split at h
      · simp only [Exec.bind_ok, Exec.modify_ok, Exec.pure_ok, Option.some.injEq] at h
        obtain ⟨_, _, rfl, rfl, rfl⟩ := h
        exact ⟨rfl, rfl, rfl, rfl, rfl⟩
      · simp at h
  | udp dst svc =>
    simp only [Ctor.run, listenerNewUdp, Exec.bind_ok, Exec.get_ok] at h
    obtain ⟨_, _, ⟨rfl, rfl⟩, h⟩ := h
    split at h
    · simp only [Exec.bind_ok, Exec.modify_ok, Exec.pure_ok, Option.some.injEq] at h
      obtain ⟨_, _, rfl, rfl, rfl⟩ := h
      exact ⟨rfl, rfl, rfl, rfl, rfl⟩
    · simp at h
  | rpcUdp rpc =>
    simp only [Ctor.run, listenerNewRpcUdp, Exec.bind_ok, Exec.get_ok] at h
    obtain ⟨_, _, ⟨rfl, rfl⟩, h⟩ := h
    split at h
    · simp only [Exec.bind_ok, Exec.modify_ok, Exec.pure_ok, Option.some.injEq] at h
      obtain ⟨_, _, rfl, rfl, rfl⟩ := h
      exact ⟨rfl, rfl, rfl, rfl, rfl⟩
    · simp at h

/-- The new listener has a socket, and is not in the list yet. -/
def World.listening (w : World) (l : Listener) : World :=
  ({ w with nextId := w.nextId + 1 }.openFd .socket).emit (.listen l)

/-- The address that the socket is connected to, if any. -/
def Ctor.peer : Ctor → Option SockAddr
  | .udp dst _ => dst
  | .link _ _ _ | .rpcUdp _ => none

/-- Where a call fails, nothing is left behind. -/
theorem Ctor.run_cases {o : Option Listener} (h : k.run os w = .ok o w') :
    o = none ∧ w' = w ∨ ∃ l, o = some l ∧ w' = w.listening l ∧ l.id = w.nextId ∧ l.fd = w.freeFd ∧
      l.peer = k.peer := by
  cases k with
  | link ls device filter =>
    simp only [Ctor.run, listenerNewLink] at h
    cases device with
    | none =>
      obtain ⟨rfl, rfl⟩ := Exec.pure_ok.mp h
      exact .inl ⟨rfl, rfl⟩
    | some d =>
      simp only [Exec.bind_ok, Exec.get_ok] at h
      obtain ⟨_, _, ⟨rfl, rfl⟩, h⟩ := h
      split at h
      · simp only [Exec.bind_ok, Exec.modify_ok, Exec.pure_ok] at h
        obtain ⟨_, _, rfl, rfl, rfl⟩ := h
        exact .inr ⟨_, rfl, rfl, rfl, rfl, rfl⟩
      · obtain ⟨rfl, rfl⟩ := Exec.pure_ok.mp h
        exact .inl ⟨rfl, rfl⟩
  | udp dst svc =>
    simp only [Ctor.run, listenerNewUdp, Exec.bind_ok, Exec.get_ok] at h
    obtain ⟨_, _, ⟨rfl, rfl⟩, h⟩ := h
    split at h
    · simp only [Exec.bind_ok, Exec.modify_ok, Exec.pure_ok] at h
      obtain ⟨_, _, rfl, rfl, rfl⟩ := h
      exact .inr ⟨_, rfl, rfl, rfl, rfl, rfl⟩
    · obtain ⟨rfl, rfl⟩ := Exec.pure_ok.mp h
      exact .inl ⟨rfl, rfl⟩
  | rpcUdp rpc =>
    simp only [Ctor.run, listenerNewRpcUdp, Exec.bind_ok, Exec.get_ok] at h
    obtain ⟨_, _, ⟨rfl, rfl⟩, h⟩ := h
    split at h
    · simp only [Exec.bind_ok, Exec.modify_ok, Exec.pure_ok] at h
      obtain ⟨_, _, rfl, rfl, rfl⟩ := h
      exact .inr ⟨_, rfl, rfl, rfl, rfl, rfl⟩
    · obtain ⟨rfl, rfl⟩ := Exec.pure_ok.mp h
      exact .inl ⟨rfl, rfl⟩

/-- The calls that a constructor makes succeed. -/
def Ctor.Succeeds (os : Os) : Ctor → Prop
  | .link ls device filter => device ≠ none ∧ ls.libnetInit = true ∧ ls.pcapOpen = some dltEn10mb ∧
      (filter = none ∨ ls.filter = true)
  | .udp _ _ => os.socket = true
  | .rpcUdp rpc => os.socket = true ∧ rpc = true

/-- Then there is a listener, on a new socket. -/
theorem Ctor.run_succeeds (h : k.Succeeds os) (w : World) : ∃ l, k.run os w = .ok (some l) (w.listening l) := by
  cases k with
  | link ls device filter =>
    obtain ⟨hdevice, hrest⟩ := h
    obtain ⟨d, rfl⟩ := Option.ne_none_iff_exists'.mp hdevice
    refine ⟨⟨w.nextId, .link, .link, w.freeFd, ntohl ls.ipaddr4, ls.hwaddr.getD .zero,
      some (serverName ls.hostname), .any, none, rfl⟩, ?_⟩
    show (if ls.libnetInit ∧ ls.pcapOpen = some dltEn10mb ∧ (filter = none ∨ ls.filter) then _ else _ :
      M (Option Listener)) w = _
    rw [if_pos hrest]
    rfl
  | udp dst svc =>
    have hs : os.socket = true := h
    refine ⟨⟨w.nextId, .udp, svc, w.freeFd, 0, .zero, none, dst.getD .any, dst, rfl⟩, ?_⟩
    show (if os.socket then _ else _ : M (Option Listener)) w = _
    rw [if_pos hs]
    rfl
  | rpcUdp rpc =>
    have hs : os.socket = true ∧ rpc = true := h
    refine ⟨⟨w.nextId, .rpcUdp, .link, w.freeFd, 0, .zero, none, .any, none, rfl⟩, ?_⟩
    show (if os.socket ∧ rpc then _ else _ : M (Option Listener)) w = _
    rw [if_pos hs]
    rfl

end

/-- The interface of a server at 10.0.0.1, which works. -/
def plainLink : LinkOs := ⟨true, some (plainEther 99), .ofBytes 10 0 0 1, cstr "boot.net", some dltEn10mb, true⟩

example : serverName (cstr "boot.net") = cstr "boot" := by decide

end Bootd
