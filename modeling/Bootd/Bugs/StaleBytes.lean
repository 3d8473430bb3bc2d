import Bootd.L1Wire.Received
import Bootd.L3Protocol.Dhcp
import Bootd.L4Daemon.Transfer

/-!
# Datagrams that end before the fields that the handlers read

`i_listener_udp_receive` hands its buffer of 4096 bytes on with the length of
the datagram (src/listener.c:792-828), and of the two handlers only the string
getters of TFTP look at that. `tftp_handler` takes the opcode and the block
number from wherever they are (src/tftp.c:51-60, src/tftp.c:133-150), and
`dhcp_handler` runs `strlen` over the two names (src/dhcp.c:20-35). So what a
shorter datagram does is up to what came in before it.

Counterexample: an acknowledgment without a block number (`udp_stale_bytes`).

`udp_reacts_iff`: the datagrams on which each handler does the same whatever was
in the buffer.
-/
namespace Bootd

open Bootd.Core Bootd.Core.Exec

/-- `sizeof(buf)` of `i_listener_udp_receive`. -/
def udpBufSize : Nat := 4096

/-- Two receive buffers with the datagram `bs` in them. -/
structure TwoBuffers (bs : List UInt8) (p q : Pkt) : Prop where
  left : p.Holds bs
  right : q.Holds bs
  outside : ∀ i, udpBufSize ≤ i → p.mem i = q.mem i

/-- The TFTP handler reacts only to the bytes of the datagram. -/
def TftpReacts (bs : List UInt8) : Prop :=
  ∀ (c : Conf) (os : Os) (l : Listener) (frm loc : SockAddr) (w : World) (p q : Pkt),
    TwoBuffers bs p q → tftpHandler c os l frm loc p w = tftpHandler c os l frm loc q w

/-- So does the DHCP handler. -/
def DhcpReacts (bs : List UInt8) : Prop :=
  ∀ (l : Listener) (w : World) (p q : Pkt), TwoBuffers bs p q → dhcpHandler l p w = dhcpHandler l q w

/-- The opcode was received, and the block number if one is needed. A first byte
other than 0 makes an opcode that is unknown. -/
def TftpSettled (bs : List UInt8) : Prop :=
  4 ≤ bs.length ∨ (2 ≤ bs.length ∧ (Pkt.ofBytes bs).tftpOp ≠ .ack) ∨ (bs.length = 1 ∧ bs.getD 0 0 ≠ 0)

/-- The hop count was received, and unless that is too high the end of the
server's name, and unless that is too long the end of the file's. -/
def DhcpSettled (bs : List UInt8) : Prop :=
  4 ≤ bs.length ∧ (16 < (Pkt.ofBytes bs).dhcpHops ∨
    dhcpSnameSize < (Pkt.ofBytes bs).dhcpSname.length ∨
    Settled (· ≠ 0) bs 44 (dhcpSnameSize + 1) ∧ Settled (· ≠ 0) bs 108 (dhcpFileSize + 1))

section
variable {c : Conf} {os : Os} {l : Listener} {frm loc : SockAddr} {w : World} {p q : Pkt}
  {bs : List UInt8} {o n : Nat}

/-! ## TFTP -/

/-- The log looks at the length, and at the opcode of a datagram that is long
enough to have one. -/
theorem logFits_congr (hlen : p.len = q.len) (hop : 2 ≤ q.len → p.tftpOp = q.tftpOp) :
    p.LogFits ↔ q.LogFits := by
  by_cases h : 2 ≤ q.len
  · rw [Pkt.LogFits, hlen, hop h, Pkt.LogFits]
  · exact iff_of_true ⟨fun _ => by omega, fun _ => by omega⟩ ⟨fun _ => by omega, fun _ => by omega⟩

theorem tftpHandler_congr (hfits : p.LogFits ↔ q.LogFits) (h : ∀ t host, tftpDispatch c os l frm loc p t host =
    tftpDispatch c os l frm loc q t host) :
    tftpHandler c os l frm loc p w = tftpHandler c os l frm loc q w := by
  have hlog : Logged os p ↔ Logged os q := or_congr_right hfits
  unfold tftpHandler
  simp only [h, tftpLogMsgpacket_bind, hlog]

theorem tftpFile_congr (hp : p.Holds bs) (hq : q.Holds bs) (hlen : 2 ≤ bs.length) (host : Host) :
    tftpFile host p = tftpFile host q := by
  have hstores : copyStores p.tftpData (p.len - 2) = copyStores q.tftpData (q.len - 2) := by
    rw [copyStores, copyStores, hp.len, hq.len]
    congr 1
    refine List.map_congr_left fun i hi => ?_
    have := List.mem_range.mp hi
    rw [Pkt.tftpData, Pkt.tftpData, hp.agree hq (by omega)]
  have hop : p.tftpOp = q.tftpOp := by rw [Pkt.tftpOp, Pkt.tftpOp, hp.u16 hq (by omega)]
  rw [tftpFile, tftpFile, tftpGetFilename, tftpGetFilename, hop, hstores]

theorem ofNat_unknown (h : 6 ≤ n) : TftpOp.ofNat n = .unknown n := by
  obtain ⟨k, rfl⟩ := Nat.exists_eq_add_of_le h
  rw [Nat.add_comm]
  rfl

theorem tftpOp_unknown (h : p.mem 0 ≠ 0) : ∃ n, p.tftpOp = .unknown n := by
  have hpos : 0 < (p.mem 0).toNat := Nat.pos_of_ne_zero fun h0 => h (UInt8.toNat_inj.mp h0)
  refine ⟨p.u16 0, ofNat_unknown ?_⟩
  rw [Pkt.u16]
  omega

theorem tftp_reacts (hs : TftpSettled bs) : TftpReacts bs := by
  intro c os l frm loc w p q ⟨hp, hq, _⟩
  have hop : 2 ≤ bs.length → p.tftpOp = q.tftpOp := fun h => by
    rw [Pkt.tftpOp, Pkt.tftpOp, hp.u16 hq (by omega)]
  refine tftpHandler_congr (logFits_congr (hp.len.trans hq.len.symm) (hq.len ▸ hop)) fun t host => ?_
  unfold tftpDispatch
  rcases hs with hlen | ⟨hlen, hack⟩ | ⟨hlen, h0⟩
  · have hn : p.tftpN = q.tftpN := hp.u16 hq (by omega)
    rw [hop (by omega), tftpFile_congr hp hq (by omega), hn]
  · have hop' : q.tftpOp = (Pkt.ofBytes bs).tftpOp := by
      rw [Pkt.tftpOp, Pkt.tftpOp, hq.u16 (Pkt.ofBytes_holds bs) (by omega)]
    rw [hop hlen, tftpFile_congr hp hq hlen]
    rw [← hop'] at hack
    cases hc : q.tftpOp with
    | ack => exact absurd hc hack
    | rrq | wrq | data | error | unknown n => rfl
  · obtain ⟨n, hpo⟩ := tftpOp_unknown (p := p) (by rw [hp.mem 0 (by omega)]; exact h0)
    obtain ⟨m, hqo⟩ := tftpOp_unknown (p := q) (by rw [hq.mem 0 (by omega)]; exact h0)
    rw [hpo, hqo]

/-- Without an opcode, what was in the buffer is one. -/
theorem tftp_no_opcode (hlen : bs.length ≤ 1) (h0 : bs.length = 1 → bs.getD 0 0 = 0) : ¬TftpReacts bs := by
  intro hreacts
  let p := Pkt.over (fun _ => 0) bs
  let q := Pkt.over (fun i => if i = 1 then 2 else 0) bs
  have hzero : ∀ f : Nat → UInt8, f 0 = 0 → (Pkt.over f bs).mem 0 = 0 := by
    intro f hf
    by_cases h : bs.length = 1
    · rw [(Pkt.over_holds f bs).mem 0 (by omega), h0 h]
    · rw [Pkt.over_mem (by omega), hf]
  have hp : p.tftpOp = .unknown 0 := by
    rw [Pkt.tftpOp, Pkt.u16, hzero _ rfl, Pkt.over_mem (by omega)]
    decide
  have hq : q.tftpOp = .wrq := by
    rw [Pkt.tftpOp, Pkt.u16, hzero _ rfl, Pkt.over_mem (by omega)]
    decide
  have hsame := hreacts plainConf plainOs port69 ⟨1, 1024⟩ ⟨7, 69⟩ oneHost p q
    ⟨Pkt.over_holds _ _, Pkt.over_holds _ _, fun i hi => ?_⟩
  · have hk : utilIp2host oneHost 1 = .ok (some 0) := rfl
    have hh : oneHost.hosts[0]? = some (plainHost 1) := rfl
    have hshort : bs.length ≤ 513 := by omega
    have hlog : ∀ f, Logged plainOs (Pkt.over f bs) := fun f =>
      .inr ⟨fun _ => hshort, fun _ => Nat.le_trans hshort (by decide)⟩
    rw [tftpHandler_run (hlog _) hk hh (by decide), tftpHandler_run (hlog _) hk hh (by decide), tftpDispatch,
      tftpDispatch, hp, hq] at hsame
    have hout := congrArg World.out (EStateM.Result.ok.inj hsame).2
    cases hout
  · unfold udpBufSize at hi
    rw [Pkt.over_mem (by omega), Pkt.over_mem (by omega), if_neg (by omega)]

theorem reading_session : ∃ ses,
    TftpSession reading.w 0 0 ses (some (cstr "/boot/k")) [1, 2, 3] ∧ ses.sid = 1024 :=
  ⟨_, ⟨rfl, rfl, rfl, rfl⟩, rfl⟩

/-- The acknowledgment of `reading`'s client is answered with the next number. -/
theorem reading_ack (hop : p.tftpOp = .ack) : ∃ d w',
    tftpHandler plainConf plainOs port69 ⟨1, 1024⟩ ⟨7, 69⟩ p reading.w.start = .ok () w' ∧
      dataPkts w'.out = [((p.tftpN + 1) % 65536, d)] := by
  obtain ⟨ses, hses, hsid⟩ := reading_session
  have hall : ReadsAll plainOs [1, 2, 3] (p.tftpN * tftpBlock) := filled_readsAll [1, 2, 3] _
  have hhost : utilIp2host reading.w (⟨1, 1024⟩ : SockAddr).addr = .ok (some 0) := rfl
  have hrun := next_ack_block port69 ⟨7, 69⟩ reading_reachable hses hhost hsid hop hall
  refine ⟨Blocks.block tftpBlock p.tftpN [1, 2, 3], _, hrun, (dataPkts_data _ _ _ _).trans ?_⟩
  rw [Nat.mod_mod]

/-- Without all of its number, an acknowledgment is for the block that was in
the buffer. -/
theorem tftp_no_number (hlen : 2 ≤ bs.length) (hshort : bs.length < 4)
    (hop : (Pkt.ofBytes bs).tftpOp = .ack) : ¬TftpReacts bs := by
  intro hreacts
  let p := Pkt.over (fun _ => 0) bs
  let q := Pkt.over (fun i => if i = 3 then 1 else 0) bs
  have hops : ∀ f : Nat → UInt8, (Pkt.over f bs).tftpOp = .ack := by
    intro f
    rw [← hop, Pkt.tftpOp, Pkt.tftpOp, (Pkt.over_holds f bs).u16 (Pkt.ofBytes_holds bs) (by omega)]
  have hhigh : p.mem 2 = q.mem 2 := by
    by_cases h : bs.length = 3
    · exact (Pkt.over_holds _ bs).agree (Pkt.over_holds _ bs) (by omega)
    · rw [Pkt.over_mem (by omega), Pkt.over_mem (by omega), if_neg (by omega)]
  have hpn : p.tftpN = (p.mem 2).toNat * 256 := by
    rw [Pkt.tftpN, Pkt.u16, Pkt.over_mem (i := 3) (by omega), UInt8.toNat_zero, Nat.add_zero]
  have hqn : q.tftpN = (p.mem 2).toNat * 256 + 1 := by
    rw [Pkt.tftpN, Pkt.u16, Pkt.over_mem (i := 3) (by omega), hhigh, if_pos rfl, UInt8.toNat_one]
  obtain ⟨d, w, hpr, hpd⟩ := reading_ack (hops fun _ => 0)
  obtain ⟨d', w', hqr, hqd⟩ := reading_ack (hops fun i => if i = 3 then 1 else 0)
  have hsame := hreacts plainConf plainOs port69 ⟨1, 1024⟩ ⟨7, 69⟩ reading.w.start p q
    ⟨Pkt.over_holds _ _, Pkt.over_holds _ _, fun i hi => ?_⟩
  · obtain ⟨-, rfl⟩ := EStateM.Result.ok.inj (hpr.symm.trans (hsame.trans hqr))
    have hno := congrArg Prod.fst (List.cons.inj (hpd.symm.trans hqd)).1
    have hlt := (p.mem 2).toNat_lt
    simp only at hno
    rw [hpn, hqn] at hno
    omega
  · unfold udpBufSize at hi
    rw [Pkt.over_mem (by omega), Pkt.over_mem (by omega), if_neg (by omega)]

theorem tftp_reacts_iff : TftpReacts bs ↔ TftpSettled bs := by
  constructor
  · intro hreacts
    by_contra hs
    unfold TftpSettled at hs
    obtain ⟨hlen, hs⟩ := not_or.mp hs
    obtain ⟨hack, h0⟩ := not_or.mp hs
    by_cases h1 : bs.length ≤ 1
    · exact tftp_no_opcode h1 (not_and_not_right.mp h0) hreacts
    · exact tftp_no_number (by omega) (by omega) (not_and_not_right.mp hack (by omega)) hreacts
  · exact tftp_reacts

/-! ## DHCP -/

/-- A string of `n` bytes that are not NUL, in a zeroed buffer, was received. -/
theorem cstrAt_received (hn : 0 < n) (h : n ≤ ((Pkt.ofBytes bs).cstrAt o n).length) : o + n ≤ bs.length := by
  by_contra hlen
  by_cases hs : Settled (· ≠ 0) bs o n
  · rcases hs with hall | ⟨b, hb, hnul⟩
    · exact hlen hall
    · obtain ⟨k, -, hbytes⟩ := (Pkt.ofBytes_holds bs).bytes o n
      have hmem : b ∈ (Pkt.ofBytes bs).bytes o n := hbytes ▸ List.mem_append_left _ hb
      have hall := List.takeWhile_eq_self_iff.mp
        ((List.takeWhile_prefix _).eq_of_length (Nat.le_antisymm (List.takeWhile_prefix _).length_le
          (by rw [Pkt.bytes_length]; exact h)))
      exact absurd (hall b hmem) (Bool.eq_false_iff.mp hnul)
  · obtain ⟨k, hk, hsum, heq⟩ := over_unsettled (f := fun _ => 0) hn hs fun _ _ _ => rfl
    rw [Pkt.cstrAt, Pkt.ofBytes_eq_over, heq, List.length_append] at h
    simp only [ne_eq, not_true_eq_false, decide_false, Bool.false_eq_true, if_false, List.length_nil] at h
    omega

theorem dhcp_reacts (hs : DhcpSettled bs) : DhcpReacts bs := by
  intro l w p q ⟨hp, hq, _⟩
  obtain ⟨hlen, hs⟩ := hs
  have hz := Pkt.ofBytes_holds bs
  have hhops : ∀ r : Pkt, r.Holds bs → r.dhcpHops = (Pkt.ofBytes bs).dhcpHops := fun r hr =>
    hr.agree hz (by omega)
  unfold dhcpHandler
  rw [hhops p hp, hhops q hq]
  by_cases hmax : 16 < (Pkt.ofBytes bs).dhcpHops
  · rw [if_pos hmax, if_pos hmax]
  rw [if_neg hmax, if_neg hmax]
  have hname : Settled (· ≠ 0) bs 44 (dhcpSnameSize + 1) →
      p.dhcpSname = (Pkt.ofBytes bs).dhcpSname ∧ q.dhcpSname = (Pkt.ofBytes bs).dhcpSname := fun h =>
    ⟨hp.takeWhile hz h, hq.takeWhile hz h⟩
  rcases hs.resolve_left hmax with hlong | ⟨hsname, hsfile⟩
  · obtain ⟨hpn, hqn⟩ := hname (.inl (cstrAt_received (Nat.succ_pos _) hlong))
    rw [hpn, hqn, if_pos (.inl hlong), if_pos (.inl hlong)]
  · obtain ⟨hpn, hqn⟩ := hname hsname
    have hfile : p.dhcpFile = q.dhcpFile := hp.takeWhile hq hsfile
    have h109 := hsfile.pos (Nat.succ_pos _)
    have hchaddr : p.dhcpChaddr = q.dhcpChaddr := hp.ether hq (by omega)
    rw [hpn, hqn, hfile, hchaddr]

/-- A table of one host whose chain leads back to it. -/
def looped (eth : Ether) : World :=
  { emptyWorld with hosts := [{ plainHost 1 with next := some 0, eth := eth }], gHosts := some 0 }

theorem looped_ether (eth eth' : Ether) : utilEther2host (looped eth) eth' =
    if eth = eth' then .ok (some 0) else .error .hang := by
  have hload : hostNode (looped eth) (fun h => .ok (h.eth == eth')) 0 = .ok (eth == eth', some 0) := rfl
  by_cases h : eth = eth'
  · rw [if_pos h]
    show Chain.find _ Fault.hang 1 (some 0) = _
    rw [Chain.find, hload, beq_iff_eq.mpr h]
  · rw [if_neg h]
    rw [beq_eq_false_iff_ne.mpr h] at hload
    refine Chain.find_loop (fun a ha => ⟨0, List.mem_singleton_self 0, ?_⟩) (List.mem_singleton_self 0)
    rw [List.mem_singleton.mp ha]
    exact hload

/-- A buffer full of bytes 255. -/
def full (i : Nat) : UInt8 := if i < udpBufSize then 255 else 0

/-- The buffer was full of bytes 255: a hop count that is too high, and no end to
a name. -/
theorem dhcp_filled (hs : ¬DhcpSettled bs) :
    dhcpHandler l (.over full bs) w = .ok () w := by
  have hunsettled : ∀ o n, 0 < n → o + n ≤ udpBufSize → ¬Settled (· ≠ 0) bs o n →
      n = ((Pkt.over full bs).cstrAt o n).length := by
    intro o n hn hle hs
    obtain ⟨k, hk, hsum, heq⟩ := over_unsettled (b := 255) (f := full) hn hs fun i hi hlt => if_pos (by omega)
    rw [Pkt.cstrAt, heq, List.length_append]
    simpa using hsum.symm
  unfold dhcpHandler
  by_cases h4 : 4 ≤ bs.length
  swap
  · have hhops : (Pkt.over full bs).dhcpHops = 255 := by
      rw [Pkt.dhcpHops, Pkt.over_mem (by omega)]
      rfl
    rw [hhops, if_pos (by decide)]
    rfl
  split
  · rfl
  rw [if_pos]
  · rfl
  by_cases hname : Settled (· ≠ 0) bs 44 (dhcpSnameSize + 1)
  · refine .inr ?_
    have hfile : ¬Settled (· ≠ 0) bs 108 (dhcpFileSize + 1) := fun h => hs ⟨h4, .inr (.inr ⟨hname, h⟩)⟩
    exact Nat.lt_of_lt_of_eq (Nat.lt_succ_self _) (hunsettled 108 _ (Nat.succ_pos _) (by decide) hfile)
  · exact .inl (Nat.lt_of_lt_of_eq (Nat.lt_succ_self _)
      (hunsettled 44 _ (Nat.succ_pos _) (by decide) hname))

/-- The buffer was zeroed: the handler looks for the host. -/
theorem dhcp_zeroed (hs : ¬DhcpSettled bs) (hname : l.name = some (Pkt.ofBytes bs).dhcpSname)
    {eth : Ether} (heth : eth ≠ (Pkt.ofBytes bs).dhcpChaddr) :
    dhcpHandler l (.ofBytes bs) (looped eth) = .error .hang (looped eth) := by
  have hhops : ¬16 < (Pkt.ofBytes bs).dhcpHops := by
    intro h
    by_cases h4 : 4 ≤ bs.length
    · exact hs ⟨h4, .inl h⟩
    · rw [Pkt.dhcpHops, Pkt.ofBytes_eq_over, Pkt.over_mem (by omega)] at h
      exact absurd h (by decide)
  have hnames : ¬(dhcpSnameSize < (Pkt.ofBytes bs).dhcpSname.length ∨
      dhcpFileSize < (Pkt.ofBytes bs).dhcpFile.length) := by
    rintro (h | h)
    · have hlen := cstrAt_received (Nat.succ_pos _) h
      exact hs ⟨by omega, .inr (.inl h)⟩
    · have hlen := cstrAt_received (Nat.succ_pos _) h
      refine hs ⟨by omega, .inr (.inr ⟨.inl ?_, .inl hlen⟩)⟩
      unfold dhcpSnameSize dhcpFileSize at *
      omega
  have hother : dhcpOtherServer l (Pkt.ofBytes bs).dhcpSname = .ok false := by
    unfold dhcpOtherServer
    split
    · rfl
    · rw [hname]
      simp
  unfold dhcpHandler
  rw [if_neg hhops, if_neg hnames, hother, Exec.liftE_ok, pure_bind, if_neg (by decide), Exec.get_run,
    looped_ether, if_neg heth]
  rfl

theorem dhcp_reacts_iff (hlen : bs.length ≤ udpBufSize) : DhcpReacts bs ↔ DhcpSettled bs := by
  refine ⟨fun hreacts => ?_, dhcp_reacts⟩
  by_contra hs
  obtain ⟨eth, heth⟩ : ∃ eth, eth ≠ (Pkt.ofBytes bs).dhcpChaddr := by
    by_cases h : plainEther 1 = (Pkt.ofBytes bs).dhcpChaddr
    · exact ⟨plainEther 2, h ▸ by decide⟩
    · exact ⟨_, h⟩
  let l : Listener := { port69 with name := some (Pkt.ofBytes bs).dhcpSname }
  have hsame := hreacts l (looped eth) (.over full bs) (.ofBytes bs)
    ⟨Pkt.over_holds _ _, Pkt.ofBytes_holds bs, fun i hi => ?_⟩
  · rw [dhcp_filled hs, dhcp_zeroed (l := l) hs rfl heth] at hsame
    cases hsame
  · rw [Pkt.ofBytes_eq_over, Pkt.over_mem (by omega), Pkt.over_mem (by omega), full, if_neg (by omega)]

end

/-- **On which datagrams the handlers react only to the bytes received.** -/
theorem udp_reacts_iff (bs : List UInt8) (hlen : bs.length ≤ udpBufSize) :
    (TftpReacts bs ↔ TftpSettled bs) ∧ (DhcpReacts bs ↔ DhcpSettled bs) :=
  ⟨tftp_reacts_iff, dhcp_reacts_iff hlen⟩

/-- A read request has its opcode, and its name is cut to its length. -/
theorem udp_reacts_readK : TftpReacts [0, 1, 107, 0] :=
  (udp_reacts_iff [0, 1, 107, 0] (by decide)).1.mpr (.inl (by decide))

/-- **Counterexample**: an acknowledgment of two bytes. -/
theorem udp_stale_bytes : ¬ ∀ bs : List UInt8, bs.length ≤ udpBufSize → TftpReacts bs ∧ DhcpReacts bs := by
  intro h
  have hreacts : TftpReacts [0, 4] := (h [0, 4] (by decide)).1
  exact tftp_no_number (by decide) (by decide) (by decide) hreacts

end Bootd
