import Bootd.L4Daemon.TftpReply

/-!
# A TFTP transfer

`xfer` is the daemon together with a lock-step client: it has sent its read
request, acknowledges each DATA packet it got with the number of that packet,
and stops at the first one with fewer than 512 bytes of data. In between, the
daemon handles other packets, as long as they leave the client's session.

* `xfer_inv`: what the client has got are the first packets of `packets`. The
  block number has 16 bits, and the server finds the offset from it alone, so
  from packet 65537 on the client gets the file's first blocks again.
* `xfer_goesOn`: each acknowledgment is answered with one packet.
* `tftp_delivers`: a file of fewer than 65536 whole blocks arrives, in
  `length / 512 + 1` packets.
* `tftp_wraps`: a file of 65536 whole blocks does not (`xfer_endless`).
-/
namespace Bootd

open Bootd.Core Bootd.Core.Exec Bootd.Core.Blocks

/-- The number of a DATA packet. -/
def blockNo : List UInt8 → Nat
  | _ :: _ :: a :: b :: _ => a.toNat * 256 + b.toNat
  | _ => 0

/-- The DATA packets among the datagrams, with their numbers. -/
def dataPkts (ios : List Io) : List (Nat × List UInt8) :=
  ios.filterMap fun io =>
    match io with
    | .udp _ _ pkt => (dataOf pkt).map fun d => (blockNo pkt, d)
    | _ => none

/-- The daemon, and the DATA packets that the client has got. -/
structure Xfer where
  σ : Sys
  got : List (Nat × List UInt8)

/-- The last packet had fewer than 512 bytes of data. -/
def Xfer.Finished (x : Xfer) : Prop := ∃ n d, x.got.getLast? = some (n, d) ∧ d.length < tftpBlock

/-- The client's acknowledgment of the packet it got last, which is not the end;
the read for its answer works. -/
inductive Xfer.Acks (x : Xfer) (frm : SockAddr) (content : List UInt8) : Ev → Prop
  | ack (os : Os) (l : Listener) (loc : SockAddr) (pkt : Pkt) (n : Nat) (d : List UInt8) :
      x.got.getLast? = some (n, d) → tftpBlock ≤ d.length → pkt.tftpOp = .ack → pkt.tftpN = n →
      ReadsAll os content (n * tftpBlock) → Acks x frm content (.udp os l frm loc pkt)

/-- A datagram of the client. -/
def Ev.isFrom (frm : SockAddr) : Ev → Prop
  | .udp _ _ frm' _ _ => frm' = frm
  | .link _ _ _ => False

/-- The transfer of that content to the client `frm`, the host `h`, in session
`s`. -/
def xfer (c : Conf) (frm : SockAddr) (h : HostId) (s : SessId) (content : List UInt8) : LTS Xfer Ev where
  init x := ∃ σ₀ os l loc pkt f, (daemon c).Reachable σ₀ ∧ Accepted c σ₀ os l frm loc pkt h f content ∧
    ReadsAll os content 0 ∧ (daemon c).step σ₀ (.udp os l frm loc pkt) x.σ ∧
    x.σ.w.sessionOf h = some s ∧ x.got = dataPkts x.σ.w.sends
  step x e x' := (daemon c).step x.σ e x'.σ ∧
    ((x.Acks frm content e ∧ x'.got = x.got ++ dataPkts x'.σ.w.sends) ∨
      (¬e.isFrom frm ∧ HasSession x'.σ.w h s ∧ x'.got = x.got))

/-- The transfer ends after `length / 512 + 1` packets, with the file; and until
then each acknowledgment is answered. -/
structure Delivers (c : Conf) (frm : SockAddr) (h : HostId) (s : SessId) (content : List UInt8)
    (x : Xfer) : Prop where
  bound : x.got.length ≤ content.length / tftpBlock + 1
  ends : x.Finished ↔ x.got.length = content.length / tftpBlock + 1
  whole : x.Finished → (x.got.map Prod.snd).flatten = content
  goesOn : ¬x.Finished → ∀ e, e.Enabled x.σ.w → x.Acks frm content e →
    ∃ x', (xfer c frm h s content).step x e x' ∧ x'.got.length = x.got.length + 1

/-- The first `k` DATA packets. -/
def packets (content : List UInt8) (k : Nat) : List (Nat × List UInt8) :=
  (List.range k).map fun i => ((i + 1) % 65536, block tftpBlock (i % 65536) content)

section
variable {c : Conf} {os : Os} {l : Listener} {frm loc : SockAddr} {pkt : Pkt} {h : HostId}
  {s : SessId} {content : List UInt8} {x x' : Xfer} {e : Ev} {k : Nat}

theorem dataPkts_data (l : Listener) (via : Via) (n : Nat) (d : List UInt8) :
    dataPkts [.udp l via (tftpDataBuf n d)] = [(n % 65536, d)] := by
  have hno : blockNo (tftpDataBuf n d) = n % 65536 := be16_val n
  simp [dataPkts, hno]

theorem packets_succ (content : List UInt8) (k : Nat) : packets content (k + 1) =
    packets content k ++ [((k + 1) % 65536, block tftpBlock (k % 65536) content)] := by
  rw [packets, List.range_succ, List.map_append]
  rfl

theorem packets_last (content : List UInt8) (k : Nat) :
    (packets content (k + 1)).getLast? = some ((k + 1) % 65536, block tftpBlock (k % 65536) content) := by
  rw [packets_succ, List.getLast?_append, List.getLast?_singleton]
  rfl

/-- What a transfer keeps: the client's session is open on the file, and the
packets so far are the first ones, with none but the last short. -/
structure XferInv (c : Conf) (frm : SockAddr) (h : HostId) (s : SessId) (content : List UInt8) (x : Xfer) :
    Prop where
  reachable : (daemon c).Reachable x.σ
  host : utilIp2host x.σ.w frm.addr = .ok (some h)
  session : ∃ ses path, TftpSession x.σ.w h s ses path content ∧ ses.sid = frm.port.toNat
  got : ∃ k, x.got = packets content (k + 1) ∧
    ∀ i < k, tftpBlock ≤ (block tftpBlock (i % 65536) content).length

theorem xfer_init (hi : (xfer c frm h s content).init x) : XferInv c frm h s content x := by
  obtain ⟨σ₀, os, l, loc, pkt, f, hr, ha, hall, hstep, hses, hgot⟩ := hi
  obtain ⟨L, hok⟩ := daemon_hostsOk σ₀ hr
  obtain ⟨dl, s', ses, -, hs, hsid, hsends⟩ := next_rrq hr ha hstep
  have hread := readOf_all (n := 0) (by rwa [Nat.zero_mul])
  rw [Nat.zero_mul] at hread
  have hs' := hses.symm.trans hs.sessionOf
  cases hs'
  refine ⟨hr.step hstep, ?_, ⟨ses, f.path, hs, hsid⟩, 0, ?_, fun i hi => absurd hi (Nat.not_lt_zero i)⟩
  · exact (handle_grown hok.start hstep.2.1).utilIp2host ha.client
  · rw [hgot, hsends, hread]
    exact dataPkts_data dl _ 1 _

theorem xfer_step (hi : XferInv c frm h s content x) (hs : (xfer c frm h s content).step x e x') :
    XferInv c frm h s content x' := by
  obtain ⟨hr, hhost, ⟨ses, path, hses, hsid⟩, k, hgot, hfull⟩ := hi
  obtain ⟨hstep, hcase⟩ := hs
  have hstays : HasSession x'.σ.w h s → utilIp2host x'.σ.w frm.addr = .ok (some h) ∧
      ∃ ses path, TftpSession x'.σ.w h s ses path content ∧ ses.sid = frm.port.toNat := by
    intro hhas
    obtain ⟨ses', hses', hsame, hhost'⟩ := hses.run hr (.snoc (.nil x.σ) hstep) hhost hhas
    exact ⟨hhost', ses', path, hses', hsame.sid_eq.trans hsid⟩
  rcases hcase with ⟨hack, hgot'⟩ | ⟨-, hhas, hgot'⟩
  · cases hack with
    | ack os l loc pkt n d hlast hlong hop hn hall =>
      rw [hgot, packets_last, Option.some.injEq, Prod.mk.injEq] at hlast
      obtain ⟨rfl, rfl⟩ := hlast
      have hrun := next_ack_block l loc hr hses hhost hsid hop (by rw [hn]; exact hall)
      obtain ⟨-, hw⟩ := EStateM.Result.ok.inj (hrun.symm.trans hstep.2.1)
      have hhas : HasSession x'.σ.w h s := by
        rw [← hw]
        exact ⟨hses.sessionOf, _, live_touch os.now hses.live⟩
      refine ⟨hr.step hstep, (hstays hhas).1, (hstays hhas).2, k + 1, ?_, fun i hi => ?_⟩
      · have hsends : x'.σ.w.sends = [.udp l (udpVia l frm)
            (tftpDataBuf ((pkt.tftpN + 1) % 65536) (block tftpBlock pkt.tftpN content))] := by
          rw [← hw]; rfl
        rw [hgot', hgot, hsends, dataPkts_data, packets_succ content (k + 1), hn, Nat.mod_mod,
          Nat.mod_add_mod]
      · rcases Nat.lt_succ_iff_lt_or_eq.mp hi with hi | rfl
        · exact hfull i hi
        · exact hlong
  · exact ⟨hr.step hstep, (hstays hhas).1, (hstays hhas).2, k, hgot'.trans hgot, hfull⟩

theorem xfer_inv (hx : (xfer c frm h s content).Reachable x) : XferInv c frm h s content x := by
  have hind : (xfer c frm h s content).Inductive (XferInv c frm h s content) :=
    ⟨fun _ hi => xfer_init hi, fun _ _ _ hi hs => xfer_step hi hs⟩
  exact hind.reachable x hx

@[simp] theorem packets_length (content : List UInt8) (k : Nat) : (packets content k).length = k := by
  simp [packets]

/-- The client's acknowledgment is answered with one packet. -/
theorem xfer_goesOn (hx : (xfer c frm h s content).Reachable x) (he : e.Enabled x.σ.w)
    (hack : x.Acks frm content e) :
    ∃ x', (xfer c frm h s content).step x e x' ∧ x'.got.length = x.got.length + 1 := by
  have hi := xfer_inv hx
  obtain ⟨ses, path, hses, hsid⟩ := hi.session
  obtain ⟨os, l, loc, pkt, n, d, hlast, hlong, hop, hn, hall⟩ := id hack
  have hrun := next_ack_block l loc hi.reachable hses hi.host hsid hop
    (by rw [hn]; exact hall)
  let σ' := x.σ.next c (.udp os l frm loc pkt)
  refine ⟨⟨σ', x.got ++ dataPkts σ'.w.sends⟩, ⟨?_, .inl ⟨hack, rfl⟩⟩, ?_⟩
  · exact daemon_next he (by rw [returns, hrun])
  · have hsends : σ'.w.sends = [.udp l (udpVia l frm)
        (tftpDataBuf ((pkt.tftpN + 1) % 65536) (block tftpBlock pkt.tftpN content))] := by
      rw [sys_next_eq hrun]; rfl
    show (x.got ++ dataPkts σ'.w.sends).length = _
    rw [hsends, dataPkts_data, List.length_append, List.length_singleton]

/-- The last packet is short once the number of blocks before it is that of the
whole blocks, counted modulo 65536. -/
theorem finished_iff (hgot : x.got = packets content (k + 1)) :
    x.Finished ↔ content.length / tftpBlock ≤ k % 65536 := by
  have hshort := short_iff (n := k % 65536) content (by decide : 0 < tftpBlock)
  rw [← hshort, Xfer.Finished, hgot, packets_last]
  constructor
  · intro ⟨n, d, hlast, hd⟩
    cases hlast
    exact hd
  · exact fun hd => ⟨_, _, rfl, hd⟩

end

/-- **A file of fewer than 65536 whole blocks arrives.** -/
theorem tftp_delivers (c : Conf) (frm : SockAddr) (h : HostId) (s : SessId) (content : List UInt8)
    (hS : content.length < 65536 * tftpBlock) (x : Xfer)
    (hx : (xfer c frm h s content).Reachable x) : Delivers c frm h s content x := by
  obtain ⟨k, hgot, hfull⟩ := (xfer_inv hx).got
  have hblocks : content.length / tftpBlock < 65536 := Nat.div_lt_of_lt_mul (Nat.mul_comm _ _ ▸ hS)
  -- none of the packets before the last is short, so there are no more than blocks
  have hk : k ≤ content.length / tftpBlock := by
    by_contra hlt
    have hlong := hfull (content.length / tftpBlock) (by omega)
    rw [Nat.mod_eq_of_lt hblocks] at hlong
    exact absurd ((short_iff content (by decide : 0 < tftpBlock)).mpr (Nat.le_refl _)) (not_lt.mpr hlong)
  have hfin := finished_iff hgot
  rw [Nat.mod_eq_of_lt (by omega)] at hfin
  have hlen : x.got.length = k + 1 := by rw [hgot, packets_length]
  refine ⟨by omega, hfin.trans (by omega), fun hdone => ?_, fun _ e he hack => xfer_goesOn hx he hack⟩
  have hall : content.length ≤ (k + 1) * tftpBlock := by
    have hlt := Nat.lt_mul_div_succ content.length (by decide : 0 < tftpBlock)
    have hle := Nat.mul_le_mul_left tftpBlock (Nat.add_le_add_right (hfin.mp hdone) 1)
    rw [Nat.mul_comm (k + 1)]
    exact hlt.le.trans hle
  rw [hgot, packets, List.map_map]
  have hmap : (List.range (k + 1)).map (Prod.snd ∘ fun i =>
      ((i + 1) % 65536, block tftpBlock (i % 65536) content)) =
      (List.range (k + 1)).map fun i => block tftpBlock i content := by
    refine List.map_congr_left fun i hi => ?_
    have := List.mem_range.mp hi
    show block tftpBlock (i % 65536) content = _
    rw [Nat.mod_eq_of_lt (by omega)]
  rw [hmap, flatten_blocks, List.take_of_length_le hall]

/-! ## The client of address 1 reads the file `k` -/

/-- A system on which every file has that content. -/
def filled (content : List UInt8) : Os := { plainOs with openf := fun _ => .ok content }

theorem filled_readsAll (content : List UInt8) (offs : Nat) : ReadsAll (filled content) content offs :=
  ⟨rfl, 4096, rfl, (Nat.min_le_left _ _).trans (by decide)⟩

theorem accepted_readK (content : List UInt8) : Accepted plainConf bootSys (filled content) port69
    ⟨1, 1024⟩ ⟨7, 69⟩ (.ofBytes ([0, 1] ++ cstr "k" ++ [0])) 0 plainFile content where
  requests := ⟨rfl, _, rfl, rfl⟩
  free := by
    rintro ⟨ps, -, hmax⟩
    have hmax5 : plainConf.cSessionMax = 5 := rfl
    have hn : bootSys.w.gNSessions = 0 := rfl
    omega
  openf := rfl
  socket := rfl

/-- The transfer with its first packet. -/
def begun (content : List UInt8) : Xfer :=
  let σ := bootSys.next plainConf (readK (filled content))
  ⟨σ, dataPkts σ.w.sends⟩

set_option maxRecDepth 4000 in
theorem begun_reachable (content : List UInt8) :
    (xfer plainConf ⟨1, 1024⟩ 0 0 content).Reachable (begun content) :=
  LTS.reachable_init ⟨bootSys, _, _, _, _, _, bootSys_reachable, accepted_readK content,
    filled_readsAll content 0, daemon_next (e := readK (filled content)) ⟨List.mem_cons_self, rfl⟩ rfl,
    rfl, rfl⟩

/-- A file of three bytes arrives in one packet. -/
theorem tftp_delivers_readK :
    Delivers plainConf ⟨1, 1024⟩ 0 0 [1, 2, 3] (begun [1, 2, 3]) :=
  tftp_delivers plainConf ⟨1, 1024⟩ 0 0 [1, 2, 3] (by decide) _ (begun_reachable _)

/-- The acknowledgment of block `n`. -/
def ackPkt (n : Nat) : Pkt := .ofBytes ([0, 4] ++ be16 n)

theorem ackPkt_op (n : Nat) : (ackPkt n).tftpOp = .ack := by
  have h : (ackPkt n).u16 0 = (0 : UInt8).toNat * 256 + (4 : UInt8).toNat := rfl
  rw [Pkt.tftpOp, h]
  decide

theorem ackPkt_no (n : Nat) : (ackPkt n).tftpN = n % 65536 := be16_val n

/-- The client never gets a short packet of a file of 65536 whole blocks. -/
theorem xfer_endless (content : List UInt8) (hlen : 65536 ≤ content.length / tftpBlock) (k : Nat) :
    ∃ x, (xfer plainConf ⟨1, 1024⟩ 0 0 content).Reachable x ∧
      (∃ l ∈ x.σ.w.listeners, l.service = .tftp ∧ l.peer = some ⟨1, 1024⟩) ∧ x.got.length = k + 1 := by
  induction k with
  | zero =>
    have hlis : ∃ l ∈ (begun content).σ.w.listeners, l.service = .tftp ∧ l.peer = some ⟨1, 1024⟩ :=
      ⟨_, List.mem_cons_of_mem _ (List.mem_cons_of_mem _ List.mem_cons_self), rfl, rfl⟩
    exact ⟨begun content, begun_reachable content, hlis, rfl⟩
  | succ k ih =>
    obtain ⟨x, hx, ⟨l, hlis, htftp, hpeer⟩, hk⟩ := ih
    obtain ⟨k', hgot, -⟩ := (xfer_inv hx).got
    have hlast := packets_last content k'
    rw [← hgot] at hlast
    have hlong := (not_congr (short_iff content (by decide : 0 < tftpBlock))).mpr
      (show ¬content.length / tftpBlock ≤ k' % 65536 by omega)
    let e : Ev := .udp (filled content) l ⟨1, 1024⟩ ⟨7, 69⟩ (ackPkt (k' + 1))
    have hack : x.Acks ⟨1, 1024⟩ content e :=
      .ack _ _ _ _ _ _ hlast (not_lt.mp hlong) (ackPkt_op _) (ackPkt_no _) (filled_readsAll _ _)
    obtain ⟨x', hstep, hmore⟩ := xfer_goesOn (e := e) hx ⟨hlis, htftp⟩ hack
    have hkept := (run_kept (xfer_inv hx).reachable (.snoc (.nil x.σ) hstep.1)).2
    exact ⟨x', hx.step hstep, ⟨l, hkept.listeners l hlis, htftp, hpeer⟩, by omega⟩

/-- **Counterexample**: a file of 65536 whole blocks. The client gets packet
65538, the second block again. -/
theorem tftp_wraps : ¬ ∀ (c : Conf) (frm : SockAddr) (h : HostId) (s : SessId) (content : List UInt8)
    (x : Xfer), (xfer c frm h s content).Reachable x → Delivers c frm h s content x := by
  intro hall
  obtain ⟨content, hlen⟩ : ∃ content : List UInt8, content.length = 65536 * tftpBlock :=
    ⟨.replicate _ 0, List.length_replicate ..⟩
  have hblocks : content.length / tftpBlock = 65536 := by
    rw [hlen, Nat.mul_div_cancel _ (by decide)]
  obtain ⟨x, hx, -, hk⟩ := xfer_endless content hblocks.ge 65537
  have hbound := (hall _ _ _ _ _ x hx).bound
  rw [hblocks] at hbound
  omega

end Bootd
