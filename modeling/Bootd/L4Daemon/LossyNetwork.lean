import Bootd.Core.LockStep
import Bootd.L4Daemon.Reply
import Bootd.L4Daemon.TftpReturns
import Bootd.L4Daemon.Transfer

/-!
# A TFTP transfer over a network that loses, repeats and reorders

`lossyNet` is the daemon, a client that reads one file, and the network between
them. Everything that either of the two has sent stays in the network, and may
arrive at any time, any number of times or never. In between, the daemon handles
packets of any other sender, with any answers of the system.

Hypotheses on the rest of the world, in `Arrives`:

* the socket of a listener that is connected gets datagrams of its peer only;
* what arrives from the client's address was sent by the client;
* while the transfer lasts, opening its file gives the same content, and a read
  in it may fail but is not cut short before the end of the file.

Results:

* `net_maps`: the transfer refines `LockStep`, modulo 65536 and with the blocks
  of the file as pieces.
* `lossy_delivers`: what the client has is a beginning of the file, and all of it
  at the end.
* `lossy_completes`: nothing that the network did so far keeps the rest from
  arriving, as long as the session is there.
-/
namespace Bootd

open Bootd.Core Bootd.Core.Exec Bootd.Core.Blocks

/-- What a client takes off the wire: the number and the data of a DATA packet. -/
def dataMsg : List UInt8 → Option (Nat × List UInt8)
  | 0 :: 3 :: a :: b :: d => some (a.toNat * 256 + b.toNat, d)
  | _ => none

/-- The DATA packet that reaches `a`. -/
def Io.dataTo (a : SockAddr) : Io → Option (Nat × List UInt8)
  | .udp l via bs => if via.dest l = some a then dataMsg bs else none
  | _ => none

/-- The DATA packets that reach `a`, of those sent. -/
def World.dataTo (w : World) (a : SockAddr) : List (Nat × List UInt8) := w.sends.filterMap (Io.dataTo a)

/-- The daemon, what the client has sent, the DATA packets sent to the client,
and the blocks that it has taken. -/
structure Net where
  σ : Sys
  up : List Pkt
  down : List (Nat × List UInt8)
  got : List (List UInt8)

/-- The client has taken a block of fewer than 512 bytes. -/
def Net.Done (x : Net) : Prop := ∃ d, x.got.getLast? = some d ∧ d.length < tftpBlock

/-- The client sends its read request, or acknowledges a block that it has. -/
def Net.Sends (x : Net) (req pkt : Pkt) : Prop :=
  pkt = req ∨ pkt.tftpOp = .ack ∧ ∃ k ≤ x.got.length, pkt.tftpN = k % 65536

/-- A read is not cut short before the end of the file. -/
def Os.FullReads (os : Os) : Prop := ∀ k, os.read = some k → tftpBlock ≤ k

/-- A packet gets to the daemon; what comes from `frm` is one that the client of
the host `h` has sent. -/
def Net.Arrives (x : Net) (frm : SockAddr) (h : HostId) (content : List UInt8) : Ev → Prop
  | .udp os l frm' loc pkt => (l.peer = none ∨ l.peer = some frm') ∧
      (frm' = frm → pkt ∈ x.up ∧ os.FullReads ∧
        ∀ f, (Ev.udp os l frm' loc pkt).Requests x.σ.w h f → os.openf f.path = .ok content)
  | .link _ _ _ => True

inductive NetLabel
  | send (pkt : Pkt)
  | handle (e : Ev)
  | take (d : List UInt8)

inductive NetStep (c : Conf) (frm : SockAddr) (h : HostId) (req : Pkt) (content : List UInt8) :
    Net → NetLabel → Net → Prop
  | send (x : Net) (pkt : Pkt) : x.Sends req pkt →
      NetStep c frm h req content x (.send pkt) { x with up := x.up ++ [pkt] }
  | handle (x : Net) (e : Ev) (σ' : Sys) : (daemon c).step x.σ e σ' → x.Arrives frm h content e →
      NetStep c frm h req content x (.handle e) { x with σ := σ', down := x.down ++ σ'.w.dataTo frm }
  | take (x : Net) (d : List UInt8) : ¬x.Done → ((x.got.length + 1) % 65536, d) ∈ x.down →
      NetStep c frm h req content x (.take d) { x with got := x.got ++ [d] }

/-- Sessions of `frm` at the host `h` read that content. -/
def SessionsRead (w : World) (h : HostId) (frm : SockAddr) (content : List UInt8) : Prop :=
  ∀ s ses, w.sessionOf h = some s → w.live s = some ses → ses.service = serviceTftp →
    ses.sid = frm.port.toNat → ∃ path, w.fdObj ses.bfFd = some (.file path content)

/-- The client `frm`, the host `h`, asks for a file with `req`; before that it has
no session. -/
def lossyNet (c : Conf) (frm : SockAddr) (h : HostId) (req : Pkt) (content : List UInt8) :
    LTS Net NetLabel where
  init x := (daemon c).Reachable x.σ ∧ utilIp2host x.σ.w frm.addr = .ok (some h) ∧ req.tftpOp = .rrq ∧
    (∀ s ses, x.σ.w.sessionOf h = some s → x.σ.w.live s = some ses → ses.service = serviceTftp →
      ses.sid ≠ frm.port.toNat) ∧
    x.up = [] ∧ x.down = [] ∧ x.got = []
  step := NetStep c frm h req content

/-- The block that a datagram of the client asks for. -/
def Pkt.asks (pkt : Pkt) : Nat := if pkt.tftpOp = .ack then pkt.tftpN else 0

/-- What the transfer is for. -/
def Net.lock (x : Net) : LockStep.State (List UInt8) := ⟨x.up.map Pkt.asks, x.down, x.got⟩

/-- The datagrams that the TFTP handler sends for `pkt`. -/
inductive TftpSends (c : Conf) (os : Os) (l : Listener) (frm loc : SockAddr) (pkt : Pkt) (w : World) :
    List Io → Prop
  | silent : TftpSends c os l frm loc pkt w []
  | error (err : Nat) (msg : CStr) : TftpSends c os l frm loc pkt w [errorIo l frm err msg]
  | first (dl : Listener) (h : HostId) (f : File) (d : List UInt8) : pkt.tftpOp = .rrq →
      (Ev.udp os l frm loc pkt).Requests w h f → os.openf f.path = .ok d → dl.peer = some frm →
      TftpSends c os l frm loc pkt w (blockIos c os l dl frm 1 (readOf os d tftpBlock 0))
  | next (h : HostId) (s : SessId) (ses : Session) : pkt.tftpOp = .ack →
      utilIp2host w frm.addr = .ok (some h) → w.sessionOf h = some s → w.live s = some ses →
      ses.service = serviceTftp → ses.sid = frm.port.toNat →
      TftpSends c os l frm loc pkt w (blockIos c os l l frm (pkt.tftpN + 1)
        (utilRead w os ses.bfFd tftpBlock (pkt.tftpN * tftpBlock : Nat)))

section
variable {c : Conf} {os : Os} {l dl : Listener} {frm frm' loc : SockAddr} {pkt req : Pkt} {h : HostId}
  {content : List UInt8} {e : Ev} {w w' : World} {u : Unit} {x x' : Net} {L : List HostId} {f : File}

/-! ## What reaches the client -/

theorem dataMsg_data (n : Nat) (d : List UInt8) : dataMsg (tftpDataBuf n d) = some (n % 65536, d) := by
  show some (_, d) = _
  rw [be16_val]

theorem dataTo_error (err : Nat) (msg : CStr) : (errorIo l frm' err msg).dataTo frm = none := by
  show (if _ then dataMsg _ else none) = none
  split <;> rfl

/-- A datagram goes to the address it is meant for, or nowhere. -/
theorem udpVia_peer (hp : dl.peer = none ∨ dl.peer = some frm') :
    (udpVia dl frm').dest dl = none ∨ (udpVia dl frm').dest dl = some frm' := by
  unfold udpVia
  split
  · exact hp
  · split
    · exact hp
    · exact .inr rfl

theorem dataTo_block (frm : SockAddr) (dl : Listener) (n : Nat) (d : List UInt8) :
    Io.dataTo frm (.udp dl (udpVia dl frm) (tftpDataPkt n (some d))) =
    if (udpVia dl frm).dest dl = some frm then some (n % 65536, d) else none := by
  rw [← dataMsg_data]
  rfl

/-- Of a block, at most the DATA packet reaches the client, where the read worked. -/
theorem blockIos_dataTo (n : Nat) (data : Option (List UInt8)) :
    (blockIos c os l dl frm n data).filterMap (Io.dataTo frm) = [] ∨
      ∃ d, data = some d ∧
        (blockIos c os l dl frm n data).filterMap (Io.dataTo frm) = [(n % 65536, d)] := by
  cases data with
  | none =>
    left
    have hshort : Io.dataTo frm (.udp dl (udpVia dl frm) (tftpDataPkt n none)) = none := by
      show (if _ then dataMsg _ else none) = none
      split <;> rfl
    rw [blockIos, if_pos rfl, List.filterMap_append, List.filterMap_cons, dataTo_error,
      List.filterMap_cons, hshort]
    rfl
  | some d =>
    rw [blockIos, if_neg (by simp), List.nil_append, List.filterMap_cons, dataTo_block]
    by_cases hd : (udpVia dl frm).dest dl = some frm
    · rw [if_pos hd]
      exact .inr ⟨d, rfl, rfl⟩
    · rw [if_neg hd]
      exact .inl rfl

theorem readOf_full (hfull : os.FullReads) {n : Nat} {d : List UInt8}
    (hd : readOf os content tftpBlock (n * tftpBlock) = some d) : d = block tftpBlock n content := by
  unfold readOf at hd
  split at hd
  · rename_i k hk
    split at hd
    · rw [← Option.some.inj hd, block, Nat.min_eq_left (hfull k hk)]
    · cases hd
  · cases hd

/-! ## What the daemon sends -/

theorem tftp_sends (hok : HostsOk w L) (hd : Descriptors w) (hout : w.out = [])
    (hr : tftpHandler c os l frm loc pkt w = .ok u w') : TftpSends c os l frm loc pkt w w'.sends := by
  have hnil : w.sends = [] := by rw [World.sends, hout]; rfl
  have herror : ∀ err msg, TftpSends c os l frm loc pkt w (w.emits [errorIo l frm err msg]).sends := by
    intro err msg
    rw [sends_emits, hnil]
    exact .error err msg
  rcases tftpHandler_ok hr with ⟨-, rfl⟩ | ⟨h, host, hk, hh, ⟨-, rfl⟩ | ⟨hsvc, hd'⟩⟩
  · exact herror _ _
  · exact herror _ _
  unfold tftpDispatch at hd'
  cases hop : pkt.tftpOp with
  | rrq =>
    simp only [hop] at hd'
    cases hf : tftpFile host pkt with
    | none =>
      simp only [hf, tftpSendError_ok] at hd'
      rw [← hd']
      exact herror _ _
    | some f =>
      simp only [hf] at hd'
      cases tftpRrq_end hok hd hout hk hd' with
      | busy _ hs | openFailed e _ hs | noListener _ hs =>
        rw [hs]
        exact .error _ _
      | sent d dl s fd _ _ ho hpeer _ hs =>
        rw [hs]
        exact .first dl h f d hop ⟨hk, host, hh, (if_pos ⟨hsvc, hop⟩).trans hf⟩ ho hpeer
  | wrq | data =>
    simp only [hop, tftpSendError_ok] at hd'
    rw [← hd']
    exact herror _ _
  | ack =>
    simp only [hop] at hd'
    rcases tftpAck_ok hd' with ⟨s, ses, hs, hl, hses, hsid, rfl⟩ | ⟨-, rfl⟩ | rfl
    · have hnext : TftpSends c os l frm loc pkt w _ := .next h s ses hop hk hs hl hses hsid
      rwa [sends_emits, blockIos_isSend, World.sends, World.touch_out, hout]
    · rw [hnil]
      exact .silent
    · exact herror _ _
  | error | unknown n =>
    simp only [hop, Exec.pure_ok] at hd'
    rw [← hd'.2, hnil]
    exact .silent

/-- What reaches the client in answer to the packets of another sender: nothing. -/
theorem TftpSends.other {ios : List Io} (hs : TftpSends c os l frm' loc pkt w ios) (hne : frm' ≠ frm)
    (hp : l.peer = none ∨ l.peer = some frm') : ios.filterMap (Io.dataTo frm) = [] := by
  have hudp : ∀ (dl : Listener) bs, (dl.peer = none ∨ dl.peer = some frm') →
      Io.dataTo frm (.udp dl (udpVia dl frm') bs) = none := by
    intro dl bs hp
    refine if_neg fun hd => ?_
    rcases udpVia_peer hp with hv | hv
    · rw [hv] at hd; cases hd
    · rw [hv] at hd
      exact hne (Option.some.inj hd)
  have hblock : ∀ (dl : Listener) n data, (dl.peer = none ∨ dl.peer = some frm') →
      (blockIos c os l dl frm' n data).filterMap (Io.dataTo frm) = [] := by
    intro dl n data hp
    refine List.filterMap_eq_nil_iff.mpr fun io hio => ?_
    rcases List.mem_append.mp hio with hio | hio
    · split at hio
      · rw [List.mem_singleton.mp hio]
        exact dataTo_error _ _
      · cases hio
    · rw [List.mem_singleton.mp hio]
      exact hudp dl _ hp
  cases hs with
  | silent => rfl
  | error err msg =>
    rw [List.filterMap_cons, dataTo_error]
    rfl
  | first dl h f d _ _ _ hpeer => exact hblock dl _ _ (.inr hpeer)
  | next => exact hblock l _ _ hp

/-- What reaches the client in answer to its own: at most the block that it asked
for. -/
theorem TftpSends.own {ios : List Io} (hs : TftpSends c os l frm loc pkt w ios)
    (hhost : utilIp2host w frm.addr = .ok (some h)) (hserves : SessionsRead w h frm content) (hfull : os.FullReads)
    (hopen : ∀ f, (Ev.udp os l frm loc pkt).Requests w h f → os.openf f.path = .ok content) :
    ios.filterMap (Io.dataTo frm) = [] ∨
      ios.filterMap (Io.dataTo frm) = [((pkt.asks + 1) % 65536, block tftpBlock pkt.asks content)] := by
  cases hs with
  | silent => exact .inl rfl
  | error err msg =>
    rw [List.filterMap_cons, dataTo_error]
    exact .inl rfl
  | first dl h' f d hop hreq ho hpeer =>
    have hh : h' = h := Option.some.inj (Except.ok.inj (hreq.1.symm.trans hhost))
    subst hh
    have hd : d = content := Except.ok.inj (ho.symm.trans (hopen f hreq))
    subst hd
    refine (blockIos_dataTo 1 _).imp_right fun ⟨d', hd', hb⟩ => ?_
    have hasks : pkt.asks = 0 := if_neg (by rw [hop]; simp)
    have hfirst : d' = block tftpBlock 0 d := readOf_full hfull (by rwa [Nat.zero_mul])
    rw [hb, hasks, hfirst]
  | next h' s ses hop hk hs hl hsvc hsid =>
    have hh : h' = h := Option.some.inj (Except.ok.inj (hk.symm.trans hhost))
    subst hh
    obtain ⟨path, hobj⟩ := hserves s ses hs hl hsvc hsid
    refine (blockIos_dataTo (pkt.tftpN + 1) _).imp_right fun ⟨d', hd', hb⟩ => ?_
    have hfile : (w.fdObj ses.bfFd).bind FdObj.content = some content := by rw [hobj]; rfl
    rw [utilRead_file hfile] at hd'
    have hasks : pkt.asks = pkt.tftpN := if_pos hop
    rw [hb, hasks, readOf_full hfull hd']

/-- Frames of the link level do not reach the client. -/
theorem link_dataTo {p : Pkt} (hr : linkCallback c os l p w = .ok u w') (hout : w.out = []) :
    w'.dataTo frm = [] := by
  have hframe : ∀ io ∈ traceOf (linkCallback c os l p) w, io.dataTo frm = none := by
    have hadmin : ∀ io : Io, io.isAdmin = true → io.dataTo frm = none := by
      intro io hio
      cases io <;> first | rfl | cases hio
    unfold linkCallback
    split
    · exact (rarpHandler_emits (fun _ _ => rfl) fun _ _ => rfl).trace w
    · split
      · exact rmpHandler_trace w hadmin (fun _ _ => rfl) fun _ _ _ _ _ _ _ _ _ _ _ => rfl
      · exact (Emits.pure ()).trace w
  have hw : w.start = w := by
    rw [World.start, ← hout]
  refine List.filterMap_eq_nil_iff.mpr fun io hio => hframe io ?_
  rw [traceOf, hw, Exec.final, hr]
  exact (List.mem_filter.mp hio).1

/-! ## The refinement -/

/-- Two addresses of the same host are the same. -/
theorem host_addr {a b : Ip} (ha : utilIp2host w a = .ok (some h)) (hb : utilIp2host w b = .ok (some h)) :
    a = b := by
  obtain ⟨g, hg, ha⟩ := hostFind_hit ha
  obtain ⟨g', hg', hb⟩ := hostFind_hit hb
  rw [hg] at hg'
  cases hg'
  exact (beq_iff_eq.mp (Except.ok.inj ha)).trans (beq_iff_eq.mp (Except.ok.inj hb)).symm

/-- What a transfer keeps: the client's sessions read its file. -/
structure NetInv (c : Conf) (frm : SockAddr) (h : HostId) (req : Pkt) (content : List UInt8) (x : Net) :
    Prop where
  reachable : (daemon c).Reachable x.σ
  host : utilIp2host x.σ.w frm.addr = .ok (some h)
  rrq : req.tftpOp = .rrq
  reads : SessionsRead x.σ.w h frm content

/-- A session of the client that a packet makes was asked for by the client. -/
theorem reads_handle {σ' : Sys} (hi : NetInv c frm h req content x) (hs : (daemon c).step x.σ e σ')
    (ha : x.Arrives frm h content e) : SessionsRead σ'.w h frm content := by
  obtain ⟨L, hok⟩ := daemon_hostsOk _ hi.reachable
  have hd := (daemon_descriptors _ hi.reachable).start
  have hser := daemon_inService _ hi.reachable
  have hser : InService x.σ.w.start := ⟨hser.bound, hser.service⟩
  have hlt : h < x.σ.w.start.hosts.length := by
    obtain ⟨g, hg, -⟩ := hostFind_hit hi.host
    exact (List.getElem?_eq_some_iff.mp hg).1
  intro s ses' hs' hl' hsvc hsid
  cases handle_held hok.start hd hser hs.2.1 hlt hs' hl' with
  | kept ses hold hlive hsame =>
    obtain ⟨path, hobj⟩ := hi.reads s ses hold hlive (hsame.service ▸ hsvc) (hsame.sid_eq ▸ hsid)
    refine ⟨path, ?_⟩
    rw [Session.bfFd, hsame.fd]
    exact (handle_kept hok.start hd hs.2.1).fds _ _ hobj
  | made f hreq hnew hsvc' hsid' =>
    cases e with
    | link os l p =>
      have hsame : serviceTftp = serviceRmp := hsvc.symm.trans hsvc'
      exact absurd hsame (by decide)
    | udp os l frm' loc pkt =>
      have haddr : frm'.addr = frm.addr := host_addr hreq.1 hi.host
      have hport : frm'.port = frm.port := by
        have : (frm.port.toNat : Int) = frm'.port.toNat := hsid.symm.trans hsid'
        exact UInt16.toNat_inj.mp (Int.ofNat.inj this).symm
      have hfrm : frm' = frm := by
        cases frm'
        cases frm
        simp_all
      have ho := (ha.2 hfrm).2.2 f hreq
      cases hnew with
      | failed err herr => exact absurd (ho.symm.trans herr) (by simp)
      | opened d fd hopen hfd h0 hobj hm =>
        have hd : d = content := Except.ok.inj (hopen.symm.trans ho)
        subst hd
        refine ⟨f.path, ?_⟩
        rw [Session.bfFd, hfd]
        simpa using hobj

theorem net_inv (hx : (lossyNet c frm h req content).Reachable x) : NetInv c frm h req content x := by
  have hind : (lossyNet c frm h req content).Inductive (NetInv c frm h req content) := by
    refine ⟨fun x hi => ?_, fun x l x' hi hs => ?_⟩
    · obtain ⟨hr, hhost, hrrq, hno, -⟩ := hi
      exact ⟨hr, hhost, hrrq, fun s ses hs hl hsvc hsid => absurd hsid (hno s ses hs hl hsvc)⟩
    · cases hs with
      | send pkt => exact ⟨hi.reachable, hi.host, hi.rrq, hi.reads⟩
      | handle e σ' hs ha =>
        obtain ⟨L, hok⟩ := daemon_hostsOk _ hi.reachable
        exact ⟨hi.reachable.step hs, (handle_grown hok.start hs.2.1).utilIp2host hi.host, hi.rrq,
          reads_handle hi hs ha⟩
      | take d => exact ⟨hi.reachable, hi.host, hi.rrq, hi.reads⟩
  exact hind.reachable x hx

/-- What a packet adds to the network is at most a block that was asked for. -/
theorem handle_dataTo {σ' : Sys} (hi : NetInv c frm h req content x) (hs : (daemon c).step x.σ e σ')
    (ha : x.Arrives frm h content e) : σ'.w.dataTo frm = [] ∨ ∃ pkt ∈ x.up,
      σ'.w.dataTo frm = [((pkt.asks + 1) % 65536, block tftpBlock pkt.asks content)] := by
  obtain ⟨L, hok⟩ := daemon_hostsOk _ hi.reachable
  have hd := (daemon_descriptors _ hi.reachable).start
  cases e with
  | link os l p =>
    have hrun : linkCallback c os l p x.σ.w.start = .ok () σ'.w := hs.2.1
    exact .inl (link_dataTo hrun rfl)
  | udp os l frm' loc pkt =>
    have hsends := tftp_sends hok.start hd rfl hs.2.1
    by_cases hfrm : frm' = frm
    · subst hfrm
      obtain ⟨hup, hfull, hopen⟩ := ha.2 rfl
      exact (hsends.own hi.host hi.reads hfull hopen).imp_right fun h => ⟨pkt, hup, h⟩
    · exact .inl (hsends.other hfrm ha.1)

/-- **The transfer refines the lock-step protocol.** -/
theorem net_maps (c : Conf) (frm : SockAddr) (h : HostId) (req : Pkt) (content : List UInt8) :
    LTS.Maps (lossyNet c frm h req content)
      (LockStep.lockStep 65536 (fun n => block tftpBlock n content) (LockStep.IsShort tftpBlock))
      Net.lock := by
  refine ⟨fun x hi => ?_, fun x l x' hx hs => ?_⟩
  · obtain ⟨-, -, -, -, hup, hdown, hgot⟩ := hi
    show Net.lock x = ⟨[], [], []⟩
    rw [Net.lock, hup, hdown, hgot]
    rfl
  have hi := net_inv hx
  cases hs with
  | send pkt hsend =>
    obtain ⟨n, hn, hasks⟩ : ∃ n ≤ x.got.length, pkt.asks = n % 65536 := by
      rcases hsend with rfl | ⟨hop, k, hk, hno⟩
      · exact ⟨0, Nat.zero_le _, if_neg (by rw [hi.rrq]; simp)⟩
      · exact ⟨k, hk, (if_pos hop).trans hno⟩
    have hlock : Net.lock { x with up := x.up ++ [pkt] } =
        { x.lock with asked := x.lock.asked ++ [n % 65536] } := by
      rw [Net.lock, List.map_append, List.map_singleton, hasks]
      rfl
    refine ⟨[.ask n], .snoc (.nil _) ?_⟩
    rw [hlock]
    exact .ask x.lock n hn
  | handle e σ' hs ha =>
    rcases handle_dataTo hi hs ha with hnil | ⟨pkt, hup, hdata⟩
    · refine ⟨[], ?_⟩
      rw [Net.lock, hnil, List.append_nil]
      exact .nil _
    · refine ⟨[.answer pkt.asks], .snoc (.nil _) ?_⟩
      rw [Net.lock, hdata]
      exact .answer x.lock pkt.asks (List.mem_map_of_mem hup)
  | take d hopen hd => exact ⟨[.take d], .snoc (.nil _) (.take x.lock d hopen hd)⟩

/-- What the client has is a beginning of the file, and all of it at the end. -/
structure Net.Arrived (x : Net) (content : List UInt8) : Prop where
  part : x.got.flatten = content.take (x.got.length * tftpBlock)
  bound : x.got.length ≤ content.length / tftpBlock + 1
  whole : x.Done → x.got.flatten = content

theorem lossy_arrived (hlen : content.length < 65536 * tftpBlock)
    (hx : (lossyNet c frm h req content).Reachable x) : x.Arrived content := by
  have harr := LockStep.delivers (by decide : 0 < tftpBlock) hlen ((net_maps c frm h req content).reachable hx)
  exact ⟨harr.part, harr.bound, harr.whole⟩

/-! ## Going on -/

/-- The client has a block and its session. -/
structure Net.Going (x : Net) (frm : SockAddr) (h : HostId) : Prop where
  begun : x.got ≠ []
  session : ∃ s ses path d, TftpSession x.σ.w h s ses path d ∧ ses.sid = frm.port.toNat

/-- A socket for the datagrams of `frm`. -/
def Listener.Serves (l : Listener) (frm : SockAddr) : Prop :=
  l.service = .tftp ∧ (l.peer = none ∨ l.peer = some frm)

/-- Where something reached the client, there is a socket for what it answers. -/
theorem net_listener (hx : (lossyNet c frm h req content).Reachable x) (hbegun : x.got ≠ []) :
    ∃ l ∈ x.σ.w.listeners, l.Serves frm := by
  let I : Net → Prop := fun x =>
    (x.got ≠ [] → x.down ≠ []) ∧ (x.down ≠ [] → ∃ l ∈ x.σ.w.listeners, l.Serves frm)
  have hinv : I x := by
    refine hx.induction (I := I) (fun x hi => ?_) fun x l x' hx hi hs => ?_
    · obtain ⟨-, -, -, -, -, hdown, hgot⟩ := hi
      exact ⟨fun h => absurd hgot h, fun h => absurd hdown h⟩
    · cases hs with
      | send pkt _ => exact hi
      | take d _ hin =>
        have hdown : x.down ≠ [] := List.ne_nil_of_mem hin
        exact ⟨fun _ => hdown, hi.2⟩
      | handle e σ' hs ha =>
        have hi' := net_inv hx
        obtain ⟨L, hok⟩ := daemon_hostsOk _ hi'.reachable
        have hd := (daemon_descriptors _ hi'.reachable).start
        have hkept : ∀ l ∈ x.σ.w.listeners, l ∈ σ'.w.listeners := (handle_kept hok.start hd hs.2.1).listeners
        refine ⟨fun hgot => List.append_ne_nil_of_left_ne_nil (hi.1 hgot) _, fun hdown => ?_⟩
        by_cases hold : x.down = []
        · -- the packet was one of the client
          cases e with
          | link os l p =>
            have hrun : linkCallback c os l p x.σ.w.start = .ok () σ'.w := hs.2.1
            rw [hold, link_dataTo hrun rfl] at hdown
            exact absurd rfl hdown
          | udp os l frm' loc pkt =>
            obtain ⟨hl, hsvc⟩ := hs.1
            by_cases hfrm : frm' = frm
            · exact ⟨l, hkept l hl, hsvc, hfrm ▸ ha.1⟩
            · rw [hold, World.dataTo, (tftp_sends hok.start hd rfl hs.2.1).other hfrm ha.1] at hdown
              exact absurd rfl hdown
        · obtain ⟨l, hl, hserves⟩ := hi.2 hold
          exact ⟨l, hkept l hl, hserves⟩
  exact hinv.2 (hinv.1 hbegun)

theorem dataTo_sent (hfrm : frm ≠ .any) (n : Nat) (d : List UInt8)
    (hs : w.sends = [.udp dl (udpVia dl frm) (tftpDataBuf n d)]) : w.dataTo frm = [(n % 65536, d)] := by
  have hblock := dataTo_block frm dl n d
  rw [if_pos (udpVia_dest dl hfrm)] at hblock
  rw [World.dataTo, hs]
  exact List.filterMap_cons_some hblock

/-- An acknowledgment is answered with the next block, and the session goes on. -/
theorem ack_dataTo (hfrm : frm ≠ .any) (hx : (lossyNet c frm h req content).Reachable x) (hg : x.Going frm h)
    (l : Listener) (loc : SockAddr) (hop : pkt.tftpOp = .ack) (hall : ReadsAll os content (pkt.tftpN * tftpBlock)) :
    ∃ w', (Ev.udp os l frm loc pkt).handle c x.σ.w.start = .ok () w' ∧
      w'.dataTo frm = [((pkt.tftpN + 1) % 65536, block tftpBlock pkt.tftpN content)] ∧
      w'.listeners = x.σ.w.listeners ∧
      ∃ s ses path d, TftpSession w' h s ses path d ∧ ses.sid = frm.port.toNat := by
  have hi := net_inv hx
  obtain ⟨s, ses, path, d, hses, hsid⟩ := hg.session
  have hd : d = content := by
    obtain ⟨path', hobj⟩ := hi.reads s ses hses.sessionOf hses.live hses.service hsid
    have heq := Option.some.inj (hses.file.symm.trans hobj)
    injection heq
  subst hd
  refine ⟨_, next_ack_block l loc hi.reachable hses hi.host hsid hop hall, ?_, rfl, s, _, path, d,
    ⟨hses.sessionOf, live_touch _ hses.live, hses.service, hses.file⟩, hsid⟩
  rw [dataTo_sent hfrm _ _ rfl, Nat.mod_mod]

theorem net_done_congr (hgot : x'.got = x.got) : x'.Done ↔ x.Done := by
  unfold Net.Done
  rw [hgot]

theorem filled_fullReads (content : List UInt8) : (filled content).FullReads := fun k hk => by
  have hread : (filled content).read = some 4096 := rfl
  rw [hread] at hk
  rw [← Option.some.inj hk]
  decide

instance (x : Net) : Decidable x.Done :=
  decidable_of_iff (x.got.getLast?.any (·.length < tftpBlock) = true) (by simp [Net.Done, Option.any_eq_true])

/-- The client acknowledges the block it has last. -/
def Net.ask (x : Net) : Net := { x with up := x.up ++ [ackPkt x.got.length] }

/-- That gets to the daemon on `l`, where all reads work. -/
def Net.arrival (x : Net) (frm : SockAddr) (content : List UInt8) (l : Listener) : Ev :=
  .udp (filled content) l frm frm (ackPkt x.got.length)

def Net.answer (c : Conf) (frm : SockAddr) (content : List UInt8) (l : Listener) (x : Net) : Net where
  σ := x.σ.next c (x.arrival frm content l)
  up := x.up
  down := x.down ++ (x.σ.next c (x.arrival frm content l)).w.dataTo frm
  got := x.got

@[simp] theorem answer_σ : (x.answer c frm content l).σ = x.σ.next c (x.arrival frm content l) := by
  rw [Net.answer]

@[simp] theorem answer_up : (x.answer c frm content l).up = x.up := by
  rw [Net.answer]

@[simp] theorem answer_got : (x.answer c frm content l).got = x.got := by
  rw [Net.answer]

/-- The block that the client waits for. -/
def Net.wanted (x : Net) (content : List UInt8) : List UInt8 := block tftpBlock (x.got.length % 65536) content

/-- It is taken, unless the client has all. -/
def Net.accept (content : List UInt8) (x : Net) : Net :=
  if x.Done then x else { x with got := x.got ++ [x.wanted content] }

theorem ask_step : (lossyNet c frm h req content).step x (.send (ackPkt x.got.length)) x.ask :=
  .send x _ (.inr ⟨ackPkt_op _, _, Nat.le_refl _, ackPkt_no _⟩)

/-- The daemon answers with the next block, and goes on. -/
theorem answer_step (hfrm : frm ≠ .any) (hx : (lossyNet c frm h req content).Reachable x) (hg : x.Going frm h)
    (hl : l ∈ x.σ.w.listeners) (hserves : l.Serves frm) (hup : ackPkt x.got.length ∈ x.up) :
    (lossyNet c frm h req content).step x (.handle (x.arrival frm content l)) (x.answer c frm content l) ∧
      (x.answer c frm content l).Going frm h ∧ l ∈ (x.answer c frm content l).σ.w.listeners ∧
      (((x.answer c frm content l).got.length + 1) % 65536, (x.answer c frm content l).wanted content) ∈
        (x.answer c frm content l).down := by
  have hno : (ackPkt x.got.length).tftpN = x.got.length % 65536 := ackPkt_no _
  obtain ⟨w', hrun, hdata, hlist, hses⟩ :=
    ack_dataTo hfrm hx hg l frm (ackPkt_op _)
      (filled_readsAll content ((ackPkt x.got.length).tftpN * tftpBlock))
  rw [hno, Nat.mod_add_mod] at hdata
  have hw : (x.σ.next c (x.arrival frm content l)).w = w' := sys_next_eq hrun
  have hstep : (daemon c).step x.σ (x.arrival frm content l) (x.σ.next c (x.arrival frm content l)) :=
    ⟨⟨hl, hserves.1⟩, hrun.trans (congrArg (EStateM.Result.ok ()) hw.symm), by rw [Sys.next]⟩
  have harr : x.Arrives frm h content (x.arrival frm content l) :=
    ⟨hserves.2, fun _ => ⟨hup, filled_fullReads content, fun f _ => rfl⟩⟩
  refine ⟨.handle x _ _ hstep harr, ⟨?_, ?_⟩, ?_, ?_⟩
  · rw [answer_got]
    exact hg.begun
  · rw [answer_σ, hw]
    exact hses
  · rwa [answer_σ, hw, hlist]
  · rw [Net.wanted, answer_got, Net.answer, hw, hdata]
    exact List.mem_append_right _ List.mem_cons_self

theorem accept_step (hopen : ¬x.Done) (hin : ((x.got.length + 1) % 65536, x.wanted content) ∈ x.down) :
    (lossyNet c frm h req content).step x (.take (x.wanted content)) (x.accept content) := by
  unfold Net.accept
  rw [if_neg hopen]
  exact .take x _ hopen hin

/-- The client acknowledges the block it has last, and the next one arrives. -/
theorem net_next (hfrm : frm ≠ .any) (hx : (lossyNet c frm h req content).Reachable x)
    (hg : x.Going frm h) (hopen : ¬x.Done) :
    ∃ ls x', (lossyNet c frm h req content).Run x ls x' ∧ x'.Going frm h ∧
      x'.got.length = x.got.length + 1 := by
  obtain ⟨l, hl, hserves⟩ := net_listener hx hg.begun
  have hasked := hx.step ask_step
  obtain ⟨hstep, hg₂, -, hin⟩ := answer_step (x := x.ask) hfrm hasked ⟨hg.begun, hg.session⟩ hl hserves
    (List.mem_append_right _ List.mem_cons_self)
  let x₂ : Net := x.ask.answer c frm content l
  have hopen₂ : ¬x₂.Done := (net_done_congr answer_got).not.mpr hopen
  have hmore : x₂.accept content = { x₂ with got := x₂.got ++ [x₂.wanted content] } := if_neg hopen₂
  refine ⟨_, x₂.accept content, .snoc (.snoc (.snoc (.nil x) ask_step) hstep) (accept_step hopen₂ hin), ?_, ?_⟩
  · rw [hmore]
    exact ⟨List.append_ne_nil_of_right_ne_nil _ (List.cons_ne_nil _ _), hg₂.session⟩
  · rw [hmore, answer_got, List.length_append, List.length_singleton]
    rfl

/-- The blocks that are missing arrive one after the other. -/
theorem net_completes (hlen : content.length < 65536 * tftpBlock) (hfrm : frm ≠ .any)
    (hx : (lossyNet c frm h req content).Reachable x) (hg : x.Going frm h) :
    ∃ ls x', (lossyNet c frm h req content).Run x ls x' ∧ x'.Done := by
  -- the induction is on the blocks that are missing
  induction hn : content.length / tftpBlock + 1 - x.got.length generalizing x with
  | zero =>
    by_cases hdone : x.Done
    · exact ⟨[], x, .nil x, hdone⟩
    obtain ⟨ls, x', hrun, -, hmore⟩ := net_next hfrm hx hg hdone
    have := (lossy_arrived hlen (hx.run hrun)).bound
    omega
  | succ n ih =>
    by_cases hdone : x.Done
    · exact ⟨[], x, .nil x, hdone⟩
    obtain ⟨ls, x', hrun, hg', hmore⟩ := net_next hfrm hx hg hdone
    obtain ⟨ls', x'', hrun', hend⟩ := ih (hx.run hrun) hg' (by omega)
    exact ⟨ls ++ ls', x'', hrun.append hrun', hend⟩

end

/-- **The client has the file, or a beginning of it**, whatever the network and
the other senders do. -/
theorem lossy_delivers (c : Conf) (frm : SockAddr) (h : HostId) (req : Pkt) (content : List UInt8)
    (hlen : content.length < 65536 * tftpBlock) (x : Net)
    (hx : (lossyNet c frm h req content).Reachable x) : x.Arrived content :=
  lossy_arrived hlen hx

/-! ## The request of the client of address 1 arrives twice -/

/-- A read request for the file `k`. -/
def reqK : Pkt := .ofBytes ([0, 1] ++ cstr "k" ++ [0])

/-- The client has sent its request, the daemon has handled it twice, and the
client has taken one of the two answers. -/
def askedTwice (content : List UInt8) : Net :=
  let e := readK (filled content)
  let σ₁ := bootSys.next plainConf e
  let σ₂ := σ₁.next plainConf e
  ⟨σ₂, [reqK], σ₁.w.dataTo ⟨1, 1024⟩ ++ σ₂.w.dataTo ⟨1, 1024⟩, [block tftpBlock 0 content]⟩

set_option maxRecDepth 4000 in
theorem askedTwice_reachable (content : List UInt8) :
    (lossyNet plainConf ⟨1, 1024⟩ 0 reqK content).Reachable (askedTwice content) := by
  let e := readK (filled content)
  let x₀ : Net := ⟨bootSys, [], [], []⟩
  let x₁ : Net := ⟨bootSys, [reqK], [], []⟩
  let σ₁ := bootSys.next plainConf e
  let x₂ : Net := ⟨σ₁, [reqK], σ₁.w.dataTo ⟨1, 1024⟩, []⟩
  let σ₂ := σ₁.next plainConf e
  let x₃ : Net := ⟨σ₂, [reqK], σ₁.w.dataTo ⟨1, 1024⟩ ++ σ₂.w.dataTo ⟨1, 1024⟩, []⟩
  have harr : ∀ x : Net, x.up = [reqK] → x.Arrives ⟨1, 1024⟩ 0 content e := by
    intro x hup
    refine ⟨.inl rfl, fun _ => ⟨by rw [hup]; exact List.mem_cons_self, fun k hk => ?_, fun f _ => rfl⟩⟩
    cases hk
    decide
  have h₀ : (lossyNet plainConf ⟨1, 1024⟩ 0 reqK content).init x₀ := by
    refine ⟨bootSys_reachable, rfl, rfl, fun s ses hs => ?_, rfl, rfl, rfl⟩
    cases hs
  have h₁ : (lossyNet plainConf ⟨1, 1024⟩ 0 reqK content).step x₀ (.send reqK) x₁ :=
    .send x₀ reqK (.inl rfl)
  have hnext : (daemon plainConf).step bootSys e σ₁ := daemon_next ⟨List.mem_cons_self, rfl⟩ rfl
  have h₂ : (lossyNet plainConf ⟨1, 1024⟩ 0 reqK content).step x₁ (.handle e) x₂ :=
    .handle x₁ e σ₁ hnext (harr x₁ rfl)
  -- the second request ends the session of the first, and there is no other host
  have hsafe : RrqSafe plainConf (filled content) σ₁.w 0 := by
    refine ⟨fun s hs => ?_, fun _ => rfl, [0], ⟨rfl, none, rfl, rfl⟩, fun q hq hne => ?_, fun q hq hne => ?_, ?_⟩
    · cases hs
      exact ⟨_, rfl⟩
    · exact absurd (List.mem_singleton.mp hq) hne
    · exact absurd (List.mem_singleton.mp hq) hne
    · exact List.nodup_nil
  have h₃ : (lossyNet plainConf ⟨1, 1024⟩ 0 reqK content).step x₂ (.handle e) x₃ := by
    obtain ⟨_, w', hr⟩ : Returns (e.handle plainConf) σ₁.w.start :=
      rrq_returns (bootSys_reachable.step hnext) rfl rfl (logged_rrq rfl (by decide)) hsafe
    refine .handle x₂ e σ₂ ⟨⟨List.mem_cons_self, rfl⟩, ?_, rfl⟩ (harr x₂ rfl)
    rw [sys_next_eq hr]
    exact hr
  have hin : ((x₃.got.length + 1) % 65536, block tftpBlock 0 content) ∈ x₃.down :=
    List.mem_append_left _ (List.mem_singleton.mpr rfl)
  have h₄ : (lossyNet plainConf ⟨1, 1024⟩ 0 reqK content).step x₃ (.take (block tftpBlock 0 content))
      { x₃ with got := x₃.got ++ [block tftpBlock 0 content] } :=
    .take x₃ (block tftpBlock 0 content) (fun ⟨d, hd, _⟩ => by cases hd) hin
  exact ((((LTS.reachable_init h₀).step h₁).step h₂).step h₃).step h₄

/-- The second answer does no harm. -/
theorem lossy_delivers_readK : (askedTwice [1, 2, 3]).Arrived [1, 2, 3] :=
  lossy_delivers plainConf ⟨1, 1024⟩ 0 reqK [1, 2, 3] (by decide) _ (askedTwice_reachable _)

/-- **The rest can still arrive**: whatever was lost, repeated or handled before,
while the client has its session the transfer can be brought to its end. -/
theorem lossy_completes (c : Conf) (frm : SockAddr) (h : HostId) (req : Pkt) (content : List UInt8)
    (hlen : content.length < 65536 * tftpBlock) (hfrm : frm ≠ .any) (x : Net)
    (hx : (lossyNet c frm h req content).Reachable x) (hg : x.Going frm h) :
    ∃ ls x', (lossyNet c frm h req content).Run x ls x' ∧ x'.Done ∧ x'.got.flatten = content := by
  obtain ⟨ls, x', hrun, hdone⟩ := net_completes hlen hfrm hx hg
  exact ⟨ls, x', hrun, hdone, (lossy_arrived hlen (hx.run hrun)).whole hdone⟩

/-- The second block of a file of 600 bytes can arrive. -/
theorem lossy_completes_readK : ∃ ls x', (lossyNet plainConf ⟨1, 1024⟩ 0 reqK (.replicate 600 7)).Run
    (askedTwice (.replicate 600 7)) ls x' ∧ x'.Done ∧ x'.got.flatten = .replicate 600 7 := by
  refine lossy_completes plainConf ⟨1, 1024⟩ 0 reqK (.replicate 600 7) ?_ (by decide) _
    (askedTwice_reachable _) ⟨List.cons_ne_nil _ _, ?_⟩
  · rw [List.length_replicate]
    decide
  · exact ⟨_, _, _, _, ⟨rfl, rfl, rfl, rfl⟩, rfl⟩

end Bootd
