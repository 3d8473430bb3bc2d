import Bootd.Bugs.FinalAck
import Bootd.Bugs.Leak

/-!
# Blocks leave through the listener the acknowledgment came in on

A read request makes a listener for the transfer and notes it in the session
(src/tftp.c:64, src/tftp.c:103), "for sending" (src/host.h:23). Only the first
block goes out there. `host_session_check` compares the service and the
client's port, not the listener, and the answer to an acknowledgment is sent
through the listener that this came in on (src/tftp.c:133-157).

Counterexample: the client acknowledges to port 69, and the next block leaves
from port 69 (`port_changes`).

* `Ported`, `daemon_ported`: in every reachable state, the listener of a TFTP
  session is the one that its read request made.
* `keeps_port_iff`: the packets on which the transfer keeps its port.
-/
namespace Bootd

open Bootd.Core Bootd.Core.Exec

/-- `l` is listed, or was made at some time. -/
def Made (H : List (List Io)) (w : World) (l : Listener) : Prop :=
  l ∈ w.listeners ∨ .listen l ∈ w.out ∨ ∃ ios ∈ H, .listen l ∈ ios

/-- Listeners are told apart by their ids, and that of a TFTP session was made
by the request that got the session. `H` are the traces of the earlier packets. -/
structure Ported (H : List (List Io)) (w : World) : Prop where
  bound : ∀ l, Made H w l → l.id < w.nextId
  inj : ∀ l l', Made H w l → Made H w l' → l.id = l'.id → l = l'
  session : ∀ s ses i, w.live s = some ses → ses.service = serviceTftp → ses.l = some i →
    ∃ l, l.id = i ∧ ListensFor (H ++ [w.out]) s l

/-- The client of a TFTP session sends an acknowledgment to another listener
than the session's. -/
inductive Ev.Strays (w : World) : Ev → Prop
  | ack (os : Os) (l : Listener) (frm loc : SockAddr) (pkt : Pkt) (h : HostId) (s : SessId)
      (ses : Session) : utilIp2host w frm.addr = .ok (some h) → pkt.tftpOp = .ack →
      w.sessionOf h = some s → w.live s = some ses → ses.service = serviceTftp →
      ses.sid = frm.port.toNat → ses.l ≠ some l.id → Strays w (.udp os l frm loc pkt)

/-- DATA goes through the listener of the client's session, which the read
request of this session made; and an acknowledgment that comes in on another
one is not answered with DATA. -/
structure KeepsPort (c : Conf) (σ : Sys) (e : Ev) : Prop where
  data : ∀ dl via pkt, .udp dl via pkt ∈ (σ.next c e).w.sends → opOf pkt = some .data →
    ∃ h s ses, e.host σ.w = .ok (some h) ∧ (σ.next c e).w.sessionOf h = some s ∧
      (σ.next c e).w.live s = some ses ∧ ses.l = some dl.id ∧ ListensFor (σ.next c e).hist s dl
  ack : e.Strays σ.w → NoData (σ.next c e).w

section
variable {c : Conf} {os : Os} {e : Ev} {l dl : Listener} {frm loc : SockAddr} {pkt : Pkt}
  {w w₁ w' : World} {h t : HostId} {host : Host} {f : File} {s : SessId} {L : List HostId}
  {nl : Option Listener} {es : List (HostId × SessId)} {H : List (List Io)} {svc : Nat} {sid : Int}
  {u : Unit} {σ : Sys}

/-! ## The listener of a session -/

/-- Nothing is made, and the sessions keep their listeners or got one now. -/
theorem Ported.mono (hp : Ported H w) (hn : w'.nextId = w.nextId)
    (hl : ∀ l ∈ w'.listeners, l ∈ w.listeners) (hsub : ∀ io ∈ w.out, io ∈ w'.out)
    (hlis : ∀ l, .listen l ∈ w'.out → .listen l ∈ w.out)
    (hs : ∀ s ses' i, w'.live s = some ses' → ses'.service = serviceTftp → ses'.l = some i →
      (∃ ses, w.live s = some ses ∧ ses.service = serviceTftp ∧ ses.l = some i) ∨
        ∃ l, l.id = i ∧ .listen l ∈ w'.out ∧ ∃ h, .start h s ∈ w'.out) : Ported H w' := by
  have hmade : ∀ l, Made H w' l → Made H w l := by
    rintro l (hm | hm | hm)
    · exact .inl (hl l hm)
    · exact .inr (.inl (hlis l hm))
    · exact .inr (.inr hm)
  refine ⟨fun l hm => hn ▸ hp.bound l (hmade l hm),
    fun l l' hm hm' => hp.inj l l' (hmade l hm) (hmade l' hm'), fun s ses' i hl' hsvc hi => ?_⟩
  rcases hs s ses' i hl' hsvc hi with ⟨ses, hlive, hsvc, hi⟩ | ⟨l, hid, hm, hst⟩
  · obtain ⟨l, hid, ios, hios, hm, h, hst⟩ := hp.session s ses i hlive hsvc hi
    refine ⟨l, hid, ?_⟩
    rcases List.mem_append.mp hios with hios | hios
    · exact ⟨ios, List.mem_append_left _ hios, hm, h, hst⟩
    · rw [List.mem_singleton.mp hios] at hm hst
      exact ⟨w'.out, List.mem_append_right _ (List.mem_singleton.mpr rfl), hsub _ hm, h, hsub _ hst⟩
  · exact ⟨l, hid, w'.out, List.mem_append_right _ (List.mem_singleton.mpr rfl), hm, hst⟩

/-- A trace that only adds what is no new listener. -/
theorem Ported.appends (hp : Ported H w) (ha : Appends (fun io => ∀ l, io ≠ .listen l) w w')
    (hn : w'.nextId = w.nextId) (hl : ∀ l ∈ w'.listeners, l ∈ w.listeners)
    (hs : ∀ s ses' i, w'.live s = some ses' → ses'.service = serviceTftp → ses'.l = some i →
      (∃ ses, w.live s = some ses ∧ ses.service = serviceTftp ∧ ses.l = some i) ∨
        ∃ l, l.id = i ∧ .listen l ∈ w'.out ∧ ∃ h, .start h s ∈ w'.out) : Ported H w' :=
  hp.mono hn hl (fun _ hio => ha.subset hio) (fun l hm => (ha.mem hm).resolve_right fun hne => hne l rfl) hs

theorem Ported.emits (hp : Ported H w) {ios : List Io} (hios : ∀ io ∈ ios, ∀ l, io ≠ .listen l) :
    Ported H (w.emits ios) :=
  hp.appends ⟨ios, rfl, hios⟩ rfl (fun _ hl => hl) fun _ ses _ hl hsvc hi => .inl ⟨ses, hl, hsvc, hi⟩

theorem Ported.ends (hp : Ported H w) (hd : Descriptors w) (he : Ends es w w') : Ported H w' := by
  refine hp.appends (hd.ends_appends he fun _ _ _ => by simp) he.frame.nextId he.frame.listeners ?_
  exact fun s ses i hl hsvc hi => .inl ⟨ses, he.live_of hl, hsvc, hi⟩

/-- What there is after a listener was made. -/
theorem made_new {v : World} {k : Listener} (hl : ∀ k ∈ v.listeners, k ∈ w.listeners ∨ k = l)
    (ho : v.out = w.out ++ [.listen l]) (hm : Made H v k) : k = l ∨ Made H w k := by
  rcases hm with hm | hm | hm
  · rcases hl k hm with hm | rfl
    · exact .inr (.inl hm)
    · exact .inl rfl
  · rw [ho] at hm
    rcases List.mem_append.mp hm with hm | hm
    · exact .inr (.inr (.inl hm))
    · cases List.mem_singleton.mp hm
      exact .inl rfl
  · exact .inr (.inr (.inr hm))

theorem Ported.newListener {dst : SockAddr} (hp : Ported H w) (hn : NewListener os dst w nl w') :
    Ported H w' := by
  cases hn with
  | failed => exact hp
  | created l _ hid =>
    have hmade : ∀ k, Made H _ k → k = l ∨ Made H w k := fun k =>
      made_new (v := { w with
        nextId := w.nextId + 1
        fds := Slots.put w.fds .socket
        listeners := if w.listeners.any (·.fd == l.fd) then w.listeners else w.listeners ++ [l]
        out := w.out ++ [.listen l] }) (fun k hk => by
          simp only at hk
          split at hk
          · exact .inl hk
          · exact (List.mem_append.mp hk).imp_right List.mem_singleton.mp) rfl
    refine ⟨fun k hm => ?_, fun k k' hm hm' hk => ?_, fun s ses i hl hsvc hi => ?_⟩
    · rcases hmade k hm with rfl | hm
      · exact hid ▸ Nat.lt_succ_self _
      · exact (hp.bound k hm).trans (Nat.lt_succ_self _)
    · rcases hmade k hm with e | hk₁ <;> rcases hmade k' hm' with e' | hk₂
      · rw [e, e']
      · have hlt := hp.bound k' hk₂
        rw [← hk, e, hid] at hlt
        exact absurd hlt (Nat.lt_irrefl _)
      · have hlt := hp.bound k hk₁
        rw [hk, e', hid] at hlt
        exact absurd hlt (Nat.lt_irrefl _)
      · exact hp.inj k k' hk₁ hk₂ hk
    · obtain ⟨k, hk, ios, hios, hm, h, hst⟩ := hp.session s ses i hl hsvc hi
      refine ⟨k, hk, ?_⟩
      rcases List.mem_append.mp hios with hios | hios
      · exact ⟨ios, List.mem_append_left _ hios, hm, h, hst⟩
      · rw [List.mem_singleton.mp hios] at hm hst
        exact ⟨_, List.mem_append_right _ (List.mem_singleton.mpr rfl), List.mem_append_left _ hm, h,
          List.mem_append_left _ hst⟩

theorem not_listen_of_packet {io : Io} (hp : io.isPacket = true) (l : Listener) : io ≠ .listen l := by
  rintro rfl
  cases hp

/-- A session of another service. -/
theorem Ported.granting (hp : Ported H w) (hsvc : svc ≠ serviceTftp)
    (hg : Granting c os svc sid h f w w') : Ported H w' := by
  cases hg with
  | busy ios _ hplain => exact hp.emits fun io hio => not_listen_of_packet (hplain io hio).1
  | failed ses err ios _ hses _ hplain =>
    subst hses
    refine Ported.emits ?_ fun io hio => not_listen_of_packet (hplain io hio).1
    refine hp.appends ⟨[.start h w.sessions.length, .openFile h w.sessions.length f.path none],
      by simp, by simp⟩ rfl (fun _ hl => hl) fun s ses i hl hs hi => ?_
    have hl := (live_failed w h _ f.path s).symm.trans hl
    split at hl
    · cases hl
      exact absurd hs hsvc
    · exact .inl ⟨ses, hl, hs, hi⟩
  | opened ses d g ios w₁ _ hses _ hkeep hw hreads =>
    subst hw hses
    refine Ported.emits ?_ fun io hio => not_listen_of_packet (hreads io hio).1
    refine hp.appends ⟨[.start h w.sessions.length, .openFile h w.sessions.length f.path (some w.freeFd)],
      by simp, by simp⟩ rfl (fun _ hl => hl) fun s ses i hl hs hi => ?_
    have hl := (live_granted w h _ f.path d g s).symm.trans hl
    split at hl
    · cases hl
      exact absurd ((hkeep _).2.1.symm.trans hs) hsvc
    · exact .inl ⟨ses, hl, hs, hi⟩

/-- The sessions after a granted read request. -/
theorem live_attached (w : World) (h : HostId) (os : Os) (path : Option CStr) (d : List UInt8)
    (nl : Option Listener) (t : SessId) :
    (((w.startSession h (.fresh serviceTftp sid os.now)).opened h w.sessions.length path d).attach
      w.sessions.length sid nl).live t =
      if t = w.sessions.length then
        some { (Session.fresh serviceTftp sid os.now).setBfFd w.freeFd with sid := sid, l := nl.map Listener.id }
      else w.live t :=
  live_granted w h (.fresh serviceTftp sid os.now) path d
    (fun ses => { ses with sid := sid, l := nl.map Listener.id }) t

theorem Ported.granted (hp : Ported H w) (hnl : ∀ dl, nl = some dl → .listen dl ∈ w.out)
    (hg : Granted c os l frm h f nl w.sessions.length
      (w.startSession h (.fresh serviceTftp frm.port.toNat os.now)) w') : Ported H w' := by
  have hattach : ∀ d, Ported H (((w.startSession h (.fresh serviceTftp frm.port.toNat os.now)).opened h
      w.sessions.length f.path d).attach w.sessions.length frm.port.toNat nl) := by
    intro d
    refine hp.appends ⟨[.start h w.sessions.length, .openFile h w.sessions.length f.path (some w.freeFd)],
      by simp, by simp⟩ rfl (fun _ hl => hl) fun s ses i hl hs hi => ?_
    have hl := (live_attached w h os f.path d nl s).symm.trans hl
    split at hl
    · rename_i hst
      cases hl
      obtain ⟨dl, rfl, rfl⟩ := Option.map_eq_some_iff.mp hi
      refine .inr ⟨dl, rfl, by simp [hnl dl rfl], h, by simp [hst]⟩
    · exact .inl ⟨ses, hl, hs, hi⟩
  cases hg with
  | openFailed err ho =>
    refine Ported.emits ?_ (by simp [errorIo])
    refine hp.appends ⟨[.start h w.sessions.length, .openFile h w.sessions.length f.path none],
      by simp, by simp⟩ rfl (fun _ hl => hl) fun s ses i hl hs hi => ?_
    have hl := (live_failed w h _ f.path s).symm.trans hl
    split at hl
    · cases hl
      cases hi
    · exact .inl ⟨ses, hl, hs, hi⟩
  | noListener d ho hn =>
    subst hn
    exact (hattach d).emits (by simp [errorIo])
  | sent d dl ses ho hn _ =>
    refine (hattach d).emits fun io hio => ?_
    simp only [blockIos, List.mem_append, List.mem_singleton] at hio
    rcases hio with hio | rfl
    · split at hio
      · rw [List.mem_singleton.mp hio]
        simp [errorIo]
      · cases hio
    · simp

/-- A read request. -/
theorem Ported.rrq (hp : Ported H w) (hd : Descriptors w)
    (hr : tftpRrq c os l frm loc h f w = .ok u w') : Ported H w' := by
  obtain ⟨es, w₁, nl, w₂, ps, w₃, he, -, hnl, -, -, he', -, -, hcase⟩ := tftpRrq_ok hr
  have hd₁ : Descriptors w₁ := (hd.ends he).2.2.2.descriptors (hd.ends he).2.1 hd
  have hd₂ := (hd₁.newListener hnl).1
  have hp₃ := ((hp.ends hd he).newListener hnl).ends hd₂ he'
  rcases hcase with ⟨-, rfl⟩ | ⟨-, hg⟩
  · exact hp₃.emits (by simp [errorIo])
  · refine hp₃.granted (fun dl hdl => ?_) hg
    subst hdl
    rw [(hd₂.ends he').2.2.1]
    refine List.mem_append_left _ ?_
    cases hnl
    exact List.mem_append_right _ (List.mem_singleton.mpr rfl)

theorem Ported.touch (hp : Ported H w) (now : Int) : Ported H (w.touch s now) := by
  refine hp.appends (.of_eq rfl) rfl (fun _ hl => hl) fun t ses i hl hs hi => .inl ?_
  rw [World.live, World.touch_sessions, Slots.get_update] at hl
  split at hl
  · obtain ⟨ses, hses, rfl⟩ := Option.map_eq_some_iff.mp hl
    exact ⟨ses, hses, hs, hi⟩
  · exact ⟨ses, hl, hs, hi⟩

theorem blockIos_not_listen {n : Nat} {data : Option (List UInt8)} :
    ∀ io ∈ blockIos c os l dl frm n data, ∀ k, io ≠ .listen k := by
  intro io hio
  refine not_listen_of_packet ?_
  simp only [blockIos, List.mem_append, List.mem_singleton] at hio
  rcases hio with hio | rfl
  · split at hio
    · rw [List.mem_singleton.mp hio]
      rfl
    · cases hio
  · rfl

/-- A datagram. -/
theorem Ported.tftp (hp : Ported H w) (hd : Descriptors w)
    (hr : tftpHandler c os l frm loc pkt w = .ok u w') : Ported H w' := by
  have herror : ∀ err msg, Ported H (w.emits [errorIo l frm err msg]) := fun err msg =>
    hp.emits (by simp [errorIo])
  rcases tftpHandler_ok hr with ⟨-, rfl⟩ | ⟨h, host, -, -, ⟨-, rfl⟩ | ⟨-, hrun⟩⟩
  · exact herror _ _
  · exact herror _ _
  unfold tftpDispatch at hrun
  cases hop : pkt.tftpOp with
  | rrq =>
    simp only [hop] at hrun
    cases hf : tftpFile host pkt with
    | none =>
      simp only [hf, tftpSendError_ok] at hrun
      rw [← hrun]
      exact herror _ _
    | some f =>
      simp only [hf] at hrun
      exact hp.rrq hd hrun
  | wrq | data =>
    simp only [hop, tftpSendError_ok] at hrun
    rw [← hrun]
    exact herror _ _
  | ack =>
    simp only [hop] at hrun
    rcases tftpAck_ok hrun with ⟨s, ses, -, -, -, -, rfl⟩ | ⟨-, rfl⟩ | rfl
    · exact (hp.touch os.now).emits blockIos_not_listen
    · exact hp
    · exact herror _ _
  | error | unknown n =>
    simp only [hop, pure_ok] at hrun
    rw [← hrun.2]
    exact hp

/-- A frame. -/
theorem Ported.link {p : Pkt} (hp : Ported H w) (hok : HostsOk w L) (hd : Descriptors w)
    (hr : (Ev.link os l p).handle c w = .ok u w') : Ported H w' := by
  rcases handle_ok hr with ⟨ios, hplain, rfl⟩ | ⟨t, h, w₁, host, ha, -, hs⟩
  · exact hp.emits fun io hio => not_listen_of_packet (hplain io hio).1
  obtain ⟨hc₁, hl₁, ho₁⟩ := ha.carried hok
  have hd₁ := hc₁.descriptors hl₁ hd
  have hp₁ : Ported H w₁ := by
    cases ha with
    | known => exact hp
    | cloned os l p t tmpl h b w' hhost hcl htm hadd =>
      obtain ⟨-, hf, -⟩ := clone_ok hok (Ev.host_mem hok hhost) htm hadd
      refine hp.appends (.of_eq hf.out) hf.nextId (fun k hk => hf.listeners ▸ hk) fun s ses i hl hs hi => ?_
      rw [World.live, hf.sessions] at hl
      exact .inl ⟨ses, hl, hs, hi⟩
  cases hs with
  | plain ios _ hplain => exact hp₁.emits fun io hio => not_listen_of_packet (hplain io hio).1
  | answer s ses ios _ _ _ _ hreads =>
    exact (hp₁.touch _).emits fun io hio => not_listen_of_packet (hreads io hio).1
  | done es w' _ _ he => exact hp₁.ends hd₁ he
  | request f nl w₀ ps w₃ w' _ hpre _ _ he _ _ hg _ =>
    cases hpre with
    | rmp =>
      have hp₀ : Ported H w₁.nextSid :=
        hp₁.appends (.of_eq rfl) rfl (fun _ hl => hl) fun s ses i hl hs hi => .inl ⟨ses, hl, hs, hi⟩
      have hd₀ : Descriptors w₁.nextSid := (Carried.of_eq rfl rfl rfl : Carried w₁ w₁.nextSid).descriptors rfl hd₁
      exact (hp₀.ends hd₀ he).granting (show serviceRmp ≠ serviceTftp by decide) hg

/-- The trace of a packet becomes history. -/
theorem Ported.next (hp : Ported H w) : Ported (H ++ [w.out]) w.start := by
  have hmade : ∀ l, Made (H ++ [w.out]) w.start l → Made H w l := by
    rintro l (hm | hm | ⟨ios, hios, hm⟩)
    · exact .inl hm
    · cases hm
    · rcases List.mem_append.mp hios with hios | hios
      · exact .inr (.inr ⟨ios, hios, hm⟩)
      · exact .inr (.inl (List.mem_singleton.mp hios ▸ hm))
  refine ⟨fun l hm => hp.bound l (hmade l hm), fun l l' hm hm' => hp.inj l l' (hmade l hm) (hmade l' hm'),
    fun s ses i hl hs hi => ?_⟩
  obtain ⟨l, hid, ios, hios, hm⟩ := hp.session s ses i hl hs hi
  exact ⟨l, hid, ios, List.mem_append_left _ hios, hm⟩

/-- **The listener of a TFTP session is the one its read request made.** -/
theorem daemon_ported (σ : Sys) (hr : (daemon c).Reachable σ) : Ported σ.hist σ.w.start := by
  have hind : (daemon c).Inductive fun σ =>
      ((∃ L, HostsOk σ.w L) ∧ Descriptors σ.w) ∧ Ported σ.hist σ.w.start := by
    refine ⟨fun σ h => ⟨⟨boot_hostsOk h.1, boot_descriptors h.1⟩, ?_⟩, fun σ e σ' hi hs => ?_⟩
    · have hmade : ∀ l, Made σ.hist σ.w.start l → l ∈ σ.w.listeners := by
        rintro l (hm | hm | ⟨ios, hios, -⟩)
        · exact hm
        · cases hm
        · rw [h.2] at hios; cases hios
      refine ⟨fun l hm => (h.1.listeners l (hmade l hm)).1, fun l l' hm hm' he => ?_, fun s ses i hl => ?_⟩
      · exact List.inj_on_of_nodup_map h.1.ids (hmade l hm) (hmade l' hm') he
      · have hnone : σ.w.live s = none := by
          rw [World.live, h.1.sessions]
          rfl
        cases hnone.symm.trans hl
    · obtain ⟨⟨⟨L, hok⟩, hd⟩, hp⟩ := hi
      refine ⟨⟨handle_hostsOk hok.start hs.2.1, (handle_carried hok.start hd.start hs.2.1).1⟩, ?_⟩
      rw [hs.2.2]
      refine Ported.next ?_
      cases e with
      | udp os l frm loc pkt => exact hp.tftp hd.start hs.2.1
      | link os l p => exact hp.link hok.start hd.start hs.2.1
  exact (hind.reachable σ hr).2

/-! ## What is sent -/

/-- The DATA packet of a block. -/
theorem blockIos_data {n : Nat} {data : Option (List UInt8)} {dl' : Listener} {via : Via}
    {bs : List UInt8} (hm : .udp dl' via bs ∈ blockIos c os l dl frm n data)
    (hop : opOf bs = some .data) : dl' = dl := by
  rcases List.mem_append.mp hm with hm | hm
  · split at hm
    · cases List.mem_singleton.mp hm
      rw [opOf_error] at hop
      cases hop
    · cases hm
  · cases List.mem_singleton.mp hm
    rfl

theorem mem_sends {io : Io} : io ∈ w.sends ↔ io ∈ w.out ∧ io.isSend = true := List.mem_filter

/-- DATA after a read request goes out on the listener that was made. -/
theorem rrq_data {via : Via} {bs : List UInt8} (hd : Descriptors w) (hout : w.out = [])
    (hr : tftpRrq c os l frm loc h f w = .ok u w') (hm : .udp dl via bs ∈ w'.sends)
    (hop : opOf bs = some .data) :
    ∃ s ses, w'.sessionOf h = some s ∧ w'.live s = some ses ∧ ses.l = some dl.id ∧
      ListensFor (H ++ [w'.out]) s dl := by
  obtain ⟨es, w₁, nl, w₂, ps, w₃, he, -, hnl, -, -, he', hlt, -, hcase⟩ := tftpRrq_ok hr
  have hends := hd.ends he
  have hd₁ : Descriptors w₁ := hends.2.2.2.descriptors hends.2.1 hd
  have ha : Appends (fun io => io.isSend = false) w w₃ := by
    refine (hd.ends_appends he fun _ _ => rfl).trans (Appends.trans ?_
      ((hd₁.newListener hnl).1.ends_appends he' fun _ _ => rfl))
    cases hnl with
    | failed => exact .of_eq rfl
    | created dl => exact ⟨[.listen dl], rfl, by simp [Io.isSend]⟩
  have hquiet : .udp dl via bs ∉ w₃.out := by
    intro hio
    rcases ha.mem hio with hio | hio
    · rw [hout] at hio; cases hio
    · cases hio
  obtain ⟨hm, -⟩ := mem_sends.mp hm
  rcases hcase with ⟨-, rfl⟩ | ⟨-, hg⟩
  · rcases List.mem_append.mp hm with hm | hm
    · exact absurd hm hquiet
    · cases List.mem_singleton.mp hm
      rw [opOf_error] at hop
      cases hop
  cases hg with
  | openFailed err ho =>
    simp only [World.emits_out, World.openFailed_out, World.startSession_out, List.mem_append,
      List.mem_singleton, hquiet, reduceCtorEq, false_or] at hm
    cases hm
    rw [opOf_error] at hop
    cases hop
  | noListener d ho hn =>
    simp only [World.emits_out, World.attach_out, World.opened_out, World.startSession_out,
      List.mem_append, List.mem_singleton, hquiet, reduceCtorEq, false_or] at hm
    cases hm
    rw [opOf_error] at hop
    cases hop
  | sent d nl' ses ho hn hl =>
    subst hn
    simp only [World.emits_out, World.attach_out, World.opened_out, World.startSession_out,
      List.mem_append, List.mem_singleton, hquiet, reduceCtorEq, false_or] at hm
    cases blockIos_data hm hop
    have hses := hl.symm.trans ((live_attached w₃ h os f.path d (some dl) _).trans (if_pos rfl))
    cases hses
    refine ⟨w₃.sessions.length, _,
      (live_opened (.fresh serviceTftp frm.port.toNat os.now) f.path d hlt).1, hl, rfl, _,
      List.mem_append_right _ (List.mem_singleton.mpr rfl), ?_, h, by simp⟩
    have hlisten : .listen dl ∈ w₃.out := by
      rw [((hd₁.newListener hnl).1.ends he').2.2.1]
      refine List.mem_append_left _ ?_
      cases hnl
      exact List.mem_append_right _ (List.mem_singleton.mpr rfl)
    simp [hlisten]

/-- The link level sends no datagrams. -/
theorem link_no_udp {p : Pkt} {via : Via} {bs : List UInt8} (hout : w.out = [])
    (hr : (Ev.link os l p).handle c w = .ok u w') : .udp dl via bs ∉ w'.out := by
  have hw : w.start = w := by
    rw [World.start, ← hout]
  have hall : ∀ io ∈ traceOf ((Ev.link os l p).handle c) w, ∀ dl via bs, io ≠ .udp dl via bs := by
    have hadmin : ∀ io : Io, io.isAdmin = true → ∀ dl via bs, io ≠ .udp dl via bs := by
      rintro io hio dl via bs rfl
      cases hio
    show ∀ io ∈ traceOf (linkCallback c os l p) w, _
    unfold linkCallback
    split
    · exact (rarpHandler_emits (by simp) (by simp)).trace w
    · split
      · exact rmpHandler_trace w hadmin (by simp) (by simp)
      · exact (Emits.pure ()).trace w
  rw [traceOf, hw, Exec.final, hr] at hall
  exact fun hio => hall _ hio dl via bs rfl

/-- A packet that is handled, and does not stray. -/
theorem handle_data {via : Via} {bs : List UInt8} (hok : HostsOk w L) (hd : Descriptors w)
    (hp : Ported H w) (hout : w.out = []) (he : e.Enabled w) (hr : e.handle c w = .ok u w')
    (hno : ¬e.Strays w) (hm : .udp dl via bs ∈ w'.sends) (hop : opOf bs = some .data) :
    ∃ h s ses, e.host w = .ok (some h) ∧ w'.sessionOf h = some s ∧ w'.live s = some ses ∧
      ses.l = some dl.id ∧ ListensFor (H ++ [w'.out]) s dl := by
  cases e with
  | link os l p => exact absurd (mem_sends.mp hm).1 (link_no_udp hout hr)
  | udp os l frm loc pkt =>
    have hempty : ∀ io, io ∉ w.out := fun io hio => by rw [hout] at hio; cases hio
    have herror : ∀ err msg, .udp dl via bs ∉ (w.emits [errorIo l frm err msg]).sends := by
      intro err msg hm
      rcases List.mem_append.mp (mem_sends.mp hm).1 with hm | hm
      · exact hempty _ hm
      · cases List.mem_singleton.mp hm
        rw [opOf_error] at hop
        cases hop
    have hr : tftpHandler c os l frm loc pkt w = .ok u w' := hr
    rcases tftpHandler_ok hr with ⟨-, rfl⟩ | ⟨h, host, hk, hh, ⟨-, rfl⟩ | ⟨-, hrun⟩⟩
    · exact absurd hm (herror _ _)
    · exact absurd hm (herror _ _)
    refine ⟨h, ?_⟩
    unfold tftpDispatch at hrun
    cases hpkt : pkt.tftpOp with
    | rrq =>
      simp only [hpkt] at hrun
      cases hf : tftpFile host pkt with
      | none =>
        simp only [hf, tftpSendError_ok] at hrun
        subst hrun
        exact absurd hm (herror _ _)
      | some f =>
        simp only [hf] at hrun
        obtain ⟨s, ses, hrest⟩ := rrq_data (H := H) hd hout hrun hm hop
        exact ⟨s, ses, hk, hrest⟩
    | wrq | data =>
      simp only [hpkt, tftpSendError_ok] at hrun
      subst hrun
      exact absurd hm (herror _ _)
    | ack =>
      simp only [hpkt] at hrun
      rcases tftpAck_ok hrun with ⟨s, ses, hs, hl, hsvc, hsid, rfl⟩ | ⟨-, rfl⟩ | rfl
      · have hio := (List.mem_append.mp (mem_sends.mp hm).1).resolve_left (hempty _)
        cases blockIos_data hio hop
        -- the acknowledgment came in on the session's listener
        have hlis : ses.l = some dl.id := by
          by_contra hne
          exact hno (.ack os dl frm loc pkt h s ses hk hpkt hs hl hsvc hsid hne)
        obtain ⟨l, hid, ios, hios, hm', hst⟩ := hp.session s ses dl.id hl hsvc hlis
        rw [hout] at hios
        have hios : ios ∈ H := by
          rcases List.mem_append.mp hios with hios | hios
          · exact hios
          · rw [List.mem_singleton.mp hios] at hm'
            cases hm'
        have hsame : l = dl := hp.inj l dl (.inr (.inr ⟨ios, hios, hm'⟩)) (.inl he.1) hid
        subst hsame
        exact ⟨s, _, hk, hs, live_touch os.now hl, hlis, ios, List.mem_append_left _ hios, hm', hst⟩
      · exact absurd (mem_sends.mp hm).1 (hempty _)
      · exact absurd hm (herror _ _)
    | error | unknown n =>
      simp only [hpkt, pure_ok] at hrun
      rw [← hrun.2] at hm
      exact absurd (mem_sends.mp hm).1 (hempty _)

/-- An acknowledgment that strays is answered all the same. -/
theorem strays_answered (hr : (daemon c).Reachable σ) (hs : e.Strays σ.w) :
    ¬NoData (σ.next c e).w := by
  obtain ⟨os, l, frm, loc, pkt, h, s, ses, hk, hop, hs, hl, hsvc, hsid, -⟩ := hs
  obtain ⟨host, hh, -⟩ := sessionOf_some.mp hs
  have hallowed : host.service &&& serviceTftp ≠ 0 :=
    hsvc ▸ (daemon_inService σ hr).service h s ses host hs hl hh
  have hrun : (Ev.udp os l frm loc pkt).handle c σ.w.start =
      .ok () ((σ.w.start.touch s os.now).emits (blockIos c os l l frm (pkt.tftpN + 1)
        (utilRead σ.w.start os ses.bfFd tftpBlock (pkt.tftpN * tftpBlock : Nat)))) := by
    show tftpHandler c os l frm loc pkt σ.w.start = _
    rw [tftpHandler_run (w := σ.w.start) (logged_ack hop) hk hh hallowed, tftpDispatch]
    simp only [hop]
    exact tftpAck_run (w := σ.w.start) c os l loc pkt.tftpN hs hl hsvc hsid
  rw [sys_next_eq hrun]
  exact block_data (ack_sends rfl)

end

/-- **When a transfer keeps its server port**: at every packet of every run,
exactly if that is no acknowledgment that strays. -/
theorem keeps_port_iff (c : Conf) (σ : Sys) (hr : (daemon c).Reachable σ) (e : Ev)
    (he : e.Enabled σ.w) : KeepsPort c σ e ↔ ¬e.Strays σ.w := by
  refine ⟨fun hkeeps hs => ?_, fun hno => ⟨fun dl via pkt hm hop => ?_, fun hs => absurd hs hno⟩⟩
  · exact strays_answered hr hs (hkeeps.ack hs)
  · obtain ⟨L, hok⟩ := daemon_hostsOk σ hr
    by_cases hret : Returns (e.handle c) σ.w.start
    · obtain ⟨u, w', hrun⟩ := hret
      have hnext : (σ.next c e).hist = σ.hist ++ [w'.out] := by
        rw [← sys_next_eq hrun]
        rfl
      rw [hnext]
      rw [sys_next_eq hrun] at hm ⊢
      have hno' : ¬e.Strays σ.w.start := by
        rintro ⟨os, l, frm, loc, pkt, h, s, ses, hk, hop, hs, hl, hsvc, hsid, hne⟩
        exact hno (.ack os l frm loc pkt h s ses hk hop hs hl hsvc hsid hne)
      have he' : e.Enabled σ.w.start := by cases e <;> exact he
      obtain ⟨h, s, ses, hh, hrest⟩ := handle_data hok.start (daemon_descriptors σ hr).start
        (daemon_ported σ hr) rfl he' hrun hno' hm hop
      refine ⟨h, s, ses, ?_, hrest⟩
      cases e <;> exact hh
    · rw [next_faults hret] at hm
      cases hm

/-- The client of address 1, once it reads the file `k`, acknowledges to port 69. -/
theorem ackK_strays : (ackK 1).Strays reading.w :=
  .ack _ _ _ _ _ 0 0 _ rfl (by decide) rfl rfl rfl rfl (show some 2 ≠ some 0 by decide)

/-- A read request is no acknowledgment. -/
theorem readK_keeps_port : KeepsPort plainConf bootSys (readK plainOs) := by
  refine (keeps_port_iff plainConf bootSys bootSys_reachable (readK plainOs)
    ⟨List.mem_cons_self, rfl⟩).mpr fun h => ?_
  cases h with
  | ack _ _ _ _ _ _ _ _ _ hop => exact absurd hop (by decide)

/-- **Counterexample**: the client acknowledges the first block to port 69, and
the second block comes from port 69. -/
theorem port_changes : ¬ ∀ (c : Conf) (σ : Sys) (e : Ev), (daemon c).Reachable σ → e.Enabled σ.w →
    KeepsPort c σ e := by
  intro hall
  have he : (ackK 1).Enabled reading.w := ⟨List.mem_cons_self, rfl⟩
  have hkeeps := hall plainConf reading (ackK 1) reading_reachable he
  exact strays_answered reading_reachable ackK_strays (hkeeps.ack ackK_strays)

end Bootd
