import Bootd.L4Daemon.Request
import Bootd.L4Daemon.Returns

/-!
# When the TFTP handler returns

Every packet is logged first, which a long request or error does not survive
where a store behind a static buffer is noticed. A read request then ends the
host's session, registers its listener and has `host_session_add` go over all
sessions; the other requests follow at most the host's own session.

* `tftpRrq_returns`, `tftpAck_returns`, `tftpHandler_returns`: the packets on
  which the handler comes back, from the memory before the packet.
-/
namespace Bootd

open Bootd.Core Bootd.Core.Exec

/-- The sessions of the hosts `ps` can be gone through once that of `h` is
ended: none of them has it, they are allocated, and none ends twice. -/
structure OthersSafe (c : Conf) (os : Os) (w : World) (h : HostId) (ps : List HostId) : Prop where
  apart : ∀ q ∈ ps, q ≠ h → ∀ s, w.sessionOf q = some s → w.sessionOf h ≠ some s
  live : ∀ q ∈ ps, q ≠ h → ∀ s, w.sessionOf q = some s → ∃ ses, w.live s = some ses
  once : (((ps.filter (· ≠ h)).filterMap (w.idle c os)).map Prod.snd).Nodup

/-- A read request of `h` for a configured file gets through. -/
structure RrqSafe (c : Conf) (os : Os) (w : World) (h : HostId) : Prop where
  own : w.OwnLive h
  listener : os.socket = true → os.nullStore = true
  others : ∃ ps, Chain.Path w.next w.gHosts ps none ∧ OthersSafe c os w h ps

/-- The daemon survives the datagram. -/
def TftpSafe (c : Conf) (os : Os) (frm : SockAddr) (pkt : Pkt) (w : World) : Prop :=
  Logged os pkt ∧
  match utilIp2host w frm.addr with
  | .error _ => False
  | .ok none => True
  | .ok (some h) => ∀ host, w.hosts[h]? = some host → host.service &&& serviceTftp ≠ 0 →
      match pkt.tftpOp with
      | .rrq => tftpFile host pkt ≠ none → RrqSafe c os w h
      | .ack => w.OwnLive h
      | _ => True

section
variable {c : Conf} {os : Os} {l : Listener} {frm loc : SockAddr} {pkt : Pkt} {w w₁ w₂ w' : World}
  {h : HostId} {f : File} {nl : Option Listener} {ps L : List HostId}

/-- What was sent before does not matter. -/
theorem RrqSafe.setOut (ios : List Io) (hs : RrqSafe c os w h) : RrqSafe c os { w with out := ios } h := by
  obtain ⟨hown, hnull, ps, hpath, hapart, hlive, honce⟩ := hs
  exact ⟨hown, hnull, ps, hpath, hapart, hlive, honce⟩

theorem rrqSafe_start : RrqSafe c os w.start h ↔ RrqSafe c os w h :=
  ⟨fun hs => hs.setOut w.out, fun hs => hs.setOut []⟩

theorem tftpSafe_start : TftpSafe c os frm pkt w.start ↔ TftpSafe c os frm pkt w := by
  have hk : utilIp2host w.start frm.addr = utilIp2host w frm.addr := rfl
  unfold TftpSafe
  rw [hk]
  refine and_congr_right fun _ => ?_
  cases utilIp2host w frm.addr with
  | error => exact Iff.rfl
  | ok o =>
    cases o with
    | none => exact Iff.rfl
    | some h =>
      simp only [rrqSafe_start]
      exact Iff.rfl

/-! ## After the prelude -/

/-- The host has lost its session, and the others have kept theirs. -/
theorem Prelude.sessionOf (hpre : Prelude h w (.udp os l frm loc pkt) nl w') (q : HostId) :
    w'.sessionOf q = if q = h then none else w.sessionOf q := by
  cases hpre with
  | tftp _ _ _ _ _ es w₁ nl w₂ he hown hnl =>
    have hnls : w'.sessionOf q = w₁.sessionOf q := by cases hnl <;> rfl
    rw [hnls]
    rcases he.sessionOf_or q with e | ⟨e, s, hs, hm⟩
    · rw [e]
      split
      · rename_i hq
        subst hq
        rcases hown with ⟨hn, -⟩ | ⟨s, hs, rfl⟩
        · exact hn
        · rw [← e]
          exact (he.mem (List.mem_singleton.mpr rfl)).2.2.1
      · rfl
    · rw [e]
      rcases hown with ⟨-, rfl⟩ | ⟨t, -, rfl⟩
      · cases hm
      · cases List.mem_singleton.mp hm
        rw [if_pos rfl]

/-- Only the host's session was freed. -/
theorem Prelude.live (hpre : Prelude h w (.udp os l frm loc pkt) nl w') (t : SessId) :
    w'.live t = if w.sessionOf h = some t then none else w.live t := by
  cases hpre with
  | tftp _ _ _ _ _ es w₁ nl w₂ he hown hnl =>
    have hnls : w'.live t = w₁.live t := by cases hnl <;> rfl
    rw [hnls]
    rcases hown with ⟨hn, rfl⟩ | ⟨s, hs, rfl⟩
    · rw [he.eq_of_nil, hn, if_neg (by simp)]
    · rw [hs]
      split
      · rename_i ht
        cases ht
        exact (he.mem (List.mem_singleton.mpr rfl)).2.2.2
      · rename_i ht
        rcases he.live_or t with e | ⟨-, q, hm⟩
        · exact e
        · cases List.mem_singleton.mp hm
          exact absurd rfl ht

/-- What `host_session_add` finds, in terms of the memory before the packet. -/
theorem prelude_sweepSafe (hpre : Prelude h w (.udp os l frm loc pkt) nl w')
    (hpath : Chain.Path w.next w.gHosts ps none) :
    SweepSafe c os w' h ↔ OthersSafe c os w h ps := by
  have hsame := SameHosts.prelude hpre
  have hpath' : Chain.Path w'.next w'.gHosts ps none := by
    rw [hsame.gHosts]
    exact hpath.congr fun a _ => hsame.next a
  have hown : w'.sessionOf h = none := by rw [hpre.sessionOf, if_pos rfl]
  have hother : ∀ q ≠ h, w'.sessionOf q = w.sessionOf q := fun q hq => by
    rw [hpre.sessionOf, if_neg hq]
  have hidle : ∀ qs, (∀ q ∈ qs, q ≠ h → ∀ s, w.sessionOf q = some s → w.sessionOf h ≠ some s) →
      (w'.replaced c os qs h) = (qs.filter (· ≠ h)).filterMap (w.idle c os) := by
    intro qs hapart
    have hnone : w'.idle c os h = none := by rw [World.idle, hown]; rfl
    rw [World.replaced, hown, if_neg (by simp [hnone]), List.filterMap_filter]
    refine (List.append_nil _).trans (List.filterMap_congr fun q hq => ?_)
    by_cases hqh : q = h
    · subst hqh
      simp [hnone]
    · rw [if_pos (by simpa using hqh), World.idle, World.idle, hother q hqh]
      cases hs : w.sessionOf q with
      | none => rfl
      | some s => rw [Option.bind_some, Option.bind_some, hpre.live, if_neg (hapart q hq hqh s hs)]
  constructor
  · rintro ⟨qs, hqs, hlive, -, hnd⟩
    obtain rfl := hqs.unique hpath'
    have hapart : ∀ q ∈ qs, q ≠ h → ∀ s, w.sessionOf q = some s → w.sessionOf h ≠ some s := by
      intro q hq hqh s hs hhs
      obtain ⟨ses, hl⟩ := hlive q hq s ((hother q hqh).trans hs)
      rw [hpre.live, if_pos hhs] at hl
      cases hl
    refine ⟨hapart, fun q hq hqh s hs => ?_, by rwa [← hidle qs hapart]⟩
    obtain ⟨ses, hl⟩ := hlive q hq s ((hother q hqh).trans hs)
    rw [hpre.live, if_neg (hapart q hq hqh s hs)] at hl
    exact ⟨ses, hl⟩
  · rintro ⟨hapart, hlive, hnd⟩
    refine ⟨ps, hpath', fun q hq s hs => ?_, fun s hs => ?_, by rwa [hidle ps hapart]⟩
    · by_cases hqh : q = h
      · rw [hqh, hown] at hs; cases hs
      · rw [hother q hqh] at hs
        obtain ⟨ses, hl⟩ := hlive q hq hqh s hs
        exact ⟨ses, by rw [hpre.live, if_neg (hapart q hq hqh s hs)]; exact hl⟩
    · rw [hown] at hs; cases hs

/-! ## The handler -/

/-- A listener cannot be registered where a store through a NULL pointer is
noticed. -/
theorem newListener_store {dst : SockAddr} {u : Unit}
    (h1 : listenerNewUdp os (some dst) .tftp w = .ok nl w₁) (h2 : listenerAdd os nl w₁ = .ok u w₂)
    (hs : os.socket = true) : os.nullStore = true := by
  simp only [listenerNewUdp, hs, if_true, bind_ok, get_ok, modify_ok, pure_ok] at h1
  obtain ⟨_, _, -, _, _, -, rfl, -⟩ := h1
  by_contra hnull
  simp [listenerAdd, hnull] at h2

theorem newListener_run (w : World) (dst : SockAddr) (hnull : os.socket = true → os.nullStore = true) :
    ∃ nl w₁ w₂, listenerNewUdp os (some dst) .tftp w = .ok nl w₁ ∧ listenerAdd os nl w₁ = .ok () w₂ := by
  have hnew : Returns (listenerNewUdp os (some dst) .tftp) w := by
    simp only [listenerNewUdp, returns_get_bind]
    split
    · exact returns_modify_bind.mpr (returns_pure _)
    · exact returns_pure _
  obtain ⟨nl, w₁, h1⟩ := hnew
  have hadd : Returns (listenerAdd os nl) w₁ := by
    cases nl with
    | none => exact returns_pure _
    | some l =>
      have hs : os.socket = true := by
        by_contra hs
        simp [listenerNewUdp, hs] at h1
      simp only [listenerAdd]
      rw [if_neg fun hc => hc.2 (hnull hs)]
      exact returns_modify _
  obtain ⟨u, w₂, h2⟩ := hadd
  exact ⟨nl, w₁, w₂, h1, h2⟩

/-- Opening the file and answering does not fault. -/
theorem rrqEnd_returns {ses : Session} {s : SessId} (hs : w.sessionOf h = some s)
    (hl : w.live s = some ses) :
    Returns (do
      match ← openFile os h f.path with
      | some e => tftpSendError l frm loc (tftpErrnoCode e) (c.strerror e)
      | none => do
        tftpSetSession h frm.port.toNat nl
        match nl with
        | none => tftpSendError l frm loc tftpEUndef (c.strerror os.errno)
        | some nl => tftpSendBlock c os l nl frm loc h 1 0) w := by
  obtain ⟨r, w₁, ho⟩ := openFile_returns os f.path hs hl
  refine returns_bind.mpr ⟨r, w₁, ho, ?_⟩
  obtain ⟨s', ses', hs', hl', hcase⟩ := openFile_ok ho
  rw [hs] at hs'; cases hs'
  rcases hcase with ⟨e, -, rfl, rfl⟩ | ⟨d, -, rfl, rfl⟩
  · exact ⟨_, _, rfl⟩
  · have hs₁ : (w.opened h s f.path d).sessionOf h = some s := hs
    have hl₁ : ∃ ses₁, (w.opened h s f.path d).live s = some ses₁ := by
      rw [World.live, World.opened_sessions, Slots.get_update, if_pos rfl]
      exact ⟨_, congrArg _ hl'⟩
    obtain ⟨ses₁, hl₁⟩ := hl₁
    have hset : tftpSetSession h frm.port.toNat nl (w.opened h s f.path d) =
        .ok () ((w.opened h s f.path d).attach s frm.port.toNat nl) := by
      simp only [tftpSetSession, bind_ok, get_ok]
      refine ⟨_, _, ⟨rfl, rfl⟩, ?_⟩
      simp only [hs₁, bind_ok, loadSession_ok, modify_ok]
      exact ⟨ses₁, _, ⟨hl₁, rfl⟩, rfl⟩
    refine returns_bind.mpr ⟨(), _, hset, ?_⟩
    cases nl with
    | none => exact ⟨_, _, rfl⟩
    | some dl =>
      have hs₂ : ((w.opened h s f.path d).attach s frm.port.toNat (some dl)).sessionOf h = some s := hs
      have hl₂ : ∃ ses₂,
          ((w.opened h s f.path d).attach s frm.port.toNat (some dl)).live s = some ses₂ := by
        rw [World.live, World.attach_sessions, Slots.get_update, if_pos rfl]
        exact ⟨_, congrArg _ hl₁⟩
      obtain ⟨ses₂, hl₂⟩ := hl₂
      exact ⟨_, _, tftpSendBlock_run hs₂ hl₂⟩

theorem tftpRrq_returns (hd : Descriptors w) : Returns (tftpRrq c os l frm loc h f) w ↔
    h < w.hosts.length ∧ RrqSafe c os w h := by
  refine ⟨fun ⟨_, w', hr⟩ => ?_, fun ⟨hlt, hown, hnull, ps, hpath, hothers⟩ => ?_⟩
  · simp only [tftpRrq, bind_ok] at hr
    obtain ⟨_, w₁, h1, nl, wl, h2, _, w₂, h3, _, _, h4, -⟩ := hr
    obtain ⟨es, he, hlt, hown⟩ := hostSessionDelete_ok h1
    have hpre : Prelude h w (.udp os l frm loc ⟨fun _ => 0, 0⟩) nl w₂ :=
      .tftp _ _ _ _ _ es w₁ nl w₂ he hown (newListener_ok h2 h3)
    refine ⟨hlt, ((hostSessionDelete_returns hd.unlistened).mp ⟨_, _, h1⟩).2, newListener_store h2 h3, ?_⟩
    have hsweep := ((hostSessionAdd_returns _ _ _ _ _ (hd.prelude hpre).1.unlistened).mp ⟨_, _, h4⟩).2
    obtain ⟨ps, hps, -⟩ := id hsweep
    have hsame := SameHosts.prelude hpre
    have hpath : Chain.Path w.next w.gHosts ps none := by
      rw [← hsame.gHosts]
      exact hps.congr fun a _ => (hsame.next a).symm
    exact ⟨ps, hpath, (prelude_sweepSafe hpre hpath).mp hsweep⟩
  · obtain ⟨_, w₁, h1⟩ := (hostSessionDelete_returns hd.unlistened).mpr ⟨hlt, hown⟩
    obtain ⟨nl, wl, w₂, h2, h3⟩ := newListener_run w₁ frm hnull
    obtain ⟨es, he, -, hcase⟩ := hostSessionDelete_ok h1
    have hpre : Prelude h w (.udp os l frm loc ⟨fun _ => 0, 0⟩) nl w₂ :=
      .tftp _ _ _ _ _ es w₁ nl w₂ he hcase (newListener_ok h2 h3)
    have hlt₂ := (SameHosts.prelude hpre).lt hlt
    obtain ⟨granted, w₃, h4⟩ := (hostSessionAdd_returns c os h serviceTftp frm.port.toNat
      (hd.prelude hpre).1.unlistened).mpr ⟨hlt₂, (prelude_sweepSafe hpre hpath).mpr hothers⟩
    refine returns_bind.mpr ⟨_, _, h1, returns_bind.mpr ⟨_, _, h2, returns_bind.mpr ⟨_, _, h3,
      returns_bind.mpr ⟨_, _, h4, ?_⟩⟩⟩⟩
    obtain ⟨qs, w₄, -, -, he₄, hlt₄, -, hgrant⟩ := hostSessionAdd_ok h4
    rw [← he₄.frame.length] at hlt₄
    rcases hgrant with ⟨rfl, -, rfl⟩ | ⟨rfl, -, rfl⟩
    · rw [if_pos rfl]
      have hses := sessionOf_startSession w₄ h (.fresh serviceTftp frm.port.toNat os.now) h
      rw [if_pos ⟨rfl, hlt₄⟩] at hses
      have hl := live_startSession w₄ h (.fresh serviceTftp frm.port.toNat os.now) w₄.sessions.length
      rw [if_pos rfl] at hl
      exact rrqEnd_returns hses hl
    · exact ⟨_, _, rfl⟩

theorem tftpAck_returns {n : Nat} : Returns (tftpAck c os l frm loc h n) w ↔
    h < w.hosts.length ∧ w.OwnLive h := by
  simp only [tftpAck]
  rw [returns_bind, ← hostSessionCheck_returns os h serviceTftp frm.port.toNat]
  constructor
  · rintro ⟨r, w', hr, -⟩
    exact ⟨r, w', hr⟩
  · rintro ⟨r, w', hr⟩
    refine ⟨r, w', hr, ?_⟩
    rcases hostSessionCheck_ok hr with ⟨hne, rfl⟩ | ⟨rfl, s, ses, hs, hl, -, -, rfl⟩
    · rw [if_neg hne]
      split
      · exact returns_pure _
      · exact ⟨_, _, rfl⟩
    · rw [if_pos rfl]
      exact ⟨_, _, tftpSendBlock_run (w := w.touch s os.now) hs (live_touch os.now hl)⟩

/-- **On which datagrams the TFTP handler returns.** -/
theorem tftpHandler_returns (hok : HostsOk w L) (hd : Descriptors w) :
    Returns (tftpHandler c os l frm loc pkt) w ↔ TftpSafe c os frm pkt w := by
  unfold tftpHandler TftpSafe
  rw [tftpLogMsgpacket_bind]
  by_cases hlog : Logged os pkt
  swap
  · rw [if_neg hlog]
    exact iff_of_false (returns_throw _) fun hs => hlog hs.1
  rw [if_pos hlog, returns_get_bind, and_iff_right hlog]
  cases hk : utilIp2host w frm.addr with
  | error e => exact iff_of_false (returns_throw e) id
  | ok o =>
    cases o with
    | none => exact iff_of_true ⟨_, _, rfl⟩ trivial
    | some h =>
      obtain ⟨-, r, hLp, -⟩ := id hok.lasso
      have hlt := path_lt hLp h (hostFind_mem hok hk)
      have hh : w.hosts[h]? = some w.hosts[h] := List.getElem?_eq_getElem hlt
      have hdispatch : ∀ host, Returns (if host.service &&& serviceTftp = 0 then
          tftpSendError l frm loc tftpEAccess (cstr "access denied, tftp not allowed for this host")
          else tftpDispatch c os l frm loc pkt h host) w ↔ (host.service &&& serviceTftp ≠ 0 →
        match pkt.tftpOp with
        | .rrq => tftpFile host pkt ≠ none → RrqSafe c os w h
        | .ack => w.OwnLive h
        | _ => True) := by
        intro host
        by_cases hsvc : host.service &&& serviceTftp = 0
        · rw [if_pos hsvc]
          exact iff_of_true ⟨_, _, rfl⟩ fun hne => absurd hsvc hne
        rw [if_neg hsvc]
        simp only [ne_eq, hsvc, not_false_eq_true, true_imp_iff, tftpDispatch]
        cases pkt.tftpOp with
        | rrq =>
          cases tftpFile host pkt with
          | none => exact iff_of_true ⟨_, _, rfl⟩ (by simp)
          | some f =>
            have hrrq : Returns (tftpRrq c os l frm loc h f) w ↔ _ := tftpRrq_returns hd
            simpa [hlt] using hrrq
        | ack =>
          have hack : Returns (tftpAck c os l frm loc h pkt.tftpN) w ↔ _ := tftpAck_returns
          simpa [hlt] using hack
        | wrq | data => exact iff_of_true ⟨_, _, rfl⟩ trivial
        | error | unknown n => exact iff_of_true (returns_pure _) trivial
      rw [Exec.liftE_ok, pure_bind, returns_loadHost_bind]
      constructor
      · intro ⟨host, hh', hr⟩ host' hh''
        rw [hh'] at hh''; cases hh''
        exact (hdispatch host).mp hr
      · exact fun hs => ⟨_, hh, (hdispatch _).mpr (hs _ hh)⟩

/-- A read request is survived when the sessions can be gone through. -/
theorem rrq_returns {σ : Sys} (hσ : (daemon c).Reachable σ) (hhost : utilIp2host σ.w frm.addr = .ok (some h))
    (hop : pkt.tftpOp = .rrq) (hlog : Logged os pkt) (hsafe : RrqSafe c os σ.w h) :
    Returns (tftpHandler c os l frm loc pkt) σ.w.start := by
  obtain ⟨L, hok⟩ := daemon_hostsOk σ hσ
  refine (tftpHandler_returns hok.start (daemon_descriptors _ hσ).start).mpr (tftpSafe_start.mpr ?_)
  refine ⟨hlog, ?_⟩
  rw [hhost]
  simp only [hop]
  exact fun _ _ _ _ => hsafe

end
end Bootd
