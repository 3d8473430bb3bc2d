import Bootd.L3Protocol.Tftp

/-!
# A refused read request leaves its listener and its session behind

The read request branch of `tftp_handler` (src/tftp.c:56-124) ends the old
session, creates and registers a listener, drops idle sessions, creates a
session and opens the file, and has error exits between these steps that undo
none of them. Only the exits before the first step are clean.

Counterexample: the listener cannot be created (`rrq_refused_trace`). The client
gets its error, and the daemon keeps an active session and an open file for it.

`rrq_refused_iff`: a request leaves no trace exactly when it is refused before
the first step, or for a full session table when the listener could not be
created either and there was no session to end.
-/
namespace Bootd

open Bootd.Core

/-- After the request from `ip`, listeners, open descriptors, the session count
and every other host's session are as before, and the host itself has no
session that it did not have before. -/
structure NoTrace (ip : Ip) (w w' : World) : Prop where
  listeners : w'.listeners = w.listeners
  fds : ∀ fd, (w'.fdObj fd).isSome = (w.fdObj fd).isSome
  gN : w'.gNSessions = w.gNSessions
  others : ∀ q, utilIp2host w ip ≠ .ok (some q) → w'.sessionOf q = w.sessionOf q ∧
    ∀ s, w.sessionOf q = some s → w'.live s = w.live s
  own : ∀ h, utilIp2host w ip = .ok (some h) → ∀ s, w'.sessionOf h = some s → w.sessionOf h = some s

/-- The session table is full, and neither a listener nor an ended session
stands between this and the state before. -/
structure CleanBusy (c : Conf) (os : Os) (w : World) (h : HostId) : Prop where
  socket : os.socket = false
  session : w.sessionOf h = none
  idle : ∀ p, w.Listed p → w.idle c os p = none
  busy : c.cSessionMax ≤ w.gNSessions

/-- The client is unknown, may not use TFTP, asks for a file that is not
configured, or runs into `CleanBusy`. -/
def RefusedClean (c : Conf) (os : Os) (w : World) (frm : SockAddr) (pkt : Pkt) : Prop :=
  utilIp2host w frm.addr = .ok none ∨
    ∃ h host, utilIp2host w frm.addr = .ok (some h) ∧ w.hosts[h]? = some host ∧
      (host.service &&& serviceTftp = 0 ∨ tftpFile host pkt = none ∨ CleanBusy c os w h)

section
variable {c : Conf} {os : Os} {l : Listener} {frm loc : SockAddr} {pkt : Pkt} {h : HostId}
  {host : Host} {f : File} {w w' w₁ w₂ : World} {nl : Option Listener} {ios : List Io}

/-- Sending changes nothing. -/
theorem noTrace_emits (ip : Ip) (w : World) (ios : List Io) : NoTrace ip w (w.start.emits ios) :=
  ⟨rfl, fun _ => rfl, rfl, fun _ _ => ⟨rfl, fun _ _ => rfl⟩, fun _ _ _ hs => hs⟩

theorem Granted.sessionOf {s : SessId} (hg : Granted c os l frm h f nl s w w') :
    w'.sessionOf h = w.sessionOf h := by
  cases hg <;> rfl

theorem NewListener.sessionOf (hn : NewListener os frm w nl w') (p : HostId) :
    w'.sessionOf p = w.sessionOf p := by
  cases hn <;> rfl

theorem NewListener.sessions (hn : NewListener os frm w nl w') : w'.sessions = w.sessions := by
  cases hn <;> rfl

theorem NewListener.gN (hn : NewListener os frm w nl w') : w'.gNSessions = w.gNSessions := by
  cases hn <;> rfl

/-- A listener that was created holds a descriptor that was free. -/
theorem NewListener.fds (hn : NewListener os frm w nl w')
    (hf : ∀ fd, (w'.fdObj fd).isSome = (w.fdObj fd).isSome) : os.socket = false ∧ w' = w := by
  cases hn with
  | failed hs => exact ⟨hs, rfl⟩
  | created dl hs hid hfd hp hsvc =>
    have := hf w.freeFd
    rw [fdObj_freeFd] at this
    have hput : Slots.get (Slots.put w.fds .socket) w.freeFd = some .socket := by
      rw [Slots.get_put, World.freeFd, if_pos rfl]
    rw [World.fdObj, hput] at this
    cases this

/-- A request that ends some session, or is granted one, leaves a trace. -/
theorem rrq_noTrace (hip : utilIp2host w frm.addr = .ok (some h))
    (hr : tftpRrq c os l frm loc h f w.start = .ok () w') (hn : NoTrace frm.addr w w') :
    CleanBusy c os w h := by
  obtain ⟨es, w₁, nl, w₂, ps, w₃, he, hown, hnl, hpath, -, he', hlt, hnone, hcase⟩ := tftpRrq_ok hr
  rcases hcase with ⟨hmax, rfl⟩ | ⟨hmax, hg⟩
  · -- refused: the count is as before, so no session was ended on the way
    have h1 := he.gN
    have h2 := he'.gN
    have h3 : w₃.gNSessions = w.gNSessions := hn.gN
    rw [hnl.gN] at h2
    have hnil : es = [] := List.length_eq_zero_iff.mp (by simp at h1; omega)
    have hnil' : w₂.replaced c os ps h = [] := List.length_eq_zero_iff.mp (by simp at h1; omega)
    subst hnil
    rw [hnil'] at he'
    obtain rfl := he.eq_of_nil
    obtain rfl := he'.eq_of_nil
    obtain ⟨hsock, rfl⟩ := hnl.fds hn.fds
    rw [World.replaced, List.append_eq_nil_iff] at hnil'
    refine ⟨hsock, hnone, fun p hp => ?_, h3 ▸ hmax⟩
    have hmem := listed_mem hpath hp
    cases hi : w.idle c os p with
    | none => rfl
    | some e =>
      have : e ∈ ps.filterMap (w.start.idle c os) := List.mem_filterMap.mpr ⟨p, hmem, hi⟩
      rw [hnil'.1] at this; cases this
  · -- granted: the host has a session it did not have
    have hs : w'.sessionOf h = some w₃.sessions.length := by
      rw [hg.sessionOf, sessionOf_startSession, if_pos ⟨rfl, hlt⟩]
    have hold := hn.own h hip _ hs
    have hlen : w₃.sessions.length = w.sessions.length := by
      rw [he'.frame.sessions, hnl.sessions, he.frame.sessions]; rfl
    rcases hown with ⟨hnn, -⟩ | ⟨s, hss, rfl⟩
    · have hnn : w.sessionOf h = none := hnn
      rw [hold] at hnn; cases hnn
    · have hss : w.sessionOf h = some s := hss
      rw [hold, hlen, Option.some.injEq] at hss
      obtain ⟨-, ⟨ses, hl⟩, -⟩ := he.mem (p := h) (s := s) (by simp)
      have hs : s < w.sessions.length := Slots.lt_of_get hl
      subst hss
      exact absurd hs (Nat.lt_irrefl _)

/-- A full table, nothing to end and no listener: only the error is sent. -/
theorem cleanBusy_noTrace (hb : CleanBusy c os w h)
    (hr : tftpRrq c os l frm loc h f w.start = .ok () w') : NoTrace frm.addr w w' := by
  obtain ⟨es, w₁, nl, w₂, ps, w₃, he, hown, hnl, hpath, -, he', hlt, hnone, hcase⟩ := tftpRrq_ok hr
  have hses : w.start.sessionOf h = none := hb.session
  rcases hown with ⟨-, rfl⟩ | ⟨s, hss, -⟩
  · obtain rfl := he.eq_of_nil
    cases hnl with
    | created dl hs => rw [hb.socket] at hs; cases hs
    | failed =>
      have hidle : ps.filterMap (w.start.idle c os) = [] := by
        rw [List.filterMap_eq_nil_iff]
        exact fun p hp => hb.idle p ⟨ps, none, hpath, hp⟩
      rw [World.replaced, hidle, hses] at he'
      have hnil : (if h ∈ ps ∧ w.start.idle c os h ≠ none then []
          else (Option.map (fun s => (h, s)) (none : Option SessId)).toList) = [] := by
        split <;> rfl
      rw [hnil] at he'
      obtain rfl := he'.eq_of_nil
      rcases hcase with ⟨-, rfl⟩ | ⟨hmax, -⟩
      · exact noTrace_emits _ w _
      · have := hb.busy
        have hgN : w.start.gNSessions = w.gNSessions := rfl
        omega
  · rw [hses] at hss; cases hss

/-- **When a read request leaves no trace.** Of the read requests that are
answered at all, exactly those refused before the first step, and those that
run into a full table with nothing to end and no listener. (A request that is
served leaves one too, on purpose.) -/
theorem rrq_refused_iff (c : Conf) (os : Os) (l : Listener) (frm loc : SockAddr) (pkt : Pkt)
    (w w' : World) (hop : pkt.tftpOp = .rrq)
    (hr : tftpHandler c os l frm loc pkt w.start = .ok () w') :
    NoTrace frm.addr w w' ↔ RefusedClean c os w frm pkt := by
  have hfind : utilIp2host w.start frm.addr = utilIp2host w frm.addr := rfl
  rcases tftpHandler_ok hr with ⟨hip, rfl⟩ | ⟨h, host, hip, hh, hcase⟩
  · exact ⟨fun _ => .inl hip, fun _ => noTrace_emits _ w _⟩
  · rw [hfind] at hip
    have hclean : RefusedClean c os w frm pkt ↔ host.service &&& serviceTftp = 0 ∨
        tftpFile host pkt = none ∨ CleanBusy c os w h := by
      constructor
      · rintro (hn | ⟨h', host', hip', hh', hcl⟩)
        · rw [hip] at hn; cases hn
        · rw [hip] at hip'; cases hip'
          rw [World.start_hosts, hh'] at hh; cases hh
          exact hcl
      · exact fun hcl => .inr ⟨h, host, hip, hh, hcl⟩
    rw [hclean]
    rcases hcase with ⟨hsvc, rfl⟩ | ⟨hsvc, hd⟩
    · exact ⟨fun _ => .inl hsvc, fun _ => noTrace_emits _ w _⟩
    · rw [tftpDispatch, hop] at hd
      cases hf : tftpFile host pkt with
      | none =>
        simp only [hf, tftpSendError_ok] at hd
        subst hd
        exact ⟨fun _ => .inr (.inl rfl), fun _ => noTrace_emits _ w _⟩
      | some f =>
        simp only [hf] at hd
        constructor
        · exact fun hn => .inr (.inr (rrq_noTrace hip hd hn))
        · rintro (h0 | h0 | hb)
          · exact absurd h0 hsvc
          · cases h0
          · exact cleanBusy_noTrace hb hd

end

/-- A read request for the file `k`. -/
def rrqK : Pkt := .ofBytes ([0, 1] ++ cstr "k" ++ [0])

/-- A request from an address that is not configured leaves nothing. -/
theorem rrq_refused_unknown : NoTrace 9 oneHost
    (Exec.final (tftpHandler plainConf plainOs port69 ⟨9, 1024⟩ ⟨7, 69⟩ rrqK) oneHost.start) := by
  have hlog : Logged plainOs rrqK := logged_rrq (by decide) (by decide)
  have hunknown : tftpHandler plainConf plainOs port69 ⟨9, 1024⟩ ⟨7, 69⟩ rrqK oneHost.start =
      tftpSendError port69 ⟨9, 1024⟩ ⟨7, 69⟩ tftpEAccess (cstr "access denied, client unknown") oneHost.start :=
    tftpHandler_unknown hlog rfl
  have hrun := hunknown.trans (tftpSendError_ok (u := ()).mpr rfl)
  unfold Exec.final
  rw [hrun]
  exact (rrq_refused_iff plainConf plainOs port69 ⟨9, 1024⟩ ⟨7, 69⟩ rrqK oneHost _ (by decide) hrun).mpr
    (.inl rfl)

set_option maxRecDepth 4000 in
/-- **Counterexample**: no listener can be created. The request is answered with
an error, and the client is left with an active session and an open file. -/
theorem rrq_refused_trace : ¬ ∀ (c : Conf) (os : Os) (l : Listener) (frm loc : SockAddr) (pkt : Pkt)
    (w w' : World), pkt.tftpOp = .rrq → tftpHandler c os l frm loc pkt w.start = .ok () w' →
    (∃ dl via p, .udp dl via p ∈ w'.out ∧ opOf p = some .error) → NoTrace frm.addr w w' := by
  intro h
  have hn := h plainConf { plainOs with socket := false } port69 ⟨1, 1024⟩ ⟨7, 69⟩
    rrqK oneHost _ (by decide) rfl
    ⟨_, _, _, List.mem_cons_of_mem _ (List.mem_cons_of_mem _ List.mem_cons_self), rfl⟩
  have := hn.gN
  cases this

end Bootd
