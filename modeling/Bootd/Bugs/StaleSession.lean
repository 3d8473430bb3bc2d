import Bootd.L4Daemon.Descriptors

/-!
# A failed open leaves a session that reads from standard input

Both handlers create the session before they open the file, and where `open`
fails they store descriptor 0 in it and keep it (src/tftp.c:77-100,
src/rmp.c:135-148). The client gets its error, but its next ACK or read request
passes `host_session_check`, and is answered from descriptor 0: whatever the
daemon was started with as standard input.

Counterexample: the file cannot be opened, and the client acknowledges block 0
(`stale_session_stdin`).

`sessions_serve_opened`: in every run in which no request that is granted a
session fails to open its file, no session is left with descriptor 0, and file
bytes are only ever sent to a host from the file that its session opened.
-/
namespace Bootd

open Bootd.Core

/-- A file that the packet asks for can be opened, or the server is too busy to
try. -/
def Ev.OpensOk (c : Conf) (w : World) (e : Ev) : Prop :=
  ∀ t f, e.Requests w t f → Busy c e.os w t ∨ ∃ d, e.os.openf f.path = .ok d

/-- The session's first descriptor was returned by an `open` for it, and is the
file with that content. -/
def Opened (past : List Io) (w : World) (s : SessId) (ses : Session) (content : List UInt8) : Prop :=
  ses.bfFd ≠ 0 ∧ ∃ h path, .openFile h s path (some ses.bfFd) ∈ past ∧
    w.fdObj ses.bfFd = some (.file path content)

/-- No active session has descriptor 0. -/
def NoLeftover (w : World) : Prop :=
  ∀ h s ses, w.sessionOf h = some s → w.live s = some ses → ses.bfFd ≠ 0

/-- The file bytes sent in answer to `e`, which arrived in `w`, are a piece of
the file that was opened for the session of the host that `e` came from. -/
def ServesOpened (past : List Io) (w : World) (e : Ev) (w' : World) : Prop :=
  ∀ io ∈ w'.out, ∀ x, io.payload = some x → ∃ h s ses content, e.host w = .ok (some h) ∧
    w'.sessionOf h = some s ∧ w'.live s = some ses ∧ Opened past w' s ses content ∧ x <:+: content

/-- Every session there is was opened. -/
def AllOpened (past : List Io) (w : World) : Prop :=
  ∀ s ses, w.live s = some ses → ∃ content, Opened past w s ses content

/-- No file bytes in the trace. -/
def Quiet (w : World) : Prop := ∀ io ∈ w.out, io.payload = none

section
variable {c : Conf} {os : Os} {e : Ev} {w w₀ w₁ w₃ w' : World} {h t : HostId} {f : File} {L : List HostId}
  {s : SessId} {ses ses' : Session} {past past' : List Io} {content : List UInt8} {nl : Option Listener}
  {es : List (HostId × SessId)}

theorem Opened.mono (ho : Opened past w s ses content) (hp : ∀ io ∈ past, io ∈ past')
    (hf : ∀ fd o, w.fdObj fd = some o → w'.fdObj fd = some o) (hs : ses'.fd = ses.fd) :
    Opened past' w' s ses' content := by
  obtain ⟨h0, h, path, hm, ho⟩ := ho
  unfold Opened
  rw [Session.bfFd, hs]
  exact ⟨h0, h, path, hp _ hm, hf _ _ ho⟩

theorem AllOpened.carried (ha : AllOpened past w) (hc : Carried w w')
    (hp : ∀ io ∈ past, io ∈ past') : AllOpened past' w' := by
  intro s ses' hs
  obtain ⟨ses, hl, e⟩ := hc.sessions s ses' hs
  obtain ⟨content, ho⟩ := ha s ses hl
  exact ⟨content, ho.mono hp hc.fds e.fd⟩

/-- A session that was granted and whose file could be opened is opened. -/
theorem AllOpened.adds {svc : Nat} {sid : Int} (ha : AllOpened past w)
    (hadd : Adds os svc sid h f w w')
    (hopen : ∃ d, os.openf f.path = .ok d) (hp : ∀ io ∈ past, io ∈ past')
    (hout : ∀ io ∈ w'.out, io ∈ past') : AllOpened past' w' := by
  intro s ses' hs
  by_cases hnew : s = w.sessions.length
  · subst hnew
    obtain ⟨ses, hl, hcase, -⟩ := hadd.session
    rw [hs] at hl; cases hl
    obtain ⟨d, hd⟩ := hopen
    cases hcase with
    | failed err ho => rw [hd] at ho; cases ho
    | opened d' fd ho hfd h0 hobj hm =>
      have hfd0 : ses'.bfFd = fd := by
        simp only [Session.bfFd, hfd, Vector.getElem_set_self]
      refine ⟨d', ?_⟩
      unfold Opened
      rw [hfd0]
      exact ⟨h0, h, f.path, hout _ hm, hobj⟩
  · obtain ⟨ses, hl, e⟩ := hadd.sessions s hnew ses' hs
    obtain ⟨content, ho⟩ := ha s ses hl
    exact ⟨content, ho.mono hp hadd.fds e.fd⟩

theorem AllOpened.handle {u : Unit} (hok : HostsOk w L) (hd : Descriptors w) (ha : AllOpened past w)
    (hopens : e.OpensOk c w) (hr : e.handle c w = .ok u w') :
    AllOpened (past ++ w'.out) w' := by
  have hp : ∀ io ∈ past, io ∈ past ++ w'.out := fun io hio => List.mem_append_left _ hio
  rcases (handle_carried hok hd hr).2 with hc | ⟨t, h, f, hreq, hbusy, hadd⟩
  · exact ha.carried hc hp
  · exact ha.adds hadd ((hopens t f hreq).resolve_left hbusy) hp
      fun io hio => List.mem_append_right _ hio

/-! ## What is sent -/

theorem Quiet.appends (hq : Quiet w) (h : Appends (·.payload = none) w w') : Quiet w' := by
  intro io hio
  rcases h.mem hio with hio | hm
  · exact hq io hio
  · exact hm

/-- Only what was added can carry data. -/
theorem Quiet.new (hq : Quiet w) {ios : List Io} {io : Io} {x : List UInt8} (hio : io ∈ w.out ++ ios)
    (hx : io.payload = some x) : io ∈ ios := by
  refine (List.mem_append.mp hio).resolve_left fun hold => ?_
  rw [hq io hold] at hx; cases hx

theorem Quiet.openFailed (hq : Quiet w) (h : HostId) (s : SessId) (ses : Session) (path : Option CStr) :
    Quiet ((w.startSession h ses).openFailed h s path) := by
  refine hq.appends ⟨[.start h w.sessions.length, .openFile h s path none], by simp, fun io hio => ?_⟩
  rcases List.mem_pair.mp hio with rfl | rfl <;> rfl

theorem Quiet.opened (hq : Quiet w) (h : HostId) (s : SessId) (ses : Session) (path : Option CStr)
    (d : List UInt8) : Quiet ((w.startSession h ses).opened h s path d) := by
  refine hq.appends ⟨[.start h w.sessions.length, .openFile h s path (some w.freeFd)], by simp,
    fun io hio => ?_⟩
  rcases List.mem_pair.mp hio with rfl | rfl <;> rfl

theorem payload_isPacket {io : Io} {x : List UInt8} (h : io.payload = some x) :
    io.isPacket = true := by
  cases io <;> first | rfl | cases h

theorem payload_isSend {io : Io} {x : List UInt8} (h : io.payload = some x) :
    io.isSend = true := by
  cases io <;> first | rfl | cases h

/-- File bytes read through the session's descriptor. -/
theorem ReadsFrom.infix {ios : List Io} {fd : Fd} (hr : ReadsFrom w fd ios) {path : Option CStr}
    (ho : w.fdObj fd = some (.file path content)) {io : Io} (hio : io ∈ ios) {x : List UInt8}
    (hx : io.payload = some x) : x <:+: content := by
  rcases (hr io hio).2 x hx with rfl | ⟨d, hd, hinf⟩
  · exact List.nil_infix
  · rw [ho] at hd
    cases hd
    exact hinf

/-- The answer to a packet, when all sessions were opened before and are
after it. -/
theorem serves_opened {u : Unit} (hok : HostsOk w L) (hd : Descriptors w) (hq : Quiet w)
    (ha : AllOpened past' w') (hr : e.handle c w = .ok u w') : ServesOpened past' w e w' := by
  intro io hio x hx
  rcases handle_ok hr with ⟨ios, hp, rfl⟩ | ⟨t, h, w₁, host, hadm, hh, hs⟩
  · rw [(hp io (hq.new hio hx)).2] at hx; cases hx
  obtain ⟨hc₁, hl₁, ho₁⟩ := hadm.carried hok
  have hd₁ := hc₁.descriptors hl₁ hd
  have hq₁ : Quiet w₁ := by unfold Quiet; rw [ho₁]; exact hq
  cases hs with
  | plain ios _ hp =>
    rw [(hp io (hq₁.new hio hx)).2] at hx; cases hx
  | done es w' _ _ he =>
    rw [hq₁.appends (hd₁.ends_appends he fun _ _ => rfl) io hio] at hx; cases hx
  | answer s ses ios _ hs hl hb hreads =>
    -- a read is never served as a clone
    have hhost : e.host w = .ok (some h) ∧ w₁ = w := by
      cases hadm with
      | known _ _ hhost => exact ⟨hhost, rfl⟩
      | cloned _ _ _ _ _ _ _ _ _ hcl => rw [hcl.2.1] at hb; cases hb
    obtain ⟨hhost, rfl⟩ := hhost
    have hl' : ((w₁.touch s e.os.now).emits ios).live s =
        some { ses with atime := int32 e.os.now } := live_touch _ hl
    obtain ⟨content, ho⟩ := ha s _ hl'
    refine ⟨h, s, _, content, hhost, hs, hl', ho, ?_⟩
    obtain ⟨-, -, path, -, hobj⟩ := ho
    exact hreads.infix hobj (hq.new hio hx) hx
  | request f nl w₀ ps w₃ w' hf hpre hpath hlive he hlt hnone hg hsilent =>
    obtain ⟨hd₀, -⟩ := hd₁.prelude hpre
    have hq₀ := hq₁.appends (hd₁.prelude_appends hpre (fun _ _ => rfl) fun _ => rfl)
    have hq₃ := hq₀.appends (hd₀.ends_appends he fun _ _ => rfl)
    have hboot : e.isBoot = false := by
      cases hb : e.isBoot with
      | false => rfl
      | true =>
        rw [hq₃ io (hsilent hb io hio (payload_isPacket hx))] at hx; cases hx
    have hhost : e.host w = .ok (some h) := by
      cases hadm with
      | known _ _ hhost => exact hhost
      | cloned _ _ _ _ _ _ _ _ _ hcl => rw [hcl.2.1] at hboot; cases hboot
    cases hg with
    | busy ios _ hp =>
      rw [(hp io (hq₃.new hio hx)).2] at hx; cases hx
    | failed ses err ios _ _ _ hp =>
      rw [(hp io ((hq₃.openFailed h _ ses f.path).new hio hx)).2] at hx; cases hx
    | opened ses d g ios w' hmax hfd ho hg hw hreads =>
      subst hw
      have hnew := (hq₃.opened h _ ses f.path d).new hio hx
      have hs : (w₃.startSession h ses).sessionOf h = some w₃.sessions.length := by
        rw [sessionOf_startSession, if_pos ⟨rfl, hlt⟩]
      have hl := (live_granted w₃ h ses f.path d g w₃.sessions.length).trans (if_pos rfl)
      obtain ⟨content, hop⟩ := ha _ _ hl
      have hfd' : (g (ses.setBfFd w₃.freeFd)).bfFd = w₃.freeFd := by
        simp only [Session.bfFd, (hg _).1, Vector.getElem_set_self]
      refine ⟨h, _, _, content, hhost, hs, hl, hop, ?_⟩
      obtain ⟨-, -, path, -, hobj⟩ := hop
      rw [hfd'] at hobj
      exact hreads.infix hobj hnew hx

/-- What the next packet is answered with, whether its handler returns or not. -/
theorem next_serves {σ : Sys} (hok : HostsOk σ.w L) (hd : Descriptors σ.w)
    (ha : AllOpened σ.past σ.w) (hopens : e.OpensOk c σ.w) :
    ServesOpened (σ.next c e).past σ.w e (σ.next c e).w := by
  have ha : AllOpened σ.past σ.w.start := ha
  have hpast : (σ.next c e).past = σ.past ++ (σ.next c e).w.out := by
    simp [Sys.past, Sys.next]
  rw [hpast]
  have hw : (σ.next c e).w = Exec.final (e.handle c) σ.w.start := rfl
  have hfault := Exec.wp_iff.mp ((handle_sendsLast c e).wp σ.w.start fun io hio => by cases hio)
  cases hr : e.handle c σ.w.start with
  | ok u w' =>
    have hw' : (σ.next c e).w = w' := by rw [hw, Exec.final, hr]
    rw [hw']
    have ha' := ha.handle hok.start hd.start hopens hr
    have hserve := serves_opened (w := σ.w.start) hok.start hd.start (fun io hio => by cases hio) ha' hr
    exact hserve
  | error err w' =>
    have hw' : (σ.next c e).w = w' := by rw [hw, Exec.final, hr]
    rw [hw']
    intro io hio x hx
    have hsend := hfault.2 err w' hr io hio
    rw [payload_isSend hx] at hsend
    cases hsend

end

/-- **Sessions serve what they opened**, in every run in which no request that
gets a session fails to open its file. -/
theorem sessions_serve_opened (c : Conf) (σ : Sys)
    (hr : ((daemon c).guard fun σ e => e.OpensOk c σ.w).Reachable σ) :
    NoLeftover σ.w ∧ ∀ e : Ev, e.OpensOk c σ.w →
      ServesOpened (σ.next c e).past σ.w e (σ.next c e).w := by
  have hind : ((daemon c).guard fun σ e => e.OpensOk c σ.w).Inductive
      fun σ => ((∃ L, HostsOk σ.w L) ∧ Descriptors σ.w) ∧ AllOpened σ.past σ.w := by
    refine ⟨fun σ h => ⟨⟨boot_hostsOk h.1, boot_descriptors h.1⟩, fun s ses hs => ?_⟩,
      fun σ e σ' hi hs => ?_⟩
    · rw [World.live, h.1.sessions] at hs
      cases hs
    · obtain ⟨⟨⟨L, hok⟩, hd⟩, ha⟩ := hi
      obtain ⟨⟨-, hrun, hhist⟩, hopens⟩ := hs
      have ha : AllOpened σ.past σ.w.start := ha
      refine ⟨⟨handle_hostsOk hok.start hrun, (handle_carried hok.start hd.start hrun).1⟩, ?_⟩
      have := ha.handle hok.start hd.start hopens hrun
      rwa [Sys.past, hhist, List.flatten_append, List.flatten_singleton]
  obtain ⟨⟨⟨L, hok⟩, hd⟩, ha⟩ := hind.reachable σ hr
  refine ⟨fun h s ses _ hl => ?_, fun e hopens => next_serves hok hd ha hopens⟩
  obtain ⟨content, ho⟩ := ha s ses hl
  exact ho.1

/-- An acknowledgment of block `n` by the client of `readK`. -/
def ackK (n : Nat) : Ev := .udp plainOs port69 ⟨1, 1024⟩ ⟨7, 69⟩ (.ofBytes ([0, 4] ++ be16 n))

/-- Every file can be opened: the client's session has a file. -/
theorem sessions_serve_readK : NoLeftover (bootSys.next plainConf (readK plainOs)).w := by
  have h0 : ((daemon plainConf).guard fun σ e => e.OpensOk plainConf σ.w).Reachable bootSys :=
    LTS.reachable_init ⟨boot_served, rfl⟩
  refine (sessions_serve_opened plainConf _ (h0.step (l := readK plainOs) ⟨?_, ?_⟩)).1
  · exact readK_step
  · exact fun t f _ => .inr ⟨[1, 2, 3], rfl⟩

/-- **Counterexample**: the file cannot be opened. The client then acknowledges
block 0, and is sent the daemon's standard input as block 1. -/
theorem stale_session_stdin : ¬ ∀ (c : Conf) (σ : Sys), (daemon c).Reachable σ →
    NoLeftover σ.w ∧ ∀ e : Ev, e.Enabled σ.w →
      ServesOpened (σ.next c e).past σ.w e (σ.next c e).w := by
  intro h
  let noFile : Ev := readK { plainOs with openf := fun _ => .error .enoent }
  have h1 : (daemon plainConf).Reachable (bootSys.next plainConf noFile) :=
    bootSys_reachable.step (l := noFile) (daemon_next ⟨List.mem_cons_self, rfl⟩ (by decide +kernel))
  have hserve := (h plainConf _ h1).2 (ackK 0) ⟨List.mem_cons_self, rfl⟩
  obtain ⟨p, s, ses, content, hhost, hs, hl, ⟨h0, -⟩, -⟩ :=
    hserve (.udp port69 (.sendto ⟨1, 1024⟩) (tftpDataBuf 1 [7, 7])) List.mem_cons_self [7, 7] (by decide)
  have hhost' : (ackK 0).host (bootSys.next plainConf noFile).w = .ok (some 0) := rfl
  rw [hhost'] at hhost
  cases hhost
  have hs' : ((bootSys.next plainConf noFile).next plainConf (ackK 0)).w.sessionOf 0 = some 0 := rfl
  rw [hs'] at hs
  cases hs
  have hfd : (((bootSys.next plainConf noFile).next plainConf (ackK 0)).w.live 0).map
      (fun ses => ses.bfFd) = some 0 := rfl
  rw [hl] at hfd
  exact h0 (Option.some.inj hfd)

end Bootd
