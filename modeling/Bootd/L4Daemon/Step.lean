import Bootd.L4Daemon.System

/-!
# What one packet does

Both protocols do the same things with sessions: they end some, grant one and
open its file, or answer from the file of the session there is. `Served` lists
the possibilities once, with the memory each leaves; the invariants of runs are
derived from it.

* `handle_ok`: a packet that is handled is refused, or its host is found or made
  (`Admitted`) and it is served (`Served`).
* `HostsOk`: the host table has no repetition and only complete records;
  `daemon_hostsOk` has it for every reachable state.
* `Admitted.requests`: the file that a packet is served is the one it asks for
  by `Ev.Requests`, also when it is served as a clone.
-/
namespace Bootd

open Bootd.Core

/-- The file bytes that a packet on the wire carries. -/
def Io.payload : Io → Option (List UInt8)
  | .udp _ _ pkt => dataOf pkt
  | .link _ frame _ => readReplData frame
  | _ => none

def Io.isPacket : Io → Bool
  | .udp _ _ _ | .link _ _ _ | .arp _ _ => true
  | _ => false

/-- Packets without file bytes. -/
def Plain (ios : List Io) : Prop := ∀ io ∈ ios, io.isPacket = true ∧ io.payload = none

/-- Packets whose file bytes were read from what is behind `fd`. -/
def ReadsFrom (w : World) (fd : Fd) (ios : List Io) : Prop :=
  ∀ io ∈ ios, io.isPacket = true ∧ ∀ x, io.payload = some x → x = [] ∨
    ∃ content, (w.fdObj fd).bind FdObj.content = some content ∧ x <:+: content

/-- The host `h` that a packet is served as, and the listed host `t` it was
found by: the same one, or `h` is a new clone of `t`. -/
inductive Admitted (c : Conf) (w : World) : Ev → HostId → HostId → World → Prop
  | known (e : Ev) (h : HostId) : e.host w = .ok (some h) → ¬e.clones w → Admitted c w e h h w
  | cloned (os : Os) (l : Listener) (p : Pkt) (t : HostId) (tmpl : Host) (h : HostId) (b : Bool)
      (w' : World) : (Ev.link os l p).host w = .ok (some t) → (Ev.link os l p).clones w →
      w.hosts[t]? = some tmpl →
      hostAddNew c os (cloneOf tmpl none (some p.rmpSaddr) none) w = .ok (h, b) w' →
      Admitted c w (.link os l p) t h w'

/-- What comes before `host_session_add`: TFTP ends the host's session and makes
a listener, RMP takes the next session id. -/
inductive Prelude (h : HostId) (w : World) : Ev → Option Listener → World → Prop
  | tftp (os : Os) (l : Listener) (frm loc : SockAddr) (pkt : Pkt) (es : List (HostId × SessId))
      (w₁ : World) (nl : Option Listener) (w₂ : World) : Ends es w w₁ →
      ((w.sessionOf h = none ∧ es = []) ∨ ∃ s, w.sessionOf h = some s ∧ es = [(h, s)]) →
      NewListener os frm w₁ nl w₂ → Prelude h w (.udp os l frm loc pkt) nl w₂
  | rmp (os : Os) (l : Listener) (p : Pkt) : Prelude h w (.link os l p) none w.nextSid

/-- What comes after the old sessions were dropped: too many are left, or the
host gets a session for `svc` and `sid`, and the file is opened for it. -/
inductive Granting (c : Conf) (os : Os) (svc : Nat) (sid : Int) (h : HostId) (f : File) (w : World) :
    World → Prop
  | busy (ios : List Io) : c.cSessionMax ≤ w.gNSessions → Plain ios →
      Granting c os svc sid h f w (w.emits ios)
  | failed (ses : Session) (err : Errno) (ios : List Io) : w.gNSessions < c.cSessionMax →
      ses = .fresh svc sid os.now → os.openf f.path = .error err → Plain ios →
      Granting c os svc sid h f w
        (((w.startSession h ses).openFailed h w.sessions.length f.path).emits ios)
  | opened (ses : Session) (d : List UInt8) (g : Session → Session) (ios : List Io) (w' : World) :
      w.gNSessions < c.cSessionMax → ses = .fresh svc sid os.now → os.openf f.path = .ok d →
      (∀ x : Session, (g x).fd = x.fd ∧ (g x).service = x.service ∧ (x.sid = sid → (g x).sid = sid)) →
      w' = ((w.startSession h ses).opened h w.sessions.length f.path d).setSession w.sessions.length g →
      ReadsFrom w' w.freeFd ios → Granting c os svc sid h f w (w'.emits ios)

/-- The protocol's service bit. -/
def Ev.service : Ev → Nat
  | .udp _ _ _ _ _ => serviceTftp
  | .link _ _ _ => serviceRmp

/-- The id of the session that a request gets. -/
def Ev.sid (w : World) : Ev → Int
  | .udp _ _ frm _ _ => frm.port.toNat
  | .link _ _ _ => int32 (w.rmpSid + 1)

/-- What a packet does once its host is known. -/
inductive Served (c : Conf) (e : Ev) (h : HostId) (host : Host) (w : World) : World → Prop
  | plain (ios : List Io) : e.file host = none → Plain ios → Served c e h host w (w.emits ios)
  | answer (s : SessId) (ses : Session) (ios : List Io) : e.file host = none →
      w.sessionOf h = some s → w.live s = some ses → e.isBoot = false → ReadsFrom w ses.bfFd ios →
      Served c e h host w ((w.touch s e.os.now).emits ios)
  | done (es : List (HostId × SessId)) (w' : World) : e.file host = none → e.done host → Ends es w w' →
      ((w.sessionOf h = none ∧ es = []) ∨ ∃ s, w.sessionOf h = some s ∧ es = [(h, s)]) →
      Served c e h host w w'
  | request (f : File) (nl : Option Listener) (w₀ : World) (ps : List HostId) (w₃ w' : World) :
      e.file host = some f → Prelude h w e nl w₀ → Chain.Path w₀.next w₀.gHosts ps none →
      w₀.SessionsLive ps → Ends (w₀.replaced c e.os ps h) w₀ w₃ → h < w₃.hosts.length →
      w₃.sessionOf h = none → Granting c e.os e.service (e.sid w) h f w₃ w' →
      (e.isBoot = true → ∀ io ∈ w'.out, io.isPacket = true → io ∈ w₃.out) → Served c e h host w w'

section
variable {c : Conf} {os : Os} {l dl : Listener} {frm loc : SockAddr} {pkt : Pkt} {p : Pkt}
  {h : HostId} {host : Host} {w w' : World} {u : Unit} {e : Ev}

theorem plain_nil : Plain [] := by intro io hio; cases hio

theorem plain_error (l : Listener) (frm : SockAddr) (err : Nat) (msg : CStr) :
    Plain [errorIo l frm err msg] := by
  intro io hio
  rw [List.mem_singleton.mp hio]
  exact ⟨rfl, dataOf_error err msg⟩

theorem Plain.readsFrom {ios : List Io} (h : Plain ios) (w : World) (fd : Fd) :
    ReadsFrom w fd ios := by
  intro io hio
  refine ⟨(h io hio).1, fun x hx => ?_⟩
  rw [(h io hio).2] at hx; cases hx

/-- What `util_read` gives is a piece of what is behind the descriptor. -/
theorem utilRead_some {fd : Fd} {n : Nat} {offs : Int} {d : List UInt8}
    (hr : utilRead w os fd n offs = some d) :
    ∃ content, (w.fdObj fd).bind FdObj.content = some content ∧ d <:+: content := by
  obtain ⟨content, k, hc, -, -, -, rfl⟩ := utilRead_iff.mp hr
  exact ⟨content, hc, (List.take_prefix _ _).isInfix.trans (List.drop_suffix _ _).isInfix⟩

theorem blockIos_readsFrom {n len : Nat} {offs : Int} {fd : Fd} :
    ReadsFrom w fd (blockIos c os l dl frm n (utilRead w os fd len offs)) := by
  cases hd : utilRead w os fd len offs with
  | none =>
    intro io hio
    simp only [blockIos, if_pos, List.cons_append, List.nil_append, List.mem_cons, List.not_mem_nil,
      or_false] at hio
    rcases hio with rfl | rfl
    · exact (plain_error l frm _ _).readsFrom w fd _ (List.mem_singleton.mpr rfl)
    · refine ⟨rfl, fun x hx => .inl ?_⟩
      have : dataOf (tftpDataPkt n none) = some x := hx
      rw [tftpDataPkt, dataOf_short, Option.some.injEq] at this
      exact this.symm
  | some d =>
    intro io hio
    simp only [blockIos, List.mem_append, List.mem_singleton] at hio
    rcases hio with hio | rfl
    · rw [if_neg (by simp)] at hio; cases hio
    · refine ⟨rfl, fun x hx => .inr ?_⟩
      have : dataOf (tftpDataPkt n (some d)) = some x := hx
      rw [tftpDataPkt, dataOf_data, Option.some.injEq] at this
      exact this ▸ utilRead_some hd

theorem readFrame_readsFrom {retcode : UInt8} {fd : Fd} {len : Nat} {offs : Int} :
    ReadsFrom w fd [frameIo l (rmpReadReplFrame p l.eth retcode (utilRead w os fd len offs))] := by
  intro io hio
  rw [List.mem_singleton.mp hio]
  refine ⟨rfl, fun x hx => ?_⟩
  obtain ⟨k, rfl⟩ := readReplData_read p l.eth retcode _ x hx
  cases hd : utilRead w os fd len offs with
  | none => exact .inl (by simp)
  | some d =>
    obtain ⟨content, hc, hinf⟩ := utilRead_some hd
    exact .inr ⟨content, hc, (List.take_prefix _ _).isInfix.trans hinf⟩

theorem plain_refused (l : Listener) (p : Pkt) (retcode : UInt8) :
    Plain [frameIo l (rmpReadReplFrame p l.eth retcode (some []))] := by
  intro io hio
  rw [List.mem_singleton.mp hio]
  exact ⟨rfl, readReplData_refused p l.eth retcode⟩

/-- The session of a granted request, once its file is open. -/
theorem live_opened (ses : Session) (path : Option CStr) (d : List UInt8) (hlt : h < w.hosts.length) :
    ((w.startSession h ses).opened h w.sessions.length path d).sessionOf h = some w.sessions.length ∧
      ((w.startSession h ses).opened h w.sessions.length path d).live w.sessions.length =
        some (ses.setBfFd w.freeFd) := by
  constructor
  · have := sessionOf_startSession w h ses h
    rwa [if_pos ⟨rfl, hlt⟩] at this
  · have := live_startSession w h ses w.sessions.length
    rw [if_pos rfl] at this
    show Slots.get (Slots.update (w.startSession h ses).sessions _ _) _ = _
    rw [Slots.get_update, if_pos rfl]
    show Option.map _ ((w.startSession h ses).live _) = _
    rw [this]; rfl

/-- A granted read request, whichever way it ends. -/
theorem Granted.granting {f : File} {nl : Option Listener} (hlt : h < w.hosts.length)
    (hmax : w.gNSessions < c.cSessionMax)
    (hg : Granted c os l frm h f nl w.sessions.length
      (w.startSession h (.fresh serviceTftp frm.port.toNat os.now)) w') :
    Granting c os serviceTftp frm.port.toNat h f w w' := by
  cases hg with
  | openFailed err ho => exact .failed _ err _ hmax rfl ho (plain_error _ _ _ _)
  | noListener d ho hn =>
    exact .opened _ d (fun ses => { ses with sid := frm.port.toNat, l := none }) _ _ hmax rfl ho
      (fun _ => ⟨rfl, rfl, fun _ => rfl⟩) rfl ((plain_error _ _ _ _).readsFrom _ _)
  | sent d dl ses ho hn hs =>
    have hfd : ses.bfFd = w.freeFd := by
      have hl := (live_opened (.fresh serviceTftp frm.port.toNat os.now) f.path d hlt).2
      rw [World.live, World.attach_sessions, Slots.get_update, if_pos rfl] at hs
      rw [World.live] at hl
      rw [hl] at hs
      cases hs
      exact Vector.getElem_set_self _
    refine .opened _ d (fun ses => { ses with sid := frm.port.toNat, l := nl.map Listener.id }) _ _
      hmax rfl ho (fun _ => ⟨rfl, rfl, fun _ => rfl⟩) rfl ?_
    rw [hfd]; exact blockIos_readsFrom

theorem emits_nil (w : World) : w.emits [] = w := by
  rw [World.emits, List.append_nil]

theorem setSession_id (w : World) (s : SessId) : w.setSession s id = w := by
  simp [World.setSession, Slots.update]

/-- A granted boot request; no packet is sent. -/
theorem Booted.granting {f : File} {sid : Int} (hmax : w.gNSessions < c.cSessionMax)
    (hb : Booted os h f w.sessions.length (w.startSession h (.fresh serviceRmp sid os.now)) w') :
    Granting c os serviceRmp sid h f w w' := by
  cases hb with
  | openFailed err ho =>
    rw [← emits_nil (World.openFailed _ _ _ _)]
    exact .failed _ err [] hmax rfl ho plain_nil
  | opened d ho =>
    rw [← emits_nil (World.opened _ _ _ _ _), ← setSession_id (World.opened _ _ _ _ _)]
    exact .opened _ d id [] _ hmax rfl ho (fun _ => ⟨rfl, rfl, id⟩) rfl (plain_nil.readsFrom _ _)

theorem Booted.silent {f : File} {sid : Int}
    (hb : Booted os h f w.sessions.length (w.startSession h (.fresh serviceRmp sid os.now)) w') :
    ∀ io ∈ w'.out, io.isPacket = true → io ∈ w.out := by
  intro io hio hp
  have hio : io ∈ w.out ∨ io = .start h w.sessions.length ∨
      ∃ path r, io = .openFile h w.sessions.length path r := by
    cases hb <;>
    · simp only [World.openFailed_out, World.opened_out, World.startSession_out, List.mem_append,
        List.mem_singleton] at hio
      rcases hio with (hio | hio) | hio
      · exact .inl hio
      · exact .inr (.inl hio)
      · exact .inr (.inr ⟨_, _, hio⟩)
  rcases hio with hio | rfl | ⟨path, r, rfl⟩
  · exact hio
  · cases hp
  · cases hp

theorem Granting.nothing {svc : Nat} {sid : Int} {f : File} (hmax : c.cSessionMax ≤ w.gNSessions) :
    Granting c os svc sid h f w w := by
  have h0 : Granting c os svc sid h f w (w.emits []) := .busy [] hmax plain_nil
  rwa [emits_nil] at h0

theorem Served.nothing (hf : e.file host = none) : Served c e h host w w := by
  have := Served.plain (c := c) (h := h) (w := w) [] hf plain_nil
  rwa [emits_nil] at this

theorem tftp_served (hr : tftpHandler c os l frm loc pkt w = .ok u w') :
    (utilIp2host w frm.addr = .ok none ∧ ∃ ios, Plain ios ∧ w' = w.emits ios) ∨
      ∃ h host, utilIp2host w frm.addr = .ok (some h) ∧ w.hosts[h]? = some host ∧
        Served c (.udp os l frm loc pkt) h host w w' := by
  rcases tftpHandler_ok hr with ⟨hip, rfl⟩ | ⟨h, host, hip, hh, hcase⟩
  · exact .inl ⟨hip, _, plain_error _ _ _ _, rfl⟩
  refine .inr ⟨h, host, hip, hh, ?_⟩
  rcases hcase with ⟨hsvc, rfl⟩ | ⟨hsvc, hd⟩
  · exact .plain _ (if_neg fun hf => hf.1 hsvc) (plain_error _ _ _ _)
  have hno : pkt.tftpOp ≠ .rrq → (Ev.udp os l frm loc pkt).file host = none :=
    fun hop => if_neg fun hf => hop hf.2
  unfold tftpDispatch at hd
  cases hop : pkt.tftpOp with
  | rrq =>
    have hfile : (Ev.udp os l frm loc pkt).file host = tftpFile host pkt := if_pos ⟨hsvc, hop⟩
    cases hf : tftpFile host pkt with
    | none =>
      simp only [hop, hf, tftpSendError_ok] at hd
      rw [← hd]
      exact .plain _ (hfile.trans hf) (plain_error _ _ _ _)
    | some f =>
      simp only [hop, hf] at hd
      obtain ⟨es, w₁, nl, w₂, ps, w₃, he, hown, hnl, hpath, hlive, he', hlt, hnone, hcase⟩ :=
        tftpRrq_ok hd
      refine .request f nl w₂ ps w₃ w' (hfile.trans hf) (.tftp _ _ _ _ _ es w₁ nl w₂ he hown hnl)
        hpath hlive he' hlt hnone ?_ (fun hb => by cases hb)
      rcases hcase with ⟨hmax, rfl⟩ | ⟨hmax, hg⟩
      · exact .busy _ hmax (plain_error _ _ _ _)
      · exact hg.granting hlt hmax
  | wrq | data =>
    simp only [hop, tftpSendError_ok] at hd
    rw [← hd]
    exact .plain _ (hno (by rw [hop]; simp)) (plain_error _ _ _ _)
  | ack =>
    have hfile := hno (by rw [hop]; simp)
    simp only [hop] at hd
    rcases tftpAck_ok hd with ⟨s, ses, hs, hl, -, -, rfl⟩ | ⟨-, rfl⟩ | rfl
    · exact .answer s ses _ hfile hs hl rfl blockIos_readsFrom
    · exact .nothing hfile
    · exact .plain _ hfile (plain_error _ _ _ _)
  | error | unknown n =>
    simp only [hop, Exec.pure_ok] at hd
    rw [← hd.2]
    exact .nothing (hno (by rw [hop]; simp))

theorem rmp_dispatch_served (hsvc : host.service &&& serviceRmp ≠ 0)
    (hd : rmpDispatch c os l p h host w = .ok u w') :
    Served c (.link os l p) h host w w' := by
  have hno : p.rmpOp ≠ .bootReq → (Ev.link os l p).file host = none :=
    fun hop => if_neg fun hf => hop hf.2.1
  unfold rmpDispatch at hd
  cases hop : p.rmpOp with
  | bootReq =>
    simp only [hop] at hd
    split at hd
    · rename_i hver
      simp only [Exec.pure_ok] at hd
      rw [← hd.2]
      exact .nothing (if_neg fun hf => hver hf.2.2.1)
    · rename_i hver
      split at hd
      · rename_i hsid
        obtain ⟨filename, retcode, -, rfl⟩ := rmpProbe_ok hd
        refine .plain _ (if_neg fun hf => hf.2.2.2 hsid) fun io hio => ?_
        rw [List.mem_singleton.mp hio]
        exact ⟨rfl, readReplData_boot p l.eth retcode filename⟩
      · rename_i hsid
        obtain ⟨f, ps, w₃, hf, hpath, hlive, he, hlt, hnone, hcase⟩ := rmpBoot_ok hd
        have hfile : (Ev.link os l p).file host = some f :=
          (if_pos ⟨hsvc, hop, not_not.mp hver, hsid⟩).trans hf
        rcases hcase with ⟨hmax, rfl⟩ | ⟨hmax, hb⟩
        · exact .request f none w.nextSid ps w' w' hfile (.rmp os l p) hpath hlive he hlt hnone
            (.nothing hmax) fun _ _ hio _ => hio
        · exact .request f none w.nextSid ps w₃ w' hfile (.rmp os l p) hpath hlive he hlt hnone
            (hb.granting hmax) fun _ => hb.silent
  | readReq =>
    have hfile := hno (by rw [hop]; simp)
    simp only [hop] at hd
    rcases rmpRead_ok hd with ⟨check, -, -, rfl⟩ | ⟨s, ses, data, hs, hl, -, -, rfl, rfl⟩
    · exact .plain _ hfile (plain_refused l p _)
    · refine .answer s ses _ hfile hs hl ?_ readFrame_readsFrom
      simp [Ev.isBoot, hop]
  | bootDone =>
    simp only [hop] at hd
    obtain ⟨es, he, -, hown⟩ := hostSessionDelete_ok hd
    exact .done es w' (hno (by rw [hop]; simp)) ⟨hsvc, hop⟩ he hown
  | other n =>
    simp only [hop, Exec.pure_ok] at hd
    rw [← hd.2]
    exact .nothing (hno (by rw [hop]; simp))

theorem frames_plain (l : Listener) (p : Pkt) (ip : Ip) (eth : Ether) (hip : Ip) :
    Plain [.arp ip eth, frameIo l (rarpReplFrame p l.eth l.ip hip os.stack)] := by
  intro io hio
  rcases List.mem_pair.mp hio with rfl | rfl
  · exact ⟨rfl, rfl⟩
  · exact ⟨rfl, readReplData_rarp p l.eth l.ip hip os.stack⟩

/-- **Everything a packet can do**: it is refused with at most a packet or two
sent, or a host is found for it (or made) and it is served. -/
theorem handle_ok (hr : e.handle c w = .ok u w') :
    (∃ ios, Plain ios ∧ w' = w.emits ios) ∨
      ∃ t h w₁ host, Admitted c w e t h w₁ ∧ w₁.hosts[h]? = some host ∧
        Served c e h host w₁ w' := by
  cases e with
  | udp os l frm loc pkt =>
    rcases tftp_served hr with ⟨-, ios, hp, rfl⟩ | ⟨h, host, hip, hh, hs⟩
    · exact .inl ⟨ios, hp, rfl⟩
    · exact .inr ⟨h, h, w, host, .known _ h hip id, hh, hs⟩
  | link os l p =>
    have hr : linkCallback c os l p w = .ok u w' := hr
    unfold linkCallback at hr
    split at hr
    · rcases rarpHandler_ok hr with rfl | ⟨ip, eth, hip, rfl⟩
      · exact .inl ⟨[], plain_nil, (emits_nil w').symm⟩
      · exact .inl ⟨_, frames_plain l p ip eth hip, rfl⟩
    split at hr
    · rename_i hsap
      rcases rmpHandler_ok hr with ⟨-, rfl⟩ | ⟨hrmp, o, w₁, hhost, hcase⟩
      · exact .inl ⟨[], plain_nil, (emits_nil w').symm⟩
      have hisrmp : (Ev.link os l p).isRmp = true := Bool.and_eq_true_iff.mpr ⟨hsap, hrmp⟩
      rcases hcase with ⟨rfl, rfl⟩ | ⟨h, host, rfl, hh, hcase⟩
      · cases hhost
        exact .inl ⟨[], plain_nil, (emits_nil _).symm⟩
      have hserved : Served c (.link os l p) h host w₁ w' := by
        rcases hcase with ⟨hsvc, rfl⟩ | ⟨hsvc, hd⟩
        · exact .nothing (if_neg fun hf => hf.1 hsvc)
        · exact rmp_dispatch_served hsvc hd
      cases hhost with
      | known _ hk =>
        refine .inr ⟨h, h, w, host, .known _ h ?_ ?_, hh, hserved⟩
        · rw [Ev.host, if_pos hisrmp, hk]
        · intro hc
          rw [hc.2.2] at hk; cases hk
      | cloned t tmpl _ b _ hk hop ht htm hadd =>
        refine .inr ⟨t, h, w₁, host, .cloned os l p t tmpl h b w₁ ?_ ?_ htm hadd, hh, hserved⟩
        · rw [Ev.host, if_pos hisrmp, hk, if_pos hop, ht]
        · exact ⟨hisrmp, decide_eq_true hop, hk⟩
    · simp only [Exec.pure_ok] at hr
      exact .inl ⟨[], plain_nil, (emits_nil w).symm ▸ hr.2.symm⟩

end

/-! ## The host table of a run -/

/-- Only the session pointers of the host records differ. -/
structure SameHosts (w w' : World) : Prop where
  gHosts : w'.gHosts = w.gHosts
  hosts : ∀ p, w'.hosts[p]? = (w.hosts[p]?).map fun h : Host =>
    ({ h with session := w'.sessionOf p } : Host)

/-- No host twice, and only complete records. -/
structure HostsOk (w : World) (L : List HostId) : Prop where
  lasso : Chain.Lasso w.next w.gHosts L
  complete : ∀ p ∈ L, ∀ h, w.hosts[p]? = some h → h.Complete

section
variable {c : Conf} {os : Os} {e : Ev} {t h p : HostId} {tmpl host : Host} {w w' w₁ w₂ : World}
  {L : List HostId} {test : Host → Except Fault Bool}

theorem SameHosts.of_eq (hg : w'.gHosts = w.gHosts) (hh : w'.hosts = w.hosts) : SameHosts w w' := by
  refine ⟨hg, fun p => ?_⟩
  unfold World.sessionOf
  rw [hh]
  cases w.hosts[p]? <;> rfl

theorem SameHosts.trans (h : SameHosts w w₁) (h' : SameHosts w₁ w₂) : SameHosts w w₂ := by
  refine ⟨h'.gHosts.trans h.gHosts, fun p => ?_⟩
  rw [h'.hosts p, h.hosts p]
  cases w.hosts[p]? <;> rfl

theorem SameHosts.next (h : SameHosts w w') (p : HostId) : w'.next p = w.next p := by
  unfold World.next
  rw [h.hosts p]
  cases w.hosts[p]? <;> rfl

theorem SameHosts.lt (h : SameHosts w w') (hp : p < w.hosts.length) : p < w'.hosts.length := by
  have hh := h.hosts p
  rw [List.getElem?_eq_getElem hp] at hh
  exact (List.getElem?_eq_some_iff.mp hh).1

theorem SameHosts.hostsOk (h : SameHosts w w') (hok : HostsOk w L) : HostsOk w' L := by
  refine ⟨?_, fun p hp g hg => ?_⟩
  · rw [h.gHosts]
    exact hok.lasso.congr fun a _ => h.next a
  · rw [h.hosts p, Option.map_eq_some_iff] at hg
    obtain ⟨g, hg, rfl⟩ := hg
    have := hok.complete p hp g hg
    exact ⟨this.name, this.service, this.files⟩

theorem HostsOk.emits (hok : HostsOk w L) (ios : List Io) : HostsOk (w.emits ios) L :=
  (SameHosts.of_eq rfl rfl : SameHosts w (w.emits ios)).hostsOk hok

theorem HostsOk.start (hok : HostsOk w L) : HostsOk w.start L :=
  (SameHosts.of_eq rfl rfl : SameHosts w w.start).hostsOk hok

theorem SameHosts.ends {es : List (HostId × SessId)} (h : Ends es w w') : SameHosts w w' :=
  ⟨h.frame.gHosts, h.frame.hosts⟩

theorem SameHosts.prelude {nl : Option Listener} (h : Prelude p w e nl w') : SameHosts w w' := by
  cases h with
  | tftp os l frm loc pkt es w₁ nl w₂ he hown hnl =>
    refine (SameHosts.ends he).trans ?_
    cases hnl <;> exact .of_eq rfl rfl
  | rmp => exact .of_eq rfl rfl

theorem SameHosts.startSession (w : World) (p : HostId) (ses : Session) :
    SameHosts w (w.startSession p ses) := by
  refine ⟨rfl, fun q => ?_⟩
  rw [sessionOf_startSession, World.startSession_hosts, List.getElem?_modify]
  cases hq : w.hosts[q]? with
  | none => rfl
  | some g =>
    have hlt := (List.getElem?_eq_some_iff.mp hq).1
    by_cases hpq : q = p
    · subst hpq; simp [hlt]
    · simp [hpq, Ne.symm hpq, sessionOf_eq hq]

theorem SameHosts.granting {svc : Nat} {sid : Int} {f : File} (h : Granting c os svc sid p f w w') :
    SameHosts w w' := by
  cases h with
  | busy => exact .of_eq rfl rfl
  | failed ses => exact (SameHosts.startSession w p ses).trans (.of_eq rfl rfl)
  | opened ses d g ios w' _ _ _ _ hw =>
    subst hw
    exact (SameHosts.startSession w p ses).trans (.of_eq rfl rfl)

theorem SameHosts.served (h : Served c e p host w w') : SameHosts w w' := by
  cases h with
  | plain => exact .of_eq rfl rfl
  | answer => exact .of_eq rfl rfl
  | done es w' _ _ he => exact .ends he
  | request f nl w₀ ps w₃ w' _ hpre _ _ he _ _ hg _ =>
    exact ((SameHosts.prelude hpre).trans (.ends he)).trans (.granting hg)

/-! ### Lookups -/

theorem hostFind_mem (hok : HostsOk w L) (h : hostFind w test = .ok (some p)) : p ∈ L := by
  obtain ⟨hhead, hnext⟩ := hok.lasso.closed
  refine Chain.find_mem (fun a ha hit q hq b hb => ?_) hhead h
  obtain ⟨n, hn, hmem⟩ := hnext a ha
  obtain ⟨g, hg, rfl⟩ := Option.map_eq_some_iff.mp hn
  simp only [hostNode, hg] at hq
  split at hq
  · cases hq
  · cases hq
    exact hmem b hb

/-- A lookup returns a host that passes its test. -/
theorem hostFind_hit (h : hostFind w test = .ok (some p)) :
    ∃ host, w.hosts[p]? = some host ∧ test host = .ok true := by
  obtain ⟨ps, -, -, -, hhit⟩ := Chain.find_ok h
  obtain ⟨q, hq⟩ := hhit p rfl
  simp only [hostNode] at hq
  split at hq
  · cases hq
  · rename_i host hh
    split at hq
    · cases hq
    · rename_i b hb
      cases hq
      exact ⟨host, hh, hb⟩

/-- A lookup that finds nobody has seen every listed host. -/
theorem hostFind_none (h : hostFind w test = .ok none) :
    ∃ ps, Chain.Path w.next w.gHosts ps none ∧
      ∀ p ∈ ps, ∃ host, w.hosts[p]? = some host ∧ test host = .ok false := by
  obtain ⟨ps, hpath, -, hmiss, -⟩ := Chain.find_ok h
  have hload : ∀ p ∈ ps, ∃ host, w.hosts[p]? = some host ∧ test host = .ok false ∧
      hostNode w test p = .ok (false, host.next) := by
    intro p hp
    obtain ⟨r, hr⟩ := hmiss p hp
    have hr' := hr
    simp only [hostNode] at hr'
    split at hr'
    · cases hr'
    · rename_i host hh
      split at hr'
      · cases hr'
      · rename_i b hb
        cases hr'
        exact ⟨host, hh, hb, hr⟩
  refine ⟨ps, hpath.congr fun a ha => ?_, fun p hp => ?_⟩
  · obtain ⟨host, hh, -, hn⟩ := hload a ha
    rw [next_eq hh, hn]; rfl
  · obtain ⟨host, hh, hb, -⟩ := hload p hp
    exact ⟨host, hh, hb⟩

theorem Ev.host_mem (hok : HostsOk w L) (h : e.host w = .ok (some t)) : t ∈ L := by
  cases e with
  | udp os l frm loc pkt => exact hostFind_mem hok h
  | link os l p =>
    simp only [Ev.host] at h
    split at h
    · split at h
      · split at h
        · exact hostFind_mem hok h
        · cases h
      · exact hostFind_mem hok h
    · cases h

/-! ### Clones -/

/-- A clone of a listed host: the table with the new record behind it, or
without it if `host_add` refuses it. -/
theorem clone_ok {eth : Ether} {b : Bool} (hok : HostsOk w L) (ht : t ∈ L)
    (htm : w.hosts[t]? = some tmpl)
    (hadd : hostAddNew c os (cloneOf tmpl none (some eth) none) w = .ok (h, b) w₁) :
    h = w.hosts.length ∧ AddFrame w w₁ ∧ HostsOk w₁ (if b then L ++ [h] else L) ∧
      ∃ host, w₁.hosts[h]? = some host ∧ host.session = tmpl.session ∧
        host.service = tmpl.service ∧ host.files = tmpl.files ∧
        ∀ ps, Chain.Path w₁.next w₁.gHosts ps none → Chain.Path w.next w.gHosts L none := by
  obtain ⟨h', complete, hc, rfl, hp, hf, hcase⟩ := hostAddNew_ok hok.lasso hadd
  obtain ⟨hnext, hses, -, hcomp, hkeep⟩ := hostComplete_ok hc
  have htc := hok.complete t ht tmpl htm
  obtain ⟨hsvc, hfiles⟩ := hkeep htc.service
  have hfiles := hfiles fun f hf => (htc.files f hf).2.2
  obtain ⟨-, r, hLp, -⟩ := id hok.lasso
  have hlt := path_lt hLp
  have hold : ∀ q ∈ L, ∀ g, w₁.hosts[q]? = some g → g.Complete := by
    intro q hq g hg
    rw [hf.hosts q (hlt q hq), Option.map_eq_some_iff] at hg
    obtain ⟨g, hg, rfl⟩ := hg
    have := hok.complete q hq g hg
    exact ⟨this.name, this.service, this.files⟩
  rcases hcase with ⟨rfl, hg, hnx, -⟩ | ⟨rfl, hcm, hpath, hpath', -⟩
  · have hlasso : Chain.Lasso w₁.next w₁.gHosts L := by
      rw [hg]; exact hok.lasso.congr fun a ha => hnx a (hlt a ha)
    refine ⟨rfl, hf, ⟨hlasso, hold⟩, h', hp, hses, hsvc, hfiles, fun ps hps => ?_⟩
    rw [hlasso.eq_of_path hps, ← hg]
    exact hps.congr fun a ha => (hnx a (hlt a (hlasso.eq_of_path hps ▸ ha))).symm
  · refine ⟨rfl, hf, ?_, h', hp, hses, hsvc, hfiles, fun _ _ => hpath⟩
    rw [if_pos rfl]
    refine ⟨⟨?_, h'.next, hpath', fun a ha => ?_⟩, fun q hq g hg => ?_⟩
    · rw [List.nodup_append]
      refine ⟨hok.lasso.1, List.nodup_singleton _, fun a ha b hb e => ?_⟩
      rw [e, List.mem_singleton.mp hb] at ha
      exact absurd (hlt _ ha) (Nat.lt_irrefl _)
    · -- the clone points where the template does
      rw [hnext] at ha
      obtain ⟨n, hn, hmem⟩ := hok.lasso.closed.2 t ht
      rw [next_eq htm] at hn
      cases hn
      exact List.mem_append_left _ (hmem a ha)
    · rcases List.mem_append.mp hq with hq | hq
      · exact hold q hq g hg
      · rw [List.mem_singleton.mp hq, hp] at hg; cases hg
        exact hcomp hcm

theorem Admitted.hostsOk (hok : HostsOk w L) (ha : Admitted c w e t h w₁) : ∃ L', HostsOk w₁ L' := by
  cases ha with
  | known => exact ⟨L, hok⟩
  | cloned os l p t tmpl h b w' hhost hcl htm hadd =>
    exact ⟨_, (clone_ok hok (Ev.host_mem hok hhost) htm hadd).2.2.1⟩

/-- The host that a packet is served as has the files of the one it is charged
to, so it gets the file that the packet asks for. -/
theorem Admitted.requests {f : File} (hok : HostsOk w L) (ha : Admitted c w e t h w₁)
    (hh : w₁.hosts[h]? = some host) (hf : e.file host = some f) : e.Requests w t f := by
  cases ha with
  | known e h hhost hcl => exact ⟨hhost, host, hh, hf⟩
  | cloned os l p t tmpl h b w' hhost hcl htm hadd =>
    obtain ⟨-, -, -, g, hg, -, hsvc, hfiles, -⟩ := clone_ok hok (Ev.host_mem hok hhost) htm hadd
    rw [hh] at hg; cases hg
    refine ⟨hhost, tmpl, htm, ?_⟩
    rw [← hf]
    simp only [Ev.file, rmpFile, hsvc, hfiles]

/-! ### The table only grows -/

/-- Host records are only added, and hung behind the others. -/
structure Grown (w w' : World) : Prop where
  head : ∀ p, w.gHosts = some p → w'.gHosts = some p
  linked : ∀ p q, w.next p = some (some q) → w'.next p = some (some q)
  hosts : ∀ (p : HostId) (host : Host), w.hosts[p]? = some host →
    ∃ n s, w'.hosts[p]? = some ({ host with next := n, session := s } : Host)
  length : w.hosts.length ≤ w'.hosts.length

theorem Grown.trans (h : Grown w w₁) (h' : Grown w₁ w₂) : Grown w w₂ := by
  refine ⟨fun p hp => h'.head p (h.head p hp), fun p q hp => h'.linked p q (h.linked p q hp),
    fun p host hh => ?_, h.length.trans h'.length⟩
  obtain ⟨n, s, hh⟩ := h.hosts p host hh
  obtain ⟨n', s', hh⟩ := h'.hosts p _ hh
  exact ⟨n', s', hh⟩

theorem SameHosts.grown (h : SameHosts w w') : Grown w w' := by
  refine ⟨fun p hp => h.gHosts.trans hp, fun p q hp => (h.next p).trans hp, fun p host hh => ?_, ?_⟩
  · exact ⟨host.next, w'.sessionOf p, by rw [h.hosts p, hh]; rfl⟩
  · have := h.hosts w'.hosts.length
    rw [List.getElem?_eq_none (Nat.le_refl _), eq_comm, Option.map_eq_none_iff] at this
    exact List.getElem?_eq_none_iff.mp this

theorem AddFrame.grown (hf : AddFrame w w') : Grown w w' := by
  refine ⟨hf.head, hf.linked, fun p host hh => ?_, by rw [hf.length]; exact Nat.le_succ _⟩
  have hlt := (List.getElem?_eq_some_iff.mp hh).1
  exact ⟨(w'.next p).join, host.session, by rw [hf.hosts p hlt, hh]; rfl⟩

/-- A host that was found is still found. -/
theorem Grown.hostFind (h : Grown w w') (hf : Bootd.hostFind w test = .ok (some p))
    (htest : ∀ (host : Host) n s, test ({ host with next := n, session := s } : Host) = test host) :
    Bootd.hostFind w' test = .ok (some p) := by
  obtain ⟨p₀, hhead⟩ : ∃ p₀, w.gHosts = some p₀ := by
    cases hg : w.gHosts with
    | none => rw [Bootd.hostFind, hg] at hf; cases hl : w.hosts.length <;> simp [hl, Chain.find] at hf
    | some p₀ => exact ⟨p₀, rfl⟩
  have hload : ∀ a b q, hostNode w test a = .ok (b, q) →
      ∃ host n s, w.hosts[a]? = some host ∧ test host = .ok b ∧ host.next = q ∧
        w'.hosts[a]? = some ({ host with next := n, session := s } : Host) := by
    intro a b q hn
    simp only [hostNode] at hn
    split at hn
    · cases hn
    · rename_i host hh
      split at hn
      · cases hn
      · rename_i b' hb
        cases hn
        obtain ⟨n, s, hh'⟩ := h.hosts a host hh
        exact ⟨host, n, s, hh, hb, rfl, hh'⟩
  unfold Bootd.hostFind at hf ⊢
  rw [hhead] at hf
  rw [h.head p₀ hhead]
  refine Chain.find_grown h.length (fun a q hn => ?_) (fun a q hn => ?_) hf
  · obtain ⟨host, n, s, hh, hb, hq, hh'⟩ := hload a _ _ hn
    have hnext := h.linked a q (by rw [World.next, hh]; exact congrArg some hq)
    rw [World.next, hh'] at hnext
    have hnq : n = some q := Option.some.inj hnext
    simp only [hostNode, hh', htest, hb, hnq]
  · obtain ⟨host, n, s, hh, hb, hq, hh'⟩ := hload a _ _ hn
    exact ⟨n, by simp only [hostNode, hh', htest, hb]⟩

theorem Grown.utilIp2host {ip : Ip} (h : Grown w w') (hf : Bootd.utilIp2host w ip = .ok (some p)) :
    Bootd.utilIp2host w' ip = .ok (some p) :=
  h.hostFind hf fun _ _ _ => rfl

theorem handle_grown {u : Unit} (hok : HostsOk w L) (hr : e.handle c w = .ok u w') : Grown w w' := by
  rcases handle_ok hr with ⟨ios, -, rfl⟩ | ⟨t, h, w₁, host, ha, hh, hs⟩
  · exact (SameHosts.of_eq rfl rfl : SameHosts w (w.emits ios)).grown
  · refine Grown.trans ?_ (SameHosts.served hs).grown
    cases ha with
    | known => exact (SameHosts.of_eq rfl rfl : SameHosts w w).grown
    | cloned os l p t tmpl h b w' hhost hcl htm hadd =>
      exact (clone_ok hok (Ev.host_mem hok hhost) htm hadd).2.1.grown

theorem boot_hostsOk (hb : Boot c w) : ∃ L, HostsOk w L := by
  obtain ⟨t, ht, hh, hg⟩ := hb.hosts
  have hi := (configured_inv ht).1
  have hnext : t.w.next = w.next := by
    funext p; unfold World.next; rw [hh]
  have hchain := hi.chain
  rw [hnext, hg] at hchain
  refine ⟨t.accepted, .of_path hchain, fun p hp g hg => hi.complete p hp g ?_⟩
  rw [hh]; exact hg

theorem boot_sessionOf (hb : Boot c w) (p : HostId) : w.sessionOf p = none := by
  obtain ⟨t, ht, hh, -⟩ := hb.hosts
  rw [World.sessionOf, ← hh]
  exact (configured_inv ht).2 p

theorem handle_hostsOk {u : Unit} (hok : HostsOk w L) (hr : e.handle c w = .ok u w') :
    ∃ L', HostsOk w' L' := by
  rcases handle_ok hr with ⟨ios, -, rfl⟩ | ⟨t, h, w₁, host, ha, hh, hs⟩
  · exact ⟨L, hok.emits ios⟩
  · obtain ⟨L', hok'⟩ := ha.hostsOk hok
    exact ⟨L', (SameHosts.served hs).hostsOk hok'⟩

theorem daemon_hostsOk (σ : Sys) (hr : (daemon c).Reachable σ) : ∃ L, HostsOk σ.w L := by
  have hind : (daemon c).Inductive fun σ => ∃ L, HostsOk σ.w L := by
    refine ⟨fun σ h => boot_hostsOk h.1, fun σ e σ' hi hs => ?_⟩
    obtain ⟨L, hok⟩ := hi
    exact handle_hostsOk hok.start hs.2.1
  exact hind.reachable σ hr

end
end Bootd
