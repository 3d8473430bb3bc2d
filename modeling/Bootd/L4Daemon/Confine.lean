import Bootd.L4Daemon.Step

/-!
# Only configured files are opened

A client names a file, but what is opened is the path of the record that the
name was matched with. `Allowed` spells out where that record has to come from;
`daemon_opens_configured` is that every `open` of every run meets it, also in a
handler that does not return.
-/
namespace Bootd

open Bootd.Core

/-- The file name in the packet. -/
def Ev.requested : Ev → Option CStr
  | .udp _ _ _ _ pkt => (tftpGetFilename pkt).map cstrOf
  | .link _ _ p => some p.rmpFilename

/-- The source of the packet identifies `host`: by address, by Ethernet
address, or, if no listed host has that one, as the template that a boot request
names. -/
def Ev.Identifies (w : World) (host : Host) : Ev → Prop
  | .udp _ _ frm _ _ => host.ip = frm.addr
  | .link _ _ p => host.eth = p.rmpSaddr ∨ p.rmpOp = .bootReq ∧
      (∀ q g, w.Listed q → w.hosts[q]? = some g → g.eth ≠ p.rmpSaddr) ∧
      ∃ n, host.name = some n ∧ strcasecmp p.rmpMachtype n = true

/-- Opening `path` is what the configuration allows for the packet: it is the
path of a record of the listed host `t` that the source identifies, both have
the protocol's bit, and the record goes by the requested name or is a wildcard.
-/
structure Allowed (w : World) (e : Ev) (t : HostId) (path : Option CStr) : Prop where
  listed : w.Listed t
  record : ∃ host f name, w.hosts[t]? = some host ∧ e.Identifies w host ∧
    host.service &&& e.service ≠ 0 ∧ f ∈ host.files ∧ f.path = path ∧
    f.service &&& e.service ≠ 0 ∧ e.requested = some name ∧ f.AnswersTo name

/-- An `open` in the trace is allowed, for the host itself or, served as its
template, for a new record. -/
def Io.OpenAllowed (w : World) (e : Ev) : Io → Prop
  | .openFile h _ path _ => ∃ t, (h = t ∨ h = w.hosts.length) ∧ Allowed w e t path
  | _ => True

section
variable {c : Conf} {os : Os} {l : Listener} {p : Pkt} {w w₁ : World} {L : List HostId} {h t : HostId}
  {host : Host} {f : File} {e : Ev}

theorem HostsOk.listed_iff (hok : HostsOk w L) : w.Listed t ↔ t ∈ L :=
  hok.lasso.mem_iff.symm

theorem utilEther2host_none {eth : Ether} (h : utilEther2host w eth = .ok none) {q : HostId}
    {g : Host} (hq : w.Listed q) (hg : w.hosts[q]? = some g) : g.eth ≠ eth := by
  obtain ⟨ps, hpath, hmiss⟩ := hostFind_none h
  obtain ⟨host, hh, he⟩ := hmiss q (listed_mem hpath hq)
  rw [hg] at hh; cases hh
  exact beq_eq_false_iff_ne.mp (Except.ok.inj he)

theorem tftp_allowed (hok : HostsOk w L) {frm loc : SockAddr} {pkt : Pkt}
    (hip : utilIp2host w frm.addr = .ok (some h)) (hh : w.hosts[h]? = some host)
    (hsvc : host.service &&& serviceTftp ≠ 0) (hop : pkt.tftpOp = .rrq)
    (hf : tftpFile host pkt = some f) : Allowed w (.udp os l frm loc pkt) h f.path := by
  obtain ⟨g, hg, hhit⟩ := hostFind_hit hip
  rw [hh] at hg; cases hg
  have hname : ∃ st, tftpGetFilename pkt = some st := by
    unfold tftpGetFilename; rw [hop]; exact ⟨_, rfl⟩
  obtain ⟨st, hst⟩ := hname
  rw [tftpFile, hst] at hf
  obtain ⟨hmem, hfsvc, hans⟩ := utilName2file_some hf
  refine ⟨hok.listed_iff.mpr (hostFind_mem hok hip), host, f, cstrOf st, hh, ?_, hsvc, hmem, rfl,
    hfsvc, ?_, hans⟩
  · have : (frm.addr == host.ip) = true := by simpa using hhit
    exact (beq_iff_eq.mp this).symm
  · simp [Ev.requested, hst]

theorem rmp_allowed (hok : HostsOk w L) (hw : RmpHost c os p w (some h) w₁)
    (hh : w₁.hosts[h]? = some host) (hsvc : host.service &&& serviceRmp ≠ 0)
    (hf : rmpFile host p = some f) :
    ∃ t, (h = t ∨ h = w.hosts.length) ∧ Allowed w (.link os l p) t f.path := by
  cases hw with
  | known _ hk =>
    obtain ⟨g, hg, hhit⟩ := hostFind_hit hk
    rw [hh] at hg; cases hg
    obtain ⟨hmem, hfsvc, hans⟩ := utilName2file_some hf
    refine ⟨h, .inl rfl, hok.listed_iff.mpr (hostFind_mem hok hk), host, f, _, hh, .inl ?_, hsvc,
      hmem, rfl, hfsvc, rfl, hans⟩
    have : (host.eth == p.rmpSaddr) = true := by simpa using hhit
    exact beq_iff_eq.mp this
  | cloned t tmpl _ b _ hk hop ht htm hadd =>
    -- the clone has the service mask and the files of its template
    obtain ⟨rfl, -, -, g, hg, -, hgsvc, hgfiles, -⟩ := clone_ok hok (hostFind_mem hok ht) htm hadd
    rw [hh] at hg; cases hg
    obtain ⟨g, hg, hhit⟩ := hostFind_hit ht
    rw [htm] at hg; cases hg
    rw [rmpFile, hgfiles] at hf
    rw [hgsvc] at hsvc
    obtain ⟨hmem, hfsvc, hans⟩ := utilName2file_some hf
    refine ⟨t, .inr rfl, hok.listed_iff.mpr (hostFind_mem hok ht), tmpl, f, _, htm,
      .inr ⟨hop, fun q g hq hg => utilEther2host_none hk hq hg, ?_⟩, hsvc, hmem, rfl, hfsvc, rfl, hans⟩
    unfold hostNamed at hhit
    split at hhit
    · cases hhit
    · rename_i n hn
      exact ⟨n, hn, Except.ok.inj hhit⟩

/-- What a packet opens, from a table without repetition. -/
theorem handle_opens (hok : HostsOk w L) : ∀ io ∈ traceOf (e.handle c) w, io.OpenAllowed w e := by
  have hok' := hok.start
  have hadmin : ∀ io : Io, io.isAdmin = true → io.OpenAllowed w e := by
    intro io hio
    cases io <;> trivial
  cases e with
  | udp os l frm loc pkt =>
    refine tftpHandler_trace w hadmin (fun _ _ => trivial) fun h host f hip hh hsvc hop hf s r => ?_
    exact ⟨h, .inl rfl, tftp_allowed hok hip hh hsvc hop hf⟩
  | link os l p =>
    show ∀ io ∈ traceOf (linkCallback c os l p) w, _
    unfold linkCallback
    split
    · exact (rarpHandler_emits (fun _ _ => trivial) fun _ _ => trivial).trace w
    · split
      · refine rmpHandler_trace w hadmin (fun _ _ => trivial) fun h host f w₁ hw hh hsvc _ hf s r => ?_
        have ha := rmp_allowed (l := l) hok' hw hh hsvc hf
        obtain ⟨t, ht, ha⟩ := ha
        exact ⟨t, ht, ha.listed, ha.record⟩
      · exact (Emits.pure ()).trace w

/-- **Only configured files are opened**: in every reachable state, for every
packet, whether its handler returns or not. -/
theorem daemon_opens_configured (c : Conf) (σ : Sys) (hr : (daemon c).Reachable σ) (e : Ev) :
    ∀ io ∈ traceOf (e.handle c) σ.w, io.OpenAllowed σ.w e := by
  obtain ⟨L, hok⟩ := daemon_hostsOk σ hr
  exact handle_opens hok

/-- A read request for `k` opens `/boot/k`, as it may. -/
theorem daemon_opens_k : .openFile 0 0 (some (cstr "/boot/k")) (some 6) ∈
    traceOf ((readK plainOs).handle plainConf) served ∧
    Allowed served (readK plainOs) 0 (some (cstr "/boot/k")) := by
  have hm : .openFile 0 0 (some (cstr "/boot/k")) (some 6) ∈
      traceOf ((readK plainOs).handle plainConf) served :=
    List.mem_cons_of_mem _ (List.mem_cons_of_mem _ List.mem_cons_self)
  obtain ⟨t, ht, ha⟩ :=
    daemon_opens_configured plainConf bootSys bootSys_reachable (readK plainOs) _ hm
  rcases ht with rfl | ht
  · exact ⟨hm, ha⟩
  · cases ht

end
end Bootd
