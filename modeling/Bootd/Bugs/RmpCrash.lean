import Bootd.L4Daemon.FileLists
import Bootd.L4Daemon.Returns

/-!
# RMP boot requests that end the daemon

A normal boot request logs `f->path` at its end, with `f` still NULL when no
file was found (src/rmp.c:155). A boot request from an unknown machine is
served as a clone. The library stores its name into `name[64]` (src/util.c:126,
133), and `host_add` gets its address with `util_name2ip`, which calls
`log_msg(LOG_ERR)` where a name does not resolve: that exits (src/util.c:97-121).
A clone of a host that is not the last closes the host chain (src/host.c:22), and
one of a host with a session shares it: either way the loop over the sessions does
not come to an end.

Counterexample: a configured host asks for a file that it does not have
(`rmp_boot_crash`).

`rmp_returns_iff`: the frames on which the handler returns, in every reachable
state.
-/
namespace Bootd

open Bootd.Core Bootd.Core.Exec

/-- What a packet for `host` needs: a probe for the server id its name, a boot
request a file and `sweep`, that the sessions can be gone through; the others
`own`, that the host's own session can be followed. -/
def RmpServeSafe (l : Listener) (p : Pkt) (host : Host) (own sweep : Prop) : Prop :=
  host.service &&& serviceRmp ≠ 0 →
    match p.rmpOp with
    | .bootReq => p.rmpBootVersion = rmpVersion →
        if p.rmpSession = rmpProbesid then p.rmpSeq = 0 → l.name ≠ none
        else rmpFile host p ≠ none ∧ sweep
    | .readReq | .bootDone => own
    | .other _ => True

/-- The daemon survives the frame. -/
def RmpSafe (c : Conf) (os : Os) (l : Listener) (p : Pkt) (w : World) : Prop :=
  p.isRmp l.eth = true →
    match utilEther2host w p.rmpSaddr with
    | .error _ => False
    | .ok (some h) => ∀ host, w.hosts[h]? = some host →
        RmpServeSafe l p host (w.OwnLive h) (SweepSafe c os w h)
    | .ok none => p.rmpOp = .bootReq →
        match utilName2host w p.rmpMachtype with
        | .error _ => False
        | .ok none => True
        | .ok (some t) => ∀ tmpl, w.hosts[t]? = some tmpl →
            (utilEtherValid p.rmpSaddr = true → NameFits c os p.rmpSaddr ∧
              NameResolves c os w (cloneName c os p.rmpSaddr)) ∧
            RmpServeSafe l p tmpl True (SweepSafe c os w t ∧ w.idle c os t = none ∧
              (CloneListed c os w p.rmpSaddr → tmpl.next = none))

section
variable {c : Conf} {os : Os} {l : Listener} {p : Pkt} {w : World} {h : HostId} {host : Host}
  {L : List HostId}

theorem rmpProbe_returns (hfiles : ∀ f ∈ host.files, f.name ≠ none) :
    Returns (rmpProbe l p host) w ↔ (p.rmpSeq = 0 → l.name ≠ none) := by
  have hname : (∃ r, rmpProbeName l host p.rmpSeq = .ok r) ↔ (p.rmpSeq = 0 → l.name ≠ none) := by
    unfold rmpProbeName
    by_cases hseq : p.rmpSeq = 0
    · simp only [hseq, if_true, true_imp_iff]
      cases l.name with
      | none => simp [bind, Except.bind]
      | some n => exact iff_of_true ⟨_, rfl⟩ (by simp)
    · rw [if_neg hseq]
      refine iff_of_true ?_ fun h0 => absurd h0 hseq
      cases hf : utilName2file host.files serviceRmp none (int32 (p.rmpSeq - 1)) with
      | none => exact ⟨_, rfl⟩
      | some f =>
        obtain ⟨n, hn⟩ := Option.ne_none_iff_exists'.mp (hfiles f (fileRanks_some hf).1)
        simp only [hn]
        exact ⟨_, rfl⟩
  rw [← hname]
  simp only [rmpProbe, returns_liftE_bind]
  refine ⟨fun ⟨r, hr, _⟩ => ?_, fun ⟨r, hr⟩ => ?_⟩
  · exact ⟨r, hr⟩
  · exact ⟨r, hr, _, _, rfl⟩

theorem rmpBoot_returns (hd : Descriptors w) (hlt : h < w.hosts.length) :
    Returns (rmpBoot c os p h host) w ↔ rmpFile host p ≠ none ∧ SweepSafe c os w h := by
  unfold rmpBoot
  cases hf : rmpFile host p with
  | none => simp
  | some f =>
    have hd' : Descriptors w.nextSid := (Carried.of_eq rfl rfl rfl : Carried w w.nextSid).descriptors rfl hd
    have hadd := hostSessionAdd_returns c os h serviceRmp w.nextSid.rmpSid hd'.unlistened
    have hsweep : SweepSafe c os w.nextSid h ↔ SweepSafe c os w h := Iff.rfl
    simp only [ne_eq, reduceCtorEq, not_false_eq_true, true_and, returns_modify_bind, returns_get_bind]
    rw [returns_bind, ← hsweep]
    constructor
    · rintro ⟨b, w', hr, -⟩
      exact (hadd.mp ⟨b, w', hr⟩).2
    · intro hs
      obtain ⟨b, w', hr⟩ := hadd.mpr ⟨hlt, hs⟩
      refine ⟨b, w', hr, ?_⟩
      obtain ⟨ps, w₁, -, -, he, hlt₁, -, hcase⟩ := hostSessionAdd_ok hr
      rw [← he.frame.length] at hlt₁
      rcases hcase with ⟨rfl, -, rfl⟩ | ⟨rfl, -, rfl⟩
      · have hses := sessionOf_startSession w₁ h (.fresh serviceRmp w.nextSid.rmpSid os.now) h
        rw [if_pos ⟨rfl, hlt₁⟩] at hses
        have hl := live_startSession w₁ h (.fresh serviceRmp w.nextSid.rmpSid os.now) w₁.sessions.length
        rw [if_pos rfl] at hl
        obtain ⟨r, w₂, ho⟩ := openFile_returns os f.path hses hl
        exact returns_bind.mpr ⟨r, w₂, ho, returns_pure _⟩
      · exact returns_pure _

theorem rmpRead_returns (hlt : h < w.hosts.length) :
    Returns (rmpRead os l p h) w ↔ w.OwnLive h := by
  have hcheck := hostSessionCheck_returns (w := w) os h serviceRmp p.rmpSession
  simp only [rmpRead]
  rw [returns_bind]
  constructor
  · rintro ⟨r, w', hr, -⟩
    exact (hcheck.mp ⟨r, w', hr⟩).2
  · intro hown
    obtain ⟨r, w', hr⟩ := hcheck.mpr ⟨hlt, hown⟩
    refine ⟨r, w', hr, ?_⟩
    rcases hostSessionCheck_ok hr with ⟨hne, rfl⟩ | ⟨rfl, s, ses, hs, hl, -, -, rfl⟩
    · cases r with
      | noError => exact absurd rfl hne
      | noSession => exact ⟨_, _, rfl⟩
      | badSid => exact ⟨_, _, rfl⟩
    · have hs : (w.touch s os.now).sessionOf h = some s := hs
      simp only [returns_get_bind, hs, returns_loadSession_bind]
      refine ⟨_, live_touch _ hl, ?_⟩
      split <;> exact ⟨_, _, rfl⟩

/-- What the handler does once the host is known. -/
theorem rmpServe_returns (hd : Descriptors w) (hlt : h < w.hosts.length)
    (hfiles : ∀ f ∈ host.files, f.name ≠ none) :
    Returns (if host.service &&& serviceRmp = 0 then pure () else rmpDispatch c os l p h host) w ↔
      RmpServeSafe l p host (w.OwnLive h) (SweepSafe c os w h) := by
  unfold RmpServeSafe
  by_cases hsvc : host.service &&& serviceRmp = 0
  · rw [if_pos hsvc]
    exact iff_of_true (returns_pure _) fun hne => absurd hsvc hne
  rw [if_neg hsvc]
  simp only [ne_eq, hsvc, not_false_eq_true, true_imp_iff, rmpDispatch]
  cases p.rmpOp with
  | bootReq =>
    simp only
    by_cases hver : p.rmpBootVersion = rmpVersion
    · simp only [hver, not_true_eq_false, if_false, true_imp_iff]
      split
      · exact rmpProbe_returns hfiles
      · exact rmpBoot_returns hd hlt
    · simp [hver]
  | readReq => exact rmpRead_returns hlt
  | bootDone => exact (hostSessionDelete_returns hd.unlistened).trans ⟨And.right, fun hown => ⟨hlt, hown⟩⟩
  | other n => simp

theorem loadHost_serve_returns (c : Conf) (os : Os) (l : Listener) (p : Pkt) (hd : Descriptors w)
    (hh : w.hosts[h]? = some host) (hfiles : ∀ f ∈ host.files, f.name ≠ none) :
    Returns (do
      let host ← loadHost h
      if host.service &&& serviceRmp = 0 then pure () else rmpDispatch c os l p h host) w ↔
      RmpServeSafe l p host (w.OwnLive h) (SweepSafe c os w h) := by
  rw [returns_loadHost_bind, ← rmpServe_returns hd (List.getElem?_eq_some_iff.mp hh).1 hfiles]
  constructor
  · intro ⟨g, hg, hr⟩
    rw [hh] at hg; cases hg
    exact hr
  · exact fun hr => ⟨host, hh, hr⟩

/-- A boot request served as a clone. -/
theorem clone_serve_returns {t : HostId} {tmpl : Host} {b : Bool} {w₁ : World} (hok : HostsOk w L)
    (hd : Descriptors w) (ht : t ∈ L) (htm : w.hosts[t]? = some tmpl) (hop : p.rmpOp = .bootReq)
    (hnone : utilEther2host w p.rmpSaddr = .ok none)
    (hadd : hostAddNew c os (cloneOf tmpl none (some p.rmpSaddr) none) w = .ok (h, b) w₁) :
    Returns (do
      let host ← loadHost h
      if host.service &&& serviceRmp = 0 then pure () else rmpDispatch c os l p h host) w₁ ↔
      RmpServeSafe l p tmpl True (SweepSafe c os w t ∧ w.idle c os t = none ∧
        (CloneListed c os w p.rmpSaddr → tmpl.next = none)) := by
  obtain ⟨ps, hpath, -⟩ := hostFind_none hnone
  obtain rfl := hok.lasso.eq_of_path hpath
  obtain ⟨-, hf, -, g, hg, -, hsvc, hfiles, -⟩ := clone_ok hok ht htm hadd
  have hd₁ : Descriptors w₁ :=
    (Carried.of_eq hf.fds hf.sessions hf.listeners : Carried w w₁).descriptors hf.listeners hd
  rw [loadHost_serve_returns _ _ _ _ hd₁ hg]
  · have hfile : rmpFile g p = rmpFile tmpl p := by rw [rmpFile, hfiles, rmpFile]
    have hlisted : (b = false ∨ tmpl.next = none) ↔
        (CloneListed c os w p.rmpSaddr → tmpl.next = none) := by
      rw [← clone_listed hok ht htm hnone hadd]
      cases b <;> simp
    unfold RmpServeSafe
    simp only [hop, hsvc, hfile, clone_sweepSafe hok ht htm hpath hadd, hlisted]
  · rw [hfiles]
    exact fun f hf => ((hok.complete t ht tmpl htm).files f hf).2.1

theorem rmpHandler_returns (hok : HostsOk w L) (hfit : w.ListedFit c L) (hd : Descriptors w) :
    Returns (rmpHandler c os l p) w ↔ RmpSafe c os l p w := by
  unfold rmpHandler RmpSafe
  by_cases hrmp : p.isRmp l.eth = true
  swap
  · rw [if_neg hrmp]
    exact iff_of_true (returns_pure _) fun h => absurd h hrmp
  rw [if_pos hrmp]
  simp only [hrmp, true_imp_iff]
  obtain ⟨-, r, hLp, -⟩ := id hok.lasso
  cases hk : utilEther2host w p.rmpSaddr with
  | error e =>
    refine iff_of_false ?_ id
    rw [rmpHost, bind_assoc, returns_get_bind, bind_assoc, hk]
    exact returns_throw e
  | ok o =>
    cases o with
    | some h =>
      have hmem := hostFind_mem hok hk
      have hlt := path_lt hLp h hmem
      have hh : w.hosts[h]? = some w.hosts[h] := List.getElem?_eq_getElem hlt
      have hserve := loadHost_serve_returns c os l p hd hh
        fun f hf => ((hok.complete h hmem _ hh).files f hf).2.1
      rw [rmpHost, bind_assoc, returns_get_bind, bind_assoc, hk, Exec.liftE_ok, pure_bind, pure_bind,
        hserve]
      constructor
      · intro hs g hg
        rw [hh] at hg; cases hg
        exact hs
      · exact fun hs => hs _ hh
    | none =>
      by_cases hop : p.rmpOp = .bootReq
      swap
      · rw [rmpHost, bind_assoc, returns_get_bind, bind_assoc, hk, Exec.liftE_ok, pure_bind,
          if_neg hop, pure_bind]
        exact iff_of_true (returns_pure _) fun h => absurd h hop
      simp only [hop, true_imp_iff]
      rw [rmpHost, bind_assoc, returns_get_bind, bind_assoc, hk, Exec.liftE_ok, pure_bind, if_pos hop,
        bind_assoc, returns_get_bind, bind_assoc]
      cases hn : utilName2host w p.rmpMachtype with
      | error e => exact iff_of_false (returns_throw e) id
      | ok o =>
        cases o with
        | none => exact iff_of_true (returns_pure _) trivial
        | some t =>
          have hmem := hostFind_mem hok hn
          have hlt := path_lt hLp t hmem
          have hh : w.hosts[t]? = some w.hosts[t] := List.getElem?_eq_getElem hlt
          have hmake := clone_returns os hok hmem hh (hfit t hmem _ hh) hk
          rw [Exec.liftE_ok, pure_bind, bind_assoc, hostClone, bind_assoc, returns_loadHost_bind]
          constructor
          · rintro ⟨tmpl, htm, hr⟩ tmpl' htm'
            rw [htm] at htm'; cases htm'
            rw [hh] at htm; cases htm
            obtain ⟨⟨h, b⟩, w₁, hadd, hr⟩ := returns_bind.mp hr
            exact ⟨hmake.mp ⟨_, _, hadd⟩, (clone_serve_returns hok hd hmem hh hop hk hadd).mp hr⟩
          · intro hs
            obtain ⟨hres, hs⟩ := hs _ hh
            obtain ⟨⟨h, b⟩, w₁, hadd⟩ := hmake.mpr hres
            refine ⟨_, hh, returns_bind.mpr ⟨(h, b), w₁, hadd, ?_⟩⟩
            exact (clone_serve_returns hok hd hmem hh hop hk hadd).mpr hs

end

/-- **On which frames the RMP handler returns**, in every reachable state. -/
theorem rmp_returns_iff (c : Conf) (σ : Sys) (hr : (daemon c).Reachable σ) (os : Os) (l : Listener)
    (p : Pkt) : Returns (rmpHandler c os l p) σ.w.start ↔ RmpSafe c os l p σ.w := by
  obtain ⟨L, hok, hfit⟩ := daemon_listedFit σ hr
  have hsame : SameHosts σ.w σ.w.start := .of_eq rfl rfl
  exact rmpHandler_returns hok.start (hsame.listedFit hfit) (daemon_descriptors σ hr).start

/-- A boot request of host 0 for the file named `name`. -/
def bootNamed (name : CStr) : Pkt :=
  rmpFrame (plainEther 1) 1 0 (be16 rmpVersion ++ List.replicate 20 0x20 ++
    [UInt8.ofNat name.length] ++ name)

set_option maxRecDepth 4000 in
/-- A boot request for a file of the host is safe. -/
theorem rmp_returns_k : RmpSafe plainConf plainOs linkPort (bootNamed (cstr "k")) served :=
  (rmp_returns_iff plainConf bootSys bootSys_reachable plainOs linkPort _).mp ⟨(), _, rfl⟩

/-- A host of one file `k` has no file `x`. -/
theorem rmpFile_x {n : UInt8} {p : Pkt} (hname : p.rmpFilename = cstr "x") :
    rmpFile (plainHost n) p = none := by
  cases hf : rmpFile (plainHost n) p with
  | none => rfl
  | some f =>
    obtain ⟨hm, -, hans⟩ := utilName2file_some hf
    obtain rfl := List.mem_singleton.mp hm
    rw [hname] at hans
    simp only [File.AnswersTo, plainFile, Vector.toList_replicate] at hans
    exact absurd hans (by decide)

/-- A boot request for a file that its host does not have. -/
theorem boot_unknown_faults {c : Conf} {σ : Sys} {os : Os} {l : Listener} {p : Pkt} {h : HostId}
    {host : Host} (hr : (daemon c).Reachable σ) (hrmp : p.isRmp l.eth = true)
    (hk : utilEther2host σ.w p.rmpSaddr = .ok (some h)) (hh : σ.w.hosts[h]? = some host)
    (hsvc : host.service &&& serviceRmp ≠ 0) (hop : p.rmpOp = .bootReq)
    (hver : p.rmpBootVersion = rmpVersion) (hses : p.rmpSession ≠ rmpProbesid)
    (hfile : rmpFile host p = none) : ¬Returns (rmpHandler c os l p) σ.w.start := by
  intro hret
  obtain ⟨L, hok, hfit⟩ := daemon_listedFit σ hr
  have hsame : SameHosts σ.w σ.w.start := .of_eq rfl rfl
  have hsafe : RmpSafe c os l p σ.w :=
    (rmpHandler_returns hok.start (hsame.listedFit hfit) (daemon_descriptors σ hr).start).mp hret
  unfold RmpSafe RmpServeSafe at hsafe
  simp only [hk, hop] at hsafe
  have hboot := hsafe hrmp host hh hsvc hver
  rw [if_neg hses] at hboot
  exact hboot.1 hfile

/-- **Counterexample**: host 0 asks for a file that it does not have, and the
handler follows a NULL pointer. -/
theorem rmp_boot_crash : ¬ ∀ (c : Conf) (σ : Sys) (os : Os) (l : Listener) (p : Pkt),
    (daemon c).Reachable σ → (Ev.link os l p).Enabled σ.w → rmpHeaderLen ≤ p.len →
    Returns (rmpHandler c os l p) σ.w.start := by
  intro h
  have hret := h plainConf bootSys plainOs linkPort (bootNamed (cstr "x")) bootSys_reachable
    ⟨List.mem_cons_of_mem _ List.mem_cons_self, rfl⟩ (by decide)
  exact boot_unknown_faults bootSys_reachable (h := 0) rfl rfl rfl (by decide) rfl rfl (by decide)
    (rmpFile_x rfl) hret

end Bootd
