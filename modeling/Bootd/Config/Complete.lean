import Bootd.Config.Bindings

/-!
# A configuration that is evaluated to its end

`RootDone` says what has become of an entry at the outermost level: the blocks
`log` and `host` are taken as a whole, of a `service` block only the bindings,
and any other entry is a setting.

* `evalService_ok`, `evalLog_ok`, `evalHost_ok`: a block of each kind.
* `confFile_ok`: all entries, and the rounds over the hosts.
-/
namespace Bootd

open Bootd.Core

/-- The bindings of a service are taken, everything else in its block is left. -/
def ServiceDone (svs : List NetService) (s : EvalState) (e : ConfEntry) : Prop :=
  s.used e.id = 1 ∧
    ∀ x ∈ e.sub, if (bindKeyword svs e).map Subtype.val = some x.name then Leaf s x else Fresh s x

/-- An entry at the outermost level. -/
def RootDone (svs : List NetService) (s : EvalState) (e : ConfEntry) : Prop :=
  if e.name = kwLog.1 then BlockDone s e
  else if e.name = kwService.1 then ServiceDone svs s e
  else if e.name = kwHost.1 then HostDone s e
  else Leaf s e

section
variable {env : SetupEnv} {es : List ConfEntry} {e : ConfEntry} {i : EntId} {s s' : EvalState} {u : Unit}
  {svs : List NetService}

theorem local_serviceDone (svs : List NetService) : Local (ServiceDone svs) := by
  rintro s s' e hs ⟨h1, hsub⟩
  refine ⟨(hs e.id (id_mem e)).trans h1, fun x hx => ?_⟩
  have hx' := hsub x hx
  split
  · rename_i hn
    rw [if_pos hn] at hx'
    exact local_leaf s s' x (hs.sub hx) hx'
  · rename_i hn
    rw [if_neg hn] at hx'
    exact hx'.congr (hs.sub hx)

theorem local_rootDone (svs : List NetService) : Local (RootDone svs) := by
  intro s s' e hs h
  unfold RootDone at h ⊢
  split_ifs with hl hsv hh
  · rw [if_pos hl] at h
    exact local_blockDone s s' e hs h
  · rw [if_neg hl, if_pos hsv] at h
    exact local_serviceDone svs s s' e hs h
  · rw [if_neg hl, if_neg hsv, if_pos hh] at h
    exact local_hostDone s s' e hs h
  · rw [if_neg hl, if_neg hsv, if_neg hh] at h
    exact local_leaf s s' e hs h

/-- The words of a statement are bound one after the other. -/
theorem addBindings_ok {add : CStr → SetupM Bool} {msg : CStr} (hadd : ∀ w, Binding (add w))
    (h : addBindings add msg e u s = .ok u s') : s'.used = s.used ∧ KeepsHosts s.setup s'.setup := by
  unfold addBindings at h
  generalize e.values = ws at h
  induction ws generalizing s with
  | nil =>
    obtain ⟨-, rfl⟩ := Exec.pure_ok.mp h
    exact ⟨rfl, .refl _⟩
  | cons w ws ih =>
    rw [List.forM] at h
    obtain ⟨_, s₁, hw, hrest⟩ := Exec.bind_ok.mp h
    obtain ⟨b, s₂, hb, hret⟩ := Exec.bind_ok.mp hw
    obtain rfl : s₁ = s₂ := by
      cases b with
      | true => exact (Exec.pure_ok.mp hret).2.symm
      | false => exact (parseWarn_ok.mp hret).2
    obtain ⟨st, hrun, rfl⟩ := liftSetup_ok hb
    obtain ⟨hused, hsame⟩ := ih hrest
    exact ⟨hused, (hadd w _ _ _ hrun).trans hsame⟩

theorem addBindings_eats {add : CStr → SetupM Bool} {msg : CStr} (hadd : ∀ w, Binding (add w))
    (hd : Distinct es)
    (he : e ∈ es) (st : Setup) : Eats (fun s => KeepsHosts st s.setup) (addBindings add msg) Leaf e := by
  intro b s b' s' hst hf h
  obtain ⟨hused, hsame⟩ := addBindings_ok hadd h
  have hmarks : SameMarks (s.take e) s' e := fun i _ => congrFun hused i
  refine ⟨hst.trans hsame, fun i hi => ?_, local_leaf _ _ e hmarks (take_leaf hd he hf)⟩
  rw [hused]
  exact Function.update_of_ne (fun heq => hi (by rw [heq]; exact id_mem e)) _ _

/-- The loop over `device` or `bind` statements. -/
theorem bindLoop_ok {add : CStr → SetupM Bool} {msg : CStr} {k : Keyword} (hadd : ∀ w, Binding (add w))
    (hd : Distinct es) (hf : ∀ x ∈ es, Fresh s x) (h : whileEntry es k (addBindings add msg) () s = .ok u s') :
    Part es (· = k.1) Leaf s s' ∧ KeepsHosts s.setup s'.setup := by
  obtain ⟨hsame, -, hp⟩ := whileEntry_rounds hd local_leaf (fun _ _ => leaf_used) (KeepsHosts.refl s.setup)
    (fun x hx _ => hf x hx) (fun x hx _ => addBindings_eats hadd hd hx s.setup) h
  exact ⟨hp, hsame⟩

/-- The service is looked up, then its block is gone through. -/
theorem evalService_runs (h : evalService env e () s = .ok u s') :
    ∃ id sv, strGetService s.setup.services e.value 0 = some id ∧ evalBindings env id sv e.sub s = .ok u s' := by
  unfold evalService at h
  split at h
  · exact absurd h (by simp)
  rw [Exec.get_run] at h
  cases hid : strGetService s.setup.services e.value 0 with
  | none =>
    simp only [hid, parseError_ok] at h
  | some id =>
    cases hsv : serviceSearchById s.setup.services id with
    | none =>
      simp only [hid, hsv, parseError_ok] at h
    | some sv =>
      simp only [hid, hsv] at h
      exact ⟨id, sv, rfl, h⟩

theorem evalService_ok (hd : Distinct e.sub) (hf : ∀ x ∈ e.sub, Fresh s x)
    (h : evalService env e () s = .ok u s') :
    (∀ i, (∀ x ∈ e.sub, i ∉ x.ids) → s'.used i = s.used i) ∧ KeepsHosts s.setup s'.setup ∧
      ∀ x ∈ e.sub, if (bindKeyword s.setup.services e).map Subtype.val = some x.name then Leaf s' x
        else Fresh s' x := by
  obtain ⟨id, sv, hid, hrun⟩ := evalService_runs h
  have hkey : bindKeyword s.setup.services e = if id &&& listenLink ≠ 0 then some kwDevice
      else if id &&& listenUdp ≠ 0 ∨ id &&& listenRpcUdp ≠ 0 then some kwBind else none := by
    rw [bindKeyword, hid, Option.bind_some]
  -- one statement, whose entries are all taken
  have hone : ∀ {k : Keyword} {add : CStr → SetupM Bool} {msg : CStr}, (∀ w, Binding (add w)) →
      whileEntry e.sub k (addBindings add msg) () s = .ok u s' →
      (∀ i, (∀ x ∈ e.sub, i ∉ x.ids) → s'.used i = s.used i) ∧ KeepsHosts s.setup s'.setup ∧
        ∀ x ∈ e.sub, if (some k).map Subtype.val = some x.name then Leaf s' x else Fresh s' x := by
    intro k add msg hadd hloop
    obtain ⟨hp, hsame⟩ := bindLoop_ok hadd hd hf hloop
    refine ⟨fun i hi => hp.only i fun x hx _ => hi x hx, hsame, fun x hx => ?_⟩
    split
    · rename_i hn
      exact hp.done x hx (Option.some.inj hn).symm
    · rename_i hn
      exact (hf x hx).congr (hp.same hd hx fun hxn => hn (congrArg some hxn.symm))
  unfold evalBindings at hrun
  rw [hkey]
  split_ifs at hrun with hlink hudp
  · rw [if_pos hlink]
    exact hone (fun w => Binding.linkAdd env sv w) hrun
  · rw [if_neg hlink, if_pos hudp]
    exact hone (fun w => Binding.udpAdd env sv w) hrun
  · obtain ⟨-, rfl⟩ := Exec.pure_ok.mp hrun
    rw [if_neg hlink, if_neg hudp]
    exact ⟨fun _ _ => rfl, .refl _, fun x hx => hf x hx⟩

end

section
variable {env : SetupEnv} {root es : List ConfEntry} {e : ConfEntry} {s s' : EvalState} {u : Unit}
  {svs : List NetService}

theorem evalService_eats (hd : Distinct es) (he : e ∈ es) (st : Setup) :
    Eats (fun s => KeepsHosts st s.setup) (evalService env) (ServiceDone st.services) e := by
  intro b s b' s' hst hf h
  have hsub : ∀ x ∈ e.sub, Fresh (s.take e) x := hf.inside hd he
  obtain ⟨hin, hsame, hdone⟩ := evalService_ok (hd.sub he) hsub h
  obtain ⟨honly, h1⟩ := eats_block hd he hf hin
  refine ⟨hst.trans hsame, honly, h1, ?_⟩
  rwa [show bindKeyword (s.take e).setup.services e = bindKeyword st.services e from
    bindKeyword_congr hst.keys e] at hdone

theorem iEvalServices_part (hd : Distinct root) (hf : ∀ e ∈ root, e.name = kwService.1 → Fresh s e)
    (h : iEvalServices env root s = .ok u s') :
    Part root (· = kwService.1) (ServiceDone s.setup.services) s s' ∧ KeepsHosts s.setup s'.setup := by
  obtain ⟨hsame, -, hp⟩ := whileEntry_rounds hd (local_serviceDone s.setup.services)
    (fun _ _ hsv => by rw [hsv.1]; exact Nat.one_ne_zero) (KeepsHosts.refl s.setup) hf
    (fun e he _ => evalService_eats hd he s.setup) h
  exact ⟨hp, hsame⟩

/-- The `log` block. -/
theorem evalLog_ok {r : Nat × Option CStr} (hd : Distinct e.sub) (hf : ∀ x ∈ e.sub, Fresh s x)
    (h : evalLog e s = .ok r s') :
    (∀ i, (∀ x ∈ e.sub, i ∉ x.ids) → s'.used i = s.used i) ∧ (∀ x ∈ e.sub, Leaf s' x) ∧ s'.setup = s.setup := by
  have hp := Part.nil e.sub Leaf s
  obtain ⟨file, s₁, h₁, r₁⟩ := Exec.bind_ok.mp h
  obtain ⟨hp₁, hset₁⟩ := iGet_part hd (hp.fresh hd (by decide) hf) (fun h => (Exec.pure_ok.mp h).2.symm) h₁
  replace hp := hp.next hd local_leaf (by decide) hp₁
  obtain ⟨level, s₂, h₂, r₂⟩ := Exec.bind_ok.mp r₁
  obtain ⟨hp₂, hset₂⟩ := iGet_part hd (hp.fresh hd (by decide) hf) convLoglevel_ok h₂
  replace hp := hp.next hd local_leaf (by decide) hp₂
  obtain ⟨_, s₃, hassure, r₃⟩ := Exec.bind_ok.mp r₂
  obtain ⟨rfl, hall⟩ := assure_none hassure
  obtain ⟨-, rfl⟩ := Exec.pure_ok.mp r₃
  exact ⟨fun i hi => hp.only i fun x hx _ => hi x hx, fun x hx => (hp.all hd hf hall x hx).2, hset₂.trans hset₁⟩

theorem modifySetup_ok {f : Setup → Setup} (h : modifySetup f s = .ok u s') :
    s' = { s with setup := f s.setup } := (Exec.modify_ok.mp h).symm

theorem logSetFile_opens (env : SetupEnv) (file : Option CStr) (w : World) :
    w.OpensOwn (logSetFile env file w) := by
  cases file with
  | none => exact .refl w
  | some name =>
    unfold logSetFile
    simp only
    split_ifs
    · exact .refl w
    · exact .refl w
    · exact .refl w
    · exact w.opensOwn_open

theorem logInit_keepsHosts (env : SetupEnv) (level : Nat) (file : Option CStr) (st : Setup) :
    KeepsHosts st (logInit env level file st) := by
  unfold logInit
  split
  · exact .refl st
  · exact ⟨rfl, logSetFile_opens env file st.w, rfl⟩

theorem iEvalLogMsg_part (hd : Distinct root) (hf : ∀ e ∈ root, Fresh s e)
    (h : iEvalLogMsg env root s = .ok u s') :
    Part root (· = kwLog.1) BlockDone s s' ∧ KeepsHosts s.setup s'.setup := by
  unfold iEvalLogMsg at h
  rw [Exec.bind_run (parseEntryGet_run _ _ _)] at h
  cases hfind : root.find? fun e => s.Finds (some kwLog) e with
  | none =>
    rw [hfind] at h
    obtain rfl := modifySetup_ok h
    refine ⟨⟨fun _ _ => rfl, fun e he hn => ?_⟩, logInit_keepsHosts _ _ _ _⟩
    exact absurd (hf e he e.id (id_mem e)) (find_none hfind e he hn)
  | some e =>
    rw [hfind] at h
    obtain ⟨he, -, hn⟩ := find_some hfind
    obtain ⟨_, s₁, htake, r₁⟩ := Exec.bind_ok.mp h
    obtain rfl := Exec.modify_ok.mp htake
    obtain ⟨_, s₂, hassure, r₂⟩ := Exec.bind_ok.mp r₁
    obtain ⟨rfl, hnone⟩ := assure_ok hassure
    obtain ⟨r, s₃, hlog, r₃⟩ := Exec.bind_ok.mp r₂
    have hfe := hf e he
    have hsub : ∀ x ∈ e.sub, Fresh (s.take e) x := hfe.inside hd he
    obtain ⟨hin, hleaf, hset⟩ := evalLog_ok (hd.sub he) hsub hlog
    obtain ⟨honly, h1⟩ := eats_block hd he hfe hin
    obtain rfl := modifySetup_ok r₃
    refine ⟨⟨fun i hi => honly i (hi e he hn), fun x hx hxn => ?_⟩, ?_⟩
    · -- another block would be left
      have hex : e = x := by
        refine by_contra fun hne => find_none hnone x hx hxn ?_
        rw [take_same hd he hx hne x.id (id_mem x)]
        exact hf x hx x.id (id_mem x)
      rw [← hex]
      exact ⟨h1, hleaf⟩
    · have hsame : KeepsHosts s.setup s₃.setup := by
        rw [hset]
        exact .refl _
      exact hsame.trans (logInit_keepsHosts _ _ _ _)

/-- A setting is read and stored. -/
theorem evalSetting_part {α : Type} {cur : Setup → α} {read : α → EvalM α} {set : α → Setup → Setup} {k : Keyword}
    (h : evalSetting cur read set s = .ok u s')
    (hread : ∀ a a' s₁, read a s = .ok a' s₁ → Part root (· = k.1) Leaf s s₁ ∧ s₁.setup = s.setup)
    (hset : ∀ a st, KeepsHosts st (set a st)) : Part root (· = k.1) Leaf s s' ∧ KeepsHosts s.setup s'.setup := by
  unfold evalSetting at h
  rw [Exec.get_run] at h
  obtain ⟨a, s₁, hr, r₁⟩ := Exec.bind_ok.mp h
  obtain ⟨hp, hsame⟩ := hread _ _ _ hr
  obtain rfl := modifySetup_ok r₁
  refine ⟨⟨hp.only, fun e he hn => hp.done e he hn⟩, ?_⟩
  rw [← hsame]
  exact hset a s₁.setup

end

section
variable {env : SetupEnv} {root es : List ConfEntry} {e : ConfEntry} {s s' : EvalState} {u : Unit}
  {svs : List NetService}

/-- All settings are statements that may be given once. -/
theorem iEvalBasic_part (hd : Distinct root) (hf : ∀ e ∈ root, ∀ k ∈ [kwChroot, kwDirectory, kwResolveEther,
      kwResolveIp, kwSessionMax, kwSessionTimeout], e.name = k.1 → Fresh s e)
    (h : iEvalBasic root s = .ok u s') :
    Part root (· ∈ [kwSessionTimeout.1, kwSessionMax.1, kwResolveIp.1, kwResolveEther.1, kwDirectory.1,
      kwChroot.1]) Leaf s s' ∧ KeepsHosts s.setup s'.setup := by
  have hp := Part.nil root Leaf s
  have hnext : ∀ {L : List CStr} {k : Keyword} {s₁ : EvalState}, Part root (· ∈ L) Leaf s s₁ → k.1 ∉ L →
      k ∈ [kwChroot, kwDirectory, kwResolveEther, kwResolveIp, kwSessionMax, kwSessionTimeout] →
      ∀ e ∈ root, e.name = k.1 → Fresh s₁ e := fun hp hk hmem e he hn =>
    (hf e he _ hmem hn).congr (hp.same hd he (hn ▸ hk))
  obtain ⟨_, s₁, h₁, r₁⟩ := Exec.bind_ok.mp h
  obtain ⟨hp₁, hs₁⟩ := evalSetting_part (k := kwChroot) h₁
    (fun _ _ _ h => iGetString_part hd (hnext hp (by decide) (by decide)) h) fun _ _ => .same rfl rfl rfl
  replace hp := hp.next hd local_leaf (by decide) hp₁
  obtain ⟨_, s₂, h₂, r₂⟩ := Exec.bind_ok.mp r₁
  obtain ⟨hp₂, hs₂⟩ := evalSetting_part (k := kwDirectory) h₂
    (fun _ _ _ h => iGetString_part hd (hnext hp (by decide) (by decide)) h) fun _ _ => .same rfl rfl rfl
  replace hp := hp.next hd local_leaf (by decide) hp₂
  obtain ⟨_, s₃, h₃, r₃⟩ := Exec.bind_ok.mp r₂
  obtain ⟨hp₃, hs₃⟩ := evalSetting_part (k := kwResolveEther) h₃
    (fun _ _ _ h => iGet_part hd (hnext hp (by decide) (by decide)) convBool_ok h) fun _ _ => .same rfl rfl rfl
  replace hp := hp.next hd local_leaf (by decide) hp₃
  obtain ⟨_, s₄, h₄, r₄⟩ := Exec.bind_ok.mp r₃
  obtain ⟨hp₄, hs₄⟩ := evalSetting_part (k := kwResolveIp) h₄
    (fun _ _ _ h => iGet_part hd (hnext hp (by decide) (by decide)) convBool_ok h) fun _ _ => .same rfl rfl rfl
  replace hp := hp.next hd local_leaf (by decide) hp₄
  obtain ⟨_, s₅, h₅, r₅⟩ := Exec.bind_ok.mp r₄
  obtain ⟨hp₅, hs₅⟩ := evalSetting_part (k := kwSessionMax) h₅
    (fun _ _ _ h => iGet_part hd (hnext hp (by decide) (by decide)) convInt_ok h) fun _ _ => .same rfl rfl rfl
  replace hp := hp.next hd local_leaf (by decide) hp₅
  obtain ⟨hp₆, hs₆⟩ := evalSetting_part (k := kwSessionTimeout) r₅
    (fun _ _ _ h => iGet_part hd (hnext hp (by decide) (by decide)) convInt_ok h) fun _ _ => .same rfl rfl rfl
  replace hp := hp.next hd local_leaf (by decide) hp₆
  exact ⟨hp, hs₁.trans (hs₂.trans (hs₃.trans (hs₄.trans (hs₅.trans hs₆))))⟩

theorem addHost_run (env : SetupEnv) (h : Host) (st : Setup) : addHost env h st =
    (match hostAddNew (st.conf env) env.os h st.w with
    | .ok (p, listed) w =>
      set { st with w := w, accepted := if listed then st.accepted ++ [p] else st.accepted }
    | .error f _ => throw f : SetupM Unit) st := rfl

/-- The record goes to `host_add`, nothing else changes. -/
theorem addHost_ok {h : Host} {st st' : Setup} (hrun : addHost env h st = .ok (u, st')) :
    ∃ p b w', hostAddNew (st.conf env) env.os h st.w = .ok (p, b) w' ∧
      st' = { st with w := w', accepted := if b then st.accepted ++ [p] else st.accepted } := by
  rw [addHost_run] at hrun
  cases hadd : hostAddNew (st.conf env) env.os h st.w with
  | error f w =>
    rw [hadd] at hrun
    cases hrun
  | ok r w =>
    rw [hadd] at hrun
    cases hrun
    exact ⟨r.1, r.2, w, rfl, rfl⟩

theorem evalHost_ok (hd : Distinct e.sub) (hf : ∀ x ∈ e.sub, Fresh s x) (h : evalHost env e () s = .ok u s') :
    (∀ i, (∀ x ∈ e.sub, i ∉ x.ids) → s'.used i = s.used i) ∧ (∀ x ∈ e.sub, HostPart s' x) ∧
      ∃ host p b w', hostAddNew (s.setup.conf env) env.os host s.setup.w = .ok (p, b) w' ∧
        s'.setup = { s.setup with
          w := w', accepted := if b then s.setup.accepted ++ [p] else s.setup.accepted } ∧
        readServices s.setup.services (named kwService e.sub) 0 = some host.service ∧
        FilesFrom env e s host.files ∧ host.next = none := by
  obtain ⟨host, s₁, hrec, hadd⟩ := Exec.bind_ok.mp h
  obtain ⟨hin, hpart, hset, hread, hfiles, hnext⟩ := hostRecord_ok hd hf hrec
  obtain ⟨st, hrun, rfl⟩ := liftSetup_ok hadd
  obtain ⟨p, b, w', hnew, rfl⟩ := addHost_ok hrun
  rw [hset] at hnew
  refine ⟨hin, hpart, host, p, b, w', hnew, ?_, hread, hfiles, hnext⟩
  simp only [hset]

theorem evalHost_eats (hd : Distinct es) (he : e ∈ es) : Eats (fun _ => True) (evalHost env) HostDone e := by
  intro b s b' s' _ hf h
  have hsub : ∀ x ∈ e.sub, Fresh (s.take e) x := hf.inside hd he
  obtain ⟨hin, hpart, -⟩ := evalHost_ok (hd.sub he) hsub h
  obtain ⟨honly, h1⟩ := eats_block hd he hf hin
  exact ⟨trivial, honly, h1, hpart⟩

theorem iEvalHosts_part (hd : Distinct root) (hf : ∀ e ∈ root, e.name = kwHost.1 → Fresh s e)
    (h : iEvalHosts env root s = .ok u s') :
    Part root (· = kwHost.1) HostDone s s' ∧ Rounds (evalHost env) (named kwHost root) () s u s' := by
  obtain ⟨-, hr, hp⟩ := whileEntry_rounds hd local_hostDone (fun _ _ hh => by rw [hh.1]; exact Nat.one_ne_zero)
    trivial hf (fun e he _ => evalHost_eats hd he) h
  exact ⟨hp, hr⟩

/-! What is done by kind of entry, for the outermost level. -/

theorem Part.log_rootDone (h : Part root (· = kwLog.1) BlockDone s s') :
    Part root (· = kwLog.1) (RootDone svs) s s' := by
  refine h.mono fun e _ hn hb => ?_
  unfold RootDone
  rwa [if_pos hn]

theorem Part.leaf_rootDone {K : CStr → Prop} (h : Part root K Leaf s s')
    (hK : ∀ n, K n → n ∉ [kwLog.1, kwService.1, kwHost.1]) : Part root K (RootDone svs) s s' := by
  refine h.mono fun e _ hn hl => ?_
  have hne := hK e.name hn
  simp only [List.mem_cons, List.not_mem_nil, or_false, not_or] at hne
  unfold RootDone
  rwa [if_neg hne.1, if_neg hne.2.1, if_neg hne.2.2]

theorem Part.service_rootDone {svs' : List NetService} (h : Part root (· = kwService.1) (ServiceDone svs') s s')
    (hkeys : svcKeys svs' = svcKeys svs) : Part root (· = kwService.1) (RootDone svs) s s' := by
  refine h.mono fun e _ hn hsv => ?_
  unfold RootDone
  rw [if_neg (by rw [hn]; decide), if_pos hn]
  refine ⟨hsv.1, fun x hx => ?_⟩
  have hx' := hsv.2 x hx
  rwa [bindKeyword_congr hkeys] at hx'

theorem Part.host_rootDone (h : Part root (· = kwHost.1) HostDone s s') :
    Part root (· = kwHost.1) (RootDone svs) s s' := by
  refine h.mono fun e _ hn hh => ?_
  unfold RootDone
  rwa [if_neg (by rw [hn]; decide), if_neg (by rw [hn]; decide), if_pos hn]

/-- What is evaluated in front of the hosts. mirrors src/conf.c:94-96 -/
def confHead (env : SetupEnv) (root : List ConfEntry) : EvalM Unit := do
  iEvalLogMsg env root
  iEvalBasic root
  iEvalServices env root

/-- The log block and the settings. -/
theorem basic_rootDone (hd : Distinct root) (hf : ∀ e ∈ root, Fresh s e) {s₁ : EvalState} {u u' : Unit}
    (h₁ : iEvalLogMsg env root s = .ok u s₁) (h₂ : iEvalBasic root s₁ = .ok u' s') :
    Part root (· ∈ [kwSessionTimeout.1, kwSessionMax.1, kwResolveIp.1, kwResolveEther.1, kwDirectory.1,
      kwChroot.1, kwLog.1]) (RootDone svs) s s' ∧ KeepsHosts s.setup s'.setup := by
  have hl := local_rootDone svs
  obtain ⟨hp₁, hs₁⟩ := iEvalLogMsg_part hd hf h₁
  obtain ⟨hp₂, hs₂⟩ := iEvalBasic_part hd (fun e he k hk hn => (hf e he).congr (hp₁.same hd he (by
    rw [hn]
    exact (by decide : ∀ k ∈ [kwChroot, kwDirectory, kwResolveEther, kwResolveIp, kwSessionMax,
      kwSessionTimeout], k.1 ≠ kwLog.1) k hk))) h₂
  have hp := (Part.nil root (RootDone svs) s).next hd hl (by decide) hp₁.log_rootDone
  exact ⟨hp.append (hp₂.leaf_rootDone (by decide)) hd hl (by decide), hs₁.trans hs₂⟩

/-- A configuration that is evaluated to its end: what is taken, and the rounds over its hosts. -/
theorem confFile_ok (hd : Distinct root) (hf : ∀ e ∈ root, Fresh s e) (h : confFile env root s = .ok u s') :
    (∀ e ∈ root, RootDone s.setup.services s' e) ∧
      ∃ s₁, confHead env root s = .ok () s₁ ∧ KeepsHosts s.setup s₁.setup ∧
        Rounds (evalHost env) (named kwHost root) () s₁ () s' := by
  have hl := local_rootDone s.setup.services
  obtain ⟨_, s₁, h₁, r₁⟩ := Exec.bind_ok.mp h
  obtain ⟨_, s₂, h₂, r₂⟩ := Exec.bind_ok.mp r₁
  obtain ⟨hp₂, hs₂⟩ := basic_rootDone hd hf h₁ h₂
  obtain ⟨_, s₃, h₃, r₃⟩ := Exec.bind_ok.mp r₂
  obtain ⟨hp₃, hs₃⟩ := iEvalServices_part hd (hp₂.fresh hd (by decide) hf) h₃
  have hp₃ := hp₂.next hd hl (by decide) (hp₃.service_rootDone hs₂.keys)
  obtain ⟨_, s₄, h₄, r₄⟩ := Exec.bind_ok.mp r₃
  obtain ⟨hp₄, hr₄⟩ := iEvalHosts_part hd (hp₃.fresh hd (by decide) hf) h₄
  have hp₄ := hp₃.next hd hl (by decide) hp₄.host_rootDone
  obtain ⟨rfl, hall⟩ := assure_none r₄
  have hhead : confHead env root s = .ok () s₃ := by
    rw [confHead, Exec.bind_run h₁, Exec.bind_run h₂]
    exact h₃
  exact ⟨fun e he => (hp₄.all hd hf hall e he).2, s₃, hhead, hs₂.trans hs₃, hr₄⟩

end

end Bootd
