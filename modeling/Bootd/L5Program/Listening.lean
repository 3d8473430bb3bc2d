import Bootd.Config.Interfaces
import Bootd.Config.Separate
import Bootd.L5Program.Startup

/-!
# From the interfaces of the machine to the listeners (`bootd.c:10-23`)

`device_init` is called in the middle of the evaluation, by the first statement that
looks for a device, and `service_start` goes through what was bound. `Wired` is what
holds in between: only devices of the machine are bound, and the table is either empty
yet or what `device_init` makes of the interfaces.

* `confFileNamed_wired`: every configuration that is accepted leaves it so.
* `program_listens`: the listeners with which the server loop begins.
-/
namespace Bootd

open Bootd.Core

/-- The table is that of the machine, once a device has been looked for. -/
def TableKnown (env : SetupEnv) (st : Setup) : Prop := st.devices = [] ∨ st.devices = env.sysDevices

/-- The bindings are devices of the table. -/
structure Wired (env : SetupEnv) (st : Setup) : Prop where
  bound : st.Bound
  table : TableKnown env st

/-- `J` holds of what `m` returns if it held before. -/
def Leaves {ε α : Type} (J : Setup → Prop) (m : StateT Setup (Except ε) α) : Prop :=
  ∀ st a st', J st → m st = .ok (a, st') → J st'

section
variable {ε α β : Type} {J : Setup → Prop} {env : SetupEnv} {m : StateT Setup (Except ε) α} {st st' : Setup} {s : Nat}
  {root es : List ConfEntry} {e : ConfEntry} {u u' : Unit} {t t' : EvalState} {file : Option CStr}

theorem Leaves.pure (a : α) : Leaves J (pure a : StateT Setup (Except ε) α) := by
  intro st b st' h hrun
  cases hrun
  exact h

theorem Leaves.bind {f : α → StateT Setup (Except ε) β} (hm : Leaves J m) (hf : ∀ a, Leaves J (f a)) :
    Leaves J (m >>= f) := by
  intro st b st' h hrun
  obtain ⟨a, st₁, hm₁, hrun⟩ := Stops.bind_ok.mp hrun
  exact hf a st₁ b st' (hm st a st₁ h hm₁) hrun

theorem Leaves.get {f : Setup → StateT Setup (Except ε) β} (hf : ∀ st, Leaves J (f st)) :
    Leaves J (MonadState.get >>= f) := fun st => hf st st

theorem Leaves.modify {f : Setup → Setup} (hf : ∀ st, J st → J (f st)) :
    Leaves J (modify f : StateT Setup (Except ε) Unit) := by
  intro st a st' h hrun
  cases hrun
  exact hf st h

theorem Leaves.foldlM {f : β → α → StateT Setup (Except ε) β} (hf : ∀ b a, Leaves J (f b a)) (as : List α) (b : β) :
    Leaves J (as.foldlM f b) := fun _ _ _ h hrun =>
  Stops.foldlM_keeps (I := fun _ => J) (fun a _ b _ _ _ => hf b a _ _ _) h hrun

theorem Leaves.forM {f : α → StateT Setup (Except ε) PUnit} (hf : ∀ a, Leaves J (f a)) (as : List α) :
    Leaves J (as.forM f) := by
  induction as with
  | nil => exact .pure _
  | cons a as ih => exact (hf a).bind fun _ => ih

theorem Leaves.call {m : SetupM α} (h : Leaves J m) : Leaves J (Meaning.call m) := fun st a st' hj hrun =>
  h st a st' hj (call_ok.mp hrun)

/-- What only looks at the setup. -/
theorem Leaves.of_looks {μ : MeaningM α} (hμ : ∀ st, Looks μ st) : Leaves J μ := fun st _ _ h hrun => by
  rw [Stops.Avoids.ok (hμ st) hrun]
  exact h

theorem Leaves.report {w : CStr} : Leaves J (Meaning.report w : MeaningM α) := .of_looks fun _ => .report

/-- A call that only answers. -/
theorem Leaves.lift (x : Except Fault α) : Leaves J (Meaning.call (x : SetupM α)) :=
  .call fun _ _ _ h hrun => (lift_ok.mp hrun).2 ▸ h

theorem Leaves.single {k : Keyword} {conv : ConfEntry → MeaningM α} (hconv : ∀ e, Leaves J (conv e)) (dst : α) :
    Leaves J (Meaning.single es k conv dst) := by
  unfold Meaning.single
  split
  · exact .pure _
  · split
    · exact .report
    · exact hconv _
  · exact .report

theorem Leaves.self {conv : ConfEntry → MeaningM α} (hconv : Leaves J (conv e)) (dst : α) :
    Leaves J (Meaning.self e conv dst) := by
  unfold Meaning.self
  split
  · exact .pure _
  · exact hconv

/-! ## Bindings -/

theorem deviceTable_known (h : TableKnown env st) : deviceTable env st = env.sysDevices := by
  unfold deviceTable
  split_ifs with hnil
  · rfl
  · exact h.resolve_left hnil

theorem tableKnown_slot (slots : NetService → Nat) (f : NetService → NetService) :
    Leaves (TableKnown env) (bindSlot s slots f) := by
  intro st a st' h hrun
  cases hsv : st.services[s]? with
  | none =>
    unfold bindSlot at hrun
    simp only [bind, StateT.bind, Except.bind, get, getThe, MonadStateOf.get, StateT.get, pure,
      Except.pure, hsv] at hrun
    cases hrun
  | some sv =>
    rw [bindSlot_run hsv] at hrun
    cases hrun
    exact h

theorem tableKnown_closed (env : SetupEnv) : SlotClosed env (Leaves (TableKnown env)) where
  pure := .pure
  bind := .bind
  lift x st a st' h hrun := (lift_ok.mp hrun).2 ▸ h
  onState hf _ := .get hf
  deviceInit st ds st' h hrun := by
    rw [deviceInit_run, deviceTable_known h] at hrun
    cases hrun
    exact .inr rfl

theorem wired_linkAdd (hs : s < st.services.length) (h : Wired env st) {w : CStr} {r : Bool}
    (hrun : serviceLinkAdd env s w st = .ok (r, st')) : Wired env st' where
  bound := h.bound.linkAdd (List.getElem?_eq_getElem hs) hrun
  table := (tableKnown_closed env).linkAdd (fun _ => tableKnown_slot _ _) w st r st' h.table hrun

theorem wired_udpAdd (h : Wired env st) {w : CStr} {r : Bool} (hrun : serviceUdpAdd env s w st = .ok (r, st')) :
    Wired env st' where
  bound := KeepsBound.udpAdd env s w st r st' h.bound hrun
  table := (tableKnown_closed env).udpAdd (fun _ _ => tableKnown_slot _ _) w st r st' h.table hrun

/-- A state in which the block of service `s` is gone through. -/
def WiredAt (env : SetupEnv) (s : Nat) (st : Setup) : Prop := Wired env st ∧ s < st.services.length

theorem keys_length {svs svs' : List NetService} (h : svcKeys svs' = svcKeys svs) : svs'.length = svs.length := by
  have := congrArg List.length h
  rwa [svcKeys, svcKeys, List.length_map, List.length_map] at this

theorem wired_bindings (env : SetupEnv) (id s : Nat) (sub : List ConfEntry) :
    Leaves (WiredAt env s) (Meaning.bindings env id s sub) := by
  have hadd : ∀ {add : CStr → SetupM Bool}, (∀ w, Leaves (WiredAt env s) (add w)) →
      ∀ (u : Unit) e, Leaves (WiredAt env s) (Meaning.addBindings add e u) := fun hw u e =>
    .forM (fun w => (Leaves.call (hw w)).bind fun _ => .of_looks fun _ => .ite (.pure ()) (.warn w)) _
  unfold Meaning.bindings
  split_ifs
  · refine .foldlM (hadd fun w st r st' h hrun => ⟨wired_linkAdd h.2 h.1 hrun, ?_⟩) _ _
    rw [keys_length (Binding.linkAdd env s w st r st' hrun).keys]
    exact h.2
  · refine .foldlM (hadd fun w st r st' h hrun => ⟨wired_udpAdd h.1 hrun, ?_⟩) _ _
    rw [keys_length (Binding.udpAdd env s w st r st' hrun).keys]
    exact h.2
  · exact .pure _

theorem wired_service (env : SetupEnv) (e : ConfEntry) : Leaves (Wired env) (Meaning.service env e ()) := by
  intro st a st' h hrun
  obtain ⟨-, id, s, -, hs, hrun⟩ := service_ok.mp hrun
  have hlt : s < st.services.length := (List.findIdx?_eq_some_iff_getElem.mp hs).1
  exact (wired_bindings env id s e.sub st () st' ⟨h, hlt⟩ hrun).1

/-! ## The other statements -/

/-- The services and the devices are all that counts. -/
theorem Wired.congr (h : Wired env st) (hsv : st'.services = st.services) (hdev : st'.devices = st.devices) :
    Wired env st' where
  bound := by
    unfold Setup.Bound
    rw [hsv, hdev]
    exact h.bound
  table := by
    unfold TableKnown
    rw [hdev]
    exact h.table

theorem wired_setting {cur : Setup → α} {read : α → MeaningM α} {set : α → Setup → Setup}
    (hread : ∀ a st, Looks (read a) st) (hsv : ∀ a st, (set a st).services = st.services)
    (hdev : ∀ a st, (set a st).devices = st.devices) : Leaves (Wired env) (Meaning.setting cur read set) :=
  .get fun _ => (Leaves.of_looks (hread _)).bind fun a => .modify fun st h => h.congr (hsv a st) (hdev a st)

theorem wired_basic (root : List ConfEntry) : Leaves (Wired env) (Meaning.basic root) := by
  refine .bind (wired_setting (fun _ _ => .single (.string _)) (fun _ _ => rfl) fun _ _ => rfl) fun _ => ?_
  refine .bind (wired_setting (fun _ _ => .single (.string _)) (fun _ _ => rfl) fun _ _ => rfl) fun _ => ?_
  refine .bind (wired_setting (fun _ _ => .single fun _ => .orReport _) (fun _ _ => rfl) fun _ _ => rfl) fun _ => ?_
  refine .bind (wired_setting (fun _ _ => .single fun _ => .orReport _) (fun _ _ => rfl) fun _ _ => rfl) fun _ => ?_
  refine .bind (wired_setting (fun _ _ => .single .int) (fun _ _ => rfl) fun _ _ => rfl) fun _ => ?_
  exact wired_setting (fun _ _ => .single .int) (fun _ _ => rfl) fun _ _ => rfl

theorem Wired.log (h : Wired env st) (level : Nat) (file : Option CStr) :
    Wired env (logInit env level file st) := by
  unfold logInit
  split_ifs
  · exact h
  · exact h.congr rfl rfl

theorem wired_log (env : SetupEnv) (root : List ConfEntry) : Leaves (Wired env) (Meaning.log env root) := by
  unfold Meaning.log
  split
  · exact .modify fun st h => h.log _ _
  · refine (Leaves.of_looks fun st => ?_).bind fun r => .modify fun st h => h.log _ _
    exact .bind (.single fun _ => .pure _) fun _ => .bind (.single fun _ => .orReport _) fun _ =>
      .bind (.known _ _) fun _ => .pure _
  · exact .of_looks fun _ => .report

theorem wired_head (env : SetupEnv) (root : List ConfEntry) : Leaves (Wired env) (Meaning.head env root) :=
  (wired_log env root).bind fun _ => (wired_basic root).bind fun _ =>
    .foldlM (fun _ e => wired_service env e) _ _

/-! ## Hosts -/

theorem leaves_ether (e : ConfEntry) : Leaves J (Meaning.ether env e) := by
  unfold Meaning.ether
  split
  · exact .pure _
  · refine .get fun st => ?_
    split
    · exact .report
    · exact (Leaves.lift _).bind fun o => .of_looks fun _ => .orReport o

theorem leaves_ip (e : ConfEntry) : Leaves J (Meaning.ip env e) := by
  unfold Meaning.ip
  split
  · exact .pure _
  · refine .get fun st => ?_
    split
    · exact .report
    · exact .lift _

/-- Before it is linked in, a record is not part of the setup. -/
theorem leaves_hostRecord (e : ConfEntry) : Leaves J (Meaning.hostRecord env e) := by
  refine .bind (.self (.of_looks fun _ => .string _ _) _) fun _ => ?_
  refine .bind (.single (fun e => .of_looks fun _ => .string _ e) _) fun _ => ?_
  refine .bind (.single leaves_ether _) fun _ => .bind (.single leaves_ip _) fun _ => ?_
  refine .bind (.of_looks fun _ => .services _ _) fun _ => .bind (.foldlM (fun files e => ?_) _ _) fun _ => ?_
  · exact .bind (.of_looks fun _ => .fileRecord e) fun f => .lift _
  · exact .bind (.of_looks fun _ => .known _ _) fun _ => .pure _

theorem wired_host (env : SetupEnv) (e : ConfEntry) : Leaves (Wired env) (Meaning.host env e ()) := by
  refine .bind (leaves_hostRecord e) fun h => .call fun st a st' hw hrun => ?_
  obtain ⟨p, b, w', -, rfl⟩ := addHost_ok hrun
  exact hw.congr rfl rfl

/-- A whole configuration. -/
theorem wired_conf (env : SetupEnv) (root : List ConfEntry) : Leaves (Wired env) (Meaning.conf env root) :=
  (wired_head env root).bind fun _ => .bind (.foldlM (fun _ e => wired_host env e) _ _) fun _ =>
    .of_looks fun _ => .known _ _

theorem confFileNamed_wired (hd : Distinct root) (h : Wired env st)
    (hrun : confFileNamed env file root st = .ok st') : Wired env st' := by
  cases file with
  | none =>
    cases hrun
    exact h
  | some name =>
    have hname : Wired env (st.openConf name) := h.congr rfl rfl
    exact wired_conf env root _ () st' hname ((conf_accepted hd).mpr (confFileNamed_some.mp hrun))

theorem plainSetup_wired (env : SetupEnv) (w : World) : Wired env { plainSetup with w := w } where
  bound := bound_init rfl
  table := .inl rfl

/-- The command line decides about the log only. -/
theorem confArgs_wired {opts : List CmdOpt} (h : Wired env st) (hrun : confArgs env opts st = .ok (file, st')) :
    Wired env st' := by
  obtain ⟨a, -, hrun⟩ := except_bind_ok hrun
  cases hrun
  unfold CmdArgs.initLog
  split_ifs
  · exact h.log _ _
  · exact h

/-- The bindings of a settled setup are devices of the machine. -/
theorem Wired.links {sv : NetService} {n : CStr} {ifas : List IfAddr} (h : Wired env st)
    (hload : deviceInitIfaddrs (some ifas) = .ok env.sysDevices) (hsv : sv ∈ st.services)
    (hn : n ∈ sv.full.linkNames) : st.devices = env.sysDevices ∧ n ∈ deviceNames ifas := by
  have hdev : n ∈ sv.full.device := by
    unfold ServiceT.linkNames at hn
    split_ifs at hn
    · exact hn
    · cases hn
  obtain ⟨d, hd, hname⟩ := (h.bound sv hsv).known n hdev
  have htable : st.devices = env.sysDevices := h.table.resolve_left (List.ne_nil_of_mem hd)
  rw [htable] at hd
  exact ⟨htable, deviceInit_names hload ▸ List.mem_map.mpr ⟨d, hd, hname⟩⟩

/-- What is wanted does not depend on whether the table was filled. -/
theorem Wired.wanted {ifas : List IfAddr} (h : Wired env st)
    (hload : deviceInitIfaddrs (some ifas) = .ok env.sysDevices) :
    Bootd.wanted (st.services.map NetService.full) st.devices = st.services.flatMap (·.full.sockets) ++
      linksOf (st.services.flatMap (·.full.linkNames)) (deviceNames ifas) := by
  unfold Bootd.wanted
  rw [List.flatMap_map, List.flatMap_map]
  refine congrArg (_ ++ ·) ?_
  by_cases hnil : st.devices = []
  · have hnone : st.services.flatMap (·.full.linkNames) = [] := by
      refine List.flatMap_eq_nil_iff.mpr fun sv hsv => List.eq_nil_iff_forall_not_mem.mpr fun n hn => ?_
      obtain ⟨hdev, hmem⟩ := h.links hload hsv hn
      rw [← deviceInit_names hload, ← hdev, hnil] at hmem
      cases hmem
    have hno : ∀ ns, linksOf [] ns = [] := fun ns => by
      rw [linksOf, List.filter_eq_nil_iff.mpr fun n _ => by simp, List.map_nil]
    rw [hnone, hno, hno]
  · rw [h.table.resolve_left hnil, deviceInit_names hload]

theorem Wired.nodup {ifas : List IfAddr} (h : Wired env st)
    (hload : deviceInitIfaddrs (some ifas) = .ok env.sysDevices) : (st.devices.map (·.name)).Nodup := by
  rcases h.table with hnil | hsys
  · rw [hnil]
    exact List.nodup_nil
  · rw [hsys, deviceInit_names hload]
    exact deviceNames_nodup ifas

end

/-- **The listeners of the program**: one for each address that was bound and one for
each device of the machine that was bound, the devices in the order of `getifaddrs`. -/
theorem program_listens {env : StartEnv} {ifas : List IfAddr} {opts : List CmdOpt} {root : List ConfEntry} {w : World}
    {file : Option CStr} {st₀ st : Setup} (hload : deviceInitIfaddrs (some ifas) = .ok env.sysDevices)
    (henv : env.Succeeds) (hnull : env.os.nullStore = true) (hd : Distinct root) (hw : w.Fresh)
    (hargs : confArgs env.toSetupEnv opts { plainSetup with w := w } = .ok (file, st₀))
    (hconf : confFileNamed env.toSetupEnv file root st₀ = .ok st)
    (hlt : ∀ sv ∈ st.services, sv.full.bindings < serviceBindMax) :
    ∃ s : StartState, serviceStart env (st.services.map NetService.full) (.start st.w st.devices) = .ok () s ∧
      mainInit env opts root w = .ok (st.conf env.toSetupEnv, s.w) ∧
      s.w.listeners = (startedIn s.trace).map (·.2) ∧
      (startedIn s.trace).map (·.1) = st.services.flatMap (·.full.sockets) ++
        linksOf (st.services.flatMap (·.full.linkNames)) (deviceNames ifas) ∧
      ∀ sv ∈ st.services, ∀ n ∈ sv.full.linkNames, .link n ∈ (startedIn s.trace).map (·.1) := by
  have hkeep := confArgs_ok hargs
  have hbuilt := confFileNamed_ok hd hkeep.accepted (hkeep.w.fresh hw) hconf
  have hwired := confFileNamed_wired hd (confArgs_wired (plainSetup_wired env.toSetupEnv w) hargs) hconf
  have hacc : ∀ s ∈ st.services.map NetService.full, s.Accepted st.devices := List.forall_mem_map.mpr hwired.bound
  obtain ⟨s, hrun, hst⟩ := serviceStart_run hbuilt.idle.listeners henv (hwired.nodup hload) hacc
    (List.forall_mem_map.mpr hlt) fun _ _ => .inr hnull
  have hmade := hst.made.trans (hwired.wanted hload)
  refine ⟨s, hrun, ?_, hst.listeners, hmade, fun sv hsv n hn => ?_⟩
  · simp only [mainInit, hargs, hconf, hrun, bind, Except.bind, pure, Except.pure]
  · have hbound : n ∈ st.services.flatMap (·.full.linkNames) := List.mem_flatMap.mpr ⟨sv, hsv, hn⟩
    rw [hmade]
    refine List.mem_append_right _ (List.mem_map.mpr ⟨n, List.mem_filter.mpr ⟨(hwired.links hload hsv hn).2, ?_⟩, rfl⟩)
    exact List.contains_iff_mem.mpr hbound

/-! ## A machine with one card -/

/-- `service rarp { device eth0; } service tftp { bind eth0:69; }` -/
def cardForest : Forest :=
  .block (cstr "service") [cstr "rarp"] (.leaf (cstr "device") [cstr "eth0"] .nil)
    (.block (cstr "service") [cstr "tftp"] (.leaf (cstr "bind") [cstr "eth0:69"] .nil) .nil)

def cardStart : StartEnv := { oneCardEnv with link := fun _ => plainLink, rpc := true }

theorem cardStart_succeeds : cardStart.Succeeds := ⟨rfl, rfl, fun _ => ⟨rfl, rfl, rfl⟩⟩

/-- A listener for each of its two addresses, and one for the card. -/
def cardListeners : List Started :=
  [.udp ⟨9, 69⟩ (cstr "tftp"), .udp ⟨10, 69⟩ (cstr "tftp"), .link (cstr "eth0")]

theorem program_listens_card : ∃ c, ∃ s : StartState,
    mainInit cardStart [.c (cstr "bootd.conf")] (cardForest.entries 0) freshWorld = .ok (c, s.w) ∧
      (startedIn s.trace).map (·.1) = cardListeners := by
  have hload : deviceInitIfaddrs (some oneCard) = .ok cardStart.sysDevices := by rfl
  have hany : (confFileNamed cardStart.toSetupEnv (some (cstr "bootd.conf")) (cardForest.entries 0)
      { plainSetup with w := freshWorld }).toOption.any (fun st =>
        decide (∀ sv ∈ st.services, sv.full.bindings < serviceBindMax) &&
          decide (st.services.flatMap (·.full.sockets) ++
            linksOf (st.services.flatMap (·.full.linkNames)) (deviceNames oneCard) = cardListeners)) = true := by
    decide +kernel
  obtain ⟨st, hconf, h⟩ := ok_of_any hany
  obtain ⟨hlt, hmade⟩ := Bool.and_eq_true_iff.mp h
  have hargs : confArgs cardStart.toSetupEnv [.c (cstr "bootd.conf")] { plainSetup with w := freshWorld } =
      .ok (some (cstr "bootd.conf"), { plainSetup with w := freshWorld }) := rfl
  obtain ⟨s, -, hmain, -, hlisteners, -⟩ := program_listens hload cardStart_succeeds rfl
    (entries_distinct 0 cardForest) freshWorld_fresh hargs hconf (of_decide_eq_true hlt)
  exact ⟨_, s, hmain, hlisteners.trans (of_decide_eq_true hmade)⟩

end Bootd
