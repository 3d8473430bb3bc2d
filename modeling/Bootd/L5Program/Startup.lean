import Bootd.Config.FileTexts
import Bootd.Config.Start
import Bootd.L4Daemon.Descriptors

/-!
# The program up to its loop (`bootd.c`, `conf.c:37-84`)

`main` evaluates the command line, then the configuration, then it creates the
listeners, and the loop over the packets begins. What `getopt` finds is a list of
`CmdOpt`, the entries of the configuration file are those that `parse_file` left.
`c_directory` decides where a relative path leads, which is a matter of `Os.openf`.

* `mainInit`: the settings and the memory in which the loop begins.
* `World.Idle`: what nothing before `service_start` changes.
* `Building.rounds`: the hosts come from calls of `host_add` with new records.
* `KeepsWorld.serviceStart`: the loops of `service_start` keep what its calls keep.
* `program_boots`: the loop begins in a state as `daemon` wants it.
-/
namespace Bootd

open Bootd.Core

/-! ## The command line -/

/-- An option as `getopt` returns it, with its argument. -/
inductive CmdOpt
  | c (file : CStr)
  | h
  | l (level : CStr)
  | f (file : CStr)
  | unknown

/-- `c_file`, and the locals of `conf_args`. A level that is missing is -1. -/
structure CmdArgs where
  cFile : Option CStr
  loglevel : Option Nat
  logfile : Option CStr

/-- A turn of the loop; `usage` ends the program. mirrors src/conf.c:50-74 -/
def CmdArgs.take (a : CmdArgs) : CmdOpt → Except Fault CmdArgs
  | .c file => .ok { a with cFile := some file }
  | .h => .error .exit
  | .l level =>
    match strGetLoglevel level with
    | some n => .ok { a with loglevel := some n }
    | none => .error .exit
  | .f file => .ok { a with logfile := some file }
  | .unknown => .error .exit

/-- `-1 & LOG_LEVEL` is `LOG_ERR`. mirrors src/conf.c:77-79 -/
def CmdArgs.initLog (env : SetupEnv) (a : CmdArgs) (st : Setup) : Setup :=
  if a.loglevel ≠ none ∨ a.logfile ≠ none then logInit env (a.loglevel.getD 3) a.logfile st else st

/-- mirrors src/conf.c:44-84 -/
def confArgs (env : SetupEnv) (opts : List CmdOpt) (st : Setup) : Except Fault (Option CStr × Setup) := do
  let a ← opts.foldlM CmdArgs.take ⟨none, none, none⟩
  pure (a.cFile, a.initLog env st)

/-! ## `main` -/

/-- The configuration is opened under its name; nothing closes it again.
mirrors src/tokenize.c:26-32, 35-44 -/
def Setup.openConf (st : Setup) (name : CStr) : Setup := { st with filename := name, w := st.w.openFd .own }

/-- `conf_file`, with the entries that `parse_file` returns. mirrors src/conf.c:86-101 -/
def confFileNamed (env : SetupEnv) (file : Option CStr) (root : List ConfEntry) (st : Setup) :
    Except Fault Setup :=
  match file with
  | none => .ok st
  | some name =>
    match confFile env root (.start (st.openConf name)) with
    | .ok () s => .ok s.setup
    | .error (.report _ _) _ => .error .exit
    | .error .format _ => .error .format
    | .error (.fault f) _ => .error f

/-- The settings with which packets are handled, and the memory before the first one.
mirrors src/bootd.c:10-23 -/
def mainInit (env : StartEnv) (opts : List CmdOpt) (root : List ConfEntry) (w : World) :
    Except Fault (Conf × World) := do
  let (file, st) ← confArgs env.toSetupEnv opts { plainSetup with w := w }
  let st ← confFileNamed env.toSetupEnv file root st
  match serviceStart env (st.services.map NetService.full) (.start st.w st.devices) with
  | .ok () s => pure (st.conf env.toSetupEnv, s.w)
  | .error f _ => throw f

/-! ## Before the first listener -/

/-- No session was made, and no file was opened for one. Standard input is open, and so may be
anything else that the process has inherited, and the configuration and the log file. -/
structure World.Idle (w : World) : Prop where
  sessions : w.sessions = []
  gN : w.gNSessions = 0
  rmpSid : w.rmpSid = 1
  listeners : w.listeners = []
  files : ∀ fd o, w.fdObj fd = some o → o.isFile = false
  stdin : w.fdObj 0 ≠ none

/-- A process before `main`: there are no hosts either. -/
structure World.Fresh (w : World) : Prop extends w.Idle where
  hosts : w.hosts = []
  gHosts : w.gHosts = none

section
variable {c : Conf} {env : SetupEnv} {root es : List ConfEntry} {s s' : EvalState} {b : ConfEntry} {h : Host}
  {u u' : Unit} {w w' : World} {opts : List CmdOpt} {st st' : Setup} {file : Option CStr}

theorem World.OpensOwn.idle (ho : w.OpensOwn w') (h : w.Idle) : w'.Idle where
  sessions := by
    rw [ho.rest]
    exact h.sessions
  gN := by
    rw [ho.rest]
    exact h.gN
  rmpSid := by
    rw [ho.rest]
    exact h.rmpSid
  listeners := by
    rw [ho.rest]
    exact h.listeners
  files fd o hfd := by
    rcases ho.new fd o hfd with hold | rfl
    · exact h.files fd o hold
    · rfl
  stdin := by
    obtain ⟨o, hstdin⟩ := Option.ne_none_iff_exists'.mp h.stdin
    rw [ho.old 0 o hstdin]
    exact Option.some_ne_none o

theorem World.OpensOwn.fresh (ho : w.OpensOwn w') (h : w.Fresh) : w'.Fresh where
  toIdle := ho.idle h.toIdle
  hosts := ho.hosts.trans h.hosts
  gHosts := ho.gHosts.trans h.gHosts

theorem AddFrame.idle (hf : AddFrame w w') (h : w.Idle) : w'.Idle where
  sessions := hf.sessions.trans h.sessions
  gN := hf.gN.trans h.gN
  rmpSid := hf.rmpSid.trans h.rmpSid
  listeners := hf.listeners.trans h.listeners
  files fd o ho := h.files fd o (by rwa [World.fdObj, hf.fds] at ho)
  stdin := by
    rw [World.fdObj, hf.fds]
    exact h.stdin

/-- The record of a block was filled in field by field, `next` and `session` are NULL. -/
theorem hostRecord_fresh (hrun : hostRecord env b s = .ok h s') : h.fresh = h := by
  obtain ⟨_, s₀, -, hrun⟩ := Exec.bind_ok.mp hrun
  obtain ⟨name, s₁, -, hrun⟩ := Exec.bind_ok.mp hrun
  obtain ⟨eth, s₂, -, hrun⟩ := Exec.bind_ok.mp hrun
  obtain ⟨ip, s₃, -, hrun⟩ := Exec.bind_ok.mp hrun
  obtain ⟨service, s₄, -, hrun⟩ := Exec.bind_ok.mp hrun
  obtain ⟨files, s₅, -, hrun⟩ := Exec.bind_ok.mp hrun
  obtain ⟨_, s₆, -, hrun⟩ := Exec.bind_ok.mp hrun
  obtain ⟨rfl, -⟩ := Exec.pure_ok.mp hrun
  rfl

/-- One of the files that a `host` block lists. -/
def FileOf (b : ConfEntry) (f : File) : Prop := ∃ x ∈ named kwFile b.sub, f.ReadFrom x

theorem fileOf_maskless (b : ConfEntry) : Maskless (FileOf b) :=
  fun _ _ ⟨x, hx, hread⟩ => ⟨x, hx, hread.path, hread.server⟩

/-- After some of the host blocks: the table was built by `host_add`, with the settings
that are final by now, and each host has the files of one block. -/
structure Building (env : SetupEnv) (root : List ConfEntry) (st : Setup) : Prop where
  table : ((hostTable (st.conf env)).guard fun _ op => ∃ os h, op = .add os h).Reachable ⟨st.w, st.accepted⟩
  idle : st.w.Idle
  files : st.w.FilesFrom (· ∈ named kwHost root) FileOf

/-- A round of the loop over the hosts. -/
theorem Building.round (hst : Building env root s.setup) (hd : Distinct root) (hb : b ∈ named kwHost root)
    (hf : Fresh s b) (hrun : evalHost env b u (s.take b) = .ok u' s') : Building env root s'.setup := by
  have he := (mem_named.mp hb).1
  obtain ⟨h, s₁, hrec, hadd⟩ := Exec.bind_ok.mp hrun
  obtain ⟨-, -, hset, -⟩ := hostRecord_ok (hd.sub he) (hf.inside hd he) hrec
  have hfresh := hostRecord_fresh hrec
  have hmean : Means (hostRecord env b) (Meaning.hostRecord env b) (s.take b) :=
    hostRecord_means (hd.sub he) (hf.inside hd he)
  obtain ⟨-, hfiles⟩ := hostRecord_read ((ending_ok hmean).mpr ⟨s₁, hrec, rfl⟩)
  obtain ⟨st, hst', rfl⟩ := liftSetup_ok hadd
  obtain ⟨p, listed, w', hnew, rfl⟩ := addHost_ok hst'
  rw [hset] at hnew ⊢
  have hlasso : Chain.Lasso s.setup.w.next s.setup.w.gHosts s.setup.accepted :=
    .of_path (configured_inv hst.table).1.chain
  obtain ⟨-, -, -, -, -, hframe, -⟩ := hostAddNew_ok hlasso hnew
  refine ⟨?_, hframe.idle hst.idle, hostAddNew_from fileOf_maskless hlasso hnew hst.files hb hfiles⟩
  rw [← hfresh] at hnew
  exact hst.table.step (l := .add env.os h) ⟨⟨trivial, p, listed, hnew, rfl⟩, _, _, rfl⟩

/-- The loop, by induction on its rounds. -/
theorem Building.rounds (hst : Building env root s.setup) (hd : Distinct root)
    (hin : ∀ b ∈ es, b ∈ named kwHost root) (hr : Rounds (evalHost env) es u s u' s') :
    Building env root s'.setup := by
  induction hr with
  | nil => exact hst
  | cons hf hrun _ ih =>
    exact ih (hst.round hd (hin _ List.mem_cons_self) hf hrun) fun b hb => hin b (List.mem_cons_of_mem _ hb)

theorem World.Fresh.building (hw : st.w.Fresh) (hacc : st.accepted = []) : Building env root st where
  table := LTS.reachable_init ⟨hw.hosts, hw.gHosts, hacc⟩
  idle := hw.toIdle
  files p h hh := by
    rw [hw.hosts] at hh
    cases hh

/-- A configuration that is accepted under its name. -/
theorem confFileNamed_some {name : CStr} : confFileNamed env (some name) root st = .ok st' ↔
    ∃ s, confFile env root (.start (st.openConf name)) = .ok () s ∧ s.setup = st' := by
  simp only [confFileNamed]
  generalize confFile env root (.start (st.openConf name)) = r
  match r with
  | .ok () s => simp
  | .error (.report _ _) s | .error .format s | .error (.fault _) s => simp

/-- The configuration leaves a table of its own hosts. -/
theorem confFileNamed_ok (hd : Distinct root) (hacc : st.accepted = []) (hw : st.w.Fresh)
    (hrun : confFileNamed env file root st = .ok st') : Building env root st' := by
  cases file with
  | none =>
    cases hrun
    exact hw.building hacc
  | some name =>
    obtain ⟨s, hconf, rfl⟩ := confFileNamed_some.mp hrun
    obtain ⟨-, s₁, -, hkeep, hr⟩ := confFile_ok hd (fun e _ => start_fresh _ e) hconf
    have hopen : (st.openConf name).w.Fresh := st.w.opensOwn_open.fresh hw
    exact ((hkeep.w.fresh hopen).building (hkeep.accepted.trans hacc)).rounds hd (fun _ hb => hb) hr

/-- The command line decides about the log, and which file is read. -/
theorem confArgs_ok (hrun : confArgs env opts st = .ok (file, st')) : KeepsHosts st st' := by
  obtain ⟨a, -, hrun⟩ := except_bind_ok hrun
  cases hrun
  unfold CmdArgs.initLog
  split
  · exact logInit_keepsHosts env _ _ st
  · exact .refl st

theorem Building.boots (h : Building env root st) : Boot (st.conf env) st.w where
  hosts := ⟨_, h.table, rfl, rfl⟩
  sessions := h.idle.sessions
  gN := h.idle.gN
  rmpSid := h.idle.rmpSid
  ids := by
    rw [h.idle.listeners]
    exact List.nodup_nil
  listeners l hl := by
    rw [h.idle.listeners] at hl
    cases hl
  files := h.idle.files
  stdin := h.idle.stdin

end

/-! ## The loops of `service_start` -/

/-- `Q` holds of the memory afterwards if it did before. -/
def KeepsWorld (Q : World → Prop) {α : Type} (m : StartM α) : Prop := Exec.Keeps (fun st => Q st.w) m

section
variable {Q : World → Prop} {env : StartEnv} {β : Type} {name : CStr} {body : β → StartM Unit}

theorem KeepsWorld.eachSlot (hbody : ∀ b, KeepsWorld Q (body b)) (i : Nat) (m : List (Option β)) :
    KeepsWorld Q (eachSlot name body i m) := by
  have hnote : ∀ e, KeepsWorld Q (note e) := fun e => Exec.Keeps.modify fun _ h => h
  induction m generalizing i with
  | nil => exact Exec.Keeps.pure ()
  | cons o m ih =>
    cases o with
    | none => exact hnote _
    | some b => exact (hnote _).bind fun _ => (hbody b).bind fun _ => ih (i + 1)

/-- The binding of a device touches the table of devices only. -/
theorem KeepsWorld.startLinkBinding (s : ServiceT) (n : CStr) : KeepsWorld Q (startLinkBinding env s n) := by
  refine Exec.Keeps.bind ?_ fun o => ?_
  · refine (Exec.Keeps.modify fun st h => ?_).bind fun _ => Exec.Keeps.get.bind fun _ => .pure _
    split
    · exact h
    · exact h
  · cases o with
    | none => exact .throw _
    | some i => exact .modify fun _ h => h

/-- The calls of a constructor that `service_start` makes: none connects a socket. -/
def KeptByListeners (Q : World → Prop) (env : StartEnv) : Prop :=
  ∀ (k : Started) (ctor : Ctor), ctor.peer = none → KeepsWorld Q (startListener env.os k (ctor.run env.os))

theorem KeepsWorld.startService (hQ : KeptByListeners Q env) (s : ServiceT) :
    KeepsWorld Q (startService env s) := by
  unfold Bootd.startService lServiceStartUdp lServiceStartRpcUdp
  split_ifs
  · exact .eachSlot (.startLinkBinding s) 0 _
  · exact .eachSlot (fun a => hQ _ (.udp none s.handler) rfl) 0 _
  · exact .eachSlot (fun a => hQ _ (.rpcUdp env.rpc) rfl) 0 _
  · exact Exec.Keeps.pure ()

theorem KeepsWorld.startLink (hQ : KeptByListeners Q env) (d : DeviceT) :
    KeepsWorld Q (if d.filter ≠ [] then lServiceStartLink env d else pure ()) := by
  unfold lServiceStartLink
  split_ifs
  · exact hQ _ (.link (env.link d.name) (some d.name) (some d.filter)) rfl
  · exact Exec.Keeps.pure ()
  · exact Exec.Keeps.pure ()

theorem KeepsWorld.forM {α : Type} {f : α → StartM Unit} (hf : ∀ a, KeepsWorld Q (f a)) (as : List α) :
    KeepsWorld Q (as.forM f) := by
  induction as with
  | nil => exact Exec.Keeps.pure _
  | cons a as ih => exact (hf a).bind fun _ => ih

/-- What the single calls keep, all of them keep. -/
theorem KeepsWorld.serviceStart (hQ : KeptByListeners Q env) (svs : List ServiceT) :
    KeepsWorld Q (serviceStart env svs) :=
  (KeepsWorld.forM (.startService hQ) svs).bind fun _ => Exec.Keeps.get.bind fun _ =>
    KeepsWorld.forM (.startLink hQ) _

end

/-! ## The loop begins -/

section
variable {c : Conf} {w : World} {l : Listener} {env : StartEnv} {root : List ConfEntry} {opts : List CmdOpt}

/-- A new listener that is not in the list yet. -/
theorem Boot.listening (h : Boot c w) (l : Listener) : Boot c (w.listening l) where
  hosts := h.hosts
  sessions := h.sessions
  gN := h.gN
  rmpSid := h.rmpSid
  ids := h.ids
  listeners l' hl' := by
    obtain ⟨hid, hpeer, hfd⟩ := h.listeners l' hl'
    exact ⟨Nat.lt_succ_of_lt hid, hpeer, fdObj_put_old (o := .socket) rfl hfd⟩
  files fd o ho := by
    rw [fdObj_put (o := .socket) (w := w) rfl] at ho
    split at ho
    · cases ho
      rfl
    · exact h.files fd o ho
  stdin := by
    obtain ⟨o, ho⟩ := Option.ne_none_iff_exists'.mp h.stdin
    rw [fdObj_put_old (o := .socket) (w := w) rfl ho]
    exact Option.some_ne_none o

/-- It is put at the end of the list. -/
theorem Boot.listed (h : Boot c w) (hid : l.id < w.nextId) (hnew : l.id ∉ w.listeners.map Listener.id)
    (hpeer : l.peer = none) (hfd : w.fdObj l.fd = some .socket) :
    Boot c { w with listeners := w.listeners ++ [l] } where
  hosts := h.hosts
  sessions := h.sessions
  gN := h.gN
  rmpSid := h.rmpSid
  ids := by
    rw [List.map_append, List.map_singleton, List.nodup_append]
    refine ⟨h.ids, List.nodup_singleton _, fun a ha b hb => ?_⟩
    rw [List.mem_singleton.mp hb]
    rintro rfl
    exact hnew ha
  listeners l' hl' := by
    rcases List.mem_append.mp hl' with hl' | hl'
    · exact h.listeners l' hl'
    · rw [List.mem_singleton.mp hl']
      exact ⟨hid, hpeer, hfd⟩
  files := h.files
  stdin := h.stdin

/-- `listener_add` adds it, leaves it out or faults. -/
theorem listenerAdd_cases {os : Os} {w' : World} {u : Unit} (h : listenerAdd os (some l) w = .ok u w') :
    w' = w ∨ w' = { w with listeners := w.listeners ++ [l] } := by
  rw [listenerAdd] at h
  split at h
  · cases h
  · rw [Exec.modify_ok] at h
    split at h
    · exact .inl h.symm
    · exact .inr h.symm

/-- One listener: what is kept when its socket is opened and when it is added is kept. -/
theorem keptByListeners {Q : World → Prop}
    (hopen : ∀ w l, Q w → l.id = w.nextId → l.fd = w.freeFd → l.peer = none →
      Q (w.listening l) ∧ Q { w.listening l with listeners := w.listeners ++ [l] }) :
    KeptByListeners Q env := by
  intro k ctor hpeer st h
  have hnew := onWorld_run (ctor.run env.os) st
  cases hrun : ctor.run env.os st.w with
  | error f w' =>
    rw [hrun] at hnew
    unfold startListener Exec.wp
    rw [Exec.bind_stop hnew]
    exact h
  | ok o w₁ =>
    rw [hrun] at hnew
    unfold startListener Exec.wp
    rw [Exec.bind_run hnew]
    rcases Ctor.run_cases hrun with ⟨rfl, rfl⟩ | ⟨l, rfl, rfl, hid, hfd, hl⟩
    · exact h
    obtain ⟨hmade, hadded⟩ := hopen st.w l h hid hfd (hl.trans hpeer)
    let st₁ : StartState := { w := st.w.listening l, devices := st.devices, trace := st.trace }
    have hnote : noteListener k (some l) st₁ = .ok () (st₁.note (.listener k l)) := rfl
    rw [Exec.bind_run hnote, onWorld_run]
    cases hlisted : listenerAdd env.os (some l) (st₁.note (.listener k l)).w with
    | error f w' => exact hmade
    | ok u w₂ =>
      rcases listenerAdd_cases hlisted with rfl | rfl
      · exact hmade
      · exact hadded

theorem boot_kept (env : StartEnv) (c : Conf) : KeptByListeners (Boot c) env := by
  refine keptByListeners fun w l h hid hfd hpeer =>
    ⟨h.listening l, (h.listening l).listed ?_ (fun hmem => ?_) hpeer ?_⟩
  · rw [hid]
    exact Nat.lt_succ_self _
  · -- the numbers in use are below the new one
    obtain ⟨l', hl', heq⟩ := List.mem_map.mp hmem
    have hlt := (h.listeners l' hl').1
    rw [heq, hid] at hlt
    exact absurd hlt (Nat.lt_irrefl _)
  · rw [fdObj_put (o := .socket) (w := w) rfl, hfd]
    exact if_pos rfl

theorem hosts_kept (env : StartEnv) (hs : List Host) : KeptByListeners (fun w => w.hosts = hs) env :=
  keptByListeners fun _ _ h _ _ _ => ⟨h, h⟩

/-- What the single calls of constructors keep holds when the loop begins, if it held of what
the configuration left. -/
theorem mainInit_kept {w' : World} (hd : Distinct root) (hw : w.Fresh)
    (hrun : mainInit env opts root w = .ok (c, w')) : ∃ st : Setup, Building env.toSetupEnv root st ∧
      c = st.conf env.toSetupEnv ∧ ∀ Q : World → Prop, KeptByListeners Q env → Q st.w → Q w' := by
  obtain ⟨⟨file, st⟩, hargs, hrun⟩ := except_bind_ok hrun
  obtain ⟨st', hconf, hrun⟩ := except_bind_ok hrun
  have hkeep := confArgs_ok hargs
  have hbuilt := confFileNamed_ok hd hkeep.accepted (hkeep.w.fresh hw) hconf
  cases hstart : serviceStart env (st'.services.map NetService.full) (.start st'.w st'.devices) with
  | error f s =>
    rw [hstart] at hrun
    cases hrun
  | ok u s =>
    rw [hstart] at hrun
    cases hrun
    refine ⟨st', hbuilt, rfl, fun Q hQ hq => ?_⟩
    exact (Exec.wp_iff.mp (KeepsWorld.serviceStart hQ _ (.start st'.w st'.devices) hq)).1 _ _ hstart

/-- The memory in which the loop begins: what `service_start` has made of what the
configuration left. -/
theorem mainInit_ok {w' : World} (hd : Distinct root) (hw : w.Fresh)
    (hrun : mainInit env opts root w = .ok (c, w')) :
    Boot c w' ∧ w'.FilesFrom (· ∈ named kwHost root) FileOf := by
  obtain ⟨st, hbuilt, rfl, hkept⟩ := mainInit_kept hd hw hrun
  refine ⟨hkept _ (boot_kept env _) hbuilt.boots, fun p h hh => ?_⟩
  rw [hkept _ (hosts_kept env st.w.hosts) rfl] at hh
  exact hbuilt.files p h hh

end

/-- **The daemon's first state**: whatever the command line, the configuration, the
libraries and the system say, if the program reaches its loop, it is in a state from
which the runs of `daemon` begin. -/
theorem program_boots (env : StartEnv) (opts : List CmdOpt) (root : List ConfEntry) (w w' : World) (c : Conf)
    (hd : Distinct root) (hw : w.Fresh) (hrun : mainInit env opts root w = .ok (c, w')) : Boot c w' :=
  (mainInit_ok hd hw hrun).1

/-! ## A configuration for one client -/

/-- `service tftp { bind :69; } host a { ip 10.0.0.2; ether 2:0:0:0:0:3; file /b/k; }` -/
def bootForest : Forest :=
  .block (cstr "service") [cstr "tftp"] (.leaf (cstr "bind") [cstr ":69"] .nil)
    (.block (cstr "host") [cstr "a"] (.leaf (cstr "ip") [cstr "10.0.0.2"]
      (.leaf (cstr "ether") [cstr "2:0:0:0:0:3"] (.leaf (cstr "file") [cstr "/b/k"] .nil))) .nil)

/-- A system on which everything works, with a library that reads these two addresses. As in
`plainOs`, the store of `listener_add` through the NULL name of the socket goes unnoticed. -/
def bootEnv : StartEnv where
  lib := { plainConf with
    inetAton := fun w => if w = cstr "10.0.0.2" then some (.ofBytes 10 0 0 2) else none
    etherAton := fun w => if w = cstr "2:0:0:0:0:3" then some (plainEther 3) else none }
  os := plainOs
  sysDevices := []
  getservbyname _ := none
  openLog _ := true
  stack := []
  link _ := plainLink
  rpc := true

def freshWorld : World := { emptyWorld with
  listeners := []
  nextId := 0
  fds := [some (.stream none), some (.stream none), some (.stream none)] }

theorem freshWorld_fresh : freshWorld.Fresh where
  sessions := rfl
  gN := rfl
  rmpSid := rfl
  listeners := rfl
  files fd o h := by
    match fd, h with
    | 0, h | 1, h | 2, h => cases h; rfl
  stdin := by simp [World.fdObj, freshWorld, Slots.get]
  hosts := rfl
  gHosts := rfl

/-- A computation that returns has a result. -/
theorem ok_of_any {ε α : Type} {x : Except ε α} {p : α → Bool} (h : x.toOption.any p = true) :
    ∃ a, x = .ok a ∧ p a = true := by
  cases x with
  | error e => cases h
  | ok a => exact ⟨a, rfl, h⟩

theorem ok_of_isSome {ε α : Type} {x : Except ε α} (h : x.toOption.isSome = true) : ∃ a, x = .ok a := by
  cases x with
  | error e => cases h
  | ok a => exact ⟨a, rfl⟩

theorem bootForest_starts : ∃ c w, mainInit bootEnv [.c (cstr "bootd.conf")] (bootForest.entries 0) freshWorld =
    .ok (c, w) := by
  have h : (mainInit bootEnv [.c (cstr "bootd.conf")] (bootForest.entries 0) freshWorld).toOption.isSome = true := by
    decide +kernel
  obtain ⟨r, hr⟩ := ok_of_isSome h
  exact ⟨r.1, r.2, hr⟩

theorem program_boots_tftp : ∃ c w, mainInit bootEnv [.c (cstr "bootd.conf")] (bootForest.entries 0) freshWorld =
    .ok (c, w) ∧ Boot c w := by
  obtain ⟨c, w, hr⟩ := bootForest_starts
  exact ⟨c, w, hr, program_boots _ _ _ _ w c (entries_distinct 0 bootForest) freshWorld_fresh hr⟩

end Bootd
