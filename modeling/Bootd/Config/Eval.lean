import Bootd.Config.Entries

/-!
# Evaluating a configuration (`conf.c:85-428`, `host.c:127-187`)

`confFile` takes the forest that the parser returned: first the `log` block,
then the settings, the services and the hosts; what is left at the outermost
level is an error. Each evaluator marks the entries it takes and looks at
their values or their blocks.

* `conv…`: what the `i_get_*` functions make of a value.
* `hostFileAdd`: `host_file_add`.
* `evalHost`, `evalFile`, `evalService`: a round of each loop over blocks.
-/
namespace Bootd

open Bootd.Core

/-! ## Keywords -/

def kwLog : Keyword := ⟨cstr "log", by decide⟩
def kwFile : Keyword := ⟨cstr "file", by decide⟩
def kwLevel : Keyword := ⟨cstr "level", by decide⟩
def kwChroot : Keyword := ⟨cstr "chroot", by decide⟩
def kwDirectory : Keyword := ⟨cstr "directory", by decide⟩
def kwResolveEther : Keyword := ⟨cstr "resolve_ether", by decide⟩
def kwResolveIp : Keyword := ⟨cstr "resolve_ip", by decide⟩
def kwSessionMax : Keyword := ⟨cstr "session_max", by decide⟩
def kwSessionTimeout : Keyword := ⟨cstr "session_timeout", by decide⟩
def kwService : Keyword := ⟨cstr "service", by decide⟩
def kwDevice : Keyword := ⟨cstr "device", by decide⟩
def kwBind : Keyword := ⟨cstr "bind", by decide⟩
def kwHost : Keyword := ⟨cstr "host", by decide⟩
def kwName : Keyword := ⟨cstr "name", by decide⟩
def kwEther : Keyword := ⟨cstr "ether", by decide⟩
def kwIp : Keyword := ⟨cstr "ip", by decide⟩
def kwPath : Keyword := ⟨cstr "path", by decide⟩
def kwAlias : Keyword := ⟨cstr "alias", by decide⟩
def kwServer : Keyword := ⟨cstr "server", by decide⟩

/-! ## Values -/

/-- `"w"`, as the messages show a word. -/
def quoted (w : CStr) : CStr := cstr "\"" ++ w ++ cstr "\""

/-- mirrors src/conf.c:148-153; the error is reported at the first entry -/
def convString (root : List ConfEntry) (name : Option Keyword) (dst : Option CStr) (e : ConfEntry) :
    EvalM (Option CStr) :=
  if dst ≠ none then parseError root ((name.map Subtype.val).getD (cstr "(null)") ++ cstr " already set")
  else pure (some e.value)

/-- mirrors src/conf.c:163-168 -/
def convBool (e : ConfEntry) : EvalM Bool :=
  match strGetBool e.value with
  | some b => pure b
  | none => parseError [e] (cstr "expecting truth value, got " ++ quoted e.value)

/-- mirrors src/conf.c:178-183 -/
def convInt (e : ConfEntry) : EvalM Int :=
  match strGetInt e.value with
  | (n, true) => pure n
  | (_, false) => parseError [e] (cstr "expecting integer value, got " ++ quoted e.value)

/-- mirrors src/conf.c:193-206 -/
def convEther (env : SetupEnv) (e : ConfEntry) : EvalM Ether :=
  match env.lib.etherAton e.value with
  | some eth => pure eth
  | none => do
    let st ← get
    if st.setup.cResolveEther = false then
      parseError [e] (cstr "expecting ethernet address (resolving disabled), got " ++ quoted e.value)
    else
      match ← liftSetup (utilName2ether (st.setup.conf env) env.os st.setup.w e.value) with
      | some eth => pure eth
      | none => parseError [e] (cstr "expecting ethernet address (unknown hostname " ++ quoted e.value ++
          cstr ")")

/-- mirrors src/conf.c:215-228 -/
def convIp (env : SetupEnv) (e : ConfEntry) : EvalM Ip :=
  match env.lib.inetAton e.value with
  | some ip => pure ip
  | none => do
    let st ← get
    if st.setup.cResolveIp = false then
      parseError [e] (cstr "expecting ip address (resolving disabled), got " ++ quoted e.value)
    else
      -- `util_name2ip` returns 1 or does not return
      liftSetup (utilName2ip (st.setup.conf env) env.os st.setup.w e.value)

/-- mirrors src/conf.c:256-261 -/
def convLoglevel (e : ConfEntry) : EvalM Nat :=
  match strGetLoglevel e.value with
  | some n => pure n
  | none => parseError [e] (cstr "expecting log level (debug|info|warn|err)")

/-! The `i_get_*` functions. mirrors src/conf.c:143-263 -/

def iGetString (root : List ConfEntry) (name : Option Keyword) (dst : Option CStr) (single : Bool) :
    EvalM (Option CStr) :=
  iGet (convString root name dst) root name single dst

def iGetBool (root : List ConfEntry) (name : Keyword) (dst : Bool) (single : Bool) : EvalM Bool :=
  iGet convBool root (some name) single dst

def iGetInt (root : List ConfEntry) (name : Keyword) (dst : Int) (single : Bool) : EvalM Int :=
  iGet convInt root (some name) single dst

def iGetEther (env : SetupEnv) (root : List ConfEntry) (name : Keyword) (dst : Ether) (single : Bool) :
    EvalM Ether :=
  iGet (convEther env) root (some name) single dst

def iGetIp (env : SetupEnv) (root : List ConfEntry) (name : Keyword) (dst : Ip) (single : Bool) : EvalM Ip :=
  iGet (convIp env) root (some name) single dst

def iGetLoglevel (root : List ConfEntry) (name : Keyword) (dst : Nat) (single : Bool) : EvalM Nat :=
  iGet convLoglevel root (some name) single dst

def serviceExpected : CStr :=
  cstr "expecting \x7b rarp | bootp | dhcp | mop | rmp | tftp | bootparam | all \x7d"

/-- The words of one statement. mirrors src/conf.c:241-246 -/
def addService (e : ConfEntry) (dst : Nat) : EvalM Nat :=
  e.values.foldlM (fun dst w => do
    match strGetService (← get).setup.services w dst with
    | some dst => pure dst
    | none => parseError [e] serviceExpected) dst

/-- mirrors src/conf.c:232-249 -/
def iGetService (root : List ConfEntry) (name : Keyword) (dst : Nat) : EvalM Nat :=
  whileEntry root name addService dst

/-! ## Settings -/

/-- A setting, from its value before. -/
def evalSetting {α : Type} (cur : Setup → α) (read : α → EvalM α) (set : α → Setup → Setup) : EvalM Unit := do
  let a ← read (cur (← get).setup)
  modifySetup (set a)

/-- mirrors src/conf.c:265-275 -/
def iEvalBasic (root : List ConfEntry) : EvalM Unit := do
  evalSetting (·.cChroot) (iGetString root (some kwChroot) · true) fun a st => { st with cChroot := a }
  evalSetting (·.cDirectory) (iGetString root (some kwDirectory) · true) fun a st => { st with cDirectory := a }
  evalSetting (·.cResolveEther) (iGetBool root kwResolveEther · true) fun a st => { st with cResolveEther := a }
  evalSetting (·.cResolveIp) (iGetBool root kwResolveIp · true) fun a st => { st with cResolveIp := a }
  evalSetting (·.cSessionMax) (iGetInt root kwSessionMax · true) fun a st => { st with cSessionMax := a }
  evalSetting (·.cSessionTimeout) (iGetInt root kwSessionTimeout · true)
    fun a st => { st with cSessionTimeout := a }

/-- The first log file; the messages went to standard error until now, which stays open.
mirrors src/log.c:60-83 -/
def logSetFile (env : SetupEnv) (file : Option CStr) (w : World) : World :=
  match file with
  | none => w
  | some name =>
    if name = cstr "-" ∨ name = cstr "stdout" then w
    else if name = cstr "stderr" then w
    -- without the file the messages stay on standard error
    else if env.openLog name = false then w
    else w.openFd .own

/-- Only the first call counts. mirrors src/log.c:37-58 -/
def logInit (env : SetupEnv) (level : Nat) (file : Option CStr) (st : Setup) : Setup :=
  if st.log ≠ none then st else { st with log := some (level, file), w := logSetFile env file st.w }

/-- The `log` block. mirrors src/conf.c:285-294 -/
def evalLog (e : ConfEntry) : EvalM (Nat × Option CStr) := do
  let file ← iGet (fun e => pure (some e.value)) e.sub (some kwFile) true none
  let level ← iGetLoglevel e.sub kwLevel 0 true
  iAssureNoEntry e.sub none
  pure (level, file)

/-- mirrors src/conf.c:277-296 -/
def iEvalLogMsg (env : SetupEnv) (root : List ConfEntry) : EvalM Unit := do
  match ← parseEntryGet root (some kwLog) with
  | none => modifySetup (logInit env 0 none)
  | some e =>
    takeEntry e
    iAssureNoEntry root (some kwLog)
    let (level, file) ← evalLog e
    modifySetup (logInit env level file)

/-! ## Services -/

/-- The words of a `device` or `bind` statement; one that is refused is only warned about. -/
def addBindings (add : CStr → SetupM Bool) (refused : CStr) (e : ConfEntry) (_ : Unit) : EvalM Unit :=
  e.values.forM fun w => do
    if ← liftSetup (add w) then pure () else parseWarn (refused ++ w)

/-- The block of the service with this id, at place `s`. mirrors src/conf.c:369-388 -/
def evalBindings (env : SetupEnv) (id s : Nat) (sub : List ConfEntry) : EvalM Unit :=
  if id &&& listenLink ≠ 0 then
    whileEntry sub kwDevice (addBindings (serviceLinkAdd env s) (cstr "invalid device: ")) ()
  else if id &&& listenUdp ≠ 0 ∨ id &&& listenRpcUdp ≠ 0 then
    whileEntry sub kwBind (addBindings (serviceUdpAdd env s) (cstr "invalid bind specification: ")) ()
  else pure ()

/-- A round of `i_eval_services`. mirrors src/conf.c:355-426 -/
def evalService (env : SetupEnv) (e : ConfEntry) (_ : Unit) : EvalM Unit := do
  if e.values.length ≠ 1 then parseError [e] (cstr "expecting single value")
  else
    let svs := (← get).setup.services
    match strGetService svs e.value 0 with
    | none => parseError [e] (cstr "expecting service")
    | some id =>
      match serviceSearchById svs id with
      | none => parseError [e] (cstr "service not found: " ++ decText id)
      | some s => evalBindings env id s e.sub

/-- mirrors src/conf.c:345-428 -/
def iEvalServices (env : SetupEnv) (root : List ConfEntry) : EvalM Unit :=
  whileEntry root kwService (evalService env) ()

/-! ## Files -/

/-- The part of a path behind its last `/`. mirrors src/host.c:158-163 -/
def baseName (path : CStr) : CStr := (path.reverse.takeWhile (· ≠ 47)).reverse

/-- The name of a record, `none` if it has none. mirrors src/host.c:148-169 -/
def fileName (f : File) : Except Fault (Option CStr) :=
  match f.name with
  | some n => .ok (some n)
  | none =>
    match f.aliases.toList.head?.join with
    | some a => .ok (some a)
    | none =>
      if strIsEqual f.path (some tokOpen) then .ok none
      else
        -- a missing path is not `"{"`
        match f.path with
        | none => .error .segv
        | some p => .ok (some (baseName p))

/-- Whether a file of that name is in the list. mirrors src/host.c:174-178 -/
def fileListed (name : CStr) : List File → Except Fault Bool
  | [] => .ok false
  | n :: fs =>
    match n.name with
    | none => .error .segv
    | some m => if strcasecmp name m then .ok true else fileListed name fs

/-- `h->files` afterwards. mirrors src/host.c:137-187 -/
def hostFileAdd (files : List File) (f : File) : Except Fault (List File) := do
  match ← fileName f with
  | none => .ok files
  | some n =>
    let path := if strIsEqual f.path (some tokOpen) then some n else f.path
    if ← fileListed n files then .ok files
    else .ok (files ++ [{ f with name := some n, path := path }])

/-- The first `n` aliases. mirrors src/conf.c:334-336 -/
def iGetAliases (sub : List ConfEntry) : (n : Nat) → EvalM (Vector (Option CStr) n)
  | 0 => pure #v[]
  | n + 1 => do
    let v ← iGetAliases sub n
    let a ← iGetString sub (some kwAlias) none false
    pure (v.push a)

/-- The record of a file block, before `host_file_add`. mirrors src/conf.c:328-341 -/
def fileRecord (e : ConfEntry) : EvalM File := do
  let path ← iGetString [e] none none true
  let path ← iGetString e.sub (some kwPath) path true
  let name ← iGetString e.sub (some kwName) none true
  let service ← iGetService e.sub kwService 0
  let aliases ← iGetAliases e.sub fileAliasesMax
  match ← parseEntryGet e.sub (some kwAlias) with
  | some a => parseError [a] (cstr "too many aliases")
  | none =>
    let server ← iGetString e.sub (some kwServer) none true
    iAssureNoEntry e.sub none
    pure ⟨path, name, server, aliases, service⟩

/-- A round of `i_eval_host_files`. -/
def evalFile (e : ConfEntry) (files : List File) : EvalM (List File) := do
  let f ← fileRecord e
  liftSetup (hostFileAdd files f)

/-- mirrors src/conf.c:319-343 -/
def iEvalHostFiles (root : List ConfEntry) (files : List File) : EvalM (List File) :=
  whileEntry root kwFile evalFile files

/-! ## Hosts -/

/-- The record of a host block, before `host_add`. mirrors src/conf.c:306-314 -/
def hostRecord (env : SetupEnv) (e : ConfEntry) : EvalM Host := do
  let name ← iGetString [e] none none true
  let name ← iGetString e.sub (some kwName) name true
  let eth ← iGetEther env e.sub kwEther .zero true
  let ip ← iGetIp env e.sub kwIp 0 true
  let service ← iGetService e.sub kwService 0
  let files ← iEvalHostFiles e.sub []
  iAssureNoEntry e.sub none
  pure ⟨none, name, service, eth, ip, files, none⟩

/-- `host_add`, with the record it was given if that is linked in now. -/
def addHost (env : SetupEnv) (h : Host) : SetupM Unit := do
  let st ← get
  match hostAddNew (st.conf env) env.os h st.w with
  | .ok (p, listed) w =>
    set { st with w := w, accepted := if listed then st.accepted ++ [p] else st.accepted }
  | .error f _ => throw f

/-- A round of `i_eval_hosts`. -/
def evalHost (env : SetupEnv) (e : ConfEntry) (_ : Unit) : EvalM Unit := do
  let h ← hostRecord env e
  liftSetup (addHost env h)

/-- mirrors src/conf.c:299-317 -/
def iEvalHosts (env : SetupEnv) (root : List ConfEntry) : EvalM Unit :=
  whileEntry root kwHost (evalHost env) ()

/-- mirrors src/conf.c:85-100, behind `parse_file` -/
def confFile (env : SetupEnv) (root : List ConfEntry) : EvalM Unit := do
  iEvalLogMsg env root
  iEvalBasic root
  iEvalServices env root
  iEvalHosts env root
  iAssureNoEntry root none

/-! ## Settings for runs on concrete inputs -/

/-- Before the configuration is read. mirrors src/global.h:17-27 -/
def plainSetup : Setup where
  filename := cstr "bootd.conf"
  cChroot := none
  cDirectory := none
  cResolveEther := true
  cResolveIp := true
  cSessionMax := 5
  cSessionTimeout := 120
  log := none
  services := serviceInit
  devices := []
  w := emptyWorld
  accepted := []

/-- A machine with one Ethernet device. -/
def plainEnv : SetupEnv :=
  ⟨plainConf, plainOs, [⟨cstr "eth0", plainEther 9, [9]⟩], fun _ => none, fun _ => true, []⟩

end Bootd
