import Bootd.Config.Complete

/-!
# What a configuration means

The functions of `conf.c` again, but without marks: a block is the lists of its
entries by keyword (`named`), a statement that may be given once is the only one
of its list, and a loop goes through the list from the front. What is left over is
an entry with a keyword that the block does not know.

A configuration is refused with a message, or the program ends in a fault
(`Refusal`). Of a message there is left what the configuration has put in: the
name of its file, and the word that is shown. A warning is a message, too, but it
is the end only when it cannot be printed.

`Meaning.conf` is what `confFile` does, see `Config/Refines.lean`.
-/
namespace Bootd

open Bootd.Core

/-- What a message shows: the name of the file, and a word of it or nothing. -/
structure Message where
  file : CStr
  word : CStr
  deriving DecidableEq

/-- The text is a format without arguments. -/
def Message.Printable (m : Message) : Prop := Log.formatSafe m.file = true ∧ Log.formatSafe m.word = true

instance (m : Message) : Decidable m.Printable := inferInstanceAs (Decidable (_ ∧ _))

/-- How an evaluation ends without a setup. -/
inductive Refusal
  | reported (m : Message)
  | fault (f : Fault)
  deriving DecidableEq

abbrev MeaningM := StateT Setup (Except Refusal)

namespace Meaning

/-- A message that shows `w`. -/
def report {α : Type} (w : CStr) : MeaningM α := do throw (.reported ⟨(← get).filename, w⟩)

def orReport {α : Type} (w : CStr) : Option α → MeaningM α
  | some a => pure a
  | none => report w

@[simp] theorem orReport_some {α : Type} (w : CStr) (a : α) : orReport w (some a) = pure a := rfl

def warn (w : CStr) : MeaningM Unit := do
  if Message.Printable ⟨(← get).filename, w⟩ then pure () else report w

/-- A call that has nothing to do with entries. -/
def call {α : Type} (m : SetupM α) : MeaningM α := fun st =>
  match m st with
  | .ok r => .ok r
  | .error f => .error (.fault f)

/-- A statement that may be given once. -/
def single {α : Type} (es : List ConfEntry) (k : Keyword) (conv : ConfEntry → MeaningM α) (dst : α) : MeaningM α :=
  match named k es with
  | [] => pure dst
  | [e] => if e.values.length ≠ 1 then report [] else conv e
  | _ => report []

/-- The value of an entry itself. -/
def self {α : Type} (e : ConfEntry) (conv : ConfEntry → MeaningM α) (dst : α) : MeaningM α :=
  if e.values.length ≠ 1 then pure dst else conv e

/-- All entries of that name, from the front. -/
def each {β : Type} (es : List ConfEntry) (k : Keyword) (body : ConfEntry → β → MeaningM β) (b : β) : MeaningM β :=
  (named k es).foldlM (fun b e => body e b) b

/-- There are no other keywords, or the first one is shown. -/
def known (es : List ConfEntry) (L : List CStr) : MeaningM Unit :=
  match es.find? (·.name ∉ L) with
  | none => pure ()
  | some e => report e.name

theorem unknown_none {es : List ConfEntry} {L : List CStr} :
    es.find? (·.name ∉ L) = none ↔ ∀ e ∈ es, e.name ∈ L := by
  simp

theorem known_ok {es : List ConfEntry} {L : List CStr} {u : Unit} {st st' : Setup} :
    known es L st = .ok (u, st') ↔ (∀ e ∈ es, e.name ∈ L) ∧ st' = st := by
  rw [← unknown_none]
  unfold known
  cases es.find? (·.name ∉ L) with
  | none =>
    constructor
    · rintro ⟨⟩
      exact ⟨rfl, rfl⟩
    · rintro ⟨-, rfl⟩
      rfl
  | some e => exact iff_of_false (fun h => nomatch h) fun h => nomatch h.1

/-! ## Values -/

def string (dst : Option CStr) (e : ConfEntry) : MeaningM (Option CStr) :=
  if dst ≠ none then report [] else pure (some e.value)

def bool (e : ConfEntry) : MeaningM Bool := orReport e.value (strGetBool e.value)

def int (e : ConfEntry) : MeaningM Int :=
  match strGetInt e.value with
  | (n, true) => pure n
  | (_, false) => report e.value

def loglevel (e : ConfEntry) : MeaningM Nat := orReport [] (strGetLoglevel e.value)

def ether (env : SetupEnv) (e : ConfEntry) : MeaningM Ether :=
  match env.lib.etherAton e.value with
  | some eth => pure eth
  | none => do
    let st ← get
    if st.cResolveEther = false then report e.value
    else orReport e.value (← call (utilName2ether (st.conf env) env.os st.w e.value))

def ip (env : SetupEnv) (e : ConfEntry) : MeaningM Ip :=
  match env.lib.inetAton e.value with
  | some ip => pure ip
  | none => do
    let st ← get
    if st.cResolveIp = false then report e.value
    else call (utilName2ip (st.conf env) env.os st.w e.value)

/-- The words of all `service` statements. -/
def services (es : List ConfEntry) (dst : Nat) : MeaningM Nat := do
  let st ← get
  orReport [] (readServices st.services (named kwService es) dst)

/-! ## Settings -/

def setting {α : Type} (cur : Setup → α) (read : α → MeaningM α) (set : α → Setup → Setup) : MeaningM Unit := do
  let a ← read (cur (← get))
  modify (set a)

def basic (root : List ConfEntry) : MeaningM Unit := do
  setting (·.cChroot) (fun dst => single root kwChroot (string dst) dst) fun a st => { st with cChroot := a }
  setting (·.cDirectory) (fun dst => single root kwDirectory (string dst) dst) fun a st => { st with cDirectory := a }
  setting (·.cResolveEther) (single root kwResolveEther bool) fun a st => { st with cResolveEther := a }
  setting (·.cResolveIp) (single root kwResolveIp bool) fun a st => { st with cResolveIp := a }
  setting (·.cSessionMax) (single root kwSessionMax int) fun a st => { st with cSessionMax := a }
  setting (·.cSessionTimeout) (single root kwSessionTimeout int) fun a st => { st with cSessionTimeout := a }

/-- A `log` block. -/
def logBlock (e : ConfEntry) : MeaningM (Nat × Option CStr) := do
  let file ← single e.sub kwFile (fun e => pure (some e.value)) none
  let level ← single e.sub kwLevel loglevel 0
  known e.sub [kwLevel.1, kwFile.1]
  pure (level, file)

def log (env : SetupEnv) (root : List ConfEntry) : MeaningM Unit :=
  match named kwLog root with
  | [] => modify (logInit env 0 none)
  | [e] => do
    let (level, file) ← logBlock e
    modify (logInit env level file)
  | _ => report []

/-! ## Services -/

def bindWord (add : CStr → SetupM Bool) (w : CStr) : MeaningM Unit := do
  if ← call (add w) then pure () else warn w

def addBindings (add : CStr → SetupM Bool) (e : ConfEntry) (_ : Unit) : MeaningM Unit :=
  e.values.forM (bindWord add)

def bindings (env : SetupEnv) (id s : Nat) (sub : List ConfEntry) : MeaningM Unit :=
  if id &&& listenLink ≠ 0 then each sub kwDevice (addBindings (serviceLinkAdd env s)) ()
  else if id &&& listenUdp ≠ 0 ∨ id &&& listenRpcUdp ≠ 0 then
    each sub kwBind (addBindings (serviceUdpAdd env s)) ()
  else pure ()

/-- A `service` block. -/
def service (env : SetupEnv) (e : ConfEntry) (_ : Unit) : MeaningM Unit :=
  if e.values.length ≠ 1 then report []
  else do
    let svs := (← get).services
    let id ← orReport [] (strGetService svs e.value 0)
    let s ← orReport [] (serviceSearchById svs id)
    bindings env id s e.sub

/-! ## Hosts and files -/

/-- The value of an entry, if there is one. -/
def aliasOf : Option ConfEntry → MeaningM (Option CStr)
  | none => pure none
  | some e => if e.values.length ≠ 1 then report [] else pure (some e.value)

/-- The first `n` aliases. -/
def aliases (sub : List ConfEntry) : (n : Nat) → MeaningM (Vector (Option CStr) n)
  | 0 => pure #v[]
  | n + 1 => do
    let v ← aliases sub n
    let a ← aliasOf (named kwAlias sub)[n]?
    pure (v.push a)

/-- The record of a `file` block. -/
def fileRecord (e : ConfEntry) : MeaningM File := do
  let path ← self e (string none) none
  let path ← single e.sub kwPath (string path) path
  let name ← single e.sub kwName (string none) none
  let service ← services e.sub 0
  let aliases ← aliases e.sub fileAliasesMax
  if fileAliasesMax < (named kwAlias e.sub).length then report []
  else
    let server ← single e.sub kwServer (string none) none
    known e.sub [kwServer.1, kwAlias.1, kwService.1, kwName.1, kwPath.1]
    pure ⟨path, name, server, aliases, service⟩

def file (e : ConfEntry) (files : List File) : MeaningM (List File) := do
  let f ← fileRecord e
  call (hostFileAdd files f)

/-- The record of a `host` block. -/
def hostRecord (env : SetupEnv) (e : ConfEntry) : MeaningM Host := do
  let name ← self e (string none) none
  let name ← single e.sub kwName (string name) name
  let eth ← single e.sub kwEther (ether env) .zero
  let ip ← single e.sub kwIp (ip env) 0
  let service ← services e.sub 0
  let files ← each e.sub kwFile file []
  known e.sub [kwFile.1, kwService.1, kwIp.1, kwEther.1, kwName.1]
  pure ⟨none, name, service, eth, ip, files, none⟩

def host (env : SetupEnv) (e : ConfEntry) (_ : Unit) : MeaningM Unit := do
  let h ← hostRecord env e
  call (addHost env h)

/-- What is evaluated in front of the hosts. -/
def head (env : SetupEnv) (root : List ConfEntry) : MeaningM Unit := do
  log env root
  basic root
  each root kwService (service env) ()

/-- A whole configuration. -/
def conf (env : SetupEnv) (root : List ConfEntry) : MeaningM Unit := do
  head env root
  each root kwHost (host env) ()
  known root [kwHost.1, kwService.1, kwSessionTimeout.1, kwSessionMax.1, kwResolveIp.1, kwResolveEther.1,
    kwDirectory.1, kwChroot.1, kwLog.1]

end Meaning

end Bootd
