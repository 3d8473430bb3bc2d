import Mathlib.Data.List.TakeWhile
import Bootd.L2State.World

/-!
# The host table (`host.c:17-125`, the lookups of `util.c`)

`g_hosts` is a linked chain through the host heap. The lookups are the search
loop `Chain.find` over it, with one iteration per heap record as fuel: a chain
that is still going after that many has come back to a record, and the loop in
the source never ends (`Fault.hang`).

`host_add` first completes the record (`hostComplete`: name, address and
Ethernet address are derived from each other, service masks get their
defaults), then hangs it behind the last host unless its name is listed
(`hostInsert`). It does not touch `next` of the new record.

Three arrays can be too short for what is stored in them: `b[64]` for a name in
upper case, the static `name[64]` for one from the ethers database, and
`files[2048]`, in which `host_add` lists the files for its log message.

* `hostFiles_eq`: the texts of the files fit, or the array is overrun.
* `hostComplete_ok`: what completing a record keeps, and `Host.Complete`, what
  a record that passes has.
* `hostTail_ok`: a loop of `host_add` that finds the last host has seen the
  whole table, and no host of that name in it.
* `hostAddNew_ok`: the table after a new record was added to it.
-/
namespace Bootd

open Bootd.Core

/-! ## Lookups -/

/-- One iteration of a lookup loop. -/
def hostNode (w : World) (test : Host → Except Fault Bool) (p : HostId) :
    Except Fault (Bool × Option HostId) :=
  match w.hosts[p]? with
  | none => .error .segv
  | some h =>
    match test h with
    | .error e => .error e
    | .ok b => .ok (b, h.next)

def hostFind (w : World) (test : Host → Except Fault Bool) : Except Fault (Option HostId) :=
  Chain.find (hostNode w test) .hang w.hosts.length w.gHosts

/-- `strcasecmp(name, h->name) == 0`; a NULL name is followed. -/
def hostNamed (name : CStr) (h : Host) : Except Fault Bool :=
  match h.name with
  | none => .error .segv
  | some n => .ok (strcasecmp name n)

/-- mirrors src/util.c:158-169 -/
def utilName2host (w : World) (name : CStr) : Except Fault (Option HostId) :=
  hostFind w (hostNamed name)

/-- mirrors src/util.c:171-181 -/
def utilEther2host (w : World) (eth : Ether) : Except Fault (Option HostId) :=
  hostFind w fun h => .ok (h.eth == eth)

/-- mirrors src/util.c:183-193 -/
def utilIp2host (w : World) (ip : Ip) : Except Fault (Option HostId) :=
  hostFind w fun h => .ok (ip == h.ip)

/-! ## Completing a record -/

/-- `h->name` of a host that was found. -/
def hostNameOf (w : World) (p : HostId) : Except Fault CStr :=
  match (w.hosts[p]?).bind Host.name with
  | some n => .ok n
  | none => .error .segv

/-- `sizeof(name)` in `util_ether2name`. -/
def nameSize : Nat := 64

/-- `sizeof(b)` in `util_name2ether`. -/
def upperSize : Nat := 64

/-- The library stores the name it finds into a static array.
mirrors src/util.c:123-138 -/
def utilEther2name (c : Conf) (os : Os) (w : World) (eth : Ether) : Except Fault CStr := do
  match ← utilEther2host w eth with
  | some p => hostNameOf w p
  | none =>
    if c.cResolveEther then
      match os.etherNtohost eth with
      | some n => if n.length < nameSize ∨ os.pastStore then .ok n else .error .overrun
      | none => .ok (c.etherNtoa eth)
    else .ok (c.etherNtoa eth)

/-- mirrors src/util.c:140-156 -/
def utilIp2name (c : Conf) (os : Os) (w : World) (ip : Ip) : Except Fault CStr := do
  match ← utilIp2host w ip with
  | some p => hostNameOf w p
  | none =>
    if c.cResolveIp then .ok ((os.gethostbyaddr ip).getD (c.inetNtoa ip))
    else .ok (c.inetNtoa ip)

/-- The record of the host listed under `name`. -/
def hostByName (w : World) (name : CStr) : Except Fault (Option Host) := do
  match ← utilName2host w name with
  | none => .ok none
  | some p => .ok w.hosts[p]?

/-- Every way to fail is a `LOG_ERR`.
mirrors src/util.c:97-121 -/
def utilName2ip (c : Conf) (os : Os) (w : World) (name : CStr) : Except Fault Ip :=
  match c.inetAton name with
  | some ip => .ok ip
  | none => do
    match (← hostByName w name).filter (fun h => utilIpValid h.ip) with
    | some h => .ok h.ip
    | none =>
      if c.cResolveIp = false then .error .exit
      else
        match os.gethostbyname name with
        | some (some ip) => .ok ip
        | _ => .error .exit

/-- The library is asked again, and the rest is a `LOG_ERR`. mirrors src/util.c:90-92 -/
def etherHosttonUpper (os : Os) (name : CStr) : Except Fault (Option Ether) :=
  match os.etherHostton (name.map upper) with
  | some eth => .ok (some eth)
  | none => .error .exit

/-- mirrors src/util.c:67-95 -/
def utilName2ether (c : Conf) (os : Os) (w : World) (name : CStr) : Except Fault (Option Ether) :=
  match c.etherAton name with
  | some eth => .ok (some eth)
  | none => do
    match (← hostByName w name).filter (fun h => utilEtherValid h.eth) with
    | some h => .ok (some h.eth)
    | none =>
      if c.cResolveEther = false then .ok none
      else
        match os.etherHostton name with
        | some eth => .ok (some eth)
        | none => if upperSize ≤ name.length then .error .overrun else etherHosttonUpper os name

/-! The name, the address and the Ethernet address the record gets.
mirrors src/host.c:53-81 -/

def hostName (c : Conf) (os : Os) (w : World) (h : Host) : Except Fault (Option CStr) :=
  match h.name with
  | some n => .ok (some n)
  | none =>
    if utilIpValid h.ip then some <$> utilIp2name c os w h.ip
    else if utilEtherValid h.eth then some <$> utilEther2name c os w h.eth
    else .ok none

def hostIp (c : Conf) (os : Os) (w : World) (h : Host) (name : CStr) : Except Fault Ip :=
  if utilIpValid h.ip then .ok h.ip else utilName2ip c os w name

def hostEther (c : Conf) (os : Os) (w : World) (h : Host) (name : CStr) :
    Except Fault (Option Ether) :=
  if utilEtherValid h.eth then .ok (some h.eth) else utilName2ether c os w name

/-- `sizeof(files)` -/
def filesSize : Nat := 2048

/-- The file with the mask it gets. mirrors src/host.c:87-89 -/
def File.masked (service : Nat) (f : File) : File := if f.service = 0 then { f with service := service } else f

/-- What is appended for a file. mirrors src/host.c:90-104 -/
def fileTexts (strService : Nat → CStr) (f : File) : List (Option CStr) :=
  [some (cstr "\n  file "), f.path, some (cstr "\n    name "), f.name] ++
    (f.aliases.toList.takeWhile Option.isSome).flatMap (fun a => [some (cstr " | "), a]) ++
    (if f.server ≠ none then [some (cstr "\n    server "), f.server] else []) ++
    [some (cstr "\n    service "), some (strService f.service)]

/-- `strcat` for each string, behind the first `used` bytes of `files`; NULL is followed. -/
def strcats : Nat → List (Option CStr) → Except Fault Nat
  | used, [] => .ok used
  | _, none :: _ => .error .segv
  | used, some s :: l =>
    if used + s.length < filesSize then strcats (used + s.length) l else .error .overrun

/-- The loop over the files: a mask of 0 becomes the host's, and the texts are
put together for the log message.
mirrors src/host.c:86-105 -/
def hostFiles (c : Conf) (service : Nat) : Nat → List File → Except Fault (List File)
  | _, [] => .ok []
  | used, f :: fs => do
    let used ← strcats used (fileTexts c.strService (f.masked service))
    let fs ← hostFiles c service used fs
    .ok (f.masked service :: fs)

/-- The record as `host_add` leaves it, and whether it got past the checks.
mirrors src/host.c:53-110 -/
def hostComplete (c : Conf) (os : Os) (w : World) (h : Host) : Except Fault (Host × Bool) := do
  match ← hostName c os w h with
  | none => .ok (h, false)
  | some n => do
    let ip ← hostIp c os w h n
    match ← hostEther c os w h n with
    | none => .ok ({ h with name := some n, ip := ip }, false)
    | some eth => do
      let service := if h.service = 0 then serviceAll else h.service
      let fs ← hostFiles c service 0 h.files
      .ok ({ h with name := some n, ip := ip, eth := eth, service := service, files := fs }, true)

/-! ## Adding -/

/-- The loop of `host_add`: `none` when the name is listed, else the last host.
mirrors src/host.c:112-121 -/
def hostTail (w : World) (name : CStr) : Nat → HostId → Except Fault (Option HostId)
  | 0, _ => .error .hang
  | fuel + 1, p =>
    match w.hosts[p]? with
    | none => .error .segv
    | some h =>
      match hostNamed name h with
      | .error e => .error e
      | .ok true => .ok none
      | .ok false =>
        match h.next with
        | none => .ok (some p)
        | some q => hostTail w name fuel q

/-- Whether the record was linked in.
mirrors src/host.c:111-124 -/
def hostInsert (p : HostId) (name : CStr) : M Bool := do
  let w ← get
  match w.gHosts with
  | none => do
    modify fun w => { w with gHosts := some p }
    pure true
  | some q => do
    match ← Exec.liftE (hostTail w name w.hosts.length q) with
    | none => pure false
    | some t => do
      modify (·.setHost t fun h => { h with next := some p })
      pure true

/-- `host_add(p)`; the result says whether `p` is now listed.
mirrors src/host.c:39-125 -/
def hostAdd (c : Conf) (os : Os) (p : HostId) : M Bool := do
  let h ← loadHost p
  let (h', complete) ← Exec.liftE (hostComplete c os (← get) h)
  modify (·.setHost p fun _ => h')
  match complete, h'.name with
  | true, some n => hostInsert p n
  | _, _ => pure false

/-- `malloc` of a host record. -/
def hostAlloc (h : Host) : M HostId := do
  let p := (← get).hosts.length
  modify fun w => { w with hosts := w.hosts ++ [h] }
  pure p

/-- The record copied by `host_clone`: everything that is not overwritten stays
as in the template, `next` and `session` included.
mirrors src/host.c:22-34 -/
def cloneOf (src : Host) (name : Option CStr) (eth : Option Ether) (ip : Option Ip) : Host :=
  { src with name := name, eth := eth.getD .zero, ip := ip.getD 0 }

/-- A record that is allocated, filled in and added: `host_new` and `host_add`
of the configuration (mirrors src/conf.c:285-295), and the end of `host_clone`. -/
def hostAddNew (c : Conf) (os : Os) (h : Host) : M (HostId × Bool) := do
  let p ← hostAlloc h
  let listed ← hostAdd c os p
  pure (p, listed)

/-- mirrors src/host.c:17-37 -/
def hostClone (c : Conf) (os : Os) (src : HostId) (name : Option CStr) (eth : Option Ether)
    (ip : Option Ip) : M (HostId × Bool) := do
  let h ← loadHost src
  hostAddNew c os (cloneOf h name eth ip)

/-! ## What a record keeps and gets -/

/-! ### The texts of the files -/

/-- The strings in front of a NULL. -/
def beforeNull : List (Option CStr) → List CStr
  | some s :: l => s :: beforeNull l
  | _ => []

/-- All that the loop over the files appends. -/
def filesTexts (strService : Nat → CStr) (service : Nat) (fs : List File) : List (Option CStr) :=
  fs.flatMap fun f => fileTexts strService (f.masked service)

/-- What the loop over the files leaves, apart from the array. -/
def filesMasked (service : Nat) (fs : List File) : Except Fault (List File) :=
  if ∃ f ∈ fs, f.path = none ∨ f.name = none then .error .segv else .ok (fs.map (File.masked service))

/-- The texts of the files fit into `files`. -/
def TextsFit (c : Conf) (service : Nat) (fs : List File) : Prop :=
  (beforeNull (filesTexts c.strService service fs)).flatten.length < filesSize

instance (c : Conf) (service : Nat) (fs : List File) : Decidable (TextsFit c service fs) :=
  inferInstanceAs (Decidable (_ < _))

section
variable {c : Conf} {service used : Nat} {f : File} {fs fs' : List File} {l m : List (Option CStr)}
  {str : Nat → CStr}

theorem masked_of_ne (h : f.service ≠ 0) : f.masked service = f := if_neg h

theorem masked_path : (f.masked service).path = f.path := by
  unfold File.masked
  split <;> rfl

theorem masked_name : (f.masked service).name = f.name := by
  unfold File.masked
  split <;> rfl

theorem masked_service (hs : service ≠ 0) (f : File) : (f.masked service).service ≠ 0 := by
  unfold File.masked
  split
  · exact hs
  · assumption

theorem beforeNull_append (hl : none ∉ l) : beforeNull (l ++ m) = beforeNull l ++ beforeNull m := by
  induction l with
  | nil => rfl
  | cons s l ih =>
    simp only [List.mem_cons, not_or] at hl
    cases s with
    | none => exact absurd rfl hl.1
    | some s => exact congrArg (s :: ·) (ih hl.2)

theorem beforeNull_stops (hl : none ∈ l) : beforeNull (l ++ m) = beforeNull l := by
  induction l with
  | nil => cases hl
  | cons s l ih =>
    cases s with
    | none => rfl
    | some s =>
      have hl' : none ∈ l := by simpa using hl
      exact congrArg (s :: ·) (ih hl')

/-- Without a NULL all the strings count. -/
theorem beforeNull_length (hl : none ∉ l) :
    (beforeNull l).flatten.length = (l.map fun s => (s.getD []).length).sum := by
  induction l with
  | nil => rfl
  | cons s l ih =>
    simp only [List.mem_cons, not_or] at hl
    cases s with
    | none => exact absurd rfl hl.1
    | some s =>
      rw [beforeNull, List.flatten_cons, List.length_append, ih hl.2, List.map_cons, List.sum_cons]
      rfl

/-- Only the path and the name of a file are not checked for NULL. -/
theorem fileTexts_null : none ∈ fileTexts str f ↔ f.path = none ∨ f.name = none := by
  have haliases :
      none ∉ (f.aliases.toList.takeWhile Option.isSome).flatMap fun a => [some (cstr " | "), a] := by
    intro h
    obtain ⟨a, ha, hnone⟩ := List.mem_flatMap.mp h
    have hsome := List.mem_takeWhile_imp ha
    simp only [List.mem_cons, reduceCtorEq, List.not_mem_nil, or_false, false_or] at hnone
    rw [← hnone] at hsome
    cases hsome
  have hserver : none ∉ if f.server ≠ none then [some (cstr "\n    server "), f.server] else [] := by
    split <;> simp_all [eq_comm]
  unfold fileTexts
  simp only [List.mem_append, haliases, hserver, List.mem_cons, reduceCtorEq, List.not_mem_nil,
    or_false, false_or]
  rw [eq_comm, eq_comm (a := none)]

/-- The strings up to the first NULL have to fit, with the NUL. -/
theorem strcats_eq (hused : used < filesSize) : strcats used l =
    if used + (beforeNull l).flatten.length < filesSize then
      if none ∈ l then .error .segv else .ok (used + (beforeNull l).flatten.length)
    else .error .overrun := by
  induction l generalizing used with
  | nil => simp [strcats, beforeNull, hused]
  | cons s l ih =>
    cases s with
    | none => simp [strcats, beforeNull, hused]
    | some s =>
      rw [strcats, beforeNull, List.flatten_cons, List.length_append, ← Nat.add_assoc]
      by_cases hs : used + s.length < filesSize
      · rw [if_pos hs, ih hs]
        simp
      · rw [if_neg hs, if_neg (by omega)]

/-- **When the loop gets through**: all that it appends fits, and there is no NULL in it. -/
theorem hostFiles_eq (hused : used < filesSize) : hostFiles c service used fs =
    if used + (beforeNull (filesTexts c.strService service fs)).flatten.length < filesSize then
      filesMasked service fs
    else .error .overrun := by
  unfold filesMasked
  induction fs generalizing used with
  | nil => simp [hostFiles, filesTexts, beforeNull, hused]
  | cons f fs ih =>
    have htexts : filesTexts c.strService service (f :: fs) =
        fileTexts c.strService (f.masked service) ++ filesTexts c.strService service fs := List.flatMap_cons
    have hnull : none ∈ fileTexts c.strService (f.masked service) ↔ f.path = none ∨ f.name = none := by
      rw [fileTexts_null, masked_path, masked_name]
    rw [hostFiles, strcats_eq hused, htexts]
    by_cases hno : f.path = none ∨ f.name = none
    · -- the texts stop at the NULL of this file
      rw [beforeNull_stops (hnull.mpr hno), if_pos (hnull.mpr hno),
        if_pos (⟨f, List.mem_cons_self, hno⟩ : ∃ g ∈ f :: fs, g.path = none ∨ g.name = none)]
      split <;> rfl
    · rw [beforeNull_append (mt hnull.mp hno), List.flatten_append, List.length_append, ← Nat.add_assoc,
        if_neg (mt hnull.mp hno)]
      by_cases hfit : used + (beforeNull (fileTexts c.strService (f.masked service))).flatten.length < filesSize
      · rw [if_pos hfit]
        show (hostFiles c service _ fs >>= _) = _
        rw [ih hfit]
        have hex : (∃ g ∈ f :: fs, g.path = none ∨ g.name = none) ↔
            ∃ g ∈ fs, g.path = none ∨ g.name = none := by
          simp [hno]
        simp only [hex, List.map_cons]
        split
        · split <;> rfl
        · rfl
      · rw [if_neg hfit, if_neg (by omega)]
        rfl

theorem hostFiles_fit :
    hostFiles c service 0 fs = if TextsFit c service fs then filesMasked service fs else .error .overrun := by
  rw [hostFiles_eq (by decide), Nat.zero_add]
  rfl

/-- A list that got through: the files with their masks. -/
theorem hostFiles_listed (h : hostFiles c service 0 fs = .ok fs') : fs' = fs.map (File.masked service) ∧
    (∀ f ∈ fs, f.path ≠ none ∧ f.name ≠ none) ∧ TextsFit c service fs := by
  rw [hostFiles_fit] at h
  split at h
  · rename_i hfit
    unfold filesMasked at h
    split at h
    · cases h
    · rename_i hnamed
      cases h
      refine ⟨rfl, fun f hf => ?_, hfit⟩
      by_contra hno
      rw [not_and_or, not_not, not_not] at hno
      exact hnamed ⟨f, hf, hno⟩
  · cases h

/-- Masks are given once. -/
theorem filesTexts_masked (hs : service ≠ 0) (fs : List File) :
    filesTexts str service (fs.map (File.masked service)) = filesTexts str service fs := by
  unfold filesTexts
  rw [List.flatMap_map]
  refine List.flatMap_congr fun f _ => ?_
  rw [masked_of_ne (masked_service hs f)]

end

/-- A record as `host_add` lists it. -/
structure Host.Complete (h : Host) : Prop where
  name : h.name ≠ none
  service : h.service ≠ 0
  files : ∀ f ∈ h.files, f.path ≠ none ∧ f.name ≠ none ∧ f.service ≠ 0

section
variable {c : Conf} {os : Os} {w w' : World} {h h' : Host} {p q t : HostId} {b : Bool}
  {name : CStr}

theorem except_bind_ok {α β : Type} {x : Except Fault α} {f : α → Except Fault β} {r : β}
    (h : (x >>= f) = .ok r) : ∃ a, x = .ok a ∧ f a = .ok r := by
  cases x with
  | error e => cases h
  | ok a => exact ⟨a, rfl, h⟩

theorem hostFiles_ok {service : Nat} {fs fs' : List File} (hs : service ≠ 0)
    (h : hostFiles c service 0 fs = .ok fs') :
    (∀ f ∈ fs', f.path ≠ none ∧ f.name ≠ none ∧ f.service ≠ 0) ∧
      ((∀ f ∈ fs, f.service ≠ 0) → fs' = fs) := by
  obtain ⟨rfl, hnamed, -⟩ := hostFiles_listed h
  constructor
  · intro g hg
    obtain ⟨f, hf, rfl⟩ := List.mem_map.mp hg
    rw [masked_path, masked_name]
    exact ⟨(hnamed f hf).1, (hnamed f hf).2, masked_service hs f⟩
  · intro hall
    exact (List.map_congr_left fun f hf => masked_of_ne (hall f hf)).trans (List.map_id' fs)

/-- Completing a record fills gaps and keeps the rest. -/
theorem hostComplete_ok (hr : hostComplete c os w h = .ok (h', b)) :
    h'.next = h.next ∧ h'.session = h.session ∧ (utilEtherValid h.eth = true → h'.eth = h.eth) ∧
      (b = true → h'.Complete) ∧
      (h.service ≠ 0 → h'.service = h.service ∧
        ((∀ f ∈ h.files, f.service ≠ 0) → h'.files = h.files)) := by
  obtain ⟨o, ho, hr⟩ := except_bind_ok hr
  cases o with
  | none => cases hr; simp
  | some n =>
    obtain ⟨ip, hip, hr⟩ := except_bind_ok hr
    obtain ⟨o, heth, hr⟩ := except_bind_ok hr
    cases o with
    | none => cases hr; simp
    | some eth =>
      obtain ⟨fs, hfs, hr⟩ := except_bind_ok hr
      cases hr
      have hsvc : (if h.service = 0 then serviceAll else h.service) ≠ 0 := by
        split
        · decide
        · assumption
      obtain ⟨h1, h2⟩ := hostFiles_ok hsvc hfs
      refine ⟨rfl, rfl, fun hv => ?_, fun _ => ⟨by simp, hsvc, h1⟩, fun h0 => ⟨if_neg h0, h2⟩⟩
      rw [hostEther, if_pos hv] at heth
      cases heth; rfl

/-- The texts of a record that is listed fit, also when it is added again. -/
theorem hostComplete_texts (hr : hostComplete c os w h = .ok (h', true)) :
    TextsFit c h'.service h'.files := by
  obtain ⟨o, -, hr⟩ := except_bind_ok hr
  cases o with
  | none => cases hr
  | some n =>
    obtain ⟨ip, -, hr⟩ := except_bind_ok hr
    obtain ⟨o, -, hr⟩ := except_bind_ok hr
    cases o with
    | none => cases hr
    | some eth =>
      obtain ⟨fs, hfs, hr⟩ := except_bind_ok hr
      cases hr
      have hsvc : (if h.service = 0 then serviceAll else h.service) ≠ 0 := by
        split
        · decide
        · assumption
      obtain ⟨rfl, -, hfit⟩ := hostFiles_listed hfs
      unfold TextsFit at hfit ⊢
      rwa [filesTexts_masked hsvc]

/-- `host_add` can tell the name and both addresses of the record. -/
def Addressed (c : Conf) (os : Os) (w : World) (h : Host) : Prop :=
  ∃ n ip eth, hostName c os w h = .ok (some n) ∧ hostIp c os w h n = .ok ip ∧
    hostEther c os w h n = .ok (some eth)

/-- The mask of the host, which is never 0. -/
def Host.mask (h : Host) : Nat := if h.service = 0 then serviceAll else h.service

/-- The record with its name, its addresses and its masks. -/
def hostMasked (h : Host) (n : CStr) (ip : Ip) (eth : Ether) : Except Fault (Host × Bool) := do
  let fs ← filesMasked h.mask h.files
  .ok ({ h with name := some n, ip := ip, eth := eth, service := h.mask, files := fs }, true)

/-- With a name and both addresses, it is up to the files. -/
theorem hostComplete_addressed {n : CStr} {ip : Ip} {eth : Ether} (hname : hostName c os w h = .ok (some n))
    (hip : hostIp c os w h n = .ok ip) (heth : hostEther c os w h n = .ok (some eth)) :
    hostComplete c os w h = if TextsFit c h.mask h.files then hostMasked h n ip eth else .error .overrun := by
  have hfiles : hostComplete c os w h = (hostFiles c h.mask 0 h.files >>= fun fs => .ok ({ h with
      name := some n, ip := ip, eth := eth, service := h.mask, files := fs }, true)) := by
    unfold hostComplete
    simp only [hname, hip, heth, bind, Except.bind]
    rfl
  rw [hfiles, hostFiles_fit]
  split <;> rfl

/-- A record without any of name, address and Ethernet address stays as it is. -/
theorem hostComplete_blank (c : Conf) (os : Os) (hn : h.name = none) (hip : utilIpValid h.ip = false)
    (he : utilEtherValid h.eth = false) : hostComplete c os w h = .ok (h, false) := by
  simp [hostComplete, hostName, hn, hip, he, bind, Except.bind]

/-! ### Arrays for names -/

/-- `util_name2ether` comes to the copy: nothing else stands for an address, and `ether_hostton` does not know
the name as it is. -/
structure UpperTried (c : Conf) (os : Os) (w : World) (name : CStr) : Prop where
  aton : c.etherAton name = none
  unlisted : ∃ o, hostByName w name = .ok o ∧ o.filter (fun h => utilEtherValid h.eth) = none
  resolve : c.cResolveEther = true
  unknown : os.etherHostton name = none

theorem name2ether_tried (htried : UpperTried c os w name) : utilName2ether c os w name =
    if upperSize ≤ name.length then .error .overrun else etherHosttonUpper os name := by
  obtain ⟨o, ho, hnone⟩ := htried.unlisted
  unfold utilName2ether
  rw [htried.aton, ho, htried.unknown]
  simp only [bind, Except.bind, hnone, htried.resolve]
  rfl

/-! ## The table -/

/-- The name of a record under which `strcasecmp` finds it. -/
def World.NamedLike (w : World) (name : CStr) (p : HostId) : Prop :=
  ∃ h n, w.hosts[p]? = some h ∧ h.name = some n ∧ strcasecmp name n = true

theorem next_eq (hh : w.hosts[p]? = some h) : w.next p = some h.next := by
  rw [World.next, hh]; rfl

theorem hostTail_ok : ∀ {n : Nat} {p : HostId}, hostTail w name n p = .ok (some t) →
    ∃ ps, Chain.Path w.next (some p) (ps ++ [t]) none ∧ ∀ a ∈ ps ++ [t], ¬w.NamedLike name a
  | 0, p, hr => by cases hr
  | n + 1, p, hr => by
    simp only [hostTail] at hr
    split at hr
    · cases hr
    · rename_i host hh
      split at hr
      · cases hr
      · cases hr
      · rename_i hnm
        have hno : ¬w.NamedLike name p := by
          intro ⟨h2, m, hh2, hm, hc⟩
          rw [hh] at hh2; cases hh2
          rw [hostNamed, hm, Except.ok.injEq, hc] at hnm
          cases hnm
        have hnext := next_eq hh
        split at hr
        · rename_i hn
          cases hr
          refine ⟨[], ⟨rfl, none, hn ▸ hnext, rfl⟩, ?_⟩
          intro a ha
          rw [List.mem_singleton.mp ha]; exact hno
        · rename_i q hn
          obtain ⟨ps, hp, hall⟩ := hostTail_ok hr
          refine ⟨p :: ps, ⟨rfl, some q, hn ▸ hnext, hp⟩, fun a ha => ?_⟩
          rcases List.mem_cons.mp ha with rfl | ha
          · exact hno
          · exact hall a ha

/-- The other way out of the loop: the name is listed. -/
theorem hostTail_none : ∀ {n : Nat} {p : HostId}, hostTail w name n p = .ok none →
    ∃ ps a q, Chain.Path w.next (some p) (ps ++ [a]) q ∧ w.NamedLike name a
  | 0, p, hr => by cases hr
  | n + 1, p, hr => by
    simp only [hostTail] at hr
    split at hr
    · cases hr
    · rename_i host hh
      have hnext := next_eq hh
      split at hr
      · cases hr
      · rename_i hnm
        refine ⟨[], p, host.next, ⟨rfl, _, hnext, rfl⟩, host, ?_⟩
        unfold hostNamed at hnm
        split at hnm
        · cases hnm
        · rename_i m hm
          simp only [Except.ok.injEq] at hnm
          exact ⟨m, hh, hm, hnm⟩
      · split at hr
        · cases hr
        · rename_i q hn
          obtain ⟨ps, a, r, hp, ha⟩ := hostTail_none hr
          exact ⟨p :: ps, a, r, ⟨rfl, some q, hn ▸ hnext, hp⟩, ha⟩

/-- The world after `p` was linked in behind the table of `w`. -/
inductive Linked (w : World) (p : HostId) (name : CStr) : World → Prop
  | first : w.gHosts = none → Linked w p name { w with gHosts := some p }
  | behind (q t : HostId) : w.gHosts = some q →
      hostTail w name w.hosts.length q = .ok (some t) →
      Linked w p name (w.setHost t fun h => { h with next := some p })

theorem hostInsert_ok (hr : hostInsert p name w = .ok b w') :
    (b = true ∧ Linked w p name w') ∨
      (b = false ∧ w' = w ∧ ∃ a, w.Listed a ∧ w.NamedLike name a) := by
  simp only [hostInsert, Exec.bind_ok, Exec.get_ok] at hr
  obtain ⟨_, _, ⟨rfl, rfl⟩, hr⟩ := hr
  cases hg : w.gHosts with
  | none =>
    simp only [hg, Exec.bind_ok, Exec.modify_ok, Exec.pure_ok] at hr
    obtain ⟨_, _, rfl, rfl, rfl⟩ := hr
    exact .inl ⟨rfl, .first hg⟩
  | some q =>
    simp only [hg, Exec.bind_ok, Exec.liftE_ok_iff] at hr
    obtain ⟨o, _, ⟨ho, rfl⟩, hr⟩ := hr
    cases o with
    | none =>
      simp only [Exec.pure_ok] at hr
      obtain ⟨rfl, rfl⟩ := hr
      obtain ⟨ps, a, r, hp, ha⟩ := hostTail_none ho
      exact .inr ⟨rfl, rfl, a, ⟨ps ++ [a], r, hg ▸ hp, by simp⟩, ha⟩
    | some t =>
      simp only [Exec.bind_ok, Exec.modify_ok, Exec.pure_ok] at hr
      obtain ⟨_, _, rfl, rfl, rfl⟩ := hr
      exact .inl ⟨rfl, .behind q t hg ho⟩

theorem hostAdd_ok (hr : hostAdd c os p w = .ok b w') :
    ∃ h h' complete, w.hosts[p]? = some h ∧ hostComplete c os w h = .ok (h', complete) ∧
      ((b = true ∧ complete = true ∧ ∃ n, h'.name = some n ∧
          Linked (w.setHost p fun _ => h') p n w') ∨
        (b = false ∧ w' = (w.setHost p fun _ => h') ∧ (complete = true → ∀ n, h'.name = some n →
          ∃ a, (w.setHost p fun _ => h').Listed a ∧ (w.setHost p fun _ => h').NamedLike n a))) := by
  simp only [hostAdd, Exec.bind_ok, loadHost_ok, Exec.get_ok, Exec.liftE_ok_iff,
    Exec.modify_ok] at hr
  obtain ⟨h, _, ⟨hh, rfl⟩, _, _, ⟨rfl, rfl⟩, ⟨h', complete⟩, _, ⟨hc, rfl⟩, _, _, rfl, hr⟩ := hr
  refine ⟨h, h', complete, hh, hc, ?_⟩
  cases complete with
  | false =>
    simp only [Exec.pure_ok] at hr
    obtain ⟨rfl, rfl⟩ := hr
    exact .inr ⟨rfl, rfl, fun e => by cases e⟩
  | true =>
    cases hn : h'.name with
    | none =>
      simp only [hn, Exec.pure_ok] at hr
      obtain ⟨rfl, rfl⟩ := hr
      exact .inr ⟨rfl, rfl, fun _ m hm => by cases hm⟩
    | some n =>
      simp only [hn] at hr
      rcases hostInsert_ok hr with ⟨rfl, hl⟩ | ⟨rfl, rfl, ha⟩
      · exact .inl ⟨rfl, rfl, n, rfl, hl⟩
      · exact .inr ⟨rfl, rfl, fun _ m hm => by cases hm; exact ha⟩

@[simps] def World.allocHost (w : World) (h : Host) : World := { w with hosts := w.hosts ++ [h] }

theorem hostAlloc_ok : hostAlloc h w = .ok p w' ↔ p = w.hosts.length ∧ w' = w.allocHost h := by
  simp only [hostAlloc, Exec.bind_ok, Exec.get_ok, Exec.modify_ok, Exec.pure_ok]
  constructor
  · rintro ⟨_, _, ⟨rfl, rfl⟩, _, _, rfl, rfl, rfl⟩
    exact ⟨rfl, rfl⟩
  · rintro ⟨rfl, rfl⟩
    exact ⟨_, _, ⟨rfl, rfl⟩, ⟨⟩, _, rfl, rfl, rfl⟩

theorem setHost_allocHost (w : World) (h h' : Host) :
    (w.allocHost h).setHost w.hosts.length (fun _ => h') = w.allocHost h' := by
  simp only [World.setHost, World.allocHost, World.mk.injEq, and_true]
  rw [List.modify_eq_take_cons_drop (by simp)]
  simp

/-- Adding a record touches nothing but `next` pointers and `g_hosts`. -/
structure AddFrame (w w' : World) : Prop where
  hosts : ∀ q < w.hosts.length, w'.hosts[q]? = (w.hosts[q]?).map fun h : Host =>
    ({ h with next := (w'.next q).join } : Host)
  length : w'.hosts.length = w.hosts.length + 1
  sessions : w'.sessions = w.sessions
  gN : w'.gNSessions = w.gNSessions
  listeners : w'.listeners = w.listeners
  nextId : w'.nextId = w.nextId
  fds : w'.fds = w.fds
  rmpSid : w'.rmpSid = w.rmpSid
  out : w'.out = w.out
  head : ∀ p, w.gHosts = some p → w'.gHosts = some p
  linked : ∀ p q, w.next p = some (some q) → w'.next p = some (some q)

theorem AddFrame.sessionOf (hf : AddFrame w w') (hq : q < w.hosts.length) :
    w'.sessionOf q = w.sessionOf q := by
  unfold World.sessionOf
  rw [hf.hosts q hq]
  cases w.hosts[q]? <;> rfl

theorem allocHost_old (h : Host) (hq : q < w.hosts.length) :
    (w.allocHost h).hosts[q]? = w.hosts[q]? :=
  List.getElem?_append_left hq

theorem allocHost_new (w : World) (h : Host) : (w.allocHost h).hosts[w.hosts.length]? = some h := by
  simp [World.allocHost]

theorem allocHost_frame (w : World) (h : Host) : AddFrame w (w.allocHost h) where
  hosts q hq := by
    unfold World.next
    rw [allocHost_old h hq]
    cases w.hosts[q]? <;> rfl
  length := by simp
  sessions := rfl
  gN := rfl
  listeners := rfl
  nextId := rfl
  fds := rfl
  rmpSid := rfl
  out := rfl
  head _ hp := hp
  linked p q hp := by
    unfold World.next at hp ⊢
    obtain ⟨g, hg, -⟩ := Option.map_eq_some_iff.mp hp
    rw [allocHost_old h (List.getElem?_eq_some_iff.mp hg).1]
    exact hp

/-- A path through the records of `w` does not meet the new one. -/
theorem path_lt {o r : Option HostId} {ps : List HostId} (h : Chain.Path w.next o ps r) :
    ∀ a ∈ ps, a < w.hosts.length := by
  intro a ha
  obtain ⟨n, hn⟩ := h.mem_next ha
  rw [World.next, Option.map_eq_some_iff] at hn
  obtain ⟨host, hh, -⟩ := hn
  exact (List.getElem?_eq_some_iff.mp hh).1

theorem path_length_le {o : Option HostId} {ps : List HostId} (hp : Chain.Path w.next o ps none) :
    ps.length ≤ w.hosts.length := by
  have hsub : ps ⊆ List.range w.hosts.length := fun a ha => List.mem_range.mpr (path_lt hp a ha)
  have := (List.subperm_of_subset hp.nodup hsub).length_le
  rwa [List.length_range] at this

theorem next_allocHost (h : Host) (hq : q < w.hosts.length) :
    (w.allocHost h).next q = w.next q := by
  unfold World.next; rw [allocHost_old h hq]

theorem next_setNext (w : World) (t : HostId) (o : Option HostId) (q : HostId) :
    (w.setHost t fun h => { h with next := o }).next q =
      if q = t then (w.next q).map fun _ => o else w.next q := by
  unfold World.next
  rw [World.setHost_hosts, List.getElem?_modify]
  by_cases hq : q = t
  · subst hq; cases w.hosts[q]? <;> simp
  · cases w.hosts[q]? <;> simp [hq, Ne.symm hq]

/-- Linking a new record in: the table was a chain to NULL without that name,
and goes on to wherever the new record points. -/
theorem Linked.table {L : List HostId} {n : CStr} (hL : Chain.Lasso w.next w.gHosts L)
    (hl : Linked (w.allocHost h) w.hosts.length n w') :
    Chain.Path w.next w.gHosts L none ∧
      Chain.Path w'.next w'.gHosts (L ++ [w.hosts.length]) h.next ∧
      (∀ a ∈ L, ¬w.NamedLike n a) ∧ AddFrame w w' ∧ w'.hosts[w.hosts.length]? = some h := by
  obtain ⟨-, r, hLp, -⟩ := id hL
  have hlt := path_lt hLp
  have hpath : Chain.Path (w.allocHost h).next w.gHosts L r :=
    hLp.congr fun a ha => next_allocHost h (hlt a ha)
  have hLx : Chain.Lasso (w.allocHost h).next w.gHosts L :=
    hL.congr fun a ha => next_allocHost h (hlt a ha)
  have hnew : (w.allocHost h).next w.hosts.length = some h.next := next_eq (allocHost_new w h)
  cases hl with
  | first hg =>
    have hg : w.gHosts = none := hg
    have hLn : L = [] := hL.eq_of_path hg
    subst hLn
    refine ⟨hg, ⟨rfl, _, hnew, rfl⟩, by simp, ?_, allocHost_new w h⟩
    refine ⟨(allocHost_frame w h).hosts, by simp, rfl, rfl, rfl, rfl, rfl, rfl, rfl, fun p hp => ?_,
      (allocHost_frame w h).linked⟩
    rw [hg] at hp; cases hp
  | behind q t hg ht =>
    have hg : w.gHosts = some q := hg
    obtain ⟨ps, hp, hall⟩ := hostTail_ok ht
    rw [← hg] at hp
    have hLe : L = ps ++ [t] := hLx.eq_of_path hp
    subst hLe
    have hpw : Chain.Path w.next w.gHosts (ps ++ [t]) none :=
      hp.congr fun a ha => (next_allocHost h (hlt a ha)).symm
    have htlt : t < w.hosts.length := hlt t (by simp)
    have hnd := List.nodup_append.mp hpw.nodup
    refine ⟨hpw, ?_, fun a ha hn => hall a ha ?_, ?_, ?_⟩
    · refine hp.append_tail (fun a ha => ?_) ?_ ?_
      · rw [next_setNext, if_neg fun e => hnd.2.2 a ha t (by simp) e]
      · rw [next_setNext, if_pos rfl]
        obtain ⟨n, hn⟩ := hp.mem_next (a := t) (by simp)
        rw [hn]; rfl
      · rw [next_setNext, if_neg (Nat.ne_of_gt htlt)]
        exact hnew
    · obtain ⟨host, m, hh, hm, hc⟩ := hn
      exact ⟨host, m, (allocHost_old h (hlt a ha)).trans hh, hm, hc⟩
    · refine ⟨fun a ha => ?_, by simp, rfl, rfl, rfl, rfl, rfl, rfl, rfl, fun _ hp => hp,
        fun a b hab => ?_⟩
      · rw [next_setNext, World.setHost_hosts, List.getElem?_modify, allocHost_old h ha,
          next_allocHost h ha, World.next]
        by_cases hat : a = t
        · subst hat; cases w.hosts[a]? <;> simp
        · cases w.hosts[a]? <;> simp [hat, Ne.symm hat]
      · -- only the last record gets a new pointer, and it had none
        rw [next_setNext, if_neg]
        · exact (allocHost_frame w h).linked a b hab
        · rintro rfl
          obtain ⟨-, -, -, n, hn, rfl⟩ := hpw.split
          rw [hab] at hn; cases hn
    · rw [World.setHost_hosts, List.getElem?_modify, allocHost_new]
      simp [Nat.ne_of_lt htlt]

/-- What adding a new record does to a table without repetition. -/
theorem hostAddNew_ok {L : List HostId} (hL : Chain.Lasso w.next w.gHosts L)
    (hr : hostAddNew c os h w = .ok (p, b) w') :
    ∃ h' complete, hostComplete c os (w.allocHost h) h = .ok (h', complete) ∧
      p = w.hosts.length ∧ w'.hosts[p]? = some h' ∧ AddFrame w w' ∧
      ((b = false ∧ w'.gHosts = w.gHosts ∧ (∀ q < p, w'.next q = w.next q) ∧
          (complete = true → ∀ n, h'.name = some n → ∃ a ∈ L, w.NamedLike n a)) ∨
        (b = true ∧ complete = true ∧ Chain.Path w.next w.gHosts L none ∧
          Chain.Path w'.next w'.gHosts (L ++ [p]) h'.next ∧
          ∃ n, h'.name = some n ∧ ∀ a ∈ L, ¬w.NamedLike n a)) := by
  simp only [hostAddNew, Exec.bind_ok, hostAlloc_ok, Exec.pure_ok, Prod.mk.injEq] at hr
  obtain ⟨_, _, ⟨rfl, rfl⟩, _, _, hr, ⟨rfl, rfl⟩, rfl⟩ := hr
  obtain ⟨h0, h', complete, hh, hc, hcase⟩ := hostAdd_ok hr
  rw [allocHost_new] at hh; cases hh
  rw [setHost_allocHost] at hcase
  refine ⟨h', complete, hc, rfl, ?_⟩
  rcases hcase with ⟨rfl, rfl, n, hn, hl⟩ | ⟨rfl, rfl, hlike⟩
  · obtain ⟨h1, h2, h3, h4, h5⟩ := Linked.table hL hl
    exact ⟨h5, h4, .inr ⟨rfl, rfl, h1, h2, n, hn, h3⟩⟩
  · refine ⟨allocHost_new w h', allocHost_frame w h', .inl ⟨rfl, rfl, fun q hq => ?_, ?_⟩⟩
    · exact next_allocHost h' hq
    · intro hcm n hn
      obtain ⟨a, hla, g, m, hg, hm, hc⟩ := hlike hcm n hn
      have hlt := path_lt hL.2.choose_spec.1
      have hLx : Chain.Lasso (w.allocHost h').next w.gHosts L :=
        hL.congr fun a ha => next_allocHost h' (hlt a ha)
      have haL : a ∈ L := hLx.mem_iff.mpr hla
      exact ⟨a, haL, g, m, (allocHost_old h' (hlt a haL)).symm.trans hg, hm, hc⟩

end
end Bootd
