import Bootd.Config.Crashes
import Bootd.Config.Numbers
import Bootd.Core.CString

/-!
# The texts that are put together for a host (`host.c`, `util.c`, `ngenutil.c`)

`host_add` lists the files of a host in `files`, for its log message, and
`util_name2ether` copies a name in upper case into `b`. The functions of the host
table leave both arrays out; here they are the state.

* `hostText_run`: what `host_add` returns, and the array it leaves.
* `name2etherText_run`: the same for `util_name2ether`.
* `fileTexts_length`: how much of `files` a file takes.
-/
namespace Bootd

open Bootd.Core
open Bootd.Core.CString

/-! ## `files` -/

/-- `strcat(files, s)`; NULL is followed. -/
def strcat : Option CStr → EStateM Fault (Arr UInt8) Unit
  | none => throw .segv
  | some s => modify (·.append s)

/-- mirrors src/host.c:86-105 -/
def filesText (svs : List NetService) (service : Nat) : List File → EStateM Fault (Arr UInt8) (List File)
  | [] => pure []
  | f :: fs => do
    (fileTexts (strService svs) (f.masked service)).forM strcat
    let fs ← filesText svs service fs
    return f.masked service :: fs

/-- `host_add` up to its log message. mirrors src/host.c:53-110 -/
def hostText (c : Conf) (os : Os) (w : World) (svs : List NetService) (h : Host) :
    EStateM Fault (Arr UInt8) (Host × Bool) := do
  match ← Exec.liftE (hostName c os w h) with
  | none => return (h, false)
  | some n => do
    let ip ← Exec.liftE (hostIp c os w h n)
    match ← Exec.liftE (hostEther c os w h n) with
    | none => return ({ h with name := some n, ip := ip }, false)
    | some eth => do
      let service := if h.service = 0 then serviceAll else h.service
      modify (·.write 0 [])
      let fs ← filesText svs service h.files
      return ({ h with name := some n, ip := ip, eth := eth, service := service, files := fs }, true)

/-! ## `b` -/

/-- mirrors src/util.c:67-95 -/
def name2etherText (c : Conf) (os : Os) (w : World) (name : CStr) : EStateM Fault (Arr UInt8) (Option Ether) :=
  match c.etherAton name with
  | some eth => pure (some eth)
  | none => do
    match (← Exec.liftE (hostByName w name)).filter (fun h => utilEtherValid h.eth) with
    | some h => pure (some h.eth)
    | none =>
      if c.cResolveEther = false then pure none
      else
        match os.etherHostton name with
        | some eth => pure (some eth)
        | none => do
          modify (·.write 0 (name.map upper))
          match os.etherHostton (← get).text with
          | some eth => pure (some eth)
          | none => throw .exit

/-! ## The strings that are appended -/

section
variable {svs : List NetService} {service : Nat} {f : File} {fs : List File} {l m : List (Option CStr)}
  {a : Arr UInt8} {c : Conf} {os : Os} {w : World} {h : Host} {name n : CStr} {ip : Ip} {eth : Ether}

/-- Strings are appended up to the first NULL, and all of them if there is none. -/
theorem forM_strcat : (none ∉ l → l.forM strcat a = .ok () (a.appends (beforeNull l))) ∧
    (none ∈ l → l.forM strcat a = .error .segv (a.appends (beforeNull l))) := by
  induction l generalizing a with
  | nil => exact ⟨fun _ => rfl, fun h => absurd h List.not_mem_nil⟩
  | cons s l ih =>
    cases s with
    | none => exact ⟨fun h => absurd List.mem_cons_self h, fun _ => rfl⟩
    | some s =>
      obtain ⟨hok, hstop⟩ := ih (a := a.append s)
      simp only [List.mem_cons, reduceCtorEq, false_or]
      exact ⟨hok, hstop⟩

/-- What a file with a path and a name takes of the array. -/
theorem fileTexts_length {p : CStr} (hp : f.path = some p) (hn : f.name = some n) :
    (beforeNull (fileTexts (strService svs) f)).flatten.length = 31 + p.length + n.length +
      ((f.aliases.toList.takeWhile Option.isSome).map fun a => 3 + (a.getD []).length).sum +
      (f.server.elim 0 fun s => 12 + s.length) + (strService svs f.service).length := by
  have hnull : none ∉ fileTexts (strService svs) f := by
    rw [fileTexts_null, hp, hn]
    simp
  have haliases : ∀ as : List (Option CStr),
      ((as.flatMap fun a => [some (cstr " | "), a]).map fun s => (s.getD []).length).sum =
        (as.map fun a => 3 + (a.getD []).length).sum := by
    intro as
    induction as with
    | nil => rfl
    | cons a as ih =>
      simp only [List.flatMap_cons, List.map_append, List.sum_append, ih, List.map_cons, List.sum_cons]
      rfl
  rw [beforeNull_length hnull, fileTexts, hp, hn]
  simp only [List.map_append, List.sum_append, haliases, List.map_cons, List.map_nil, List.sum_cons, List.sum_nil]
  have hfile : (cstr "\n  file ").length = 8 := rfl
  have hname : (cstr "\n    name ").length = 10 := rfl
  have hserver : (cstr "\n    server ").length = 12 := rfl
  have hservice : (cstr "\n    service ").length = 13 := rfl
  cases f.server with
  | none =>
    simp only [Option.getD_some, ne_eq, not_true_eq_false, if_false, List.map_nil, List.sum_nil, Option.elim_none,
      hfile, hname, hservice]
    omega
  | some s =>
    simp only [Option.getD_some, ne_eq, reduceCtorEq, not_false_eq_true, if_true, List.map_cons, List.map_nil,
      List.sum_cons, List.sum_nil, Option.elim_some, hfile, hname, hserver, hservice]
    omega

theorem appends_append (xs ys : List CStr) : (a.appends xs).appends ys = a.appends (xs ++ ys) :=
  (List.foldl_append).symm

theorem filesText_run : filesText svs service fs a =
    Exec.liftE (filesMasked service fs) (a.appends (beforeNull (filesTexts (strService svs) service fs))) := by
  unfold filesMasked
  induction fs generalizing a with
  | nil => rfl
  | cons f fs ih =>
    obtain ⟨hok, hstop⟩ := forM_strcat (l := fileTexts (strService svs) (f.masked service)) (a := a)
    have hnull : none ∈ fileTexts (strService svs) (f.masked service) ↔ f.path = none ∨ f.name = none := by
      rw [fileTexts_null, masked_path, masked_name]
    have htexts : filesTexts (strService svs) service (f :: fs) =
        fileTexts (strService svs) (f.masked service) ++ filesTexts (strService svs) service fs :=
          List.flatMap_cons
    rw [htexts, filesText]
    by_cases hno : f.path = none ∨ f.name = none
    · rw [if_pos ⟨f, List.mem_cons_self, hno⟩, Exec.bind_stop (hstop (hnull.mpr hno)),
        beforeNull_stops (hnull.mpr hno)]
      rfl
    · have hsome := mt hnull.mp hno
      have hex : (∃ g ∈ f :: fs, g.path = none ∨ g.name = none) ↔ ∃ g ∈ fs, g.path = none ∨ g.name = none := by
        simp [hno]
      rw [Exec.bind_run (hok hsome), beforeNull_append hsome, ← appends_append]
      simp only [hex]
      split at ih
      · rw [if_pos ‹_›, Exec.bind_stop ih]
        rfl
      · rw [if_neg ‹_›, Exec.bind_run ih]
        rfl

/-! ## What the functions leave -/

/-- The strings that `host_add` appends, if it comes to its loop. -/
def hostTexts (svs : List NetService) (h : Host) : List CStr :=
  beforeNull (filesTexts (strService svs) (if h.service = 0 then serviceAll else h.service) h.files)

theorem hostText_addressed (hname : hostName c os w h = .ok (some n)) (hip : hostIp c os w h n = .ok ip)
    (heth : hostEther c os w h n = .ok (some eth)) : hostText c os w svs h a =
      Exec.liftE (hostMasked h n ip eth) ((a.write 0 []).appends (hostTexts svs h)) := by
  have hloop : filesText svs h.mask h.files (a.write 0 []) = _ := filesText_run
  have hempty : (modify (Arr.write 0 []) : EStateM Fault (Arr UInt8) PUnit) a = .ok ⟨⟩ (a.write 0 []) := rfl
  unfold hostText hostTexts hostMasked
  refine (Exec.bind_run (Exec.liftE_ok_iff.mpr ⟨hname, rfl⟩)).trans ?_
  refine (Exec.bind_run (Exec.liftE_ok_iff.mpr ⟨hip, rfl⟩)).trans ?_
  refine (Exec.bind_run (Exec.liftE_ok_iff.mpr ⟨heth, rfl⟩)).trans ?_
  refine (Exec.bind_run hempty).trans ?_
  cases hfiles : filesMasked h.mask h.files with
  | error e =>
    rw [hfiles] at hloop
    exact Exec.bind_stop hloop
  | ok fs =>
    rw [hfiles] at hloop
    exact Exec.bind_run hloop

theorem hostText_unaddressed (hno : ¬Addressed c os w h) :
    hostText c os w svs h a = Exec.liftE (hostComplete c os w h) a := by
  unfold hostText hostComplete
  refine Exec.liftE_bind fun o hname => ?_
  cases o with
  | none => rfl
  | some n =>
    refine Exec.liftE_bind fun ip hip => Exec.liftE_bind fun o heth => ?_
    cases o with
    | none => rfl
    | some eth => exact absurd ⟨n, ip, eth, hname, hip, heth⟩ hno

theorem name2etherText_upper (htried : UpperTried c os w name) : name2etherText c os w name a =
    Exec.liftE (etherHosttonUpper os name) (a.write 0 (name.map upper)) := by
  obtain ⟨o, ho, hnone⟩ := htried.unlisted
  unfold name2etherText
  rw [htried.aton, ho, htried.unknown]
  refine (Exec.bind_run (Exec.liftE_ok_iff.mpr ⟨rfl, rfl⟩)).trans ?_
  simp only [hnone, htried.resolve]
  show (match os.etherHostton (name.map upper) with
    | some eth => pure (some eth)
    | none => throw .exit : EStateM Fault (Arr UInt8) (Option Ether)) (a.write 0 (name.map upper)) = _
  unfold etherHosttonUpper
  cases os.etherHostton (name.map upper) <;> rfl

theorem name2etherText_direct (hno : ¬UpperTried c os w name) :
    name2etherText c os w name a = Exec.liftE (utilName2ether c os w name) a := by
  unfold name2etherText utilName2ether
  cases haton : c.etherAton name with
  | some eth => rfl
  | none =>
    refine Exec.liftE_bind fun o ho => ?_
    cases hlisted : o.filter (fun h => utilEtherValid h.eth) with
    | some h => rfl
    | none =>
      cases hres : c.cResolveEther with
      | false => rfl
      | true =>
        cases hton : os.etherHostton name with
        | some eth => rfl
        | none => exact absurd ⟨haton, ⟨o, ho, hlisted⟩, hres, hton⟩ hno

end

/-! ## The functions of the host table

They stop where an array is too short, and have no array otherwise. -/

section
variable {svs : List NetService} {a : Arr UInt8} {c : Conf} {os : Os} {w : World} {h : Host} {name : CStr}

theorem textsFit_iff (hc : c.strService = strService svs) :
    TextsFit c h.mask h.files ↔ (hostTexts svs h).flatten.length < filesSize := by
  unfold TextsFit
  rw [hc]
  rfl

/-- **`host_add`**: what it returns while `files` is long enough, and its end otherwise. -/
theorem hostText_ties (hc : c.strService = strService svs) :
    (¬Addressed c os w h ∨ (hostTexts svs h).flatten.length < filesSize →
      ∃ b, hostText c os w svs h a = Exec.liftE (hostComplete c os w h) b) ∧
    (Addressed c os w h → filesSize ≤ (hostTexts svs h).flatten.length →
      hostComplete c os w h = .error .overrun) := by
  rw [← Nat.not_lt, ← textsFit_iff hc]
  constructor
  · intro hfit
    by_cases haddr : Addressed c os w h
    · obtain ⟨n, ip, eth, hname, hip, heth⟩ := id haddr
      rw [hostComplete_addressed hname hip heth, if_pos (hfit.resolve_left (not_not_intro haddr))]
      exact ⟨_, hostText_addressed hname hip heth⟩
    · exact ⟨a, hostText_unaddressed haddr⟩
  · rintro ⟨n, ip, eth, hname, hip, heth⟩ hno
    rw [hostComplete_addressed hname hip heth, if_neg hno]

/-- **`util_name2ether`**, the same way. -/
theorem name2etherText_ties :
    (¬UpperTried c os w name ∨ name.length < upperSize →
      ∃ b, name2etherText c os w name a = Exec.liftE (utilName2ether c os w name) b) ∧
    (UpperTried c os w name → upperSize ≤ name.length → utilName2ether c os w name = .error .overrun) := by
  constructor
  · intro hfit
    by_cases htried : UpperTried c os w name
    · rw [name2ether_tried htried, if_neg (Nat.not_le.mpr (hfit.resolve_left (not_not_intro htried)))]
      exact ⟨_, name2etherText_upper htried⟩
    · exact ⟨a, name2etherText_direct htried⟩
  · intro htried hlong
    rw [name2ether_tried htried, if_pos hlong]

end

end Bootd
