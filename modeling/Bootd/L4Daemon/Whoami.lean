import Bootd.L3Protocol.Bootparam
import Bootd.L4Daemon.HostTable

/-!
# The two bootparam steps are about the same host

A machine first sends its address to WHOAMI and gets a name, then the name to
GETFILE and gets a file. WHOAMI takes the first listed host with that address,
and other hosts may share it; but no two names in the table are equal up to case
(`TableInv.names`), so that the name leads back to the record it was taken from.

* `find_apart`: looking for a name in a list without equal names.
* `whoami_names_host`: what GETFILE finds under the name that WHOAMI returned.
-/
namespace Bootd

open Bootd.Core

section
variable {t : Table} {w : World} {p : HostId} {n : CStr} {L : List HostId}

@[simp] theorem strcasecmp_self (n : CStr) : strcasecmp n n = true := strcasecmp_iff.mpr rfl

/-- A name finds the record that has it. -/
theorem find_apart (hL : L.Pairwise w.NamesApart) (hp : p ∈ L) (hn : w.nameOf p = some n) :
    (L.find? fun q => (w.nameOf q).any (strcasecmp n)) = some p := by
  obtain ⟨before, after, rfl⟩ := List.append_of_mem hp
  refine List.find?_eq_some_iff_append.mpr ⟨by simp [hn], before, after, rfl, fun q hq => ?_⟩
  have hapart : w.NamesApart q p := (List.pairwise_append.mp hL).2.2 q hq p List.mem_cons_self
  cases hname : w.nameOf q with
  | none => rfl
  | some m =>
    rw [Option.any_some, strcasecmp_comm, hapart m n hname hn]
    rfl

/-- The first listed host with that address. -/
def Table.withIp (t : Table) (ip : Ip) : Option HostId := t.accepted.find? fun p => (t.w.hosts[p]?).any (ip == ·.ip)

theorem TableInv.ip2host (hi : TableInv t) (ip : Ip) : utilIp2host t.w ip = .ok (t.withIp ip) := by
  refine hostFind_table hi.chain fun p _ h hh => ?_
  simp [hh]

theorem TableInv.name2host (hi : TableInv t) (hp : p ∈ t.accepted) (hn : t.w.nameOf p = some n) :
    utilName2host t.w n = .ok (some p) := by
  rw [← find_apart hi.names hp hn]
  refine hostFind_table hi.chain fun q hq h hh => ?_
  obtain ⟨m, hm⟩ := Option.ne_none_iff_exists'.mp (hi.complete q hq h hh).name
  simp [hostNamed, World.nameOf, hh, hm]

end

/-- **Both steps are about one host**: the name that WHOAMI returns is that of the first listed host with the
address, looking for it ends at this host, and a file that GETFILE returns is one of its files. -/
theorem whoami_names_host (c : Conf) (t : Table) (pip : Ip) (port : Nat) (res : WhoamiRes)
    (h : ((hostTable c).guard fun _ op => ∃ os h, op = .add os h).Reachable t)
    (hr : bootparamprocWhoami t.w pip port = .ok (some res)) :
    ∃ n p host, res.clientName = some n ∧ t.withIp pip = some p ∧ utilIp2host t.w pip = .ok (some p) ∧
      utilName2host t.w n = .ok (some p) ∧ t.w.hosts[p]? = some host ∧
      ∀ fileId port' file, bootparamprocGetfile t.w n fileId port' = .ok (some file) →
        host.service &&& serviceBootparm ≠ 0 ∧ ∃ f, utilName2file host.files serviceBootparm (some fileId) 0 = some f ∧
          file.serverPath = f.path ∧ file.serverName = f.server := by
  obtain ⟨hi, -⟩ := configured_inv h
  obtain ⟨p, host, l, hp, hh, hsvc, -, rfl⟩ := whoami_ok hr
  have hip := hi.ip2host pip
  rw [hp, Except.ok.injEq] at hip
  have hmem : p ∈ t.accepted := List.mem_of_find?_eq_some hip.symm
  obtain ⟨n, hn⟩ := Option.ne_none_iff_exists'.mp (hi.complete p hmem host hh).name
  have hname : utilName2host t.w n = .ok (some p) := hi.name2host hmem (by rw [World.nameOf, hh]; exact hn)
  refine ⟨n, p, host, hn, hip.symm, hp, hname, hh, fun fileId port' file hr => ⟨hsvc, ?_⟩⟩
  obtain ⟨q, host', f, l', hq, hh', -, hf, -, rfl⟩ := getfile_ok hr
  rw [hname] at hq
  cases hq
  rw [hh] at hh'
  cases hh'
  exact ⟨f, hf, rfl, rfl⟩

/-- Two hosts, and the second one asks who it is. -/
theorem whoami_names_second : ∃ t : Table, t.accepted = [0, 1] ∧ ∃ n, utilIp2host t.w 2 = .ok (some 1) ∧
    utilName2host t.w n = .ok (some 1) := by
  let ops : List TableOp := [.add plainOs (plainHost 1), .add plainOs (plainHost 2)]
  let t := (tableRun plainConf ⟨emptyWorld, []⟩ ops).getD ⟨emptyWorld, []⟩
  have hreach : ((hostTable plainConf).guard fun _ op => ∃ os h, op = .add os h).Reachable t := by
    refine tableRun_reachable ops ?_ (LTS.reachable_init (s := ⟨emptyWorld, []⟩) ⟨rfl, rfl, rfl⟩) rfl
    intro op hm _
    rcases List.mem_pair.mp hm with rfl | rfl <;> exact ⟨_, _, rfl⟩
  obtain ⟨n, p, host, -, -, hp, hname, -⟩ := whoami_names_host plainConf t 2 3 _ hreach rfl
  have h1 : utilIp2host t.w 2 = .ok (some 1) := rfl
  rw [h1] at hp
  cases hp
  exact ⟨t, rfl, n, h1, hname⟩

end Bootd
