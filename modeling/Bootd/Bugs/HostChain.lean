import Bootd.L4Daemon.HostTable

/-!
# A clone of a host in mid-table ties the table into a loop

`host_clone` (src/host.c:17-37) copies the whole record of the template,
`next` included, and `host_add` hangs the copy behind the last host without
resetting `next` (src/host.c:111-124). Unless the template is the last host
itself, the copy points back into the table: every lookup that does not hit
runs round for ever, and the daemon is dead.

Counterexample: two hosts, then a boot request from an unknown machine of the
first one's type (`host_chain_loop`).

`host_table_wellFormed`: in every run in which each clone is made from the last
host, or is refused by `host_add`, the table stays a list of the accepted hosts
in order, with names apart, and all lookups return. `host_clone_loop`: a clone
of any other host that is accepted breaks it.
-/
namespace Bootd

open Bootd.Core

/-- The table is a finite list of exactly the hosts accepted so far, in order,
with different names, and every lookup terminates. -/
structure Table.WellFormed (t : Table) : Prop where
  chain : Chain.Path t.w.next t.w.gHosts t.accepted none
  nodup : t.accepted.Nodup
  names : t.accepted.Pairwise t.w.NamesApart
  lookups : t.w.LookupsReturn

/-- `host_add` will not list the clone: it cannot be completed, or a listed
host has the name it gets. -/
def Table.Refuses (t : Table) (c : Conf) (os : Os) (rec : Host) : Prop :=
  ∀ h n, hostComplete c os (t.w.allocHost rec) rec = .ok (h, true) → h.name = some n →
    ∃ p ∈ t.accepted, t.w.NamedLike n p

/-- The template is the last host of the table, or the clone is refused. -/
def TableOp.CloneOk (c : Conf) (t : Table) : TableOp → Prop
  | .add _ _ => True
  | .clone os src eth => ∀ h, t.w.hosts[src]? = some h →
      h.next = none ∨ t.Refuses c os (cloneOf h none (some eth) none)

section
variable {c : Conf} {t t' : Table}

theorem TableInv.wellFormed (hi : TableInv t) : t.WellFormed :=
  ⟨hi.chain, hi.chain.nodup, hi.names, hi.lookups⟩

theorem hostClone_run {os : Os} {src : HostId} {eth : Ether} {r : HostId × Bool} {w w' : World}
    (hr : hostClone c os src none (some eth) none w = .ok r w') :
    ∃ h, w.hosts[src]? = some h ∧ hostAddNew c os (cloneOf h none (some eth) none) w = .ok r w' := by
  simp only [hostClone, Exec.bind_ok, loadHost_ok] at hr
  obtain ⟨h, _, ⟨hh, rfl⟩, hr⟩ := hr
  exact ⟨h, hh, hr⟩

theorem TableInv.step {op : TableOp} (hi : TableInv t) (hs : (hostTable c).step t op t')
    (hc : op.CloneOk c t) : TableInv t' := by
  obtain ⟨-, p, b, hr, ha⟩ := hs
  cases op with
  | add os h => exact hostAddNew_inv hi hr ha fun _ => rfl
  | clone os src eth =>
    obtain ⟨h, hh, hr⟩ := hostClone_run hr
    refine hostAddNew_inv hi hr ha fun hb => ?_
    rcases hc h hh with hn | href
    · exact hn
    · -- refused: a listed clone has a name of its own
      subst hb
      obtain ⟨h', complete, hcm, -, -, -, hcase⟩ := hostAddNew_ok (Chain.Lasso.of_path hi.chain) hr
      rcases hcase with ⟨hb, -⟩ | ⟨-, rfl, -, -, n, hname, hno⟩
      · cases hb
      · obtain ⟨q, hq, hl⟩ := href h' n hcm hname
        exact absurd hl (hno q hq)

/-- **The table stays a list**, in every run whose clones are made from the last
host or refused. -/
theorem host_table_wellFormed (c : Conf) (t : Table)
    (h : ((hostTable c).guard fun t op => op.CloneOk c t).Reachable t) : t.WellFormed := by
  have hind : ((hostTable c).guard fun t op => op.CloneOk c t).Inductive TableInv := by
    refine ⟨fun t ht => ?_, fun t op t' hi hs => hi.step hs.1 hs.2⟩
    obtain ⟨-, hg, ha⟩ := ht
    exact ⟨by rw [ha]; exact hg, by rw [ha]; simp, by rw [ha]; exact .nil⟩
  exact (hind.reachable t h).wellFormed

def noHosts : Table := ⟨emptyWorld, []⟩

def twoHosts : Table :=
  (tableRun plainConf noHosts [.add plainOs (plainHost 1), .add plainOs (plainHost 2)]).getD noHosts

/-- The two hosts, and a clone of the second for an unknown machine. -/
def lastCloned : Table :=
  (tableRun plainConf twoHosts [.clone plainOs 1 (plainEther 3)]).getD twoHosts

theorem twoHosts_reachable {C : Table → TableOp → Prop} (hC : ∀ os h t, C t (.add os h)) :
    ((hostTable plainConf).guard C).Reachable twoHosts := by
  refine tableRun_reachable [.add plainOs (plainHost 1), .add plainOs (plainHost 2)]
    ?_ (LTS.reachable_init (s := noHosts) ⟨rfl, rfl, rfl⟩) rfl
  intro op hm t
  rcases List.mem_pair.mp hm with rfl | rfl <;> exact hC _ _ t

/-- The last host of the two, cloned, is a third. -/
theorem host_table_wellFormed_clone : lastCloned.accepted = [0, 1, 2] ∧ lastCloned.WellFormed := by
  refine ⟨rfl, host_table_wellFormed plainConf lastCloned ?_⟩
  refine (twoHosts_reachable fun _ _ _ => trivial).step (l := TableOp.clone plainOs 1 (plainEther 3))
    ⟨⟨?_, 2, true, rfl, rfl⟩, fun h hh => .inl ?_⟩
  · show 1 ∈ [0, 1]
    decide
  · have hn : (twoHosts.w.hosts[1]?).map Host.next = some none := rfl
    rw [hh] at hn
    exact Option.some.inj hn

/-- A clone of any other host, once listed, is a way back into the table. -/
theorem host_clone_loop {os : Os} {src : HostId} {eth : Ether} {p q : HostId} {h : Host}
    (hi : TableInv t) (hsrc : src ∈ t.accepted) (hh : t.w.hosts[src]? = some h)
    (hn : h.next = some q)
    (hr : hostClone c os src none (some eth) none t.w = .ok (p, true) t'.w) :
    ¬ ∃ L, Chain.Path t'.w.next t'.w.gHosts L none := by
  obtain ⟨h0, hh0, hr⟩ := hostClone_run hr
  rw [hh] at hh0; cases hh0
  obtain ⟨h', complete, hcm, rfl, -, hf, hcase⟩ := hostAddNew_ok (Chain.Lasso.of_path hi.chain) hr
  rcases hcase with ⟨hb, -⟩ | ⟨-, -, -, hpath, -⟩
  · cases hb
  · have hnx : h'.next = some q := (hostComplete_ok hcm).1.trans hn
    rw [hnx] at hpath
    have hq : q ∈ t.accepted := by
      rcases hi.chain.next_mem hsrc (next_eq hh) with e | ⟨b, hb, e⟩
      · rw [hn] at e; cases e
      · rw [hn] at e; cases e; exact hb
    have hnew : t.w.hosts.length ∉ t.accepted := fun hm =>
      absurd (path_lt hi.chain _ hm) (Nat.lt_irrefl _)
    have hlasso : Chain.Lasso t'.w.next t'.w.gHosts (t.accepted ++ [t.w.hosts.length]) := by
      refine ⟨?_, some q, hpath, fun a e => ?_⟩
      · rw [List.nodup_append]
        refine ⟨hi.chain.nodup, List.nodup_singleton _, fun a ha b hb e => ?_⟩
        rw [e, List.mem_singleton.mp hb] at ha
        exact hnew ha
      · cases e; exact List.mem_append_left _ hq
    intro ⟨L, hL⟩
    rw [← hlasso.eq_of_path hL] at hL
    cases hpath.end_unique hL

/-- The two hosts, and a clone of the first. -/
def firstCloned : Table :=
  (tableRun plainConf twoHosts [.clone plainOs 0 (plainEther 3)]).getD twoHosts

/-- **Counterexample**: once the first of two hosts is cloned, looking for a
name that is not in the table never ends. -/
theorem host_chain_loop : ¬ ∀ (c : Conf) (t : Table), (hostTable c).Reachable t → t.WellFormed := by
  intro h
  have h2 : (hostTable plainConf).Reachable twoHosts :=
    (twoHosts_reachable (C := fun _ _ => True) fun _ _ _ => trivial).of_guard
  have h3 : (hostTable plainConf).Reachable firstCloned := by
    refine h2.step (l := TableOp.clone plainOs 0 (plainEther 3)) ⟨?_, 2, true, rfl, rfl⟩
    show 0 ∈ [0, 1]
    decide
  obtain ⟨o, ho⟩ := (h _ firstCloned h3).lookups.1 [9]
  have hhang : utilName2host firstCloned.w [9] = .error .hang := rfl
  rw [ho] at hhang
  cases hhang

end
end Bootd
