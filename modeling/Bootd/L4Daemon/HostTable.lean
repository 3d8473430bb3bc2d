import Bootd.Core.LTS
import Bootd.L2State.Hosts

/-!
# The host table over a run

`hostTable` takes one step per call of `host_add` (a record that the
configuration built, with `next` and `session` NULL) or of `host_clone` (a
host in the table, for a machine with the given Ethernet address). `accepted`
keeps the records that were linked in, in this order.

* `TableInv`: the chain from `g_hosts` runs through the accepted hosts and
  ends in NULL, the records are complete, and no two names are equal.
* `TableInv.step`: a step keeps it if the new record's `next` is NULL or the
  record is refused.
* `TableInv.lookups`: under it the three lookups return.
-/
namespace Bootd

open Bootd.Core

structure Table where
  w : World
  accepted : List HostId

inductive TableOp
  | add (os : Os) (h : Host)
  | clone (os : Os) (src : HostId) (eth : Ether)

/-- A record from `host_new` and the configuration. -/
def Host.fresh (h : Host) : Host := { h with next := none, session := none }

def TableOp.run (c : Conf) : TableOp → M (HostId × Bool)
  | .add os h => hostAddNew c os h.fresh
  | .clone os src eth => hostClone c os src none (some eth) none

def TableOp.Enabled (t : Table) : TableOp → Prop
  | .add _ _ => True
  | .clone _ src _ => src ∈ t.accepted

def hostTable (c : Conf) : LTS Table TableOp where
  init t := t.w.hosts = [] ∧ t.w.gHosts = none ∧ t.accepted = []
  step t op t' := op.Enabled t ∧ ∃ p b, op.run c t.w = .ok (p, b) t'.w ∧
    t'.accepted = if b then t.accepted ++ [p] else t.accepted

/-- Runs a list of operations; `none` if one of them is not enabled or faults. -/
def tableRun (c : Conf) (t : Table) : List TableOp → Option Table
  | [] => some t
  | op :: ops =>
    match op.run c t.w with
    | .error _ _ => none
    | .ok (p, b) w =>
      let t' : Table := ⟨w, if b then t.accepted ++ [p] else t.accepted⟩
      match op with
      | .add _ _ => tableRun c t' ops
      | .clone _ src _ => if src ∈ t.accepted then tableRun c t' ops else none

def World.nameOf (w : World) (p : HostId) : Option CStr := (w.hosts[p]?).bind Host.name

/-- No name of the two under which `strcasecmp` takes one for the other. -/
def World.NamesApart (w : World) (a b : HostId) : Prop :=
  ∀ x y, w.nameOf a = some x → w.nameOf b = some y → strcasecmp x y = false

structure TableInv (t : Table) : Prop where
  chain : Chain.Path t.w.next t.w.gHosts t.accepted none
  complete : ∀ p ∈ t.accepted, ∀ h, t.w.hosts[p]? = some h → h.Complete
  names : t.accepted.Pairwise t.w.NamesApart

section
variable {c : Conf} {os : Os} {t t' : Table} {w w' : World} {p q : HostId} {b : Bool} {h : Host}

theorem AddFrame.nameOf (hf : AddFrame w w') (hq : q < w.hosts.length) :
    w'.nameOf q = w.nameOf q := by
  unfold World.nameOf
  rw [hf.hosts q hq]
  cases w.hosts[q]? <;> rfl

theorem namedLike_iff {n : CStr} : w.NamedLike n p ↔ ∃ m, w.nameOf p = some m ∧ strcasecmp n m = true := by
  unfold World.NamedLike World.nameOf
  refine ⟨fun ⟨h, m, hh, hm, hc⟩ => ?_, fun ⟨m, hm, hc⟩ => ?_⟩
  · exact ⟨m, by rw [hh]; exact hm, hc⟩
  · obtain ⟨h, hh, hm⟩ := Option.bind_eq_some_iff.mp hm
    exact ⟨h, m, hh, hm, hc⟩

/-- What `tableRun` computes is a run of the table, and one of the restricted
table if its operations always meet the restriction. -/
theorem tableRun_reachable {C : Table → TableOp → Prop} (ops : List TableOp)
    (hC : ∀ op ∈ ops, ∀ t, C t op) (ht : ((hostTable c).guard C).Reachable t)
    (hr : tableRun c t ops = some t') : ((hostTable c).guard C).Reachable t' := by
  induction ops generalizing t with
  | nil => cases hr; exact ht
  | cons op ops ih =>
    have hop := hC op List.mem_cons_self t
    replace ih := fun t => @ih t fun op hm => hC op (List.mem_cons_of_mem _ hm)
    simp only [tableRun] at hr
    split at hr
    · cases hr
    · rename_i p b w hrun
      cases op with
      | add os h => exact ih _ (ht.step (l := TableOp.add os h) ⟨⟨trivial, p, b, hrun, rfl⟩, hop⟩) hr
      | clone os src eth =>
        simp only at hr
        split at hr
        · rename_i hsrc
          exact ih _ (ht.step (l := TableOp.clone os src eth) ⟨⟨hsrc, p, b, hrun, rfl⟩, hop⟩) hr
        · cases hr

/-- Files that the program opens for itself do not touch the table. -/
theorem TableInv.opensOwn {acc : List HostId} (hi : TableInv ⟨w, acc⟩) (ho : w.OpensOwn w') :
    TableInv ⟨w', acc⟩ := by
  rw [ho.rest]
  exact ⟨hi.chain, hi.complete, hi.names⟩

/-- What a step of the table adds, whichever function makes it. -/
theorem hostAddNew_inv (hi : TableInv t) (hr : hostAddNew c os h t.w = .ok (p, b) t'.w)
    (ha : t'.accepted = if b then t.accepted ++ [p] else t.accepted)
    (hn : b = true → h.next = none) : TableInv t' := by
  obtain ⟨h', complete, hc, rfl, hp, hf, hcase⟩ := hostAddNew_ok (Chain.Lasso.of_path hi.chain) hr
  obtain ⟨hnext, -, -, hcomp, -⟩ := hostComplete_ok hc
  have hlt := path_lt hi.chain
  have hold : ∀ q ∈ t.accepted, ∀ g, t'.w.hosts[q]? = some g → g.Complete := by
    intro q hq g hg
    rw [hf.hosts q (hlt q hq), Option.map_eq_some_iff] at hg
    obtain ⟨g0, hg0, rfl⟩ := hg
    have := hi.complete q hq g0 hg0
    exact ⟨this.name, this.service, this.files⟩
  have hnames : t.accepted.Pairwise t'.w.NamesApart := by
    refine hi.names.imp_of_mem fun {a b} hma hmb hab x y hx hy => ?_
    rw [hf.nameOf (hlt a hma)] at hx
    rw [hf.nameOf (hlt b hmb)] at hy
    exact hab x y hx hy
  rcases hcase with ⟨rfl, hg, hnx, -⟩ | ⟨rfl, hcm, -, hpath, n, hname, hno⟩
  · have ha : t'.accepted = t.accepted := ha
    refine ⟨?_, by rw [ha]; exact hold, by rw [ha]; exact hnames⟩
    rw [ha, hg]
    exact hi.chain.congr fun a hma => hnx a (hlt a hma)
  · have ha : t'.accepted = t.accepted ++ [t.w.hosts.length] := ha
    refine ⟨?_, ?_, ?_⟩
    · rw [ha, ← hn rfl, ← hnext]; exact hpath
    · rw [ha]
      intro q hq g hg
      rcases List.mem_append.mp hq with hq | hq
      · exact hold q hq g hg
      · rw [List.mem_singleton.mp hq, hp] at hg; cases hg
        exact hcomp hcm
    · rw [ha, List.pairwise_append]
      refine ⟨hnames, List.pairwise_singleton _ _, fun a hma b hmb x y hx hy => ?_⟩
      rw [List.mem_singleton.mp hmb, World.nameOf, hp, Option.bind_some, hname] at hy; cases hy
      rw [hf.nameOf (hlt a hma)] at hx
      have := hno a hma
      rw [namedLike_iff] at this
      rw [strcasecmp_comm]
      cases hcmp : strcasecmp n x with
      | false => rfl
      | true => exact absurd ⟨x, hx, hcmp⟩ this

/-- The configuration only adds records, and none of them has a session. -/
theorem configured_inv
    (h : ((hostTable c).guard fun _ op => ∃ os h, op = .add os h).Reachable t) :
    TableInv t ∧ ∀ p, t.w.sessionOf p = none := by
  have hind : ((hostTable c).guard fun _ op => ∃ os h, op = .add os h).Inductive fun t =>
      TableInv t ∧ ∀ p, t.w.sessionOf p = none := by
    refine ⟨fun t ht => ?_, fun t op t' hi hs => ?_⟩
    · obtain ⟨hh, hg, ha⟩ := ht
      refine ⟨⟨by rw [ha]; exact hg, by rw [ha]; simp, by rw [ha]; exact .nil⟩, fun p => ?_⟩
      rw [World.sessionOf, hh]; rfl
    · obtain ⟨hi, hnone⟩ := hi
      obtain ⟨⟨-, p, b, hr, ha⟩, os, h, rfl⟩ := hs
      refine ⟨hostAddNew_inv hi hr ha fun _ => rfl, fun q => ?_⟩
      obtain ⟨h', complete, hc, rfl, hp, hf, -⟩ := hostAddNew_ok (Chain.Lasso.of_path hi.chain) hr
      rcases Nat.lt_trichotomy q t.w.hosts.length with hlt | rfl | hgt
      · rw [hf.sessionOf hlt]; exact hnone q
      · rw [sessionOf_eq hp, (hostComplete_ok hc).2.1]; rfl
      · have hlen := hf.length
        rw [World.sessionOf, List.getElem?_eq_none (by omega)]; rfl
  exact hind.reachable t h

/-- Looking for a host in a table that ends in NULL, with a test that does not
fail on its records. -/
theorem hostFind_table {L : List HostId} {test : Host → Except Fault Bool} {hit : HostId → Bool}
    (hc : Chain.Path w.next w.gHosts L none)
    (ht : ∀ p ∈ L, ∀ h, w.hosts[p]? = some h → test h = .ok (hit p)) :
    hostFind w test = .ok (L.find? hit) := by
  refine Chain.find_path (fun a ha => ?_) hc (path_length_le hc)
  obtain ⟨n, hn⟩ := hc.mem_next ha
  obtain ⟨g, hg, rfl⟩ := Option.map_eq_some_iff.mp hn
  refine ⟨g.next, next_eq hg, ?_⟩
  simp only [hostNode, hg, ht a ha g hg]

/-- Every lookup returns. -/
def World.LookupsReturn (w : World) : Prop :=
  (∀ name, ∃ o, utilName2host w name = .ok o) ∧ (∀ eth, ∃ o, utilEther2host w eth = .ok o) ∧
    ∀ ip, ∃ o, utilIp2host w ip = .ok o

theorem TableInv.lookups (hi : TableInv t) : t.w.LookupsReturn := by
  refine ⟨fun name => ?_, fun eth => ?_, fun ip => ?_⟩
  · refine ⟨t.accepted.find? fun p => (t.w.nameOf p).any (strcasecmp name), hostFind_table hi.chain ?_⟩
    intro p hp h hh
    have hn := (hi.complete p hp h hh).name
    obtain ⟨n, hn⟩ := Option.ne_none_iff_exists'.mp hn
    simp [hostNamed, World.nameOf, hh, hn]
  · refine ⟨t.accepted.find? fun p => (t.w.hosts[p]?).any (·.eth == eth), hostFind_table hi.chain ?_⟩
    intro p _ h hh
    simp [hh]
  · refine ⟨t.accepted.find? fun p => (t.w.hosts[p]?).any (ip == ·.ip), hostFind_table hi.chain ?_⟩
    intro p _ h hh
    simp [hh]

end
end Bootd
