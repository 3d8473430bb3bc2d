import Bootd.L4Daemon.Step

/-!
# The file records of a run

A file record is made while the configuration is read. From then on `host_add` fills
in its mask and `host_clone` copies the list it is in; nothing else writes to it.

* `World.FilesAll`: every record has `P`.
* `hostAddNew_files`, `handle_files`: a new host and a packet keep that.
* `daemon_files`: in every state of a run.
* `World.FilesFrom`: the files of one host have a common origin, likewise.
* `daemon_listedFit`: the texts of a listed host fit into the array of `host_add`,
  so a clone of it does not overrun that.
-/
namespace Bootd

open Bootd.Core

/-- All files of all hosts have `P`. -/
def World.FilesAll (P : File → Prop) (w : World) : Prop :=
  ∀ (p : HostId) (h : Host), w.hosts[p]? = some h → ∀ f ∈ h.files, P f

/-- `P` does not look at the mask. -/
def Maskless (P : File → Prop) : Prop := ∀ f m, P f → P { f with service := m }

section
variable {P : File → Prop} {c : Conf} {os : Os} {w w' : World} {h h' : Host} {p : HostId} {b : Bool}
  {L : List HostId} {e : Ev} {u : Unit}

theorem hostFiles_all {service : Nat} {fs fs' : List File} (hP : Maskless P)
    (h : hostFiles c service 0 fs = .ok fs') (hfs : ∀ f ∈ fs, P f) : ∀ f ∈ fs', P f := by
  obtain ⟨rfl, -⟩ := hostFiles_listed h
  intro g hg
  obtain ⟨f, hf, rfl⟩ := List.mem_map.mp hg
  unfold File.masked
  split
  · exact hP f service (hfs f hf)
  · exact hfs f hf

theorem hostComplete_files (hP : Maskless P) (hr : hostComplete c os w h = .ok (h', b)) (hfs : ∀ f ∈ h.files, P f) :
    ∀ f ∈ h'.files, P f := by
  obtain ⟨n, -, hr⟩ := except_bind_ok hr
  cases n with
  | none =>
    cases hr
    exact hfs
  | some n =>
    obtain ⟨ip, -, hr⟩ := except_bind_ok hr
    obtain ⟨eth, -, hr⟩ := except_bind_ok hr
    cases eth with
    | none =>
      cases hr
      exact hfs
    | some eth =>
      obtain ⟨fs, hadded, hr⟩ := except_bind_ok hr
      cases hr
      exact hostFiles_all hP hadded hfs

/-- A new host whose files have `P`, whether it is linked in or not. -/
theorem hostAddNew_files (hP : Maskless P) (hL : Chain.Lasso w.next w.gHosts L)
    (hr : hostAddNew c os h w = .ok (p, b) w') (hall : w.FilesAll P) (hfs : ∀ f ∈ h.files, P f) :
    w'.FilesAll P := by
  obtain ⟨h', complete, hc, rfl, hp, hframe, -⟩ := hostAddNew_ok hL hr
  intro q g hg
  have hlen := (List.getElem?_eq_some_iff.mp hg).1
  rw [hframe.length] at hlen
  by_cases hq : q < w.hosts.length
  · rw [hframe.hosts q hq, Option.map_eq_some_iff] at hg
    obtain ⟨g, hg, rfl⟩ := hg
    exact hall q g hg
  · obtain rfl : q = w.hosts.length := Nat.le_antisymm (Nat.le_of_lt_succ hlen) (Nat.le_of_not_lt hq)
    rw [hp] at hg
    cases hg
    exact hostComplete_files hP hc hfs

theorem SameHosts.filesAll (hs : SameHosts w w') (hall : w.FilesAll P) : w'.FilesAll P := by
  intro q g hg
  rw [hs.hosts q, Option.map_eq_some_iff] at hg
  obtain ⟨g, hg, rfl⟩ := hg
  exact hall q g hg

/-- A packet makes a clone at most, with the files of its template. -/
theorem handle_files (hP : Maskless P) (hok : HostsOk w L) (hr : e.handle c w = .ok u w') (hall : w.FilesAll P) :
    w'.FilesAll P := by
  rcases handle_ok hr with ⟨ios, -, rfl⟩ | ⟨t, h, w₁, host, ha, -, hs⟩
  · exact (SameHosts.of_eq rfl rfl : SameHosts w (w.emits ios)).filesAll hall
  · refine (SameHosts.served hs).filesAll ?_
    cases ha with
    | known => exact hall
    | cloned os l p t tmpl h b w₁ _ _ htm hadd =>
      exact hostAddNew_files hP hok.lasso hadd hall (hall t tmpl htm)

/-- **The records of a run**: those of the start, perhaps with another mask. -/
theorem daemon_files {σ σ' : Sys} {es : List Ev} (hP : Maskless P) (hrun : (daemon c).Run σ es σ')
    (hok : ∃ L, HostsOk σ.w L) (hall : σ.w.FilesAll P) : (∃ L, HostsOk σ'.w L) ∧ σ'.w.FilesAll P := by
  induction hrun with
  | nil => exact ⟨hok, hall⟩
  | snoc _ hstep ih =>
    obtain ⟨⟨L, hok⟩, hall⟩ := ih
    have hall' := (SameHosts.of_eq rfl rfl : SameHosts _ (World.start _)).filesAll hall
    exact ⟨handle_hostsOk hok.start hstep.2.1, handle_files hP hok.start hstep.2.1 hall'⟩

/-! ## The files of one host -/

/-- For each host there is an origin in `B` that all of its files have. -/
def World.FilesFrom {β : Type} (B : β → Prop) (R : β → File → Prop) (w : World) : Prop :=
  ∀ (p : HostId) (h : Host), w.hosts[p]? = some h → ∃ b, B b ∧ ∀ f ∈ h.files, R b f

variable {β : Type} {B : β → Prop} {R : β → File → Prop} {b₀ : β}

theorem hostAddNew_from (hR : ∀ b, Maskless (R b)) (hL : Chain.Lasso w.next w.gHosts L)
    (hr : hostAddNew c os h w = .ok (p, b) w') (hall : w.FilesFrom B R) (hb : B b₀) (hfs : ∀ f ∈ h.files, R b₀ f) :
    w'.FilesFrom B R := by
  obtain ⟨h', complete, hc, rfl, hp, hframe, -⟩ := hostAddNew_ok hL hr
  intro q g hg
  have hlen := (List.getElem?_eq_some_iff.mp hg).1
  rw [hframe.length] at hlen
  by_cases hq : q < w.hosts.length
  · rw [hframe.hosts q hq, Option.map_eq_some_iff] at hg
    obtain ⟨g, hg, rfl⟩ := hg
    exact hall q g hg
  · obtain rfl : q = w.hosts.length := Nat.le_antisymm (Nat.le_of_lt_succ hlen) (Nat.le_of_not_lt hq)
    rw [hp] at hg
    cases hg
    exact ⟨b₀, hb, hostComplete_files (hR b₀) hc hfs⟩

theorem SameHosts.filesFrom (hs : SameHosts w w') (hall : w.FilesFrom B R) : w'.FilesFrom B R := by
  intro q g hg
  rw [hs.hosts q, Option.map_eq_some_iff] at hg
  obtain ⟨g, hg, rfl⟩ := hg
  exact hall q g hg

/-- A clone has the origin of its template. -/
theorem handle_from (hR : ∀ b, Maskless (R b)) (hok : HostsOk w L) (hr : e.handle c w = .ok u w')
    (hall : w.FilesFrom B R) : w'.FilesFrom B R := by
  rcases handle_ok hr with ⟨ios, -, rfl⟩ | ⟨t, h, w₁, host, ha, -, hs⟩
  · exact (SameHosts.of_eq rfl rfl : SameHosts w (w.emits ios)).filesFrom hall
  · refine (SameHosts.served hs).filesFrom ?_
    cases ha with
    | known => exact hall
    | cloned os l p t tmpl h b w₁ _ _ htm hadd =>
      obtain ⟨b₀, hb, hfs⟩ := hall t tmpl htm
      exact hostAddNew_from hR hok.lasso hadd hall hb hfs

theorem daemon_from {σ σ' : Sys} {es : List Ev} (hR : ∀ b, Maskless (R b)) (hrun : (daemon c).Run σ es σ')
    (hok : ∃ L, HostsOk σ.w L) (hall : σ.w.FilesFrom B R) : σ'.w.FilesFrom B R := by
  have hind : (∃ L, HostsOk σ'.w L) ∧ σ'.w.FilesFrom B R := by
    induction hrun with
    | nil => exact ⟨hok, hall⟩
    | snoc _ hstep ih =>
      obtain ⟨⟨L, hok⟩, hall⟩ := ih
      have hall' := (SameHosts.of_eq rfl rfl : SameHosts _ (World.start _)).filesFrom hall
      exact ⟨handle_hostsOk hok.start hstep.2.1, handle_from hR hok.start hstep.2.1 hall'⟩
  exact hind.2

/-! ## The texts of the listed files -/

/-- The texts of the files of each of these hosts fit into `files`. -/
def World.ListedFit (c : Conf) (w : World) (L : List HostId) : Prop :=
  ∀ p ∈ L, ∀ h, w.hosts[p]? = some h → TextsFit c h.service h.files

theorem hostAddNew_listedFit (hL : Chain.Lasso w.next w.gHosts L) (hr : hostAddNew c os h w = .ok (p, b) w')
    (hfit : w.ListedFit c L) : w'.ListedFit c (if b then L ++ [p] else L) := by
  obtain ⟨h', complete, hc, rfl, hp, hframe, hcase⟩ := hostAddNew_ok hL hr
  have hlt := path_lt hL.2.choose_spec.1
  have hold : w'.ListedFit c L := by
    intro q hq g hg
    rw [hframe.hosts q (hlt q hq), Option.map_eq_some_iff] at hg
    obtain ⟨g, hg, rfl⟩ := hg
    exact hfit q hq g hg
  rcases hcase with ⟨rfl, -⟩ | ⟨rfl, rfl, -⟩
  · exact hold
  · intro q hq g hg
    rcases List.mem_append.mp hq with hq | hq
    · exact hold q hq g hg
    · rw [List.mem_singleton.mp hq, hp] at hg
      cases hg
      exact hostComplete_texts hc

theorem SameHosts.listedFit (hs : SameHosts w w') (hfit : w.ListedFit c L) : w'.ListedFit c L := by
  intro q hq g hg
  rw [hs.hosts q, Option.map_eq_some_iff] at hg
  obtain ⟨g, hg, rfl⟩ := hg
  exact hfit q hq g hg

theorem boot_listedFit (hb : Boot c w) : ∃ L, HostsOk w L ∧ w.ListedFit c L := by
  obtain ⟨t, ht, hh, hg⟩ := hb.hosts
  have hind : ((hostTable c).guard fun _ op => ∃ os h, op = .add os h).Inductive fun t =>
      TableInv t ∧ t.w.ListedFit c t.accepted := by
    refine ⟨fun t ht => ?_, fun t op t' hi hs => ?_⟩
    · refine ⟨(configured_inv (LTS.reachable_init ht)).1, ?_⟩
      rw [ht.2.2]
      exact fun _ hp => nomatch hp
    · obtain ⟨⟨-, p, b, hr, ha⟩, os, h, rfl⟩ := hs
      refine ⟨hostAddNew_inv hi.1 hr ha fun _ => rfl, ?_⟩
      rw [ha]
      exact hostAddNew_listedFit (.of_path hi.1.chain) hr hi.2
  have hsame : SameHosts t.w w := .of_eq hg.symm hh.symm
  have hi := hind.reachable t ht
  exact ⟨t.accepted, hsame.hostsOk ⟨.of_path hi.1.chain, hi.1.complete⟩, hsame.listedFit hi.2⟩

theorem handle_listedFit (hok : HostsOk w L) (hr : e.handle c w = .ok u w') (hfit : w.ListedFit c L) :
    ∃ L', HostsOk w' L' ∧ w'.ListedFit c L' := by
  rcases handle_ok hr with ⟨ios, -, rfl⟩ | ⟨t, h, w₁, host, ha, -, hs⟩
  · exact ⟨L, hok.emits ios, (SameHosts.of_eq rfl rfl : SameHosts w (w.emits ios)).listedFit hfit⟩
  · have hsame := SameHosts.served hs
    cases ha with
    | known => exact ⟨L, hsame.hostsOk hok, hsame.listedFit hfit⟩
    | cloned os l p t tmpl h b w₁ hhost _ htm hadd =>
      exact ⟨_, hsame.hostsOk (clone_ok hok (Ev.host_mem hok hhost) htm hadd).2.2.1,
        hsame.listedFit (hostAddNew_listedFit hok.lasso hadd hfit)⟩

/-- **The files of the listed hosts** in every state of a run. -/
theorem daemon_listedFit (σ : Sys) (hr : (daemon c).Reachable σ) : ∃ L, HostsOk σ.w L ∧ σ.w.ListedFit c L := by
  have hind : (daemon c).Inductive fun σ => ∃ L, HostsOk σ.w L ∧ σ.w.ListedFit c L := by
    refine ⟨fun σ h => boot_listedFit h.1, fun σ e σ' hi hs => ?_⟩
    obtain ⟨L, hok, hfit⟩ := hi
    exact handle_listedFit hok.start hs.2.1 ((SameHosts.of_eq rfl rfl : SameHosts σ.w σ.w.start).listedFit hfit)
  exact hind.reachable σ hr

end
end Bootd
