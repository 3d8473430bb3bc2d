import Bootd.Bugs.MissingServer
import Bootd.L4Daemon.Confine
import Bootd.L5Program.Startup

/-!
# What the program opens

From the text of the configuration to the calls of `open`: the parser stores the
entries, `conf_file` makes host records of them, `service_start` begins to listen, and
packets arrive in any order, from anywhere, with any contents. A path that is opened
stands in a `file` block, and that block is in the `host` block of the host that the
packet identifies.

* `Traced`: a path with its way back into the configuration.
* `program_opens`: every path that is ever opened.
-/
namespace Bootd

open Bootd.Core

/-- The path stands in a `file` block of a `host` block, from which the host `t` has all
of its files. -/
def Traced (root : List ConfEntry) (w : World) (t : HostId) (path : Option CStr) : Prop :=
  ∃ host, w.hosts[t]? = some host ∧ ∃ b ∈ named kwHost root, (∀ f ∈ host.files, FileOf b f) ∧
    ∃ x ∈ named kwFile b.sub, ∃ p ∈ x.texts, path = some p ∧ p.length < parseStringMax

section
variable {τ : Type} {S : Source τ} {stack : Nat → Locals} {mem : EntId → Entry} {tok : τ} {f : Forest}
  {pst : ParseState τ} {w : World} {e : Ev} {t : HostId} {path : Option CStr} {L : List HostId}

/-- A path that is allowed has one. -/
theorem allowed_traced (hload : Loads S stack mem tok f pst) (hok : HostsOk w L)
    (hfrom : w.FilesFrom (· ∈ named kwHost (f.entries 0)) FileOf) (ha : Allowed w e t path) :
    Traced (f.entries 0) w t path := by
  obtain ⟨host, g, name, hh, -, -, hg, rfl, -⟩ := ha.record
  obtain ⟨b, hb, hfiles⟩ := hfrom t host hh
  obtain ⟨x, hx, hread⟩ := hfiles g hg
  have hpath := ((hok.complete t (hok.listed_iff.mp ha.listed) host hh).files g hg).1
  obtain ⟨p, hp⟩ := Option.ne_none_iff_exists'.mp hpath
  have hmem := hread.path p hp
  exact ⟨host, hh, b, hb, hfiles, x, hx, p, hmem, hp, block_texts hload ⟨b, hb, hx⟩ p hmem⟩

end

/-- **From the configuration to `open`**: whatever the program was started with, in every
state of every run and for every packet, a path that is opened is allowed for the host
that the packet identifies, and it stands in a `file` block in that host's `host` block. -/
theorem program_opens {τ : Type} (S : Source τ) (stack : Nat → Locals) (mem : EntId → Entry) (tok : τ) (f : Forest)
    (pst : ParseState τ) (env : StartEnv) (opts : List CmdOpt) (w₀ w : World) (c : Conf) (σ : Sys) (es : List Ev)
    (e : Ev) (hload : Loads S stack mem tok f pst) (hw : w₀.Fresh)
    (hstart : mainInit env opts (f.entries 0) w₀ = .ok (c, w)) (hrun : (daemon c).Run ⟨w, []⟩ es σ) :
    ∀ h s path r, .openFile h s path r ∈ traceOf (e.handle c) σ.w →
      ∃ t, (h = t ∨ h = σ.w.hosts.length) ∧ Allowed σ.w e t path ∧ Traced (f.entries 0) σ.w t path := by
  obtain ⟨hboot, hfrom⟩ := mainInit_ok (entries_distinct 0 f) hw hstart
  have hinit : (daemon c).Reachable ⟨w, []⟩ := LTS.reachable_init ⟨hboot, rfl⟩
  have hfrom := daemon_from fileOf_maskless hrun (daemon_hostsOk _ hinit) hfrom
  obtain ⟨L, hok⟩ := daemon_hostsOk σ (hinit.run hrun)
  intro h s path r hio
  obtain ⟨t, ht, ha⟩ := handle_opens hok _ hio
  exact ⟨t, ht, ha, allowed_traced hload hok hfrom ha⟩

/-! ## A request for `k` -/

/-- From 10.0.0.2. -/
def askK : Ev := .udp plainOs port69 ⟨.ofBytes 10 0 0 2, 1024⟩ .any (.ofBytes ([0, 1] ++ cstr "k" ++ [0]))

def Io.opens (p : CStr) : Io → Bool
  | .openFile _ _ path _ => path == some p
  | _ => false

theorem askK_opens : ∃ c w, mainInit bootEnv [.c (cstr "bootd.conf")] (bootForest.entries 0) freshWorld =
    .ok (c, w) ∧ ∃ h s r, .openFile h s (some (cstr "/b/k")) r ∈ traceOf (askK.handle c) w := by
  have h : (mainInit bootEnv [.c (cstr "bootd.conf")] (bootForest.entries 0) freshWorld).toOption.any
      (fun r => (traceOf (askK.handle r.1) r.2).any (Io.opens (cstr "/b/k"))) = true := by decide +kernel
  obtain ⟨r, hr, h⟩ := ok_of_any h
  obtain ⟨io, hio, hk⟩ := List.any_eq_true.mp h
  cases io with
  | openFile h s path fd => exact ⟨r.1, r.2, hr, h, s, fd, beq_iff_eq.mp hk ▸ hio⟩
  | udp | link | listen | close | start | stop | arp => cases hk

/-- `/b/k` is in the block of the host `a`. -/
theorem program_opens_k : ∃ c w, mainInit bootEnv [.c (cstr "bootd.conf")] (bootForest.entries 0) freshWorld =
    .ok (c, w) ∧ ∃ t, Allowed w askK t (some (cstr "/b/k")) ∧
      Traced (bootForest.entries 0) w t (some (cstr "/b/k")) := by
  obtain ⟨c, w, hstart, h, s, r, hio⟩ := askK_opens
  obtain ⟨pst, hload⟩ := print_loads bootForest (by decide) (by decide) (by decide)
  obtain ⟨t, -, ha, ht⟩ := program_opens _ _ _ _ _ pst bootEnv _ freshWorld w c ⟨w, []⟩ [] askK hload
    freshWorld_fresh hstart (.nil _) h s _ r hio
  exact ⟨c, w, hstart, t, ha, ht⟩

end Bootd
