import Bootd.Config.HostFile
import Bootd.L5Program.Startup

/-!
# A table that is written down and read again

`tableForest` behind any other statements is a configuration file once it is laid out as
text. The program that is started with this file reads it piece by piece, takes it apart
into words, builds the entries in its tables, and evaluates them: the hosts it has then
are those of the table, in that order, with all that the table says about them.

* `table_reloads`: for every table that can be written down.
-/
namespace Bootd

open Bootd.Core

section
variable {env : SetupEnv} {opts : List CmdOpt} {st st' : Setup} {file : Option CStr} {name : CStr} {hs : List Host}
  {root : List ConfEntry}

theorem lists_kept (env : StartEnv) (hs : List Host) : KeptByListeners (·.Lists hs) env :=
  keptByListeners fun _ _ h _ _ _ => ⟨⟨h.hosts, h.head⟩, h.hosts, h.head⟩

end

/-- **Write and read**: the statements `front`, which are accepted on their own and have
no hosts, and behind them a table of hosts. -/
theorem table_reloads (env : StartEnv) (opts : List CmdOpt) (fname : CStr) (fd : List Chunk) (stack : Nat → Locals)
    (mem : EntId → Entry) (w : World) (front : Forest) (hs : List Host) (st₀ st₁ : Setup) (hw : w.Fresh)
    (hargs : confArgs env.toSetupEnv opts { plainSetup with w := w } = .ok (some fname, st₀))
    (hfront : kwHost.1 ∉ front.keywords)
    (hprint : front.Printable) (haccepted : confFileNamed env.toSetupEnv (some fname) (front.entries 0) st₀ = .ok st₁)
    (hne : hs ≠ []) (hwritable : ∀ h ∈ hs, h.Writable env.lib) (hapart : hs.Pairwise Host.Apart)
    (hroom : (front.append (tableForest env.lib hs)).store fname .empty ≠ none)
    (hlay : Layout (front.append (tableForest env.lib hs)).print (fd.map Subtype.val).flatten) :
    let root := (front.append (tableForest env.lib hs)).entries 0
    (∃ N p pst, (∀ k, N ≤ k → parseFile (fileSource fname _) stack mem (.new fname fd rfl) k = .ok p pst) ∧
      entriesAt pst.tbl.strings pst.mem (front.append (tableForest env.lib hs)).size p = some root) ∧
    (∃ w₁ acc, confFileNamed env.toSetupEnv (some fname) root st₀ = .ok { st₁ with w := w₁, accepted := acc } ∧
      w₁.Lists hs) ∧
    ∀ c w', mainInit env opts root w = .ok (c, w') → w'.Lists hs := by
  have hkeep := confArgs_ok hargs
  have hopen := hkeep.w.trans st₀.w.opensOwn_open
  have hsome : front.append (tableForest env.lib hs) ≠ .nil := by
    cases front with
    | nil =>
      obtain ⟨h, hs, rfl⟩ := List.exists_cons_of_ne_nil hne
      exact Forest.noConfusion
    | leaf n vs f => exact Forest.noConfusion
    | block n vs sub f => exact Forest.noConfusion
  have hparse := layout_loads fname fd stack mem _ hsome
    (append_printable hprint (tableForest_stored hwritable).printable) hroom hlay
  obtain ⟨s₀, hconf, rfl⟩ := confFileNamed_some.mp haccepted
  obtain ⟨s, w₁, acc, hrun, hsetup, hl⟩ := confFile_reads hfront hconf hkeep.keys
    (hopen.hosts.trans hw.hosts) (hopen.gHosts.trans hw.gHosts) hwritable hapart
  have hnamed : confFileNamed env.toSetupEnv (some fname) ((front.append (tableForest env.lib hs)).entries 0) st₀ =
      .ok { s₀.setup with w := w₁, accepted := acc } := confFileNamed_some.mpr ⟨s, hrun, hsetup⟩
  refine ⟨hparse, ⟨w₁, acc, hnamed, hl⟩, fun c w' hmain => ?_⟩
  obtain ⟨⟨file, st⟩, hargs', hmain⟩ := except_bind_ok hmain
  cases hargs.symm.trans hargs'
  obtain ⟨st', hnamed', hmain⟩ := except_bind_ok hmain
  cases hnamed.symm.trans hnamed'
  cases hstart : serviceStart env (s₀.setup.services.map NetService.full) (.start w₁ s₀.setup.devices) with
  | error f s' =>
    rw [hstart] at hmain
    cases hmain
  | ok u s' =>
    rw [hstart] at hmain
    cases hmain
    exact (Exec.wp_iff.mp (KeepsWorld.serviceStart (lists_kept env hs) _ (.start w₁ s₀.setup.devices) hl)).1
      _ _ hstart

/-! ## Two clients -/

/-- `bootEnv`, and the library also prints the addresses that it reads. -/
def printEnv : StartEnv := { bootEnv with
  lib := { bootEnv.lib with
    inetAton := fun w => if w = cstr "10.0.0.2" then some (.ofBytes 10 0 0 2)
      else if w = cstr "10.0.0.3" then some (.ofBytes 10 0 0 3) else none
    etherAton := fun w => if w = cstr "2:0:0:0:0:3" then some (plainEther 3)
      else if w = cstr "2:0:0:0:0:4" then some (plainEther 4) else none
    inetNtoa := fun ip => if ip = .ofBytes 10 0 0 2 then cstr "10.0.0.2" else cstr "10.0.0.3"
    etherNtoa := fun e => if e = plainEther 3 then cstr "2:0:0:0:0:3" else cstr "2:0:0:0:0:4" } }

/-- `service tftp { bind :69; }` -/
def tftpForest : Forest := .block (cstr "service") [cstr "tftp"] (.leaf (cstr "bind") [cstr ":69"] .nil) .nil

/-- One file with an alias, for TFTP and RMP only, with a server. -/
def kernelFile : File where
  path := some (cstr "/b/net kernel")
  name := some (cstr "k")
  server := some (cstr "s")
  aliases := #v[some (cstr "vmunix"), none, none, none, none, none, none, none, none, none]
  service := serviceRmp ||| serviceTftp

def twoClients : List Host :=
  [⟨none, some (cstr "a"), serviceAll, plainEther 3, .ofBytes 10 0 0 2, [kernelFile], none⟩,
    ⟨none, some (cstr "b"), serviceRarp, plainEther 4, .ofBytes 10 0 0 3, [], none⟩]

def twoForest : Forest := tftpForest.append (tableForest printEnv.lib twoClients)

theorem kernelFile_writable : kernelFile.Writable where
  path := ⟨_, rfl, by decide, by decide, by decide, by decide⟩
  name := ⟨_, rfl, by decide, by decide, by decide, by decide⟩
  service := by decide
  server s hs := by
    cases hs
    exact ⟨by decide, by decide, by decide, by decide⟩
  aliases := by decide
  words a ha := by
    rw [List.mem_singleton.mp (show a ∈ [cstr "vmunix"] from ha)]
    exact ⟨by decide, by decide, by decide, by decide⟩

theorem twoClients_writable : ∀ h ∈ twoClients, h.Writable printEnv.lib := by
  have hword : ∀ v ∈ [cstr "2:0:0:0:0:3", cstr "2:0:0:0:0:4", cstr "10.0.0.2", cstr "10.0.0.3", cstr "a", cstr "b"],
      v ≠ [] ∧ 0 ∉ v ∧ v.length ≤ 254 ∧ IsValue v := by decide
  have hstored : ∀ v ∈ [cstr "2:0:0:0:0:3", cstr "2:0:0:0:0:4", cstr "10.0.0.2", cstr "10.0.0.3", cstr "a", cstr "b"],
      StoredAs v := fun v hv => ⟨(hword v hv).1, (hword v hv).2.1, (hword v hv).2.2.1, (hword v hv).2.2.2⟩
  intro h hh
  rcases List.mem_cons.mp hh with rfl | hh
  · refine ⟨⟨_, rfl, hstored _ (by decide)⟩, by decide, by decide, hstored _ (by decide), by decide, by decide,
      hstored _ (by decide), by decide, fun f hf => ?_, List.pairwise_singleton _ _, by decide +kernel⟩
    rw [List.mem_singleton.mp hf]
    exact kernelFile_writable
  · rw [List.mem_singleton.mp hh]
    exact ⟨⟨_, rfl, hstored _ (by decide)⟩, by decide, by decide, hstored _ (by decide), by decide, by decide,
      hstored _ (by decide), by decide, fun f hf => absurd hf List.not_mem_nil, .nil, by decide +kernel⟩

theorem table_reloads_two : ∃ c w, mainInit printEnv [.c (cstr "bootd.conf")] (twoForest.entries 0) freshWorld =
    .ok (c, w) ∧ w.Lists twoClients := by
  have hfront : (confFileNamed printEnv.toSetupEnv (some (cstr "bootd.conf")) (tftpForest.entries 0)
      { plainSetup with w := freshWorld }).toOption.isSome = true := by decide +kernel
  have hmain :
      (mainInit printEnv [.c (cstr "bootd.conf")] (twoForest.entries 0) freshWorld).toOption.isSome = true := by
    decide +kernel
  obtain ⟨st₁, hfront⟩ := ok_of_isSome hfront
  obtain ⟨⟨c, w⟩, hmain⟩ := ok_of_isSome hmain
  have hapart : twoClients.Pairwise Host.Apart := by
    refine List.pairwise_pair.mpr fun n m hn hm => ?_
    cases hn
    cases hm
    decide
  have hlay : Layout twoForest.print [twoForest.text 0].flatten := by
    have h := text_layout (f := twoForest) (by decide +kernel) 0 (.done .nil)
    rwa [List.append_nil, List.append_nil, ← List.flatten_singleton (l := twoForest.text 0)] at h
  have hroom : (twoForest.store (cstr "bootd.conf") .empty).isSome = true := by decide +kernel
  refine ⟨c, w, hmain, ?_⟩
  exact (table_reloads printEnv [.c (cstr "bootd.conf")] (cstr "bootd.conf") [⟨twoForest.text 0, by decide +kernel⟩]
    (fun _ => plainLocals) (fun _ => .zero) freshWorld tftpForest twoClients { plainSetup with w := freshWorld } st₁
    freshWorld_fresh rfl (by decide) (by decide) hfront (List.cons_ne_nil _ _) twoClients_writable hapart
    (Option.ne_none_iff_isSome.mpr hroom) hlay).2.2 c w hmain

end Bootd
