import Bootd.Config.Loaded
import Bootd.Config.Masks
import Bootd.L3Protocol.Rmp
import Bootd.L3Protocol.Tftp

/-!
# A host for which every service is off gets all of them

The word `none` clears the mask (src/ngenutil.c:15-18), so that a `service`
statement can turn off what is on by default. But `host_add` takes a mask of zero
for a missing statement:

* `if (h->service == 0) h->service = SERVICE_ALL` (src/host.c:82-84);
* a file without services gets those of its host (src/host.c:87-89).

A host with `service none` is then served by RARP, RMP, TFTP and bootparam, and a
file with it is handed out.

Counterexample: `host a { ether 2:0:0:0:0:3; service none; file /b/k; }`
(`none_serves_all`).

`as_stated_iff`: the masks of an accepted block are those of its statements exactly
if neither the statements of the host nor those of one of its files amount to
none. `denied_of_zero`: with a mask of zero the four handlers would deny.
-/
namespace Bootd

open Bootd.Core

/-- What the `service` statements of a block say: the words in order, or `dflt` if there is none. -/
def statedMask (svs : List NetService) (dflt : Nat) (e : ConfEntry) : Option Nat :=
  if named kwService e.sub = [] then some dflt else readServices svs (named kwService e.sub) 0

/-- There are statements, and they amount to none. -/
def SaysNone (svs : List NetService) (e : ConfEntry) : Prop :=
  named kwService e.sub ≠ [] ∧ readServices svs (named kwService e.sub) 0 = some 0

/-- The answers to a request for which the host was found. -/
structure Denied (w : World) (p : HostId) : Prop where
  rarp : ∀ os l pkt, utilEther2host w pkt.rarpTha = .ok (some p) → rarpHandler os l pkt w = .ok () w
  rmp : ∀ c os l pkt, rmpHost c os pkt w = .ok (some p) w → rmpHandler c os l pkt w = .ok () w
  tftp : ∀ c os l frm loc pkt, utilIp2host w frm.addr = .ok (some p) → tftpHandler c os l frm loc pkt w =
    (tftpLogMsgpacket os pkt >>= fun _ =>
      tftpSendError l frm loc tftpEAccess (cstr "access denied, tftp not allowed for this host")) w
  bootparam : bootparamHost w (some p) = none

/-- The host and its files are served what their blocks grant. -/
def AsStated (svs : List NetService) (w : World) (b : Added HostId) (fs : List (Added File)) : Prop :=
  ∃ h, w.hosts[b.made]? = some h ∧ statedMask svs serviceAll b.entry = some h.service ∧
    List.Forall₂ (fun (f : Added File) (g : File) => statedMask svs h.service f.entry = some g.service) fs h.files ∧
    (SaysNone svs b.entry → Denied w b.made)

section
variable {svs : List NetService} {w : World} {p : HostId} {h : Host} {e : ConfEntry} {mask dflt : Nat}

/-- Nothing is served with a mask of zero. -/
theorem denied_of_zero (hh : w.hosts[p]? = some h) (h0 : h.service = 0) : Denied w p := by
  have hload : loadHost p w = .ok h w := by
    rw [loadHost_ok]
    exact ⟨hh, rfl⟩
  have hdeny : ∀ svc, h.service &&& svc = 0 := fun svc => by rw [h0, Nat.zero_and]
  refine ⟨fun os l pkt hfind => ?_, fun c os l pkt hfind => ?_, fun c os l frm loc pkt hfind => ?_, ?_⟩
  · unfold rarpHandler
    split
    · rw [Exec.get_run, hfind, Exec.liftE_ok, pure_bind]
      simp only
      rw [Exec.bind_run hload, if_pos (hdeny _)]
      rfl
    · rfl
  · unfold rmpHandler
    split
    · rw [Exec.bind_run hfind]
      simp only
      rw [Exec.bind_run hload, if_pos (hdeny _)]
      rfl
    · rfl
  · unfold tftpHandler
    rw [tftpLogMsgpacket_bind, tftpLogMsgpacket_bind]
    split
    swap
    · rfl
    rw [Exec.get_run, hfind, Exec.liftE_ok, pure_bind]
    simp only
    rw [Exec.bind_run hload, if_pos (hdeny _)]
  · unfold bootparamHost
    simp only [hh, hdeny, if_true]

theorem stated_iff (hdflt : dflt ≠ 0) (hread : readServices svs (named kwService e.sub) 0 = some mask) :
    statedMask svs dflt e = some (orDefault dflt mask) ↔ ¬SaysNone svs e := by
  unfold statedMask SaysNone orDefault
  split
  · rename_i hnil
    rw [hnil] at hread
    obtain rfl : 0 = mask := Option.some.inj hread
    simp [hnil]
  · rename_i hne
    rw [hread]
    split
    · rename_i h0
      simp [h0, hne, hdflt.symm]
    · rename_i h0
      simp [h0]

end

/-- The masks are those of the statements, iff no statements amount to none. -/
theorem as_stated_iff {env : SetupEnv} {root : List ConfEntry} {st st' : EvalState} {hs : List (Added HostId)}
    {b : Added HostId} {fs : List (Added File)} (hd : Distinct root) (hfresh : ∀ e ∈ root, Fresh st e)
    (hi : TableInv ⟨st.setup.w, st.setup.accepted⟩) (hrun : confFile env root st = .ok () st')
    (hhs : HostBlocks env root st hs st') (hb : b ∈ hs) (hfs : FileBlocks env b fs) :
    AsStated st.setup.services st'.setup.w b fs ↔
      ¬SaysNone st.setup.services b.entry ∧ ∀ f ∈ fs, ¬SaysNone st.setup.services f.entry := by
  obtain ⟨h, mask, fs', hh, hfs', hm, hread, hreads⟩ := confFile_masks hd hfresh hi hrun hhs hb
  obtain rfl := hfs'.unique hfs
  have hne : h.service ≠ 0 := by
    rw [hm.host, orDefault]
    split
    · decide
    · assumption
  have hhost : statedMask st.setup.services serviceAll b.entry = some h.service ↔
      ¬SaysNone st.setup.services b.entry := by
    rw [hm.host]
    exact stated_iff (by decide) hread
  have hfiles : List.Forall₂ (fun (f : Added File) (g : File) =>
      statedMask st.setup.services h.service f.entry = some g.service) fs' h.files ↔
        ∀ f ∈ fs', ¬SaysNone st.setup.services f.entry := by
    rw [← List.forall₂_map_right_iff (f := fun g : File => g.service)
      (R := fun (f : Added File) m => statedMask st.setup.services h.service f.entry = some m),
      hm.files, List.map_map, List.forall₂_map_right_iff, List.forall₂_same]
    exact forall₂_congr fun f hf => stated_iff hne (hreads f hf)
  unfold AsStated
  constructor
  · rintro ⟨h', hh', hmask, hall, -⟩
    cases hh.symm.trans hh'
    exact ⟨hhost.mp hmask, hfiles.mp hall⟩
  · rintro ⟨hhost', hfiles'⟩
    exact ⟨h, hh, hhost.mpr hhost', hfiles.mpr hfiles', fun hnone => absurd hnone hhost'⟩

/-! ## A host that is to be served nothing -/

/-- `plainEnv`, with one Ethernet address that `ether_aton` takes. -/
def macEnv : SetupEnv := { plainEnv with
  lib := { plainConf with
    etherAton := fun w => if w = cstr "2:0:0:0:0:3" then some (plainEther 3) else none } }

/-- `host a { ether 2:0:0:0:0:3; service svc; file /b/k; }` -/
def serviceHost (svc : CStr) : Forest :=
  .block (cstr "host") [cstr "a"] (.leaf (cstr "ether") [cstr "2:0:0:0:0:3"] (.leaf (cstr "service") [svc]
    (.leaf (cstr "file") [cstr "/b/k"] .nil))) .nil

/-- The state afterwards, with the mask of the host and of the file. -/
def serviceHostEnd (mask : Nat) : EvalState :=
  ⟨Function.update (Function.update (Function.update (Function.update (fun _ => 0) 0 1) 1 1) 2 1) 3 1,
    { plainSetup with
      log := some (0, none)
      w := { emptyWorld with
        hosts := [⟨none, some (cstr "a"), mask, plainEther 3, 77,
          [⟨some (cstr "/b/k"), some (cstr "k"), none, .replicate _ none, mask⟩], none⟩]
        gHosts := some 0 }
      accepted := [0] }⟩

/-- The mask is `SERVICE_ALL`. -/
theorem service_none_run : confFile macEnv ((serviceHost (cstr "none")).entries 0) (.start plainSetup) =
    .ok () (serviceHostEnd serviceAll) := rfl

theorem service_tftp_run : confFile macEnv ((serviceHost (cstr "tftp")).entries 0) (.start plainSetup) =
    .ok () (serviceHostEnd serviceTftp) := rfl

theorem plain_table : TableInv ⟨plainSetup.w, plainSetup.accepted⟩ :=
  ⟨rfl, (fun _ hp => nomatch hp), .nil⟩

theorem none_serves_all : ¬∀ (env : SetupEnv) (root : List ConfEntry) (st st' : EvalState) (hs : List (Added HostId))
    (b : Added HostId) (fs : List (Added File)), Distinct root → (∀ e ∈ root, Fresh st e) →
    TableInv ⟨st.setup.w, st.setup.accepted⟩ → confFile env root st = .ok () st' → HostBlocks env root st hs st' →
    b ∈ hs → FileBlocks env b fs → AsStated st.setup.services st'.setup.w b fs := by
  intro h
  have hd := entries_distinct 0 (serviceHost (cstr "none"))
  have hfresh := fun e (_ : e ∈ (serviceHost (cstr "none")).entries 0) => start_fresh plainSetup e
  obtain ⟨hs, hblocks, hlist⟩ := confFile_hosts hd hfresh service_none_run
  obtain ⟨b, rfl⟩ : ∃ b, hs = [b] := by
    have hlen : [0] = hs.map (·.made) := hlist
    rw [← List.length_eq_one_iff, ← List.length_map (f := (·.made)), ← hlen]
    rfl
  obtain ⟨host, mask, fs, -, hfs, -⟩ := confFile_masks hd hfresh plain_table service_none_run hblocks
    List.mem_cons_self
  obtain ⟨host', hh, hmask, -⟩ := h _ _ _ _ _ _ _ hd hfresh plain_table service_none_run hblocks
    List.mem_cons_self hfs
  have hentry := hblocks.entry_mem b List.mem_cons_self
  have hmade : 0 = b.made := (List.cons.inj (hlist : [0] = [b.made])).1
  rw [List.mem_singleton.mp hentry] at hmask
  rw [← hmade] at hh
  cases hh
  exact absurd hmask (by decide)

/-- With `service tftp` it is as the statement says. -/
theorem as_stated_tftp : ∃ hs, HostBlocks macEnv ((serviceHost (cstr "tftp")).entries 0) (.start plainSetup) hs
      (serviceHostEnd serviceTftp) ∧ hs.map (·.made) = [0] ∧ ∀ b ∈ hs, ∀ fs, FileBlocks macEnv b fs →
    AsStated serviceInit (serviceHostEnd serviceTftp).setup.w b fs := by
  have hd := entries_distinct 0 (serviceHost (cstr "tftp"))
  have hfresh := fun e (_ : e ∈ (serviceHost (cstr "tftp")).entries 0) => start_fresh plainSetup e
  obtain ⟨hs, hblocks, hlist⟩ := confFile_hosts hd hfresh service_tftp_run
  refine ⟨hs, hblocks, hlist.symm, fun b hb fs hfs => ?_⟩
  refine (as_stated_iff hd hfresh plain_table service_tftp_run hblocks hb hfs).mpr ⟨?_, fun f hf => ?_⟩
  · rw [List.mem_singleton.mp (hblocks.entry_mem b hb)]
    exact fun hnone => absurd hnone.2 (by decide)
  · have hentry := hfs.entry_mem f hf
    rw [List.mem_singleton.mp (hblocks.entry_mem b hb)] at hentry
    rw [List.mem_singleton.mp hentry]
    exact fun hnone => absurd rfl hnone.1

end Bootd
