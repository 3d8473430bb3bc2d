import Bootd.Bugs.ZeroMask
import Bootd.Config.HostText

/-!
# Two buffers that do not fit what the parser accepts

A string of the configuration has up to 255 bytes. `host_add` lists all the files of
a host in `files[2048]`, with `strcat` and without looking at lengths (src/host.c:85-105);
one file with ten aliases is enough. `util_name2ether` copies a host name into `b[64]`
(src/util.c:72, 86-89).

Counterexample: ten aliases of 255 bytes, and a name of 64 bytes (`long_strings_overrun`).

`local_buffers_iff`: which hosts and names fit.
-/
namespace Bootd

open Bootd.Core
open Bootd.Core.CString

/-- `host_add` touches `files` only inside, however far it comes. -/
def FilesInside (c : Conf) (os : Os) (w : World) (svs : List NetService) (h : Host) : Prop :=
  Exec.wp (hostText c os w svs h) (fun _ a => a.Inside filesSize) (fun _ a => a.Inside filesSize) .fresh

/-- `util_name2ether` touches `b` only inside. -/
def UpperInside (c : Conf) (os : Os) (w : World) (name : CStr) : Prop :=
  Exec.wp (name2etherText c os w name) (fun _ a => a.Inside upperSize) (fun _ a => a.Inside upperSize) .fresh

section
variable {c : Conf} {os : Os} {w : World} {svs : List NetService} {h : Host} {name : CStr}

theorem files_inside : FilesInside c os w svs h ↔
    ¬Addressed c os w h ∨ (hostTexts svs h).flatten.length < filesSize := by
  unfold FilesInside
  by_cases haddr : Addressed c os w h
  · obtain ⟨n, ip, eth, hname, hip, heth⟩ := haddr
    have hempty : (Arr.write 0 [] .fresh : Arr UInt8).Inside filesSize := inside_write.mpr ⟨inside_fresh, by decide⟩
    rw [Exec.wp_leaves (hostText_addressed hname hip heth), inside_appends _ (by decide), and_iff_right hempty]
    have hzero : (Arr.write 0 [] .fresh : Arr UInt8).text.length = 0 := rfl
    rw [hzero, Nat.zero_add]
    exact (or_iff_right fun hno => hno ⟨n, ip, eth, hname, hip, heth⟩).symm
  · rw [Exec.wp_leaves (hostText_unaddressed haddr)]
    exact iff_of_true inside_fresh (.inl haddr)

theorem upper_inside : UpperInside c os w name ↔ ¬UpperTried c os w name ∨ name.length < upperSize := by
  unfold UpperInside
  by_cases htried : UpperTried c os w name
  · rw [Exec.wp_leaves (name2etherText_upper htried), inside_write, List.length_map, Nat.zero_add,
      and_iff_right inside_fresh, or_iff_right (not_not_intro htried)]
  · rw [Exec.wp_leaves (name2etherText_direct htried)]
    exact iff_of_true inside_fresh (.inl htried)

end

/-- **What fits**: for every host, every name, and whatever the tables and the system say. -/
theorem local_buffers_iff (c : Conf) (os : Os) (w : World) (svs : List NetService) (h : Host) (name : CStr) :
    (FilesInside c os w svs h ↔ ¬Addressed c os w h ∨ (hostTexts svs h).flatten.length < filesSize) ∧
    (UpperInside c os w name ↔ ¬UpperTried c os w name ∨ name.length < upperSize) :=
  ⟨files_inside, upper_inside⟩

/-! ## Strings that are accepted -/

/-- The strings of a file. -/
def File.strings (f : File) : List CStr := (f.path :: f.name :: f.server :: f.aliases.toList).reduceOption

/-- `alias a;`, so many times. -/
def aliasForest (a : CStr) : Nat → Forest
  | 0 => .nil
  | n + 1 => .leaf (cstr "alias") [a] (aliasForest a n)

/-- `host a { ether 2:0:0:0:0:3; file /b/k { alias a; ... } }`, with ten aliases. -/
def aliasedHost (a : CStr) : Forest :=
  .block (cstr "host") [cstr "a"] (.leaf (cstr "ether") [cstr "2:0:0:0:0:3"]
    (.block (cstr "file") [cstr "/b/k"] (aliasForest a 10) .nil)) .nil

/-- Its record. -/
def aliasedRecord (a : CStr) : Host :=
  ⟨none, some (cstr "a"), 0, plainEther 3, 0, [⟨some (cstr "/b/k"), some a, none, .replicate _ (some a), 0⟩], none⟩

theorem aliasedRecord_strings {a : CStr} (ha : a.length ≤ 255) :
    ∀ f ∈ (aliasedRecord a).files, ∀ s ∈ f.strings, s.length ≤ 255 := by
  intro f hf s hs
  rw [List.mem_singleton.mp hf] at hs
  have hmem : s ∈ cstr "/b/k" :: List.replicate 11 a := hs
  rcases List.mem_cons.mp hmem with rfl | hs
  · decide
  · rw [List.eq_of_mem_replicate hs]
    exact ha

theorem aliasedRecord_length (a : CStr) (svs : List NetService) :
    10 * a.length ≤ (hostTexts svs (aliasedRecord a)).flatten.length := by
  let f : File := ⟨some (cstr "/b/k"), some a, none, .replicate _ (some a), serviceAll⟩
  have htexts : hostTexts svs (aliasedRecord a) = beforeNull (fileTexts (strService svs) f) := by
    have hone : filesTexts (strService svs) serviceAll [f] = fileTexts (strService svs) f := List.append_nil _
    rw [← hone]
    rfl
  have hsum : ((f.aliases.toList.takeWhile Option.isSome).map fun a => 3 + (a.getD []).length).sum =
      10 * (3 + a.length) := by
    have haliases : f.aliases.toList.takeWhile Option.isSome = List.replicate 10 (some a) := rfl
    rw [haliases, List.map_replicate, List.sum_replicate_nat]
    rfl
  rw [htexts, fileTexts_length (f := f) rfl rfl, hsum]
  omega

theorem aliasedHost_run (a : CStr) : ∃ e ∈ (aliasedHost a).entries 0, ∃ s,
    hostRecord macEnv e (.start plainSetup) = .ok (aliasedRecord a) s ∧ s.setup = plainSetup :=
  ⟨_, List.mem_cons_self, _, rfl, rfl⟩

/-- **Counterexample**: neither all hosts nor all names fit. -/
theorem long_strings_overrun :
    (¬∀ (env : SetupEnv) (e : ConfEntry) (st st' : EvalState) (h : Host), hostRecord env e st = .ok h st' →
      (∀ f ∈ h.files, ∀ s ∈ f.strings, s.length ≤ 255) →
      FilesInside (st'.setup.conf env) env.os (st'.setup.w.allocHost h) st'.setup.services h) ∧
    ¬∀ (c : Conf) (os : Os) (w : World) (name : CStr), name.length ≤ 255 → UpperInside c os w name := by
  constructor
  · intro hall
    have ha : (List.replicate 255 97 : CStr).length = 255 := List.length_replicate
    obtain ⟨e, -, s, hrun, hs⟩ := aliasedHost_run (List.replicate 255 97)
    have hin := files_inside.mp (hall macEnv e _ s _ hrun (aliasedRecord_strings ha.le))
    rcases hin with hno | hlen
    · rw [hs] at hno
      exact hno ⟨cstr "a", 77, plainEther 3, rfl, rfl, rfl⟩
    · have hle := aliasedRecord_length (List.replicate 255 97) s.setup.services
      rw [ha] at hle
      unfold filesSize at hlen
      omega
  · intro hall
    have hlen : (List.replicate 64 97 : CStr).length = 64 := List.length_replicate
    rcases upper_inside.mp (hall plainConf plainOs emptyWorld (List.replicate 64 97) (by rw [hlen]; decide)) with
      hno | hlt
    · exact hno ⟨rfl, ⟨none, rfl, rfl⟩, rfl, rfl⟩
    · rw [hlen] at hlt
      exact Nat.lt_irrefl _ hlt

end Bootd
