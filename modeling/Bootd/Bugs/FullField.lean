import Bootd.L3Protocol.Dhcp

/-!
# A DHCP field without its NUL

The handler measures the names in a request with `strlen` and compares the length with the
size of the field (src/dhcp.c:26-27). A field that is full is as long as its size, and is
let pass: a zero that happens to follow it ends the string. It should be compared with the
last index, as the comment says that such strings are not 0 terminated.

Counterexample: 128 bytes of file name in front of an empty `vend` (`full_file`).

* `dhcpHandler_checked`: `dhcpSane` stands for the checks of the handler.
* `fields_checked_iff`: the packets that are checked as they should be.
-/
namespace Bootd

open Bootd.Core

/-- The request gets past the checks. mirrors src/dhcp.c:21-41 -/
def dhcpSane (l : Listener) (p : Pkt) : Except Fault Bool :=
  if 16 < p.dhcpHops then .ok false
  else if dhcpSnameSize < p.dhcpSname.length ∨ dhcpFileSize < p.dhcpFile.length then .ok false
  else do return !(← dhcpOtherServer l p.dhcpSname)

/-- mirrors src/dhcp.c:45-69 -/
def dhcpLookup (p : Pkt) : M Unit := do
  match ← Exec.liftE (utilEther2host (← get) p.dhcpChaddr) with
  | none => pure ()
  | some h => do
    let _ ← loadHost h
    pure ()

/-- Where the two fields are, and the bytes behind them. mirrors src/dhcp.h:17-33 -/
def Pkt.snameField (p : Pkt) : List UInt8 := p.bytes 44 dhcpSnameSize

def Pkt.fileField (p : Pkt) : List UInt8 := p.bytes 108 dhcpFileSize

/-- Both names end within their fields. -/
def Pkt.Terminated (p : Pkt) : Prop := 0 ∈ p.snameField ∧ 0 ∈ p.fileField

/-- A request that gets past the checks has both names terminated; one that has not is
discarded. -/
structure FieldsChecked (l : Listener) (p : Pkt) : Prop where
  passed : dhcpSane l p = .ok true → p.Terminated
  discarded : ¬p.Terminated → dhcpSane l p = .ok false

section
variable {l : Listener} {p : Pkt} {o n : Nat}

theorem dhcpHandler_checked (l : Listener) (p : Pkt) :
    dhcpHandler l p = Exec.liftE (dhcpSane l p) >>= fun sane => if sane then dhcpLookup p else pure () := by
  unfold dhcpHandler dhcpSane
  split_ifs
  · rfl
  · rfl
  · cases dhcpOtherServer l p.dhcpSname with
    | error f => rfl
    | ok b =>
      cases b with
      | true => rfl
      | false => rfl

/-- A string is longer than its field if the field has no NUL and neither has the byte behind it. -/
theorem cstrAt_long (p : Pkt) (o n : Nat) :
    n < (p.cstrAt o (n + 1)).length ↔ 0 ∉ p.bytes o n ∧ p.mem (o + n) ≠ 0 := by
  have hbytes : p.bytes o (n + 1) = p.bytes o n ++ [p.mem (o + n)] := by
    unfold Pkt.bytes
    rw [List.range_succ, List.map_append, List.map_singleton]
  have hlen : (p.bytes o (n + 1)).length = n + 1 := by
    unfold Pkt.bytes
    rw [List.length_map, List.length_range]
  unfold Pkt.cstrAt
  have hpre := List.takeWhile_prefix (l := p.bytes o (n + 1)) (· ≠ 0)
  have hle := hpre.length_le
  have hall : n < ((p.bytes o (n + 1)).takeWhile (· ≠ 0)).length ↔ ∀ b ∈ p.bytes o (n + 1), b ≠ 0 := by
    constructor
    · intro h b hb
      have hself := hpre.eq_of_length (by omega)
      simpa using List.takeWhile_eq_self_iff.mp hself b hb
    · intro h
      rw [List.takeWhile_eq_self_iff.mpr fun b hb => by simpa using h b hb, hlen]
      exact Nat.lt_succ_self n
  rw [hall, hbytes]
  constructor
  · intro h
    exact ⟨fun h0 => h 0 (List.mem_append_left _ h0) rfl, h _ (by simp)⟩
  · rintro ⟨h0, hnext⟩ b hb
    rcases List.mem_append.mp hb with hin | hlast
    · exact fun hz => h0 (hz ▸ hin)
    · rw [List.mem_singleton.mp hlast]
      exact hnext

theorem dhcpOtherServer_true {sname : CStr} : dhcpOtherServer l sname = .ok true ↔
    sname ≠ [] ∧ ∃ name, l.name = some name ∧ sname ≠ name := by
  unfold dhcpOtherServer
  by_cases hs : sname = []
  · rw [if_pos hs]
    simp [hs]
  · rw [if_neg hs]
    cases l.name with
    | none => simp
    | some name => simp [hs]

/-- What is discarded. -/
theorem dhcpSane_false : dhcpSane l p = .ok false ↔ 16 < p.dhcpHops ∨ (0 ∉ p.snameField ∧ p.mem 108 ≠ 0) ∨
    (0 ∉ p.fileField ∧ p.mem 236 ≠ 0) ∨ (p.dhcpSname ≠ [] ∧ ∃ name, l.name = some name ∧ p.dhcpSname ≠ name) := by
  have hsname : dhcpSnameSize < p.dhcpSname.length ↔ 0 ∉ p.snameField ∧ p.mem 108 ≠ 0 := cstrAt_long p 44 64
  have hfile : dhcpFileSize < p.dhcpFile.length ↔ 0 ∉ p.fileField ∧ p.mem 236 ≠ 0 := cstrAt_long p 108 128
  have hother : (do return !(← dhcpOtherServer l p.dhcpSname)) = Except.ok false ↔
      dhcpOtherServer l p.dhcpSname = .ok true := by
    cases dhcpOtherServer l p.dhcpSname with
    | error f => exact iff_of_false (fun h => nomatch h) fun h => nomatch h
    | ok b =>
      cases b with
      | true => exact iff_of_true rfl rfl
      | false => exact iff_of_false (fun h => nomatch h) fun h => nomatch h
  rw [← hsname, ← hfile]
  unfold dhcpSane
  split_ifs with hhops hlong
  · exact iff_of_true rfl (.inl hhops)
  · exact iff_of_true rfl (.inr (hlong.imp_right .inl))
  · rw [hother, dhcpOtherServer_true]
    rw [not_or] at hlong
    exact ⟨fun h => .inr (.inr (.inr h)),
      fun h => ((h.resolve_left hhops).resolve_left hlong.1).resolve_left hlong.2⟩

end

/-- **The packets that are checked as they should be**: those whose names are terminated, and
those that are discarded for another reason, or because the byte behind a full field is not
zero. -/
theorem fields_checked_iff (l : Listener) (p : Pkt) : FieldsChecked l p ↔
    p.Terminated ∨ 16 < p.dhcpHops ∨ (0 ∉ p.snameField ∧ p.mem 108 ≠ 0) ∨ (0 ∉ p.fileField ∧ p.mem 236 ≠ 0) ∨
      (p.dhcpSname ≠ [] ∧ ∃ name, l.name = some name ∧ p.dhcpSname ≠ name) := by
  rw [← dhcpSane_false]
  constructor
  · intro h
    exact or_iff_not_imp_left.mpr h.discarded
  · rintro (hterm | hfalse)
    · exact ⟨fun _ => hterm, fun hno => absurd hterm hno⟩
    · refine ⟨fun htrue => ?_, fun _ => hfalse⟩
      rw [hfalse] at htrue
      cases htrue

/-- A request with a file name of 128 bytes. -/
def fullFile : Pkt := .ofBytes (.replicate 108 0 ++ .replicate 128 97 ++ .replicate 64 0)

theorem fullFile_len : fullFile.len = 300 := by
  unfold fullFile Pkt.ofBytes
  dsimp only
  rw [List.length_append, List.length_append, List.length_replicate, List.length_replicate, List.length_replicate]

/-- **Counterexample**: it gets past the checks. -/
theorem full_file : ¬∀ (l : Listener) (p : Pkt), 300 ≤ p.len → FieldsChecked l p := by
  intro h
  have hpass : dhcpSane port69 fullFile = .ok true := by decide +kernel
  have hfile : 0 ∉ fullFile.fileField := by decide +kernel
  exact hfile ((h port69 fullFile (Nat.le_of_eq fullFile_len.symm)).passed hpass).2

end Bootd
