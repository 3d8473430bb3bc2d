import Mathlib.Data.Nat.ModEq
import Bootd.Core.Blocks
import Bootd.Core.LTS

/-!
# A lock-step transfer over a network that loses, repeats and reorders

The receiver asks for piece `n` of `src`, the sender answers each question with
the piece and the number `n + 1`, and the receiver takes the piece that comes
next, until one is the last. Numbers are sent modulo `m`. What was sent once may
arrive at any later time, any number of times, or never; and the receiver may
ask again for any piece up to the next.

* `LockStep.inv`: an answer in flight is the piece of its number, whatever came
  before it, so the receiver takes the pieces in their order.
* `delivers`: where the pieces are the blocks of a list shorter than `m` of
  them, the receiver has a beginning of the list, and all of it at the end.
-/
namespace Bootd.Core.LockStep

variable {α : Type} (m : Nat) (src : Nat → α) (isLast : α → Prop)

structure State (α : Type) where
  asked : List Nat
  sent : List (Nat × α)
  got : List α

/-- The last piece has arrived. -/
def Done (s : State α) : Prop := ∃ x, s.got.getLast? = some x ∧ isLast x

inductive Label (α : Type)
  | ask (n : Nat)
  | answer (n : Nat)
  | take (x : α)

inductive Step : State α → Label α → State α → Prop
  | ask (s : State α) (n : Nat) : n ≤ s.got.length →
      Step s (.ask n) { s with asked := s.asked ++ [n % m] }
  | answer (s : State α) (n : Nat) : n ∈ s.asked →
      Step s (.answer n) { s with sent := s.sent ++ [((n + 1) % m, src n)] }
  | take (s : State α) (x : α) : ¬Done isLast s → ((s.got.length + 1) % m, x) ∈ s.sent →
      Step s (.take x) { s with got := s.got ++ [x] }

def lockStep : LTS (State α) (Label α) where
  init s := s = ⟨[], [], []⟩
  step := Step m src isLast

/-- What is in flight, and what has arrived. -/
structure Inv (s : State α) : Prop where
  asked : ∀ n ∈ s.asked, n < m
  sent : ∀ a ∈ s.sent, ∃ i < m, a = ((i + 1) % m, src i)
  got : s.got = (List.range s.got.length).map fun i => src (i % m)
  going : ∀ i, i + 1 < s.got.length → ¬isLast (src (i % m))

variable {m src isLast}

/-- The piece that arrived last. -/
theorem Inv.last {s : State α} (hi : Inv m src isLast s) {k : Nat} (hk : s.got.length = k + 1) :
    s.got.getLast? = some (src (k % m)) := by
  rw [hi.got, hk, List.range_succ, List.map_append, List.getLast?_append]
  rfl

/-- Numbers of pieces are the same modulo `m` if their successors are. -/
theorem number_inj {i k : Nat} (hi : i < m) (h : (k + 1) % m = (i + 1) % m) : i = k % m := by
  have hmod : k % m = i % m := Nat.ModEq.add_right_cancel' 1 h
  rw [hmod, Nat.mod_eq_of_lt hi]

theorem step_inv (hm : 0 < m) {s s' : State α} {l : Label α} (hi : Inv m src isLast s)
    (hs : Step m src isLast s l s') : Inv m src isLast s' := by
  cases hs with
  | ask n hn =>
    refine ⟨fun k hk => ?_, hi.sent, hi.got, hi.going⟩
    rcases List.mem_append.mp hk with hk | hk
    · exact hi.asked k hk
    · rw [List.mem_singleton.mp hk]
      exact Nat.mod_lt n hm
  | answer n hn =>
    refine ⟨hi.asked, fun a ha => ?_, hi.got, hi.going⟩
    rcases List.mem_append.mp ha with ha | ha
    · exact hi.sent a ha
    · exact ⟨n, hi.asked n hn, List.mem_singleton.mp ha⟩
  | take x hopen hx =>
    obtain ⟨i, him, hix⟩ := hi.sent _ hx
    obtain ⟨hno, rfl⟩ := Prod.mk.inj hix
    have hnext := number_inj him hno
    refine ⟨hi.asked, hi.sent, ?_, fun j hj => ?_⟩
    · rw [List.length_append, List.length_singleton, List.range_succ, List.map_append, ← hi.got,
        List.map_singleton, ← hnext]
    · rw [List.length_append, List.length_singleton] at hj
      rcases Nat.lt_or_ge (j + 1) s.got.length with hlt | hge
      · exact hi.going j hlt
      · -- the piece that was the last so far did not end the transfer
        have hlen : s.got.length = j + 1 := by omega
        exact fun hl => hopen ⟨_, hi.last hlen, hl⟩

theorem inv (hm : 0 < m) {s : State α} (hs : (lockStep m src isLast).Reachable s) : Inv m src isLast s := by
  have hind : (lockStep m src isLast).Inductive (Inv m src isLast) := by
    refine ⟨fun s h => ?_, fun _ _ _ hi hs => step_inv hm hi hs⟩
    have hnil : s = ⟨[], [], []⟩ := h
    subst hnil
    exact ⟨by simp, by simp, rfl, by simp⟩
  exact hind.reachable s hs

/-! ## Blocks of a list -/

section
open Blocks

variable {b : Nat} {xs : List α}

/-- A block is the last when it is short. -/
def IsShort (b : Nat) (x : List α) : Prop := x.length < b

/-- The receiver has a beginning of the list, and all of it once a short block
has arrived. -/
structure Delivers (b : Nat) (xs : List α) (s : State (List α)) : Prop where
  part : s.got.flatten = xs.take (s.got.length * b)
  bound : s.got.length ≤ xs.length / b + 1
  whole : Done (IsShort b) s → s.got.flatten = xs

/-- **What arrives over the network is the list.** -/
theorem delivers (hb : 0 < b) (hm : xs.length < m * b) {s : State (List α)}
    (hs : (lockStep m (fun n => block b n xs) (IsShort b)).Reachable s) : Delivers b xs s := by
  have hblocks : xs.length / b < m := Nat.div_lt_of_lt_mul (Nat.mul_comm m b ▸ hm)
  have hi := inv (Nat.zero_lt_of_lt hblocks) hs
  -- a short block is the last, and no block before it is short
  have hbound : s.got.length ≤ xs.length / b + 1 := by
    by_contra hgt
    refine hi.going (xs.length / b) (by omega) ?_
    rw [Nat.mod_eq_of_lt hblocks]
    exact (short_iff xs hb).mpr (Nat.le_refl _)
  have hpart : s.got.flatten = xs.take (s.got.length * b) := by
    rw [← flatten_blocks]
    conv => lhs; rw [hi.got]
    congr 1
    refine List.map_congr_left fun i hi => ?_
    have := List.mem_range.mp hi
    rw [Nat.mod_eq_of_lt (by omega)]
  refine ⟨hpart, hbound, fun ⟨x, hx, hshort⟩ => ?_⟩
  obtain ⟨k, hk⟩ : ∃ k, s.got.length = k + 1 := by
    refine ⟨s.got.length - 1, ?_⟩
    have : s.got ≠ [] := by
      intro e
      rw [e] at hx
      cases hx
    have := List.length_pos_iff.mpr this
    omega
  rw [hi.last hk, Option.some.injEq] at hx
  subst hx
  have hle := (short_iff xs hb).mp hshort
  rw [Nat.mod_eq_of_lt (by omega)] at hle
  rw [hpart, hk]
  refine List.take_of_length_le ?_
  have hlt := Nat.lt_mul_div_succ xs.length hb
  have hmul := Nat.mul_le_mul_left b (Nat.add_le_add_right hle 1)
  rw [Nat.mul_comm (k + 1)]
  omega

end
end Bootd.Core.LockStep
