import Mathlib.Data.List.TakeWhile
import Bootd.L1Wire.Bytes

/-!
# What was received of a field

A receive buffer holds the received bytes and, behind them, what it held
before. A field of fixed length is known if all of it was received; a string
already if the byte that ends it was.

* `Holds.u16`, `Holds.ether`, `Holds.bytes_eq`: a field that was received is the
  same in every buffer.
* `Holds.takeWhile`: so is a string whose end was received.
* `over_unsettled`: one whose end was not goes on into what the buffer held.
-/
namespace Bootd

/-- The bytes `bs` were received into the buffer. -/
structure Pkt.Holds (p : Pkt) (bs : List UInt8) : Prop where
  len : p.len = bs.length
  mem : ∀ i < bs.length, p.mem i = bs.getD i 0

/-- The buffer that held `f` when `bs` was received into it. -/
def Pkt.over (f : Nat → UInt8) (bs : List UInt8) : Pkt :=
  ⟨fun i => if i < bs.length then bs.getD i 0 else f i, bs.length⟩

/-- What was received of the `n` bytes at `o`. -/
def received (bs : List UInt8) (o n : Nat) : List UInt8 := (bs.drop o).take n

/-- The end of a string at `o`, of at most `n` bytes that are all `keep`, can be
told from what was received. -/
def Settled (keep : UInt8 → Bool) (bs : List UInt8) (o n : Nat) : Prop :=
  o + n ≤ bs.length ∨ ∃ b ∈ received bs o n, keep b = false

section
variable {p q : Pkt} {bs : List UInt8} {f : Nat → UInt8} {keep : UInt8 → Bool} {b : UInt8} {o n i : Nat}

theorem Pkt.over_holds (f : Nat → UInt8) (bs : List UInt8) : (Pkt.over f bs).Holds bs :=
  ⟨rfl, fun _ hi => if_pos hi⟩

theorem Pkt.ofBytes_eq_over (bs : List UInt8) : Pkt.ofBytes bs = .over (fun _ => 0) bs := by
  rw [Pkt.ofBytes, Pkt.over]
  congr 1
  funext i
  split
  · rfl
  · rw [List.getD, List.getElem?_eq_none (not_lt.mp ‹_›)]
    rfl

theorem Pkt.ofBytes_holds (bs : List UInt8) : (Pkt.ofBytes bs).Holds bs :=
  ⟨rfl, fun _ _ => rfl⟩

theorem Pkt.over_mem (hi : bs.length ≤ i) : (Pkt.over f bs).mem i = f i := if_neg (not_lt.mpr hi)

@[simp] theorem Pkt.bytes_length (p : Pkt) (o n : Nat) : (p.bytes o n).length = n := by simp [Pkt.bytes]

theorem Pkt.bytes_add (p : Pkt) (o m n : Nat) : p.bytes o (m + n) = p.bytes o m ++ p.bytes (o + m) n := by
  simp [Pkt.bytes, List.range_add, Nat.add_assoc]

theorem received_length : (received bs o n).length = min n (bs.length - o) := by
  rw [received, List.length_take, List.length_drop]

/-! ## Fields -/

theorem Pkt.Holds.agree (hp : p.Holds bs) (hq : q.Holds bs) (hi : i < bs.length) : p.mem i = q.mem i :=
  (hp.mem i hi).trans (hq.mem i hi).symm

theorem Pkt.Holds.u16 (hp : p.Holds bs) (hq : q.Holds bs) (h : o + 2 ≤ bs.length) : p.u16 o = q.u16 o := by
  rw [Pkt.u16, Pkt.u16, hp.agree hq (by omega), hp.agree hq (by omega)]

theorem Pkt.Holds.bytes_eq (hp : p.Holds bs) (hq : q.Holds bs) (h : o + n ≤ bs.length) :
    p.bytes o n = q.bytes o n := by
  refine List.map_congr_left fun i hi => ?_
  have := List.mem_range.mp hi
  exact hp.agree hq (by omega)

theorem Pkt.Holds.ether (hp : p.Holds bs) (hq : q.Holds bs) (h : o + 6 ≤ bs.length) :
    p.ether o = q.ether o := by
  have hall : (fun i : Fin 6 => p.mem (o + i.val)) = fun i => q.mem (o + i.val) := by
    funext i
    exact hp.agree hq (by omega)
  rw [Pkt.ether, Pkt.ether, hall]

/-- What was received comes first. -/
theorem Pkt.Holds.bytes (hp : p.Holds bs) (o n : Nat) :
    ∃ k, (received bs o n).length + k = n ∧
      p.bytes o n = received bs o n ++ p.bytes (o + (received bs o n).length) k := by
  have hlen : (received bs o n).length = min n (bs.length - o) := received_length
  refine ⟨n - (received bs o n).length, by omega, ?_⟩
  have hsplit := p.bytes_add o (received bs o n).length (n - (received bs o n).length)
  rw [Nat.add_sub_cancel' (by omega)] at hsplit
  rw [hsplit]
  refine congrArg (· ++ _) (List.ext_getElem (by simp) fun i h1 h2 => ?_)
  have hi : o + i < bs.length := by omega
  simp only [Pkt.bytes, List.getElem_map, List.getElem_range, received, List.getElem_take,
    List.getElem_drop, hp.mem _ hi]
  exact (List.getElem_eq_getD 0).symm

/-! ## Strings -/

theorem takeWhile_append_stop {xs ys : List UInt8} (h : ∃ b ∈ xs, keep b = false) :
    (xs ++ ys).takeWhile keep = xs.takeWhile keep := by
  rw [List.takeWhile_append, if_neg]
  intro he
  obtain ⟨b, hb, hk⟩ := h
  have hall := List.takeWhile_eq_self_iff.mp ((List.takeWhile_prefix _).eq_of_length he)
  rw [hall b hb] at hk
  cases hk

theorem Settled.pos (hs : Settled keep bs o n) (hn : 0 < n) : o + 1 ≤ bs.length := by
  rcases hs with hall | ⟨b, hb, -⟩
  · omega
  · have hpos := List.length_pos_of_mem hb
    rw [received_length] at hpos
    omega

/-- A string whose end was received is the same in every buffer. -/
theorem Pkt.Holds.takeWhile (hp : p.Holds bs) (hq : q.Holds bs) (hs : Settled keep bs o n) :
    (p.bytes o n).takeWhile keep = (q.bytes o n).takeWhile keep := by
  rcases hs with hall | hstop
  · rw [hp.bytes_eq hq hall]
  · obtain ⟨k, -, hpb⟩ := hp.bytes o n
    obtain ⟨m, -, hqb⟩ := hq.bytes o n
    rw [hpb, hqb, takeWhile_append_stop hstop, takeWhile_append_stop hstop]

/-- One whose end was not received goes on with what the buffer held. -/
theorem over_unsettled (hn : 0 < n) (hs : ¬Settled keep bs o n)
    (hf : ∀ i, bs.length ≤ i → i < o + n → f i = b) :
    ∃ k, 0 < k ∧ (received bs o n).length + k = n ∧
      ((Pkt.over f bs).bytes o n).takeWhile keep =
        received bs o n ++ if keep b then List.replicate k b else [] := by
  have hkeep : ∀ a ∈ received bs o n, keep a = true := by
    intro a ha
    by_contra hk
    exact hs (.inr ⟨a, ha, eq_false_of_ne_true hk⟩)
  have hlen : (received bs o n).length = min n (bs.length - o) := received_length
  obtain ⟨k, hk, hb⟩ := (Pkt.over_holds f bs).bytes o n
  have hshort : bs.length < o + n := not_le.mp fun h => hs (.inl h)
  have hrest : (Pkt.over f bs).bytes (o + (received bs o n).length) k = List.replicate k b := by
    refine List.eq_replicate_iff.mpr ⟨by simp, fun a ha => ?_⟩
    obtain ⟨i, hi, rfl⟩ := List.mem_map.mp ha
    have hi := List.mem_range.mp hi
    rw [Pkt.over_mem (by omega)]
    exact hf _ (by omega) (by omega)
  refine ⟨k, by omega, hk, ?_⟩
  rw [hb, hrest, List.takeWhile_append_of_pos hkeep]
  congr 1
  cases hkb : keep b with
  | true =>
    rw [if_pos rfl]
    exact List.takeWhile_eq_self_iff.mpr fun a ha => (List.eq_of_mem_replicate ha) ▸ hkb
  | false =>
    rw [if_neg (by simp)]
    cases k with
    | zero => rfl
    | succ k => rw [List.replicate_succ, List.takeWhile_cons, if_neg (by simp [hkb])]

end
end Bootd
