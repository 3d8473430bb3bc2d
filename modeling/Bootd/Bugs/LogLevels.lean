import Bootd.L2State.Log
import Mathlib.Data.List.Induction

/-!
# The modules' thresholds are 0

`log_init` sets the thresholds of all categories to `LOG_ERR`, but the loop for those
of the modules is commented out ("XXX makes it crash", src/log.c:49-52), so that they
keep the 0 they start with, which is `LOG_DEBUG`. Every severity reaches that, and the
third test of `log_msg` (src/log.c:111) lets everything pass until a threshold was set
for the message's module. For module 0, which most messages have, none can be set:
`log_set_level` takes its argument for the global threshold then (src/log.c:85-88).

Counterexample: `log_init(LOG_WARN)`, and a `LOG_DEBUG` message (`debug_written`).

`levels_filter_iff`: when a message is written as the thresholds say.
-/
namespace Bootd.Log

/-! ## Thresholds that were set -/

/-- What a call of `log_set_level` sets: one threshold at a time. -/
inductive Target
  | global
  | cat (k : Nat)
  | mod (k : Nat)
  deriving DecidableEq

def target (n : BitVec 32) : Target :=
  if n &&& logCat ≠ 0 then .cat (catOf n) else if n &&& logMod ≠ 0 then .mod (modOf n) else .global

/-- The argument of the last call that set the threshold of `t`. -/
def lastSet (t : Target) (ns : List (BitVec 32)) : Option (BitVec 32) := ns.reverse.find? (target · = t)

/-- The threshold, `dflt` if it was never set. -/
def threshold (t : Target) (dflt : Int) (ns : List (BitVec 32)) : Int := ((lastSet t ns).map severity).getD dflt

def globalThreshold (level : BitVec 32) (ns : List (BitVec 32)) : Int :=
  ((lastSet .global ns).map BitVec.toInt).getD (severity level)

/-- One of the three thresholds is reached. -/
def ShouldWrite (level : BitVec 32) (ns : List (BitVec 32)) (what : BitVec 32) : Prop :=
  globalThreshold level ns ≤ severity what ∨ threshold (.cat (catOf what)) logErr ns ≤ severity what ∨
    threshold (.mod (modOf what)) logErr ns ≤ severity what

/-- `log_init(level)`, and `log_set_level` for each of the arguments. -/
def State.after (level : BitVec 32) (ns : List (BitVec 32)) : State :=
  ns.foldl (fun st n => setLevel n st) (init level .start)

section
variable {level n what : BitVec 32} {ns : List (BitVec 32)} {t : Target} {st : State}

@[simp] theorem lastSet_nil (t : Target) : lastSet t [] = none := rfl

theorem lastSet_snoc (t : Target) (ns : List (BitVec 32)) (n : BitVec 32) :
    lastSet t (ns ++ [n]) = if target n = t then some n else lastSet t ns := by
  unfold lastSet
  rw [List.reverse_append, List.reverse_singleton, List.singleton_append, List.find?_cons]
  split_ifs with h <;> simp [h]

/-- The state goes by the targets, except that modules start with 0. -/
structure Follows (level : BitVec 32) (ns : List (BitVec 32)) (st : State) : Prop where
  minlevel : st.minlevel = globalThreshold level ns
  cat : ∀ k ≤ logCatMax, st.cat k = threshold (.cat k) logErr ns
  mod : ∀ k, st.mod k = threshold (.mod k) 0 ns

theorem threshold_snoc (t : Target) (dflt : Int) (ns : List (BitVec 32)) (n : BitVec 32) :
    threshold t dflt (ns ++ [n]) = if target n = t then severity n else threshold t dflt ns := by
  unfold threshold
  rw [lastSet_snoc]
  split_ifs <;> rfl

theorem globalThreshold_snoc (level : BitVec 32) (ns : List (BitVec 32)) (n : BitVec 32) :
    globalThreshold level (ns ++ [n]) = if target n = .global then n.toInt else globalThreshold level ns := by
  unfold globalThreshold
  rw [lastSet_snoc]
  split_ifs <;> rfl

theorem follows_init (level : BitVec 32) : Follows level [] (init level .start) := by
  have hcat : level &&& logLevel &&& logCat = 0 := by
    rw [BitVec.and_assoc]
    simp [logLevel, logCat]
  have hmod : level &&& logLevel &&& logMod = 0 := by
    rw [BitVec.and_assoc]
    simp [logLevel, logMod]
  have hlt : (level &&& logLevel).toNat < 2 ^ 31 := by
    have := severity_le level
    unfold severity logErr at this
    omega
  unfold init
  rw [if_neg (by decide), setLevel, if_neg (not_not.mpr hcat), if_neg (not_not.mpr hmod)]
  refine ⟨?_, fun k hk => ?_, fun _ => rfl⟩
  · exact BitVec.toInt_eq_toNat_of_lt (by omega)
  · exact if_pos hk

/-- A call sets the threshold of its target. -/
theorem Follows.setLevel (h : Follows level ns st) (n : BitVec 32) : Follows level (ns ++ [n]) (setLevel n st) := by
  by_cases hcat : n &&& logCat ≠ 0
  · have ht : target n = .cat (catOf n) := if_pos hcat
    rw [Log.setLevel, if_pos hcat]
    refine ⟨?_, fun k hk => ?_, fun k => ?_⟩
    · rw [globalThreshold_snoc, ht, if_neg (by simp), h.minlevel]
    · rw [threshold_snoc, ht]
      refine (Function.update_apply _ _ _ _).trans ?_
      simp only [h.cat k hk, Target.cat.injEq, eq_comm]
    · rw [threshold_snoc, ht, if_neg (by simp), h.mod k]
  by_cases hmod : n &&& logMod ≠ 0
  · have ht : target n = .mod (modOf n) := (if_neg hcat).trans (if_pos hmod)
    rw [Log.setLevel, if_neg hcat, if_pos hmod]
    refine ⟨?_, fun k hk => ?_, fun k => ?_⟩
    · rw [globalThreshold_snoc, ht, if_neg (by simp), h.minlevel]
    · rw [threshold_snoc, ht, if_neg (by simp), h.cat k hk]
    · rw [threshold_snoc, ht]
      refine (Function.update_apply _ _ _ _).trans ?_
      simp only [h.mod k, Target.mod.injEq, eq_comm]
  · have ht : target n = .global := (if_neg hcat).trans (if_neg hmod)
    rw [Log.setLevel, if_neg hcat, if_neg hmod]
    refine ⟨?_, fun k hk => ?_, fun k => ?_⟩
    · rw [globalThreshold_snoc, ht, if_pos rfl]
    · rw [threshold_snoc, ht, if_neg (by simp), h.cat k hk]
    · rw [threshold_snoc, ht, if_neg (by simp), h.mod k]

theorem follows_after (level : BitVec 32) (ns : List (BitVec 32)) : Follows level ns (.after level ns) := by
  induction ns using List.reverseRecOn with
  | nil => exact follows_init level
  | append_singleton ns n ih =>
    rw [State.after, List.foldl_append]
    exact ih.setLevel n

end

/-- **When the thresholds are kept to**: a threshold was set for the message's module, or the message is to be
written anyway. -/
theorem levels_filter_iff (level : BitVec 32) (ns : List (BitVec 32)) (what : BitVec 32) (header body : CStr) :
    ((msg (.after level ns) what header body).isSome ↔ ShouldWrite level ns what) ↔
      lastSet (.mod (modOf what)) ns ≠ none ∨ severity what = logErr ∨
        globalThreshold level ns ≤ severity what ∨ threshold (.cat (catOf what)) logErr ns ≤ severity what := by
  have h := follows_after level ns
  have hle := severity_le what
  have hpos := severity_nonneg what
  rw [msg_isSome, State.Passes, ShouldWrite, h.minlevel, h.cat _ (catOf_lt what).le, h.mod]
  unfold threshold
  cases hset : lastSet (.mod (modOf what)) ns with
  | some n => simp
  | none =>
    -- the module's threshold is 0 in the code, and `LOG_ERR` by its default
    have herr : logErr ≤ severity what ↔ severity what = logErr := ⟨fun h => le_antisymm hle h, fun h => h.ge⟩
    simp only [Option.map_none, Option.getD_none, hpos, herr, ne_eq, not_true_eq_false, false_or, or_true, true_iff]
    tauto

/-- **Counterexample**: a `LOG_DEBUG` message with the level `LOG_WARN`. -/
theorem debug_written : ¬∀ (level : BitVec 32) (ns : List (BitVec 32)) (what : BitVec 32) (header body : CStr),
    (msg (.after level ns) what header body).isSome ↔ ShouldWrite level ns what := by
  intro hall
  exact absurd ((hall 2 [] 0 [] []).mp rfl) (by unfold ShouldWrite; decide)

end Bootd.Log
