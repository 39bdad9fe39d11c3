import ExperimentSuite.Factor.Plan
import Mathlib.Algebra.BigOperators.Group.List.Basic

/-!
# Counting runs

A product that stops at the greatest count is the exact product cut off there,
however the factors follow one another: a later factor of zero brings the
count back to zero even where it had been cut off before.
-/

namespace ExperimentSuite

namespace FactorPlan

/-- The exact number of combinations of crossed levels. -/
def exactCombinations (plan : FactorPlan) : Nat :=
  (plan.cross.map (·.levels.length)).prod

theorem saturatingMul_min (a b : Nat) :
    saturatingMul (min a maxCount) b = min (a * b) maxCount := by
  rw [saturatingMul]
  rcases Nat.le_total a maxCount with h | h
  · rw [Nat.min_eq_left h]
  · rw [Nat.min_eq_right h]
    rcases Nat.eq_zero_or_pos b with rfl | hb
    · simp
    · have h₁ : maxCount ≤ maxCount * b := Nat.le_mul_of_pos_right _ hb
      have h₂ : maxCount ≤ a * b := Nat.le_trans h₁ (Nat.mul_le_mul_right b h)
      rw [Nat.min_eq_right h₁, Nat.min_eq_right h₂]

theorem combinations_eq (plan : FactorPlan) :
    plan.combinations = min plan.exactCombinations maxCount := by
  have hfold : ∀ (factors : List CrossFactor) (n : Nat),
      factors.foldl (fun n factor => saturatingMul n factor.levels.length) (min n maxCount) =
        min (n * (factors.map (·.levels.length)).prod) maxCount := by
    intro factors
    induction factors with
    | nil => simp
    | cons factor rest ih =>
        intro n
        rw [List.foldl_cons, saturatingMul_min, ih, List.map_cons, List.prod_cons, Nat.mul_assoc]
  simpa [combinations, exactCombinations, maxCount] using hfold plan.cross 1

theorem runCount_eq (plan : FactorPlan) (entries : Nat) :
    plan.runCount entries = min (entries * plan.exactCombinations) maxCount := by
  rw [runCount, combinations_eq, saturatingMul, Nat.mul_comm entries, Nat.mul_comm entries,
    ← saturatingMul, saturatingMul_min]

/-- Below the limit of runs the count is exact. -/
theorem runCount_of_le {plan : FactorPlan} {entries : Nat}
    (h : entries * plan.exactCombinations ≤ Vocabulary.maxRuns) :
    plan.runCount entries = entries * plan.exactCombinations := by
  rw [runCount_eq]
  have hlimit : Vocabulary.maxRuns ≤ maxCount := by decide
  exact Nat.min_eq_left (Nat.le_trans h hlimit)

/-- The limit of runs is far below the greatest count, so a count that was cut off is above both. -/
theorem maxRuns_lt_runCount_iff {plan : FactorPlan} {entries : Nat} :
    Vocabulary.maxRuns < plan.runCount entries ↔
      Vocabulary.maxRuns < entries * plan.exactCombinations := by
  have hlimit : Vocabulary.maxRuns < maxCount := by decide
  rw [runCount_eq, Nat.lt_min]
  exact and_iff_left hlimit

end FactorPlan

end ExperimentSuite
