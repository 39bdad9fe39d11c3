import ExperimentSuite.Factor.Expansion
import ExperimentSuite.Proofs.Factor.Count
import ExperimentSuite.Proofs.Outcome

/-!
# The limit of runs

A design is refused for its size before any of its runs is built. The size is a
count that is cut off, yet the decision is that of the exact product: neither a
product that was cut off on the way nor a factor without levels that comes later
makes a difference. Whatever else fails afterwards fails in another way.
-/

namespace ExperimentSuite

namespace Expansion

open FactorPlan Outcome

variable {plan : FactorPlan} {experiment : String} {entries filters fragments : List Document}
  {skeleton commands fragment entry : Document}

/-- An expansion that ends because of the number of runs. -/
def Refused (outcome : Except Failure (List Document)) : Prop :=
  ∃ experiment total, outcome = .error (.factor experiment (.tooManyRuns total))

/-- A failure that is not due to the number of runs. -/
def SparesSize (f : Failure) : Prop :=
  ∀ experiment total, f ≠ .factor experiment (.tooManyRuns total)

theorem sparesSize_schema (place : String) (problem : SchemaProblem) :
    SparesSize (.schema place problem) := by
  intro _ _ h
  cases h

theorem failsOnly_build :
    FailsOnly SparesSize (build experiment skeleton commands fragment entry) := by
  rw [build]
  split
  · apply failsOnly_error
    intro _ _ h
    cases h
  · split
    · exact failsOnly_ok _
    · exact failsOnly_error (sparesSize_schema _ _)

theorem failsOnly_buildAll :
    FailsOnly SparesSize (buildAll experiment skeleton commands fragments entries) := by
  induction entries with
  | nil => exact failsOnly_ok _
  | cons entry rest ih =>
      rw [buildAll]
      apply FailsOnly.bind
      · intro f hf
        obtain ⟨fragment, -, hfail⟩ := exists_of_mapM_eq_error hf
        exact failsOnly_build f hfail
      · exact fun _ => ih.bind fun _ => failsOnly_ok _

/-- On checked entries an expansion is refused at once, or goes on to a part that fails in other
ways only. -/
theorem runs_cases (experiment : String) (filters : List Document) (commands : Document)
    (hcheck : FactorLevels.check plan.levelPaths entries = .ok ()) :
    (Vocabulary.maxRuns < entries.length * plan.exactCombinations ∧
      runs experiment plan entries filters commands =
        .error (.factor experiment (.tooManyRuns (plan.runCount entries.length)))) ∨
      (¬ Vocabulary.maxRuns < entries.length * plan.exactCombinations ∧
        FailsOnly SparesSize (runs experiment plan entries filters commands)) := by
  rw [runs, hcheck, ← maxRuns_lt_runCount_iff]
  change (_ ∧ (if Vocabulary.maxRuns < plan.runCount entries.length then _ else _) = _) ∨
    (_ ∧ FailsOnly _ (if Vocabulary.maxRuns < plan.runCount entries.length then _ else _))
  by_cases hlimit : Vocabulary.maxRuns < plan.runCount entries.length
  · rw [if_pos hlimit]
    exact .inl ⟨hlimit, rfl⟩
  · rw [if_neg hlimit]
    refine .inr ⟨hlimit, ?_⟩
    apply FailsOnly.bind
    · exact failsOnly_mapError fun _ => sparesSize_schema _ _
    · exact fun fragments => failsOnly_buildAll.bind fun _ => failsOnly_ok _

/-- The count of a plan is the exact product, cut off at the greatest count, and on checked entries
an expansion is refused for its size exactly if the exact number of runs is above the limit. -/
theorem refused_iff_exact (plan : FactorPlan) :
    (∀ entries : Nat,
      plan.runCount entries =
        min (2 ^ 64 - 1) (entries * (plan.cross.map (·.levels.length)).prod)) ∧
    ∀ (experiment : String) (entries filters : List Document) (commands : Document),
      FactorLevels.check plan.levelPaths entries = .ok () →
        (Refused (runs experiment plan entries filters commands) ↔
          Vocabulary.maxRuns < entries.length * (plan.cross.map (·.levels.length)).prod) ∧
        (Refused (runs experiment plan entries filters commands) →
          runs experiment plan entries filters commands =
            .error (.factor experiment (.tooManyRuns (plan.runCount entries.length)))) := by
  constructor
  · intro entries
    have hmax : maxCount = 2 ^ 64 - 1 := by decide
    rw [runCount_eq, Nat.min_comm, hmax, exactCombinations]
  · intro experiment entries filters commands hcheck
    rcases runs_cases experiment filters commands hcheck with
      ⟨hlimit, hruns⟩ | ⟨hlimit, hfails⟩
    · have hrefused : Refused (runs experiment plan entries filters commands) :=
        ⟨_, _, hruns⟩
      exact ⟨iff_of_true hrefused hlimit, fun _ => hruns⟩
    · have hnot : ¬ Refused (runs experiment plan entries filters commands) := by
        rintro ⟨name, total, hf⟩
        exact hfails _ hf name total rfl
      exact ⟨iff_of_false hnot hlimit, fun hrefused => absurd hrefused hnot⟩

/-- Crossed factors with equally many levels. -/
def evenFactors (count levels : Nat) : List CrossFactor :=
  List.replicate count ⟨["size"], List.replicate levels .null⟩

theorem prod_evenFactors (count levels : Nat) :
    ((evenFactors count levels).map (·.levels.length)).prod = levels ^ count := by
  rw [evenFactors, List.map_replicate, List.length_replicate, List.prod_replicate]

/-- A factor without levels leaves nothing to choose. -/
theorem prod_append_empty (factors : List CrossFactor) (path : KeyPath) :
    ((factors ++ [(⟨path, []⟩ : CrossFactor)]).map (·.levels.length)).prod = 0 := by
  simp

/-- A plan with five factors of 100000 levels each. -/
def vastPlan : FactorPlan where
  skeleton := .empty
  levelPaths := []
  cross := evenFactors 5 100000

/-- The same plan with a factor without levels behind them. -/
def voidPlan : FactorPlan where
  skeleton := .empty
  levelPaths := []
  cross := evenFactors 5 100000 ++ [⟨["mode"], []⟩]

/-- The product of the five factors is cut off. Alone they are refused with the greatest count; with
a factor without levels behind them there is no run to refuse. -/
theorem refused_vastPlan :
    (FactorLevels.check vastPlan.levelPaths [.empty] = .ok () ∧
      FactorLevels.check voidPlan.levelPaths [.empty] = .ok ()) ∧
      (vastPlan.runCount 1 = 2 ^ 64 - 1 ∧ Refused (runs "exp" vastPlan [.empty] [] .empty) ∧
        runs "exp" vastPlan [.empty] [] .empty =
          .error (.factor "exp" (.tooManyRuns (vastPlan.runCount 1)))) ∧
      voidPlan.runCount 1 = 0 ∧ ¬ Refused (runs "exp" voidPlan [.empty] [] .empty) := by
  have hvastCheck : FactorLevels.check vastPlan.levelPaths [.empty] = .ok () := rfl
  have hvoidCheck : FactorLevels.check voidPlan.levelPaths [.empty] = .ok () := rfl
  have hvast : (vastPlan.cross.map (·.levels.length)).prod = 100000 ^ 5 :=
    prod_evenFactors 5 100000
  have hvoid : (voidPlan.cross.map (·.levels.length)).prod = 0 :=
    prod_append_empty (evenFactors 5 100000) ["mode"]
  obtain ⟨hvastCount, hvastRuns⟩ := refused_iff_exact vastPlan
  obtain ⟨hvoidCount, hvoidRuns⟩ := refused_iff_exact voidPlan
  obtain ⟨hiff, herror⟩ := hvastRuns "exp" [.empty] [] .empty hvastCheck
  have hrefused : Refused (runs "exp" vastPlan [.empty] [] .empty) := by
    rw [hiff, hvast]
    decide
  refine ⟨⟨hvastCheck, hvoidCheck⟩, ⟨?_, hrefused, herror hrefused⟩, ?_, ?_⟩
  · rw [hvastCount, hvast]
    decide
  · rw [hvoidCount, hvoid]
    decide
  · rw [(hvoidRuns "exp" [.empty] [] .empty hvoidCheck).1, hvoid]
    decide

end Expansion

end ExperimentSuite
