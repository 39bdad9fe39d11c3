import ExperimentSuite.Suite.Preparation

/-!
# Summaries of experiments

What a person wants to know about an experiment before it is expanded: its
factors, its levels and how many runs to expect before exclusions.
-/

namespace ExperimentSuite

/-- The summary of one experiment. -/
structure ExperimentSummary where
  experiment : String
  hostTypes : List String
  levelEntries : Nat
  levelPaths : List String
  /-- The number of levels of every crossed factor, by path. -/
  crossLevels : List (String × Nat)
  repetitions : Nat
  expectedRuns : Nat
  exceptFilters : Nat

namespace ExperimentSummary

/-- The summary of a prepared experiment. -/
def ofPrepared (name : String) (e : PreparedExperiment) : ExperimentSummary :=
  { experiment := name
    hostTypes := Keyed.keys e.spec.hostTypes
    levelEntries := e.spec.factorLevels.length
    levelPaths := e.plan.levelPaths.map KeyPath.format
    crossLevels := Keyed.ofList (e.plan.cross.map fun f => (f.path.format, f.levels.length))
    repetitions := e.spec.repetitions
    expectedRuns := e.plan.runCount e.spec.factorLevels.length
    exceptFilters := e.spec.exceptFilters.length }

/-- A summary as a document. -/
def document (s : ExperimentSummary) : Document :=
  .ofFields
    [("experiment", .str s.experiment), ("host_types", .list (s.hostTypes.map .str)),
      ("level_entries", .nat s.levelEntries), ("level_paths", .list (s.levelPaths.map .str)),
      ("cross_levels", .map (Keyed.mapValues Document.nat s.crossLevels)),
      ("n_repetitions", .nat s.repetitions), ("expected_runs", .nat s.expectedRuns),
      ("except_filters", .nat s.exceptFilters)]

/-- A summary as lines for people. -/
def lines (s : ExperimentSummary) : List String :=
  ["experiment: " ++ s.experiment,
    "  host_types: " ++ ", ".intercalate s.hostTypes,
    "  n_repetitions: " ++ toString s.repetitions,
    "  factor_levels_entries: " ++ toString s.levelEntries]
  ++ (if s.levelPaths.isEmpty then []
      else ["  level_factors: " ++ ", ".intercalate s.levelPaths])
  ++ s.crossLevels.map (fun (path, count) =>
      "  cross_factor: " ++ path ++ " (" ++ toString count ++ " levels)")
  ++ ["  expected_runs: " ++ toString s.expectedRuns]
  ++ (if s.exceptFilters = 0 then [] else ["  except_filters: " ++ toString s.exceptFilters])

end ExperimentSummary

/-- The summaries of a suite in the order of its experiments. -/
def PreparedSuite.summary (s : PreparedSuite) : List ExperimentSummary :=
  s.experiments.map fun (name, e) => .ofPrepared name e

end ExperimentSuite
