import ExperimentSuite.Document.Path
import ExperimentSuite.Factor.Range

/-!
# Problems with factors

Every way in which the factors of an experiment, the levels supplied for them
or the number of runs they lead to can be wrong.
-/

namespace ExperimentSuite

/-- Why the factors of an experiment cannot be used. -/
inductive FactorProblem where
  /-- The marker is a key of the configuration itself. -/
  | atTop
  /-- The marker has sibling keys. -/
  | notAlone (path : KeyPath)
  | emptyLevels (path : KeyPath)
  | notRange (path : KeyPath) (expression : String)
  | range (path : KeyPath) (expression : String) (cause : Range.Problem)
  | markerInLevels (path : KeyPath)
  | insideList (path : KeyPath)
  | entryNotMap (index : Nat)
  | entryHasMarker (index : Nat)
  | entryMismatch (index : Nat) (missing unexpected : List KeyPath)
  | unresolved
  | tooManyRuns (total : Nat)
deriving DecidableEq

namespace FactorProblem

/-- Paths in the wording of a mismatch. -/
def pathList (paths : List KeyPath) : String :=
  "[" ++ ", ".intercalate (paths.map KeyPath.format) ++ "]"

/-- The name of an entry of the factor levels. -/
def entryName (index : Nat) : String :=
  "factor_levels[" ++ toString index ++ "]"

/-- The wording of a problem. -/
def message : FactorProblem → String
  | .atTop => Vocabulary.factor ++ " cannot be a top-level key of base_experiment"
  | .notAlone path => Vocabulary.factor ++ " must be the only key at " ++ path.format
  | .emptyLevels path =>
      "levels at " ++ path.format ++ " must be a non-empty list or range(...)"
  | .notRange path expression =>
      "levels at " ++ path.format ++ " must be a list or range(...), got '" ++ expression ++ "'"
  | .range path expression cause => cause.message expression ++ " at " ++ path.format
  | .markerInLevels path =>
      "levels at " ++ path.format ++ " must not contain " ++ Vocabulary.factor
  | .insideList path =>
      Vocabulary.factor ++ " inside a list is not supported (at " ++ path.format ++ ")"
  | .entryNotMap index => entryName index ++ " must be a mapping"
  | .entryHasMarker index => entryName index ++ " must not contain " ++ Vocabulary.factor
  | .entryMismatch index missing unexpected =>
      entryName index ++ " does not match the declared factors: missing " ++ pathList missing
        ++ ", unexpected " ++ pathList unexpected
  | .unresolved => Vocabulary.factor ++ " left unresolved after merging levels"
  | .tooManyRuns total =>
      "design expands to " ++ toString total ++ " runs, more than the limit of "
        ++ toString Vocabulary.maxRuns

end FactorProblem

end ExperimentSuite
