import ExperimentSuite.Experiment.Problem
import ExperimentSuite.Factor.Problem
import ExperimentSuite.Files.Path
import ExperimentSuite.Inclusion.Absorb
import ExperimentSuite.Placeholder.Engine

/-!
# Failures

A failure ends the compilation of one suite. Each kind has a short code for
machines and a wording for people that begins with the code.
-/

namespace ExperimentSuite

/-- Why a suite cannot be compiled. -/
inductive Failure where
  | schema (place : String) (problem : SchemaProblem)
  | duplicates (identifiers : List String)
  | factor (experiment : String) (problem : FactorProblem)
  | inclusion (problem : InclusionProblem)
  | template (place : String) (problem : PlaceholderProblem)
  /-- A pipeline names an experiment that the suite lacks. -/
  | unknownReference (place experiment : String)
  | file (path : String) (problem : FileProblem)
  /-- A file does not hold well-formed YAML. -/
  | malformed (path : String)

namespace Failure

/-- The short code of a failure. -/
def code : Failure → String
  | .schema .. => "schema_error"
  | .duplicates .. => "duplicate_identifiers"
  | .factor .. => "factor_mismatch"
  | .inclusion .. => "inclusion_error"
  | .template .. => "template_error"
  | .unknownReference .. => "reference_not_found"
  | .file .. => "io_error"
  | .malformed .. => "parse_error"

/-- What a failure says after its code. -/
def detail : Failure → String
  | .schema place problem => place ++ ": " ++ problem.message
  | .duplicates identifiers => ", ".intercalate identifiers
  | .factor experiment problem => "experiment " ++ experiment ++ ": " ++ problem.message
  | .inclusion problem => problem.message
  | .template place problem => place ++ ": " ++ problem.message
  | .unknownReference place experiment =>
      place ++ " references unknown experiment '" ++ experiment ++ "'"
  | .file path problem => path ++ ": " ++ problem.message
  | .malformed path => path

/-- The wording of a failure. -/
def message (f : Failure) : String :=
  f.code ++ ": " ++ f.detail

end Failure

end ExperimentSuite
