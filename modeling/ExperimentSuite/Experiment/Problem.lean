import ExperimentSuite.Experiment.Record
import ExperimentSuite.Experiment.Violation
import ExperimentSuite.Document.Path
import ExperimentSuite.Vocabulary

/-!
# Problems with the shape of a design

Every way in which a design, one of its parts or a document read from a file
can have the wrong shape.
-/

namespace ExperimentSuite

/-- A host type or role that an experiment names and the registry lacks. -/
inductive MissingEntry where
  | hostType (name : String)
  | initRole (role hostType : String)
  | commonRole (role : String)
deriving DecidableEq

/-- The wording of a missing entry. -/
def MissingEntry.message : MissingEntry → String
  | .hostType name => "host type '" ++ name ++ "' has no group vars"
  | .initRole role host =>
      "init role '" ++ role ++ "' of host type '" ++ host ++ "' not found"
  | .commonRole role => "common role '" ++ role ++ "' not found"

/-- Why a design has the wrong shape. -/
inductive SchemaProblem where
  | violations (found : List Violation)
  /-- The shape is right, but a field cannot be read. -/
  | unreadable (cause : RecordProblem)
  | registry (missing : List MissingEntry)
  | reservedKeys (places : List String)
  | identifierLength (identifier : String)
  | nameLength
  | nameCharacters
  | tooManyInstances (count : Nat)
  | commandCount (found expected : Nat)
  | noMainCommand
  | commandNotText
  | commandShape (found : Document)
  | configurationNotMap
  | blocked (path : KeyPath) (place : Document.Blocked)
  | suiteNotMap
  | notMap
  | unknownReservedKey
  | noExperiment
  | noReferences
  | referenceNotText
  | referencesShape
  /-- A mapping read from a file has a key that is no text. -/
  | keyNotText
  /-- A mapping read from a file has an infinite or undefined number as a key. -/
  | keyNotFinite

namespace SchemaProblem

/-- A heading followed by one line for each item. -/
def listing (heading : String) (lines : List String) : String :=
  heading ++ "\n" ++ "\n".intercalate lines

/-- The wording of a problem. -/
def message : SchemaProblem → String
  | .violations found =>
      listing "experiment does not match schema:" (found.map Violation.line)
  | .unreadable cause => cause.message
  | .registry missing =>
      listing "unknown registry entries:" (missing.map fun m => "  - " ++ m.message)
  | .reservedKeys places =>
      "reserved keys are not allowed here: " ++ ", ".intercalate places
  | .identifierLength identifier =>
      "'" ++ identifier ++ "' must be 1..=" ++ toString Vocabulary.maxIdentifierBytes
        ++ " characters long"
  | .nameLength => "name exceeds " ++ toString Vocabulary.maxIdentifierBytes ++ " characters"
  | .nameCharacters => "name must only contain [A-Za-z0-9_]"
  | .tooManyInstances count =>
      "n=" ++ toString count ++ " exceeds the limit of " ++ toString Vocabulary.maxHostInstances
        ++ " instances"
  | .commandCount found expected =>
      "command list has " ++ toString found ++ " entries but host type has n="
        ++ toString expected
  | .noMainCommand => "command mapping must contain '" ++ Vocabulary.mainCommand ++ "'"
  | .commandNotText => "commands must be strings"
  | .commandShape found => "command must be a string or a mapping, got " ++ found.json
  | .configurationNotMap => "base_experiment must be a mapping"
  | .blocked path place => place.message path
  | .suiteNotMap => "suite design must be a mapping"
  | .notMap => "must be a mapping"
  | .unknownReservedKey =>
      "unknown reserved key at suite level (allowed: " ++ Vocabulary.suiteVars ++ ", "
        ++ Vocabulary.pipelines ++ ")"
  | .noExperiment => "suite must define at least one experiment"
  | .noReferences => "missing 'experiments'"
  | .referenceNotText => "experiment references must be strings"
  | .referencesShape => "must be \"*\" or a list of experiment names"
  | .keyNotText => "key must be a string"
  | .keyNotFinite => "float key must be finite (got NaN or +/-inf)"

end SchemaProblem

end ExperimentSuite
