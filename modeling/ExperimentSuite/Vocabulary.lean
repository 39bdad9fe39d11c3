/-!
# Reserved words and limits

The keys with a meaning of their own in a design, the identifiers that no
project, suite, experiment or host type may take, and the bounds that keep a
design from growing without end.
-/

namespace ExperimentSuite

namespace Vocabulary

/-- Marks a factor of an experiment. -/
def factor : String := "$FACTOR$"

/-- Holds the commands of a host type, and in a run the commands of every host type. -/
def command : String := "$CMD$"

/-- Names the variable files whose content belongs at this place. -/
def inclusion : String := "$INCLUDE_VARS$"

/-- Holds the variables that every experiment of a suite inherits. -/
def suiteVars : String := "$SUITE_VARS$"

/-- Holds the pipelines that process the results of a suite. -/
def pipelines : String := "$ETL$"

/-- The command every host instance must have. -/
def mainCommand : String := "main"

/-- The name under which a run sees its own fields. -/
def runBinding : String := "my_run"

/-- Names of inventory groups and template variables, closed to identifiers. -/
def reservedIdentifiers : List String :=
  ["all", "ungrouped", "localhost", "prj_id", "suite", "exp_name", runBinding,
    "is_controller_yes", "is_controller_no", "check_status_yes", "check_status_no"]

/-- The keys that may not occur in the configuration of a run. -/
def reservedKeys : List String :=
  [command, suiteVars, pipelines, inclusion]

/-- The longest identifier, in bytes. -/
def maxIdentifierBytes : Nat := 200

/-- The most inclusion markers that are followed in one document. -/
def maxInclusionRounds : Nat := 100

/-- The most levels of one range expression. -/
def maxRangeLevels : Nat := 100000

/-- The most instances of one host type. -/
def maxHostInstances : Nat := 10000

/-- The most runs of one experiment before exclusions. -/
def maxRuns : Nat := 1000000

/-- The most rounds of placeholder resolution. -/
def maxPlaceholderRounds : Nat := 100

end Vocabulary

end ExperimentSuite
