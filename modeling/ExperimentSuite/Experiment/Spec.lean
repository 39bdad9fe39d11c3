import ExperimentSuite.Experiment.Shape
import ExperimentSuite.Failure

/-!
# Experiments

An experiment after its shape has been checked and its defaults filled in. A
missing count is one, host instances are checked unless told otherwise, and an
experiment without factor levels has one empty entry. Every host type and every
role that an experiment names must be in the registry of its project; the check
reports all missing entries at once.
-/

namespace ExperimentSuite

/-- A host type of an experiment. -/
structure HostType where
  instances : Nat
  checkStatus : Bool
  initRoles : List String
  commands : Document

/-- An experiment with every field present. -/
structure Experiment where
  repetitions : Nat
  commonRoles : List String
  hostTypes : List (String × HostType)
  configuration : Document
  factorLevels : List Document
  exceptFilters : List Document

namespace HostType

/-- The names of the fields of a host type. -/
def fieldNames : List String := ["n", "check_status", "init_roles", Vocabulary.command]

/-- A host type from a document. -/
def read : Record.Reader HostType
  | .map fields => do
      Record.checkNames fieldNames fields
      let commands ← Record.required Vocabulary.command .ok fields
      let checkStatus ← Record.optional "check_status" Record.flag true fields
      let initRoles ← Record.optional "init_roles" Record.roles [] fields
      let instances ← Record.optional "n" Record.count 1 fields
      return { instances, checkStatus, initRoles, commands }
  | d => .error (.wrongType d "a host type")

/-- A host type as a document. -/
def document (h : HostType) : Document :=
  .ofFields
    [("n", .nat h.instances), ("check_status", .bool h.checkStatus),
      ("init_roles", .list (h.initRoles.map .str)), (Vocabulary.command, h.commands)]

end HostType

namespace Experiment

/-- The names of the fields of an experiment. -/
def fieldNames : List String :=
  ["n_repetitions", "common_roles", "host_types", "base_experiment", "factor_levels",
    "except_filters"]

/-- The entries of an experiment: without any there is one that is empty. -/
def entriesOf (entries : List Document) : List Document :=
  if entries.isEmpty then [.empty] else entries

/-- An experiment from a document. -/
def read : Record.Reader Experiment
  | .map fields => do
      Record.checkNames fieldNames fields
      let configuration ← Record.required "base_experiment" .ok fields
      let commonRoles ← Record.optional "common_roles" Record.roles [] fields
      let exceptFilters ← Record.optional "except_filters" Record.items [] fields
      let entries ← Record.optional "factor_levels" Record.items [] fields
      let hostTypes ← Record.required "host_types" (Record.mapping HostType.read) fields
      let repetitions ← Record.optional "n_repetitions" Record.count 1 fields
      return { repetitions, commonRoles, hostTypes, configuration, exceptFilters
               factorLevels := entriesOf entries }
  | d => .error (.wrongType d "an experiment")

/-- Checks the shape of a raw experiment and reads it. -/
def parse (name : String) (raw : Document) : Except Failure Experiment :=
  match Shape.experiment [] raw with
  | [] => (read raw).mapError fun cause => .schema name (.unreadable cause)
  | found => .error (.schema name (.violations found))

/-- An experiment as a document. -/
def document (e : Experiment) : Document :=
  .ofFields
    [("n_repetitions", .nat e.repetitions), ("common_roles", .list (e.commonRoles.map .str)),
      ("host_types", .ofFields (Keyed.mapValues HostType.document e.hostTypes)),
      ("base_experiment", e.configuration), ("factor_levels", .list e.factorLevels),
      ("except_filters", .list e.exceptFilters)]

end Experiment

/-- The known host types and roles, each in increasing order. -/
structure Registry where
  hostTypes : List String
  roles : List String

namespace Registry

/-- A registry from names in any order. -/
def ofNames (hostTypes roles : List String) : Registry :=
  ⟨Ascending.ofList hostTypes, Ascending.ofList roles⟩

/-- Whether a host type is known. -/
def hasHostType (r : Registry) (name : String) : Bool := r.hostTypes.contains name

/-- Whether a role is known. -/
def hasRole (r : Registry) (name : String) : Bool := r.roles.contains name

/-- What one host type of an experiment misses. -/
def missingOfHost (r : Registry) (host : String × HostType) : List MissingEntry :=
  (if r.hasHostType host.1 then [] else [.hostType host.1])
    ++ (host.2.initRoles.filter fun role => !r.hasRole role).map (.initRole · host.1)

/-- What an experiment misses, host types first. -/
def missing (r : Registry) (e : Experiment) : List MissingEntry :=
  e.hostTypes.flatMap r.missingOfHost
    ++ (e.commonRoles.filter fun role => !r.hasRole role).map .commonRole

/-- Checks that nothing an experiment names is missing. -/
def check (r : Registry) (name : String) (e : Experiment) : Except Failure Unit :=
  match r.missing e with
  | [] => .ok ()
  | missing => .error (.schema name (.registry missing))

end Registry

end ExperimentSuite
