import ExperimentSuite.Experiment.Command
import ExperimentSuite.Experiment.Identifiers
import ExperimentSuite.Experiment.ReservedKeys
import ExperimentSuite.Experiment.Spec
import ExperimentSuite.Factor.Levels
import ExperimentSuite.Inclusion.Marker

/-!
# Preparing a suite

Preparation checks and normalises everything in a design that does not depend
on single runs. The design is taken apart into variables, pipelines and
experiments; every experiment is parsed and its names are checked; then the
markers are replaced, the experiments absorb the variables of the suite, their
factors are extracted and their commands normalised.
-/

namespace ExperimentSuite

/-- What a suite is prepared against. -/
structure SuiteContext where
  project : String
  suite : String
  registry : Registry
  /-- The content of a file of variables. -/
  loadVariables : String → Except Failure Document

/-- An experiment whose inclusions are applied and whose commands are in normal form. -/
structure PreparedExperiment where
  spec : Experiment
  plan : FactorPlan

/-- A suite that is ready to be expanded. -/
structure PreparedSuite where
  project : String
  suite : String
  vars : Document
  pipelines : Option Document
  experiments : List (String × PreparedExperiment)

/-- The parts of a design. -/
structure Sections where
  vars : Document
  pipelines : Option Document
  experiments : List (String × Document)

namespace Sections

/-- Sorts one field of a design into its section. -/
def add (parts : Sections) (field : String × Document) : Except Failure Sections :=
  let (key, value) := field
  if key = Vocabulary.suiteVars then
    if value.isMap then .ok { parts with vars := value }
    else .error (.schema key .notMap)
  else if key = Vocabulary.pipelines then
    if value.isMap then .ok { parts with pipelines := some value }
    else .error (.schema key .notMap)
  else if key.toList.head? = some '$' then .error (.schema key .unknownReservedKey)
  else .ok { parts with experiments := parts.experiments ++ [(key, value)] }

/-- The sections of a design, which has at least one experiment. -/
def ofDesign (suite : String) : Document → Except Failure Sections
  | .map fields => do
      let parts ← fields.foldlM add ⟨.empty, none, []⟩
      if parts.experiments.isEmpty then throw (.schema suite .noExperiment)
      return parts
  | _ => .error (.schema suite .suiteNotMap)

end Sections

namespace Pipelines

/-- Checks that one reference names an experiment. -/
def checkReference (place : String) (experiments : List String) (d : Document) :
    Except Failure Unit :=
  match d with
  | .str name =>
      if experiments.contains name then .ok () else .error (.unknownReference place name)
  | _ => .error (.schema (place ++ ".experiments") .referenceNotText)

/-- Checks one pipeline. -/
def checkPipeline (experiments : List String) (pipeline : String × Document) :
    Except Failure Unit :=
  let place := Vocabulary.pipelines ++ "." ++ pipeline.1
  match pipeline.2.field? "experiments" with
  | none => .error (.schema place .noReferences)
  | some (.str s) =>
      if s = "*" then .ok () else .error (.schema (place ++ ".experiments") .referencesShape)
  | some (.list references) => references.forM (checkReference place experiments)
  | some _ => .error (.schema (place ++ ".experiments") .referencesShape)

/-- Checks that every pipeline names the experiments it consumes. -/
def check (experiments : List String) (pipelines : Document) : Except Failure Unit :=
  match pipelines with
  | .map fields => fields.forM (checkPipeline experiments)
  | _ => .error (.schema Vocabulary.pipelines .notMap)

end Pipelines

namespace PreparedExperiment

/-- Normalises the commands of one host type. -/
def normalizeHost (host : String × HostType) : Except Failure (String × HostType) := do
  let commands ← Command.normalize host.1 host.2.instances host.2.commands
  return (host.1, { host.2 with commands := .list commands })

/-- Prepares one experiment with the variables of its suite. -/
def prepare (load : String → Except Failure Document) (vars : Document) (name : String)
    (spec : Experiment) : Except Failure PreparedExperiment := do
  let (own, _) ← Inclusion.resolve load spec.configuration
  let (configuration, _) ← (own.absorb vars).mapError Failure.inclusion
  configuration.checkReserved name
  let plan ← (FactorPlan.extract configuration).mapError (Failure.factor name)
  (FactorLevels.check plan.levelPaths spec.factorLevels).mapError (Failure.factor name)
  let hostTypes ← spec.hostTypes.mapM normalizeHost
  return ⟨{ spec with configuration, hostTypes }, plan⟩

/-- The commands of every host type, as each run carries them. -/
def commands (e : PreparedExperiment) : Document :=
  .map (Keyed.mapValues HostType.commands e.spec.hostTypes)

end PreparedExperiment

namespace PreparedSuite

/-- Parses the experiments of a design. -/
def parseAll (experiments : List (String × Document)) :
    Except Failure (List (String × Experiment)) :=
  experiments.mapM fun (name, raw) => do return (name, ← Experiment.parse name raw)

/-- The names of a suite with parsed experiments. -/
def identifiers (context : SuiteContext) (specs : List (String × Experiment)) : Identifiers :=
  { project := context.project
    suite := context.suite
    experiments := Keyed.keys specs
    hostTypes := specs.flatMap fun e => Keyed.keys e.2.hostTypes }

/-- Checks and normalises a design. -/
def prepare (context : SuiteContext) (design : Document) : Except Failure PreparedSuite := do
  let parts ← Sections.ofDesign context.suite design
  let specs ← parseAll parts.experiments
  (identifiers context specs).check
  specs.forM fun (name, spec) => context.registry.check name spec
  match parts.pipelines with
  | some pipelines => Pipelines.check (Keyed.keys specs) pipelines
  | none => pure ()
  let (vars, _) ← Inclusion.resolve context.loadVariables parts.vars
  let experiments ← specs.mapM fun (name, spec) => do
    return (name, ← PreparedExperiment.prepare context.loadVariables vars name spec)
  return ⟨context.project, context.suite, vars, parts.pipelines, experiments⟩

/-- The design after preparation, before any factor is expanded. -/
def document (s : PreparedSuite) : Document :=
  let experiments := s.experiments.map fun (name, e) => (name, e.spec.document)
  let vars := match s.vars with
    | .map (field :: rest) => [(Vocabulary.suiteVars, Document.map (field :: rest))]
    | _ => []
  let pipelines := match s.pipelines with
    | some d => [(Vocabulary.pipelines, d)]
    | none => []
  .ofFields (experiments ++ vars ++ pipelines)

end PreparedSuite

end ExperimentSuite
