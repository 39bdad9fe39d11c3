import ExperimentSuite.Digest.Sha256
import ExperimentSuite.Factor.Expansion
import ExperimentSuite.Placeholder.Resolution
import ExperimentSuite.Suite.Preparation

/-!
# Compiling a suite

Compilation expands the selected experiments of a prepared suite and resolves
the placeholders of every run. A failing run fails the suite and is named by its
experiment and its position.
-/

namespace ExperimentSuite

/-- How a suite is compiled. -/
structure CompileOptions where
  /-- The engine that resolves placeholders. -/
  engine : Engine
  /-- Whether an experiment is selected by its name. -/
  selects : String → Bool
  /-- The variables that sources may refer to besides the run. -/
  vars : List (String × Document)

/-- The runs of the selected experiments. -/
structure CompiledSuite where
  suite : String
  runs : List (String × List Document)

namespace CompiledSuite

/-- The run lists as a document. -/
def document (s : CompiledSuite) : Document :=
  .map (Keyed.mapValues Document.list s.runs)

/-- The digest of the run lists. -/
def digest (s : CompiledSuite) : String := s.document.digest

/-- The number of runs. -/
def runCount (s : CompiledSuite) : Nat :=
  s.runs.foldl (fun n e => n + e.2.length) 0

end CompiledSuite

namespace Compilation

/-- Adds a variable unless it is given. -/
def addDefault (vars : List (String × Document)) (default : String × String) :
    List (String × Document) :=
  if Keyed.hasKey default.1 vars then vars
  else Keyed.insert default.1 (.str default.2) vars

/-- The variables of an experiment: those given, and the names of its surroundings. -/
def variablesOf (project suite experiment : String) (given : List (String × Document)) :
    List (String × Document) :=
  [("prj_id", project), ("suite", suite), ("exp_name", experiment)].foldl addDefault given

/-- A failure of a run under the name of its experiment. -/
def nameRun (experiment : String) (index : Nat) : Failure → Failure
  | .template place problem =>
      .template (experiment ++ "[" ++ toString index ++ "]." ++ place) problem
  | failure => failure

/-- Resolves runs from an index on. -/
def resolveFrom (engine : Engine) (vars : List (String × Document)) (experiment : String) :
    Nat → List Document → Except Failure (List Document)
  | _, [] => .ok []
  | index, run :: rest => do
      let first ← (Resolution.resolve engine vars run).mapError (nameRun experiment index)
      let others ← resolveFrom engine vars experiment (index + 1) rest
      return first :: others

/-- The resolved runs of one experiment. -/
def experimentRuns (s : PreparedSuite) (options : CompileOptions) (name : String)
    (e : PreparedExperiment) : Except Failure (List Document) := do
  let expanded ← Expansion.runs name e.plan e.spec.factorLevels e.spec.exceptFilters e.commands
  resolveFrom options.engine (variablesOf s.project s.suite name options.vars) name 0 expanded

end Compilation

/-- Expands and resolves the selected experiments. -/
def PreparedSuite.expand (s : PreparedSuite) (options : CompileOptions) :
    Except Failure CompiledSuite := do
  let selected := s.experiments.filter fun e => options.selects e.1
  let runs ← selected.mapM fun (name, e) => do
    return (name, ← Compilation.experimentRuns s options name e)
  return ⟨s.suite, runs⟩

/-- Prepares a design and expands it. -/
def CompiledSuite.compile (context : SuiteContext) (options : CompileOptions)
    (design : Document) : Except Failure CompiledSuite := do
  (← PreparedSuite.prepare context design).expand options

end ExperimentSuite
