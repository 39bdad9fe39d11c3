import ExperimentSuite.Document.Merge
import ExperimentSuite.Factor.Levels
import ExperimentSuite.Factor.Plan
import ExperimentSuite.Failure

/-!
# Expansion into runs

A fragment is a sparse document that holds one level of every crossed factor.
The grid lists the fragments of all combinations, the last factor varying
fastest; without factors it is the one empty fragment. An experiment expands into
one run for every entry of its factor levels and every fragment of its grid: the
fragment and then the entry are laid over the skeleton and the commands are
attached. Runs that contain an exclusion filter are dropped. A design with too
many runs is refused before any is built.
-/

namespace ExperimentSuite

namespace FactorGrid

/-- A level that cannot be written because another factor's value stands in its way. -/
structure Conflict where
  path : KeyPath
  blocked : Document.Blocked

/-- The fragments that extend a fragment by one level of each further factor. -/
def extend : List CrossFactor → Document → Except Conflict (List Document)
  | [], fragment => .ok [fragment]
  | factor :: rest, fragment => do
      let parts ← factor.levels.mapM fun level =>
        match fragment.set factor.path level with
        | .ok extended => extend rest extended
        | .error blocked => .error ⟨factor.path, blocked⟩
      return parts.flatten

/-- The fragments of all combinations of levels. -/
def fragments (factors : List CrossFactor) : Except Conflict (List Document) :=
  extend factors .empty

end FactorGrid

namespace Expansion

/-- The run of one entry and one fragment, with the commands attached. -/
def build (experiment : String) (skeleton commands fragment entry : Document) :
    Except Failure Document :=
  let merged := (skeleton.merge fragment).merge entry
  if merged.hasMarker then .error (.factor experiment .unresolved)
  else
    match merged with
    | .map fields => .ok (.map (Keyed.insert Vocabulary.command commands fields))
    | _ => .error (.schema (experiment ++ ".base_experiment") .configurationNotMap)

/-- Whether a run contains one of the filters. -/
def isExcluded (filters : List Document) (run : Document) : Bool :=
  filters.any fun filter => run.contains filter

/-- The runs of all entries, each with all fragments. -/
def buildAll (experiment : String) (skeleton commands : Document) (fragments : List Document) :
    List Document → Except Failure (List Document)
  | [] => .ok []
  | entry :: rest => do
      let runs ← fragments.mapM fun fragment =>
        build experiment skeleton commands fragment entry
      let others ← buildAll experiment skeleton commands fragments rest
      return runs ++ others

/-- The runs of an experiment. -/
def runs (experiment : String) (plan : FactorPlan) (entries filters : List Document)
    (commands : Document) : Except Failure (List Document) := do
  (FactorLevels.check plan.levelPaths entries).mapError (Failure.factor experiment)
  let total := plan.runCount entries.length
  if Vocabulary.maxRuns < total then throw (.factor experiment (.tooManyRuns total))
  let fragments ← (FactorGrid.fragments plan.cross).mapError fun conflict =>
    Failure.schema conflict.path.format (.blocked conflict.path conflict.blocked)
  let built ← buildAll experiment plan.skeleton commands fragments entries
  return built.filter fun run => !isExcluded filters run

end Expansion

end ExperimentSuite
