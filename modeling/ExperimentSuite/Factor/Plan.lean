import ExperimentSuite.Factor.Problem

/-!
# Factor plans

A factor is a place in the configuration of an experiment that takes several
values. It is written either as a bare marker, whose levels the entries of the
factor levels supply, or as a mapping with the marker as its only key, whose
levels stand there and are crossed with one another. The plan of a configuration
lists both kinds and keeps the configuration with a bare marker at every factor.
-/

namespace ExperimentSuite

/-- A factor whose levels are crossed with those of the other ones. -/
structure CrossFactor where
  path : KeyPath
  levels : List Document

/-- What a configuration says about its factors. -/
structure FactorPlan where
  /-- The configuration with a bare marker at every factor. -/
  skeleton : Document
  /-- The places whose levels the entries supply. -/
  levelPaths : List KeyPath
  /-- The crossed factors in order. -/
  cross : List CrossFactor

namespace Document

mutual

/-- Whether the factor marker occurs as a text or as a key. -/
def hasMarker : Document → Bool
  | .str s => s == Vocabulary.factor
  | .list items => hasMarkerItems items
  | .map fields => hasMarkerFields fields
  | _ => false

/-- Whether the factor marker occurs in a list of documents. -/
def hasMarkerItems : List Document → Bool
  | [] => false
  | d :: rest => hasMarker d || hasMarkerItems rest

/-- Whether the factor marker occurs in a list of fields. -/
def hasMarkerFields : List (String × Document) → Bool
  | [] => false
  | (key, d) :: rest => key == Vocabulary.factor || hasMarker d || hasMarkerFields rest

end

end Document

namespace FactorPlan

/-- The greatest count; larger products stop there. -/
def maxCount : Nat := 0x10000000000000000 - 1

/-- A product that stops at the greatest count. -/
def saturatingMul (a b : Nat) : Nat :=
  min (a * b) maxCount

/-- The number of combinations of crossed levels. -/
def combinations (plan : FactorPlan) : Nat :=
  plan.cross.foldl (fun n factor => saturatingMul n factor.levels.length) 1

/-- The number of runs for a number of entries, before exclusions. -/
def runCount (plan : FactorPlan) (entries : Nat) : Nat :=
  saturatingMul entries plan.combinations

/-- The plan of a configuration without factors. -/
def constant (d : Document) : FactorPlan := ⟨d, [], []⟩

/-- The levels of a crossed factor, written as a list or a range expression. -/
def levelsAt (path : KeyPath) : Document → Except FactorProblem (List Document)
  | .list [] => .error (.emptyLevels path)
  | .list items => .ok items
  | .str expression =>
      match Range.parse expression with
      | none => .error (.notRange path expression)
      | some (.error cause) => .error (.range path expression cause)
      | some (.ok values) => .ok (values.map Document.int)
  | _ => .error (.emptyLevels path)

/-- The levels of a crossed factor, none of which holds a marker. -/
def crossLevels (path : KeyPath) (raw : Document) : Except FactorProblem (List Document) := do
  let levels ← levelsAt path raw
  if levels.any Document.hasMarker then throw (.markerInLevels path)
  return levels

/-- The plan of a mapping that holds the marker among its keys. -/
def crossed (path : KeyPath) (fields : List (String × Document)) (raw : Document) :
    Except FactorProblem FactorPlan := do
  if path.isEmpty then throw .atTop
  if fields.length ≠ 1 then throw (.notAlone path)
  let levels ← crossLevels path raw
  return ⟨.str Vocabulary.factor, [], [⟨path, levels⟩]⟩

mutual

/-- The plan of the part of a configuration at a path. -/
def extractAt (path : KeyPath) : Document → Except FactorProblem FactorPlan
  | .str s =>
      if s = Vocabulary.factor then .ok ⟨.str s, [path], []⟩ else .ok (constant (.str s))
  | .map fields =>
      match Keyed.find? Vocabulary.factor fields with
      | some raw => crossed path fields raw
      | none => do
          let (fields, levelPaths, cross) ← extractFields path fields
          return ⟨.map fields, levelPaths, cross⟩
  | .list items =>
      if Document.hasMarkerItems items then .error (.insideList path)
      else .ok (constant (.list items))
  | d => .ok (constant d)

/-- The plans of the fields of a mapping, one after the other. -/
def extractFields (path : KeyPath) : List (String × Document) →
    Except FactorProblem (List (String × Document) × List KeyPath × List CrossFactor)
  | [] => .ok ([], [], [])
  | (key, d) :: rest => do
      let first ← extractAt (path ++ [key]) d
      let (fields, levelPaths, cross) ← extractFields path rest
      return ((key, first.skeleton) :: fields, first.levelPaths ++ levelPaths, first.cross ++ cross)

end

/-- The plan of a configuration. -/
def extract (base : Document) : Except FactorProblem FactorPlan :=
  extractAt [] base

end FactorPlan

end ExperimentSuite
