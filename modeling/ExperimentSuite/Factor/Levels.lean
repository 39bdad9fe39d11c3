import ExperimentSuite.Factor.Plan

/-!
# Entries of the factor levels

An entry supplies one level for every factor that is written as a bare marker
and sets nothing else. A level may be a mapping, so the paths of an entry stop
at the declared factors before they reach the leaves.
-/

namespace ExperimentSuite

namespace FactorLevels

mutual

/-- The paths that an entry sets below a place: a declared factor ends a path, and so does a
leaf. -/
def pathsAt (factors : List KeyPath) (path : KeyPath) : Document → List KeyPath
  | .map (field :: rest) =>
      if path ≠ [] ∧ path ∈ factors then [path] else pathsIn factors path (field :: rest)
  | .map [] => if path = [] then [] else [path]
  | _ => [path]

/-- The paths that an entry sets in a list of fields. -/
def pathsIn (factors : List KeyPath) (path : KeyPath) : List (String × Document) → List KeyPath
  | [] => []
  | (key, d) :: rest => pathsAt factors (path ++ [key]) d ++ pathsIn factors path rest

end

/-- Checks one entry against the distinct factor paths in increasing order. -/
def checkEntry (expected : List KeyPath) (index : Nat) (entry : Document) :
    Except FactorProblem Unit :=
  if !entry.isMap then .error (.entryNotMap index)
  else if entry.hasMarker then .error (.entryHasMarker index)
  else
    let actual := Ascending.ofList (pathsAt expected [] entry)
    let missing := Ascending.difference expected actual
    let unexpected := Ascending.difference actual expected
    if missing.isEmpty && unexpected.isEmpty then .ok ()
    else .error (.entryMismatch index missing unexpected)

/-- Checks entries from an index on; the first offending one decides. -/
def checkFrom (expected : List KeyPath) : Nat → List Document → Except FactorProblem Unit
  | _, [] => .ok ()
  | index, entry :: rest => do
      checkEntry expected index entry
      checkFrom expected (index + 1) rest

/-- Checks that every entry sets exactly the declared factors. -/
def check (levelPaths : List KeyPath) (entries : List Document) : Except FactorProblem Unit :=
  checkFrom (Ascending.ofList levelPaths) 0 entries

end FactorLevels

end ExperimentSuite
