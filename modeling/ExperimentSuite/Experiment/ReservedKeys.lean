import ExperimentSuite.Failure

/-!
# Reserved keys in a configuration

Commands, suite variables, pipelines and inclusion markers have no meaning
inside the configuration of a run. The check runs after inclusion, so a marker
that is still there would never be replaced.
-/

namespace ExperimentSuite

namespace Document

mutual

/-- The places of reserved keys at or below a path, in order; list positions count as keys. -/
def reservedPlaces (path : KeyPath) : Document → List String
  | .map fields => reservedInFields path fields
  | .list items => reservedInItems path 0 items
  | _ => []

/-- The places of reserved keys in a list of fields. -/
def reservedInFields (path : KeyPath) : List (String × Document) → List String
  | [] => []
  | (key, d) :: rest =>
      let here := path ++ [key]
      (if Vocabulary.reservedKeys.contains key then [".".intercalate here] else [])
        ++ reservedPlaces here d ++ reservedInFields path rest

/-- The places of reserved keys in items from an index on. -/
def reservedInItems (path : KeyPath) (index : Nat) : List Document → List String
  | [] => []
  | d :: rest =>
      reservedPlaces (path ++ [toString index]) d ++ reservedInItems path (index + 1) rest

end

/-- Checks that a configuration holds no reserved key. -/
def checkReserved (experiment : String) (configuration : Document) : Except Failure Unit :=
  match reservedPlaces [] configuration with
  | [] => .ok ()
  | places => .error (.schema (experiment ++ ".base_experiment") (.reservedKeys places))

end Document

end ExperimentSuite
