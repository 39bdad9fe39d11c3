import ExperimentSuite.Experiment.Violation
import ExperimentSuite.Vocabulary

/-!
# The shape of an experiment

The rules that the fields of an experiment obey before anything else looks at
them. Checking collects every violation: fields are visited in key order, then
unexpected keys are reported, then missing ones. A value of the wrong type is
reported for that alone.
-/

namespace ExperimentSuite

namespace Shape

/-- A check of one value at a place. -/
abbrev Check := List String → Document → List Violation

/-- Whether a number has no fraction. -/
def isWhole : Number → Bool
  | .int _ => true
  | .float x => x.isWhole

/-- Whether a number lies below a bound. -/
def isBelow (bound : Nat) : Number → Bool
  | .int n => decide (n < (bound : Int))
  | .float x => decide (x.toFloat < bound.toFloat)

/-- Whether a number lies above a bound. -/
def isAbove (bound : Nat) : Number → Bool
  | .int n => decide ((bound : Int) < n)
  | .float x => decide (bound.toFloat < x.toFloat)

/-- A whole number of at least one and at most a bound, if there is one. -/
def count (most : Option Nat) : Check := fun place d =>
  match d with
  | .num n =>
      let above := match most with
        | some most => if isAbove most n then [⟨place, .aboveMaximum d most⟩] else []
        | none => []
      let below := if isBelow 1 n then [⟨place, .belowMinimum d 1⟩] else []
      let kind := if isWhole n then [] else [⟨place, .wrongType d "integer"⟩]
      above ++ below ++ kind
  | _ => [⟨place, .wrongType d "integer"⟩]

/-- A truth value. -/
def boolean : Check := fun place d =>
  match d with
  | .bool _ => []
  | _ => [⟨place, .wrongType d "boolean"⟩]

/-- A mapping. -/
def mapping : Check := fun place d =>
  if d.isMap then [] else [⟨place, .wrongType d "object"⟩]

/-- The violations of items, each at its index. -/
def itemsFrom (check : Check) (place : List String) : Nat → List Document → List Violation
  | _, [] => []
  | index, d :: rest =>
      check (place ++ [toString index]) d ++ itemsFrom check place (index + 1) rest

/-- A list whose items pass a check. -/
def listOf (check : Check) : Check := fun place d =>
  match d with
  | .list items => itemsFrom check place 0 items
  | _ => [⟨place, .wrongType d "array"⟩]

/-- Whether a document is a text. -/
def isText (d : Document) : Bool := d.str?.isSome

/-- Whether a document is one role or a list of roles. -/
def isRoles : Document → Bool
  | .str _ => true
  | .list items => items.all isText
  | _ => false

/-- Whether a document is one command: a text, or a mapping of texts with a main command. -/
def isCommand : Document → Bool
  | .str _ => true
  | .map fields =>
      Keyed.hasKey Vocabulary.mainCommand fields && fields.all fun f => isText f.2
  | _ => false

/-- Whether a document is one command or a list of at least one. -/
def isCommands : Document → Bool
  | .list items => !items.isEmpty && items.all isCommand
  | d => isCommand d

/-- A value of which one alternative must hold. -/
def oneOf (holds : Document → Bool) : Check := fun place d =>
  if holds d then [] else [⟨place, .noAlternative d⟩]

/-- A mapping with known keys only, of which some are required. -/
def record (known : List (String × Check)) (required : List String) : Check := fun place d =>
  match d with
  | .map fields =>
      let inFields := fields.flatMap fun (key, value) =>
        match known.lookup key with
        | some check => check (place ++ [key]) value
        | none => []
      let unexpected := (Keyed.keys fields).filter fun key => (known.lookup key).isNone
      let extra := if unexpected.isEmpty then [] else [⟨place, .unexpectedKeys unexpected⟩]
      let missing := (required.filter fun key => !Keyed.hasKey key fields).map fun key =>
        (⟨place, .missingKey key⟩ : Violation)
      inFields ++ extra ++ missing
  | _ => [⟨place, .wrongType d "object"⟩]

/-- A host type. -/
def hostType : Check :=
  record
    [(Vocabulary.command, oneOf isCommands), ("check_status", boolean),
      ("init_roles", oneOf isRoles), ("n", count (some Vocabulary.maxHostInstances))]
    [Vocabulary.command]

/-- A mapping of at least one host type. -/
def hostTypes : Check := fun place d =>
  match d with
  | .map [] => [⟨place, .tooFewFields d⟩]
  | .map fields => fields.flatMap fun (key, value) => hostType (place ++ [key]) value
  | _ => [⟨place, .wrongType d "object"⟩]

/-- An experiment. -/
def experiment : Check :=
  record
    [("base_experiment", mapping), ("common_roles", oneOf isRoles),
      ("except_filters", listOf mapping), ("factor_levels", listOf mapping),
      ("host_types", hostTypes), ("n_repetitions", count none)]
    ["host_types", "base_experiment"]

end Shape

end ExperimentSuite
