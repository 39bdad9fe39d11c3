import ExperimentSuite.Json.Printer

/-!
# Violations of the shape of an experiment

A violation names a place in an experiment and what is wrong with the value
there. Places are written as JSON pointers and values as compact JSON.
-/

namespace ExperimentSuite

/-- What is wrong with a value. -/
inductive ShapeProblem where
  | wrongType (value : Document) (expected : String)
  | missingKey (key : String)
  | belowMinimum (value : Document) (least : Nat)
  | aboveMaximum (value : Document) (greatest : Nat)
  | tooFewFields (value : Document)
  | noAlternative (value : Document)
  | unexpectedKeys (keys : List String)

namespace ShapeProblem

/-- A key between single quotes. -/
def quoted (key : String) : String := "'" ++ key ++ "'"

/-- The wording of a problem. -/
def message : ShapeProblem → String
  | .wrongType value expected => value.json ++ " is not of type " ++ Json.quote expected
  | .missingKey key => Json.quote key ++ " is a required property"
  | .belowMinimum value least =>
      value.json ++ " is less than the minimum of " ++ toString least
  | .aboveMaximum value greatest =>
      value.json ++ " is greater than the maximum of " ++ toString greatest
  | .tooFewFields value => value.json ++ " has less than 1 property"
  | .noAlternative value =>
      value.json ++ " is not valid under any of the schemas listed in the 'oneOf' keyword"
  | .unexpectedKeys keys =>
      "Additional properties are not allowed (" ++ ", ".intercalate (keys.map quoted)
        ++ (if keys.length = 1 then " was unexpected)" else " were unexpected)")

end ShapeProblem

/-- A place in an experiment and what is wrong there. -/
structure Violation where
  place : List String
  problem : ShapeProblem

namespace Violation

/-- A key as a step of a JSON pointer. -/
def pointerStep (key : String) : String :=
  "/" ++ String.ofList (key.toList.flatMap fun c =>
    if c = '~' then ['~', '0'] else if c = '/' then ['~', '1'] else [c])

/-- The JSON pointer of a place; the root is a single slash. -/
def pointer : List String → String
  | [] => "/"
  | place => String.join (place.map pointerStep)

/-- The line that reports a violation. -/
def line (v : Violation) : String :=
  "  - " ++ pointer v.place ++ ": " ++ v.problem.message

end Violation

end ExperimentSuite
