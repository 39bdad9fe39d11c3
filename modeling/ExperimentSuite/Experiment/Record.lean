import ExperimentSuite.Json.Printer
import ExperimentSuite.Text.Quoted

/-!
# Records

A record is a mapping whose fields have fixed names and types. It is read field
by field: a name that it does not know is refused, a missing field takes its
default or is refused, and no value is converted to the type of its field. In
particular a count is written as an integer, so a whole number that is written
as a float is none.
-/

namespace ExperimentSuite

/-- Why a record cannot be read. -/
inductive RecordProblem where
  /-- A value is not of the type of its field. -/
  | wrongType (found : Document) (expected : String)
  | countOutOfRange (value : Int)
  | unknownField (key : String) (known : List String)
  | missingField (key : String)

namespace RecordProblem

/-- A value as a problem shows it. -/
def shown : Document → String
  | .null => "null"
  | .bool b => "boolean `" ++ toString b ++ "`"
  | .num (.int n) => "integer `" ++ toString n ++ "`"
  | .num (.float x) => "floating point `" ++ Json.floatLayout.text x ++ "`"
  | .str s => "string " ++ Text.quoted s
  | .list _ => "sequence"
  | .map _ => "map"

/-- A name as a problem shows it. -/
def named (key : String) : String := "`" ++ key ++ "`"

/-- The wording of a problem. -/
def message : RecordProblem → String
  | .wrongType found expected => "invalid type: " ++ shown found ++ ", expected " ++ expected
  | .countOutOfRange value => "invalid value: " ++ shown (.int value) ++ ", expected u32"
  | .unknownField key known =>
      "unknown field " ++ named key ++ ", expected one of " ++ ", ".intercalate (known.map named)
  | .missingField key => "missing field " ++ named key

end RecordProblem

namespace Record

variable {α : Type}

/-- A reader of a value. -/
abbrev Reader (α : Type) := Document → Except RecordProblem α

/-- Refuses the first field whose name is not among the known ones. -/
def checkNames (known : List String) : List (String × Document) → Except RecordProblem Unit
  | [] => .ok ()
  | (key, _) :: rest =>
      if known.contains key then checkNames known rest else .error (.unknownField key known)

/-- A field that must be there. -/
def required (key : String) (read : Reader α) (fields : List (String × Document)) :
    Except RecordProblem α :=
  match Keyed.find? key fields with
  | some d => read d
  | none => .error (.missingField key)

/-- A field that has a default. -/
def optional (key : String) (read : Reader α) (default : α) (fields : List (String × Document)) :
    Except RecordProblem α :=
  match Keyed.find? key fields with
  | some d => read d
  | none => .ok default

/-- The greatest count. -/
def maxCount : Int := 0x100000000 - 1

/-- A count: an integer of 32 bits. -/
def count : Reader Nat
  | .num (.int n) =>
      if 0 ≤ n ∧ n ≤ maxCount then .ok n.toNat else .error (.countOutOfRange n)
  | d => .error (.wrongType d "u32")

/-- A truth value. -/
def flag : Reader Bool
  | .bool b => .ok b
  | d => .error (.wrongType d "a boolean")

/-- One role or a list of roles. -/
def roles : Reader (List String)
  | .str role => .ok [role]
  | d@(.list items) =>
      match items.mapM Document.str? with
      | some roles => .ok roles
      | none => .error (.wrongType d "a role or a list of roles")
  | d => .error (.wrongType d "a role or a list of roles")

/-- The items of a list, whatever they are. -/
def items : Reader (List Document)
  | .list items => .ok items
  | d => .error (.wrongType d "a sequence")

/-- A mapping, each value read under its key. -/
def mapping (read : Reader α) : Reader (List (String × α))
  | .map fields => fields.mapM fun e => do return (e.1, ← read e.2)
  | d => .error (.wrongType d "a map")

end Record

end ExperimentSuite
