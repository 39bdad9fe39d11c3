import ExperimentSuite.Document.Basic
import ExperimentSuite.Json.Printer

/-!
# Values of YAML

A value of YAML is richer than a document: keys may be of any kind, numbers may
be infinite or undefined, and values may carry tags. Two keys of a mapping may
not be the same, where the order of entries does not matter and the float zeros
are one number. Turning a value into a document writes numeric and boolean keys
as text and a tagged value as a mapping with the tag as its key.
-/

namespace ExperimentSuite

namespace Yaml

/-- A float of YAML. -/
inductive Real where
  | finite (value : FiniteFloat)
  | infinite (negative : Bool)
  | undefined
deriving DecidableEq

/-- Whether two floats are one number; the undefined one is the same as itself. -/
def Real.same : Real → Real → Bool
  | .finite x, .finite y => x.agrees y
  | x, y => x == y

/-- A value of YAML. -/
inductive Value where
  | null
  | bool (value : Bool)
  | int (value : Int)
  | float (value : Real)
  | str (value : String)
  | sequence (items : List Value)
  | mapping (entries : List (Value × Value))
  | tagged (tag : String) (value : Value)

namespace Value

mutual

/-- Whether two values are the same. -/
def same : Value → Value → Bool
  | .null, .null => true
  | .bool a, .bool b => a == b
  | .int a, .int b => a == b
  | .float a, .float b => a.same b
  | .str a, .str b => a == b
  | .sequence as, .sequence bs => sameItems as bs
  | .mapping as, .mapping bs => as.length == bs.length && sameEntries as bs
  | .tagged t a, .tagged u b => t == u && same a b
  | _, _ => false

/-- Whether two lists hold the same values in order. -/
def sameItems : List Value → List Value → Bool
  | [], [] => true
  | a :: as, b :: bs => same a b && sameItems as bs
  | _, _ => false

/-- Whether every entry of the first list has the same entry in the second. -/
def sameEntries : List (Value × Value) → List (Value × Value) → Bool
  | [], _ => true
  | (k, v) :: rest, bs => bs.any (fun b => same k b.1 && same v b.2) && sameEntries rest bs

end

/-- Why a key has no text. -/
inductive KeyProblem where
  | notText
  | notFinite
deriving DecidableEq

/-- The text of a key. -/
def keyText : Value → Except KeyProblem String
  | .str s => .ok s
  | .bool b => .ok (if b then "true" else "false")
  | .int n => .ok (toString n)
  | .float (.finite x) => .ok (Json.floatLayout.text x)
  | .float _ => .error .notFinite
  | _ => .error .notText

mutual

/-- The document of a value. -/
def document : Value → Except KeyProblem Document
  | .null => .ok .null
  | .bool b => .ok (.bool b)
  | .int n => .ok (.int n)
  | .float (.finite x) => .ok (.num (.float x))
  | .float _ => .ok .null
  | .str s => .ok (.str s)
  | .sequence items => do return .list (← documentItems items)
  | .mapping entries => do return .ofFields (← documentFields entries)
  | .tagged tag value => do return .map [("!" ++ tag, ← document value)]

/-- The documents of items. -/
def documentItems : List Value → Except KeyProblem (List Document)
  | [] => .ok []
  | v :: rest => do
      let d ← document v
      return d :: (← documentItems rest)

/-- The fields of entries in the order of the text. -/
def documentFields : List (Value × Value) → Except KeyProblem (List (String × Document))
  | [] => .ok []
  | (k, v) :: rest => do
      let key ← keyText k
      let d ← document v
      return (key, d) :: (← documentFields rest)

end

end Value

end Yaml

end ExperimentSuite
