import ExperimentSuite.Decimal.Shortest
import ExperimentSuite.Template.Value
import ExperimentSuite.Text.Quoted

/-!
# The text of values

A value that stands alone is written plainly: a text as it is, a float with all
of its digits. Inside a list or mapping texts are quoted, and large and small
floats have an exponent.
-/

namespace ExperimentSuite

namespace Template

namespace Value

/-- The layout of a float that stands alone. -/
def plainLayout : FloatLayout := ⟨-400, 400, false⟩

/-- The layout of a float inside a collection. -/
def innerLayout : FloatLayout := ⟨-4, 15, false⟩

/-- The text of a float, which may be infinite or no number. -/
def floatText (layout : FloatLayout) (x : Float) : String :=
  match FiniteFloat.ofFloat? x with
  | some x => layout.text x
  | none => if x.isNaN then "NaN" else if x < 0 then "-inf" else "inf"

/-- The texts of the constants. -/
def boolText (b : Bool) : String := if b then "True" else "False"

mutual

/-- The text of a value inside a collection. -/
def innerText : Value → String
  | .undefined _ => "undefined"
  | .null => "None"
  | .bool b => boolText b
  | .int n => toString n
  | .float x => floatText innerLayout x
  | .str s => Text.quoted s
  | .list items => "[" ++ ", ".intercalate (itemTexts items) ++ "]"
  | .map entries => "\x7b" ++ ", ".intercalate (entryTexts entries) ++ "\x7d"

/-- The texts of items. -/
def itemTexts : List Value → List String
  | [] => []
  | v :: rest => innerText v :: itemTexts rest

/-- The texts of entries. -/
def entryTexts : List (Value × Value) → List String
  | [] => []
  | (k, v) :: rest => (innerText k ++ ": " ++ innerText v) :: entryTexts rest

end

/-- The text of a value that stands alone. -/
def text : Value → String
  | .undefined _ => ""
  | .float x => floatText plainLayout x
  | .str s => s
  | v => innerText v

end Value

end Template

end ExperimentSuite
