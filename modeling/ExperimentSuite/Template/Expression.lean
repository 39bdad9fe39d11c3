import ExperimentSuite.Document.Path
import ExperimentSuite.Template.Value

/-!
# Expressions of templates

The expressions that stand inside tags. Filters, tests and functions are known
by their names and are looked up only when they are used.
-/

namespace ExperimentSuite

namespace Template

/-- Operators whose operands are both evaluated. -/
inductive Operator where
  | add
  | subtract
  | multiply
  | divide
  | floorDivide
  | remainder
  | power
  | concat
deriving DecidableEq

/-- Comparisons. -/
inductive Comparison where
  | equal
  | unequal
  | less
  | atMost
  | greater
  | atLeast
  | among
  | notAmong
deriving DecidableEq

/-- An expression of a template. -/
inductive Expression where
  | constant (value : Value)
  | lookup (name : String)
  | list (items : List Expression)
  | map (entries : List (Expression × Expression))
  | negate (e : Expression)
  | not (e : Expression)
  | operate (op : Operator) (left right : Expression)
  | and (left right : Expression)
  | or (left right : Expression)
  /-- A chain of comparisons, each with the operand of the one before. -/
  | compare (first : Expression) (rest : List (Comparison × Expression))
  | choose (condition yes : Expression) (no : Option Expression)
  | field (e : Expression) (name : String)
  | item (e key : Expression)
  | call (callee : Expression) (arguments : List Expression)
  | filter (e : Expression) (name : String) (arguments : List Expression)
  | test (e : Expression) (name : String) (arguments : List Expression)

namespace Expression

/-- The name at the root of a chain of fields and the names after it. -/
def fieldChain? : Expression → Option (String × List String)
  | .lookup name => some (name, [])
  | .field e name => e.fieldChain?.map fun (root, path) => (root, path ++ [name])
  | _ => none

mutual

/-- The dotted names that an expression reads, those at whose root a bound name stands apart. -/
def references (bound : List String) : Expression → List KeyPath
  | .constant _ => []
  | .lookup name => if bound.contains name then [] else [[name]]
  | .list items => referencesOfItems bound items
  | .map entries => referencesOfEntries bound entries
  | .negate e => references bound e
  | .not e => references bound e
  | .operate _ left right => references bound left ++ references bound right
  | .and left right => references bound left ++ references bound right
  | .or left right => references bound left ++ references bound right
  | .compare first rest => references bound first ++ referencesOfComparisons bound rest
  | .choose condition yes no =>
      references bound condition ++ references bound yes ++ referencesOfOption bound no
  | .field e name =>
      match fieldChain? (.field e name) with
      | some (root, path) => if bound.contains root then [] else [root :: path]
      | none => references bound e
  | .item e key => references bound e ++ references bound key
  | .call callee arguments => references bound callee ++ referencesOfItems bound arguments
  | .filter e _ arguments => references bound e ++ referencesOfItems bound arguments
  | .test e _ arguments => references bound e ++ referencesOfItems bound arguments

/-- The names that items read. -/
def referencesOfItems (bound : List String) : List Expression → List KeyPath
  | [] => []
  | e :: rest => references bound e ++ referencesOfItems bound rest

/-- The names that entries read. -/
def referencesOfEntries (bound : List String) : List (Expression × Expression) → List KeyPath
  | [] => []
  | (k, e) :: rest => references bound k ++ references bound e ++ referencesOfEntries bound rest

/-- The names that the operands of comparisons read. -/
def referencesOfComparisons (bound : List String) :
    List (Comparison × Expression) → List KeyPath
  | [] => []
  | (_, e) :: rest => references bound e ++ referencesOfComparisons bound rest

/-- The names that an optional expression reads. -/
def referencesOfOption (bound : List String) : Option Expression → List KeyPath
  | none => []
  | some e => references bound e

end

end Expression

end Template

end ExperimentSuite
