import ExperimentSuite.Template.Filter
import ExperimentSuite.Template.Statement

/-!
# Evaluating templates

Names are looked up in scopes, the innermost first. A loop has a scope of its
own; branches share the scope around them. In a strict setting an undefined value
may be passed on, compared and tested, but not rendered, joined or decided on.
-/

namespace ExperimentSuite

namespace Template

/-- Names with their values. -/
abbrev Scope := List (String × Value)

/-- What expressions are evaluated under. -/
structure Setting where
  tolerant : Bool
  /-- The scopes, the innermost first. -/
  scopes : List Scope

namespace Setting

/-- The value of a name. -/
def find? (s : Setting) (name : String) : Option Value :=
  s.scopes.findSome? fun scope => (scope.find? (·.1 == name)).map (·.2)

/-- Gives a name a value in the innermost scope. -/
def bind (s : Setting) (name : String) (value : Value) : Setting :=
  match s.scopes with
  | [] => { s with scopes := [[(name, value)]] }
  | scope :: rest => { s with scopes := ((name, value) :: scope) :: rest }

/-- Opens a scope. -/
def enter (s : Setting) (scope : Scope) : Setting :=
  { s with scopes := scope :: s.scopes }

/-- Closes the innermost scope. -/
def leave (s : Setting) : Setting :=
  { s with scopes := s.scopes.drop 1 }

end Setting

namespace Expression

mutual

/-- The value of an expression. -/
def evaluate (s : Setting) : Expression → Except EngineFault Value
  | .constant value => .ok value
  | .lookup name => .ok ((s.find? name).getD .missing)
  | .list items => do return .list (← evaluateItems s items)
  | .map entries => do return .map (← evaluateEntries s [] entries)
  | .negate e => do (← evaluate s e).negate
  | .not e => do return .bool !(← (← evaluate s e).truth s.tolerant)
  | .operate op left right => do
      let a ← evaluate s left
      let b ← evaluate s right
      if op = .concat then
        a.demandDefined s.tolerant
        b.demandDefined s.tolerant
      Value.operate op a b
  | .and left right => do
      let a ← evaluate s left
      if ← a.truth s.tolerant then evaluate s right else return a
  | .or left right => do
      let a ← evaluate s left
      if ← a.truth s.tolerant then return a else evaluate s right
  | .compare first rest => do
      let a ← evaluate s first
      return .bool (← evaluateComparisons s a rest)
  | .choose condition yes no => do
      if ← (← evaluate s condition).truth s.tolerant then evaluate s yes
      else evaluateOption s no
  | .field e name => do (← evaluate s e).field s.tolerant name
  | .item e key => do
      let v ← evaluate s e
      let k ← evaluate s key
      v.item s.tolerant k
  | .call (.lookup name) arguments => do
      let values ← evaluateItems s arguments
      match s.find? name with
      | some _ => throw .invalidOperation
      | none => Filter.call s.tolerant name values
  | .call (.field e _) arguments => do
      let _ ← evaluate s e
      let _ ← evaluateItems s arguments
      throw .unknownMethod
  | .call callee arguments => do
      let _ ← evaluate s callee
      let _ ← evaluateItems s arguments
      throw .invalidOperation
  | .filter e name arguments => do
      let v ← evaluate s e
      Filter.apply s.tolerant name v (← evaluateItems s arguments)
  | .test e name arguments => do
      let v ← evaluate s e
      return .bool (← Filter.test name v (← evaluateItems s arguments))

/-- The values of items. -/
def evaluateItems (s : Setting) : List Expression → Except EngineFault (List Value)
  | [] => .ok []
  | e :: rest => do
      let v ← evaluate s e
      return v :: (← evaluateItems s rest)

/-- The entries of a mapping after those that are known. -/
def evaluateEntries (s : Setting) (known : List (Value × Value)) :
    List (Expression × Expression) → Except EngineFault (List (Value × Value))
  | [] => .ok known
  | (k, e) :: rest => do
      let key ← evaluate s k
      let v ← evaluate s e
      evaluateEntries s (Value.insertEntry key v known) rest

/-- Whether a chain of comparisons holds that starts with a value. -/
def evaluateComparisons (s : Setting) (a : Value) :
    List (Comparison × Expression) → Except EngineFault Bool
  | [] => .ok true
  | (c, e) :: rest => do
      let b ← evaluate s e
      if ← Value.compareBy s.tolerant c a b then evaluateComparisons s b rest else return false

/-- The value of an alternative; one that is left out is silently missing. -/
def evaluateOption (s : Setting) : Option Expression → Except EngineFault Value
  | none => .ok (.undefined true)
  | some e => evaluate s e

end

end Expression

namespace Target

mutual

/-- Assigns a value to a target in the innermost scope. -/
def assign (s : Setting) (value : Value) : Target → Except EngineFault Setting
  | .name n => .ok (s.bind n value)
  | .items targets =>
      match value with
      | .list values => assignAll s values targets
      | _ => .error .cannotUnpack

/-- Assigns as many values to targets in order. -/
def assignAll (s : Setting) : List Value → List Target → Except EngineFault Setting
  | [], [] => .ok s
  | v :: values, t :: targets => do assignAll (← assign s v t) values targets
  | _, _ => .error .cannotUnpack

end

end Target

/-- What a loop tells a round about itself. -/
def loopFacts (items : List Value) (depth index : Nat) : Value :=
  let count := items.length
  let facts : List (String × Value) :=
    [("depth", .int (depth + 1)), ("depth0", .int depth), ("first", .bool (index == 0)),
      ("index", .int (index + 1)), ("index0", .int index),
      ("last", .bool (index + 1 == count)), ("length", .int count),
      ("nextitem", items[index + 1]?.getD .missing),
      ("previtem", if index = 0 then .missing else items[index - 1]?.getD .missing),
      ("revindex", .int (count - index)), ("revindex0", .int (count - index - 1))]
  .map (facts.map fun f => (.str f.1, f.2))

/-- What has been rendered so far and what holds after it. -/
structure Rendering where
  setting : Setting
  output : String
  /-- The number of loops around. -/
  depth : Nat

namespace Rendering

/-- Adds to the output. -/
def write (r : Rendering) (s : String) : Rendering :=
  { r with output := r.output ++ s }

end Rendering

namespace Statement

/-- The items that a guard lets through. -/
def guarded (s : Setting) (target : Target) (guard : Option Expression) (items : List Value) :
    Except EngineFault (List Value) :=
  match guard with
  | none => .ok items
  | some guard => items.filterM fun item => do
      let inner ← target.assign (s.enter []) item
      (← guard.evaluate inner).truth s.tolerant

mutual

/-- Renders a statement. -/
def render (r : Rendering) : Statement → Except EngineFault Rendering
  | .text s => .ok (r.write s)
  | .output e => do
      let v ← e.evaluate r.setting
      v.demandDefined r.setting.tolerant
      return r.write v.text
  | .branch condition yes no => do
      if ← (← condition.evaluate r.setting).truth r.setting.tolerant then renderAll r yes
      else renderAll r no
  | .loop target items guard body alternative => do
      let items ← (← items.evaluate r.setting).iterate r.setting.tolerant
      let items ← guarded r.setting target guard items
      if items.isEmpty then renderAll r alternative
      else
        let inside : Rendering :=
          { r with setting := r.setting.enter [], depth := r.depth + 1 }
        let done ← items.zipIdx.foldlM (fun round item => do
          let here := round.setting.bind loopName (loopFacts items r.depth item.2)
          let here ← target.assign here item.1
          renderAll { round with setting := here } body) inside
        return { done with setting := done.setting.leave, depth := r.depth }
  | .assign target e => do
      let v ← e.evaluate r.setting
      return { r with setting := ← target.assign r.setting v }
  | .capture target body => do
      let done ← renderAll { r with output := "" } body
      let after ← target.assign done.setting (.str done.output)
      return { r with setting := after }

/-- Renders statements in order. -/
def renderAll (r : Rendering) : List Statement → Except EngineFault Rendering
  | [] => .ok r
  | s :: rest => do renderAll (← render r s) rest

end

end Statement

end Template

end ExperimentSuite
