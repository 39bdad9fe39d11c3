import ExperimentSuite.Placeholder.Engine
import ExperimentSuite.Template.Evaluation
import ExperimentSuite.Template.Statement.Parser
import ExperimentSuite.Template.Token.Lexer

/-!
# The template engine

The engine that resolves placeholders: templates are split into tokens, read as
statements and evaluated under the given variables.
-/

namespace ExperimentSuite

namespace Template

/-- Variables as what expressions are evaluated under. -/
def Setting.ofVariables (tolerant : Bool) (vars : List (String × Document)) : Setting :=
  { tolerant, scopes := [vars.map fun v => (v.1, Value.ofDocument v.2)] }

/-- The dotted names that a source reads. -/
def references (source : String) : Except EngineFault (List KeyPath) := do
  let statements ← statements? (Token.ofTemplate source)
  return Statement.referencesOfAll [] statements

/-- The text that a source renders to. -/
def render (tolerant : Bool) (vars : List (String × Document)) (source : String) :
    Except EngineFault String := do
  let statements ← statements? (Token.ofTemplate source)
  let done ← Statement.renderAll ⟨.ofVariables tolerant vars, "", 0⟩ statements
  return done.output

/-- The value of an expression, unless it is undefined. -/
def evaluate (tolerant : Bool) (vars : List (String × Document)) (source : String) :
    Except EngineFault (Option Document) := do
  let e ← expression? (Token.ofExpression source)
  let v ← e.evaluate (.ofVariables tolerant vars)
  if v.isUndefined then return none else return some (← v.document)

/-- The engine, strict or tolerant of undefined values. -/
def engine (tolerant : Bool) : Engine :=
  { tolerant, references, render := render tolerant, evaluate := evaluate tolerant }

end Template

end ExperimentSuite
