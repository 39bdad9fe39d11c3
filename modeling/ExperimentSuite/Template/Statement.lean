import ExperimentSuite.Template.Expression

/-!
# Statements of templates

A template is a list of statements. Names that a template binds are no
references: those of a loop within the loop, others from the place where they are
bound to the end of the enclosing branch.
-/

namespace ExperimentSuite

namespace Template

/-- What a value is assigned to: a name, or the targets of its items. -/
inductive Target where
  | name (name : String)
  | items (targets : List Target)

/-- A statement of a template. -/
inductive Statement where
  | text (s : String)
  | output (e : Expression)
  | branch (condition : Expression) (yes no : List Statement)
  /-- One round per item that the guard lets through, or the alternative when there is none. -/
  | loop (target : Target) (items : Expression) (guard : Option Expression)
      (body alternative : List Statement)
  | assign (target : Target) (e : Expression)
  /-- Assigns the text that a body renders to. -/
  | capture (target : Target) (body : List Statement)

/-- The name that tells a round of a loop about the loop. -/
def loopName : String := "loop"

namespace Target

mutual

/-- The names that a target binds. -/
def names : Target → List String
  | .name n => [n]
  | .items targets => namesOfAll targets

/-- The names that several targets bind. -/
def namesOfAll : List Target → List String
  | [] => []
  | t :: rest => names t ++ namesOfAll rest

end

end Target

namespace Statement

mutual

/-- The dotted names that a statement reads, and the names that are bound after it. -/
def references (bound : List String) : Statement → List KeyPath × List String
  | .text _ => ([], bound)
  | .output e => (e.references bound, bound)
  | .branch condition yes no =>
      (condition.references bound ++ referencesOfAll bound yes ++ referencesOfAll bound no, bound)
  | .loop target items guard body alternative =>
      let outer := loopName :: bound
      let inner := target.names ++ outer
      (items.references outer ++ Expression.referencesOfOption inner guard
        ++ referencesOfAll inner body ++ referencesOfAll bound alternative, bound)
  | .assign target e =>
      let after := target.names ++ bound
      (e.references after, after)
  | .capture target body =>
      let after := target.names ++ bound
      (referencesOfAll after body, after)

/-- The dotted names that statements read. -/
def referencesOfAll (bound : List String) : List Statement → List KeyPath
  | [] => []
  | s :: rest =>
      let (here, after) := references bound s
      here ++ referencesOfAll after rest

end

end Statement

end Template

end ExperimentSuite
