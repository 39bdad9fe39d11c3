import ExperimentSuite.Document.Path
import ExperimentSuite.Vocabulary

/-!
# Template engines and what fails with them

What the resolution of placeholders needs from a template engine. A source is
compiled before anything else is done with it; the names it reads are known from
then on, whichever branches are taken later. A fault of the engine is known by
its kind; the other problems with placeholders come from the resolution of a run.
-/

namespace ExperimentSuite

/-- The kinds of faults of a template engine. -/
inductive EngineFault where
  | badSyntax
  | badEscape
  | undefinedValue
  | invalidOperation
  | unknownFilter
  | unknownTest
  | unknownFunction
  | unknownMethod
  | missingArgument
  | tooManyArguments
  | cannotUnpack
  /-- A result that is no document: an integer of more than 64 bits. -/
  | numberRange
  /-- A result that is no document: a mapping with a key that is no text. -/
  | keyNotText
deriving DecidableEq

/-- The wording of a fault. -/
def EngineFault.message : EngineFault → String
  | .badSyntax => "engine: syntax error"
  | .badEscape => "engine: bad string escape"
  | .undefinedValue => "engine: undefined value"
  | .invalidOperation => "engine: invalid operation"
  | .unknownFilter => "engine: unknown filter"
  | .unknownTest => "engine: unknown test"
  | .unknownFunction => "engine: unknown function"
  | .unknownMethod => "engine: unknown method"
  | .missingArgument => "engine: missing argument"
  | .tooManyArguments => "engine: too many arguments"
  | .cannotUnpack => "engine: cannot unpack"
  | .numberRange => "number out of range"
  | .keyNotText => "key must be a string"

/-- A template engine. -/
structure Engine where
  /-- Whether unknown names stand for an empty text instead of a fault. -/
  tolerant : Bool
  /-- The dotted names that a source reads, or the fault that keeps it from being compiled. -/
  references : String → Except EngineFault (List KeyPath)
  /-- The text that a source renders to under the given variables. -/
  render : List (String × Document) → String → Except EngineFault String
  /-- The value of an expression under the given variables; nothing when it is undefined. -/
  evaluate : List (String × Document) → String → Except EngineFault (Option Document)

/-- Why the placeholders of a run cannot be resolved. -/
inductive PlaceholderProblem where
  /-- A variable takes the name of the run itself. -/
  | bindingTaken
  | runNotMap
  /-- No pending source is ready. -/
  | stuck
  | tooManyRounds
  | undefined (source : String)
  | keyHolderMissing
  | keyCollision (key : String)
  | commandKey
  | commandPending
  | engine (fault : EngineFault)
deriving DecidableEq

/-- The wording of a problem. -/
def PlaceholderProblem.message : PlaceholderProblem → String
  | .bindingTaken => "variable name is reserved for the run itself"
  | .runNotMap => "run must be a mapping"
  | .stuck => "template did not converge: placeholders reference each other"
  | .tooManyRounds =>
      "template did not converge after " ++ toString Vocabulary.maxPlaceholderRounds ++ " rounds"
  | .undefined source => "undefined value: " ++ source
  | .keyHolderMissing => "mapping holding the key disappeared"
  | .keyCollision key => "rendered key '" ++ key ++ "' collides with an existing key"
  | .commandKey => "command keys cannot hold placeholders"
  | .commandPending => "command still contains placeholders after rendering"
  | .engine fault => fault.message

end ExperimentSuite
