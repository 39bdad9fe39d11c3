import ExperimentSuite.Template.Expression.Parser
import ExperimentSuite.Template.Statement

/-!
# Reading statements

A body goes on up to a tag whose first word ends it. A statement inside another
one costs one level of nesting, as does an expression inside a statement.
-/

namespace ExperimentSuite

namespace Template

namespace Statement

open Reader

/-- The levels of nesting that a template may use. -/
def depthLimit : Nat := 150

/-- The names that nothing may be assigned to. -/
def reservedNames : List String :=
  ["true", "True", "false", "False", "none", "None", loopName, "self"]

/-- A name that a value may be assigned to. -/
def assignable : Reader Target := fun tokens => do
  let (n, rest) ← name tokens
  if reservedNames.contains n then fail rest else return (.name n, rest)

/-- Whether a list of targets ends here. -/
def endsTargets : List Token → Bool
  | .sign .closeParen :: _ => true
  | .closeOutput :: _ => true
  | .closeStatement :: _ => true
  | .name n :: _ => n == "in"
  | _ => false

/-- The targets of an assignment; one target without a comma stands for itself. `read` holds the
targets so far, last first. -/
def targets (fuel : Nat) (read : List Target) : Reader Target := fun tokens => do
  match fuel with
  | 0 => fail tokens
  | fuel + 1 =>
      let ((), tokens) ← (if read.isEmpty then .ok ((), tokens) else sign .comma tokens)
      if endsTargets tokens then return (.items read.reverse, tokens)
      let (target, rest) ← do
        if isNext .openParen tokens then
          let (inner, rest) ← targets fuel [] (tokens.drop 1)
          let ((), rest) ← sign .closeParen rest
          pure (inner, rest)
        else assignable tokens
      if isNext .comma rest then targets fuel (target :: read) rest
      else
        match read with
        | [] => return (target, rest)
        | _ => return (.items (target :: read).reverse, rest)

/-- The end of a tag of a statement. -/
def endOfTag : Reader Unit
  | .closeStatement :: rest => .ok ((), rest)
  | tokens => fail tokens

/-- The end of an output. -/
def endOfOutput : Reader Unit
  | .closeOutput :: rest => .ok ((), rest)
  | tokens => fail tokens

/-- A body up to a tag that begins with one of the given words; the word and what follows it are
left. `read` holds the statements so far, last first. -/
def bodyFrom (statement : Reader Statement) (expression : Reader Expression)
    (stops : List String) (fuel : Nat) (read : List Statement) : Reader (List Statement) :=
  fun tokens =>
    match fuel, tokens with
    | fuel + 1, .text s :: rest =>
        bodyFrom statement expression stops fuel (.text s :: read) rest
    | fuel + 1, .openOutput :: rest => do
        let (e, rest) ← expression rest
        let ((), rest) ← endOfOutput rest
        bodyFrom statement expression stops fuel (.output e :: read) rest
    | fuel + 1, .openStatement :: .name n :: rest =>
        if stops.contains n then .ok (read.reverse, .name n :: rest)
        else do
          let (s, rest) ← statement (.name n :: rest)
          let ((), rest) ← endOfTag rest
          bodyFrom statement expression stops fuel (s :: read) rest
    | _ + 1, .openStatement :: rest => fail rest
    | _, [] => .ok (read.reverse, [])
    | _, tokens => fail tokens

/-- What a statement is made of, at one level of nesting. -/
structure Parts where
  expression : Reader Expression
  /-- An expression without a condition at its end. -/
  unconditional : Reader Expression
  statement : Reader Statement

namespace Parts

/-- A body up to a tag that begins with one of the given words. -/
def body (parts : Parts) (stops : List String) : Reader (List Statement) := fun tokens =>
  bodyFrom parts.statement parts.expression stops (tokens.length + 1) [] tokens

/-- A body up to the tag of one word, which is read as well. -/
def bodyUpTo (parts : Parts) (stop : String) : Reader (List Statement) := fun tokens => do
  let ((), rest) ← endOfTag tokens
  let (statements, rest) ← parts.body [stop] rest
  let ((), rest) ← word stop rest
  return (statements, rest)

/-- A branch after its first word. -/
def branch (parts : Parts) (fuel : Nat) : Reader Statement := fun tokens => do
  match fuel with
  | 0 => fail tokens
  | fuel + 1 =>
      let (condition, rest) ← parts.expression tokens
      let ((), rest) ← endOfTag rest
      let (yes, rest) ← parts.body ["endif", "else", "elif"] rest
      match rest with
      | .name n :: rest =>
          if n = "else" then
            let (no, rest) ← parts.bodyUpTo "endif" rest
            return (.branch condition yes no, rest)
          else if n = "elif" then
            let (no, rest) ← parts.branch fuel rest
            return (.branch condition yes [no], rest)
          else return (.branch condition yes [], rest)
      | _ => fail rest

/-- A loop after its first word. -/
def loop (parts : Parts) : Reader Statement := fun tokens => do
  let (target, rest) ← targets (tokens.length + 1) [] tokens
  let ((), rest) ← word "in" rest
  let (items, rest) ← parts.unconditional rest
  let (guard, rest) ← (match rest with
    | .name "if" :: rest => do
        let (e, rest) ← parts.expression rest
        .ok (some e, rest)
    | _ => .ok (none, rest) : Except EngineFault (Option Expression × List Token))
  let ((), rest) ← endOfTag rest
  let (statements, rest) ← parts.body ["endfor", "else"] rest
  match rest with
  | .name n :: rest =>
      if n = "else" then
        let (alternative, rest) ← parts.bodyUpTo "endfor" rest
        return (.loop target items guard statements alternative, rest)
      else return (.loop target items guard statements [], rest)
  | _ => fail rest

/-- The target of an assignment: a name, or targets in parentheses. -/
def assignmentTarget : Reader Target := fun tokens => do
  if isNext .openParen tokens then
    let (target, rest) ← targets tokens.length [] (tokens.drop 1)
    let ((), rest) ← sign .closeParen rest
    return (target, rest)
  else assignable tokens

/-- An assignment after its first word. -/
def assignment (parts : Parts) : Reader Statement := fun tokens => do
  let (target, rest) ← assignmentTarget tokens
  match isNext .openParen tokens, rest with
  | false, .closeStatement :: _ =>
      let (statements, rest) ← parts.bodyUpTo "endset" rest
      return (.capture target statements, rest)
  | _, _ =>
      let ((), rest) ← sign .assign rest
      let (e, rest) ← parts.expression rest
      return (.assign target e, rest)

/-- A statement without the delimiters of its tags. -/
def any (parts : Parts) : Reader Statement
  | .name n :: rest =>
      if n = "if" then parts.branch (rest.length + 1) rest
      else if n = "for" then parts.loop rest
      else if n = "set" then parts.assignment rest
      else fail rest
  | tokens => fail tokens

end Parts

/-- A statement with so many levels of nesting left. -/
def read : Nat → Reader Statement
  | 0 => tooDeep
  | depth + 1 =>
      Parts.any ⟨Expression.read depth, Expression.unconditional depth, read depth⟩

end Statement

/-- The statements of a template. -/
def statements? (tokens : List Token) : Except EngineFault (List Statement) := do
  let (body, _) ← Statement.bodyFrom (Statement.read Statement.depthLimit)
    (Expression.read Statement.depthLimit) [] (tokens.length + 1) [] tokens
  return body

/-- The one expression that tokens make up. -/
def expression? (tokens : List Token) : Except EngineFault Expression := do
  let (e, rest) ← Expression.read Statement.depthLimit tokens
  let ((), _) ← (if rest.isEmpty then .ok ((), rest) else Reader.fail rest)
  return e

end Template

end ExperimentSuite
