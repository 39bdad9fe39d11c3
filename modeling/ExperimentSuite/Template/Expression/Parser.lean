import ExperimentSuite.Template.Expression
import ExperimentSuite.Template.Token

/-!
# Reading expressions

From loose to tight: the conditional, `or`, `and`, `not`, comparisons, sums,
joined texts, products, powers, filters and tests, the negative sign, and what
follows a simple expression. All operators of two operands associate to the left.
An expression inside another one costs two levels of nesting inside brackets of
its own and one level inside a subscript or arguments, and the levels are limited.
-/

namespace ExperimentSuite

namespace Template

/-- Reads something at the front of tokens and leaves the rest. -/
abbrev Reader (α : Type) := List Token → Except EngineFault (α × List Token)

namespace Reader

/-- The fault of tokens that cannot be read on. -/
def fail {α : Type} : Reader α
  | .fault f :: _ => .error f
  | _ => .error .badSyntax

/-- The fault of a template that nests too deep. -/
def tooDeep {α : Type} : Reader α := fun _ => .error .badSyntax

/-- A sign. -/
def sign (s : Sign) : Reader Unit
  | .sign t :: rest => if t = s then .ok ((), rest) else fail (.sign t :: rest)
  | tokens => fail tokens

/-- A name. -/
def name : Reader String
  | .name n :: rest => .ok (n, rest)
  | tokens => fail tokens

/-- One word. -/
def word (w : String) : Reader Unit
  | .name n :: rest => if n = w then .ok ((), rest) else fail (.name n :: rest)
  | tokens => fail tokens

/-- Whether a sign comes next. -/
def isNext (s : Sign) : List Token → Bool
  | .sign t :: _ => t == s
  | _ => false

/-- Elements separated by commas up to a closing sign; a comma may follow the last one. `read`
holds the elements so far, last first. -/
def separated {α : Type} (element : Reader α) (closing : Sign) (fuel : Nat) (read : List α) :
    Reader (List α) := fun tokens => do
  if isNext closing tokens then return (read.reverse, tokens.drop 1)
  match fuel with
  | 0 => fail tokens
  | fuel + 1 =>
      let ((), tokens) ← (if read.isEmpty then .ok ((), tokens) else sign .comma tokens)
      if isNext closing tokens then return (read.reverse, tokens.drop 1)
      let (a, rest) ← element tokens
      separated element closing fuel (a :: read) rest

/-- Elements separated by commas up to a closing sign. -/
def enclosed {α : Type} (element : Reader α) (closing : Sign) : Reader (List α) := fun tokens =>
  separated element closing (tokens.length + 1) [] tokens

/-- Goes on while a token joins the operands on both of its sides. -/
def chainFrom (join? : Token → Option (Expression → Expression → Expression))
    (operand : Reader Expression) (fuel : Nat) (left : Expression) : Reader Expression :=
  fun tokens =>
    match fuel, tokens with
    | fuel + 1, token :: rest =>
        match join? token with
        | some join => do
            let (right, rest) ← operand rest
            chainFrom join? operand fuel (join left right) rest
        | none => .ok (left, token :: rest)
    | _, _ => .ok (left, tokens)

/-- Operands joined from left to right. -/
def chain (join? : Token → Option (Expression → Expression → Expression))
    (operand : Reader Expression) : Reader Expression := fun tokens => do
  let (left, rest) ← operand tokens
  chainFrom join? operand rest.length left rest

end Reader

namespace Expression

open Reader

/-- Powers. -/
def powerJoin? : Token → Option (Expression → Expression → Expression)
  | .sign .power => some (.operate .power)
  | _ => none

/-- Products and quotients. -/
def productJoin? : Token → Option (Expression → Expression → Expression)
  | .sign .times => some (.operate .multiply)
  | .sign .divide => some (.operate .divide)
  | .sign .floorDivide => some (.operate .floorDivide)
  | .sign .remainder => some (.operate .remainder)
  | _ => none

/-- Joined texts. -/
def textJoin? : Token → Option (Expression → Expression → Expression)
  | .sign .tilde => some (.operate .concat)
  | _ => none

/-- Sums and differences. -/
def sumJoin? : Token → Option (Expression → Expression → Expression)
  | .sign .plus => some (.operate .add)
  | .sign .minus => some (.operate .subtract)
  | _ => none

/-- Conjunctions. -/
def andJoin? : Token → Option (Expression → Expression → Expression)
  | .name "and" => some .and
  | _ => none

/-- Disjunctions. -/
def orJoin? : Token → Option (Expression → Expression → Expression)
  | .name "or" => some .or
  | _ => none

/-- The comparison at the front of tokens. -/
def comparison? : List Token → Option (Comparison × List Token)
  | .sign .equal :: rest => some (.equal, rest)
  | .sign .unequal :: rest => some (.unequal, rest)
  | .sign .less :: rest => some (.less, rest)
  | .sign .atMost :: rest => some (.atMost, rest)
  | .sign .greater :: rest => some (.greater, rest)
  | .sign .atLeast :: rest => some (.atLeast, rest)
  | .name "in" :: rest => some (.among, rest)
  | .name "not" :: .name "in" :: rest => some (.notAmong, rest)
  | _ => none

/-- The comparisons after a first operand; `read` holds those so far, last first. -/
def comparisons (operand : Reader Expression) (fuel : Nat)
    (read : List (Comparison × Expression)) : Reader (List (Comparison × Expression)) :=
  fun tokens =>
    match fuel, comparison? tokens with
    | fuel + 1, some (c, rest) => do
        let (e, rest) ← operand rest
        comparisons operand fuel ((c, e) :: read) rest
    | _, _ => .ok (read.reverse, tokens)

/-- An operand, perhaps compared with others. -/
def compared (operand : Reader Expression) : Reader Expression := fun tokens => do
  let (first, rest) ← operand tokens
  let (others, rest) ← comparisons operand rest.length [] rest
  return (if others.isEmpty then first else .compare first others, rest)

/-- An operand after any number of `not`. -/
def denied (operand : Reader Expression) : Reader Expression
  | .name n :: rest =>
      if n = "not" then do
        let (e, rest) ← denied operand rest
        return (.not e, rest)
      else operand (.name n :: rest)
  | tokens => operand tokens

/-- An operand after any number of negative signs. -/
def negated (operand : Reader Expression) : Reader Expression
  | .sign s :: rest =>
      if s = .minus then do
        let (e, rest) ← negated operand rest
        return (.negate e, rest)
      else operand (.sign s :: rest)
  | tokens => operand tokens

/-- The strings that follow a string. -/
def adjacentStrings : List Token → String × List Token
  | .str s :: rest =>
      let (more, rest) := adjacentStrings rest
      (s ++ more, rest)
  | tokens => ("", tokens)

/-- The value of a name that is a constant. -/
def constant? : String → Option Value
  | "true" | "True" => some (.bool true)
  | "false" | "False" => some (.bool false)
  | "none" | "None" => some .null
  | _ => none

/-- An entry of a mapping. -/
def entry (nested : Reader Expression) : Reader (Expression × Expression) := fun tokens => do
  let (key, rest) ← nested tokens
  let ((), rest) ← sign .colon rest
  let (value, rest) ← nested rest
  return ((key, value), rest)

/-- What stands in parentheses: an expression, or a list when it is empty or has a comma. -/
def parenthesized (nested : Reader Expression) : Reader Expression := fun tokens => do
  if isNext .closeParen tokens then return (.list [], tokens.drop 1)
  let (first, rest) ← nested tokens
  if isNext .comma rest then
    let (items, rest) ← separated nested .closeParen (rest.length + 1) [first] rest
    return (.list items, rest)
  else
    let ((), rest) ← sign .closeParen rest
    return (first, rest)

/-- A simple expression. -/
def primary (nested : Reader Expression) : Reader Expression
  | .name n :: rest =>
      match constant? n with
      | some value => .ok (.constant value, rest)
      | none => .ok (.lookup n, rest)
  | .str s :: rest =>
      let (more, rest) := adjacentStrings rest
      .ok (.constant (.str (s ++ more)), rest)
  | .int n :: rest => .ok (.constant (.int n), rest)
  | .float x :: rest => .ok (.constant (.float x), rest)
  | .sign .openParen :: rest => parenthesized nested rest
  | .sign .openBracket :: rest => do
      let (items, rest) ← enclosed nested .closeBracket rest
      return (.list items, rest)
  | .sign .openBrace :: rest => do
      let (entries, rest) ← enclosed (entry nested) .closeBrace rest
      return (.map entries, rest)
  | tokens => fail tokens

/-- The fields, subscripts and arguments after a simple expression. -/
def suffixes (nested : Reader Expression) (fuel : Nat) (e : Expression) : Reader Expression :=
  fun tokens =>
    match fuel, tokens with
    | fuel + 1, .sign .dot :: .name n :: rest => suffixes nested fuel (.field e n) rest
    | fuel + 1, .sign .dot :: .int n :: rest =>
        suffixes nested fuel (.item e (.constant (.int n))) rest
    | _ + 1, .sign .dot :: rest => fail rest
    | fuel + 1, .sign .openBracket :: rest => do
        let (key, rest) ← nested rest
        let ((), rest) ← sign .closeBracket rest
        suffixes nested fuel (.item e key) rest
    | fuel + 1, .sign .openParen :: rest => do
        let (arguments, rest) ← enclosed nested .closeParen rest
        suffixes nested fuel (.call e arguments) rest
    | _, _ => .ok (e, tokens)

/-- An operand without filters: a simple expression with suffixes after negative signs. -/
def operand (simple nested : Reader Expression) : Reader Expression :=
  negated fun tokens => do
    let (e, rest) ← simple tokens
    suffixes nested rest.length e rest

/-- Arguments in parentheses, or none. -/
def optionalArguments (nested : Reader Expression) : Reader (List Expression) := fun tokens =>
  if isNext .openParen tokens then enclosed nested .closeParen (tokens.drop 1)
  else .ok ([], tokens)

/-- Whether a token begins an argument of a test that stands without parentheses. -/
def beginsArgument : List Token → Bool
  | .name n :: _ => !(["and", "or", "else", "is", "if"].contains n)
  | .str _ :: _ => true
  | .int _ :: _ => true
  | .float _ :: _ => true
  | .sign s :: _ => [Sign.plus, .minus, .openBracket, .openBrace].contains s
  | _ => false

/-- The arguments of a test. -/
def testArguments (bare nested : Reader Expression) : Reader (List Expression) := fun tokens =>
  if isNext .openParen tokens then enclosed nested .closeParen (tokens.drop 1)
  else if beginsArgument tokens then do
    let (e, rest) ← bare tokens
    return ([e], rest)
  else .ok ([], tokens)

/-- A test after the word `is`. -/
def tested (bare nested : Reader Expression) (e : Expression) : Reader Expression :=
  fun tokens => do
    let (denied, tokens) := match tokens with
      | .name "not" :: rest => (true, rest)
      | _ => (false, tokens)
    let (testName, rest) ← name tokens
    let (arguments, rest) ← testArguments bare nested rest
    let result := Expression.test e testName arguments
    return (if denied then .not result else result, rest)

/-- The filters and tests after an operand. -/
def filters (bare nested : Reader Expression) (fuel : Nat) (e : Expression) : Reader Expression :=
  fun tokens =>
    match fuel, tokens with
    | fuel + 1, .sign .bar :: rest => do
        let (filterName, rest) ← name rest
        let (arguments, rest) ← optionalArguments nested rest
        filters bare nested fuel (.filter e filterName arguments) rest
    | fuel + 1, .name "is" :: rest => do
        let (e, rest) ← tested bare nested e rest
        filters bare nested fuel e rest
    | _, _ => .ok (e, tokens)

/-- An operand with its filters and tests. -/
def filtered (simple nested : Reader Expression) : Reader Expression := fun tokens => do
  let (e, rest) ← operand simple nested tokens
  filters (operand simple nested) nested rest.length e rest

/-- All levels of operators. -/
def operators (simple nested : Reader Expression) : Reader Expression :=
  chain orJoin? <| chain andJoin? <| denied <| compared <| chain sumJoin? <| chain textJoin? <|
    chain productJoin? <| chain powerJoin? <| filtered simple nested

/-- An operand with the conditions after it. -/
def conditional (operand : Reader Expression) (fuel : Nat) : Reader Expression := fun tokens => do
  let (e, rest) ← operand tokens
  conditions operand fuel e rest
where
  /-- The conditions after an expression. -/
  conditions (operand : Reader Expression) (fuel : Nat) (e : Expression) : Reader Expression :=
    fun tokens =>
      match fuel, tokens with
      | fuel + 1, .name "if" :: rest => do
          let (condition, rest) ← operand rest
          match rest with
          | .name "else" :: rest =>
              let (first, rest) ← operand rest
              let (no, rest) ← conditions operand fuel first rest
              conditions operand fuel (.choose condition e (some no)) rest
          | _ => conditions operand fuel (.choose condition e none) rest
      | _, _ => .ok (e, tokens)

/-- An expression whose operands are read by a given reader. -/
def complete (operand : Reader Expression) : Reader Expression := fun tokens =>
  conditional operand tokens.length tokens

/-- An expression without a condition at its end, with so many levels of nesting left. -/
def unconditional : Nat → Reader Expression
  | 0 => tooDeep
  | 1 => operators (primary tooDeep) (complete (unconditional 0))
  | depth + 2 =>
      operators (primary (complete (unconditional depth))) (complete (unconditional (depth + 1)))

/-- An expression with so many levels of nesting left. -/
def read : Nat → Reader Expression
  | 0 => tooDeep
  | depth + 1 => complete (unconditional depth)

end Expression

end Template

end ExperimentSuite
