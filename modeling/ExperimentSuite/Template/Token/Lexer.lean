import ExperimentSuite.Decimal.Literal
import ExperimentSuite.Json.Reader
import ExperimentSuite.Placeholder.Delimiters
import ExperimentSuite.Template.Token

/-!
# Splitting templates into tokens

Text goes up to the next opening delimiter. A minus sign next to a delimiter, on
its inner side, removes the blanks next to its outer side; a plus sign there does
nothing. A tag ends at its closing delimiter, but not inside brackets. What
stands between the tags `raw` and `endraw` is text, whatever it looks like.
-/

namespace ExperimentSuite

namespace Template

namespace Lexer

/-- Whether a character separates the tokens of a tag. -/
def isSpace (c : Char) : Bool :=
  c == ' ' || c == '\t' || c == '\n' || c == '\r' || c == '\x0c'

/-- Drops separators. -/
def skipSpaces (chars : List Char) : List Char := chars.dropWhile isSpace

/-- A number with its base; only a number to the base of ten may be a float. -/
inductive NumberState where
  | based
  | integer
  | fraction
  | exponent
  | exponentDigits
deriving DecidableEq

/-- The state after one more character of a number, if it belongs to the number. -/
def numberStep? (base : Nat) (state : NumberState) (c : Char) : Option NumberState :=
  if c = '_' then some state
  else if c.isDigit then some (if state = .exponent then .exponentDigits else state)
  else
    match state with
    | .based => if base = 16 ∧ (Text.hexValue? c).isSome then some .based else none
    | .integer =>
        if c = '.' then some .fraction else if c = 'e' ∨ c = 'E' then some .exponent else none
    | .fraction => if c = 'e' ∨ c = 'E' then some .exponent else none
    | .exponent => if c = '+' ∨ c = '-' then some .exponentDigits else none
    | .exponentDigits => none

/-- The characters of a number, the last state and what follows. -/
def numberRun (base : Nat) (state : NumberState) :
    List Char → List Char × NumberState × List Char
  | [] => ([], state, [])
  | c :: rest =>
      match numberStep? base state c with
      | some next =>
          let (digits, last, after) := numberRun base next rest
          (c :: digits, last, after)
      | none => ([], state, c :: rest)

/-- The token of the characters of a number. -/
def numberToken (base : Nat) (state : NumberState) (chars : List Char) : Token :=
  let digits := chars.filter (· != '_')
  if chars.getLast? == some '_' then .fault .badSyntax
  else if state = .based ∨ state = .integer then
    match Text.numberIn? base digits with
    | some n => if n < 0x100000000000000000000000000000000 then .int n else .fault .badSyntax
    | none => .fault .badSyntax
  else
    match Decimal.Literal.parse? digits with
    | some literal => .float ((literal.nearest?.map FiniteFloat.toFloat).getD (1 / 0))
    | none => .fault .badSyntax

/-- The number at the front of a text that begins with a digit. -/
def number (chars : List Char) : Token × List Char :=
  let (base, state, body) := match chars with
    | '0' :: 'b' :: rest | '0' :: 'B' :: rest => (2, NumberState.based, rest)
    | '0' :: 'o' :: rest | '0' :: 'O' :: rest => (8, NumberState.based, rest)
    | '0' :: 'x' :: rest | '0' :: 'X' :: rest => (16, NumberState.based, rest)
    | _ => (10, NumberState.integer, chars)
  let (digits, last, rest) := numberRun base state body
  (numberToken base last digits, rest)

/-- The characters up to a closing quote, escapes left as they are, and what follows it. -/
def quotedBody (quote : Char) : List Char → Option (List Char × List Char)
  | [] => none
  | ['\\'] => none
  | '\\' :: c :: rest =>
      (quotedBody quote rest).map fun (body, after) => ('\\' :: c :: body, after)
  | c :: rest =>
      if c = quote then some ([], rest)
      else (quotedBody quote rest).map fun (body, after) => (c :: body, after)

/-- The character of an escape of one letter. -/
def escapedChar? : Char → Option Char
  | '"' => some '"'
  | '\\' => some '\\'
  | '/' => some '/'
  | '\'' => some '\''
  | 'b' => some '\x08'
  | 'f' => some '\x0c'
  | 'n' => some '\n'
  | 'r' => some '\r'
  | 't' => some '\t'
  | _ => none

/-- Replaces escapes by what they stand for. -/
def unescape (fuel : Nat) (read : List Char) (chars : List Char) : Option String :=
  match fuel, chars with
  | _, [] => some (String.ofList read.reverse)
  | fuel + 1, '\\' :: 'u' :: rest => do
      let (c, rest) ← Json.unicodeEscape rest
      unescape fuel (c :: read) rest
  | fuel + 1, '\\' :: c :: rest => do
      let c ← escapedChar? c
      unescape fuel (c :: read) rest
  | fuel + 1, c :: rest => unescape fuel (c :: read) rest
  | 0, _ :: _ => none

/-- The text after an opening quote. -/
def quoted (quote : Char) (chars : List Char) : Token × List Char :=
  match quotedBody quote chars with
  | none => (.fault .badSyntax, [])
  | some (body, rest) =>
      match unescape body.length [] body with
      | some s => (.str s, rest)
      | none => (.fault .badEscape, [])

/-- The sign of two characters. -/
def longSign? : Char → Char → Option Sign
  | '/', '/' => some .floorDivide
  | '*', '*' => some .power
  | '=', '=' => some .equal
  | '!', '=' => some .unequal
  | '>', '=' => some .atLeast
  | '<', '=' => some .atMost
  | _, _ => none

/-- The sign of one character. -/
def shortSign? : Char → Option Sign
  | '+' => some .plus
  | '-' => some .minus
  | '*' => some .times
  | '/' => some .divide
  | '%' => some .remainder
  | '~' => some .tilde
  | '.' => some .dot
  | ',' => some .comma
  | ':' => some .colon
  | '|' => some .bar
  | '=' => some .assign
  | '<' => some .less
  | '>' => some .greater
  | '(' => some .openParen
  | ')' => some .closeParen
  | '[' => some .openBracket
  | ']' => some .closeBracket
  | '\x7b' => some .openBrace
  | '\x7d' => some .closeBrace
  | _ => none

/-- Whether a name may begin with a character. -/
def isNameStart (c : Char) : Bool := c.isAlpha || c == '_'

/-- The sign at the front of a text. -/
def sign? : List Char → Option (Sign × List Char)
  | c :: d :: rest =>
      match longSign? c d with
      | some s => some (s, rest)
      | none => (shortSign? c).map (·, d :: rest)
  | [c] => (shortSign? c).map (·, [])
  | [] => none

/-- The token of a tag at the front of a text, and what follows it. -/
def lexeme (c : Char) (rest : List Char) : Token × List Char :=
  match sign? (c :: rest) with
  | some (s, rest) => (.sign s, rest)
  | none =>
      if c = '\'' ∨ c = '"' then quoted c rest
      else if c.isDigit then number (c :: rest)
      else if isNameStart c then
        let word := (c :: rest).takeWhile Text.isWordAscii
        (.name (String.ofList word), (c :: rest).dropWhile Text.isWordAscii)
      else (.fault .badSyntax, [])

/-- What a sign next to a delimiter asks for. -/
inductive Control where
  | nothing
  | keep
  | trim
deriving DecidableEq

/-- The control at the front of a text, and what follows it. -/
def takeControl : List Char → Control × List Char
  | '-' :: rest => (.trim, rest)
  | '+' :: rest => (.keep, rest)
  | chars => (.nothing, chars)

/-- The end of a tag at the front of a text: its control and what follows. -/
def tagEnd? (closing chars : List Char) : Option (Control × List Char) :=
  let (control, rest) := takeControl chars
  (Text.dropFront? closing rest).map (control, ·)

/-- The tokens of a tag, and what follows its closing delimiter if it has one. `nesting` counts the
brackets that are open. -/
def tag (closing : List Char) (fuel : Nat) (nesting : Int) (chars : List Char) :
    List Token × Option (Control × List Char) :=
  match fuel, skipSpaces chars with
  | _, [] => ([], none)
  | 0, _ => ([], none)
  | fuel + 1, c :: rest =>
      match (if nesting = 0 then tagEnd? closing (c :: rest) else none) with
      | some after => ([], some after)
      | none =>
          let (token, rest) := lexeme c rest
          let (tokens, after) := tag closing fuel (nesting + token.nesting) rest
          (token :: tokens, after)

/-- The kinds of tags. -/
inductive TagKind where
  | output
  | statement
  | comment
deriving DecidableEq

/-- The text before the first opening delimiter, the kind of the delimiter and what follows it. -/
def cutAtTag? : List Char → Option (List Char × TagKind × List Char)
  | [] => none
  | c :: rest =>
      match Text.dropFront? Placeholder.expressionStart (c :: rest),
          Text.dropFront? Placeholder.statementStart (c :: rest),
          Text.dropFront? Placeholder.commentStart (c :: rest) with
      | some after, _, _ => some ([], .output, after)
      | _, some after, _ => some ([], .statement, after)
      | _, _, some after => some ([], .comment, after)
      | none, none, none =>
          (cutAtTag? rest).map fun (before, kind, after) => (c :: before, kind, after)

/-- What follows a statement that consists of one word, and the control at its end. -/
def wordTag? (word : String) (chars : List Char) : Option (Control × List Char) := do
  let rest ← Text.dropFront? word.toList (skipSpaces chars)
  tagEnd? Placeholder.statementEnd (skipSpaces rest)

/-- The text up to the statement that ends a raw part, its controls and what follows it. -/
def rawBody? : List Char → Option (List Char × Control × Control × List Char)
  | [] => none
  | c :: rest =>
      let closing? : Option (Control × Control × List Char) := do
        let inner ← Text.dropFront? Placeholder.statementStart (c :: rest)
        let (before, inner) := takeControl inner
        let (after, rest) ← wordTag? "endraw" inner
        return (before, after, rest)
      match closing? with
      | some (before, after, rest) => some ([], before, after, rest)
      | none => (rawBody? rest).map fun (body, found) => (c :: body, found)

/-- The token of a text, unless the text is empty. -/
def textToken (chars : List Char) : List Token :=
  if chars.isEmpty then [] else [.text (String.ofList chars)]

/-- The tokens of a template; blanks at its front are dropped if `trimmed` is set. -/
def scan (fuel : Nat) (trimmed : Bool) (chars : List Char) : List Token :=
  match fuel with
  | 0 => []
  | fuel + 1 =>
      let chars := if trimmed then Text.trimStart chars else chars
      match cutAtTag? chars with
      | none => textToken chars
      | some (before, kind, inner) =>
          let (control, inner) := takeControl inner
          let before := if control = .trim then Text.trimEnd before else before
          textToken before ++
            match kind with
            | .comment =>
                match Text.cutAt? Placeholder.commentEnd inner with
                | none => [.fault .badSyntax]
                | some (body, rest) => scan fuel (body.getLast? == some '-') rest
            | .output =>
                let (tokens, after) := tag Placeholder.expressionEnd inner.length 0 inner
                .openOutput :: tokens ++
                  match after with
                  | none => []
                  | some (control, rest) => .closeOutput :: scan fuel (control == .trim) rest
            | .statement =>
                match wordTag? "raw" inner with
                | some (control, inner) =>
                    match rawBody? inner with
                    | none => [.fault .badSyntax]
                    | some (body, before, after, rest) =>
                        let body := if control = .trim then Text.trimStart body else body
                        let body := if before = .trim then Text.trimEnd body else body
                        textToken body ++ scan fuel (after == .trim) rest
                | none =>
                    let (tokens, after) := tag Placeholder.statementEnd inner.length 0 inner
                    .openStatement :: tokens ++
                      match after with
                      | none => []
                      | some (control, rest) => .closeStatement :: scan fuel (control == .trim) rest

end Lexer

namespace Token

/-- The tokens of a template. -/
def ofTemplate (source : String) : List Token :=
  let chars := source.toList
  Lexer.scan (chars.length + 1) false chars

/-- The tokens of an expression that stands alone. -/
def ofExpression (source : String) : List Token :=
  let chars := source.toList
  match Lexer.tag Placeholder.expressionEnd chars.length 0 chars with
  | (tokens, none) => tokens
  | (tokens, some _) => tokens ++ [.closeOutput]

end Token

end Template

end ExperimentSuite
