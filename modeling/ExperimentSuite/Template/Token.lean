import ExperimentSuite.Placeholder.Engine

/-!
# Tokens of templates

A template alternates between text and tags. The tokens of a tag stand between
the token of its opening delimiter and that of its closing one. A place that is
no token is itself a token, so that it counts only when it is reached.
-/

namespace ExperimentSuite

namespace Template

/-- Operators and punctuation. -/
inductive Sign where
  | plus
  | minus
  | times
  | divide
  | floorDivide
  | remainder
  | power
  | tilde
  | dot
  | comma
  | colon
  | bar
  | assign
  | equal
  | unequal
  | less
  | atMost
  | greater
  | atLeast
  | openParen
  | closeParen
  | openBracket
  | closeBracket
  | openBrace
  | closeBrace
deriving DecidableEq

/-- A token of a template. -/
inductive Token where
  /-- What stands between tags. -/
  | text (s : String)
  | openOutput
  | closeOutput
  | openStatement
  | closeStatement
  | name (s : String)
  | str (s : String)
  | int (n : Nat)
  | float (x : Float)
  | sign (s : Sign)
  /-- Here the template is no sequence of tokens. -/
  | fault (f : EngineFault)

/-- How much a sign changes the number of open brackets. -/
def Sign.nesting : Sign → Int
  | .openParen | .openBracket | .openBrace => 1
  | .closeParen | .closeBracket | .closeBrace => -1
  | _ => 0

/-- How much a token changes the number of open brackets. -/
def Token.nesting : Token → Int
  | .sign s => s.nesting
  | _ => 0

end Template

end ExperimentSuite
