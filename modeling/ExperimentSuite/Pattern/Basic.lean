/-!
# Patterns

Regular expressions over names with anchors. Matching takes one character after
the other and replaces the pattern by what has to follow it; the start and the
end of the text are known to every step. A search succeeds when the pattern
matches anywhere in the text.
-/

namespace ExperimentSuite

/-- A set of characters: ranges of code points, or everything else. -/
structure CharSet where
  negated : Bool
  ranges : List (Nat × Nat)
deriving DecidableEq

/-- Whether a character is in a set. -/
def CharSet.has (s : CharSet) (c : Char) : Bool :=
  (s.ranges.any fun r => decide (r.1 ≤ c.toNat) && decide (c.toNat ≤ r.2)) != s.negated

/-- A regular expression. -/
inductive Pattern where
  | never
  | empty
  | oneOf (set : CharSet)
  | both (first second : Pattern)
  | either (first second : Pattern)
  | many (body : Pattern)
  | atStart
  | atEnd
deriving DecidableEq

namespace Pattern

/-- Every character but the line feed. -/
def anyChar : Pattern := .oneOf ⟨true, [(10, 10)]⟩

/-- One given character. -/
def char (c : Char) : Pattern := .oneOf ⟨false, [(c.toNat, c.toNat)]⟩

/-- One pattern after the other, without parts that say nothing. -/
def follow : Pattern → Pattern → Pattern
  | .never, _ => .never
  | _, .never => .never
  | .empty, q => q
  | p, .empty => p
  | p, q => .both p q

/-- One pattern or the other, without parts that say nothing. -/
def choice (p q : Pattern) : Pattern :=
  if p = q then p
  else
    match p, q with
    | .never, q => q
    | p, .never => p
    | p, q => .either p q

/-- Whether a pattern matches without taking a character at a place. -/
def matchesNothing (start finish : Bool) : Pattern → Bool
  | .never => false
  | .empty => true
  | .oneOf _ => false
  | .both p q => p.matchesNothing start finish && q.matchesNothing start finish
  | .either p q => p.matchesNothing start finish || q.matchesNothing start finish
  | .many _ => true
  | .atStart => start
  | .atEnd => finish

/-- What has to follow a character that a pattern takes at a place. -/
def after (start : Bool) (c : Char) : Pattern → Pattern
  | .oneOf set => if set.has c then .empty else .never
  | .both p q =>
      let first := follow (p.after start c) q
      if p.matchesNothing start false then choice first (q.after start c) else first
  | .either p q => choice (p.after start c) (q.after start c)
  | .many p => follow (p.after start c) (.many p)
  | _ => .never

/-- Whether a pattern matches the front of a text. -/
def matchesFront (start : Bool) (p : Pattern) : List Char → Bool
  | [] => p.matchesNothing start true
  | c :: rest => p.matchesNothing start false || (p.after start c).matchesFront false rest

/-- Whether a pattern matches from some place on. -/
def occursFrom (start : Bool) (p : Pattern) : List Char → Bool
  | [] => p.matchesFront start []
  | c :: rest => p.matchesFront start (c :: rest) || p.occursFrom false rest

/-- Whether a pattern occurs in a text. -/
def occursIn (p : Pattern) (s : String) : Bool :=
  p.occursFrom true s.toList

/-- A pattern a number of times. -/
def times (p : Pattern) : Nat → Pattern
  | 0 => .empty
  | n + 1 => follow p (times p n)

/-- A pattern at most a number of times. -/
def atMost (p : Pattern) : Nat → Pattern
  | 0 => .empty
  | n + 1 => choice .empty (follow p (atMost p n))

end Pattern

end ExperimentSuite
