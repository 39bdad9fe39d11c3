import ExperimentSuite.Failure

/-!
# Commands of a host type

The commands of a host type are written once for all its instances or as a list
with one entry for each. Normalised, they are a list with one mapping for each
instance, every mapping holding at least the main command and nothing but text.
Normalising a second time changes nothing.
-/

namespace ExperimentSuite

namespace Command

/-- One entry in normal form; `place` names the entry. -/
def normalizeEntry (place : String) : Document → Except Failure Document
  | .str main => .ok (.map [(Vocabulary.mainCommand, .str main)])
  | .map fields =>
      if !Keyed.hasKey Vocabulary.mainCommand fields then .error (.schema place .noMainCommand)
      else
        match fields.find? fun f => f.2.str?.isNone with
        | some f => .error (.schema (place ++ "." ++ f.1) .commandNotText)
        | none => .ok (.map fields)
  | d => .error (.schema place (.commandShape d))

/-- Entries in normal form from an index on; the first bad one decides. -/
def normalizeFrom (place : String) : Nat → List Document → Except Failure (List Document)
  | _, [] => .ok []
  | index, entry :: rest => do
      let first ← normalizeEntry (place ++ "[" ++ toString index ++ "]") entry
      let others ← normalizeFrom place (index + 1) rest
      return first :: others

/-- The commands of `n` instances of a host type in normal form. -/
def normalize (hostType : String) (n : Nat) (commands : Document) :
    Except Failure (List Document) :=
  let place := hostType ++ "." ++ Vocabulary.command
  if Vocabulary.maxHostInstances < n then .error (.schema place (.tooManyInstances n))
  else
    match commands with
    | .list entries =>
        if entries.length ≠ n then .error (.schema place (.commandCount entries.length n))
        else normalizeFrom place 0 entries
    | single => normalizeFrom place 0 (List.replicate n single)

end Command

end ExperimentSuite
