import ExperimentSuite.Failure
import ExperimentSuite.Placeholder.Engine
import ExperimentSuite.Placeholder.Pending

/-!
# Resolving the placeholders of a run

A run may refer to its own fields. Resolution goes in rounds: each round renders
every pending source whose references are settled, all of them against the run
as it was when the round began, and then renames the rendered keys. It ends when
nothing is pending, and fails when a round changes nothing. The commands are kept
apart until then and rendered once, against the resolved run.
-/

namespace ExperimentSuite

namespace Resolution

/-- Variables together with the run itself. -/
def context (run : Document) (vars : List (String × Document)) : List (String × Document) :=
  Keyed.insert Vocabulary.runBinding run vars

/-- Whether what a path leads to is settled, apart from one's own place. A missing key is settled
unless a key beside it is pending. -/
def isSettled (own : Place) (d : Document) (place : Place) : KeyPath → Bool
  | [] => !d.hasPending own place
  | key :: rest =>
      match d with
      | .map fields =>
          match Keyed.find? key fields with
          | some child => isSettled own child (place ++ [.key key]) rest
          | none => !fields.any fun f => Placeholder.occursIn f.1
      | .str s => !Placeholder.occursIn s
      | _ => true

/-- Whether a reference is no obstacle: it is none to the run, or it is settled there. -/
def isReady (run : Document) (own : Place) : KeyPath → Bool
  | [] => true
  | name :: path => name != Vocabulary.runBinding || isSettled own run [] path

/-- A failure at a place. -/
def failAt {α : Type} (place : Place) (problem : PlaceholderProblem) : Except Failure α :=
  .error (.template place.text problem)

/-- The outcome of the engine at a place. -/
def ofEngine {α : Type} (place : Place) (outcome : Except EngineFault α) : Except Failure α :=
  outcome.mapError fun fault => .template place.text (.engine fault)

/-- The value of a source: that of its expression if it is exactly one, else its text. -/
def evaluate (engine : Engine) (vars : List (String × Document)) (item : Pending) :
    Except Failure Document :=
  match Placeholder.singleExpression? item.source with
  | none => do
      let text ← ofEngine item.place (engine.render vars item.source)
      return .str text
  | some expression => do
      match ← ofEngine item.place (engine.evaluate vars expression) with
      | some value => return value
      | none =>
          let trimmed := String.ofList (Text.trim item.source.toList)
          if engine.tolerant then return .str "" else failAt item.place (.undefined trimmed)

/-- A key to rename: the place it had and its new name. -/
structure Rename where
  place : Place
  name : String

/-- What a round has done so far. -/
structure Round where
  run : Document
  renames : List Rename
  progressed : Bool

/-- Renders one source if it is ready. -/
def step (engine : Engine) (snapshot : Document) (vars : List (String × Document))
    (round : Round) (item : Pending) : Except Failure Round := do
  let references ← ofEngine item.place (engine.references item.source)
  if !references.all (isReady snapshot item.place) then return round
  if item.isKey then
    let name ← ofEngine item.place (engine.render vars item.source)
    return { round with renames := round.renames ++ [⟨item.place, name⟩], progressed := true }
  else
    let value ← evaluate engine vars item
    return { round with
      run := (round.run.putAt? item.place value).getD round.run, progressed := true }

/-- Gives the value under a key another key, which must be free. -/
def renameField (place : Place) (old new : String) (fields : List (String × Document)) :
    Except Failure (List (String × Document)) :=
  if new ≠ old ∧ Keyed.hasKey new fields then failAt place (.keyCollision new)
  else
    match Keyed.find? old fields with
    | some value => .ok (Keyed.insert new value (Keyed.erase old fields))
    | none => .ok fields

/-- Renames one key. -/
def rename (run : Document) (r : Rename) : Except Failure Document :=
  match r.place.getLast? with
  | some (.key old) =>
      let parent := r.place.dropLast
      match run.at? parent with
      | some (.map fields) => do
          let fields ← renameField r.place old r.name fields
          return (run.putAt? parent (.map fields)).getD run
      | _ => failAt r.place .keyHolderMissing
  | _ => .ok run

/-- Renames keys, the deepest first so that the places of the others stay what they are. -/
def renameAll (run : Document) (renames : List Rename) : Except Failure Document :=
  (renames.mergeSort fun a b => decide (b.place.length ≤ a.place.length)).foldlM rename run

/-- One round over the pending sources. -/
def round (engine : Engine) (vars : List (String × Document)) (run : Document)
    (pending : List Pending) : Except Failure Document := do
  let done ← pending.foldlM (step engine run (context run vars)) ⟨run, [], false⟩
  if !done.progressed then throw (.template (Pending.places pending) .stuck)
  renameAll done.run done.renames

/-- Rounds until nothing is pending, at most `rounds` of them. -/
def settle (engine : Engine) (vars : List (String × Document)) (rounds : Nat)
    (run : Document) : Except Failure Document :=
  let pending := run.pendingAt []
  if pending.isEmpty then .ok run
  else
    match rounds with
    | 0 => .error (.template (Pending.places pending) .tooManyRounds)
    | rounds + 1 => do
        let run ← round engine vars run pending
        settle engine vars rounds run

/-- Renders one source of the commands. -/
def commandStep (engine : Engine) (vars : List (String × Document)) (commands : Document)
    (item : Pending) : Except Failure Document := do
  if item.isKey then failAt item.place .commandKey
  let _ ← ofEngine item.place (engine.references item.source)
  let text ← ofEngine item.place (engine.render vars item.source)
  if Placeholder.occursIn text && !engine.tolerant then failAt item.place .commandPending
  return (commands.putAt? (item.place.drop 1) (.str text)).getD commands

/-- Renders the commands against a resolved run. -/
def resolveCommands (engine : Engine) (vars : List (String × Document))
    (run commands : Document) : Except Failure Document :=
  (commands.pendingAt [.key Vocabulary.command]).foldlM
    (commandStep engine (context run vars)) commands

/-- Puts commands back into a run. -/
def attach (commands : Document) : Document → Document
  | .map fields => .map (Keyed.insert Vocabulary.command commands fields)
  | d => d

/-- Resolves every placeholder of a run and then those of its commands. -/
def resolve (engine : Engine) (vars : List (String × Document)) (run : Document) :
    Except Failure Document := do
  if Keyed.hasKey Vocabulary.runBinding vars then
    throw (.template Vocabulary.runBinding .bindingTaken)
  match run with
  | .map fields =>
      let commands := Keyed.find? Vocabulary.command fields
      let resolved ← settle engine vars Vocabulary.maxPlaceholderRounds
        (.map (Keyed.erase Vocabulary.command fields))
      match commands with
      | some commands =>
          let commands ← resolveCommands engine vars resolved commands
          return attach commands resolved
      | none => return resolved
  | _ => throw (.template "<run>" .runNotMap)

end Resolution

end ExperimentSuite
