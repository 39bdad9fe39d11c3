import ExperimentSuite.Failure
import ExperimentSuite.Text.Blank

/-!
# Identifiers

The project, the suite, its experiments and their host types share one space of
names with the reserved identifiers. The project and the suite are limited in
length only; experiments and host types are also limited to letters, digits and
underscores. No name of the space may occur twice, where a host type counts once
however many experiments use it.
-/

namespace ExperimentSuite

/-- The names of a suite. -/
structure Identifiers where
  project : String
  suite : String
  experiments : List String
  /-- The host types of all experiments, with repetitions. -/
  hostTypes : List String

namespace Identifiers

/-- Checks the length of a project or suite name. -/
def checkLength (kind identifier : String) : Except Failure Unit :=
  if identifier.isEmpty || decide (Vocabulary.maxIdentifierBytes < identifier.utf8ByteSize) then
    .error (.schema kind (.identifierLength identifier))
  else .ok ()

/-- Whether a name is a run of letters, digits and underscores. -/
def isWord (name : String) : Bool :=
  !name.isEmpty && name.toList.all Text.isWordAscii

/-- Checks the length and the characters of an experiment or host type name. -/
def checkName (name : String) : Except Failure Unit :=
  if Vocabulary.maxIdentifierBytes < name.utf8ByteSize then .error (.schema name .nameLength)
  else if !isWord name then .error (.schema name .nameCharacters)
  else .ok ()

/-- The host types without repetitions, in order. -/
def distinctHosts (ids : Identifiers) : List String :=
  Ascending.ofList ids.hostTypes

/-- The whole space of names. -/
def all (ids : Identifiers) : List String :=
  ids.project :: ids.suite :: ids.experiments ++ ids.distinctHosts
    ++ Vocabulary.reservedIdentifiers

/-- The names that occur more than once, in order. -/
def repeated (names : List String) : List String :=
  Ascending.ofList (names.filter fun name => decide (1 < names.count name))

/-- Checks names one after the other. -/
def checkNames : List String → Except Failure Unit
  | [] => .ok ()
  | name :: rest => do
      checkName name
      checkNames rest

/-- Checks the rules for every name and that no name occurs twice. -/
def check (ids : Identifiers) : Except Failure Unit := do
  checkLength "prj_id" ids.project
  checkLength "suite" ids.suite
  checkNames (ids.experiments ++ ids.distinctHosts)
  match repeated ids.all with
  | [] => return ()
  | names => throw (.duplicates names)

end Identifiers

end ExperimentSuite
