import ExperimentSuite.Failure
import ExperimentSuite.Files.Session
import ExperimentSuite.Yaml.Reader
import ExperimentSuite.Yaml.Writer

/-!
# Documents in files

Documents are read from YAML files and written as JSON or YAML, whichever the
extension of the path asks for.
-/

namespace ExperimentSuite

namespace Session

/-- The document in the file at a path. -/
def load (s : Session) (path : String) : Except Failure Document := do
  let text ← (s.read path).mapError (Failure.file path)
  match Yaml.read text with
  | .ok d => return d
  | .error .malformed => throw (.malformed path)
  | .error (.key .notText) => throw (.schema path .keyNotText)
  | .error (.key .notFinite) => throw (.schema path .keyNotFinite)

/-- Whether a path asks for JSON. -/
def asksForJson (path : String) : Bool :=
  match Path.extension? path with
  | some extension => extension.toList.map Text.lowerAscii == "json".toList
  | none => false

/-- The text of a document for a path. -/
def textFor (path : String) (d : Document) : String :=
  if asksForJson path then d.prettyJson ++ "\n" else Yaml.write d

/-- Writes a document to a path; returns the session in any case. -/
def save (s : Session) (path : String) (d : Document) : Session × Except Failure Unit :=
  let (s, outcome) := s.write path (textFor path d)
  (s, outcome.mapError (Failure.file path))

/-- The variables in a file below a directory. -/
def loadVariables (s : Session) (directory file : String) : Except Failure Document := do
  let path := Path.join directory file
  if !s.hasFile path then throw (.inclusion (.fileMissing path))
  let d ← s.load path
  if !d.isMap then throw (.inclusion (.fileNotMap path))
  return d

end Session

end ExperimentSuite
