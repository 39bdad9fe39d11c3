import ExperimentSuite.Files.Storage
import ExperimentSuite.Suite.Compilation

/-!
# Projects

A project is a directory with designs, variables, host types and roles at fixed
places below it. Everything is read from the files that a program sees; each
suite of a project compiles on its own.
-/

namespace ExperimentSuite

/-- A project and where its parts lie. -/
structure Project where
  id : String
  root : String

namespace Project

/-- The directory of the designs. -/
def designs (p : Project) : String := Path.join p.root "designs"

/-- The directory of the variables. -/
def varsDirectory (p : Project) : String := Path.join p.designs "design_vars"

/-- The directory of the host types. -/
def groups (p : Project) : String := Path.join p.root "group_vars"

/-- The directory of the roles. -/
def roles (p : Project) : String := Path.join p.root "roles"

/-- The extension of designs. -/
def designExtension : String := "yml"

/-- The path of a suite's design. -/
def design (p : Project) (suite : String) : String :=
  Path.join p.designs (suite ++ "." ++ designExtension)

/-- The host type that stands for all hosts and needs no registration. -/
def allHosts : String := "all"

/-- The registry of a directory of host types and a directory of roles, the second of which may be
missing. -/
def scan (s : Session) (groups roles : String) : Except Failure Registry :=
  if !s.hasDirectory groups then .error (.file groups .noHostTypes)
  else
    let names := (s.namesIn groups FileTree.isDirectory).filter (· != allHosts)
    .ok ⟨names, s.namesIn roles FileTree.isDirectory⟩

/-- The registry of a project. -/
def registry (p : Project) (s : Session) : Except Failure Registry :=
  scan s p.groups p.roles

/-- The context of one of its suites. -/
def context (p : Project) (s : Session) (suite : String) : Except Failure SuiteContext := do
  return ⟨p.id, suite, ← p.registry s, s.loadVariables p.varsDirectory⟩

/-- The design of a suite. -/
def loadDesign (p : Project) (s : Session) (suite : String) : Except Failure Document :=
  s.load (p.design suite)

/-- Whether a file name is that of a design. -/
def isDesign (name : String) : Bool :=
  (Path.splitName name).2 == some designExtension

/-- The names of the suites with a design. -/
def suites (p : Project) (s : Session) : Except Failure (List String) :=
  if !s.hasDirectory p.designs then .error (.file p.designs .noDesigns)
  else
    let names := s.namesIn p.designs fun e => !e.isDirectory
    .ok (((names.filter isDesign).map fun name => (Path.splitName name).1).mergeSort)

/-- Prepares a suite. -/
def prepare (p : Project) (s : Session) (suite : String) : Except Failure PreparedSuite := do
  let context ← p.context s suite
  let design ← p.loadDesign s suite
  PreparedSuite.prepare context design

/-- Compiles a suite. -/
def compile (p : Project) (s : Session) (options : CompileOptions) (suite : String) :
    Except Failure CompiledSuite := do
  (← p.prepare s suite).expand options

/-- Compiles suites independently of each other. -/
def compileAll (p : Project) (s : Session) (options : CompileOptions) (suites : List String) :
    List (String × Except Failure CompiledSuite) :=
  suites.map fun suite => (suite, p.compile s options suite)

end Project

end ExperimentSuite
