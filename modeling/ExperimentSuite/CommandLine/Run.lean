import ExperimentSuite.CommandLine.Arguments
import ExperimentSuite.Json.Printer
import ExperimentSuite.Json.Reader
import ExperimentSuite.Pattern.Parser
import ExperimentSuite.Suite.Project
import ExperimentSuite.Suite.Summary
import ExperimentSuite.Template.Engine

/-!
# Running commands

A command reads and writes files and says what to print and how to end. Suites
are expanded one after another; a suite that fails does not keep the others from
being expanded, but fails the command. For machines everything that is to be said
is one document on one line.
-/

namespace ExperimentSuite

namespace CommandLine

/-- Why a command or the expansion of one suite fails. -/
inductive Problem where
  | missingProject
  | badFilter
  | variablesNotMap (path : String)
  | bindingShape (binding : String)
  | bindingKey (binding : String)
  | failure (f : Failure)
  /-- A document cannot be written. -/
  | writing (path : String) (f : Failure)
  | suitesFailed (failed total : Nat)

/-- The cause of a failure, if it has one of its own. -/
def causeOf : Failure → List String
  | .file _ problem => [problem.message]
  | _ => []

namespace Problem

/-- What a problem says, followed by its causes. -/
def chain : Problem → List String
  | .missingProject => ["missing project id: pass --prj-id or set DOES_PROJECT_ID"]
  | .badFilter => ["invalid --exps-filter"]
  | .variablesNotMap path => ["--vars file must contain a mapping: " ++ path]
  | .bindingShape binding => ["invalid --set '" ++ binding ++ "': expected k=v"]
  | .bindingKey binding => ["invalid --set '" ++ binding ++ "': key cannot be empty"]
  | .failure f => f.message :: causeOf f
  | .writing path f => ("writing " ++ path) :: f.message :: causeOf f
  | .suitesFailed failed total => [toString failed ++ " of " ++ toString total ++ " suites failed"]

/-- The short code of a problem. -/
def code : Problem → String
  | .failure f => f.code
  | .writing _ f => f.code
  | _ => "command_failed"

/-- A problem on one line. -/
def line (p : Problem) : String := ": ".intercalate p.chain

/-- A cause with its position among several. -/
def numbered (cause : Nat × String) : String := "    " ++ toString cause.1 ++ ": " ++ cause.2

/-- A problem for people, its causes in a paragraph of their own. -/
def paragraphs (p : Problem) : String :=
  match p.chain with
  | [] => "Error: "
  | [message] => "Error: " ++ message
  | [message, cause] => "Error: " ++ message ++ "\n\nCaused by:\n    " ++ cause
  | message :: causes =>
      "Error: " ++ message ++ "\n\nCaused by:\n"
        ++ "\n".intercalate ((List.range causes.length).zip causes |>.map numbered)

/-- A problem for machines. -/
def document (p : Problem) : Document :=
  .ofFields
    [("ok", .bool false),
      ("error", .ofFields
        [("code", .str p.code), ("message", .str p.line), ("details", .empty)])]

end Problem

/-- What a command leaves behind. -/
structure Outcome where
  exitCode : Nat
  out : String
  err : String
  session : Session

namespace Outcome

/-- A text as a line. -/
def line (s : String) : String := s ++ "\n"

/-- A command that ends well. -/
def success (s : Session) (out : String) : Outcome := ⟨0, out, "", s⟩

/-- A command that ends with a document for machines. -/
def answer (s : Session) (exitCode : Nat) (d : Document) : Outcome :=
  ⟨exitCode, line d.json, "", s⟩

/-- A command that fails after some words for people. -/
def failed (s : Session) (out err : String) (json : Bool) (p : Problem) : Outcome :=
  if json then answer s 1 p.document else ⟨1, out, err ++ line p.paragraphs, s⟩

/-- A command whose arguments are refused. -/
def refused (s : Session) : Outcome := ⟨2, "", "", s⟩

end Outcome

namespace Design

/-- The variables of a file. -/
def variablesOf (s : Session) : Option String → Except Problem (List (String × Document))
  | none => .ok []
  | some path => do
      match ← (s.load path).mapError Problem.failure with
      | .map fields => return fields
      | _ => throw (.variablesNotMap path)

/-- The name and value of a binding: the value is what its text stands for, else the text. -/
def binding (text : String) : Except Problem (String × Document) :=
  let chars := text.toList
  match chars.dropWhile (· != '=') with
  | [] => .error (.bindingShape text)
  | _ :: value =>
      let key := chars.takeWhile (· != '=')
      if (Text.trim key).isEmpty then .error (.bindingKey text)
      else
        let value := String.ofList value
        .ok (String.ofList key, (Json.parse? value).getD (.str value))

/-- Which experiments a pattern selects. -/
def selection : Option String → Except Problem (String → Bool)
  | none => .ok fun _ => true
  | some pattern =>
      match Pattern.parse? pattern with
      | some p => .ok p.occursIn
      | none => .error .badFilter

/-- How suites are compiled. -/
def optionsOf (s : Session) (request : DesignRequest) : Except Problem CompileOptions := do
  let selects ← selection request.expsFilter
  let given ← variablesOf s request.varsFile
  let bindings ← request.bindings.mapM binding
  return {
    engine := Template.engine request.tolerant
    selects
    vars := bindings.foldl (fun all b => Keyed.insert b.1 b.2 all) given }

/-- The path of a suite's output; suites that share an output each get one of their own. -/
def outputPath (request : DesignRequest) (suite base : String) : String :=
  if 1 < request.suites.length then Path.forSuite base suite else base

/-- What is left of the runs of a suite. -/
inductive RunOutput where
  | written (path : String)
  | shown (runs : Document)

/-- The expansion of a suite in figures. -/
structure Expanded where
  runs : Nat
  digest : String
  output : RunOutput

/-- The report on one suite. -/
structure Report where
  suite : String
  design : String
  experiments : Nat
  designOut : Option String
  /-- Nothing if the suite is only validated. -/
  expanded : Option Expanded

namespace Report

/-- The fields of the expansion. -/
def expandedFields : Option Expanded → List (String × Document)
  | none => [("validated", .bool true)]
  | some e =>
      [("runs", .nat e.runs), ("digest", .str e.digest),
        match e.output with
        | .written path => ("runs_out", .str path)
        | .shown runs => ("run_lists", runs)]

/-- A report for machines. -/
def document (r : Report) : Document :=
  .ofFields
    ([("suite", .str r.suite), ("design", .str r.design), ("experiments", .nat r.experiments)]
      ++ (match r.designOut with
          | some path => [("design_out", Document.str path)]
          | none => [])
      ++ expandedFields r.expanded)

/-- The lines about the expansion. -/
def expandedLines : Option Expanded → List String
  | none => []
  | some e =>
      ["runs: " ++ toString e.runs]
      ++ (match e.output with
          | .written path => ["runs_out: " ++ path]
          | .shown _ => [])
      ++ ["digest: " ++ e.digest]

/-- A report for people: the runs if they are not in a file, else what has been done. -/
def text (r : Report) : String :=
  match r.expanded with
  | some ⟨_, _, .shown runs⟩ => Yaml.write runs
  | expanded =>
      String.join <| List.map Outcome.line <|
        ["suite: " ++ r.suite, "experiments: " ++ toString r.experiments]
        ++ (match r.designOut with
            | some path => ["design_out: " ++ path]
            | none => [])
        ++ expandedLines expanded
        ++ (if expanded.isNone then ["validated: true"] else [])

end Report

/-- Writes a document. -/
def save (s : Session) (path : String) (d : Document) : Session × Except Problem Unit :=
  let (s, outcome) := s.save path d
  (s, outcome.mapError (Problem.writing path))

/-- Writes the prepared design of a suite if that is asked for. -/
def saveDesign (request : DesignRequest) (s : Session) (suite : String) (prepared : PreparedSuite) :
    Session × Except Problem (Option String) :=
  match request.designOut with
  | none => (s, .ok none)
  | some base =>
      let path := outputPath request suite base
      let (s, outcome) := save s path prepared.document
      (s, outcome.map fun _ => some path)

/-- Writes the runs of a suite if that is asked for. -/
def saveRuns (request : DesignRequest) (s : Session) (suite : String) (compiled : CompiledSuite) :
    Session × Except Problem RunOutput :=
  match request.runsOut with
  | none => (s, .ok (.shown compiled.document))
  | some base =>
      let path := outputPath request suite base
      let (s, outcome) := save s path compiled.document
      (s, outcome.map fun _ => .written path)

/-- Expands one suite. -/
def suiteReport (p : Project) (options : CompileOptions) (request : DesignRequest) (s : Session)
    (suite : String) : Session × Except Problem Report :=
  match p.prepare s suite with
  | .error f => (s, .error (.failure f))
  | .ok prepared =>
      match saveDesign request s suite prepared with
      | (s, .error problem) => (s, .error problem)
      | (s, .ok designOut) =>
          let report : Report :=
            { suite, design := p.design suite, experiments := prepared.experiments.length
              designOut, expanded := none }
          if request.validateOnly then (s, .ok report)
          else
            match prepared.expand options with
            | .error f => (s, .error (.failure f))
            | .ok compiled =>
                let (s, outcome) := saveRuns request s suite compiled
                (s, outcome.map fun output =>
                  { report with expanded := some ⟨compiled.runCount, compiled.digest, output⟩ })

/-- What has become of the suites so far. -/
structure Progress where
  session : Session
  reports : List Report
  failed : List (String × Problem)

/-- Goes on with one suite. -/
def Progress.add (p : Project) (options : CompileOptions) (request : DesignRequest)
    (progress : Progress) (suite : String) : Progress :=
  match suiteReport p options request progress.session suite with
  | (s, .ok report) => { progress with session := s, reports := progress.reports ++ [report] }
  | (s, .error problem) =>
      { progress with session := s, failed := progress.failed ++ [(suite, problem)] }

/-- The document about all suites. -/
def Progress.document (progress : Progress) : Document :=
  .ofFields
    [("ok", .bool progress.failed.isEmpty), ("command", .str "design"),
      ("suites", .list (progress.reports.map Report.document)),
      ("failed", .list (progress.failed.map fun (suite, problem) =>
        .ofFields [("suite", .str suite), ("error", .str problem.line)]))]

/-- The words about all suites. -/
def Progress.outcome (request : DesignRequest) (progress : Progress) : Outcome :=
  let count := progress.failed.length
  if request.json then .answer progress.session (if count = 0 then 0 else 1) progress.document
  else
    let out := String.join (progress.reports.map Report.text)
    let err := String.join <| progress.failed.map fun (suite, problem) =>
      Outcome.line ("suite " ++ suite ++ " failed: " ++ problem.line)
    if count = 0 then .success progress.session out
    else .failed progress.session out err false (.suitesFailed count request.suites.length)

/-- Runs the command that expands suites. -/
def run (s : Session) (configDir : String) (projectId : Option String)
    (request : DesignRequest) : Outcome :=
  match projectId with
  | none => .failed s "" "" request.json .missingProject
  | some id =>
      match optionsOf s request with
      | .error problem => .failed s "" "" request.json problem
      | .ok options =>
          let start : Progress := ⟨s, [], []⟩
          (request.suites.foldl (Progress.add ⟨id, configDir⟩ options request) start).outcome
            request

end Design

/-- Runs the command that describes a suite. -/
def describe (s : Session) (p : Project) (suite : String) (json : Bool) : Outcome :=
  match p.prepare s suite with
  | .error f => .failed s "" "" json (.failure f)
  | .ok prepared =>
      let summary := prepared.summary
      if json then
        .answer s 0 <| .ofFields
          [("ok", .bool true), ("command", .str "describe"), ("suite", .str suite),
            ("experiments", .list (summary.map ExperimentSummary.document))]
      else
        let lines := ("suite: " ++ suite) :: summary.flatMap ExperimentSummary.lines
        .success s (String.join (lines.map Outcome.line))

/-- Runs the command that lists suites. -/
def listSuites (s : Session) (p : Project) (json : Bool) : Outcome :=
  match (do return (← p.suites s, ← p.registry s) : Except Failure (List String × Registry)) with
  | .error f => .failed s "" "" json (.failure f)
  | .ok (suites, registry) =>
      if json then
        .answer s 0 <| .ofFields
          [("ok", .bool true), ("command", .str "suites"), ("designs_dir", .str p.designs),
            ("suites", .list (suites.map .str)),
            ("host_types", .list (registry.hostTypes.map .str)),
            ("roles", .list (registry.roles.map .str))]
      else .success s (String.join (suites.map Outcome.line))

/-- The name and version of the command line. -/
def versionText : String := "doe 0.1.0"

/-- Runs what the arguments ask for. -/
def run (environment : Environment) (s : Session) (arguments : List String) : Outcome :=
  match Request.ofArguments? environment arguments with
  | none => .refused s
  | some (.notice .help) => .success s ""
  | some (.notice .version) => .success s (Outcome.line versionText)
  | some (.invoke i) =>
      let project : Project := ⟨i.projectId.getD "", i.configDir⟩
      match i.command with
      | .design request => Design.run s i.configDir i.projectId request
      | .describe suite json => describe s project suite json
      | .suites json => listSuites s project json

end CommandLine

end ExperimentSuite
