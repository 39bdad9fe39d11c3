/-!
# Command line arguments

The arguments name a command and its options. An option takes its value from the
same argument after an equals sign or from the next argument, which must not look
like an option then. Two options are common to all commands and may stand on
either side of the command's name; the one after it wins, and either wins over
the environment. Every other use of the command line is refused as a whole.
-/

namespace ExperimentSuite

namespace CommandLine

/-- The names of the commands. -/
inductive CommandName where
  | design
  | describe
  | suites
deriving DecidableEq

/-- Options with a value. -/
inductive ValueOption where
  | configDir
  | projectId
  | expsFilter
  | designOut
  | runsOut
  | vars
  | set
deriving DecidableEq

/-- Options without a value. -/
inductive Flag where
  | validateOnly
  | ignoreUndefined
  | json
deriving DecidableEq

/-- The command of a name. -/
def CommandName.ofText? : String → Option CommandName
  | "design" => some .design
  | "describe" => some .describe
  | "suites" => some .suites
  | _ => none

/-- The option with a value of a name; those of the design command are no others' options. -/
def ValueOption.ofText? (command : Option CommandName) (name : String) : Option ValueOption :=
  match name with
  | "config-dir" => some .configDir
  | "prj-id" => some .projectId
  | _ =>
      if command = some .design then
        match name with
        | "exps-filter" => some .expsFilter
        | "design-out" => some .designOut
        | "runs-out" => some .runsOut
        | "vars" => some .vars
        | "set" => some .set
        | _ => none
      else none

/-- The option without a value of a name. -/
def Flag.ofText? (command : Option CommandName) (name : String) : Option Flag :=
  match command, name with
  | some _, "json" => some .json
  | some .design, "validate-only" => some .validateOnly
  | some .design, "ignore-undefined-vars" => some .ignoreUndefined
  | _, _ => none

/-- Whether the value of an option is a path, which is never empty. -/
def ValueOption.isPath : ValueOption → Bool
  | .configDir | .designOut | .runsOut | .vars => true
  | _ => false

/-- What the arguments on one side of the command's name say, in order. -/
structure Given where
  values : List (ValueOption × String)
  flags : List Flag
  names : List String

namespace Given

/-- Nothing given. -/
def nothing : Given := ⟨[], [], []⟩

/-- The first value of an option. -/
def value? (g : Given) (option : ValueOption) : Option String :=
  (g.values.find? (·.1 == option)).map (·.2)

/-- All values of an option. -/
def all (g : Given) (option : ValueOption) : List String :=
  (g.values.filter (·.1 == option)).map (·.2)

/-- Adds the value of an option; only bindings may be repeated. -/
def addValue? (g : Given) (option : ValueOption) (value : String) : Option Given :=
  if option.isPath && value.isEmpty then none
  else if option ≠ .set ∧ (g.value? option).isSome then none
  else some { g with values := g.values ++ [(option, value)] }

/-- Adds a flag, which may not be repeated. -/
def addFlag? (g : Given) (flag : Flag) : Option Given :=
  if g.flags.contains flag then none else some { g with flags := g.flags ++ [flag] }

/-- Adds a name that stands alone. -/
def addName (g : Given) (name : String) : Given :=
  { g with names := g.names ++ [name] }

end Given

/-- Information that ends the reading of the arguments. -/
inductive Notice where
  | help
  | version
deriving DecidableEq

/-- What the arguments of one side come to. -/
inductive Reading where
  | notice (n : Notice)
  /-- The arguments are at their end. -/
  | finished (g : Given)
  /-- The name of a command is followed by other arguments. -/
  | command (g : Given) (name : CommandName) (rest : List String)

/-- Whether an argument looks like an option. -/
def looksLikeOption (argument : String) : Bool :=
  argument.toList.head? == some '-' && argument != "-"

/-- The name of a long option and the value in the same argument. -/
def longOption? (argument : String) : Option (String × Option String) :=
  match argument.toList with
  | '-' :: '-' :: chars =>
      let name := String.ofList (chars.takeWhile (· != '='))
      match chars.dropWhile (· != '=') with
      | _ :: value => some (name, some (String.ofList value))
      | [] => some (name, none)
  | _ => none

/-- The information that a short option asks for. -/
def shortNotice? (command : Option CommandName) (argument : String) : Option Notice :=
  match argument.toList with
  | '-' :: 'h' :: _ => some .help
  | '-' :: 'V' :: _ => if command.isNone then some .version else none
  | _ => none

/-- The information that a long option asks for. -/
def longNotice? (command : Option CommandName) (name : String) : Option Notice :=
  if name = "help" then some .help
  else if name = "version" ∧ command.isNone then some .version
  else none

/-- Takes a name that stands alone: before the command's name it has to be that name. -/
def takeName? (command : Option CommandName) (g : Given) (name : String)
    (rest : List String) : Option (Sum Given Reading) :=
  match command with
  | some _ => some (.inl (g.addName name))
  | none =>
      if name = "help" then some (.inr (.notice .help))
      else (CommandName.ofText? name).map fun c => .inr (.command g c rest)

/-- Reads the arguments on one side of the command's name. -/
def read? (command : Option CommandName) (g : Given) : List String → Option Reading
  | [] => some (.finished g)
  | argument :: rest =>
      if argument = "--" then
        if command.isNone && !rest.isEmpty then none
        else some (.finished (rest.foldl Given.addName g))
      else
        match longOption? argument with
        | some (name, value?) =>
            match ValueOption.ofText? command name, Flag.ofText? command name,
                longNotice? command name, value? with
            | some option, _, _, some value =>
                match g.addValue? option value with
                | some g => read? command g rest
                | none => none
            | some option, _, _, none =>
                match rest with
                | value :: rest =>
                    if looksLikeOption value then none
                    else
                      match g.addValue? option value with
                      | some g => read? command g rest
                      | none => none
                | [] => none
            | none, some flag, _, none =>
                match g.addFlag? flag with
                | some g => read? command g rest
                | none => none
            | none, none, some notice, none => some (.notice notice)
            | none, _, _, _ => none
        | none =>
            if looksLikeOption argument then (shortNotice? command argument).map .notice
            else
              match takeName? command g argument rest with
              | some (.inl g) => read? command g rest
              | some (.inr reading) => some reading
              | none => none

/-- The arguments of the command that expands suites. -/
structure DesignRequest where
  suites : List String
  expsFilter : Option String
  designOut : Option String
  runsOut : Option String
  validateOnly : Bool
  tolerant : Bool
  varsFile : Option String
  bindings : List String
  json : Bool

/-- A command with its arguments. -/
inductive Command where
  | design (request : DesignRequest)
  | describe (suite : String) (json : Bool)
  | suites (json : Bool)

/-- Whether a command answers for machines. -/
def Command.json : Command → Bool
  | .design request => request.json
  | .describe _ json => json
  | .suites json => json

namespace Command

/-- The command of a name and what is given for it. -/
def ofGiven? (name : CommandName) (g : Given) : Option Command :=
  let json := g.flags.contains .json
  match name, g.names with
  | .design, first :: rest =>
      some (.design
        { suites := first :: rest
          expsFilter := g.value? .expsFilter
          designOut := g.value? .designOut
          runsOut := g.value? .runsOut
          validateOnly := g.flags.contains .validateOnly
          tolerant := g.flags.contains .ignoreUndefined
          varsFile := g.value? .vars
          bindings := g.all .set
          json })
  | .describe, [suite] => some (.describe suite json)
  | .suites, [] => some (.suites json)
  | _, _ => none

end Command

/-- What the environment says about the common options. -/
structure Environment where
  configDir : Option String
  projectId : Option String

/-- A command with the options that are common to all. -/
structure Invocation where
  configDir : String
  projectId : Option String
  command : Command

/-- What the arguments ask for. -/
inductive Request where
  | notice (n : Notice)
  | invoke (i : Invocation)

/-- The value of an option in the environment may not be an empty path, unless both sides of the
command's name give another value. -/
def Environment.isUsable (e : Environment) (outer inner : Given) : Bool :=
  e.configDir != some "" ||
    ((outer.value? .configDir).isSome && (inner.value? .configDir).isSome)

/-- The directory of the project when none is given. -/
def defaultDirectory : String := "."

/-- What arguments ask for; nothing if they are refused. -/
def Request.ofArguments? (environment : Environment) (arguments : List String) :
    Option Request := do
  match ← read? none .nothing arguments with
  | .notice n => return .notice n
  | .finished _ => none
  | .command outer name rest =>
      match ← read? (some name) .nothing rest with
      | .notice n => return .notice n
      | .command .. => none
      | .finished inner =>
          let command ← Command.ofGiven? name inner
          if !environment.isUsable outer inner then none
          let common (option : ValueOption) (fallback : Option String) : Option String :=
            ((inner.value? option).or (outer.value? option)).or fallback
          return .invoke
            { configDir := (common .configDir environment.configDir).getD defaultDirectory
              projectId := common .projectId environment.projectId
              command }

end CommandLine

end ExperimentSuite
