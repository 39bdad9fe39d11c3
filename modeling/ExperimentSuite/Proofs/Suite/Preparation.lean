import ExperimentSuite.Proofs.Experiment.Command
import ExperimentSuite.Proofs.Experiment.Reading
import ExperimentSuite.Proofs.Experiment.ReservedKeys
import ExperimentSuite.Proofs.Inclusion.Stages
import ExperimentSuite.Suite.Preparation

/-!
# What preparation establishes

A preparation that succeeds has passed every check on the way. What it has
done is said stage by stage: how a design splits into its sections, how each
experiment is made from its raw document, and which properties the parts of a
prepared suite have in common.
-/

namespace ExperimentSuite

open Document Inclusion

namespace Sections

variable {parts start : Sections} {fields : List (String × Document)} {suite : String}
  {design : Document}

/-- Whether a key of a design names an experiment. -/
def isExperiment (key : String) : Bool :=
  key ≠ Vocabulary.suiteVars && key ≠ Vocabulary.pipelines

/-- What a design may hold under a key. -/
def Allowed (field : String × Document) : Prop :=
  if isExperiment field.1 then field.1.toList.head? ≠ some '$' else field.2.isMap = true

/-- The sections that fields with different keys belong to. -/
def split (start : Sections) (fields : List (String × Document)) : Sections where
  vars := (Keyed.find? Vocabulary.suiteVars fields).getD start.vars
  pipelines := (Keyed.find? Vocabulary.pipelines fields).or start.pipelines
  experiments := start.experiments ++ fields.filter fun e => isExperiment e.1

theorem isExperiment_suiteVars : isExperiment Vocabulary.suiteVars = false := by decide

theorem isExperiment_pipelines : isExperiment Vocabulary.pipelines = false := by decide

theorem suiteVars_ne_pipelines : Vocabulary.suiteVars ≠ Vocabulary.pipelines := by decide

/-- One field goes to its section if it is allowed. -/
theorem add_eq_ok {field : String × Document} :
    add start field = .ok parts ↔ Allowed field ∧ parts = split start [field] := by
  obtain ⟨key, value⟩ := field
  by_cases hvars : key = Vocabulary.suiteVars
  · subst hvars
    simp [add, Outcome.ite_eq_ok, Allowed, split, isExperiment, Keyed.find?, suiteVars_ne_pipelines]
  · by_cases hpipelines : key = Vocabulary.pipelines
    · subst hpipelines
      simp [add, Outcome.ite_eq_ok, Allowed, split, isExperiment, Keyed.find?, hvars]
    · by_cases hhead : key.toList.head? = some '$'
      · simp [add, Allowed, isExperiment, hvars, hpipelines, hhead]
      · simp [add, Allowed, split, isExperiment, Keyed.find?, hvars, hpipelines, hhead, eq_comm]

/-- Fields with different keys are sorted one after the other as they are all at once. -/
theorem split_split {field : String × Document} {rest : List (String × Document)}
    (hnone : Keyed.find? field.1 rest = none) :
    split (split start [field]) rest = split start (field :: rest) := by
  have hfound : ∀ key, Keyed.find? key (field :: rest) =
      (Keyed.find? key rest).or (Keyed.find? key [field]) := by
    intro key
    by_cases hkey : field.1 = key
    · subst hkey
      simp [Keyed.find?, hnone]
    · simp [Keyed.find?, hkey]
  have hexperiments : ([field] ++ rest).filter (fun e => isExperiment e.1) =
      [field].filter (fun e => isExperiment e.1) ++ rest.filter fun e => isExperiment e.1 :=
    List.filter_append ..
  simp only [split, hfound, Option.getD_or, Option.or_assoc, List.append_assoc, ← hexperiments,
    List.singleton_append]

theorem foldlM_add_eq_ok (hkeys : (Keyed.keys fields).Nodup) :
    fields.foldlM add start = .ok parts ↔
      (∀ field ∈ fields, Allowed field) ∧ parts = split start fields := by
  induction fields generalizing start with
  | nil => simp [split, pure, Except.pure, Keyed.find?, eq_comm]
  | cons field rest ih =>
      obtain ⟨hnot, hrest⟩ := List.nodup_cons.mp hkeys
      have hsplit : split (split start [field]) rest = split start (field :: rest) :=
        split_split (Keyed.find?_eq_none_of_not_mem hnot)
      rw [Outcome.foldlM_cons_eq_ok, List.forall_mem_cons]
      constructor
      · rintro ⟨middle, hmiddle, h⟩
        obtain ⟨hallowed, rfl⟩ := add_eq_ok.mp hmiddle
        obtain ⟨hall, rfl⟩ := (ih hrest).mp h
        exact ⟨⟨hallowed, hall⟩, hsplit⟩
      · rintro ⟨⟨hallowed, hall⟩, rfl⟩
        exact ⟨_, add_eq_ok.mpr ⟨hallowed, rfl⟩, (ih hrest).mpr ⟨hall, hsplit.symm⟩⟩

/-- A design splits into its sections if every field is allowed and one is an experiment. -/
theorem ofDesign_eq_ok (hkeys : (Keyed.keys fields).Nodup) :
    ofDesign suite (.map fields) = .ok parts ↔ (∀ field ∈ fields, Allowed field) ∧
      parts = split ⟨.empty, none, []⟩ fields ∧ parts.experiments ≠ [] := by
  rw [ofDesign, Outcome.bind_eq_ok]
  constructor
  · rintro ⟨middle, hmiddle, h⟩
    obtain ⟨hallowed, hsplit⟩ := (foldlM_add_eq_ok hkeys).mp hmiddle
    split at h
    · cases h
    next hne =>
    cases h
    exact ⟨hallowed, hsplit, by simpa using hne⟩
  · rintro ⟨hallowed, hsplit, hne⟩
    refine ⟨parts, (foldlM_add_eq_ok hkeys).mpr ⟨hallowed, hsplit⟩, ?_⟩
    rw [if_neg (by simpa using hne)]
    rfl

/-- Sections that a design can have. -/
structure Proper (parts : Sections) : Prop where
  isMap : parts.vars.isMap = true
  sorted : Keyed.Sorted parts.experiments
  /-- No experiment is named like another section. -/
  named : ∀ e ∈ parts.experiments, isExperiment e.1 = true ∧ e.1.toList.head? ≠ some '$'
  pipelines : ∀ pipelines ∈ parts.pipelines, pipelines.isMap = true
  nonempty : parts.experiments ≠ []

/-- The documents in the sections have their keys in order. -/
structure Ordered (parts : Sections) : Prop where
  vars : parts.vars.Ordered
  experiment : ∀ e ∈ parts.experiments, e.2.Ordered

theorem exists_fields_of_ofDesign (h : ofDesign suite design = .ok parts) :
    ∃ fields, design = .map fields := by
  cases design with
  | map fields => exact ⟨fields, rfl⟩
  | _ => cases h

theorem ordered_of_ofDesign (hd : design.Ordered) (h : ofDesign suite design = .ok parts) :
    parts.Ordered := by
  obtain ⟨fields, rfl⟩ := exists_fields_of_ofDesign h
  obtain ⟨-, rfl, -⟩ := (ofDesign_eq_ok hd.sorted.nodup_keys).mp h
  constructor
  case vars =>
    rw [split]
    cases hvars : Keyed.find? Vocabulary.suiteVars fields with
    | none => exact ordered_empty
    | some vars => exact hd.find? hvars
  case experiment =>
    exact fun e he => (ordered_map_iff.mp hd).2 e (List.mem_filter.mp he).1

theorem proper_of_ofDesign (hd : design.Ordered) (h : ofDesign suite design = .ok parts) :
    parts.Proper := by
  obtain ⟨fields, rfl⟩ := exists_fields_of_ofDesign h
  obtain ⟨hallowed, rfl, hne⟩ := (ofDesign_eq_ok hd.sorted.nodup_keys).mp h
  have hother : ∀ {key value}, Keyed.find? key fields = some value → isExperiment key = false →
      value.isMap = true := by
    intro key value hvalue hkey
    have hfield := hallowed _ (Keyed.mem_of_find? hvalue)
    rwa [Allowed, if_neg (by simp [hkey])] at hfield
  constructor
  case isMap =>
    rw [split]
    cases hvars : Keyed.find? Vocabulary.suiteVars fields with
    | none => rfl
    | some vars => exact hother hvars isExperiment_suiteVars
  case sorted => exact hd.sorted.sublist List.filter_sublist
  case named =>
    intro e he
    obtain ⟨hmem, hkey⟩ := List.mem_filter.mp he
    have hfield := hallowed e hmem
    rw [Allowed, if_pos hkey] at hfield
    exact ⟨hkey, hfield⟩
  case pipelines =>
    intro pipelines hpipelines
    rw [split, Option.or_none] at hpipelines
    exact hother hpipelines isExperiment_pipelines
  case nonempty => exact hne

end Sections

namespace PreparedExperiment

variable {load : String → Except Failure Document} {vars base : Document} {name : String}
  {spec : Experiment} {e : PreparedExperiment} {hosts normals : List (String × HostType)}

/-- A host type and the same one with its commands in normal form. -/
def Normalizes (name : String) (host normal : HostType) : Prop :=
  ∃ commands, Command.normalize name host.instances host.commands = .ok commands ∧
    normal = { host with commands := .list commands }

theorem mapM_normalizeHost_eq_ok :
    hosts.mapM normalizeHost = .ok normals ↔ Keyed.Aligned Normalizes hosts normals := by
  have hstep : ∀ host normal, normalizeHost host = .ok normal ↔
      host.1 = normal.1 ∧ Normalizes host.1 host.2 normal.2 := by
    intro host normal
    rw [normalizeHost, Outcome.bind_eq_ok]
    constructor
    · rintro ⟨commands, hcommands, h⟩
      cases h
      exact ⟨rfl, commands, hcommands, rfl⟩
    · rintro ⟨hname, commands, hcommands, hhost⟩
      refine ⟨commands, hcommands, ?_⟩
      rw [← hhost, hname]
      rfl
  simp only [Outcome.mapM_eq_ok_iff, hstep, Keyed.Aligned]

/-- What preparing an experiment has checked and done. -/
structure Prepares (load : String → Except Failure Document) (vars : Document) (name : String)
    (spec : Experiment) (e : PreparedExperiment) : Prop where
  included : ∃ own report, Inclusion.resolve load spec.configuration = .ok (own, report) ∧
    ∃ inherited, own.absorb vars = .ok (e.spec.configuration, inherited)
  unreserved : e.spec.configuration.Unreserved
  extracted : FactorPlan.extract e.spec.configuration = .ok e.plan
  entries : FactorLevels.check e.plan.levelPaths e.spec.factorLevels = .ok ()
  hosts : Keyed.Aligned Normalizes spec.hostTypes e.spec.hostTypes
  rest : e.spec = { spec with
    configuration := e.spec.configuration, hostTypes := e.spec.hostTypes }

theorem prepare_eq_ok : prepare load vars name spec = .ok e ↔ Prepares load vars name spec e := by
  simp only [prepare, Outcome.bind_eq_ok, Outcome.mapError_eq_ok, Prod.exists,
    mapM_normalizeHost_eq_ok]
  constructor
  · rintro ⟨own, report, hown, configuration, inherited, habsorb, ⟨⟩, hreserved, plan, hplan, ⟨⟩,
      hentries, hosts, hhosts, h⟩
    cases h
    exact ⟨⟨own, report, hown, inherited, habsorb⟩, checkReserved_eq_ok.mp hreserved, hplan,
      hentries, hhosts, rfl⟩
  · rintro ⟨⟨own, report, hown, inherited, habsorb⟩, hreserved, hplan, hentries, hhosts, hrest⟩
    refine ⟨own, report, hown, _, inherited, habsorb, (), checkReserved_eq_ok.mpr hreserved,
      _, hplan, (), ?_, _, hhosts, ?_⟩
    · rw [hrest] at hentries
      exact hentries
    · rw [← hrest]
      rfl

/-- What an experiment has once it is prepared, and what its expansion relies on. -/
structure Ready (e : PreparedExperiment) : Prop where
  valid : e.spec.Valid
  ordered : e.spec.Ordered
  unreserved : e.spec.configuration.Unreserved
  extracted : FactorPlan.extract e.spec.configuration = .ok e.plan
  entries : FactorLevels.check e.plan.levelPaths e.spec.factorLevels = .ok ()
  /-- Every host type has one command in normal form for each instance. -/
  normal : ∀ host ∈ e.spec.hostTypes, ∃ commands, host.2.commands = .list commands ∧
    commands.length = host.2.instances ∧ ∀ command ∈ commands, Command.IsNormal command

/-- Commands in normal form have the shape of commands. -/
theorem Normalizes.valid {name : String} {host normal : HostType} (h : Normalizes name host normal)
    (hhost : host.Valid) : normal.Valid ∧ ∃ commands, normal.commands = .list commands ∧
      commands.length = normal.instances ∧ ∀ command ∈ commands, Command.IsNormal command := by
  obtain ⟨commands, hcommands, rfl⟩ := h
  obtain ⟨-, hlength, hnormal⟩ := Command.isNormal_of_normalize hcommands
  refine ⟨⟨hhost.positive, hhost.bounded, ?_⟩, commands, rfl, hlength, hnormal⟩
  have hpositive := hhost.positive
  have hne : commands ≠ [] := by
    rintro rfl
    simp only [List.length_nil] at hlength
    omega
  simpa [Shape.isCommands, hne] using fun command hcommand => (hnormal command hcommand).2

theorem Prepares.ready (h : Prepares load vars name spec e) (hload : LoadsOrdered load)
    (hvars : vars.Ordered) (hvalid : spec.Valid) (hordered : spec.Ordered) : e.Ready := by
  obtain ⟨own, report, hown, inherited, habsorb⟩ := h.included
  obtain ⟨-, hownOrdered, hownMap⟩ := resolved_of_resolve hload hordered.configuration hown
  have hmap : e.spec.configuration.isMap = true :=
    isMap_of_absorb habsorb (hownMap hvalid.configuration)
  have hconfiguration : e.spec.configuration.Ordered :=
    Ordered.absorbLeaves hownOrdered hvars habsorb
  have hhosts : ∀ host ∈ e.spec.hostTypes, host.2.Valid ∧ ∃ commands,
      host.2.commands = .list commands ∧ commands.length = host.2.instances ∧
        ∀ command ∈ commands, Command.IsNormal command := by
    intro host hhost
    obtain ⟨source, hsource, hnormalizes⟩ := h.hosts.exists_source hhost
    exact hnormalizes.valid (hvalid.host _ hsource)
  have hrest := h.rest
  constructor
  case valid =>
    constructor
    case hosts => exact h.hosts.ne_nil hvalid.hosts
    case host => exact fun host hhost => (hhosts host hhost).1
    case configuration => exact hmap
    all_goals rw [hrest]
    · exact hvalid.positive
    · exact hvalid.bounded
    · exact hvalid.entries
    · exact hvalid.entry
    · exact hvalid.filter
  case ordered =>
    refine ⟨h.hosts.sorted hordered.hosts, hconfiguration, ?_⟩
    rw [hrest]
    exact hordered.entry
  case unreserved => exact h.unreserved
  case extracted => exact h.extracted
  case entries => exact h.entries
  case normal => exact fun host hhost => (hhosts host hhost).2

end PreparedExperiment

namespace Registry

/-- The check passes if the registry has all that an experiment names. -/
theorem check_eq_ok {registry : Registry} {name : String} {spec : Experiment} :
    registry.check name spec = .ok () ↔ registry.missing spec = [] := by
  rw [check]
  cases registry.missing spec <;> simp

end Registry

namespace PreparedSuite

variable {context : SuiteContext} {design : Document} {parts : Sections}
  {specs : List (String × Experiment)} {s : PreparedSuite}

/-- What preparing a suite has checked and done, once its sections are known and its experiments are
parsed. -/
structure Prepares (context : SuiteContext) (parts : Sections) (specs : List (String × Experiment))
    (s : PreparedSuite) : Prop where
  parsed : Keyed.Aligned (fun name raw spec => Experiment.parse name raw = .ok spec)
    parts.experiments specs
  named : (identifiers context specs).check = .ok ()
  registered : ∀ e ∈ specs, context.registry.missing e.2 = []
  referenced : ∀ pipelines ∈ parts.pipelines, Pipelines.check (Keyed.keys specs) pipelines = .ok ()
  vars : ∃ report, Inclusion.resolve context.loadVariables parts.vars = .ok (s.vars, report)
  experiments : Keyed.Aligned (PreparedExperiment.Prepares context.loadVariables s.vars)
    specs s.experiments
  project : s.project = context.project
  suite : s.suite = context.suite
  pipelines : s.pipelines = parts.pipelines

/-- The stages of a preparation that come after the checks of the whole design. -/
def finish (context : SuiteContext) (parts : Sections) (specs : List (String × Experiment)) :
    Except Failure PreparedSuite := do
  let (vars, _) ← Inclusion.resolve context.loadVariables parts.vars
  let experiments ← specs.mapM fun (name, spec) => do
    return (name, ← PreparedExperiment.prepare context.loadVariables vars name spec)
  return ⟨context.project, context.suite, vars, parts.pipelines, experiments⟩

theorem finish_eq_ok :
    finish context parts specs = .ok s ↔
      (∃ report, Inclusion.resolve context.loadVariables parts.vars = .ok (s.vars, report)) ∧
        Keyed.Aligned (PreparedExperiment.Prepares context.loadVariables s.vars)
          specs s.experiments ∧
        s.project = context.project ∧ s.suite = context.suite ∧ s.pipelines = parts.pipelines := by
  simp only [finish, Outcome.bind_eq_ok, Prod.exists, Keyed.traverse_eq_ok,
    PreparedExperiment.prepare_eq_ok]
  constructor
  · rintro ⟨vars, report, hvars, experiments, hexperiments, h⟩
    cases h
    exact ⟨⟨report, hvars⟩, hexperiments, rfl, rfl, rfl⟩
  · rintro ⟨⟨report, hvars⟩, hexperiments, hproject, hsuite, hpipelines⟩
    refine ⟨_, report, hvars, _, hexperiments, ?_⟩
    rw [← hproject, ← hsuite, ← hpipelines]
    rfl

/-- A preparation that succeeds splits the design, parses its experiments and passes every check. -/
theorem prepare_eq_ok :
    prepare context design = .ok s ↔ ∃ parts, Sections.ofDesign context.suite design = .ok parts ∧
      ∃ specs, Prepares context parts specs s := by
  simp only [prepare, Outcome.bind_eq_ok]
  refine exists_congr fun parts => and_congr_right fun _ => exists_congr fun specs => ?_
  constructor
  · rintro ⟨hparsed, ⟨⟩, hnamed, ⟨⟩, hregistered, h⟩
    have hstages : (∀ pipelines ∈ parts.pipelines,
        Pipelines.check (Keyed.keys specs) pipelines = .ok ()) ∧
          finish context parts specs = .ok s := by
      split at h
      · next pipelines hpipelines =>
          obtain ⟨⟨⟩, hcheck, h⟩ := Outcome.bind_eq_ok.mp h
          exact ⟨by simpa [hpipelines] using hcheck, h⟩
      · next hpipelines => exact ⟨by simp [hpipelines], h⟩
    obtain ⟨hreferenced, hfinish⟩ := hstages
    obtain ⟨hvars, hexperiments, hproject, hsuite, hpipelines⟩ := finish_eq_ok.mp hfinish
    have hnames : ∀ e ∈ specs, context.registry.missing e.2 = [] :=
      fun e he => Registry.check_eq_ok.mp (Outcome.forM_eq_ok.mp hregistered e he)
    exact ⟨Keyed.traverse_eq_ok.mp hparsed, hnamed, hnames, hreferenced, hvars, hexperiments,
      hproject, hsuite, hpipelines⟩
  · intro h
    have hfinish : finish context parts specs = .ok s :=
      finish_eq_ok.mpr ⟨h.vars, h.experiments, h.project, h.suite, h.pipelines⟩
    refine ⟨Keyed.traverse_eq_ok.mpr h.parsed, (), h.named, (), ?_, ?_⟩
    · exact Outcome.forM_eq_ok.mpr fun e he => Registry.check_eq_ok.mpr (h.registered e he)
    · split
      · next pipelines hpipelines =>
          exact Outcome.bind_eq_ok.mpr ⟨(), h.referenced pipelines hpipelines, hfinish⟩
      · exact hfinish

/-- The variables of a suite are an ordered mapping without markers. -/
theorem Prepares.vars_resolved (h : Prepares context parts specs s)
    (hload : LoadsOrdered context.loadVariables) (hordered : parts.Ordered)
    (hmap : parts.vars.isMap = true) :
    nextMarker s.vars = .ok none ∧ s.vars.Ordered ∧ s.vars.isMap = true := by
  obtain ⟨report, hvars⟩ := h.vars
  obtain ⟨hnext, hvarsOrdered, hvarsMap⟩ := resolved_of_resolve hload hordered.vars hvars
  exact ⟨hnext, hvarsOrdered, hvarsMap hmap⟩

/-- Where an experiment of a suite comes from. -/
theorem Prepares.exists_raw (h : Prepares context parts specs s) {name : String}
    {e : PreparedExperiment} (he : (name, e) ∈ s.experiments) :
    ∃ raw spec, (name, raw) ∈ parts.experiments ∧ Experiment.parse name raw = .ok spec ∧
      PreparedExperiment.Prepares context.loadVariables s.vars name spec e := by
  obtain ⟨spec, hspec, hprepares⟩ := h.experiments.exists_source he
  obtain ⟨raw, hraw, hparse⟩ := h.parsed.exists_source hspec
  exact ⟨raw, spec, hraw, hparse, hprepares⟩

/-- Every experiment of a prepared suite is ready to be expanded. -/
theorem ready_of_prepare (hload : LoadsOrdered context.loadVariables) (hd : design.Ordered)
    (h : prepare context design = .ok s) : ∀ e ∈ s.experiments, e.2.Ready := by
  obtain ⟨parts, hparts, specs, hprepares⟩ := prepare_eq_ok.mp h
  have hordered := Sections.ordered_of_ofDesign hd hparts
  obtain ⟨-, hvars, -⟩ := hprepares.vars_resolved hload hordered
    (Sections.proper_of_ofDesign hd hparts).isMap
  intro e he
  obtain ⟨raw, spec, hraw, hparse, hexperiment⟩ := hprepares.exists_raw he
  exact hexperiment.ready hload hvars (Experiment.valid_of_parse hparse)
    (Experiment.ordered_of_parse (hordered.experiment _ hraw) hparse)

/-- A file that a configuration names and one that the variables of a suite name. -/
def layeredFiles : String → Except Failure Document
  | "exp_vars.yml" => .ok (.map [("a", .str "own file"), ("b", .str "own file")])
  | "suite_vars.yml" => .ok (.map [("a", .str "suite file"), ("b", .str "suite file"),
      ("c", .str "suite file"), ("d", .str "suite file")])
  | file => .error (.file file .notFound)

theorem loadsOrdered_layeredFiles : LoadsOrdered layeredFiles := by
  intro file content h
  unfold layeredFiles at h
  split at h <;> cases h <;> decide

/-- The surroundings of a suite with these files and one host type. -/
def layeredContext : SuiteContext where
  project := "prj"
  suite := "layers"
  registry := .ofNames ["client"] []
  loadVariables := layeredFiles

/-- A design in which each kind of layer has the last word on one key, with a crossed factor and a
pipeline. -/
def layeredDesign : Document :=
  .map [("$ETL$", .map [("all", .map [("experiments", .str "*")])]),
    ("$SUITE_VARS$", .map [("$INCLUDE_VARS$", .str "suite_vars.yml"), ("b", .str "suite"),
      ("c", .str "suite")]),
    ("exp", .map [("base_experiment", .map [("$INCLUDE_VARS$", .str "exp_vars.yml"),
        ("a", .str "own"), ("size", .map [("$FACTOR$", .list [.int 1, .int 2])])]),
      ("host_types", .map [("client", .map [("$CMD$", .str "run.sh")])])])]

/-- The variables of the suite with the file below them. -/
def layeredVars : Document :=
  .map [("a", .str "suite file"), ("b", .str "suite"), ("c", .str "suite"),
    ("d", .str "suite file")]

/-- The configuration after inclusion. -/
def layeredConfiguration : Document :=
  .map [("a", .str "own"), ("b", .str "own file"), ("c", .str "suite"), ("d", .str "suite file"),
    ("size", .map [("$FACTOR$", .list [.int 1, .int 2])])]

/-- The plan of that configuration. -/
def layeredPlan : FactorPlan where
  skeleton := .map [("a", .str "own"), ("b", .str "own file"), ("c", .str "suite"),
    ("d", .str "suite file"), ("size", .str "$FACTOR$")]
  levelPaths := []
  cross := [⟨["size"], [.int 1, .int 2]⟩]

/-- The experiment of the design as it is parsed. -/
def layeredExperiment : Experiment where
  repetitions := 1
  commonRoles := []
  hostTypes := [("client", ⟨1, true, [], .str "run.sh"⟩)]
  configuration := .map [("$INCLUDE_VARS$", .str "exp_vars.yml"), ("a", .str "own"),
    ("size", .map [("$FACTOR$", .list [.int 1, .int 2])])]
  factorLevels := [.empty]
  exceptFilters := []

/-- The experiment with its configuration and its commands prepared. -/
def layeredPrepared : PreparedExperiment where
  spec := { layeredExperiment with
    configuration := layeredConfiguration
    hostTypes := [("client", ⟨1, true, [], .list [.map [("main", .str "run.sh")]]⟩)] }
  plan := layeredPlan

/-- The prepared suite. -/
def layeredSuite : PreparedSuite where
  project := "prj"
  suite := "layers"
  vars := layeredVars
  pipelines := some (.map [("all", .map [("experiments", .str "*")])])
  experiments := [("exp", layeredPrepared)]

theorem prepares_layeredExperiment :
    PreparedExperiment.Prepares layeredFiles layeredVars "exp" layeredExperiment
      layeredPrepared where
  included := by
    refine ⟨.map [("a", .str "own"), ("b", .str "own file"),
      ("size", .map [("$FACTOR$", .list [.int 1, .int 2])])], ⟨[["b"]], [["a"]]⟩, ?_, _, rfl⟩
    cbv
  unreserved := checkReserved_eq_ok.mp (rfl : layeredConfiguration.checkReserved "exp" = .ok ())
  extracted := rfl
  entries := rfl
  hosts := .cons ⟨rfl, _, rfl, rfl⟩ .nil
  rest := rfl

theorem prepare_layeredDesign : prepare layeredContext layeredDesign = .ok layeredSuite := by
  refine prepare_eq_ok.mpr ⟨_, rfl, [("exp", layeredExperiment)], ?_⟩
  constructor
  case parsed => exact .cons ⟨rfl, rfl⟩ .nil
  case named => rfl
  case registered => exact List.forall_mem_singleton.mpr rfl
  case referenced =>
    intro pipelines hpipelines
    cases hpipelines
    rfl
  case vars =>
    refine ⟨⟨[["a"], ["d"]], [["b"], ["c"]]⟩, ?_⟩
    cbv
  case experiments => exact .cons ⟨rfl, prepares_layeredExperiment⟩ .nil
  all_goals rfl

end PreparedSuite

end ExperimentSuite
