import ExperimentSuite.Proofs.Experiment.Identifiers
import ExperimentSuite.Proofs.Suite.Expansion
import ExperimentSuite.Template.Engine
import Mathlib.Data.List.Flatten

/-!
# Experiments compile independently

A suite can be cut down to some of its experiments at three points: in the
design, in the prepared suite, and in the runs. Without pipelines, which may name
experiments that are gone, all three come to the same: every check that the whole
design passes is passed by the part, what the experiments share is the variables
of the suite, and these are resolved before any experiment is looked at.
-/

namespace ExperimentSuite

/-- A design without the experiments that are not chosen. -/
def Document.chooseExperiments (chosen : String → Bool) : Document → Document
  | .map fields => .map (fields.filter fun e => !Sections.isExperiment e.1 || chosen e.1)
  | d => d

/-- The names of the experiments of a design. -/
def Document.experimentNames : Document → List String
  | .map fields => (Keyed.keys fields).filter Sections.isExperiment
  | _ => []

/-- The runs of the chosen experiments. -/
def CompiledSuite.choose (chosen : String → Bool) (s : CompiledSuite) : CompiledSuite :=
  { s with runs := s.runs.filter fun e => chosen e.1 }

/-- The chosen experiments of a prepared suite. -/
def PreparedSuite.choose (chosen : String → Bool) (s : PreparedSuite) : PreparedSuite :=
  { s with experiments := s.experiments.filter fun e => chosen e.1 }

namespace Sections

variable {parts : Sections} {fields : List (String × Document)} {suite : String}
  {design : Document} {chosen : String → Bool}

/-- The sections without the experiments that are not chosen. -/
def choose (chosen : String → Bool) (parts : Sections) : Sections :=
  { parts with experiments := parts.experiments.filter fun e => chosen e.1 }

theorem split_filter (fields : List (String × Document)) :
    split ⟨.empty, none, []⟩ (fields.filter fun e => !isExperiment e.1 || chosen e.1) =
      (split ⟨.empty, none, []⟩ fields).choose chosen := by
  have hfound : ∀ key, isExperiment key = false →
      Keyed.find? key (fields.filter fun e => !isExperiment e.1 || chosen e.1) =
        Keyed.find? key fields := by
    intro key hkey
    rw [Keyed.find?_filter fun key => !isExperiment key || chosen key, hkey]
    rfl
  have hexperiments :
      (fields.filter fun e => !isExperiment e.1 || chosen e.1).filter (fun e => isExperiment e.1) =
        (fields.filter fun e => isExperiment e.1).filter fun e => chosen e.1 := by
    rw [List.filter_filter, List.filter_filter]
    refine List.filter_congr fun e _ => ?_
    cases isExperiment e.1 <;> simp
  rw [split, hfound _ isExperiment_suiteVars, hfound _ isExperiment_pipelines, hexperiments]
  rfl

theorem keys_experiments (hd : design.Ordered) (h : ofDesign suite design = .ok parts) :
    Keyed.keys parts.experiments = design.experimentNames := by
  obtain ⟨fields, rfl⟩ := exists_fields_of_ofDesign h
  obtain ⟨-, rfl, -⟩ := (ofDesign_eq_ok hd.sorted.nodup_keys).mp h
  exact Keyed.keys_filter isExperiment fields

theorem pipelines_eq_field? (hd : design.Ordered) (h : ofDesign suite design = .ok parts) :
    parts.pipelines = design.field? Vocabulary.pipelines := by
  obtain ⟨fields, rfl⟩ := exists_fields_of_ofDesign h
  obtain ⟨-, rfl, -⟩ := (ofDesign_eq_ok hd.sorted.nodup_keys).mp h
  exact Option.or_none

/-- A design splits into the chosen part of its sections if something is chosen. -/
theorem ofDesign_chooseExperiments (hd : design.Ordered) (h : ofDesign suite design = .ok parts)
    (hsome : (parts.choose chosen).experiments ≠ []) :
    ofDesign suite (design.chooseExperiments chosen) = .ok (parts.choose chosen) := by
  obtain ⟨fields, rfl⟩ := exists_fields_of_ofDesign h
  have hkeys := hd.sorted.nodup_keys
  obtain ⟨hallowed, rfl, -⟩ := (ofDesign_eq_ok hkeys).mp h
  have hkeys' : (Keyed.keys (fields.filter fun e => !isExperiment e.1 || chosen e.1)).Nodup :=
    hkeys.sublist (List.filter_sublist.map _)
  refine (ofDesign_eq_ok hkeys').mpr ⟨?_, (split_filter fields).symm, hsome⟩
  exact fun field hfield => hallowed field (List.mem_of_mem_filter hfield)

end Sections

namespace PreparedSuite

variable {context : SuiteContext} {design : Document} {parts : Sections}
  {specs : List (String × Experiment)} {s : PreparedSuite} {options : CompileOptions}
  {full out : CompiledSuite} {chosen : String → Bool}

/-- What the preparation of a suite has checked and done holds of every part of it. -/
theorem Prepares.choose (h : Prepares context parts specs s) (hpipelines : parts.pipelines = none)
    (chosen : String → Bool) :
    Prepares context (parts.choose chosen) (specs.filter fun e => chosen e.1)
      (s.choose chosen) where
  parsed := h.parsed.filter chosen
  named := by
    have hnamed := Identifiers.check_eq_ok.mp h.named
    refine Identifiers.check_eq_ok.mpr (hnamed.inherited rfl rfl ?_ ?_)
    · exact List.filter_sublist.map _
    · exact (List.filter_sublist.flatMap _).subset
  registered e he := h.registered e (List.mem_of_mem_filter he)
  referenced pipelines hmem := by
    rw [Sections.choose, hpipelines] at hmem
    cases hmem
  vars := h.vars
  experiments := h.experiments.filter chosen
  project := h.project
  suite := h.suite
  pipelines := h.pipelines

/-- An expansion succeeds if every selected experiment does by itself. -/
theorem expand_eq_ok : s.expand options = .ok out ↔
    Keyed.Aligned (fun name e runs => Compilation.experimentRuns s options name e = .ok runs)
      (s.experiments.filter fun e => options.selects e.1) out.runs ∧ out.suite = s.suite := by
  simp only [expand, Outcome.bind_eq_ok, Keyed.traverse_eq_ok]
  constructor
  · rintro ⟨runs, hruns, h⟩
    cases h
    exact ⟨hruns, rfl⟩
  · rintro ⟨hruns, hsuite⟩
    exact ⟨_, hruns, by rw [← hsuite]; rfl⟩

/-- Selecting fewer experiments leaves the runs of the others as they are. -/
theorem expand_filter (h : s.expand options = .ok full) {selects : String → Bool}
    (hselects : ∀ e ∈ s.experiments, selects e.1 = (options.selects e.1 && chosen e.1)) :
    s.expand { options with selects } = .ok (full.choose chosen) := by
  obtain ⟨hruns, hsuite⟩ := expand_eq_ok.mp h
  refine expand_eq_ok.mpr ⟨?_, hsuite⟩
  have hselected : s.experiments.filter (fun e => selects e.1) =
      (s.experiments.filter fun e => options.selects e.1).filter fun e => chosen e.1 := by
    rw [List.filter_filter]
    exact List.filter_congr fun e he => by rw [hselects e he, Bool.and_comm]
  rw [hselected]
  exact hruns.filter chosen

/-- A part of a suite has the runs that are selected of it in the whole suite. -/
theorem expand_choose (s : PreparedSuite) (options : CompileOptions) (chosen : String → Bool) :
    (s.choose chosen).expand { options with selects := fun _ => true } =
      s.expand { options with selects := chosen } := by
  rw [expand, expand, choose, List.filter_true]
  rfl

/-- Compiling a design with some of its experiments only, and expanding the whole suite with these
experiments selected, both give their runs in the compilation of the whole design. -/
theorem compile_chooseExperiments (hd : design.Ordered)
    (hpipelines : design.field? Vocabulary.pipelines = none)
    (h : CompiledSuite.compile context { options with selects := fun _ => true } design = .ok full)
    (hsome : ∃ name ∈ design.experimentNames, chosen name = true) :
    CompiledSuite.compile context { options with selects := fun _ => true }
        (design.chooseExperiments chosen) = .ok (full.choose chosen) ∧
      ∃ s, prepare context design = .ok s ∧
        ∀ selects : String → Bool,
          (∀ name ∈ design.experimentNames, selects name = chosen name) →
            s.expand { options with selects } = .ok (full.choose chosen) := by
  obtain ⟨s, hs, hfull⟩ := Outcome.bind_eq_ok.mp h
  obtain ⟨parts, hparts, specs, hprepares⟩ := prepare_eq_ok.mp hs
  have hkeys : Keyed.keys s.experiments = design.experimentNames := by
    rw [← hprepares.experiments.keys_eq, ← hprepares.parsed.keys_eq,
      Sections.keys_experiments hd hparts]
  constructor
  · have hchosen : (parts.choose chosen).experiments ≠ [] := by
      obtain ⟨name, hname, hyes⟩ := hsome
      rw [← Sections.keys_experiments hd hparts] at hname
      obtain ⟨e, he, rfl⟩ := List.mem_map.mp hname
      exact List.ne_nil_of_mem (List.mem_filter.mpr ⟨he, hyes⟩)
    have hprepare : prepare context (design.chooseExperiments chosen) = .ok (s.choose chosen) := by
      refine prepare_eq_ok.mpr ⟨parts.choose chosen,
        Sections.ofDesign_chooseExperiments hd hparts hchosen, _, hprepares.choose ?_ chosen⟩
      rw [Sections.pipelines_eq_field? hd hparts, hpipelines]
    refine Outcome.bind_eq_ok.mpr ⟨_, hprepare, ?_⟩
    rw [expand_choose]
    exact expand_filter hfull fun e _ => rfl
  · refine ⟨s, hs, fun selects hselects => expand_filter hfull fun e he => ?_⟩
    rw [hselects e.1 (hkeys ▸ List.mem_map_of_mem he)]
    rfl

/-- An experiment with a factor of given levels. -/
def sweepOf (levels : List Document) : Document :=
  .map [("base_experiment", .map [("size", .map [("$FACTOR$", .list levels)])]),
    ("host_types", .map [("client", .map [("$CMD$", .str "run.sh")])])]

/-- A design with two experiments and variables that they share. -/
def sweepDesign : Document :=
  .map [("$SUITE_VARS$", .map [("seed", .nat 7)]), ("large", sweepOf [.nat 8]),
    ("small", sweepOf [.nat 1, .nat 2])]

/-- The surroundings of this design. -/
def sweepContext : SuiteContext where
  project := "prj"
  suite := "sweep"
  registry := .ofNames ["client"] []
  loadVariables file := .error (.file file .notFound)

/-- The run of a size. -/
def sweepRun (size : Nat) : Document :=
  .map [("$CMD$", .map [("client", .list [.map [("main", .str "run.sh")]])]), ("seed", .nat 7),
    ("size", .nat size)]

/-- The runs of the design. -/
def sweepCompiled : CompiledSuite :=
  ⟨"sweep", [("large", [sweepRun 8]), ("small", [sweepRun 1, sweepRun 2])]⟩

/-- The strict engine and no variables. -/
def sweepOptions : CompileOptions := ⟨Template.engine false, fun _ => true, []⟩

/-- An experiment of the design as it is parsed. -/
def sweepExperiment (levels : List Document) : Experiment where
  repetitions := 1
  commonRoles := []
  hostTypes := [("client", ⟨1, true, [], .str "run.sh"⟩)]
  configuration := .map [("size", .map [("$FACTOR$", .list levels)])]
  factorLevels := [.empty]
  exceptFilters := []

/-- The experiment as it is prepared. -/
def sweepPrepared (levels : List Document) : PreparedExperiment where
  spec := { sweepExperiment levels with
    configuration := .map [("seed", .nat 7), ("size", .map [("$FACTOR$", .list levels)])]
    hostTypes := [("client", ⟨1, true, [], .list [.map [("main", .str "run.sh")]]⟩)] }
  plan := ⟨.map [("seed", .nat 7), ("size", .str "$FACTOR$")], [], [⟨["size"], levels⟩]⟩

/-- The prepared suite. -/
def sweepSuite : PreparedSuite where
  project := "prj"
  suite := "sweep"
  vars := .map [("seed", .nat 7)]
  pipelines := none
  experiments := [("large", sweepPrepared [.nat 8]), ("small", sweepPrepared [.nat 1, .nat 2])]

theorem prepares_sweepExperiment (name : String) {levels : List Document}
    (h : levels = [.nat 8] ∨ levels = [.nat 1, .nat 2]) :
    PreparedExperiment.Prepares sweepContext.loadVariables sweepSuite.vars name
      (sweepExperiment levels) (sweepPrepared levels) := by
  constructor
  case included =>
    rcases h with rfl | rfl <;> exact ⟨_, _, Inclusion.resolve_eq_self rfl, _, rfl⟩
  case unreserved =>
    have hcheck : (sweepPrepared levels).spec.configuration.checkReserved name = .ok () := by
      rcases h with rfl | rfl <;> rfl
    exact Document.checkReserved_eq_ok.mp hcheck
  case extracted => rcases h with rfl | rfl <;> rfl
  case entries => rfl
  case hosts => exact .cons ⟨rfl, _, rfl, rfl⟩ .nil
  case rest => rfl

theorem prepare_sweepDesign : prepare sweepContext sweepDesign = .ok sweepSuite := by
  refine prepare_eq_ok.mpr ⟨_, rfl,
    [("large", sweepExperiment [.nat 8]), ("small", sweepExperiment [.nat 1, .nat 2])], ?_⟩
  constructor
  case parsed => exact .cons ⟨rfl, rfl⟩ (.cons ⟨rfl, rfl⟩ .nil)
  case named => rfl
  case registered =>
    exact List.forall_mem_cons.mpr ⟨rfl, List.forall_mem_singleton.mpr rfl⟩
  case referenced =>
    intro pipelines hpipelines
    cases hpipelines
  case vars =>
    refine ⟨.empty, ?_⟩
    cbv
  case experiments =>
    exact .cons ⟨rfl, prepares_sweepExperiment "large" (.inl rfl)⟩
      (.cons ⟨rfl, prepares_sweepExperiment "small" (.inr rfl)⟩ .nil)
  all_goals rfl

theorem compile_sweepDesign :
    CompiledSuite.compile sweepContext sweepOptions sweepDesign = .ok sweepCompiled :=
  Outcome.bind_eq_ok.mpr ⟨sweepSuite, prepare_sweepDesign, rfl⟩

/-- Whether an experiment is the small one. -/
def isSmall (name : String) : Bool := name == "small"

theorem chooseExperiments_sweepDesign :
    (sweepDesign.Ordered ∧ sweepDesign.field? Vocabulary.pipelines = none ∧
      CompiledSuite.compile sweepContext { sweepOptions with selects := fun _ => true }
        sweepDesign = .ok sweepCompiled ∧
      ∃ name ∈ sweepDesign.experimentNames, isSmall name = true) ∧
    CompiledSuite.compile sweepContext sweepOptions (sweepDesign.chooseExperiments isSmall) =
        .ok ⟨"sweep", [("small", [sweepRun 1, sweepRun 2])]⟩ ∧
      sweepSuite.expand { sweepOptions with selects := isSmall } =
        .ok ⟨"sweep", [("small", [sweepRun 1, sweepRun 2])]⟩ := by
  have hd : sweepDesign.Ordered := by decide
  have hfull : CompiledSuite.compile sweepContext { sweepOptions with selects := fun _ => true }
      sweepDesign = .ok sweepCompiled := compile_sweepDesign
  have hsome : ∃ name ∈ sweepDesign.experimentNames, isSmall name = true :=
    ⟨"small", by decide, by decide⟩
  obtain ⟨hcompile, s, hs, hexpand⟩ :=
    compile_chooseExperiments hd rfl hfull hsome
  rw [prepare_sweepDesign] at hs
  cases hs
  exact ⟨⟨hd, rfl, hfull, hsome⟩, hcompile, hexpand isSmall fun _ _ => rfl⟩

end PreparedSuite

end ExperimentSuite
