import ExperimentSuite.Proofs.Suite.Preparation
import ExperimentSuite.Suite.Compilation

/-!
# Preparing a prepared suite

A prepared suite is written as a design. Nothing in that design is left for a
preparation to do: no marker stands in it, the variables of the suite are
already in every configuration, and the commands are in normal form. So it
prepares to the suite that it was written from, whatever the files hold by then.
-/

namespace ExperimentSuite

open Document Inclusion

namespace Sections

variable {parts : Sections} {suite key : String}

/-- The field of a design that holds the variables, if there are any. -/
def varsField (parts : Sections) : List (String × Document) :=
  match parts.vars with
  | .map (field :: rest) => [(Vocabulary.suiteVars, .map (field :: rest))]
  | _ => []

/-- The field of a design that holds the pipelines, if there are any. -/
def pipelinesField (parts : Sections) : List (String × Document) :=
  match parts.pipelines with
  | some d => [(Vocabulary.pipelines, d)]
  | none => []

/-- The fields of a design with these sections, in the order of the sections. -/
def fields (parts : Sections) : List (String × Document) :=
  parts.experiments ++ parts.varsField ++ parts.pipelinesField

theorem varsField_eq (parts : Sections) :
    parts.varsField = [] ∨ parts.varsField = [(Vocabulary.suiteVars, parts.vars)] := by
  rw [varsField]
  split
  · next heq => exact .inr (by rw [heq])
  · exact .inl rfl

theorem pipelinesField_eq (parts : Sections) :
    parts.pipelinesField = parts.pipelines.toList.map fun d => (Vocabulary.pipelines, d) := by
  rw [pipelinesField]
  cases parts.pipelines <;> rfl

/-- The variables are found in their field; without a field there are none. -/
theorem find?_varsField (hmap : parts.vars.isMap = true) :
    (Keyed.find? Vocabulary.suiteVars parts.varsField).getD .empty = parts.vars := by
  obtain ⟨fields, hfields⟩ := isMap_iff.mp hmap
  rw [varsField, hfields]
  cases fields with
  | nil => rfl
  | cons field rest => simp [Keyed.find?]

theorem find?_varsField_of_ne (h : key ≠ Vocabulary.suiteVars) :
    Keyed.find? key parts.varsField = none := by
  rcases parts.varsField_eq with heq | heq <;> simp [heq, Keyed.find?, Ne.symm h]

theorem find?_pipelinesField :
    Keyed.find? Vocabulary.pipelines parts.pipelinesField = parts.pipelines := by
  rw [pipelinesField]
  cases parts.pipelines <;> simp [Keyed.find?]

theorem find?_pipelinesField_of_ne (h : key ≠ Vocabulary.pipelines) :
    Keyed.find? key parts.pipelinesField = none := by
  rw [pipelinesField]
  cases parts.pipelines <;> simp [Keyed.find?, Ne.symm h]

section Proper

variable (h : parts.Proper)

include h

theorem Proper.find?_experiments (hkey : isExperiment key = false) :
    Keyed.find? key parts.experiments = none := by
  apply Keyed.find?_eq_none_iff.mpr
  rintro e he rfl
  rw [(h.named e he).1] at hkey
  cases hkey

theorem Proper.nodup_fields : (Keyed.keys parts.fields).Nodup := by
  have hsub : (Keyed.keys parts.fields).Sublist
      (Keyed.keys parts.experiments ++ ([Vocabulary.suiteVars] ++ [Vocabulary.pipelines])) := by
    rw [fields, Keyed.keys, List.map_append, List.map_append, List.append_assoc]
    refine (List.Sublist.refl _).append (List.Sublist.append ?_ ?_)
    · rcases parts.varsField_eq with heq | heq <;> simp [heq]
    · rw [pipelinesField]
      cases parts.pipelines <;> simp
  refine hsub.nodup (List.nodup_append.mpr ⟨h.sorted.nodup_keys, by decide, ?_⟩)
  rintro key hkey other hother rfl
  obtain ⟨e, he, rfl⟩ := List.mem_map.mp hkey
  have hexperiment := (h.named e he).1
  rcases List.mem_cons.mp hother with heq | hother
  · rw [heq, isExperiment_suiteVars] at hexperiment
    cases hexperiment
  · rw [List.mem_singleton.mp hother, isExperiment_pipelines] at hexperiment
    cases hexperiment

theorem Proper.allowed : ∀ field ∈ parts.fields, Allowed field := by
  intro field hfield
  rcases List.mem_append.mp hfield with hfield | hpipelines
  · rcases List.mem_append.mp hfield with hexperiment | hvars
    · obtain ⟨hkey, hhead⟩ := h.named field hexperiment
      rwa [Allowed, if_pos hkey]
    · rcases parts.varsField_eq with heq | heq
      · rw [heq] at hvars
        cases hvars
      · rw [heq, List.mem_singleton] at hvars
        subst hvars
        rw [Allowed, if_neg (by simp [isExperiment_suiteVars])]
        exact h.isMap
  · rw [pipelinesField_eq, List.mem_map] at hpipelines
    obtain ⟨d, hd, rfl⟩ := hpipelines
    rw [Allowed, if_neg (by simp [isExperiment_pipelines])]
    exact h.pipelines d (by simpa using hd)

theorem Proper.find?_fields (key : String) :
    Keyed.find? key (Keyed.ofList parts.fields) =
      ((Keyed.find? key parts.experiments).or (Keyed.find? key parts.varsField)).or
        (Keyed.find? key parts.pipelinesField) := by
  rw [Keyed.find?_ofList h.nodup_fields, fields, Keyed.find?_append, Keyed.find?_append]

/-- The experiments among the fields. -/
theorem Proper.filter_fields :
    (Keyed.ofList parts.fields).filter (fun e => isExperiment e.1) = parts.experiments := by
  refine Keyed.ext ((Keyed.sorted_ofList _).sublist List.filter_sublist) h.sorted ?_
  intro key
  rw [Keyed.find?_filter, h.find?_fields]
  cases hkey : isExperiment key with
  | false => exact (h.find?_experiments hkey).symm
  | true =>
      have hne : key ≠ Vocabulary.suiteVars ∧ key ≠ Vocabulary.pipelines := by
        simpa [isExperiment] using hkey
      rw [find?_varsField_of_ne hne.1, find?_pipelinesField_of_ne hne.2]
      simp

/-- Splitting the design that sections are written as gives them back. -/
theorem Proper.ofDesign_fields : ofDesign suite (.ofFields parts.fields) = .ok parts := by
  have hkeys := (Keyed.sorted_ofList parts.fields).nodup_keys
  refine (ofDesign_eq_ok hkeys).mpr ⟨?_, ?_, h.nonempty⟩
  · exact fun field hfield => h.allowed field (Keyed.mem_of_mem_ofList hfield)
  · have hvars := find?_varsField h.isMap
    simp only [split, h.filter_fields, h.find?_fields, h.find?_experiments isExperiment_suiteVars,
      h.find?_experiments isExperiment_pipelines, Option.none_or, Option.or_none, List.nil_append,
      find?_pipelinesField_of_ne suiteVars_ne_pipelines, hvars,
      find?_varsField_of_ne suiteVars_ne_pipelines.symm, find?_pipelinesField]

end Proper

end Sections

namespace PreparedExperiment

variable {load load' : String → Except Failure Document} {vars : Document} {name : String}
  {spec : Experiment} {e : PreparedExperiment}

/-- Host types whose commands are in normal form stay as they are. -/
theorem Ready.normalizes (h : e.Ready) :
    Keyed.Aligned Normalizes e.spec.hostTypes e.spec.hostTypes := by
  refine List.forall₂_same.mpr fun host hhost => ⟨rfl, ?_⟩
  obtain ⟨commands, hcommands, hlength, hnormal⟩ := h.normal host hhost
  have hbounded := (h.valid.host host hhost).bounded
  refine ⟨commands, ?_, by rw [← hcommands]⟩
  rw [hcommands, ← hlength]
  exact Command.normalize_eq_self (by omega) hnormal

/-- Preparing a prepared experiment once more, with the same variables, changes nothing. -/
theorem Prepares.again (h : Prepares load vars name spec e) (hready : e.Ready)
    (hvars : vars.Ordered) : Prepares load' vars name e.spec e where
  included := by
    obtain ⟨own, report, hresolve, inherited, habsorb⟩ := h.included
    have hnext : nextMarker e.spec.configuration = .ok none :=
      nextMarker_eq_none hready.ordered.configuration (hready.unreserved _ (by decide))
    have hoccupied := (absorbed_of_absorb hvars habsorb).occupies
    exact ⟨_, _, resolve_eq_self hnext, absorbLeaves_eq_self hoccupied⟩
  unreserved := h.unreserved
  extracted := h.extracted
  entries := h.entries
  hosts := hready.normalizes
  rest := rfl

/-- What an experiment names and the registry lacks is the same after preparation. -/
theorem Prepares.missing_eq (h : Prepares load vars name spec e) (registry : Registry) :
    registry.missing e.spec = registry.missing spec := by
  have hhosts : spec.hostTypes.flatMap registry.missingOfHost =
      e.spec.hostTypes.flatMap registry.missingOfHost := by
    refine h.hosts.flatMap_eq ?_
    rintro key host normal ⟨commands, -, rfl⟩
    rfl
  rw [Registry.missing, Registry.missing, hhosts, h.rest]

end PreparedExperiment

namespace PreparedSuite

variable {context context' : SuiteContext} {design : Document} {parts : Sections}
  {specs : List (String × Experiment)} {s : PreparedSuite}

/-- The experiments of a prepared suite without their plans. -/
def specsOf (s : PreparedSuite) : List (String × Experiment) :=
  Keyed.mapValues PreparedExperiment.spec s.experiments

/-- The sections of the design that a prepared suite is written as. -/
def sections (s : PreparedSuite) : Sections where
  vars := s.vars
  pipelines := s.pipelines
  experiments := Keyed.mapValues (fun e => e.spec.document) s.experiments

theorem document_eq (s : PreparedSuite) : s.document = .ofFields s.sections.fields := rfl

theorem Prepares.keys_specsOf (h : Prepares context parts specs s) :
    Keyed.keys (specsOf s) = Keyed.keys specs := by
  rw [specsOf, Keyed.keys_mapValues, h.experiments.keys_eq]

/-- The names in a suite are the same after preparation. -/
theorem Prepares.identifiers_eq (h : Prepares context parts specs s)
    (hproject : context'.project = context.project) (hsuite : context'.suite = context.suite) :
    identifiers context' (specsOf s) = identifiers context specs := by
  have hhosts : ((specsOf s).flatMap fun e => Keyed.keys e.2.hostTypes) =
      specs.flatMap fun e => Keyed.keys e.2.hostTypes := by
    rw [specsOf, Keyed.mapValues, List.flatMap_map]
    symm
    exact h.experiments.flatMap_eq fun _ _ _ hexperiment => hexperiment.hosts.keys_eq
  rw [identifiers, identifiers, hproject, hsuite, h.keys_specsOf, hhosts]

theorem Prepares.keys_sections (h : Prepares context parts specs s) :
    Keyed.keys s.sections.experiments = Keyed.keys parts.experiments := by
  rw [sections, Keyed.keys_mapValues, ← h.experiments.keys_eq, h.parsed.keys_eq]

/-- The sections of a prepared suite are sections that a design can have. -/
theorem Prepares.proper_sections (h : Prepares context parts specs s) (hparts : parts.Proper)
    (hmap : s.vars.isMap = true) : s.sections.Proper where
  isMap := hmap
  sorted := by
    rw [Keyed.sorted_iff_keys, h.keys_sections]
    exact Keyed.sorted_iff_keys.mp hparts.sorted
  named := by
    have hnames : ∀ key ∈ Keyed.keys s.sections.experiments,
        Sections.isExperiment key = true ∧ key.toList.head? ≠ some '$' := by
      rw [h.keys_sections]
      exact List.forall_mem_map.mpr hparts.named
    exact List.forall_mem_map.mp hnames
  pipelines pipelines hpipelines := hparts.pipelines pipelines (h.pipelines ▸ hpipelines)
  nonempty := by
    have hexperiments : s.experiments ≠ [] := h.experiments.ne_nil (h.parsed.ne_nil hparts.nonempty)
    simpa [sections, Keyed.mapValues] using hexperiments

/-- What preparing a suite has checked holds of the prepared suite as well, and nothing is left to
do for another preparation with the same names. -/
theorem Prepares.again (h : Prepares context parts specs s)
    (hready : ∀ e ∈ s.experiments, e.2.Ready) (hnext : nextMarker s.vars = .ok none)
    (hvars : s.vars.Ordered) (hproject : context'.project = context.project)
    (hsuite : context'.suite = context.suite) (hregistry : context'.registry = context.registry) :
    Prepares context' s.sections (specsOf s) s where
  parsed := by
    refine List.forall₂_map_left_iff.mpr (List.forall₂_map_right_iff.mpr ?_)
    refine List.forall₂_same.mpr fun e he => ⟨rfl, ?_⟩
    exact Experiment.parse_document (hready e he).valid (hready e he).ordered.hosts
  named := by
    rw [h.identifiers_eq hproject hsuite]
    exact h.named
  registered := by
    rw [hregistry]
    refine List.forall_mem_map.mpr fun e he => ?_
    obtain ⟨spec, hspec, hexperiment⟩ := h.experiments.exists_source he
    exact (hexperiment.missing_eq _).trans (h.registered _ hspec)
  referenced := by
    intro pipelines hpipelines
    rw [h.keys_specsOf]
    exact h.referenced pipelines (h.pipelines ▸ hpipelines)
  vars := ⟨_, resolve_eq_self hnext⟩
  experiments := by
    refine Keyed.aligned_mapValues fun e he => ?_
    obtain ⟨spec, hspec, hexperiment⟩ := h.experiments.exists_source he
    exact hexperiment.again (hready e he) hvars
  project := by rw [hproject, h.project]
  suite := by rw [hsuite, h.suite]
  pipelines := rfl

/-- A prepared suite is written as a design that prepares to it again, whatever files there are. -/
theorem prepare_document (hload : LoadsOrdered context.loadVariables) (hd : design.Ordered)
    (h : prepare context design = .ok s) (hproject : context'.project = context.project)
    (hsuite : context'.suite = context.suite) (hregistry : context'.registry = context.registry) :
    prepare context' s.document = .ok s ∧
      ∀ options, CompiledSuite.compile context' options s.document = s.expand options := by
  obtain ⟨parts, hparts, specs, hprepares⟩ := prepare_eq_ok.mp h
  have hready := ready_of_prepare hload hd h
  have hproper := Sections.proper_of_ofDesign hd hparts
  have hordered := Sections.ordered_of_ofDesign hd hparts
  obtain ⟨hnext, hvars, hmap⟩ := hprepares.vars_resolved hload hordered hproper.isMap
  have hsections : Sections.ofDesign context'.suite s.document = .ok s.sections := by
    rw [document_eq]
    exact (hprepares.proper_sections hproper hmap).ofDesign_fields
  have hprepare : prepare context' s.document = .ok s :=
    prepare_eq_ok.mpr ⟨s.sections, hsections, specsOf s,
      hprepares.again hready hnext hvars hproject hsuite hregistry⟩
  refine ⟨hprepare, fun options => ?_⟩
  rw [CompiledSuite.compile, hprepare]
  rfl

/-- The surroundings of a suite whose files are gone. -/
def withoutFiles (context : SuiteContext) : SuiteContext :=
  { context with loadVariables := fun file => .error (.file file .notFound) }

theorem prepare_document_layeredSuite :
    (LoadsOrdered layeredContext.loadVariables ∧ layeredDesign.Ordered ∧
      prepare layeredContext layeredDesign = .ok layeredSuite) ∧
    prepare (withoutFiles layeredContext) layeredSuite.document = .ok layeredSuite ∧
      ∀ options, CompiledSuite.compile (withoutFiles layeredContext) options layeredSuite.document =
        layeredSuite.expand options := by
  have hload : LoadsOrdered layeredContext.loadVariables := loadsOrdered_layeredFiles
  have hd : layeredDesign.Ordered := by decide
  exact ⟨⟨hload, hd, prepare_layeredDesign⟩,
    prepare_document hload hd prepare_layeredDesign rfl rfl rfl⟩

end PreparedSuite

end ExperimentSuite
