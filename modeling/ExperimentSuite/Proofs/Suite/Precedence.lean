import ExperimentSuite.Proofs.Inclusion.Layers
import ExperimentSuite.Proofs.Suite.Preparation

/-!
# Precedence in a prepared experiment

The configuration of a prepared experiment is made of four kinds of layers: its
own values, the files that they name, the values of the suite and the files
that these name. The suite's layers are put together on their own before any
experiment absorbs them, and yet the first of all layers decides leaf by leaf.
-/

namespace ExperimentSuite

namespace PreparedSuite

open Document Inclusion

variable {context : SuiteContext} {design : Document} {parts : Sections} {s : PreparedSuite}

/-- The variables of a suite as its design gives them; none if they are missing. -/
def givenVars (design : Document) : Document :=
  (design.get? [Vocabulary.suiteVars]).getD .empty

/-- The configuration of an experiment as the design gives it. -/
def givenConfiguration? (design : Document) (name : String) : Option Document :=
  design.get? [name, "base_experiment"]

theorem vars_of_ofDesign {suite : String} (hd : design.Ordered)
    (h : Sections.ofDesign suite design = .ok parts) : parts.vars = givenVars design := by
  cases design with
  | map fields =>
      obtain ⟨-, rfl, -⟩ := (Sections.ofDesign_eq_ok hd.sorted.nodup_keys).mp h
      rw [givenVars, get?_singleton]
      rfl
  | _ => cases h

theorem get?_of_mem_experiments {suite name : String} {raw : Document} (hd : design.Ordered)
    (h : Sections.ofDesign suite design = .ok parts) (hraw : (name, raw) ∈ parts.experiments) :
    design.get? [name] = some raw := by
  cases design with
  | map fields =>
      obtain ⟨-, rfl, -⟩ := (Sections.ofDesign_eq_ok hd.sorted.nodup_keys).mp h
      rw [get?_singleton]
      exact Keyed.find?_of_mem hd.sorted (List.mem_filter.mp hraw).1
  | _ => cases h

/-- If every marker stands at the root of the variables of a suite or of a configuration and the
files have none, the values of a prepared configuration are those of the first layer that has
something to say: own values, own files, values of the suite, files of the suite. -/
theorem precedence_of_prepare (hload : LoadsOrdered context.loadVariables) (hd : design.Ordered)
    (h : prepare context design = .ok s)
    (hvars : Shallow context.loadVariables (givenVars design))
    (hconfigurations : ∀ e ∈ s.experiments, ∀ given,
      givenConfiguration? design e.1 = some given → Shallow context.loadVariables given) :
    ∀ e ∈ s.experiments, ∃ given own inherited,
      givenConfiguration? design e.1 = some given ∧
        layersOf context.loadVariables given = .ok own ∧
        layersOf context.loadVariables (givenVars design) = .ok inherited ∧
        Precedence (own ++ inherited) e.2.spec.configuration := by
  rintro ⟨name, e⟩ he
  obtain ⟨parts, hparts, specs, hprepares⟩ := prepare_eq_ok.mp h
  have hproper := Sections.proper_of_ofDesign hd hparts
  have hpartsOrdered := Sections.ordered_of_ofDesign hd hparts
  obtain ⟨raw, spec, hraw, hparse, hexperiment⟩ := hprepares.exists_raw he
  obtain ⟨varsReport, hvarsResolve⟩ := hprepares.vars
  obtain ⟨own, report, hresolve, inheritedReport, habsorb⟩ := hexperiment.included
  have hgiven : givenConfiguration? design name = some spec.configuration := by
    have hfield := Experiment.get?_configuration hparse
    rw [givenConfiguration?, ← List.singleton_append, get?_append,
      get?_of_mem_experiments hd hparts hraw]
    exact hfield
  have hordered : spec.configuration.Ordered :=
    (Experiment.ordered_of_parse (hpartsOrdered.experiment _ hraw) hparse).configuration
  obtain ⟨ownLayers, hown, hownStack⟩ :=
    exists_stack_of_resolve hload hordered (hconfigurations _ he _ hgiven) hresolve
  rw [vars_of_ofDesign hd hparts] at hvarsResolve
  have hvarsOrdered : (givenVars design).Ordered := vars_of_ofDesign hd hparts ▸ hpartsOrdered.vars
  obtain ⟨inheritedLayers, hinherited, hinheritedStack⟩ :=
    exists_stack_of_resolve hload hvarsOrdered hvars hvarsResolve
  obtain ⟨-, hsuite, -⟩ := hprepares.vars_resolved hload hpartsOrdered hproper.isMap
  exact ⟨_, ownLayers, inheritedLayers, hgiven, hown, hinherited,
    hownStack.precedence_append hinheritedStack hsuite habsorb⟩

/-- A document that names these files at its root only. -/
theorem shallow_layeredFiles {d : Document} (hd : d.Ordered)
    (hroot : ∀ q ∈ d.leafPaths, Vocabulary.inclusion ∉ q.tail) : Shallow layeredFiles d := by
  refine shallow_of_leafPaths hd hroot ?_ loadsOrdered_layeredFiles
  intro file content h
  unfold layeredFiles at h
  split at h <;> cases h <;> decide

theorem precedence_layeredDesign :
    (LoadsOrdered layeredContext.loadVariables ∧ layeredDesign.Ordered ∧
      prepare layeredContext layeredDesign = .ok layeredSuite ∧
      Shallow layeredFiles (givenVars layeredDesign) ∧
      ∀ e ∈ layeredSuite.experiments, ∀ given,
        givenConfiguration? layeredDesign e.1 = some given → Shallow layeredFiles given) ∧
    Precedence
      [.map [("a", .str "own"), ("size", .map [("$FACTOR$", .list [.int 1, .int 2])])],
        .map [("a", .str "own file"), ("b", .str "own file")],
        .map [("b", .str "suite"), ("c", .str "suite")],
        .map [("a", .str "suite file"), ("b", .str "suite file"), ("c", .str "suite file"),
          ("d", .str "suite file")]]
      layeredConfiguration := by
  have hload : LoadsOrdered layeredContext.loadVariables := loadsOrdered_layeredFiles
  have hd : layeredDesign.Ordered := by decide
  have hvars : Shallow layeredFiles (givenVars layeredDesign) :=
    shallow_layeredFiles (by decide) (by decide)
  have hconfigurations : ∀ e ∈ layeredSuite.experiments, ∀ given,
      givenConfiguration? layeredDesign e.1 = some given → Shallow layeredFiles given := by
    intro e he given hgiven
    obtain rfl := List.mem_singleton.mp he
    cases hgiven
    exact shallow_layeredFiles (by decide) (by decide)
  refine ⟨⟨hload, hd, prepare_layeredDesign, hvars, hconfigurations⟩, ?_⟩
  obtain ⟨given, own, inherited, hgiven, hown, hinherited, hprecedence⟩ :=
    precedence_of_prepare hload hd prepare_layeredDesign hvars hconfigurations
      ("exp", layeredPrepared) (by simp [layeredSuite])
  cases hgiven
  cases hown
  cases hinherited
  exact hprecedence

end PreparedSuite

end ExperimentSuite
