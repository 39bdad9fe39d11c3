import ExperimentSuite.Proofs.Factor.Substitution
import ExperimentSuite.Proofs.Placeholder.Failures
import ExperimentSuite.Proofs.Suite.Preparation
import ExperimentSuite.Suite.Compilation

/-!
# How the expansion of a prepared suite fails

Preparation has found every mistake of a design. What is left are two failures
that it does not look for: an experiment with more runs than are allowed, and a
run whose placeholders cannot be resolved. A suite without any of them expands.
-/

namespace ExperimentSuite

open Document FactorPlan FactorGrid

namespace Expansion

variable {base : Document} {plan : FactorPlan} {entries : List Document}

/-- On checked entries an expansion yields the substitutions that no filter excludes, unless there
are too many of them. -/
theorem runs_eq_ite (experiment : String) (filters : List Document) (commands : Document)
    (hmap : base.isMap = true) (hb : base.Ordered) (h : extract base = .ok plan)
    (hentries : ∀ entry ∈ entries, entry.Ordered)
    (hcheck : FactorLevels.check plan.levelPaths entries = .ok ()) :
    runs experiment plan entries filters commands =
      if Vocabulary.maxRuns < entries.length * plan.exactCombinations then
        .error (.factor experiment (.tooManyRuns (plan.runCount entries.length)))
      else .ok ((substitutions base commands plan.cross entries).filter
        fun run => !isExcluded filters run) := by
  have hgrid : fragments plan.cross = .ok ((choices plan.cross).map (assign .empty)) :=
    fragments_eq_ok (separate_cross h hb hmap)
  have hbuilt : buildAll experiment plan.skeleton commands
      ((choices plan.cross).map (assign .empty)) entries =
        .ok (substitutions base commands plan.cross entries) :=
    buildAll_eq_ok h hb hmap experiment commands
      fun entry he => FactorLevels.sparse_of_check hcheck he (hentries entry he)
  rw [runs, hcheck]
  change (if Vocabulary.maxRuns < plan.runCount entries.length then _ else _) = _
  simp only [maxRuns_lt_runCount_iff]
  split
  · rfl
  · rw [hgrid]
    change (buildAll experiment plan.skeleton commands _ entries >>= _) = _
    rw [hbuilt]
    rfl

end Expansion

namespace Compilation

variable {engine : Engine} {vars : List (String × Document)} {name : String} {start : Nat}
  {runs : List Document} {failure : Failure}

/-- Resolving runs one after the other fails at one of them and names it. -/
theorem exists_of_resolveFrom_eq_error
    (h : resolveFrom engine vars name start runs = .error failure) :
    ∃ index run place problem, runs[index]? = some run ∧
      Resolution.resolve engine vars run = .error (.template place problem) ∧
      failure = .template (name ++ "[" ++ toString (start + index) ++ "]." ++ place) problem := by
  induction runs generalizing start with
  | nil => cases h
  | cons run rest ih =>
      rw [resolveFrom] at h
      rcases Outcome.bind_eq_error.mp h with hfirst | ⟨first, -, h⟩
      · obtain ⟨cause, hcause, rfl⟩ := Outcome.mapError_eq_error.mp hfirst
        obtain ⟨place, problem, rfl⟩ := Resolution.failsOnly_resolve cause hcause
        exact ⟨0, run, place, problem, rfl, hcause, rfl⟩
      · rcases Outcome.bind_eq_error.mp h with hrest | ⟨others, -, h⟩
        · obtain ⟨index, found, place, problem, hfound, hcause, rfl⟩ := ih hrest
          refine ⟨index + 1, found, place, problem, hfound, hcause, ?_⟩
          rw [Nat.add_assoc, Nat.add_comm 1]
        · cases h

/-- Where resolving runs one after the other succeeds, every run can be resolved. -/
theorem exists_of_resolveFrom_eq_ok {resolved : List Document} {index : Nat} {run : Document}
    (h : resolveFrom engine vars name start runs = .ok resolved) (hrun : runs[index]? = some run) :
    ∃ out, Resolution.resolve engine vars run = .ok out := by
  induction runs generalizing start index resolved with
  | nil => cases hrun
  | cons first rest ih =>
      rw [resolveFrom, Outcome.bind_eq_ok] at h
      obtain ⟨out, hout, h⟩ := h
      obtain ⟨others, hothers, -⟩ := Outcome.bind_eq_ok.mp h
      cases index with
      | zero =>
          cases hrun
          exact ⟨out, Outcome.mapError_eq_ok.mp hout⟩
      | succ index => exact ih hothers hrun

end Compilation

namespace PreparedSuite

variable {context : SuiteContext} {design : Document} {s : PreparedSuite}
  {options : CompileOptions} {failure : Failure}

/-- The failures that an expansion may still meet. -/
inductive Unexpandable (s : PreparedSuite) (options : CompileOptions) : Failure → Prop where
  /-- A selected experiment has more combinations of entries and crossed levels than are allowed. -/
  | tooManyRuns {name : String} {e : PreparedExperiment} (he : (name, e) ∈ s.experiments)
      (hselected : options.selects name = true)
      (hlimit : Vocabulary.maxRuns < e.spec.factorLevels.length * e.plan.exactCombinations) :
      Unexpandable s options
        (.factor name (.tooManyRuns (e.plan.runCount e.spec.factorLevels.length)))
  /-- The placeholders of one of its runs cannot be resolved. -/
  | unresolved {name : String} {e : PreparedExperiment} {runs : List Document} {index : Nat}
      {run : Document} {place : String} {problem : PlaceholderProblem}
      (he : (name, e) ∈ s.experiments) (hselected : options.selects name = true)
      (hruns : Expansion.runs name e.plan e.spec.factorLevels e.spec.exceptFilters e.commands =
        .ok runs) (hrun : runs[index]? = some run)
      (hresolve : Resolution.resolve options.engine
        (Compilation.variablesOf s.project s.suite name options.vars) run =
          .error (.template place problem)) :
      Unexpandable s options (.template (name ++ "[" ++ toString index ++ "]." ++ place) problem)

section Ready

variable (hready : ∀ e ∈ s.experiments, e.2.Ready)

include hready

/-- The expanded runs of an experiment that is ready, unless there are too many of them. -/
theorem runs_eq_ite_of_ready {name : String} {e : PreparedExperiment}
    (he : (name, e) ∈ s.experiments) :
    ∃ expanded, Expansion.runs name e.plan e.spec.factorLevels e.spec.exceptFilters e.commands =
      if Vocabulary.maxRuns < e.spec.factorLevels.length * e.plan.exactCombinations then
        .error (.factor name (.tooManyRuns (e.plan.runCount e.spec.factorLevels.length)))
      else .ok expanded := by
  have h := hready _ he
  exact ⟨_, Expansion.runs_eq_ite name e.spec.exceptFilters e.commands h.valid.configuration
    h.ordered.configuration h.extracted h.ordered.entry h.entries⟩

/-- Whatever makes one experiment fail makes the suite unexpandable. -/
theorem unexpandable_of_experimentRuns {name : String} {e : PreparedExperiment}
    (he : (name, e) ∈ s.experiments) (hselected : options.selects name = true)
    (h : Compilation.experimentRuns s options name e = .error failure) :
    Unexpandable s options failure := by
  obtain ⟨expanded, hexpanded⟩ := runs_eq_ite_of_ready hready he
  rw [Compilation.experimentRuns] at h
  rcases Outcome.bind_eq_error.mp h with hruns | ⟨runs, hruns, hresolve⟩
  · rw [hexpanded] at hruns
    split at hruns
    · next hlimit =>
        cases hruns
        exact .tooManyRuns he hselected hlimit
    · cases hruns
  · obtain ⟨index, run, place, problem, hrun, hcause, rfl⟩ :=
      Compilation.exists_of_resolveFrom_eq_error hresolve
    rw [Nat.zero_add]
    exact .unresolved he hselected hruns hrun hcause

/-- An experiment whose runs are resolved shows none of the failures. -/
theorem not_unexpandable {out : CompiledSuite} (h : s.expand options = .ok out) :
    ¬ Unexpandable s options failure := by
  rw [expand, Outcome.bind_eq_ok] at h
  obtain ⟨runs, hruns, -⟩ := h
  have hexperiment : ∀ name e, (name, e) ∈ s.experiments → options.selects name = true →
      ∃ resolved, Compilation.experimentRuns s options name e = .ok resolved := by
    intro name e he hselected
    obtain ⟨resolved, -, hresolved⟩ := (Keyed.traverse_eq_ok.mp hruns).exists_target
      (List.mem_filter.mpr ⟨he, hselected⟩)
    exact ⟨resolved, hresolved⟩
  intro hfailure
  cases hfailure with
  | tooManyRuns he hselected hlimit =>
      obtain ⟨resolved, hresolved⟩ := hexperiment _ _ he hselected
      obtain ⟨expanded, hexpanded⟩ := runs_eq_ite_of_ready hready he
      rw [Compilation.experimentRuns, hexpanded, if_pos hlimit] at hresolved
      cases hresolved
  | unresolved he hselected hexpanded hrun hcause =>
      obtain ⟨resolved, hresolved⟩ := hexperiment _ _ he hselected
      rw [Compilation.experimentRuns, hexpanded] at hresolved
      obtain ⟨out, hout⟩ := Compilation.exists_of_resolveFrom_eq_ok hresolved hrun
      rw [hcause] at hout
      cases hout

end Ready

/-- A suite that preparation has accepted expands, or else it has too many runs or a run that cannot
be resolved; no other failure is possible any more. -/
theorem expand_of_prepare (hload : Inclusion.LoadsOrdered context.loadVariables)
    (hd : design.Ordered) (h : prepare context design = .ok s) (options : CompileOptions) :
    (∃ out, s.expand options = .ok out ∧ ∀ failure, ¬ Unexpandable s options failure) ∨
      ∃ failure, s.expand options = .error failure ∧ Unexpandable s options failure := by
  have hready := ready_of_prepare hload hd h
  cases hexpand : s.expand options with
  | ok out => exact .inl ⟨out, rfl, fun failure => not_unexpandable hready hexpand⟩
  | error failure =>
      refine .inr ⟨failure, rfl, ?_⟩
      rw [expand] at hexpand
      rcases Outcome.bind_eq_error.mp hexpand with hruns | ⟨runs, -, hdone⟩
      · obtain ⟨⟨name, e⟩, hmem, hexperiment⟩ := Outcome.exists_of_mapM_eq_error hruns
        obtain ⟨he, hselected⟩ := List.mem_filter.mp hmem
        rcases Outcome.bind_eq_error.mp hexperiment with hfail | ⟨resolved, -, hdone⟩
        · exact unexpandable_of_experimentRuns hready he hselected hfail
        · cases hdone
      · cases hdone

/-- Options with a variable that takes the name of the run. -/
def boundOptions : CompileOptions where
  engine := ⟨false, fun _ => .ok [], fun _ source => .ok source, fun _ _ => .ok none⟩
  selects _ := true
  vars := [(Vocabulary.runBinding, .null)]

theorem expand_layeredSuite :
    (Inclusion.LoadsOrdered layeredContext.loadVariables ∧ layeredDesign.Ordered ∧
      prepare layeredContext layeredDesign = .ok layeredSuite) ∧
    layeredSuite.expand boundOptions = .error (.template "exp[0].my_run" .bindingTaken) ∧
      Unexpandable layeredSuite boundOptions (.template "exp[0].my_run" .bindingTaken) := by
  have hload : Inclusion.LoadsOrdered layeredContext.loadVariables := loadsOrdered_layeredFiles
  have hd : layeredDesign.Ordered := by decide
  have hfail : layeredSuite.expand boundOptions =
      .error (.template "exp[0].my_run" .bindingTaken) := by
    rfl
  refine ⟨⟨hload, hd, prepare_layeredDesign⟩, hfail, ?_⟩
  rcases expand_of_prepare hload hd prepare_layeredDesign boundOptions with
    ⟨out, hout, -⟩ | ⟨failure, hfailure, hunexpandable⟩
  · rw [hfail] at hout
    cases hout
  · rw [hfail] at hfailure
    cases hfailure
    exact hunexpandable

end PreparedSuite

end ExperimentSuite
