import ExperimentSuite.Proofs.Suite.Expansion
import ExperimentSuite.Suite.Summary

/-!
# Summaries and expansions

How far a summary agrees with the expansion that it announces. It gives the
number of runs that an expansion without exclusions has, whatever the factors.
Its list of crossed factors is by display text, however, so it accounts for all
of them exactly if no two paths are displayed alike. Two paths can only be
displayed alike if one of them has a key with a dot.
-/

namespace ExperimentSuite

namespace KeyPath

variable {p q : KeyPath}

theorem toList_format (h : p ≠ []) :
    p.format.toList = ['.'].intercalate (p.map String.toList) := by
  cases p with
  | nil => exact (h rfl).elim
  | cons key rest => exact String.toList_intercalate

/-- Paths without dots in their keys are told apart by their display texts. -/
theorem eq_of_format_eq (hp : p ≠ []) (hq : q ≠ []) (hpdots : ∀ key ∈ p, '.' ∉ key.toList)
    (hqdots : ∀ key ∈ q, '.' ∉ key.toList) (h : p.format = q.format) : p = q := by
  have hsplit : ∀ {r : KeyPath}, r ≠ [] → (∀ key ∈ r, '.' ∉ key.toList) →
      r.format.toList.splitOn '.' = r.map String.toList := by
    intro r hr hdots
    rw [toList_format hr]
    exact List.splitOn_intercalate '.' (List.forall_mem_map.mpr hdots) (by simpa using hr)
  have hkeys : p.map String.toList = q.map String.toList := by
    rw [← hsplit hp hpdots, ← hsplit hq hqdots, h]
  exact List.map_injective_iff.mpr (fun _ _ => String.toList_injective) hkeys

end KeyPath

namespace ExperimentSummary

open FactorPlan

variable {name : String} {e : PreparedExperiment} {plan : FactorPlan} {base : Document}

/-- The crossed factors of a plan as a summary shows them: display text and number of levels. -/
def shownFactors (plan : FactorPlan) : List (String × Nat) :=
  plan.cross.map fun factor => (factor.path.format, factor.levels.length)

/-- The crossed factors of a plan are told apart if no two of their paths are displayed alike. -/
def ToldApart (plan : FactorPlan) : Prop :=
  (plan.crossPaths.map KeyPath.format).Nodup

theorem keys_shownFactors (plan : FactorPlan) :
    Keyed.keys (shownFactors plan) = plan.crossPaths.map KeyPath.format := by
  simp [Keyed.keys, shownFactors, crossPaths]

/-- A summary accounts for a plan if it has one entry for each crossed factor and its number of
runs is the product of all counts that it shows. -/
structure Accounts (summary : ExperimentSummary) (plan : FactorPlan) : Prop where
  crossLevels : summary.crossLevels.length = plan.cross.length
  expectedRuns : summary.expectedRuns =
    summary.levelEntries * (Keyed.values summary.crossLevels).prod

/-- Factors that are told apart are shown one by one. -/
theorem perm_crossLevels (h : ToldApart e.plan) :
    (ofPrepared name e).crossLevels.Perm (shownFactors e.plan) :=
  Keyed.perm_ofList ((keys_shownFactors e.plan).symm ▸ h)

/-- The number of runs that a summary shows is exact unless it is too large for a count. -/
theorem expectedRuns_eq
    (hcount : e.spec.factorLevels.length * e.plan.exactCombinations ≤ maxCount) :
    (ofPrepared name e).expectedRuns = e.spec.factorLevels.length * e.plan.exactCombinations :=
  (runCount_eq ..).trans (Nat.min_eq_left hcount)

/-- A summary accounts for a plan exactly if the factors are told apart. -/
theorem accounts_iff
    (hcount : e.spec.factorLevels.length * e.plan.exactCombinations ≤ maxCount) :
    (ofPrepared name e).Accounts e.plan ↔ ToldApart e.plan := by
  have hlength : (shownFactors e.plan).length = e.plan.cross.length := List.length_map ..
  constructor
  · -- The list keeps one entry for each text, so it is as long as that of the factors only if no
    -- text occurs twice.
    intro h
    rw [ToldApart, ← keys_shownFactors]
    exact Keyed.length_ofList_eq_iff.mp (h.crossLevels.trans hlength.symm)
  · intro h
    have hperm : (ofPrepared name e).crossLevels.Perm _ := perm_crossLevels h
    have hproduct : e.plan.exactCombinations =
        (Keyed.values (ofPrepared name e).crossLevels).prod := by
      rw [Keyed.values, (hperm.map _).prod_eq, shownFactors, List.map_map]
      rfl
    refine ⟨hperm.length_eq.trans hlength, ?_⟩
    calc (ofPrepared name e).expectedRuns
        = e.spec.factorLevels.length * e.plan.exactCombinations := expectedRuns_eq hcount
      _ = (ofPrepared name e).levelEntries *
            (Keyed.values (ofPrepared name e).crossLevels).prod := by rw [hproduct]; rfl

/-- Factors below keys without dots are told apart. -/
theorem toldApart_of_dotless (h : extract base = .ok plan) (hb : base.Ordered)
    (hmap : base.isMap = true) (hdots : ∀ path ∈ plan.crossPaths, ∀ key ∈ path, '.' ∉ key.toList) :
    ToldApart plan := by
  refine List.Nodup.map_on (fun p hp q hq heq => ?_) (describes_of_extractAt hb h).nodup
  exact KeyPath.eq_of_format_eq (ne_nil_of_mem_crossPaths h hb hmap hp)
    (ne_nil_of_mem_crossPaths h hb hmap hq) (hdots p hp) (hdots q hq) heq

end ExperimentSummary

namespace PreparedSuite

open ExperimentSummary FactorPlan

variable {context : SuiteContext} {design : Document} {s : PreparedSuite} {name : String}
  {e : PreparedExperiment}

/-- The summary of a prepared experiment announces the number of runs that an expansion without
exclusions has, and it accounts for the crossed factors exactly if they are told apart, as they are
where no key on their paths has a dot. Then it shows each of them with the number of its levels. -/
theorem accounts_iff_of_prepare (hload : Inclusion.LoadsOrdered context.loadVariables)
    (hd : design.Ordered) (h : prepare context design = .ok s) (he : (name, e) ∈ s.experiments)
    (hcount : e.spec.factorLevels.length * e.plan.exactCombinations ≤ maxCount) :
    ofPrepared name e ∈ s.summary ∧
      ((ofPrepared name e).Accounts e.plan ↔ ToldApart e.plan) ∧
      ((∀ path ∈ e.plan.crossPaths, ∀ key ∈ path, '.' ∉ key.toList) → ToldApart e.plan) ∧
      (ToldApart e.plan → (ofPrepared name e).crossLevels.Perm (shownFactors e.plan)) ∧
      ∀ commands runs, Expansion.runs name e.plan e.spec.factorLevels [] commands = .ok runs →
        runs.length = (ofPrepared name e).expectedRuns := by
  have hready := ready_of_prepare hload hd h _ he
  have hmap := hready.valid.configuration
  have hb := hready.ordered.configuration
  refine ⟨List.mem_map_of_mem he, accounts_iff hcount,
    toldApart_of_dotless hready.extracted hb hmap, perm_crossLevels, ?_⟩
  intro commands runs hruns
  rw [Expansion.runs_eq_ite name [] commands hmap hb hready.extracted hready.ordered.entry
    hready.entries] at hruns
  split at hruns
  · cases hruns
  · cases hruns
    have hall : (Expansion.substitutions e.spec.configuration commands e.plan.cross
        e.spec.factorLevels).filter (fun run => !Expansion.isExcluded [] run) =
          Expansion.substitutions e.spec.configuration commands e.plan.cross e.spec.factorLevels :=
      List.filter_eq_self.mpr fun _ _ => rfl
    rw [hall]
    calc (Expansion.substitutions e.spec.configuration commands e.plan.cross
          e.spec.factorLevels).length
        = e.spec.factorLevels.length * e.plan.exactCombinations :=
          Expansion.length_substitutions ..
      _ = (ofPrepared name e).expectedRuns := (expectedRuns_eq hcount).symm

theorem accounts_layeredSuite :
    (Inclusion.LoadsOrdered layeredContext.loadVariables ∧ layeredDesign.Ordered ∧
      prepare layeredContext layeredDesign = .ok layeredSuite ∧
      ("exp", layeredPrepared) ∈ layeredSuite.experiments ∧
      layeredPrepared.spec.factorLevels.length * layeredPlan.exactCombinations ≤ maxCount) ∧
    (ofPrepared "exp" layeredPrepared).Accounts layeredPlan ∧
      (ofPrepared "exp" layeredPrepared).crossLevels.Perm [("size", 2)] ∧
      ∀ commands runs, Expansion.runs "exp" layeredPlan [.empty] [] commands = .ok runs →
        runs.length = 2 := by
  have hload : Inclusion.LoadsOrdered layeredContext.loadVariables := loadsOrdered_layeredFiles
  have hd : layeredDesign.Ordered := by decide
  have he : ("exp", layeredPrepared) ∈ layeredSuite.experiments := List.mem_singleton_self _
  have hcount : layeredPrepared.spec.factorLevels.length * layeredPlan.exactCombinations ≤
      maxCount := by decide
  obtain ⟨-, haccounts, hdotless, hshown, hruns⟩ :=
    accounts_iff_of_prepare hload hd prepare_layeredDesign he hcount
  have hapart : ToldApart layeredPlan := hdotless (by decide)
  exact ⟨⟨hload, hd, prepare_layeredDesign, he, hcount⟩, haccounts.mpr hapart, hshown hapart,
    hruns⟩

/-- A design with one crossed factor below `a` and `b` and another one below `a.b`. -/
def dottedDesign : Document :=
  .map [("exp", .map [("base_experiment", .map
      [("a", .map [("b", .map [("$FACTOR$", .list [.int 1, .int 2, .int 3])])]),
        ("a.b", .map [("$FACTOR$", .list [.int 1, .int 2])])]),
    ("host_types", .map [("client", .map [("$CMD$", .str "run.sh")])])])]

/-- The experiment of the design as it is parsed. -/
def dottedExperiment : Experiment where
  repetitions := 1
  commonRoles := []
  hostTypes := [("client", ⟨1, true, [], .str "run.sh"⟩)]
  configuration := .map
    [("a", .map [("b", .map [("$FACTOR$", .list [.int 1, .int 2, .int 3])])]),
      ("a.b", .map [("$FACTOR$", .list [.int 1, .int 2])])]
  factorLevels := [.empty]
  exceptFilters := []

/-- The experiment with its commands prepared. -/
def dottedPrepared : PreparedExperiment where
  spec := { dottedExperiment with
    hostTypes := [("client", ⟨1, true, [], .list [.map [("main", .str "run.sh")]]⟩)] }
  plan := ⟨.map [("a", .map [("b", .str "$FACTOR$")]), ("a.b", .str "$FACTOR$")], [],
    [⟨["a", "b"], [.int 1, .int 2, .int 3]⟩, ⟨["a.b"], [.int 1, .int 2]⟩]⟩

/-- The prepared suite. -/
def dottedSuite : PreparedSuite where
  project := "prj"
  suite := "layers"
  vars := .empty
  pipelines := none
  experiments := [("exp", dottedPrepared)]

theorem prepares_dottedExperiment :
    PreparedExperiment.Prepares layeredContext.loadVariables .empty "exp" dottedExperiment
      dottedPrepared where
  included := ⟨dottedExperiment.configuration, .empty, by cbv, .empty, rfl⟩
  unreserved := Document.checkReserved_eq_ok.mp
    (rfl : dottedExperiment.configuration.checkReserved "exp" = .ok ())
  extracted := rfl
  entries := rfl
  hosts := .cons ⟨rfl, _, rfl, rfl⟩ .nil
  rest := rfl

theorem prepare_dottedDesign : prepare layeredContext dottedDesign = .ok dottedSuite := by
  refine prepare_eq_ok.mpr ⟨_, rfl, [("exp", dottedExperiment)], ?_⟩
  constructor
  case parsed => exact .cons ⟨rfl, rfl⟩ .nil
  case named => rfl
  case registered => exact List.forall_mem_singleton.mpr rfl
  case referenced => simp
  case vars => exact ⟨.empty, by cbv⟩
  case experiments => exact .cons ⟨rfl, prepares_dottedExperiment⟩ .nil
  all_goals rfl

/-- The summary of a prepared experiment does not always account for its factors: the two paths
of this one are displayed alike, and only the last one is shown. -/
theorem not_accounts_of_prepare :
    ¬ ∀ (context : SuiteContext) (design : Document) (s : PreparedSuite),
      Inclusion.LoadsOrdered context.loadVariables → design.Ordered →
      prepare context design = .ok s → ∀ name e, (name, e) ∈ s.experiments →
      e.spec.factorLevels.length * e.plan.exactCombinations ≤ maxCount →
      (ofPrepared name e).Accounts e.plan := by
  intro hall
  have haccounts := hall layeredContext dottedDesign dottedSuite loadsOrdered_layeredFiles
    (by decide) prepare_dottedDesign "exp" dottedPrepared (List.mem_singleton_self _) (by decide)
  have hlength : (1 : Nat) = 2 := haccounts.crossLevels
  omega

end PreparedSuite

end ExperimentSuite
