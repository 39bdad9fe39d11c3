import ExperimentSuite.Factor.Expansion
import ExperimentSuite.Placeholder.Resolution
import ExperimentSuite.Proofs.Document.Order
import ExperimentSuite.Proofs.Factor.Count
import ExperimentSuite.Proofs.Factor.Grid
import ExperimentSuite.Proofs.Factor.Levels
import ExperimentSuite.Proofs.Factor.Plan

/-!
# Expansion is substitution

An experiment is expanded by laying sparse documents over a skeleton, but what
comes out can be said without any of that: each run is the configuration with
every crossed factor replaced by the chosen level and every bare marker by
what the entry holds there. Substitution is a recursion on the configuration
alone; the theorem at the end says that expansion never fails on checked
entries below the limit and yields exactly the substituted configurations, in
the order of the entries and, for one entry, in the order of the choices.
-/

namespace ExperimentSuite

namespace Expansion

open Document FactorPlan FactorGrid KeyPath

mutual

/-- A configuration with the chosen level at every crossed factor and the value of the entry at
every bare marker. -/
def substitute (choice : Choice) (entry : Document) (path : KeyPath) : Document → Document
  | .str s => if s = Vocabulary.factor then (entry.get? path).getD (.str s) else .str s
  | .map fields =>
      if Keyed.hasKey Vocabulary.factor fields then (choice.lookup path).getD (.map fields)
      else .map (substituteFields choice entry path fields)
  | d => d

/-- The same in the fields of a mapping. -/
def substituteFields (choice : Choice) (entry : Document) (path : KeyPath) :
    List (String × Document) → List (String × Document)
  | [] => []
  | (key, d) :: rest =>
      (key, substitute choice entry (path ++ [key]) d) :: substituteFields choice entry path rest

end

/-- The runs of all entries and choices before exclusion, each with the commands attached. -/
def substitutions (base commands : Document) (cross : List CrossFactor)
    (entries : List Document) : List Document :=
  entries.flatMap fun entry =>
    (choices cross).map fun choice =>
      Resolution.attach commands (substitute choice entry [] base)

variable {choice : Choice} {entry fragment base d : Document} {path : KeyPath}
  {fields : List (String × Document)} {plan : FactorPlan} {levels crosses : List KeyPath}

theorem substituteFields_eq_map :
    substituteFields choice entry path fields =
      fields.map fun e => (e.1, substitute choice entry (path ++ [e.1]) e.2) := by
  induction fields with
  | nil => rfl
  | cons e rest ih => rw [substituteFields, ih, List.map_cons]

theorem substitute_map (h : Keyed.find? Vocabulary.factor fields = none) :
    substitute choice entry path (.map fields) =
      .map (substituteFields choice entry path fields) := by
  simp [substitute, Keyed.hasKey, h]

theorem substitute_crossed {raw level : Document} (h : choice.lookup path = some level) :
    substitute choice entry path (.map [(Vocabulary.factor, raw)]) = level := by
  simp [substitute, Keyed.hasKey, Keyed.find?, h]

theorem substitute_leaf (hmap : d.isMap = false) (hmarker : d.hasMarker = false) :
    substitute choice entry path d = d := by
  cases d with
  | map fields => cases hmap
  | str s =>
      rw [substitute, if_neg]
      simpa [hasMarker] using hmarker
  | _ => simp only [substitute]

/-- Below a mapping that is no factor a substitution is read field by field. -/
theorem get?_substitute_map {e : String × Document} (hs : Keyed.Sorted fields)
    (hnone : Keyed.find? Vocabulary.factor fields = none) (he : e ∈ fields) (r : KeyPath) :
    (substitute choice entry path (.map fields)).get? (e.1 :: r) =
      (substitute choice entry (path ++ [e.1]) e.2).get? r := by
  have hfield : Keyed.find? e.1 (substituteFields choice entry path fields) =
      some (substitute choice entry (path ++ [e.1]) e.2) := by
    rw [substituteFields_eq_map]
    exact Keyed.find?_of_mem (List.pairwise_map.mpr hs) (List.mem_map_of_mem he)
  rw [substitute_map hnone, get?_map_cons, hfield, Option.bind_some]

/-- Paths are local to a part of a configuration when those at or below its place are the ones that
its own plan lists. -/
def Local (paths own : List KeyPath) (path : KeyPath) : Prop :=
  ∀ r, path ++ r ∈ paths ↔ path ++ r ∈ own

/-- Below a mapping that is no factor, locality passes to every field. -/
theorem Local.field {pathsOf : FactorPlan → List KeyPath}
    {plans : String × Document → FactorPlan} {e : String × Document} {paths : List KeyPath}
    (h : Local paths (fields.flatMap fun e => pathsOf (plans e)) path)
    (hs : Keyed.Sorted fields) (he : e ∈ fields)
    (hpre : ∀ e ∈ fields, ∀ q ∈ pathsOf (plans e), path ++ [e.1] <+: q) :
    Local paths (pathsOf (plans e)) (path ++ [e.1]) := by
  intro r
  have hmem := mem_flatMap_iff id (x := path ++ e.1 :: r) hs hpre rfl
  rw [List.append_assoc, List.singleton_append, h (e.1 :: r), hmem]
  simp [Keyed.find?_of_mem hs he]

theorem Local.not_mem {pathsOf : FactorPlan → List KeyPath}
    {plans : String × Document → FactorPlan} {paths : List KeyPath}
    (h : Local paths (fields.flatMap fun e => pathsOf (plans e)) path)
    (hpre : ∀ e ∈ fields, ∀ q ∈ pathsOf (plans e), path ++ [e.1] <+: q) : path ∉ paths := by
  intro hmem
  have hown := (h []).mp (by simpa using hmem)
  obtain ⟨e, he, hr⟩ := List.mem_flatMap.mp hown
  simpa using (hpre e he _ hr).length_le

/-- Grafting the levels and then the entry onto the skeleton substitutes in the configuration. -/
theorem graft_skeleton (hcross : ∀ p ∈ crosses, fragment.get? p = choice.lookup p)
    (hchosen : ∀ p ∈ crosses, (choice.lookup p).isSome)
    (hentry : ∀ p ∈ levels, (entry.get? p).isSome) (hd : d.Ordered)
    (h : extractAt path d = .ok plan) (hl : Local levels plan.levelPaths path)
    (hc : Local crosses plan.crossPaths path) :
    graft (heldAt levels entry) path (graft (heldAt crosses fragment) path plan.skeleton) =
      substitute choice entry path d := by
  refine extractAt_induction (motive := fun path d plan => d.Ordered →
    Local levels plan.levelPaths path → Local crosses plan.crossPaths path →
    graft (heldAt levels entry) path (graft (heldAt crosses fragment) path plan.skeleton) =
      substitute choice entry path d) ?marker ?leaf ?cross ?map h hd hl hc
  case marker =>
    intro path _ hl hc
    have hlevel : path ∈ levels := by simpa using (hl []).mpr (by simp)
    have hnot : path ∉ crosses := by simpa [crossPaths] using hc []
    obtain ⟨v, hv⟩ := Option.isSome_iff_exists.mp (hentry path hlevel)
    rw [graft_of_not_isMap (heldAt_of_not_mem hnot) rfl,
      graft_of_some ((heldAt_of_mem hlevel).trans hv), substitute, if_pos rfl, hv,
      Option.getD_some]
  case leaf =>
    intro path d hmap hmarker _ hl hc
    have hnotLevel : path ∉ levels := by simpa [constant] using hl []
    have hnotCross : path ∉ crosses := by simpa [constant, crossPaths] using hc []
    rw [constant, graft_of_not_isMap (heldAt_of_not_mem hnotCross) hmap,
      graft_of_not_isMap (heldAt_of_not_mem hnotLevel) hmap, substitute_leaf hmap hmarker]
  case cross =>
    intro path raw ls _ _ _ hl hc
    have hmem : path ∈ crosses := by simpa using (hc []).mpr (by simp [crossPaths])
    obtain ⟨level, hlevel⟩ := Option.isSome_iff_exists.mp (hchosen path hmem)
    have hheld : heldAt crosses fragment path = some level := by
      rw [heldAt_of_mem hmem, hcross path hmem, hlevel]
    have hbelow : ∀ p, heldAt levels entry (path ++ p) = none :=
      fun p => heldAt_of_not_mem (by simpa using (hl p).not)
    rw [graft_of_some hheld, graft_eq_self hbelow, substitute_crossed hlevel]
  case map =>
    intro path fields plans hnone hall ih hd hl hc
    have hvalues := (ordered_map_iff.mp hd).2
    have hdescribes := fun e he => describes_of_extractAt (hvalues e he) (hall e he)
    have hpreLevel : ∀ e ∈ fields, ∀ q ∈ (plans e).levelPaths, path ++ [e.1] <+: q :=
      fun e he q hq => prefix_of_mem_levelPaths (hdescribes e he) hq
    have hpreCross : ∀ e ∈ fields, ∀ q ∈ (plans e).crossPaths, path ++ [e.1] <+: q :=
      fun e he q hq => prefix_of_mem_crossPaths (hdescribes e he) hq
    have hc' : Local crosses (fields.flatMap fun e => (plans e).crossPaths) path := by
      simpa [ofPlans, crossPaths, List.map_flatMap] using hc
    have hl' : Local levels (fields.flatMap fun e => (plans e).levelPaths) path := hl
    rw [ofPlans, graft_map (heldAt_of_not_mem (hc'.not_mem hpreCross)),
      graft_map (heldAt_of_not_mem (hl'.not_mem hpreLevel)), substitute_map hnone]
    simp only [graftFields_eq_map, substituteFields_eq_map, List.map_map]
    congr 1
    apply List.map_congr_left
    intro e he
    rw [← ih e he (hvalues e he) (hl'.field hd.sorted he hpreLevel)
      (hc'.field hd.sorted he hpreCross)]
    rfl

theorem mem_of_lookup {level : Document} (h : choice.lookup path = some level) :
    (path, level) ∈ choice := by
  obtain ⟨before, after, rfl, -⟩ := List.lookup_eq_some_iff.mp h
  simp

/-- A choice has a level for every crossed factor. -/
theorem isSome_lookup (hc : choice ∈ choices plan.cross) (h : path ∈ plan.crossPaths) :
    (choice.lookup path).isSome := by
  have hpaths : choice.map Prod.fst = plan.crossPaths := map_fst_of_mem_choices hc
  rw [← hpaths] at h
  obtain ⟨a, ha, rfl⟩ := List.mem_map.mp h
  exact List.lookup_isSome_iff.mpr ⟨a, ha, beq_self_eq_true _⟩

/-- Nothing is left of the markers once levels without markers stand in their places. -/
theorem hasMarker_substitute
    (hchosen : ∀ p ∈ plan.crossPaths, ∃ level, choice.lookup p = some level ∧
      level.hasMarker = false)
    (hheld : ∀ p ∈ plan.levelPaths, (entry.get? p).isSome) (hentry : entry.hasMarker = false)
    (h : extractAt path d = .ok plan) : (substitute choice entry path d).hasMarker = false := by
  refine extractAt_induction (motive := fun path d plan =>
    (∀ p ∈ plan.crossPaths, ∃ level, choice.lookup p = some level ∧ level.hasMarker = false) →
    (∀ p ∈ plan.levelPaths, (entry.get? p).isSome) →
    (substitute choice entry path d).hasMarker = false) ?marker ?leaf ?cross ?map h hchosen hheld
  case marker =>
    intro path _ hheld
    obtain ⟨v, hv⟩ := Option.isSome_iff_exists.mp (hheld path (by simp))
    rw [substitute, if_pos rfl, hv, Option.getD_some]
    exact hasMarker_of_get? hentry hv
  case leaf =>
    intro path d hmap hmarker _ _
    rw [substitute_leaf hmap hmarker]
    exact hmarker
  case cross =>
    intro path raw levels _ _ hchosen _
    obtain ⟨level, hlevel, hunmarked⟩ := hchosen path (by simp [crossPaths])
    rw [substitute_crossed hlevel]
    exact hunmarked
  case map =>
    intro path fields plans hnone _ ih hchosen hheld
    rw [substitute_map hnone, substituteFields_eq_map, hasMarker, hasMarkerFields_eq_false_iff]
    intro e' he'
    obtain ⟨e, he, rfl⟩ := List.mem_map.mp he'
    refine ⟨Keyed.find?_eq_none_iff.mp hnone e he, ih e he (fun p hp => hchosen p ?_)
      fun p hp => hheld p (List.mem_flatMap.mpr ⟨e, he, hp⟩)⟩
    obtain ⟨f, hf, rfl⟩ := List.mem_map.mp hp
    exact List.mem_map.mpr ⟨f, List.mem_flatMap.mpr ⟨e, he, hf⟩, rfl⟩

section Extracted

variable (h : extract base = .ok plan) (hb : base.Ordered) (hmap : base.isMap = true)

include h hb hmap

/-- The levels of the crossed factors of a configuration can all be written. -/
theorem separate_cross : Separate [] plan.cross where
  apart := pairwise_apart_crossPaths h hb
  free := by simp
  proper f hf := ne_nil_of_mem_crossPaths h hb hmap (List.mem_map_of_mem hf)
  ordered f hf := by
    obtain ⟨_, -, husable, -, -⟩ := (describes_of_extractAt hb h).cross f hf
    exact husable.ordered

/-- A fragment of the grid is sparse over the crossed factors and holds the chosen levels. -/
theorem sparse_fragment (hc : choice ∈ choices plan.cross) :
    Sparse plan.crossPaths (assign .empty choice) ∧
      ∀ p ∈ plan.crossPaths, (assign .empty choice).get? p = choice.lookup p := by
  obtain ⟨hsparse, -, hlevels⟩ := sparse_assign (separate_cross h hb hmap) sparse_empty hc
  refine ⟨hsparse.congr fun q => by simp [crossPaths], ?_⟩
  intro p hp
  obtain ⟨level, hlevel⟩ := Option.isSome_iff_exists.mp (isSome_lookup hc hp)
  rw [hlevel]
  exact hlevels _ (mem_of_lookup hlevel)

/-- Laying the fragment of a choice and then an entry over the skeleton substitutes in the
configuration. -/
theorem merge_merge_eq_substitute (hc : choice ∈ choices plan.cross)
    (he : Sparse plan.levelPaths entry) :
    (plan.skeleton.merge (assign .empty choice)).merge entry =
      substitute choice entry [] base := by
  obtain ⟨hfragment, hlevels⟩ := sparse_fragment h hb hmap hc
  have hskeleton : plan.skeleton.Ordered := (describes_of_extractAt hb h).ordered
  have hroot : plan.skeleton.isMap = true := isMap_skeleton h hmap
  have hfirst : plan.skeleton.merge (assign .empty choice) =
      graft (heldAt plan.crossPaths (assign .empty choice)) [] plan.skeleton :=
    merge_sparse hfragment hskeleton hroot
      fun q hq => ⟨_, marker_of_mem_crossPaths h hb hq, rfl⟩
  have hleaf : ∀ q ∈ plan.levelPaths, ∃ leaf,
      (plan.skeleton.merge (assign .empty choice)).get? q = some leaf ∧ leaf.isMap = false := by
    intro q hq
    have hmarker := marker_of_mem_levelPaths h hb hq
    have hnone : ∀ p, p <+: q → heldAt plan.crossPaths (assign .empty choice) ([] ++ p) = none := by
      intro p hpre
      apply heldAt_of_not_mem
      intro hp
      by_cases heq : p = q
      · exact disjoint_paths h hb hq (heq ▸ hp)
      · exact (apart_of_markers (marker_of_mem_crossPaths h hb hp) hmarker heq).1 hpre
    refine ⟨.str Vocabulary.factor, ?_, rfl⟩
    rw [hfirst, get?_graft fun p hpre _ => hnone p hpre, hmarker, Option.map_some,
      graft_of_not_isMap (hnone q List.prefix_rfl) rfl]
  have hsecond := merge_sparse he (hskeleton.merge hfragment.ordered)
    (isMap_merge.trans hfragment.isMap) hleaf
  rw [hsecond, hfirst]
  exact graft_skeleton hlevels (fun p hp => isSome_lookup hc hp) he.holds hb h
    (fun _ => Iff.rfl) fun _ => Iff.rfl

/-- Building one run never fails and substitutes. -/
theorem build_eq_ok (experiment : String) (commands : Document)
    (hc : choice ∈ choices plan.cross) (he : Sparse plan.levelPaths entry)
    (hentry : entry.hasMarker = false) :
    build experiment plan.skeleton commands (assign .empty choice) entry =
      .ok (Resolution.attach commands (substitute choice entry [] base)) := by
  have hmerged : ((plan.skeleton.merge (assign .empty choice)).merge entry).isMap = true :=
    isMap_merge.trans he.isMap
  rw [merge_merge_eq_substitute h hb hmap hc he] at hmerged
  obtain ⟨fields, hfields⟩ := isMap_iff.mp hmerged
  have hunmarked : (substitute choice entry [] base).hasMarker = false := by
    refine hasMarker_substitute (fun p hp => ?_) he.holds hentry h
    obtain ⟨level, hlevel⟩ := Option.isSome_iff_exists.mp (isSome_lookup hc hp)
    obtain ⟨f, hf, hmem⟩ := level_of_mem_choices hc (mem_of_lookup hlevel)
    obtain ⟨_, -, husable, -, -⟩ := (describes_of_extractAt hb h).cross f hf
    exact ⟨level, hlevel, husable.unmarked level hmem⟩
  rw [hfields] at hunmarked
  simp only [build, merge_merge_eq_substitute h hb hmap hc he, hfields, hunmarked]
  rfl

/-- Building all runs never fails and substitutes for every entry and choice. -/
theorem buildAll_eq_ok (experiment : String) (commands : Document) {entries : List Document}
    (hentries : ∀ entry ∈ entries, Sparse plan.levelPaths entry ∧ entry.hasMarker = false) :
    buildAll experiment plan.skeleton commands ((choices plan.cross).map (assign .empty)) entries =
      .ok (substitutions base commands plan.cross entries) := by
  induction entries with
  | nil => rfl
  | cons entry rest ih =>
      obtain ⟨⟨hsparse, hentry⟩, hrest⟩ := List.forall_mem_cons.mp hentries
      have hruns : ((choices plan.cross).map (assign .empty)).mapM
          (fun fragment => build experiment plan.skeleton commands fragment entry) =
          .ok ((choices plan.cross).map fun choice =>
            Resolution.attach commands (substitute choice entry [] base)) := by
        rw [List.mapM_map]
        exact Outcome.mapM_eq_ok fun choice hc =>
          build_eq_ok h hb hmap experiment commands hc hsparse hentry
      rw [buildAll, hruns, ih hrest]
      rfl

end Extracted

theorem length_substitutions (base commands : Document) (plan : FactorPlan)
    (entries : List Document) :
    (substitutions base commands plan.cross entries).length =
      entries.length * plan.exactCombinations := by
  simp [substitutions, List.length_flatMap, length_choices, exactCombinations]

/-- Expansion is substitution: on checked entries below the limit of runs it never fails, and it
yields the substituted configurations that contain no filter, every other one being excluded. -/
theorem runs_eq_substitutions (experiment : String) {entries : List Document}
    (filters : List Document) (commands : Document) (hmap : base.isMap = true)
    (hb : base.Ordered) (h : extract base = .ok plan)
    (hentries : ∀ entry ∈ entries, entry.Ordered)
    (hcheck : FactorLevels.check plan.levelPaths entries = .ok ())
    (hlimit : entries.length * plan.exactCombinations ≤ Vocabulary.maxRuns) :
    runs experiment plan entries filters commands =
        .ok ((substitutions base commands plan.cross entries).filter
          fun run => !isExcluded filters run) ∧
      ((substitutions base commands plan.cross entries).filter
          fun run => !isExcluded filters run).length +
        ((substitutions base commands plan.cross entries).filter (isExcluded filters)).length =
          plan.runCount entries.length := by
  have hcount : plan.runCount entries.length = entries.length * plan.exactCombinations :=
    runCount_of_le hlimit
  constructor
  · have hgrid : fragments plan.cross = .ok ((choices plan.cross).map (assign .empty)) :=
      fragments_eq_ok (separate_cross h hb hmap)
    have hbuilt := buildAll_eq_ok h hb hmap experiment commands
      fun entry he => FactorLevels.sparse_of_check hcheck he (hentries entry he)
    have hnot : ¬ Vocabulary.maxRuns < plan.runCount entries.length := by omega
    simp only [runs, hcheck, hgrid]
    change (if Vocabulary.maxRuns < plan.runCount entries.length then _ else _) = _
    rw [if_neg hnot]
    change (buildAll experiment plan.skeleton commands _ entries >>= _) = _
    rw [hbuilt]
    rfl
  · rw [hcount, ← length_substitutions base commands plan entries, Nat.add_comm]
    simpa using (List.length_eq_length_filter_add (isExcluded filters)).symm

/-- A configuration with a crossed factor, one of whose levels is a mapping, and a bare marker
beside it. -/
def twoFactors : Document :=
  .map [("app", .map [
      ("mode", .map [("$FACTOR$", .list [.map [("kind", .str "fast")], .str "slow"])]),
      ("size", .str "$FACTOR$")]),
    ("seed", .int 7)]

/-- The plan of that configuration. -/
def twoFactorsPlan : FactorPlan where
  skeleton := .map [("app", .map [("mode", .str "$FACTOR$"), ("size", .str "$FACTOR$")]),
    ("seed", .int 7)]
  levelPaths := [["app", "size"]]
  cross := [⟨["app", "mode"], [.map [("kind", .str "fast")], .str "slow"]⟩]

/-- Two entries of the configuration. -/
def twoFactorsEntries : List Document :=
  [.map [("app", .map [("size", .int 1)])], .map [("app", .map [("size", .int 2)])]]

/-- A filter that excludes one of the four runs. -/
def twoFactorsFilter : Document :=
  .map [("app", .map [("mode", .str "slow"), ("size", .int 2)])]

theorem runs_twoFactors :
    (twoFactors.isMap = true ∧ twoFactors.Ordered ∧ extract twoFactors = .ok twoFactorsPlan ∧
      (∀ entry ∈ twoFactorsEntries, entry.Ordered) ∧
      FactorLevels.check twoFactorsPlan.levelPaths twoFactorsEntries = .ok () ∧
      twoFactorsEntries.length * twoFactorsPlan.exactCombinations ≤ Vocabulary.maxRuns) ∧
    runs "e" twoFactorsPlan twoFactorsEntries [twoFactorsFilter] .null = .ok
      [.map [("$CMD$", .null), ("app", .map [("mode", .map [("kind", .str "fast")]),
          ("size", .int 1)]), ("seed", .int 7)],
        .map [("$CMD$", .null), ("app", .map [("mode", .str "slow"), ("size", .int 1)]),
          ("seed", .int 7)],
        .map [("$CMD$", .null), ("app", .map [("mode", .map [("kind", .str "fast")]),
          ("size", .int 2)]), ("seed", .int 7)]] ∧
    3 + 1 = twoFactorsPlan.runCount 2 := by
  have hmap : twoFactors.isMap = true := rfl
  have hb : twoFactors.Ordered := by decide
  have h : extract twoFactors = .ok twoFactorsPlan := rfl
  have hentries : ∀ entry ∈ twoFactorsEntries, entry.Ordered := by decide
  have hcheck : FactorLevels.check twoFactorsPlan.levelPaths twoFactorsEntries = .ok () := rfl
  have hlimit : twoFactorsEntries.length * twoFactorsPlan.exactCombinations ≤
      Vocabulary.maxRuns := by decide
  exact ⟨⟨hmap, hb, h, hentries, hcheck, hlimit⟩,
    runs_eq_substitutions "e" [twoFactorsFilter] .null hmap hb h hentries hcheck hlimit⟩

end Expansion

end ExperimentSuite
