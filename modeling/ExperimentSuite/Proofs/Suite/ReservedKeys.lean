import ExperimentSuite.Proofs.Suite.Expansion

/-!
# Reserved keys in expanded runs

The check of a configuration covers what its own values, its files and its
crossed levels bring into a run. What the entries of the factor levels and the
commands bring in is checked for other things only: a run is free of reserved
keys exactly if its entry and the commands are.
-/

namespace ExperimentSuite

open Document FactorPlan FactorGrid

namespace Document

variable {d v : Document} {key : String} {paths : List KeyPath} {p : KeyPath}

/-- A key of a sparse document stands on one of its paths or in what it holds there. -/
theorem Sparse.keyIn (hs : Sparse paths d) (h : KeyIn key d) :
    ∃ q ∈ paths, ∃ v, d.get? q = some v ∧ (key ∈ q ∨ KeyIn key v) := by
  obtain ⟨p, v, hv, hkey⟩ := exists_get?_of_keyIn hs.ordered h
  rcases hs.noOther p v hv with ⟨q, hq, r, rfl⟩ | ⟨hmap, hroot | ⟨q, hq, hpq⟩⟩
  · -- the place lies at or below one of the paths
    obtain ⟨w, hw⟩ := Option.isSome_iff_exists.mp (hs.holds q hq)
    rw [get?_append, hw, Option.bind_some] at hv
    refine ⟨q, hq, w, hw, ?_⟩
    rcases hkey with hkey | ⟨-, hkey⟩
    · rcases List.mem_append.mp hkey with hkey | hkey
      · exact .inl hkey
      · exact .inr (keyIn_of_get? hv (.inl hkey))
    · exact .inr (keyIn_of_get? hv (.inr hkey))
  · rcases hkey with hkey | ⟨hnot, -⟩
    · rw [hroot] at hkey
      cases hkey
    · rw [hmap] at hnot
      cases hnot
  · rcases hkey with hkey | ⟨hnot, -⟩
    · obtain ⟨w, hw⟩ := Option.isSome_iff_exists.mp (hs.holds q hq)
      exact ⟨q, hq, w, hw, .inl (hpq.subset hkey)⟩
    · rw [hmap] at hnot
      cases hnot

end Document

namespace FactorPlan

variable {path : KeyPath} {raw level d : Document} {levels : List Document} {key : String}
  {plan : FactorPlan}

/-- The levels of a crossed factor have no keys but those of the value that they are read off. -/
theorem not_keyIn_of_mem_levelsAt (hraw : ¬ KeyIn key raw) (h : levelsAt path raw = .ok levels)
    (hlevel : level ∈ levels) : ¬ KeyIn key level := by
  cases raw with
  | list items =>
      cases items with
      | nil => cases h
      | cons d rest =>
          cases h
          exact fun hkey => hraw (.item hlevel hkey)
  | str expression =>
      rw [levelsAt] at h
      split at h
      · cases h
      · cases h
      · cases h
        obtain ⟨n, -, rfl⟩ := List.mem_map.mp hlevel
        rintro ⟨⟩
  | _ => cases h

theorem not_keyIn_of_mem_cross (h : extractAt path d = .ok plan) (hd : ¬ KeyIn key d) :
    ∀ f ∈ plan.cross, ∀ level ∈ f.levels, ¬ KeyIn key level := by
  refine extractAt_induction (motive := fun _ d plan => ¬ KeyIn key d →
    ∀ f ∈ plan.cross, ∀ level ∈ f.levels, ¬ KeyIn key level) ?marker ?leaf ?cross ?map h hd
  case marker => simp
  case leaf => simp [constant]
  case cross =>
    intro path raw levels _ hlevels hd
    rw [crossLevels, Outcome.bind_eq_ok] at hlevels
    obtain ⟨found, hfound, hlevels⟩ := hlevels
    split at hlevels
    · cases hlevels
    · cases hlevels
      simp only [List.forall_mem_singleton]
      intro level hlevel
      refine not_keyIn_of_mem_levelsAt (fun hraw => hd ?_) hfound hlevel
      exact .field (List.mem_singleton_self _) hraw
  case map =>
    intro path fields plans _ _ ih hd f hf
    obtain ⟨e, he, hf⟩ := List.mem_flatMap.mp hf
    exact ih e he (fun hkey => hd (.field he hkey)) f hf

end FactorPlan

namespace Expansion

variable {choice : Choice} {entry base d : Document} {path q : KeyPath} {plan : FactorPlan}
  {key : String}

/-- A substitution holds what the entry has at a bare marker. -/
theorem get?_substitute (h : extractAt path d = .ok plan) (hd : d.Ordered)
    (hq : q ∈ plan.levelPaths) (hheld : (entry.get? q).isSome) :
    ∃ r, q = path ++ r ∧ (substitute choice entry path d).get? r = entry.get? q := by
  refine extractAt_induction (motive := fun path d plan => d.Ordered → q ∈ plan.levelPaths →
    ∃ r, q = path ++ r ∧ (substitute choice entry path d).get? r = entry.get? q)
    ?marker ?leaf ?cross ?map h hd hq
  case marker =>
    intro path _ hq
    obtain rfl := List.mem_singleton.mp hq
    obtain ⟨v, hv⟩ := Option.isSome_iff_exists.mp hheld
    refine ⟨[], (List.append_nil q).symm, ?_⟩
    rw [get?_nil, substitute, if_pos rfl, hv, Option.getD_some]
  case leaf =>
    intro _ _ _ _ _ hq
    cases hq
  case cross =>
    intro _ _ _ _ _ _ hq
    cases hq
  case map =>
    intro path fields plans hnone _ ih hd hq
    obtain ⟨e, he, hq⟩ := List.mem_flatMap.mp hq
    obtain ⟨r, rfl, hr⟩ := ih e he ((ordered_map_iff.mp hd).2 e he) hq
    exact ⟨e.1 :: r, by simp, (get?_substitute_map hd.sorted hnone he r).trans hr⟩

/-- Keys of a substitution come from the configuration, from a chosen level or from the entry. -/
theorem not_keyIn_substitute
    (hchosen : ∀ p ∈ plan.crossPaths, ∃ level, choice.lookup p = some level ∧ ¬ KeyIn key level)
    (hheld : ∀ p ∈ plan.levelPaths, (entry.get? p).isSome) (hentry : ¬ KeyIn key entry)
    (h : extractAt path d = .ok plan) (hd : ¬ KeyIn key d) :
    ¬ KeyIn key (substitute choice entry path d) := by
  refine extractAt_induction (motive := fun path d plan =>
    (∀ p ∈ plan.crossPaths, ∃ level, choice.lookup p = some level ∧ ¬ KeyIn key level) →
    (∀ p ∈ plan.levelPaths, (entry.get? p).isSome) → ¬ KeyIn key d →
    ¬ KeyIn key (substitute choice entry path d)) ?marker ?leaf ?cross ?map h hchosen hheld hd
  case marker =>
    intro path _ hheld _ hkey
    obtain ⟨v, hv⟩ := Option.isSome_iff_exists.mp (hheld path (by simp))
    rw [substitute, if_pos rfl, hv, Option.getD_some] at hkey
    exact hentry (keyIn_of_get? hv (.inr hkey))
  case leaf =>
    intro path d hmap hmarker _ _ hd
    rwa [substitute_leaf hmap hmarker]
  case cross =>
    intro path raw levels _ _ hchosen _ _
    obtain ⟨level, hlevel, hnot⟩ := hchosen path (by simp [crossPaths])
    rwa [substitute_crossed hlevel]
  case map =>
    intro path fields plans hnone _ ih hchosen hheld hd
    rw [substitute_map hnone, substituteFields_eq_map, keyIn_map_iff]
    rintro ⟨e', he', hkey⟩
    obtain ⟨e, he, rfl⟩ := List.mem_map.mp he'
    rcases hkey with heq | hkey
    · exact hd (keyIn_map_iff.mpr ⟨e, he, .inl heq⟩)
    · refine ih e he (fun p hp => hchosen p ?_) (fun p hp => hheld p ?_)
        (fun hin => hd (.field he hin)) hkey
      · obtain ⟨f, hf, rfl⟩ := List.mem_map.mp hp
        exact List.mem_map_of_mem (List.mem_flatMap.mpr ⟨e, he, hf⟩)
      · exact List.mem_flatMap.mpr ⟨e, he, hp⟩

/-- A substitution in a mapping is a mapping. -/
theorem isMap_substitute (h : extract base = .ok plan) (hmap : base.isMap = true) :
    (substitute choice entry [] base).isMap = true := by
  refine extractAt_induction (motive := fun path d _ => path = [] → d.isMap = true →
    (substitute choice entry path d).isMap = true) ?marker ?leaf ?cross ?map h rfl hmap
  case marker =>
    intro _ _ hmap
    cases hmap
  case leaf =>
    intro _ _ hleaf _ _ hmap
    rw [hmap] at hleaf
    cases hleaf
  case cross =>
    intro _ _ _ hpath _ hnil
    exact absurd hnil hpath
  case map =>
    intro _ _ _ hnone _ _ _ _
    rw [substitute_map hnone]
    rfl

/-- A run whose one reserved key is that of its commands, at the top. -/
def CommandsOnly (run : Document) : Prop :=
  ∃ fields, run = .map fields ∧ ∀ e ∈ fields,
    (e.1 = Vocabulary.command ∨ e.1 ∉ Vocabulary.reservedKeys) ∧ Unreserved e.2

section Extracted

variable {commands : Document} {fields : List (String × Document)} (h : extract base = .ok plan)
  (hbase : Unreserved base) (hentry : Sparse plan.levelPaths entry)

include h hbase hentry

/-- An entry without reserved keys brings none into a substitution. -/
theorem unreserved_substitute (hc : choice ∈ choices plan.cross) (hclean : Unreserved entry) :
    Unreserved (substitute choice entry [] base) := by
  intro key hkey
  refine not_keyIn_substitute (fun p hp => ?_) hentry.holds (hclean key hkey) h (hbase key hkey)
  obtain ⟨level, hlevel⟩ := Option.isSome_iff_exists.mp (isSome_lookup hc hp)
  obtain ⟨f, hf, hmem⟩ := level_of_mem_choices hc (mem_of_lookup hlevel)
  exact ⟨level, hlevel, not_keyIn_of_mem_cross h (hbase key hkey) f hf level hmem⟩

/-- A reserved key of an entry gets below a field of the substitution whose own key is none. -/
theorem exists_field_of_keyIn (hb : base.Ordered) (hmap : base.isMap = true)
    (hfields : substitute choice entry [] base = .map fields)
    (hkey : key ∈ Vocabulary.reservedKeys) (hin : KeyIn key entry) :
    ∃ e ∈ fields, e.1 ∉ Vocabulary.reservedKeys ∧ KeyIn key e.2 := by
  obtain ⟨q, hq, v, hv, hplace⟩ := hentry.keyIn hin
  obtain ⟨_, rfl, hmarker, -⟩ := (describes_of_extractAt hb h).level q hq
  have hpath : ∀ key ∈ q, key ∉ Vocabulary.reservedKeys :=
    fun other hother hreserved => hbase other hreserved (keyIn_of_get? hmarker (.inl hother))
  have hvalue : KeyIn key v := hplace.resolve_left fun hmem => hpath key hmem hkey
  obtain ⟨r, hr, hget⟩ :
      ∃ r, q = [] ++ r ∧ (substitute choice entry [] base).get? r = entry.get? q :=
    get?_substitute h hb hq (hentry.holds q hq)
  rw [List.nil_append] at hr
  subst hr
  rw [hfields, hv] at hget
  cases q with
  | nil =>
      rw [get?_nil, Option.some.injEq] at hmarker
      rw [hmarker] at hmap
      cases hmap
  | cons first rest =>
      rw [get?_map_cons, Option.bind_eq_some_iff] at hget
      obtain ⟨child, hchild, hget⟩ := hget
      exact ⟨(first, child), Keyed.mem_of_find? hchild, hpath first List.mem_cons_self,
        keyIn_of_get? hget (.inr hvalue)⟩

/-- A run is free of reserved keys apart from that of its commands exactly if its entry and the
commands are. -/
theorem commandsOnly_iff (hb : base.Ordered) (hmap : base.isMap = true)
    (hc : choice ∈ choices plan.cross) :
    CommandsOnly (Resolution.attach commands (substitute choice entry [] base)) ↔
      Unreserved entry ∧ Unreserved commands := by
  obtain ⟨fields, hfields⟩ : ∃ fields, substitute choice entry [] base = .map fields :=
    isMap_iff.mp (isMap_substitute h hmap)
  rw [hfields, Resolution.attach]
  constructor
  · rintro ⟨_, heq, hall⟩
    cases heq
    constructor
    · intro key hkey hin
      obtain ⟨e, he, hnot, hbelow⟩ :=
        exists_field_of_keyIn h hbase hentry hb hmap hfields hkey hin
      have hne : e.1 ≠ Vocabulary.command := fun heq => hnot (heq ▸ by decide)
      have hmem : e ∈ Keyed.insert Vocabulary.command commands fields :=
        Keyed.mem_insert_of_ne he hne
      exact (hall e hmem).2 key hkey hbelow
    · have hmem : (Vocabulary.command, commands) ∈
          Keyed.insert Vocabulary.command commands fields :=
        Keyed.mem_of_find? (Keyed.find?_insert_self ..)
      exact (hall _ hmem).2
  · rintro ⟨hclean, hcommands⟩
    have hsubstitute := unreserved_substitute h hbase hentry hc hclean
    rw [hfields, unreserved_map_iff] at hsubstitute
    refine ⟨_, rfl, fun e he => ?_⟩
    rcases Keyed.mem_insert he with rfl | hmem
    · exact ⟨.inl rfl, hcommands⟩
    · exact ⟨.inr (hsubstitute e hmem).1, (hsubstitute e hmem).2⟩

end Extracted

end Expansion

namespace PreparedSuite

variable {context : SuiteContext} {design : Document} {s : PreparedSuite}

/-- Every run of a prepared experiment carries its commands, and it has another reserved key, or has
this one in another place, exactly if its entry or the commands bring one in. -/
theorem commandsOnly_iff_of_prepare (hload : Inclusion.LoadsOrdered context.loadVariables)
    (hd : design.Ordered) (h : prepare context design = .ok s) {name : String}
    {e : PreparedExperiment} (he : (name, e) ∈ s.experiments) {runs : List Document}
    (hruns : Expansion.runs name e.plan e.spec.factorLevels e.spec.exceptFilters e.commands =
      .ok runs) :
    ∀ run ∈ runs, run.get? [Vocabulary.command] = some e.commands ∧
      ∃ entry ∈ e.spec.factorLevels, ∃ choice ∈ choices e.plan.cross,
        run = Resolution.attach e.commands
          (Expansion.substitute choice entry [] e.spec.configuration) ∧
        (Expansion.CommandsOnly run ↔ Unreserved entry ∧ Unreserved e.commands) := by
  have hready := ready_of_prepare hload hd h _ he
  have hmap := hready.valid.configuration
  have hb := hready.ordered.configuration
  rw [Expansion.runs_eq_ite name e.spec.exceptFilters e.commands hmap hb hready.extracted
    hready.ordered.entry hready.entries] at hruns
  split at hruns
  · cases hruns
  cases hruns
  intro run hrun
  obtain ⟨entry, hentry, hrun⟩ := List.mem_flatMap.mp (List.mem_filter.mp hrun).1
  obtain ⟨choice, hchoice, rfl⟩ := List.mem_map.mp hrun
  have hsparse := (FactorLevels.sparse_of_check hready.entries hentry
    (hready.ordered.entry entry hentry)).1
  obtain ⟨fields, hfields⟩ :
      ∃ fields, Expansion.substitute choice entry [] e.spec.configuration = .map fields :=
    isMap_iff.mp (Expansion.isMap_substitute hready.extracted hmap)
  refine ⟨?_, entry, hentry, choice, hchoice, rfl,
    Expansion.commandsOnly_iff hready.extracted hready.unreserved hsparse hb hmap hchoice⟩
  rw [hfields, Resolution.attach, get?_singleton]
  exact Keyed.find?_insert_self ..

/-- The surroundings of a suite with one host type and no files. -/
def leakyContext : SuiteContext where
  project := "demo"
  suite := "bench"
  registry := .ofNames ["client"] []
  loadVariables file := .error (.file file .notFound)

/-- A design with a marker for inclusion in one of the levels that its entries supply. -/
def leakyDesign : Document :=
  .map [("exp", .map [("base_experiment", .map [("size", .str "$FACTOR$")]),
    ("factor_levels", .list [.map [("size", .map [("$INCLUDE_VARS$", .str "x.yml")])],
      .map [("size", .int 1)]]),
    ("host_types", .map [("client", .map [("$CMD$", .str "run.sh")])])])]

/-- The experiment of the design as it is parsed. -/
def leakyExperiment : Experiment where
  repetitions := 1
  commonRoles := []
  hostTypes := [("client", ⟨1, true, [], .str "run.sh"⟩)]
  configuration := .map [("size", .str "$FACTOR$")]
  factorLevels := [.map [("size", .map [("$INCLUDE_VARS$", .str "x.yml")])],
    .map [("size", .int 1)]]
  exceptFilters := []

/-- The experiment with its commands prepared. -/
def leakyPrepared : PreparedExperiment where
  spec := { leakyExperiment with
    hostTypes := [("client", ⟨1, true, [], .list [.map [("main", .str "run.sh")]]⟩)] }
  plan := ⟨.map [("size", .str "$FACTOR$")], [["size"]], []⟩

/-- The prepared suite. -/
def leakySuite : PreparedSuite where
  project := "demo"
  suite := "bench"
  vars := .empty
  pipelines := none
  experiments := [("exp", leakyPrepared)]

/-- The commands of its runs. -/
def leakyCommands : Document :=
  .map [("client", .list [.map [("main", .str "run.sh")]])]

/-- Its two runs, the first one with the marker. -/
def leakyRuns : List Document :=
  [.map [("$CMD$", leakyCommands), ("size", .map [("$INCLUDE_VARS$", .str "x.yml")])],
    .map [("$CMD$", leakyCommands), ("size", .int 1)]]

theorem prepares_leakyExperiment :
    PreparedExperiment.Prepares leakyContext.loadVariables .empty "exp" leakyExperiment
      leakyPrepared where
  included := ⟨leakyExperiment.configuration, .empty, by cbv, .empty, rfl⟩
  unreserved :=
    checkReserved_eq_ok.mp (rfl : leakyExperiment.configuration.checkReserved "exp" = .ok ())
  extracted := rfl
  entries := rfl
  hosts := .cons ⟨rfl, _, rfl, rfl⟩ .nil
  rest := rfl

theorem prepare_leakyDesign : prepare leakyContext leakyDesign = .ok leakySuite := by
  refine prepare_eq_ok.mpr ⟨_, rfl, [("exp", leakyExperiment)], ?_⟩
  constructor
  case parsed => exact .cons ⟨rfl, rfl⟩ .nil
  case named => rfl
  case registered => exact List.forall_mem_singleton.mpr rfl
  case referenced => simp
  case vars => exact ⟨.empty, by cbv⟩
  case experiments => exact .cons ⟨rfl, prepares_leakyExperiment⟩ .nil
  all_goals rfl

theorem loadsOrdered_leakyContext : Inclusion.LoadsOrdered leakyContext.loadVariables := by
  intro file content h
  cases h

theorem runs_leakyDesign : Expansion.runs "exp" leakyPrepared.plan leakyPrepared.spec.factorLevels
    leakyPrepared.spec.exceptFilters leakyPrepared.commands = .ok leakyRuns := by
  rfl

theorem commandsOnly_iff_leakyRuns :
    (Inclusion.LoadsOrdered leakyContext.loadVariables ∧ leakyDesign.Ordered ∧
      prepare leakyContext leakyDesign = .ok leakySuite ∧
      ("exp", leakyPrepared) ∈ leakySuite.experiments ∧
      Expansion.runs "exp" leakyPrepared.plan leakyPrepared.spec.factorLevels
        leakyPrepared.spec.exceptFilters leakyPrepared.commands = .ok leakyRuns) ∧
    ∀ run ∈ leakyRuns, run.get? [Vocabulary.command] = some leakyCommands ∧
      ∃ entry ∈ leakyExperiment.factorLevels, ∃ choice ∈ choices leakyPrepared.plan.cross,
        run = Resolution.attach leakyCommands
          (Expansion.substitute choice entry [] leakyExperiment.configuration) ∧
        (Expansion.CommandsOnly run ↔ Unreserved entry ∧ Unreserved leakyCommands) := by
  have hd : leakyDesign.Ordered := by decide
  have he : ("exp", leakyPrepared) ∈ leakySuite.experiments := List.mem_singleton_self _
  exact ⟨⟨loadsOrdered_leakyContext, hd, prepare_leakyDesign, he, runs_leakyDesign⟩,
    commandsOnly_iff_of_prepare loadsOrdered_leakyContext hd prepare_leakyDesign he
      runs_leakyDesign⟩

/-- The runs of a prepared suite may have reserved keys: nothing looks for them in the entries of
the factor levels. -/
theorem not_commandsOnly_of_prepare :
    ¬ ∀ (context : SuiteContext) (design : Document) (s : PreparedSuite),
      Inclusion.LoadsOrdered context.loadVariables → design.Ordered →
      prepare context design = .ok s → ∀ name e, (name, e) ∈ s.experiments →
      ∀ runs, Expansion.runs name e.plan e.spec.factorLevels e.spec.exceptFilters e.commands =
        .ok runs → ∀ run ∈ runs, Expansion.CommandsOnly run := by
  intro hall
  have hfirst := hall leakyContext leakyDesign leakySuite loadsOrdered_leakyContext (by decide)
    prepare_leakyDesign "exp" leakyPrepared (List.mem_singleton_self _) leakyRuns runs_leakyDesign
    _ List.mem_cons_self
  obtain ⟨fields, hfields, hclean⟩ := hfirst
  cases hfields
  have hsize := (hclean ("size", .map [("$INCLUDE_VARS$", .str "x.yml")]) (by simp)).2
  exact hsize Vocabulary.inclusion (by decide) (.here List.mem_cons_self)

end PreparedSuite

end ExperimentSuite
