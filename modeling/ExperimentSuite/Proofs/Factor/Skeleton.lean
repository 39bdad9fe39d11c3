import ExperimentSuite.Proofs.Document.Order
import ExperimentSuite.Proofs.Factor.Occurrence

/-!
# Extraction finds every marker once

Each occurrence of the marker that extraction reads becomes one path of the
plan, of the one kind or the other, and the skeleton is the configuration with
the crossed factors reduced to bare markers. In a configuration whose markers
are all bare nothing is left to reduce, so it is its own skeleton; this holds
of every skeleton in particular.
-/

namespace ExperimentSuite

namespace Document

variable {d d' v : Document} {fields : List (String × Document)}

/-- What a document holds at its root: the keys of a mapping, any other value as a whole. -/
def node : Document → Document
  | .map fields => .map (Keyed.mapValues (fun _ => .null) fields)
  | d => d

theorem eq_of_node (hv : v.isMap = false) (h : d.node = v) : d = v := by
  cases d with
  | map fields =>
      subst h
      cases hv
  | _ => exact h

theorem node_eq_self (h : d.isMap = false) : d.node = d := by
  cases d with
  | map fields => cases h
  | _ => rfl

/-- Ordered documents that hold the same at every place are equal. -/
theorem ext_node (hd : d.Ordered) (hd' : d'.Ordered)
    (h : ∀ p, (d.get? p).map node = (d'.get? p).map node) : d = d' := by
  refine ext_get? hd hd' (fun p => ?_) fun p v hv => ?_
  · rw [← Option.isSome_map (f := node), h p, Option.isSome_map]
  · have hiff : ∀ {d : Document}, d.get? p = some v ↔ (d.get? p).map node = some v := by
      intro d
      rw [Option.map_eq_some_iff]
      constructor
      · exact fun hget => ⟨v, hget, node_eq_self hv⟩
      · rintro ⟨w, hw, hnode⟩
        rw [hw, eq_of_node hv hnode]
    rw [hiff, hiff, h p]

/-- At a path of keys the marker is a text or a key of the value there. -/
theorem markedAt_map_key_iff {p : KeyPath} :
    d.MarkedAt (p.map Step.key) ↔ d.get? p = some (.str Vocabulary.factor) ∨
      ∃ fields, d.get? p = some (.map fields) ∧ Vocabulary.factor ∈ Keyed.keys fields := by
  constructor
  · rintro (h | ⟨h, hkey⟩)
    · exact .inl (at?_map_key d p ▸ h)
    · exact .inr ⟨_, at?_map_key d p ▸ h, hkey⟩
  · rintro (h | ⟨fields, h, hkey⟩)
    · exact .text ((at?_map_key d p).trans h)
    · exact .key ((at?_map_key d p).trans h) hkey

end Document

namespace FactorPlan

open Document KeyPath

variable {path p : KeyPath} {d raw base : Document} {plan : FactorPlan} {place : Place}
  {levels : List Document}

/-- The places of the factors of both kinds. -/
def paths (plan : FactorPlan) : List KeyPath :=
  plan.levelPaths ++ plan.crossPaths

/-- How a plan locates the factors in the part of a configuration at a path. -/
structure Locates (plan : FactorPlan) (path : KeyPath) (d : Document) : Prop where
  levelOrder : plan.levelPaths.Pairwise (· < ·)
  crossOrder : plan.crossPaths.Pairwise (· < ·)
  /-- The paths of the entries are those of the bare markers. -/
  level_iff : ∀ p, path ++ p ∈ plan.levelPaths ↔ d.get? p = some (.str Vocabulary.factor)
  /-- The crossed factors are the mappings of the marker to levels. -/
  cross_iff : ∀ p levels, ⟨path ++ p, levels⟩ ∈ plan.cross ↔
    ∃ raw, d.get? p = some (.map [(Vocabulary.factor, raw)]) ∧ Lists raw levels
  marked_iff : ∀ place, plan.skeleton.MarkedAt place ↔
    ∃ p, path ++ p ∈ plan.paths ∧ place = p.map Step.key
  /-- Only what a crossed factor lists is missing from the skeleton. -/
  agrees : ∀ p, (∀ q ∈ plan.crossPaths, ¬ q <+: path ++ p) →
    (plan.skeleton.get? p).map node = (d.get? p).map node

/-- A bare marker is the only one at its path. -/
theorem markedAt_bare_iff (path : KeyPath) :
    (Document.str Vocabulary.factor).MarkedAt place ↔
      ∃ p, path ++ p ∈ [path] ∧ place = p.map Step.key := by
  rw [markedAt_str_iff]
  constructor
  · rintro ⟨rfl, -⟩
    exact ⟨[], by simp, rfl⟩
  · rintro ⟨p, hp, rfl⟩
    obtain rfl : p = [] := by simpa using hp
    exact ⟨rfl, rfl⟩

theorem locates_marker (path : KeyPath) :
    Locates ⟨.str Vocabulary.factor, [path], []⟩ path (.str Vocabulary.factor) where
  levelOrder := List.pairwise_singleton ..
  crossOrder := .nil
  level_iff p := by cases p <;> simp [get?]
  cross_iff p levels := by cases p <;> simp [get?]
  marked_iff _ := markedAt_bare_iff path
  agrees _ _ := rfl

theorem locates_constant (path : KeyPath) (hd : d.Ordered) (hmarker : d.hasMarker = false) :
    Locates (constant d) path d where
  levelOrder := .nil
  crossOrder := .nil
  level_iff p := by
    refine iff_of_false (by simp [constant]) fun h => ?_
    cases hasMarker_of_get? hmarker h
  cross_iff p levels := by
    refine iff_of_false (by simp [constant]) ?_
    rintro ⟨raw, h, -⟩
    cases hasMarker_of_get? hmarker h
  marked_iff place := by
    refine iff_of_false ((hasMarker_eq_false_iff hd).mp hmarker place) ?_
    rintro ⟨p, hp, -⟩
    cases hp
  agrees _ _ := rfl

theorem locates_cross (path : KeyPath) (hraw : raw.Ordered)
    (hlevels : crossLevels path raw = .ok levels) :
    Locates ⟨.str Vocabulary.factor, [], [⟨path, levels⟩]⟩ path
      (.map [(Vocabulary.factor, raw)]) := by
  have hlists : Lists raw levels := (crossLevels_eq_ok hraw).mp hlevels
  have hroot : ∀ p : KeyPath, (Document.map [(Vocabulary.factor, raw)]).MarkedAt (p.map Step.key) →
      p = [] := fun p h => List.map_eq_nil_iff.mp (hlists.eq_nil_of_markedAt h)
  refine ⟨.nil, List.pairwise_singleton .., fun p => ?_, fun p others => ?_, fun place => ?_,
    fun p hp => ?_⟩
  · refine iff_of_false (by simp) fun h => ?_
    obtain rfl := hroot p (markedAt_map_key_iff.mpr (.inl h))
    cases h
  · constructor
    · intro hmem
      have heq : p = [] ∧ others = levels := by simpa using hmem
      obtain ⟨rfl, rfl⟩ := heq
      exact ⟨raw, rfl, hlists⟩
    · rintro ⟨raw', h, hlists'⟩
      obtain rfl := hroot p (markedAt_map_key_iff.mpr (.inr ⟨_, h, List.mem_cons_self⟩))
      cases h
      have hothers : crossLevels path raw = .ok others := (crossLevels_eq_ok hraw).mpr hlists'
      rw [hlevels] at hothers
      cases hothers
      simp
  · exact markedAt_bare_iff path
  · exact absurd (List.prefix_append path p) (hp path (by simp [crossPaths]))

section Fields

variable {fields : List (String × Document)} {plans : String × Document → FactorPlan} {key : String}
  {rest : KeyPath}

theorem crossPaths_ofPlans :
    (ofPlans fields plans).crossPaths = fields.flatMap fun e => (plans e).crossPaths := by
  rw [crossPaths, ofPlans, List.map_flatMap]
  rfl

theorem find?_ofPlans (hs : Keyed.Sorted fields) :
    Keyed.find? key (fields.map fun e => (e.1, (plans e).skeleton)) =
      (Keyed.find? key fields).map fun c => (plans (key, c)).skeleton := by
  cases hf : Keyed.find? key fields with
  | some c => exact find?_skeletons hs (Keyed.mem_of_find? hf)
  | none =>
      rw [Keyed.find?_eq_none_iff] at hf
      refine Keyed.find?_eq_none_iff.mpr fun e he => ?_
      obtain ⟨e', he', rfl⟩ := List.mem_map.mp he
      exact hf e' he'

variable (hs : Keyed.Sorted fields)
  (hdescribes : ∀ e ∈ fields, (plans e).Describes (path ++ [e.1]) e.2)
include hs hdescribes

theorem mem_levelPaths_ofPlans :
    path ++ p ∈ (ofPlans fields plans).levelPaths ↔ ∃ key rest c, p = key :: rest ∧
      Keyed.find? key fields = some c ∧ path ++ p ∈ (plans (key, c)).levelPaths :=
  mem_flatMap_iff id hs
    (fun e he _ hq => prefix_of_mem_levelPaths (hdescribes e he) hq) rfl

theorem mem_cross_ofPlans :
    ⟨path ++ p, levels⟩ ∈ (ofPlans fields plans).cross ↔ ∃ key rest c, p = key :: rest ∧
      Keyed.find? key fields = some c ∧ ⟨path ++ p, levels⟩ ∈ (plans (key, c)).cross :=
  mem_flatMap_iff CrossFactor.path hs
    (fun e he _ hf => prefix_of_mem_crossPaths (hdescribes e he) (List.mem_map_of_mem hf)) rfl

theorem mem_paths_ofPlans :
    path ++ p ∈ (ofPlans fields plans).paths ↔ ∃ key rest c, p = key :: rest ∧
      Keyed.find? key fields = some c ∧ path ++ p ∈ (plans (key, c)).paths := by
  have hcross : path ++ p ∈ (ofPlans fields plans).crossPaths ↔ ∃ key rest c, p = key :: rest ∧
      Keyed.find? key fields = some c ∧ path ++ p ∈ (plans (key, c)).crossPaths := by
    rw [crossPaths_ofPlans]
    exact mem_flatMap_iff id hs
      (fun e he _ hq => prefix_of_mem_crossPaths (hdescribes e he) hq) rfl
  simp only [paths, List.mem_append, mem_levelPaths_ofPlans hs hdescribes, hcross,
    ← exists_or, ← and_or_left]

end Fields

theorem locates_ofPlans {fields : List (String × Document)}
    {plans : String × Document → FactorPlan} (hd : (Document.map fields).Ordered)
    (hnone : Keyed.find? Vocabulary.factor fields = none)
    (hdescribes : ∀ e ∈ fields, (plans e).Describes (path ++ [e.1]) e.2)
    (h : ∀ e ∈ fields, (plans e).Locates (path ++ [e.1]) e.2) :
    (ofPlans fields plans).Locates path (.map fields) where
  levelOrder := pairwise_flatMap hd.sorted
    (fun e he _ hq => prefix_of_mem_levelPaths (hdescribes e he) hq)
    fun e he => (h e he).levelOrder
  crossOrder := by
    rw [crossPaths_ofPlans]
    exact pairwise_flatMap hd.sorted
      (fun e he _ hq => prefix_of_mem_crossPaths (hdescribes e he) hq)
      fun e he => (h e he).crossOrder
  level_iff p := by
    rw [mem_levelPaths_ofPlans hd.sorted hdescribes]
    cases p with
    | nil => simp
    | cons key rest =>
        rw [get?_map_cons, Option.bind_eq_some_iff, List.append_cons]
        constructor
        · rintro ⟨_, _, c, heq, hc, hmem⟩
          cases heq
          exact ⟨c, hc, ((h _ (Keyed.mem_of_find? hc)).level_iff rest).mp hmem⟩
        · rintro ⟨c, hc, hget⟩
          exact ⟨key, rest, c, rfl, hc, ((h _ (Keyed.mem_of_find? hc)).level_iff rest).mpr hget⟩
  cross_iff p levels := by
    rw [mem_cross_ofPlans hd.sorted hdescribes]
    cases p with
    | nil =>
        refine iff_of_false (by simp) ?_
        rintro ⟨raw, hraw, -⟩
        cases hraw
        simp [Keyed.find?] at hnone
    | cons key rest =>
        simp only [get?_map_cons, Option.bind_eq_some_iff, List.append_cons path key rest]
        constructor
        · rintro ⟨_, _, c, heq, hc, hmem⟩
          cases heq
          obtain ⟨raw, hraw, hlists⟩ :=
            ((h _ (Keyed.mem_of_find? hc)).cross_iff rest levels).mp hmem
          exact ⟨raw, ⟨c, hc, hraw⟩, hlists⟩
        · rintro ⟨raw, ⟨c, hc, hraw⟩, hlists⟩
          exact ⟨key, rest, c, rfl, hc,
            ((h _ (Keyed.mem_of_find? hc)).cross_iff rest levels).mpr ⟨raw, hraw, hlists⟩⟩
  marked_iff place := by
    have hnokey : Vocabulary.factor ∉
        Keyed.keys (fields.map fun e => (e.1, (plans e).skeleton)) := by
      rw [← Keyed.isSome_find?_iff, find?_ofPlans hd.sorted, hnone]
      simp
    rw [ofPlans, markedAt_map_iff]
    simp only [hnokey, and_false, false_or, find?_ofPlans hd.sorted, Option.map_eq_some_iff]
    constructor
    · rintro ⟨key, rest, _, rfl, ⟨c, hc, rfl⟩, hmarked⟩
      obtain ⟨p, hp, rfl⟩ := ((h _ (Keyed.mem_of_find? hc)).marked_iff rest).mp hmarked
      rw [← List.append_cons] at hp
      exact ⟨key :: p, (mem_paths_ofPlans hd.sorted hdescribes).mpr
        ⟨key, p, c, rfl, hc, hp⟩, rfl⟩
    · rintro ⟨p, hp, rfl⟩
      obtain ⟨key, rest, c, rfl, hc, hmem⟩ := (mem_paths_ofPlans hd.sorted hdescribes).mp hp
      rw [List.append_cons] at hmem
      exact ⟨key, rest.map Step.key, _, rfl, ⟨c, hc, rfl⟩,
        ((h _ (Keyed.mem_of_find? hc)).marked_iff _).mpr ⟨rest, hmem, rfl⟩⟩
  agrees p hp := by
    cases p with
    | nil => simp [ofPlans, node, Keyed.mapValues]
    | cons key rest =>
        rw [ofPlans, get?_map_cons, get?_map_cons, find?_ofPlans hd.sorted]
        cases hf : Keyed.find? key fields with
        | none => rfl
        | some c =>
            have he := Keyed.mem_of_find? hf
            refine (h _ he).agrees rest fun q hq => ?_
            rw [← List.append_cons]
            refine hp q ?_
            rw [crossPaths_ofPlans]
            exact List.mem_flatMap.mpr ⟨_, he, hq⟩

theorem locates_of_extractAt (hd : d.Ordered) (h : extractAt path d = .ok plan) :
    plan.Locates path d := by
  refine extractAt_induction (motive := fun path d plan => d.Ordered → plan.Locates path d)
    ?marker ?leaf ?cross ?map h hd
  case marker => exact fun path _ => locates_marker path
  case leaf => exact fun path d _ hmarker hd => locates_constant path hd hmarker
  case cross =>
    intro path raw levels _ hlevels hd
    exact locates_cross path ((ordered_map_iff.mp hd).2 (Vocabulary.factor, raw) (by simp)) hlevels
  case map =>
    intro path fields plans hnone hall ih hd
    have hvalues := (ordered_map_iff.mp hd).2
    exact locates_ofPlans hd hnone
      (fun e he => describes_of_extractAt (hvalues e he) (hall e he))
      fun e he => ih e he (hvalues e he)

section Root

variable (hb : base.Ordered)
include hb

/-- The factors stand where the skeleton holds the marker. -/
theorem mem_paths_iff (h : extract base = .ok plan) :
    p ∈ plan.paths ↔ plan.skeleton.get? p = some (.str Vocabulary.factor) := by
  constructor
  · intro hp
    rcases List.mem_append.mp hp with hlevel | hcross
    · exact marker_of_mem_levelPaths h hb hlevel
    · exact marker_of_mem_crossPaths h hb hcross
  · intro hget
    have hmarked := markedAt_map_key_iff.mpr (.inl hget)
    obtain ⟨q, hq, heq⟩ := ((locates_of_extractAt hb h).marked_iff _).mp hmarked
    have hinj : Function.Injective Step.key := fun _ _ => Step.key.inj
    rwa [List.map_injective_iff.mpr hinj heq]

theorem pairwise_apart_paths (h : extract base = .ok plan) : plan.paths.Pairwise Apart := by
  have hlocates := locates_of_extractAt hb h
  have hnodup : plan.paths.Nodup := List.nodup_append.mpr
    ⟨hlocates.levelOrder.nodup, hlocates.crossOrder.nodup, fun p hp q hq heq =>
      disjoint_paths h hb hp (heq ▸ hq)⟩
  exact hnodup.imp_of_mem fun hp hq hne =>
    apart_of_markers ((mem_paths_iff hb h).mp hp) ((mem_paths_iff hb h).mp hq) hne

/-- A configuration whose markers are all bare is its own skeleton. -/
theorem exists_extract_eq_self
    (hbare : ∀ place, base.MarkedAt place → ∃ p : KeyPath, place = p.map Step.key ∧
      base.get? p = some (.str Vocabulary.factor)) :
    ∃ levelPaths, extract base = .ok ⟨base, levelPaths, []⟩ := by
  have hnokey : ∀ place fields, base.at? place = some (.map fields) →
      Vocabulary.factor ∉ Keyed.keys fields := by
    intro place fields hfields hkey
    obtain ⟨p, rfl, htext⟩ := hbare place (.key hfields hkey)
    rw [at?_map_key, htext] at hfields
    cases hfields
  have hreadable : Readable [] base := by
    refine ⟨fun place htext => ?_, fun place fields hfields hkey => ?_⟩
    · obtain ⟨p, hp, -⟩ := hbare place (.text htext)
      exact ⟨p, hp⟩
    · exact absurd hkey (hnokey place fields hfields)
  obtain ⟨⟨skeleton, levelPaths, cross⟩, h⟩ := (exists_extractAt_iff hb).mpr hreadable
  have hlocates := locates_of_extractAt hb h
  obtain rfl : cross = [] := by
    refine List.eq_nil_iff_forall_not_mem.mpr fun f hf => ?_
    obtain ⟨raw, hraw, -⟩ := (hlocates.cross_iff f.path f.levels).mp hf
    exact hnokey _ _ ((at?_map_key ..).trans hraw) List.mem_cons_self
  obtain rfl : skeleton = base :=
    ext_node (describes_of_extractAt hb h).ordered hb
      fun p => hlocates.agrees p (by simp [crossPaths])
  exact ⟨levelPaths, h⟩

/-- The factors of a skeleton are those of the configuration that it comes from, all of them
bare. -/
theorem extract_skeleton (h : extract base = .ok plan) :
    extract plan.skeleton = .ok ⟨plan.skeleton, Ascending.ofList plan.paths, []⟩ := by
  have hordered : plan.skeleton.Ordered := (describes_of_extractAt hb h).ordered
  obtain ⟨levelPaths, hagain⟩ : ∃ levelPaths,
      extract plan.skeleton = .ok ⟨plan.skeleton, levelPaths, []⟩ := by
    refine exists_extract_eq_self hordered fun place hmarked => ?_
    obtain ⟨p, hp, rfl⟩ := ((locates_of_extractAt hb h).marked_iff place).mp hmarked
    exact ⟨p, rfl, (mem_paths_iff hb h).mp hp⟩
  have hlocates := locates_of_extractAt hordered hagain
  rw [hagain, Ascending.ofList_eq_of_pairwise hlocates.levelOrder]
  exact fun p => (hlocates.level_iff p).trans (mem_paths_iff hb h).symm

end Root

/-- A plan has every factor of a configuration once, and nothing but its crossed factors is reduced
in the skeleton. -/
structure Located (base : Document) (plan : FactorPlan) : Prop where
  apart : plan.paths.Pairwise Apart
  levelOrder : plan.levelPaths.Pairwise (· < ·)
  crossOrder : plan.crossPaths.Pairwise (· < ·)
  level_iff : ∀ p, p ∈ plan.levelPaths ↔ base.get? p = some (.str Vocabulary.factor)
  cross_iff : ∀ f, f ∈ plan.cross ↔
    ∃ raw, base.get? f.path = some (.map [(Vocabulary.factor, raw)]) ∧ Lists raw f.levels
  text_iff : ∀ place, plan.skeleton.at? place = some (.str Vocabulary.factor) ↔
    ∃ p ∈ plan.paths, place = p.map Step.key
  noKey : ∀ place fields, plan.skeleton.at? place = some (.map fields) →
    Vocabulary.factor ∉ Keyed.keys fields
  agrees : ∀ p, (∀ q ∈ plan.crossPaths, ¬ q <+: p) →
    (plan.skeleton.get? p).map node = (base.get? p).map node
  again : extract plan.skeleton = .ok ⟨plan.skeleton, Ascending.ofList plan.paths, []⟩

theorem located_of_extract (hb : base.Ordered) (h : extract base = .ok plan) :
    Located base plan := by
  have hlocates := locates_of_extractAt hb h
  have hmarked : ∀ place, plan.skeleton.MarkedAt place ↔
      ∃ p ∈ plan.paths, place = p.map Step.key := hlocates.marked_iff
  have htext : ∀ p ∈ plan.paths,
      plan.skeleton.at? (p.map Step.key) = some (.str Vocabulary.factor) :=
    fun p hp => (at?_map_key ..).trans ((mem_paths_iff hb h).mp hp)
  refine ⟨pairwise_apart_paths hb h, hlocates.levelOrder, hlocates.crossOrder, hlocates.level_iff,
    fun f => hlocates.cross_iff f.path f.levels, fun place => ?_,
    fun place fields hfields hkey => ?_, hlocates.agrees, extract_skeleton hb h⟩
  · constructor
    · exact fun h => (hmarked place).mp (.text h)
    · rintro ⟨p, hp, rfl⟩
      exact htext p hp
  · obtain ⟨p, hp, rfl⟩ := (hmarked place).mp (.key hfields hkey)
    rw [htext p hp] at hfields
    cases hfields

/-- Extraction succeeds exactly if it can read every occurrence of the marker, and then it finds
each of them once. -/
theorem extract_finds_markers (hb : base.Ordered) :
    ((∃ plan, extract base = .ok plan) ↔ Readable [] base) ∧
      ∀ plan, extract base = .ok plan → Located base plan :=
  ⟨exists_extractAt_iff hb, fun _ => located_of_extract hb⟩

/-- A configuration with a bare marker, and crossed factors that list their levels or give a
range. -/
def threeFactors : Document :=
  .map [("app", .map [
      ("mode", .map [("$FACTOR$", .list [.map [("kind", .str "fast")], .str "slow"])]),
      ("size", .str "$FACTOR$")]),
    ("hosts", .list [.str "a", .str "b"]),
    ("repeat", .map [("$FACTOR$", .str "range(1, 3)")])]

/-- The plan of that configuration. -/
def threeFactorsPlan : FactorPlan where
  skeleton := .map [("app", .map [("mode", .str "$FACTOR$"), ("size", .str "$FACTOR$")]),
    ("hosts", .list [.str "a", .str "b"]), ("repeat", .str "$FACTOR$")]
  levelPaths := [["app", "size"]]
  cross := [⟨["app", "mode"], [.map [("kind", .str "fast")], .str "slow"]⟩,
    ⟨["repeat"], [.int 1, .int 2]⟩]

/-- The factor with a range is a crossed one. -/
theorem extractFields_range :
    extractFields [] [("repeat", .map [("$FACTOR$", .str "range(1, 3)")])] =
      .ok ([("repeat", .str "$FACTOR$")], [], [⟨["repeat"], [.int 1, .int 2]⟩]) := by
  have hrange : Range.parse "range(1, 3)" = some (.ok [1, 2]) := by decide +kernel
  have hlevels : crossLevels ["repeat"] (.str "range(1, 3)") = .ok [.int 1, .int 2] := by
    rw [crossLevels, levelsAt, hrange]
    rfl
  rw [extractFields, extractAt]
  change (crossed ["repeat"] _ _ >>= _) = _
  simp only [crossed]
  rw [hlevels]
  rfl

theorem located_threeFactors :
    threeFactors.Ordered ∧ extract threeFactors = .ok threeFactorsPlan ∧
      Readable [] threeFactors ∧ Located threeFactors threeFactorsPlan := by
  have hb : threeFactors.Ordered := by decide
  have h : extract threeFactors = .ok threeFactorsPlan := by
    rw [extract, threeFactors, extractAt]
    change (extractFields [] _ >>= _) = _
    rw [extractFields, extractFields, extractFields_range]
    rfl
  obtain ⟨hiff, hlocated⟩ := extract_finds_markers hb
  exact ⟨hb, h, hiff.mp ⟨_, h⟩, hlocated _ h⟩

end FactorPlan

end ExperimentSuite
