import ExperimentSuite.Proofs.Factor.Skeleton
import ExperimentSuite.Proofs.Inclusion.Merging

/-!
# Factors under inherited values

A configuration inherits what it leaves open from a source without markers.
A text or a list of the source never gets past a factor, and what it brings in
beside the factors is no factor. A crossed factor is a mapping, however, and
inherits fields like any other one: if the source has fields at the place of a
crossed factor, the marker is not alone there any more and extraction refuses
the configuration. In every other case the factors stay as they are.
-/

namespace ExperimentSuite

open Document

namespace Document

variable {source target : Document} {key : String} {p : KeyPath}
  {fields : List (String × Document)}

/-- A document has fields at a place. -/
def HasFields (d : Document) (p : KeyPath) : Prop :=
  ∃ e rest, d.get? p = some (.map (e :: rest))

/-- What a source has under a key, nothing being the null document. -/
def branch (source : Document) (key : String) : Document :=
  (source.field? key).getD .null

theorem hasFields_branch : (source.branch key).HasFields p ↔ source.HasFields (key :: p) := by
  have hget : source.get? (key :: p) = (source.field? key).bind (·.get? p) := by
    cases source <;> rfl
  rw [HasFields, HasFields, hget, branch]
  cases source.field? key with
  | some c => simp
  | none => cases p <;> simp [get?]

theorem ordered_branch (hs : source.Ordered) : (source.branch key).Ordered := by
  rw [branch]
  cases hfield : source.field? key with
  | none => trivial
  | some c =>
      rw [← get?_singleton] at hfield
      exact hs.get? hfield

theorem hasMarker_branch (hs : source.hasMarker = false) :
    (source.branch key).hasMarker = false := by
  rw [branch]
  cases hfield : source.field? key with
  | none => rfl
  | some c =>
      rw [← get?_singleton] at hfield
      exact hasMarker_of_get? hs hfield

/-- A document without markers has no field under the marker. -/
theorem field?_marker (hs : source.hasMarker = false) :
    source.field? Vocabulary.factor = none := by
  cases source with
  | map fields =>
      exact Keyed.find?_eq_none_iff.mpr fun e he => (hasMarkerFields_eq_false_iff.mp hs e he).1
  | _ => rfl

theorem field?_of_not_hasFields (h : ¬ source.HasFields []) : source.field? key = none := by
  cases source with
  | map fields =>
      cases fields with
      | nil => rfl
      | cons e rest => exact absurd ⟨e, rest, get?_nil _⟩ h
  | _ => rfl

theorem null_merge (d : Document) : null.merge d = d :=
  merge_of_not_isMap rfl

/-- The fields of a mapping that is laid over a source: each is laid over what the source has under
its key, and under the other keys the source shows. -/
structure LaidOver (source : Document) (fields merged : List (String × Document)) : Prop where
  sorted : Keyed.Sorted merged
  find?_eq : ∀ key, Keyed.find? key merged = match Keyed.find? key fields with
    | some value => some ((source.branch key).merge value)
    | none => source.field? key

theorem exists_laidOver (hs : source.Ordered) (hd : (map fields).Ordered) :
    ∃ merged, source.merge (.map fields) = .map merged ∧ source.LaidOver fields merged := by
  obtain ⟨merged, hmerged⟩ := isMap_iff.mp (isMap_merge (d := source) (v := .map fields))
  have hordered := hs.merge hd
  rw [hmerged] at hordered
  refine ⟨merged, hmerged, hordered.sorted, fun key => ?_⟩
  cases source with
  | map sourceFields =>
      rw [merge, Document.map.injEq] at hmerged
      rw [← hmerged, find?_mergeFields hd.sorted, branch, field?]
      cases Keyed.find? key fields <;> cases Keyed.find? key sourceFields <;> simp [null_merge]
  | _ =>
      rw [merge_of_not_isMap rfl, Document.map.injEq] at hmerged
      rw [← hmerged]
      cases Keyed.find? key fields <;> simp [branch, field?, null_merge]

section LaidOver

variable {merged : List (String × Document)} {value : Document} {e : String × Document}
  (h : source.LaidOver fields merged)

include h

theorem LaidOver.mem (hs : Keyed.Sorted fields) (he : e ∈ fields) :
    (e.1, (source.branch e.1).merge e.2) ∈ merged := by
  refine Keyed.mem_of_find? ?_
  rw [h.find?_eq, Keyed.find?_of_mem hs he]

theorem LaidOver.eq_merge (he : e ∈ merged) (hvalue : Keyed.find? e.1 fields = some value) :
    (source.branch e.1).merge value = e.2 := by
  have hfound := Keyed.find?_of_mem h.sorted he
  rw [h.find?_eq, hvalue] at hfound
  exact Option.some.inj hfound

/-- A mapping that inherits nothing stays as it is. -/
theorem LaidOver.eq_self (hs : Keyed.Sorted fields) (hnone : ¬ source.HasFields []) :
    merged = fields := by
  refine Keyed.ext h.sorted hs fun key => ?_
  rw [h.find?_eq, branch, field?_of_not_hasFields hnone]
  cases Keyed.find? key fields <;> simp [null_merge]

/-- Below a key without counterpart in the mapping the source shows. -/
theorem LaidOver.mem_of_field? (hfield : source.field? key = some value)
    (hnone : Keyed.find? key fields = none) : (key, value) ∈ merged := by
  refine Keyed.mem_of_find? ?_
  rw [h.find?_eq, hnone]
  exact hfield

theorem LaidOver.hasMarker (hmarker : source.hasMarker = false) (he : e ∈ merged)
    (hnone : Keyed.find? e.1 fields = none) : e.2.hasMarker = false := by
  have hfound := Keyed.find?_of_mem h.sorted he
  rw [h.find?_eq, hnone, ← get?_singleton] at hfound
  exact hasMarker_of_get? hmarker hfound

end LaidOver

/-- A document absorbs a source without fail and is then laid over it. -/
theorem exists_absorb (ht : target.Ordered) (hs : source.Ordered) :
    ∃ report, target.absorb source = .ok (source.merge target, report) := by
  obtain ⟨d, hd⟩ := exists_absorbLeaves target source (pairwise_apart_leafPaths hs)
  have hmerge : d = source.merge target :=
    (filled_of_absorb hs hd).unique (filled_merge ht) (Ordered.absorbLeaves ht hs hd) (hs.merge ht)
  exact ⟨_, hmerge ▸ hd⟩

end Document

namespace FactorPlan

variable {path p : KeyPath} {d base source raw : Document} {plan : FactorPlan}
  {levels : List Document} {fields : List (String × Document)} {failure : FactorProblem}

theorem extractFields_eq_error (h : extractFields path fields = .error failure) :
    ∃ e ∈ fields, extractAt (path ++ [e.1]) e.2 = .error failure := by
  induction fields with
  | nil => cases h
  | cons e rest ih =>
      rw [extractFields] at h
      rcases Outcome.bind_eq_error.mp h with hfirst | ⟨first, -, h⟩
      · exact ⟨e, List.mem_cons_self, hfirst⟩
      · rcases Outcome.bind_eq_error.mp h with hrest | ⟨others, -, h⟩
        · obtain ⟨e', he', hfail⟩ := ih hrest
          exact ⟨e', List.mem_cons_of_mem _ he', hfail⟩
        · cases h

/-- A mapping without the marker among its keys has the plan of its fields, or the extraction fails
at one of them. -/
theorem extractAt_map_cases (path : KeyPath)
    (hnone : Keyed.find? Vocabulary.factor fields = none) :
    ((∀ e ∈ fields, extractAt (path ++ [e.1]) e.2 = .ok (ofField path e)) ∧
        extractAt path (.map fields) = .ok (ofPlans fields (ofField path))) ∨
      ∃ failure, extractAt path (.map fields) = .error failure ∧
        ∃ e ∈ fields, extractAt (path ++ [e.1]) e.2 = .error failure := by
  rw [extractAt, hnone]
  cases hresult : extractFields path fields with
  | ok result =>
      obtain ⟨hall, hplan⟩ := extractFields_eq_ok hresult
      exact .inl ⟨hall, congrArg Except.ok hplan⟩
  | error failure => exact .inr ⟨failure, rfl, extractFields_eq_error hresult⟩

/-- A plan has the factors of another one. -/
structure SameFactors (plan other : FactorPlan) : Prop where
  levelPaths : plan.levelPaths = other.levelPaths
  cross : plan.cross = other.cross

/-- A document without markers has no factors. -/
theorem extractAt_of_not_hasMarker (hd : d.hasMarker = false) :
    ∃ plan, extractAt path d = .ok plan ∧ plan.SameFactors (constant d) := by
  induction d using memberInduction generalizing path with
  | str s =>
      have hne : s ≠ Vocabulary.factor := by simpa [hasMarker] using hd
      exact ⟨_, by rw [extractAt, if_neg hne], rfl, rfl⟩
  | list items _ =>
      rw [hasMarker] at hd
      exact ⟨_, by rw [extractAt, hd, if_neg Bool.false_ne_true], rfl, rfl⟩
  | map fields ih =>
      have hvalues := hasMarkerFields_eq_false_iff.mp hd
      rcases extractAt_map_cases path (field?_marker hd) with
        ⟨hall, hplan⟩ | ⟨failure, -, e, he, hfail⟩
      · have hsame : ∀ e ∈ fields, (ofField path e).SameFactors (constant e.2) := by
          intro e he
          obtain ⟨plan, hplan, hsame⟩ := ih e he (hvalues e he).2
          cases (hall e he).symm.trans hplan
          exact hsame
        exact ⟨_, hplan, List.flatMap_eq_nil_iff.mpr fun e he => (hsame e he).levelPaths,
          List.flatMap_eq_nil_iff.mpr fun e he => (hsame e he).cross⟩
      · obtain ⟨plan, hplan, -⟩ := ih e he (hvalues e he).2
        cases hplan.symm.trans hfail
  | _ => exact ⟨_, by simp only [extractAt], rfl, rfl⟩

/-- How extraction turns out once a configuration with a plan has inherited from a source: either
the factors are the same and the source has no fields at the places of crossed ones, or it has and
one of these is refused. -/
structure Inherits (source : Document) (path : KeyPath) (plan : FactorPlan)
    (outcome : Except FactorProblem FactorPlan) : Prop where
  ok : ∀ found, outcome = .ok found → found.SameFactors plan ∧
    ∀ p, path ++ p ∈ plan.crossPaths → ¬ source.HasFields p
  error : ∀ failure, outcome = .error failure →
    ∃ p, path ++ p ∈ plan.crossPaths ∧ source.HasFields p ∧ failure = .notAlone (path ++ p)

theorem inherits_of_ok {found : FactorPlan} {outcome : Except FactorProblem FactorPlan}
    (h : outcome = .ok found) (hsame : found.SameFactors plan)
    (hfree : ∀ p, path ++ p ∈ plan.crossPaths → ¬ source.HasFields p) :
    Inherits source path plan outcome where
  ok found' hfound' := by
    cases h.symm.trans hfound'
    exact ⟨hsame, hfree⟩
  error failure hfailure := by cases h.symm.trans hfailure

theorem inherits_of_error {outcome : Except FactorProblem FactorPlan}
    (hp : path ++ p ∈ plan.crossPaths) (hfields : source.HasFields p)
    (h : outcome = .error (.notAlone (path ++ p))) : Inherits source path plan outcome where
  ok found hfound := by cases h.symm.trans hfound
  error failure hfailure := by
    cases h.symm.trans hfailure
    exact ⟨p, hp, hfields, rfl⟩

/-- The marker of a crossed factor stays alone unless the source has fields beside it. -/
theorem inherits_cross (hpath : path ≠ []) (hlevels : crossLevels path raw = .ok levels)
    (hs : source.Ordered) (hmarker : source.hasMarker = false)
    (hd : (Document.map [(Vocabulary.factor, raw)]).Ordered) :
    Inherits source path ⟨.str Vocabulary.factor, [], [⟨path, levels⟩]⟩
      (extractAt path (source.merge (.map [(Vocabulary.factor, raw)]))) := by
  obtain ⟨merged, hmerged, hlaid⟩ := exists_laidOver hs hd
  have hmem : (Vocabulary.factor, raw) ∈ merged := by
    have hmem := hlaid.mem hd.sorted (List.mem_singleton_self _)
    rwa [branch, field?_marker hmarker, Option.getD_none, null_merge] at hmem
  have hextract : extractAt path (source.merge (.map [(Vocabulary.factor, raw)])) =
      if merged.length ≠ 1 then .error (.notAlone path)
      else .ok ⟨.str Vocabulary.factor, [], [⟨path, levels⟩]⟩ := by
    rw [hmerged, extractAt, Keyed.find?_of_mem hlaid.sorted hmem]
    simp only [crossed]
    rw [if_neg (by simpa using hpath), hlevels]
    rfl
  by_cases hfields : source.HasFields []
  · -- The key of the inherited field is not the marker, so there are two fields.
    have hlength : merged.length ≠ 1 := by
      intro hone
      obtain ⟨e, rest, hsource⟩ := hfields
      rw [get?_nil, Option.some.injEq] at hsource
      subst hsource
      have hne : e.1 ≠ Vocabulary.factor :=
        (hasMarkerFields_eq_false_iff.mp hmarker e List.mem_cons_self).1
      have hfirst : (e.1, e.2) ∈ merged := by
        apply hlaid.mem_of_field?
        · rw [field?, Keyed.find?, if_pos rfl]
        · rw [Keyed.find?, if_neg hne.symm, Keyed.find?_nil]
      obtain ⟨only, rfl⟩ := List.length_eq_one_iff.mp hone
      have hsame := (List.mem_singleton.mp hfirst).trans (List.mem_singleton.mp hmem).symm
      exact hne (congrArg Prod.fst hsame)
    rw [if_pos hlength] at hextract
    exact inherits_of_error (by simp [crossPaths]) hfields (by simpa using hextract)
  · rw [hlaid.eq_self hd.sorted hfields, if_neg (by simp)] at hextract
    refine inherits_of_ok hextract ⟨rfl, rfl⟩ fun p hp => ?_
    obtain rfl : p = [] := by simpa [crossPaths] using hp
    exact hfields

section Fields

variable {plans : String × Document → FactorPlan} {merged : List (String × Document)}
  (hlaid : source.LaidOver fields merged) (hmarker : source.hasMarker = false)
  (ih : ∀ e ∈ fields, Inherits (source.branch e.1) (path ++ [e.1]) (plans e)
    (extractAt (path ++ [e.1]) ((source.branch e.1).merge e.2)))

include hlaid hmarker ih

/-- Where a field is refused, the source has fields at a crossed factor below its key. -/
theorem exists_of_field_eq_error {e : String × Document} (he : e ∈ merged)
    (hfail : extractAt (path ++ [e.1]) e.2 = .error failure) :
    ∃ p, path ++ p ∈ (ofPlans fields plans).crossPaths ∧ source.HasFields p ∧
      failure = .notAlone (path ++ p) := by
  cases hvalue : Keyed.find? e.1 fields with
  | none =>
      obtain ⟨plan, hextract, -⟩ := extractAt_of_not_hasMarker (hlaid.hasMarker hmarker he hvalue)
      cases hextract.symm.trans hfail
  | some value =>
      have hmem : (e.1, value) ∈ fields := Keyed.mem_of_find? hvalue
      rw [← hlaid.eq_merge he hvalue] at hfail
      obtain ⟨p, hp, hfields, rfl⟩ := (ih _ hmem).error failure hfail
      rw [List.append_assoc] at hp ⊢
      refine ⟨e.1 :: p, ?_, hasFields_branch.mp hfields, rfl⟩
      rw [crossPaths_ofPlans]
      exact List.mem_flatMap.mpr ⟨_, hmem, hp⟩

variable (hs : Keyed.Sorted fields)

include hs

/-- Where every field has a plan, those of the mapping keep their factors and the other ones have
none. -/
theorem sameFactors_ofPlans
    (hall : ∀ e ∈ merged, extractAt (path ++ [e.1]) e.2 = .ok (ofField path e)) :
    (ofPlans merged (ofField path)).SameFactors (ofPlans fields plans) := by
  have hsame : ∀ e ∈ merged, ∀ value, Keyed.find? e.1 fields = some value →
      (ofField path e).SameFactors (plans (e.1, value)) := by
    intro e he value hvalue
    have hextract := hall e he
    rw [← hlaid.eq_merge he hvalue] at hextract
    exact ((ih _ (Keyed.mem_of_find? hvalue)).ok _ hextract).1
  have hconstant : ∀ e ∈ merged, Keyed.find? e.1 fields = none →
      (ofField path e).SameFactors (constant e.2) := by
    intro e he hnone
    obtain ⟨plan, hextract, hplain⟩ := extractAt_of_not_hasMarker (hlaid.hasMarker hmarker he hnone)
    cases (hall e he).symm.trans hextract
    exact hplain
  have hkeys : ∀ e ∈ fields, e.1 ∈ Keyed.keys merged :=
    fun e he => List.mem_map.mpr ⟨_, hlaid.mem hs he, rfl⟩
  constructor
  · exact Keyed.flatMap_eq_of_wider hs hlaid.sorted hkeys
      (fun e he value hvalue => (hsame e he value hvalue).levelPaths)
      fun e he hnone => (hconstant e he hnone).levelPaths
  · exact Keyed.flatMap_eq_of_wider hs hlaid.sorted hkeys
      (fun e he value hvalue => (hsame e he value hvalue).cross)
      fun e he hnone => (hconstant e he hnone).cross

/-- In a mapping without the marker among its keys every field inherits for itself. -/
theorem inherits_fields (hnone : Keyed.find? Vocabulary.factor fields = none)
    (hwithin : ∀ e ∈ fields, ∀ q ∈ (plans e).crossPaths, path ++ [e.1] <+: q) :
    Inherits source path (ofPlans fields plans) (extractAt path (.map merged)) := by
  have hnoMarker : Keyed.find? Vocabulary.factor merged = none := by
    rw [hlaid.find?_eq, hnone]
    exact field?_marker hmarker
  rcases extractAt_map_cases path hnoMarker with ⟨hall, hplan⟩ | ⟨failure, hplan, e, he, hfail⟩
  · refine inherits_of_ok hplan (sameFactors_ofPlans hlaid hmarker ih hs hall) fun p hp => ?_
    rw [crossPaths_ofPlans] at hp
    obtain ⟨e, he, hp⟩ := List.mem_flatMap.mp hp
    obtain ⟨rest, hrest⟩ := hwithin e he _ hp
    rw [List.append_assoc, List.append_cancel_left_eq] at hrest
    subst hrest
    rw [← List.append_assoc] at hp
    have hbranch := ((ih e he).ok _ (hall _ (hlaid.mem hs he))).2 rest hp
    exact fun hfields => hbranch (hasFields_branch.mpr hfields)
  · obtain ⟨p, hp, hfields, rfl⟩ := exists_of_field_eq_error hlaid hmarker ih he hfail
    exact inherits_of_error hp hfields hplan

end Fields

/-- Every part of a configuration that has a plan inherits. -/
theorem inherits_of_extractAt (hd : d.Ordered) (h : extractAt path d = .ok plan)
    (hs : source.Ordered) (hmarker : source.hasMarker = false) :
    Inherits source path plan (extractAt path (source.merge d)) := by
  -- The source descends together with the configuration, so the induction is for every source.
  refine extractAt_induction (motive := fun path d plan => ∀ source : Document, d.Ordered →
    source.Ordered → source.hasMarker = false →
      Inherits source path plan (extractAt path (source.merge d)))
    ?marker ?leaf ?cross ?map h source hd hs hmarker
  case marker =>
    intro path source _ _ _
    rw [merge_eq_right rfl]
    exact inherits_of_ok (by rw [extractAt, if_pos rfl]) ⟨rfl, rfl⟩ (by simp [crossPaths])
  case leaf =>
    intro path d hmap hd source _ _ _
    rw [merge_eq_right hmap]
    obtain ⟨found, hfound, hsame⟩ := extractAt_of_not_hasMarker hd
    exact inherits_of_ok hfound hsame (by simp [constant, crossPaths])
  case cross =>
    intro path raw levels hpath hlevels source hd hs hmarker
    exact inherits_cross hpath hlevels hs hmarker hd
  case map =>
    intro path fields plans hnone hall ih source hd hs hmarker
    have hvalues := (ordered_map_iff.mp hd).2
    obtain ⟨merged, hmerged, hlaid⟩ := exists_laidOver hs hd
    rw [hmerged]
    apply inherits_fields hlaid hmarker
    case ih =>
      exact fun e he => ih e he (source.branch e.1) (hvalues e he) (ordered_branch hs)
        (hasMarker_branch hmarker)
    case hs => exact hd.sorted
    case hnone => exact hnone
    case hwithin =>
      intro e he q hq
      exact prefix_of_mem_crossPaths (describes_of_extractAt (hvalues e he) (hall e he)) hq

/-- Inherited values leave the factors of a configuration as they are, exactly if the source has no
fields at the place of a crossed factor. If it has, extraction refuses such a factor because the
marker is not alone any more. -/
theorem sameFactors_of_absorb_iff (hb : base.Ordered) (hs : source.Ordered)
    (hmarker : source.hasMarker = false) (h : extract base = .ok plan) :
    ∃ d report, base.absorb source = .ok (d, report) ∧
      ((∃ found, extract d = .ok found ∧ found.SameFactors plan) ↔
        ∀ factor ∈ plan.cross, ¬ source.HasFields factor.path) ∧
      ∀ failure, extract d = .error failure →
        ∃ factor ∈ plan.cross, source.HasFields factor.path ∧
          failure = .notAlone factor.path := by
  obtain ⟨report, hreport⟩ := exists_absorb hb hs
  have hinherits := inherits_of_extractAt hb h hs hmarker
  refine ⟨_, report, hreport, ⟨?same, ?free⟩, ?error⟩
  case same =>
    rintro ⟨found, hfound, -⟩ factor hfactor
    exact (hinherits.ok found hfound).2 factor.path (List.mem_map_of_mem hfactor)
  case free =>
    intro hfree
    cases houtcome : extract (source.merge base) with
    | ok found => exact ⟨found, rfl, (hinherits.ok found houtcome).1⟩
    | error failure =>
        obtain ⟨p, hp, hfields, -⟩ := hinherits.error failure houtcome
        obtain ⟨factor, hfactor, rfl⟩ := List.mem_map.mp hp
        exact absurd hfields (hfree factor hfactor)
  case error =>
    intro failure hfailure
    obtain ⟨p, hp, hfields, rfl⟩ := hinherits.error failure hfailure
    obtain ⟨factor, hfactor, rfl⟩ := List.mem_map.mp hp
    exact ⟨factor, hfactor, hfields, rfl⟩

/-- A configuration with a factor of each kind below a mapping and a crossed one beside it. -/
def variedSettings : Document :=
  .map [("app", .map [("mode", .map [("$FACTOR$", .list [.str "fast", .str "slow"])]),
      ("size", .str "$FACTOR$")]),
    ("seed", .map [("$FACTOR$", .list [.int 1, .int 2])])]

/-- The plan of that configuration. -/
def variedPlan : FactorPlan where
  skeleton := .map [("app", .map [("mode", .str "$FACTOR$"), ("size", .str "$FACTOR$")]),
    ("seed", .str "$FACTOR$")]
  levelPaths := [["app", "size"]]
  cross := [⟨["app", "mode"], [.str "fast", .str "slow"]⟩, ⟨["seed"], [.int 1, .int 2]⟩]

/-- Defaults for everything in it, among them a text and an empty mapping for the crossed factors
and a mapping for the bare one. -/
def plainDefaults : Document :=
  .map [("app", .map [("mode", .str "fast"), ("rate", .int 9),
      ("size", .map [("small", .int 1)])]),
    ("seed", .empty)]

theorem sameFactors_plainDefaults :
    (variedSettings.Ordered ∧ plainDefaults.Ordered ∧ plainDefaults.hasMarker = false ∧
      extract variedSettings = .ok variedPlan) ∧
    ∃ d report found, variedSettings.absorb plainDefaults = .ok (d, report) ∧
      extract d = .ok found ∧ found.SameFactors variedPlan := by
  have hb : variedSettings.Ordered := by decide
  have hs : plainDefaults.Ordered := by decide
  have hmarker : plainDefaults.hasMarker = false := by decide
  have h : extract variedSettings = .ok variedPlan := rfl
  have hfree : ∀ factor ∈ variedPlan.cross, ¬ plainDefaults.HasFields factor.path := by
    simp [variedPlan, plainDefaults, HasFields, get?, Keyed.find?, Document.empty]
  obtain ⟨d, report, habsorb, hsame, -⟩ := sameFactors_of_absorb_iff hb hs hmarker h
  obtain ⟨found, hfound⟩ := hsame.mpr hfree
  exact ⟨⟨hb, hs, hmarker, h⟩, d, report, found, habsorb, hfound⟩

/-- A configuration with one crossed factor. -/
def crossedMode : Document :=
  .map [("mode", .map [("$FACTOR$", .list [.str "fast"])])]

/-- A default with a field at the place of the factor. -/
def nestedDefault : Document :=
  .map [("mode", .map [("kind", .str "slow")])]

/-- Inherited values may disturb a factor: beside an inherited field the marker is not alone. -/
theorem not_sameFactors_of_nested :
    ¬ ∀ (base source : Document) (plan : FactorPlan), base.Ordered → source.Ordered →
      base.isMap = true → source.isMap = true → source.hasMarker = false →
      extract base = .ok plan → ∃ d report found, base.absorb source = .ok (d, report) ∧
        extract d = .ok found ∧ found.SameFactors plan := by
  intro hall
  obtain ⟨d, report, found, habsorb, hfound, -⟩ := hall crossedMode nestedDefault
    ⟨.map [("mode", .str "$FACTOR$")], [], [⟨["mode"], [.str "fast"]⟩]⟩
    (by decide) (by decide) rfl rfl (by decide) rfl
  have hmerged : crossedMode.absorb nestedDefault =
      .ok (.map [("mode", .map [("$FACTOR$", .list [.str "fast"]), ("kind", .str "slow")])],
        ⟨[["mode", "kind"]], []⟩) := rfl
  cases hmerged.symm.trans habsorb
  cases hfound

end FactorPlan

end ExperimentSuite
