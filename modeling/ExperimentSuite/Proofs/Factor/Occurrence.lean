import ExperimentSuite.Proofs.Factor.Plan
import ExperimentSuite.Proofs.Placeholder.Place

/-!
# Where the factor marker may occur

The marker occurs in a document as a text or as a key, at a place that may lead
through lists. Extraction succeeds exactly if it can read every occurrence: a
text must be reached through mappings alone, and a key must be the only one of
a mapping below the root, reached in the same way, that lists the levels of a
factor.
-/

namespace ExperimentSuite

namespace Document

variable {d c : Document} {s : String} {place : Place} {items : List Document}
  {fields : List (String × Document)}

/-- The factor marker occurs at a place: as the text there or as a key of the mapping there. -/
inductive MarkedAt (d : Document) (place : Place) : Prop where
  | text (h : d.at? place = some (.str Vocabulary.factor))
  | key {fields : List (String × Document)} (h : d.at? place = some (.map fields))
      (hkey : Vocabulary.factor ∈ Keyed.keys fields)

theorem markedAt_cons {step : Step} :
    d.MarkedAt (step :: place) ↔ ∃ c, d.child? step = some c ∧ c.MarkedAt place := by
  constructor
  · rintro (h | ⟨h, hkey⟩) <;> rw [at?_cons, Option.bind_eq_some_iff] at h <;>
      obtain ⟨c, hc, h⟩ := h
    · exact ⟨c, hc, .text h⟩
    · exact ⟨c, hc, .key h hkey⟩
  · rintro ⟨c, hc, h | ⟨h, hkey⟩⟩
    · exact .text (by rw [at?_cons, hc]; exact h)
    · exact .key (by rw [at?_cons, hc]; exact h) hkey

theorem markedAt_str_iff : (str s).MarkedAt place ↔ place = [] ∧ s = Vocabulary.factor := by
  cases place with
  | nil =>
      constructor
      · rintro (h | ⟨h, -⟩) <;> cases h
        exact ⟨rfl, rfl⟩
      · rintro ⟨-, rfl⟩
        exact .text rfl
  | cons step rest =>
      rw [markedAt_cons]
      cases step <;> simp [child?]

theorem markedAt_list_iff :
    (list items).MarkedAt place ↔
      ∃ n rest d, place = .index n :: rest ∧ items[n]? = some d ∧ d.MarkedAt rest := by
  cases place with
  | nil =>
      constructor
      · rintro (h | ⟨h, -⟩) <;> cases h
      · rintro ⟨_, _, _, h, -⟩
        cases h
  | cons step rest =>
      rw [markedAt_cons]
      cases step <;> simp [child?]

theorem markedAt_map_iff :
    (map fields).MarkedAt place ↔ (place = [] ∧ Vocabulary.factor ∈ Keyed.keys fields) ∨
      ∃ name rest d, place = .key name :: rest ∧ Keyed.find? name fields = some d ∧
        d.MarkedAt rest := by
  cases place with
  | nil =>
      constructor
      · rintro (h | ⟨h, hkey⟩) <;> cases h
        exact .inl ⟨rfl, hkey⟩
      · rintro (⟨-, hkey⟩ | ⟨_, _, _, h, -⟩)
        · exact .key rfl hkey
        · cases h
  | cons step rest =>
      rw [markedAt_cons]
      cases step <;> simp [child?]

theorem hasMarkerItems_eq_false_iff :
    hasMarkerItems items = false ↔ ∀ d ∈ items, d.hasMarker = false := by
  induction items with
  | nil => simp [hasMarkerItems]
  | cons d rest ih => simp [hasMarkerItems, ih]

/-- A document is without markers if none occurs at any place. -/
theorem hasMarker_eq_false_iff (hd : d.Ordered) :
    d.hasMarker = false ↔ ∀ place, ¬ d.MarkedAt place := by
  induction d using memberInduction with
  | str s => simp [hasMarker, markedAt_str_iff]
  | list items ih =>
      have hitems := ordered_list_iff.mp hd
      rw [hasMarker, hasMarkerItems_eq_false_iff]
      simp only [markedAt_list_iff]
      constructor
      · rintro h _ ⟨n, rest, d, rfl, hn, hmarked⟩
        have hmem := List.mem_of_getElem? hn
        exact (ih d hmem (hitems d hmem)).mp (h d hmem) rest hmarked
      · intro h d hmem
        obtain ⟨n, hn⟩ := List.mem_iff_getElem?.mp hmem
        exact (ih d hmem (hitems d hmem)).mpr
          fun rest hmarked => h _ ⟨n, rest, d, rfl, hn, hmarked⟩
  | map fields ih =>
      have hvalues := (ordered_map_iff.mp hd).2
      rw [hasMarker, hasMarkerFields_eq_false_iff]
      simp only [markedAt_map_iff, not_or]
      constructor
      · rintro h place
        refine ⟨?_, ?_⟩
        · rintro ⟨-, hkey⟩
          obtain ⟨e, he, heq⟩ := List.mem_map.mp hkey
          exact (h e he).1 heq
        · rintro ⟨name, rest, d, -, hd, hmarked⟩
          have hmem := Keyed.mem_of_find? hd
          exact (ih _ hmem (hvalues _ hmem)).mp (h _ hmem).2 rest hmarked
      · intro h e he
        refine ⟨fun hkey => (h []).1 ⟨rfl, List.mem_map.mpr ⟨e, he, hkey⟩⟩, ?_⟩
        exact (ih e he (hvalues e he)).mpr fun rest hmarked =>
          (h _).2 ⟨e.1, rest, e.2, rfl, Keyed.find?_of_mem hd.sorted he, hmarked⟩
  | _ =>
      refine iff_of_true rfl fun place hmarked => ?_
      cases place with
      | nil => rcases hmarked with h | ⟨h, -⟩ <;> cases h
      | cons step rest =>
          obtain ⟨c, hc, -⟩ := markedAt_cons.mp hmarked
          cases step <;> cases hc

end Document

namespace FactorPlan

open Document

variable {path : KeyPath} {d raw base : Document} {levels : List Document}
  {items : List Document} {fields : List (String × Document)}

/-- What stands under the marker of a crossed factor lists its levels: as a list of documents
without markers, or as a range. -/
inductive Lists : Document → List Document → Prop where
  | items {items : List Document} (hne : items ≠ [])
      (hfree : ∀ place, ¬ (Document.list items).MarkedAt place) : Lists (.list items) items
  | range {expression : String} {values : List Int}
      (h : Range.parse expression = some (.ok values)) :
      Lists (.str expression) (values.map Document.int)

theorem any_hasMarker_eq_false_iff :
    levels.any Document.hasMarker = false ↔ hasMarkerItems levels = false := by
  rw [hasMarkerItems_eq_false_iff]
  simp

theorem crossLevels_eq_ok (hraw : raw.Ordered) :
    crossLevels path raw = .ok levels ↔ Lists raw levels := by
  have hlevels : crossLevels path raw = .ok levels ↔
      levelsAt path raw = .ok levels ∧ levels.any Document.hasMarker = false := by
    rw [crossLevels, Outcome.bind_eq_ok]
    constructor
    · rintro ⟨found, hfound, h⟩
      split at h
      · cases h
      next hmarker =>
      cases h
      exact ⟨hfound, by simpa using hmarker⟩
    · rintro ⟨hfound, hmarker⟩
      exact ⟨levels, hfound, by rw [hmarker]; rfl⟩
  rw [hlevels]
  constructor
  · rintro ⟨hfound, hmarker⟩
    rw [any_hasMarker_eq_false_iff] at hmarker
    cases raw with
    | list items =>
        have hne := levelsAt_ne_nil hfound
        cases items with
        | nil => cases hfound
        | cons d rest =>
            cases hfound
            exact .items hne ((hasMarker_eq_false_iff hraw).mp (by rw [hasMarker]; exact hmarker))
    | str expression =>
        rw [levelsAt] at hfound
        split at hfound
        · cases hfound
        · cases hfound
        · next values hparse => cases hfound; exact .range hparse
    | _ => cases hfound
  · intro h
    cases h with
    | items hne hfree =>
        have hmarker := (hasMarker_eq_false_iff hraw).mpr hfree
        rw [hasMarker] at hmarker
        refine ⟨?_, any_hasMarker_eq_false_iff.mpr hmarker⟩
        cases levels with
        | nil => exact absurd rfl hne
        | cons d rest => rfl
    | range hparse =>
        refine ⟨by rw [levelsAt, hparse], ?_⟩
        simp [Document.int, hasMarker]

/-- The marker does not occur below itself, whichever way the levels are listed. -/
theorem Lists.not_markedAt (h : Lists raw levels) (place : Place) : ¬ raw.MarkedAt place := by
  cases h with
  | items _ hfree => exact hfree place
  | range hparse =>
      rw [markedAt_str_iff]
      rintro ⟨-, rfl⟩
      cases hparse

/-- In a crossed factor the marker occurs as the key at its root alone. -/
theorem Lists.eq_nil_of_markedAt {place : Place} (h : Lists raw levels)
    (hmarked : (Document.map [(Vocabulary.factor, raw)]).MarkedAt place) : place = [] := by
  rcases markedAt_map_iff.mp hmarked with ⟨hnil, -⟩ | ⟨name, rest, c, -, hc, hbelow⟩
  · exact hnil
  · have hmem := Keyed.mem_of_find? hc
    rw [List.mem_singleton, Prod.mk.injEq] at hmem
    exact absurd (hmem.2 ▸ hbelow) (h.not_markedAt rest)

/-- Every occurrence of the marker in the part of a configuration at a path is one that extraction
reads: a text reached through mappings alone, or the only key of a mapping that is reached in the
same way, stands below the root and lists levels. -/
structure Readable (path : KeyPath) (d : Document) : Prop where
  text : ∀ place, d.at? place = some (.str Vocabulary.factor) →
    ∃ p : KeyPath, place = p.map Step.key
  key : ∀ place fields, d.at? place = some (.map fields) →
    Vocabulary.factor ∈ Keyed.keys fields →
    ∃ (p : KeyPath) (raw : Document) (levels : List Document), place = p.map Step.key ∧
      path ++ p ≠ [] ∧ fields = [(Vocabulary.factor, raw)] ∧ Lists raw levels

theorem readable_of_not_markedAt (h : ∀ place, ¬ d.MarkedAt place) : Readable path d where
  text place htext := absurd (.text htext) (h place)
  key place _ hfields hkey := absurd (.key hfields hkey) (h place)

/-- In a list no occurrence can be read. -/
theorem readable_list_iff (hd : (Document.list items).Ordered) :
    Readable path (.list items) ↔ hasMarkerItems items = false := by
  rw [← hasMarker, hasMarker_eq_false_iff hd]
  refine ⟨fun h place hmarked => ?_, readable_of_not_markedAt⟩
  obtain ⟨n, rest, c, rfl, -, -⟩ := markedAt_list_iff.mp hmarked
  have hstep : ∀ p : KeyPath, Step.index n :: rest ≠ p.map Step.key := by
    rintro (_ | ⟨key, p⟩) heq <;> cases heq
  rcases hmarked with htext | ⟨hfields, hkey⟩
  · obtain ⟨p, hp⟩ := h.text _ htext
    exact hstep p hp
  · obtain ⟨p, _, _, hp, -⟩ := h.key _ _ hfields hkey
    exact hstep p hp

theorem readable_str (s : String) : Readable path (.str s) where
  text place htext := by
    obtain ⟨rfl, -⟩ := markedAt_str_iff.mp (.text htext)
    exact ⟨[], rfl⟩
  key place _ hfields hkey := by
    obtain ⟨rfl, -⟩ := markedAt_str_iff.mp (.key hfields hkey)
    cases hfields

/-- In a mapping that has the marker as a key every occurrence can be read exactly if the mapping is
a crossed factor. -/
theorem readable_crossed_iff (hfound : Keyed.find? Vocabulary.factor fields = some raw) :
    Readable path (.map fields) ↔
      path ≠ [] ∧ fields = [(Vocabulary.factor, raw)] ∧ ∃ levels, Lists raw levels := by
  constructor
  · intro h
    have hkey : Vocabulary.factor ∈ Keyed.keys fields :=
      Keyed.isSome_find?_iff.mp (by rw [hfound]; rfl)
    obtain ⟨p, raw', levels, hp, hne, rfl, hlists⟩ := h.key [] fields rfl hkey
    obtain rfl : p = [] := List.map_eq_nil_iff.mp hp.symm
    have hraw : raw' = raw := by simpa [Keyed.find?] using hfound
    exact ⟨by simpa using hne, by rw [hraw], levels, hraw ▸ hlists⟩
  · rintro ⟨hne, rfl, levels, hlists⟩
    constructor
    · intro place htext
      obtain rfl := hlists.eq_nil_of_markedAt (.text htext)
      cases htext
    · intro place fields hfields hkey
      obtain rfl := hlists.eq_nil_of_markedAt (.key hfields hkey)
      cases hfields
      exact ⟨[], raw, levels, rfl, by simpa using hne, rfl, hlists⟩

/-- In any other mapping every occurrence can be read if that is so in each of the fields. -/
theorem readable_map_iff (hs : Keyed.Sorted fields)
    (hnone : Keyed.find? Vocabulary.factor fields = none) :
    Readable path (.map fields) ↔ ∀ e ∈ fields, Readable (path ++ [e.1]) e.2 := by
  have hnokey : Vocabulary.factor ∉ Keyed.keys fields := by
    rw [← Keyed.isSome_find?_iff, hnone]
    simp
  constructor
  · intro h e he
    have hbelow : ∀ place c, e.2.at? place = some c →
        (Document.map fields).at? (.key e.1 :: place) = some c := by
      intro place c hc
      rw [at?_cons, child?, Keyed.find?_of_mem hs he]
      exact hc
    constructor
    · intro place htext
      obtain ⟨p, hp⟩ := h.text _ (hbelow place _ htext)
      cases p with
      | nil => cases hp
      | cons key p => exact ⟨p, (List.cons.inj hp).2⟩
    · intro place inner hinner hkey
      obtain ⟨p, raw, levels, hp, -, hrest⟩ := h.key _ _ (hbelow place _ hinner) hkey
      cases p with
      | nil => cases hp
      | cons key p => exact ⟨p, raw, levels, (List.cons.inj hp).2, by simp, hrest⟩
  · intro h
    have hread : ∀ place, (Document.map fields).MarkedAt place → ∃ e ∈ fields, ∃ rest,
        place = .key e.1 :: rest ∧ (Document.map fields).at? place = e.2.at? rest := by
      intro place hmarked
      rcases markedAt_map_iff.mp hmarked with ⟨-, hkey⟩ | ⟨name, rest, c, rfl, hc, -⟩
      · exact absurd hkey hnokey
      · exact ⟨(name, c), Keyed.mem_of_find? hc, rest, rfl, by rw [at?_cons, child?, hc]; rfl⟩
    constructor
    · intro place htext
      obtain ⟨e, he, rest, rfl, hat⟩ := hread place (.text htext)
      obtain ⟨p, rfl⟩ := (h e he).text rest (hat ▸ htext)
      exact ⟨e.1 :: p, rfl⟩
    · intro place inner hinner hkey
      obtain ⟨e, he, rest, rfl, hat⟩ := hread place (.key hinner hkey)
      obtain ⟨p, raw, levels, rfl, -, hrest⟩ := (h e he).key rest inner (hat ▸ hinner) hkey
      exact ⟨e.1 :: p, raw, levels, rfl, by simp, hrest⟩

/-- A mapping without the marker among its keys has a plan if each of its fields has one. -/
theorem exists_extractFields {fields : List (String × Document)}
    (h : ∀ e ∈ fields, ∃ plan, extractAt (path ++ [e.1]) e.2 = .ok plan) :
    ∃ result, extractFields path fields = .ok result := by
  induction fields with
  | nil => exact ⟨_, rfl⟩
  | cons e rest ih =>
      obtain ⟨⟨first, hfirst⟩, hrest⟩ := List.forall_mem_cons.mp h
      obtain ⟨others, hothers⟩ := ih hrest
      refine ⟨((e.1, first.skeleton) :: others.1, first.levelPaths ++ others.2.1,
        first.cross ++ others.2.2), ?_⟩
      rw [extractFields, hfirst, hothers]
      rfl

/-- Extraction succeeds exactly if it can read every occurrence of the marker. -/
theorem exists_extractAt_iff (hd : d.Ordered) :
    (∃ plan, extractAt path d = .ok plan) ↔ Readable path d := by
  induction d using memberInduction generalizing path with
  | str s =>
      refine iff_of_true ?_ (readable_str s)
      rw [extractAt]
      split <;> exact ⟨_, rfl⟩
  | list items _ =>
      rw [readable_list_iff hd, extractAt]
      cases hasMarkerItems items <;> simp
  | map fields ih =>
      have hvalues := (ordered_map_iff.mp hd).2
      rw [extractAt]
      cases hfound : Keyed.find? Vocabulary.factor fields with
      | some raw =>
          have hraw : raw.Ordered := hd.find? hfound
          rw [readable_crossed_iff hfound]
          simp only [crossed]
          constructor
          · rintro ⟨plan, h⟩
            split at h
            · cases h
            next hpath =>
            split at h
            · cases h
            next hlength =>
            obtain ⟨e, rfl⟩ := List.length_eq_one_iff.mp (not_not.mp hlength)
            have hmem := Keyed.mem_of_find? hfound
            rw [List.mem_singleton] at hmem
            obtain ⟨levels, hlevels, -⟩ := Outcome.bind_eq_ok.mp h
            exact ⟨by simpa using hpath, by rw [hmem], levels, (crossLevels_eq_ok hraw).mp hlevels⟩
          · rintro ⟨hpath, rfl, levels, hlists⟩
            have hlevels : crossLevels path raw = .ok levels :=
              (crossLevels_eq_ok hraw).mpr hlists
            refine ⟨⟨.str Vocabulary.factor, [], [⟨path, levels⟩]⟩, ?_⟩
            rw [if_neg (by simpa using hpath)]
            simp [hlevels]
      | none =>
          rw [readable_map_iff hd.sorted hfound]
          constructor
          · rintro ⟨plan, h⟩ e he
            obtain ⟨result, hresult, -⟩ := Outcome.bind_eq_ok.mp h
            exact (ih e he (hvalues e he)).mp ⟨_, (extractFields_eq_ok hresult).1 e he⟩
          · intro h
            obtain ⟨result, hresult⟩ : ∃ result, extractFields path fields = .ok result :=
              exists_extractFields fun e he => (ih e he (hvalues e he)).mpr (h e he)
            exact ⟨⟨.map result.1, result.2.1, result.2.2⟩, by rw [hresult]; rfl⟩
  | _ =>
      refine iff_of_true (by simp [extractAt]) ?_
      exact readable_of_not_markedAt ((hasMarker_eq_false_iff hd).mp rfl)

end FactorPlan

end ExperimentSuite
