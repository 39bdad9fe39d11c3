import ExperimentSuite.Proofs.Placeholder.Soundness

/-!
# Resolving commands

The commands are rendered once, text by text, against the resolved run. No text
reads another one, so each holds its own rendering afterwards and everything
else is what it was. A run is resolved exactly if its fields settle and its
commands, if it has any, are rendered.
-/

namespace ExperimentSuite

/-- A source seen from further up. -/
def Pending.under (place : Place) (item : Pending) : Pending :=
  { item with place := place ++ item.place }

namespace Document

/-- What is pending does not depend on where a document stands. -/
theorem pendingAt_append (d : Document) (place q : Place) :
    d.pendingAt (place ++ q) = (d.pendingAt q).map (Pending.under place) := by
  induction d using memberInduction generalizing q with
  | str s =>
      simp only [pendingAt]
      split <;> rfl
  | list items ih =>
      simp only [pendingAt]
      generalize (0 : Nat) = index
      induction items generalizing index with
      | nil => rfl
      | cons d rest ihrest =>
          obtain ⟨ihd, ih⟩ := List.forall_mem_cons.mp ih
          simp only [pendingItems, List.append_assoc, ihd, ihrest ih, List.map_append]
  | map fields ih =>
      simp only [pendingAt]
      induction fields with
      | nil => rfl
      | cons e rest ihrest =>
          obtain ⟨key, d⟩ := e
          obtain ⟨ihd, ih⟩ := List.forall_mem_cons.mp ih
          simp only [pendingFields, List.append_assoc, ihd, ihrest ih, List.map_append]
          congr 1
          split <;> simp [Pending.under]
  | _ => rfl

theorem pendingAt_eq_map (d : Document) (place : Place) :
    d.pendingAt place = (d.pendingAt []).map (Pending.under place) := by
  simpa using pendingAt_append d place []

theorem plain_map_iff {fields : List (String × Document)} :
    (map fields).Plain ↔ ∀ e ∈ fields, Placeholder.occursIn e.1 = false ∧ e.2.Plain := by
  have hfield : ∀ e : String × Document, (∀ item, ¬ ((Placeholder.occursIn e.1 = true ∧
      item = ⟨[] ++ [.key e.1], e.1, true⟩) ∨ item ∈ e.2.pendingAt ([] ++ [.key e.1]))) ↔
        Placeholder.occursIn e.1 = false ∧ e.2.Plain := by
    intro e
    rw [pendingAt_eq_map, Plain, List.eq_nil_iff_forall_not_mem]
    constructor
    · intro h
      refine ⟨Bool.eq_false_iff.mpr fun hs => h _ (.inl ⟨hs, rfl⟩), fun item hitem => ?_⟩
      exact h _ (.inr (List.mem_map_of_mem hitem))
    · rintro ⟨hs, h⟩ item (⟨hs', -⟩ | hitem)
      · rw [hs] at hs'
        cases hs'
      · obtain ⟨i, hi, -⟩ := List.mem_map.mp hitem
        exact h i hi
  rw [Plain, pendingAt, List.eq_nil_iff_forall_not_mem]
  simp only [mem_pendingFields, ← hfield]
  constructor
  · intro h e he item hitem
    exact h item ⟨e, he, hitem⟩
  · rintro h item ⟨e, he, hitem⟩
    exact h e he item hitem

end Document

namespace Resolution

open Document KeyPath

variable {engine : Engine} {vars : List (String × Document)} {run out c c' : Document}
  {item : Pending} {items : List Pending}

/-- Renders one source of the commands, as it is seen from the commands themselves. -/
def commandText (engine : Engine) (vars : List (String × Document)) (commands : Document)
    (item : Pending) : Except Failure Document :=
  commandStep engine vars commands (item.under [.key Vocabulary.command])

theorem resolveCommands_eq : resolveCommands engine vars run c =
    (c.pendingAt []).foldlM (commandText engine (context run vars)) c := by
  rw [resolveCommands, pendingAt_eq_map, List.foldlM_map]
  rfl

/-- A source of the commands must be a text, and is replaced by what it renders to. -/
theorem commandText_eq_ok : commandText engine vars c item = .ok c' ↔
    item.isKey = false ∧ (∃ references, engine.references item.source = .ok references) ∧
      ∃ text, engine.render vars item.source = .ok text ∧
        (engine.tolerant = false → Placeholder.occursIn text = false) ∧
          c' = (c.putAt? item.place (.str text)).getD c := by
  have hfields : (item.under [.key Vocabulary.command]).isKey = item.isKey ∧
      (item.under [.key Vocabulary.command]).source = item.source ∧
        (item.under [.key Vocabulary.command]).place.drop 1 = item.place := ⟨rfl, rfl, rfl⟩
  rw [commandText, commandStep, hfields.1, hfields.2.1, hfields.2.2]
  constructor
  · intro h
    split at h
    · cases h
    next hkey =>
    obtain ⟨references, hreferences, h⟩ := Outcome.bind_eq_ok.mp h
    obtain ⟨text, htext, h⟩ := Outcome.bind_eq_ok.mp h
    split at h
    · cases h
    next hplain =>
    cases h
    refine ⟨Bool.eq_false_iff.mpr hkey, ⟨references, Outcome.mapError_eq_ok.mp hreferences⟩, text,
      Outcome.mapError_eq_ok.mp htext, ?_, rfl⟩
    intro hstrict
    simpa [hstrict] using hplain
  · rintro ⟨hkey, ⟨references, hreferences⟩, text, htext, hplain, rfl⟩
    rw [hkey]
    refine Outcome.bind_eq_ok.mpr ⟨references, Outcome.mapError_eq_ok.mpr hreferences, ?_⟩
    refine Outcome.bind_eq_ok.mpr ⟨text, Outcome.mapError_eq_ok.mpr htext, ?_⟩
    have hnot : (Placeholder.occursIn text && !engine.tolerant) = false := by
      cases htolerant : engine.tolerant with
      | true => simp
      | false => simp [hplain htolerant]
    rw [hnot]
    rfl

/-- What the rendering of commands has achieved. -/
structure CommandsRendered (engine : Engine) (vars : List (String × Document))
    (items : List Pending) (c c' : Document) : Prop where
  ordered : c'.Ordered
  texts : ∀ item ∈ items, item.isKey = false
  frame : ∀ place, (∀ item ∈ items, Apart place item.place) → c'.at? place = c.at? place
  /-- Every pending text has been replaced by its own rendering. -/
  values : ∀ item ∈ items, ∃ text, engine.render vars item.source = .ok text ∧
    (engine.tolerant = false → Placeholder.occursIn text = false) ∧
      c'.at? item.place = some (.str text)

/-- The spec of the rendering of commands. -/
theorem commandsRendered_of_foldlM (hl : Listed items c) (hd : c.Ordered)
    (h : items.foldlM (commandText engine vars) c = .ok c') :
    CommandsRendered engine vars items c c' := by
  induction items generalizing c with
  | nil =>
      cases h
      exact ⟨hd, by simp, fun _ _ => rfl, by simp⟩
  | cons item rest ih =>
      obtain ⟨next, hnext, hrest⟩ := Outcome.foldlM_cons_eq_ok.mp h
      obtain ⟨hkey, -, text, htext, hplain, rfl⟩ := commandText_eq_ok.mp hnext
      have hat := hl.texts item List.mem_cons_self hkey
      obtain ⟨middle, hput⟩ := exists_putAt? (.str text) hat
      rw [hput, Option.getD_some] at hrest
      have hmiddle : middle.Ordered := hd.putAt? (v := .str text) trivial hput
      have hdone := ih (hl.putAt? hkey hput) hmiddle hrest
      refine ⟨hdone.ordered, List.forall_mem_cons.mpr ⟨hkey, hdone.texts⟩,
        fun place hplace => ?_, List.forall_mem_cons.mpr ⟨⟨text, htext, hplain, ?_⟩, hdone.values⟩⟩
      · obtain ⟨hitem, hothers⟩ := List.forall_mem_cons.mp hplace
        rw [hdone.frame place hothers]
        exact at?_modifyAt?_of_apart hput hitem
      · rw [hdone.frame item.place fun i hi => (hl.apart hkey hi (hdone.texts i hi)).symm]
        exact at?_putAt?_self hput

theorem commandsRendered_of_resolveCommands (hd : c.Ordered)
    (h : resolveCommands engine vars run c = .ok c') :
    CommandsRendered engine (context run vars) (c.pendingAt []) c c' :=
  commandsRendered_of_foldlM (listed_pendingAt hd) hd (resolveCommands_eq ▸ h)

/-- Strictly rendered commands hold no placeholder. -/
theorem CommandsRendered.plain (h : CommandsRendered engine vars (c.pendingAt []) c c')
    (hd : c.Ordered) (hstrict : engine.tolerant = false) : c'.Plain := by
  apply List.eq_nil_iff_forall_not_mem.mpr
  intro item hitem
  obtain ⟨hs, place, -, hat⟩ := (mem_pendingAt_iff h.ordered).mp hitem
  have hbeside : ∀ i ∈ c.pendingAt [], Apart place i.place := by
    intro i hi
    obtain ⟨text, -, hplain, htext⟩ := h.values i hi
    have hbefore : (c.at? i.place).isSome := by
      rw [at?_of_mem_pendingAt hd hi (h.texts i hi)]
      rfl
    rcases hat.apart_of_plain hs htext trivial (plain_str.mpr (hplain hstrict)) hbefore with
      hapart | ⟨hkey, hbefore⟩
    · exact hapart
    · have hitem' : ({ item with place := place } : Pending) ∈ c.pendingAt [] :=
        (mem_pendingAt_iff hd).mpr ⟨hs, place, rfl, hbefore⟩
      rw [h.texts _ hitem'] at hkey
      cases hkey
  have hitem' : ({ item with place := place } : Pending) ∈ c.pendingAt [] := by
    rw [HasAt, h.frame place hbeside] at hat
    exact (mem_pendingAt_iff hd).mpr ⟨hs, place, rfl, hat⟩
  exact (hbeside _ hitem').1 List.prefix_rfl

/-- A run is resolved exactly if its fields settle and its commands, if it has any, are rendered. -/
theorem resolve_eq_ok : resolve engine vars run = .ok out ↔
    Keyed.hasKey Vocabulary.runBinding vars = false ∧ ∃ fields resolved, run = .map fields ∧
      settle engine vars Vocabulary.maxPlaceholderRounds
        (.map (Keyed.erase Vocabulary.command fields)) = .ok resolved ∧
      ((Keyed.find? Vocabulary.command fields = none ∧ out = resolved) ∨
        ∃ commands rendered, Keyed.find? Vocabulary.command fields = some commands ∧
          resolveCommands engine vars resolved commands = .ok rendered ∧
            out = attach rendered resolved) := by
  constructor
  · intro h
    cases run with
    | map fields =>
        rw [resolve] at h
        split at h
        · cases h
        next hvars =>
        obtain ⟨resolved, hresolved, h⟩ := Outcome.bind_eq_ok.mp h
        refine ⟨Bool.eq_false_iff.mpr hvars, fields, resolved, rfl, hresolved, ?_⟩
        cases hfound : Keyed.find? Vocabulary.command fields with
        | none =>
            rw [hfound] at h
            cases h
            exact .inl ⟨rfl, rfl⟩
        | some commands =>
            rw [hfound] at h
            obtain ⟨rendered, hrendered, h⟩ := Outcome.bind_eq_ok.mp h
            cases h
            exact .inr ⟨commands, rendered, rfl, hrendered, rfl⟩
    | _ =>
        rw [resolve] at h
        · split at h <;> cases h
        · exact fun fields heq => by cases heq
  · rintro ⟨hvars, fields, resolved, rfl, hresolved, h⟩
    rw [resolve, hvars]
    refine Outcome.bind_eq_ok.mpr ⟨resolved, hresolved, ?_⟩
    rcases h with ⟨hfound, rfl⟩ | ⟨commands, rendered, hfound, hrendered, rfl⟩
    · rw [hfound]
      rfl
    · rw [hfound]
      exact Outcome.bind_eq_ok.mpr ⟨rendered, hrendered, rfl⟩

end Resolution

end ExperimentSuite
