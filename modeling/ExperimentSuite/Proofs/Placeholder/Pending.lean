import ExperimentSuite.Proofs.Placeholder.Place
import Mathlib.Data.List.Nodup

/-!
# Which sources are pending

The pending sources of a document are read off its places: a text is pending
where it stands, and a key at the place that it ends. A document is plain when
it has none. The list of sources names each of them once.
-/

namespace ExperimentSuite

namespace Document

open KeyPath

variable {d c : Document} {step : Step} {place own rest : Place} {item : Pending} {index : Nat}
  {items : List Document} {fields : List (String × Document)}

/-- Induction over documents, one step at a time. -/
theorem childInduction {motive : Document → Prop}
    (h : ∀ d, (∀ step c, d.child? step = some c → motive c) → motive d) (d : Document) :
    motive d := by
  induction d using memberInduction with
  | list items ih =>
      apply h _
      intro step c hc
      cases step with
      | key name => cases hc
      | index n => exact ih c (List.mem_of_getElem? hc)
  | map fields ih =>
      apply h _
      intro step c hc
      cases step with
      | key name => exact ih _ (Keyed.mem_of_find? hc)
      | index n => cases hc
  | _ => exact h _ fun step c hc => by cases hc

theorem mem_pendingItems :
    item ∈ pendingItems place index items ↔
      ∃ n c, items[n]? = some c ∧ item ∈ pendingAt (place ++ [.index (index + n)]) c := by
  induction items generalizing index with
  | nil => simp [pendingItems]
  | cons d rest ih =>
      rw [pendingItems, List.mem_append, ih]
      constructor
      · rintro (hd | ⟨n, c, hc, hmem⟩)
        · exact ⟨0, d, rfl, hd⟩
        · exact ⟨n + 1, c, hc, by rwa [Nat.add_comm n 1, ← Nat.add_assoc]⟩
      · rintro ⟨n, c, hc, hmem⟩
        cases n with
        | zero => cases hc; exact .inl hmem
        | succ n => exact .inr ⟨n, c, hc, by rwa [Nat.add_comm n 1, ← Nat.add_assoc] at hmem⟩

theorem mem_pendingFields :
    item ∈ pendingFields place fields ↔
      ∃ e ∈ fields,
        (Placeholder.occursIn e.1 = true ∧ item = ⟨place ++ [.key e.1], e.1, true⟩) ∨
          item ∈ e.2.pendingAt (place ++ [.key e.1]) := by
  induction fields with
  | nil => simp [pendingFields]
  | cons e rest ih =>
      obtain ⟨key, d⟩ := e
      rw [pendingFields, List.mem_append, List.mem_append, ih, List.exists_mem_cons_iff]
      refine or_congr (or_congr ?_ Iff.rfl) Iff.rfl
      cases Placeholder.occursIn key <;> simp

/-- A pending source is the document itself, a key one step into it, or pending in a child. -/
theorem mem_pendingAt_step (hd : d.Ordered) :
    item ∈ d.pendingAt place ↔
      (∃ s, d = .str s ∧ Placeholder.occursIn s = true ∧ item = ⟨place, s, false⟩) ∨
        ∃ step c, d.child? step = some c ∧
          ((∃ key, step = .key key ∧ Placeholder.occursIn key = true ∧
              item = ⟨place ++ [step], key, true⟩) ∨
            item ∈ c.pendingAt (place ++ [step])) := by
  cases d with
  | str s =>
      rw [pendingAt]
      cases h : Placeholder.occursIn s <;> simp [child?, h]
  | list items =>
      rw [pendingAt, mem_pendingItems]
      constructor
      · rintro ⟨n, c, hc, hmem⟩
        exact .inr ⟨.index n, c, hc, .inr (by simpa using hmem)⟩
      · rintro (⟨s, h, -⟩ | ⟨step, c, hc, h⟩)
        · cases h
        · cases step with
          | key name => cases hc
          | index n =>
              rcases h with ⟨_, h, -⟩ | hmem
              · cases h
              · exact ⟨n, c, hc, by simpa using hmem⟩
  | map fields =>
      rw [pendingAt, mem_pendingFields]
      constructor
      · rintro ⟨⟨key, c⟩, he, h⟩
        refine .inr ⟨.key key, c, Keyed.find?_of_mem hd.sorted he, ?_⟩
        exact h.imp_left fun h => ⟨key, rfl, h⟩
      · rintro (⟨s, h, -⟩ | ⟨step, c, hc, h⟩)
        · cases h
        · cases step with
          | index n => cases hc
          | key name =>
              refine ⟨(name, c), Keyed.mem_of_find? hc, h.imp_left ?_⟩
              rintro ⟨_, h, hkey⟩
              cases h
              exact hkey
  | _ => simp [pendingAt, child?]

/-- Whether a source stands at a place: a text as the value there, a key as the last step. -/
def HasAt (d : Document) (item : Pending) (place : Place) : Prop :=
  (item.isKey = false ∧ d.at? place = some (.str item.source)) ∨
    (item.isKey = true ∧ (d.at? place).isSome ∧ ∃ parent, place = parent ++ [.key item.source])

theorem hasAt_nil : d.HasAt item [] ↔ item.isKey = false ∧ d = .str item.source := by
  simp [HasAt]

theorem hasAt_cons :
    d.HasAt item (step :: rest) ↔
      ∃ c, d.child? step = some c ∧
        ((item.isKey = true ∧ step = .key item.source ∧ rest = []) ∨ c.HasAt item rest) := by
  have hplace : (∃ parent, step :: rest = parent ++ [.key item.source]) ↔
      (step = .key item.source ∧ rest = []) ∨ ∃ parent, rest = parent ++ [.key item.source] := by
    constructor
    · rintro ⟨parent, h⟩
      cases parent with
      | nil => exact .inl (List.cons.inj h)
      | cons first parent => exact .inr ⟨parent, (List.cons.inj h).2⟩
    · rintro (⟨rfl, rfl⟩ | ⟨parent, rfl⟩)
      · exact ⟨[], rfl⟩
      · exact ⟨step :: parent, rfl⟩
  rw [HasAt, at?_cons, hplace]
  cases d.child? step with
  | none => simp
  | some c =>
      simp only [Option.bind_some, Option.some.injEq, exists_eq_left', HasAt]
      constructor
      · rintro (hleaf | ⟨hkey, hsome, hhere | hbelow⟩)
        · exact .inr (.inl hleaf)
        · exact .inl ⟨hkey, hhere⟩
        · exact .inr (.inr ⟨hkey, hsome, hbelow⟩)
      · rintro (⟨hkey, rfl, rfl⟩ | hleaf | ⟨hkey, hsome, hbelow⟩)
        · exact .inr ⟨hkey, by simp, .inl ⟨rfl, rfl⟩⟩
        · exact .inl hleaf
        · exact .inr ⟨hkey, hsome, .inr hbelow⟩

/-- The pending sources are the texts and keys with a placeholder, each at its place. -/
theorem mem_pendingAt_iff (hd : d.Ordered) :
    item ∈ d.pendingAt place ↔
      Placeholder.occursIn item.source = true ∧ ∃ rest, item.place = place ++ rest ∧
        d.HasAt item rest := by
  induction d using childInduction generalizing place with
  | h d ih =>
      rw [mem_pendingAt_step hd]
      constructor
      · rintro (⟨s, rfl, hs, rfl⟩ | ⟨step, c, hc, ⟨key, rfl, hkey, rfl⟩ | hmem⟩)
        · exact ⟨hs, [], by simp, hasAt_nil.mpr ⟨rfl, rfl⟩⟩
        · exact ⟨hkey, [.key key], rfl, hasAt_cons.mpr ⟨c, hc, .inl ⟨rfl, rfl, rfl⟩⟩⟩
        · obtain ⟨hs, rest, hplace, hat⟩ := (ih step c hc (hd.child? hc)).mp hmem
          exact ⟨hs, step :: rest, by simp [hplace], hasAt_cons.mpr ⟨c, hc, .inr hat⟩⟩
      · obtain ⟨itemPlace, source, isKey⟩ := item
        rintro ⟨hs, rest, hplace, hat⟩
        dsimp only at hs hplace
        subst hplace
        cases rest with
        | nil =>
            obtain ⟨rfl, rfl⟩ := hasAt_nil.mp hat
            exact .inl ⟨source, rfl, hs, by simp⟩
        | cons step rest =>
            obtain ⟨c, hc, ⟨hkey, hstep, hrest⟩ | hat⟩ := hasAt_cons.mp hat
            · dsimp only at hkey hstep
              subst hkey hstep hrest
              exact .inr ⟨_, c, hc, .inl ⟨source, rfl, hs, rfl⟩⟩
            · exact .inr ⟨step, c, hc, .inr
                ((ih step c hc (hd.child? hc)).mpr ⟨hs, rest, by simp, hat⟩)⟩

/-- A text with a placeholder is pending at its place. -/
theorem mem_pendingAt_of_at? {s : String} (hd : d.Ordered) (hs : Placeholder.occursIn s = true)
    (h : d.at? place = some (.str s)) : (⟨place, s, false⟩ : Pending) ∈ d.pendingAt [] :=
  (mem_pendingAt_iff hd).mpr ⟨hs, place, rfl, .inl ⟨rfl, h⟩⟩

theorem at?_of_mem_pendingAt (hd : d.Ordered) (h : item ∈ d.pendingAt [])
    (hkey : item.isKey = false) : d.at? item.place = some (.str item.source) := by
  obtain ⟨-, rest, hplace, ⟨-, hat⟩ | ⟨hkey', -⟩⟩ := (mem_pendingAt_iff hd).mp h
  · rw [hplace]
    exact hat
  · rw [hkey] at hkey'
    cases hkey'

/-- No two texts are pending at one place. -/
theorem eq_of_place_eq {other : Pending} (hd : d.Ordered) (h : item ∈ d.pendingAt [])
    (hkey : item.isKey = false) (h' : other ∈ d.pendingAt []) (hkey' : other.isKey = false)
    (hplace : item.place = other.place) : item = other := by
  have hat := at?_of_mem_pendingAt hd h hkey
  rw [hplace, at?_of_mem_pendingAt hd h' hkey', Option.some.injEq, str.injEq] at hat
  cases item
  cases other
  simp_all

theorem prefix_of_mem_pendingAt (hd : d.Ordered) (h : item ∈ d.pendingAt place) :
    place <+: item.place := by
  obtain ⟨-, rest, hplace, -⟩ := (mem_pendingAt_iff hd).mp h
  exact ⟨rest, hplace.symm⟩

/-- Without placeholders, neither in texts nor in keys. -/
def Plain (d : Document) : Prop :=
  d.pendingAt [] = []

theorem Plain.not_hasAt (h : d.Plain) (hd : d.Ordered) (hat : d.HasAt item rest) :
    Placeholder.occursIn item.source = false := by
  apply Bool.eq_false_iff.mpr
  intro hs
  have hmem : ({ item with place := rest } : Pending) ∈ d.pendingAt [] :=
    (mem_pendingAt_iff hd).mpr ⟨hs, rest, rfl, hat⟩
  rw [h] at hmem
  cases hmem

theorem not_plain_of_at? {s : String} (hd : d.Ordered) (hs : Placeholder.occursIn s = true)
    (h : d.at? place = some (.str s)) : ¬ d.Plain := by
  intro hplain
  have hmem := mem_pendingAt_of_at? hd hs h
  rw [hplain] at hmem
  cases hmem

theorem plain_str {s : String} : (str s).Plain ↔ Placeholder.occursIn s = false := by
  simp [Plain, pendingAt]

theorem Plain.key {key : String} (h : (map fields).Plain) (hd : (map fields).Ordered)
    (hf : Keyed.find? key fields = some c) : Placeholder.occursIn key = false := by
  have hat : (map fields).HasAt ⟨[], key, true⟩ [.key key] :=
    hasAt_cons.mpr ⟨c, hf, .inl ⟨rfl, rfl, rfl⟩⟩
  have hsource := h.not_hasAt hd hat
  exact hsource

theorem Plain.child? (h : d.Plain) (hd : d.Ordered) (hc : d.child? step = some c) : c.Plain := by
  apply List.eq_nil_iff_forall_not_mem.mpr
  intro item hmem
  obtain ⟨hs, rest, -, hat⟩ := (mem_pendingAt_iff (hd.child? hc)).mp hmem
  rw [h.not_hasAt hd (hasAt_cons.mpr ⟨c, hc, .inr hat⟩)] at hs
  cases hs

/-- What stands below a place stands in the value there, a key that ends the place itself apart. -/
theorem HasAt.below (hp : d.at? place = some c) (h : d.HasAt item (place ++ rest)) :
    c.HasAt item rest ∨
      (item.isKey = true ∧ rest = [] ∧ ∃ parent, place = parent ++ [.key item.source]) := by
  rw [HasAt, at?_append, hp, Option.bind_some] at h
  rcases h with h | ⟨hkey, hsome, parent, hplace⟩
  · exact .inl (.inl h)
  · rcases List.eq_nil_or_concat' rest with rfl | ⟨front, last, rfl⟩
    · exact .inr ⟨hkey, rfl, parent, by simpa using hplace⟩
    · refine .inl (.inr ⟨hkey, hsome, front, ?_⟩)
      rw [← List.append_assoc] at hplace
      rw [(List.append_inj' hplace rfl).2]

/-- Nothing is pending at, below or above a value without placeholders that took the place of
another one, a key that was there before apart. -/
theorem HasAt.apart_of_plain {before : Document} (h : d.HasAt item own)
    (hs : Placeholder.occursIn item.source = true) (hc : d.at? place = some c)
    (hordered : c.Ordered) (hplain : c.Plain) (hbefore : (before.at? place).isSome) :
    Apart own place ∨ (item.isKey = true ∧ before.HasAt item own) := by
  rcases prefix_or_prefix_or_apart place own with ⟨rest, rfl⟩ | ⟨rest, rfl⟩ | hapart
  · rcases h.below hc with hbelow | ⟨hkey, rfl, hparent⟩
    · rw [hplain.not_hasAt hordered hbelow] at hs
      cases hs
    · rw [List.append_nil]
      exact .inr ⟨hkey, .inr ⟨hkey, hbefore, hparent⟩⟩
  · rcases h with ⟨-, htext⟩ | ⟨hkey, -, hparent⟩
    · cases rest with
      | nil =>
          -- the pending text itself stands where the value was written
          rw [List.append_nil, htext, Option.some.injEq] at hc
          subst hc
          rw [plain_str.mp hplain] at hs
          cases hs
      | cons step rest =>
          rw [at?_append_of_str htext] at hc
          cases hc
    · have habove : (before.at? own).isSome :=
        isSome_at?_of_isPrefix hbefore (List.prefix_append own rest)
      exact .inr ⟨hkey, .inr ⟨hkey, habove, hparent⟩⟩
  · exact .inl hapart.symm

/-- Nothing is pending at or below a place exactly when the document there is plain. -/
theorem pendingAt_eq_nil_iff (hd : d.Ordered) : d.pendingAt place = [] ↔ d.Plain := by
  simp only [Plain, List.eq_nil_iff_forall_not_mem, mem_pendingAt_iff hd]
  constructor
  · rintro h item ⟨hs, rest, -, hat⟩
    exact h { item with place := place ++ rest } ⟨hs, rest, rfl, hat⟩
  · rintro h item ⟨hs, rest, -, hat⟩
    exact h { item with place := rest } ⟨hs, rest, rfl, hat⟩

/-- The check for pending sources finds one other than one's own exactly when there is one. -/
theorem hasPending_eq_true_iff :
    d.hasPending own place = true ↔ ∃ item ∈ d.pendingAt place, item.place ≠ own := by
  induction d using memberInduction generalizing place with
  | str s =>
      rw [hasPending, pendingAt]
      cases Placeholder.occursIn s <;> simp
  | list items ih =>
      rw [hasPending, pendingAt]
      generalize (0 : Nat) = index
      induction items generalizing index with
      | nil => simp [hasPendingItems, pendingItems]
      | cons d rest ihrest =>
          obtain ⟨ihd, ih⟩ := List.forall_mem_cons.mp ih
          simp [hasPendingItems, pendingItems, ihd, ihrest ih, or_and_right, exists_or]
  | map fields ih =>
      rw [hasPending, pendingAt]
      induction fields with
      | nil => simp [hasPendingFields, pendingFields]
      | cons e rest ihrest =>
          obtain ⟨key, d⟩ := e
          obtain ⟨ihd, ih⟩ := List.forall_mem_cons.mp ih
          cases h : Placeholder.occursIn key <;>
            simp [hasPendingFields, pendingFields, h, ihd, ihrest ih, or_and_right, exists_or,
              or_assoc]
  | _ => simp [hasPending, pendingAt]

/-- Places that continue one place by different steps never coincide. -/
theorem step_eq_of_isPrefix {other : Step} {q : Place} (h : place ++ [step] <+: q)
    (h' : place ++ [other] <+: q) : step = other := by
  have := List.prefix_of_prefix_length_le h h' (by simp)
  simpa using this

theorem nodup_pendingItems (hitems : ∀ d ∈ items, d.Ordered)
    (h : ∀ d ∈ items, ∀ place, (d.pendingAt place).Nodup) :
    (pendingItems place index items).Nodup := by
  induction items generalizing index with
  | nil => exact List.nodup_nil
  | cons d rest ih =>
      obtain ⟨hd, hrest⟩ := List.forall_mem_cons.mp hitems
      obtain ⟨hfirst, hothers⟩ := List.forall_mem_cons.mp h
      apply List.nodup_append.mpr
      refine ⟨hfirst _, ih hrest hothers, ?_⟩
      intro a ha b hb heq
      obtain ⟨n, c, hc, hb⟩ := mem_pendingItems.mp (heq ▸ hb)
      have hstep := step_eq_of_isPrefix (prefix_of_mem_pendingAt hd ha)
        (prefix_of_mem_pendingAt (hrest c (List.mem_of_getElem? hc)) hb)
      rw [Step.index.injEq] at hstep
      omega

theorem nodup_pendingFields (hs : Keyed.Sorted fields) (hfields : ∀ e ∈ fields, e.2.Ordered)
    (h : ∀ e ∈ fields, ∀ place, (e.2.pendingAt place).Nodup) :
    (pendingFields place fields).Nodup := by
  induction fields with
  | nil => exact List.nodup_nil
  | cons e rest ih =>
      obtain ⟨key, d⟩ := e
      obtain ⟨hlt, hs⟩ := Keyed.sorted_cons.mp hs
      obtain ⟨hd, hrest⟩ := List.forall_mem_cons.mp hfields
      obtain ⟨hfirst, hothers⟩ := List.forall_mem_cons.mp h
      have hkey : ∀ a, a ∈ (if Placeholder.occursIn key then
          [(⟨place ++ [.key key], key, true⟩ : Pending)] else []) →
          a = ⟨place ++ [.key key], key, true⟩ := by
        intro a ha
        split at ha
        · exact List.mem_singleton.mp ha
        · cases ha
      rw [pendingFields]
      refine List.nodup_append.mpr
        ⟨List.nodup_append.mpr ⟨?_, hfirst _, ?_⟩, ih hs hrest hothers, ?_⟩
      · split <;> simp
      · -- a key ends the place of its own entry, and a text inside stands at it or below
        intro a ha b hb heq
        subst heq
        rw [hkey a ha] at hb
        obtain ⟨-, rest, hplace, hat⟩ := (mem_pendingAt_iff hd).mp hb
        obtain rfl : rest = [] := by simpa using hplace
        cases (hasAt_nil.mp hat).1
      · intro a ha b hb heq
        subst heq
        have hhere : place ++ [.key key] <+: a.place := by
          rcases List.mem_append.mp ha with ha | ha
          · rw [hkey a ha]
          · exact prefix_of_mem_pendingAt hd ha
        obtain ⟨e, he, h⟩ := mem_pendingFields.mp hb
        have hthere : place ++ [.key e.1] <+: a.place := by
          rcases h with ⟨-, h⟩ | h
          · rw [h]
          · exact prefix_of_mem_pendingAt (hrest e he) h
        have hstep := step_eq_of_isPrefix hhere hthere
        rw [Step.key.injEq] at hstep
        exact (hlt e he).ne hstep

/-- No source is listed twice. -/
theorem nodup_pendingAt (hd : d.Ordered) : (d.pendingAt place).Nodup := by
  induction d using memberInduction generalizing place with
  | str s =>
      rw [pendingAt]
      split <;> simp
  | list items ih =>
      have hitems := ordered_list_iff.mp hd
      rw [pendingAt]
      exact nodup_pendingItems hitems fun c hc place => ih c hc (hitems c hc)
  | map fields ih =>
      obtain ⟨hs, hfields⟩ := ordered_map_iff.mp hd
      rw [pendingAt]
      exact nodup_pendingFields hs hfields fun e he place => ih e he (hfields e he)
  | _ => exact List.nodup_nil

end Document

end ExperimentSuite
