import ExperimentSuite.Placeholder.Pending
import ExperimentSuite.Proofs.Document.Path

/-!
# Reading and writing at places

A place leads through lists as well as mappings. One step is either a key of a
mapping or a position in a list, and reading or writing the child under a step
is all that distinguishes the two; everything about longer places is an
induction over their steps.
-/

namespace ExperimentSuite

namespace Document

open KeyPath

variable {d d' c c' v w : Document} {step other : Step} {p q place rest : Place}
  {f : Document → Option Document} {items : List Document} {fields : List (String × Document)}

/-- The value one step into a document. -/
def child? : Document → Step → Option Document
  | .map fields, .key name => Keyed.find? name fields
  | .list items, .index n => items[n]?
  | _, _ => none

/-- The document with another value one step into it. -/
def withChild : Document → Step → Document → Document
  | .map fields, .key name, child => .map (Keyed.insert name child fields)
  | .list items, .index n, child => .list (items.set n child)
  | d, _, _ => d

@[simp] theorem at?_nil (d : Document) : d.at? [] = some d := by
  cases d <;> rfl

theorem at?_cons (d : Document) (step : Step) (rest : Place) :
    d.at? (step :: rest) = (d.child? step).bind (at? · rest) := by
  cases d <;> cases step <;> rfl

theorem at?_append (d : Document) (p q : Place) : d.at? (p ++ q) = (d.at? p).bind (at? · q) := by
  induction p generalizing d with
  | nil => simp
  | cons step rest ih =>
      rw [List.cons_append, at?_cons, at?_cons]
      cases d.child? step with
      | none => rfl
      | some c => exact ih c

theorem at?_singleton (d : Document) (step : Step) : d.at? [step] = d.child? step := by
  rw [at?_cons]
  simp

theorem isSome_at?_of_isPrefix (h : (d.at? q).isSome) (hp : p <+: q) : (d.at? p).isSome := by
  obtain ⟨rest, rfl⟩ := hp
  rw [at?_append] at h
  cases hd : d.at? p with
  | none => simp [hd] at h
  | some _ => rfl

/-- Along keys alone a place is a key path. -/
theorem at?_map_key (d : Document) (path : KeyPath) : d.at? (path.map Step.key) = d.get? path := by
  induction path generalizing d with
  | nil => rw [List.map_nil, at?_nil, get?_nil]
  | cons key rest ih =>
      rw [List.map_cons, at?_cons]
      cases d with
      | map fields =>
          rw [get?_map_cons, child?]
          cases Keyed.find? key fields with
          | none => rfl
          | some c => exact ih c
      | _ => rfl

/-- A change below a step changes the child under it. -/
theorem modifyAt?_cons_eq_some :
    modifyAt? f d (step :: rest) = some d' ↔
      ∃ c c', d.child? step = some c ∧ modifyAt? f c rest = some c' ∧ d' = d.withChild step c' := by
  cases d with
  | map fields =>
      cases step with
      | key name => simp [modifyAt?, child?, withChild, Option.bind_eq_some_iff, @eq_comm _ d']
      | index n => simp [modifyAt?, child?]
  | list items =>
      cases step with
      | key name => simp [modifyAt?, child?]
      | index n => simp [modifyAt?, child?, withChild, Option.bind_eq_some_iff, @eq_comm _ d']
  | _ => simp [modifyAt?, child?]

@[simp] theorem modifyAt?_nil (f : Document → Option Document) (d : Document) :
    modifyAt? f d [] = f d := by
  cases d <;> rfl

theorem child?_withChild_self (h : d.child? step = some c) :
    (d.withChild step c').child? step = some c' := by
  cases d with
  | map fields =>
      cases step with
      | key name => simp [withChild, child?]
      | index n => cases h
  | list items =>
      cases step with
      | key name => cases h
      | index n =>
          obtain ⟨hn, -⟩ := List.getElem?_eq_some_iff.mp h
          simp [withChild, child?, hn]
  | _ => cases h

theorem child?_withChild_of_ne (h : step ≠ other) :
    (d.withChild step c).child? other = d.child? other := by
  cases d with
  | map fields =>
      cases step with
      | key name =>
          cases other with
          | key name' => exact Keyed.find?_insert_of_ne fun heq => h (congrArg Step.key heq)
          | index n => rfl
      | index n => rfl
  | list items =>
      cases step with
      | key name => rfl
      | index n =>
          cases other with
          | key name => rfl
          | index m => exact List.getElem?_set_ne fun heq => h (congrArg Step.index heq)
  | _ => rfl

theorem Ordered.child? (hd : d.Ordered) (h : d.child? step = some c) : c.Ordered := by
  cases d with
  | map fields =>
      cases step with
      | key name => exact hd.find? h
      | index n => cases h
  | list items =>
      cases step with
      | key name => cases h
      | index n => exact ordered_list_iff.mp hd c (List.mem_of_getElem? h)
  | _ => cases h

theorem Ordered.withChild (hd : d.Ordered) (hc : c.Ordered) : (d.withChild step c).Ordered := by
  cases d with
  | map fields =>
      cases step with
      | key name => exact hd.insert hc
      | index n => exact hd
  | list items =>
      cases step with
      | key name => exact hd
      | index n =>
          apply ordered_list_iff.mpr
          intro item hitem
          rcases List.mem_or_eq_of_mem_set hitem with hmem | heq
          · exact ordered_list_iff.mp hd item hmem
          · rw [heq]; exact hc
  | _ => exact hd

theorem Ordered.at? (hd : d.Ordered) (h : d.at? place = some c) : c.Ordered := by
  induction place generalizing d with
  | nil => rw [at?_nil] at h; cases h; exact hd
  | cons step rest ih =>
      rw [at?_cons, Option.bind_eq_some_iff] at h
      obtain ⟨child, hchild, hc⟩ := h
      exact ih (hd.child? hchild) hc

theorem Ordered.modifyAt? (hd : d.Ordered) (h : modifyAt? f d place = some d')
    (hf : ∀ c c', c.Ordered → f c = some c' → c'.Ordered) : d'.Ordered := by
  induction place generalizing d d' with
  | nil => rw [modifyAt?_nil] at h; exact hf d d' hd h
  | cons step rest ih =>
      obtain ⟨c, c', hc, hc', rfl⟩ := modifyAt?_cons_eq_some.mp h
      exact hd.withChild (ih (hd.child? hc) hc')

theorem Ordered.putAt? (hd : d.Ordered) (hv : v.Ordered) (h : d.putAt? place v = some d') :
    d'.Ordered :=
  hd.modifyAt? h fun _ _ _ heq => Option.some.inj heq ▸ hv

/-- A write succeeds at a place that exists. -/
theorem exists_putAt? (v : Document) (h : d.at? place = some c) :
    ∃ d', d.putAt? place v = some d' := by
  induction place generalizing d with
  | nil => exact ⟨v, modifyAt?_nil _ _⟩
  | cons step rest ih =>
      rw [at?_cons, Option.bind_eq_some_iff] at h
      obtain ⟨child, hchild, hc⟩ := h
      obtain ⟨child', hchild'⟩ := ih hc
      exact ⟨_, modifyAt?_cons_eq_some.mpr ⟨child, child', hchild, hchild', rfl⟩⟩

/-- What is written is read back. -/
theorem at?_putAt?_self (h : d.putAt? place v = some d') : d'.at? place = some v := by
  induction place generalizing d d' with
  | nil => rw [putAt?, modifyAt?_nil] at h; cases h; exact at?_nil v
  | cons step rest ih =>
      obtain ⟨c, c', hc, hc', rfl⟩ := modifyAt?_cons_eq_some.mp h
      rw [at?_cons, child?_withChild_self hc]
      exact ih hc'

/-- A change is not seen from a place apart. -/
theorem at?_modifyAt?_of_apart (h : modifyAt? f d place = some d') (hp : Apart p place) :
    d'.at? p = d.at? p := by
  induction place generalizing d d' p with
  | nil => exact absurd hp.symm not_apart_nil
  | cons step rest ih =>
      obtain ⟨c, c', hc, hc', rfl⟩ := modifyAt?_cons_eq_some.mp h
      cases p with
      | nil => exact absurd hp not_apart_nil
      | cons other p =>
          rw [at?_cons, at?_cons]
          by_cases heq : step = other
          · subst heq
            rw [child?_withChild_self hc, hc]
            exact ih hc' (apart_cons.mp hp)
          · rw [child?_withChild_of_ne heq]

/-- Above its place a change is one of a child. -/
theorem at?_modifyAt?_above (h : modifyAt? f d (p ++ step :: rest) = some d')
    (hp : d.at? p = some c) :
    ∃ old new, c.child? step = some old ∧ d'.at? p = some (c.withChild step new) := by
  induction p generalizing d d' with
  | nil =>
      rw [at?_nil, Option.some.injEq] at hp
      subst hp
      obtain ⟨old, new, hold, -, rfl⟩ := modifyAt?_cons_eq_some.mp h
      exact ⟨old, new, hold, at?_nil _⟩
  | cons first p ih =>
      rw [List.cons_append] at h
      obtain ⟨child, child', hchild, hbelow, rfl⟩ := modifyAt?_cons_eq_some.mp h
      rw [at?_cons, hchild, Option.bind_some] at hp
      obtain ⟨old, new, hold, hnew⟩ := ih hbelow hp
      refine ⟨old, new, hold, ?_⟩
      rw [at?_cons, child?_withChild_self hchild]
      exact hnew

/-- Nothing lies below a text. -/
theorem at?_append_of_str {s : String} (h : d.at? p = some (.str s)) :
    d.at? (p ++ step :: rest) = none := by
  rw [at?_append, h, Option.bind_some, at?_cons]
  cases step <;> rfl

/-- Two texts at different places stand apart. -/
theorem apart_of_texts {s t : String} (hp : d.at? p = some (.str s))
    (hq : d.at? q = some (.str t)) (hne : p ≠ q) : Apart p q := by
  have hno : ∀ {p q : Place} {s t : String}, d.at? p = some (.str s) →
      d.at? q = some (.str t) → p ≠ q → ¬ p <+: q := by
    rintro p _ s t hp hq hne ⟨rest, rfl⟩
    cases rest with
    | nil => exact hne (List.append_nil p).symm
    | cons step rest =>
        rw [at?_append_of_str hp] at hq
        cases hq
  exact ⟨hno hp hq hne, hno hq hp hne.symm⟩

end Document

end ExperimentSuite
