import ExperimentSuite.Experiment.Command
import ExperimentSuite.Experiment.Shape
import ExperimentSuite.Proofs.Outcome

/-!
# Commands in normal form

A command is in normal form if it is written as a mapping. Normalising yields
one such command for every instance and leaves a list of them as it is, so that
normalising what has been normalised changes nothing.
-/

namespace ExperimentSuite

namespace Command

variable {place hostType : String} {index n : Nat} {d normal commands : Document}
  {items normals : List Document}

/-- A command that is written as a mapping. -/
def IsNormal (d : Document) : Prop :=
  d.isMap = true ∧ Shape.isCommand d = true

theorem normalizeEntry_map {fields : List (String × Document)} :
    normalizeEntry place (.map fields) = .ok normal ↔
      Shape.isCommand (.map fields) = true ∧ normal = .map fields := by
  have htext : (fields.find? fun f => f.2.str?.isNone) = none ↔
      fields.all (fun f => Shape.isText f.2) = true := by
    simp [Shape.isText, Option.isSome_iff_ne_none]
  rw [normalizeEntry, Shape.isCommand, Bool.and_eq_true, ← htext]
  cases hmain : Keyed.hasKey Vocabulary.mainCommand fields with
  | false => simp
  | true =>
      cases fields.find? fun f => f.2.str?.isNone with
      | none => simp [eq_comm]
      | some f => simp

theorem isNormal_of_normalizeEntry (h : normalizeEntry place d = .ok normal) :
    IsNormal normal := by
  cases d with
  | str main =>
      cases h
      exact ⟨rfl, rfl⟩
  | map fields =>
      obtain ⟨hcommand, rfl⟩ := normalizeEntry_map.mp h
      exact ⟨rfl, hcommand⟩
  | _ => cases h

theorem normalizeEntry_eq_self (h : IsNormal d) : normalizeEntry place d = .ok d := by
  obtain ⟨hmap, hcommand⟩ := h
  cases d with
  | map fields => exact normalizeEntry_map.mpr ⟨hcommand, rfl⟩
  | _ => cases hmap

theorem isNormal_of_normalizeFrom (h : normalizeFrom place index items = .ok normals) :
    normals.length = items.length ∧ ∀ d ∈ normals, IsNormal d := by
  induction items generalizing index normals with
  | nil =>
      cases h
      simp
  | cons d rest ih =>
      rw [normalizeFrom, Outcome.bind_eq_ok] at h
      obtain ⟨first, hfirst, h⟩ := h
      obtain ⟨others, hothers, h⟩ := Outcome.bind_eq_ok.mp h
      cases h
      obtain ⟨hlength, hnormal⟩ := ih hothers
      refine ⟨by simp [hlength], List.forall_mem_cons.mpr ⟨?_, hnormal⟩⟩
      exact isNormal_of_normalizeEntry hfirst

theorem normalizeFrom_eq_self (h : ∀ d ∈ items, IsNormal d) :
    normalizeFrom place index items = .ok items := by
  induction items generalizing index with
  | nil => rfl
  | cons d rest ih =>
      obtain ⟨hd, hrest⟩ := List.forall_mem_cons.mp h
      rw [normalizeFrom, normalizeEntry_eq_self hd, ih hrest]
      rfl

/-- Normalising yields one command in normal form for every instance. -/
theorem isNormal_of_normalize (h : normalize hostType n commands = .ok normals) :
    n ≤ Vocabulary.maxHostInstances ∧ normals.length = n ∧ ∀ d ∈ normals, IsNormal d := by
  rw [normalize.eq_def] at h
  split at h
  · cases h
  next hlimit =>
  refine ⟨by omega, ?_⟩
  split at h
  · next entries =>
      split at h
      · cases h
      next hcount =>
      obtain ⟨hlength, hnormal⟩ := isNormal_of_normalizeFrom h
      exact ⟨hlength.trans (not_not.mp hcount), hnormal⟩
  · obtain ⟨hlength, hnormal⟩ := isNormal_of_normalizeFrom h
    exact ⟨by simpa using hlength, hnormal⟩

/-- Commands in normal form, one for every instance, stay as they are. -/
theorem normalize_eq_self (hlimit : items.length ≤ Vocabulary.maxHostInstances)
    (h : ∀ d ∈ items, IsNormal d) : normalize hostType items.length (.list items) = .ok items := by
  rw [normalize, if_neg (by omega), if_neg (by simp), normalizeFrom_eq_self h]

end Command

end ExperimentSuite
