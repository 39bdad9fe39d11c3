import ExperimentSuite.Experiment.Identifiers
import ExperimentSuite.Proofs.Keyed
import Mathlib.Data.List.Sort

/-!
# Which names pass the check

The check of the names of a suite passes exactly if every name keeps to its
rules and no name stands for two things. Both are properties of the names that
are there, so that a part of a suite passes whenever the whole suite does.
-/

namespace ExperimentSuite

namespace Identifiers

variable {ids part : Identifiers} {names : List String}

theorem checkNames_eq_ok :
    checkNames names = .ok () ↔ ∀ name ∈ names, checkName name = .ok () := by
  induction names with
  | nil => simp [checkNames]
  | cons name rest ih =>
      rw [checkNames, Outcome.bind_eq_ok, List.forall_mem_cons, ← ih]
      constructor
      · rintro ⟨⟨⟩, hname, hrest⟩
        exact ⟨hname, hrest⟩
      · rintro ⟨hname, hrest⟩
        exact ⟨(), hname, hrest⟩

theorem repeated_eq_nil_iff : repeated names = [] ↔ names.Nodup := by
  rw [repeated, Ascending.ofList_eq_nil_iff, List.filter_eq_nil_iff, List.nodup_iff_count_le_one]
  constructor
  · intro h name
    by_cases hname : name ∈ names
    · simpa using h name hname
    · simp [List.count_eq_zero_of_not_mem hname]
  · intro h name _
    simpa using h name

/-- Names that keep to their rules and are different from each other. -/
structure Distinct (ids : Identifiers) : Prop where
  project : checkLength "prj_id" ids.project = .ok ()
  suite : checkLength "suite" ids.suite = .ok ()
  names : ∀ name ∈ ids.experiments ++ ids.distinctHosts, checkName name = .ok ()
  nodup : ids.all.Nodup

/-- The check passes exactly for such names. -/
theorem check_eq_ok : ids.check = .ok () ↔ ids.Distinct := by
  simp only [check, Outcome.bind_eq_ok]
  constructor
  · rintro ⟨⟨⟩, hproject, ⟨⟩, hsuite, ⟨⟩, hnames, h⟩
    split at h
    · next hnone =>
        exact ⟨hproject, hsuite, checkNames_eq_ok.mp hnames, repeated_eq_nil_iff.mp hnone⟩
    · cases h
  · rintro ⟨hproject, hsuite, hnames, hnodup⟩
    refine ⟨(), hproject, (), hsuite, (), checkNames_eq_ok.mpr hnames, ?_⟩
    rw [repeated_eq_nil_iff.mpr hnodup]
    rfl

theorem distinctHosts_sublist (h : part.hostTypes ⊆ ids.hostTypes) :
    part.distinctHosts.Sublist ids.distinctHosts := by
  have hsubset : part.distinctHosts ⊆ ids.distinctHosts := fun _ hname =>
    Ascending.mem_ofList.mpr (h (Ascending.mem_ofList.mp hname))
  have hpart := Ascending.pairwise_ofList part.hostTypes
  have hids := Ascending.pairwise_ofList ids.hostTypes
  exact List.sublist_of_subperm_of_pairwise (List.subperm_of_subset hpart.nodup hsubset) hpart hids

/-- A part of such names is one of such names. -/
theorem Distinct.inherited (h : ids.Distinct) (hproject : part.project = ids.project)
    (hsuite : part.suite = ids.suite) (hexperiments : part.experiments.Sublist ids.experiments)
    (hhosts : part.hostTypes ⊆ ids.hostTypes) : part.Distinct where
  project := hproject ▸ h.project
  suite := hsuite ▸ h.suite
  names name hname :=
    h.names name ((hexperiments.append (distinctHosts_sublist hhosts)).subset hname)
  nodup := by
    have hnames := hexperiments.append (distinctHosts_sublist hhosts)
    have hall : part.all.Sublist ids.all := by
      rw [all, all, hproject, hsuite]
      exact ((hnames.cons_cons _).cons_cons _).append_right _
    exact h.nodup.sublist hall

end Identifiers

end ExperimentSuite
