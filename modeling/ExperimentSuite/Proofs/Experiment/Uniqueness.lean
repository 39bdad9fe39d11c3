import ExperimentSuite.Proofs.Experiment.Identifiers
import ExperimentSuite.Proofs.Text.Utf8
import Mathlib.Data.List.Dedup

/-!
# Which names are reported

Once every name keeps to its rules, the check depends on nothing but how often
each name occurs among the project, the suite, the experiments, the host types
taken once, and the reserved names. It passes exactly if none of them occurs
twice, and else it reports those that do, in the order of their bytes. So
neither the order of the experiments nor the order or repetition of the host
types matters, and a part of a suite passes whenever the whole suite does.
-/

namespace ExperimentSuite

namespace Identifiers

variable {ids other part : Identifiers} {names others : List String} {name : String}

/-- The names that have to differ from each other: the project, the suite, the experiments as often
as they are given, each host type once, and the reserved names. -/
def collection (ids : Identifiers) : List String :=
  ids.project :: ids.suite ::
    (ids.experiments ++ ids.hostTypes.dedup ++ Vocabulary.reservedIdentifiers)

theorem perm_distinctHosts (ids : Identifiers) : ids.distinctHosts.Perm ids.hostTypes.dedup := by
  refine (List.perm_ext_iff_of_nodup ?_ (List.nodup_dedup _)).mpr fun name => ?_
  · exact (Ascending.pairwise_ofList ids.hostTypes).nodup
  · rw [distinctHosts, Ascending.mem_ofList, List.mem_dedup]

theorem perm_all (ids : Identifiers) : ids.all.Perm ids.collection := by
  have hhosts := (perm_distinctHosts ids).append_left ids.experiments
  exact ((hhosts.append_right Vocabulary.reservedIdentifiers).cons _).cons _

theorem mem_repeated : name ∈ repeated names ↔ 1 < names.count name := by
  rw [repeated, Ascending.mem_ofList, List.mem_filter, decide_eq_true_eq]
  exact ⟨And.right, fun h => ⟨List.count_pos_iff.mp (by omega), h⟩⟩

/-- The repeated names of a list do not depend on its order. -/
theorem repeated_eq_of_perm (h : names.Perm others) : repeated names = repeated others := by
  refine (Ascending.ofList_eq_of_pairwise (Ascending.pairwise_ofList _) fun name => ?_).symm
  change name ∈ repeated names ↔ _
  rw [mem_repeated, h.count_eq, List.mem_filter, decide_eq_true_eq]
  exact ⟨fun hname => ⟨List.count_pos_iff.mp (by omega), hname⟩, And.right⟩

/-- Names whose length and characters are allowed. -/
structure Legal (ids : Identifiers) : Prop where
  project : checkLength "prj_id" ids.project = .ok ()
  suite : checkLength "suite" ids.suite = .ok ()
  names : ∀ name ∈ ids.experiments ++ ids.hostTypes, checkName name = .ok ()

/-- Of legal names the check reports those that occur more than once in the collection. -/
theorem Legal.check_eq (h : ids.Legal) :
    ids.check =
      match repeated ids.collection with
      | [] => .ok ()
      | names => .error (.duplicates names) := by
  have hnames : checkNames (ids.experiments ++ ids.distinctHosts) = .ok () := by
    refine checkNames_eq_ok.mpr fun name hname => h.names name ?_
    simpa [distinctHosts, Ascending.mem_ofList] using hname
  rw [check, h.project, h.suite, hnames, repeated_eq_of_perm (perm_all ids)]
  cases repeated ids.collection <;> rfl

/-- The same names, but the experiments in another order and the host types in another order or
another number. -/
structure Rearranges (other ids : Identifiers) : Prop where
  project : other.project = ids.project
  suite : other.suite = ids.suite
  experiments : other.experiments.Perm ids.experiments
  hostTypes : ∀ name, name ∈ other.hostTypes ↔ name ∈ ids.hostTypes

theorem Rearranges.perm_collection (h : Rearranges other ids) :
    other.collection.Perm ids.collection := by
  have hhosts : other.hostTypes.dedup.Perm ids.hostTypes.dedup := by
    refine (List.perm_ext_iff_of_nodup (List.nodup_dedup _) (List.nodup_dedup _)).mpr fun name => ?_
    rw [List.mem_dedup, List.mem_dedup, h.hostTypes]
  rw [collection, collection, h.project, h.suite]
  exact (((h.experiments.append hhosts).append_right _).cons _).cons _

theorem Rearranges.legal (h : Rearranges other ids) (hids : ids.Legal) : other.Legal where
  project := h.project ▸ hids.project
  suite := h.suite ▸ hids.suite
  names name hname := by
    apply hids.names
    rwa [List.mem_append, h.experiments.mem_iff, h.hostTypes, ← List.mem_append] at hname

/-- The same project and suite with some of the experiments and of the host types. -/
structure PartOf (part ids : Identifiers) : Prop where
  project : part.project = ids.project
  suite : part.suite = ids.suite
  experiments : part.experiments.Sublist ids.experiments
  hostTypes : part.hostTypes ⊆ ids.hostTypes

/-- Of legal names the check passes exactly if they differ from each other, and else it reports
exactly those that occur more than once, in the order of their bytes. The outcome is the same for
the same names in another arrangement, and a part of names that pass passes. -/
theorem check_exact (h : ids.Legal) :
    (ids.check = .ok () ↔ ids.collection.Nodup) ∧
      (¬ ids.collection.Nodup → ∃ names, ids.check = .error (.duplicates names) ∧
        names.Pairwise (fun a b => Text.bytes a < Text.bytes b) ∧
        ∀ name, name ∈ names ↔ 1 < ids.collection.count name) ∧
      (∀ other : Identifiers, Rearranges other ids → other.check = ids.check) ∧
      ∀ part : Identifiers, PartOf part ids → ids.check = .ok () → part.check = .ok () := by
  refine ⟨?passes, ?reports, fun other hother => ?rearranged, fun part hpart hids => ?part⟩
  case passes =>
    rw [h.check_eq, ← repeated_eq_nil_iff]
    cases repeated ids.collection <;> simp
  case reports =>
    intro hnot
    refine ⟨repeated ids.collection, ?_, ?_, fun name => mem_repeated⟩
    · rw [h.check_eq]
      cases hrepeated : repeated ids.collection with
      | nil => exact absurd (repeated_eq_nil_iff.mp hrepeated) hnot
      | cons name rest => rfl
    · exact (Ascending.pairwise_ofList _).imp Text.bytes_lt_iff.mpr
  case rearranged =>
    rw [h.check_eq, (hother.legal h).check_eq, repeated_eq_of_perm hother.perm_collection]
  case part =>
    have hdistinct := check_eq_ok.mp hids
    exact check_eq_ok.mpr (hdistinct.inherited hpart.project hpart.suite hpart.experiments
      hpart.hostTypes)

/-- A project and a suite of one name, an experiment that is given twice, one that is called like a
host type, and a host type that is called like a reserved name. -/
def clashingNames : Identifiers where
  project := "é"
  suite := "é"
  experiments := ["size", "client", "size"]
  hostTypes := ["client", "server", "client", "all"]

/-- The names of each clash are reported once and in order, however the names are arranged. -/
theorem check_clashingNames :
    clashingNames.Legal ∧
      clashingNames.check = .error (.duplicates ["all", "client", "size", "é"]) ∧
      ["all", "client", "size", "é"].Pairwise (fun a b => Text.bytes a < Text.bytes b) ∧
      Identifiers.check { clashingNames with
        experiments := ["size", "size", "client"], hostTypes := ["server", "all", "client"] } =
          .error (.duplicates ["all", "client", "size", "é"]) := by
  have hlegal : clashingNames.Legal := by
    refine ⟨rfl, rfl, ?_⟩
    simp only [clashingNames, List.cons_append, List.nil_append, List.forall_mem_cons]
    exact ⟨rfl, rfl, rfl, rfl, rfl, rfl, rfl, List.forall_mem_nil _⟩
  have hcheck : clashingNames.check = .error (.duplicates ["all", "client", "size", "é"]) := rfl
  obtain ⟨hpasses, hreports, hrearranged, -⟩ := check_exact hlegal
  have hnot : ¬ clashingNames.collection.Nodup := fun hnodup => by
    cases hcheck.symm.trans (hpasses.mpr hnodup)
  obtain ⟨names, hnames, hordered, -⟩ := hreports hnot
  cases hcheck.symm.trans hnames
  have hother : Rearranges { clashingNames with
      experiments := ["size", "size", "client"], hostTypes := ["server", "all", "client"] }
      clashingNames := by
    refine ⟨rfl, rfl, (List.Perm.swap ..).cons _, fun name => ?_⟩
    simp only [clashingNames, List.mem_cons, List.not_mem_nil, or_false]
    tauto
  exact ⟨hlegal, hcheck, hordered, (hrearranged _ hother).trans hcheck⟩

end Identifiers

end ExperimentSuite
