import ExperimentSuite.Proofs.Experiment.Reading

/-!
# How the two checks of an experiment agree

An experiment is checked against the rules of its shape and once more while its
fields are read. What passes the first check can be read except for its counts:
the rules take a float without a fraction for a whole number and do not bound
the repetitions from above, while a count that is read is an integer of 32 bits.
The main statement says that the two checks agree on an experiment exactly if
this difference does not show in it.
-/

namespace ExperimentSuite

open Outcome

namespace Record

variable {α β : Type} {key : String} {place : List String} {most : Option Nat} {d : Document}
  {fields : List (String × Document)} {read : Reader α} {p q : Prop}

/-- A count that can be read if it is one at all: it is missing, or an integer that is not too
large. -/
def Fits (found : Option Document) : Prop :=
  ∀ d ∈ found, ∃ n : Int, d = .int n ∧ n ≤ maxCount

/-- What can be wrong with a count that the rules of the shape let pass. -/
inductive CountProblem : RecordProblem → Prop where
  | float {x : FiniteFloat} (h : x.isWhole = true) :
      CountProblem (.wrongType (.num (.float x)) "u32")
  | large {n : Int} (h : maxCount < n) : CountProblem (.countOutOfRange n)

/-- A reading that succeeds exactly under a condition and fails on nothing but a count. -/
structure ReadsIff (x : Except RecordProblem α) (p : Prop) : Prop where
  exists_iff : (∃ a, x = .ok a) ↔ p
  fails : FailsOnly CountProblem x

section ReadsIff

variable {x : Except RecordProblem α}

theorem ReadsIff.congr (h : ReadsIff x p) (hpq : p ↔ q) : ReadsIff x q :=
  ⟨h.exists_iff.trans hpq, h.fails⟩

theorem readsIff_of_exists (h : ∃ a, x = .ok a) : ReadsIff x True := by
  obtain ⟨a, rfl⟩ := h
  exact ⟨by simp, failsOnly_ok a⟩

/-- One reading after another succeeds under both conditions. -/
theorem ReadsIff.bind {f : α → Except RecordProblem β} (hx : ReadsIff x p)
    (hf : ∀ a, ReadsIff (f a) q) : ReadsIff (x >>= f) (p ∧ q) where
  exists_iff := by
    simp only [bind_eq_ok]
    constructor
    · rintro ⟨b, a, ha, hb⟩
      exact ⟨hx.exists_iff.mp ⟨a, ha⟩, (hf a).exists_iff.mp ⟨b, hb⟩⟩
    · rintro ⟨hp, hq⟩
      obtain ⟨a, ha⟩ := hx.exists_iff.mpr hp
      obtain ⟨b, hb⟩ := (hf a).exists_iff.mpr hq
      exact ⟨b, a, ha, hb⟩
  fails := hx.fails.bind fun a => (hf a).fails

end ReadsIff

theorem readsIff_count (h : Shape.count most place d = []) :
    ReadsIff (count d) (∃ n : Int, d = .int n ∧ n ≤ maxCount) := by
  obtain ⟨number, rfl⟩ := Shape.exists_num_of_count h
  cases number with
  | int n =>
      obtain ⟨hleast, -⟩ := Shape.count_int_eq_nil_iff.mp h
      rw [count]
      split
      · next hlimit => exact ⟨by simp [Document.int, hlimit.2], failsOnly_ok _⟩
      · next hlimit =>
          have hlarge : maxCount < n := by omega
          exact ⟨by simp [Document.int, hlarge], failsOnly_error (.large hlarge)⟩
  | float x =>
      exact ⟨by simp [count, Document.int], failsOnly_error (.float (Shape.isWhole_of_count h))⟩

theorem readsIff_required (hd : Keyed.find? key fields = some d) (h : ReadsIff (read d) p) :
    ReadsIff (required key read fields) p := by
  rw [required, hd]
  exact h

theorem readsIff_optional {p : Document → Prop} {default : α}
    (h : ∀ d, Keyed.find? key fields = some d → ReadsIff (read d) (p d)) :
    ReadsIff (optional key read default fields) (∀ d ∈ Keyed.find? key fields, p d) := by
  rw [optional]
  cases hfound : Keyed.find? key fields with
  | none => exact (readsIff_of_exists ⟨default, rfl⟩).congr (by simp)
  | some d => exact (h d hfound).congr (by simp)

/-- A field that can be read if it is there. -/
theorem readsIff_optional_of_exists {default : α}
    (h : ∀ d, Keyed.find? key fields = some d → ∃ a, read d = .ok a) :
    ReadsIff (optional key read default fields) True :=
  (readsIff_optional fun d hd => readsIff_of_exists (h d hd)).congr (by simp)

/-- A mapping can be read under the conditions of all its values. -/
theorem readsIff_mapping {p : Document → Prop}
    (h : ∀ e ∈ fields, ReadsIff (read e.2) (p e.2)) :
    ReadsIff (mapping read (.map fields)) (∀ e ∈ fields, p e.2) := by
  simp only [mapping]
  induction fields with
  | nil => exact (readsIff_of_exists ⟨[], rfl⟩).congr (by simp)
  | cons e rest ih =>
      obtain ⟨he, hrest⟩ := List.forall_mem_cons.mp h
      have hentry := he.bind fun a => readsIff_of_exists ⟨(e.1, a), rfl⟩
      have hentries := hentry.bind fun first =>
        (ih hrest).bind fun others => readsIff_of_exists ⟨first :: others, rfl⟩
      rw [List.mapM_cons]
      exact hentries.congr (by simp)

end Record

open Record

/-- A host type that passes its check can be read exactly if its count fits. -/
theorem HostType.readsIff {place : List String} {d : Document}
    (h : Shape.hostType place d = []) : ReadsIff (read d) (Fits (d.field? "n")) := by
  obtain ⟨fields, rfl, -⟩ := Shape.record_eq_nil_iff.mp h
  obtain ⟨commands, hcommands⟩ := Shape.exists_field? h (List.mem_singleton_self _)
  have hnames : ReadsIff (checkNames fieldNames fields) True :=
    readsIff_of_exists ⟨(), checkNames_of_record h (by simp [fieldNames])⟩
  have hmain : ReadsIff (required Vocabulary.command .ok fields) True :=
    readsIff_required hcommands (readsIff_of_exists ⟨commands, rfl⟩)
  have hstatus : ReadsIff (optional "check_status" flag true fields) True :=
    readsIff_optional_of_exists fun d hd => exists_flag (Shape.check_of_field? h rfl hd)
  have hroles : ReadsIff (optional "init_roles" roles [] fields) True :=
    readsIff_optional_of_exists fun d hd => exists_roles (Shape.check_of_field? h rfl hd)
  have hcount : ReadsIff (optional "n" count 1 fields) (Fits (Keyed.find? "n" fields)) :=
    readsIff_optional fun d hd => readsIff_count (Shape.check_of_field? h rfl hd)
  have hall := hnames.bind fun _ => hmain.bind fun commands => hstatus.bind fun checkStatus =>
    hroles.bind fun initRoles => hcount.bind fun instances =>
      readsIff_of_exists ⟨HostType.mk instances checkStatus initRoles commands, rfl⟩
  exact hall.congr (by simp [Document.field?])

namespace Experiment

variable {raw : Document} {place : List String}

/-- Every count of an experiment fits. -/
structure CountsFit (raw : Document) : Prop where
  repetitions : Fits (raw.field? "n_repetitions")
  instances : ∀ hosts, raw.field? "host_types" = some (.map hosts) →
    ∀ host ∈ hosts, Fits (host.2.field? "n")

/-- An experiment that passes its check can be read exactly if its counts fit. -/
theorem readsIff (h : Shape.experiment place raw = []) : ReadsIff (read raw) (CountsFit raw) := by
  obtain ⟨fields, rfl, -⟩ := Shape.record_eq_nil_iff.mp h
  obtain ⟨configuration, hfound⟩ :=
    Shape.exists_field? h (List.mem_cons_of_mem _ (List.mem_singleton_self _))
  obtain ⟨_, hhosts⟩ := Shape.exists_field? h List.mem_cons_self
  obtain ⟨hosts, rfl, -, hshapes⟩ :=
    Shape.hostTypes_eq_nil_iff.mp (Shape.check_of_field? h rfl hhosts)
  have hnames : ReadsIff (checkNames fieldNames fields) True :=
    readsIff_of_exists ⟨(), checkNames_of_record h (by simp [fieldNames])⟩
  have hconfiguration : ReadsIff (required "base_experiment" .ok fields) True :=
    readsIff_required hfound (readsIff_of_exists ⟨configuration, rfl⟩)
  have hroles : ReadsIff (optional "common_roles" roles [] fields) True :=
    readsIff_optional_of_exists fun d hd => exists_roles (Shape.check_of_field? h rfl hd)
  have hfilters : ReadsIff (optional "except_filters" items [] fields) True :=
    readsIff_optional_of_exists fun d hd => exists_items (Shape.check_of_field? h rfl hd)
  have hentries : ReadsIff (optional "factor_levels" items [] fields) True :=
    readsIff_optional_of_exists fun d hd => exists_items (Shape.check_of_field? h rfl hd)
  have htypes : ReadsIff (required "host_types" (mapping HostType.read) fields)
      (∀ host ∈ hosts, Fits (host.2.field? "n")) :=
    readsIff_required hhosts (readsIff_mapping (p := fun d => Fits (d.field? "n")) fun host hhost =>
      HostType.readsIff (hshapes host hhost))
  have hcount : ReadsIff (optional "n_repetitions" count 1 fields)
      (Fits (Keyed.find? "n_repetitions" fields)) :=
    readsIff_optional fun d hd => readsIff_count (Shape.check_of_field? h rfl hd)
  -- The fields are read in this order; host types and repetitions alone bring conditions along.
  have hall := hnames.bind fun _ => hconfiguration.bind fun configuration =>
    hroles.bind fun commonRoles => hfilters.bind fun exceptFilters => hentries.bind fun entries =>
      htypes.bind fun hostTypes => hcount.bind fun repetitions => readsIff_of_exists
        ⟨Experiment.mk repetitions commonRoles hostTypes configuration (entriesOf entries)
          exceptFilters, rfl⟩
  refine hall.congr ?_
  simp only [true_and, and_true]
  constructor
  · rintro ⟨hinstances, hrepetitions⟩
    refine ⟨hrepetitions, fun others hothers => ?_⟩
    cases hhosts.symm.trans hothers
    exact hinstances
  · exact fun hfit => ⟨hfit.instances hosts hhosts, hfit.repetitions⟩

/-- Reading refuses nothing that passes the rules of the shape, so that parsing fails with the
violations of these rules or not at all. -/
structure ChecksAgree (raw : Document) : Prop where
  reads : Shape.experiment [] raw = [] → ∃ e, read raw = .ok e
  fails : ∀ name failure, parse name raw = .error failure →
    Shape.experiment [] raw ≠ [] ∧
      failure = .schema name (.violations (Shape.experiment [] raw))

/-- Parsing fails with all violations of the shape, or on a count that passes. -/
theorem parse_eq_error {name : String} {failure : Failure}
    (h : parse name raw = .error failure) :
    (Shape.experiment [] raw ≠ [] ∧
        failure = .schema name (.violations (Shape.experiment [] raw))) ∨
      Shape.experiment [] raw = [] ∧
        ∃ cause, read raw = .error cause ∧ failure = .schema name (.unreadable cause) := by
  rw [parse] at h
  cases hshape : Shape.experiment [] raw with
  | nil =>
      rw [hshape] at h
      obtain ⟨cause, hcause, rfl⟩ := mapError_eq_error.mp h
      exact .inr ⟨rfl, cause, hcause, rfl⟩
  | cons violation rest =>
      rw [hshape] at h
      cases h
      exact .inl ⟨by simp, rfl⟩

/-- The two checks agree on an experiment exactly if its counts fit or it violates the rules
anyway. Where they do not, parsing fails on a float without a fraction or on a number of
repetitions that does not fit into 32 bits. -/
theorem checksAgree_iff_countsFit (raw : Document) :
    (ChecksAgree raw ↔ (Shape.experiment [] raw = [] → CountsFit raw)) ∧
      ∀ name failure, parse name raw = .error failure →
        (Shape.experiment [] raw ≠ [] ∧
            failure = .schema name (.violations (Shape.experiment [] raw))) ∨
          ∃ cause, CountProblem cause ∧ failure = .schema name (.unreadable cause) := by
  refine ⟨⟨fun hagree hshape => ?agree, fun hfit => ⟨fun hshape => ?reads, ?fails⟩⟩, ?problem⟩
  case agree => exact (readsIff hshape).exists_iff.mp (hagree.reads hshape)
  case reads => exact (readsIff hshape).exists_iff.mpr (hfit hshape)
  case fails =>
    intro name failure hfailure
    rcases parse_eq_error hfailure with hviolations | ⟨hshape, cause, hcause, -⟩
    · exact hviolations
    · obtain ⟨e, he⟩ := (readsIff hshape).exists_iff.mpr (hfit hshape)
      cases he.symm.trans hcause
  case problem =>
    intro name failure hfailure
    rcases parse_eq_error hfailure with hviolations | ⟨hshape, cause, hcause, rfl⟩
    · exact .inl hviolations
    · exact .inr ⟨cause, (readsIff hshape).fails cause hcause, rfl⟩

/-- An experiment with two counts: its repetitions and the instances of its one host type. -/
def countedDocument (repetitions instances : Document) : Document :=
  .map
    [("base_experiment", .empty),
      ("host_types", .map [("client", .map [("$CMD$", .str "run.sh"), ("n", instances)])]),
      ("n_repetitions", repetitions)]

/-- The float with the value one. -/
def floatOne : Document :=
  .num (.float ⟨0x3FF0000000000000, by decide⟩)

theorem experiment_countedDocument {repetitions instances : Document}
    (hrepetitions : Shape.count none ["n_repetitions"] repetitions = [])
    (hinstances : Shape.count (some Vocabulary.maxHostInstances) ["host_types", "client", "n"]
      instances = []) :
    Shape.experiment [] (countedDocument repetitions instances) = [] := by
  refine Shape.record_eq_nil_iff.mpr ⟨_, rfl, ?_, by simp [Keyed.hasKey, Keyed.find?]⟩
  simp only [List.forall_mem_cons]
  refine ⟨⟨_, rfl, rfl⟩, ⟨_, rfl, Shape.hostTypes_eq_nil_iff.mpr ⟨_, rfl, by simp, ?_⟩⟩,
    ⟨_, rfl, hrepetitions⟩, by simp⟩
  refine List.forall_mem_singleton.mpr (Shape.record_eq_nil_iff.mpr
    ⟨_, rfl, ?_, by simp [Keyed.hasKey, Keyed.find?, Vocabulary.command]⟩)
  simp only [List.forall_mem_cons]
  exact ⟨⟨_, rfl, rfl⟩, ⟨_, rfl, hinstances⟩, by simp⟩

theorem countsFit_countedDocument {repetitions instances : Document} :
    CountsFit (countedDocument repetitions instances) ↔
      Fits (some repetitions) ∧ Fits (some instances) := by
  constructor
  · rintro ⟨hrepetitions, hinstances⟩
    exact ⟨hrepetitions, hinstances _ rfl _ (List.mem_singleton_self _)⟩
  · rintro ⟨hrepetitions, hinstances⟩
    refine ⟨hrepetitions, fun hosts hhosts => ?_⟩
    cases hhosts
    exact List.forall_mem_singleton.mpr hinstances

/-- The checks agree up to the greatest count and no further. -/
theorem checksAgree_greatestCount :
    ChecksAgree (countedDocument (.int 4294967295) (.int 1)) ∧
      ¬ ChecksAgree (countedDocument (.int 4294967296) (.int 1)) := by
  have hshape : ∀ n : Int, 1 ≤ n →
      Shape.experiment [] (countedDocument (.int n) (.int 1)) = [] := fun n hn =>
    experiment_countedDocument (Shape.count_int_eq_nil_iff.mpr ⟨hn, by simp⟩) rfl
  have hone : Fits (some (.int 1)) := by simp [Fits, maxCount, Document.int]
  constructor
  · refine (checksAgree_iff_countsFit _).1.mpr fun _ => ?_
    exact countsFit_countedDocument.mpr ⟨by simp [Fits, maxCount, Document.int], hone⟩
  · intro hagree
    have hfit := (checksAgree_iff_countsFit _).1.mp hagree (hshape _ (by decide))
    have hlarge := (countsFit_countedDocument.mp hfit).1
    simp [Fits, maxCount, Document.int] at hlarge

/-- The checks do not always agree: a host type may have `1.0` instances. -/
theorem not_checksAgree_of_wholeFloat :
    ¬ ∀ raw : Document, raw.Ordered → ChecksAgree raw := by
  intro hall
  have hshape : Shape.experiment [] (countedDocument (.int 1) floatOne) = [] :=
    experiment_countedDocument rfl (by decide)
  obtain ⟨e, he⟩ := (hall (countedDocument (.int 1) floatOne) (by decide)).reads hshape
  have hfit := (readsIff hshape).exists_iff.mp ⟨e, he⟩
  have hfloat := (countsFit_countedDocument.mp hfit).2
  simp [Fits, floatOne, Document.int] at hfloat

end Experiment

end ExperimentSuite
