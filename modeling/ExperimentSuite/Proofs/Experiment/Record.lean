import ExperimentSuite.Experiment.Record
import ExperimentSuite.Proofs.Document.Ordered
import ExperimentSuite.Proofs.Experiment.Shape

/-!
# Reading records

When a reader succeeds and what it then has read. A reader takes a value of the
type of its field and no other one; on a value that passes the check of its
shape it succeeds, counts excepted.
-/

namespace ExperimentSuite

namespace Record

open Document

variable {α : Type} {key : String} {known names place : List String} {read : Reader α}
  {default a : α} {d : Document} {fields : List (String × Document)}

theorem checkNames_eq_ok : checkNames known fields = .ok () ↔ ∀ e ∈ fields, e.1 ∈ known := by
  induction fields with
  | nil => simp [checkNames]
  | cons e rest ih =>
      rw [checkNames, List.forall_mem_cons, ← ih]
      by_cases h : e.1 ∈ known <;> simp [h]

/-- A record that is written field by field has the names of these fields. -/
theorem checkNames_ofList (h : ∀ key ∈ Keyed.keys fields, key ∈ known) :
    checkNames known (Keyed.ofList fields) = .ok () :=
  checkNames_eq_ok.mpr fun _ he => h _ (List.mem_map_of_mem (Keyed.mem_of_mem_ofList he))

theorem required_eq_ok :
    required key read fields = .ok a ↔ ∃ d, Keyed.find? key fields = some d ∧ read d = .ok a := by
  rw [required]
  cases Keyed.find? key fields <;> simp

theorem optional_eq_ok :
    optional key read default fields = .ok a ↔
      (∃ d, Keyed.find? key fields = some d ∧ read d = .ok a) ∨
        Keyed.find? key fields = none ∧ a = default := by
  rw [optional]
  cases Keyed.find? key fields <;> simp [eq_comm]

theorem count_eq_ok {n : Nat} : count d = .ok n ↔ d = .nat n ∧ (n : Int) ≤ maxCount := by
  cases d with
  | num value =>
      cases value with
      | int i =>
          rw [count, Outcome.ite_eq_ok, Document.nat, Document.int, Document.num.injEq,
            Number.int.injEq]
          omega
      | float x => simp [count, Document.nat, Document.int]
  | _ => simp [count, Document.nat, Document.int]

theorem items_eq_ok {found : List Document} : items d = .ok found ↔ d = .list found := by
  cases d <;> simp [items]

theorem mapM_str?_eq_some {texts : List Document} {found : List String} :
    texts.mapM Document.str? = some found ↔ texts = found.map .str := by
  induction texts generalizing found with
  | nil => simp [eq_comm]
  | cons d rest ih =>
      cases d with
      | str s =>
          rw [List.mapM_cons]
          cases found with
          | nil => simp [Document.str?, Option.bind_eq_some_iff]
          | cons first others => simp [Document.str?, Option.bind_eq_some_iff, ih, and_comm]
      | _ => cases found <;> simp [List.mapM_cons, Document.str?]

theorem roles_eq_ok {found : List String} :
    roles d = .ok found ↔
      (∃ role, d = .str role ∧ found = [role]) ∨ d = .list (found.map .str) := by
  cases d with
  | list texts =>
      rw [roles, Document.list.injEq, ← mapM_str?_eq_some]
      cases texts.mapM Document.str? <;> simp
  | _ => simp [roles, eq_comm]

theorem mapping_eq_ok {entries : List (String × α)} :
    mapping read d = .ok entries ↔
      ∃ fields, d = .map fields ∧ Keyed.Aligned (fun _ d a => read d = .ok a) fields entries := by
  cases d with
  | map fields => simp [mapping, ← Keyed.traverse_eq_ok]
  | _ => simp [mapping]

/-- A count that passes its check and is read lies within its bounds. -/
theorem bounds_of_count {most : Option Nat} {n : Nat} (h : optional key count 1 fields = .ok n)
    (hcheck : ∀ d, Keyed.find? key fields = some d → Shape.count most place d = []) :
    1 ≤ n ∧ (n : Int) ≤ maxCount ∧ ∀ bound ∈ most, 1 ≤ bound → n ≤ bound := by
  rcases optional_eq_ok.mp h with ⟨d, hfound, hread⟩ | ⟨-, rfl⟩
  · obtain ⟨rfl, hlimit⟩ := count_eq_ok.mp hread
    obtain ⟨hleast, hmost⟩ := Shape.count_int_eq_nil_iff.mp (hcheck _ hfound)
    refine ⟨by omega, hlimit, fun bound hbound _ => ?_⟩
    have := hmost bound hbound
    omega
  · exact ⟨le_refl 1, by decide, fun _ _ hbound => hbound⟩

/-- The items that are read off a field that passes its check. -/
theorem isMap_of_mem_items {found : List Document} {entry : Document}
    (h : optional key items [] fields = .ok found)
    (hcheck : ∀ d, Keyed.find? key fields = some d → Shape.listOf Shape.mapping place d = [])
    (hentry : entry ∈ found) : entry.isMap = true := by
  rcases optional_eq_ok.mp h with ⟨d, hfound, hread⟩ | ⟨-, rfl⟩
  · obtain ⟨_, heq, hentries⟩ := Shape.listOf_mapping_eq_nil_iff.mp (hcheck d hfound)
    obtain rfl : found = _ := by simpa [items_eq_ok.mp hread] using heq
    exact hentries entry hentry
  · cases hentry

/-- A record that passes its check has no names but those it knows. -/
theorem checkNames_of_record {checks : List (String × Shape.Check)} {required : List String}
    (h : Shape.record checks required place (.map fields) = [])
    (hnames : ∀ check ∈ checks, check.1 ∈ names) : checkNames names fields = .ok () := by
  obtain ⟨_, heq, hfields, -⟩ := Shape.record_eq_nil_iff.mp h
  cases heq
  refine checkNames_eq_ok.mpr fun e he => ?_
  obtain ⟨check, hcheck, -⟩ := hfields e he
  obtain ⟨before, after, rfl, -⟩ := List.lookup_eq_some_iff.mp hcheck
  exact hnames _ (List.mem_append_right before List.mem_cons_self)

theorem exists_flag (h : Shape.boolean place d = []) : ∃ b, flag d = .ok b := by
  obtain ⟨b, rfl⟩ := Shape.boolean_eq_nil_iff.mp h
  exact ⟨b, rfl⟩

theorem exists_items (h : Shape.listOf Shape.mapping place d = []) :
    ∃ found, items d = .ok found := by
  obtain ⟨found, rfl, -⟩ := Shape.listOf_mapping_eq_nil_iff.mp h
  exact ⟨found, rfl⟩

theorem exists_roles (h : Shape.oneOf Shape.isRoles place d = []) :
    ∃ found, roles d = .ok found := by
  have hroles := Shape.oneOf_eq_nil_iff.mp h
  cases d with
  | str role => exact ⟨[role], rfl⟩
  | list texts =>
      have htexts : ∀ d ∈ texts, ∃ s, d = .str s := by
        intro d hd
        have htext := List.all_eq_true.mp hroles d hd
        cases d <;> simp [Shape.isText, Document.str?] at htext ⊢
      obtain ⟨found, rfl⟩ : ∃ found : List String, texts = found.map .str := by
        clear h hroles
        induction texts with
        | nil => exact ⟨[], rfl⟩
        | cons d rest ih =>
            obtain ⟨⟨s, rfl⟩, hrest⟩ := List.forall_mem_cons.mp htexts
            obtain ⟨others, rfl⟩ := ih hrest
            exact ⟨s :: others, rfl⟩
      exact ⟨found, roles_eq_ok.mpr (.inr rfl)⟩
  | _ => cases hroles

end Record

end ExperimentSuite
