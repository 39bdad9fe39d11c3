import ExperimentSuite.Experiment.Shape
import ExperimentSuite.Proofs.Keyed

/-!
# Documents that pass a check

When each check of the shape of an experiment reports nothing. A record passes
if every field has a check of its own and passes it and no required field is
missing; a list and the host types pass item by item. Places only say where a
violation was found and decide nothing.
-/

namespace ExperimentSuite

namespace Shape

variable {known : List (String × Check)} {required place : List String} {check : Check}
  {d value : Document} {key : String} {index : Nat} {items : List Document}
  {fields : List (String × Document)}

/-- A field that is known and passes its check. -/
def Passes (known : List (String × Check)) (place : List String) (e : String × Document) : Prop :=
  ∃ check, known.lookup e.1 = some check ∧ check (place ++ [e.1]) e.2 = []

theorem record_eq_nil_iff :
    record known required place d = [] ↔ ∃ fields, d = .map fields ∧
      (∀ e ∈ fields, Passes known place e) ∧
      ∀ key ∈ required, Keyed.hasKey key fields = true := by
  cases d with
  | map fields =>
      simp only [record, List.append_eq_nil_iff, List.flatMap_eq_nil_iff, List.map_eq_nil_iff,
        ite_eq_left_iff, List.isEmpty_iff, reduceCtorEq, imp_false, not_not,
        List.filter_eq_nil_iff, Keyed.keys, List.forall_mem_map, Document.map.injEq,
        exists_eq_left']
      constructor
      · rintro ⟨⟨hchecks, hknown⟩, hrequired⟩
        refine ⟨fun e he => ?_, fun key hkey => by simpa using hrequired key hkey⟩
        obtain ⟨check, hcheck⟩ : ∃ check, known.lookup e.1 = some check :=
          Option.isSome_iff_exists.mp (by simpa using hknown e he)
        have hpasses := hchecks e he
        rw [hcheck] at hpasses
        exact ⟨check, hcheck, hpasses⟩
      · rintro ⟨hfields, hrequired⟩
        refine ⟨⟨fun e he => ?_, fun e he => ?_⟩, fun key hkey => by simpa using hrequired key hkey⟩
        · obtain ⟨check, hcheck, hpasses⟩ := hfields e he
          rw [hcheck]
          exact hpasses
        · obtain ⟨check, hcheck, -⟩ := hfields e he
          simp [hcheck]
  | _ => simp [record]

/-- A field that a passing record has passes the check of its key. -/
theorem check_of_field? (h : record known required place d = [])
    (hlookup : known.lookup key = some check) (hfield : d.field? key = some value) :
    check (place ++ [key]) value = [] := by
  obtain ⟨fields, rfl, hfields, -⟩ := record_eq_nil_iff.mp h
  obtain ⟨check', hcheck', hpasses⟩ := hfields _ (Keyed.mem_of_find? hfield)
  rw [hlookup, Option.some.injEq] at hcheck'
  rw [hcheck']
  exact hpasses

/-- A passing record has every required field. -/
theorem exists_field? (h : record known required place d = []) (hkey : key ∈ required) :
    ∃ value, d.field? key = some value := by
  obtain ⟨fields, rfl, -, hrequired⟩ := record_eq_nil_iff.mp h
  exact Option.isSome_iff_exists.mp (hrequired key hkey)

/-- A mapping written field by field passes if every field does and no required one is missing. -/
theorem record_ofFields (hfields : ∀ e ∈ fields, Passes known place e)
    (hkeys : (Keyed.keys fields).Nodup) (hrequired : ∀ key ∈ required, key ∈ Keyed.keys fields) :
    record known required place (.ofFields fields) = [] := by
  refine record_eq_nil_iff.mpr ⟨_, rfl, fun e he => hfields e (Keyed.mem_of_mem_ofList he), ?_⟩
  intro key hkey
  rw [Keyed.hasKey, Keyed.find?_ofList hkeys, Option.isSome_iff_ne_none]
  intro hnone
  obtain ⟨e, he, rfl⟩ := List.mem_map.mp (hrequired key hkey)
  exact Keyed.find?_eq_none_iff.mp hnone e he rfl

/-- A whole number passes if it lies within the bounds. -/
theorem count_int_eq_nil_iff {most : Option Nat} {n : Int} :
    count most place (.num (.int n)) = [] ↔ 1 ≤ n ∧ ∀ bound ∈ most, n ≤ bound := by
  cases most with
  | none => simp [count, isBelow, isWhole]
  | some bound =>
      simp only [count, isBelow, isAbove, isWhole, decide_eq_true_eq]
      split <;> split <;> simp <;> omega

theorem exists_num_of_count {most : Option Nat} (h : count most place d = []) :
    ∃ n, d = .num n := by
  cases d with
  | num n => exact ⟨n, rfl⟩
  | _ => simp [count] at h

/-- A float that passes has no fraction. -/
theorem isWhole_of_count {most : Option Nat} {x : FiniteFloat}
    (h : count most place (.num (.float x)) = []) : x.isWhole = true := by
  simp only [count, List.append_eq_nil_iff, ite_eq_left_iff, List.cons_ne_nil, imp_false,
    not_not] at h
  exact h.2

theorem mapping_eq_nil_iff : mapping place d = [] ↔ d.isMap = true := by
  rw [mapping]
  split <;> simp_all

theorem boolean_eq_nil_iff : boolean place d = [] ↔ ∃ b, d = .bool b := by
  cases d <;> simp [boolean]

theorem oneOf_eq_nil_iff {holds : Document → Bool} :
    oneOf holds place d = [] ↔ holds d = true := by
  rw [oneOf]
  split <;> simp_all

theorem itemsFrom_mapping_eq_nil_iff :
    itemsFrom mapping place index items = [] ↔ ∀ item ∈ items, item.isMap = true := by
  induction items generalizing index with
  | nil => simp [itemsFrom]
  | cons d rest ih =>
      rw [itemsFrom, List.append_eq_nil_iff, mapping_eq_nil_iff, ih, List.forall_mem_cons]

theorem listOf_mapping_eq_nil_iff :
    listOf mapping place d = [] ↔
      ∃ items, d = .list items ∧ ∀ item ∈ items, item.isMap = true := by
  cases d with
  | list items => simp [listOf, itemsFrom_mapping_eq_nil_iff]
  | _ => simp [listOf]

theorem hostTypes_eq_nil_iff :
    hostTypes place d = [] ↔ ∃ fields, d = .map fields ∧ fields ≠ [] ∧
      ∀ e ∈ fields, hostType (place ++ [e.1]) e.2 = [] := by
  cases d with
  | map fields =>
      cases fields with
      | nil => simp [hostTypes]
      | cons e rest =>
          rw [hostTypes, List.flatMap_eq_nil_iff]
          · constructor
            · exact fun h => ⟨_, rfl, by simp, h⟩
            · rintro ⟨_, heq, -, h⟩
              cases heq
              exact h
          · simp
  | _ => simp [hostTypes]

end Shape

end ExperimentSuite
