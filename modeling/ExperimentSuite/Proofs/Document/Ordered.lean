import ExperimentSuite.Document.Basic
import ExperimentSuite.Proofs.Keyed

/-!
# Ordered documents

Order is a matter of every mapping in a document and passes to the values of
its fields, to what a field is replaced by, and back. Proofs about whole
documents go by induction over items and fields as lists of members.
-/

namespace ExperimentSuite

namespace Document

variable {d child : Document} {key : String} {items : List Document}
  {fields : List (String × Document)}

/-- Induction over documents: a list rests on its items, a mapping on its field values. -/
theorem memberInduction {motive : Document → Prop} (null : motive .null)
    (bool : ∀ b, motive (.bool b)) (num : ∀ n, motive (.num n)) (str : ∀ s, motive (.str s))
    (list : ∀ items, (∀ d ∈ items, motive d) → motive (.list items))
    (map : ∀ fields, (∀ e ∈ fields, motive e.2) → motive (.map fields)) (d : Document) :
    motive d :=
  @Document.rec motive (fun items => ∀ d ∈ items, motive d) (fun fields => ∀ e ∈ fields, motive e.2)
    (fun e => motive e.2) null bool num str list map (by simp)
    (fun _ _ hd hrest => List.forall_mem_cons.mpr ⟨hd, hrest⟩) (by simp)
    (fun _ _ he hrest => List.forall_mem_cons.mpr ⟨he, hrest⟩) (fun _ _ hd => hd) d

theorem orderedItems_iff : OrderedItems items ↔ ∀ d ∈ items, d.Ordered := by
  induction items with
  | nil => simp [OrderedItems]
  | cons d rest ih => simp [OrderedItems, ih]

theorem orderedFields_iff : OrderedFields fields ↔ ∀ e ∈ fields, e.2.Ordered := by
  induction fields with
  | nil => simp [OrderedFields]
  | cons e rest ih => simp [OrderedFields, ih]

theorem ordered_list_iff : (list items).Ordered ↔ ∀ d ∈ items, d.Ordered := by
  rw [Ordered, orderedItems_iff]

theorem ordered_map_iff :
    (map fields).Ordered ↔ Keyed.Sorted fields ∧ ∀ e ∈ fields, e.2.Ordered := by
  rw [Ordered, orderedFields_iff]

theorem ordered_empty : empty.Ordered :=
  ordered_map_iff.mpr ⟨List.Pairwise.nil, by simp⟩

theorem Ordered.sorted (h : (map fields).Ordered) : Keyed.Sorted fields :=
  (ordered_map_iff.mp h).1

theorem Ordered.find? (h : (map fields).Ordered) (hf : Keyed.find? key fields = some child) :
    child.Ordered :=
  (ordered_map_iff.mp h).2 _ (Keyed.mem_of_find? hf)

theorem Ordered.insert (h : (map fields).Ordered) (hc : child.Ordered) :
    (map (Keyed.insert key child fields)).Ordered := by
  obtain ⟨hs, hv⟩ := ordered_map_iff.mp h
  refine ordered_map_iff.mpr ⟨Keyed.sorted_insert hs, fun e he => ?_⟩
  rcases Keyed.mem_insert he with heq | hmem
  · rw [heq]; exact hc
  · exact hv e hmem

theorem Ordered.erase (h : (map fields).Ordered) : (map (Keyed.erase key fields)).Ordered := by
  obtain ⟨hs, hv⟩ := ordered_map_iff.mp h
  exact ordered_map_iff.mpr ⟨Keyed.sorted_erase hs, fun e he => hv e (Keyed.mem_of_mem_erase he)⟩

theorem field?_ofFields (h : (Keyed.keys fields).Nodup) (key : String) :
    (ofFields fields).field? key = Keyed.find? key fields :=
  Keyed.find?_ofList h key

theorem isMap_iff : d.isMap = true ↔ ∃ fields, d = .map fields := by
  cases d <;> simp [isMap]

mutual

/-- Whether a document is ordered can be computed. -/
def decideOrdered : (d : Document) → Decidable d.Ordered
  | .null => .isTrue trivial
  | .bool _ => .isTrue trivial
  | .num _ => .isTrue trivial
  | .str _ => .isTrue trivial
  | .list items => decideOrderedItems items
  | .map fields =>
      @instDecidableAnd _ _ (inferInstanceAs (Decidable (List.Pairwise _ fields)))
        (decideOrderedFields fields)

/-- The same for items. -/
def decideOrderedItems : (items : List Document) → Decidable (OrderedItems items)
  | [] => .isTrue trivial
  | d :: rest => @instDecidableAnd _ _ (decideOrdered d) (decideOrderedItems rest)

/-- The same for fields. -/
def decideOrderedFields : (fields : List (String × Document)) → Decidable (OrderedFields fields)
  | [] => .isTrue trivial
  | (_, d) :: rest => @instDecidableAnd _ _ (decideOrdered d) (decideOrderedFields rest)

end

instance : DecidablePred Ordered := decideOrdered

end Document

end ExperimentSuite
