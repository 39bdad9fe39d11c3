import ExperimentSuite.Proofs.Document.Merge

/-!
# Agreement is equality of unsigned documents

Documents agree when they are equal up to the signs of float zeros, so they
agree exactly if dropping these signs makes them equal. Dropping them changes
no place of a document, so documents that agree hold values that agree at
every path.
-/

namespace ExperimentSuite

/-- The float with the sign of a zero dropped. -/
def FiniteFloat.unsigned (x : FiniteFloat) : FiniteFloat :=
  if x.isZero then .zero else x

theorem FiniteFloat.agrees_iff (x y : FiniteFloat) :
    x.agrees y = true ↔ x.unsigned = y.unsigned := by
  have hzero : FiniteFloat.zero.isZero = true := by decide
  have hbits : (x.bits == y.bits) = true ↔ x = y := by
    cases x
    cases y
    simp
  rw [agrees, Bool.or_eq_true, Bool.and_eq_true, hbits, unsigned, unsigned]
  by_cases hx : x.isZero = true <;> by_cases hy : y.isZero = true
  · simp [hx, hy]
  · have hne : ¬ FiniteFloat.zero = y := fun heq => hy (heq ▸ hzero)
    have hxy : ¬ x = y := fun heq => hy (heq ▸ hx)
    simp [hx, hy, hne, hxy]
  · have hne : ¬ x = FiniteFloat.zero := fun heq => hx (heq ▸ hzero)
    have hxy : ¬ x = y := fun heq => hx (heq ▸ hy)
    simp [hx, hy, hne, hxy]
  · simp [hx, hy]

/-- The number with the sign of a float zero dropped. -/
def Number.unsigned : Number → Number
  | .int n => .int n
  | .float x => .float x.unsigned

theorem Number.agrees_iff (a b : Number) : a.agrees b = true ↔ a.unsigned = b.unsigned := by
  cases a <;> cases b <;> simp [agrees, unsigned, FiniteFloat.agrees_iff]

namespace Document

variable {d d' v : Document} {p : KeyPath} {paths : List KeyPath}

mutual

/-- The document with the signs of its float zeros dropped. -/
def unsigned : Document → Document
  | .num n => .num n.unsigned
  | .list items => .list (unsignedItems items)
  | .map fields => .map (unsignedFields fields)
  | d => d

/-- The same for items. -/
def unsignedItems : List Document → List Document
  | [] => []
  | d :: rest => unsigned d :: unsignedItems rest

/-- The same for the values of fields. -/
def unsignedFields : List (String × Document) → List (String × Document)
  | [] => []
  | (key, d) :: rest => (key, unsigned d) :: unsignedFields rest

end

theorem unsigned_list (items : List Document) :
    (list items).unsigned = .list (items.map unsigned) := by
  rw [unsigned, list.injEq]
  induction items with
  | nil => rfl
  | cons d rest ih => rw [unsignedItems, ih, List.map_cons]

theorem unsigned_map (fields : List (String × Document)) :
    (map fields).unsigned = .map (Keyed.mapValues unsigned fields) := by
  rw [unsigned, map.injEq, Keyed.mapValues]
  induction fields with
  | nil => rfl
  | cons e rest ih => rw [unsignedFields, ih, List.map_cons]

@[simp] theorem isMap_unsigned (d : Document) : d.unsigned.isMap = d.isMap := by
  cases d <;> rfl

theorem agreesItems_iff {items others : List Document}
    (h : ∀ d ∈ items, ∀ d', d.agrees d' = true ↔ d.unsigned = d'.unsigned) :
    agreesItems items others = true ↔ items.map unsigned = others.map unsigned := by
  induction items generalizing others with
  | nil => cases others <;> simp [agreesItems]
  | cons d rest ih =>
      obtain ⟨hd, hrest⟩ := List.forall_mem_cons.mp h
      cases others with
      | nil => simp [agreesItems]
      | cons d' others => simp [agreesItems, hd d', ih hrest]

theorem agreesFields_iff {fields others : List (String × Document)}
    (h : ∀ e ∈ fields, ∀ d', e.2.agrees d' = true ↔ e.2.unsigned = d'.unsigned) :
    agreesFields fields others = true ↔
      Keyed.mapValues unsigned fields = Keyed.mapValues unsigned others := by
  induction fields generalizing others with
  | nil => cases others <;> simp [agreesFields, Keyed.mapValues]
  | cons e rest ih =>
      obtain ⟨he, hrest⟩ := List.forall_mem_cons.mp h
      cases others with
      | nil => simp [agreesFields, Keyed.mapValues]
      | cons e' others =>
          have ih := @ih others hrest
          rw [Keyed.mapValues, Keyed.mapValues] at ih
          simp [agreesFields, Keyed.mapValues, he e'.2, ih]

/-- Documents agree exactly if they are equal up to the signs of float zeros. -/
theorem agrees_iff (d d' : Document) : d.agrees d' = true ↔ d.unsigned = d'.unsigned := by
  induction d using memberInduction generalizing d' with
  | num n => cases d' <;> simp [agrees, unsigned, Number.agrees_iff]
  | list items ih =>
      cases d' with
      | list others => rw [agrees, unsigned_list, unsigned_list, list.injEq, agreesItems_iff ih]
      | _ => simp [agrees, unsigned]
  | map fields ih =>
      cases d' with
      | map others => rw [agrees, unsigned_map, unsigned_map, map.injEq, agreesFields_iff ih]
      | _ => simp [agrees, unsigned]
  | _ => cases d' <;> simp [agrees, unsigned]

theorem agrees_refl (d : Document) : d.agrees d = true :=
  (agrees_iff d d).mpr rfl

theorem agrees_symm (h : d.agrees d' = true) : d'.agrees d = true :=
  (agrees_iff d' d).mpr ((agrees_iff d d').mp h).symm

theorem agrees_trans (h : d.agrees d' = true) (h' : d'.agrees v = true) : d.agrees v = true :=
  (agrees_iff d v).mpr (((agrees_iff d d').mp h).trans ((agrees_iff d' v).mp h'))

/-- Mappings agree with mappings only. -/
theorem isMap_of_agrees (h : d.agrees d' = true) : d.isMap = d'.isMap := by
  rw [← isMap_unsigned d, (agrees_iff d d').mp h, isMap_unsigned]

theorem get?_unsigned (d : Document) (p : KeyPath) :
    d.unsigned.get? p = (d.get? p).map unsigned := by
  induction p generalizing d with
  | nil => simp
  | cons key rest ih =>
      cases d with
      | map fields =>
          rw [unsigned_map, get?_map_cons, get?_map_cons, Keyed.find?_mapValues]
          cases Keyed.find? key fields with
          | none => rfl
          | some child => exact ih child
      | list items => rw [unsigned_list]; rfl
      | _ => rfl

theorem Ordered.unsigned (hd : d.Ordered) : d.unsigned.Ordered := by
  induction d using memberInduction with
  | list items ih =>
      rw [unsigned_list]
      refine ordered_list_iff.mpr (List.forall_mem_map.mpr fun c hc => ?_)
      exact ih c hc (ordered_list_iff.mp hd c hc)
  | map fields ih =>
      obtain ⟨hs, hfields⟩ := ordered_map_iff.mp hd
      rw [unsigned_map]
      exact ordered_map_iff.mpr ⟨Keyed.sorted_mapValues hs,
        List.forall_mem_map.mpr fun e he => ih e he (hfields e he)⟩
  | _ => trivial

/-- Documents that agree hold values that agree at every path. -/
theorem exists_agrees_of_get? (h : d.agrees d' = true) (hv : d.get? p = some v) :
    ∃ v', d'.get? p = some v' ∧ v.agrees v' = true := by
  have hget : (d.get? p).map unsigned = (d'.get? p).map unsigned := by
    rw [← get?_unsigned, ← get?_unsigned, (agrees_iff d d').mp h]
  rw [hv, Option.map_some, eq_comm, Option.map_eq_some_iff] at hget
  obtain ⟨v', hv', heq⟩ := hget
  exact ⟨v', hv', (agrees_iff v v').mpr heq.symm⟩

theorem Sparse.unsigned (h : Sparse paths d) : Sparse paths d.unsigned where
  isMap := by rw [isMap_unsigned, h.isMap]
  ordered := h.ordered.unsigned
  holds q hq := by
    rw [get?_unsigned, Option.isSome_map]
    exact h.holds q hq
  noOther p v hv := by
    rw [get?_unsigned, Option.map_eq_some_iff] at hv
    obtain ⟨w, hw, rfl⟩ := hv
    rw [isMap_unsigned]
    exact h.noOther p w hw

end Document

end ExperimentSuite
