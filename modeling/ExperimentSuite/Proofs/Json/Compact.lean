import ExperimentSuite.Json.Printer
import ExperimentSuite.Proofs.Document.Agreement

/-!
# Compact texts of documents that agree

Documents that agree have the same shape, and the text of one of them is read
off piece by piece along the text of the other one: up to the first pair of
float zeros with different signs both texts are the same, and there one of them
has a minus. So documents that agree have one compact text exactly if they are
one document.
-/

namespace ExperimentSuite

namespace FiniteFloat

variable {x y : FiniteFloat}

theorem eq_of_bits (h : x.bits = y.bits) : x = y := by
  cases x
  cases y
  cases h
  rfl

theorem eq_of_isZero (h : x.isZero = true) : x = zero ∨ x = negativeZero := by
  have hshifted : x.bits.toNat * 2 % 2 ^ 64 = 0 := by
    rw [isZero, beq_iff_eq, ← UInt64.toNat_inj, UInt64.toNat_shiftLeft, Nat.shiftLeft_eq] at h
    exact h
  have hlt := x.bits.toNat_lt
  have hbits : x.bits.toNat = 0 ∨ x.bits.toNat = 0x8000000000000000 := by omega
  exact hbits.imp (fun h => eq_of_bits (UInt64.toNat_inj.mp h))
    fun h => eq_of_bits (UInt64.toNat_inj.mp h)

end FiniteFloat

namespace Json

section Splits

variable {α : Type} {text : α → List Char} {a b : α} {as bs : List α}

/-- Two values are told apart by their texts, and what follows the texts is told from them. -/
def Splits (text : α → List Char) (a b : α) : Prop :=
  ∀ rest rest' : List Char, text a ++ rest = text b ++ rest' → a = b ∧ rest = rest'

theorem splits_refl (text : α → List Char) (a : α) : Splits text a a :=
  fun _ _ h => ⟨rfl, List.append_cancel_left h⟩

theorem Splits.eq (h : Splits text a b) (htext : text a = text b) : a = b :=
  (h [] [] (by rw [htext])).1

/-- Lists whose members are told apart one by one are told apart by their joined texts. -/
theorem splits_intercalate (h : List.Forall₂ (Splits text) as bs) :
    Splits (fun as => [','].intercalate (as.map text)) as bs := by
  induction h with
  | nil => exact splits_refl _ []
  | @cons a b as bs hhead htail ih =>
      intro rest rest' heq
      cases htail with
      | nil =>
          obtain ⟨rfl, hrest⟩ := hhead rest rest' (by simpa using heq)
          exact ⟨rfl, hrest⟩
      | cons =>
          simp only [List.map_cons, List.intercalate_cons_cons, List.append_assoc] at heq
          obtain ⟨rfl, htexts⟩ := hhead _ _ heq
          obtain ⟨htails, hrest⟩ := ih rest rest' (by simpa using htexts)
          exact ⟨by rw [htails], hrest⟩

end Splits

open Document

variable {d d' : Document} {items others : List Document}
  {fields otherFields : List (String × Document)}

/-- The characters of the compact text of a document. -/
def compactChars (d : Document) : List Char :=
  (compact d).toList

/-- The characters of the compact text of a field. -/
def fieldChars (e : String × Document) : List Char :=
  (quote e.1).toList ++ ':' :: compactChars e.2

theorem compactChars_list (items : List Document) :
    compactChars (.list items) = '[' :: ([','].intercalate (items.map compactChars) ++ [']']) := by
  have hitems : ∀ items : List Document,
      (compactItems items).map String.toList = items.map compactChars := by
    intro items
    induction items with
    | nil => rfl
    | cons d rest ih => rw [compactItems, List.map_cons, List.map_cons, ih, compactChars]
  simp [compactChars, compact, hitems]

theorem compactChars_map (fields : List (String × Document)) :
    compactChars (.map fields) =
      '\x7b' :: ([','].intercalate (fields.map fieldChars) ++ ['\x7d']) := by
  have hfields : ∀ fields : List (String × Document),
      (compactFields fields).map String.toList = fields.map fieldChars := by
    intro fields
    induction fields with
    | nil => rfl
    | cons e rest ih =>
        rw [compactFields, List.map_cons, List.map_cons, ih, fieldChars, compactChars]
        simp
  simp [compactChars, compact, hfields]

/-- Float zeros are told apart by their signs. -/
theorem splits_float {x y : FiniteFloat} (h : x.agrees y = true) :
    Splits compactChars (.num (.float x)) (.num (.float y)) := by
  rw [FiniteFloat.agrees, Bool.or_eq_true, beq_iff_eq, Bool.and_eq_true] at h
  have hzero : compactChars (.num (.float .zero)) = ['0', '.', '0'] := by decide +kernel
  have hnegative : compactChars (.num (.float .negativeZero)) = ['-', '0', '.', '0'] := by
    decide +kernel
  rcases h with hbits | ⟨hx, hy⟩
  · rw [FiniteFloat.eq_of_bits hbits]
    exact splits_refl _ _
  · rcases FiniteFloat.eq_of_isZero hx with rfl | rfl <;>
      rcases FiniteFloat.eq_of_isZero hy with rfl | rfl
    · exact splits_refl _ _
    · intro rest rest' heq
      simp [hzero, hnegative] at heq
    · intro rest rest' heq
      simp [hzero, hnegative] at heq
    · exact splits_refl _ _

theorem forall₂_of_agreesItems {R : Document → Document → Prop}
    (h : ∀ d ∈ items, ∀ d', d.agrees d' = true → R d d')
    (hagrees : agreesItems items others = true) : List.Forall₂ R items others := by
  induction items generalizing others with
  | nil =>
      cases others with
      | nil => exact .nil
      | cons => simp [agreesItems] at hagrees
  | cons d rest ih =>
      obtain ⟨hd, hrest⟩ := List.forall_mem_cons.mp h
      cases others with
      | nil => simp [agreesItems] at hagrees
      | cons d' others =>
          rw [agreesItems, Bool.and_eq_true] at hagrees
          exact .cons (hd d' hagrees.1) (ih hrest hagrees.2)

theorem forall₂_of_agreesFields {R : Document → Document → Prop}
    (h : ∀ e ∈ fields, ∀ d', e.2.agrees d' = true → R e.2 d')
    (hagrees : agreesFields fields otherFields = true) :
    List.Forall₂ (fun e e' => e.1 = e'.1 ∧ R e.2 e'.2) fields otherFields := by
  induction fields generalizing otherFields with
  | nil =>
      cases otherFields with
      | nil => exact .nil
      | cons => simp [agreesFields] at hagrees
  | cons e rest ih =>
      obtain ⟨he, hrest⟩ := List.forall_mem_cons.mp h
      cases otherFields with
      | nil => simp [agreesFields] at hagrees
      | cons e' otherFields =>
          rw [agreesFields, Bool.and_eq_true, Bool.and_eq_true, beq_iff_eq] at hagrees
          exact .cons ⟨hagrees.1.1, he e'.2 hagrees.1.2⟩ (ih hrest hagrees.2)

theorem splits_num {n m : Number} (h : n.agrees m = true) :
    Splits compactChars (.num n) (.num m) := by
  cases n with
  | int a =>
      cases m with
      | int b =>
          rw [Number.agrees, beq_iff_eq] at h
          rw [h]
          exact splits_refl _ _
      | float y => simp [Number.agrees] at h
  | float x =>
      cases m with
      | int b => simp [Number.agrees] at h
      | float y => exact splits_float h

theorem splits_list (h : List.Forall₂ (Splits compactChars) items others) :
    Splits compactChars (.list items) (.list others) := by
  intro rest rest' heq
  rw [compactChars_list, compactChars_list, List.cons_append, List.cons_append,
    List.append_assoc, List.append_assoc, List.cons.injEq] at heq
  obtain ⟨rfl, hrest⟩ := splits_intercalate h _ _ heq.2
  exact ⟨rfl, (List.cons.inj hrest).2⟩

theorem splits_field {e e' : String × Document} (hkey : e.1 = e'.1)
    (h : Splits compactChars e.2 e'.2) : Splits fieldChars e e' := by
  intro rest rest' heq
  rw [fieldChars, fieldChars, hkey, List.append_assoc, List.append_assoc] at heq
  obtain ⟨hvalue, hrest⟩ := h rest rest' (List.cons.inj (List.append_cancel_left heq)).2
  exact ⟨Prod.ext hkey hvalue, hrest⟩

theorem splits_map (h : List.Forall₂ (Splits fieldChars) fields otherFields) :
    Splits compactChars (.map fields) (.map otherFields) := by
  intro rest rest' heq
  rw [compactChars_map, compactChars_map, List.cons_append, List.cons_append,
    List.append_assoc, List.append_assoc, List.cons.injEq] at heq
  obtain ⟨rfl, hrest⟩ := splits_intercalate h _ _ heq.2
  exact ⟨rfl, (List.cons.inj hrest).2⟩

/-- Documents that agree are told apart by their compact texts. -/
theorem splits_of_agrees (h : d.agrees d' = true) : Splits compactChars d d' := by
  induction d using memberInduction generalizing d' with
  | null =>
      cases d' with
      | null => exact splits_refl _ _
      | _ => simp [agrees] at h
  | bool b =>
      cases d' with
      | bool b' =>
          rw [agrees, beq_iff_eq] at h
          rw [h]
          exact splits_refl _ _
      | _ => simp [agrees] at h
  | str s =>
      cases d' with
      | str s' =>
          rw [agrees, beq_iff_eq] at h
          rw [h]
          exact splits_refl _ _
      | _ => simp [agrees] at h
  | num n =>
      cases d' with
      | num m => exact splits_num h
      | _ => simp [agrees] at h
  | list items ih =>
      cases d' with
      | list others =>
          rw [agrees] at h
          exact splits_list (forall₂_of_agreesItems (fun d hd d' => ih d hd) h)
      | _ => simp [agrees] at h
  | map fields ih =>
      cases d' with
      | map otherFields =>
          rw [agrees] at h
          have hfields := forall₂_of_agreesFields (fun e he d' => ih e he) h
          exact splits_map (hfields.imp fun _ _ hfield => splits_field hfield.1 hfield.2)
      | _ => simp [agrees] at h

/-- Documents that agree have one compact text exactly if they are one document. -/
theorem json_eq_iff_of_agrees (h : d.agrees d' = true) : d.json = d'.json ↔ d = d' := by
  refine ⟨fun hjson => (splits_of_agrees h).eq ?_, congrArg json⟩
  exact congrArg String.toList hjson

end Json

end ExperimentSuite
