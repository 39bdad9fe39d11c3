import Mathlib.Data.Rat.Floor
import Mathlib.Tactic
import ExperimentSuite.Factor.Range

/-!
# Ranges as arithmetic progressions

The number of levels of a range is the distance from its start to its stop
over its step, rounded up, and zero where the step leads away from the stop.
The levels are counted in advance by whole-number division and collected by a
loop that stops early where its next value would leave the 64-bit range. Both
agree with the exact number: a loop that stops early has no level left.
-/

namespace ExperimentSuite

namespace Range

/-- Whether an integer is a signed one of 64 bits. -/
def Signed (n : Int) : Prop :=
  -(2 ^ 63) ≤ n ∧ n < 2 ^ 63

theorem signed_iff {n : Int} : Signed n ↔ Number.minInt ≤ n ∧ n ≤ Number.maxSigned := by
  rw [Signed, Number.minInt, Number.maxSigned]
  omega

namespace Bounds

/-- The number of values from a start up to a stop, in exact arithmetic. -/
def number (start stop step : Int) : Nat :=
  ⌈((stop - start : Int) : ℚ) / step⌉.toNat

variable {b : Bounds} {start stop step value next : Int}

/-- There is a value to count as long as the step leads towards the stop. -/
theorem number_pos_iff :
    0 < number start stop step ↔ (0 < step ∧ start < stop) ∨ (step < 0 ∧ stop < start) := by
  rw [number, Int.lt_toNat, Nat.cast_zero, Int.ceil_pos, div_pos_iff]
  norm_cast
  constructor
  · rintro (⟨hspan, hstep⟩ | ⟨hspan, hstep⟩)
    · exact .inl ⟨hstep, by omega⟩
    · exact .inr ⟨hstep, by omega⟩
  · rintro (⟨hstep, hspan⟩ | ⟨hstep, hspan⟩)
    · exact .inl ⟨by omega, hstep⟩
    · exact .inr ⟨by omega, hstep⟩

theorem isAhead_iff_number_pos : b.isAhead value = true ↔ 0 < number value b.stop b.step :=
  isAhead_iff.trans number_pos_iff.symm

/-- Each step towards the stop leaves one value less. -/
theorem number_eq_succ (h : 0 < number start stop step) :
    number start stop step = number (start + step) stop step + 1 := by
  have hstep : (step : ℚ) ≠ 0 := by
    rcases number_pos_iff.mp h with hside | hside <;> exact_mod_cast (by omega : step ≠ 0)
  have hquotient : ((stop - start : Int) : ℚ) / step =
      ((stop - (start + step) : Int) : ℚ) / step + 1 := by
    push_cast
    field_simp
    ring
  have hceil : ⌈((stop - start : Int) : ℚ) / step⌉ =
      ⌈((stop - (start + step) : Int) : ℚ) / step⌉ + 1 := by
    rw [hquotient, Int.ceil_add_one]
  rw [number, Int.lt_toNat, hceil] at h
  rw [number, number, hceil]
  omega

theorem signed_of_next? (h : b.next? value = some next) : Signed next := by
  rw [next?] at h
  split at h
  · next hin =>
      obtain rfl := Option.some.inj h
      exact signed_iff.mpr hin
  · cases h

theorem not_signed_of_next? (h : b.next? value = none) : ¬Signed (value + b.step) := by
  rw [next?] at h
  split at h
  · cases h
  · next hout => rwa [signed_iff]

/-- A value whose successor leaves the 64-bit range is the last one. -/
theorem number_eq_one (h : 0 < number value b.stop b.step) (hnext : b.next? value = none)
    (hvalue : Signed value) (hstop : Signed b.stop) : number value b.stop b.step = 1 := by
  have hout := not_signed_of_next? hnext
  have hrest : ¬0 < number (value + b.step) b.stop b.step := by
    rw [number_pos_iff]
    unfold Signed at hout hvalue hstop
    rcases number_pos_iff.mp h with hside | hside <;> omega
  rw [number_eq_succ h]
  omega

/-- The first `n` values from a start on. -/
def progression (start step : Int) (n : Nat) : List Int :=
  (List.range n).map fun i : Nat => start + i * step

theorem length_progression {n : Nat} : (progression start step n).length = n := by
  rw [progression, List.length_map, List.length_range]

theorem progression_succ (n : Nat) :
    progression start step (n + 1) = start :: progression (start + step) step n := by
  simp only [progression, List.range_succ_eq_map, List.map_cons, List.map_map]
  congr 1
  · simp
  · apply List.map_congr_left
    intro i _
    simp only [Function.comp_apply]
    push_cast
    ring

/-- The loop appends to the values found so far exactly those that the stop leaves ahead. -/
theorem collect_eq (hstop : Signed b.stop) (hvalue : Signed value) (found : List Int) :
    b.collect value found =
      found.reverse ++ progression value b.step (number value b.stop b.step) := by
  -- the recursion of the loop: one more step, the escape, and the condition that fails
  induction value, found using collect.induct b with
  | case1 value found hahead next hnext ih =>
      have hpos := isAhead_iff_number_pos.mp hahead
      rw [collect, dif_pos hahead]
      split
      · next following hfollowing =>
          obtain rfl := Option.some.inj (hnext.symm.trans hfollowing)
          rw [ih (signed_of_next? hnext), next?_eq_some hnext, number_eq_succ hpos,
            progression_succ, List.reverse_cons,
            List.append_assoc, List.singleton_append]
      · next hnone =>
          rw [hnext] at hnone
          cases hnone
  | case2 value found hahead hnone =>
      have hpos := isAhead_iff_number_pos.mp hahead
      rw [collect, dif_pos hahead]
      split
      · next following hfollowing =>
          rw [hnone] at hfollowing
          cases hfollowing
      · rw [number_eq_one hpos hnone hvalue hstop, progression_succ, List.reverse_cons]
        rfl
  | case3 value found hahead =>
      have hzero : number value b.stop b.step = 0 := by
        rw [isAhead_iff_number_pos] at hahead
        omega
      rw [collect, dif_neg hahead, hzero]
      simp [progression]

theorem levels_eq (hstart : Signed b.start) (hstop : Signed b.stop) :
    b.levels = progression b.start b.step (number b.start b.stop b.step) := by
  rw [levels, collect_eq hstop hstart]
  rfl

/-- Whole-number division with the divisor less one added rounds a quotient up. -/
theorem ceil_div_natCast {m n : Nat} (hn : 0 < n) :
    ⌈(m : ℚ) / n⌉ = ((m + n - 1) / n : Nat) := by
  have hfloor := Nat.div_mul_le_self (m + n - 1) n
  have hnext := Nat.lt_div_mul_add hn (a := m + n - 1)
  generalize (m + n - 1) / n = k at hfloor hnext
  rw [Int.ceil_eq_iff, lt_div_iff₀ (by exact_mod_cast hn), div_le_iff₀ (by exact_mod_cast hn)]
  constructor
  · have hlt : k * n < m + n := by omega
    have hlt' : ((k * n : Nat) : ℚ) < (m + n : Nat) := by exact_mod_cast hlt
    push_cast at hlt' ⊢
    linarith
  · have hle : m ≤ k * n := by omega
    exact_mod_cast hle

/-- A quotient of integers that point the same way is that of their magnitudes. -/
theorem cast_div_eq_natAbs {m n : Int} (hn : n ≠ 0) (hsign : m.sign = n.sign) :
    (m : ℚ) / n = (m.natAbs : ℚ) / n.natAbs := by
  rcases lt_or_gt_of_ne hn with hneg | hpos
  · have hm : m < 0 :=
      Int.sign_eq_neg_one_iff_neg.mp (hsign.trans (Int.sign_eq_neg_one_of_neg hneg))
    have hcast : ∀ k : Int, k < 0 → (k.natAbs : ℚ) = -k := by
      intro k hk
      rw [Nat.cast_natAbs, abs_of_neg hk, Int.cast_neg]
    rw [hcast m hm, hcast n hneg, neg_div_neg_eq]
  · have hm : 0 < m := Int.sign_eq_one_iff_pos.mp (hsign.trans (Int.sign_eq_one_of_pos hpos))
    rw [Nat.cast_natAbs, Nat.cast_natAbs, abs_of_pos hm, abs_of_pos hpos]

/-- The advance count by sign cases is the exact number. -/
theorem count_eq (hstep : b.step ≠ 0) : b.count = number b.start b.stop b.step := by
  simp only [count]
  split
  · next hsign =>
      rw [number, cast_div_eq_natAbs hstep hsign, ceil_div_natCast (Int.natAbs_pos.mpr hstep),
        Int.toNat_natCast]
  · next hsign =>
      have hzero : ¬0 < number b.start b.stop b.step := by
        rw [number_pos_iff]
        rintro (⟨hstep, hspan⟩ | ⟨hstep, hspan⟩)
        · apply hsign
          rw [Int.sign_eq_one_of_pos (by omega), Int.sign_eq_one_of_pos hstep]
        · apply hsign
          rw [Int.sign_eq_neg_one_of_neg (by omega), Int.sign_eq_neg_one_of_neg hstep]
      omega

end Bounds

end Range

end ExperimentSuite
