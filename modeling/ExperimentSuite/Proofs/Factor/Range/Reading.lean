import ExperimentSuite.Proofs.Outcome
import ExperimentSuite.Proofs.Factor.Range.Grammar
import ExperimentSuite.Proofs.Factor.Range.Progression

/-!
# What range expressions stand for

A range expression whose numerals fit into signed 64-bit integers stands for
the values from its start up to its stop in exact arithmetic, unless there are
none or too many of them; where a numeral does not fit, or has a digit that is
not one of the ten ASCII digits, it stands for nothing. The reader reports
these outcomes as they are, and takes no other text for a range expression.
-/

namespace ExperimentSuite

namespace Range

open Text

/-- An integer from its sign and its magnitude. -/
def withSign (negative : Bool) (magnitude : Nat) : Int :=
  if negative then -magnitude else magnitude

/-- The number that digits after a given number make. -/
def magnitudeFrom (m : Nat) (digits : List Char) : Nat :=
  digits.foldl (fun m c => 10 * m + (c.toNat - '0'.toNat)) m

/-- The integer of a numeral. -/
def value (t : Bool × List Char) : Int :=
  withSign t.1 (magnitudeFrom 0 t.2)

/-- Whether a numeral is one of ASCII digits and its integer one of 64 bits. -/
def Fits (t : Bool × List Char) : Prop :=
  (∀ c ∈ t.2, '0' ≤ c ∧ c ≤ '9') ∧ Signed (value t)

/-- The start, the stop and the step that one to three integers mean. -/
inductive Means : List Int → Int → Int → Int → Prop
  | stop (stop : Int) : Means [stop] 0 stop 1
  | span (start stop : Int) : Means [start, stop] start stop 1
  | steps (start stop step : Int) : Means [start, stop, step] start stop step

/-- What the values from a start up to a stop yield as levels. -/
inductive Yields (start stop step : Int) : Except Problem (List Int) → Prop
  | zeroStep (h : step = 0) : Yields start stop step (.error .zeroStep)
  | noLevels (hstep : step ≠ 0) (h : Bounds.number start stop step = 0) :
      Yields start stop step (.error .noLevels)
  | tooManyLevels (hstep : step ≠ 0) (h : 100000 < Bounds.number start stop step) :
      Yields start stop step (.error (.tooManyLevels (Bounds.number start stop step)))
  | levels (hstep : step ≠ 0) (hsome : 0 < Bounds.number start stop step)
      (hfew : Bounds.number start stop step ≤ 100000) :
      Yields start stop step
        (.ok ((List.range (Bounds.number start stop step)).map fun i : Nat => start + i * step))

instance (n : Int) : Decidable (Signed n) :=
  inferInstanceAs (Decidable (_ ∧ _))

-- the digits are checked one by one, not all characters that there are
instance (t : Bool × List Char) : Decidable (Fits t) :=
  @instDecidableAnd _ _ (List.decidableBAll (fun c => '0' ≤ c ∧ c ≤ '9') t.2)
    (inferInstanceAs (Decidable (Signed (value t))))

variable {expression : String} {t : Bool × List Char} {texts : List (Bool × List Char)}
  {negative : Bool} {m : Nat} {n : Int} {digits : List Char} {b : Bounds}

/-- The number only grows with its digits. -/
theorem le_magnitudeFrom (digits : List Char) : m ≤ magnitudeFrom m digits := by
  induction digits generalizing m with
  | nil => exact Nat.le_refl m
  | cons c digits ih =>
      calc m ≤ 10 * m + (c.toNat - '0'.toNat) := by omega
        _ ≤ magnitudeFrom (10 * m + (c.toNat - '0'.toNat)) digits := ih

/-- What is within a signed integer is one. -/
theorem Signed.of_le {k : Nat} (h : Signed (withSign negative k)) (hle : m ≤ k) :
    Signed (withSign negative m) := by
  unfold Signed withSign at h ⊢
  split at h <;> split <;> omega

theorem digitValue?_eq_some_iff {c : Char} {d : Nat} :
    digitValue? c = some d ↔ ('0' ≤ c ∧ c ≤ '9') ∧ d = c.toNat - '0'.toNat := by
  rw [digitValue?]
  split
  · next hc => simp [hc, eq_comm]
  · next hc => simp [hc]

theorem digitValue?_eq_none_iff {c : Char} : digitValue? c = none ↔ ¬('0' ≤ c ∧ c ≤ '9') := by
  rw [digitValue?]
  split
  · next hc => simp [hc]
  · next hc => simp [hc]

/-- A digit after those read so far extends the number, as long as this stays within 64 bits. -/
theorem boundFrom_cons_eq_ok_iff {c : Char} :
    boundFrom negative (withSign negative m) (c :: digits) = .ok n ↔
      ('0' ≤ c ∧ c ≤ '9') ∧ Signed (withSign negative (10 * m + (c.toNat - '0'.toNat))) ∧
        boundFrom negative (withSign negative (10 * m + (c.toNat - '0'.toNat))) digits = .ok n := by
  rw [boundFrom]
  cases hvalue : digitValue? c with
  | none => simp [digitValue?_eq_none_iff.mp hvalue]
  | some d =>
      obtain ⟨hc, rfl⟩ := digitValue?_eq_some_iff.mp hvalue
      have hnext : (if negative then 10 * withSign negative m - ((c.toNat - '0'.toNat : Nat) : Int)
          else 10 * withSign negative m + ((c.toNat - '0'.toNat : Nat) : Int)) =
          withSign negative (10 * m + (c.toNat - '0'.toNat)) := by
        cases negative <;> simp only [withSign, if_true, Bool.false_eq_true, if_false] <;> omega
      simp only [hnext, signed_iff]
      generalize withSign negative (10 * m + (c.toNat - '0'.toNat)) = next
      split
      · next hlow => simp [Int.not_le.mpr hlow]
      · next hlow =>
          split
          · next hhigh => simp [Int.not_le.mpr hhigh]
          · next hhigh => simp [Int.not_lt.mp hlow, Int.not_lt.mp hhigh, hc]

/-- Digits are read exactly when all of them are ASCII ones and the number stays in range. -/
theorem boundFrom_eq_ok_iff (hm : Signed (withSign negative m)) :
    boundFrom negative (withSign negative m) digits = .ok n ↔
      (∀ c ∈ digits, '0' ≤ c ∧ c ≤ '9') ∧ Signed (withSign negative (magnitudeFrom m digits)) ∧
        n = withSign negative (magnitudeFrom m digits) := by
  induction digits generalizing m with
  | nil => simp [boundFrom, magnitudeFrom, hm, eq_comm]
  | cons c digits ih =>
      rw [boundFrom_cons_eq_ok_iff, List.forall_mem_cons]
      constructor
      · rintro ⟨hc, hsigned, hrest⟩
        obtain ⟨hdigits, hvalue⟩ := (ih hsigned).mp hrest
        exact ⟨⟨hc, hdigits⟩, hvalue⟩
      · rintro ⟨⟨hc, hdigits⟩, hvalue, hn⟩
        -- the number read so far is within the one that all the digits make
        have hsigned := hvalue.of_le (le_magnitudeFrom digits)
        exact ⟨hc, hsigned, (ih hsigned).mpr ⟨hdigits, hvalue, hn⟩⟩

/-- A numeral is read exactly when it fits. -/
theorem bound_eq_ok_iff : bound t = .ok n ↔ Fits t ∧ n = value t := by
  have hzero : (0 : Int) = withSign t.1 0 := by cases t.1 <;> rfl
  rw [bound, hzero, boundFrom_eq_ok_iff (by rw [← hzero]; decide), Fits, value, and_assoc]

/-- The bounds are read exactly when all of them fit. -/
theorem mapM_bound_eq_ok_iff {bounds : List Int} :
    texts.mapM bound = .ok bounds ↔ (∀ t ∈ texts, Fits t) ∧ texts.map value = bounds := by
  simp only [Outcome.mapM_eq_ok_iff, bound_eq_ok_iff, List.forall₂_and_left]
  rw [← List.forall₂_eq_eq_eq, List.forall₂_map_left_iff]
  simp only [eq_comm]

/-- The levels of bounds of 64 bits are what exact arithmetic yields. -/
theorem yields_levels? (hstart : Signed b.start) (hstop : Signed b.stop) :
    Yields b.start b.stop b.step b.levels? := by
  rw [Bounds.levels?, Bounds.levels_eq hstart hstop]
  split
  · next hstep => exact .zeroStep hstep
  · next hstep =>
      rw [Bounds.count_eq hstep]
      split
      · next hmany => exact .tooManyLevels hstep hmany
      · next hfew =>
          have hlength := @Bounds.length_progression b.start b.step
            (Bounds.number b.start b.stop b.step)
          split
          · next hnil =>
              rw [hnil] at hlength
              exact .noLevels hstep hlength.symm
          · next hsome =>
              apply Yields.levels hstep (Nat.pos_of_ne_zero fun hzero => ?_) (Nat.not_lt.mp hfew)
              exact hsome (List.length_eq_zero_iff.mp (hlength.trans hzero))

/-- The bounds of one to three integers are what these mean. -/
theorem means_boundsOf (h : Written expression texts) :
    Means (texts.map value) (boundsOf (texts.map value)).start (boundsOf (texts.map value)).stop
      (boundsOf (texts.map value)).step := by
  cases h with
  | @intro t others _ _ _ _ _ _ _ _ hfew _ _ =>
      match others with
      | [] => exact .stop _
      | [_] => exact .span _ _
      | [_, _] => exact .steps _ _ _

/-- Bounds of numerals that fit begin and end within 64 bits. -/
theorem signed_boundsOf (h : ∀ t ∈ texts, Fits t) :
    Signed (boundsOf (texts.map value)).start ∧ Signed (boundsOf (texts.map value)).stop := by
  have hzero : Signed 0 := by decide
  match texts, h with
  | [], _ => exact ⟨hzero, hzero⟩
  | [stop], h => exact ⟨hzero, (h stop (by simp)).2⟩
  | [start, stop], h => exact ⟨(h start (by simp)).2, (h stop (by simp)).2⟩
  | [start, stop, _], h => exact ⟨(h start (by simp)).2, (h stop (by simp)).2⟩
  | _ :: _ :: _ :: _ :: _, _ => exact ⟨hzero, hzero⟩

/-- A text is a range expression exactly when the grammar has it, and it then stands for what exact
arithmetic says. -/
theorem parse_exact (expression : String) :
    (∀ texts, Written expression texts → (∃ t ∈ texts, ¬Fits t) →
      ∃ cause, parse expression = some (.error (.badBound cause))) ∧
    (∀ texts, Written expression texts → (∀ t ∈ texts, Fits t) →
      ∃ start stop step levels, Means (texts.map value) start stop step ∧
        Yields start stop step levels ∧ parse expression = some levels) ∧
    ((∀ texts, ¬Written expression texts) → parse expression = none) := by
  refine ⟨fun texts hwritten hbad => ?_, fun texts hwritten hfits => ?_, fun hnone => ?_⟩
  · cases hread : texts.mapM bound with
    | ok bounds =>
        obtain ⟨t, ht, hfits⟩ := hbad
        exact absurd ((mapM_bound_eq_ok_iff.mp hread).1 t ht) hfits
    | error cause =>
        exact ⟨cause, by rw [parse, boundTexts_eq_some_iff.mpr hwritten, Option.map_some, hread]⟩
  · have hmeans := means_boundsOf hwritten
    obtain ⟨hstart, hstop⟩ := signed_boundsOf hfits
    refine ⟨_, _, _, _, hmeans, yields_levels? hstart hstop, ?_⟩
    rw [parse, boundTexts_eq_some_iff.mpr hwritten, Option.map_some,
      mapM_bound_eq_ok_iff.mpr ⟨hfits, rfl⟩]
  · have htexts : boundTexts expression = none := by
      cases htexts : boundTexts expression with
      | none => rfl
      | some texts => exact absurd (boundTexts_eq_some_iff.mp htexts) (hnone texts)
    rw [parse, htexts, Option.map_none]

/-- A bound beyond 64 bits, a range whose loop leaves them behind its last level, and a text that
is no range expression. -/
theorem parse_at_the_bounds :
    (∃ cause, parse "range(9223372036854775808)" = some (.error (.badBound cause))) ∧
    parse " range( 9223372036854775802 ,9223372036854775807, 04 )" =
      some (.ok [9223372036854775802, 9223372036854775806]) ∧
    parse "range()" = none := by
  refine ⟨?_, ?_, ?_⟩
  · have hwritten : Written "range(9223372036854775808)" [(false, "9223372036854775808".toList)] :=
      boundTexts_eq_some_iff.mp (by decide +kernel)
    exact (parse_exact _).1 _ hwritten (by decide +kernel)
  · have hwritten : Written " range( 9223372036854775802 ,9223372036854775807, 04 )"
        [(false, "9223372036854775802".toList), (false, "9223372036854775807".toList),
          (false, "04".toList)] :=
      boundTexts_eq_some_iff.mp (by decide +kernel)
    have hnumber : Bounds.number 9223372036854775802 9223372036854775807 4 = 2 := by
      rw [Bounds.number]
      norm_num
      rfl
    have hvalues : [(false, "9223372036854775802".toList), (false, "9223372036854775807".toList),
        (false, "04".toList)].map value = [9223372036854775802, 9223372036854775807, 4] := by
      decide +kernel
    obtain ⟨start, stop, step, levels, hmeans, hyields, hparse⟩ :=
      (parse_exact _).2.1 _ hwritten (by decide +kernel)
    rw [hvalues] at hmeans
    cases hmeans
    rw [hparse]
    cases hyields with
    | zeroStep h => cases h
    | noLevels _ h => exact absurd (hnumber.symm.trans h) (by decide)
    | tooManyLevels _ h => exact absurd (hnumber ▸ h) (by decide)
    | levels => rw [hnumber]; rfl
  · apply (parse_exact _).2.2
    intro texts hwritten
    have hnone : boundTexts "range()" = none := by decide +kernel
    rw [boundTexts_eq_some_iff.mpr hwritten] at hnone
    cases hnone

/-- A numeral with a digit of another script is one of the grammar, but neither a number of ASCII
digits nor read as one. -/
theorem parse_foreign_digit :
    Written "range(٣)" [(false, ['٣'])] ∧
    (∀ texts, Written "range(٣)" texts → ∃ t ∈ texts, ∃ c ∈ t.2, ¬('0' ≤ c ∧ c ≤ '9')) ∧
    parse "range(٣)" = some (.error (.badBound .invalidDigit)) := by
  have htexts : boundTexts "range(٣)" = some [(false, ['٣'])] := by decide +kernel
  refine ⟨boundTexts_eq_some_iff.mp htexts, ?_, by decide +kernel⟩
  intro texts hwritten
  rw [boundTexts_eq_some_iff.mpr hwritten] at htexts
  obtain rfl := Option.some.inj htexts
  exact ⟨_, List.mem_cons_self, '٣', List.mem_cons_self, by decide⟩

end Range

end ExperimentSuite
