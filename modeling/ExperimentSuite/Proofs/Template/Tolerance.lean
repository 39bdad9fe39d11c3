import ExperimentSuite.Proofs.Placeholder.Tolerance
import ExperimentSuite.Template.Engine

/-!
# The tolerant template engine extends the strict one

A strict setting adds faults of undefined values and changes nothing else. What
an operation yields under it, it yields when undefined values are tolerated, and
so does every expression and every statement that is made of such operations.
-/

namespace ExperimentSuite

namespace Template

open Outcome

namespace Value

theorem follows_demandDefined (tolerant : Bool) (v : Value) :
    Follows Eq (v.demandDefined tolerant) (v.demandDefined true) := by
  rw [demandDefined.eq_def, demandDefined.eq_def]
  split
  · cases tolerant with
    | true => exact follows_refl _
    | false => exact follows_error _
  · exact follows_refl _

theorem follows_unlessUndefined (tolerant : Bool) (v result : Value) :
    Follows Eq
      (if v.isUndefined && !tolerant then .error EngineFault.undefinedValue else .ok result)
      (if v.isUndefined && !true then .error EngineFault.undefinedValue else .ok result) := by
  rw [Bool.not_true, Bool.and_false]
  split
  · exact follows_error _
  · exact follows_refl _

theorem follows_field (tolerant : Bool) (v : Value) (name : String) :
    Follows Eq (v.field tolerant name) (v.field true name) := by
  unfold field
  dsimp only
  split
  · exact follows_refl _
  · exact follows_unlessUndefined tolerant v missing

theorem follows_item (tolerant : Bool) (v key : Value) :
    Follows Eq (v.item tolerant key) (v.item true key) := by
  unfold item
  split
  · exact follows_refl _
  · exact follows_unlessUndefined tolerant v missing

theorem follows_truth (tolerant : Bool) (v : Value) :
    Follows Eq (v.truth tolerant) (v.truth true) :=
  (follows_demandDefined tolerant v).bind_eq fun _ => follows_refl _

theorem follows_iterate (tolerant : Bool) (v : Value) :
    Follows Eq (v.iterate tolerant) (v.iterate true) :=
  (follows_demandDefined tolerant v).bind_eq fun _ => follows_refl _

theorem follows_isAmong (tolerant : Bool) (v container : Value) :
    Follows Eq (v.isAmong tolerant container) (v.isAmong true container) :=
  (follows_demandDefined tolerant container).bind_eq fun _ => follows_refl _

theorem follows_compareBy (tolerant : Bool) (c : Comparison) (a b : Value) :
    Follows Eq (compareBy tolerant c a b) (compareBy true c a b) := by
  cases c with
  | among => exact follows_isAmong tolerant a b
  | notAmong => exact (follows_isAmong tolerant a b).bind_eq fun _ => follows_refl _
  | _ => exact follows_refl _

end Value

namespace Filter

theorem follows_wantedText (tolerant : Bool) (v : Value) :
    Follows Eq (wantedText tolerant v) (wantedText true v) :=
  (v.follows_demandDefined tolerant).bind_eq fun _ => follows_refl _

theorem follows_join (tolerant : Bool) (v : Value) (separator : Option Value) :
    Follows Eq (join tolerant v separator) (join true v separator) := by
  unfold join
  refine Follows.bind_eq ?_ fun _ => follows_refl _
  split
  · exact follows_refl _
  · exact follows_refl _
  · exact follows_refl _
  · exact follows_wantedText tolerant _

theorem follows_apply (tolerant : Bool) (name : String) (v : Value) (arguments : List Value) :
    Follows Eq (apply tolerant name v arguments) (apply true name v arguments) := by
  have htext : ∀ f : String → Value, Follows Eq
      (do noArguments arguments; return f (← wantedText tolerant v))
      (do noArguments arguments; return f (← wantedText true v)) := fun f =>
    (follows_refl _).bind_eq fun _ =>
      (follows_wantedText tolerant v).bind_eq fun _ => follows_refl _
  rw [apply.eq_def, apply.eq_def]
  split
  · exact htext fun s => .str (Text.upper s)
  · exact htext fun s => .str (Text.lower s)
  all_goals try exact follows_refl _
  exact (follows_refl _).bind_eq fun separator => follows_join tolerant v separator

theorem follows_natural (tolerant : Bool) (v : Value) :
    Follows Eq (natural tolerant v) (natural true v) :=
  (v.follows_demandDefined tolerant).bind_eq fun _ => follows_refl _

theorem follows_optionalNatural (tolerant : Bool) (v : Value) :
    Follows Eq (optionalNatural tolerant v) (optionalNatural true v) := by
  rw [optionalNatural.eq_def, optionalNatural.eq_def]
  split
  · exact follows_refl _
  · exact follows_refl _
  · exact (follows_natural tolerant v).bind_eq fun _ => follows_refl _

theorem follows_range (tolerant : Bool) (arguments : List Value) :
    Follows Eq (range tolerant arguments) (range true arguments) := by
  cases arguments with
  | nil => exact follows_refl _
  | cons first rest =>
      refine (follows_natural tolerant first).bind_eq fun _ => ?_
      refine (follows_optionalNatural tolerant _).bind_eq fun _ => ?_
      exact (follows_optionalNatural tolerant _).bind_eq fun _ => follows_refl _

theorem follows_call (tolerant : Bool) (name : String) (arguments : List Value) :
    Follows Eq (call tolerant name arguments) (call true name arguments) := by
  rw [call.eq_def, call.eq_def]
  split
  · exact follows_range tolerant arguments
  all_goals exact follows_refl _

end Filter

namespace Setting

/-- The same scopes where undefined values are tolerated. -/
def relaxed (s : Setting) : Setting := { s with tolerant := true }

/-- That one setting is another one in which undefined values are tolerated. -/
def Relaxes (s s' : Setting) : Prop := s' = s.relaxed

@[simp] theorem relaxed_tolerant (s : Setting) : s.relaxed.tolerant = true := rfl

@[simp] theorem find?_relaxed (s : Setting) (name : String) :
    s.relaxed.find? name = s.find? name := rfl

theorem relaxed_bind (s : Setting) (name : String) (value : Value) :
    (s.bind name value).relaxed = s.relaxed.bind name value := by
  obtain ⟨tolerant, scopes⟩ := s
  cases scopes <;> rfl

@[simp] theorem relaxed_enter (s : Setting) (scope : Scope) :
    (s.enter scope).relaxed = s.relaxed.enter scope := rfl

@[simp] theorem relaxed_leave (s : Setting) : s.leave.relaxed = s.relaxed.leave := rfl

end Setting

namespace Expression

variable (s : Setting)

mutual

theorem follows_evaluate : ∀ e : Expression,
    Follows Eq (e.evaluate s) (e.evaluate s.relaxed)
  | .constant _ => follows_refl _
  | .lookup _ => follows_refl _
  | .list items => (follows_evaluateItems items).bind_eq fun _ => follows_refl _
  | .map entries => (follows_evaluateEntries [] entries).bind_eq fun _ => follows_refl _
  | .negate e => (follows_evaluate e).bind_eq fun _ => follows_refl _
  | .not e => (follows_evaluate e).bind_eq fun v =>
      (v.follows_truth s.tolerant).bind_eq fun _ => follows_refl _
  | .operate op left right => by
      refine (follows_evaluate left).bind_eq fun a => (follows_evaluate right).bind_eq fun b => ?_
      split
      · refine (a.follows_demandDefined s.tolerant).bind_eq fun _ => ?_
        exact (b.follows_demandDefined s.tolerant).bind_eq fun _ => follows_refl _
      · exact follows_refl _
  | .and left right => by
      refine (follows_evaluate left).bind_eq fun a => ?_
      refine (a.follows_truth s.tolerant).bind_eq fun holds => ?_
      cases holds with
      | true => exact follows_evaluate right
      | false => exact follows_refl _
  | .or left right => by
      refine (follows_evaluate left).bind_eq fun a => ?_
      refine (a.follows_truth s.tolerant).bind_eq fun holds => ?_
      cases holds with
      | true => exact follows_refl _
      | false => exact follows_evaluate right
  | .compare first rest => (follows_evaluate first).bind_eq fun a =>
      (follows_evaluateComparisons a rest).bind_eq fun _ => follows_refl _
  | .choose condition yes no => by
      refine (follows_evaluate condition).bind_eq fun c => ?_
      refine (c.follows_truth s.tolerant).bind_eq fun holds => ?_
      cases holds with
      | true => exact follows_evaluate yes
      | false => exact follows_evaluateOption no
  | .field e name => (follows_evaluate e).bind_eq fun v => v.follows_field s.tolerant name
  | .item e key => (follows_evaluate e).bind_eq fun v =>
      (follows_evaluate key).bind_eq fun k => v.follows_item s.tolerant k
  | .call callee arguments => by
      have harguments := follows_evaluateItems arguments
      cases callee with
      | lookup name =>
          refine harguments.bind_eq fun values => ?_
          rw [s.find?_relaxed]
          split
          · exact follows_error _
          · exact Filter.follows_call s.tolerant name values
      | field e name => exact (follows_evaluate e).bind_eq fun _ =>
          harguments.bind_eq fun _ => follows_error _
      | _ => exact (follows_evaluate _).bind_eq fun _ =>
          harguments.bind_eq fun _ => follows_error _
  | .filter e name arguments => (follows_evaluate e).bind_eq fun v =>
      (follows_evaluateItems arguments).bind_eq fun values =>
        Filter.follows_apply s.tolerant name v values
  | .test e name arguments => (follows_evaluate e).bind_eq fun v =>
      (follows_evaluateItems arguments).bind_eq fun values => follows_refl _

theorem follows_evaluateItems : ∀ items : List Expression,
    Follows Eq (evaluateItems s items) (evaluateItems s.relaxed items)
  | [] => follows_refl _
  | e :: rest => (follows_evaluate e).bind_eq fun _ =>
      (follows_evaluateItems rest).bind_eq fun _ => follows_refl _

theorem follows_evaluateEntries : ∀ (known : List (Value × Value))
    (entries : List (Expression × Expression)),
    Follows Eq (evaluateEntries s known entries) (evaluateEntries s.relaxed known entries)
  | _, [] => follows_refl _
  | known, (k, e) :: rest => (follows_evaluate k).bind_eq fun key =>
      (follows_evaluate e).bind_eq fun v =>
        follows_evaluateEntries (Value.insertEntry key v known) rest

theorem follows_evaluateComparisons : ∀ (a : Value) (rest : List (Comparison × Expression)),
    Follows Eq (evaluateComparisons s a rest) (evaluateComparisons s.relaxed a rest)
  | _, [] => follows_refl _
  | a, (c, e) :: rest => by
      refine (follows_evaluate e).bind_eq fun b => ?_
      refine (Value.follows_compareBy s.tolerant c a b).bind_eq fun holds => ?_
      cases holds with
      | true => exact follows_evaluateComparisons b rest
      | false => exact follows_refl _

theorem follows_evaluateOption : ∀ e : Option Expression,
    Follows Eq (evaluateOption s e) (evaluateOption s.relaxed e)
  | none => follows_refl _
  | some e => follows_evaluate e

end

end Expression

namespace Target

mutual

theorem follows_assign (s : Setting) : ∀ (value : Value) (target : Target),
    Follows Setting.Relaxes (target.assign s value) (target.assign s.relaxed value)
  | value, .name n => by
      rw [assign, assign]
      exact follows_ok (s.relaxed_bind n value).symm
  | .list values, .items targets => follows_assignAll s values targets
  | .undefined _, .items _ => follows_error _
  | .null, .items _ => follows_error _
  | .bool _, .items _ => follows_error _
  | .int _, .items _ => follows_error _
  | .float _, .items _ => follows_error _
  | .str _, .items _ => follows_error _
  | .map _, .items _ => follows_error _

theorem follows_assignAll (s : Setting) : ∀ (values : List Value) (targets : List Target),
    Follows Setting.Relaxes (assignAll s values targets) (assignAll s.relaxed values targets)
  | [], [] => follows_ok rfl
  | v :: values, t :: targets => by
      refine (follows_assign s v t).bind fun after after' hafter => ?_
      rw [hafter]
      exact follows_assignAll after values targets
  | [], _ :: _ => follows_error _
  | _ :: _, [] => follows_error _

end

end Target

namespace Rendering

/-- The same state where undefined values are tolerated. -/
def relaxed (r : Rendering) : Rendering := { r with setting := r.setting.relaxed }

/-- That one state is another one in which undefined values are tolerated. -/
def Relaxes (r r' : Rendering) : Prop := r' = r.relaxed

end Rendering

namespace Statement

theorem follows_guarded (s : Setting) (target : Target) (guard : Option Expression)
    (items : List Value) :
    Follows Eq (guarded s target guard items) (guarded s.relaxed target guard items) := by
  cases guard with
  | none => exact follows_refl _
  | some guard =>
      refine follows_filterM fun item _ => ?_
      refine (target.follows_assign (s.enter []) item).bind fun inner inner' hinner => ?_
      rw [hinner]
      exact (guard.follows_evaluate inner).bind_eq fun v => v.follows_truth s.tolerant

mutual

theorem follows_render (r : Rendering) : ∀ s : Statement,
    Follows Rendering.Relaxes (s.render r) (s.render r.relaxed)
  | .text s => follows_ok rfl
  | .output e => (e.follows_evaluate r.setting).bind_eq fun v =>
      (v.follows_demandDefined r.setting.tolerant).bind_eq fun _ => follows_ok rfl
  | .branch condition yes no => by
      refine (condition.follows_evaluate r.setting).bind_eq fun c => ?_
      refine (c.follows_truth r.setting.tolerant).bind_eq fun holds => ?_
      cases holds with
      | true => exact follows_renderAll r yes
      | false => exact follows_renderAll r no
  | .loop target items guard body alternative => by
      refine (items.follows_evaluate r.setting).bind_eq fun v => ?_
      refine (v.follows_iterate r.setting.tolerant).bind_eq fun values => ?_
      refine (follows_guarded r.setting target guard values).bind_eq fun kept => ?_
      split
      · exact follows_renderAll r alternative
      · refine (follows_foldlM (R := Rendering.Relaxes) ?_ rfl).bind ?_
        · rintro item - round _ rfl
          rw [Rendering.relaxed, ← Setting.relaxed_bind]
          refine (target.follows_assign _ item.1).bind fun here here' hhere => ?_
          rw [hhere]
          exact follows_renderAll { round with setting := here } body
        · rintro done _ rfl
          exact follows_ok rfl
  | .assign target e => by
      refine (e.follows_evaluate r.setting).bind_eq fun v => ?_
      refine (target.follows_assign r.setting v).bind fun after after' hafter => ?_
      rw [hafter]
      exact follows_ok rfl
  | .capture target body => by
      refine (follows_renderAll { r with output := "" } body).bind fun done done' hdone => ?_
      rw [hdone]
      refine (target.follows_assign done.setting _).bind fun after after' hafter => ?_
      rw [hafter]
      exact follows_ok rfl

theorem follows_renderAll (r : Rendering) : ∀ statements : List Statement,
    Follows Rendering.Relaxes (renderAll r statements)
      (renderAll r.relaxed statements)
  | [] => follows_ok rfl
  | s :: rest => by
      refine (follows_render r s).bind fun next next' hnext => ?_
      rw [hnext]
      exact follows_renderAll next rest

end

end Statement

/-- The tolerant template engine extends the strict one. -/
theorem extends_engine : (engine false).Extends (engine true) where
  references _ _ h := h
  render vars source := by
    refine follows_eq_iff.mp ((follows_refl _).bind_eq fun statements => ?_)
    refine (Statement.follows_renderAll _ statements).bind fun done done' hdone => ?_
    rw [hdone]
    exact follows_ok rfl
  evaluate vars source value h := by
    refine follows_eq_iff.mp ?_ _ h
    refine (follows_refl _).bind_eq fun e => ?_
    exact (e.follows_evaluate _).bind_eq fun v => follows_refl _

end Template

end ExperimentSuite
