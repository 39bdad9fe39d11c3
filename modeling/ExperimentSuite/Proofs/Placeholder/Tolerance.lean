import ExperimentSuite.Proofs.Placeholder.Independence

/-!
# Tolerance extends strictness

An engine extends another one if it agrees with it wherever that one comes to a
defined result. A resolution that succeeds with a strict engine meets defined
results only, so that it takes the same steps with every engine that extends it:
the same sources are ready, a round makes the same progress and the same keys
are renamed.
-/

namespace ExperimentSuite

/-- What one engine compiles, renders or evaluates to something defined, another one does to the
same. -/
structure Engine.Extends (strict tolerant : Engine) : Prop where
  references : ∀ source names, strict.references source = .ok names →
    tolerant.references source = .ok names
  render : ∀ vars source text, strict.render vars source = .ok text →
    tolerant.render vars source = .ok text
  evaluate : ∀ vars source value, strict.evaluate vars source = .ok (some value) →
    tolerant.evaluate vars source = .ok (some value)

namespace Resolution

open Outcome

variable {strict tolerant : Engine} (h : strict.Extends tolerant)

include h

theorem follows_references (item : Pending) :
    Follows Eq (ofEngine item.place (strict.references item.source))
      (ofEngine item.place (tolerant.references item.source)) :=
  (follows_eq_iff.mpr (h.references item.source)).mapError

theorem follows_render (vars : List (String × Document)) (item : Pending) :
    Follows Eq (ofEngine item.place (strict.render vars item.source))
      (ofEngine item.place (tolerant.render vars item.source)) :=
  (follows_eq_iff.mpr (h.render vars item.source)).mapError

variable (hstrict : strict.tolerant = false)

include hstrict

/-- Where a strict engine yields a value, the source was defined. -/
theorem follows_evaluate (vars : List (String × Document)) (item : Pending) :
    Follows Eq (evaluate strict vars item) (evaluate tolerant vars item) := by
  rw [evaluate.eq_def, evaluate.eq_def]
  cases Placeholder.singleExpression? item.source with
  | none => exact (follows_render h vars item).bind_eq fun text => follows_refl _
  | some expression =>
      intro d hd
      obtain ⟨value, hvalue, hd⟩ := bind_eq_ok.mp hd
      cases value with
      | none =>
          simp only [hstrict] at hd
          cases hd
      | some value =>
          have hextends := h.evaluate vars expression value (mapError_eq_ok.mp hvalue)
          refine ⟨d, bind_eq_ok.mpr ⟨some value, mapError_eq_ok.mpr hextends, hd⟩, rfl⟩

theorem follows_step (snapshot : Document) (vars : List (String × Document)) (start : Round)
    (item : Pending) :
    Follows Eq (step strict snapshot vars start item) (step tolerant snapshot vars start item) := by
  refine (follows_references h item).bind_eq fun references => ?_
  split
  · exact follows_refl _
  · split
    · exact (follows_render h vars item).bind_eq fun name => follows_refl _
    · exact (follows_evaluate h hstrict vars item).bind_eq fun value => follows_refl _

theorem follows_round (vars : List (String × Document)) (run : Document) (items : List Pending) :
    Follows Eq (round strict vars run items) (round tolerant vars run items) := by
  refine Follows.bind_eq ?_ fun done => follows_refl _
  refine follows_foldlM (fun item _ start start' heq => ?_) rfl
  rw [heq]
  exact follows_step h hstrict run (context run vars) start' item

theorem follows_settle (vars : List (String × Document)) (rounds : Nat) (run : Document) :
    Follows Eq (settle strict vars rounds run) (settle tolerant vars rounds run) := by
  induction rounds generalizing run with
  | zero =>
      rw [settle, settle]
      exact follows_refl _
  | succ rounds ih =>
      rw [settle, settle]
      split
      · exact follows_refl _
      · exact (follows_round h hstrict vars run _).bind_eq ih

/-- A command that a strict engine accepts has no placeholder left to be tolerated. -/
theorem follows_commandStep (vars : List (String × Document)) (commands : Document)
    (item : Pending) :
    Follows Eq (commandStep strict vars commands item)
      (commandStep tolerant vars commands item) := by
  rw [commandStep, commandStep]
  cases item.isKey with
  | true => exact follows_error _
  | false =>
      refine (follows_references h item).bind_eq fun _ => ?_
      refine (follows_render h vars item).bind_eq fun text => ?_
      cases htext : Placeholder.occursIn text with
      | true =>
          rw [hstrict]
          exact follows_error _
      | false => exact follows_refl _

theorem follows_resolveCommands (vars : List (String × Document)) (run commands : Document) :
    Follows Eq (resolveCommands strict vars run commands)
      (resolveCommands tolerant vars run commands) := by
  refine follows_foldlM (fun item _ d d' heq => ?_) rfl
  rw [heq]
  exact follows_commandStep h hstrict (context run vars) d' item

theorem follows_resolveFields (vars : List (String × Document)) (run : Document) :
    Follows Eq (resolveFields strict vars run) (resolveFields tolerant vars run) := by
  rw [resolveFields, resolveFields]
  split
  · exact follows_error _
  · split
    · exact follows_settle h hstrict vars _ _
    · exact follows_error _

theorem follows_finish (vars : List (String × Document)) (run resolved : Document) :
    Follows Eq (finish strict vars run resolved) (finish tolerant vars run resolved) := by
  rw [finish, finish]
  split
  · exact (follows_resolveCommands h hstrict vars resolved _).bind_eq fun _ => follows_refl _
  · exact follows_refl _

/-- What a strict engine resolves, an engine that extends it resolves to the same. -/
theorem follows_resolve (vars : List (String × Document)) (run : Document) :
    Follows Eq (resolve strict vars run) (resolve tolerant vars run) := by
  rw [resolve_eq_bind, resolve_eq_bind]
  exact (follows_resolveFields h hstrict vars run).bind_eq (follows_finish h hstrict vars run)

end Resolution

end ExperimentSuite
