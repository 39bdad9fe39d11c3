import ExperimentSuite.Proofs.Placeholder.Rounds

/-!
# How the resolution of a run fails

Every failure of a resolution is one of its placeholders and names a place: no
step of it, in any round, fails in another way, whatever the engine does and
whatever the run looks like. The mapping that holds a key can get lost to the
renamings of a round only; whatever all of these keep to, a resolution does.
-/

namespace ExperimentSuite

/-- A failure that a placeholder of a run has caused. -/
def Failure.IsTemplate (f : Failure) : Prop :=
  ∃ place problem, f = .template place problem

/-- Such a failure, other than the loss of the mapping that holds a key. -/
def Failure.SparesHolders (f : Failure) : Prop :=
  ∃ place problem, f = .template place problem ∧ problem ≠ .keyHolderMissing

theorem Failure.SparesHolders.isTemplate {f : Failure} (h : f.SparesHolders) : f.IsTemplate := by
  obtain ⟨place, problem, rfl, -⟩ := h
  exact ⟨place, problem, rfl⟩

namespace Resolution

open Outcome

variable {engine : Engine} {vars : List (String × Document)} {snapshot run commands : Document}
  {place : Place} {done : Round} {item : Pending} {pending : List Pending} {r : Rename}
  {rounds : Nat}

theorem isTemplate_template {text : String} {problem : PlaceholderProblem} :
    (Failure.template text problem).IsTemplate :=
  ⟨text, problem, rfl⟩

theorem sparesHolders_template {text : String} {problem : PlaceholderProblem}
    (h : problem ≠ .keyHolderMissing) : (Failure.template text problem).SparesHolders :=
  ⟨text, problem, rfl, h⟩

theorem ne_keyHolderMissing {α : Type} {x : Except Failure α}
    (h : FailsOnly Failure.SparesHolders x) (text : String) :
    x ≠ .error (.template text .keyHolderMissing) := by
  intro herror
  obtain ⟨_, problem, heq, hproblem⟩ := h _ herror
  cases heq
  exact hproblem rfl

theorem failsOnly_failAt {α : Type} {problem : PlaceholderProblem}
    (h : problem ≠ .keyHolderMissing) :
    FailsOnly Failure.SparesHolders (failAt place problem : Except Failure α) :=
  failsOnly_error (sparesHolders_template h)

theorem failsOnly_ofEngine {α : Type} {outcome : Except EngineFault α} :
    FailsOnly Failure.SparesHolders (ofEngine place outcome) :=
  failsOnly_mapError fun _ => sparesHolders_template (by simp)

theorem failsOnly_evaluate : FailsOnly Failure.SparesHolders (evaluate engine vars item) := by
  rw [evaluate]
  split
  · exact failsOnly_ofEngine.bind fun text => failsOnly_ok _
  · refine failsOnly_ofEngine.bind fun value => ?_
    cases value with
    | some value => exact failsOnly_ok _
    | none =>
        dsimp only
        split
        · exact failsOnly_ok _
        · exact failsOnly_failAt (by simp)

theorem failsOnly_step :
    FailsOnly Failure.SparesHolders (step engine snapshot vars done item) := by
  rw [step]
  refine failsOnly_ofEngine.bind fun references => ?_
  split
  · exact failsOnly_ok _
  · split
    · exact failsOnly_ofEngine.bind fun name => failsOnly_ok _
    · exact failsOnly_evaluate.bind fun value => failsOnly_ok _

theorem failsOnly_rename : FailsOnly Failure.IsTemplate (rename run r) := by
  rw [rename]
  split
  · dsimp only
    split
    · refine FailsOnly.bind ?_ fun fields => failsOnly_ok _
      rw [renameField]
      split
      · exact failsOnly_error isTemplate_template
      · split
        · exact failsOnly_ok _
        · exact failsOnly_ok _
    · exact failsOnly_error isTemplate_template
  · exact failsOnly_ok _

theorem failsOnly_resolveCommands :
    FailsOnly Failure.SparesHolders (resolveCommands engine vars run commands) := by
  refine failsOnly_foldlM fun item _ commands => ?_
  rw [commandStep]
  split
  · exact failsOnly_failAt (by simp)
  · refine failsOnly_ofEngine.bind fun _ => failsOnly_ofEngine.bind fun text => ?_
    split
    · exact failsOnly_failAt (by simp)
    · exact failsOnly_ok _

section Renamings

variable {p : Failure → Prop} (hp : ∀ f, f.SparesHolders → p f)

include hp

/-- Apart from its renamings a round never loses the mapping that holds a key. -/
theorem failsOnly_round_of_renames
    (h : ∀ done, pending.foldlM (step engine run (context run vars)) ⟨run, [], false⟩ = .ok done →
      FailsOnly p (renameAll done.run done.renames)) :
    FailsOnly p (round engine vars run pending) := by
  rw [round]
  refine ((failsOnly_foldlM fun _ _ _ => failsOnly_step).mono hp).bind_of_ok fun done hdone => ?_
  split
  · exact failsOnly_error (hp _ (sparesHolders_template (by simp)))
  · exact h done hdone

theorem failsOnly_settle_of_rounds
    (h : ∀ n d, Reached engine vars run n d → FailsOnly p (round engine vars d (d.pendingAt []))) :
    FailsOnly p (settle engine vars rounds run) := by
  induction rounds generalizing run with
  | zero =>
      rw [settle.eq_def]
      dsimp only
      split
      · exact failsOnly_ok _
      · exact failsOnly_error (hp _ (sparesHolders_template (by simp)))
  | succ rounds ih =>
      rw [settle.eq_def]
      dsimp only
      split
      · exact failsOnly_ok _
      · refine (h 0 run .start).bind_of_ok fun next hnext => ih fun n d hreached => ?_
        exact h (n + 1) d (hreached.of_round hnext)

theorem failsOnly_resolve_of_rounds
    (h : ∀ n d, Reached engine vars (withoutCommands run) n d →
      FailsOnly p (round engine vars d (d.pendingAt []))) :
    FailsOnly p (resolve engine vars run) := by
  rw [resolve.eq_def]
  cases run with
  | map fields =>
      dsimp only
      split
      · exact failsOnly_error (hp _ (sparesHolders_template (by simp)))
      · refine (failsOnly_settle_of_rounds hp h).bind fun resolved => ?_
        cases Keyed.find? Vocabulary.command fields with
        | some commands =>
            exact (failsOnly_resolveCommands.mono hp).bind fun _ => failsOnly_ok _
        | none => exact failsOnly_ok _
  | _ =>
      dsimp only
      split
      · exact failsOnly_error (hp _ (sparesHolders_template (by simp)))
      · exact failsOnly_error (hp _ (sparesHolders_template (by simp)))

end Renamings

theorem failsOnly_round :
    FailsOnly Failure.IsTemplate (round engine vars run pending) := by
  refine failsOnly_round_of_renames (fun _ h => h.isTemplate) fun done _ => ?_
  exact failsOnly_foldlM fun _ _ _ => failsOnly_rename

/-- A resolution fails because of a placeholder only. -/
theorem failsOnly_resolve : FailsOnly Failure.IsTemplate (resolve engine vars run) :=
  failsOnly_resolve_of_rounds (fun _ h => h.isTemplate) fun _ _ _ => failsOnly_round

end Resolution

end ExperimentSuite
