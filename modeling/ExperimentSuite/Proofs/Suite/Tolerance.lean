import ExperimentSuite.Proofs.Suite.Expansion
import ExperimentSuite.Proofs.Template.Tolerance

/-!
# A preview agrees with a strict compilation

A preview tolerates undefined values and leftover delimiters in commands. Where a
strict engine resolves every run, there are none of either, and the preview has
the same runs in the same order and therefore the same digest.
-/

namespace ExperimentSuite

open Outcome

namespace Compilation

variable {strict tolerant : Engine} (h : strict.Extends tolerant)
  (hstrict : strict.tolerant = false)

include h hstrict

theorem follows_resolveFrom (vars : List (String × Document)) (name : String) (start : Nat)
    (runs : List Document) :
    Follows Eq (resolveFrom strict vars name start runs)
      (resolveFrom tolerant vars name start runs) := by
  induction runs generalizing start with
  | nil => exact follows_refl _
  | cons run rest ih =>
      refine (Resolution.follows_resolve h hstrict vars run).mapError.bind_eq fun first => ?_
      exact (ih (start + 1)).bind_eq fun others => follows_refl _

theorem follows_experimentRuns (s : PreparedSuite) (options : CompileOptions) (name : String)
    (e : PreparedExperiment) :
    Follows Eq (experimentRuns s { options with engine := strict } name e)
      (experimentRuns s { options with engine := tolerant } name e) :=
  (follows_refl _).bind_eq fun expanded => follows_resolveFrom h hstrict _ name 0 expanded

end Compilation

namespace PreparedSuite

theorem follows_expand {strict tolerant : Engine} (h : strict.Extends tolerant)
    (hstrict : strict.tolerant = false) (s : PreparedSuite) (options : CompileOptions) :
    Follows Eq (s.expand { options with engine := strict })
      (s.expand { options with engine := tolerant }) := by
  refine (follows_mapM fun e _ => ?_).bind_eq fun runs => follows_refl _
  exact (Compilation.follows_experimentRuns h hstrict s options e.1 e.2).bind_eq
    fun runs => follows_refl _

/-- An engine that extends a strict one resolves every run that the strict one resolves to the same
document, and expands every suite that the strict one expands to the same runs. -/
theorem tolerance_conservative {strict tolerant : Engine} (h : strict.Extends tolerant)
    (hstrict : strict.tolerant = false) :
    (∀ vars run out, Resolution.resolve strict vars run = .ok out →
      Resolution.resolve tolerant vars run = .ok out) ∧
    ∀ (s : PreparedSuite) (options : CompileOptions) (compiled : CompiledSuite),
      s.expand { options with engine := strict } = .ok compiled →
        ∃ preview, s.expand { options with engine := tolerant } = .ok preview ∧
          preview.runs = compiled.runs ∧ preview.digest = compiled.digest := by
  constructor
  · intro vars run out hout
    exact follows_eq_iff.mp (Resolution.follows_resolve h hstrict vars run) out hout
  · intro s options compiled hcompiled
    exact ⟨compiled, follows_eq_iff.mp (follows_expand h hstrict s options) compiled hcompiled,
      rfl, rfl⟩

/-- An experiment whose command reads a field of its run. -/
def sizedPrepared : PreparedExperiment where
  spec := {
    repetitions := 1
    commonRoles := []
    hostTypes := [("client",
      ⟨1, true, [], .list [.map [("main", .str "run [% my_run.size %]")]]⟩)]
    configuration := .map [("size", .nat 2)]
    factorLevels := [.empty]
    exceptFilters := [] }
  plan := ⟨.map [("size", .nat 2)], [], []⟩

/-- A suite of this experiment. -/
def sizedSuite : PreparedSuite where
  project := "prj"
  suite := "sized"
  vars := .empty
  pipelines := none
  experiments := [("exp", sizedPrepared)]

/-- The only run of the suite. -/
def sizedRun : Document :=
  Resolution.attach
    (.map [("client", .list [.map [("main", .str "run [% my_run.size %]")]])])
    (.map [("size", .nat 2)])

/-- The run with its command rendered. -/
def sizedResolved : Document :=
  Resolution.attach (.map [("client", .list [.map [("main", .str "run 2")]])])
    (.map [("size", .nat 2)])

/-- The variables of the experiment. -/
def sizedVars : List (String × Document) :=
  [("exp_name", .str "exp"), ("prj_id", .str "prj"), ("suite", .str "sized")]

/-- All experiments, without variables and with a given engine. -/
def plainOptions (engine : Engine) : CompileOptions := ⟨engine, fun _ => true, []⟩

theorem resolve_sizedRun :
    Resolution.resolve (Template.engine false) sizedVars sizedRun = .ok sizedResolved := by
  have hplain : (Document.map [("size", .nat 2)]).Plain := by
    rfl
  have hrender : (Template.engine false).render
      (Resolution.context (.map [("size", .nat 2)]) sizedVars) "run [% my_run.size %]" =
        .ok "run 2" := by
    decide +kernel
  have hcommands : Resolution.resolveCommands (Template.engine false) sizedVars
      (.map [("size", .nat 2)])
      (.map [("client", .list [.map [("main", .str "run [% my_run.size %]")]])]) =
        .ok (.map [("client", .list [.map [("main", .str "run 2")]])]) := by
    rw [Resolution.resolveCommands_eq]
    exact foldlM_cons_eq_ok.mpr ⟨_, Resolution.commandText_eq_ok.mpr
      ⟨rfl, ⟨_, Resolution.references_templatedCommands⟩, _, hrender, fun _ => by decide, rfl⟩, rfl⟩
  exact Resolution.resolve_eq_ok.mpr ⟨by decide, _, _, rfl, Resolution.settle_of_plain _ hplain,
    .inr ⟨_, _, rfl, hcommands, rfl⟩⟩

theorem expand_sizedSuite : sizedSuite.expand (plainOptions (Template.engine false)) =
    .ok ⟨"sized", [("exp", [sizedResolved])]⟩ := by
  have hruns : Expansion.runs "exp" sizedPrepared.plan sizedPrepared.spec.factorLevels
      sizedPrepared.spec.exceptFilters sizedPrepared.commands = .ok [sizedRun] := by
    rfl
  have hvars : Compilation.variablesOf "prj" "sized" "exp" [] = sizedVars := by
    rfl
  have hexperiment : Compilation.experimentRuns sizedSuite (plainOptions (Template.engine false))
      "exp" sizedPrepared = .ok [sizedResolved] := by
    refine bind_eq_ok.mpr ⟨_, hruns, ?_⟩
    rw [sizedSuite, plainOptions, hvars, Compilation.resolveFrom, resolve_sizedRun]
    rfl
  exact bind_eq_ok.mpr ⟨_, mapM_cons_eq_ok.mpr
    ⟨_, bind_eq_ok.mpr ⟨_, hexperiment, rfl⟩, [], rfl, rfl⟩, rfl⟩

theorem conservative_templateEngine :
    ((Template.engine false).Extends (Template.engine true) ∧
      (Template.engine false).tolerant = false) ∧
    Resolution.resolve (Template.engine true) sizedVars sizedRun = .ok sizedResolved ∧
      ∃ preview, sizedSuite.expand (plainOptions (Template.engine true)) = .ok preview ∧
        preview.runs = [("exp", [sizedResolved])] := by
  have hextends : (Template.engine false).Extends (Template.engine true) := Template.extends_engine
  obtain ⟨hresolve, hexpand⟩ := tolerance_conservative hextends rfl
  obtain ⟨preview, hpreview, hruns, -⟩ :=
    hexpand sizedSuite (plainOptions (Template.engine false)) _ expand_sizedSuite
  exact ⟨⟨hextends, rfl⟩, hresolve _ _ _ resolve_sizedRun, preview, hpreview, hruns⟩

end PreparedSuite

end ExperimentSuite
