import ExperimentSuite.Proofs.Placeholder.Commands
import ExperimentSuite.Proofs.Template.Ordered

/-!
# A strictly resolved run is stable

The rounds end only when no text and no key among the fields is pending, and the
commands have no key that is pending and no text that renders to a placeholder.
Nothing is left to resolve in the run that comes out, so resolving it again with
the same variables gives it back.
-/

namespace ExperimentSuite

namespace Document

variable {d c : Document} {key : String} {fields : List (String × Document)}

theorem Plain.erase (h : (map fields).Plain) : (map (Keyed.erase key fields)).Plain :=
  plain_map_iff.mpr fun e he => plain_map_iff.mp h e (Keyed.mem_of_mem_erase he)

theorem Plain.insert (h : (map fields).Plain) (hkey : Placeholder.occursIn key = false)
    (hc : c.Plain) : (map (Keyed.insert key c fields)).Plain := by
  apply plain_map_iff.mpr
  intro e he
  rcases Keyed.mem_insert he with rfl | hmem
  · exact ⟨hkey, hc⟩
  · exact plain_map_iff.mp h e hmem

/-- A document without placeholders has none in the texts at its places. -/
theorem Plain.text {place : Place} {s : String} (h : d.Plain) (hd : d.Ordered)
    (hat : d.at? place = some (.str s)) : Placeholder.occursIn s = false := by
  have hhas : d.HasAt ⟨place, s, false⟩ place := .inl ⟨rfl, hat⟩
  have hsource := h.not_hasAt hd hhas
  exact hsource

/-- A document without placeholders has none in the keys on the way to its places. -/
theorem Plain.keyAt {place : Place} (h : d.Plain) (hd : d.Ordered)
    (hat : (d.at? (place ++ [.key key])).isSome) : Placeholder.occursIn key = false := by
  have hhas : d.HasAt ⟨place, key, true⟩ (place ++ [.key key]) := .inr ⟨rfl, hat, place, rfl⟩
  have hsource := h.not_hasAt hd hhas
  exact hsource

end Document

namespace Resolution

open Document

variable {engine : Engine} {vars : List (String × Document)} {run out c d : Document}

theorem occursIn_command : Placeholder.occursIn Vocabulary.command = false := by
  decide

theorem plain_attach (hd : d.Plain) (hc : c.Plain) : (attach c d).Plain := by
  cases d with
  | map fields =>
      rw [attach]
      exact hd.insert occursIn_command hc
  | _ => exact hd

theorem ordered_attach (hd : d.Ordered) (hc : c.Ordered) : (attach c d).Ordered := by
  cases d with
  | map fields =>
      rw [attach]
      exact hd.insert hc
  | _ => exact hd

theorem ordered_of_resolve (hengine : engine.Orderly) (hd : run.Ordered)
    (h : resolve engine vars run = .ok out) : out.Ordered := by
  obtain ⟨-, fields, resolved, rfl, hsettle, h⟩ := resolve_eq_ok.mp h
  have hordered := (settle_spec hengine hd.erase hsettle).1
  rcases h with ⟨-, rfl⟩ | ⟨commands, rendered, hfound, hrendered, rfl⟩
  · exact hordered
  · have hcommands : commands.Ordered := hd.find? hfound
    exact ordered_attach hordered (commandsRendered_of_resolveCommands hcommands hrendered).ordered

/-- What a strict resolution leaves is without placeholders. -/
theorem plain_of_resolve (hengine : engine.Orderly) (hstrict : engine.tolerant = false)
    (hd : run.Ordered) (h : resolve engine vars run = .ok out) : out.Plain := by
  obtain ⟨-, fields, resolved, rfl, hsettle, h⟩ := resolve_eq_ok.mp h
  have hplain := (settle_spec hengine hd.erase hsettle).2.1
  rcases h with ⟨-, rfl⟩ | ⟨commands, rendered, hfound, hrendered, rfl⟩
  · exact hplain
  · have hcommands : commands.Ordered := hd.find? hfound
    have hspec := commandsRendered_of_resolveCommands hcommands hrendered
    exact plain_attach hplain (hspec.plain hcommands hstrict)

theorem isMap_of_resolve (hengine : engine.Orderly) (hd : run.Ordered)
    (h : resolve engine vars run = .ok out) : out.isMap = true := by
  obtain ⟨hmap, resolved, hsettle, hout, -⟩ := resolve_cases h
  rw [hout]
  exact (settle_spec hengine (ordered_withoutCommands hd) hsettle).2.2.isMap
    (isMap_withoutCommands run ▸ hmap)

/-- A run without placeholders is resolved to itself. -/
theorem resolve_of_plain (hvars : Keyed.hasKey Vocabulary.runBinding vars = false)
    (hmap : run.isMap = true) (hd : run.Ordered) (hplain : run.Plain) :
    resolve engine vars run = .ok run := by
  obtain ⟨fields, rfl⟩ := isMap_iff.mp hmap
  refine resolve_eq_ok.mpr ⟨hvars, fields, _, rfl, settle_of_plain _ hplain.erase, ?_⟩
  cases hfound : Keyed.find? Vocabulary.command fields with
  | none => exact .inl ⟨rfl, by rw [Keyed.erase_eq_self hfound]⟩
  | some commands =>
      have hcommands : commands.Plain :=
        (plain_map_iff.mp hplain _ (Keyed.mem_of_find? hfound)).2
      refine .inr ⟨commands, commands, rfl, ?_, ?_⟩
      · rw [resolveCommands_eq, hcommands]
        rfl
      · rw [attach, Keyed.insert_erase_self hd.sorted hfound]

/-- Strict resolution leaves no placeholder in any text or key, and its result resolves to
itself. -/
theorem resolve_stable (hengine : engine.Orderly) (hstrict : engine.tolerant = false)
    (hd : run.Ordered) (h : resolve engine vars run = .ok out) :
    (∀ place s, out.at? place = some (.str s) → Placeholder.occursIn s = false) ∧
      (∀ place key, (out.at? (place ++ [.key key])).isSome → Placeholder.occursIn key = false) ∧
        resolve engine vars out = .ok out := by
  have hordered := ordered_of_resolve hengine hd h
  have hplain := plain_of_resolve hengine hstrict hd h
  obtain ⟨hvars, -⟩ := resolve_eq_ok.mp h
  refine ⟨fun place s => hplain.text hordered, fun place key => hplain.keyAt hordered, ?_⟩
  exact resolve_of_plain hvars (isMap_of_resolve hengine hd h) hordered hplain

/-- Variables of a run. -/
def templatedVars : List (String × Document) := [("n", .nat 4), ("name", .str "x")]

/-- The commands of a run that read one of its fields. -/
def templatedCommands : Document :=
  .map [("client", .list [.map [("main", .str "run [% my_run.size %]")]])]

/-- The fields of a run with a placeholder in a key and one in a list. -/
def templatedFields : Document :=
  .map [("dirs", .map [("[% name %]", .nat 1)]), ("size", .list [.str "[% n %]"])]

/-- The fields with their placeholders resolved. -/
def templatedResolved : Document :=
  .map [("dirs", .map [("x", .nat 1)]), ("size", .list [.nat 4])]

/-- The commands rendered against them. -/
def templatedRendered : Document :=
  .map [("client", .list [.map [("main", .str "run [4]")]])]

theorem pendingAt_templatedFields : templatedFields.pendingAt [] =
    [⟨[.key "dirs", .key "[% name %]"], "[% name %]", true⟩,
      ⟨[.key "size", .index 0], "[% n %]", false⟩] := by
  rfl

theorem references_templatedFields :
    (Template.engine false).references "[% name %]" = .ok [["name"]] ∧
      (Template.engine false).references "[% n %]" = .ok [["n"]] := by
  constructor <;> decide +kernel

theorem render_templatedFields : (Template.engine false).render
    (context templatedFields templatedVars) "[% name %]" = .ok "x" := by
  decide +kernel

theorem evaluate_templatedVars (run : Document) (place : Place) :
    evaluate (Template.engine false) (context run templatedVars) ⟨place, "[% n %]", false⟩ =
      .ok (.nat 4) := by
  have hsingle : Placeholder.singleExpression? "[% n %]" = some "n" := by decide +kernel
  have hexpression : Template.expression? (Template.Token.ofExpression "n") =
      .ok (.lookup "n") := by
    rfl
  exact Template.evaluate_of_expression hsingle hexpression rfl rfl rfl

theorem round_templatedFields :
    round (Template.engine false) templatedVars templatedFields (templatedFields.pendingAt []) =
      .ok templatedResolved := by
  obtain ⟨hkey, htext⟩ := references_templatedFields
  have hput : templatedFields.putAt? [.key "size", .index 0] (.nat 4) =
      some (.map [("dirs", .map [("[% name %]", .nat 1)]), ("size", .list [.nat 4])]) := by
    rfl
  have hdone : (templatedFields.pendingAt []).foldlM (step (Template.engine false) templatedFields
      (context templatedFields templatedVars)) ⟨templatedFields, [], false⟩ =
        .ok ⟨.map [("dirs", .map [("[% name %]", .nat 1)]), ("size", .list [.nat 4])],
          [⟨[.key "dirs", .key "[% name %]"], "x"⟩], true⟩ := by
    rw [pendingAt_templatedFields]
    refine Outcome.foldlM_cons_eq_ok.mpr
      ⟨_, step_of_key hkey (by decide) rfl render_templatedFields, ?_⟩
    refine Outcome.foldlM_cons_eq_ok.mpr
      ⟨_, step_of_text htext (by decide) rfl (evaluate_templatedVars _ _), ?_⟩
    rw [hput]
    rfl
  rw [round_eq_renameAll hdone rfl, renameAll_singleton]
  rfl

theorem references_templatedCommands :
    (Template.engine false).references "run [% my_run.size %]" = .ok [["my_run", "size"]] := by
  decide +kernel

theorem render_templatedCommands : (Template.engine false).render
    (context templatedResolved templatedVars) "run [% my_run.size %]" = .ok "run [4]" := by
  decide +kernel

theorem resolveCommands_templated :
    resolveCommands (Template.engine false) templatedVars templatedResolved templatedCommands =
      .ok templatedRendered := by
  have hpending : templatedCommands.pendingAt [] =
      [⟨[.key "client", .index 0, .key "main"], "run [% my_run.size %]", false⟩] := by
    rfl
  rw [resolveCommands_eq, hpending]
  refine Outcome.foldlM_cons_eq_ok.mpr ⟨_, commandText_eq_ok.mpr ⟨rfl,
    ⟨_, references_templatedCommands⟩, _, render_templatedCommands, fun _ => by decide, rfl⟩, ?_⟩
  rfl

/-- A run with placeholders in a key, in a list and in its commands. -/
def templatedRun : Document := attach templatedCommands templatedFields

theorem resolve_templatedRun : resolve (Template.engine false) templatedVars templatedRun =
    .ok (attach templatedRendered templatedResolved) := by
  have hnot : ¬ templatedFields.Plain := by
    intro hplain
    rw [Plain, pendingAt_templatedFields] at hplain
    cases hplain
  have hresolved : templatedResolved.Plain := by
    rfl
  have hsettle : settle (Template.engine false) templatedVars Vocabulary.maxPlaceholderRounds
      templatedFields = .ok templatedResolved :=
    settle_of_single_round hnot round_templatedFields hresolved
  exact resolve_eq_ok.mpr ⟨by decide, _, templatedResolved, rfl, hsettle,
    .inr ⟨templatedCommands, templatedRendered, rfl, resolveCommands_templated, rfl⟩⟩

theorem stable_templatedRun :
    let out := attach templatedRendered templatedResolved
    ((Template.engine false).Orderly ∧ (Template.engine false).tolerant = false ∧
      templatedRun.Ordered ∧
      resolve (Template.engine false) templatedVars templatedRun = .ok out) ∧
    (∀ place s, out.at? place = some (.str s) → Placeholder.occursIn s = false) ∧
      (∀ place key, (out.at? (place ++ [.key key])).isSome → Placeholder.occursIn key = false) ∧
        resolve (Template.engine false) templatedVars out = .ok out := by
  have hengine : (Template.engine false).Orderly := Template.orderly_engine false
  have hd : templatedRun.Ordered := by decide
  exact ⟨⟨hengine, rfl, hd, resolve_templatedRun⟩,
    resolve_stable hengine rfl hd resolve_templatedRun⟩

end Resolution

end ExperimentSuite
