import ExperimentSuite.Proofs.Placeholder.Stability
import ExperimentSuite.Proofs.Placeholder.Texts

/-!
# Fields and commands do not interfere

The fields of a run are resolved before anybody looks at its commands, so runs
that differ in their commands only fail in the same way or come to the same
fields. Each text of the commands is then rendered by itself: the commands keep
their shape and their keys, and what becomes of one text does not depend on the
others.
-/

namespace ExperimentSuite

namespace Resolution

open Document KeyPath

variable {engine : Engine} {vars : List (String × Document)}
  {run other resolved out c c' : Document} {items : List Pending}

/-- A text that an engine renders to a command. -/
def RendersCommand (engine : Engine) (vars : List (String × Document)) (source : String) : Prop :=
  (∃ references, engine.references source = .ok references) ∧
    ∃ text, engine.render vars source = .ok text ∧
      (engine.tolerant = false → Placeholder.occursIn text = false)

/-- Commands without placeholders in their keys, each text of which can be rendered. -/
structure Renderable (engine : Engine) (vars : List (String × Document)) (c : Document) :
    Prop where
  keys : ∀ place key, (c.at? (place ++ [.key key])).isSome → Placeholder.occursIn key = false
  texts : ∀ place source, c.at? place = some (.str source) →
    Placeholder.occursIn source = true → RendersCommand engine vars source

/-- What becomes of a text of the commands: one without a placeholder stays as it is. -/
def commandOf (engine : Engine) (vars : List (String × Document)) (source : String) : String :=
  if Placeholder.occursIn source then
    match engine.render vars source with
    | .ok text => text
    | .error _ => source
  else source

/-- Rendering keeps the shape of commands. -/
theorem shape_of_foldlM (hl : Listed items c) (hd : c.Ordered)
    (h : items.foldlM (commandText engine vars) c = .ok c') : c'.shape = c.shape := by
  induction items generalizing c with
  | nil =>
      cases h
      rfl
  | cons item rest ih =>
      obtain ⟨next, hnext, hrest⟩ := Outcome.foldlM_cons_eq_ok.mp h
      obtain ⟨hkey, -, text, -, -, rfl⟩ := commandText_eq_ok.mp hnext
      have hat := hl.texts item List.mem_cons_self hkey
      obtain ⟨middle, hput⟩ := exists_putAt? (.str text) hat
      rw [hput, Option.getD_some] at hrest
      have hmiddle : middle.Ordered := hd.putAt? (v := .str text) trivial hput
      rw [ih (hl.putAt? hkey hput) hmiddle hrest, shape_putAt? hd hat hput]

/-- Commands are rendered text by text. -/
theorem CommandsRendered.eq_mapTexts (h : CommandsRendered engine vars (c.pendingAt []) c c')
    (hd : c.Ordered) (hshape : c'.shape = c.shape) :
    c' = c.mapTexts (commandOf engine vars) := by
  symm
  refine eq_of_shape_eq (hd.mapTexts _) h.ordered ?_ fun place t ht => ?_
  · rw [shape_mapTexts, hshape]
  obtain ⟨source, hat, rfl⟩ := at?_mapTexts_eq_str_iff.mp ht
  cases hs : Placeholder.occursIn source with
  | true =>
      obtain ⟨text, htext, -, hvalue⟩ := h.values _ (mem_pendingAt_of_at? hd hs hat)
      rw [hvalue, commandOf, if_pos hs, htext]
  | false =>
      -- a text that is not pending stands apart from all that are written
      have hapart : ∀ item ∈ c.pendingAt [], Apart place item.place := by
        intro item hitem
        have hitemAt := at?_of_mem_pendingAt hd hitem (h.texts item hitem)
        refine apart_of_texts hat hitemAt ?_
        rintro rfl
        rw [hat, Option.some.injEq, str.injEq] at hitemAt
        rw [hitemAt, ((mem_pendingAt_iff hd).mp hitem).1] at hs
        cases hs
      rw [h.frame place hapart, hat, commandOf, hs]
      rfl

/-- Commands that are rendered are renderable. -/
theorem renderable_of_resolveCommands (hd : c.Ordered)
    (h : resolveCommands engine vars run c = .ok c') :
    Renderable engine (context run vars) c := by
  have hspec := commandsRendered_of_resolveCommands hd h
  rw [resolveCommands_eq] at h
  constructor
  case keys =>
    intro place key hat
    apply Bool.eq_false_iff.mpr
    intro hs
    have hitem : (⟨place ++ [.key key], key, true⟩ : Pending) ∈ c.pendingAt [] :=
      (mem_pendingAt_iff hd).mpr ⟨hs, _, rfl, .inr ⟨rfl, hat, place, rfl⟩⟩
    cases hspec.texts _ hitem
  case texts =>
    intro place source hat hs
    have hitem := mem_pendingAt_of_at? hd hs hat
    obtain ⟨u, v, hstep⟩ := Outcome.exists_of_foldlM_eq_ok h hitem
    obtain ⟨-, hreferences, text, htext, hplain, -⟩ := commandText_eq_ok.mp hstep
    exact ⟨hreferences, text, htext, hplain⟩

theorem Renderable.exists_rendered (h : Renderable engine (context run vars) c)
    (hd : c.Ordered) : ∃ c', resolveCommands engine vars run c = .ok c' := by
  simp only [resolveCommands_eq]
  refine Outcome.exists_foldlM_eq_ok (fun item hitem d => ?_) c
  obtain ⟨hs, place, hplace, hat⟩ := (mem_pendingAt_iff hd).mp hitem
  obtain ⟨hkey, htext⟩ | ⟨hkey, hsome, parent, rfl⟩ := hat
  · obtain ⟨hreferences, text, htext, hplain⟩ := h.texts place item.source htext hs
    exact ⟨_, commandText_eq_ok.mpr ⟨hkey, hreferences, text, htext, hplain, rfl⟩⟩
  · rw [h.keys parent item.source hsome] at hs
    cases hs

/-- Commands are rendered exactly if each of their texts can be, and each by itself. -/
theorem resolveCommands_eq_ok (hd : c.Ordered) :
    resolveCommands engine vars run c = .ok c' ↔
      Renderable engine (context run vars) c ∧
        c' = c.mapTexts (commandOf engine (context run vars)) := by
  have hspec : ∀ {d}, resolveCommands engine vars run c = .ok d →
      d = c.mapTexts (commandOf engine (context run vars)) := by
    intro d h
    refine (commandsRendered_of_resolveCommands hd h).eq_mapTexts hd ?_
    exact shape_of_foldlM (listed_pendingAt hd) hd (resolveCommands_eq ▸ h)
  constructor
  · exact fun h => ⟨renderable_of_resolveCommands hd h, hspec h⟩
  · rintro ⟨hrenderable, rfl⟩
    obtain ⟨d, h⟩ := hrenderable.exists_rendered hd
    rw [h, hspec h]

/-- Resolves the fields of a run without its commands. -/
def resolveFields (engine : Engine) (vars : List (String × Document)) (run : Document) :
    Except Failure Document :=
  if Keyed.hasKey Vocabulary.runBinding vars then
    .error (.template Vocabulary.runBinding .bindingTaken)
  else if run.isMap then
    settle engine vars Vocabulary.maxPlaceholderRounds (withoutCommands run)
  else .error (.template "<run>" .runNotMap)

/-- Goes on with the commands of a run whose fields are resolved. -/
def finish (engine : Engine) (vars : List (String × Document)) (run resolved : Document) :
    Except Failure Document :=
  match run.field? Vocabulary.command with
  | some commands => do return attach (← resolveCommands engine vars resolved commands) resolved
  | none => .ok resolved

/-- A run is resolved in two stages, the first of which does not see the commands. -/
theorem resolve_eq_bind (engine : Engine) (vars : List (String × Document)) (run : Document) :
    resolve engine vars run = resolveFields engine vars run >>= finish engine vars run := by
  cases run with
  | map fields =>
      rw [resolve, resolveFields]
      cases Keyed.hasKey Vocabulary.runBinding vars with
      | true => rfl
      | false =>
          change settle engine vars _ _ >>= _ = settle engine vars _ _ >>= _
          refine congrArg _ (funext fun resolved => ?_)
          rw [finish, field?]
          cases Keyed.find? Vocabulary.command fields <;> rfl
  | _ =>
      rw [resolve.eq_def, resolveFields]
      cases Keyed.hasKey Vocabulary.runBinding vars <;> rfl

theorem resolveFields_congr (h : withoutCommands run = withoutCommands other) :
    resolveFields engine vars run = resolveFields engine vars other := by
  have hmap : run.isMap = other.isMap := by
    rw [← isMap_withoutCommands run, h, isMap_withoutCommands]
  rw [resolveFields, resolveFields, hmap, h]

theorem finish_eq_ok (hd : run.Ordered) :
    finish engine vars run resolved = .ok out ↔
      (run.field? Vocabulary.command = none ∧ out = resolved) ∨
        ∃ c, run.field? Vocabulary.command = some c ∧
          Renderable engine (context resolved vars) c ∧
            out = attach (c.mapTexts (commandOf engine (context resolved vars))) resolved := by
  rw [finish]
  cases hc : run.field? Vocabulary.command with
  | none => simp [eq_comm]
  | some c =>
      have hcommands : c.Ordered := by
        cases run with
        | map fields => exact hd.find? hc
        | _ => cases hc
      simp only [Outcome.bind_eq_ok, resolveCommands_eq_ok hcommands, pure, Except.pure,
        Except.ok.injEq, Option.some.injEq, exists_eq_left', reduceCtorEq, false_and, false_or]
      constructor
      · rintro ⟨_, ⟨hrenderable, rfl⟩, rfl⟩
        exact ⟨hrenderable, rfl⟩
      · rintro ⟨hrenderable, rfl⟩
        exact ⟨_, ⟨hrenderable, rfl⟩, rfl⟩

theorem isMap_of_resolveFields (hengine : engine.Orderly) (hd : run.Ordered)
    (h : resolveFields engine vars run = .ok resolved) : resolved.isMap = true := by
  rw [resolveFields] at h
  split at h
  · cases h
  · split at h
    · next hmap =>
        refine (settle_spec hengine (ordered_withoutCommands hd) h).2.2.isMap ?_
        rw [isMap_withoutCommands, hmap]
    · cases h

theorem field?_attach_self (h : resolved.isMap = true) :
    (attach c resolved).field? Vocabulary.command = some c := by
  obtain ⟨fields, rfl⟩ := isMap_iff.mp h
  exact Keyed.find?_insert_self ..

theorem field?_attach_of_ne {key : String} (h : key ≠ Vocabulary.command) :
    (attach c resolved).field? key = resolved.field? key := by
  cases resolved with
  | map fields => exact Keyed.find?_insert_of_ne h.symm
  | _ => rfl

/-- How a run ends once its fields are resolved: with its commands rendered, each text by itself, if
all of them can be, and else with a failure. -/
structure Finishes (engine : Engine) (vars : List (String × Document)) (resolved run : Document) :
    Prop where
  without : run.field? Vocabulary.command = none → resolve engine vars run = .ok resolved
  succeeds : ∀ c, run.field? Vocabulary.command = some c →
    ((∃ out, resolve engine vars run = .ok out) ↔ Renderable engine (context resolved vars) c)
  fields : ∀ out, resolve engine vars run = .ok out →
    ∀ key, key ≠ Vocabulary.command → out.field? key = resolved.field? key
  commands : ∀ c out, run.field? Vocabulary.command = some c → resolve engine vars run = .ok out →
    out.field? Vocabulary.command =
      some (c.mapTexts (commandOf engine (context resolved vars)))

theorem finishes_of_resolveFields (hengine : engine.Orderly) (hd : run.Ordered)
    (h : resolveFields engine vars run = .ok resolved) : Finishes engine vars resolved run := by
  have hmap := isMap_of_resolveFields hengine hd h
  have hresolve : resolve engine vars run = finish engine vars run resolved := by
    rw [resolve_eq_bind, h]
    rfl
  constructor
  case without =>
    intro hnone
    exact hresolve.trans ((finish_eq_ok hd).mpr (.inl ⟨hnone, rfl⟩))
  case succeeds =>
    intro c hc
    simp only [hresolve, finish_eq_ok hd, hc]
    simp
  case fields =>
    intro out hout key hkey
    rcases (finish_eq_ok hd).mp (hresolve ▸ hout) with ⟨-, rfl⟩ | ⟨c, -, -, rfl⟩
    · rfl
    · exact field?_attach_of_ne hkey
  case commands =>
    intro c out hc hout
    rcases (finish_eq_ok hd).mp (hresolve ▸ hout) with ⟨hnone, -⟩ | ⟨c', hc', -, rfl⟩
    · rw [hc] at hnone
      cases hnone
    · rw [hc, Option.some.injEq] at hc'
      rw [← hc', field?_attach_self hmap]

/-- Runs with the same fields, whatever their commands, fail in the same way or come to the same
fields, next to which each of them has its own commands, rendered text by text. -/
theorem resolve_independent (hengine : engine.Orderly) (hrun : run.Ordered)
    (hother : other.Ordered) (hsame : withoutCommands run = withoutCommands other) :
    (∃ failure, resolveFields engine vars run = .error failure ∧
        resolve engine vars run = .error failure ∧ resolve engine vars other = .error failure) ∨
      ∃ resolved, resolveFields engine vars run = .ok resolved ∧
        resolveFields engine vars other = .ok resolved ∧
        Finishes engine vars resolved run ∧ Finishes engine vars resolved other ∧
        ∀ out out', resolve engine vars run = .ok out → resolve engine vars other = .ok out' →
          ∀ key, key ≠ Vocabulary.command → out.field? key = out'.field? key := by
  have hfields : resolveFields engine vars run = resolveFields engine vars other :=
    resolveFields_congr hsame
  cases h : resolveFields engine vars run with
  | error failure =>
      refine .inl ⟨failure, rfl, ?_, ?_⟩
      · rw [resolve_eq_bind, h]
        rfl
      · rw [resolve_eq_bind, ← hfields, h]
        rfl
  | ok resolved =>
      have hfinishes := finishes_of_resolveFields hengine hrun h
      have hfinishes' := finishes_of_resolveFields hengine hother (hfields ▸ h)
      refine .inr ⟨resolved, rfl, hfields ▸ h, hfinishes, hfinishes', ?_⟩
      intro out out' hout hout' key hkey
      rw [hfinishes.fields out hout key hkey, hfinishes'.fields out' hout' key hkey]

/-- The fields of the templated run with commands for two other host types. -/
def foreignRun : Document :=
  attach (.map [("server", .str "serve [% name %]"), ("watcher", .str "watch")]) templatedFields

theorem independent_templatedRun :
    ((Template.engine false).Orderly ∧ templatedRun.Ordered ∧ foreignRun.Ordered ∧
      withoutCommands templatedRun = withoutCommands foreignRun) ∧
    ((∃ failure, resolveFields (Template.engine false) templatedVars templatedRun = .error failure ∧
        resolve (Template.engine false) templatedVars templatedRun = .error failure ∧
        resolve (Template.engine false) templatedVars foreignRun = .error failure) ∨
      ∃ resolved, resolveFields (Template.engine false) templatedVars templatedRun = .ok resolved ∧
        resolveFields (Template.engine false) templatedVars foreignRun = .ok resolved ∧
        Finishes (Template.engine false) templatedVars resolved templatedRun ∧
        Finishes (Template.engine false) templatedVars resolved foreignRun ∧
        ∀ out out', resolve (Template.engine false) templatedVars templatedRun = .ok out →
          resolve (Template.engine false) templatedVars foreignRun = .ok out' →
          ∀ key, key ≠ Vocabulary.command → out.field? key = out'.field? key) := by
  have hengine : (Template.engine false).Orderly := Template.orderly_engine false
  have hrun : templatedRun.Ordered := by decide
  have hother : foreignRun.Ordered := by decide
  have hsame : withoutCommands templatedRun = withoutCommands foreignRun := by
    rfl
  exact ⟨⟨hengine, hrun, hother, hsame⟩, resolve_independent hengine hrun hother hsame⟩

end Resolution

end ExperimentSuite
