import ExperimentSuite.Proofs.Placeholder.Commands
import ExperimentSuite.Proofs.Template.Ordered

/-!
# Texts that read themselves

A text does not wait for itself: a reference to its own place never keeps it
from being rendered. So a text that reads itself is rendered as soon as its
other references are settled, with its own unrendered text as the value that it
reads. The resolution fails, with the text still in place, exactly if the text
comes out of every such rendering as it went in.
-/

namespace ExperimentSuite

namespace Resolution

open Document KeyPath

variable {engine : Engine} {vars : List (String × Document)} {run d c out value : Document}
  {place : Place} {path : KeyPath} {source s : String} {references : List KeyPath}

/-- Where nothing may be written, only a text turns into a text. -/
theorem eq_str_of_evolves (h : Evolves (fun _ => False) value c) : c = .str s ↔ value = .str s := by
  obtain ⟨_, hself, hb⟩ := h [] (by simp [Place.Fixed]) value (at?_nil value)
  rw [at?_nil, Option.some.injEq] at hself
  subst hself
  cases value with
  | str t =>
      rcases hb with ⟨hno, -⟩ | rfl
      · exact hno.elim
      · exact Iff.rfl
  | list items =>
      obtain ⟨items', rfl, -⟩ := hb
      simp
  | map fields =>
      obtain ⟨fields', rfl, -⟩ := hb
      simp
  | _ => rw [hb]

/-- A reference to a text is settled for the text itself. -/
theorem isSettled_self (hat : d.at? (path.map Step.key) = some (.str s)) :
    isSettled (place ++ path.map Step.key) d place path = true := by
  induction path generalizing d place with
  | nil =>
      rw [List.map_nil, at?_nil, Option.some.injEq] at hat
      subst hat
      simp [isSettled, hasPending]
  | cons key rest ih =>
      rw [List.map_cons, at?_cons] at hat
      obtain ⟨child, hchild, htext⟩ := Option.bind_eq_some_iff.mp hat
      cases d with
      | map fields =>
          have hfound : Keyed.find? key fields = some child := hchild
          have hbelow := @ih child (place ++ [.key key]) htext
          simpa [isSettled, hfound] using hbelow
      | _ => cases hchild

/-- A text that reads itself waits for its other references only. -/
theorem ready_iff_others (hat : d.at? (path.map Step.key) = some (.str source))
    (hreferences : engine.references source = .ok references) :
    Ready engine d ⟨path.map Step.key, source, false⟩ ↔
      ∀ reference ∈ references, reference ≠ Vocabulary.runBinding :: path →
        isReady d (path.map Step.key) reference = true := by
  have hself : isReady d (path.map Step.key) (Vocabulary.runBinding :: path) = true := by
    have hsettled : isSettled ([] ++ path.map Step.key) d [] path = true := isSettled_self hat
    rw [List.nil_append] at hsettled
    rw [isReady, hsettled, Bool.or_true]
  constructor
  · rintro ⟨references', hreferences', hall⟩ reference hmem -
    rw [hreferences, Except.ok.injEq] at hreferences'
    subst hreferences'
    exact List.all_eq_true.mp hall reference hmem
  · intro h
    refine ⟨references, hreferences, List.all_eq_true.mpr fun reference hmem => ?_⟩
    by_cases heq : reference = Vocabulary.runBinding :: path
    · rw [heq]
      exact hself
    · exact h reference hmem heq

/-- Words are neither pending nor the key of the commands. -/
theorem fixed_of_isWord (hnames : ∀ name ∈ path, Identifiers.isWord name = true) :
    Place.Fixed (path.map Step.key) := by
  intro name hname
  obtain ⟨_, hmem, heq⟩ := List.mem_map.mp hname
  cases heq
  exact Placeholder.occursIn_of_isWord (hnames _ hmem)

theorem at?_withoutCommands (hnames : ∀ name ∈ path, Identifiers.isWord name = true)
    (hat : run.at? (path.map Step.key) = some (.str source)) :
    (withoutCommands run).at? (path.map Step.key) = some (.str source) := by
  cases path with
  | nil =>
      rw [List.map_nil, at?_nil, Option.some.injEq] at hat
      subst hat
      exact at?_nil _
  | cons name rest =>
      have hbeside : Step.key name ≠ .key Vocabulary.command := by
        intro heq
        have hword := hnames name List.mem_cons_self
        rw [Step.key.inj heq] at hword
        exact absurd hword (by decide)
      rw [List.map_cons, at?_cons, child?_withoutCommands run hbeside, ← at?_cons]
      exact hat

/-- A resolution in which a text with a placeholder is in place after every round fails. -/
theorem resolve_fails_of_unchanged (hd : (withoutCommands run).Ordered) (hengine : engine.Orderly)
    (hs : Placeholder.occursIn source = true)
    (h : ∀ n d, n ≤ Vocabulary.maxPlaceholderRounds →
      Reached engine vars (withoutCommands run) n d → d.at? place = some (.str source)) :
    ∃ f, resolve engine vars run = .error f := by
  cases hresolve : resolve engine vars run with
  | error f => exact ⟨f, rfl⟩
  | ok out =>
      obtain ⟨-, resolved, hsettle, -⟩ := resolve_cases hresolve
      obtain ⟨hplain, n, hle, hreached⟩ := exists_reached_of_settle hsettle
      have hordered := hreached.ordered hengine hd
      exact absurd hplain (not_plain_of_at? hordered hs (h n resolved hle hreached))

/-- A text that reads itself is never given another value, and the resolution fails, exactly if it
has its own text as its value in every round in which its other references are settled. -/
theorem unchanged_iff_reproduced (hengine : engine.Orderly) (hd : run.Ordered)
    (hat : run.at? (path.map Step.key) = some (.str source))
    (hs : Placeholder.occursIn source = true)
    (hnames : ∀ name ∈ path, Identifiers.isWord name = true)
    (hreferences : engine.references source = .ok references) :
    ((∃ f, resolve engine vars run = .error f) ∧
      ∀ n d, n ≤ Vocabulary.maxPlaceholderRounds →
        Reached engine vars (withoutCommands run) n d →
          d.at? (path.map Step.key) = some (.str source)) ↔
    ∀ n d d', n < Vocabulary.maxPlaceholderRounds →
      Reached engine vars (withoutCommands run) n d →
      round engine vars d (d.pendingAt []) = .ok d' →
      (∀ reference ∈ references, reference ≠ Vocabulary.runBinding :: path →
        isReady d (path.map Step.key) reference = true) →
      evaluate engine (context d vars) ⟨path.map Step.key, source, false⟩ = .ok (.str source) := by
  have hstart : (withoutCommands run).Ordered := ordered_withoutCommands hd
  have hfixed := fixed_of_isWord hnames
  constructor
  · rintro ⟨-, hall⟩ n d d' hn hreached hround hothers
    have hd := hreached.ordered hengine hstart
    have hat' := hall n d (Nat.le_of_lt hn) hreached
    have hready := (ready_iff_others hat' hreferences).mpr hothers
    rcases text_of_round hengine hd hfixed hat' hs hround with
      ⟨hnot, -⟩ | ⟨-, value, hvalue, c, hc, he⟩
    · exact absurd hready hnot
    · rw [hall (n + 1) d' hn (.next hreached hround), Option.some.injEq] at hc
      rw [hvalue, (eq_str_of_evolves he).mp hc.symm]
  · intro hreproduced
    have hall : ∀ n d, n ≤ Vocabulary.maxPlaceholderRounds →
        Reached engine vars (withoutCommands run) n d →
          d.at? (path.map Step.key) = some (.str source) := by
      intro n d hn hreached
      induction hreached with
      | start => exact at?_withoutCommands hnames hat
      | @next n d d' before hround ih =>
          have hat' := ih (Nat.le_of_succ_le hn)
          have hd := before.ordered hengine hstart
          rcases text_of_round hengine hd hfixed hat' hs hround with
            ⟨-, hkept⟩ | ⟨hready, value, hvalue, c, hc, he⟩
          · exact hkept
          · have hothers := (ready_iff_others hat' hreferences).mp hready
            rw [hreproduced n d d' hn before hround hothers, Except.ok.injEq] at hvalue
            rw [hc, (eq_str_of_evolves he).mpr hvalue.symm]
    exact ⟨resolve_fails_of_unchanged hstart hengine hs hall, hall⟩

/-- A run whose only field is a reference to itself. -/
def mirror : Document := .map [("a", .str "[% my_run.a %]")]

theorem references_mirror :
    (Template.engine false).references "[% my_run.a %]" = .ok [["my_run", "a"]] := by
  decide +kernel

theorem unchanged_iff_mirror :
    ((Template.engine false).Orderly ∧ mirror.Ordered ∧
      mirror.at? (["a"].map Step.key) = some (.str "[% my_run.a %]") ∧
      Placeholder.occursIn "[% my_run.a %]" = true ∧
      (∀ name ∈ ["a"], Identifiers.isWord name = true) ∧
      (Template.engine false).references "[% my_run.a %]" = .ok [["my_run", "a"]]) ∧
    (((∃ f, resolve (Template.engine false) [] mirror = .error f) ∧
      ∀ n d, n ≤ Vocabulary.maxPlaceholderRounds →
        Reached (Template.engine false) [] (withoutCommands mirror) n d →
          d.at? (["a"].map Step.key) = some (.str "[% my_run.a %]")) ↔
    ∀ n d d', n < Vocabulary.maxPlaceholderRounds →
      Reached (Template.engine false) [] (withoutCommands mirror) n d →
      round (Template.engine false) [] d (d.pendingAt []) = .ok d' →
      (∀ reference ∈ [["my_run", "a"]], reference ≠ Vocabulary.runBinding :: ["a"] →
        isReady d (["a"].map Step.key) reference = true) →
      evaluate (Template.engine false) (context d [])
        ⟨["a"].map Step.key, "[% my_run.a %]", false⟩ = .ok (.str "[% my_run.a %]")) := by
  have hengine : (Template.engine false).Orderly := Template.orderly_engine false
  have hd : mirror.Ordered := by decide
  have hat : mirror.at? (["a"].map Step.key) = some (.str "[% my_run.a %]") := rfl
  have hs : Placeholder.occursIn "[% my_run.a %]" = true := by decide
  have hnames : ∀ name ∈ ["a"], Identifiers.isWord name = true := by decide
  exact ⟨⟨hengine, hd, hat, hs, hnames, references_mirror⟩,
    unchanged_iff_reproduced hengine hd hat hs hnames references_mirror⟩

/-- A run whose only field takes the length of itself. -/
def measured : Document := .map [("a", .str "[% my_run.a | length %]")]

theorem references_measured :
    (Template.engine false).references "[% my_run.a | length %]" = .ok [["my_run", "a"]] := by
  decide +kernel

theorem evaluate_measured : evaluate (Template.engine false) (context measured [])
    ⟨[.key "a"], "[% my_run.a | length %]", false⟩ = .ok (.nat 23) := by
  have hsingle : Placeholder.singleExpression? "[% my_run.a | length %]" =
      some "my_run.a | length" := by
    decide +kernel
  have hexpression : Template.expression? (Template.Token.ofExpression "my_run.a | length") =
      .ok (.filter (.field (.lookup "my_run") "a") "length" []) := by
    rfl
  exact Template.evaluate_of_expression hsingle hexpression rfl rfl rfl

theorem round_measured : round (Template.engine false) [] measured (measured.pendingAt []) =
    .ok (.map [("a", .nat 23)]) := by
  have hpending : measured.pendingAt [] = [⟨[.key "a"], "[% my_run.a | length %]", false⟩] := rfl
  have hdone : (measured.pendingAt []).foldlM (step (Template.engine false) measured
      (context measured [])) ⟨measured, [], false⟩ = .ok ⟨.map [("a", .nat 23)], [], true⟩ := by
    rw [hpending]
    refine Outcome.foldlM_cons_eq_ok.mpr
      ⟨_, step_of_text references_measured (by decide) rfl evaluate_measured, ?_⟩
    rfl
  rw [round_eq_renameAll hdone rfl, renameAll_nil]

theorem resolve_measured :
    resolve (Template.engine false) [] measured = .ok (.map [("a", .nat 23)]) := by
  have hnot : ¬ measured.Plain := by
    intro hplain
    cases hplain
  have hresolved : (Document.map [("a", .nat 23)]).Plain := rfl
  have hsettle : settle (Template.engine false) [] Vocabulary.maxPlaceholderRounds measured =
      .ok (.map [("a", .nat 23)]) := settle_of_single_round hnot round_measured hresolved
  exact resolve_eq_ok.mpr ⟨rfl, _, _, rfl, hsettle, .inl ⟨rfl, rfl⟩⟩

/-- A text that reads itself need not keep the resolution from succeeding: a filter may make
something else of it. -/
theorem not_fails_of_selfReference :
    ¬ ∀ (vars : List (String × Document)) (run : Document) (path : KeyPath) (source : String)
      (references : List KeyPath), run.Ordered →
        run.at? (path.map Step.key) = some (.str source) →
        Placeholder.occursIn source = true →
        (Template.engine false).references source = .ok references →
        Vocabulary.runBinding :: path ∈ references →
          ∃ f, resolve (Template.engine false) vars run = .error f := by
  intro hall
  obtain ⟨f, hf⟩ := hall [] measured ["a"] _ _ (by decide) rfl (by decide) references_measured
    List.mem_cons_self
  rw [resolve_measured] at hf
  cases hf

end Resolution

end ExperimentSuite
