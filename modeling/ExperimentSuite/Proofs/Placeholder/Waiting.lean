import ExperimentSuite.Proofs.Placeholder.Convergence
import ExperimentSuite.Proofs.Placeholder.Commands
import ExperimentSuite.Proofs.Template.Ordered

/-!
# Texts that wait for each other

A text waits until no other text is pending at, below or above any of the names
that it is known to read. Of a field under a subscript only the name in front of
the subscript is known, so such a text waits for everything pending beside the
field as well. If all values are free of placeholders, the rounds converge
exactly if the waiting texts can be ranked: the rank of a text is the round in
which it is rendered.
-/

namespace ExperimentSuite

namespace Resolution

open Document KeyPath

variable {engine : Engine} {vars : List (String × Document)} {run next d c : Document}
  {item : Pending} {own place q : Place} {path : KeyPath} {s : String} {rounds n : Nat}

/-- A reference is not settled as long as another text is pending at or below it. -/
theorem not_settled_of_below (hd : d.Ordered) (hs : Placeholder.occursIn s = true)
    (hat : d.at? q = some (.str s)) (hbelow : path.map Step.key <+: q) (hne : place ++ q ≠ own) :
    isSettled own d place path = false := by
  induction path generalizing d place q with
  | nil =>
      have hmem : (⟨place ++ q, s, false⟩ : Pending) ∈ d.pendingAt place :=
        (mem_pendingAt_iff hd).mpr ⟨hs, q, rfl, .inl ⟨rfl, hat⟩⟩
      rw [isSettled, hasPending_eq_true_iff.mpr ⟨_, hmem, hne⟩]
      rfl
  | cons key rest ih =>
      obtain ⟨below, rfl⟩ := hbelow
      rw [List.map_cons, List.cons_append, at?_cons] at hat
      obtain ⟨child, hchild, htext⟩ := Option.bind_eq_some_iff.mp hat
      cases d with
      | map fields =>
          have hfound : Keyed.find? key fields = some child := hchild
          have hnot := @ih child (place ++ [.key key]) _ (hd.find? hfound) htext
            (List.prefix_append _ _) (by simpa using hne)
          simpa [isSettled, hfound] using hnot
      | _ => cases hchild

/-- A reference is not settled as long as a text is pending on the way to it. -/
theorem not_settled_of_above (hs : Placeholder.occursIn s = true)
    (hat : d.at? q = some (.str s)) (habove : q <+: path.map Step.key)
    (hne : q ≠ path.map Step.key) : isSettled own d place path = false := by
  induction path generalizing d place q with
  | nil => exact absurd (List.prefix_nil.mp habove) hne
  | cons key rest ih =>
      cases q with
      | nil =>
          rw [at?_nil, Option.some.injEq] at hat
          subst hat
          simp [isSettled, hs]
      | cons step q =>
          obtain ⟨rfl, hrest⟩ := List.cons_prefix_cons.mp habove
          rw [at?_cons] at hat
          obtain ⟨child, hchild, htext⟩ := Option.bind_eq_some_iff.mp hat
          cases d with
          | map fields =>
              have hfound : Keyed.find? key fields = some child := hchild
              have hnot := @ih child (place ++ [.key key]) q htext hrest
                fun heq => hne (congrArg _ heq)
              simpa [isSettled, hfound] using hnot
          | _ => cases hchild

/-- What a text that is ready reads is settled. -/
theorem Ready.settled (h : Ready engine run item) {references : List KeyPath}
    (hreferences : engine.references item.source = .ok references)
    (hpath : Vocabulary.runBinding :: path ∈ references) :
    isSettled item.place run [] path = true := by
  obtain ⟨references', hreferences', hall⟩ := h
  rw [hreferences, Except.ok.injEq] at hreferences'
  subst hreferences'
  simpa [isReady] using List.all_eq_true.mp hall _ hpath

/-- Nothing else is pending around what a text that is ready reads. -/
theorem Ready.not_related (h : Ready engine run item) (hd : run.Ordered)
    {references : List KeyPath} (hreferences : engine.references item.source = .ok references)
    (hpath : Vocabulary.runBinding :: path ∈ references) {v : Pending} (hv : v ∈ run.pendingAt [])
    (hkey : v.isKey = false) (hne : v.place ≠ item.place) : ¬ Related path v.place := by
  have hsettled := h.settled hreferences hpath
  have hs := ((mem_pendingAt_iff hd).mp hv).1
  have hat := at?_of_mem_pendingAt hd hv hkey
  rintro (hbelow | habove)
  · rw [not_settled_of_below hd hs hat hbelow (by simpa using hne)] at hsettled
    cases hsettled
  · by_cases heq : v.place = path.map Step.key
    · rw [not_settled_of_below hd hs hat (heq ▸ List.prefix_rfl) (by simpa using hne)] at hsettled
      cases hsettled
    · rw [not_settled_of_above hs hat habove heq] at hsettled
      cases hsettled

/-- A text that is ready does not read below itself. -/
theorem Ready.notBelow (h : Ready engine run item) (hd : run.Ordered)
    (hitem : item ∈ run.pendingAt []) (hkey : item.isKey = false) {references : List KeyPath}
    (hreferences : engine.references item.source = .ok references)
    (hpath : Vocabulary.runBinding :: path ∈ references)
    (habove : item.place <+: path.map Step.key) : item.place = path.map Step.key := by
  by_contra hne
  have hsettled := h.settled hreferences hpath
  have hs := ((mem_pendingAt_iff hd).mp hitem).1
  rw [not_settled_of_above hs (at?_of_mem_pendingAt hd hitem hkey) habove hne] at hsettled
  cases hsettled

/-- A run whose pending sources are texts that compile and evaluate to values without
placeholders. -/
structure Evaluable (engine : Engine) (vars : List (String × Document)) (run : Document) :
    Prop where
  ordered : run.Ordered
  texts : ∀ item ∈ run.pendingAt [], item.isKey = false
  compiles : ∀ item ∈ run.pendingAt [], ∃ references,
    engine.references item.source = .ok references
  evaluates : Evaluates engine vars run

/-- What a round does to such a run: it is stuck, or it leaves the texts pending that were not
ready. -/
theorem Evaluable.round_cases (hengine : engine.Orderly) (h : Evaluable engine vars run) :
    round engine vars run (run.pendingAt []) =
        .error (.template (Pending.places (run.pendingAt [])) .stuck) ∨
      ∃ next, round engine vars run (run.pendingAt []) = .ok next ∧ Evaluable engine vars next ∧
        ∀ item, item ∈ next.pendingAt [] ↔ item ∈ run.pendingAt [] ∧ ¬ Ready engine run item := by
  obtain ⟨done, hdone⟩ := h.evaluates.exists_foldlM h.texts h.compiles
  obtain ⟨hrendered, -⟩ :=
    rendered_of_foldlM hengine (listed_pendingAt h.ordered) h.ordered hdone
  cases hprogressed : done.progressed with
  | false => exact .inl (round_eq_stuck hdone hprogressed)
  | true =>
      have hround : round engine vars run (run.pendingAt []) = .ok done.run := by
        rw [round_eq_renameAll hdone hprogressed, renames_eq_nil h.texts hdone,
          renameAll_nil]
      have hpending : ∀ item, item ∈ done.run.pendingAt [] ↔
          item ∈ run.pendingAt [] ∧ ¬ Ready engine run item :=
        fun item => hrendered.mem_pendingAt_iff h.ordered h.texts
          (fun _ hitem _ => h.evaluates.plain hitem) hengine
      refine .inr ⟨done.run, hround, ⟨hrendered.ordered, ?_, ?_, h.evaluates.of_round hround⟩,
        hpending⟩
      · exact fun item hitem => h.texts item ((hpending item).mp hitem).1
      · exact fun item hitem => h.compiles item ((hpending item).mp hitem).1

/-- A rank for the pending texts of a run, from one up to a bound. -/
def Rankable (engine : Engine) (bound : Nat) (run : Document) : Prop :=
  ∃ rank, Ranked engine rank run ∧
    ∀ item ∈ run.pendingAt [], 1 ≤ rank item.place ∧ rank item.place ≤ bound

theorem rankable_of_plain (h : run.Plain) : Rankable engine n run := by
  have hno : ∀ item, item ∉ run.pendingAt [] := List.eq_nil_iff_forall_not_mem.mp h
  exact ⟨fun _ => 1, ⟨fun item hi => absurd hi (hno item), fun u hu => absurd hu (hno u),
    fun u hu => absurd hu (hno u)⟩, fun item hi => absurd hi (hno item)⟩

/-- The texts that a round renders come first, those that it leaves pending one rank later. -/
theorem Evaluable.rankable (h : Evaluable engine vars run)
    (hpending : ∀ item, item ∈ next.pendingAt [] ↔
      item ∈ run.pendingAt [] ∧ ¬ Ready engine run item)
    (hnext : Rankable engine n next) : Rankable engine (n + 1) run := by
  classical
  obtain ⟨rank, hranked, hbound⟩ := hnext
  let later (place : Place) : Nat :=
    if ∃ i ∈ next.pendingAt [], i.place = place then rank place + 1 else 1
  have hwaiting : ∀ u ∈ run.pendingAt [], ¬ Ready engine run u →
      u ∈ next.pendingAt [] ∧ later u.place = rank u.place + 1 := by
    intro u hu hwaits
    have hmem : u ∈ next.pendingAt [] := (hpending u).mpr ⟨hu, hwaits⟩
    exact ⟨hmem, if_pos ⟨u, hmem, rfl⟩⟩
  have hrendered : ∀ u ∈ run.pendingAt [], Ready engine run u → later u.place = 1 := by
    intro u hu hready
    apply if_neg
    rintro ⟨i, hi, hplace⟩
    obtain ⟨hi, hwaits⟩ := (hpending i).mp hi
    have heq := eq_of_place_eq h.ordered hi (h.texts i hi) hu (h.texts u hu) hplace
    exact hwaits (heq ▸ hready)
  refine ⟨later, ⟨h.texts, ?_, ?_⟩, ?_⟩
  · intro u hu v hv hne references path hreferences hpath hrelated
    by_cases hu' : Ready engine run u
    · exact absurd hrelated
        (hu'.not_related h.ordered hreferences hpath hv (h.texts v hv) hne)
    · obtain ⟨humem, hurank⟩ := hwaiting u hu hu'
      by_cases hv' : Ready engine run v
      · have hone := (hbound u humem).1
        rw [hrendered v hv hv', hurank]
        omega
      · obtain ⟨hvmem, hvrank⟩ := hwaiting v hv hv'
        rw [hvrank, hurank]
        exact Nat.succ_lt_succ
          (hranked.decreases u humem v hvmem hne references path hreferences hpath hrelated)
  · intro u hu references path hreferences hpath habove
    by_cases hu' : Ready engine run u
    · exact hu'.notBelow h.ordered hu (h.texts u hu) hreferences hpath habove
    · exact hranked.notBelow u (hwaiting u hu hu').1 references path hreferences hpath habove
  · intro u hu
    by_cases hu' : Ready engine run u
    · rw [hrendered u hu hu']
      omega
    · obtain ⟨humem, hurank⟩ := hwaiting u hu hu'
      have hle := (hbound u humem).2
      rw [hurank]
      omega

/-- The rounds of such a run end in a run without placeholders if its texts can be ranked, and do
not converge otherwise. -/
theorem Evaluable.settle_cases (hengine : engine.Orderly) (h : Evaluable engine vars run)
    (rounds : Nat) :
    ((∃ out, settle engine vars rounds run = .ok out) ∧ Rankable engine rounds run) ∨
      ∃ f, settle engine vars rounds run = .error f ∧ Diverges f := by
  induction rounds generalizing run with
  | zero =>
      by_cases hplain : run.Plain
      · exact .inl ⟨⟨run, settle_of_plain 0 hplain⟩, rankable_of_plain hplain⟩
      · refine .inr ⟨_, ?_, .tooManyRounds (Pending.places (run.pendingAt []))⟩
        have hsome : (run.pendingAt []).isEmpty = false :=
          Bool.eq_false_iff.mpr fun hnil => hplain (List.isEmpty_iff.mp hnil)
        rw [settle.eq_def]
        simp only [hsome]
        rfl
  | succ rounds ih =>
      by_cases hplain : run.Plain
      · exact .inl ⟨⟨run, settle_of_plain _ hplain⟩, rankable_of_plain hplain⟩
      · rcases h.round_cases hengine with hstuck | ⟨next, hround, hnext, hpending⟩
        · refine .inr ⟨_, ?_, .stuck (Pending.places (run.pendingAt []))⟩
          rw [settle_succ rounds hplain, hstuck]
          rfl
        · rw [settle_of_round hplain hround]
          exact (ih hnext).imp_left (And.imp_right (h.rankable hpending))

/-- The rounds fail to converge exactly if the texts cannot be ranked. -/
theorem Evaluable.diverges_iff (hengine : engine.Orderly) (h : Evaluable engine vars run)
    (rounds : Nat) :
    (∃ f, settle engine vars rounds run = .error f ∧ Diverges f) ↔
      ¬ Rankable engine rounds run := by
  constructor
  · rintro ⟨f, hf, hdiverges⟩ ⟨rank, hranked, hbound⟩
    have hunderway : Underway engine vars rank 0 rounds run :=
      ⟨hranked, h.ordered, h.evaluates, fun item hi => (hbound item hi).1,
        fun item hi => (hbound item hi).2⟩
    exact hunderway.not_diverges hengine (by omega) hf hdiverges
  · intro hnot
    exact (h.settle_cases hengine rounds).resolve_left fun hrankable => hnot hrankable.2

/-- A resolution fails to converge exactly if the rounds of its fields do. -/
theorem resolve_diverges_iff :
    (∃ f, resolve engine vars run = .error f ∧ Diverges f) ↔
      run.isMap = true ∧ Keyed.hasKey Vocabulary.runBinding vars = false ∧
        ∃ f, settle engine vars Vocabulary.maxPlaceholderRounds (withoutCommands run) = .error f ∧
          Diverges f := by
  cases run with
  | map fields =>
      rw [resolve]
      split
      · next htaken =>
          constructor
          · rintro ⟨f, hf, hdiverges⟩
            cases hf
            cases hdiverges
          · rintro ⟨-, hfree, -⟩
            rw [htaken] at hfree
            cases hfree
      · next hfree =>
          constructor
          · rintro ⟨f, hf, hdiverges⟩
            refine ⟨rfl, Bool.eq_false_iff.mpr hfree, f, ?_, hdiverges⟩
            rcases Outcome.bind_eq_error.mp hf with hsettle | ⟨resolved, -, hcommands⟩
            · exact hsettle
            · split at hcommands
              · rcases Outcome.bind_eq_error.mp hcommands with hfail | ⟨_, -, hattached⟩
                · exact absurd hdiverges (not_diverges_of_resolveCommands hfail)
                · cases hattached
              · cases hcommands
          · rintro ⟨-, -, f, hf, hdiverges⟩
            exact ⟨f, Outcome.bind_eq_error.mpr (.inl hf), hdiverges⟩
  | _ =>
      constructor
      · rintro ⟨f, hf, hdiverges⟩
        rw [resolve] at hf
        · split at hf <;> cases hf <;> cases hdiverges
        · exact fun fields heq => by cases heq
      · rintro ⟨hmap, -⟩
        cases hmap

/-- Nothing is pending at, below or above a field without placeholders. -/
theorem not_related_of_plain (hd : run.Ordered) (hc : run.at? (path.map Step.key) = some c)
    (hplain : c.Plain) (hitem : item ∈ run.pendingAt []) (hkey : item.isKey = false) :
    ¬ Related path item.place := by
  have hs := ((Document.mem_pendingAt_iff hd).mp hitem).1
  have hat : run.HasAt item item.place := .inl ⟨hkey, at?_of_mem_pendingAt hd hitem hkey⟩
  have hexists : (run.at? (path.map Step.key)).isSome := by
    rw [hc]
    rfl
  rcases hat.apart_of_plain hs hc (hd.at? hc) hplain hexists with hapart | ⟨hkey', -⟩
  · rintro (hbelow | habove)
    · exact hapart.2 hbelow
    · exact hapart.1 habove
  · rw [hkey] at hkey'
    cases hkey'

/-- If every name that a text is known to read denotes a field without placeholders, one rank is
enough. -/
theorem rankable_of_settled (hd : run.Ordered)
    (htexts : ∀ item ∈ run.pendingAt [], item.isKey = false)
    (hsettled : ∀ item ∈ run.pendingAt [], ∀ references path,
      engine.references item.source = .ok references →
        Vocabulary.runBinding :: path ∈ references →
          ∃ c, run.at? (path.map Step.key) = some c ∧ c.Plain) : Rankable engine 1 run := by
  have hno : ∀ u ∈ run.pendingAt [], ∀ v ∈ run.pendingAt [], ∀ references path,
      engine.references u.source = .ok references →
        Vocabulary.runBinding :: path ∈ references → ¬ Related path v.place := by
    intro u hu v hv references path hreferences hpath
    obtain ⟨c, hc, hplain⟩ := hsettled u hu references path hreferences hpath
    exact not_related_of_plain hd hc hplain hv (htexts v hv)
  refine ⟨fun _ => 1, ⟨htexts, ?_, ?_⟩, fun _ _ => ⟨Nat.le_refl 1, Nat.le_refl 1⟩⟩
  · intro u hu v hv _ references path hreferences hpath hrelated
    exact absurd hrelated (hno u hu v hv references path hreferences hpath)
  · intro u hu references path hreferences hpath habove
    exact absurd (.inr habove) (hno u hu u hu references path hreferences hpath)

theorem Rankable.mono {bound : Nat} (h : Rankable engine n run) (hle : n ≤ bound) :
    Rankable engine bound run := by
  obtain ⟨rank, hranked, hbound⟩ := h
  exact ⟨rank, hranked, fun item hitem =>
    ⟨(hbound item hitem).1, (hbound item hitem).2.trans hle⟩⟩

/-- A resolution fails to converge exactly if its texts cannot be ranked by the names that they are
known to read, and never if all of these denote fields without placeholders. -/
theorem diverges_iff_unranked (hengine : engine.Orderly)
    (h : Evaluable engine vars (withoutCommands run)) :
    ((∃ f, resolve engine vars run = .error f ∧ Diverges f) ↔
      run.isMap = true ∧ Keyed.hasKey Vocabulary.runBinding vars = false ∧
        ¬ Rankable engine Vocabulary.maxPlaceholderRounds (withoutCommands run)) ∧
    ((∀ item ∈ (withoutCommands run).pendingAt [], ∀ references path,
        engine.references item.source = .ok references →
          Vocabulary.runBinding :: path ∈ references →
            ∃ c, (withoutCommands run).at? (path.map Step.key) = some c ∧ c.Plain) →
      ∀ f, resolve engine vars run = .error f → ¬ Diverges f) := by
  have hiff : (∃ f, resolve engine vars run = .error f ∧ Diverges f) ↔
      run.isMap = true ∧ Keyed.hasKey Vocabulary.runBinding vars = false ∧
        ¬ Rankable engine Vocabulary.maxPlaceholderRounds (withoutCommands run) := by
    rw [resolve_diverges_iff, h.diverges_iff hengine]
  refine ⟨hiff, ?_⟩
  intro hsettled f hf hdiverges
  obtain ⟨-, -, hunranked⟩ := hiff.mp ⟨f, hf, hdiverges⟩
  have hone : Rankable engine 1 (withoutCommands run) :=
    rankable_of_settled h.ordered h.texts hsettled
  exact hunranked (hone.mono (by decide))

/-- Two fields that read a third one, by name. -/
def dotted : Document :=
  .map [("a", .str "[% my_run.x %]"), ("b", .str "[% my_run.x %]"), ("x", .nat 1)]

/-- The same fields with the name as a subscript. -/
def subscripted : Document :=
  .map [("a", .str "[% my_run['x'] %]"), ("b", .str "[% my_run['x'] %]"), ("x", .nat 1)]

/-- The fields with the values that they read. -/
def dottedResolved : Document :=
  .map [("a", .nat 1), ("b", .nat 1), ("x", .nat 1)]

theorem pendingAt_dotted : dotted.pendingAt [] =
    [⟨[.key "a"], "[% my_run.x %]", false⟩, ⟨[.key "b"], "[% my_run.x %]", false⟩] := by
  rfl

theorem references_dotted :
    (Template.engine false).references "[% my_run.x %]" = .ok [["my_run", "x"]] := by
  decide +kernel

theorem expression_dotted :
    Placeholder.singleExpression? "[% my_run.x %]" = some "my_run.x" ∧
      Template.expression? (Template.Token.ofExpression "my_run.x") =
        .ok (.field (.lookup "my_run") "x") :=
  ⟨by decide +kernel, by rfl⟩

theorem evaluate_dotted (name : String) : evaluate (Template.engine false) (context dotted [])
    ⟨[.key name], "[% my_run.x %]", false⟩ = .ok (.nat 1) := by
  obtain ⟨hsingle, hexpression⟩ := expression_dotted
  exact Template.evaluate_of_expression hsingle hexpression rfl rfl rfl

theorem round_dotted : round (Template.engine false) [] dotted (dotted.pendingAt []) =
    .ok dottedResolved := by
  have hdone : (dotted.pendingAt []).foldlM (step (Template.engine false) dotted
      (context dotted [])) ⟨dotted, [], false⟩ = .ok ⟨dottedResolved, [], true⟩ := by
    rw [pendingAt_dotted]
    refine Outcome.foldlM_cons_eq_ok.mpr
      ⟨_, step_of_text references_dotted (by decide) rfl (evaluate_dotted "a"), ?_⟩
    refine Outcome.foldlM_cons_eq_ok.mpr
      ⟨_, step_of_text references_dotted (by decide) rfl (evaluate_dotted "b"), ?_⟩
    rfl
  rw [round_eq_renameAll hdone rfl, renameAll_nil]

theorem reached_dotted (h : Reached (Template.engine false) [] dotted n d) :
    d = dotted ∨ d = dottedResolved := by
  induction h with
  | start => exact .inl rfl
  | next _ hround ih =>
      rcases ih with rfl | rfl
      · rw [round_dotted, Except.ok.injEq] at hround
        exact .inr hround.symm
      · rw [show dottedResolved.pendingAt [] = [] from rfl] at hround
        cases hround

theorem evaluable_dotted : Evaluable (Template.engine false) [] dotted where
  ordered := by decide
  texts := by simp [pendingAt_dotted]
  compiles := by simp [pendingAt_dotted, references_dotted]
  evaluates := by
    intro n d hd item hitem _
    rcases reached_dotted hd with rfl | rfl
    · rw [pendingAt_dotted, List.mem_pair] at hitem
      rcases hitem with rfl | rfl
      · exact ⟨.nat 1, evaluate_dotted "a", rfl⟩
      · exact ⟨.nat 1, evaluate_dotted "b", rfl⟩
    · cases hitem

theorem diverges_iff_unranked_dotted :
    ((Template.engine false).Orderly ∧
      Evaluable (Template.engine false) [] (withoutCommands dotted)) ∧
    ((∃ f, resolve (Template.engine false) [] dotted = .error f ∧ Diverges f) ↔
      dotted.isMap = true ∧
        Keyed.hasKey Vocabulary.runBinding ([] : List (String × Document)) = false ∧
        ¬ Rankable (Template.engine false) Vocabulary.maxPlaceholderRounds
          (withoutCommands dotted)) ∧
    ((∀ item ∈ (withoutCommands dotted).pendingAt [], ∀ references path,
        (Template.engine false).references item.source = .ok references →
          Vocabulary.runBinding :: path ∈ references →
            ∃ c, (withoutCommands dotted).at? (path.map Step.key) = some c ∧ c.Plain) →
      ∀ f, resolve (Template.engine false) [] dotted = .error f → ¬ Diverges f) := by
  have hengine : (Template.engine false).Orderly := Template.orderly_engine false
  have h : Evaluable (Template.engine false) [] (withoutCommands dotted) := evaluable_dotted
  exact ⟨⟨hengine, h⟩, diverges_iff_unranked hengine h⟩

theorem resolve_dotted : resolve (Template.engine false) [] dotted = .ok dottedResolved := by
  have hnot : ¬ dotted.Plain := by
    intro hplain
    cases hplain
  have hresolved : dottedResolved.Plain := rfl
  have hsettle : settle (Template.engine false) [] Vocabulary.maxPlaceholderRounds dotted =
      .ok dottedResolved := settle_of_single_round hnot round_dotted hresolved
  exact resolve_eq_ok.mpr ⟨rfl, _, _, rfl, hsettle, .inl ⟨rfl, rfl⟩⟩

theorem pendingAt_subscripted : subscripted.pendingAt [] =
    [⟨[.key "a"], "[% my_run['x'] %]", false⟩, ⟨[.key "b"], "[% my_run['x'] %]", false⟩] := by
  rfl

/-- Of a field under a subscript only the run itself is known to be read. -/
theorem references_subscripted :
    (Template.engine false).references "[% my_run['x'] %]" = .ok [["my_run"]] := by
  decide +kernel

theorem expression_subscripted :
    Placeholder.singleExpression? "[% my_run['x'] %]" = some "my_run['x']" ∧
      Template.expression? (Template.Token.ofExpression "my_run['x']") =
        .ok (.item (.lookup "my_run") (.constant (.str "x"))) := by
  have htokens : Template.Token.ofExpression "my_run['x']" =
      [.name "my_run", .sign .openBracket, .str "x", .sign .closeBracket] := by
    rfl
  rw [htokens]
  exact ⟨by decide +kernel, rfl⟩

theorem evaluate_subscripted (name : String) : evaluate (Template.engine false)
    (context subscripted []) ⟨[.key name], "[% my_run['x'] %]", false⟩ = .ok (.nat 1) := by
  obtain ⟨hsingle, hexpression⟩ := expression_subscripted
  exact Template.evaluate_of_expression hsingle hexpression rfl rfl rfl

theorem settle_subscripted (rounds : Nat) :
    settle (Template.engine false) [] (rounds + 1) subscripted =
      .error (.template (Pending.places (subscripted.pendingAt [])) .stuck) := by
  have hdone : (subscripted.pendingAt []).foldlM (step (Template.engine false) subscripted
      (context subscripted [])) ⟨subscripted, [], false⟩ = .ok ⟨subscripted, [], false⟩ := by
    rw [pendingAt_subscripted]
    refine Outcome.foldlM_cons_eq_ok.mpr
      ⟨_, step_of_wait references_subscripted (by decide), ?_⟩
    refine Outcome.foldlM_cons_eq_ok.mpr
      ⟨_, step_of_wait references_subscripted (by decide), ?_⟩
    rfl
  have hnot : ¬ subscripted.Plain := by
    intro hplain
    cases hplain
  rw [settle_succ rounds hnot, round_eq_stuck hdone rfl]
  rfl

/-- Whether a text is a reference to a field of the run and nothing else, by name or by
subscript. -/
def ReadsField (source name : String) : Prop :=
  ∃ text e, Placeholder.singleExpression? source = some text ∧
    Template.expression? (Template.Token.ofExpression text) = .ok e ∧
      (e = .field (.lookup Vocabulary.runBinding) name ∨
        e = .item (.lookup Vocabulary.runBinding) (.constant (.str name)))

theorem readsField_dotted : ReadsField "[% my_run.x %]" "x" :=
  ⟨"my_run.x", _, expression_dotted.1, expression_dotted.2, .inl rfl⟩

theorem readsField_subscripted : ReadsField "[% my_run['x'] %]" "x" :=
  ⟨"my_run['x']", _, expression_subscripted.1, expression_subscripted.2, .inr rfl⟩

/-- Texts that read a settled field by name are rendered, and may keep each other from being
rendered if they read it by a subscript. -/
theorem not_converges_of_settled :
    ((∀ item ∈ dotted.pendingAt [], ReadsField item.source "x") ∧
      ∃ out, resolve (Template.engine false) [] dotted = .ok out) ∧
    ¬ ∀ (vars : List (String × Document)) (run : Document), run.Ordered →
      (∀ item ∈ (withoutCommands run).pendingAt [], item.isKey = false) →
      (∀ item ∈ (withoutCommands run).pendingAt [], ∃ name c, ReadsField item.source name ∧
        (withoutCommands run).at? [.key name] = some c ∧ c.Plain) →
      (∀ item ∈ (withoutCommands run).pendingAt [], ∃ value,
        evaluate (Template.engine false) (context (withoutCommands run) vars) item = .ok value ∧
          value.Plain) →
      ∀ f, resolve (Template.engine false) vars run = .error f → ¬ Diverges f := by
  have hdotted : ∀ item ∈ dotted.pendingAt [], ReadsField item.source "x" := by
    simpa [pendingAt_dotted] using readsField_dotted
  refine ⟨⟨hdotted, _, resolve_dotted⟩, ?_⟩
  intro hall
  have hpending : (withoutCommands subscripted).pendingAt [] = subscripted.pendingAt [] := rfl
  obtain ⟨f, hf, hdiverges⟩ : ∃ f, resolve (Template.engine false) [] subscripted = .error f ∧
      Diverges f :=
    resolve_diverges_iff.mpr ⟨rfl, rfl, _, settle_subscripted 99, .stuck _⟩
  refine hall [] subscripted (by decide) ?_ ?_ ?_ f hf hdiverges
  · simp [hpending, pendingAt_subscripted]
  · intro item hitem
    rw [hpending, pendingAt_subscripted, List.mem_pair] at hitem
    rcases hitem with rfl | rfl <;> exact ⟨"x", .nat 1, readsField_subscripted, rfl, rfl⟩
  · intro item hitem
    rw [hpending, pendingAt_subscripted, List.mem_pair] at hitem
    rcases hitem with rfl | rfl
    · exact ⟨.nat 1, evaluate_subscripted "a", rfl⟩
    · exact ⟨.nat 1, evaluate_subscripted "b", rfl⟩

end Resolution

end ExperimentSuite
