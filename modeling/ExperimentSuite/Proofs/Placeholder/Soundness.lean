import ExperimentSuite.Experiment.Identifiers
import ExperimentSuite.Proofs.Placeholder.Rounds

/-!
# Resolution is sound

A text is replaced in the round in which all of its references are settled, and
by then what they find is final. So its value is the one that its source has
under the run that comes out in the end, whatever the rounds in between looked
like. A text that reads itself or a value it stands in is not covered: its own
place does not keep it from being ready.
-/

namespace ExperimentSuite

/-- What the soundness of one text relies on about an engine. -/
structure Engine.Lawful (engine : Engine) (item : Pending) : Prop where
  orderly : engine.Orderly
  /-- The dotted names of the text are made of identifiers. -/
  names : ∀ references, engine.references item.source = .ok references →
    ∀ path ∈ references, ∀ name ∈ path, Identifiers.isWord name = true
  /-- The text depends on the run only through what is found at its dotted names. -/
  reads : ∀ references, engine.references item.source = .ok references →
    ∀ vars run run', (∀ path, Vocabulary.runBinding :: path ∈ references →
        Document.find run' path = Document.find run path) →
      Resolution.evaluate engine (Resolution.context run' vars) item =
        Resolution.evaluate engine (Resolution.context run vars) item

namespace Placeholder

theorem mem_of_dropFront? {front chars rest : List Char}
    (h : Text.dropFront? front chars = some rest) {c : Char} (hc : c ∈ front) : c ∈ chars := by
  induction front generalizing chars with
  | nil => cases hc
  | cons p front ih =>
      cases chars with
      | nil => cases h
      | cons d chars =>
          rw [Text.dropFront?] at h
          split at h
          · next heq =>
              rcases List.mem_cons.mp hc with rfl | hc
              · rw [heq]
                exact List.mem_cons_self
              · exact List.mem_cons_of_mem _ (ih h hc)
          · cases h

theorem mem_of_cutAt? {piece chars : List Char} {cut : List Char × List Char}
    (h : Text.cutAt? piece chars = some cut) {c : Char} (hc : c ∈ piece) : c ∈ chars := by
  induction chars generalizing cut with
  | nil =>
      rw [Text.cutAt?] at h
      split at h
      · next hnil => simp [List.isEmpty_iff.mp hnil] at hc
      · cases h
  | cons d chars ih =>
      rw [Text.cutAt?] at h
      split at h
      · next hdrop => exact mem_of_dropFront? hdrop hc
      · obtain ⟨cut', hcut, -⟩ := Option.map_eq_some_iff.mp h
        exact List.mem_cons_of_mem _ (ih hcut)

/-- A pair of delimiters only occurs where the characters of the opening one do. -/
theorem hasPair_eq_false {opening closing chars : List Char} {c : Char} (hc : c ∈ opening)
    (h : c ∉ chars) : hasPair opening closing chars = false := by
  rw [hasPair]
  split
  · next hcut => exact absurd (mem_of_cutAt? hcut hc) h
  · rfl

/-- An identifier holds no placeholder. -/
theorem occursIn_of_isWord {name : String} (h : Identifiers.isWord name = true) :
    occursIn name = false := by
  have hno : ∀ c, Text.isWordAscii c = false → c ∉ name.toList := by
    intro c hc hmem
    have hall := List.all_eq_true.mp (Bool.and_eq_true_iff.mp h).2 c hmem
    rw [hc] at hall
    cases hall
  have hpercent : '%' ∉ name.toList := hno '%' (by decide)
  have hhash : '#' ∉ name.toList := hno '#' (by decide)
  simp only [occursIn, Bool.or_eq_false_iff]
  refine ⟨⟨?_, ?_⟩, ?_⟩
  · exact hasPair_eq_false (by simp [expressionStart]) hpercent
  · exact hasPair_eq_false (by simp [statementStart]) hpercent
  · exact hasPair_eq_false (by simp [commentStart]) hhash

end Placeholder

namespace Resolution

open Document

variable {engine : Engine} {vars : List (String × Document)} {run run' out : Document}
  {place : Place} {source : String} {item : Pending} {rounds : Nat} {step : Step}

/-- None of the dotted names of a source leads to a place or to one that it stands in. -/
def ReadsNoneAbove (engine : Engine) (source : String) (place : Place) : Prop :=
  ∀ references path, engine.references source = .ok references →
    Vocabulary.runBinding :: path ∈ references → ¬ path.map Step.key <+: place

/-- A source that is ready has the same value in every later run. -/
theorem evaluate_eq_of_ready {written : Place → Prop} (hengine : engine.Lawful item)
    (hready : Ready engine run item) (hown : ReadsNoneAbove engine item.source item.place)
    (hd : run.Ordered) (hd' : run'.Ordered) (he : Evolves written run run') :
    evaluate engine (context run' vars) item = evaluate engine (context run vars) item := by
  obtain ⟨references, hok, hall⟩ := hready
  apply hengine.reads references hok vars run run'
  intro path hpath
  have hsettled : isSettled item.place run [] path = true := by
    simpa [isReady] using List.all_eq_true.mp hall _ hpath
  refine he.find_eq hd hd' (fun name hname => ?_) hsettled (hown references path hok hpath)
  exact Placeholder.occursIn_of_isWord
    (hengine.names _ hok _ hpath name (List.mem_cons_of_mem _ hname))

/-- The text at a fixed place ends up as the value that its source has under the final run. -/
theorem settle_sound (hengine : engine.Lawful ⟨place, source, false⟩) (hd : run.Ordered)
    (hfixed : place.Fixed)
    (hat : run.at? place = some (.str source)) (hs : Placeholder.occursIn source = true)
    (hown : ReadsNoneAbove engine source place)
    (h : settle engine vars rounds run = .ok out) :
    (∃ references, engine.references source = .ok references) ∧
      ∃ value, evaluate engine (context out vars) ⟨place, source, false⟩ = .ok value ∧
        (value.Plain → out.at? place = some value) := by
  induction rounds generalizing run with
  | zero =>
      rcases settle_cases h with ⟨hplain, -⟩ | ⟨-, n, next, hn, -⟩
      · exact absurd hplain (not_plain_of_at? hd hs hat)
      · cases hn
  | succ rounds ih =>
      have hsettle := h
      rcases settle_cases h with ⟨hplain, -⟩ | ⟨-, n, next, hn, hround, h⟩
      · exact absurd hplain (not_plain_of_at? hd hs hat)
      cases hn
      have hordered := (round_spec hengine.orderly hd hround).1
      rcases text_of_round hengine.orderly hd hfixed hat hs hround with
        ⟨-, hkept⟩ | ⟨hready, value, hvalue, c, hc, hevolves⟩
      · exact ih hordered hkept h
      · obtain ⟨hout, -, hlater⟩ := settle_spec hengine.orderly hordered h
        have hall : Evolves (fun _ => True) run out := (settle_spec hengine.orderly hd hsettle).2.2
        obtain ⟨references, hreferences, -⟩ := id hready
        refine ⟨⟨references, hreferences⟩, value, ?_, fun hplain => ?_⟩
        · rw [evaluate_eq_of_ready hengine hready hown hd hout hall]
          exact hvalue
        · obtain ⟨value', hvalue', he⟩ := hlater.at? hfixed hc
          have hv : value.Ordered := ordered_of_evaluate hengine.orderly hvalue
          have hfinal : Evolves (fun _ => True) value value' :=
            (hevolves.mono fun _ hno => hno.elim).trans he
          rw [← hfinal.eq_of_plain hv (hout.at? hvalue') hplain]
          exact hvalue'

/-- Taking the commands away is not seen from a step beside them. -/
theorem child?_withoutCommands (d : Document) (h : step ≠ .key Vocabulary.command) :
    (withoutCommands d).child? step = d.child? step := by
  cases d with
  | map fields =>
      cases step with
      | key name => exact Keyed.find?_erase_of_ne fun heq => h (congrArg Step.key heq.symm)
      | index n => rfl
  | _ => rfl

theorem child?_attach (commands d : Document) (h : step ≠ .key Vocabulary.command) :
    (attach commands d).child? step = d.child? step := by
  cases d with
  | map fields =>
      cases step with
      | key name => exact Keyed.find?_insert_of_ne fun heq => h (congrArg Step.key heq.symm)
      | index n => rfl
  | _ => rfl

theorem isMap_withoutCommands (d : Document) : (withoutCommands d).isMap = d.isMap := by
  cases d <;> rfl

theorem isMap_attach (commands d : Document) : (attach commands d).isMap = d.isMap := by
  cases d <;> rfl

/-- A run is resolved by settling what stands beside the commands, and nothing beside them is
changed afterwards. -/
theorem resolve_cases (h : resolve engine vars run = .ok out) :
    run.isMap = true ∧ ∃ resolved,
      settle engine vars Vocabulary.maxPlaceholderRounds (withoutCommands run) = .ok resolved ∧
        out.isMap = resolved.isMap ∧
          ∀ step, step ≠ .key Vocabulary.command → out.child? step = resolved.child? step := by
  cases run with
  | map fields =>
      rw [resolve] at h
      split at h
      · cases h
      · obtain ⟨resolved, hresolved, h⟩ := Outcome.bind_eq_ok.mp h
        refine ⟨rfl, resolved, hresolved, ?_⟩
        split at h
        · obtain ⟨commands, -, h⟩ := Outcome.bind_eq_ok.mp h
          cases h
          exact ⟨isMap_attach commands resolved, fun step => child?_attach commands resolved⟩
        · cases h
          exact ⟨rfl, fun _ _ => rfl⟩
  | _ =>
      rw [resolve] at h
      · split at h <;> cases h
      · exact fun fields h => by cases h

/-- Resolution is sound: a text that it replaces has, under the run that comes out, the value that
it was replaced by. -/
theorem resolve_sound (hengine : engine.Lawful ⟨place, source, false⟩) (hd : run.Ordered)
    (h : resolve engine vars run = .ok out) (hat : run.at? place = some (.str source))
    (hs : Placeholder.occursIn source = true) (hfixed : place.Fixed)
    (hbeside : ¬ [Step.key Vocabulary.command] <+: place)
    (hown : ReadsNoneAbove engine source place) :
    (∃ references, engine.references source = .ok references) ∧
      ∃ value, evaluate engine (context (withoutCommands out) vars) ⟨place, source, false⟩ =
          .ok value ∧
        (value.Plain → out.at? place = some value) := by
  obtain ⟨hmap, resolved, hsettle, hout, hchild⟩ := resolve_cases h
  have hstart : (withoutCommands run).Ordered := ordered_withoutCommands hd
  have hresolved : resolved.isMap = true :=
    (settle_spec hengine.orderly hstart hsettle).2.2.isMap (isMap_withoutCommands run ▸ hmap)
  cases place with
  | nil =>
      rw [at?_nil, Option.some.injEq] at hat
      rw [hat] at hmap
      cases hmap
  | cons step rest =>
      have hstep : step ≠ .key Vocabulary.command := by
        rintro rfl
        exact hbeside (by simp)
      have hat' : (withoutCommands run).at? (step :: rest) = some (.str source) := by
        rw [at?_cons, child?_withoutCommands run hstep, ← at?_cons]
        exact hat
      obtain ⟨⟨references, hreferences⟩, value, hvalue, hfinal⟩ :=
        settle_sound hengine hstart hfixed hat' hs hown hsettle
      refine ⟨⟨references, hreferences⟩, value, ?_, fun hplain => ?_⟩
      · rw [← hvalue]
        refine hengine.reads references hreferences vars _ _ fun path hpath => ?_
        cases path with
        | nil => exact absurd List.nil_prefix (hown references [] hreferences hpath)
        | cons name path =>
            -- an identifier is not the key of the commands
            have hname : Step.key name ≠ .key Vocabulary.command := by
              intro heq
              have hword := hengine.names references hreferences _ hpath name (by simp)
              rw [Step.key.inj heq] at hword
              exact absurd hword (by decide)
            have hmap' : (withoutCommands out).isMap = true := by
              rw [isMap_withoutCommands, hout, hresolved]
            refine find_congr hmap' hresolved ?_ path
            rw [child?_withoutCommands out hname, hchild _ hname]
      · rw [at?_cons, hchild step hstep, ← at?_cons]
        exact hfinal hplain

end Resolution

/-- The field of the run that an expression names. -/
def Engine.fieldOf? (expression : String) : Option String :=
  match Text.dropFront? "my_run.".toList expression.toList with
  | some rest => if Identifiers.isWord (String.ofList rest) then some (String.ofList rest) else none
  | none => none

/-- An engine whose only expressions are the texts among the fields of the run. -/
def Engine.fields (tolerant : Bool) : Engine where
  tolerant := tolerant
  references source :=
    .ok (((Placeholder.singleExpression? source).bind fieldOf?).toList.map fun name =>
      [Vocabulary.runBinding, name])
  render _ source := .ok source
  evaluate vars expression :=
    .ok ((fieldOf? expression).bind fun name =>
      match ((Keyed.find? Vocabulary.runBinding vars).getD .null).find [name] with
      | .value (.str s) => some (.str s)
      | _ => none)

theorem Engine.isWord_of_fieldOf? {expression name : String} (h : fieldOf? expression = some name) :
    Identifiers.isWord name = true := by
  rw [fieldOf?] at h
  split at h
  · split at h
    · next hword => cases h; exact hword
    · cases h
  · cases h

theorem Engine.orderly_fields (tolerant : Bool) : (Engine.fields tolerant).Orderly := by
  intro vars expression value h
  simp only [fields, Except.ok.injEq, Option.bind_eq_some_iff] at h
  obtain ⟨name, -, h⟩ := h
  split at h
  · cases h; trivial
  · cases h

theorem Engine.lawful_fields (tolerant : Bool) (item : Pending) :
    (Engine.fields tolerant).Lawful item where
  orderly := orderly_fields tolerant
  names references h path hpath name hname := by
    simp only [fields, Except.ok.injEq] at h
    subst h
    obtain ⟨field, hfield, rfl⟩ := List.mem_map.mp hpath
    rw [Option.mem_toList, Option.bind_eq_some_iff] at hfield
    obtain ⟨expression, -, hfield⟩ := hfield
    rcases List.mem_pair.mp hname with rfl | rfl
    · decide
    · exact isWord_of_fieldOf? hfield
  reads references h vars run run' hfind := by
    simp only [fields, Except.ok.injEq] at h
    subst h
    rw [Resolution.evaluate, Resolution.evaluate]
    cases hsingle : Placeholder.singleExpression? item.source with
    | none => rfl
    | some expression =>
        cases hfield : fieldOf? expression with
        | none => simp [fields, hfield]
        | some name =>
            have heq : run'.find [name] = run.find [name] :=
              hfind [name] (by simp [hsingle, hfield])
            simp [fields, hfield, Resolution.context, heq]

/-- That a source is one expression which names a field of the run. -/
def Engine.Refers (source name : String) : Prop :=
  ∃ expression, Placeholder.singleExpression? source = some expression ∧
    fieldOf? expression = some name

theorem Engine.references_fields {source name : String} (h : Refers source name)
    (tolerant : Bool) :
    (fields tolerant).references source = .ok [[Vocabulary.runBinding, name]] := by
  obtain ⟨expression, hsingle, hfield⟩ := h
  simp [fields, hsingle, hfield]

namespace Resolution

open Document

theorem evaluate_fields {source name s : String} {run : Document} (h : Engine.Refers source name)
    (hfind : run.find [name] = .value (.str s)) (tolerant : Bool) (place : Place) :
    evaluate (Engine.fields tolerant) (context run []) ⟨place, source, false⟩ = .ok (.str s) := by
  obtain ⟨expression, hsingle, hfield⟩ := h
  simp only [evaluate, hsingle, Engine.fields, hfield, context, Keyed.find?_insert_self,
    Option.getD_some, Option.bind_some, hfind]
  rfl

/-- A run with a chain of references. -/
def chain : Document :=
  .map [("a", .str "[% my_run.b %]"), ("b", .str "[% my_run.c %]"), ("c", .str "x")]

/-- The chain after one round: its last reference is settled from the start. -/
def chainHalfway : Document :=
  .map [("a", .str "[% my_run.b %]"), ("b", .str "x"), ("c", .str "x")]

/-- The chain with all of its references followed. -/
def chainResolved : Document :=
  .map [("a", .str "x"), ("b", .str "x"), ("c", .str "x")]

theorem refers_chain :
    Engine.Refers "[% my_run.b %]" "b" ∧ Engine.Refers "[% my_run.c %]" "c" :=
  ⟨⟨"my_run.b", by decide +kernel, by decide +kernel⟩,
    ⟨"my_run.c", by decide +kernel, by decide +kernel⟩⟩

theorem readsNoneAbove_chain :
    ReadsNoneAbove (Engine.fields false) "[% my_run.b %]" [.key "a"] := by
  intro references path h hpath
  rw [Engine.references_fields refers_chain.1, Except.ok.injEq] at h
  subst h
  simp only [List.mem_singleton, List.cons.injEq, true_and] at hpath
  subst hpath
  decide

theorem pendingAt_chain : chain.pendingAt [] =
    [⟨[.key "a"], "[% my_run.b %]", false⟩, ⟨[.key "b"], "[% my_run.c %]", false⟩] := by
  rfl

theorem pendingAt_chainHalfway :
    chainHalfway.pendingAt [] = [⟨[.key "a"], "[% my_run.b %]", false⟩] := by
  rfl

theorem round_chain :
    round (Engine.fields false) [] chain (chain.pendingAt []) = .ok chainHalfway := by
  have hdone : (chain.pendingAt []).foldlM (step (Engine.fields false) chain (context chain []))
      ⟨chain, [], false⟩ = .ok ⟨chainHalfway, [], true⟩ := by
    rw [pendingAt_chain]
    -- the first text has to wait for the second one
    refine Outcome.foldlM_cons_eq_ok.mpr
      ⟨_, step_of_wait (Engine.references_fields refers_chain.1 false) (by decide), ?_⟩
    refine Outcome.foldlM_cons_eq_ok.mpr
      ⟨_, step_of_text (Engine.references_fields refers_chain.2 false) (by decide) rfl
        (evaluate_fields refers_chain.2 rfl false _), ?_⟩
    rfl
  rw [round_eq_renameAll hdone rfl, renameAll_nil]

theorem round_chainHalfway :
    round (Engine.fields false) [] chainHalfway (chainHalfway.pendingAt []) =
      .ok chainResolved := by
  have hdone : (chainHalfway.pendingAt []).foldlM
      (step (Engine.fields false) chainHalfway (context chainHalfway []))
      ⟨chainHalfway, [], false⟩ = .ok ⟨chainResolved, [], true⟩ := by
    rw [pendingAt_chainHalfway]
    refine Outcome.foldlM_cons_eq_ok.mpr
      ⟨_, step_of_text (Engine.references_fields refers_chain.1 false) (by decide) rfl
        (evaluate_fields refers_chain.1 rfl false _), ?_⟩
    rfl
  rw [round_eq_renameAll hdone rfl, renameAll_nil]

theorem plain_chainResolved : chainResolved.Plain := by
  rw [Document.Plain]
  decide +kernel

/-- The chain takes two rounds. -/
theorem settle_chain (rounds : Nat) :
    settle (Engine.fields false) [] (rounds + 2) chain = .ok chainResolved := by
  have hchain : ¬ chain.Plain :=
    not_plain_of_at? (by decide) (by decide) (show chain.at? [.key "b"] = _ from rfl)
  have hhalfway : ¬ chainHalfway.Plain :=
    not_plain_of_at? (by decide) (by decide) (show chainHalfway.at? [.key "a"] = _ from rfl)
  rw [settle_of_round hchain round_chain, settle_of_round hhalfway round_chainHalfway,
    settle_of_plain rounds plain_chainResolved]

theorem resolve_chain :
    ((Engine.fields false).Lawful ⟨[.key "a"], "[% my_run.b %]", false⟩ ∧ chain.Ordered ∧
      resolve (Engine.fields false) [] chain = .ok chainResolved ∧
      chain.at? [.key "a"] = some (.str "[% my_run.b %]") ∧
      Placeholder.occursIn "[% my_run.b %]" = true ∧ Place.Fixed [.key "a"] ∧
      ¬ [Step.key Vocabulary.command] <+: [Step.key "a"] ∧
      ReadsNoneAbove (Engine.fields false) "[% my_run.b %]" [.key "a"]) ∧
    (∃ references, (Engine.fields false).references "[% my_run.b %]" = .ok references) ∧
      ∃ value, evaluate (Engine.fields false) (context (withoutCommands chainResolved) [])
          ⟨[.key "a"], "[% my_run.b %]", false⟩ = .ok value ∧
        (value.Plain → chainResolved.at? [.key "a"] = some value) := by
  have hengine := Engine.lawful_fields false ⟨[.key "a"], "[% my_run.b %]", false⟩
  have hd : chain.Ordered := by decide
  have h : resolve (Engine.fields false) [] chain = .ok chainResolved := by
    have hsettle : settle (Engine.fields false) [] Vocabulary.maxPlaceholderRounds
        (withoutCommands chain) = .ok chainResolved := settle_chain 98
    change (settle _ _ _ (withoutCommands chain) >>= _) = _
    rw [hsettle]
    rfl
  have hat : chain.at? [.key "a"] = some (.str "[% my_run.b %]") := rfl
  have hs : Placeholder.occursIn "[% my_run.b %]" = true := by decide
  have hfixed : Place.Fixed [.key "a"] := by
    intro name hname
    cases List.mem_singleton.mp hname
    decide
  have hbeside : ¬ [Step.key Vocabulary.command] <+: [Step.key "a"] := by decide
  exact ⟨⟨hengine, hd, h, hat, hs, hfixed, hbeside, readsNoneAbove_chain⟩,
    resolve_sound hengine hd h hat hs hfixed hbeside readsNoneAbove_chain⟩

end Resolution

end ExperimentSuite
