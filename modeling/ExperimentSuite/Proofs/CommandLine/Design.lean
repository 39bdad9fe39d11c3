import ExperimentSuite.CommandLine.Run
import ExperimentSuite.Proofs.Files.Writing
import ExperimentSuite.Proofs.Suite.Preparation

/-!
# What a failing suite leaves behind

A suite is prepared, its design is written, it is expanded and its runs are
written. A suite that fails may have written its design in full before. Beyond
that it leaves behind what a write does that fails: directories above its output
that were missing, and its unfinished file. Exactly by these an output can differ
from what it was.
-/

namespace ExperimentSuite

namespace CommandLine

namespace Design

open FileTree Session

variable {p : Project} {options : CompileOptions} {request : DesignRequest} {s s' : Session}
  {suite path base : String} {problem : Problem} {prepared : PreparedSuite} {paths : List String}

/-- The paths of the outputs of a suite. -/
def outputs (request : DesignRequest) (suite : String) : List String :=
  (request.designOut.toList ++ request.runsOut.toList).map (outputPath request suite)

/-- That there is below a path what there was before; nothing if the path led nowhere. -/
def Untouched (s s' : Session) (path : String) : Prop :=
  ∀ below, s'.found path below = s.found path below

/-- That the design of a suite is written to a place which holds something else and has no
unfinished file in the end. -/
def DesignReplaced (p : Project) (request : DesignRequest) (s s' : Session) (suite : String) :
    Prop :=
  ∃ prepared base saved names, p.prepare s suite = .ok prepared ∧ request.designOut = some base ∧
    save s (outputPath request suite base) prepared.document = (saved, .ok ()) ∧
    saved.locate (outputPath request suite base) = .ok names ∧
    s.root.entryAt names ≠
      .file (some (textFor (outputPath request suite base) prepared.document)) ∧
    names ∉ s'.unfinishedPlaces (outputs request suite)

/-- What a write that fails leaves behind, or one that succeeds beside its text, as it is found
below a path. -/
inductive Leftover (paths : List String) (s s' : Session) (path : String) (below : List String) :
    Prop where
  /-- A directory above an output that was missing has been made. -/
  | directory (names : List String)
      (leads : s.locate path = .ok names ∨ s'.locate path = .ok names)
      (place : names ++ below ∈ s'.abovePlaces paths)
      (before : s.found path below = .nothing) (after : s'.found path below = .directory)
  /-- An unfinished file has been filled or moved away. -/
  | unfinished (names : List String)
      (leads : s.locate path = .ok names ∨ s'.locate path = .ok names)
      (place : names ++ below ∈ s'.unfinishedPlaces paths)
      (changed : s'.found path below ≠ s.found path below)
  /-- A path that went through a missing directory leads to what has been elsewhere before. -/
  | opened (names : List String) (before : ∀ names, s.locate path ≠ .ok names)
      (after : s'.locate path = .ok names) (present : s.root.entryAt (names ++ below) ≠ .nothing)
      (same : s'.root.entryAt (names ++ below) = s.root.entryAt (names ++ below))

/-- Whatever is left over makes a difference. -/
theorem Leftover.changed {below : List String} (h : Leftover paths s s' path below) :
    s'.found path below ≠ s.found path below := by
  cases h with
  | directory names leads place before after =>
      rw [before, after]
      simp
  | unfinished names leads place changed => exact changed
  | opened names before after present same =>
      rw [found_of_locate after, same, found_eq_nothing before]
      exact present

/-- What makes a difference after writes that have not come to their last step is left over. -/
theorem found_cases (h : Prepares paths s s') (path : String)
    (below : List String) :
    s'.found path below = s.found path below ∨ Leftover paths s s' path below := by
  by_contra! hno
  obtain ⟨hchanged, hno⟩ := hno
  cases hlocate : s.locate path with
  | ok names =>
      have hbefore := found_of_locate hlocate below
      have hafter := h.found hlocate below
      by_cases hplace : names ++ below ∈ s'.unfinishedPlaces paths
      · exact hno (.unfinished names (.inl hlocate) hplace hchanged)
      · rcases h.within _ hplace with hsame | ⟨habove, hnothing, hmade⟩
        · exact hchanged (hafter.trans (hsame.trans hbefore.symm))
        · exact hno (.directory names (.inl hlocate) habove (hbefore.trans hnothing)
            (hafter.trans hmade))
  | error problem =>
      have hnowhere : ∀ names, s.locate path ≠ .ok names := by simp [hlocate]
      have hbefore := found_eq_nothing hnowhere below
      cases hlocate' : s'.locate path with
      | error problem' => exact hchanged (by rw [hbefore, found_eq_nothing (by simp [hlocate'])])
      | ok names =>
          have hafter := found_of_locate hlocate' below
          by_cases hplace : names ++ below ∈ s'.unfinishedPlaces paths
          · exact hno (.unfinished names (.inr hlocate') hplace hchanged)
          · rcases h.within _ hplace with hsame | ⟨habove, hnothing, hmade⟩
            · refine hno (.opened names hnowhere hlocate' (fun hnothing => hchanged ?_) hsame)
              rw [hbefore, hafter, hsame, hnothing]
            · exact hno (.directory names (.inr hlocate') habove hbefore (hafter.trans hmade))

theorem untouched_iff_of_prepares (h : Prepares paths s s') :
    (∀ path ∈ paths, Untouched s s' path) ↔
      ∀ path ∈ paths, ∀ below, ¬ Leftover paths s s' path below :=
  ⟨fun huntouched path hpath below hleft => hleft.changed (huntouched path hpath below),
    fun hno path hpath below => (found_cases h path below).resolve_right (hno path hpath below)⟩

/-- Saving a document either puts its text where its path leads afterwards, or fails before. -/
theorem save_cases (s : Session) (path : String) (d : Document) :
    (∃ s' problem, save s path d = (s', .error problem) ∧ Prepares [path] s s') ∨
      ∃ s' names, save s path d = (s', .ok ()) ∧ Wrote s s' path (textFor path d) names := by
  rw [save, Session.save]
  rcases write_cases s path (textFor path d) with
    ⟨s', problem, hwrite, hprepares⟩ | ⟨s', names, hwrite, hwrote⟩
  · exact .inl ⟨s', _, by rw [hwrite]; rfl, hprepares⟩
  · exact .inr ⟨s', names, by rw [hwrite]; rfl, hwrote⟩

theorem saveDesign_eq_ok (hout : request.designOut = some base)
    (hsave : save s (outputPath request suite base) prepared.document = (s', .ok ())) :
    saveDesign request s suite prepared = (s', .ok (some (outputPath request suite base))) := by
  rw [saveDesign, hout]
  simp only [hsave]
  rfl

theorem design_subset_outputs (hout : request.designOut = some base) :
    [outputPath request suite base] ⊆ outputs request suite := by
  simp [outputs, hout]

theorem runs_subset_outputs (hout : request.runsOut = some base) :
    [outputPath request suite base] ⊆ outputs request suite := by
  simp [outputs, hout]

/-- Runs that cannot be written have not come to the last step. -/
theorem prepares_saveRuns {compiled : CompiledSuite}
    (h : saveRuns request s suite compiled = (s', .error problem)) :
    Prepares (outputs request suite) s s' := by
  rw [saveRuns] at h
  cases hruns : request.runsOut with
  | none =>
      rw [hruns] at h
      cases h
  | some base =>
      rw [hruns] at h
      rcases save_cases s (outputPath request suite base) compiled.document with
        ⟨saved, cause, hsave, hprepares⟩ | ⟨saved, names, hsave, hwrote⟩
      · simp only [hsave] at h
        cases h
        exact hprepares.mono (runs_subset_outputs hruns)
      · simp only [hsave] at h
        cases h

/-- What is done with a suite once its design is written. -/
def finish (options : CompileOptions) (request : DesignRequest) (suite : String)
    (prepared : PreparedSuite) (report : Report) (s : Session) : Session × Except Problem Report :=
  if request.validateOnly then (s, .ok report)
  else
    match prepared.expand options with
    | .error f => (s, .error (.failure f))
    | .ok compiled =>
        let (s, outcome) := saveRuns request s suite compiled
        (s, outcome.map fun output =>
          { report with expanded := some ⟨compiled.runCount, compiled.digest, output⟩ })

/-- A suite that fails once its design is written does no more than to prepare writes from then
on. -/
theorem prepares_finish {report : Report}
    (h : finish options request suite prepared report s = (s', .error problem)) :
    Prepares (outputs request suite) s s' := by
  rw [finish] at h
  split at h
  · cases h
  split at h
  · cases h
    exact Prepares.refl _ s
  · next compiled hcompiled =>
      cases hsave : saveRuns request s suite compiled with
      | mk saved outcome =>
          rw [hsave] at h
          cases outcome with
          | ok output => cases h
          | error cause =>
              cases h
              exact prepares_saveRuns hsave

/-- What is reported about a suite before its expansion. -/
def startReport (p : Project) (suite : String) (prepared : PreparedSuite)
    (designOut : Option String) : Report :=
  { suite, design := p.design suite, experiments := prepared.experiments.length
    designOut, expanded := none }

theorem not_designReplaced_of_save (hprepare : p.prepare s suite = .ok prepared)
    (hsave : ∀ base, request.designOut = some base →
      ∀ saved, save s (outputPath request suite base) prepared.document ≠ (saved, .ok ())) :
    ¬ DesignReplaced p request s s' suite := by
  rintro ⟨prepared', base, saved, names, hprepare', hout, hsaved, -⟩
  rw [hprepare] at hprepare'
  cases hprepare'
  exact hsave base hout saved hsaved

/-- A design that is written replaces what was at its place unless that was the same text. -/
theorem designReplaced_iff {saved : Session} {names : List String}
    (hprepare : p.prepare s suite = .ok prepared) (hout : request.designOut = some base)
    (hsave : save s (outputPath request suite base) prepared.document = (saved, .ok ()))
    (hlocate : saved.locate (outputPath request suite base) = .ok names) :
    DesignReplaced p request s s' suite ↔
      s.root.entryAt names ≠
        .file (some (textFor (outputPath request suite base) prepared.document)) ∧
      names ∉ s'.unfinishedPlaces (outputs request suite) := by
  constructor
  · rintro ⟨prepared', base', saved', names', hprepare', hout', hsave', hlocate', hrest⟩
    rw [hprepare] at hprepare'
    rw [hout] at hout'
    cases hprepare'
    cases hout'
    rw [hsave] at hsave'
    cases hsave'
    rw [hlocate] at hlocate'
    cases hlocate'
    exact hrest
  · exact fun hrest => ⟨prepared, base, saved, names, hprepare, hout, hsave, hlocate, hrest⟩

/-- A suite that fails has written its design before, or it does no more than to prepare writes. -/
theorem failed_cases (h : suiteReport p options request s suite = (s', .error problem)) :
    (Prepares (outputs request suite) s s' ∧ ¬ DesignReplaced p request s s' suite) ∨
      ∃ prepared base saved names, p.prepare s suite = .ok prepared ∧
        request.designOut = some base ∧
        save s (outputPath request suite base) prepared.document = (saved, .ok ()) ∧
        Wrote s saved (outputPath request suite base)
          (textFor (outputPath request suite base) prepared.document) names ∧
        Prepares (outputs request suite) saved s' := by
  rw [suiteReport] at h
  cases hprepare : p.prepare s suite with
  | error f =>
      rw [hprepare] at h
      cases h
      refine .inl ⟨Prepares.refl _ s, ?_⟩
      rintro ⟨prepared, base, saved, names, hok, -⟩
      rw [hprepare] at hok
      cases hok
  | ok prepared =>
      simp only [hprepare, saveDesign] at h
      cases hout : request.designOut with
      | none =>
          simp only [hout] at h
          have hfinish : finish options request suite prepared
              (startReport p suite prepared none) s = (s', .error problem) := h
          refine .inl ⟨prepares_finish hfinish, not_designReplaced_of_save hprepare ?_⟩
          intro base hbase
          rw [hout] at hbase
          cases hbase
      | some base =>
          simp only [hout] at h
          rcases save_cases s (outputPath request suite base) prepared.document with
            ⟨saved, cause, hsave, hprepares⟩ | ⟨saved, names, hsave, hwrote⟩
          · simp only [hsave] at h
            cases h
            refine .inl ⟨hprepares.mono (design_subset_outputs hout),
              not_designReplaced_of_save hprepare ?_⟩
            intro base' hbase saved' hsave'
            rw [hout] at hbase
            cases hbase
            rw [hsave] at hsave'
            cases hsave'
          · simp only [hsave] at h
            have hfinish : finish options request suite prepared
                (startReport p suite prepared (some (outputPath request suite base))) saved =
                  (s', .error problem) := h
            exact .inr ⟨prepared, base, saved, names, rfl, rfl, hsave, hwrote,
              prepares_finish hfinish⟩

/-- Unless its design replaces something, a suite that fails does no more than to prepare writes. -/
theorem prepares_of_not_designReplaced
    (h : suiteReport p options request s suite = (s', .error problem))
    (hnot : ¬ DesignReplaced p request s s' suite) :
    Prepares (outputs request suite) s s' := by
  rcases failed_cases h with ⟨hprepares, -⟩ |
    ⟨prepared, base, saved, names, hprepare, hout, hsave, hwrote, hrest⟩
  · exact hprepares
  · have hdesign : [outputPath request suite base] ⊆ outputs request suite :=
      design_subset_outputs hout
    have hadvances : Advances ({names} ∪ s'.unfinishedPlaces (outputs request suite))
        (s'.abovePlaces (outputs request suite)) s s' := by
      refine (hwrote.advances.trans hrest).mono ?_ (Set.union_subset ?_ subset_rfl)
      · rintro place ((hplace | hplace) | hplace)
        · exact .inl hplace
        · exact .inr (s'.unfinishedPlaces_mono hdesign (hrest.unfinishedPlaces_subset _ hplace))
        · exact .inr hplace
      · exact (hrest.abovePlaces_subset _).trans (s'.abovePlaces_mono hdesign)
    by_cases hnames : names ∈ s'.unfinishedPlaces (outputs request suite)
    · exact hadvances.mono (Set.union_subset (Set.singleton_subset_iff.mpr hnames) subset_rfl)
        subset_rfl
    · -- the design has been written over the same text
      rw [designReplaced_iff hprepare hout hsave hwrote.located] at hnot
      have htext := not_not.mp fun hne => hnot ⟨hne, hnames⟩
      exact { hadvances with
        within := hadvances.within.of_insert ((hwrote.still hrest hnames).trans htext.symm) }

/-- A design that replaces something can be found afterwards. -/
theorem not_untouched_of_designReplaced
    (h : suiteReport p options request s suite = (s', .error problem))
    (hreplaced : DesignReplaced p request s s' suite) :
    ∃ path ∈ outputs request suite, ¬ Untouched s s' path := by
  rcases failed_cases h with ⟨-, hnot⟩ |
    ⟨prepared, base, saved, names, hprepare, hout, hsave, hwrote, hrest⟩
  · exact absurd hreplaced hnot
  · obtain ⟨hne, hnames⟩ := (designReplaced_iff hprepare hout hsave hwrote.located).mp hreplaced
    refine ⟨_, design_subset_outputs hout (List.mem_singleton.mpr rfl), fun huntouched => ?_⟩
    have hafter : s'.found (outputPath request suite base) [] =
        .file (some (textFor (outputPath request suite base) prepared.document)) := by
      rw [hrest.found hwrote.located, List.append_nil]
      exact hwrote.still hrest hnames
    rw [huntouched] at hafter
    -- what was found before was at the place that the design is written to
    cases hlocate : s.locate (outputPath request suite base) with
    | error cause =>
        rw [found_eq_nothing (by simp [hlocate])] at hafter
        cases hafter
    | ok before =>
        have hlocated := hwrote.advances.locate hlocate
        rw [hwrote.located] at hlocated
        split at hlocated
        · cases hlocated
        · cases hlocated
          rw [found_of_locate hlocate, List.append_nil] at hafter
          exact hne hafter

/-- A suite that fails leaves its outputs as they were, exactly if it has not written its design
over something else and no directory or unfinished file is left over that shows at an output. -/
theorem outputs_untouched_iff
    (h : suiteReport p options request s suite = (s', .error problem)) :
    (∀ path ∈ outputs request suite, Untouched s s' path) ↔
      ¬ DesignReplaced p request s s' suite ∧
        ∀ path ∈ outputs request suite, ∀ below,
          ¬ Leftover (outputs request suite) s s' path below := by
  by_cases hreplaced : DesignReplaced p request s s' suite
  · obtain ⟨path, hpath, htouched⟩ := not_untouched_of_designReplaced h hreplaced
    exact iff_of_false (fun huntouched => htouched (huntouched path hpath))
      (fun hnot => hnot.1 hreplaced)
  · rw [and_iff_right hreplaced]
    exact untouched_iff_of_prepares (prepares_of_not_designReplaced h hreplaced)

/-- The text of a design with one experiment. -/
def strayText : String :=
  "\"exp\":\n  \"base_experiment\":\n    \"size\": \"2\"\n  \"host_types\":\n" ++
    "    \"client\":\n      \"$CMD$\": \"run.sh\"\n"

/-- The design of this text. -/
def strayDesign : Document :=
  .map [("exp", .map [("base_experiment", .map [("size", .str "2")]),
    ("host_types", .map [("client", .map [("$CMD$", .str "run.sh")])])])]

/-- The tokens of a quoted key. -/
def quotedKey (name : String) : List Yaml.Token := [.key, .scalar false name, .value]

/-- The tokens of this text. -/
def strayTokens : List Yaml.Token :=
  List.flatten [[.blockMappingStart], quotedKey "exp", [.blockMappingStart],
    quotedKey "base_experiment", [.blockMappingStart], quotedKey "size",
    [.scalar false "2", .blockEnd], quotedKey "host_types", [.blockMappingStart],
    quotedKey "client", [.blockMappingStart], quotedKey "$CMD$",
    [.scalar false "run.sh", .blockEnd, .blockEnd, .blockEnd, .blockEnd]]

/-- The node that the tokens spell. -/
def strayNode : Yaml.Node :=
  let text (s : String) : Yaml.Node := .scalar ⟨none, none⟩ false s
  let one (key : String) (n : Yaml.Node) : Yaml.Node := .mapping ⟨none, none⟩ [(text key, n)]
  one "exp" (.mapping ⟨none, none⟩
    [(text "base_experiment", one "size" (text "2")),
      (text "host_types", one "client" (one "$CMD$" (text "run.sh")))])

/-- The value of this node. -/
def strayValue : Yaml.Value :=
  let one (key : String) (v : Yaml.Value) : Yaml.Value := .mapping [(.str key, v)]
  one "exp" (.mapping
    [(.str "base_experiment", one "size" (.str "2")),
      (.str "host_types", one "client" (one "$CMD$" (.str "run.sh")))])

theorem read_strayText : Yaml.read strayText = .ok strayDesign := by
  have htokens : Yaml.tokens? strayText = some strayTokens := by
    decide +kernel
  have hnode : Yaml.Node.ofTokens? strayTokens = some (some strayNode) := by
    rfl
  have hvalue : Yaml.Value.ofNode? strayNode = some strayValue := by
    cbv
  have hread : Yaml.value? strayText = some strayValue := by
    rw [Yaml.value?, htokens]
    simp only [Option.bind_eq_bind, Option.bind_some, hnode]
    exact hvalue
  rw [Yaml.read, hread]
  rfl

/-- The files of a project with this design. -/
def strayFiles : List (String × FileTree) :=
  [("proj", .directory
    [("designs", .directory [("stray.yml", .file (some strayText))]),
      ("group_vars", .directory [("client", .empty)])])]

/-- A session in the directory of these files. -/
def straySession : Session := ⟨.directory [("work", .directory strayFiles)], ["work"], 7⟩

/-- Where this project lies. -/
def strayProject : Project := ⟨"demo", "proj"⟩

/-- The experiment of the design as it is parsed. -/
def strayExperiment : Experiment where
  repetitions := 1
  commonRoles := []
  hostTypes := [("client", ⟨1, true, [], .str "run.sh"⟩)]
  configuration := .map [("size", .str "2")]
  factorLevels := [.empty]
  exceptFilters := []

/-- The prepared suite. -/
def straySuite : PreparedSuite where
  project := "demo"
  suite := "stray"
  vars := .empty
  pipelines := none
  experiments := [("exp", {
    spec := { strayExperiment with
      hostTypes := [("client", ⟨1, true, [], .list [.map [("main", .str "run.sh")]]⟩)] }
    plan := ⟨.map [("size", .str "2")], [], []⟩ })]

theorem prepare_strayDesign (load : String → Except Failure Document) :
    PreparedSuite.prepare ⟨"demo", "stray", ⟨["client"], []⟩, load⟩ strayDesign =
      .ok straySuite := by
  refine PreparedSuite.prepare_eq_ok.mpr ⟨_, rfl, [("exp", strayExperiment)], ?_⟩
  constructor
  case parsed => exact .cons ⟨rfl, rfl⟩ .nil
  case named => rfl
  case registered => exact List.forall_mem_singleton.mpr rfl
  case referenced =>
    intro pipelines hpipelines
    cases hpipelines
  case vars => exact ⟨.empty, Inclusion.resolve_eq_self rfl⟩
  case experiments =>
    have hunreserved : strayExperiment.configuration.checkReserved "exp" = .ok () := by
      rfl
    refine .cons ⟨rfl, ?_⟩ .nil
    exact {
      included := ⟨_, _, Inclusion.resolve_eq_self rfl, _, rfl⟩
      unreserved := Document.checkReserved_eq_ok.mp hunreserved
      extracted := rfl
      entries := rfl
      hosts := .cons ⟨rfl, _, rfl, rfl⟩ .nil
      rest := rfl }
  all_goals rfl

theorem prepare_straySession : strayProject.prepare straySession "stray" = .ok straySuite := by
  have hregistry : strayProject.registry straySession = .ok ⟨["client"], []⟩ := by
    rfl
  have hpath : strayProject.design "stray" = "proj/designs/stray.yml" := by
    rfl
  have hread : straySession.read "proj/designs/stray.yml" = .ok strayText := by
    rfl
  have hload : strayProject.loadDesign straySession "stray" = .ok strayDesign := by
    rw [Project.loadDesign, hpath]
    refine Outcome.bind_eq_ok.mpr ⟨strayText, Outcome.mapError_eq_ok.mpr hread, ?_⟩
    rw [read_strayText]
    rfl
  rw [Project.prepare, Project.context, hregistry, hload]
  exact prepare_strayDesign _

/-- A request to write the design of the suite and to expand it with a variable that takes the name
of the run. -/
def strayRequest : DesignRequest where
  suites := ["stray"]
  expsFilter := none
  designOut := some "design.yml"
  runsOut := none
  validateOnly := false
  tolerant := false
  varsFile := none
  bindings := ["my_run=1"]
  json := false

/-- The options that the request stands for. -/
def strayOptions : CompileOptions :=
  ⟨Template.engine false, fun _ => true, [("my_run", .nat 1)]⟩

/-- The session with a text for a design beside the project. -/
def straySaved (text : String) : Session :=
  ⟨.directory [("work", .directory (("design.yml", .file (some text)) :: strayFiles))], ["work"], 7⟩

/-- The session with the design that is left behind. -/
def strayLeft : Session := straySaved (textFor "design.yml" straySuite.document)

theorem suiteReport_straySession :
    suiteReport strayProject strayOptions strayRequest straySession "stray" =
      (strayLeft, .error (.failure (.template "exp[0].my_run" .bindingTaken))) := by
  have hsave : save straySession "design.yml" straySuite.document = (strayLeft, .ok ()) := by
    have hwrite : ∀ text, straySession.write "design.yml" text = (straySaved text, .ok ()) := by
      intro text
      rfl
    rw [save, Session.save, hwrite]
    rfl
  have hexpand : straySuite.expand strayOptions =
      .error (.template "exp[0].my_run" .bindingTaken) := by
    rfl
  have hdesign : saveDesign strayRequest straySession "stray" straySuite =
      (strayLeft, .ok (some "design.yml")) :=
    saveDesign_eq_ok rfl hsave
  rw [suiteReport, prepare_straySession]
  simp only [hdesign, hexpand]
  rfl

/-- A suite that fails in its expansion leaves its design behind. -/
theorem outputs_untouched_iff_straySession :
    suiteReport strayProject strayOptions strayRequest straySession "stray" =
      (strayLeft, .error (.failure (.template "exp[0].my_run" .bindingTaken))) ∧
    ((∀ path ∈ outputs strayRequest "stray", Untouched straySession strayLeft path) ↔
      ¬ DesignReplaced strayProject strayRequest straySession strayLeft "stray" ∧
        ∀ path ∈ outputs strayRequest "stray", ∀ below,
          ¬ Leftover (outputs strayRequest "stray") straySession strayLeft path below) :=
  ⟨suiteReport_straySession, outputs_untouched_iff suiteReport_straySession⟩

/-- Not every suite that fails leaves its outputs as they were. -/
theorem not_untouched_of_suiteReport :
    ¬ ∀ (p : Project) (options : CompileOptions) (request : DesignRequest) (s s' : Session)
      (suite : String) (problem : Problem),
      suiteReport p options request s suite = (s', .error problem) →
        ∀ path ∈ outputs request suite, Untouched s s' path := by
  intro hall
  have huntouched := hall _ _ _ _ _ _ _ suiteReport_straySession "design.yml"
    (List.mem_singleton.mpr rfl) []
  have hbefore : straySession.found "design.yml" [] = .nothing := by
    rfl
  have hlocate : strayLeft.locate "design.yml" = .ok ["work", "design.yml"] := by
    rfl
  rw [hbefore, found_of_locate hlocate] at huntouched
  cases huntouched

end Design

end CommandLine

end ExperimentSuite
