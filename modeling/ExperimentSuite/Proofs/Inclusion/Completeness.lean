import ExperimentSuite.Proofs.Inclusion.Stages

/-!
# Which named files are left out

Markers name files, the contents of these name further files, and whatever is
named should end up in the document or find its place taken. A resolution that
succeeds misses something only through a marker that a file brings to a place
where another marker still stands: the marker is passed over like any other
leaf, but the one that shadows it goes away later. Everything named is kept
exactly if the files that the shadowed markers name come in some other way.
-/

namespace ExperimentSuite

namespace Inclusion

open Document KeyPath Relation

variable {load : String → Except Failure Document} {target d d' out content v : Document}
  {point place p q : KeyPath} {file : String} {rest files : List String}
  {report : InclusionReport} {s t : Stage}

/-- The marker of the mapping at a place names a file. -/
def Names (d : Document) (place : KeyPath) (file : String) : Prop :=
  ∃ raw files, d.get? (place ++ [Vocabulary.inclusion]) = some raw ∧
    fileNames (place ++ [Vocabulary.inclusion]) raw = .ok files ∧ file ∈ files

/-- The content of a file, put at its place, names a file at a place at or below. -/
def Leads (load : String → Except Failure Document) (source next : KeyPath × String) : Prop :=
  ∃ content place, load source.2 = .ok content ∧ Names content place next.2 ∧
    next.1 = source.1 ++ place

/-- A place and a file that the markers of a document or, through files, further markers name. -/
def Named (load : String → Except Failure Document) (target : Document)
    (pair : KeyPath × String) : Prop :=
  ∃ start : KeyPath × String, Names target start.1 start.2 ∧ ReflTransGen (Leads load) start pair

/-- Every leaf of a file that is no marker has its path occupied in a document. -/
def Kept (load : String → Except Failure Document) (out : Document)
    (pair : KeyPath × String) : Prop :=
  ∀ content, load pair.2 = .ok content → ∀ q ∈ content.leafPaths,
    q.getLast? ≠ some Vocabulary.inclusion → out.isOccupied (pair.1 ++ q) = true

/-- When its file is absorbed, a leaf is on or below a marker that the document has already. -/
def Shadowed (load : String → Except Failure Document) (target : Document) (point : KeyPath)
    (content : Document) (q : KeyPath) : Prop :=
  ∃ d file rest place, ReflTransGen (Next load) ⟨target, [], []⟩ ⟨d, point, file :: rest⟩ ∧
    load file = .ok content ∧ q ∈ content.leafPaths ∧
    place ++ [Vocabulary.inclusion] <+: q ∧
    (d.get? (point ++ place ++ [Vocabulary.inclusion])).isSome

/-- What a leaf stands for came in some other way: its own path is occupied or, if it is a marker,
everything that follows from the files it names is kept. -/
structure MadeGood (load : String → Except Failure Document) (out : Document) (point : KeyPath)
    (content : Document) (q : KeyPath) : Prop where
  occupied : q.getLast? ≠ some Vocabulary.inclusion → out.isOccupied (point ++ q) = true
  followed : ∀ place file, q = place ++ [Vocabulary.inclusion] → Names content place file →
    ∀ pair, ReflTransGen (Leads load) (point ++ place, file) pair → Kept load out pair

/-- A value that is no mapping and no marker stands at or above a path. -/
def Barred (d : Document) (p : KeyPath) : Prop :=
  ∃ r v, r <+: p ∧ Vocabulary.inclusion ∉ r ∧ d.get? r = some v ∧ v.isMap = false

/-- A path is occupied without regard to markers. -/
def Held (d : Document) (p : KeyPath) : Prop :=
  (Vocabulary.inclusion ∉ p ∧ (d.get? p).isSome) ∨ Barred d p

theorem Barred.append (h : Barred d p) (q : KeyPath) : Barred d (p ++ q) := by
  obtain ⟨r, v, hr, hv⟩ := h
  exact ⟨r, v, hr.trans (List.prefix_append p q), hv⟩

theorem Held.isOccupied (h : Held d p) : d.isOccupied p = true := by
  rw [isOccupied_iff]
  rcases h with ⟨-, hsome⟩ | ⟨r, v, hr, -, hv, hmap⟩
  · exact .inl hsome
  · exact .inr ⟨r, v, hr, hv, hmap⟩

/-- What holds the path of a marker is above it. -/
theorem Held.barred (h : Held d (p ++ [Vocabulary.inclusion])) : Barred d p := by
  rcases h with ⟨hp, -⟩ | ⟨r, v, hr, hmarker, hv⟩
  · simp at hp
  · rcases List.prefix_concat_iff.mp hr with rfl | hr
    · simp at hmarker
    · exact ⟨r, v, hr, hmarker, hv⟩

theorem Held.at (h : Held v q) (hpoint : Vocabulary.inclusion ∉ point)
    (hv : d.get? point = some v) : Held d (point ++ q) := by
  have hat : ∀ r, d.get? (point ++ r) = v.get? r := fun r => by
    rw [get?_append, hv, Option.bind_some]
  rcases h with ⟨hq, hsome⟩ | ⟨r, w, hr, hmarker, hw, hmap⟩
  · exact .inl ⟨by simp [hpoint, hq], by rwa [hat]⟩
  · refine .inr ⟨point ++ r, w, ?_, by simp [hpoint, hmarker], by rwa [hat], hmap⟩
    exact (List.prefix_append_right_inj point).mpr hr

/-- An occupied path is held, or it passes through or ends at a marker that exists. -/
theorem held_or_marked (h : d.isOccupied q = true) :
    Held d q ∨ ∃ place, place ++ [Vocabulary.inclusion] <+: q ∧
      (d.get? (place ++ [Vocabulary.inclusion])).isSome := by
  obtain ⟨r, hr, hsome, hends⟩ : ∃ r, r <+: q ∧ (d.get? r).isSome ∧
      (r = q ∨ ∃ v, d.get? r = some v ∧ v.isMap = false) := by
    rcases isOccupied_iff.mp h with hsome | ⟨r, v, hr, hv, hmap⟩
    · exact ⟨q, List.prefix_rfl, hsome, .inl rfl⟩
    · exact ⟨r, hr, by rw [hv]; rfl, .inr ⟨v, hv, hmap⟩⟩
  by_cases hmarker : Vocabulary.inclusion ∈ r
  · obtain ⟨place, below, rfl⟩ := List.append_of_mem hmarker
    have hplace : place ++ [Vocabulary.inclusion] <+: place ++ Vocabulary.inclusion :: below := by
      simp
    exact .inr ⟨place, hplace.trans hr, isSome_get?_of_isPrefix hsome hplace⟩
  · rcases hends with rfl | ⟨v, hv, hmap⟩
    · exact .inl (.inl ⟨hmarker, hsome⟩)
    · exact .inl (.inr ⟨r, v, hr, hmarker, hv, hmap⟩)

/-- A step takes away nothing that holds a path. -/
theorem Next.held (hload : LoadsOrdered load) (h : Next load s t) (hp : Held s.document p) :
    Held t.document p := by
  rcases hp with ⟨hp, hsome⟩ | ⟨r, v, hr, hmarker, hv, hmap⟩
  · exact .inl ⟨hp, h.retains hload hp hsome⟩
  · refine .inr ⟨r, v, hr, hmarker, h.keeps hload (fun _ hnext => ?_) hv hmap, hmap⟩
    obtain ⟨parent, rfl, -⟩ := exists_of_nextMarker hnext
    simp at hmarker

theorem Completes.held (hload : LoadsOrdered load) (h : Completes load s out)
    (hp : Held s.document p) : Held out p := by
  obtain ⟨-, point, hreaches⟩ := h
  induction hreaches using ReflTransGen.head_induction_on with
  | refl => exact hp
  | head hstep _ ih => exact ih (hstep.held hload hp)

/-- No resolution that comes to an end goes through a document with something below a marker. -/
theorem Completes.get?_below_marker {key : String} {below : KeyPath} (hload : LoadsOrdered load)
    (h : Completes load s out) (hs : s.Proper) :
    s.document.get? (p ++ Vocabulary.inclusion :: key :: below) = none := by
  obtain ⟨hout, point, hreaches⟩ := h
  induction hreaches using ReflTransGen.head_induction_on with
  | refl => exact Inclusion.get?_below_marker hs.ordered hout
  | head hstep _ ih =>
      have hnext := ih (hstep.proper hload hs)
      cases hstep with
      | marker hfound => exact Inclusion.get?_below_marker hs.ordered hfound
      | file hfile hplace habsorb hreplace =>
          have habsorbed := absorbed_of_absorb (hload _ _ hfile) habsorb
          rw [← Option.not_isSome_iff_eq_none] at hnext ⊢
          exact fun hsome => hnext (habsorbed.isSome_at hplace (set_of_replace? hreplace) hsome)

/-- The place of a stage absorbs each of the files that it still has to. -/
theorem Completes.exists_absorbs (h : Completes load ⟨d, point, files⟩ out) (hfile : file ∈ files) :
    ∃ d' rest, ReflTransGen (Next load) ⟨d, point, files⟩ ⟨d', point, file :: rest⟩ := by
  induction files generalizing d with
  | nil => cases hfile
  | cons first rest ih =>
      rcases List.mem_cons.mp hfile with rfl | hfile
      · exact ⟨d, rest, .refl⟩
      · obtain ⟨t, hstep, ht⟩ := h.next (by simp)
        cases hstep with
        | file hfirst hplace habsorb hreplace =>
            obtain ⟨d', others, hreaches⟩ := ih ht hfile
            exact ⟨d', others, hreaches.head (.file hfirst hplace habsorb hreplace)⟩

/-- A marker that stands in the document of a stage gets its turn. -/
theorem Completes.exists_absorbs_of_names (hload : LoadsOrdered load) (h : Completes load s out)
    (hs : s.Proper) (hnames : Names s.document place file) :
    ∃ d rest, ReflTransGen (Next load) s ⟨d, place, file :: rest⟩ := by
  obtain ⟨hout, point, hreaches⟩ := h
  induction hreaches using ReflTransGen.head_induction_on with
  | refl =>
      obtain ⟨raw, -, hraw, -⟩ := hnames
      have hno := not_mem_of_nextMarker_eq_none hs.ordered hout (by rw [hraw]; rfl)
      simp at hno
  | @head s u hstep hreaches ih =>
      obtain ⟨raw, files, hraw, hfiles, hfile⟩ := hnames
      by_cases hturn : s.files = [] ∧
          nextMarker s.document = .ok (some (place ++ [Vocabulary.inclusion]))
      · cases hstep with
        | @marker d middle taken old marker named hfound hremove htaken =>
            rw [hfound, Except.ok.injEq, Option.some.injEq] at hturn
            obtain rfl := hturn.2
            rw [get?_of_remove? hremove, Option.some.injEq] at hraw
            obtain rfl := hraw
            rw [hfiles, Except.ok.injEq] at htaken
            obtain rfl := htaken
            have hturn : Next load ⟨d, old, []⟩ _ := .marker hfound hremove hfiles
            rw [List.dropLast_concat] at hturn hreaches
            have hu : Completes load ⟨middle, place, files⟩ out := ⟨hout, point, hreaches⟩
            obtain ⟨d', rest, hthere⟩ := hu.exists_absorbs hfile
            exact ⟨d', rest, hthere.head hturn⟩
        | file => cases hturn.1
      · have hkept := hstep.keeps hload (fun hnil hfound => hturn ⟨hnil, hfound⟩) hraw
          (isMap_of_fileNames hfiles)
        obtain ⟨d', rest, hthere⟩ := ih (hstep.proper hload hs) ⟨raw, files, hkept, hfiles, hfile⟩
        exact ⟨d', rest, hthere.head hstep⟩

/-- What becomes of the leaves of a file that a place absorbs: a leaf whose path is free gets in,
and any other one is held or shadowed. -/
theorem Completes.exists_absorbed (hload : LoadsOrdered load)
    (h : Completes load ⟨d, point, file :: rest⟩ out) (hs : Vocabulary.inclusion ∉ point)
    (hfile : load file = .ok content) :
    ∃ d', Next load ⟨d, point, file :: rest⟩ ⟨d', point, rest⟩ ∧
      Completes load ⟨d', point, rest⟩ out ∧ ∀ q ∈ content.leafPaths,
        ((d'.get? (point ++ q)).isSome ∧ ∀ v, content.get? q = some v → v.isMap = false →
          d'.get? (point ++ q) = some v) ∨
        Held d (point ++ q) ∨
        ∃ place, place ++ [Vocabulary.inclusion] <+: q ∧
          (d.get? (point ++ place ++ [Vocabulary.inclusion])).isSome := by
  obtain ⟨t, hstep, ht⟩ := h.next (by simp)
  cases hstep with
  | @file _ d' value value' _ _ _ _ _ hfile' hplace habsorb hreplace =>
      rw [hfile, Except.ok.injEq] at hfile'
      subst hfile'
      refine ⟨d', .file hfile hplace habsorb hreplace, ht, ?_⟩
      intro q hq
      have habsorbed := absorbed_of_absorb (hload _ _ hfile) habsorb
      have hset := set_of_replace? hreplace
      cases hfree : value.isOccupied q with
      | false =>
          rw [get?_set_append hset]
          exact .inl ⟨habsorbed.enters q hq hfree, fun v hv hmap =>
            habsorbed.takes q hq v hv hmap hfree⟩
      | true =>
          refine .inr ((held_or_marked hfree).imp (fun hheld => hheld.at hs hplace) ?_)
          rintro ⟨place, hprefix, hsome⟩
          refine ⟨place, hprefix, ?_⟩
          rw [List.append_assoc, get?_append, hplace]
          exact hsome

/-- What can have become of a place and a file that are named. -/
inductive Fate (load : String → Except Failure Document) (target out : Document) :
    KeyPath × String → Prop where
  /-- The place came to absorb the file. -/
  | absorbed {d : Document} {point : KeyPath} {file : String} {rest : List String}
      (h : ReflTransGen (Next load) ⟨target, [], []⟩ ⟨d, point, file :: rest⟩) :
      Fate load target out (point, file)
  /-- The place cannot hold anything. -/
  | barred {pair : KeyPath × String} (h : Barred out pair.1) : Fate load target out pair
  /-- What follows is kept for some other reason. -/
  | madeGood {pair : KeyPath × String}
      (h : ∀ next, ReflTransGen (Leads load) pair next → Kept load out next) :
      Fate load target out pair

section

variable {pair next : KeyPath × String} (hload : LoadsOrdered load) (htarget : target.Ordered)
  (hout : Completes load ⟨target, [], []⟩ out)
  (hgood : ∀ point content q, Shadowed load target point content q →
    MadeGood load out point content q)

include htarget in
theorem proper_of_reaches_target (hload : LoadsOrdered load)
    (h : ReflTransGen (Next load) ⟨target, [], []⟩ s) : s.Proper :=
  proper_of_reaches hload h ⟨htarget, List.not_mem_nil⟩

include hload htarget hout hgood

theorem Fate.kept (h : Fate load target out pair) : Kept load out pair := by
  cases h with
  | @absorbed d point file rest hreaches =>
      intro content hfile q hq hmarker
      have hs := proper_of_reaches_target htarget hload hreaches
      obtain ⟨d', hstep, hd', hleaves⟩ :=
        (hout.of_reaches hreaches).exists_absorbed hload hs.unmarked hfile
      rcases hleaves q hq with ⟨hsome, -⟩ | hheld | ⟨place, hplace, hsome⟩
      · -- a leaf below a marker would have got in the way of the resolution
        have hq' : Vocabulary.inclusion ∉ q := by
          intro hmem
          obtain ⟨place, below, rfl⟩ := List.append_of_mem hmem
          cases below with
          | nil => exact hmarker List.getLast?_concat
          | cons key below =>
              rw [← List.append_assoc, hd'.get?_below_marker hload (hstep.proper hload hs)] at hsome
              cases hsome
        have hheld : Held d' (point ++ q) := .inl ⟨by simp [hs.unmarked, hq'], hsome⟩
        exact (hd'.held hload hheld).isOccupied
      · exact ((hout.of_reaches hreaches).held hload hheld).isOccupied
      · exact (hgood point content q
          ⟨d, file, rest, place, hreaches, hfile, hq, hplace, hsome⟩).occupied hmarker
  | barred hbarred =>
      intro content hfile q hq hmarker
      exact Held.isOccupied (.inr (hbarred.append q))
  | madeGood hkept => exact hkept pair .refl

theorem Fate.leads (h : Fate load target out pair) (hleads : Leads load pair next) :
    Fate load target out next := by
  obtain ⟨next, file'⟩ := next
  obtain ⟨content, place, hfile, hnames, hnext⟩ := hleads
  dsimp only at hfile hnames hnext
  subst hnext
  cases h with
  | @absorbed d point file rest hreaches =>
      have hs := proper_of_reaches_target htarget hload hreaches
      obtain ⟨d', hstep, hd', hleaves⟩ :=
        (hout.of_reaches hreaches).exists_absorbed hload hs.unmarked hfile
      obtain ⟨raw, files, hraw, hfiles, hmem⟩ := id hnames
      have hmap := isMap_of_fileNames hfiles
      have hq : place ++ [Vocabulary.inclusion] ∈ content.leafPaths :=
        (mem_leafPaths_iff (hload _ _ hfile)).mpr ⟨by simp, raw, hraw, isLeaf_of_not_isMap hmap⟩
      rcases hleaves _ hq with ⟨-, hgets⟩ | hheld | ⟨marker, hplace, hsome⟩
      · have hstands : Names d' (point ++ place) file' := by
          refine ⟨raw, files, ?_, fileNames_eq_ok.mpr (fileNames_eq_ok.mp hfiles), hmem⟩
          rw [List.append_assoc]
          exact hgets raw hraw hmap
        obtain ⟨d'', others, hthere⟩ :=
          hd'.exists_absorbs_of_names hload (hstep.proper hload hs) hstands
        exact .absorbed ((hreaches.tail hstep).trans hthere)
      · have hheld' := (hout.of_reaches hreaches).held hload hheld
        rw [← List.append_assoc] at hheld'
        exact .barred hheld'.barred
      · have hmade := hgood point content _
          ⟨d, file, rest, marker, hreaches, hfile, hq, hplace, hsome⟩
        exact .madeGood (hmade.followed place file' rfl hnames)
  | barred hbarred => exact .barred (hbarred.append place)
  | madeGood hkept =>
      exact .madeGood fun last hlast => hkept last (hlast.head ⟨content, place, hfile, hnames, rfl⟩)

end

theorem fate_of_named {pair : KeyPath × String} (hload : LoadsOrdered load)
    (htarget : target.Ordered) (hout : Completes load ⟨target, [], []⟩ out)
    (hgood : ∀ point content q, Shadowed load target point content q →
      MadeGood load out point content q)
    (h : Named load target pair) : Fate load target out pair := by
  obtain ⟨⟨place, file⟩, hnames, hleads⟩ := h
  induction hleads with
  | refl =>
      obtain ⟨d, rest, hthere⟩ :=
        hout.exists_absorbs_of_names hload ⟨htarget, List.not_mem_nil⟩ hnames
      exact .absorbed hthere
  | tail _ hstep ih => exact ih.leads hload htarget hout hgood hstep

/-- A stage at which everything that markers and files could still bring in is named. -/
structure Sourced (load : String → Except Failure Document) (target : Document) (s : Stage) :
    Prop where
  files : ∀ file ∈ s.files, Named load target (s.point, file)
  markers : ∀ place file, Names s.document place file → Named load target (place, file)

theorem Named.leads {pair next : KeyPath × String} (h : Named load target pair)
    (hleads : Leads load pair next) : Named load target next := by
  obtain ⟨start, hstart, hpair⟩ := h
  exact ⟨start, hstart, hpair.tail hleads⟩

theorem Next.sourced (hload : LoadsOrdered load) (h : Next load s t) (hs : s.Proper)
    (hsourced : Sourced load target s) : Sourced load target t where
  files := by
    intro file hfile
    cases h with
    | marker hfound hremove hfiles =>
        obtain ⟨parent, rfl, -⟩ := exists_of_nextMarker hfound
        rw [List.dropLast_concat]
        exact hsourced.markers parent file ⟨_, _, get?_of_remove? hremove, hfiles, hfile⟩
    | file => exact hsourced.files file (List.mem_cons_of_mem _ hfile)
  markers := by
    rintro place file ⟨raw, files, hraw, hfiles, hfile⟩
    rcases h.origin hload hs hraw (isMap_of_fileNames hfiles) with
      hold | ⟨source, content, q, hsource, hcontent, hq, hplace, hnew⟩
    · exact hsourced.markers place file ⟨raw, files, hold, hfiles, hfile⟩
    · -- the marker came with a file, and the file it names follows from that one
      have hne := ((mem_leafPaths_iff (hload _ _ hcontent)).mp hq).1
      obtain ⟨below, key, rfl⟩ := List.eq_nil_or_concat' q |>.resolve_left hne
      rw [← List.append_assoc] at hplace
      obtain ⟨rfl, hkey⟩ := List.append_inj' hplace rfl
      cases hkey
      have hnames : Names content below file :=
        ⟨raw, files, hnew, fileNames_eq_ok.mpr (fileNames_eq_ok.mp hfiles), hfile⟩
      exact (hsourced.files source hsource).leads ⟨content, below, hcontent, hnames, rfl⟩

theorem sourced_of_reaches (hload : LoadsOrdered load) (htarget : target.Ordered)
    (h : ReflTransGen (Next load) ⟨target, [], []⟩ s) : Sourced load target s := by
  induction h with
  | refl => exact ⟨by simp, fun place file hnames => ⟨(place, file), hnames, .refl⟩⟩
  | tail hreaches hstep ih =>
      exact hstep.sourced hload (proper_of_reaches_target htarget hload hreaches) ih

/-- Everything that is named is kept exactly if every shadowed leaf is made good. -/
theorem kept_iff_shadowed_madeGood (hload : LoadsOrdered load) (htarget : target.Ordered)
    (h : resolve load target = .ok (out, report)) :
    (∀ pair, Named load target pair → Kept load out pair) ↔
      ∀ point content q, Shadowed load target point content q →
        MadeGood load out point content q := by
  have hout : Completes load ⟨target, [], []⟩ out := completes_of_resolveRounds h
  constructor
  · rintro hkept point content q ⟨d, file, rest, -, hreaches, hfile, hq, -, -⟩
    have hnamed : Named load target (point, file) :=
      (sourced_of_reaches hload htarget hreaches).files file List.mem_cons_self
    refine ⟨hkept _ hnamed content hfile q hq, ?_⟩
    intro place file' _ hnames pair hpair
    have hnext : Named load target (point ++ place, file') :=
      hnamed.leads ⟨content, place, hfile, hnames, rfl⟩
    obtain ⟨start, hstart, hfirst⟩ := hnext
    exact hkept pair ⟨start, hstart, hfirst.trans hpair⟩
  · exact fun hgood pair hnamed =>
      (fate_of_named hload htarget hout hgood hnamed).kept hload htarget hout hgood

/-- Two files that each hold a value and name a further file. -/
def branchingFiles : String → Except Failure Document
  | "a.yml" => .ok (.map [(Vocabulary.inclusion, .str "c.yml"), ("a", .nat 1)])
  | "b.yml" => .ok (.map [(Vocabulary.inclusion, .str "d.yml"), ("b", .nat 2)])
  | "c.yml" => .ok (.map [("c", .nat 3)])
  | "d.yml" => .ok (.map [("d", .nat 4)])
  | file => .error (.file file .notFound)

/-- A document that names the first of the files. -/
def oneBranch : Document := .map [(Vocabulary.inclusion, .str "a.yml")]

/-- A document that names both files with one marker. -/
def twoBranches : Document :=
  .map [(Vocabulary.inclusion, .list [.str "a.yml", .str "b.yml"])]

theorem loadsOrdered_branchingFiles : LoadsOrdered branchingFiles := by
  intro file content h
  unfold branchingFiles at h
  split at h <;> cases h <;> decide

theorem kept_iff_oneBranch :
    let out : Document := .map [("a", .nat 1), ("c", .nat 3)]
    (LoadsOrdered branchingFiles ∧ oneBranch.Ordered ∧
      resolve branchingFiles oneBranch =
        .ok (out, ⟨[[Vocabulary.inclusion], ["a"], ["c"]], []⟩)) ∧
    ((∀ pair, Named branchingFiles oneBranch pair → Kept branchingFiles out pair) ↔
      ∀ point content q, Shadowed branchingFiles oneBranch point content q →
        MadeGood branchingFiles out point content q) := by
  have htarget : oneBranch.Ordered := by decide
  have h : resolve branchingFiles oneBranch = .ok (.map [("a", .nat 1), ("c", .nat 3)],
      ⟨[[Vocabulary.inclusion], ["a"], ["c"]], []⟩) := by
    cbv
  exact ⟨⟨loadsOrdered_branchingFiles, htarget, h⟩,
    kept_iff_shadowed_madeGood loadsOrdered_branchingFiles htarget h⟩

/-- Not everything that is named is kept: of two files that one marker names, the second cannot
name a further one, since its marker is shadowed by that of the first. -/
theorem not_kept_of_named :
    ¬ ∀ load target out report, LoadsOrdered load → target.Ordered →
      resolve load target = .ok (out, report) →
      ∀ pair, Named load target pair → Kept load out pair := by
  intro hall
  have h : resolve branchingFiles twoBranches =
      .ok (.map [("a", .nat 1), ("b", .nat 2), ("c", .nat 3)],
        ⟨[[Vocabulary.inclusion], ["a"], ["b"], ["c"]], [[Vocabulary.inclusion]]⟩) := by
    cbv
  have hfirst : Names twoBranches [] "b.yml" :=
    ⟨.list [.str "a.yml", .str "b.yml"], ["a.yml", "b.yml"], rfl, rfl, by simp⟩
  have hsecond : Leads branchingFiles ([], "b.yml") ([], "d.yml") :=
    ⟨.map [(Vocabulary.inclusion, .str "d.yml"), ("b", .nat 2)], [], rfl,
      ⟨.str "d.yml", ["d.yml"], rfl, rfl, by simp⟩, rfl⟩
  have hnamed : Named branchingFiles twoBranches ([], "d.yml") :=
    ⟨([], "b.yml"), hfirst, .single hsecond⟩
  have hkept := hall _ _ _ _ loadsOrdered_branchingFiles (by decide) h _ hnamed
  have hoccupied := hkept (.map [("d", .nat 4)]) rfl ["d"] (by decide) (by decide)
  revert hoccupied
  decide

end Inclusion

end ExperimentSuite
