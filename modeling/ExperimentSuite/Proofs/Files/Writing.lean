import ExperimentSuite.Files.Session
import ExperimentSuite.Proofs.Files.Tree
import Mathlib.Logic.Relation

/-!
# What a write changes

A write makes the directories that are missing, creates an unfinished file beside
the finished one and moves it into place. Every step keeps the directories that
there are, so a path that leads to one goes on doing so. Up to the last step
nothing but the unfinished file differs from before, apart from directories above
the finished one where there was nothing; the last step puts the text where the
path leads afterwards.
-/

namespace ExperimentSuite

open FileTree

/-- That a path is the one directly above another. -/
def Path.IsParent (above path : String) : Prop := Path.parent? path = some above

/-- That a path is one of those above another. -/
def Path.IsAbove (above path : String) : Prop := Relation.TransGen IsParent above path

namespace Session

variable {s s' s'' : Session} {names source pieces : List String} {path text : String}
  {paths paths' : List String} {target : Target} {touched touched' made made' : Set (List String)}

section Advancing

/-- How a session goes on: relative paths start where they did, directories stay, and the files
differ at some places at most, apart from directories made at others where there was nothing. -/
structure Advances (touched made : Set (List String)) (s s' : Session) : Prop where
  here : s'.here = s.here
  process : s'.process = s.process
  keeps : KeepsDirectories s.root s'.root
  within : Within touched made s.root s'.root

theorem Advances.refl (s : Session) : Advances ∅ ∅ s s :=
  ⟨rfl, rfl, KeepsDirectories.refl s.root, Within.refl s.root⟩

theorem Advances.mono (h : Advances touched made s s') (htouched : touched ⊆ touched')
    (hmade : made ⊆ made') : Advances touched' made' s s' :=
  { h with within := h.within.mono htouched hmade }

theorem Advances.trans (h : Advances touched made s s') (h' : Advances touched' made' s' s'') :
    Advances (touched ∪ touched') (made ∪ made') s s'' where
  here := h'.here.trans h.here
  process := h'.process.trans h.process
  keeps := h.keeps.trans h'.keeps
  within := h.within.trans h'.within

theorem Advances.start (h : Advances touched made s s') (path : String) :
    s'.start path = s.start path := by
  rw [Session.start, Session.start, h.here]

/-- That a path is not refused as a whole. -/
structure Admissible (path : String) : Prop where
  plain : ¬ path.toList.contains '\x00' = true
  short : ¬ maxPath < path.utf8ByteSize

theorem follow_eq_ok : s.follow path pieces = .ok names ↔
    Admissible path ∧ s.root.follow (s.start path) pieces = .ok names := by
  rw [Session.follow, Outcome.ite_error_eq_ok, Outcome.ite_error_eq_ok]
  exact ⟨fun ⟨hplain, hshort, h⟩ => ⟨⟨hplain, hshort⟩, h⟩,
    fun ⟨⟨hplain, hshort⟩, h⟩ => ⟨hplain, hshort, h⟩⟩

theorem Advances.follow (h : Advances touched made s s')
    (hstart : s.root.entryAt (s.start path) = .directory)
    (hfollow : s.follow path pieces = .ok names) :
    s'.follow path pieces =
      if s'.root.entryAt names = .nothing then .error .notFound else .ok names := by
  obtain ⟨⟨hplain, hshort⟩, hfollow⟩ := follow_eq_ok.mp hfollow
  rw [Session.follow, if_neg hplain, if_neg hshort, h.start, h.keeps.follow hstart hfollow]

theorem exists_pieces_eq_cons (path : String) :
    ∃ first rest, Path.pieces path = first :: rest :=
  List.exists_cons_of_ne_nil (by simp [Path.pieces, List.splitOn_ne_nil])

theorem locate_eq_ok : s.locate path = .ok names ↔
    ¬ path.isEmpty = true ∧ s.follow path (Path.pieces path) = .ok names := by
  rw [locate, Outcome.ite_error_eq_ok]

theorem Advances.locate (h : Advances touched made s s') (hlocate : s.locate path = .ok names) :
    s'.locate path =
      if s'.root.entryAt names = .nothing then .error .notFound else .ok names := by
  obtain ⟨hempty, hfollow⟩ := locate_eq_ok.mp hlocate
  have hstart : s.root.entryAt (s.start path) = .directory := by
    obtain ⟨first, rest, hpieces⟩ := exists_pieces_eq_cons path
    rw [hpieces] at hfollow
    exact entryAt_of_follow_cons (follow_eq_ok.mp hfollow).2
  rw [Session.locate, if_neg hempty, h.follow hstart hfollow]

end Advancing

section Places

theorem directoryOf_eq (s : Session) (path : String) (target : Target) :
    s.directoryOf path target = s.follow path target.directory >>= fun names =>
      if s.root.entryAt names = .directory then .ok names else .error .notDirectory := by
  rw [directoryOf]
  refine bind_congr fun names => ?_
  rw [entryAt]
  rcases s.root.node? names with - | (_ | _) <;> rfl

theorem directoryOf_eq_ok : s.directoryOf path target = .ok names ↔
    s.follow path target.directory = .ok names ∧ s.root.entryAt names = .directory := by
  rw [directoryOf_eq]
  constructor
  · intro h
    obtain ⟨found, hfollow, h⟩ := Outcome.bind_eq_ok.mp h
    obtain ⟨hdirectory, rfl⟩ := Outcome.ite_eq_ok.mp h
    exact ⟨hfollow, hdirectory⟩
  · rintro ⟨hfollow, hdirectory⟩
    exact Outcome.bind_eq_ok.mpr ⟨names, hfollow, if_pos hdirectory⟩

/-- Where a file at a path stands, if its directory is there. -/
def placeOf? (s : Session) (path : String) : Option (List String) :=
  match target? path with
  | some target =>
      match s.directoryOf path target with
      | .ok here => some (here ++ [target.name])
      | .error _ => none
  | none => none

theorem placeOf?_eq_some : s.placeOf? path = some names ↔
    ∃ target here, target? path = some target ∧ s.directoryOf path target = .ok here ∧
      names = here ++ [target.name] := by
  rw [placeOf?]
  cases target? path with
  | none => simp
  | some target =>
      cases hhere : s.directoryOf path target with
      | error problem => simp [hhere]
      | ok here => simp [hhere, eq_comm]

/-- The directory of a target does not change. -/
theorem Advances.directoryOf (h : Advances touched made s s')
    (hnames : s.directoryOf path target = .ok names) : s'.directoryOf path target = .ok names := by
  obtain ⟨hfollow, hdirectory⟩ := directoryOf_eq_ok.mp hnames
  have hstart : s.root.entryAt (s.start path) = .directory := by
    have hfollow := (follow_eq_ok.mp hfollow).2
    cases hpieces : target.directory with
    | nil =>
        rw [hpieces] at hfollow
        cases hfollow
        exact hdirectory
    | cons first rest =>
        rw [hpieces] at hfollow
        exact entryAt_of_follow_cons hfollow
  have hdirectory' := h.keeps names hdirectory
  refine directoryOf_eq_ok.mpr ⟨?_, hdirectory'⟩
  rw [h.follow hstart hfollow, hdirectory', if_neg (by simp)]

/-- Where a file at a path stands does not change. -/
theorem Advances.placeOf? (h : Advances touched made s s') (hplace : s.placeOf? path = some names) :
    s'.placeOf? path = some names := by
  obtain ⟨target, here, htarget, hhere, rfl⟩ := placeOf?_eq_some.mp hplace
  exact placeOf?_eq_some.mpr ⟨target, here, htarget, h.directoryOf hhere, rfl⟩

/-- Where files at paths stand. -/
def placesOf (s : Session) (paths : Set String) : Set (List String) :=
  {names | ∃ path ∈ paths, s.placeOf? path = some names}

theorem placesOf_mono (s : Session) {paths paths' : Set String} (h : paths ⊆ paths') :
    s.placesOf paths ⊆ s.placesOf paths' :=
  fun _ ⟨path, hpath, hplace⟩ => ⟨path, h hpath, hplace⟩

theorem Advances.placesOf_subset (h : Advances touched made s s') (paths : Set String) :
    s.placesOf paths ⊆ s'.placesOf paths :=
  fun _ ⟨path, hpath, hplace⟩ => ⟨path, hpath, h.placeOf? hplace⟩

/-- The places of the unfinished files beside paths. -/
def unfinishedPlaces (s : Session) (paths : List String) : Set (List String) :=
  s.placesOf {other | ∃ path ∈ paths, other = s.unfinished path}

/-- The places of the directories above paths. -/
def abovePlaces (s : Session) (paths : List String) : Set (List String) :=
  s.placesOf {above | ∃ path ∈ paths, Path.IsAbove above path}

theorem unfinishedPlaces_mono (s : Session) (h : paths ⊆ paths') :
    s.unfinishedPlaces paths ⊆ s.unfinishedPlaces paths' :=
  s.placesOf_mono fun _ ⟨path, hpath, hother⟩ => ⟨path, h hpath, hother⟩

theorem abovePlaces_mono (s : Session) (h : paths ⊆ paths') :
    s.abovePlaces paths ⊆ s.abovePlaces paths' :=
  s.placesOf_mono fun _ ⟨path, hpath, habove⟩ => ⟨path, h hpath, habove⟩

theorem Advances.unfinishedPlaces_subset (h : Advances touched made s s') (paths : List String) :
    s.unfinishedPlaces paths ⊆ s'.unfinishedPlaces paths := by
  have hname : s'.unfinished = s.unfinished := by
    funext path
    rw [unfinished, unfinished, h.process]
  rw [unfinishedPlaces, unfinishedPlaces, hname]
  exact h.placesOf_subset _

theorem Advances.abovePlaces_subset (h : Advances touched made s s') (paths : List String) :
    s.abovePlaces paths ⊆ s'.abovePlaces paths := h.placesOf_subset _

/-- That a session goes on by what a write to paths does before its last step: nothing but their
unfinished files differs, apart from directories above them where there was nothing. -/
def Prepares (paths : List String) (s s' : Session) : Prop :=
  Advances (s'.unfinishedPlaces paths) (s'.abovePlaces paths) s s'

theorem Prepares.refl (paths : List String) (s : Session) : Prepares paths s s :=
  (Advances.refl s).mono (Set.empty_subset _) (Set.empty_subset _)

theorem Prepares.mono (h : Prepares paths s s') (hsub : paths ⊆ paths') : Prepares paths' s s' :=
  Advances.mono h (s'.unfinishedPlaces_mono hsub) (s'.abovePlaces_mono hsub)

end Places

section Steps

theorem makeDirectory_eq (htarget : target? path = some target) :
    s.makeDirectory path = s.directoryOf path target >>= fun names =>
      if [".", ".."].contains target.name then .error .exists
      else if maxName < target.name.utf8ByteSize then .error .nameTooLong
      else if (s.root.node? (names ++ [target.name])).isSome then .error .exists
      else .ok { s with root := s.root.place (names ++ [target.name]) .empty } := by
  rw [makeDirectory, htarget]
  rfl

/-- A directory is made where there was nothing. -/
theorem advances_makeDirectory (h : s.makeDirectory path = .ok s') :
    Advances ∅ (s'.placesOf {path}) s s' := by
  cases htarget : target? path with
  | none =>
      rw [makeDirectory, htarget] at h
      cases h
  | some target =>
      rw [makeDirectory_eq htarget] at h
      obtain ⟨here, hhere, h⟩ := Outcome.bind_eq_ok.mp h
      obtain ⟨-, hdirectory⟩ := directoryOf_eq_ok.mp hhere
      simp only [Outcome.ite_error_eq_ok] at h
      obtain ⟨-, -, hnone, h⟩ := h
      cases h
      have hnothing : s.root.entryAt (here ++ [target.name]) = .nothing :=
        Entry.ofNode?_eq_nothing_iff.mpr (by simpa using hnone)
      have hfree : s.root.entryAt (here ++ [target.name]) ≠ .directory := by
        simp [hnothing]
      have hputs := puts_place hdirectory hfree isLeaf_empty
      have hadvances : Advances ∅ {here ++ [target.name]} s
          { s with root := s.root.place (here ++ [target.name]) .empty } :=
        ⟨rfl, rfl, hputs.keepsDirectories hfree, hputs.within_made hnothing⟩
      refine hadvances.mono subset_rfl (Set.singleton_subset_iff.mpr ⟨path, rfl, ?_⟩)
      exact hadvances.placeOf? (placeOf?_eq_some.mpr ⟨target, here, htarget, hhere, rfl⟩)

/-- Making directories makes a path and those above it at most, however far it comes. -/
theorem advances_makeDirectories (fuel : Nat) (path : String) (s : Session) :
    Advances ∅ ((makeDirectories fuel path s).1.placesOf
        {above | Relation.ReflTransGen Path.IsParent above path})
      s (makeDirectories fuel path s).1 := by
  have hstays (paths : Set String) : Advances ∅ (s.placesOf paths) s s :=
    (Advances.refl s).mono subset_rfl (Set.empty_subset _)
  induction fuel generalizing path with
  | zero => exact hstays _
  | succ fuel ih =>
      have hself (t : Session) : t.placesOf {path} ⊆
          t.placesOf {above | Relation.ReflTransGen Path.IsParent above path} :=
        t.placesOf_mono (Set.singleton_subset_iff.mpr .refl)
      rw [makeDirectories]
      split
      · exact hstays _
      next hidle =>
      split
      · next made hmade => exact (advances_makeDirectory hmade).mono subset_rfl (hself made)
      · obtain ⟨-, hsome⟩ := not_or.mp (Bool.or_eq_true _ _ ▸ hidle)
        obtain ⟨parent, hparent⟩ := Option.ne_none_iff_exists'.mp (by simpa using hsome)
        have hup (t : Session) :
            t.placesOf {above | Relation.ReflTransGen Path.IsParent above parent} ⊆
              t.placesOf {above | Relation.ReflTransGen Path.IsParent above path} :=
          t.placesOf_mono fun _ habove => habove.tail hparent
        have habove := ih parent
        rw [hparent, Option.getD_some]
        split
        · next above problem heq =>
            rw [heq] at habove
            exact habove.mono subset_rfl (hup above)
        · next above heq =>
            rw [heq] at habove
            split
            · next made hmade =>
                have hmade := advances_makeDirectory hmade
                refine (habove.trans hmade).mono (Set.union_empty ∅).subset
                  (Set.union_subset ?_ (hself made))
                exact (hmade.placesOf_subset _).trans (hup made)
            · exact habove.mono subset_rfl (hup above)
      · exact hstays _

/-- The directories that are made for a write are above its path. -/
theorem advances_parents (s : Session) (path : String) (fuel : Nat) :
    Advances ∅ ((makeDirectories fuel ((Path.parent? path).getD "") s).1.abovePlaces [path]) s
      (makeDirectories fuel ((Path.parent? path).getD "") s).1 := by
  cases hparent : Path.parent? path with
  | some parent =>
      refine (advances_makeDirectories fuel parent s).mono subset_rfl (placesOf_mono _ ?_)
      exact fun above habove => ⟨path, List.mem_singleton.mpr rfl, .tail' habove hparent⟩
  | none =>
      have hnothing : makeDirectories fuel "" s = (s, .ok ()) := by
        cases fuel <;> rfl
      rw [Option.getD_none, hnothing]
      exact (Advances.refl s).mono subset_rfl (Set.empty_subset _)

/-- That a file can be put at a place. -/
def Free (s : Session) (names : List String) : Prop :=
  s.root.entryAt names ≠ .directory ∧
    ∃ here name, names = here ++ [name] ∧ s.root.entryAt here = .directory

/-- A place stays free for a file while another one is emptied or filled with a file. -/
theorem Free.of_puts {other : List String} {entry : Entry} (h : s.Free names)
    (hputs : Puts s.root s'.root other entry) (hother : s.root.entryAt other ≠ .directory)
    (hentry : entry ≠ .directory) : s'.Free names := by
  obtain ⟨hnames, here, name, rfl, hhere⟩ := h
  refine ⟨?_, here, name, rfl, hputs.keepsDirectories hother here hhere⟩
  rw [hputs]
  split
  · exact hentry
  · exact hnames

theorem create_eq (htarget : target? path = some target) :
    s.create path text = s.directoryOf path target >>= fun here =>
      if [".", ".."].contains target.name || target.slashed then .error .isDirectory
      else if maxName < target.name.utf8ByteSize then .error .nameTooLong
      else if s.root.entryAt (here ++ [target.name]) = .directory then .error .isDirectory
      else .ok (here ++ [target.name],
        { s with root := s.root.place (here ++ [target.name]) (.file (some text)) }) := by
  rw [create, htarget]
  refine bind_congr fun here => ?_
  rw [entryAt]
  rcases s.root.node? (here ++ [target.name]) with - | (_ | _) <;> rfl

theorem create_eq_ok (h : s.create path text = .ok (names, s')) :
    s.placeOf? path = some names ∧ s.Free names ∧
      s' = { s with root := s.root.place names (.file (some text)) } := by
  cases htarget : target? path with
  | none =>
      rw [create, htarget] at h
      cases h
  | some target =>
      rw [create_eq htarget] at h
      obtain ⟨here, hhere, h⟩ := Outcome.bind_eq_ok.mp h
      simp only [Outcome.ite_error_eq_ok] at h
      obtain ⟨-, -, hfree, h⟩ := h
      cases h
      exact ⟨placeOf?_eq_some.mpr ⟨target, here, htarget, hhere, rfl⟩,
        ⟨hfree, here, target.name, rfl, (directoryOf_eq_ok.mp hhere).2⟩, rfl⟩

/-- Creating a file changes no other place. -/
theorem puts_create (hfree : s.Free names) (text : String) :
    Puts s.root (s.root.place names (.file (some text))) names (.file (some text)) := by
  obtain ⟨hnames, here, name, rfl, hhere⟩ := hfree
  exact puts_place hhere hnames (isLeaf_file _)

theorem advances_create (hfree : s.Free names) (text : String) :
    Advances {names} ∅ s { s with root := s.root.place names (.file (some text)) } where
  here := rfl
  process := rfl
  keeps := (puts_create hfree text).keepsDirectories hfree.1
  within := (puts_create hfree text).within

/-- A file that is created stands at its place, which it can be moved from. -/
theorem create_cases (h : s.create path text = .ok (names, s')) :
    s.placeOf? path = some names ∧ s'.Free names ∧ Advances {names} ∅ s s' := by
  obtain ⟨hplace, hfree, rfl⟩ := create_eq_ok h
  exact ⟨hplace, hfree.of_puts (puts_create hfree text) hfree.1 (by simp),
    advances_create hfree text⟩

theorem advances_remove (hfree : s.Free source) :
    Advances {source} ∅ s { s with root := s.root.remove source } ∧
      ∀ names, s.Free names → Session.Free { s with root := s.root.remove source } names := by
  obtain ⟨hsource, here, name, rfl, hhere⟩ := hfree
  have hputs := puts_remove hhere hsource
  exact ⟨⟨rfl, rfl, hputs.keepsDirectories hsource, hputs.within⟩,
    fun names hnames => hnames.of_puts hputs hsource (by simp)⟩

/-- That a path names a place by its last name. -/
def Leads (s : Session) (path : String) (names : List String) : Prop :=
  ∃ target here, target? path = some target ∧ s.directoryOf path target = .ok here ∧
    names = here ++ [target.name] ∧ target.name ∉ [".", ".."] ∧
    target.name.utf8ByteSize ≤ maxName ∧ target.slashed = false

theorem Advances.leads (h : Advances touched made s s') (hleads : s.Leads path names) :
    s'.Leads path names := by
  obtain ⟨target, here, htarget, hhere, hrest⟩ := hleads
  exact ⟨target, here, htarget, h.directoryOf hhere, hrest⟩

/-- A target without a slash after it is the whole path. -/
theorem pieces_of_target (h : target? path = some target) (hslashed : target.slashed = false) :
    Path.pieces path = target.directory ++ [target.name] ∧ target.name.isEmpty = false := by
  rw [target?] at h
  generalize Path.pieces path = pieces at h ⊢
  generalize hkept : (pieces.reverse.dropWhile (·.isEmpty)).reverse = kept at h
  split at h
  · next name hname =>
      cases h
      have hsuffix : pieces.reverse.dropWhile (·.isEmpty) <:+ pieces.reverse :=
        List.dropWhile_suffix _
      have hlength : ¬ kept.length < pieces.length := by simpa using hslashed
      have hpieces : kept = pieces := by
        have hfront : kept <+: pieces := by
          rw [← hkept]
          simpa using List.reverse_prefix.mpr hsuffix
        exact hfront.eq_of_length (le_antisymm hfront.length_le (not_lt.mp hlength))
      have hnonempty : name.isEmpty = false := by
        rw [← hkept, List.getLast?_reverse] at hname
        have hhead := List.head?_dropWhile_not (·.isEmpty) pieces.reverse
        rw [hname] at hhead
        simpa using hhead
      have hne : kept ≠ [] := by
        rintro rfl
        cases hname
      have hlast : kept.getLast hne = name := by
        rw [List.getLast?_eq_some_getLast hne] at hname
        simpa using hname
      refine ⟨?_, hnonempty⟩
      rw [← hpieces, ← hlast, List.dropLast_concat_getLast]
  · cases h

/-- A path leads to the place that it names if something stands there. -/
theorem Leads.locate (h : s.Leads path names) (hpresent : s.root.entryAt names ≠ .nothing) :
    s.locate path = .ok names := by
  obtain ⟨target, here, htarget, hhere, rfl, hdots, hshort, hslashed⟩ := h
  obtain ⟨hpieces, hnonempty⟩ := pieces_of_target htarget hslashed
  obtain ⟨hfollow, hdirectory⟩ := directoryOf_eq_ok.mp hhere
  obtain ⟨hadmissible, hfollow⟩ := follow_eq_ok.mp hfollow
  have hempty : ¬ path.isEmpty = true := by
    intro hempty
    have hnone : target? "" = none := by
      rfl
    rw [String.isEmpty_iff.mp hempty, hnone] at htarget
    cases htarget
  have hdot : target.name ≠ "." ∧ target.name ≠ ".." := by simpa using hdots
  refine locate_eq_ok.mpr ⟨hempty, follow_eq_ok.mpr ⟨hadmissible, ?_⟩⟩
  rw [hpieces, follow_append, hfollow]
  change s.root.follow here [target.name] = _
  rw [follow_cons, hdirectory]
  simp [hnonempty, hdot, hpresent, not_lt.mpr hshort, FileTree.follow]

theorem move_eq (htarget : target? path = some target) :
    s.move source path text = s.directoryOf path target >>= fun here =>
      if [".", ".."].contains target.name then .error .busy
      else if maxName < target.name.utf8ByteSize then .error .nameTooLong
      else if target.slashed then .error .notDirectory
      else if s.root.entryAt (here ++ [target.name]) = .directory then .error .isDirectory
      else .ok { s with root :=
        (s.root.remove source).place (here ++ [target.name]) (.file (some text)) } := by
  rw [move, htarget]
  refine bind_congr fun here => ?_
  rw [entryAt]
  rcases s.root.node? (here ++ [target.name]) with - | (_ | _) <;> rfl

theorem move_eq_ok (h : s.move source path text = .ok s') :
    ∃ names, s.Leads path names ∧ s.Free names ∧
      s' = { s with root := (s.root.remove source).place names (.file (some text)) } := by
  cases htarget : target? path with
  | none =>
      rw [move, htarget] at h
      cases h
  | some target =>
      rw [move_eq htarget] at h
      obtain ⟨here, hhere, h⟩ := Outcome.bind_eq_ok.mp h
      simp only [Outcome.ite_error_eq_ok] at h
      obtain ⟨hdots, hshort, hslashed, hfree, h⟩ := h
      cases h
      exact ⟨here ++ [target.name],
        ⟨target, here, htarget, hhere, rfl, by simpa using hdots, not_lt.mp hshort,
          by simpa using hslashed⟩,
        ⟨hfree, here, target.name, rfl, (directoryOf_eq_ok.mp hhere).2⟩, rfl⟩

/-- A text that is moved into place stands where the path leads from then on; the place that it is
moved from is empty. -/
theorem move_cases (hsource : s.Free source) (h : s.move source path text = .ok s') :
    ∃ names, s'.locate path = .ok names ∧ s'.root.entryAt names = .file (some text) ∧
      Advances ({source} ∪ {names}) ∅ s s' := by
  obtain ⟨names, hleads, hfree, rfl⟩ := move_eq_ok h
  obtain ⟨hremove, hstill⟩ := advances_remove hsource
  have hadvances := (hremove.trans (advances_create (hstill names hfree) text)).mono subset_rfl
    (Set.union_empty ∅).subset
  have hcontent := puts_create (hstill names hfree) text names
  rw [if_pos rfl] at hcontent
  refine ⟨names, (hadvances.leads hleads).locate ?_, hcontent, hadvances⟩
  simp [hcontent]

end Steps

/-- What a write that succeeds does: its path leads to the text afterwards, and but for this place
only what a write does before can differ. -/
structure Wrote (s s' : Session) (path text : String) (names : List String) : Prop where
  located : s'.locate path = .ok names
  content : s'.root.entryAt names = .file (some text)
  advances : Advances ({names} ∪ s'.unfinishedPlaces [path]) (s'.abovePlaces [path]) s s'

/-- A write either puts its text where its path leads afterwards, or fails before. -/
theorem write_cases (s : Session) (path text : String) :
    (∃ s' problem, s.write path text = (s', .error problem) ∧ Prepares [path] s s') ∨
      ∃ s' names, s.write path text = (s', .ok ()) ∧ Wrote s s' path text names := by
  have hmake := advances_parents s path (Path.pieces ((Path.parent? path).getD "")).length
  rw [write]
  split
  · next made problem heq =>
      rw [heq] at hmake
      exact .inl ⟨made, problem, rfl, hmake.mono (Set.empty_subset _) subset_rfl⟩
  next made heq =>
  rw [heq] at hmake
  split
  · next problem hproblem =>
      exact .inl ⟨made, problem, rfl, hmake.mono (Set.empty_subset _) subset_rfl⟩
  next source created hcreate =>
  obtain ⟨hplace, hsource, hcreated⟩ := create_cases hcreate
  have hunfinished : {source} ⊆ created.unfinishedPlaces [path] :=
    Set.singleton_subset_iff.mpr (hcreated.unfinishedPlaces_subset [path]
      ⟨_, ⟨path, List.mem_singleton.mpr rfl, rfl⟩, hplace⟩)
  have hprepares : Prepares [path] s created := by
    refine (hmake.trans hcreated).mono ?_ ?_
    · exact Set.union_subset (Set.empty_subset _) hunfinished
    · exact Set.union_subset (hcreated.abovePlaces_subset [path]) (Set.empty_subset _)
  split
  · next problem hproblem => exact .inl ⟨created, problem, rfl, hprepares⟩
  · next moved hmoved =>
      obtain ⟨names, hlocated, hcontent, hmoved⟩ := move_cases hsource hmoved
      have hkept := hmoved.unfinishedPlaces_subset [path]
      refine .inr ⟨moved, names, rfl, hlocated, hcontent, (hprepares.trans hmoved).mono ?_ ?_⟩
      · rintro place (hplace | (hsource | hnames))
        · exact .inr (hkept hplace)
        · exact .inr (hkept (hunfinished hsource))
        · exact .inl hnames
      · exact Set.union_subset (hmoved.abovePlaces_subset [path]) (Set.empty_subset _)

/-- The text stays at its place, unless that is one of those that change from then on. -/
theorem Wrote.still (h : Wrote s s' path text names) (h' : Advances touched made s' s'')
    (hnames : names ∉ touched) : s''.root.entryAt names = .file (some text) := by
  rcases h'.within names hnames with hsame | ⟨-, hnothing, -⟩
  · exact hsame.trans h.content
  · rw [h.content] at hnothing
    cases hnothing

section Finding

/-- What there is below where a path leads; nothing if it leads nowhere. -/
def found (s : Session) (path : String) (below : List String) : Entry :=
  match s.locate path with
  | .ok names => s.root.entryAt (names ++ below)
  | .error _ => .nothing

theorem found_of_locate (h : s.locate path = .ok names) (below : List String) :
    s.found path below = s.root.entryAt (names ++ below) := by
  rw [found, h]

theorem found_eq_nothing (h : ∀ names, s.locate path ≠ .ok names) (below : List String) :
    s.found path below = .nothing := by
  rw [found]
  split
  · next names hnames => exact absurd hnames (h names)
  · rfl

/-- Whether or not a path still leads where it led, this is what is found there. -/
theorem Advances.found (h : Advances touched made s s') (hlocate : s.locate path = .ok names)
    (below : List String) : s'.found path below = s'.root.entryAt (names ++ below) := by
  rw [Session.found, h.locate hlocate]
  by_cases hnothing : s'.root.entryAt names = .nothing
  · rw [if_pos hnothing, entryAt_append_eq_nothing hnothing]
  · rw [if_neg hnothing]

end Finding

end Session

end ExperimentSuite
