import ExperimentSuite.Files.Tree
import ExperimentSuite.Proofs.Keyed
import ExperimentSuite.Proofs.Outcome
import Mathlib.Data.Set.Basic

/-!
# Trees by what there is at each place

A tree is known by its entries: at each place there is nothing, a directory or a
file with its content. Putting a leaf somewhere and removing a file change one
entry each. As long as directories stay directories, a path goes on leading where
it leads, unless nothing stands there any more.
-/

namespace ExperimentSuite

namespace FileTree

/-- What there is at a place. -/
inductive Entry where
  | nothing
  | directory
  | file (content : Option String)
deriving DecidableEq

namespace Entry

/-- What a node is, without what a directory holds. -/
def ofNode? : Option FileTree → Entry
  | none => .nothing
  | some (.directory _) => .directory
  | some (.file content) => .file content

theorem ofNode?_eq_nothing_iff {node : Option FileTree} :
    ofNode? node = .nothing ↔ node = none := by
  rcases node with - | (_ | _) <;> simp [ofNode?]

theorem ofNode?_eq_directory_iff {node : Option FileTree} :
    ofNode? node = .directory ↔ ∃ entries, node = some (.directory entries) := by
  rcases node with - | (_ | _) <;> simp [ofNode?]

end Entry

/-- What there is at the end of a row of names. -/
def entryAt (t : FileTree) (names : List String) : Entry := .ofNode? (t.node? names)

variable {t t' t'' new child child' : FileTree} {entries entries' : List (String × FileTree)}
  {here names rest pieces : List String} {name top : String} {entry : Entry}

theorem node?_nil (t : FileTree) : t.node? [] = some t := by
  cases t <;> rfl

theorem entryAt_cons (entries : List (String × FileTree)) (name : String) (rest : List String) :
    (directory entries).entryAt (name :: rest) =
      .ofNode? ((Keyed.find? name entries).bind (node? · rest)) := rfl

theorem entryAt_append (t : FileTree) (names rest : List String) :
    t.entryAt (names ++ rest) = .ofNode? ((t.node? names).bind (node? · rest)) := by
  induction names generalizing t with
  | nil =>
      rw [node?_nil]
      rfl
  | cons name names ih =>
      cases t with
      | file content => rfl
      | directory entries =>
          rw [List.cons_append, entryAt_cons, node?]
          cases Keyed.find? name entries with
          | none => rfl
          | some child => exact ih child

/-- Nothing stands below anything but a directory. -/
theorem entryAt_below_eq_nothing (h : t.entryAt names ≠ .directory) (name : String)
    (rest : List String) : t.entryAt (names ++ name :: rest) = .nothing := by
  rw [entryAt_append]
  rw [entryAt] at h
  rcases hnode : t.node? names with - | (content | entries)
  · rfl
  · rfl
  · rw [hnode] at h
    exact absurd rfl h

/-- Nothing stands below nothing. -/
theorem entryAt_append_eq_nothing (h : t.entryAt names = .nothing) (rest : List String) :
    t.entryAt (names ++ rest) = .nothing := by
  cases rest with
  | nil => rwa [List.append_nil]
  | cons name others =>
      exact entryAt_below_eq_nothing (by simp [h]) name others

theorem entryAt_dropLast_eq_directory (h : t.entryAt names = .directory) :
    t.entryAt names.dropLast = .directory := by
  rcases List.eq_nil_or_concat names with rfl | ⟨front, name, rfl⟩
  · exact h
  · rw [List.concat_eq_append] at h ⊢
    rw [List.dropLast_concat]
    by_contra hfront
    rw [entryAt_below_eq_nothing hfront] at h
    cases h

section Changing

/-- That the second tree has a given entry at a place and is like the first one elsewhere. -/
def Puts (t t' : FileTree) (names : List String) (entry : Entry) : Prop :=
  ∀ other, t'.entryAt other = if other = names then entry else t.entryAt other

/-- A tree that holds nothing. -/
def IsLeaf (t : FileTree) : Prop := ∀ name rest, t.node? (name :: rest) = none

theorem isLeaf_file (content : Option String) : IsLeaf (.file content) := fun _ _ => rfl

theorem isLeaf_empty : IsLeaf empty := fun _ _ => rfl

/-- A leaf, or nothing, under a name of a directory changes the entry of this name only. -/
theorem puts_of_find? {node : Option FileTree}
    (hfind : ∀ other, Keyed.find? other entries' =
      if other = name then node else Keyed.find? other entries)
    (hfree : (directory entries).entryAt [name] ≠ .directory)
    (hleaf : ∀ leaf ∈ node, IsLeaf leaf) :
    Puts (directory entries) (directory entries') [name] (.ofNode? node) := by
  rintro (- | ⟨first, rest⟩)
  · rfl
  rw [entryAt_cons, hfind]
  by_cases hfirst : first = name
  · subst hfirst
    rw [if_pos rfl]
    cases rest with
    | nil => cases node <;> simp [node?_nil]
    | cons second rest =>
        have hnothing : (directory entries).entryAt (first :: second :: rest) = .nothing :=
          entryAt_below_eq_nothing hfree second rest
        rw [if_neg (by simp), hnothing]
        cases node with
        | none => rfl
        | some leaf =>
            rw [Option.bind_some, hleaf leaf rfl second rest]
            rfl
  · simp [hfirst, entryAt_cons]

/-- A change in a child is one in the directory. -/
theorem Puts.cons (hchild : Keyed.find? top entries = some child)
    (h : Puts child child' names entry) :
    Puts (directory entries) (directory (Keyed.insert top child' entries)) (top :: names)
      entry := by
  rintro (- | ⟨first, rest⟩)
  · rfl
  rw [entryAt_cons, entryAt_cons, Keyed.find?_insert]
  by_cases hfirst : top = first
  · subst hfirst
    rw [if_pos rfl, hchild]
    simpa [entryAt] using h rest
  · simp [hfirst, Ne.symm hfirst]

/-- Below a directory that is reached through others there is a child that is reached first. -/
theorem exists_child_of_directory (h : t.entryAt (top :: names) = .directory) :
    ∃ entries child, t = .directory entries ∧ Keyed.find? top entries = some child ∧
      ∀ rest, child.entryAt rest = t.entryAt (top :: rest) := by
  cases t with
  | file content => cases h
  | directory entries =>
      cases hchild : Keyed.find? top entries with
      | none =>
          rw [entryAt_cons, hchild] at h
          cases h
      | some child =>
          refine ⟨entries, child, rfl, hchild, fun rest => ?_⟩
          rw [entryAt_cons, hchild]
          rfl

/-- A leaf in place of something that is no directory changes this place only. -/
theorem puts_place (hhere : t.entryAt here = .directory)
    (hfree : t.entryAt (here ++ [name]) ≠ .directory) (hleaf : new.IsLeaf) :
    Puts t (t.place (here ++ [name]) new) (here ++ [name]) (.ofNode? (some new)) := by
  induction here generalizing t with
  | nil =>
      obtain ⟨entries, hentries⟩ := Entry.ofNode?_eq_directory_iff.mp hhere
      rw [node?_nil, Option.some.injEq] at hentries
      subst hentries
      have hplace : (directory entries).place [name] new =
          directory (Keyed.insert name new entries) := by
        simp [place]
      rw [List.nil_append, hplace]
      refine puts_of_find? (fun other => ?_) hfree (by simpa using hleaf)
      rw [Keyed.find?_insert]
      simp [eq_comm]
  | cons top names ih =>
      obtain ⟨entries, child, rfl, hchild, hbelow⟩ := exists_child_of_directory hhere
      have hplace : (directory entries).place (top :: (names ++ [name])) new =
          directory (Keyed.insert top (child.place (names ++ [name]) new) entries) := by
        rw [place, hchild, Option.getD_some]
      rw [List.cons_append, hplace]
      exact (ih (hbelow _ ▸ hhere) (hbelow _ ▸ hfree)).cons hchild

/-- Removing a file changes this place only. -/
theorem puts_remove (hhere : t.entryAt here = .directory)
    (hfile : t.entryAt (here ++ [name]) ≠ .directory) :
    Puts t (t.remove (here ++ [name])) (here ++ [name]) .nothing := by
  induction here generalizing t with
  | nil =>
      obtain ⟨entries, hentries⟩ := Entry.ofNode?_eq_directory_iff.mp hhere
      rw [node?_nil, Option.some.injEq] at hentries
      subst hentries
      change Puts _ _ _ (.ofNode? none)
      refine puts_of_find? (fun other => ?_) hfile (by simp)
      rw [Keyed.find?_filter (· != name)]
      by_cases hother : other = name <;> simp [hother]
  | cons top names ih =>
      obtain ⟨entries, child, rfl, hchild, hbelow⟩ := exists_child_of_directory hhere
      have hremove : (directory entries).remove (top :: (names ++ [name])) =
          directory (Keyed.insert top (child.remove (names ++ [name])) entries) := by
        simp [remove, hchild]
      rw [List.cons_append, hremove]
      exact (ih (hbelow _ ▸ hhere) (hbelow _ ▸ hfile)).cons hchild

/-- That every directory of the first tree is one of the second. -/
def KeepsDirectories (t t' : FileTree) : Prop :=
  ∀ names, t.entryAt names = .directory → t'.entryAt names = .directory

/-- That trees differ at some places at most, apart from directories that have been made at others
where there was nothing. -/
def Within (touched made : Set (List String)) (t t' : FileTree) : Prop :=
  ∀ names ∉ touched, t'.entryAt names = t.entryAt names ∨
    (names ∈ made ∧ t.entryAt names = .nothing ∧ t'.entryAt names = .directory)

theorem KeepsDirectories.refl (t : FileTree) : KeepsDirectories t t := fun _ h => h

theorem KeepsDirectories.trans (h : KeepsDirectories t t') (h' : KeepsDirectories t' t'') :
    KeepsDirectories t t'' := fun names hnames => h' names (h names hnames)

variable {touched touched' made made' : Set (List String)}

theorem Within.refl (t : FileTree) : Within ∅ ∅ t t := fun _ _ => .inl rfl

theorem Within.mono (h : Within touched made t t') (htouched : touched ⊆ touched')
    (hmade : made ⊆ made') : Within touched' made' t t' :=
  fun names hnames => (h names fun hmem => hnames (htouched hmem)).imp_right
    fun ⟨hmem, hentries⟩ => ⟨hmade hmem, hentries⟩

theorem Within.trans (h : Within touched made t t') (h' : Within touched' made' t' t'') :
    Within (touched ∪ touched') (made ∪ made') t t'' := by
  intro names hnames
  rcases h names (fun hmem => hnames (.inl hmem)), h' names (fun hmem => hnames (.inr hmem)) with
    ⟨heq | ⟨hmem, hnothing, hmade⟩, heq' | ⟨hmem', hnothing', hmade'⟩⟩
  · exact .inl (heq'.trans heq)
  · exact .inr ⟨.inr hmem', heq ▸ hnothing', hmade'⟩
  · exact .inr ⟨.inl hmem, hnothing, heq'.trans hmade⟩
  · rw [hmade] at hnothing'
    cases hnothing'

/-- A place where nothing has changed does not count. -/
theorem Within.of_insert (h : Within ({names} ∪ touched) made t t')
    (hsame : t'.entryAt names = t.entryAt names) : Within touched made t t' := by
  intro other hother
  by_cases heq : other = names
  · exact .inl (heq ▸ hsame)
  · exact h other (by simp [heq, hother])

theorem Puts.keepsDirectories (h : Puts t t' names entry) (hfree : t.entryAt names ≠ .directory) :
    KeepsDirectories t t' := by
  intro other hother
  rw [h other, if_neg (by rintro rfl; exact hfree hother), hother]

theorem Puts.within (h : Puts t t' names entry) : Within {names} ∅ t t' :=
  fun other hother => .inl ((h other).trans (if_neg hother))

/-- A directory where there was nothing counts as made. -/
theorem Puts.within_made (h : Puts t t' names .directory) (hnothing : t.entryAt names = .nothing) :
    Within ∅ {names} t t' := by
  intro other _
  by_cases hother : other = names
  · exact .inr ⟨hother, hother ▸ hnothing, (h other).trans (if_pos hother)⟩
  · exact .inl ((h other).trans (if_neg hother))

end Changing

section Following

theorem follow_cons (t : FileTree) (here : List String) (piece : String) (rest : List String) :
    t.follow here (piece :: rest) =
      match t.entryAt here with
      | .directory =>
          if piece.isEmpty || piece == "." then follow t here rest
          else if piece == ".." then follow t here.dropLast rest
          else if maxName < piece.utf8ByteSize then .error .nameTooLong
          else if t.entryAt (here ++ [piece]) = .nothing then .error .notFound
          else follow t (here ++ [piece]) rest
      | .file _ => .error .notDirectory
      | .nothing => .error .notFound := by
  rw [follow, entryAt]
  rcases t.node? here with - | (content | entries)
  · rfl
  · rfl
  · simp only [Option.isNone_iff_eq_none, ← Entry.ofNode?_eq_nothing_iff]
    rfl

theorem entryAt_of_follow_cons {piece : String}
    (h : t.follow here (piece :: rest) = .ok names) : t.entryAt here = .directory := by
  rw [follow_cons] at h
  split at h
  · assumption
  all_goals cases h

theorem follow_append (t : FileTree) (here front back : List String) :
    t.follow here (front ++ back) = t.follow here front >>= (t.follow · back) := by
  induction front generalizing here with
  | nil => rfl
  | cons piece rest ih =>
      rw [List.cons_append, follow_cons, follow_cons]
      cases t.entryAt here with
      | directory =>
          simp only [ih]
          split
          · rfl
          · split
            · rfl
            · split
              · rfl
              · split <;> rfl
      | _ => rfl

/-- A path goes on leading where it leads, unless nothing stands there any more. -/
theorem KeepsDirectories.follow (h : KeepsDirectories t t') (hhere : t.entryAt here = .directory)
    (hfollow : t.follow here pieces = .ok names) :
    t'.follow here pieces =
      if t'.entryAt names = .nothing then .error .notFound else .ok names := by
  induction pieces generalizing here with
  | nil =>
      cases hfollow
      rw [if_neg (by simp [h _ hhere])]
      rfl
  | cons piece rest ih =>
      rw [follow_cons, hhere] at hfollow
      rw [follow_cons, h here hhere]
      dsimp only at hfollow ⊢
      split
      · next hidle =>
          rw [if_pos hidle] at hfollow
          exact ih hhere hfollow
      next hidle =>
      rw [if_neg hidle] at hfollow
      split
      · next hup =>
          rw [if_pos hup] at hfollow
          exact ih (entryAt_dropLast_eq_directory hhere) hfollow
      next hup =>
      simp only [if_neg hup, Outcome.ite_error_eq_ok] at hfollow
      obtain ⟨hshort, -, hfollow⟩ := hfollow
      rw [if_neg hshort]
      cases rest with
      | nil =>
          cases hfollow
          rfl
      | cons next rest =>
          have hentry := entryAt_of_follow_cons hfollow
          rw [if_neg (by simp [h _ hentry])]
          exact ih hentry hfollow

end Following

end FileTree

end ExperimentSuite
