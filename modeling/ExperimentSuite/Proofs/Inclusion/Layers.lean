import ExperimentSuite.Proofs.Inclusion.Stages

/-!
# Layers of variables

A document whose only marker stands at its root is a stack of layers: its own
values on top and the files that the marker names below, in order. Replacing
the marker lets the first layer decide that has anything to say about a path.
Absorbing one stack into another one joins their layers, although the lower
stack was made on its own: what it lacks because of its own layers is no loss,
since a layer that occupies a path keeps later ones from it in either case.
-/

namespace ExperimentSuite

namespace Inclusion

open Document KeyPath

variable {load : String → Except Failure Document} {layers upper lower : List Document}
  {d d' source out : Document} {p : KeyPath} {files : List String} {report : InclusionReport}

/-- Leaf by leaf a document is what its layers make of it, the first one deciding. -/
structure Precedence (layers : List Document) (d : Document) : Prop where
  /-- The first layer that occupies a path gives the value there. -/
  takes : ∀ p layer v, layers.find? (·.isOccupied p) = some layer → layer.get? p = some v →
    v.isMap = false → d.get? p = some v
  /-- A value is the one in the first layer that has its path. -/
  origin : ∀ p v, d.get? p = some v → v.isMap = false →
    layers.findSome? (·.get? p) = some v

/-- A document made of layers, with what is needed to put further layers below it. -/
structure Stack (layers : List Document) (d : Document) : Prop extends Precedence layers d where
  occupied : ∀ p, d.isOccupied p = true → ∃ layer ∈ layers, layer.isOccupied p = true
  covers : ∀ layer ∈ layers, ∀ p, (layer.get? p).isSome → d.isOccupied p = true

theorem stack_singleton (d : Document) : Stack [d] d where
  takes p layer v hfind hv _ := by
    obtain rfl := List.mem_singleton.mp (List.mem_of_find?_eq_some hfind)
    exact hv
  origin p v hv _ := by simp [hv]
  occupied p hp := ⟨d, List.mem_singleton_self d, hp⟩
  covers layer hlayer p hp := by
    obtain rfl := List.mem_singleton.mp hlayer
    exact isOccupied_iff.mpr (.inl hp)

/-- A path that no layer occupies is free. -/
theorem Stack.isOccupied_eq_false (h : Stack layers d)
    (hp : layers.find? (·.isOccupied p) = none) : d.isOccupied p = false := by
  rw [Bool.eq_false_iff]
  intro hoccupied
  obtain ⟨layer, hlayer, hfound⟩ := h.occupied p hoccupied
  exact absurd hfound (by simpa using List.find?_eq_none.mp hp layer hlayer)

/-- A free path exists in no layer. -/
theorem Stack.findSome?_eq_none (h : Stack layers d) (hp : d.isOccupied p = false) :
    layers.findSome? (·.get? p) = none := by
  apply List.findSome?_eq_none_iff.mpr
  intro layer hlayer
  by_contra hsome
  have hcovered := h.covers layer hlayer p (Option.isSome_iff_ne_none.mpr hsome)
  rw [hp] at hcovered
  cases hcovered

/-- Absorbing one stack into another one puts the layers of the first below those of the second. -/
theorem Stack.precedence_append (h : Stack upper d) (hs : Stack lower source)
    (hordered : source.Ordered) (habsorb : d.absorb source = .ok (d', report)) :
    Precedence (upper ++ lower) d' where
  takes p layer v hfind hv hmap := by
    have habsorbed := absorbed_of_absorb hordered habsorb
    rw [List.find?_append] at hfind
    cases hupper : upper.find? (·.isOccupied p) with
    | some first =>
        rw [hupper] at hfind
        cases hfind
        exact habsorbed.keeps p v (h.takes p _ v hupper hv hmap) hmap
    | none =>
        rw [hupper, Option.none_or] at hfind
        have hfree : d.isOccupied p = false := h.isOccupied_eq_false hupper
        have hvalue : source.get? p = some v := hs.takes p layer v hfind hv hmap
        have hne : p ≠ [] := by
          rintro rfl
          rw [isOccupied_iff.mpr (.inl (by simp))] at hfree
          cases hfree
        have hleaf : p ∈ source.leafPaths :=
          (mem_leafPaths_iff hordered).mpr ⟨hne, v, hvalue, isLeaf_of_not_isMap hmap⟩
        exact habsorbed.takes p hleaf v hvalue hmap hfree
  origin p v hv hmap := by
    rw [List.findSome?_append]
    cases hp : d.isOccupied p with
    | true =>
        have hold : d.get? p = some v := get?_of_isOccupied hordered habsorb hp hv hmap
        rw [h.origin p v hold hmap]
        rfl
    | false =>
        rw [h.findSome?_eq_none hp, Option.none_or]
        rcases (absorbed_of_absorb hordered habsorb).origin p v hv hmap with hold | ⟨-, hnew⟩
        · rw [get?_eq_none_of_free hp] at hold
          cases hold
        · exact hs.origin p v hnew hmap

/-- Every place of an absorbed mapping is occupied afterwards. -/
theorem isOccupied_of_absorb (hordered : source.Ordered)
    (habsorb : d.absorb source = .ok (d', report)) (hp : (source.get? p).isSome) :
    d'.isOccupied p = true := by
  by_cases hroot : p = []
  · rw [hroot]
    exact isOccupied_iff.mpr (.inl (by simp))
  · obtain ⟨q, hmem⟩ := exists_mem_leafPaths hordered hroot hp
    have hbelow := (absorbed_of_absorb hordered habsorb).occupies _ hmem
    exact isOccupied_of_isPrefix hbelow (List.prefix_append p q)

/-- A path that comes into being with an absorbed document exists there. -/
theorem isSome_of_absorb (hordered : source.Ordered)
    (habsorb : d.absorb source = .ok (d', report)) (hp : (d'.get? p).isSome) :
    (d.get? p).isSome ∨ (source.get? p).isSome := by
  refine isSome_of_absorbLeaves (fun q hq => ?_) habsorb hp
  obtain ⟨-, v, hv, -⟩ := (mem_leafPaths_iff hordered).mp hq
  rw [hv]
  rfl

/-- An absorbed document is one more layer below the others. -/
theorem Stack.absorb (h : Stack layers d) (hordered : source.Ordered)
    (habsorb : d.absorb source = .ok (d', report)) : Stack (layers ++ [source]) d' where
  toPrecedence := h.precedence_append (stack_singleton source) hordered habsorb
  occupied p hp := by
    have habsorbed := absorbed_of_absorb hordered habsorb
    have hboth : d.isOccupied p = true ∨ source.isOccupied p = true := by
      simp only [isOccupied_iff] at hp ⊢
      rcases hp with hsome | ⟨r, v, hr, hv, hmap⟩
      · exact (isSome_of_absorb hordered habsorb hsome).imp .inl .inl
      · refine (habsorbed.origin r v hv hmap).imp (fun hold => ?_) fun ⟨_, hnew⟩ => ?_
        · exact .inr ⟨r, v, hr, hold, hmap⟩
        · exact .inr ⟨r, v, hr, hnew, hmap⟩
    rcases hboth with hold | hnew
    · obtain ⟨layer, hlayer, hfound⟩ := h.occupied p hold
      exact ⟨layer, List.mem_append_left _ hlayer, hfound⟩
    · exact ⟨source, by simp, hnew⟩
  covers layer hlayer p hp := by
    rcases List.mem_append.mp hlayer with hold | hnew
    · exact (absorbed_of_absorb hordered habsorb).isOccupied (h.covers layer hold p hp)
    · obtain rfl := List.mem_singleton.mp hnew
      exact isOccupied_of_absorb hordered habsorb hp

/-- No path of a document holds a marker. -/
def Unmarked (d : Document) : Prop :=
  ∀ p, (d.get? p).isSome → Vocabulary.inclusion ∉ p

/-- A document with one marker at most, at its root, that names files without markers. -/
structure Shallow (load : String → Except Failure Document) (d : Document) : Prop where
  root : ∀ p, (d.get? p).isSome → Vocabulary.inclusion ∉ p.tail
  files : ∀ raw files, d.get? [Vocabulary.inclusion] = some raw →
    fileNames [Vocabulary.inclusion] raw = .ok files →
    ∀ file ∈ files, ∀ content, load file = .ok content → Unmarked content

/-- Whether a document has markers shows on its leaf paths. -/
theorem unmarked_of_leafPaths (hd : d.Ordered)
    (h : ∀ q ∈ d.leafPaths, Vocabulary.inclusion ∉ q) : Unmarked d := by
  intro p hp hmem
  obtain ⟨q, hq⟩ := exists_mem_leafPaths hd (List.ne_nil_of_mem hmem) hp
  exact h _ hq (List.mem_append_left q hmem)

/-- So does whether they stand at the root. -/
theorem shallow_of_leafPaths (hd : d.Ordered)
    (hroot : ∀ q ∈ d.leafPaths, Vocabulary.inclusion ∉ q.tail)
    (hfiles : ∀ file content, load file = .ok content →
      ∀ q ∈ content.leafPaths, Vocabulary.inclusion ∉ q)
    (hload : LoadsOrdered load) : Shallow load d where
  root p hp hmem := by
    have hne : p ≠ [] := by
      rintro rfl
      cases hmem
    obtain ⟨q, hq⟩ := exists_mem_leafPaths hd hne hp
    refine hroot _ hq ?_
    rw [List.tail_append_of_ne_nil hne]
    exact List.mem_append_left q hmem
  files _ _ _ _ file _ content hcontent :=
    unmarked_of_leafPaths (hload file content hcontent) (hfiles file content hcontent)

/-- The layers of a document with a marker at its root: its own values, and then the contents of
the files that the marker names. -/
def layersOf (load : String → Except Failure Document) (d : Document) :
    Except Failure (List Document) :=
  match d.remove? [Vocabulary.inclusion] with
  | none => .ok [d]
  | some (raw, own) => do
      let files ← (fileNames [Vocabulary.inclusion] raw).mapError Failure.inclusion
      let contents ← files.mapM load
      return own :: contents

/-- What a mapping makes of the files that it absorbs at its root: each is one more layer, and they
bring in no marker but their own. -/
theorem Stack.absorbFiles (hload : LoadsOrdered load) (h : Stack layers d) (hd : Unmarked d)
    (hfiles : ∀ file ∈ files, ∀ content, load file = .ok content → Unmarked content)
    (habsorb : absorbFiles load [] files d = .ok (d', report)) :
    ∃ contents, files.mapM load = .ok contents ∧ Stack (layers ++ contents) d' ∧ Unmarked d' := by
  induction files generalizing d layers report with
  | nil =>
      cases habsorb
      exact ⟨[], rfl, by simpa using h, hd⟩
  | cons file rest ih =>
      obtain ⟨hfile, hrest⟩ := List.forall_mem_cons.mp hfiles
      rw [Inclusion.absorbFiles] at habsorb
      obtain ⟨content, hcontent, habsorb⟩ := Outcome.bind_eq_ok.mp habsorb
      rw [get?_nil] at habsorb
      obtain ⟨⟨middle, first⟩, hmiddle, habsorb⟩ := Outcome.bind_eq_ok.mp habsorb
      have hmiddle := Outcome.mapError_eq_ok.mp hmiddle
      have hplace : d.replace? [] middle = some middle := by cases d <;> rfl
      dsimp only at habsorb
      rw [hplace] at habsorb
      obtain ⟨⟨last, others⟩, hothers, habsorb⟩ := Outcome.bind_eq_ok.mp habsorb
      cases habsorb
      have hordered := hload file content hcontent
      have hunmarked : Unmarked middle := by
        intro p hp
        rcases isSome_of_absorb hordered hmiddle hp with hold | hnew
        · exact hd p hold
        · exact hfile content hcontent p hnew
      obtain ⟨contents, hcontents, hstack, hlast⟩ :=
        ih (h.absorb hordered hmiddle) hunmarked hrest hothers
      refine ⟨content :: contents, ?_, by simpa using hstack, hlast⟩
      exact Outcome.mapM_cons_eq_ok.mpr ⟨content, hcontent, contents, hcontents, rfl⟩

/-- A document without markers is left as it is. -/
theorem eq_of_resolveRounds {rounds : Nat} (hordered : d.Ordered) (hd : Unmarked d)
    (h : resolveRounds load rounds d = .ok (out, report)) : out = d := by
  rw [resolveRounds.eq_def] at h
  obtain ⟨next, hnext, h⟩ := Outcome.bind_eq_ok.mp h
  cases next with
  | none =>
      cases h
      rfl
  | some marker =>
      have hfound := Outcome.mapError_eq_ok.mp hnext
      obtain ⟨parent, rfl, -⟩ := exists_of_nextMarker hfound
      exact absurd (by simp) (hd _ (isSome_of_nextMarker hordered hfound))

/-- The value taken out of the root's inclusion key is the one that stood there. -/
theorem get?_inclusion_of_remove? {raw own : Document}
    (hremove : d.remove? [Vocabulary.inclusion] = some (raw, own)) :
    d.get? [Vocabulary.inclusion] = some raw := by
  have hroot : d.remove? ([] ++ [Vocabulary.inclusion]) = some (raw, own) := hremove
  exact get?_of_remove? hroot

theorem layersOf_of_unmarked (hd : Unmarked d) : layersOf load d = .ok [d] := by
  rw [layersOf]
  split
  · rfl
  · next raw own hremove =>
      have hraw := get?_inclusion_of_remove? hremove
      exact absurd (by simp) (hd [Vocabulary.inclusion] (by rw [hraw]; rfl))

/-- The own values of a shallow document are without markers. -/
theorem Shallow.unmarked {raw own : Document} (h : Shallow load d) (hordered : d.Ordered)
    (hremove : d.remove? [Vocabulary.inclusion] = some (raw, own)) : Unmarked own := by
  have hroot : d.remove? ([] ++ [Vocabulary.inclusion]) = some (raw, own) := hremove
  intro p hp hmem
  cases p with
  | nil => cases hmem
  | cons key rest =>
      by_cases hkey : key = Vocabulary.inclusion
      · have hnone : own.get? ([] ++ [Vocabulary.inclusion] ++ rest) = none :=
          get?_remove?_below hordered hroot
        rw [List.nil_append, List.singleton_append, ← hkey] at hnone
        rw [hnone] at hp
        cases hp
      · have hapart : Apart (key :: rest) [Vocabulary.inclusion] := by
          simp [Apart, hkey, Ne.symm hkey]
        rw [get?_remove?_of_apart hroot hapart] at hp
        have hrest : Vocabulary.inclusion ∈ rest :=
          (List.mem_cons.mp hmem).resolve_left (Ne.symm hkey)
        exact h.root (key :: rest) hp hrest

/-- The next marker of a shallow document is the one at its root. -/
theorem Shallow.marker_eq {marker : KeyPath} (h : Shallow load d) (hordered : d.Ordered)
    (hnext : nextMarker d = .ok (some marker)) : marker = [Vocabulary.inclusion] := by
  obtain ⟨parent, rfl, -⟩ := exists_of_nextMarker hnext
  have hroot := h.root _ (isSome_of_nextMarker hordered hnext)
  cases parent with
  | nil => rfl
  | cons key rest => simp at hroot

/-- Replacing the marker of a shallow document stacks its layers and leaves no marker. -/
theorem exists_stack_of_replaceMarker (hload : LoadsOrdered load) (hordered : d.Ordered)
    (hd : Shallow load d)
    (h : replaceMarker load [Vocabulary.inclusion] d = .ok (out, report)) :
    (∃ layers, layersOf load d = .ok layers ∧ Stack layers out) ∧ Unmarked out ∧ out.Ordered := by
  rw [replaceMarker] at h
  cases hremove : d.remove? [Vocabulary.inclusion] with
  | none =>
      rw [hremove] at h
      cases h
  | some taken =>
      obtain ⟨raw, own⟩ := taken
      rw [hremove] at h
      obtain ⟨files, hfiles, habsorb⟩ := Outcome.bind_eq_ok.mp h
      have hraw := get?_inclusion_of_remove? hremove
      have hnames := hd.files raw files hraw (Outcome.mapError_eq_ok.mp hfiles)
      obtain ⟨contents, hcontents, hstack, hunmarked⟩ :=
        (stack_singleton own).absorbFiles hload (hd.unmarked hordered hremove) hnames habsorb
      have hroot : d.remove? ([] ++ [Vocabulary.inclusion]) = some (raw, own) := hremove
      have hproper : Stage.Proper ⟨out, [], []⟩ :=
        proper_of_reaches hload (reaches_of_absorbFiles habsorb)
          ⟨hordered.remove? hroot, List.not_mem_nil⟩
      refine ⟨⟨own :: contents, ?_, hstack⟩, hunmarked, hproper.ordered⟩
      rw [layersOf, hremove]
      exact Outcome.bind_eq_ok.mpr
        ⟨files, hfiles, Outcome.bind_eq_ok.mpr ⟨contents, hcontents, rfl⟩⟩

/-- Resolving a shallow document stacks its layers. -/
theorem exists_stack_of_resolve (hload : LoadsOrdered load) (hordered : d.Ordered)
    (hd : Shallow load d) (h : resolve load d = .ok (out, report)) :
    ∃ layers, layersOf load d = .ok layers ∧ Stack layers out := by
  rw [resolve, Vocabulary.maxInclusionRounds, resolveRounds.eq_def] at h
  obtain ⟨next, hnext, h⟩ := Outcome.bind_eq_ok.mp h
  have hnext := Outcome.mapError_eq_ok.mp hnext
  cases next with
  | none =>
      cases h
      have hunmarked : Unmarked d := fun p hp => not_mem_of_nextMarker_eq_none hordered hnext hp
      exact ⟨[d], layersOf_of_unmarked hunmarked, stack_singleton d⟩
  | some marker =>
      obtain ⟨⟨middle, first⟩, hreplace, h⟩ := Outcome.bind_eq_ok.mp h
      obtain ⟨⟨last, others⟩, hrounds, h⟩ := Outcome.bind_eq_ok.mp h
      cases h
      rw [hd.marker_eq hordered hnext] at hreplace
      obtain ⟨hlayers, hunmarked, hmiddle⟩ :=
        exists_stack_of_replaceMarker hload hordered hd hreplace
      rwa [eq_of_resolveRounds hmiddle hunmarked hrounds]

end Inclusion

end ExperimentSuite
