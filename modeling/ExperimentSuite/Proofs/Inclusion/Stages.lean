import ExperimentSuite.Proofs.Inclusion.Absorb
import ExperimentSuite.Proofs.Inclusion.Marker
import Mathlib.Logic.Relation

/-!
# Inclusion as a chain of stages

Replacing markers goes through stages: a document, the place that absorbs, and
the files that it still has to absorb. One step either absorbs a file or,
when no file is left, takes out the next marker. A resolution that succeeds is
a chain of steps from the target to a document without markers, and since
steps are determined, every stage on the way leads there as well. A step takes
away one marker at most, and what it brings in comes from the file absorbed.
-/

namespace ExperimentSuite

namespace Inclusion

open Document KeyPath Relation

/-- A document in which a place has yet to absorb some files. -/
structure Stage where
  document : Document
  point : KeyPath
  files : List String

/-- One step of a resolution. -/
inductive Next (load : String → Except Failure Document) : Stage → Stage → Prop where
  /-- The next marker is taken out, and the place that held it absorbs the files it names. -/
  | marker {d d' raw : Document} {point marker : KeyPath} {files : List String}
      (hnext : nextMarker d = .ok (some marker)) (hremove : d.remove? marker = some (raw, d'))
      (hfiles : fileNames marker raw = .ok files) :
      Next load ⟨d, point, []⟩ ⟨d', marker.dropLast, files⟩
  /-- The place absorbs a file. -/
  | file {d d' place place' content : Document} {point : KeyPath} {file : String}
      {rest : List String} {report : InclusionReport}
      (hload : load file = .ok content) (hplace : d.get? point = some place)
      (habsorb : place.absorb content = .ok (place', report))
      (hreplace : d.replace? point place' = some d') :
      Next load ⟨d, point, file :: rest⟩ ⟨d', point, rest⟩

variable {load : String → Except Failure Document} {d d' out raw v : Document}
  {point p q marker : KeyPath} {file : String} {files : List String} {report : InclusionReport}
  {s t : Stage} {rounds : Nat}

/-- Steps are determined. -/
theorem Next.rightUnique : Relator.RightUnique (Next load) := by
  intro s t u ht hu
  cases ht with
  | marker hnext hremove hfiles =>
      cases hu with
      | marker hnext' hremove' hfiles' =>
          rw [hnext, Except.ok.injEq, Option.some.injEq] at hnext'
          subst hnext'
          rw [hremove, Option.some.injEq, Prod.mk.injEq] at hremove'
          obtain ⟨rfl, rfl⟩ := hremove'
          rw [hfiles, Except.ok.injEq] at hfiles'
          rw [hfiles']
  | file hload hplace habsorb hreplace =>
      cases hu with
      | file hload' hplace' habsorb' hreplace' =>
          rw [hload, Except.ok.injEq] at hload'
          rw [hplace, Option.some.injEq] at hplace'
          subst hload' hplace'
          rw [habsorb, Except.ok.injEq, Prod.mk.injEq] at habsorb'
          rw [habsorb'.1, hreplace', Option.some.injEq] at hreplace
          rw [hreplace]

theorem reaches_of_absorbFiles (h : absorbFiles load point files d = .ok (d', report)) :
    ReflTransGen (Next load) ⟨d, point, files⟩ ⟨d', point, []⟩ := by
  induction files generalizing d report with
  | nil => cases h; exact .refl
  | cons file rest ih =>
      rw [absorbFiles] at h
      obtain ⟨content, hload, h⟩ := Outcome.bind_eq_ok.mp h
      split at h
      · cases h
      · next place hplace =>
          obtain ⟨⟨place', first⟩, habsorb, h⟩ := Outcome.bind_eq_ok.mp h
          dsimp only at h
          split at h
          · cases h
          · next middle hreplace =>
              obtain ⟨⟨_, others⟩, hothers, h⟩ := Outcome.bind_eq_ok.mp h
              cases h
              exact (ih hothers).head
                (.file hload hplace (Outcome.mapError_eq_ok.mp habsorb) hreplace)

/-- Replacing a marker takes it out and then absorbs its files. -/
theorem reaches_of_replaceMarker (hnext : nextMarker d = .ok (some marker))
    (h : replaceMarker load marker d = .ok (d', report)) :
    ReflTransGen (Next load) ⟨d, point, []⟩ ⟨d', marker.dropLast, []⟩ := by
  rw [replaceMarker] at h
  cases hremove : d.remove? marker with
  | none =>
      rw [hremove] at h
      obtain ⟨files, hfiles, -⟩ := Outcome.bind_eq_ok.mp h
      cases Outcome.mapError_eq_ok.mp hfiles
  | some taken =>
      obtain ⟨raw, middle⟩ := taken
      rw [hremove] at h
      obtain ⟨files, hfiles, h⟩ := Outcome.bind_eq_ok.mp h
      have hstep : Next load ⟨d, point, []⟩ ⟨middle, marker.dropLast, files⟩ :=
        .marker hnext hremove (Outcome.mapError_eq_ok.mp hfiles)
      exact (reaches_of_absorbFiles h).head hstep

/-- A stage from which a resolution comes to an end. -/
def Completes (load : String → Except Failure Document) (s : Stage) (out : Document) : Prop :=
  nextMarker out = .ok none ∧ ∃ point, ReflTransGen (Next load) s ⟨out, point, []⟩

theorem completes_of_resolveRounds (h : resolveRounds load rounds d = .ok (out, report)) :
    Completes load ⟨d, point, []⟩ out := by
  induction rounds generalizing d report point with
  | zero =>
      rw [resolveRounds.eq_def] at h
      obtain ⟨next, hnext, h⟩ := Outcome.bind_eq_ok.mp h
      cases next with
      | none => cases h; exact ⟨Outcome.mapError_eq_ok.mp hnext, point, .refl⟩
      | some marker => cases h
  | succ rounds ih =>
      rw [resolveRounds.eq_def] at h
      obtain ⟨next, hnext, h⟩ := Outcome.bind_eq_ok.mp h
      cases next with
      | none => cases h; exact ⟨Outcome.mapError_eq_ok.mp hnext, point, .refl⟩
      | some marker =>
          obtain ⟨⟨middle, first⟩, hreplace, h⟩ := Outcome.bind_eq_ok.mp h
          obtain ⟨⟨_, others⟩, hothers, h⟩ := Outcome.bind_eq_ok.mp h
          cases h
          obtain ⟨hout, point', hreaches⟩ := @ih middle marker.dropLast others hothers
          have hfirst : ReflTransGen (Next load) ⟨d, point, []⟩ ⟨middle, marker.dropLast, []⟩ :=
            reaches_of_replaceMarker (Outcome.mapError_eq_ok.mp hnext) hreplace
          exact ⟨hout, point', hfirst.trans hreaches⟩

/-- Every stage on the way of a resolution that comes to an end leads there. -/
theorem Completes.of_reaches (h : Completes load s out) (hst : ReflTransGen (Next load) s t) :
    Completes load t out := by
  obtain ⟨hout, point, hreaches⟩ := h
  refine ⟨hout, ?_⟩
  rcases ReflTransGen.total_of_right_unique Next.rightUnique hst hreaches with hto | hfrom
  · exact ⟨point, hto⟩
  · rcases ReflTransGen.cases_head hfrom with heq | ⟨u, hu, -⟩
    · exact ⟨point, heq ▸ .refl⟩
    · -- no marker is left to take a step with
      cases hu with
      | marker hnext => rw [hout] at hnext; cases hnext

/-- A stage that has files left is not the last one. -/
theorem Completes.next (h : Completes load s out) (hfiles : s.files ≠ []) :
    ∃ t, Next load s t ∧ Completes load t out := by
  obtain ⟨hout, point, hreaches⟩ := h
  rcases ReflTransGen.cases_head hreaches with rfl | ⟨t, hstep, ht⟩
  · exact absurd rfl hfiles
  · exact ⟨t, hstep, hout, point, ht⟩

/-- A stage as a resolution has it: its document is ordered, and no marker is above its place. -/
structure Stage.Proper (s : Stage) : Prop where
  ordered : s.document.Ordered
  unmarked : Vocabulary.inclusion ∉ s.point

/-- Files are documents with their keys in order. -/
def LoadsOrdered (load : String → Except Failure Document) : Prop :=
  ∀ file content, load file = .ok content → content.Ordered

theorem Next.proper (hload : LoadsOrdered load) (h : Next load s t) (hs : s.Proper) :
    t.Proper := by
  cases h with
  | marker hnext hremove hfiles =>
      obtain ⟨parent, rfl, hparent⟩ := exists_of_nextMarker hnext
      exact ⟨hs.ordered.remove? hremove, by simpa using hparent⟩
  | file hfile hplace habsorb hreplace =>
      have hcontent := hload _ _ hfile
      have hplace' := Ordered.absorbLeaves (hs.ordered.get? hplace) hcontent habsorb
      exact ⟨hs.ordered.set hplace' (set_of_replace? hreplace), hs.unmarked⟩

theorem proper_of_reaches (hload : LoadsOrdered load) (h : ReflTransGen (Next load) s t)
    (hs : s.Proper) : t.Proper := by
  induction h with
  | refl => exact hs
  | tail _ hstep ih => exact hstep.proper hload ih

/-- Apart from the marker that it takes out, a step keeps every value that is no mapping. -/
theorem Next.keeps (hload : LoadsOrdered load) (h : Next load s t)
    (hp : s.files = [] → nextMarker s.document ≠ .ok (some p))
    (hv : s.document.get? p = some v) (hmap : v.isMap = false) : t.document.get? p = some v := by
  cases h with
  | marker hnext hremove hfiles =>
      obtain ⟨parent, rfl, -⟩ := exists_of_nextMarker hnext
      have hne : p ≠ parent ++ [Vocabulary.inclusion] := by
        rintro rfl
        exact hp rfl hnext
      have hapart :=
        apart_of_not_isMap hv hmap (get?_of_remove? hremove) (isMap_of_fileNames hfiles) hne
      exact (get?_remove?_of_apart hremove hapart).trans hv
  | file hfile hplace habsorb hreplace =>
      have habsorbed := absorbed_of_absorb (hload _ _ hfile) habsorb
      exact habsorbed.get?_at hplace (set_of_replace? hreplace) hv hmap

/-- A step retains every place that no marker is above. -/
theorem Next.retains (hload : LoadsOrdered load) (h : Next load s t)
    (hp : Vocabulary.inclusion ∉ p) (hv : (s.document.get? p).isSome) :
    (t.document.get? p).isSome := by
  cases h with
  | marker hnext hremove hfiles =>
      obtain ⟨parent, rfl, -⟩ := exists_of_nextMarker hnext
      rcases prefix_or_prefix_or_apart p (parent ++ [Vocabulary.inclusion]) with
        hpre | ⟨rest, rfl⟩ | hapart
      · rcases List.prefix_concat_iff.mp hpre with rfl | hpre
        · simp at hp
        · obtain ⟨w, hw, -⟩ := exists_isMap_of_remove? hremove hpre
          exact Option.isSome_iff_exists.mpr ⟨w, hw⟩
      · simp at hp
      · rw [get?_remove?_of_apart hremove hapart]
        exact hv
  | file hfile hplace habsorb hreplace =>
      have habsorbed := absorbed_of_absorb (hload _ _ hfile) habsorb
      exact habsorbed.isSome_at hplace (set_of_replace? hreplace) hv

/-- A value that is no mapping was there before a step or comes with the file that it absorbs. -/
theorem Next.origin (hload : LoadsOrdered load) (h : Next load s t) (hs : s.Proper)
    (hv : t.document.get? p = some v) (hmap : v.isMap = false) :
    s.document.get? p = some v ∨ ∃ file content q, file ∈ s.files ∧ load file = .ok content ∧
      q ∈ content.leafPaths ∧ p = s.point ++ q ∧ content.get? q = some v := by
  cases h with
  | marker hnext hremove hfiles =>
      refine .inl ?_
      obtain ⟨parent, rfl, -⟩ := exists_of_nextMarker hnext
      rcases prefix_or_prefix_or_apart p (parent ++ [Vocabulary.inclusion]) with
        hpre | ⟨rest, rfl⟩ | hapart
      · rcases List.prefix_concat_iff.mp hpre with rfl | hpre
        · rw [← List.append_nil (parent ++ _), get?_remove?_below hs.ordered hremove] at hv
          cases hv
        · obtain ⟨w, hw, hwmap⟩ := exists_isMap_of_remove? hremove hpre
          rw [hw, Option.some.injEq] at hv
          rw [hv, hmap] at hwmap
          cases hwmap
      · rw [get?_remove?_below hs.ordered hremove] at hv
        cases hv
      · exact (get?_remove?_of_apart hremove hapart).symm.trans hv
  | file hfile hplace habsorb hreplace =>
      have habsorbed := absorbed_of_absorb (hload _ _ hfile) habsorb
      refine (habsorbed.origin_at hplace (set_of_replace? hreplace) hv hmap).imp_right ?_
      rintro ⟨q, hq, rfl, hnew⟩
      exact ⟨_, _, q, List.mem_cons_self, hfile, hq, rfl, hnew⟩

theorem Next.isMap (h : Next load s t) (hs : s.document.isMap = true) :
    t.document.isMap = true := by
  cases h with
  | marker hnext hremove hfiles =>
      obtain ⟨parent, rfl, -⟩ := exists_of_nextMarker hnext
      obtain ⟨w, hw, hmap⟩ := exists_isMap_of_remove? hremove List.nil_prefix
      rw [get?_nil, Option.some.injEq] at hw
      rwa [hw]
  | @file _ _ _ _ _ point _ _ _ hfile hplace habsorb hreplace =>
      have hset := set_of_replace? hreplace
      cases point with
      | nil =>
          rw [get?_nil, Option.some.injEq] at hplace
          rw [set_nil, Except.ok.injEq] at hset
          subst hplace hset
          exact isMap_of_absorb habsorb hs
      | cons key rest =>
          obtain ⟨_, _, -, -, rfl⟩ := set_cons_eq_ok.mp hset
          rfl

theorem isMap_of_reaches (h : ReflTransGen (Next load) s t) (hs : s.document.isMap = true) :
    t.document.isMap = true := by
  induction h with
  | refl => exact hs
  | tail _ hstep ih => exact hstep.isMap ih

/-- A resolution that succeeds leaves no marker to replace, and mappings and the order of keys are
kept. -/
theorem resolved_of_resolve (hload : LoadsOrdered load) (hd : d.Ordered)
    (h : resolve load d = .ok (out, report)) :
    nextMarker out = .ok none ∧ out.Ordered ∧ (d.isMap = true → out.isMap = true) := by
  obtain ⟨hout, point, hreaches⟩ : Completes load ⟨d, [], []⟩ out := completes_of_resolveRounds h
  have hproper : Stage.Proper ⟨out, point, []⟩ :=
    proper_of_reaches hload hreaches ⟨hd, List.not_mem_nil⟩
  exact ⟨hout, hproper.ordered, isMap_of_reaches hreaches⟩

/-- A document without markers stays as it is. -/
theorem resolve_eq_self (h : nextMarker d = .ok none) : resolve load d = .ok (d, .empty) := by
  rw [resolve, Vocabulary.maxInclusionRounds, resolveRounds.eq_def, h]
  rfl

end Inclusion

end ExperimentSuite
