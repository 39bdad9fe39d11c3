import ExperimentSuite.Proofs.Document.Assignment
import ExperimentSuite.Proofs.Document.Order
import ExperimentSuite.Proofs.Factor.Levels
import ExperimentSuite.Proofs.Factor.Plan

/-!
# Complete assignments

An entry assigns levels when it is what the empty mapping becomes by setting
one value at every declared place. As these places stand apart, the order in
which the values are set does not matter. The check accepts exactly the
entries without markers that assign levels, and it reports the first other one
with the declared places that it lacks and the leaves that belong to none.
-/

namespace ExperimentSuite

namespace Document

open KeyPath

variable {value : KeyPath → Document} {d d' v : Document} {path p : KeyPath}
  {paths others order : List KeyPath}

/-- Setting an unmarked value at a path without the marker brings no marker in. -/
theorem hasMarker_set (hd : d.hasMarker = false) (hv : v.hasMarker = false)
    (hpath : Vocabulary.factor ∉ path) (h : d.set path v = .ok d') : d'.hasMarker = false := by
  induction path generalizing d d' with
  | nil =>
      rw [set_nil] at h
      cases h
      exact hv
  | cons key rest ih =>
      obtain ⟨fields, c, rfl, hc, rfl⟩ := set_cons_eq_ok.mp h
      obtain ⟨hkey, hrest⟩ := not_or.mp (List.mem_cons.not.mp hpath)
      have hfields := hasMarkerFields_eq_false_iff.mp hd
      have hold : ((Keyed.find? key fields).getD .empty).hasMarker = false := by
        cases hf : Keyed.find? key fields with
        | none => rfl
        | some old => exact (hfields _ (Keyed.mem_of_find? hf)).2
      refine hasMarkerFields_eq_false_iff.mpr fun e he => ?_
      rcases Keyed.mem_insert he with rfl | he
      · exact ⟨Ne.symm hkey, ih hold hrest hc⟩
      · exact hfields e he

theorem hasMarker_setAll (hd : d.hasMarker = false)
    (hv : ∀ p ∈ order, (value p).hasMarker = false) (hpath : ∀ p ∈ order, Vocabulary.factor ∉ p)
    (h : d.setAll value order = .ok d') : d'.hasMarker = false := by
  induction order generalizing d with
  | nil =>
      cases h
      exact hd
  | cons path rest ih =>
      obtain ⟨hvpath, hvrest⟩ := List.forall_mem_cons.mp hv
      obtain ⟨hpathfirst, hpathrest⟩ := List.forall_mem_cons.mp hpath
      obtain ⟨next, hset, hrest⟩ := Outcome.foldlM_cons_eq_ok.mp h
      exact ih (hasMarker_set hd hvpath hpathfirst hset) hvrest hpathrest hrest

end Document

namespace FactorLevels

open Document KeyPath

variable {factors levelPaths order : List KeyPath} {path q r : KeyPath} {d entry : Document}
  {entries : List Document} {fields : List (String × Document)} {value : KeyPath → Document}
  {index : Nat} {problem : FactorProblem}

/-- The places of the entries: below the root and apart from each other. -/
structure Declared (levelPaths : List KeyPath) : Prop where
  proper : ∀ p ∈ levelPaths, p ≠ []
  apart : ∀ p ∈ levelPaths, ∀ q ∈ levelPaths, p ≠ q → Apart p q

/-- An order of the declared places has each of them once. -/
structure Orders (order levelPaths : List KeyPath) : Prop where
  nodup : order.Nodup
  mem_iff : ∀ p, p ∈ order ↔ p ∈ levelPaths

theorem orders_ofList (levelPaths : List KeyPath) :
    Orders (Ascending.ofList levelPaths) levelPaths :=
  ⟨(Ascending.pairwise_ofList levelPaths).nodup, fun _ => Ascending.mem_ofList⟩

/-- One value can be set at each declared place, in any order. -/
theorem exists_setAll (hl : Declared levelPaths) (hv : ∀ p ∈ levelPaths, (value p).Ordered)
    (ho : Orders order levelPaths) :
    ∃ d, Document.setAll value .empty order = .ok d ∧ Assigned value levelPaths d := by
  have hapart : order.Pairwise Apart := ho.nodup.imp_of_mem fun hp hq hne =>
    hl.apart _ ((ho.mem_iff _).mp hp) _ ((ho.mem_iff _).mp hq) hne
  obtain ⟨d, hset, hd⟩ := (assigned_empty value).setAll
    (fun p hp => hv p ((ho.mem_iff p).mp hp)) (fun p hp => hl.proper p ((ho.mem_iff p).mp hp))
    (by simpa using hapart)
  exact ⟨d, hset, hd.congr fun q => by rw [List.append_nil, ho.mem_iff]⟩

/-- A document is what the empty mapping becomes by setting given values at the declared places, in
whatever order. -/
def Makes (value : KeyPath → Document) (levelPaths : List KeyPath) (entry : Document) : Prop :=
  ∀ order, Orders order levelPaths → Document.setAll value .empty order = .ok entry

/-- An entry is complete if it has no markers and is made by setting one value at each declared
place. -/
structure Complete (levelPaths : List KeyPath) (entry : Document) : Prop where
  unmarked : entry.hasMarker = false
  assigned : ∃ value : KeyPath → Document, (∀ p ∈ levelPaths, (value p).Ordered) ∧
    Makes value levelPaths entry

theorem Makes.assigned (h : Makes value levelPaths entry) (hl : Declared levelPaths)
    (hv : ∀ p ∈ levelPaths, (value p).Ordered) : Assigned value levelPaths entry := by
  obtain ⟨d, hd, hassigned⟩ := exists_setAll hl hv (orders_ofList levelPaths)
  rw [h _ (orders_ofList levelPaths)] at hd
  cases hd
  exact hassigned

theorem makes_of_assigned (hl : Declared levelPaths) (h : Assigned value levelPaths entry) :
    Makes value levelPaths entry := by
  intro order ho
  obtain ⟨d, hd, hassigned⟩ := exists_setAll hl
    (fun p hp => h.sparse.ordered.get? (h.get? p hp)) ho
  rw [hd, hassigned.unique h]

theorem complete_iff (hl : Declared levelPaths) :
    Complete levelPaths entry ↔ Sparse levelPaths entry ∧ entry.hasMarker = false := by
  constructor
  · rintro ⟨hmarker, value, hv, hmade⟩
    exact ⟨(hmade.assigned hl hv).sparse, hmarker⟩
  · rintro ⟨hs, hmarker⟩
    have hget : ∀ p ∈ levelPaths, entry.get? p = some ((entry.get? p).getD .null) := by
      intro p hp
      obtain ⟨v, hv⟩ := Option.isSome_iff_exists.mp (hs.holds p hp)
      rw [hv, Option.getD_some]
    exact ⟨hmarker, fun p => (entry.get? p).getD .null,
      fun p hp => hs.ordered.get? (hget p hp), makes_of_assigned hl ⟨hs, hget⟩⟩

/-- The places that are read off an entry: the declared ones and the leaves that belong to none. -/
def IsRead (factors : List KeyPath) (q : KeyPath) (v : Document) : Prop :=
  q ∈ factors ∨ (v.isLeaf = true ∧ ∀ p ∈ factors, ¬ p <+: q)

theorem pathsAt_eq_singleton (hne : path ≠ []) (h : path ∈ factors ∨ d.isLeaf = true) :
    pathsAt factors path d = [path] := by
  cases d with
  | map fields =>
      cases fields with
      | nil => rw [pathsAt, if_neg hne]
      | cons e rest =>
          have hmem : path ∈ factors := h.resolve_right (by simp [isLeaf])
          rw [pathsAt, if_pos ⟨hne, hmem⟩]
  | _ => simp only [pathsAt]

theorem mem_pathsIn_iff (hd : (Document.map fields).Ordered)
    (h : ∀ e ∈ fields, ∀ q, q ∈ pathsAt factors (path ++ [e.1]) e.2 ↔
      ∃ r v, q = path ++ [e.1] ++ r ∧ e.2.get? r = some v ∧ IsRead factors q v) :
    q ∈ pathsIn factors path fields ↔
      ∃ r v, r ≠ [] ∧ q = path ++ r ∧ (Document.map fields).get? r = some v ∧
        IsRead factors q v := by
  rw [mem_pathsIn]
  constructor
  · rintro ⟨e, he, hq⟩
    obtain ⟨r, v, rfl, hv, hread⟩ := (h e he q).mp hq
    refine ⟨e.1 :: r, v, by simp, by simp, ?_, hread⟩
    rw [get?_map_cons, Keyed.find?_of_mem hd.sorted he]
    exact hv
  · rintro ⟨r, v, hne, rfl, hv, hread⟩
    obtain ⟨key, rest, rfl⟩ := List.exists_cons_of_ne_nil hne
    rw [get?_map_cons, Option.bind_eq_some_iff] at hv
    obtain ⟨c, hc, hv⟩ := hv
    have he := Keyed.mem_of_find? hc
    exact ⟨_, he, (h _ he _).mpr ⟨rest, v, by simp, hv, hread⟩⟩

/-- At a declared place or a leaf the place itself is read off. -/
theorem mem_pathsAt_of_stop (hl : Declared factors) (hne : path ≠ [])
    (habove : ∀ p ∈ factors, p <+: path → p = path)
    (hstop : path ∈ factors ∨ d.isLeaf = true) :
    q ∈ pathsAt factors path d ↔
      ∃ r v, q = path ++ r ∧ d.get? r = some v ∧ IsRead factors q v := by
  rw [pathsAt_eq_singleton hne hstop, List.mem_singleton]
  constructor
  · rintro rfl
    refine ⟨[], d, by simp, get?_nil d, ?_⟩
    by_cases hmem : q ∈ factors
    · exact .inl hmem
    · exact .inr ⟨hstop.resolve_left hmem, fun p hp hpre => hmem (habove p hp hpre ▸ hp)⟩
  · rintro ⟨r, v, rfl, hv, hread⟩
    have hpre : path <+: path ++ r := List.prefix_append path r
    by_cases hmem : path ∈ factors
    · rcases hread with hq | ⟨-, hno⟩
      · by_contra hdiffer
        exact (hl.apart path hmem _ hq (Ne.symm hdiffer)).1 hpre
      · exact absurd hpre (hno path hmem)
    · cases r with
      | nil => simp
      | cons key rest =>
          rw [get?_cons_of_isLeaf (hstop.resolve_left hmem)] at hv
          cases hv

/-- Where no declared place stands above, exactly the declared places that exist and the leaves
that belong to none are read off. -/
theorem mem_pathsAt_iff (hl : Declared factors) (hd : d.Ordered) (hne : path ≠ [])
    (habove : ∀ p ∈ factors, p <+: path → p = path) :
    q ∈ pathsAt factors path d ↔
      ∃ r v, q = path ++ r ∧ d.get? r = some v ∧ IsRead factors q v := by
  induction d using memberInduction generalizing path q with
  | map fields ih =>
      by_cases hstop : path ∈ factors ∨ (Document.map fields).isLeaf = true
      · exact mem_pathsAt_of_stop hl hne habove hstop
      obtain ⟨hmem, hleaf⟩ := not_or.mp hstop
      have hin : pathsAt factors path (.map fields) = pathsIn factors path fields := by
        cases fields with
        | nil => exact absurd rfl hleaf
        | cons e rest => rw [pathsAt, if_neg fun h => hmem h.2]
      have hbelow : ∀ e ∈ fields, ∀ p ∈ factors, p <+: path ++ [e.1] → p = path ++ [e.1] := by
        intro e _ p hp hpre
        refine (List.prefix_concat_iff.mp hpre).resolve_right fun hpath => ?_
        exact hmem (habove p hp hpath ▸ hp)
      rw [hin, mem_pathsIn_iff hd fun e he q =>
        ih e he ((ordered_map_iff.mp hd).2 e he) (by simp) (hbelow e he)]
      constructor
      · rintro ⟨r, v, -, hrest⟩
        exact ⟨r, v, hrest⟩
      · rintro ⟨r, v, rfl, hv, hread⟩
        refine ⟨r, v, ?_, rfl, hv, hread⟩
        rintro rfl
        cases hv
        rw [List.append_nil] at hread
        exact hstop (hread.imp_right And.left)
  | _ => exact mem_pathsAt_of_stop hl hne habove (.inr rfl)

/-- The places that are read off a whole entry. -/
theorem mem_pathsAt_root_iff (hl : Declared factors) (hd : (Document.map fields).Ordered) :
    q ∈ pathsAt factors [] (.map fields) ↔
      q ≠ [] ∧ ∃ v, (Document.map fields).get? q = some v ∧ IsRead factors q v := by
  have habove : ∀ e ∈ fields, ∀ p ∈ factors, p <+: [] ++ [e.1] → p = [] ++ [e.1] := by
    intro e _ p hp hpre
    refine (List.prefix_concat_iff.mp hpre).resolve_right fun hnil => ?_
    exact hl.proper p hp (List.prefix_nil.mp hnil)
  rw [pathsAt_nil_map, mem_pathsIn_iff hd fun e he q =>
    mem_pathsAt_iff hl ((ordered_map_iff.mp hd).2 e he) (by simp) (habove e he)]
  constructor
  · rintro ⟨r, v, hne, rfl, hv, hread⟩
    exact ⟨hne, v, hv, hread⟩
  · rintro ⟨hne, v, hv, hread⟩
    exact ⟨q, v, hne, rfl, hv, hread⟩

/-- What is wrong with an entry: it is no mapping, it has a marker, or it lacks declared places or
has leaves that belong to none. -/
inductive Offends (levelPaths : List KeyPath) (index : Nat) (entry : Document) :
    FactorProblem → Prop where
  | notMap (h : entry.isMap = false) : Offends levelPaths index entry (.entryNotMap index)
  | marked (hmap : entry.isMap = true) (h : entry.hasMarker = true) :
      Offends levelPaths index entry (.entryHasMarker index)
  | mismatch {missing unexpected : List KeyPath} (hmap : entry.isMap = true)
      (hmarker : entry.hasMarker = false) (hne : missing ≠ [] ∨ unexpected ≠ [])
      (missingOrder : missing.Pairwise (· < ·))
      (mem_missing : ∀ p, p ∈ missing ↔ p ∈ levelPaths ∧ entry.get? p = none)
      (unexpectedOrder : unexpected.Pairwise (· < ·))
      (mem_unexpected : ∀ q, q ∈ unexpected ↔
        q ∈ entry.leafPaths ∧ ∀ p ∈ levelPaths, ¬ p <+: q) :
      Offends levelPaths index entry (.entryMismatch index missing unexpected)

/-- A complete entry does not offend. -/
theorem Offends.not_complete (h : Offends levelPaths index entry problem)
    (hl : Declared levelPaths) : ¬ Complete levelPaths entry := by
  intro hcomplete
  obtain ⟨hs, hunmarked⟩ := (complete_iff hl).mp hcomplete
  cases h with
  | notMap h =>
      rw [hs.isMap] at h
      cases h
  | marked _ h =>
      rw [hunmarked] at h
      cases h
  | @mismatch missing unexpected _ _ hne _ hmissing _ hunexpected =>
      have hnomissing : missing = [] := by
        refine List.eq_nil_iff_forall_not_mem.mpr fun p hp => ?_
        obtain ⟨hmem, hnone⟩ := (hmissing p).mp hp
        have hsome := hs.holds p hmem
        rw [hnone] at hsome
        cases hsome
      have hnounexpected : unexpected = [] := by
        refine List.eq_nil_iff_forall_not_mem.mpr fun q hq => ?_
        obtain ⟨hleaf, hno⟩ := (hunexpected q).mp hq
        obtain ⟨hroot, v, hv, hvleaf⟩ := (mem_leafPaths_iff hs.ordered).mp hleaf
        rcases hs.noOther q v hv with ⟨p, hp, hpre⟩ | ⟨-, hnil | ⟨p, hp, rest, rfl⟩⟩
        · exact hno p hp hpre
        · exact hroot hnil
        · cases rest with
          | nil => exact hno _ hp (by simp)
          | cons key rest =>
              have hsome := hs.holds _ hp
              rw [get?_append, hv, Option.bind_some, get?_cons_of_isLeaf hvleaf] at hsome
              cases hsome
      exact hne.elim (· hnomissing) (· hnounexpected)

theorem Declared.ofList (hl : Declared levelPaths) : Declared (Ascending.ofList levelPaths) where
  proper p hp := hl.proper p (Ascending.mem_ofList.mp hp)
  apart p hp q hq := hl.apart p (Ascending.mem_ofList.mp hp) q (Ascending.mem_ofList.mp hq)

/-- Declared places are missing if they do not exist. -/
theorem mem_missing_iff (hl : Declared levelPaths) (hd : (Document.map fields).Ordered) :
    q ∈ Ascending.difference (Ascending.ofList levelPaths)
        (Ascending.ofList (pathsAt (Ascending.ofList levelPaths) [] (.map fields))) ↔
      q ∈ levelPaths ∧ (Document.map fields).get? q = none := by
  rw [Ascending.mem_difference, Ascending.mem_ofList, Ascending.mem_ofList,
    mem_pathsAt_root_iff hl.ofList hd]
  refine and_congr_right fun hmem => ?_
  have hread : ∀ v, IsRead (Ascending.ofList levelPaths) q v :=
    fun v => .inl (Ascending.mem_ofList.mpr hmem)
  simp [hl.proper q hmem, hread, Option.eq_none_iff_forall_ne_some]

/-- Leaves are unexpected if they belong to no declared place. -/
theorem mem_unexpected_iff (hl : Declared levelPaths) (hd : (Document.map fields).Ordered) :
    q ∈ Ascending.difference
        (Ascending.ofList (pathsAt (Ascending.ofList levelPaths) [] (.map fields)))
        (Ascending.ofList levelPaths) ↔
      q ∈ (Document.map fields).leafPaths ∧ ∀ p ∈ levelPaths, ¬ p <+: q := by
  rw [Ascending.mem_difference, Ascending.mem_ofList, Ascending.mem_ofList,
    mem_pathsAt_root_iff hl.ofList hd, mem_leafPaths_iff hd]
  constructor
  · rintro ⟨⟨hne, v, hv, hdeclared | ⟨hleaf, hno⟩⟩, hmem⟩
    · exact absurd (Ascending.mem_ofList.mp hdeclared) hmem
    · exact ⟨⟨hne, v, hv, hleaf⟩, fun p hp => hno p (Ascending.mem_ofList.mpr hp)⟩
  · rintro ⟨⟨hne, v, hv, hleaf⟩, hno⟩
    exact ⟨⟨hne, v, hv, .inr ⟨hleaf, fun p hp => hno p (Ascending.mem_ofList.mp hp)⟩⟩,
      fun hmem => hno q hmem List.prefix_rfl⟩

/-- The check of one entry accepts it as complete or says what is wrong with it. -/
theorem checkEntry_spec (hl : Declared levelPaths) (he : entry.Ordered) (index : Nat) :
    (checkEntry (Ascending.ofList levelPaths) index entry = .ok () ∧ Complete levelPaths entry) ∨
      ∃ problem, checkEntry (Ascending.ofList levelPaths) index entry = .error problem ∧
        Offends levelPaths index entry problem := by
  cases hmap : entry.isMap with
  | false => exact .inr ⟨_, by simp [checkEntry, hmap], .notMap hmap⟩
  | true =>
  cases hmarker : entry.hasMarker with
  | true => exact .inr ⟨_, by simp [checkEntry, hmap, hmarker], .marked hmap hmarker⟩
  | false =>
  cases hcheck : checkEntry (Ascending.ofList levelPaths) index entry with
  | ok _ => exact .inl ⟨rfl, (complete_iff hl).mpr (sparse_of_checkEntry hcheck he)⟩
  | error problem =>
      refine .inr ⟨problem, rfl, ?_⟩
      obtain ⟨fields, rfl⟩ := isMap_iff.mp hmap
      simp only [checkEntry, hmap, hmarker, Bool.not_true, Bool.false_eq_true, if_false] at hcheck
      split at hcheck
      · cases hcheck
      next hboth =>
      cases hcheck
      refine .mismatch hmap hmarker ?_ (Ascending.pairwise_difference (Ascending.pairwise_ofList _))
        (fun p => mem_missing_iff hl he)
        (Ascending.pairwise_difference (Ascending.pairwise_ofList _))
        fun q => mem_unexpected_iff hl he
      simpa [List.isEmpty_iff, ← not_and_or] using hboth

/-- The first entry that is not accepted decides. -/
theorem checkFrom_eq_error {expected : List KeyPath}
    (h : checkFrom expected index entries = .error problem) :
    ∃ i entry, entries[i]? = some entry ∧
      checkEntry expected (index + i) entry = .error problem ∧
      ∀ j < i, ∀ other, entries[j]? = some other →
        checkEntry expected (index + j) other = .ok () := by
  induction entries generalizing index with
  | nil => cases h
  | cons first rest ih =>
      rw [checkFrom, Outcome.bind_eq_error] at h
      rcases h with hfirst | ⟨_, hfirst, hrest⟩
      · exact ⟨0, first, rfl, hfirst, fun j hj => absurd hj (Nat.not_lt_zero j)⟩
      · obtain ⟨i, entry, hentry, herror, hbefore⟩ := ih hrest
        refine ⟨i + 1, entry, hentry, by rwa [Nat.add_right_comm] at herror,
          fun j hj other ho => ?_⟩
        cases j with
        | zero =>
            cases ho
            exact hfirst
        | succ j =>
            have hother := hbefore j (Nat.lt_of_succ_lt_succ hj) other ho
            rwa [Nat.add_right_comm] at hother

/-- Where no declared path has the marker as a key, an entry is complete if it is made of values
without markers. -/
theorem complete_iff_unmarked (hl : Declared levelPaths)
    (hkeys : ∀ p ∈ levelPaths, Vocabulary.factor ∉ p) :
    Complete levelPaths entry ↔ ∃ value : KeyPath → Document,
      (∀ p ∈ levelPaths, (value p).Ordered ∧ (value p).hasMarker = false) ∧
        Makes value levelPaths entry := by
  have ho := orders_ofList levelPaths
  constructor
  · rintro ⟨hmarker, value, hv, hmade⟩
    exact ⟨value, fun p hp =>
      ⟨hv p hp, hasMarker_of_get? hmarker ((hmade.assigned hl hv).get? p hp)⟩, hmade⟩
  · rintro ⟨value, hv, hmade⟩
    refine ⟨?_, value, fun p hp => (hv p hp).1, hmade⟩
    exact hasMarker_setAll rfl (fun p hp => (hv p ((ho.mem_iff p).mp hp)).2)
      (fun p hp => hkeys p ((ho.mem_iff p).mp hp)) (hmade _ ho)

theorem checkEntry_eq_ok_iff (hl : Declared levelPaths) (he : entry.Ordered) :
    checkEntry (Ascending.ofList levelPaths) index entry = .ok () ↔ Complete levelPaths entry := by
  rcases checkEntry_spec hl he index with ⟨hcheck, hcomplete⟩ | ⟨problem, hcheck, hoffends⟩
  · exact iff_of_true hcheck hcomplete
  · exact iff_of_false (by simp [hcheck]) (hoffends.not_complete hl)

theorem offends_of_check (hl : Declared levelPaths) (he : ∀ entry ∈ entries, entry.Ordered)
    (h : check levelPaths entries = .error problem) :
    ∃ i entry, entries[i]? = some entry ∧
      (∀ j < i, ∀ other, entries[j]? = some other → Complete levelPaths other) ∧
      ¬ Complete levelPaths entry ∧ Offends levelPaths i entry problem := by
  obtain ⟨i, entry, hi, herror, hbefore⟩ := checkFrom_eq_error h
  rw [Nat.zero_add] at herror
  have hoffends : Offends levelPaths i entry problem := by
    rcases checkEntry_spec hl (he entry (List.mem_of_getElem? hi)) i with
      ⟨hcheck, -⟩ | ⟨problem', hcheck, hoffends⟩
    · rw [hcheck] at herror
      cases herror
    · rw [hcheck] at herror
      cases herror
      exact hoffends
  refine ⟨i, entry, hi, fun j hj other ho => ?_, hoffends.not_complete hl, hoffends⟩
  exact (checkEntry_eq_ok_iff hl (he other (List.mem_of_getElem? ho))).mp (hbefore j hj other ho)

/-- The check accepts exactly the complete entries and reports the first other one; whatever the
values, it does not matter in which order they are set. -/
theorem check_accepts_complete (hl : Declared levelPaths)
    (he : ∀ entry ∈ entries, entry.Ordered) :
    (check levelPaths entries = .ok () ↔ ∀ entry ∈ entries, Complete levelPaths entry) ∧
      (∀ problem, check levelPaths entries = .error problem →
        ∃ i entry, entries[i]? = some entry ∧
          (∀ j < i, ∀ other, entries[j]? = some other → Complete levelPaths other) ∧
          ¬ Complete levelPaths entry ∧ Offends levelPaths i entry problem) ∧
      (∀ value : KeyPath → Document, (∀ p ∈ levelPaths, (value p).Ordered) →
        ∃ d, Makes value levelPaths d) ∧
      ((∀ p ∈ levelPaths, Vocabulary.factor ∉ p) → ∀ entry : Document,
        (Complete levelPaths entry ↔ ∃ value : KeyPath → Document,
          (∀ p ∈ levelPaths, (value p).Ordered ∧ (value p).hasMarker = false) ∧
            Makes value levelPaths entry)) := by
  refine ⟨⟨fun h entry hmem => ?_, fun hall => ?_⟩, fun _ => offends_of_check hl he,
    fun value hv => ?_, fun hkeys _ => complete_iff_unmarked hl hkeys⟩
  · obtain ⟨_, hcheck⟩ := checkFrom_eq_ok h hmem
    exact (checkEntry_eq_ok_iff hl (he entry hmem)).mp hcheck
  · cases hcheck : check levelPaths entries with
    | ok _ => rfl
    | error problem =>
        obtain ⟨i, entry, hi, -, hnot, -⟩ := offends_of_check hl he hcheck
        exact absurd (hall entry (List.mem_of_getElem? hi)) hnot
  · obtain ⟨d, -, hd⟩ := exists_setAll hl hv (orders_ofList levelPaths)
    exact ⟨d, makes_of_assigned hl hd⟩

/-- Two declared places. -/
def sizeAndMode : List KeyPath := [["app", "size"], ["mode"]]

/-- An entry with a level at each of them, one of them a mapping. -/
def sizedEntry : Document :=
  .map [("app", .map [("size", .map [("unit", .str "kB")])]), ("mode", .list [.int 1])]

/-- An entry that has a leaf beside one of them in its stead. -/
def strayEntry : Document :=
  .map [("app", .map [("other", .map [])]), ("mode", .str "fast")]

theorem check_sizeAndMode :
    (Declared sizeAndMode ∧ sizedEntry.Ordered ∧ strayEntry.Ordered) ∧
      check sizeAndMode [sizedEntry] = .ok () ∧ Complete sizeAndMode sizedEntry ∧
      check sizeAndMode [sizedEntry, strayEntry] =
        .error (.entryMismatch 1 [["app", "size"]] [["app", "other"]]) ∧
      ¬ ∀ entry ∈ [sizedEntry, strayEntry], Complete sizeAndMode entry := by
  have hl : Declared sizeAndMode := ⟨by decide, by simp [sizeAndMode, Apart]⟩
  have hsized : sizedEntry.Ordered := by decide
  have hstray : strayEntry.Ordered := by decide
  have hok : check sizeAndMode [sizedEntry] = .ok () := rfl
  have herror : check sizeAndMode [sizedEntry, strayEntry] =
      .error (.entryMismatch 1 [["app", "size"]] [["app", "other"]]) := rfl
  have hcomplete : ∀ entry ∈ [sizedEntry], Complete sizeAndMode entry :=
    (check_accepts_complete hl (by simpa)).1.mp hok
  have hboth : check sizeAndMode [sizedEntry, strayEntry] = .ok () ↔
      ∀ entry ∈ [sizedEntry, strayEntry], Complete sizeAndMode entry :=
    (check_accepts_complete hl (by simp [hsized, hstray])).1
  rw [herror] at hboth
  exact ⟨⟨hl, hsized, hstray⟩, hok, hcomplete _ (by simp), herror, hboth.not.mp (by simp)⟩

/-- An entry with a value without markers at the path of the marker. -/
def markerEntry : Document :=
  .map [(Vocabulary.factor, .int 1)]

/-- Where the marker is a key of a declared path, entries made of values without markers are
refused. -/
theorem check_markerEntry :
    Declared [[Vocabulary.factor]] ∧ markerEntry.Ordered ∧
      ¬ (check [[Vocabulary.factor]] [markerEntry] = .ok () ↔
        ∀ entry ∈ [markerEntry], ∃ value : KeyPath → Document,
          (∀ p ∈ [[Vocabulary.factor]], (value p).Ordered ∧ (value p).hasMarker = false) ∧
            Makes value [[Vocabulary.factor]] entry) := by
  have hmakes : Makes (fun _ => .int 1) [[Vocabulary.factor]] markerEntry := by
    intro order ho
    have hperm := (List.perm_ext_iff_of_nodup ho.nodup (List.nodup_singleton _)).mpr ho.mem_iff
    rw [List.perm_singleton.mp hperm]
    rfl
  have hcheck : check [[Vocabulary.factor]] [markerEntry] = .error (.entryHasMarker 0) := rfl
  refine ⟨⟨by simp, by simp⟩, by decide, fun hiff => ?_⟩
  have haccepted : check [[Vocabulary.factor]] [markerEntry] = .ok () := by
    refine hiff.mpr fun entry he => ⟨fun _ => .int 1, fun p _ => ⟨trivial, rfl⟩, ?_⟩
    rw [List.mem_singleton.mp he]
    exact hmakes
  rw [hcheck] at haccepted
  cases haccepted

end FactorLevels

end ExperimentSuite
