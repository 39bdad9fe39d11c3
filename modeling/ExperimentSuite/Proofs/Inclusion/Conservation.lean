import ExperimentSuite.Proofs.Experiment.ReservedKeys
import ExperimentSuite.Proofs.Inclusion.Stages

/-!
# What inclusion leaves of a document

However many files come in, a resolution that succeeds takes nothing out of a
document but markers. That is a relation between the documents before and after
which every step satisfies and which composes. Nor is any marker left in the
end: three searches for one have found nothing, and together they look at every
place, inside lists, above the leaves and at the leaves.
-/

namespace ExperimentSuite

namespace Inclusion

open Document KeyPath Relation

variable {load : String → Except Failure Document} {d d' d'' target out v : Document}
  {p path : KeyPath} {inList : Bool} {items : List Document} {fields : List (String × Document)}
  {report : InclusionReport} {s t : Stage} {rounds : Nat}

section Search

theorem of_markerInFields?_eq_none (h : markerInFields? inList path fields = none) :
    ∀ e ∈ fields, (inList = true → e.1 ≠ Vocabulary.inclusion) ∧
      markerInList? inList (path ++ [e.1]) e.2 = none := by
  induction fields with
  | nil => simp
  | cons e rest ih =>
      rw [markerInFields?] at h
      split at h
      · cases h
      next hkey =>
      split at h
      · cases h
      next he =>
      exact List.forall_mem_cons.mpr ⟨⟨by simpa using hkey, he⟩, ih h⟩

theorem of_markerInItems?_eq_none {index : Nat} (h : markerInItems? path index items = none) :
    ∀ d ∈ items, ∃ place, markerInList? true place d = none := by
  induction items generalizing index with
  | nil => simp
  | cons d rest ih =>
      rw [markerInItems?] at h
      split at h
      · cases h
      next hd =>
      exact List.forall_mem_cons.mpr ⟨⟨_, hd⟩, ih h⟩

/-- The search inside a list looks at every key. -/
theorem not_keyIn_of_markerInList? (h : markerInList? true path d = none) :
    ¬ KeyIn Vocabulary.inclusion d := by
  induction d using memberInduction generalizing path with
  | list items ih =>
      rw [markerInList?] at h
      rw [keyIn_list_iff]
      rintro ⟨d, hd, hin⟩
      obtain ⟨place, hplace⟩ := of_markerInItems?_eq_none h d hd
      exact ih d hd hplace hin
  | map fields ih =>
      rw [markerInList?] at h
      rw [keyIn_map_iff]
      rintro ⟨e, he, hin⟩
      obtain ⟨hkey, hbelow⟩ := of_markerInFields?_eq_none h e he
      exact hin.elim (hkey rfl) (ih e he hbelow)
  | _ => rintro ⟨⟩

/-- The search through a document looks into every value that is no mapping. -/
theorem not_keyIn_of_get? (h : markerInList? false path d = none) (hv : d.get? p = some v)
    (hmap : v.isMap = false) : ¬ KeyIn Vocabulary.inclusion v := by
  induction p generalizing d path with
  | nil =>
      rw [get?_nil] at hv
      cases hv
      cases v with
      | map fields => cases hmap
      | list items =>
          -- whether a list counts as one inside a list makes no difference to its items
          have hinside : markerInList? true path (.list items) = none := by
            rw [markerInList?] at h ⊢
            exact h
          exact not_keyIn_of_markerInList? hinside
      | _ => rintro ⟨⟩
  | cons key rest ih =>
      obtain ⟨fields, rfl⟩ := isMap_iff.mp (isMap_of_get?_cons hv)
      rw [get?_map_cons, Option.bind_eq_some_iff] at hv
      obtain ⟨child, hchild, hv⟩ := hv
      rw [markerInList?] at h
      exact ih (of_markerInFields?_eq_none h _ (Keyed.mem_of_find? hchild)).2 hv

/-- A document in which no marker is left to replace has none at any depth. -/
theorem not_keyIn_of_nextMarker (hd : d.Ordered) (h : nextMarker d = .ok none) :
    ¬ KeyIn Vocabulary.inclusion d := by
  intro hin
  obtain ⟨p, v, hv, hkey | ⟨hmap, hbelow⟩⟩ := exists_get?_of_keyIn hd hin
  · exact not_mem_of_nextMarker_eq_none hd h (by rw [hv]; rfl) hkey
  · exact not_keyIn_of_get? (nextMarker_eq_ok.mp h).1 hv hmap hbelow

end Search

/-- On every path without a marker, a document still has what another one has there: the same value
if that is no mapping, and else a mapping with all of its keys but the marker. -/
structure Conserves (before after : Document) : Prop where
  value : ∀ p v, Vocabulary.inclusion ∉ p → before.get? p = some v → v.isMap = false →
    after.get? p = some v
  mapping : ∀ p fields, Vocabulary.inclusion ∉ p → before.get? p = some (.map fields) →
    ∃ fields', after.get? p = some (.map fields') ∧
      ∀ key ∈ Keyed.keys fields, key ≠ Vocabulary.inclusion → key ∈ Keyed.keys fields'

theorem Conserves.refl (d : Document) : Conserves d d where
  value _ _ _ hv _ := hv
  mapping _ fields _ hv := ⟨fields, hv, fun _ hkey _ => hkey⟩

theorem Conserves.trans (h : Conserves d d') (h' : Conserves d' d'') : Conserves d d'' where
  value p v hp hv hmap := h'.value p v hp (h.value p v hp hv hmap) hmap
  mapping p fields hp hv := by
    obtain ⟨middle, hmiddle, hkeys⟩ := h.mapping p fields hp hv
    obtain ⟨fields', hfields', hkeys'⟩ := h'.mapping p middle hp hmiddle
    exact ⟨fields', hfields', fun key hkey hne => hkeys' key (hkeys key hkey hne) hne⟩

/-- Keys of a mapping are kept if the paths through them are. -/
theorem conserves_of_retains
    (hvalue : ∀ p v, Vocabulary.inclusion ∉ p → d.get? p = some v → v.isMap = false →
      d'.get? p = some v)
    (hretains : ∀ p, Vocabulary.inclusion ∉ p → (d.get? p).isSome → (d'.get? p).isSome)
    (hmap : ∀ p v, Vocabulary.inclusion ∉ p → d.get? p = some v → v.isMap = true →
      ∃ w, d'.get? p = some w ∧ w.isMap = true) : Conserves d d' where
  value := hvalue
  mapping p fields hp hv := by
    obtain ⟨w, hw, hwmap⟩ := hmap p _ hp hv rfl
    obtain ⟨fields', rfl⟩ := isMap_iff.mp hwmap
    refine ⟨fields', hw, fun key hkey hne => ?_⟩
    have hp' : Vocabulary.inclusion ∉ p ++ [key] := by simp [hp, hne.symm]
    have hsome : (d.get? (p ++ [key])).isSome := by
      rw [get?_concat hv]
      exact Keyed.isSome_find?_iff.mpr hkey
    have hsome' := hretains (p ++ [key]) hp' hsome
    rw [get?_concat hw] at hsome'
    exact Keyed.isSome_find?_iff.mp hsome'

/-- A mapping on a path without a marker stays a mapping in one step. -/
theorem Next.exists_isMap (h : Next load s t) (hp : Vocabulary.inclusion ∉ p)
    (hv : s.document.get? p = some v) (hmap : v.isMap = true) :
    ∃ w, t.document.get? p = some w ∧ w.isMap = true := by
  cases h with
  | marker hnext hremove hfiles =>
      obtain ⟨parent, rfl, -⟩ := exists_of_nextMarker hnext
      rcases prefix_or_prefix_or_apart p (parent ++ [Vocabulary.inclusion]) with
        hpre | ⟨rest, rfl⟩ | hapart
      · rcases List.prefix_concat_iff.mp hpre with rfl | hpre
        · simp at hp
        · exact exists_isMap_of_remove? hremove hpre
      · simp at hp
      · exact ⟨v, (get?_remove?_of_apart hremove hapart).trans hv, hmap⟩
  | @file _ _ place place' _ point _ _ _ hfile hplace habsorb hreplace =>
      have hset := set_of_replace? hreplace
      rcases prefix_or_prefix_or_apart point p with ⟨rest, rfl⟩ | hpre | hapart
      · rw [get?_append, hplace, Option.bind_some] at hv
        rw [get?_set_append hset]
        exact exists_isMap_of_absorbLeaves habsorb hv hmap
      · by_cases heq : p = point
        · subst heq
          rw [hplace, Option.some.injEq] at hv
          subst hv
          exact ⟨place', get?_set_self hset, isMap_of_absorb habsorb hmap⟩
        · have hsome : (Document.get? _ p).isSome :=
            isSome_get?_of_isPrefix (by rw [get?_set_self hset]; rfl) hpre
          obtain ⟨w, hw⟩ := Option.isSome_iff_exists.mp hsome
          exact ⟨w, hw, isMap_of_get?_set hset hpre heq hw⟩
      · rw [get?_set_of_apart hset hapart.symm]
        exact ⟨v, hv, hmap⟩

/-- One step takes nothing out of a document but a marker. -/
theorem Next.conserves (hload : LoadsOrdered load) (h : Next load s t) :
    Conserves s.document t.document := by
  refine conserves_of_retains (fun p v hp hv hmap => ?_) (fun p hp => h.retains hload hp)
    fun p v hp => h.exists_isMap hp
  refine h.keeps hload (fun _ hnext => ?_) hv hmap
  obtain ⟨parent, rfl, -⟩ := exists_of_nextMarker hnext
  simp at hp

theorem conserves_of_reaches (hload : LoadsOrdered load) (h : ReflTransGen (Next load) s t) :
    Conserves s.document t.document := by
  induction h with
  | refl => exact .refl _
  | tail _ hstep ih => exact ih.trans (hstep.conserves hload)

/-- A resolution that succeeds leaves no marker at any depth and takes nothing else out of the
document. -/
theorem resolve_conserves (hload : LoadsOrdered load) (htarget : target.Ordered)
    (h : resolve load target = .ok (out, report)) :
    ¬ KeyIn Vocabulary.inclusion out ∧ Conserves target out := by
  obtain ⟨hnext, hout, -⟩ := resolved_of_resolve hload htarget h
  obtain ⟨-, point, hreaches⟩ : Completes load ⟨target, [], []⟩ out :=
    completes_of_resolveRounds h
  exact ⟨not_keyIn_of_nextMarker hout hnext, conserves_of_reaches hload hreaches⟩

/-- Files of network settings, one of which names another one. -/
def networkFiles : String → Except Failure Document
  | "net.yml" => .ok (.map [(Vocabulary.inclusion, .str "tier.yml"), ("bandwidth", .nat 100),
      ("latency", .nat 10)])
  | "more.yml" => .ok (.map [("bandwidth", .nat 5), ("loss", .map [("rate", .nat 1)])])
  | "tier.yml" => .ok (.map [("tier", .map [("name", .str "gold")])])
  | file => .error (.file file .notFound)

/-- A document with two markers, one of which names two files. -/
def networkTarget : Document :=
  .map [("hosts", .list [.map [("name", .str "a")]]),
    ("net", .map [(Vocabulary.inclusion, .list [.str "net.yml", .str "more.yml"]),
      ("latency", .nat 1), ("loss", .map [])]),
    ("spare", .map [(Vocabulary.inclusion, .str "tier.yml")])]

/-- The document with the content of the files. -/
def networkResult : Document :=
  .map [("hosts", .list [.map [("name", .str "a")]]),
    ("net", .map [("bandwidth", .nat 100), ("latency", .nat 1), ("loss", .map [("rate", .nat 1)]),
      ("tier", .map [("name", .str "gold")])]),
    ("spare", .map [("tier", .map [("name", .str "gold")])])]

theorem loadsOrdered_networkFiles : LoadsOrdered networkFiles := by
  intro file content h
  unfold networkFiles at h
  split at h <;> cases h <;> decide

theorem resolve_networkTarget :
    resolve networkFiles networkTarget = .ok (networkResult,
      { included := [[Vocabulary.inclusion], ["bandwidth"], ["loss", "rate"], ["tier", "name"],
          ["tier", "name"]]
        skipped := [["latency"], ["bandwidth"]] }) := by
  cbv

theorem conserves_networkTarget :
    (LoadsOrdered networkFiles ∧ networkTarget.Ordered) ∧
    (∃ report, resolve networkFiles networkTarget = .ok (networkResult, report)) ∧
    ¬ KeyIn Vocabulary.inclusion networkResult ∧ Conserves networkTarget networkResult := by
  have htarget : networkTarget.Ordered := by decide
  exact ⟨⟨loadsOrdered_networkFiles, htarget⟩, ⟨_, resolve_networkTarget⟩,
    resolve_conserves loadsOrdered_networkFiles htarget resolve_networkTarget⟩

end Inclusion

end ExperimentSuite
