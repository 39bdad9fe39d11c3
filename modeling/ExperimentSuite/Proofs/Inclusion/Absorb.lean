import ExperimentSuite.Inclusion.Absorb
import ExperimentSuite.Proofs.Document.Writing

/-!
# What absorbing does to a document

A document that absorbs another one keeps its own leaves and every path that
it has, takes over each leaf whose path is free, and takes over nothing else.
Afterwards the paths of all leaves of the other document are occupied. All of
this carries over to a document in which a mapping somewhere inside absorbs.
-/

namespace ExperimentSuite

namespace Document

open KeyPath

variable {d d' source v value : Document} {p q path : KeyPath} {paths : List KeyPath}
  {report : InclusionReport}

/-- A path that exists outlasts a write to a free path. -/
theorem isSome_get?_set_of_free (h : d.set path value = .ok d') (hfree : d.get? path = none)
    (hp : (d.get? p).isSome) : (d'.get? p).isSome := by
  rcases prefix_or_prefix_or_apart p path with hpre | ⟨rest, rfl⟩ | hapart
  · exact isSome_get?_of_isPrefix (by rw [get?_set_self h]; rfl) hpre
  · rw [get?_append, hfree] at hp
    cases hp
  · rw [get?_set_of_apart h hapart]
    exact hp

/-- A write occupies or frees no path apart from its own. -/
theorem isOccupied_set_of_apart (h : d.set path value = .ok d') (hq : Apart q path) :
    d'.isOccupied q = d.isOccupied q := by
  have hbar : ∀ p v, p <+: q → v.isMap = false → (d'.get? p = some v ↔ d.get? p = some v) := by
    intro p v hp hmap
    rcases prefix_or_prefix_or_apart p path with hpre | hpre | hapart
    · have hne : p ≠ path := fun heq => hq.2 (heq ▸ hp)
      -- above the path there are only mappings, before the write as well as after it
      constructor <;> intro hv
      · rw [isMap_of_get?_set h hpre hne hv] at hmap
        cases hmap
      · rw [isMap_of_set h hpre hne hv] at hmap
        cases hmap
    · exact absurd (hpre.trans hp) hq.2
    · rw [get?_set_of_apart h hapart]
  rw [Bool.eq_iff_iff, isOccupied_iff, isOccupied_iff, get?_set_of_apart h hq]
  exact or_congr Iff.rfl (exists_congr fun p => exists_congr fun v =>
    and_congr_right fun hp => and_congr_left fun hmap => hbar p v hp hmap)

/-- What absorbing the leaves of a source at some paths has done. -/
structure Absorbed (source : Document) (paths : List KeyPath) (d d' : Document) : Prop where
  keeps : ∀ p v, d.get? p = some v → v.isMap = false → d'.get? p = some v
  retains : ∀ p, (d.get? p).isSome → (d'.get? p).isSome
  occupies : ∀ q ∈ paths, d'.isOccupied q = true
  /-- A leaf whose path is free gets in. -/
  enters : ∀ q ∈ paths, d.isOccupied q = false → (d'.get? q).isSome
  takes : ∀ q ∈ paths, ∀ v, source.get? q = some v → v.isMap = false →
    d.isOccupied q = false → d'.get? q = some v
  /-- Leaves come from the document itself or from the source. -/
  origin : ∀ p v, d'.get? p = some v → v.isMap = false →
    d.get? p = some v ∨ (p ∈ paths ∧ source.get? p = some v)

theorem Absorbed.isOccupied (h : Absorbed source paths d d') (hq : d.isOccupied q = true) :
    d'.isOccupied q = true := by
  rw [isOccupied_iff] at hq ⊢
  rcases hq with hsome | ⟨p, v, hp, hv, hmap⟩
  · exact .inl (h.retains q hsome)
  · exact .inr ⟨p, v, hp, h.keeps p v hv hmap, hmap⟩

theorem absorbed_nil (source d : Document) : Absorbed source [] d d where
  keeps _ _ hv _ := hv
  retains _ hp := hp
  occupies := by simp
  enters := by simp
  takes := by simp
  origin _ _ hv _ := .inl hv

/-- An occupied path is passed over. -/
theorem Absorbed.skip (h : Absorbed source paths d d') (hpath : d.isOccupied path = true) :
    Absorbed source (path :: paths) d d' where
  keeps := h.keeps
  retains := h.retains
  occupies q hq := by
    rcases List.mem_cons.mp hq with rfl | hq
    · exact h.isOccupied hpath
    · exact h.occupies q hq
  enters q hq hfree := by
    rcases List.mem_cons.mp hq with rfl | hq
    · rw [hpath] at hfree
      cases hfree
    · exact h.enters q hq hfree
  takes q hq v hv hmap hfree := by
    rcases List.mem_cons.mp hq with rfl | hq
    · rw [hpath] at hfree
      cases hfree
    · exact h.takes q hq v hv hmap hfree
  origin p v hv hmap :=
    (h.origin p v hv hmap).imp_right fun ⟨hp, hs⟩ => ⟨List.mem_cons_of_mem _ hp, hs⟩

/-- The leaf at a free path is written. -/
theorem Absorbed.write {middle : Document} (h : Absorbed source paths middle d')
    (hvalue : source.get? path = some value) (hleaf : value.isLeaf = true)
    (hapart : ∀ q ∈ paths, q ≠ path → Apart q path)
    (hpath : d.isOccupied path = false) (hset : d.set path value = .ok middle) :
    Absorbed source (path :: paths) d d' where
  keeps p v hv hmap := h.keeps p v (get?_set_of_free hset (get?_eq_none_of_free hpath) hv hmap) hmap
  retains p hp :=
    h.retains p (isSome_get?_set_of_free hset (get?_eq_none_of_free hpath) hp)
  occupies q hq := by
    rcases List.mem_cons.mp hq with rfl | hq
    · refine h.isOccupied (isOccupied_iff.mpr (.inl ?_))
      rw [get?_set_self hset]
      rfl
    · exact h.occupies q hq
  enters q hq hfree := by
    by_cases heq : q = path
    · subst heq
      exact h.retains q (by rw [get?_set_self hset]; rfl)
    · have hq := (List.mem_cons.mp hq).resolve_left heq
      exact h.enters q hq ((isOccupied_set_of_apart hset (hapart q hq heq)).trans hfree)
  takes q hq v hv hmap hfree := by
    by_cases heq : q = path
    · subst heq
      rw [hvalue, Option.some.injEq] at hv
      subst hv
      exact h.keeps q value (get?_set_self hset) hmap
    · have hq := (List.mem_cons.mp hq).resolve_left heq
      exact h.takes q hq v hv hmap ((isOccupied_set_of_apart hset (hapart q hq heq)).trans hfree)
  origin p v hv hmap := by
    rcases h.origin p v hv hmap with hv | ⟨hp, hs⟩
    · rcases prefix_or_prefix_or_apart p path with hpre | ⟨rest, rfl⟩ | hapart
      · by_cases heq : p = path
        · subst heq
          rw [get?_set_self hset] at hv
          exact .inr ⟨List.mem_cons_self, hvalue.trans hv⟩
        · rw [isMap_of_get?_set hset hpre heq hv] at hmap
          cases hmap
      · rw [get?_set_append hset] at hv
        cases rest with
        | nil =>
            rw [get?_nil] at hv
            exact .inr ⟨by simp, by rw [List.append_nil, hvalue, hv]⟩
        | cons key rest =>
            rw [get?_cons_of_isLeaf hleaf] at hv
            cases hv
      · rw [get?_set_of_apart hset hapart] at hv
        exact .inl hv
    · exact .inr ⟨List.mem_cons_of_mem _ hp, hs⟩

/-- Induction over the leaves absorbed: each of them finds its path occupied or is written. -/
theorem absorbLeaves_induction {motive : List KeyPath → Document → Document → Prop}
    (nil : ∀ d, motive [] d d)
    (skip : ∀ path rest d d', d.isOccupied path = true → motive rest d d' →
      motive (path :: rest) d d')
    (write : ∀ path rest d middle d', d.isOccupied path = false →
      d.set path ((source.get? path).getD .null) = .ok middle → motive rest middle d' →
      motive (path :: rest) d d')
    (h : absorbLeaves source paths d = .ok (d', report)) : motive paths d d' := by
  induction paths generalizing d d' report with
  | nil => cases h; exact nil d
  | cons path rest ih =>
      rw [absorbLeaves] at h
      split at h
      · next hpath =>
          obtain ⟨⟨_, others⟩, hothers, h⟩ := Outcome.bind_eq_ok.mp h
          cases h
          exact skip path rest d d' hpath (ih hothers)
      · next hpath =>
          split at h
          · cases h
          · next middle hset =>
              obtain ⟨⟨_, others⟩, hothers, h⟩ := Outcome.bind_eq_ok.mp h
              cases h
              exact write path rest d middle d' (by simpa using hpath) hset (ih hothers)

theorem absorbed_of_absorbLeaves
    (hleaves : ∀ q ∈ paths, ∃ v, source.get? q = some v ∧ v.isLeaf = true)
    (h : absorbLeaves source paths d = .ok (d', report)) : Absorbed source paths d d' := by
  refine absorbLeaves_induction (motive := fun paths d d' =>
    (∀ q ∈ paths, ∃ v, source.get? q = some v ∧ v.isLeaf = true) → Absorbed source paths d d')
    ?nil ?skip ?write h hleaves
  case nil => exact fun d _ => absorbed_nil source d
  case skip =>
    intro path rest d d' hpath ih hleaves
    exact (ih (List.forall_mem_cons.mp hleaves).2).skip hpath
  case write =>
    intro path rest d middle d' hpath hset ih hleaves
    obtain ⟨⟨value, hvalue, hleaf⟩, hrest⟩ := List.forall_mem_cons.mp hleaves
    rw [hvalue, Option.getD_some] at hset
    refine (ih hrest).write hvalue hleaf (fun q hq hne => ?_) hpath hset
    obtain ⟨w, hw, hwleaf⟩ := hrest q hq
    exact apart_of_isLeaf hw hwleaf hvalue hleaf hne

/-- The spec of absorbing. -/
theorem absorbed_of_absorb (hs : source.Ordered) (h : d.absorb source = .ok (d', report)) :
    Absorbed source source.leafPaths d d' :=
  absorbed_of_absorbLeaves (fun _ hq => ((mem_leafPaths_iff hs).mp hq).2) h

/-- A mapping outlasts a write to a free path. -/
theorem exists_isMap_set_of_free (h : d.set path value = .ok d') (hfree : d.get? path = none)
    (hp : d.get? p = some v) (hv : v.isMap = true) :
    ∃ w, d'.get? p = some w ∧ w.isMap = true := by
  rcases prefix_or_prefix_or_apart p path with hpre | ⟨rest, rfl⟩ | hapart
  · by_cases heq : p = path
    · rw [heq, hfree] at hp
      cases hp
    · have hsome : (d'.get? p).isSome := isSome_get?_set_of_free h hfree (by rw [hp]; rfl)
      obtain ⟨w, hw⟩ := Option.isSome_iff_exists.mp hsome
      exact ⟨w, hw, isMap_of_get?_set h hpre heq hw⟩
  · rw [get?_append, hfree] at hp
    cases hp
  · rw [get?_set_of_apart h hapart]
    exact ⟨v, hp, hv⟩

/-- What is a mapping stays one. -/
theorem exists_isMap_of_absorbLeaves (h : absorbLeaves source paths d = .ok (d', report))
    (hp : d.get? p = some v) (hv : v.isMap = true) :
    ∃ w, d'.get? p = some w ∧ w.isMap = true := by
  refine absorbLeaves_induction (motive := fun _ d d' => ∀ v, d.get? p = some v → v.isMap = true →
    ∃ w, d'.get? p = some w ∧ w.isMap = true) ?nil ?skip ?write h v hp hv
  case nil => exact fun d v hp hv => ⟨v, hp, hv⟩
  case skip => exact fun _ _ _ _ _ ih => ih
  case write =>
    intro path rest d middle d' hfree hset ih v hp hv
    obtain ⟨w, hw, hmap⟩ := exists_isMap_set_of_free hset (get?_eq_none_of_free hfree) hp hv
    exact ih w hw hmap

theorem isMap_of_absorb (h : d.absorb source = .ok (d', report)) (hd : d.isMap = true) :
    d'.isMap = true := by
  obtain ⟨w, hw, hmap⟩ := exists_isMap_of_absorbLeaves h (get?_nil d) hd
  rw [get?_nil, Option.some.injEq] at hw
  rwa [hw]

/-- A path that comes into being exists in the source. -/
theorem isSome_of_absorbLeaves (hleaves : ∀ q ∈ paths, (source.get? q).isSome)
    (h : absorbLeaves source paths d = .ok (d', report)) (hp : (d'.get? p).isSome) :
    (d.get? p).isSome ∨ (source.get? p).isSome := by
  refine absorbLeaves_induction (motive := fun paths d d' =>
    (∀ q ∈ paths, (source.get? q).isSome) → (d'.get? p).isSome →
      (d.get? p).isSome ∨ (source.get? p).isSome) ?nil ?skip ?write h hleaves hp
  case nil => exact fun d _ hp => .inl hp
  case skip => exact fun _ _ _ _ _ ih hleaves => ih (List.forall_mem_cons.mp hleaves).2
  case write =>
    intro path rest d middle d' _ hset ih hleaves hp
    obtain ⟨hpath, hrest⟩ := List.forall_mem_cons.mp hleaves
    rcases ih hrest hp with hmiddle | hsource
    · rcases prefix_or_prefix_or_apart p path with hpre | ⟨below, rfl⟩ | hapart
      · exact .inr (isSome_get?_of_isPrefix hpath hpre)
      · obtain ⟨value, hvalue⟩ := Option.isSome_iff_exists.mp hpath
        rw [hvalue, Option.getD_some] at hset
        rw [get?_set_append hset] at hmiddle
        refine .inr ?_
        rw [get?_append, hvalue]
        exact hmiddle
      · rw [get?_set_of_apart hset hapart] at hmiddle
        exact .inl hmiddle
    · exact .inr hsource

/-- Absorbing leaves alone what is occupied. -/
theorem absorbLeaves_eq_self (h : ∀ q ∈ paths, d.isOccupied q = true) :
    ∃ report, absorbLeaves source paths d = .ok (d, report) := by
  induction paths with
  | nil => exact ⟨_, rfl⟩
  | cons path rest ih =>
      obtain ⟨hpath, hrest⟩ := List.forall_mem_cons.mp h
      obtain ⟨report, hreport⟩ := ih hrest
      rw [absorbLeaves, if_pos hpath, hreport]
      exact ⟨_, rfl⟩

/-- A value that is no mapping at an occupied path was there before. -/
theorem get?_of_isOccupied (hs : source.Ordered) (h : d.absorb source = .ok (d', report))
    (hp : d.isOccupied p = true) (hv : d'.get? p = some v) (hmap : v.isMap = false) :
    d.get? p = some v := by
  have habsorbed := absorbed_of_absorb hs h
  rcases isOccupied_iff.mp hp with hsome | ⟨r, u, ⟨rest, rfl⟩, hu, humap⟩
  · obtain ⟨u, hu⟩ := Option.isSome_iff_exists.mp hsome
    cases humap : u.isMap with
    | true =>
        obtain ⟨w, hw, hwmap⟩ := exists_isMap_of_absorbLeaves h hu humap
        rw [hw, Option.some.injEq] at hv
        rw [hv, hmap] at hwmap
        cases hwmap
    | false => rw [hu, ← habsorbed.keeps p u hu humap, hv]
  · have hkept : d'.get? r = some u := habsorbed.keeps r u hu humap
    cases rest with
    | nil =>
        rw [List.append_nil] at hv ⊢
        rw [hu, ← hkept, hv]
    | cons key rest =>
        rw [isMap_of_get?_append hkept (by rw [hv]; rfl)] at humap
        cases humap

/-- Absorbing at a place keeps every value of the whole document that is no mapping. -/
theorem Absorbed.get?_at {place place' : Document} (h : Absorbed source paths place place')
    (hplace : d.get? path = some place) (hset : d.set path place' = .ok d')
    (hv : d.get? p = some v) (hmap : v.isMap = false) : d'.get? p = some v := by
  rcases prefix_or_prefix_or_apart path p with ⟨rest, rfl⟩ | hpre | hapart
  · rw [get?_append, hplace, Option.bind_some] at hv
    rw [get?_set_append hset]
    exact h.keeps rest v hv hmap
  · by_cases heq : p = path
    · subst heq
      rw [hplace, Option.some.injEq] at hv
      subst hv
      rw [get?_set_self hset, ← h.keeps [] place (get?_nil place) hmap, get?_nil]
    · rw [isMap_of_set hset hpre heq hv] at hmap
      cases hmap
  · rw [get?_set_of_apart hset hapart.symm]
    exact hv

theorem Absorbed.isSome_at {place place' : Document} (h : Absorbed source paths place place')
    (hplace : d.get? path = some place) (hset : d.set path place' = .ok d')
    (hp : (d.get? p).isSome) : (d'.get? p).isSome := by
  rcases prefix_or_prefix_or_apart path p with ⟨rest, rfl⟩ | hpre | hapart
  · rw [get?_append, hplace, Option.bind_some] at hp
    rw [get?_set_append hset]
    exact h.retains rest hp
  · exact isSome_get?_of_isPrefix (by rw [get?_set_self hset]; rfl) hpre
  · rw [get?_set_of_apart hset hapart.symm]
    exact hp

/-- Leaves that are new in the whole document come from the source. -/
theorem Absorbed.origin_at {place place' : Document} (h : Absorbed source paths place place')
    (hplace : d.get? path = some place) (hset : d.set path place' = .ok d')
    (hv : d'.get? p = some v) (hmap : v.isMap = false) :
    d.get? p = some v ∨ ∃ q ∈ paths, p = path ++ q ∧ source.get? q = some v := by
  rcases prefix_or_prefix_or_apart path p with ⟨rest, rfl⟩ | hpre | hapart
  · rw [get?_set_append hset] at hv
    rcases h.origin rest v hv hmap with hold | ⟨hrest, hnew⟩
    · exact .inl (by rw [get?_append, hplace]; exact hold)
    · exact .inr ⟨rest, hrest, rfl, hnew⟩
  · by_cases heq : p = path
    · subst heq
      rw [get?_set_self hset, Option.some.injEq] at hv
      subst hv
      rcases h.origin [] place' (get?_nil place') hmap with hold | ⟨hrest, hnew⟩
      · exact .inl (by rw [hplace, ← hold, get?_nil])
      · exact .inr ⟨[], hrest, (List.append_nil p).symm, hnew⟩
    · rw [isMap_of_get?_set hset hpre heq hv] at hmap
      cases hmap
  · rw [get?_set_of_apart hset hapart.symm] at hv
    exact .inl hv

theorem Ordered.absorbLeaves (hd : d.Ordered) (hs : source.Ordered)
    (h : absorbLeaves source paths d = .ok (d', report)) : d'.Ordered := by
  refine absorbLeaves_induction (motive := fun _ d d' => d.Ordered → d'.Ordered)
    ?nil ?skip ?write h hd
  case nil => exact fun _ hd => hd
  case skip => exact fun _ _ _ _ _ ih => ih
  case write =>
    intro path rest d middle d' _ hset ih hd
    refine ih (hd.set ?_ hset)
    cases hv : source.get? path with
    | none => trivial
    | some v => exact hs.get? hv

end Document

end ExperimentSuite
