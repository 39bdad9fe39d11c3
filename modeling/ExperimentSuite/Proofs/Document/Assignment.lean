import ExperimentSuite.Proofs.Document.Merge

/-!
# Assignments

Setting a value at each of several paths that stand apart never fails, and the
order does not matter: what comes out holds these values and nothing else, and
that determines it.
-/

namespace ExperimentSuite

namespace Document

open KeyPath

variable {value : KeyPath → Document} {d d' v : Document} {path p : KeyPath}
  {paths others order : List KeyPath}

/-- Sets a value at each of several paths, one after the other. -/
def setAll (value : KeyPath → Document) (d : Document) (paths : List KeyPath) :
    Except Blocked Document :=
  paths.foldlM (fun d p => d.set p (value p)) d

/-- A document holds given values at several paths and nothing else. -/
structure Assigned (value : KeyPath → Document) (paths : List KeyPath) (d : Document) : Prop where
  sparse : Sparse paths d
  get? : ∀ p ∈ paths, d.get? p = some (value p)

theorem assigned_empty (value : KeyPath → Document) : Assigned value [] .empty :=
  ⟨sparse_empty, by simp⟩

theorem Assigned.congr (h : Assigned value paths d) (heq : ∀ q, q ∈ paths ↔ q ∈ others) :
    Assigned value others d :=
  ⟨h.sparse.congr heq, fun p hp => h.get? p ((heq p).mpr hp)⟩

/-- One more value can be set at a path apart from the others. -/
theorem Assigned.set (h : Assigned value paths d) (hv : (value path).Ordered) (hne : path ≠ [])
    (hapart : ∀ q ∈ paths, Apart q path) :
    ∃ d', d.set path (value path) = .ok d' ∧ Assigned value (path :: paths) d' := by
  obtain ⟨d', hset⟩ := h.sparse.exists_set (v := value path) hapart
  refine ⟨d', hset, h.sparse.set hv hapart hne hset, ?_⟩
  refine List.forall_mem_cons.mpr ⟨get?_set_self hset, fun q hq => ?_⟩
  rw [get?_set_of_apart hset (hapart q hq), h.get? q hq]

theorem Assigned.setAll (h : Assigned value paths d) (hv : ∀ p ∈ order, (value p).Ordered)
    (hne : ∀ p ∈ order, p ≠ []) (hapart : (order ++ paths).Pairwise Apart) :
    ∃ d', d.setAll value order = .ok d' ∧ Assigned value (order ++ paths) d' := by
  induction order generalizing d paths with
  | nil => exact ⟨d, rfl, h⟩
  | cons path rest ih =>
      obtain ⟨hvpath, hvrest⟩ := List.forall_mem_cons.mp hv
      obtain ⟨hnepath, hnerest⟩ := List.forall_mem_cons.mp hne
      have hpath : ∀ q ∈ paths, Apart q path := fun q hq =>
        ((List.pairwise_cons.mp hapart).1 q (List.mem_append_right _ hq)).symm
      have hmoved : (rest ++ path :: paths).Pairwise Apart :=
        (List.perm_middle.pairwise_iff Apart.symm).mpr hapart
      obtain ⟨next, hset, hnext⟩ := h.set hvpath hnepath hpath
      obtain ⟨d', hall, hd'⟩ := ih hnext hvrest hnerest hmoved
      refine ⟨d', Outcome.foldlM_cons_eq_ok.mpr ⟨next, hset, hall⟩, hd'.congr fun q => ?_⟩
      exact List.perm_middle.mem_iff

/-- What one assignment holds, another one of the same values holds too, up to what is below a
mapping on the way to a path. -/
theorem Assigned.get?_or (h : Assigned value paths d) (h' : Assigned value paths d')
    (hv : d.get? p = some v) : d'.get? p = some v ∨ (v.isMap = true ∧ (d'.get? p).isSome) := by
  rcases h.sparse.noOther p v hv with ⟨q, hq, rest, rfl⟩ | ⟨hmap, rfl | ⟨q, hq, hpre⟩⟩
  · rw [get?_append, h.get? q hq] at hv
    rw [get?_append, h'.get? q hq]
    exact .inl hv
  · exact .inr ⟨hmap, by simp⟩
  · exact .inr ⟨hmap, isSome_get?_of_isPrefix (h'.sparse.holds q hq) hpre⟩

/-- The values and their paths determine an assignment. -/
theorem Assigned.unique (h : Assigned value paths d) (h' : Assigned value paths d') : d = d' := by
  have hsome : ∀ {d d' : Document}, Assigned value paths d → Assigned value paths d' →
      ∀ p, (d.get? p).isSome → (d'.get? p).isSome := by
    intro d d' h h' p hp
    obtain ⟨v, hv⟩ := Option.isSome_iff_exists.mp hp
    rcases h.get?_or h' hv with hv' | ⟨-, hv'⟩
    · rw [hv']
      rfl
    · exact hv'
  have hvalue : ∀ {d d' : Document}, Assigned value paths d → Assigned value paths d' →
      ∀ p v, v.isMap = false → d.get? p = some v → d'.get? p = some v := by
    intro d d' h h' p v hmap hv
    refine (h.get?_or h' hv).resolve_right ?_
    rintro ⟨htrue, -⟩
    rw [hmap] at htrue
    cases htrue
  exact ext_get? h.sparse.ordered h'.sparse.ordered (fun p => ⟨hsome h h' p, hsome h' h p⟩)
    fun p v hmap => ⟨hvalue h h' p v hmap, hvalue h' h p v hmap⟩

/-- Setting the values of a document from the empty mapping on, in any order, comes to that document
again. -/
theorem Assigned.setAll_empty (h : Assigned value paths d) (hne : ∀ p ∈ paths, p ≠ [])
    (hapart : paths.Pairwise Apart) (hperm : order.Perm paths) :
    empty.setAll value order = .ok d := by
  have hv : ∀ p ∈ order, (value p).Ordered :=
    fun p hp => h.sparse.ordered.get? (h.get? p (hperm.mem_iff.mp hp))
  have horder : (order ++ []).Pairwise Apart := by
    rw [List.append_nil]
    exact (hperm.pairwise_iff Apart.symm).mpr hapart
  obtain ⟨d', hset, hd'⟩ :=
    (assigned_empty value).setAll hv (fun p hp => hne p (hperm.mem_iff.mp hp)) horder
  rw [List.append_nil] at hd'
  rw [hset, (hd'.congr fun q => hperm.mem_iff).unique h]

end Document

end ExperimentSuite
