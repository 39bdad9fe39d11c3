import ExperimentSuite.Document.Merge
import ExperimentSuite.Proofs.Document.Leaves

/-!
# Merging a sparse document

A merge shows the overlay wherever that occupies a path and the base elsewhere.
A document is sparse over a list of paths when it is a mapping that holds a
value at each of them and nothing beside them. Laying it over a document that
has a leaf at each of the paths replaces those leaves and touches nothing
else; the outcome is a graft, which replaces values at places by recursion on
the document and knows nothing of merging.
-/

namespace ExperimentSuite

namespace Document

open KeyPath

variable {d sparse v : Document} {key : String} {p q path : KeyPath} {paths : List KeyPath}
  {fields overlay : List (String × Document)}

/-- A merge of fields looks up in both lists and merges what is found twice. -/
theorem find?_mergeFields (hs : Keyed.Sorted overlay) (key : String) :
    Keyed.find? key (mergeFields fields overlay) =
      match Keyed.find? key fields, Keyed.find? key overlay with
      | some old, some value => some (old.merge value)
      | none, some value => some value
      | old, none => old := by
  induction overlay generalizing fields with
  | nil =>
      rw [mergeFields, Keyed.find?_nil]
      cases Keyed.find? key fields <;> rfl
  | cons e rest ih =>
      obtain ⟨k, value⟩ := e
      obtain ⟨hlt, hrest⟩ := Keyed.sorted_cons.mp hs
      rw [mergeFields, ih hrest, Keyed.find?_insert]
      simp only [Keyed.find?]
      by_cases hk : k = key
      · -- the head key stands nowhere in the rest, which leaves its merged value alone
        subst hk
        have hnone : Keyed.find? k rest = none :=
          Keyed.find?_eq_none_iff.mpr fun e' he' => (hlt e' he').ne'
        rw [if_pos rfl, if_pos rfl, hnone]
        cases Keyed.find? k fields <;> rfl
      · rw [if_neg hk, if_neg hk]

theorem Ordered.merge {base : Document} (hd : base.Ordered) (ho : d.Ordered) :
    (base.merge d).Ordered := by
  induction d using memberInduction generalizing base with
  | map overlay ih =>
      cases base with
      | map fields =>
          rw [Document.merge]
          have hvalues := (ordered_map_iff.mp ho).2
          clear ho
          induction overlay generalizing fields with
          | nil => exact hd
          | cons e rest ihrest =>
              obtain ⟨ihe, ih⟩ := List.forall_mem_cons.mp ih
              obtain ⟨he, hvalues⟩ := List.forall_mem_cons.mp hvalues
              rw [mergeFields]
              refine ihrest ih _ (hd.insert ?_) hvalues
              cases hf : Keyed.find? e.1 fields with
              | none => exact he
              | some old => exact ihe (hd.find? hf) he
      | _ => exact ho
  | _ => cases base <;> exact ho

theorem merge_of_not_isMap (h : d.isMap = false) : d.merge v = v := by
  cases d with
  | map fields => cases h
  | _ => simp [merge]

theorem merge_eq_right (h : v.isMap = false) : d.merge v = v := by
  cases v with
  | map overlay => cases h
  | _ => cases d <;> rfl

/-- A merge is a mapping exactly if the overlay is. -/
theorem isMap_merge : (d.merge v).isMap = v.isMap := by
  cases hv : v.isMap with
  | false => rw [merge_eq_right hv, hv]
  | true =>
      obtain ⟨overlay, rfl⟩ := isMap_iff.mp hv
      cases d <;> rfl

/-- At a place of the overlay a merge has the value there, laid over what the base has. -/
theorem get?_merge_of_get? {base : Document} (ho : d.Ordered) (h : d.get? p = some v) :
    (base.merge d).get? p = some (((base.get? p).map (·.merge v)).getD v) := by
  induction p generalizing base d with
  | nil =>
      rw [get?_nil, Option.some.injEq] at h
      simp [h]
  | cons key rest ih =>
      obtain ⟨overlay, rfl⟩ := isMap_iff.mp (isMap_of_get?_cons h)
      rw [get?_map_cons, Option.bind_eq_some_iff] at h
      obtain ⟨child, hchild, h⟩ := h
      cases base with
      | map fields =>
          rw [merge, get?_map_cons, get?_map_cons, find?_mergeFields ho.sorted, hchild]
          cases hf : Keyed.find? key fields with
          | none => simp [h]
          | some old => simpa using ih (ho.find? hchild) h
      | _ =>
          rw [merge_of_not_isMap rfl, get?_map_cons, hchild]
          exact h

/-- Where the overlay leaves a path free, a merge shows the base. -/
theorem get?_merge_of_free {base : Document} (ho : d.Ordered) (h : d.isOccupied p = false) :
    (base.merge d).get? p = base.get? p := by
  induction p generalizing base d with
  | nil => rw [isOccupied] at h; cases h
  | cons key rest ih =>
      cases d with
      | map overlay =>
          have hnone : (Document.map overlay).get? (key :: rest) = none := get?_eq_none_of_free h
          cases base with
          | map fields =>
              rw [merge, get?_map_cons, get?_map_cons, find?_mergeFields ho.sorted]
              rw [get?_map_cons] at hnone
              rw [isOccupied] at h
              cases hchild : Keyed.find? key overlay with
              | none => cases Keyed.find? key fields <;> rfl
              | some child =>
                  rw [hchild] at hnone h
                  cases hf : Keyed.find? key fields with
                  | none => exact hnone
                  | some old => exact ih (ho.find? hchild) h
          | _ => rw [merge_of_not_isMap rfl, hnone]; rfl
      | _ => rw [isOccupied] at h; cases h; simp

mutual

/-- The document with other values at some of its places. -/
def graft (values : KeyPath → Option Document) (path : KeyPath) : Document → Document
  | .map fields => (values path).getD (.map (graftFields values path fields))
  | d => (values path).getD d

/-- The fields with other values at some of the places below them. -/
def graftFields (values : KeyPath → Option Document) (path : KeyPath) :
    List (String × Document) → List (String × Document)
  | [] => []
  | (key, d) :: rest => (key, graft values (path ++ [key]) d) :: graftFields values path rest

end

section Graft

variable {values : KeyPath → Option Document}

theorem graft_of_some (h : values path = some v) : graft values path d = v := by
  cases d <;> simp [graft, h]

theorem graft_map (h : values path = none) :
    graft values path (.map fields) = .map (graftFields values path fields) := by
  rw [graft, h, Option.getD_none]

theorem graft_of_not_isMap (h : values path = none) (hd : d.isMap = false) :
    graft values path d = d := by
  cases d with
  | map fields => cases hd
  | _ => simp only [graft, h, Option.getD_none]

theorem graftFields_eq_map :
    graftFields values path fields =
      fields.map fun e => (e.1, graft values (path ++ [e.1]) e.2) := by
  induction fields with
  | nil => rfl
  | cons e rest ih => rw [graftFields, ih, List.map_cons]

theorem sorted_graftFields (hs : Keyed.Sorted fields) :
    Keyed.Sorted (graftFields values path fields) := by
  rw [graftFields_eq_map]
  exact List.pairwise_map.mpr hs

theorem find?_graftFields (key : String) :
    Keyed.find? key (graftFields values path fields) =
      (Keyed.find? key fields).map (graft values (path ++ [key])) := by
  induction fields with
  | nil => rfl
  | cons e rest ih =>
      simp only [graftFields, Keyed.find?]
      split
      · next heq => subst heq; rfl
      · exact ih

/-- A graft without values at or below a place changes nothing there. -/
theorem graft_eq_self (h : ∀ p, values (path ++ p) = none) : graft values path d = d := by
  induction d using memberInduction generalizing path with
  | map fields ih =>
      rw [graft_map (by simpa using h []), graftFields_eq_map]
      congr 1
      calc
        fields.map (fun e => (e.1, graft values (path ++ [e.1]) e.2)) = fields.map id := by
          apply List.map_congr_left
          intro e he
          have hbelow : ∀ p, values (path ++ [e.1] ++ p) = none := by
            intro p
            rw [List.append_assoc]
            exact h _
          rw [ih e he hbelow, id]
        _ = fields := List.map_id fields
  | _ => exact graft_of_not_isMap (by simpa using h []) rfl

/-- Reading through a graft that has no value strictly above the place read. -/
theorem get?_graft (h : ∀ p, p <+: q → p ≠ q → values (path ++ p) = none) :
    (graft values path d).get? q = (d.get? q).map (graft values (path ++ q)) := by
  induction q generalizing path d with
  | nil => simp
  | cons key q ih =>
      have hpath : values path = none := by simpa using h [] List.nil_prefix (by simp)
      cases d with
      | map fields =>
          rw [graft_map hpath, get?_map_cons, get?_map_cons, find?_graftFields]
          cases hf : Keyed.find? key fields with
          | none => rfl
          | some child =>
              have hbelow : ∀ p, p <+: q → p ≠ q → values (path ++ [key] ++ p) = none := by
                intro p hp hne
                rw [List.append_assoc]
                exact h (key :: p) (by simpa using hp) (by simpa using hne)
              simpa using ih hbelow
      | _ =>
          rw [graft_of_not_isMap hpath rfl]
          rfl

end Graft

/-- A mapping that holds a value at each of the paths and nothing beside them. -/
structure Sparse (paths : List KeyPath) (d : Document) : Prop where
  isMap : d.isMap = true
  ordered : d.Ordered
  holds : ∀ q ∈ paths, (d.get? q).isSome
  noOther : ∀ p v, d.get? p = some v →
    (∃ q ∈ paths, q <+: p) ∨ (v.isMap = true ∧ (p = [] ∨ ∃ q ∈ paths, p <+: q))

theorem sparse_empty : Sparse [] empty where
  isMap := rfl
  ordered := ordered_empty
  holds := by simp
  noOther p v h := by
    cases p with
    | nil => cases h; exact .inr ⟨rfl, .inl rfl⟩
    | cons _ _ => cases h

theorem Sparse.congr {others : List KeyPath} (h : Sparse paths sparse)
    (heq : ∀ q, q ∈ paths ↔ q ∈ others) : Sparse others sparse where
  isMap := h.isMap
  ordered := h.ordered
  holds q hq := h.holds q ((heq q).mpr hq)
  noOther p w hw := by
    simpa only [heq] using h.noOther p w hw

/-- One more path, apart from the others, can always be written. -/
theorem Sparse.exists_set (h : Sparse paths sparse) (hp : ∀ q ∈ paths, Apart q path) :
    ∃ d, sparse.set path v = .ok d := by
  apply Document.exists_set
  intro p w hpre hneq hw
  rcases h.noOther p w hw with ⟨q, hq, hqp⟩ | ⟨hmap, _⟩
  · exact absurd (hqp.trans hpre) (hp q hq).1
  · exact hmap

theorem Sparse.set (h : Sparse paths sparse) (hv : v.Ordered) (hp : ∀ q ∈ paths, Apart q path)
    (hne : path ≠ []) (hset : sparse.set path v = .ok d) : Sparse (path :: paths) d where
  isMap := by
    cases path with
    | nil => exact absurd rfl hne
    | cons key rest => exact isMap_of_get?_cons (get?_set_self hset)
  ordered := h.ordered.set hv hset
  holds q hq := by
    rcases List.mem_cons.mp hq with rfl | hq
    · rw [get?_set_self hset]; rfl
    · rw [get?_set_of_apart hset (hp q hq)]; exact h.holds q hq
  noOther p w hw := by
    rcases prefix_or_prefix_or_apart path p with hpre | hpre | hapart
    · exact .inl ⟨path, by simp, hpre⟩
    · by_cases heq : p = path
      · exact .inl ⟨path, by simp, heq ▸ List.prefix_rfl⟩
      · exact .inr ⟨isMap_of_get?_set hset hpre heq hw, .inr ⟨path, by simp, hpre⟩⟩
    · rw [get?_set_of_apart hset hapart.symm] at hw
      rcases h.noOther p w hw with ⟨q, hq, hqp⟩ | ⟨hmap, hroot | ⟨q, hq, hpq⟩⟩
      · exact .inl ⟨q, List.mem_cons_of_mem _ hq, hqp⟩
      · exact .inr ⟨hmap, .inl hroot⟩
      · exact .inr ⟨hmap, .inr ⟨q, List.mem_cons_of_mem _ hq, hpq⟩⟩

/-- What a document holds at the given paths. -/
def heldAt (paths : List KeyPath) (d : Document) (p : KeyPath) : Option Document :=
  if paths.contains p then d.get? p else none

theorem heldAt_of_mem (h : p ∈ paths) : heldAt paths d p = d.get? p :=
  if_pos (List.contains_iff_mem.mpr h)

theorem heldAt_of_not_mem (h : p ∉ paths) : heldAt paths d p = none :=
  if_neg (List.contains_iff_mem.not.mpr h)

/-- The outcome of a merge at one place: the value there meets what the overlay has there, if
anything. -/
def mergeAt (d : Document) : Option Document → Document
  | some overlay => d.merge overlay
  | none => d

/-- Off its paths a sparse document has only mappings on the way to them. -/
theorem Sparse.isMap_of_get? (hs : Sparse paths sparse) (hmem : path ∉ paths)
    (habove : ∀ q ∈ paths, q <+: path → q = path) (hv : sparse.get? path = some v) :
    v.isMap = true ∧ (path = [] ∨ ∃ q ∈ paths, path <+: q) := by
  rcases hs.noOther path v hv with ⟨q, hq, hqp⟩ | h
  · exact absurd (habove q hq hqp ▸ hq) hmem
  · exact h

/-- At one of its paths a sparse document replaces a leaf. -/
theorem mergeAt_of_mem (hs : Sparse paths sparse) (hmem : path ∈ paths) (hd : d.isMap = false) :
    mergeAt d (sparse.get? path) = graft (heldAt paths sparse) path d := by
  obtain ⟨v, hv⟩ := Option.isSome_iff_exists.mp (hs.holds path hmem)
  rw [hv, graft_of_some ((heldAt_of_mem hmem).trans hv)]
  exact merge_of_not_isMap hd

/-- Below a place that is none of the paths, no path stands strictly above a field either. -/
theorem eq_of_isPrefix_concat {key : String} {q : KeyPath} (hmem : path ∉ paths)
    (habove : ∀ q ∈ paths, q <+: path → q = path) (hq : q ∈ paths) (hpre : q <+: path ++ [key]) :
    q = path ++ [key] := by
  rcases List.prefix_concat_iff.mp hpre with heq | hpre
  · exact heq
  · exact absurd (habove q hq hpre ▸ hq) hmem

/-- A sparse document replaces a leaf that is at one of its paths and leaves any other one. -/
theorem mergeAt_sparse_of_not_isMap (hs : Sparse paths sparse) (hmap : d.isMap = false)
    (hroot : path ≠ []) (habove : ∀ q ∈ paths, q <+: path → q = path)
    (hleaf : ∀ q, path ++ q ∈ paths → ∃ leaf, d.get? q = some leaf ∧ leaf.isMap = false) :
    mergeAt d (sparse.get? path) = graft (heldAt paths sparse) path d := by
  by_cases hmem : path ∈ paths
  · exact mergeAt_of_mem hs hmem hmap
  · rw [graft_of_not_isMap (heldAt_of_not_mem hmem) hmap]
    cases hf : sparse.get? path with
    | none => rfl
    | some f =>
        rcases (hs.isMap_of_get? hmem habove hf).2 with hnil | ⟨q, hq, r, rfl⟩
        · exact absurd hnil hroot
        · obtain ⟨leaf, hget, -⟩ := hleaf r hq
          cases r with
          | nil => exact absurd (by simpa using hq) hmem
          | cons _ _ =>
              rw [get?_cons_of_isLeaf (isLeaf_of_not_isMap hmap)] at hget
              cases hget

/-- A key that the document lacks below a place leads to none of the paths, so a sparse document
lacks it there as well. -/
theorem Sparse.find?_eq_none {key : String} {fields overlay : List (String × Document)}
    (hs : Sparse paths sparse) (hf : sparse.get? path = some (.map overlay)) (hmem : path ∉ paths)
    (habove : ∀ q ∈ paths, q <+: path → q = path)
    (hleaf : ∀ q, path ++ q ∈ paths →
      ∃ leaf, (map fields).get? q = some leaf ∧ leaf.isMap = false)
    (hkey : Keyed.find? key fields = none) : Keyed.find? key overlay = none := by
  have hnone : ∀ r, path ++ key :: r ∉ paths := by
    intro r hr
    obtain ⟨leaf, hget, -⟩ := hleaf (key :: r) hr
    rw [get?_map_cons, hkey] at hget
    cases hget
  cases ho : Keyed.find? key overlay with
  | none => rfl
  | some w =>
      have hw : sparse.get? (path ++ [key]) = some w := (get?_concat hf).trans ho
      rcases hs.noOther _ w hw with ⟨q, hq, hqp⟩ | ⟨-, hnil | ⟨q, hq, r, rfl⟩⟩
      · exact absurd (eq_of_isPrefix_concat hmem habove hq hqp ▸ hq) (hnone [])
      · simp at hnil
      · exact absurd (by simpa using hq) (hnone r)

/-- Laying a sparse document over the part of a document at a place grafts what the sparse
document holds. The induction is on that part; none of the paths lies strictly above it. -/
theorem mergeAt_sparse (hs : Sparse paths sparse) (hd : d.Ordered)
    (hroot : path ≠ [] ∨ d.isMap = true) (habove : ∀ q ∈ paths, q <+: path → q = path)
    (hleaf : ∀ q, path ++ q ∈ paths → ∃ leaf, d.get? q = some leaf ∧ leaf.isMap = false) :
    mergeAt d (sparse.get? path) = graft (heldAt paths sparse) path d := by
  induction d using memberInduction generalizing path with
  | map fields ih =>
      have hmem : path ∉ paths := by
        intro hmem
        obtain ⟨leaf, hget, hnot⟩ := hleaf [] (by simpa using hmem)
        cases hget
        cases hnot
      cases hf : sparse.get? path with
      | none =>
          refine (graft_eq_self fun p => heldAt_of_not_mem fun hp => ?_).symm
          have hsome := isSome_get?_of_isPrefix (hs.holds _ hp) (List.prefix_append path p)
          rw [hf] at hsome
          cases hsome
      | some f =>
          obtain ⟨overlay, rfl⟩ := isMap_iff.mp (hs.isMap_of_get? hmem habove hf).1
          have hov := (hs.ordered.get? hf).sorted
          have hsorted : Keyed.Sorted (mergeFields fields overlay) :=
            (hd.merge (hs.ordered.get? hf)).sorted
          rw [graft_map (heldAt_of_not_mem hmem)]
          change Document.map (mergeFields fields overlay) = _
          congr 1
          apply Keyed.ext hsorted (sorted_graftFields hd.sorted)
          intro key
          rw [find?_mergeFields hov, find?_graftFields]
          cases hk : Keyed.find? key fields with
          | none => rw [hs.find?_eq_none hf hmem habove hleaf hk]; rfl
          | some child =>
              have hleaf' : ∀ q, path ++ [key] ++ q ∈ paths →
                  ∃ leaf, child.get? q = some leaf ∧ leaf.isMap = false := by
                intro q hq
                obtain ⟨leaf, hget, hnot⟩ := hleaf (key :: q) (by simpa using hq)
                rw [get?_map_cons, hk] at hget
                exact ⟨leaf, hget, hnot⟩
              have ihchild := ih _ (Keyed.mem_of_find? hk) (hd.find? hk) (.inl (by simp))
                (fun _ => eq_of_isPrefix_concat hmem habove) hleaf'
              rw [get?_concat hf] at ihchild
              rw [Option.map_some, ← ihchild]
              cases Keyed.find? key overlay <;> rfl
  | _ => exact mergeAt_sparse_of_not_isMap hs rfl (by simpa [isMap] using hroot) habove hleaf

/-- A sparse document laid over one that has a leaf at each of its paths replaces those leaves. -/
theorem merge_sparse (hs : Sparse paths sparse) (hd : d.Ordered) (hmap : d.isMap = true)
    (hleaf : ∀ q ∈ paths, ∃ leaf, d.get? q = some leaf ∧ leaf.isMap = false) :
    d.merge sparse = graft (heldAt paths sparse) [] d := by
  have habove : ∀ q ∈ paths, q <+: [] → q = [] := fun q _ hq => List.prefix_nil.mp hq
  have h := mergeAt_sparse hs hd (.inr hmap) habove hleaf
  rwa [get?_nil] at h

end Document

end ExperimentSuite
