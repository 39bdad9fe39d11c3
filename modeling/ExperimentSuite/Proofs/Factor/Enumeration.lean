import ExperimentSuite.Proofs.Factor.Grid

/-!
# The grid as a mixed-radix count

The fragments of a grid are numbered like the numerals of a number system in
which every factor is one place and has as many digits as levels, the last
factor being the lowest place. The fragment of a number holds, at the path of
each factor, the level that its digit there names, and nothing else. How many
fragments there are does not depend on where the factors stand.
-/

namespace ExperimentSuite

namespace Document

open KeyPath

variable {d : Document} {q : KeyPath} {paths : List KeyPath}

/-- The leaves of a sparse document are those of the values at its paths. -/
theorem Sparse.mem_leafPaths_iff (h : Sparse paths d) (hproper : ∀ p ∈ paths, p ≠ []) :
    q ∈ d.leafPaths ↔
      ∃ p ∈ paths, ∃ v, d.get? p = some v ∧ ∃ r ∈ v.leafPathsBelow, q = p ++ r := by
  rw [Document.mem_leafPaths_iff h.ordered]
  constructor
  · rintro ⟨hne, leaf, hget, hleaf⟩
    have habove : ∃ p ∈ paths, p <+: q := by
      rcases h.noOther q leaf hget with hbelow | ⟨-, hroot | ⟨p, hp, r, hr⟩⟩
      · exact hbelow
      · exact absurd hroot hne
      · -- a leaf has nothing below it, so the path that it leads to is its own
        cases r with
        | nil => exact ⟨p, hp, by rw [← hr, List.append_nil]⟩
        | cons key r =>
            have hheld := h.holds p hp
            rw [← hr, get?_append, hget, Option.bind_some, get?_cons_of_isLeaf hleaf] at hheld
            cases hheld
    obtain ⟨p, hp, r, rfl⟩ := habove
    obtain ⟨v, hv⟩ := Option.isSome_iff_exists.mp (h.holds p hp)
    rw [get?_append, hv, Option.bind_some] at hget
    exact ⟨p, hp, v, hv, r, (mem_leafPathsBelow_iff (h.ordered.get? hv)).mpr ⟨leaf, hget, hleaf⟩,
      rfl⟩
  · rintro ⟨p, hp, v, hv, r, hr, rfl⟩
    obtain ⟨leaf, hget, hleaf⟩ := (mem_leafPathsBelow_iff (h.ordered.get? hv)).mp hr
    refine ⟨by simp [hproper p hp], leaf, ?_, hleaf⟩
    rw [get?_append, hv, Option.bind_some, hget]

end Document

namespace FactorGrid

open Document KeyPath

variable {factors : List CrossFactor} {factor : CrossFactor} {choice : Choice}
  {fragment : Document} {grid : List Document} {k i : Nat}

/-- The number of combinations of the levels of several factors. -/
def size (factors : List CrossFactor) : Nat :=
  (factors.map (·.levels.length)).prod

/-- The digit of a number at the place of a factor that stands before some lower places: the index
of one of its levels. -/
def digit (factor : CrossFactor) (lower : List CrossFactor) (k : Nat) : Nat :=
  k / size lower % factor.levels.length

theorem size_cons (factor : CrossFactor) (rest : List CrossFactor) :
    size (factor :: rest) = factor.levels.length * size rest := by
  rw [size, List.map_cons, List.prod_cons, size]

/-- The places from one factor on count a part of the whole. -/
theorem size_drop_dvd (h : factors[i]? = some factor) :
    size (factors.drop (i + 1)) * factor.levels.length ∣ size factors := by
  induction factors generalizing i with
  | nil => cases h
  | cons first rest ih =>
      rw [size_cons, List.drop_succ_cons]
      cases i with
      | zero =>
          cases h
          rw [List.drop_zero, Nat.mul_comm]
      | succ i => exact (ih h).mul_left _

/-- The digits after the first one are those of the remainder. -/
theorem digit_mod_size (h : factors[i]? = some factor) (k : Nat) :
    digit factor (factors.drop (i + 1)) (k % size factors) =
      digit factor (factors.drop (i + 1)) k := by
  obtain ⟨c, hc⟩ := size_drop_dvd h
  rw [digit, digit, hc, Nat.mul_assoc, Nat.mod_mul_right_div_self, Nat.mod_mul_right_mod]

/-- In blocks of one length an index falls apart into that of a block and that within it. -/
theorem getElem?_flatMap_of_length {α β : Type} {items : List α} {f : α → List β} {n : Nat}
    (h : ∀ a ∈ items, (f a).length = n) (k : Nat) :
    (items.flatMap f)[k]? = items[k / n]?.bind fun a => (f a)[k % n]? := by
  rcases Nat.eq_zero_or_pos n with rfl | hn
  · -- blocks without elements have none at any index
    have hnil : ∀ a ∈ items, f a = [] := fun a ha => List.eq_nil_of_length_eq_zero (h a ha)
    rw [List.flatMap_eq_nil_iff.mpr hnil, List.getElem?_nil]
    cases ha : items[k / 0]? with
    | none => rfl
    | some a => rw [Option.bind_some, hnil a (List.mem_of_getElem? ha), List.getElem?_nil]
  · induction items generalizing k with
    | nil => simp
    | cons a rest ih =>
        obtain ⟨ha, hrest⟩ := List.forall_mem_cons.mp h
        rw [List.flatMap_cons]
        rcases Nat.lt_or_ge k n with hlt | hge
        · rw [List.getElem?_append_left (ha ▸ hlt), Nat.div_eq_of_lt hlt, Nat.mod_eq_of_lt hlt]
          rfl
        · rw [List.getElem?_append_right (ha ▸ hge), ha, ih hrest, Nat.div_eq_sub_div hn hge,
            Nat.mod_eq_sub_mod hge, List.getElem?_cons_succ]

/-- Choices are numbered by what the first factor takes and by the number of the other choice. -/
theorem choices_cons_getElem? (factor : CrossFactor) (rest : List CrossFactor) (k : Nat) :
    (choices (factor :: rest))[k]? =
      factor.levels[k / size rest]?.bind fun level =>
        (choices rest)[k % size rest]?.map ((factor.path, level) :: ·) := by
  have hlength : ∀ level ∈ factor.levels,
      ((choices rest).map ((factor.path, level) :: ·)).length = size rest := by
    intro level _
    rw [List.length_map, length_choices, size]
  rw [choices, getElem?_flatMap_of_length hlength]
  simp only [List.getElem?_map]

/-- The choice of a number takes the level of the digit at each place. -/
theorem level_of_choices_getElem? (hc : (choices factors)[k]? = some choice)
    (hi : factors[i]? = some factor) :
    ∃ level, factor.levels[digit factor (factors.drop (i + 1)) k]? = some level ∧
      (factor.path, level) ∈ choice := by
  induction factors generalizing k i choice with
  | nil => cases hi
  | cons first rest ih =>
      rw [choices_cons_getElem?, Option.bind_eq_some_iff] at hc
      obtain ⟨level, hlevel, hc⟩ := hc
      obtain ⟨others, hothers, rfl⟩ := Option.map_eq_some_iff.mp hc
      cases i with
      | zero =>
          cases hi
          have hlt : k / size rest < factor.levels.length := (List.getElem?_eq_some_iff.mp hlevel).1
          refine ⟨level, ?_, List.mem_cons_self⟩
          rw [digit, List.drop_succ_cons, List.drop_zero, Nat.mod_eq_of_lt hlt, hlevel]
      | succ i =>
          have hi : rest[i]? = some factor := hi
          obtain ⟨found, hfound, hmem⟩ := ih hothers hi
          rw [digit_mod_size hi] at hfound
          exact ⟨found, hfound, List.mem_cons_of_mem _ hmem⟩

/-- However the factors stand, an extension that succeeds has one fragment per combination. -/
theorem length_of_extend (h : extend factors fragment = .ok grid) :
    grid.length = size factors := by
  induction factors generalizing fragment grid with
  | nil =>
      cases h
      rfl
  | cons factor rest ih =>
      rw [extend, Outcome.bind_eq_ok] at h
      obtain ⟨parts, hparts, h⟩ := h
      cases h
      have hblock : ∀ part ∈ parts, part.length = size rest := by
        intro part hpart
        obtain ⟨level, -, hlevel⟩ := Outcome.exists_of_mem_of_mapM hparts hpart
        split at hlevel
        · exact ih hlevel
        · cases hlevel
      have hcount : factor.levels.length = parts.length :=
        (Outcome.mapM_eq_ok_iff.mp hparts).length_eq
      rw [List.length_flatten, List.map_eq_replicate_iff.mpr hblock, List.sum_replicate,
        smul_eq_mul, size_cons, hcount]

/-- A fragment belongs to a number: it holds at the path of each factor the level that the digit
there names, and its leaves are those of these levels. -/
structure Numbered (factors : List CrossFactor) (k : Nat) (fragment : Document) : Prop where
  level : ∀ i factor, factors[i]? = some factor →
    ∃ level, factor.levels[digit factor (factors.drop (i + 1)) k]? = some level ∧
      fragment.get? factor.path = some level
  leaves : ∀ q, q ∈ fragment.leafPaths ↔
    ∃ factor ∈ factors, ∃ level, fragment.get? factor.path = some level ∧
      ∃ r ∈ level.leafPathsBelow, q = factor.path ++ r

/-- The fragment that a choice is written into belongs to the number of the choice. -/
theorem numbered_assign (h : Separate [] factors) (hc : (choices factors)[k]? = some choice) :
    Numbered factors k (assign .empty choice) := by
  obtain ⟨hsparse, -, hlevels⟩ := sparse_assign h sparse_empty (List.mem_of_getElem? hc)
  constructor
  · intro i factor hi
    obtain ⟨level, hlevel, hmem⟩ := level_of_choices_getElem? hc hi
    exact ⟨level, hlevel, hlevels _ hmem⟩
  · intro q
    rw [hsparse.mem_leafPaths_iff (by simpa using h.proper)]
    simp

/-- The grid counts in mixed radix: of factors that stand apart it has as many fragments as there
are combinations, and the fragment of a number belongs to that number. The count of fragments is
the same wherever the factors stand, as long as the grid can be built. -/
theorem fragments_numbered (hapart : (factors.map (·.path)).Pairwise Apart)
    (hproper : ∀ factor ∈ factors, factor.path ≠ [])
    (hordered : ∀ factor ∈ factors, ∀ level ∈ factor.levels, level.Ordered) :
    (∃ grid, fragments factors = .ok grid ∧ grid.length = size factors ∧
      (∀ k fragment, grid[k]? = some fragment → Numbered factors k fragment) ∧
      (factors = [] → grid = [.empty]) ∧
      ∀ factor ∈ factors, factor.levels = [] → grid = []) ∧
    ∀ others grid, fragments others = .ok grid → grid.length = size others := by
  have hseparate : Separate [] factors := ⟨hapart, by simp, hproper, hordered⟩
  have hlength : ∀ others grid, fragments others = .ok grid → grid.length = size others :=
    fun others grid => length_of_extend
  have hgrid := fragments_eq_ok hseparate
  refine ⟨⟨_, hgrid, hlength factors _ hgrid, ?_, ?_, ?_⟩, hlength⟩
  · intro k fragment hk
    rw [List.getElem?_map, Option.map_eq_some_iff] at hk
    obtain ⟨choice, hc, rfl⟩ := hk
    exact numbered_assign hseparate hc
  · rintro rfl
    rfl
  · intro factor hf hnone
    obtain ⟨i, hi⟩ := List.getElem?_of_mem hf
    have hdvd := size_drop_dvd hi
    rw [hnone, List.length_nil, Nat.mul_zero] at hdvd
    apply List.eq_nil_of_length_eq_zero
    exact (hlength factors _ hgrid).trans (Nat.eq_zero_of_zero_dvd hdvd)

/-- Two factors below one key, one of them with a mapping among its levels, and one beside it. -/
def threePlaces : List CrossFactor :=
  [⟨["net", "mode"], [.str "fast", .map [("kind", .str "slow")]]⟩,
    ⟨["net", "rate"], [.int 1, .int 2, .int 3]⟩, ⟨["seed"], [.int 7, .empty]⟩]

/-- The eighth of its twelve fragments. -/
def eighthFragment : Document :=
  .map [("net", .map [("mode", .map [("kind", .str "slow")]), ("rate", .int 1)]), ("seed", .empty)]

theorem numbered_eighthFragment :
    ((threePlaces.map (·.path)).Pairwise Apart ∧ (∀ factor ∈ threePlaces, factor.path ≠ []) ∧
      ∀ factor ∈ threePlaces, ∀ level ∈ factor.levels, level.Ordered) ∧
    (∃ grid, fragments threePlaces = .ok grid ∧ grid.length = 12 ∧
      grid[7]? = some eighthFragment) ∧
    Numbered threePlaces 7 eighthFragment ∧
    eighthFragment.leafPaths = [["net", "mode", "kind"], ["net", "rate"], ["seed"]] := by
  have hapart : (threePlaces.map (·.path)).Pairwise Apart := by
    simp [threePlaces, Apart]
  have hproper : ∀ factor ∈ threePlaces, factor.path ≠ [] := by simp [threePlaces]
  have hordered : ∀ factor ∈ threePlaces, ∀ level ∈ factor.levels, level.Ordered := by
    decide
  obtain ⟨⟨grid, hgrid, hlength, hnumbered, -⟩, -⟩ :=
    fragments_numbered hapart hproper hordered
  have heighth : grid[7]? = some eighthFragment := by
    cases hgrid
    rfl
  exact ⟨⟨hapart, hproper, hordered⟩, ⟨grid, hgrid, hlength, heighth⟩, hnumbered 7 _ heighth, rfl⟩

end FactorGrid

end ExperimentSuite
