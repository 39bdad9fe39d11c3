import ExperimentSuite.Factor.Expansion
import ExperimentSuite.Proofs.Document.Merge
import Mathlib.Algebra.BigOperators.Group.List.Basic
import Mathlib.Algebra.Group.Action.Defs

/-!
# The grid as a list of choices

A choice names one level for every crossed factor. The choices of a list of
factors are enumerated directly, the last factor varying fastest, and the grid
is that list with every choice written into the empty mapping: no write fails,
as the factors stand apart, and the fragment of a choice holds exactly the
chosen levels.
-/

namespace ExperimentSuite

/-- One level for each of several factors, under the paths of the factors. -/
abbrev Choice := List (KeyPath × Document)

namespace FactorGrid

open Document KeyPath

variable {factors : List CrossFactor} {choice : Choice} {fragment : Document}
  {paths : List KeyPath} {p : KeyPath} {v : Document}

/-- The choices of one level per factor, those of the last factor varying fastest. -/
def choices : List CrossFactor → List Choice
  | [] => [[]]
  | factor :: rest =>
      factor.levels.flatMap fun level => (choices rest).map ((factor.path, level) :: ·)

/-- A fragment with the levels of a choice written into it, one after the other. -/
def assign (fragment : Document) : Choice → Document
  | [] => fragment
  | (path, level) :: rest => assign ((fragment.set path level).toOption.getD fragment) rest

theorem length_choices (factors : List CrossFactor) :
    (choices factors).length = (factors.map (·.levels.length)).prod := by
  induction factors with
  | nil => rfl
  | cons factor rest ih =>
      simp only [choices, List.length_flatMap, List.length_map, ih, List.map_cons, List.prod_cons]
      rw [List.map_const', List.sum_replicate, smul_eq_mul]

/-- A choice takes its levels from the factors, in their order. -/
theorem mem_choices :
    choice ∈ choices factors ↔
      List.Forall₂ (fun a f => a.1 = f.path ∧ a.2 ∈ f.levels) choice factors := by
  induction factors generalizing choice with
  | nil => simp [choices]
  | cons factor rest ih =>
      rw [List.forall₂_cons_right_iff]
      simp only [choices, List.mem_flatMap, List.mem_map]
      constructor
      · rintro ⟨level, hl, others, ho, rfl⟩
        exact ⟨_, others, ⟨rfl, hl⟩, ih.mp ho, rfl⟩
      · rintro ⟨⟨path, level⟩, others, ⟨rfl, hl⟩, ho, rfl⟩
        exact ⟨level, hl, others, ih.mpr ho, rfl⟩

theorem map_fst_of_mem_choices (h : choice ∈ choices factors) :
    choice.map Prod.fst = factors.map (·.path) := by
  have h' := mem_choices.mp h
  clear h
  induction h' with
  | nil => rfl
  | cons hhead _ ih => rw [List.map_cons, List.map_cons, hhead.1, ih]

theorem level_of_mem_choices {a : KeyPath × Document} (h : choice ∈ choices factors)
    (ha : a ∈ choice) : ∃ f ∈ factors, a.2 ∈ f.levels := by
  have h' := mem_choices.mp h
  clear h
  induction h' with
  | nil => cases ha
  | cons hhead _ ih =>
      rcases List.mem_cons.mp ha with rfl | ha
      · exact ⟨_, List.mem_cons_self, hhead.2⟩
      · obtain ⟨f, hf, hl⟩ := ih ha
        exact ⟨f, List.mem_cons_of_mem _ hf, hl⟩

/-- Factors whose levels can be written: at places apart from each other and from those already
taken. -/
structure Separate (paths : List KeyPath) (factors : List CrossFactor) : Prop where
  apart : (factors.map (·.path)).Pairwise Apart
  free : ∀ q ∈ paths, ∀ f ∈ factors, Apart q f.path
  proper : ∀ f ∈ factors, f.path ≠ []
  ordered : ∀ f ∈ factors, ∀ level ∈ f.levels, level.Ordered

theorem Separate.tail {factor : CrossFactor} (h : Separate paths (factor :: factors)) :
    Separate (factor.path :: paths) factors where
  apart := (List.pairwise_cons.mp h.apart).2
  free q hq f hf := by
    rcases List.mem_cons.mp hq with rfl | hq
    · exact (List.pairwise_cons.mp h.apart).1 _ (List.mem_map_of_mem hf)
    · exact h.free q hq f (List.mem_cons_of_mem _ hf)
  proper f hf := h.proper f (List.mem_cons_of_mem _ hf)
  ordered f hf := h.ordered f (List.mem_cons_of_mem _ hf)

/-- A level of the first factor is written, and the result is sparse over one more path. -/
theorem Separate.exists_set {factor : CrossFactor} {level : Document}
    (h : Separate paths (factor :: factors)) (hs : Sparse paths fragment)
    (hl : level ∈ factor.levels) :
    ∃ d, fragment.set factor.path level = .ok d ∧ Sparse (factor.path :: paths) d := by
  have hfree : ∀ q ∈ paths, Apart q factor.path := fun q hq => h.free q hq _ List.mem_cons_self
  have hordered : level.Ordered := h.ordered _ List.mem_cons_self level hl
  obtain ⟨d, hd⟩ : ∃ d, fragment.set factor.path level = .ok d := hs.exists_set hfree
  exact ⟨d, hd, hs.set hordered hfree (h.proper _ List.mem_cons_self) hd⟩

theorem assign_cons {path : KeyPath} {level d : Document} (hd : fragment.set path level = .ok d) :
    assign fragment ((path, level) :: choice) = assign d choice := by
  rw [assign, hd]
  rfl

/-- An assignment holds what it held, the levels of the choice, and nothing else. -/
theorem sparse_assign (h : Separate paths factors) (hs : Sparse paths fragment)
    (hc : choice ∈ choices factors) :
    Sparse ((factors.map (·.path)).reverse ++ paths) (assign fragment choice) ∧
      (∀ q ∈ paths, (assign fragment choice).get? q = fragment.get? q) ∧
      ∀ a ∈ choice, (assign fragment choice).get? a.1 = some a.2 := by
  induction factors generalizing fragment paths choice with
  | nil =>
      obtain rfl : choice = [] := by simpa [choices] using hc
      simpa [assign] using hs
  | cons factor rest ih =>
      simp only [choices, List.mem_flatMap, List.mem_map] at hc
      obtain ⟨level, hl, others, ho, rfl⟩ := hc
      obtain ⟨d, hd, hsparse⟩ := h.exists_set hs hl
      obtain ⟨hall, hkeep, hlevels⟩ := ih h.tail hsparse ho
      rw [assign_cons hd]
      refine ⟨by simpa using hall, fun q hq => ?_, ?_⟩
      · rw [hkeep q (List.mem_cons_of_mem _ hq),
          get?_set_of_apart hd (h.free q hq _ List.mem_cons_self)]
      · refine List.forall_mem_cons.mpr ⟨?_, hlevels⟩
        rw [hkeep factor.path List.mem_cons_self, get?_set_self hd]

/-- Extending a fragment writes every choice into it. -/
theorem extend_eq_ok (h : Separate paths factors) (hs : Sparse paths fragment) :
    extend factors fragment = .ok ((choices factors).map (assign fragment)) := by
  induction factors generalizing fragment paths with
  | nil => rfl
  | cons factor rest ih =>
      rw [extend]
      refine Outcome.bind_eq_ok.mpr ⟨_, Outcome.mapM_eq_ok (g := fun level =>
        (choices rest).map fun others => assign fragment ((factor.path, level) :: others))
        (fun level hl => ?_), ?_⟩
      · obtain ⟨d, hd, hsparse⟩ := h.exists_set hs hl
        rw [hd]
        change extend rest d = _
        rw [ih h.tail hsparse]
        simp only [assign_cons hd]
      · rw [choices, List.map_flatMap]
        simp only [List.map_map, List.flatMap, Function.comp_def]
        rfl

/-- The grid is the list of choices, each written into the empty mapping. -/
theorem fragments_eq_ok (h : Separate [] factors) :
    fragments factors = .ok ((choices factors).map (assign .empty)) :=
  extend_eq_ok h sparse_empty

end FactorGrid

end ExperimentSuite
