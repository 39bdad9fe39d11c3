import ExperimentSuite.Proofs.Document.Agreement
import ExperimentSuite.Proofs.Factor.Assignment
import ExperimentSuite.Proofs.Factor.Skeleton
import ExperimentSuite.Proofs.Suite.Expansion
import ExperimentSuite.Proofs.Suite.ReservedKeys

/-!
# No run is generated twice

A run holds the chosen level at the path of every crossed factor and what its
entry holds at every place of the entries, so both can be read off it. Runs of
different choices disagree at some crossed factor, those of different entries
at some place of the entries; therefore an expansion of levels and entries that
are pairwise different has no run twice.
-/

namespace ExperimentSuite

open Document KeyPath FactorPlan FactorGrid

/-- Values that are looked up by path do not agree at one of the given paths. -/
def DisagreeAt (paths : List KeyPath) (look look' : KeyPath → Option Document) : Prop :=
  ∃ p ∈ paths, ∃ v v', look p = some v ∧ look' p = some v' ∧ v.agrees v' = false

variable {paths others : List KeyPath}

theorem DisagreeAt.mono {look look' : KeyPath → Option Document}
    (h : DisagreeAt paths look look') (hsub : ∀ p ∈ paths, p ∈ others) :
    DisagreeAt others look look' := by
  obtain ⟨p, hp, hrest⟩ := h
  exact ⟨p, hsub p hp, hrest⟩

namespace Document

variable {d d' : Document}

theorem agrees_eq_false_of_disagreeAt (h : DisagreeAt paths d.get? d'.get?) :
    d.agrees d' = false := by
  obtain ⟨p, -, v, v', hv, hv', hne⟩ := h
  refine Bool.eq_false_iff.mpr fun hagree => ?_
  obtain ⟨w, hw, hvw⟩ := exists_agrees_of_get? hagree hv
  rw [hv', Option.some.injEq] at hw
  subst hw
  rw [hne] at hvw
  cases hvw

/-- Sparse documents that do not agree hold values that do not agree at one of their paths. -/
theorem Sparse.disagreeAt (h : Sparse paths d) (h' : Sparse paths d') (hne : d.agrees d' = false) :
    DisagreeAt paths d.get? d'.get? := by
  by_contra hno
  have hsame : ∀ p ∈ paths, d'.unsigned.get? p = d.unsigned.get? p := by
    intro p hp
    obtain ⟨v, hv⟩ := Option.isSome_iff_exists.mp (h.holds p hp)
    obtain ⟨v', hv'⟩ := Option.isSome_iff_exists.mp (h'.holds p hp)
    have hagree : v.agrees v' = true := by
      by_contra hdiffer
      exact hno ⟨p, hp, v, v', hv, hv', Bool.eq_false_iff.mpr hdiffer⟩
    rw [get?_unsigned, get?_unsigned, hv, hv', Option.map_some, Option.map_some,
      (agrees_iff v v').mp hagree]
  have hheld : ∀ p ∈ paths, d.unsigned.get? p = some ((d.unsigned.get? p).getD .null) := by
    intro p hp
    obtain ⟨v, hv⟩ := Option.isSome_iff_exists.mp (h.unsigned.holds p hp)
    rw [hv, Option.getD_some]
  have hassigned : Assigned (fun p => (d.unsigned.get? p).getD .null) paths d.unsigned :=
    ⟨h.unsigned, hheld⟩
  have hassigned' : Assigned (fun p => (d.unsigned.get? p).getD .null) paths d'.unsigned :=
    ⟨h'.unsigned, fun p hp => (hsame p hp).trans (hheld p hp)⟩
  have hagree : d.agrees d' = true := (agrees_iff d d').mpr (hassigned.unique hassigned')
  rw [hne] at hagree
  cases hagree

end Document

namespace FactorGrid

variable {factors : List CrossFactor}

/-- Different choices take levels that do not agree at some factor, if no factor has a level
twice. -/
theorem pairwise_choices (hpaths : (factors.map (·.path)).Nodup)
    (hlevels : ∀ factor ∈ factors, factor.levels.Pairwise fun a b => a.agrees b = false) :
    (choices factors).Pairwise fun choice choice' =>
      DisagreeAt (factors.map (·.path)) (choice.lookup ·) (choice'.lookup ·) := by
  induction factors with
  | nil => exact List.pairwise_singleton ..
  | cons factor rest ih =>
      obtain ⟨hnot, hpaths⟩ := List.nodup_cons.mp hpaths
      obtain ⟨hfactor, hlevels⟩ := List.forall_mem_cons.mp hlevels
      rw [choices, List.pairwise_flatMap]
      constructor
      · -- choices of one level of the first factor differ at a later one
        intro level _
        refine List.pairwise_map.mpr ((ih hpaths hlevels).imp ?_)
        rintro choice choice' ⟨p, hp, v, v', hv, hv', hne⟩
        have hother : (p == factor.path) = false := by
          rw [beq_eq_false_iff_ne]
          rintro rfl
          exact hnot hp
        have hkeep : ∀ others : Choice,
            ((factor.path, level) :: others).lookup p = others.lookup p := by
          intro others
          rw [List.lookup_cons, hother]
        exact ⟨p, List.mem_cons_of_mem _ hp, v, v', (hkeep choice).trans hv,
          (hkeep choice').trans hv', hne⟩
      · refine hfactor.imp fun {level level'} hne => ?_
        intro choice hchoice choice' hchoice'
        obtain ⟨tail, -, rfl⟩ := List.mem_map.mp hchoice
        obtain ⟨tail', -, rfl⟩ := List.mem_map.mp hchoice'
        exact ⟨factor.path, List.mem_cons_self, level, level', by simp, by simp, hne⟩

end FactorGrid

namespace Expansion

variable {choice choice' : Choice} {entry entry' base commands d : Document} {path q : KeyPath}
  {plan : FactorPlan} {entries : List Document}

/-- A substitution holds the chosen level at a crossed factor. -/
theorem get?_substitute_cross (h : extractAt path d = .ok plan) (hd : d.Ordered)
    (hq : q ∈ plan.crossPaths) (hchosen : (choice.lookup q).isSome) :
    ∃ r, q = path ++ r ∧ (substitute choice entry path d).get? r = choice.lookup q := by
  refine extractAt_induction (motive := fun path d plan => d.Ordered → q ∈ plan.crossPaths →
    ∃ r, q = path ++ r ∧ (substitute choice entry path d).get? r = choice.lookup q)
    ?marker ?leaf ?cross ?map h hd hq
  case marker =>
    intro _ _ hq
    cases hq
  case leaf =>
    intro _ _ _ _ _ hq
    cases hq
  case cross =>
    intro path raw levels _ _ _ hq
    obtain rfl : q = path := by simpa [crossPaths] using hq
    obtain ⟨level, hlevel⟩ := Option.isSome_iff_exists.mp hchosen
    refine ⟨[], (List.append_nil q).symm, ?_⟩
    rw [get?_nil, substitute_crossed hlevel, hlevel]
  case map =>
    intro path fields plans hnone _ ih hd hq
    rw [crossPaths_ofPlans] at hq
    obtain ⟨e, he, hq⟩ := List.mem_flatMap.mp hq
    obtain ⟨r, rfl, hr⟩ := ih e he ((ordered_map_iff.mp hd).2 e he) hq
    exact ⟨e.1 :: r, by simp, (get?_substitute_map hd.sorted hnone he r).trans hr⟩

/-- Attached commands are not in the way of another first key. -/
theorem get?_attach_of_ne {key : String} {rest : KeyPath} (hkey : key ≠ Vocabulary.command) :
    (Resolution.attach commands d).get? (key :: rest) = d.get? (key :: rest) := by
  cases d with
  | map fields =>
      rw [Resolution.attach, get?_map_cons, get?_map_cons, Keyed.find?_insert_of_ne hkey.symm]
  | _ => rfl

section Extracted

variable (h : extract base = .ok plan) (hb : base.Ordered) (hmap : base.isMap = true)
  (hcommand : base.field? Vocabulary.command = none)

include h hb hmap hcommand

/-- No factor stands where the commands are attached. -/
theorem get?_attach_of_mem (hq : q ∈ plan.paths) :
    (Resolution.attach commands d).get? q = d.get? q := by
  have hdescribes := describes_of_extractAt hb h
  have hplace : ∃ v, base.get? q = some v ∧ q ≠ [] := by
    rcases List.mem_append.mp hq with hlevel | hcross
    · obtain ⟨r, rfl, hget, -⟩ := hdescribes.level q hlevel
      refine ⟨_, hget, ?_⟩
      rintro rfl
      cases hget
      cases hmap
    · obtain ⟨f, hf, rfl⟩ := List.mem_map.mp hcross
      obtain ⟨r, hr, -, ⟨fields, hget⟩, -⟩ := hdescribes.cross f hf
      rw [List.nil_append] at hr
      exact ⟨_, hr ▸ hget, ne_nil_of_mem_crossPaths h hb hmap hcross⟩
  obtain ⟨v, hv, hne⟩ := hplace
  obtain ⟨key, rest, rfl⟩ := List.exists_cons_of_ne_nil hne
  apply get?_attach_of_ne
  rintro rfl
  obtain ⟨fields, rfl⟩ := isMap_iff.mp hmap
  rw [get?_map_cons, show Keyed.find? Vocabulary.command fields = none from hcommand] at hv
  cases hv

/-- Runs of choices that disagree at a crossed factor do not agree. -/
theorem agrees_eq_false_of_choices (hc : choice ∈ choices plan.cross)
    (hc' : choice' ∈ choices plan.cross)
    (hdiffer : DisagreeAt plan.crossPaths (choice.lookup ·) (choice'.lookup ·)) :
    (Resolution.attach commands (substitute choice entry [] base)).agrees
      (Resolution.attach commands (substitute choice' entry' [] base)) = false := by
  have hread : ∀ {choice : Choice} {entry : Document}, choice ∈ choices plan.cross →
      ∀ p ∈ plan.crossPaths,
        (Resolution.attach commands (substitute choice entry [] base)).get? p =
          choice.lookup p := by
    intro choice entry hc p hp
    rw [get?_attach_of_mem h hb hmap hcommand (List.mem_append_right _ hp)]
    obtain ⟨r, rfl, hr⟩ := get?_substitute_cross h hb hp (isSome_lookup hc hp)
    exact hr
  obtain ⟨p, hp, v, v', hv, hv', hne⟩ := hdiffer
  exact agrees_eq_false_of_disagreeAt
    ⟨p, hp, v, v', (hread hc p hp).trans hv, (hread hc' p hp).trans hv', hne⟩

/-- Runs of entries that do not agree do not agree. -/
theorem agrees_eq_false_of_entries (he : Sparse plan.levelPaths entry)
    (he' : Sparse plan.levelPaths entry') (hdiffer : entry.agrees entry' = false) :
    (Resolution.attach commands (substitute choice entry [] base)).agrees
      (Resolution.attach commands (substitute choice' entry' [] base)) = false := by
  have hread : ∀ {choice : Choice} {entry : Document}, Sparse plan.levelPaths entry →
      ∀ p ∈ plan.levelPaths,
        (Resolution.attach commands (substitute choice entry [] base)).get? p = entry.get? p := by
    intro choice entry he p hp
    rw [get?_attach_of_mem h hb hmap hcommand (List.mem_append_left _ hp)]
    obtain ⟨r, rfl, hr⟩ := get?_substitute h hb hp (he.holds p hp)
    exact hr
  obtain ⟨p, hp, v, v', hv, hv', hne⟩ := he.disagreeAt he' hdiffer
  exact agrees_eq_false_of_disagreeAt
    ⟨p, hp, v, v', (hread he p hp).trans hv, (hread he' p hp).trans hv', hne⟩

/-- The substitutions of levels and entries that are pairwise different are pairwise different. -/
theorem pairwise_substitutions (commands : Document)
    (hlevels : ∀ factor ∈ plan.cross, factor.levels.Pairwise fun a b => a.agrees b = false)
    (hsparse : ∀ entry ∈ entries, Sparse plan.levelPaths entry)
    (hentries : entries.Pairwise fun a b => a.agrees b = false) :
    (substitutions base commands plan.cross entries).Pairwise fun a b => a.agrees b = false := by
  have hnodup : plan.crossPaths.Nodup := (describes_of_extractAt hb h).nodup
  rw [substitutions, List.pairwise_flatMap]
  constructor
  · intro entry _
    refine List.pairwise_map.mpr ((pairwise_choices hnodup hlevels).imp_of_mem ?_)
    intro choice choice' hc hc' hdiffer
    exact agrees_eq_false_of_choices h hb hmap hcommand hc hc' hdiffer
  · refine hentries.imp_of_mem fun {entry entry'} he he' hdiffer run hrun run' hrun' => ?_
    obtain ⟨choice, -, rfl⟩ := List.mem_map.mp hrun
    obtain ⟨choice', -, rfl⟩ := List.mem_map.mp hrun'
    exact agrees_eq_false_of_entries h hb hmap hcommand (hsparse _ he) (hsparse _ he') hdiffer

end Extracted

/-- No run is generated twice: if neither a crossed factor has a level twice nor an entry is given
twice, no two runs agree, whatever the commands and the filters are. -/
theorem runs_pairwise_disagree (experiment : String) (filters : List Document)
    (commands : Document) (hmap : base.isMap = true) (hb : base.Ordered)
    (hcommand : base.field? Vocabulary.command = none) (h : extract base = .ok plan)
    (hordered : ∀ entry ∈ entries, entry.Ordered)
    (hcheck : FactorLevels.check plan.levelPaths entries = .ok ())
    (hlevels : ∀ factor ∈ plan.cross, factor.levels.Pairwise fun a b => a.agrees b = false)
    (hentries : entries.Pairwise fun a b => a.agrees b = false)
    (hlimit : entries.length * plan.exactCombinations ≤ Vocabulary.maxRuns) :
    ∃ found, runs experiment plan entries filters commands = .ok found ∧
      found.Pairwise fun a b => a.agrees b = false := by
  have hpairwise := pairwise_substitutions h hb hmap hcommand commands hlevels
    (fun entry he => (FactorLevels.sparse_of_check hcheck he (hordered entry he)).1) hentries
  refine ⟨_, ?_, hpairwise.filter fun run => !isExcluded filters run⟩
  rw [runs_eq_ite experiment filters commands hmap hb h hordered hcheck,
    if_neg (Nat.not_lt.mpr hlimit)]

theorem pairwise_disagree_twoFactors :
    (twoFactors.isMap = true ∧ twoFactors.Ordered ∧
      twoFactors.field? Vocabulary.command = none ∧ extract twoFactors = .ok twoFactorsPlan ∧
      (∀ entry ∈ twoFactorsEntries, entry.Ordered) ∧
      FactorLevels.check twoFactorsPlan.levelPaths twoFactorsEntries = .ok () ∧
      (∀ factor ∈ twoFactorsPlan.cross, factor.levels.Pairwise fun a b => a.agrees b = false) ∧
      (twoFactorsEntries.Pairwise fun a b => a.agrees b = false) ∧
      twoFactorsEntries.length * twoFactorsPlan.exactCombinations ≤ Vocabulary.maxRuns) ∧
    ∃ found, runs "e" twoFactorsPlan twoFactorsEntries [] .null = .ok found ∧
      found.length = 4 ∧ found.Pairwise fun a b => a.agrees b = false := by
  have hmap : twoFactors.isMap = true := rfl
  have hb : twoFactors.Ordered := by decide
  have hcommand : twoFactors.field? Vocabulary.command = none := rfl
  have h : extract twoFactors = .ok twoFactorsPlan := rfl
  have hordered : ∀ entry ∈ twoFactorsEntries, entry.Ordered := by decide
  have hcheck : FactorLevels.check twoFactorsPlan.levelPaths twoFactorsEntries = .ok () := rfl
  have hlevels : ∀ factor ∈ twoFactorsPlan.cross,
      factor.levels.Pairwise fun a b => a.agrees b = false := by decide
  have hentries : twoFactorsEntries.Pairwise fun a b => a.agrees b = false := by decide
  have hlimit : twoFactorsEntries.length * twoFactorsPlan.exactCombinations ≤
      Vocabulary.maxRuns := by decide
  obtain ⟨found, hfound, hpairwise⟩ := runs_pairwise_disagree "e" [] .null hmap hb hcommand h
    hordered hcheck hlevels hentries hlimit
  have hlength :
      (runs "e" twoFactorsPlan twoFactorsEntries [] .null).toOption.map List.length = some 4 := rfl
  rw [hfound] at hlength
  exact ⟨⟨hmap, hb, hcommand, h, hordered, hcheck, hlevels, hentries, hlimit⟩, found, hfound,
    Option.some.inj hlength, hpairwise⟩

end Expansion

end ExperimentSuite
