import ExperimentSuite.Proofs.Placeholder.Soundness
import Mathlib.Data.List.MinMax

/-!
# Acyclic references converge

Without pending keys, a text waits only for other pending texts: those below
one of its references, above it, or at it. When a rank decreases along these
references, the pending text of least rank is always ready, so every round
makes progress and each rank is settled at the latest in the round of its
number.
-/

namespace ExperimentSuite

namespace Resolution

open Document KeyPath

variable {engine : Engine} {vars : List (String × Document)} {run run' d : Document}
  {item : Pending} {own place : Place} {path : KeyPath} {n : Nat}

/-- Nothing is pending at, below or above a value without placeholders that was written, a key that
the run had before apart. -/
theorem Rendered.apart_of_hasAt {i : Pending}
    (h : Rendered engine run vars (run.pendingAt []) run run') (hd : run.Ordered)
    (hengine : engine.Orderly)
    (hplain : ∀ value, evaluate engine vars i = .ok value → value.Plain)
    (hi : i ∈ run.pendingAt []) (hikey : i.isKey = false) (hready : Ready engine run i)
    (hs : Placeholder.occursIn item.source = true) (hat : run'.HasAt item item.place) :
    Apart item.place i.place ∨ (item.isKey = true ∧ run.HasAt item item.place) := by
  obtain ⟨value, hvalue, hwritten⟩ := h.values i hi hikey hready
  have hbefore : (run.at? i.place).isSome := by
    rw [at?_of_mem_pendingAt hd hi hikey]
    rfl
  exact hat.apart_of_plain hs hwritten (ordered_of_evaluate hengine hvalue) (hplain value hvalue)
    hbefore

/-- The texts that a round leaves pending are those that were not ready, if all written values are
without placeholders. -/
theorem Rendered.mem_pendingAt (h : Rendered engine run vars (run.pendingAt []) run run')
    (hd : run.Ordered) (htexts : ∀ item ∈ run.pendingAt [], item.isKey = false)
    (hplain : ∀ item ∈ run.pendingAt [], ∀ value, Ready engine run item →
      evaluate engine vars item = .ok value → value.Plain)
    (hengine : engine.Orderly) (hitem : item ∈ run'.pendingAt []) :
    item ∈ run.pendingAt [] ∧ ¬ Ready engine run item := by
  obtain ⟨hs, _, hplace, hat⟩ := (mem_pendingAt_iff h.ordered).mp hitem
  rw [List.nil_append] at hplace
  subst hplace
  have hall : ∀ p, Written engine run (run.pendingAt []) p → Apart item.place p := by
    rintro p ⟨i, hi, hikey, hready, rfl⟩
    have hvalues := fun value => hplain i hi value hready
    rcases h.apart_of_hasAt hd hengine hvalues hi hikey hready hs hat with hapart | hkey
    · exact hapart
    · have hmem : item ∈ run.pendingAt [] :=
        (mem_pendingAt_iff hd).mpr ⟨hs, item.place, rfl, hkey.2⟩
      rw [htexts item hmem] at hkey
      cases hkey.1
  rw [HasAt, h.frame item.place hall] at hat
  have hmem : item ∈ run.pendingAt [] := (mem_pendingAt_iff hd).mpr ⟨hs, item.place, rfl, hat⟩
  refine ⟨hmem, ?_⟩
  intro hready
  exact (hall item.place ⟨item, hmem, htexts item hmem, hready, rfl⟩).1 List.prefix_rfl

/-- After the writing of a round exactly the texts that were not ready are pending, if all written
values are without placeholders. -/
theorem Rendered.mem_pendingAt_iff (h : Rendered engine run vars (run.pendingAt []) run run')
    (hd : run.Ordered) (htexts : ∀ item ∈ run.pendingAt [], item.isKey = false)
    (hplain : ∀ item ∈ run.pendingAt [], ∀ value, Ready engine run item →
      evaluate engine vars item = .ok value → value.Plain)
    (hengine : engine.Orderly) :
    item ∈ run'.pendingAt [] ↔ item ∈ run.pendingAt [] ∧ ¬ Ready engine run item := by
  refine ⟨h.mem_pendingAt hd htexts hplain hengine, ?_⟩
  rintro ⟨hitem, hwaits⟩
  have hkey := htexts item hitem
  have hat := at?_of_mem_pendingAt hd hitem hkey
  have hs := ((Document.mem_pendingAt_iff hd).mp hitem).1
  have hbeside : ∀ p, Written engine run (run.pendingAt []) p → Apart item.place p := by
    rintro p ⟨i, hi, hikey, hready, rfl⟩
    have hiat := at?_of_mem_pendingAt hd hi hikey
    refine apart_of_texts hat hiat fun hplace => ?_
    have heq : item = i := eq_of_place_eq hd hitem hkey hi hikey hplace
    exact hwaits (heq ▸ hready)
  have hkept : run'.at? item.place = some (.str item.source) :=
    (h.frame item.place hbeside).trans hat
  obtain ⟨itemPlace, source, isKey⟩ := item
  dsimp only at hkey
  subst hkey
  exact mem_pendingAt_of_at? h.ordered hs hkept

/-- A reference that is not settled meets a pending text: at or below it, but not oneself, or above
it. -/
theorem exists_of_not_settled (hd : d.Ordered)
    (htexts : ∀ item ∈ d.pendingAt place, item.isKey = false)
    (h : isSettled own d place path = false) :
    ∃ item ∈ d.pendingAt place,
      (place ++ path.map Step.key <+: item.place ∧ item.place ≠ own) ∨
        (item.place <+: place ++ path.map Step.key ∧ item.place ≠ place ++ path.map Step.key) := by
  induction path generalizing d place with
  | nil =>
      have hpending : d.hasPending own place = true := by simpa [isSettled] using h
      obtain ⟨item, hitem, hne⟩ := hasPending_eq_true_iff.mp hpending
      exact ⟨item, hitem, .inl ⟨by simpa using prefix_of_mem_pendingAt hd hitem, hne⟩⟩
  | cons key rest ih =>
      cases d with
      | map fields =>
          cases hc : Keyed.find? key fields with
          | none =>
              have hany : fields.any (fun f => Placeholder.occursIn f.1) = true := by
                simpa [isSettled, hc] using h
              obtain ⟨e, he, hs⟩ := List.any_eq_true.mp hany
              have hmem : (⟨place ++ [.key e.1], e.1, true⟩ : Pending) ∈
                  (map fields).pendingAt place :=
                mem_pendingFields.mpr ⟨e, he, .inl ⟨hs, rfl⟩⟩
              cases htexts _ hmem
          | some c =>
              have hsub : ∀ item ∈ c.pendingAt (place ++ [.key key]),
                  item ∈ (map fields).pendingAt place :=
                fun item hitem => mem_pendingFields.mpr ⟨_, Keyed.mem_of_find? hc, .inr hitem⟩
              have hbelow : isSettled own c (place ++ [.key key]) rest = false := by
                simpa [isSettled, hc] using h
              obtain ⟨item, hitem, hrelated⟩ :=
                ih (hd.find? hc) (fun item hitem => htexts item (hsub item hitem)) hbelow
              refine ⟨item, hsub item hitem, ?_⟩
              simpa using hrelated
      | str s =>
          have hs : Placeholder.occursIn s = true := by simpa [isSettled] using h
          have hmem : (⟨place, s, false⟩ : Pending) ∈ (str s).pendingAt place := by
            simp [pendingAt, hs]
          exact ⟨_, hmem, .inr ⟨List.prefix_append _ _, by simp⟩⟩
      | _ => cases h

/-- A reference and a text that have to do with each other: at one place, or one above the other. -/
def Related (path : KeyPath) (place : Place) : Prop :=
  path.map Step.key <+: place ∨ place <+: path.map Step.key

instance (path : KeyPath) (place : Place) : Decidable (Related path place) :=
  inferInstanceAs (Decidable (_ ∨ _))

/-- The pending sources of a run are texts, and a rank decreases along their references. -/
structure Ranked (engine : Engine) (rank : Place → Nat) (run : Document) : Prop where
  texts : ∀ item ∈ run.pendingAt [], item.isKey = false
  decreases : ∀ u ∈ run.pendingAt [], ∀ v ∈ run.pendingAt [], v.place ≠ u.place →
    ∀ references path, engine.references u.source = .ok references →
      Vocabulary.runBinding :: path ∈ references → Related path v.place →
        rank v.place < rank u.place
  /-- No text reads below itself. -/
  notBelow : ∀ u ∈ run.pendingAt [], ∀ references path,
    engine.references u.source = .ok references →
    Vocabulary.runBinding :: path ∈ references →
      u.place <+: path.map Step.key → u.place = path.map Step.key

/-- A later run whose pending sources are among the earlier ones is ranked as well. -/
theorem Ranked.of_subset {rank : Place → Nat} (h : Ranked engine rank run)
    (hsub : ∀ item ∈ d.pendingAt [], item ∈ run.pendingAt []) : Ranked engine rank d where
  texts item hi := h.texts item (hsub item hi)
  decreases u hu v hv := h.decreases u (hsub u hu) v (hsub v hv)
  notBelow u hu := h.notBelow u (hsub u hu)

/-- A pending text of least rank is ready. -/
theorem Ranked.ready {rank : Place → Nat} (h : Ranked engine rank run) (hd : run.Ordered)
    (hitem : item ∈ run.pendingAt [])
    (hleast : ∀ other ∈ run.pendingAt [], rank item.place ≤ rank other.place)
    (hcompiles : ∃ references, engine.references item.source = .ok references) :
    Ready engine run item := by
  obtain ⟨references, hok⟩ := hcompiles
  refine ⟨references, hok, List.all_eq_true.mpr fun reference hreference => ?_⟩
  cases reference with
  | nil => rfl
  | cons name path =>
      rw [isReady, Bool.or_eq_true, bne_iff_ne]
      by_contra hnot
      push Not at hnot
      obtain ⟨rfl, hsettled⟩ := hnot
      obtain ⟨v, hv, hrelated⟩ :=
        exists_of_not_settled hd h.texts (Bool.eq_false_iff.mpr hsettled)
      rw [List.nil_append] at hrelated
      have hne : v.place ≠ item.place := by
        rcases hrelated with ⟨-, hne⟩ | ⟨hpre, hne⟩
        · exact hne
        · intro heq
          rw [heq] at hpre hne
          exact hne (h.notBelow item hitem references path hok hreference hpre)
      have hlt := h.decreases item hitem v hv hne references path hok hreference
        (hrelated.imp And.left And.left)
      exact absurd (hleast v hv) (Nat.not_le.mpr hlt)

/-- Every evaluation in a round succeeds with a value without placeholders. -/
def Evaluates (engine : Engine) (vars : List (String × Document)) (run : Document) : Prop :=
  ∀ n d, Reached engine vars run n d → ∀ item ∈ d.pendingAt [], Ready engine d item →
    ∃ value, evaluate engine (context d vars) item = .ok value ∧ value.Plain

theorem Evaluates.of_round (h : Evaluates engine vars run)
    (hround : round engine vars run (run.pendingAt []) = .ok run') : Evaluates engine vars run' :=
  fun n d hd => h (n + 1) d (hd.of_round hround)

theorem Evaluates.plain (h : Evaluates engine vars run) {value : Document}
    (hitem : item ∈ run.pendingAt []) (hready : Ready engine run item)
    (hvalue : evaluate engine (context run vars) item = .ok value) : value.Plain := by
  obtain ⟨value', hvalue', hplain⟩ := h 0 run .start item hitem hready
  rw [hvalue, Except.ok.injEq] at hvalue'
  exact hvalue' ▸ hplain

/-- A failure to converge. -/
inductive Diverges : Failure → Prop where
  | stuck (place : String) : Diverges (.template place .stuck)
  | tooManyRounds (place : String) : Diverges (.template place .tooManyRounds)

section Errors

variable {α : Type} {snapshot : Document} {start : Round} {f : Failure}

theorem not_diverges_of_ofEngine {outcome : Except EngineFault α}
    (h : ofEngine place outcome = .error f) : ¬ Diverges f := by
  obtain ⟨fault, -, rfl⟩ := Outcome.mapError_eq_error.mp h
  intro hf
  cases hf

theorem not_diverges_of_evaluate (h : evaluate engine vars item = .error f) : ¬ Diverges f := by
  rw [evaluate] at h
  split at h
  · rcases Outcome.bind_eq_error.mp h with h | ⟨_, -, h⟩
    · exact not_diverges_of_ofEngine h
    · cases h
  · rcases Outcome.bind_eq_error.mp h with h | ⟨result, -, h⟩
    · exact not_diverges_of_ofEngine h
    · cases result with
      | some value => cases h
      | none =>
          dsimp only at h
          split at h
          · cases h
          · cases h
            intro hf
            cases hf

theorem not_diverges_of_step (h : step engine snapshot vars start item = .error f) :
    ¬ Diverges f := by
  rw [step] at h
  rcases Outcome.bind_eq_error.mp h with h | ⟨references, -, h⟩
  · exact not_diverges_of_ofEngine h
  split at h
  · cases h
  split at h
  · rcases Outcome.bind_eq_error.mp h with h | ⟨_, -, h⟩
    · exact not_diverges_of_ofEngine h
    · cases h
  · rcases Outcome.bind_eq_error.mp h with h | ⟨_, -, h⟩
    · exact not_diverges_of_evaluate h
    · cases h

theorem not_diverges_of_commandStep {commands : Document}
    (h : commandStep engine vars commands item = .error f) : ¬ Diverges f := by
  rw [commandStep] at h
  split at h
  · cases h
    intro hf
    cases hf
  rcases Outcome.bind_eq_error.mp h with h | ⟨_, -, h⟩
  · exact not_diverges_of_ofEngine h
  rcases Outcome.bind_eq_error.mp h with h | ⟨text, -, h⟩
  · exact not_diverges_of_ofEngine h
  split at h
  · cases h
    intro hf
    cases hf
  · cases h

end Errors

section Rounds

variable {rank : Place → Nat} {out : Document} {bound rounds : Nat}

/-- What a round does to a ranked run: if no source keeps it from starting, it succeeds and leaves
pending only texts above the least rank. -/
theorem Ranked.round_of_foldlM {done : Round} (hengine : engine.Orderly)
    (h : Ranked engine rank run) (hd : run.Ordered) (heval : Evaluates engine vars run)
    (hnot : ¬ run.Plain)
    (hdone : (run.pendingAt []).foldlM (step engine run (context run vars)) ⟨run, [], false⟩ =
      .ok done) :
    round engine vars run (run.pendingAt []) = .ok done.run ∧ done.run.Ordered ∧
      ∀ item ∈ done.run.pendingAt [], item ∈ run.pendingAt [] ∧
        ∃ other ∈ run.pendingAt [], rank other.place < rank item.place := by
  have hlisted := listed_pendingAt hd
  obtain ⟨hrendered, hprogressed⟩ := rendered_of_foldlM hengine hlisted hd hdone
  have hcompiles : ∀ item ∈ run.pendingAt [], ∃ references,
      engine.references item.source = .ok references := by
    intro item hitem
    obtain ⟨u, v, hstep⟩ := Outcome.exists_of_foldlM_eq_ok hdone hitem
    rw [step] at hstep
    obtain ⟨references, hreferences, -⟩ := Outcome.bind_eq_ok.mp hstep
    exact ⟨references, Outcome.mapError_eq_ok.mp hreferences⟩
  have hprogress : done.progressed = true := by
    obtain ⟨least, hleast⟩ : ∃ least, least ∈ (run.pendingAt []).argmin fun i => rank i.place :=
      Option.ne_none_iff_exists'.mp fun hnone => hnot (List.argmin_eq_none.mp hnone)
    have hmem := List.argmin_mem hleast
    refine hprogressed.mpr (.inr ⟨least, hmem, h.ready hd hmem ?_ (hcompiles least hmem)⟩)
    exact fun other hother =>
      List.le_of_mem_argmin (f := fun i : Pending => rank i.place) hother hleast
  refine ⟨?_, hrendered.ordered, fun item hitem => ?_⟩
  · rw [round_eq_renameAll hdone hprogress, renames_eq_nil h.texts hdone, renameAll_nil]
  · obtain ⟨hmem, hwaits⟩ :=
      hrendered.mem_pendingAt hd h.texts (fun _ hitem _ => heval.plain hitem) hengine hitem
    refine ⟨hmem, ?_⟩
    by_contra hnone
    push Not at hnone
    exact hwaits (h.ready hd hmem hnone (hcompiles item hmem))

/-- A ranked run that is left with the ranks above a number, up to a bound. -/
structure Underway (engine : Engine) (vars : List (String × Document)) (rank : Place → Nat)
    (n bound : Nat) (run : Document) : Prop where
  ranked : Ranked engine rank run
  ordered : run.Ordered
  evaluates : Evaluates engine vars run
  above : ∀ item ∈ run.pendingAt [], n < rank item.place
  below : ∀ item ∈ run.pendingAt [], rank item.place ≤ bound

/-- A round settles at least one more rank. -/
theorem Underway.advance {done : Round} (hengine : engine.Orderly)
    (h : Underway engine vars rank n bound run) (hnot : ¬ run.Plain)
    (hdone : (run.pendingAt []).foldlM (step engine run (context run vars)) ⟨run, [], false⟩ =
      .ok done) :
    round engine vars run (run.pendingAt []) = .ok done.run ∧
      (∀ item ∈ done.run.pendingAt [], item ∈ run.pendingAt []) ∧
        Underway engine vars rank (n + 1) bound done.run := by
  obtain ⟨hround, hordered, hpending⟩ :=
    h.ranked.round_of_foldlM hengine h.ordered h.evaluates hnot hdone
  have hsub : ∀ item ∈ done.run.pendingAt [], item ∈ run.pendingAt [] :=
    fun item hitem => (hpending item hitem).1
  refine ⟨hround, hsub, h.ranked.of_subset hsub, hordered, h.evaluates.of_round hround,
    fun item hitem => ?_, fun item hitem => h.below item (hsub item hitem)⟩
  obtain ⟨-, other, hother, hlt⟩ := hpending item hitem
  exact Nat.lt_of_le_of_lt (Nat.succ_le_of_lt (h.above other hother)) hlt

theorem Underway.plain (h : Underway engine vars rank n bound run) (hle : bound ≤ n) :
    run.Plain := by
  apply List.eq_nil_iff_forall_not_mem.mpr
  intro item hitem
  have habove := h.above item hitem
  have hbelow := h.below item hitem
  omega

/-- Rounds enough for the ranks never fail to converge. -/
theorem Underway.not_diverges {f : Failure} (hengine : engine.Orderly)
    (h : Underway engine vars rank n bound run) (hrounds : bound ≤ n + rounds)
    (hsettle : settle engine vars rounds run = .error f) : ¬ Diverges f := by
  induction rounds generalizing run n with
  | zero =>
      rw [settle_of_plain 0 (h.plain hrounds)] at hsettle
      cases hsettle
  | succ rounds ih =>
      by_cases hplain : run.Plain
      · rw [settle_of_plain _ hplain] at hsettle
        cases hsettle
      · cases hfold : (run.pendingAt []).foldlM (step engine run (context run vars))
            ⟨run, [], false⟩ with
        | error f' =>
            obtain ⟨item, -, u, hstep⟩ := Outcome.exists_of_foldlM_eq_error hfold
            rw [settle_succ rounds hplain, round, hfold] at hsettle
            cases hsettle
            exact not_diverges_of_step hstep
        | ok done =>
            obtain ⟨hround, -, hnext⟩ := h.advance hengine hplain hfold
            rw [settle_of_round hplain hround] at hsettle
            exact ih hnext (by omega) hsettle

theorem exists_step (start : Round) (hkey : item.isKey = false)
    (hcompiles : ∃ references, engine.references item.source = .ok references)
    (heval : Ready engine d item → ∃ value, evaluate engine vars item = .ok value) :
    ∃ next, step engine d vars start item = .ok next := by
  obtain ⟨references, hok⟩ := hcompiles
  rw [step, hok]
  change ∃ next, (if !references.all (isReady d item.place) then _ else _) = Except.ok next
  split
  · exact ⟨_, rfl⟩
  · next hall =>
      obtain ⟨value, hvalue⟩ := heval ⟨references, hok, by simpa using hall⟩
      rw [hkey, hvalue]
      exact ⟨_, rfl⟩

/-- No source keeps a round from starting if all of them compile and evaluate. -/
theorem Evaluates.exists_foldlM (heval : Evaluates engine vars run)
    (htexts : ∀ item ∈ run.pendingAt [], item.isKey = false)
    (hcompiles : ∀ item ∈ run.pendingAt [], ∃ references,
      engine.references item.source = .ok references) :
    ∃ done, (run.pendingAt []).foldlM (step engine run (context run vars)) ⟨run, [], false⟩ =
      .ok done := by
  have hsteps : ∀ item ∈ run.pendingAt [], ∀ start, ∃ next,
      step engine run (context run vars) start item = .ok next := by
    intro item hitem start
    apply exists_step start (htexts item hitem) (hcompiles item hitem)
    intro hready
    obtain ⟨value, hvalue, -⟩ := heval 0 run .start item hitem hready
    exact ⟨value, hvalue⟩
  exact Outcome.exists_foldlM_eq_ok hsteps ⟨run, [], false⟩

/-- What a number of rounds has made of a ranked run. -/
structure Converged (engine : Engine) (vars : List (String × Document)) (rank : Place → Nat)
    (run : Document) (n : Nat) (out : Document) : Prop where
  reached : Reached engine vars run n out
  plain : out.Plain
  /-- Every text was ready in a round, at the latest in that of its rank, and its place holds the
  value that it had there. -/
  values : ∀ item ∈ run.pendingAt [], ∃ m d value, m < n ∧ m < rank item.place ∧
    Reached engine vars run m d ∧ item ∈ d.pendingAt [] ∧ Ready engine d item ∧
      evaluate engine (context d vars) item = .ok value ∧ out.at? item.place = some value
  /-- What stands apart from the texts is what it was. -/
  frame : ∀ place, (∀ item ∈ run.pendingAt [], Apart place item.place) →
    out.at? place = run.at? place

theorem converged_of_plain (h : run.Plain) : Converged engine vars rank run 0 run where
  reached := .start
  plain := h
  values item hitem := by
    rw [show run.pendingAt [] = [] from h] at hitem
    cases hitem
  frame _ _ := rfl

/-- What a round has written outlasts the rounds after it. -/
theorem Converged.of_round (h : Converged engine vars (fun place => rank place - 1) run' n out)
    (hd : run.Ordered) (htexts : ∀ item ∈ run.pendingAt [], item.isKey = false)
    (hpositive : ∀ item ∈ run.pendingAt [], 0 < rank item.place)
    (hround : round engine vars run (run.pendingAt []) = .ok run')
    (hrendered : Rendered engine run (context run vars) (run.pendingAt []) run run')
    (hpending : ∀ item, item ∈ run'.pendingAt [] ↔
      item ∈ run.pendingAt [] ∧ ¬ Ready engine run item) :
    Converged engine vars rank run (n + 1) out where
  reached := h.reached.of_round hround
  plain := h.plain
  values item hitem := by
    by_cases hready : Ready engine run item
    · obtain ⟨value, hvalue, hwritten⟩ := hrendered.values item hitem (htexts item hitem) hready
      have hapart : ∀ other ∈ run'.pendingAt [], Apart item.place other.place := by
        intro other hother
        obtain ⟨hother, hwaits⟩ := (hpending other).mp hother
        refine apart_of_texts (at?_of_mem_pendingAt hd hitem (htexts item hitem))
          (at?_of_mem_pendingAt hd hother (htexts other hother)) fun hplace => hwaits ?_
        rwa [← eq_of_place_eq hd hitem (htexts item hitem) hother (htexts other hother) hplace]
      exact ⟨0, run, value, Nat.succ_pos n, hpositive item hitem, .start, hitem, hready, hvalue,
        (h.frame item.place hapart).trans hwritten⟩
    · obtain ⟨m, d, value, hm, hrank, hreached, hd, hready, hvalue, hat⟩ :=
        h.values item ((hpending item).mpr ⟨hitem, hready⟩)
      exact ⟨m + 1, d, value, Nat.succ_lt_succ hm, by omega, hreached.of_round hround, hd, hready,
        hvalue, hat⟩
  frame place hplace := by
    rw [h.frame place fun item hitem => hplace item ((hpending item).mp hitem).1]
    apply hrendered.frame
    rintro p ⟨item, hitem, -, -, rfl⟩
    exact hplace item hitem

/-- If every source compiles, rounds enough for the ranks end in a run in which every text has been
replaced by its value. -/
theorem Underway.converges (hengine : engine.Orderly)
    (h : Underway engine vars rank n bound run)
    (hcompiles : ∀ item ∈ run.pendingAt [], ∃ references,
      engine.references item.source = .ok references) :
    ∃ k ≤ bound - n, ∃ out, Converged engine vars (fun place => rank place - n) run k out ∧
      ∀ rounds, bound ≤ n + rounds → settle engine vars rounds run = .ok out := by
  obtain ⟨left, hleft⟩ : ∃ left, left = bound - n := ⟨_, rfl⟩
  induction left generalizing run n with
  | zero =>
      have hplain : run.Plain := h.plain (by omega)
      exact ⟨0, Nat.zero_le _, run, converged_of_plain hplain,
        fun rounds _ => settle_of_plain rounds hplain⟩
  | succ left ih =>
      by_cases hplain : run.Plain
      · exact ⟨0, Nat.zero_le _, run, converged_of_plain hplain,
          fun rounds _ => settle_of_plain rounds hplain⟩
      · obtain ⟨done, hfold⟩ := h.evaluates.exists_foldlM h.ranked.texts hcompiles
        obtain ⟨hround, hsub, hnext⟩ := h.advance hengine hplain hfold
        obtain ⟨k, hk, out, hout, hsettle⟩ :=
          ih hnext (fun item hitem => hcompiles item (hsub item hitem)) (by omega)
        obtain ⟨hrendered, -⟩ :=
          rendered_of_foldlM hengine (listed_pendingAt h.ordered) h.ordered hfold
        have hpending : ∀ item, item ∈ done.run.pendingAt [] ↔
            item ∈ run.pendingAt [] ∧ ¬ Ready engine run item :=
          fun item => hrendered.mem_pendingAt_iff h.ordered h.ranked.texts
            (fun _ hitem _ => h.evaluates.plain hitem) hengine
        have hpositive : ∀ item ∈ run.pendingAt [], 0 < rank item.place - n :=
          fun item hitem => Nat.sub_pos_of_lt (h.above item hitem)
        refine ⟨k + 1, by omega, out, ?_, fun rounds hrounds => ?_⟩
        · exact hout.of_round h.ordered h.ranked.texts hpositive hround hrendered hpending
        · obtain ⟨k, rfl⟩ : ∃ k, rounds = k + 1 := ⟨rounds - 1, by omega⟩
          rw [settle_of_round hplain hround]
          exact hsettle k (by omega)

theorem not_diverges_of_resolveCommands {commands : Document} {f : Failure}
    (h : resolveCommands engine vars run commands = .error f) : ¬ Diverges f := by
  obtain ⟨_, -, _, hstep⟩ := Outcome.exists_of_foldlM_eq_error h
  exact not_diverges_of_commandStep hstep

/-- Acyclic references converge: if the texts beside the commands have ranks up to a bound that
decrease along the references, resolution never fails for want of progress or of rounds, and at most
as many rounds as the bound says end in the run in which every text has been replaced by its
value. -/
theorem resolve_converges (hengine : engine.Orderly) (hd : run.Ordered)
    (hranked : Ranked engine rank (withoutCommands run))
    (heval : Evaluates engine vars (withoutCommands run))
    (hpositive : ∀ item ∈ (withoutCommands run).pendingAt [], 1 ≤ rank item.place)
    (hbound : ∀ item ∈ (withoutCommands run).pendingAt [], rank item.place ≤ bound)
    (hmax : bound ≤ Vocabulary.maxPlaceholderRounds) :
    (∀ f, resolve engine vars run = .error f → ¬ Diverges f) ∧
      ((∀ item ∈ (withoutCommands run).pendingAt [], ∃ references,
          engine.references item.source = .ok references) →
        ∃ n ≤ bound, ∃ out, Converged engine vars rank (withoutCommands run) n out ∧
          ∀ rounds, bound ≤ rounds →
            settle engine vars rounds (withoutCommands run) = .ok out) := by
  have h : Underway engine vars rank 0 bound (withoutCommands run) :=
    ⟨hranked, ordered_withoutCommands hd, heval, hpositive, hbound⟩
  constructor
  · intro f hf
    cases run with
    | map fields =>
        rw [resolve] at hf
        split at hf
        · cases hf
          intro hdiverges
          cases hdiverges
        · rcases Outcome.bind_eq_error.mp hf with hf | ⟨resolved, -, hf⟩
          · exact h.not_diverges hengine (by omega) hf
          · split at hf
            · rcases Outcome.bind_eq_error.mp hf with hf | ⟨_, -, hf⟩
              · exact not_diverges_of_resolveCommands hf
              · cases hf
            · cases hf
    | _ =>
        rw [resolve] at hf
        · split at hf <;> cases hf <;> intro hdiverges <;> cases hdiverges
        · exact fun fields heq => by cases heq
  · intro hcompiles
    simpa using h.converges hengine hcompiles

end Rounds

/-- The ranks of the chain. -/
def chainRank (place : Place) : Nat :=
  if place = [.key "a"] then 2 else 1

/-- A text of the chain reads the next field and no other. -/
theorem path_of_mem_references {source name : String} {references : List KeyPath}
    (h : Engine.Refers source name) (hok : (Engine.fields false).references source = .ok references)
    (hpath : Vocabulary.runBinding :: path ∈ references) : path = [name] := by
  rw [Engine.references_fields h, Except.ok.injEq] at hok
  subst hok
  simpa using hpath

theorem ranked_chain : Ranked (Engine.fields false) chainRank chain where
  texts := by simp [pendingAt_chain]
  decreases u hu v hv hne references path hok hpath hrelated := by
    rw [pendingAt_chain, List.mem_pair] at hu hv
    rcases hu with rfl | rfl <;> rcases hv with rfl | rfl
    · exact absurd rfl hne
    · decide
    · rw [path_of_mem_references refers_chain.2 hok hpath] at hrelated
      exact absurd hrelated (by decide)
    · exact absurd rfl hne
  notBelow u hu references path hok hpath hbelow := by
    rw [pendingAt_chain, List.mem_pair] at hu
    rcases hu with rfl | rfl
    · rw [path_of_mem_references refers_chain.1 hok hpath] at hbelow
      exact absurd hbelow (by decide)
    · rw [path_of_mem_references refers_chain.2 hok hpath] at hbelow
      exact absurd hbelow (by decide)

theorem reached_chain (h : Reached (Engine.fields false) [] chain n d) :
    d = chain ∨ d = chainHalfway ∨ d = chainResolved := by
  induction h with
  | start => exact .inl rfl
  | next _ hround ih =>
      rcases ih with rfl | rfl | rfl
      · rw [round_chain, Except.ok.injEq] at hround
        exact .inr (.inl hround.symm)
      · rw [round_chainHalfway, Except.ok.injEq] at hround
        exact .inr (.inr hround.symm)
      · rw [show chainResolved.pendingAt [] = [] from plain_chainResolved] at hround
        cases hround

theorem evaluates_chain : Evaluates (Engine.fields false) [] chain := by
  intro n d hd item hitem hready
  obtain ⟨references, hok, hall⟩ := hready
  rcases reached_chain hd with rfl | rfl | rfl
  · rw [pendingAt_chain, List.mem_pair] at hitem
    rcases hitem with rfl | rfl
    · -- the first text has to wait for the second one
      have hwaits : isReady chain [.key "a"] [Vocabulary.runBinding, "b"] = false := by decide
      rw [Engine.references_fields refers_chain.1, Except.ok.injEq] at hok
      subst hok
      rw [List.all_cons, hwaits] at hall
      cases hall
    · exact ⟨.str "x", evaluate_fields refers_chain.2 rfl false _, plain_str.mpr (by decide)⟩
  · rw [pendingAt_chainHalfway, List.mem_singleton] at hitem
    subst hitem
    exact ⟨.str "x", evaluate_fields refers_chain.1 rfl false _, plain_str.mpr (by decide)⟩
  · rw [show chainResolved.pendingAt [] = [] from plain_chainResolved] at hitem
    cases hitem

theorem compiles_chain : ∀ item ∈ chain.pendingAt [], ∃ references,
    (Engine.fields false).references item.source = .ok references := by
  intro item hitem
  rw [pendingAt_chain, List.mem_pair] at hitem
  rcases hitem with rfl | rfl
  · exact ⟨_, Engine.references_fields refers_chain.1 false⟩
  · exact ⟨_, Engine.references_fields refers_chain.2 false⟩

/-- The chain is resolved within two rounds. -/
theorem converges_chain :
    ((Engine.fields false).Orderly ∧ chain.Ordered ∧
      Ranked (Engine.fields false) chainRank (withoutCommands chain) ∧
      Evaluates (Engine.fields false) [] (withoutCommands chain) ∧
      (∀ item ∈ (withoutCommands chain).pendingAt [], 1 ≤ chainRank item.place) ∧
      (∀ item ∈ (withoutCommands chain).pendingAt [], chainRank item.place ≤ 2) ∧
      2 ≤ Vocabulary.maxPlaceholderRounds) ∧
    (∀ f, resolve (Engine.fields false) [] chain = .error f → ¬ Diverges f) ∧
      (∀ item ∈ (withoutCommands chain).pendingAt [], ∃ references,
        (Engine.fields false).references item.source = .ok references) ∧
      ∃ n ≤ 2,
        Converged (Engine.fields false) [] chainRank (withoutCommands chain) n chainResolved ∧
          ∀ rounds, 2 ≤ rounds →
            settle (Engine.fields false) [] rounds (withoutCommands chain) = .ok chainResolved := by
  have hengine := Engine.orderly_fields false
  have hd : chain.Ordered := by decide
  have hpositive : ∀ item ∈ chain.pendingAt [], 1 ≤ chainRank item.place := by
    rw [pendingAt_chain]
    decide
  have hbound : ∀ item ∈ chain.pendingAt [], chainRank item.place ≤ 2 := by
    rw [pendingAt_chain]
    decide
  have hmax : 2 ≤ Vocabulary.maxPlaceholderRounds := by decide
  obtain ⟨hnot, hconverges⟩ :=
    resolve_converges hengine hd ranked_chain evaluates_chain hpositive hbound hmax
  obtain ⟨n, hn, out, hout, hsettle⟩ := hconverges compiles_chain
  obtain rfl : chainResolved = out :=
    Except.ok.inj ((settle_chain 0).symm.trans (hsettle 2 (Nat.le_refl 2)))
  exact ⟨⟨hengine, hd, ranked_chain, evaluates_chain, hpositive, hbound, hmax⟩, hnot,
    compiles_chain, n, hn, hout, hsettle⟩

end Resolution

end ExperimentSuite
