import ExperimentSuite.Proofs.Placeholder.Failures
import ExperimentSuite.Proofs.Placeholder.Relabelling
import ExperimentSuite.Proofs.Placeholder.Stability

/-!
# Every rendering lands in its place

A round collects the places of its sources once, and uses them on a run that
changes with every source. A text is still where it was recorded when its turn
comes, as texts stand apart from each other and keys are not renamed before all
values are written. The keys are where they were recorded as well: a value takes
the place of a text, which holds nothing, and of two keys one of which stands
below the other the deeper one is renamed first. The renamings of a round are
therefore one relabelling of the run that the writing has left.
-/

namespace ExperimentSuite

namespace Text

theorem hexValue?_digitChar {n : Nat} (h : n < 10) : hexValue? n.digitChar = some n := by
  revert n
  decide

/-- The decimal digits of a number are read back. -/
theorem numberIn?_toString (n : Nat) : numberIn? 10 (toString n).toList = some n := by
  have hdigits : (toString n).toList = Nat.toDigits 10 n := Nat.toList_repr
  rw [hdigits, numberIn?, if_neg (by simp)]
  induction n using Nat.strongRecOn with
  | ind n ih =>
      by_cases hn : n < 10
      · simp [Nat.toDigits_of_lt_base hn, hexValue?_digitChar hn, hn]
      · have hlast : n % 10 < 10 := Nat.mod_lt n (by decide)
        have hsplit : n / 10 * 10 + n % 10 = n := by omega
        rw [Nat.toDigits_of_base_le (by decide) (by omega), List.foldl_append,
          ih (n / 10) (by omega) Nat.toList_repr]
        simp [hexValue?_digitChar hlast, hlast, hsplit]

end Text

namespace Document

variable {d c : Document} {place : Place}

/-- The value at the place that the texts of its steps give. An item of a list is given by its
position in decimal. -/
def slot? : Document → List String → Option Document
  | d, [] => some d
  | .map fields, name :: rest => (Keyed.find? name fields).bind (slot? · rest)
  | .list items, name :: rest =>
      (Text.numberIn? 10 name.toList).bind fun n => items[n]?.bind (slot? · rest)
  | _, _ :: _ => none

/-- What stands at a place is found under the texts of its steps. -/
theorem slot?_of_at? (h : d.at? place = some c) : d.slot? (place.map Step.text) = some c := by
  induction place generalizing d with
  | nil =>
      rw [at?_nil] at h
      cases d <;> exact h
  | cons step rest ih =>
      rw [at?_cons] at h
      obtain ⟨child, hchild, hbelow⟩ := Option.bind_eq_some_iff.mp h
      cases d with
      | map fields =>
          cases step with
          | index n => cases hchild
          | key name =>
              have hfound : Keyed.find? name fields = some child := hchild
              rw [List.map_cons, Step.text, slot?, hfound]
              exact ih hbelow
      | list items =>
          cases step with
          | key name => cases hchild
          | index n =>
              have hfound : items[n]? = some child := hchild
              rw [List.map_cons, Step.text, slot?, Text.numberIn?_toString, Option.bind_some,
                hfound]
              exact ih hbelow
      | _ => cases hchild

end Document

namespace Resolution

open Document KeyPath

variable {engine : Engine} {snapshot run run' d : Document} {vars : List (String × Document)}
  {item : Pending} {items rest : List Pending} {start before after done : Round} {place : Place}
  {r : Rename} {renames : List Rename}

/-- The texts whose turn has not come stay where they are listed. -/
theorem Listed.of_foldlM {front : List Pending} (hl : Listed (front ++ rest) start.run)
    (h : front.foldlM (step engine snapshot vars) start = .ok done) : Listed rest done.run := by
  induction front generalizing start with
  | nil =>
      cases h
      exact hl
  | cons item front ih =>
      obtain ⟨next, hnext, h⟩ := Outcome.foldlM_cons_eq_ok.mp h
      refine ih ?_ h
      rcases step_cases hnext with ⟨-, rfl⟩ | ⟨-, -, name, -, rfl⟩ | ⟨-, hkey, value, -, rfl⟩
      · exact hl.tail
      · exact hl.tail
      · obtain ⟨middle, hput⟩ := exists_putAt? value (hl.texts item List.mem_cons_self hkey)
        rw [hput]
        exact hl.putAt? hkey hput

/-- Nothing loses its place by the writing. -/
theorem Rendered.isSome_at? (h : Rendered engine snapshot vars items run run')
    (hl : Listed items run) (hsome : (run.at? place).isSome) : (run'.at? place).isSome := by
  by_cases hapart : ∀ p, Written engine snapshot items p → Apart place p
  · rw [h.frame place hapart]
    exact hsome
  · push Not at hapart
    obtain ⟨_, ⟨item, hitem, hkey, hready, rfl⟩, hnot⟩ := hapart
    obtain ⟨value, -, hvalue⟩ := h.values item hitem hkey hready
    have hwritten : (run'.at? item.place).isSome := by
      rw [hvalue]
      rfl
    rcases prefix_or_prefix_or_apart place item.place with habove | ⟨rest, rfl⟩ | hapart
    · exact isSome_at?_of_isPrefix hwritten habove
    · cases rest with
      | nil => rwa [List.append_nil]
      | cons step rest =>
          rw [at?_append_of_str (hl.texts item hitem hkey)] at hsome
          cases hsome
    · exact absurd hapart hnot

/-- No two keys are listed at one place. -/
theorem Listed.eq_of_place_eq {other : Pending} (h : Listed items run) (hitem : item ∈ items)
    (hkey : item.isKey = true) (hother : other ∈ items) (hkey' : other.isKey = true)
    (hplace : item.place = other.place) : item = other := by
  obtain ⟨parent, hparent⟩ := h.keys item hitem hkey
  obtain ⟨parent', hparent'⟩ := h.keys other hother hkey'
  rw [hparent, hparent'] at hplace
  have hsource : item.source = other.source := by simpa using (List.append_inj' hplace rfl).2
  cases item
  cases other
  simp_all

/-- The keys that a round renames are found where they have been recorded, once each. -/
theorem recorded_of_foldlM (hengine : engine.Orderly) (hd : run.Ordered)
    (h : (run.pendingAt []).foldlM (step engine snapshot vars) ⟨run, [], false⟩ = .ok done) :
    Recorded done.renames done.run := by
  have hlisted := listed_pendingAt hd
  obtain ⟨hrendered, -⟩ := rendered_of_foldlM hengine hlisted hd h
  constructor
  case keys =>
    intro r hr
    obtain ⟨item, hitem, hkey, hplace⟩ := exists_key_of_mem_renames h hr
    obtain ⟨parent, hparent⟩ := hlisted.keys item hitem hkey
    exact ⟨parent, item.source, hplace.trans hparent⟩
  case present =>
    intro r hr
    obtain ⟨item, hitem, hkey, hplace⟩ := exists_key_of_mem_renames h hr
    rw [hplace]
    apply hrendered.isSome_at? hlisted
    obtain ⟨-, rest, hrest, ⟨hkey', -⟩ | ⟨-, hsome, -⟩⟩ := (mem_pendingAt_iff hd).mp hitem
    · rw [hkey] at hkey'
      cases hkey'
    · rw [hrest]
      exact hsome
  case distinct =>
    have hnodup : ((readyKeys engine snapshot (run.pendingAt [])).map Pending.place).Nodup := by
      refine List.Nodup.map_on ?_ (hlisted.nodup.filter _)
      intro item hitem other hother heq
      simp only [readyKeys, List.mem_filter, Bool.and_eq_true] at hitem hother
      exact hlisted.eq_of_place_eq hitem.1 hitem.2.1 hother.1 hother.2.1 heq
    rw [← map_place_renames h] at hnodup
    exact List.pairwise_map.mp hnodup

/-- What the writing of one value makes of a run: the value stands where its source was recorded,
and everything apart from there stays. -/
structure Replaced (engine : Engine) (vars : List (String × Document)) (item : Pending)
    (before after : Document) : Prop where
  value : ∃ value, evaluate engine vars item = .ok value ∧
    before.putAt? item.place value = some after ∧ after.at? item.place = some value
  frame : ∀ place, Apart place item.place → after.at? place = before.at? place

theorem replaced_of_step (hat : before.run.at? item.place = some (.str item.source))
    (hkey : item.isKey = false) (hready : Ready engine snapshot item)
    (h : step engine snapshot vars before item = .ok after) :
    Replaced engine vars item before.run after.run := by
  rcases step_cases h with ⟨hnot, -⟩ | ⟨-, hkey', -⟩ | ⟨-, -, value, hvalue, rfl⟩
  · exact absurd hready hnot
  · rw [hkey] at hkey'
    cases hkey'
  · obtain ⟨middle, hput⟩ := exists_putAt? value hat
    rw [hput, Option.getD_some]
    exact ⟨⟨value, hvalue, hput, at?_putAt?_self hput⟩,
      fun place hplace => at?_modifyAt?_of_apart hput hplace⟩

/-- The writing of a round as far as some of its sources. -/
def writing (engine : Engine) (vars : List (String × Document)) (run : Document)
    (items : List Pending) : Except Failure Round :=
  items.foldlM (step engine run (context run vars)) ⟨run, [], false⟩

/-- Where the sources of a round land. -/
structure Lands (engine : Engine) (vars : List (String × Document)) (run : Document) : Prop where
  /-- Whatever has been written before, the slot of a text is found and holds that text. The value
  of the text, if it is ready, takes the place of the text and of nothing else. -/
  slot : ∀ front item rest before, run.pendingAt [] = front ++ item :: rest →
    writing engine vars run front = .ok before → item.isKey = false →
      before.run.at? item.place = some (.str item.source) ∧
      before.run.slot? (item.place.map Step.text) = some (.str item.source) ∧
      ∀ after, Ready engine run item → step engine run (context run vars) before item = .ok after →
        Replaced engine (context run vars) item before.run after.run
  /-- When all is written, every value is in place, and there has been progress exactly if a source
  was ready. -/
  written : ∀ done, writing engine vars run (run.pendingAt []) = .ok done →
    Rendered engine run (context run vars) (run.pendingAt []) run done.run ∧
    (done.progressed = true ↔ ∃ item ∈ run.pendingAt [], Ready engine run item)
  /-- The keys that are ready are to be renamed, and no other ones. -/
  noted : ∀ done, writing engine vars run (run.pendingAt []) = .ok done →
    List.Forall₂ (Noted engine (context run vars)) (readyKeys engine run (run.pendingAt []))
      done.renames
  /-- Whatever has been renamed before, the mapping that holds a key is found under the place that
  has been recorded for the key, and holds the key. -/
  holder : ∀ done front r rest d, writing engine vars run (run.pendingAt []) = .ok done →
    deepestFirst done.renames = front ++ r :: rest → front.foldlM rename done.run = .ok d →
      ∃ parent old fields, r.place = parent ++ [.key old] ∧ d.at? parent = some (.map fields) ∧
        d.slot? (parent.map Step.text) = some (.map fields) ∧ Keyed.hasKey old fields = true
  /-- What comes out is the run that has been written, relabelled by all renamings at once, and each
  renamed key carries what has been written under it. -/
  renamed : ∀ run', round engine vars run (run.pendingAt []) = .ok run' →
    ∃ done, writing engine vars run (run.pendingAt []) = .ok done ∧
      (∀ d : Document, d.Ordered → (Relabelled (newKey done.renames) [] done.run d ↔ d = run')) ∧
      ∀ r ∈ done.renames, Carried done.renames r done.run run'
  /-- The mapping that holds a key is never missing. -/
  spared : ∀ text,
    round engine vars run (run.pendingAt []) ≠ .error (.template text .keyHolderMissing)

/-- No round misses the mapping that holds a key. -/
theorem failsOnly_round_pendingAt (hengine : engine.Orderly) (hd : run.Ordered) :
    Outcome.FailsOnly Failure.SparesHolders (round engine vars run (run.pendingAt [])) := by
  refine failsOnly_round_of_renames (fun _ h => h) fun done hdone => ?_
  have hrecorded := recorded_of_foldlM hengine hd hdone
  have hsorted := hrecorded.perm (perm_deepestFirst done.renames).symm
  refine (hsorted.failsOnly_foldlM (descending_deepestFirst done.renames)).mono ?_
  rintro _ ⟨r, -, rfl⟩
  exact sparesHolders_template (by simp)

theorem lands_of_ordered (hengine : engine.Orderly) (hd : run.Ordered) :
    Lands engine vars run := by
  have hlisted := listed_pendingAt hd
  constructor
  case slot =>
    intro front item rest before hpending hbefore hkey
    have hall : Listed (front ++ item :: rest) (⟨run, [], false⟩ : Round).run := hpending ▸ hlisted
    have hrest : Listed (item :: rest) before.run := hall.of_foldlM hbefore
    have hat := hrest.texts item List.mem_cons_self hkey
    exact ⟨hat, slot?_of_at? hat, fun after hready => replaced_of_step hat hkey hready⟩
  case written =>
    intro done hdone
    obtain ⟨hrendered, hprogressed⟩ := rendered_of_foldlM hengine hlisted hd hdone
    exact ⟨hrendered, by simpa using hprogressed⟩
  case noted => exact fun done hdone => forall₂_noted hdone
  case holder =>
    intro done front r rest d hdone hsorted hfront
    have hrecorded := recorded_of_foldlM hengine hd hdone
    have hdescending := descending_deepestFirst done.renames
    have hperm := (perm_deepestFirst done.renames).symm
    rw [hsorted] at hdescending hperm
    obtain ⟨parent, old, fields, value, hplace, hat, hvalue⟩ :=
      ((hrecorded.perm hperm).remaining hdescending hfront).holder
    refine ⟨parent, old, fields, hplace, hat, slot?_of_at? hat, ?_⟩
    rw [Keyed.hasKey, hvalue]
    rfl
  case renamed =>
    intro run' hround
    obtain ⟨done, hdone, hrendered, -, hrenamed⟩ := round_cases hengine hd hround
    have hrecorded := recorded_of_foldlM hengine hd hdone
    obtain ⟨hordered', hrelabelled⟩ :=
      hrecorded.relabelled_of_renameAll hrendered.ordered hrenamed
    refine ⟨done, hdone, fun d hordered => ⟨fun h => ?_, ?_⟩, fun r hr => ?_⟩
    · exact h.unique hrelabelled hordered hordered'
    · rintro rfl
      exact hrelabelled
    · exact hrecorded.carried hrendered.ordered hrenamed hr
  case spared => exact ne_keyHolderMissing (failsOnly_round_pendingAt hengine hd)

/-- In every round of a resolution all sources land in their places, so that no resolution fails as
the mapping that holds a key is missing. -/
theorem resolve_lands (hengine : engine.Orderly) (hd : run.Ordered) :
    (∀ n d, Reached engine vars (withoutCommands run) n d → Lands engine vars d) ∧
      ∀ text, resolve engine vars run ≠ .error (.template text .keyHolderMissing) := by
  have hordered : ∀ n d, Reached engine vars (withoutCommands run) n d → d.Ordered :=
    fun n d hreached => hreached.ordered hengine (ordered_withoutCommands hd)
  have hfails : Outcome.FailsOnly Failure.SparesHolders (resolve engine vars run) :=
    failsOnly_resolve_of_rounds (fun _ h => h) fun n d hreached =>
      failsOnly_round_pendingAt hengine (hordered n d hreached)
  exact ⟨fun n d hreached => lands_of_ordered hengine (hordered n d hreached),
    ne_keyHolderMissing hfails⟩

/-- A run with a text under a key in a list, both of them under other keys that are rendered. -/
def nestedRun : Document :=
  .map [("[% name %]", .map [("[% n %]", .list [.map [("[% name %]", .str "[% n %]")]])])]

/-- What comes out of it in one round. -/
def nestedResolved : Document :=
  .map [("x", .map [("4", .list [.map [("x", .nat 4)]])])]

theorem pendingAt_nestedRun : nestedRun.pendingAt [] =
    [⟨[.key "[% name %]"], "[% name %]", true⟩,
      ⟨[.key "[% name %]", .key "[% n %]"], "[% n %]", true⟩,
      ⟨[.key "[% name %]", .key "[% n %]", .index 0, .key "[% name %]"], "[% name %]", true⟩,
      ⟨[.key "[% name %]", .key "[% n %]", .index 0, .key "[% name %]"], "[% n %]", false⟩] := by
  rfl

/-- The renamings that are noted in its round. -/
def nestedRenames : List Rename :=
  [⟨[.key "[% name %]"], "x"⟩, ⟨[.key "[% name %]", .key "[% n %]"], "4"⟩,
    ⟨[.key "[% name %]", .key "[% n %]", .index 0, .key "[% name %]"], "x"⟩]

/-- The deepest key is renamed first. -/
theorem mergeSort_nestedRenames :
    nestedRenames.mergeSort (fun a b => decide (b.place.length ≤ a.place.length)) =
      nestedRenames.reverse := by
  simp [nestedRenames, List.mergeSort, List.MergeSort.Internal.splitInTwo]

theorem render_nestedRun :
    (Template.engine false).render (context nestedRun templatedVars) "[% name %]" = .ok "x" ∧
      (Template.engine false).render (context nestedRun templatedVars) "[% n %]" = .ok "4" := by
  constructor <;> decide +kernel

theorem round_nestedRun :
    round (Template.engine false) templatedVars nestedRun (nestedRun.pendingAt []) =
      .ok nestedResolved := by
  obtain ⟨hname, hn⟩ := references_templatedFields
  obtain ⟨hx, hfour⟩ := render_nestedRun
  have hdone : (nestedRun.pendingAt []).foldlM (step (Template.engine false) nestedRun
      (context nestedRun templatedVars)) ⟨nestedRun, [], false⟩ = .ok
        ⟨.map [("[% name %]", .map [("[% n %]", .list [.map [("[% name %]", .nat 4)]])])],
          nestedRenames, true⟩ := by
    rw [pendingAt_nestedRun]
    refine Outcome.foldlM_cons_eq_ok.mpr ⟨_, step_of_key hname (by decide) rfl hx, ?_⟩
    refine Outcome.foldlM_cons_eq_ok.mpr ⟨_, step_of_key hn (by decide) rfl hfour, ?_⟩
    refine Outcome.foldlM_cons_eq_ok.mpr ⟨_, step_of_key hname (by decide) rfl hx, ?_⟩
    refine Outcome.foldlM_cons_eq_ok.mpr ⟨_, step_of_text hn (by decide) rfl
      (evaluate_templatedVars nestedRun _), ?_⟩
    rfl
  rw [round_eq_renameAll hdone rfl, renameAll, mergeSort_nestedRenames]
  rfl

theorem lands_nestedRun :
    ((Template.engine false).Orderly ∧ nestedRun.Ordered ∧
      round (Template.engine false) templatedVars nestedRun (nestedRun.pendingAt []) =
        .ok nestedResolved) ∧
    (∀ n d, Reached (Template.engine false) templatedVars (withoutCommands nestedRun) n d →
      Lands (Template.engine false) templatedVars d) ∧
    ∀ text, resolve (Template.engine false) templatedVars nestedRun ≠
      .error (.template text .keyHolderMissing) := by
  have hengine : (Template.engine false).Orderly := Template.orderly_engine false
  have hd : nestedRun.Ordered := by decide
  exact ⟨⟨hengine, hd, round_nestedRun⟩, resolve_lands hengine hd⟩

end Resolution

end ExperimentSuite
