import ExperimentSuite.Proofs.Outcome
import ExperimentSuite.Proofs.Placeholder.Evolution

/-!
# Rounds of resolution

A round writes the value of every text that is ready into the run and then
renames the keys that are ready. All the texts stand apart from each other, so
each value is in place when the writing is over and everything apart from the
written places is what it was; the renaming reaches pending keys only. What
holds of one round is carried over all of them, up to a run without pending
sources.
-/

namespace ExperimentSuite

/-- The values of an engine are ordered documents. -/
def Engine.Orderly (engine : Engine) : Prop :=
  ∀ vars expression value, engine.evaluate vars expression = .ok (some value) → value.Ordered

namespace Resolution

open Document KeyPath

variable {engine : Engine} {snapshot run run' d : Document} {vars : List (String × Document)}
  {item : Pending} {items : List Pending} {start done : Round} {value out : Document}
  {rounds n : Nat}

/-- A source compiles and none of its references is an obstacle. -/
def Ready (engine : Engine) (snapshot : Document) (item : Pending) : Prop :=
  ∃ references, engine.references item.source = .ok references ∧
    references.all (isReady snapshot item.place) = true

instance (engine : Engine) (snapshot : Document) (item : Pending) :
    Decidable (Ready engine snapshot item) :=
  match h : engine.references item.source with
  | .ok references =>
      decidable_of_iff (references.all (isReady snapshot item.place) = true)
        ⟨fun hall => ⟨references, h, hall⟩, fun ⟨_, h', hall⟩ => by
          rw [h, Except.ok.injEq] at h'
          rwa [h']⟩
  | .error _ => .isFalse fun ⟨_, h', _⟩ => by
      rw [h] at h'
      cases h'

theorem ordered_of_evaluate (hengine : engine.Orderly)
    (h : evaluate engine vars item = .ok value) : value.Ordered := by
  rw [evaluate] at h
  split at h
  · obtain ⟨text, -, h⟩ := Outcome.bind_eq_ok.mp h
    cases h
    trivial
  · next expression _ =>
      obtain ⟨result, hresult, h⟩ := Outcome.bind_eq_ok.mp h
      cases result with
      | some v =>
          cases h
          exact hengine _ _ _ (Outcome.mapError_eq_ok.mp hresult)
      | none =>
          dsimp only at h
          split at h
          · cases h; trivial
          · cases h

/-- A step waits, takes note of a renaming, or writes a value. -/
theorem step_cases (h : step engine snapshot vars start item = .ok done) :
    (¬ Ready engine snapshot item ∧ done = start) ∨
      (Ready engine snapshot item ∧ item.isKey = true ∧ ∃ name,
        engine.render vars item.source = .ok name ∧
          done = ⟨start.run, start.renames ++ [⟨item.place, name⟩], true⟩) ∨
      (Ready engine snapshot item ∧ item.isKey = false ∧ ∃ value,
        evaluate engine vars item = .ok value ∧
          done = ⟨(start.run.putAt? item.place value).getD start.run, start.renames, true⟩) := by
  rw [step, Outcome.bind_eq_ok] at h
  obtain ⟨references, hreferences, h⟩ := h
  have hok := Outcome.mapError_eq_ok.mp hreferences
  split at h
  · next hnot =>
      cases h
      refine .inl ⟨?_, rfl⟩
      rintro ⟨references', hok', hall⟩
      rw [hok, Except.ok.injEq] at hok'
      simp [hok', hall] at hnot
  · next hall =>
      have hready : Ready engine snapshot item := ⟨references, hok, by simpa using hall⟩
      split at h
      · next hkey =>
          obtain ⟨name, hname, h⟩ := Outcome.bind_eq_ok.mp h
          cases h
          exact .inr (.inl ⟨hready, hkey, name, Outcome.mapError_eq_ok.mp hname, rfl⟩)
      · next hkey =>
          obtain ⟨value, hvalue, h⟩ := Outcome.bind_eq_ok.mp h
          cases h
          exact .inr (.inr ⟨hready, by simpa using hkey, value, hvalue, rfl⟩)

theorem step_of_text {references : List KeyPath}
    (hreferences : engine.references item.source = .ok references)
    (hready : references.all (isReady snapshot item.place) = true) (hkey : item.isKey = false)
    (hvalue : evaluate engine vars item = .ok value) :
    step engine snapshot vars start item =
      .ok ⟨(start.run.putAt? item.place value).getD start.run, start.renames, true⟩ := by
  rw [step, hreferences, hkey, hvalue]
  change (if !references.all (isReady snapshot item.place) then _ else _) = _
  rw [hready]
  rfl

theorem step_of_key {references : List KeyPath} {name : String}
    (hreferences : engine.references item.source = .ok references)
    (hready : references.all (isReady snapshot item.place) = true) (hkey : item.isKey = true)
    (hname : engine.render vars item.source = .ok name) :
    step engine snapshot vars start item =
      .ok ⟨start.run, start.renames ++ [⟨item.place, name⟩], true⟩ := by
  rw [step, hreferences, hkey, hname]
  change (if !references.all (isReady snapshot item.place) then _ else _) = _
  rw [hready]
  rfl

theorem step_of_wait {references : List KeyPath}
    (hreferences : engine.references item.source = .ok references)
    (hwaits : references.all (isReady snapshot item.place) = false) :
    step engine snapshot vars start item = .ok start := by
  rw [step, hreferences]
  change (if !references.all (isReady snapshot item.place) then _ else _) = _
  rw [hwaits]
  rfl

/-- Sources that are listed once each and whose texts all stand where they are listed. -/
structure Listed (items : List Pending) (run : Document) : Prop where
  nodup : items.Nodup
  pending : ∀ item ∈ items, Placeholder.occursIn item.source = true
  texts : ∀ item ∈ items, item.isKey = false → run.at? item.place = some (.str item.source)
  keys : ∀ item ∈ items, item.isKey = true → ∃ parent, item.place = parent ++ [.key item.source]

theorem listed_pendingAt (hd : run.Ordered) : Listed (run.pendingAt []) run where
  nodup := nodup_pendingAt hd
  pending item h := ((mem_pendingAt_iff hd).mp h).1
  texts item h hkey := at?_of_mem_pendingAt hd h hkey
  keys item h hkey := by
    obtain ⟨-, rest, hplace, ⟨hkey', -⟩ | ⟨-, -, parent, hrest⟩⟩ := (mem_pendingAt_iff hd).mp h
    · rw [hkey] at hkey'
      cases hkey'
    · exact ⟨parent, by rw [hplace, hrest]; rfl⟩

theorem Listed.tail (h : Listed (item :: items) run) : Listed items run where
  nodup := (List.nodup_cons.mp h.nodup).2
  pending i hi := h.pending i (List.mem_cons_of_mem _ hi)
  texts i hi := h.texts i (List.mem_cons_of_mem _ hi)
  keys i hi := h.keys i (List.mem_cons_of_mem _ hi)

/-- Two listed texts stand apart. -/
theorem Listed.apart (h : Listed (item :: items) run) (hkey : item.isKey = false) {i : Pending}
    (hi : i ∈ items) (hikey : i.isKey = false) : Apart i.place item.place := by
  have hitem := h.texts item List.mem_cons_self hkey
  have hat := h.texts i (List.mem_cons_of_mem _ hi) hikey
  apply apart_of_texts hat hitem
  intro hplace
  rw [hplace, hitem, Option.some.injEq, str.injEq] at hat
  have heq : i = item := by
    cases i
    cases item
    simp_all
  exact (List.nodup_cons.mp h.nodup).1 (heq ▸ hi)

/-- The places that a round writes: those of the listed texts that are ready. -/
def Written (engine : Engine) (snapshot : Document) (items : List Pending) (place : Place) : Prop :=
  ∃ item ∈ items, item.isKey = false ∧ Ready engine snapshot item ∧ item.place = place

/-- What the writing of a round has achieved. -/
structure Rendered (engine : Engine) (snapshot : Document) (vars : List (String × Document))
    (items : List Pending) (run run' : Document) : Prop where
  ordered : run'.Ordered
  evolves : Evolves (Written engine snapshot items) run run'
  frame : ∀ place, (∀ p, Written engine snapshot items p → Apart place p) →
    run'.at? place = run.at? place
  /-- Every text that was ready has been replaced by its value. -/
  values : ∀ item ∈ items, item.isKey = false → Ready engine snapshot item →
    ∃ value, evaluate engine vars item = .ok value ∧ run'.at? item.place = some value

theorem written_cons {place : Place} :
    Written engine snapshot (item :: items) place ↔
      (item.isKey = false ∧ Ready engine snapshot item ∧ item.place = place) ∨
        Written engine snapshot items place := by
  simp [Written]

theorem rendered_nil (hd : run.Ordered) : Rendered engine snapshot vars [] run run where
  ordered := hd
  evolves := Evolves.refl _ run
  frame _ _ := rfl
  values := by simp

/-- A key, or a text that is not ready, has nothing written. -/
theorem Rendered.skip (h : Rendered engine snapshot vars items run run')
    (hskip : item.isKey = true ∨ ¬ Ready engine snapshot item) :
    Rendered engine snapshot vars (item :: items) run run' where
  ordered := h.ordered
  evolves := h.evolves.mono fun _ hp => written_cons.mpr (.inr hp)
  frame place hplace := h.frame place fun p hp => hplace p (written_cons.mpr (.inr hp))
  values i hi hkey hready := by
    rcases List.mem_cons.mp hi with rfl | hi
    · rcases hskip with hskip | hskip
      · rw [hskip] at hkey
        cases hkey
      · exact absurd hready hskip
    · exact h.values i hi hkey hready

theorem Listed.putAt? (h : Listed (item :: items) run) (hkey : item.isKey = false)
    (hput : run.putAt? item.place value = some run') : Listed items run' where
  nodup := h.tail.nodup
  pending := h.tail.pending
  texts i hi hikey := by
    rw [at?_modifyAt?_of_apart hput (h.apart hkey hi hikey)]
    exact h.tail.texts i hi hikey
  keys := h.tail.keys

/-- The value of a text that is ready is written and outlasts the writing of the others. -/
theorem Rendered.write {middle : Document} (hl : Listed (item :: items) run)
    (hkey : item.isKey = false) (hready : Ready engine snapshot item)
    (hvalue : evaluate engine vars item = .ok value)
    (hput : run.putAt? item.place value = some middle)
    (h : Rendered engine snapshot vars items middle run') :
    Rendered engine snapshot vars (item :: items) run run' where
  ordered := h.ordered
  evolves := by
    have hwritten : Written engine snapshot (item :: items) item.place :=
      written_cons.mpr (.inl ⟨hkey, hready, rfl⟩)
    have hfirst : Evolves (Written engine snapshot (item :: items)) run middle :=
      Evolves.putAt? (hl.texts item List.mem_cons_self hkey) (hl.pending item List.mem_cons_self)
        hwritten hput
    exact hfirst.trans (h.evolves.mono fun _ hp => written_cons.mpr (.inr hp))
  frame place hplace := by
    rw [h.frame place fun p hp => hplace p (written_cons.mpr (.inr hp))]
    exact at?_modifyAt?_of_apart hput
      (hplace item.place (written_cons.mpr (.inl ⟨hkey, hready, rfl⟩)))
  values i hi hikey hiready := by
    rcases List.mem_cons.mp hi with rfl | hi
    · refine ⟨value, hvalue, ?_⟩
      rw [h.frame i.place ?_]
      · exact at?_putAt?_self hput
      · rintro p ⟨other, hother, hokey, -, rfl⟩
        exact (hl.apart hkey hother hokey).symm
    · exact h.values i hi hikey hiready

/-- The spec of the writing of a round. -/
theorem rendered_of_foldlM (hengine : engine.Orderly) (hl : Listed items start.run)
    (hd : start.run.Ordered)
    (h : items.foldlM (step engine snapshot vars) start = .ok done) :
    Rendered engine snapshot vars items start.run done.run ∧
      (done.progressed = true ↔
        start.progressed = true ∨ ∃ item ∈ items, Ready engine snapshot item) := by
  induction items generalizing start with
  | nil =>
      cases h
      exact ⟨rendered_nil hd, by simp⟩
  | cons item rest ih =>
      obtain ⟨next, hnext, hrest⟩ := Outcome.foldlM_cons_eq_ok.mp h
      rw [List.exists_mem_cons_iff]
      rcases step_cases hnext with ⟨hnot, rfl⟩ | ⟨hready, hkey, name, -, rfl⟩ |
        ⟨hready, hkey, value, hvalue, rfl⟩
      · obtain ⟨hrendered, hprogressed⟩ := ih hl.tail hd hrest
        refine ⟨hrendered.skip (.inr hnot), ?_⟩
        rw [hprogressed]
        simp [hnot]
      · obtain ⟨hrendered, hprogressed⟩ :=
          @ih ⟨start.run, start.renames ++ [⟨item.place, name⟩], true⟩ hl.tail hd hrest
        refine ⟨hrendered.skip (.inl hkey), ?_⟩
        rw [hprogressed]
        simp [hready]
      · obtain ⟨middle, hput⟩ := exists_putAt? value (hl.texts item List.mem_cons_self hkey)
        simp only [hput, Option.getD_some] at hrest
        have hd' : middle.Ordered := hd.putAt? (ordered_of_evaluate hengine hvalue) hput
        obtain ⟨hrendered, hprogressed⟩ := ih (hl.putAt? hkey hput) hd' hrest
        refine ⟨hrendered.write hl hkey hready hvalue hput, ?_⟩
        rw [hprogressed]
        simp [hready]

/-- A renaming is the note of a key: of its place and of what it is rendered to. -/
def Noted (engine : Engine) (vars : List (String × Document)) (item : Pending)
    (r : Rename) : Prop :=
  r.place = item.place ∧ engine.render vars item.source = .ok r.name

/-- The keys among sources that are ready. -/
def readyKeys (engine : Engine) (snapshot : Document) (items : List Pending) : List Pending :=
  items.filter fun item => item.isKey && decide (Ready engine snapshot item)

/-- A round takes note of the keys that are ready, in their order, and of nothing else. -/
theorem noted_of_foldlM (h : items.foldlM (step engine snapshot vars) start = .ok done) :
    ∃ added, done.renames = start.renames ++ added ∧
      List.Forall₂ (Noted engine vars) (readyKeys engine snapshot items) added := by
  induction items generalizing start with
  | nil =>
      cases h
      exact ⟨[], (List.append_nil _).symm, .nil⟩
  | cons item rest ih =>
      obtain ⟨next, hnext, h⟩ := Outcome.foldlM_cons_eq_ok.mp h
      obtain ⟨added, hadded, hnoted⟩ := ih h
      rcases step_cases hnext with ⟨hnot, rfl⟩ | ⟨hready, hkey, name, hname, rfl⟩ |
        ⟨-, hkey, value, -, rfl⟩
      · refine ⟨added, hadded, ?_⟩
        rwa [readyKeys, List.filter_cons_of_neg (by simp [hnot])]
      · refine ⟨⟨item.place, name⟩ :: added, by simpa using hadded, ?_⟩
        rw [readyKeys, List.filter_cons_of_pos (by simp [hready, hkey])]
        exact .cons ⟨rfl, hname⟩ hnoted
      · refine ⟨added, hadded, ?_⟩
        rwa [readyKeys, List.filter_cons_of_neg (by simp [hkey])]

/-- The renamings of a round are those of the keys that are ready. -/
theorem forall₂_noted
    (h : items.foldlM (step engine snapshot vars) ⟨run, [], false⟩ = .ok done) :
    List.Forall₂ (Noted engine vars) (readyKeys engine snapshot items) done.renames := by
  obtain ⟨added, hadded, hnoted⟩ := noted_of_foldlM h
  rw [List.nil_append] at hadded
  rwa [hadded]

theorem map_place_renames
    (h : items.foldlM (step engine snapshot vars) ⟨run, [], false⟩ = .ok done) :
    done.renames.map Rename.place = (readyKeys engine snapshot items).map Pending.place := by
  rw [eq_comm, ← List.forall₂_eq_eq_eq, List.forall₂_map_left_iff, List.forall₂_map_right_iff]
  exact (forall₂_noted h).imp fun _ _ hnote => hnote.1.symm

theorem exists_key_of_mem_renames {r : Rename}
    (h : items.foldlM (step engine snapshot vars) ⟨run, [], false⟩ = .ok done)
    (hr : r ∈ done.renames) : ∃ item ∈ items, item.isKey = true ∧ r.place = item.place := by
  have hplace : r.place ∈ done.renames.map Rename.place := List.mem_map_of_mem hr
  rw [map_place_renames h] at hplace
  obtain ⟨item, hitem, hplace⟩ := List.mem_map.mp hplace
  simp only [readyKeys, List.mem_filter, Bool.and_eq_true] at hitem
  exact ⟨item, hitem.1, hitem.2.1, hplace.symm⟩

/-- A renaming that belongs to a pending key. -/
def Rename.OfPending (r : Rename) : Prop :=
  ∃ parent old, r.place = parent ++ [.key old] ∧ Placeholder.occursIn old = true

theorem renameField_eq_ok {place : Place} {old new : String}
    {fields fields' : List (String × Document)}
    (h : renameField place old new fields = .ok fields') :
    (Keyed.find? old fields = none ∧ fields' = fields) ∨
      ∃ value, Keyed.find? old fields = some value ∧
        (new = old ∨ Keyed.find? new fields = none) ∧
        fields' = Keyed.insert new value (Keyed.erase old fields) := by
  rw [renameField] at h
  split at h
  · cases h
  · next hfree =>
      split at h
      · next value hvalue =>
          cases h
          refine .inr ⟨value, hvalue, ?_, rfl⟩
          by_cases heq : new = old
          · exact .inl heq
          · simpa [heq, Keyed.hasKey] using hfree
      · next hnone =>
          cases h
          exact .inl ⟨hnone, rfl⟩

/-- A renaming exchanges at most one pending key of a mapping for a name that is free there. -/
theorem rename_cases {r : Rename} (hr : r.OfPending) (h : rename run r = .ok run') :
    ∃ parent fields fields', run.at? parent = some (.map fields) ∧
      run.putAt? parent (.map fields') = some run' ∧
      (fields' = fields ∨ ∃ old new value, Placeholder.occursIn old = true ∧
        Keyed.find? old fields = some value ∧ (new = old ∨ Keyed.find? new fields = none) ∧
          fields' = Keyed.insert new value (Keyed.erase old fields)) := by
  obtain ⟨parent, old, hplace, hold⟩ := hr
  simp only [rename, hplace, List.getLast?_concat, List.dropLast_concat] at h
  split at h
  · next fields hat =>
      obtain ⟨fields', hfields', h⟩ := Outcome.bind_eq_ok.mp h
      obtain ⟨result, hput⟩ := exists_putAt? (.map fields') hat
      rw [hput] at h
      cases h
      refine ⟨parent, fields, fields', hat, hput, (renameField_eq_ok hfields').imp And.right ?_⟩
      rintro ⟨value, hvalue, hfree, rfl⟩
      exact ⟨old, r.name, value, hold, hvalue, hfree, rfl⟩
  · cases h

/-- Renaming a pending key reaches nothing at fixed places. -/
theorem rename_spec {r : Rename} (hr : r.OfPending) (hd : run.Ordered)
    (h : rename run r = .ok run') :
    run'.Ordered ∧ ∀ written, Evolves written run run' := by
  obtain ⟨parent, fields, fields', hat, hput, hfields⟩ := rename_cases hr h
  have hordered : (Document.map fields).Ordered := hd.at? hat
  have hspec : (Document.map fields').Ordered ∧
      ∀ written, Evolves written (.map fields) (.map fields') := by
    rcases hfields with rfl | ⟨old, new, value, hold, hvalue, hfree, rfl⟩
    · exact ⟨hordered, fun _ => Evolves.refl _ _⟩
    · exact ⟨hordered.erase.insert (hordered.find? hvalue),
        fun _ => Evolves.rename hvalue hold hfree⟩
  refine ⟨hd.putAt? hspec.1 hput, fun written => Evolves.modifyAt? hput fun c c' hc hc' => ?_⟩
  rw [hat, Option.some.injEq] at hc
  cases hc'
  subst hc
  exact hspec.2 _

/-- What every renaming of a pending key preserves holds after all of them. -/
theorem renameAll_induction {renames : List Rename} {motive : Document → Prop}
    (hr : ∀ r ∈ renames, r.OfPending) (hstart : motive run)
    (hstep : ∀ r d d', r.OfPending → motive d → rename d r = .ok d' → motive d')
    (h : renameAll run renames = .ok run') : motive run' := by
  rw [renameAll] at h
  have hsorted : ∀ r ∈ renames.mergeSort fun a b => decide (b.place.length ≤ a.place.length),
      r.OfPending := fun r hmem => hr r (List.mem_mergeSort.mp hmem)
  revert hsorted h
  generalize renames.mergeSort _ = sorted
  intro h hsorted
  induction sorted generalizing run with
  | nil => cases h; exact hstart
  | cons r rest ih =>
      obtain ⟨hfirst, hrest⟩ := List.forall_mem_cons.mp hsorted
      obtain ⟨middle, hmiddle, h⟩ := Outcome.foldlM_cons_eq_ok.mp h
      exact ih (hstep r run middle hfirst hstart hmiddle) h hrest

theorem renameAll_spec {renames : List Rename} (hr : ∀ r ∈ renames, r.OfPending)
    (hd : run.Ordered) (h : renameAll run renames = .ok run') :
    run'.Ordered ∧ ∀ written, Evolves written run run' := by
  have hstart : run.Ordered ∧ ∀ written, Evolves written run run :=
    ⟨hd, fun _ => Evolves.refl _ _⟩
  refine renameAll_induction (motive := fun d => d.Ordered ∧ ∀ written, Evolves written run d)
    hr hstart ?_ h
  rintro r d d' hpending ⟨hordered, hevolves⟩ hrename
  obtain ⟨hordered', hevolves'⟩ := rename_spec hpending hordered hrename
  exact ⟨hordered', fun written => (hevolves written).trans (hevolves' written)⟩

/-- Where only texts are pending, nothing is renamed. -/
theorem renames_eq_nil (htexts : ∀ item ∈ items, item.isKey = false)
    (hdone : items.foldlM (step engine snapshot vars) ⟨run, [], false⟩ = .ok done) :
    done.renames = [] := by
  apply List.eq_nil_iff_forall_not_mem.mpr
  intro r hr
  obtain ⟨item, hitem, hkey, -⟩ := exists_key_of_mem_renames hdone hr
  rw [htexts item hitem] at hkey
  cases hkey

/-- A round that renders something goes on with the renamings. -/
theorem round_eq_renameAll
    (hdone : items.foldlM (step engine run (context run vars)) ⟨run, [], false⟩ = .ok done)
    (hprogressed : done.progressed = true) :
    round engine vars run items = renameAll done.run done.renames := by
  rw [round, hdone]
  change (if !done.progressed then _ else _) = _
  rw [hprogressed]
  rfl

/-- A round that renders nothing is stuck. -/
theorem round_eq_stuck
    (hdone : items.foldlM (step engine run (context run vars)) ⟨run, [], false⟩ = .ok done)
    (hprogressed : done.progressed = false) :
    round engine vars run items = .error (.template (Pending.places items) .stuck) := by
  rw [round, hdone]
  change (if !done.progressed then _ else _) = _
  rw [hprogressed]
  rfl

theorem renameAll_nil (run : Document) : renameAll run [] = .ok run := by
  rw [renameAll, List.mergeSort_nil]
  rfl

theorem renameAll_singleton (run : Document) (r : Rename) : renameAll run [r] = rename run r := by
  rw [renameAll, List.mergeSort_singleton, List.foldlM_cons]
  simp

/-- A round that succeeds has written its values and then renamed pending keys. -/
theorem round_cases (hengine : engine.Orderly) (hd : run.Ordered)
    (h : round engine vars run (run.pendingAt []) = .ok run') :
    ∃ done, (run.pendingAt []).foldlM (step engine run (context run vars)) ⟨run, [], false⟩ =
        .ok done ∧
      Rendered engine run (context run vars) (run.pendingAt []) run done.run ∧
      (∀ r ∈ done.renames, r.OfPending) ∧ renameAll done.run done.renames = .ok run' := by
  rw [round] at h
  obtain ⟨done, hdone, h⟩ := Outcome.bind_eq_ok.mp h
  have hlisted := listed_pendingAt hd
  obtain ⟨hrendered, -⟩ := rendered_of_foldlM hengine hlisted hd hdone
  split at h
  · cases h
  · refine ⟨done, hdone, hrendered, fun r hr => ?_, h⟩
    obtain ⟨item, hitem, hkey, hplace⟩ := exists_key_of_mem_renames hdone hr
    obtain ⟨parent, hparent⟩ := hlisted.keys item hitem hkey
    exact ⟨parent, item.source, hplace.trans hparent, hlisted.pending item hitem⟩

/-- The spec of a round: the writing, then a renaming that reaches nothing at fixed places. -/
theorem round_spec (hengine : engine.Orderly) (hd : run.Ordered)
    (h : round engine vars run (run.pendingAt []) = .ok run') :
    run'.Ordered ∧ ∃ middle,
      Rendered engine run (context run vars) (run.pendingAt []) run middle ∧
        ∀ written, Evolves written middle run' := by
  obtain ⟨done, -, hrendered, hpending, hrenamed⟩ := round_cases hengine hd h
  obtain ⟨hordered, hevolves⟩ := renameAll_spec hpending hrendered.ordered hrenamed
  exact ⟨hordered, done.run, hrendered, hevolves⟩

/-- A text that waits stays, and one that is ready makes way for its value. -/
theorem text_of_round {place : Place} {source : String} (hengine : engine.Orderly)
    (hd : run.Ordered) (hfixed : place.Fixed) (hat : run.at? place = some (.str source))
    (hs : Placeholder.occursIn source = true)
    (hround : round engine vars run (run.pendingAt []) = .ok run') :
    (¬ Ready engine run ⟨place, source, false⟩ ∧ run'.at? place = some (.str source)) ∨
      (Ready engine run ⟨place, source, false⟩ ∧ ∃ value,
        evaluate engine (context run vars) ⟨place, source, false⟩ = .ok value ∧
          ∃ c, run'.at? place = some c ∧ Evolves (fun _ => False) value c) := by
  obtain ⟨-, middle, hrendered, hrenamed⟩ := round_spec hengine hd hround
  by_cases hready : Ready engine run ⟨place, source, false⟩
  · obtain ⟨value, hvalue, hwritten⟩ :=
      hrendered.values _ (mem_pendingAt_of_at? hd hs hat) rfl hready
    exact .inr ⟨hready, value, hvalue, (hrenamed fun _ => False).at? hfixed hwritten⟩
  · have hnot : ¬ Written engine run (run.pendingAt []) place := by
      rintro ⟨⟨_, source', _⟩, hitem, rfl, hitemReady, rfl⟩
      have hat' := at?_of_mem_pendingAt hd hitem rfl
      rw [hat, Option.some.injEq, str.injEq] at hat'
      subst hat'
      exact hready hitemReady
    obtain ⟨c, hc, hb⟩ := (hrendered.evolves.trans (hrenamed _)) place hfixed _ hat
    rcases hb with ⟨hwritten, -⟩ | rfl
    · exact absurd hwritten hnot
    · exact .inl ⟨hready, hc⟩

theorem settle_of_plain (rounds : Nat) (h : run.Plain) :
    settle engine vars rounds run = .ok run := by
  have hnil : run.pendingAt [] = [] := h
  rw [settle.eq_def]
  simp [hnil]

theorem settle_succ (rounds : Nat) (h : ¬ run.Plain) :
    settle engine vars (rounds + 1) run =
      round engine vars run (run.pendingAt []) >>= settle engine vars rounds := by
  have hsome : (run.pendingAt []).isEmpty = false :=
    Bool.eq_false_iff.mpr fun hnil => h (List.isEmpty_iff.mp hnil)
  rw [settle.eq_def]
  simp only [hsome]
  rfl

theorem settle_of_round (h : ¬ run.Plain)
    (hround : round engine vars run (run.pendingAt []) = .ok run') :
    settle engine vars (rounds + 1) run = settle engine vars rounds run' := by
  rw [settle_succ rounds h, hround]
  rfl

/-- One round is enough if it leaves nothing pending. -/
theorem settle_of_single_round (h : ¬ run.Plain)
    (hround : round engine vars run (run.pendingAt []) = .ok run') (hplain : run'.Plain) :
    settle engine vars Vocabulary.maxPlaceholderRounds run = .ok run' := by
  rw [Vocabulary.maxPlaceholderRounds, settle_of_round h hround, settle_of_plain _ hplain]

/-- Rounds end at once in a run without placeholders, and else after one more round. -/
theorem settle_cases (h : settle engine vars rounds run = .ok out) :
    (run.Plain ∧ out = run) ∨
      (¬ run.Plain ∧ ∃ n next, rounds = n + 1 ∧
        round engine vars run (run.pendingAt []) = .ok next ∧
          settle engine vars n next = .ok out) := by
  rw [settle.eq_def] at h
  dsimp only at h
  split at h
  · next hnil =>
      cases h
      exact .inl ⟨List.isEmpty_iff.mp hnil, rfl⟩
  · next hsome =>
      refine .inr ⟨fun hplain => hsome (List.isEmpty_iff.mpr hplain), ?_⟩
      cases rounds with
      | zero => cases h
      | succ n =>
          obtain ⟨next, hround, h⟩ := Outcome.bind_eq_ok.mp h
          exact ⟨n, next, rfl, hround, h⟩

/-- The rounds end in an ordered run without placeholders. -/
theorem settle_spec (hengine : engine.Orderly) (hd : run.Ordered)
    (h : settle engine vars rounds run = .ok out) :
    out.Ordered ∧ out.Plain ∧ Evolves (fun _ => True) run out := by
  induction rounds generalizing run with
  | zero =>
      rcases settle_cases h with ⟨hplain, rfl⟩ | ⟨-, n, next, hn, -⟩
      · exact ⟨hd, hplain, Evolves.refl _ _⟩
      · cases hn
  | succ rounds ih =>
      rcases settle_cases h with ⟨hplain, rfl⟩ | ⟨-, n, next, hn, hround, h⟩
      · exact ⟨hd, hplain, Evolves.refl _ _⟩
      · cases hn
        obtain ⟨hordered, middle, hrendered, hrenamed⟩ := round_spec hengine hd hround
        obtain ⟨hout, hplain, hevolves⟩ := ih hordered h
        have hfirst : Evolves (fun _ => True) run middle :=
          hrendered.evolves.mono fun _ _ => trivial
        exact ⟨hout, hplain, hfirst.trans ((hrenamed _).trans hevolves)⟩

/-- The runs that the rounds go through, each with the number of rounds before it. -/
inductive Reached (engine : Engine) (vars : List (String × Document)) (run : Document) :
    Nat → Document → Prop where
  | start : Reached engine vars run 0 run
  | next {n : Nat} {d d' : Document} (before : Reached engine vars run n d)
      (h : round engine vars d (d.pendingAt []) = .ok d') : Reached engine vars run (n + 1) d'

theorem Reached.of_round (h : Reached engine vars run' n d)
    (hround : round engine vars run (run.pendingAt []) = .ok run') :
    Reached engine vars run (n + 1) d := by
  induction h with
  | start => exact .next .start hround
  | next _ hnext ih => exact .next ih hnext

theorem Reached.ordered (h : Reached engine vars run n d) (hengine : engine.Orderly)
    (hd : run.Ordered) : d.Ordered := by
  induction h with
  | start => exact hd
  | next _ hround ih => exact (round_spec hengine ih hround).1

/-- Rounds that succeed end in a run that they have gone through. -/
theorem exists_reached_of_settle (h : settle engine vars rounds run = .ok out) :
    out.Plain ∧ ∃ n ≤ rounds, Reached engine vars run n out := by
  induction rounds generalizing run with
  | zero =>
      rcases settle_cases h with ⟨hplain, rfl⟩ | ⟨-, n, next, hn, -⟩
      · exact ⟨hplain, 0, Nat.le_refl 0, .start⟩
      · cases hn
  | succ rounds ih =>
      rcases settle_cases h with ⟨hplain, rfl⟩ | ⟨-, n, next, hn, hround, h⟩
      · exact ⟨hplain, 0, Nat.zero_le _, .start⟩
      · cases hn
        obtain ⟨hplain, n, hle, hreached⟩ := ih h
        exact ⟨hplain, n + 1, Nat.succ_le_succ hle, hreached.of_round hround⟩

/-- A run without its commands. -/
def withoutCommands : Document → Document
  | .map fields => .map (Keyed.erase Vocabulary.command fields)
  | d => d

theorem ordered_withoutCommands (hd : run.Ordered) : (withoutCommands run).Ordered := by
  cases run with
  | map fields => exact hd.erase
  | _ => exact hd

end Resolution

end ExperimentSuite
