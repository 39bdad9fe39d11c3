import ExperimentSuite.Proofs.Placeholder.Stability
import Mathlib.Data.List.Perm.Basic

/-!
# No entry is lost

A text with a placeholder may turn into anything, and a key with a placeholder
into another key; apart from that, what a round makes of a document has the same
shape, with every entry of a mapping in it once. Renaming never takes the place
of another entry, as a name that is taken is refused. What is not checked is the
key of the commands: it is free while the fields are resolved, and a field that
is given this name in the meantime is overwritten when the commands come back.
-/

namespace ExperimentSuite

namespace Document

variable {d d' d'' c c' value : Document} {step : Step} {place : Place} {key old new : String}
  {f : Document → Option Document} {items : List Document} {e e' : String × Document}
  {fields fields' rest : List (String × Document)}

mutual

/-- Whether a document has the entries of another one, up to pending texts and pending keys. -/
inductive Keeps : Document → Document → Prop where
  | same (d : Document) : Keeps d d
  | text {s : String} (hs : Placeholder.occursIn s = true) (d : Document) : Keeps (.str s) d
  | inList {items items' : List Document} (h : List.Forall₂ Keeps items items') :
      Keeps (.list items) (.list items')
  | inMap {fields targets fields' : List (String × Document)}
      (h : List.Forall₂ KeepsEntry fields targets) (hperm : targets.Perm fields') :
      Keeps (.map fields) (.map fields')

/-- The same for an entry of a mapping, whose key stays if it is not pending. -/
inductive KeepsEntry : String × Document → String × Document → Prop where
  | entry {key key' : String} {d d' : Document}
      (hkey : Placeholder.occursIn key = false → key' = key) (h : Keeps d d') :
      KeepsEntry (key, d) (key', d')

end

theorem KeepsEntry.refl (e : String × Document) : KeepsEntry e e :=
  .entry (fun _ => rfl) (.same e.2)

theorem keeps_list_iff : (list items).Keeps d' ↔
    ∃ items', d' = .list items' ∧ List.Forall₂ Keeps items items' := by
  constructor
  · intro h
    cases h with
    | same => exact ⟨items, rfl, List.forall₂_same.mpr fun c _ => .same c⟩
    | inList h => exact ⟨_, rfl, h⟩
  · rintro ⟨items', rfl, h⟩
    exact .inList h

theorem keeps_map_iff : (map fields).Keeps d' ↔
    ∃ targets fields', d' = .map fields' ∧ List.Forall₂ KeepsEntry fields targets ∧
      targets.Perm fields' := by
  constructor
  · intro h
    cases h with
    | same => exact ⟨fields, fields, rfl, List.forall₂_same.mpr fun e _ => .refl e, .refl _⟩
    | inMap h hperm => exact ⟨_, _, rfl, h, hperm⟩
  · rintro ⟨targets, fields', rfl, h, hperm⟩
    exact .inMap h hperm

/-- Two relations between lists, one after the other. -/
theorem forall₂_trans_of_mem {α : Type} {R : α → α → Prop} {left middle right : List α}
    (htrans : ∀ a ∈ left, ∀ b c, R a b → R b c → R a c) (h : List.Forall₂ R left middle)
    (h' : List.Forall₂ R middle right) : List.Forall₂ R left right := by
  induction h generalizing right with
  | nil => exact h'
  | cons hab hrest ih =>
      obtain ⟨hfirst, hothers⟩ := List.forall_mem_cons.mp htrans
      cases h' with
      | cons hbc hrest' => exact .cons (hfirst _ _ hab hbc) (ih hothers hrest')

theorem getElem?_of_forall₂ {α β : Type} {R : α → β → Prop} {left : List α} {right : List β}
    {a : α} {n : Nat} (h : List.Forall₂ R left right) (ha : left[n]? = some a) :
    ∃ b, right[n]? = some b ∧ R a b := by
  induction h generalizing n with
  | nil => cases ha
  | @cons _ b _ _ hab _ ih =>
      cases n with
      | zero =>
          cases ha
          exact ⟨b, rfl, hab⟩
      | succ n => exact ih ha

theorem Keeps.trans (h : d.Keeps d') (h' : d'.Keeps d'') : d.Keeps d'' := by
  induction d using memberInduction generalizing d' d'' with
  | str s =>
      cases h with
      | same => exact h'
      | text hs => exact .text hs d''
  | list items ih =>
      obtain ⟨items', rfl, hitems⟩ := keeps_list_iff.mp h
      obtain ⟨items'', rfl, hitems'⟩ := keeps_list_iff.mp h'
      exact .inList (forall₂_trans_of_mem (fun c hc _ _ => ih c hc) hitems hitems')
  | map fields ih =>
      obtain ⟨targets, fields', rfl, hentries, hperm⟩ := keeps_map_iff.mp h
      obtain ⟨targets', fields'', rfl, hentries', hperm'⟩ := keeps_map_iff.mp h'
      obtain ⟨middle, hmiddle, hperm''⟩ := List.perm_comp_forall₂ hperm hentries'
      refine .inMap (forall₂_trans_of_mem ?_ hentries hmiddle) (hperm''.trans hperm')
      rintro e he _ _ ⟨hkey, hvalue⟩ ⟨hkey', hvalue'⟩
      refine .entry (fun hs => ?_) (ih _ he hvalue hvalue')
      obtain rfl := hkey hs
      exact hkey' hs
  | _ =>
      cases h
      exact h'

/-- One entry of a mapping may be exchanged for one that keeps it. -/
theorem Keeps.exchange (h : fields.Perm (e :: rest)) (he : KeepsEntry e e')
    (h' : fields'.Perm (e' :: rest)) : (map fields).Keeps (.map fields') := by
  have hentries : List.Forall₂ KeepsEntry (e :: rest) (e' :: rest) :=
    .cons he (List.forall₂_same.mpr fun e _ => .refl e)
  obtain ⟨targets, htargets, hperm⟩ := List.perm_comp_forall₂ h hentries
  exact .inMap htargets (hperm.trans h'.symm)

theorem forall₂_set {n : Nat} (hc : items[n]? = some c) (h : c.Keeps c') :
    List.Forall₂ Keeps items (items.set n c') := by
  induction items generalizing n with
  | nil => cases hc
  | cons d rest ih =>
      cases n with
      | zero =>
          cases hc
          exact .cons h (List.forall₂_same.mpr fun c _ => .same c)
      | succ n => exact .cons (.same d) (ih hc)

/-- A change of a child changes nothing else. -/
theorem Keeps.withChild (hd : d.Ordered) (hc : d.child? step = some c) (h : c.Keeps c') :
    d.Keeps (d.withChild step c') := by
  cases d with
  | map fields =>
      cases step with
      | key name =>
          exact .exchange (Keyed.perm_cons_erase hc) (.entry (fun _ => rfl) h)
            (Keyed.perm_insert hd.sorted name c')
      | index n => cases hc
  | list items =>
      cases step with
      | key name => cases hc
      | index n => exact .inList (forall₂_set hc h)
  | _ => cases hc

/-- A change at a place is one of what stands there. -/
theorem Keeps.modifyAt? (hd : d.Ordered) (h : modifyAt? f d place = some d')
    (hf : ∀ c c', d.at? place = some c → f c = some c' → c.Keeps c') : d.Keeps d' := by
  induction place generalizing d d' with
  | nil =>
      rw [modifyAt?_nil] at h
      exact hf d d' (at?_nil d) h
  | cons step rest ih =>
      obtain ⟨c, c', hc, hc', rfl⟩ := modifyAt?_cons_eq_some.mp h
      refine .withChild hd hc (ih (hd.child? hc) hc' fun v v' hv hv' => ?_)
      have hbelow : d.at? (step :: rest) = some v := by
        rw [at?_cons, hc]
        exact hv
      exact hf v v' hbelow hv'

theorem Keeps.putAt? (hd : d.Ordered) (hat : d.at? place = some c) (h : c.Keeps value)
    (hput : d.putAt? place value = some d') : d.Keeps d' := by
  apply Keeps.modifyAt? hd hput
  intro v v' hv hv'
  rw [hat, Option.some.injEq] at hv
  cases hv'
  subst hv
  exact h

/-- A pending key may be exchanged for one that is free. -/
theorem Keeps.rename (hs : Keyed.Sorted fields) (hold : Placeholder.occursIn old = true)
    (hfound : Keyed.find? old fields = some value)
    (hfree : new = old ∨ Keyed.find? new fields = none) :
    (map fields).Keeps (.map (Keyed.insert new value (Keyed.erase old fields))) := by
  have hentry : KeepsEntry (old, value) (new, value) := by
    refine .entry (fun hno => ?_) (.same value)
    rw [hold] at hno
    cases hno
  exact .exchange (Keyed.perm_cons_erase hfound) hentry (Keyed.perm_exchange hs hfree value)

theorem Keeps.length_eq (h : (map fields).Keeps (.map fields')) :
    fields'.length = fields.length := by
  obtain ⟨targets, _, heq, hentries, hperm⟩ := keeps_map_iff.mp h
  cases heq
  rw [← hperm.length_eq, hentries.length_eq]

/-- What an entry has become is found among the entries. -/
theorem Keeps.entry (h : (map fields).Keeps (.map fields')) (he : e ∈ fields) :
    ∃ e' ∈ fields', KeepsEntry e e' := by
  obtain ⟨targets, _, heq, hentries, hperm⟩ := keeps_map_iff.mp h
  cases heq
  obtain ⟨n, hn⟩ := List.mem_iff_getElem?.mp he
  obtain ⟨e', he', hkept⟩ := getElem?_of_forall₂ hentries hn
  exact ⟨e', hperm.subset (List.mem_of_getElem? he'), hkept⟩

/-- Keys that are not pending stay. -/
theorem Keeps.hasKey (h : (map fields).Keeps (.map fields')) (hs : Placeholder.occursIn key = false)
    (hkey : Keyed.hasKey key fields = true) : Keyed.hasKey key fields' = true := by
  obtain ⟨e, he, rfl⟩ := Keyed.hasKey_iff.mp hkey
  obtain ⟨e', he', hkept⟩ := h.entry he
  cases hkept with
  | entry hsame => exact Keyed.hasKey_iff.mpr ⟨_, he', hsame hs⟩

/-- A step into a document and the step that has become of it. -/
inductive KeepsStep : Step → Step → Prop where
  | same (step : Step) : KeepsStep step step
  | renamed {key : String} (hs : Placeholder.occursIn key = true) (key' : String) :
      KeepsStep (.key key) (.key key')

/-- What stands under a step is found again. -/
theorem Keeps.child? (h : d.Keeps d') (hd' : d'.Ordered) (hc : d.child? step = some c) :
    ∃ step' c', KeepsStep step step' ∧ d'.child? step' = some c' ∧ c.Keeps c' := by
  cases d with
  | list items =>
      cases step with
      | key name => cases hc
      | index n =>
          obtain ⟨items', rfl, hitems⟩ := keeps_list_iff.mp h
          obtain ⟨c', hc', hkept⟩ := getElem?_of_forall₂ hitems hc
          exact ⟨.index n, c', .same _, hc', hkept⟩
  | map fields =>
      cases step with
      | index n => cases hc
      | key name =>
          obtain ⟨_, fields', rfl, -⟩ := keeps_map_iff.mp h
          obtain ⟨e', he', hkept⟩ := h.entry (Keyed.mem_of_find? hc)
          cases hkept with
          | @entry _ key' _ c' hsame hvalue =>
              have hfound : Keyed.find? key' fields' = some c' :=
                Keyed.find?_of_mem hd'.sorted he'
              refine ⟨.key key', c', ?_, hfound, hvalue⟩
              cases hs : Placeholder.occursIn name with
              | true => exact .renamed hs key'
              | false =>
                  rw [hsame hs]
                  exact .same _
  | _ => cases hc

/-- What stands at a place is found again, at the place that has become of it. -/
theorem Keeps.at? (h : d.Keeps d') (hd' : d'.Ordered) (hc : d.at? place = some c) :
    ∃ place' c', List.Forall₂ KeepsStep place place' ∧ d'.at? place' = some c' ∧ c.Keeps c' := by
  induction place generalizing d d' with
  | nil =>
      rw [at?_nil, Option.some.injEq] at hc
      subst hc
      exact ⟨[], d', .nil, at?_nil d', h⟩
  | cons step rest ih =>
      rw [at?_cons] at hc
      obtain ⟨child, hchild, hbelow⟩ := Option.bind_eq_some_iff.mp hc
      obtain ⟨step', child', hstep, hchild', hkept⟩ := h.child? hd' hchild
      obtain ⟨rest', c', hrest, hc', hkept'⟩ := ih hkept (hd'.child? hchild') hbelow
      refine ⟨step' :: rest', c', .cons hstep hrest, ?_, hkept'⟩
      rw [at?_cons, hchild']
      exact hc'

end Document

namespace Resolution

open Document

variable {engine : Engine} {snapshot run run' out c c' d : Document}
  {vars : List (String × Document)} {items : List Pending} {start done : Round} {r : Rename}
  {renames : List Rename} {n : Nat}

/-- The writing of a round replaces pending texts only. -/
theorem keeps_of_foldlM (hengine : engine.Orderly) (hl : Listed items start.run)
    (hd : start.run.Ordered) (h : items.foldlM (step engine snapshot vars) start = .ok done) :
    start.run.Keeps done.run := by
  induction items generalizing start with
  | nil =>
      cases h
      exact .same _
  | cons item rest ih =>
      obtain ⟨next, hnext, hrest⟩ := Outcome.foldlM_cons_eq_ok.mp h
      rcases step_cases hnext with ⟨-, rfl⟩ | ⟨-, -, name, -, rfl⟩ | ⟨-, hkey, value, hvalue, rfl⟩
      · exact ih hl.tail hd hrest
      · exact @ih ⟨start.run, start.renames ++ [⟨item.place, name⟩], true⟩ hl.tail hd hrest
      · have hat := hl.texts item List.mem_cons_self hkey
        obtain ⟨middle, hput⟩ := exists_putAt? value hat
        simp only [hput, Option.getD_some] at hrest
        have hfirst : start.run.Keeps middle :=
          .putAt? hd hat (.text (hl.pending item List.mem_cons_self) value) hput
        have hmiddle : middle.Ordered := hd.putAt? (ordered_of_evaluate hengine hvalue) hput
        exact hfirst.trans (ih (hl.putAt? hkey hput) hmiddle hrest)

theorem keeps_of_rename (hr : r.OfPending) (hd : run.Ordered) (h : rename run r = .ok run') :
    run.Keeps run' := by
  obtain ⟨parent, fields, fields', hat, hput, hfields⟩ := rename_cases hr h
  refine .putAt? hd hat ?_ hput
  rcases hfields with rfl | ⟨old, new, value, hold, hvalue, hfree, rfl⟩
  · exact .same _
  · exact .rename (hd.at? hat).sorted hold hvalue hfree

theorem keeps_of_renameAll (hr : ∀ r ∈ renames, r.OfPending) (hd : run.Ordered)
    (h : renameAll run renames = .ok run') : run.Keeps run' := by
  have hall : run'.Ordered ∧ run.Keeps run' := by
    refine renameAll_induction (motive := fun d => d.Ordered ∧ run.Keeps d) hr ⟨hd, .same run⟩ ?_ h
    rintro r d d' hpending ⟨hordered, hkept⟩ hrename
    exact ⟨(rename_spec hpending hordered hrename).1,
      hkept.trans (keeps_of_rename hpending hordered hrename)⟩
  exact hall.2

theorem keeps_of_round (hengine : engine.Orderly) (hd : run.Ordered)
    (h : round engine vars run (run.pendingAt []) = .ok run') : run.Keeps run' := by
  obtain ⟨done, hdone, hrendered, hpending, hrenamed⟩ := round_cases hengine hd h
  have hwritten : run.Keeps done.run := keeps_of_foldlM hengine (listed_pendingAt hd) hd hdone
  exact hwritten.trans (keeps_of_renameAll hpending hrendered.ordered hrenamed)

/-- No round loses an entry. -/
theorem Reached.keeps (h : Reached engine vars run n d) (hengine : engine.Orderly)
    (hd : run.Ordered) : run.Keeps d := by
  induction h with
  | start => exact .same run
  | next before hround ih =>
      exact ih.trans (keeps_of_round hengine (before.ordered hengine hd) hround)

/-- The rendering of commands replaces pending texts only. -/
theorem keeps_of_commands (hl : Listed items c) (hd : c.Ordered)
    (h : items.foldlM (commandText engine vars) c = .ok c') : c.Keeps c' := by
  induction items generalizing c with
  | nil =>
      cases h
      exact .same _
  | cons item rest ih =>
      obtain ⟨next, hnext, hrest⟩ := Outcome.foldlM_cons_eq_ok.mp h
      obtain ⟨hkey, -, text, -, -, rfl⟩ := commandText_eq_ok.mp hnext
      have hat := hl.texts item List.mem_cons_self hkey
      obtain ⟨middle, hput⟩ := exists_putAt? (.str text) hat
      rw [hput, Option.getD_some] at hrest
      have hfirst : c.Keeps middle :=
        .putAt? hd hat (.text (hl.pending item List.mem_cons_self) _) hput
      have hmiddle : middle.Ordered := hd.putAt? (v := .str text) trivial hput
      exact hfirst.trans (ih (hl.putAt? hkey hput) hmiddle hrest)

/-- Commands that come back to fields without their key leave every entry in place. -/
theorem keeps_attach
    (hfound : Keyed.find? Vocabulary.command fields = some c)
    (hfields : (Document.map (Keyed.erase Vocabulary.command fields)).Keeps (.map resolved))
    (hs : Keyed.Sorted resolved) (hcommands : c.Keeps c')
    (hfree : Keyed.find? Vocabulary.command resolved = none) :
    (Document.map fields).Keeps (attach c' (.map resolved)) := by
  obtain ⟨targets, _, heq, hentries, hperm⟩ := keeps_map_iff.mp hfields
  cases heq
  have hback := Keyed.perm_insert hs Vocabulary.command c'
  rw [Keyed.erase_eq_self hfree] at hback
  have hall : List.Forall₂ KeepsEntry
      ((Vocabulary.command, c) :: Keyed.erase Vocabulary.command fields)
      ((Vocabulary.command, c') :: targets) := .cons (.entry (fun _ => rfl) hcommands) hentries
  obtain ⟨targets', htargets', hperm'⟩ :=
    List.perm_comp_forall₂ (Keyed.perm_cons_erase hfound) hall
  exact .inMap htargets' ((hperm'.trans (hperm.cons _)).trans hback.symm)

/-- Commands that come back to fields with their key take the place of an entry. -/
theorem length_attach
    (hfound : Keyed.find? Vocabulary.command fields = some c)
    (hfields : (Document.map (Keyed.erase Vocabulary.command fields)).Keeps (.map resolved))
    (hs : Keyed.Sorted resolved) (htaken : Keyed.find? Vocabulary.command resolved = some d) :
    (Keyed.insert Vocabulary.command c' resolved).length + 1 = fields.length := by
  have hback := (Keyed.perm_insert hs Vocabulary.command c').length_eq
  have hresolved := (Keyed.perm_cons_erase htaken).length_eq
  have hout := (Keyed.perm_cons_erase hfound).length_eq
  have hkept := hfields.length_eq
  simp only [List.length_cons] at hback hresolved hout
  omega

/-- Whether commands come back to fields one of which has been given their key. -/
def CommandsCollide (fields resolved : List (String × Document)) : Prop :=
  Keyed.hasKey Vocabulary.command fields = true ∧ Keyed.hasKey Vocabulary.command resolved = true

/-- What becomes of the entries of a run: all of them are kept, or one is lost to the commands. -/
theorem entries_of_resolve (hengine : engine.Orderly) (hd : run.Ordered)
    (h : resolve engine vars run = .ok out) :
    ∃ fields resolved fields', run = .map fields ∧ out = .map fields' ∧
      settle engine vars Vocabulary.maxPlaceholderRounds
        (.map (Keyed.erase Vocabulary.command fields)) = .ok (.map resolved) ∧
      (¬ CommandsCollide fields resolved → run.Keeps out) ∧
      (CommandsCollide fields resolved → fields'.length + 1 = fields.length) := by
  obtain ⟨-, fields, document, rfl, hsettle, h⟩ := resolve_eq_ok.mp h
  obtain ⟨-, n, -, hreached⟩ := exists_reached_of_settle hsettle
  have hkept := hreached.keeps hengine hd.erase
  have hs := hreached.ordered hengine hd.erase
  obtain ⟨_, resolved, rfl, -⟩ := keeps_map_iff.mp hkept
  rcases h with ⟨hfound, rfl⟩ | ⟨commands, rendered, hfound, hrendered, rfl⟩
  · refine ⟨fields, resolved, resolved, rfl, rfl, hsettle, fun _ => ?_, fun hcollide => ?_⟩
    · rw [Keyed.erase_eq_self hfound] at hkept
      exact hkept
    · rw [CommandsCollide, Keyed.hasKey, hfound] at hcollide
      cases hcollide.1
  · have hordered : commands.Ordered := hd.find? hfound
    have hcommands : commands.Keeps rendered :=
      keeps_of_commands (listed_pendingAt hordered) hordered (resolveCommands_eq ▸ hrendered)
    refine ⟨fields, resolved, _, rfl, rfl, hsettle, fun hfree => ?_, fun hcollide => ?_⟩
    · refine keeps_attach hfound hkept hs.sorted hcommands ?_
      have hpresent : Keyed.hasKey Vocabulary.command fields = true := by
        rw [Keyed.hasKey, hfound]
        rfl
      simpa [Keyed.hasKey] using fun htaken => hfree ⟨hpresent, htaken⟩
    · obtain ⟨taken, htaken⟩ := Option.isSome_iff_exists.mp hcollide.2
      exact length_attach hfound hkept hs.sorted htaken

/-- A resolution keeps every entry, and has as many fields as before, exactly if no field is given
the key of the commands in the meantime. Every mapping of the run is then found again with as many
entries and with all keys that are not pending. -/
theorem keeps_iff_not_commandsCollide (hengine : engine.Orderly) (hd : run.Ordered)
    (h : resolve engine vars run = .ok out) :
    ∃ fields resolved fields', run = .map fields ∧ out = .map fields' ∧
      settle engine vars Vocabulary.maxPlaceholderRounds
        (.map (Keyed.erase Vocabulary.command fields)) = .ok (.map resolved) ∧
      (run.Keeps out ↔ ¬ CommandsCollide fields resolved) ∧
      (fields'.length = fields.length ↔ ¬ CommandsCollide fields resolved) ∧
      (¬ CommandsCollide fields resolved → ∀ place inner, run.at? place = some (.map inner) →
        ∃ place' inner', List.Forall₂ KeepsStep place place' ∧
          out.at? place' = some (.map inner') ∧ inner'.length = inner.length ∧
          ∀ key, Placeholder.occursIn key = false → Keyed.hasKey key inner = true →
            Keyed.hasKey key inner' = true) := by
  have hordered := ordered_of_resolve hengine hd h
  obtain ⟨fields, resolved, fields', rfl, rfl, hsettle, hfree, hcollide⟩ :=
    entries_of_resolve hengine hd h
  have hlength : ¬ CommandsCollide fields resolved ↔ fields'.length = fields.length := by
    constructor
    · exact fun hnot => (hfree hnot).length_eq
    · intro heq htaken
      have hlost := hcollide htaken
      omega
  refine ⟨fields, resolved, fields', rfl, rfl, hsettle, ?_, hlength.symm, ?_⟩
  · exact ⟨fun hkept => hlength.mpr hkept.length_eq, hfree⟩
  · intro hnot place inner hat
    obtain ⟨place', c', hplace, hat', hkept⟩ := (hfree hnot).at? hordered hat
    obtain ⟨_, inner', rfl, -⟩ := keeps_map_iff.mp hkept
    exact ⟨place', inner', hplace, hat', hkept.length_eq, fun key => hkept.hasKey⟩

theorem keeps_templatedRun :
    let out := attach templatedRendered templatedResolved
    ((Template.engine false).Orderly ∧ templatedRun.Ordered ∧
      resolve (Template.engine false) templatedVars templatedRun = .ok out) ∧
    ∃ fields resolved fields', templatedRun = .map fields ∧ out = .map fields' ∧
      settle (Template.engine false) templatedVars Vocabulary.maxPlaceholderRounds
        (.map (Keyed.erase Vocabulary.command fields)) = .ok (.map resolved) ∧
      (templatedRun.Keeps out ↔ ¬ CommandsCollide fields resolved) ∧
      (fields'.length = fields.length ↔ ¬ CommandsCollide fields resolved) ∧
      (¬ CommandsCollide fields resolved → ∀ place inner,
        templatedRun.at? place = some (.map inner) →
        ∃ place' inner', List.Forall₂ KeepsStep place place' ∧
          out.at? place' = some (.map inner') ∧ inner'.length = inner.length ∧
          ∀ key, Placeholder.occursIn key = false → Keyed.hasKey key inner = true →
            Keyed.hasKey key inner' = true) := by
  have hengine : (Template.engine false).Orderly := Template.orderly_engine false
  have hd : templatedRun.Ordered := by decide
  exact ⟨⟨hengine, hd, resolve_templatedRun⟩,
    keeps_iff_not_commandsCollide hengine hd resolve_templatedRun⟩

/-- The fields of a run, one of which is given the key of the commands. -/
def impostorFields : Document := .map [("[% '$CMD$' %]", .nat 1)]

/-- The commands of that run. -/
def impostorCommands : Document := .map [("client", .list [.map [("main", .str "run.sh")]])]

def impostor : Document := attach impostorCommands impostorFields

theorem references_impostor :
    (Template.engine false).references "[% '$CMD$' %]" = .ok [] := by
  decide +kernel

theorem render_impostor : (Template.engine false).render
    (context impostorFields []) "[% '$CMD$' %]" = .ok "$CMD$" := by
  decide +kernel

theorem round_impostor : round (Template.engine false) [] impostorFields
    (impostorFields.pendingAt []) = .ok (.map [("$CMD$", .nat 1)]) := by
  have hpending : impostorFields.pendingAt [] =
      [⟨[.key "[% '$CMD$' %]"], "[% '$CMD$' %]", true⟩] := rfl
  have hdone : (impostorFields.pendingAt []).foldlM (step (Template.engine false) impostorFields
      (context impostorFields [])) ⟨impostorFields, [], false⟩ =
        .ok ⟨impostorFields, [⟨[.key "[% '$CMD$' %]"], "$CMD$"⟩], true⟩ := by
    rw [hpending]
    refine Outcome.foldlM_cons_eq_ok.mpr
      ⟨_, step_of_key references_impostor (by decide) rfl render_impostor, ?_⟩
    rfl
  rw [round_eq_renameAll hdone rfl, renameAll_singleton]
  rfl

/-- Of the two entries only the commands are left. -/
theorem resolve_impostor : resolve (Template.engine false) [] impostor =
    .ok (.map [("$CMD$", impostorCommands)]) := by
  have hnot : ¬ impostorFields.Plain := by
    intro hplain
    cases hplain
  have hresolved : (Document.map [("$CMD$", .nat 1)]).Plain := rfl
  have hsettle : settle (Template.engine false) [] Vocabulary.maxPlaceholderRounds impostorFields =
      .ok (.map [("$CMD$", .nat 1)]) := settle_of_single_round hnot round_impostor hresolved
  refine resolve_eq_ok.mpr ⟨rfl, _, _, rfl, hsettle,
    .inr ⟨impostorCommands, impostorCommands, rfl, ?_, rfl⟩⟩
  rfl

/-- A resolution may lose a field and still succeed. -/
theorem not_keeps_of_resolve :
    ¬ ∀ (vars : List (String × Document)) (fields fields' : List (String × Document)),
      (Document.map fields).Ordered →
      resolve (Template.engine false) vars (.map fields) = .ok (.map fields') →
        fields'.length = fields.length := by
  intro hall
  have hlength := hall [] [("$CMD$", impostorCommands), ("[% '$CMD$' %]", .nat 1)]
    [("$CMD$", impostorCommands)] (by decide) resolve_impostor
  cases hlength

end Resolution

end ExperimentSuite
