import ExperimentSuite.Proofs.Placeholder.Rounds

/-!
# Renaming as relabelling

A relabelling gives keys of a document other names, all of them at once: the
names are read off the places that the keys had before, and every value goes
along with its key. It determines what comes out. Renamings that are carried
out one after the other on a document that changes under them come to a
relabelling if none of them reaches deeper than the ones before it: the place
of a key that is still to be renamed then stays what it was.
-/

namespace ExperimentSuite

/-- For every place of a mapping and every key in it the key that it is to have. -/
abbrev Names := Place → String → String

namespace Document

open KeyPath

variable {d d' d'' c middle value : Document} {names names' : Names}
  {above parent place p q : Place} {step : Step} {old new key : String}
  {fields : List (String × Document)}

/-- What becomes of a step below a place. -/
def movedStep (names : Names) (above : Place) : Step → Step
  | .key key => .key (names above key)
  | .index n => .index n

/-- What becomes of a place below another one. -/
def moved (names : Names) (above : Place) : Place → Place
  | [] => []
  | step :: rest => movedStep names above step :: moved names (above ++ [step]) rest

/-- What may become of a value by a relabelling, apart from what stands below it. -/
def Alike (names : Names) (place : Place) : Document → Document → Prop
  | .list items, d => ∃ items', d = .list items' ∧ items'.length = items.length
  | .map fields, d => ∃ fields', d = .map fields' ∧
      (Keyed.keys fields').Perm ((Keyed.keys fields).map (names place))
  | c, d => d = c

/-- The later document is the earlier one, with other names for its keys. -/
def Relabelled (names : Names) (above : Place) (d d' : Document) : Prop :=
  ∀ place c, d.at? place = some c →
    ∃ c', d'.at? (moved names above place) = some c' ∧ Alike names (above ++ place) c c'

theorem moved_append (names : Names) (above p q : Place) :
    moved names above (p ++ q) = moved names above p ++ moved names (above ++ p) q := by
  induction p generalizing above with
  | nil => simp [moved]
  | cons step rest ih => simp [moved, ih]

/-- A place depends on the names of the keys on its way only. -/
theorem moved_congr (h : ∀ p key q, place = p ++ Step.key key :: q →
    names (above ++ p) key = names' (above ++ p) key) :
    moved names above place = moved names' above place := by
  induction place generalizing above with
  | nil => rfl
  | cons step rest ih =>
      have hstep : movedStep names above step = movedStep names' above step := by
        cases step with
        | index n => rfl
        | key key => exact congrArg Step.key (by simpa using h [] key rest rfl)
      rw [moved, moved, hstep, ih]
      rintro p key q rfl
      simpa using h (step :: p) key q rfl

/-- Where every key has its own name, a place stays. -/
theorem moved_eq_self (h : ∀ p key, above <+: p → names p key = key) :
    moved names above place = place := by
  induction place generalizing above with
  | nil => rfl
  | cons step rest ih =>
      rw [moved, ih fun p key hp => h p key ((List.prefix_append _ _).trans hp)]
      cases step with
      | index n => rfl
      | key key => rw [movedStep, h above key List.prefix_rfl]

/-- The name of one key matters at and below that key only. -/
theorem moved_beside
    (h : ∀ p key, p ++ [Step.key key] ≠ parent ++ [.key old] → names' p key = names p key)
    (hp : ¬ parent ++ [.key old] <+: p) : moved names' [] p = moved names [] p := by
  apply moved_congr
  rintro q key rest rfl
  apply h
  intro heq
  exact hp ⟨rest, by simp [← heq]⟩

/-- Where deeper keys have their own names, no more than one step on the way changes. -/
theorem moved_below (hkey : names parent key = new)
    (hdeep : ∀ p k, parent.length < p.length → names p k = k) (q : Place) :
    moved names [] (parent ++ .key key :: q) = moved names [] parent ++ .key new :: q := by
  have hbelow : moved names (parent ++ [.key key]) q = q := by
    apply moved_eq_self
    intro p k hp
    apply hdeep
    exact Nat.lt_of_succ_le (by simpa using hp.length_le)
  rw [moved_append, List.nil_append, moved, movedStep, hkey, hbelow]

theorem Alike.congr (h : Alike names p c d) (hnames : ∀ key, names p key = names' q key) :
    Alike names' q c d := by
  cases c with
  | map fields =>
      obtain ⟨fields', rfl, hperm⟩ := h
      exact ⟨fields', rfl, hperm.trans (.of_eq (List.map_congr_left fun key _ => hnames key))⟩
  | _ => exact h

theorem alike_refl (h : ∀ key, names p key = key) (c : Document) : Alike names p c c := by
  cases c with
  | map fields =>
      have hnames : names p = id := funext h
      exact ⟨fields, rfl, .of_eq (by rw [hnames, List.map_id])⟩
  | list items => exact ⟨items, rfl, rfl⟩
  | _ => rfl

/-- A change of a child keeps the keys. -/
theorem Alike.of_withChild (hc : c.Ordered) (hold : c.child? step = some d')
    (h : Alike names p (c.withChild step value) d) : Alike names p c d := by
  cases c with
  | list items =>
      cases step with
      | key name => cases hold
      | index n =>
          obtain ⟨items', rfl, hlength⟩ := h
          exact ⟨items', rfl, by simpa using hlength⟩
  | map fields =>
      cases step with
      | index n => cases hold
      | key name =>
          obtain ⟨fields', rfl, hperm⟩ := h
          have hkeys : (Keyed.keys (Keyed.insert name value fields)).Perm (Keyed.keys fields) :=
            ((Keyed.perm_insert hc.sorted name value).map Prod.fst).trans
              ((Keyed.perm_cons_erase hold).map Prod.fst).symm
          exact ⟨fields', rfl, hperm.trans (hkeys.map _)⟩
  | _ => cases step <;> cases hold

/-- Where every key has its own name, nothing changes. -/
theorem relabelled_refl (h : ∀ p key, above <+: p → names p key = key) (d : Document) :
    Relabelled names above d d := by
  intro place c hc
  rw [moved_eq_self h]
  exact ⟨c, hc, alike_refl (fun key => h _ key (List.prefix_append _ _)) c⟩

/-- What stands at a place is relabelled by itself. -/
theorem Relabelled.at? (h : Relabelled names above d d') (hc : d.at? place = some c) :
    ∃ c', d'.at? (moved names above place) = some c' ∧
      Relabelled names (above ++ place) c c' := by
  obtain ⟨c', hc', -⟩ := h place c hc
  refine ⟨c', hc', fun q v hv => ?_⟩
  have hbelow : d.at? (place ++ q) = some v := by
    rw [at?_append, hc]
    exact hv
  obtain ⟨v', hv', halike⟩ := h _ v hbelow
  rw [moved_append, at?_append, hc'] at hv'
  exact ⟨v', hv', by simpa using halike⟩

theorem Relabelled.child? (h : Relabelled names above d d') (hc : d.child? step = some c) :
    ∃ c', d'.child? (movedStep names above step) = some c' ∧
      Relabelled names (above ++ [step]) c c' := by
  rw [← at?_singleton] at hc
  obtain ⟨c', hc', hrelabelled⟩ := h.at? hc
  exact ⟨c', (at?_singleton d' _).symm.trans hc', hrelabelled⟩

theorem Relabelled.alike (h : Relabelled names above d d') : Alike names above d d' := by
  obtain ⟨c', hc', halike⟩ := h [] d (at?_nil d)
  rw [moved, at?_nil, Option.some.injEq] at hc'
  rw [hc']
  simpa using halike

/-- Two outcomes of one relabelling have the same child if a child determines its outcome. -/
theorem Relabelled.child?_eq (h : Relabelled names above d d') (h' : Relabelled names above d d'')
    (hd' : d'.Ordered) (hd'' : d''.Ordered) (hc : d.child? step = some c)
    (hchild : ∀ {c' c'' : Document}, Relabelled names (above ++ [step]) c c' →
      Relabelled names (above ++ [step]) c c'' → c'.Ordered → c''.Ordered → c' = c'') :
    d'.child? (movedStep names above step) = d''.child? (movedStep names above step) := by
  obtain ⟨c', hc', hrelabelled⟩ := h.child? hc
  obtain ⟨c'', hc'', hrelabelled'⟩ := h'.child? hc
  rw [hc', hc'', hchild hrelabelled hrelabelled' (hd'.child? hc') (hd''.child? hc'')]

/-- A relabelling determines what comes out. -/
theorem Relabelled.unique (h : Relabelled names above d d') (h' : Relabelled names above d d'')
    (hd' : d'.Ordered) (hd'' : d''.Ordered) : d' = d'' := by
  induction d using childInduction generalizing above d' d'' with
  | h d ih =>
      have hsame : ∀ {step c}, d.child? step = some c →
          d'.child? (movedStep names above step) = d''.child? (movedStep names above step) :=
        fun hc => h.child?_eq h' hd' hd'' hc (ih _ _ hc)
      have halike := h.alike
      have halike' := h'.alike
      cases d with
      | list items =>
          obtain ⟨items', rfl, hlength⟩ := halike
          obtain ⟨items'', rfl, hlength'⟩ := halike'
          congr 1
          apply List.ext_getElem?
          intro n
          cases hc : items[n]? with
          | none =>
              rw [List.getElem?_eq_none_iff] at hc
              rw [List.getElem?_eq_none (by omega), List.getElem?_eq_none (by omega)]
          | some c =>
              have hchild : (list items).child? (.index n) = some c := hc
              exact hsame hchild
      | map fields =>
          obtain ⟨fields', rfl, hperm⟩ := halike
          obtain ⟨fields'', rfl, hperm'⟩ := halike'
          congr 1
          apply Keyed.ext hd'.sorted hd''.sorted
          intro key
          by_cases hkey : key ∈ (Keyed.keys fields).map (names above)
          · obtain ⟨before, hbefore, rfl⟩ := List.mem_map.mp hkey
            obtain ⟨c, hc⟩ := Option.isSome_iff_exists.mp (Keyed.isSome_find?_iff.mpr hbefore)
            have hchild : (map fields).child? (.key before) = some c := hc
            exact hsame hchild
          · rw [Keyed.find?_eq_none_of_not_mem (hperm.mem_iff.not.mpr hkey),
              Keyed.find?_eq_none_of_not_mem (hperm'.mem_iff.not.mpr hkey)]
      | _ => exact halike.trans halike'.symm

/-- One key of one mapping has been exchanged for another one that was free. -/
inductive Exchanged (parent : Place) (old new : String) (d d' : Document) : Prop where
  | intro {fields : List (String × Document)} {value : Document}
      (hat : d.at? parent = some (.map fields)) (hvalue : Keyed.find? old fields = some value)
      (hfree : new = old ∨ Keyed.find? new fields = none)
      (hput : d.putAt? parent (.map (Keyed.insert new value (Keyed.erase old fields))) = some d')

theorem at?_concat_key (h : d.at? parent = some (.map fields)) (key : String) (q : Place) :
    d.at? (parent ++ .key key :: q) = (Keyed.find? key fields).bind (Document.at? · q) := by
  rw [at?_append, h, Option.bind_some, at?_cons]
  rfl

/-- What stood under the old key stands under the new one. -/
theorem Exchanged.at?_below (h : Exchanged parent old new d d') (q : Place) :
    d'.at? (parent ++ .key new :: q) = d.at? (parent ++ .key old :: q) := by
  obtain ⟨hat, hvalue, -, hput⟩ := h
  rw [at?_concat_key (at?_putAt?_self hput), at?_concat_key hat, Keyed.find?_insert_self, hvalue]

/-- What stands beside the two keys stays. -/
theorem Exchanged.at?_beside (h : Exchanged parent old new d d') (hc : d.at? p = some c)
    (habove : ¬ p <+: parent) (hbelow : ¬ parent ++ [.key old] <+: p) : d'.at? p = some c := by
  obtain ⟨hat, hvalue, hfree, hput⟩ := h
  rcases prefix_or_prefix_or_apart p parent with hpre | ⟨q, rfl⟩ | hapart
  · exact absurd hpre habove
  · cases q with
    | nil => exact absurd (by simp) habove
    | cons step q =>
        cases step with
        | index n =>
            rw [at?_append, hat, Option.bind_some, at?_cons] at hc
            cases hc
        | key key =>
            have hold : old ≠ key := by
              rintro rfl
              exact hbelow (by simp)
            rw [at?_concat_key hat] at hc
            have hnew : new ≠ key := by
              rintro rfl
              rcases hfree with heq | hnone
              · exact hold heq.symm
              · rw [hnone] at hc
                cases hc
            rw [at?_concat_key (at?_putAt?_self hput), Keyed.find?_insert_of_ne hnew,
              Keyed.find?_erase_of_ne hold]
            exact hc
  · rw [at?_modifyAt?_of_apart hput hapart]
    exact hc

/-- The mapping itself has the new key in the place of the old one. -/
theorem Exchanged.alike_at (h : Exchanged parent old new d d') (hd : d.Ordered)
    (hold : names' parent old = names parent new)
    (hother : ∀ key, key ≠ old → names' parent key = names parent key)
    (hc : d.at? parent = some c) :
    ∃ c', d'.at? parent = some c' ∧ ∀ v, Alike names parent c' v → Alike names' parent c v := by
  cases h with
  | @intro fields value hat hvalue hfree hput =>
      rw [hat, Option.some.injEq] at hc
      subst hc
      refine ⟨_, at?_putAt?_self hput, ?_⟩
      rintro v ⟨fields', rfl, hperm⟩
      have hs : Keyed.Sorted fields := (hd.at? hat).sorted
      have hrest : (Keyed.keys (Keyed.erase old fields)).map (names' parent) =
          (Keyed.keys (Keyed.erase old fields)).map (names parent) := by
        apply List.map_congr_left
        intro key hkey
        obtain ⟨e, he, rfl⟩ := List.mem_map.mp hkey
        exact hother _ (Keyed.find?_eq_none_iff.mp (Keyed.find?_erase_self hs) e he)
      have hbefore : ((Keyed.keys fields).map (names' parent)).Perm
          (names parent new :: (Keyed.keys (Keyed.erase old fields)).map (names parent)) := by
        have hperm := ((Keyed.perm_cons_erase hvalue).map Prod.fst).map (names' parent)
        rwa [List.map_cons, List.map_cons, hold, ← Keyed.keys, ← Keyed.keys, hrest] at hperm
      have hafter := ((Keyed.perm_exchange hs hfree value).map Prod.fst).map (names parent)
      exact ⟨fields', rfl, hperm.trans (hafter.trans hbefore.symm)⟩

/-- Above the mapping nothing but a child has changed. -/
theorem Exchanged.alike_above (h : Exchanged parent old new d d') (hd : d.Ordered)
    (habove : p <+: parent) (hne : p ≠ parent)
    (hnames : ∀ key, names' p key = names p key) (hc : d.at? p = some c) :
    ∃ c', d'.at? p = some c' ∧ ∀ v, Alike names p c' v → Alike names' p c v := by
  obtain ⟨-, -, -, hput⟩ := h
  obtain ⟨q, rfl⟩ := habove
  cases q with
  | nil => exact absurd (List.append_nil p).symm hne
  | cons step rest =>
      obtain ⟨before, after, hbefore, hafter⟩ := at?_modifyAt?_above hput hc
      refine ⟨_, hafter, fun v hv => ?_⟩
      exact (hv.of_withChild (hd.at? hc) hbefore).congr fun key => (hnames key).symm

/-- An exchange, and then a relabelling that leaves the new key and everything deeper alone. -/
theorem Exchanged.relabelled (h : Exchanged parent old new d middle) (hd : d.Ordered)
    (hold : names' parent old = new) (hnew : names parent new = new)
    (hother : ∀ p key, p ++ [Step.key key] ≠ parent ++ [.key old] → names' p key = names p key)
    (hdeep : ∀ p key, parent.length < p.length → names p key = key)
    (hrest : Relabelled names [] middle d') : Relabelled names' [] d d' := by
  have hoff : ∀ p, p ≠ parent → ∀ key, names' p key = names p key := fun p hp key =>
    hother p key fun heq => hp (List.append_inj' heq rfl).1
  have hdeep' : ∀ p key, parent.length < p.length → names' p key = key := by
    intro p key hp
    rw [hoff p (fun heq => by simp [heq] at hp) key, hdeep p key hp]
  -- what `names` makes of a later document at an unchanged place serves `names'` as well
  have hkeep : ∀ p c c', ¬ parent ++ [.key old] <+: p → middle.at? p = some c' →
      (∀ v, Alike names p c' v → Alike names' p c v) →
      ∃ v, d'.at? (moved names' [] p) = some v ∧ Alike names' p c v := by
    intro p c c' hp hc' halike
    obtain ⟨v, hv, hc'v⟩ := hrest p c' hc'
    exact ⟨v, (moved_beside hother hp).symm ▸ hv, halike v hc'v⟩
  intro p c hc
  rw [List.nil_append]
  by_cases hbelow : parent ++ [.key old] <+: p
  · obtain ⟨q, rfl⟩ := hbelow
    rw [List.append_assoc, List.singleton_append] at hc ⊢
    have hparent : moved names' [] parent = moved names [] parent := by
      apply moved_beside hother
      intro hwithin
      simpa using hwithin.length_le
    have hfound : middle.at? (parent ++ .key new :: q) = some c := (h.at?_below q).trans hc
    obtain ⟨v, hv, halike⟩ := hrest _ c hfound
    rw [moved_below hnew hdeep] at hv
    rw [moved_below hold hdeep', hparent]
    refine ⟨v, hv, halike.congr fun key => ?_⟩
    rw [List.nil_append, hdeep _ key (by simp), hdeep' _ key (by simp)]
  · by_cases habove : p <+: parent
    · by_cases heq : p = parent
      · subst heq
        obtain ⟨c', hc', halike⟩ := h.alike_at hd (hold.trans hnew.symm) (fun key hkey => by
          apply hother
          simpa using hkey) hc
        exact hkeep p c c' hbelow hc' halike
      · obtain ⟨c', hc', halike⟩ := h.alike_above hd habove heq (hoff p heq) hc
        exact hkeep p c c' hbelow hc' halike
    · have hne : p ≠ parent := by
        rintro rfl
        exact habove List.prefix_rfl
      exact hkeep p c c hbelow (h.at?_beside hc habove hbelow) fun v hv =>
        hv.congr fun key => (hoff p hne key).symm

theorem Exchanged.ordered (h : Exchanged parent old new d d') (hd : d.Ordered) : d'.Ordered := by
  obtain ⟨hat, hvalue, -, hput⟩ := h
  have hfields := hd.at? hat
  exact hd.putAt? (hfields.erase.insert (hfields.find? hvalue)) hput

/-- Whatever does not stand under the old key still has a place. -/
theorem Exchanged.isSome_at? (h : Exchanged parent old new d d') (hsome : (d.at? p).isSome)
    (hbelow : ¬ parent ++ [.key old] <+: p) : (d'.at? p).isSome := by
  obtain ⟨c, hc⟩ := Option.isSome_iff_exists.mp hsome
  by_cases habove : p <+: parent
  · obtain ⟨-, -, -, hput⟩ := h
    refine isSome_at?_of_isPrefix ?_ habove
    rw [at?_putAt?_self hput]
    rfl
  · rw [h.at?_beside hc habove hbelow]
    rfl

end Document

namespace Resolution

open Document

variable {run run' d d' : Document} {r s : Rename} {renames rest : List Rename}
  {parent place : Place} {old key : String} {fields : List (String × Document)} {value : Document}

/-- The key that renamings give to a key of a mapping. -/
def newKey : List Rename → Names
  | [], _, key => key
  | r :: rest, place, key =>
      if r.place = place ++ [.key key] then r.name else newKey rest place key

theorem newKey_eq_self (h : ∀ r ∈ renames, r.place ≠ place ++ [.key key]) :
    newKey renames place key = key := by
  induction renames with
  | nil => rfl
  | cons r rest ih =>
      obtain ⟨hfirst, hrest⟩ := List.forall_mem_cons.mp h
      rw [newKey, if_neg hfirst, ih hrest]

theorem newKey_of_mem (hdistinct : renames.Pairwise fun r s => r.place ≠ s.place) (hr : r ∈ renames)
    (hplace : r.place = place ++ [.key key]) : newKey renames place key = r.name := by
  induction renames with
  | nil => cases hr
  | cons first rest ih =>
      obtain ⟨hfirst, hrest⟩ := List.pairwise_cons.mp hdistinct
      rw [newKey]
      rcases List.mem_cons.mp hr with rfl | hr
      · rw [if_pos hplace]
      · rw [if_neg fun heq => hfirst r hr (heq.trans hplace.symm), ih hrest hr]

/-- Renamings at different places may come in any order. -/
theorem newKey_eq_of_perm (hdistinct : renames.Pairwise fun r s => r.place ≠ s.place)
    (hperm : renames.Perm rest) : newKey rest = newKey renames := by
  have hrest : rest.Pairwise fun r s => r.place ≠ s.place :=
    (hperm.pairwise_iff fun hne => hne.symm).mp hdistinct
  funext place key
  by_cases hmem : ∃ r ∈ renames, r.place = place ++ [.key key]
  · obtain ⟨r, hr, hplace⟩ := hmem
    rw [newKey_of_mem hdistinct hr hplace, newKey_of_mem hrest (hperm.mem_iff.mp hr) hplace]
  · rw [newKey_eq_self fun r hr hplace => hmem ⟨r, hr, hplace⟩,
      newKey_eq_self fun r hr hplace => hmem ⟨r, hperm.mem_iff.mpr hr, hplace⟩]

/-- Renamings of different keys, all of which a document has. -/
structure Recorded (renames : List Rename) (d : Document) : Prop where
  keys : ∀ r ∈ renames, ∃ parent old, r.place = parent ++ [.key old]
  present : ∀ r ∈ renames, (d.at? r.place).isSome
  distinct : renames.Pairwise fun r s => r.place ≠ s.place

/-- None of the renamings reaches deeper than the ones before it. -/
def Descending (renames : List Rename) : Prop :=
  renames.Pairwise fun r s => s.place.length ≤ r.place.length

/-- The mapping that holds a key is found under the place of the key. -/
theorem exists_holder (h : (d.at? (parent ++ [.key old])).isSome) :
    ∃ fields value, d.at? parent = some (.map fields) ∧ Keyed.find? old fields = some value := by
  obtain ⟨value, hvalue⟩ := Option.isSome_iff_exists.mp h
  rw [at?_append] at hvalue
  obtain ⟨holder, hholder, hvalue⟩ := Option.bind_eq_some_iff.mp hvalue
  rw [at?_singleton] at hvalue
  cases holder with
  | map fields => exact ⟨fields, value, hholder, hvalue⟩
  | _ => cases hvalue

/-- Where the key is found, a renaming is an exchange of keys. -/
theorem rename_eq (hplace : r.place = parent ++ [.key old])
    (hat : d.at? parent = some (.map fields)) :
    rename d r = renameField r.place old r.name fields >>= fun fields' =>
      .ok ((d.putAt? parent (.map fields')).getD d) := by
  rw [rename, hplace, List.getLast?_concat]
  dsimp only
  rw [List.dropLast_concat, hat]
  rfl

theorem Recorded.holder (h : Recorded (r :: rest) d) :
    ∃ parent old fields value, r.place = parent ++ [.key old] ∧
      d.at? parent = some (.map fields) ∧ Keyed.find? old fields = some value := by
  obtain ⟨parent, old, hplace⟩ := h.keys r List.mem_cons_self
  have hpresent := h.present r List.mem_cons_self
  rw [hplace] at hpresent
  obtain ⟨fields, value, hat, hvalue⟩ := exists_holder hpresent
  exact ⟨parent, old, fields, value, hplace, hat, hvalue⟩

/-- Where all keys are found, a renaming exchanges its key. -/
theorem Recorded.exchanged (h : Recorded (r :: rest) d) (hrename : rename d r = .ok d') :
    ∃ parent old, r.place = parent ++ [.key old] ∧ Exchanged parent old r.name d d' := by
  obtain ⟨parent, old, fields, value, hplace, hat, hvalue⟩ := h.holder
  rw [rename_eq hplace hat] at hrename
  obtain ⟨fields', hfields', hrename⟩ := Outcome.bind_eq_ok.mp hrename
  obtain ⟨after, hput⟩ := exists_putAt? (.map fields') hat
  rw [hput] at hrename
  cases hrename
  refine ⟨parent, old, hplace, ?_⟩
  rcases renameField_eq_ok hfields' with ⟨hnone, -⟩ | ⟨value, hvalue, hfree, rfl⟩
  · rw [hvalue] at hnone
    cases hnone
  · exact .intro hat hvalue hfree hput

/-- Where all keys are found, a renaming fails for a key that is taken only. -/
theorem Recorded.failsOnly (h : Recorded (r :: rest) d) :
    Outcome.FailsOnly (· = .template r.place.text (.keyCollision r.name)) (rename d r) := by
  obtain ⟨parent, old, fields, value, hplace, hat, hvalue⟩ := h.holder
  rw [rename_eq hplace hat, renameField]
  refine Outcome.FailsOnly.bind ?_ fun _ => Outcome.failsOnly_ok _
  split
  · exact Outcome.failsOnly_error rfl
  · rw [hvalue]
    exact Outcome.failsOnly_ok _

/-- The keys that are still to be renamed keep their places, as none of them stands deeper. -/
theorem Recorded.tail (h : Recorded (r :: rest) d) (hdescending : Descending (r :: rest))
    (hrename : rename d r = .ok d') : Recorded rest d' where
  keys s hs := h.keys s (List.mem_cons_of_mem _ hs)
  distinct := (List.pairwise_cons.mp h.distinct).2
  present s hs := by
    obtain ⟨parent, old, hplace, hexchanged⟩ := h.exchanged hrename
    apply hexchanged.isSome_at? (h.present s (List.mem_cons_of_mem _ hs))
    rw [← hplace]
    intro hwithin
    have hlength := (List.pairwise_cons.mp hdescending).1 s hs
    exact (List.pairwise_cons.mp h.distinct).1 s hs (hwithin.eq_of_length_le hlength)

theorem Recorded.remaining {front : List Rename} (h : Recorded (front ++ rest) d)
    (hdescending : Descending (front ++ rest)) (hrun : front.foldlM rename d = .ok d') :
    Recorded rest d' := by
  induction front generalizing d with
  | nil =>
      cases hrun
      exact h
  | cons r front ih =>
      obtain ⟨middle, hmiddle, hrun⟩ := Outcome.foldlM_cons_eq_ok.mp hrun
      exact ih (h.tail hdescending hmiddle) (List.pairwise_cons.mp hdescending).2 hrun

/-- The name that a key is given is not renamed in its turn. -/
theorem Recorded.newKey_name (h : Recorded (r :: rest) d) (hplace : r.place = parent ++ [.key old])
    (hexchanged : Exchanged parent old r.name d d') : newKey rest parent r.name = r.name := by
  apply newKey_eq_self
  -- a key that is still to be renamed is there, and the new name has been free
  intro s hs hsplace
  have hpresent := h.present s (List.mem_cons_of_mem _ hs)
  rw [hsplace] at hpresent
  obtain ⟨fields, taken, hat, htaken⟩ := exists_holder hpresent
  obtain ⟨hat', -, hfree, -⟩ := hexchanged
  rw [hat, Option.some.injEq, map.injEq] at hat'
  subst hat'
  rcases hfree with heq | hnone
  · apply (List.pairwise_cons.mp h.distinct).1 s hs
    rw [hplace, hsplace, heq]
  · rw [hnone] at htaken
    cases htaken

/-- Below the mapping of the deepest key nothing else is renamed. -/
theorem Descending.newKey_deeper (h : Descending (r :: rest))
    (hplace : r.place = parent ++ [.key old]) (hlength : parent.length < place.length) :
    newKey rest place key = key := by
  apply newKey_eq_self
  intro s hs hsplace
  have hle := (List.pairwise_cons.mp h).1 s hs
  rw [hsplace, hplace, List.length_append, List.length_append, List.length_singleton,
    List.length_singleton] at hle
  omega

/-- Renamings that come the deepest first are one relabelling. -/
theorem Recorded.relabelled (h : Recorded renames d) (hdescending : Descending renames)
    (hd : d.Ordered) (hrun : renames.foldlM rename d = .ok d') :
    d'.Ordered ∧ Relabelled (newKey renames) [] d d' := by
  induction renames generalizing d with
  | nil =>
      cases hrun
      exact ⟨hd, relabelled_refl (fun _ _ _ => rfl) _⟩
  | cons r rest ih =>
      obtain ⟨middle, hmiddle, hrun⟩ := Outcome.foldlM_cons_eq_ok.mp hrun
      obtain ⟨parent, old, hplace, hexchanged⟩ := h.exchanged hmiddle
      obtain ⟨hordered, hafter⟩ := ih (h.tail hdescending hmiddle)
        (List.pairwise_cons.mp hdescending).2 (hexchanged.ordered hd) hrun
      refine ⟨hordered, hexchanged.relabelled hd ?_ (h.newKey_name hplace hexchanged) ?_
        (fun p key => hdescending.newKey_deeper hplace) hafter⟩
      · rw [newKey, if_pos hplace]
      · intro p key hne
        rw [newKey, if_neg fun heq => hne (heq.symm.trans hplace)]

/-- Where all keys are found, renamings fail for a key that is taken only. -/
theorem Recorded.failsOnly_foldlM (h : Recorded renames d) (hdescending : Descending renames) :
    Outcome.FailsOnly (fun f => ∃ r ∈ renames, f = .template r.place.text (.keyCollision r.name))
      (renames.foldlM rename d) := by
  induction renames generalizing d with
  | nil => exact Outcome.failsOnly_ok _
  | cons r rest ih =>
      rw [List.foldlM_cons]
      refine (h.failsOnly.mono fun f hf => ⟨r, List.mem_cons_self, hf⟩).bind_of_ok ?_
      intro middle hmiddle
      have hrest := ih (h.tail hdescending hmiddle) (List.pairwise_cons.mp hdescending).2
      exact hrest.mono fun f ⟨s, hs, hf⟩ => ⟨s, List.mem_cons_of_mem _ hs, hf⟩

/-- Renamings, the deepest first. -/
def deepestFirst (renames : List Rename) : List Rename :=
  renames.mergeSort fun a b => decide (b.place.length ≤ a.place.length)

theorem renameAll_eq (run : Document) (renames : List Rename) :
    renameAll run renames = (deepestFirst renames).foldlM rename run := rfl

theorem perm_deepestFirst (renames : List Rename) : (deepestFirst renames).Perm renames :=
  List.mergeSort_perm renames _

theorem descending_deepestFirst (renames : List Rename) : Descending (deepestFirst renames) := by
  refine (List.pairwise_mergeSort ?_ ?_ renames).imp of_decide_eq_true
  · intro a b c hab hbc
    simp only [decide_eq_true_eq] at *
    omega
  · intro a b
    simp only [Bool.or_eq_true, decide_eq_true_eq]
    omega

theorem Recorded.perm (h : Recorded renames d) (hperm : renames.Perm rest) : Recorded rest d where
  keys r hr := h.keys r (hperm.mem_iff.mpr hr)
  present r hr := h.present r (hperm.mem_iff.mpr hr)
  distinct := (hperm.pairwise_iff fun hne => hne.symm).mp h.distinct

/-- The renaming of a round is one relabelling of the run. -/
theorem Recorded.relabelled_of_renameAll (h : Recorded renames run) (hd : run.Ordered)
    (hrun : renameAll run renames = .ok run') :
    run'.Ordered ∧ Relabelled (newKey renames) [] run run' := by
  rw [renameAll_eq] at hrun
  have hperm := (perm_deepestFirst renames).symm
  rw [← newKey_eq_of_perm h.distinct hperm]
  exact (h.perm hperm).relabelled (descending_deepestFirst renames) hd hrun

/-- The value under a key has come under the new name of the key, with the keys in it renamed; if
there are none of these, as it was. -/
def Carried (renames : List Rename) (r : Rename) (d d' : Document) : Prop :=
  ∃ parent old value value', r.place = parent ++ [.key old] ∧ d.at? r.place = some value ∧
    d'.at? (moved (newKey renames) [] parent ++ [.key r.name]) = some value' ∧
    Relabelled (newKey renames) r.place value value' ∧
    ((∀ s ∈ renames, r.place <+: s.place → s.place = r.place) → value' = value)

theorem Recorded.carried (h : Recorded renames run) (hd : run.Ordered)
    (hrun : renameAll run renames = .ok run') (hr : r ∈ renames) : Carried renames r run run' := by
  obtain ⟨hd', hrelabelled⟩ := h.relabelled_of_renameAll hd hrun
  obtain ⟨parent, old, hplace⟩ := h.keys r hr
  obtain ⟨value, hvalue⟩ := Option.isSome_iff_exists.mp (h.present r hr)
  obtain ⟨value', hvalue', hbelow⟩ := hrelabelled.at? hvalue
  rw [List.nil_append] at hbelow
  refine ⟨parent, old, value, value', hplace, hvalue, ?_, hbelow, fun hlast => ?_⟩
  · rw [hplace, moved_append, List.nil_append, moved, movedStep,
      newKey_of_mem h.distinct hr hplace] at hvalue'
    exact hvalue'
  · refine hbelow.unique (relabelled_refl ?_ value) (hd'.at? hvalue') (hd.at? hvalue)
    intro p key hwithin
    apply newKey_eq_self
    intro s hs hsplace
    have hbeyond : r.place.length < s.place.length := by
      have hlength := hwithin.length_le
      rw [hsplace, List.length_append, List.length_singleton]
      omega
    have hinside : r.place <+: s.place := by
      rw [hsplace]
      exact hwithin.trans (List.prefix_append _ _)
    rw [hlast s hs hinside] at hbeyond
    exact Nat.lt_irrefl _ hbeyond

end Resolution

end ExperimentSuite
