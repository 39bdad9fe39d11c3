import ExperimentSuite.Placeholder.Resolution
import ExperimentSuite.Proofs.Placeholder.Pending

/-!
# What later documents keep

Resolution replaces pending texts and renames pending keys, and what it leaves
alone can be said place by place. A place is fixed when none of its keys is
pending. At a fixed place a scalar stays, a list keeps its length, a mapping
none of whose keys is pending gains no key, and only a pending text may become
anything else. A reference that is settled therefore finds the same value in
every later document, and an absent key stays absent.
-/

namespace ExperimentSuite

/-- What a document has for a reference. -/
inductive Finding where
  | value (d : Document)
  /-- A mapping on the way lacks the first of these keys. -/
  | missing (rest : KeyPath)
  /-- The way ends at a list before these keys. -/
  | list (rest : KeyPath)
  /-- The way ends at a scalar before these keys. -/
  | scalar (d : Document) (rest : KeyPath)

/-- None of the keys on the way to a place holds a placeholder. -/
def Place.Fixed (place : Place) : Prop :=
  ∀ name, Step.key name ∈ place → Placeholder.occursIn name = false

namespace Document

open KeyPath

variable {d d' d'' c c' value : Document} {step : Step} {place own p q : Place}
  {written written' : Place → Prop} {path : KeyPath} {f : Document → Option Document}
  {fields fields' : List (String × Document)} {key old new : String}

/-- What the value at a fixed place may turn into; a pending text only if it may be written. -/
def Becomes (mayWrite : Prop) : Document → Document → Prop
  | .str s, d => (mayWrite ∧ Placeholder.occursIn s = true) ∨ d = .str s
  | .list items, d => ∃ items', d = .list items' ∧ items'.length = items.length
  | .map fields, d => ∃ fields', d = .map fields' ∧
      ((∀ e ∈ fields, Placeholder.occursIn e.1 = false) →
        ∀ key, Keyed.find? key fields = none → Keyed.find? key fields' = none)
  | c, d => d = c

/-- The later document agrees with the earlier one at every fixed place, pending texts at the places
that may be written apart. -/
def Evolves (written : Place → Prop) (d d' : Document) : Prop :=
  ∀ place : Place, place.Fixed → ∀ c, d.at? place = some c →
    ∃ c', d'.at? place = some c' ∧ Becomes (written place) c c'

/-- What is found by following keys; a value on the way that is no mapping ends it. -/
def find : Document → KeyPath → Finding
  | d, [] => .value d
  | .map fields, key :: rest =>
      match Keyed.find? key fields with
      | some child => child.find rest
      | none => .missing (key :: rest)
  | .list _, key :: rest => .list (key :: rest)
  | d, key :: rest => .scalar d (key :: rest)

/-- Mappings with the same child under the first key have the same for a reference. -/
theorem find_congr (hd : d.isMap = true) (hd' : d'.isMap = true)
    (h : d.child? (.key key) = d'.child? (.key key)) (rest : KeyPath) :
    d.find (key :: rest) = d'.find (key :: rest) := by
  obtain ⟨fields, rfl⟩ := isMap_iff.mp hd
  obtain ⟨fields', rfl⟩ := isMap_iff.mp hd'
  rw [child?, child?] at h
  rw [find, find, h]

theorem Becomes.refl (mayWrite : Prop) (c : Document) : Becomes mayWrite c c := by
  cases c with
  | str s => exact .inr rfl
  | list items => exact ⟨items, rfl, rfl⟩
  | map fields => exact ⟨fields, rfl, fun _ _ h => h⟩
  | _ => rfl

theorem Becomes.trans {mayWrite : Prop} (h : Becomes mayWrite c d) (h' : Becomes mayWrite d d') :
    Becomes mayWrite c d' := by
  cases c with
  | str s =>
      rcases h with h | rfl
      · exact .inl h
      · exact h'
  | list items =>
      obtain ⟨items', rfl, hlen⟩ := h
      obtain ⟨items'', rfl, hlen'⟩ := h'
      exact ⟨items'', rfl, hlen'.trans hlen⟩
  | map fields =>
      obtain ⟨fields', rfl, hkeys⟩ := h
      obtain ⟨fields'', rfl, hkeys'⟩ := h'
      refine ⟨fields'', rfl, ?_⟩
      intro hplain key hnone
      refine hkeys' (fun e he => ?_) key (hkeys hplain key hnone)
      -- no key has come in, so none of the keys in between is pending either
      have hfound : Keyed.find? e.1 fields ≠ none := fun hno =>
        Keyed.find?_eq_none_iff.mp (hkeys hplain e.1 hno) e he rfl
      obtain ⟨c, hc⟩ := Option.ne_none_iff_exists'.mp hfound
      exact hplain (e.1, c) (Keyed.mem_of_find? hc)
  | _ => cases h; exact h'

theorem Becomes.mono {mayWrite mayWrite' : Prop} (h : Becomes mayWrite c d)
    (hle : mayWrite → mayWrite') : Becomes mayWrite' c d := by
  cases c with
  | str s => exact h.imp_left fun hs => ⟨hle hs.1, hs.2⟩
  | _ => exact h

theorem Evolves.refl (written : Place → Prop) (d : Document) : Evolves written d d :=
  fun _ _ c hc => ⟨c, hc, Becomes.refl _ c⟩

theorem Evolves.trans (h : Evolves written d d') (h' : Evolves written d' d'') :
    Evolves written d d'' := by
  intro place hplace c hc
  obtain ⟨c', hc', hb⟩ := h place hplace c hc
  obtain ⟨c'', hc'', hb'⟩ := h' place hplace c' hc'
  exact ⟨c'', hc'', hb.trans hb'⟩

theorem Evolves.mono (h : Evolves written d d') (hle : ∀ place, written place → written' place) :
    Evolves written' d d' := by
  intro place hplace c hc
  obtain ⟨c', hc', hb⟩ := h place hplace c hc
  exact ⟨c', hc', hb.mono (hle place)⟩

/-- What stands at a fixed place evolves by itself. -/
theorem Evolves.at? (h : Evolves written d d') (hplace : place.Fixed) (hc : d.at? place = some c) :
    ∃ c', d'.at? place = some c' ∧ Evolves (fun q => written (place ++ q)) c c' := by
  obtain ⟨c', hc', -⟩ := h place hplace c hc
  refine ⟨c', hc', ?_⟩
  intro q hq v hv
  have hfixed : Place.Fixed (place ++ q) := fun name hname =>
    (List.mem_append.mp hname).elim (hplace name) (hq name)
  have hbelow : d.at? (place ++ q) = some v := by
    rw [at?_append, hc]
    exact hv
  obtain ⟨v', hv', hb⟩ := h _ hfixed v hbelow
  rw [at?_append, hc'] at hv'
  exact ⟨v', hv', hb⟩

theorem Evolves.child? (h : Evolves written d d') (hstep : Place.Fixed [step])
    (hc : d.child? step = some c) :
    ∃ c', d'.child? step = some c' ∧ Evolves (fun q => written (step :: q)) c c' := by
  rw [← at?_singleton] at hc
  obtain ⟨c', hc', he⟩ := h.at? hstep hc
  exact ⟨c', at?_singleton d' step ▸ hc', he⟩

theorem Evolves.isMap (h : Evolves written d d') (hd : d.isMap = true) : d'.isMap = true := by
  obtain ⟨fields, rfl⟩ := isMap_iff.mp hd
  obtain ⟨_, hself, fields', rfl, -⟩ := h [] (by simp [Place.Fixed]) _ (at?_nil _)
  rw [at?_nil, Option.some.injEq] at hself
  rw [hself]
  rfl

/-- A change of a child changes nothing else. -/
theorem Evolves.withChild (hc : d.child? step = some c)
    (h : Evolves (fun q => written (step :: q)) c c') :
    Evolves written d (d.withChild step c') := by
  intro place hplace v hv
  cases place with
  | nil =>
      rw [at?_nil, Option.some.injEq] at hv
      subst hv
      refine ⟨_, at?_nil _, ?_⟩
      cases d with
      | map fields =>
          cases step with
          | key name =>
              refine ⟨_, rfl, ?_⟩
              intro _ key hnone
              have hne : name ≠ key := by
                rintro rfl
                rw [Document.child?, hnone] at hc
                cases hc
              rw [Keyed.find?_insert_of_ne hne]
              exact hnone
          | index n => cases hc
      | list items =>
          cases step with
          | key name => cases hc
          | index n => exact ⟨_, rfl, List.length_set⟩
      | _ => cases hc
  | cons other rest =>
      rw [at?_cons] at hv ⊢
      by_cases heq : step = other
      · subst heq
        rw [hc, Option.bind_some] at hv
        rw [child?_withChild_self hc]
        exact h rest (fun name hname => hplace name (List.mem_cons_of_mem _ hname)) v hv
      · rw [child?_withChild_of_ne heq]
        exact ⟨v, hv, Becomes.refl _ v⟩

/-- A change at a place is one of what stands there. -/
theorem Evolves.modifyAt? (h : modifyAt? f d place = some d')
    (hf : ∀ c c', d.at? place = some c → f c = some c' →
      Evolves (fun q => written (place ++ q)) c c') : Evolves written d d' := by
  induction place generalizing d d' written with
  | nil =>
      rw [modifyAt?_nil] at h
      exact hf d d' (at?_nil d) h
  | cons step rest ih =>
      obtain ⟨c, c', hc, hc', rfl⟩ := modifyAt?_cons_eq_some.mp h
      refine Evolves.withChild hc (ih hc' fun v v' hv hv' => ?_)
      have hbelow : d.at? (step :: rest) = some v := by
        rw [at?_cons, hc]
        exact hv
      exact hf v v' hbelow hv'

/-- A pending text that may be written is replaced. -/
theorem Evolves.putAt? {s : String} (hat : d.at? place = some (.str s))
    (hs : Placeholder.occursIn s = true) (hw : written place)
    (h : d.putAt? place value = some d') : Evolves written d d' := by
  apply Evolves.modifyAt? h
  intro c c' hc hc' q _ v hv
  rw [hat, Option.some.injEq] at hc
  cases hc'
  subst hc
  cases q with
  | nil =>
      rw [at?_nil, Option.some.injEq] at hv
      subst hv
      exact ⟨value, at?_nil _, .inl ⟨by simpa using hw, hs⟩⟩
  | cons step rest =>
      rw [at?_cons] at hv
      cases step <;> cases hv

/-- A pending key is exchanged for another one. -/
theorem Evolves.rename (hfound : Keyed.find? old fields = some value)
    (hold : Placeholder.occursIn old = true) (hfree : new = old ∨ Keyed.find? new fields = none) :
    Evolves written (.map fields) (.map (Keyed.insert new value (Keyed.erase old fields))) := by
  intro place hplace v hv
  cases place with
  | nil =>
      rw [at?_nil, Option.some.injEq] at hv
      subst hv
      refine ⟨_, at?_nil _, _, rfl, fun hplain => ?_⟩
      rw [hplain _ (Keyed.mem_of_find? hfound)] at hold
      cases hold
  | cons step rest =>
      cases step with
      | index n => cases hv
      | key name =>
          have hname : name ≠ old := by
            rintro rfl
            rw [hplace name List.mem_cons_self] at hold
            cases hold
          rw [at?_cons] at hv ⊢
          obtain ⟨c, hc, hv⟩ := Option.bind_eq_some_iff.mp hv
          have hnew : new ≠ name := by
            rintro rfl
            rcases hfree with heq | hnone
            · exact hname heq
            · rw [Document.child?, hnone] at hc
              cases hc
          have hkept :
              Keyed.find? name (Keyed.insert new value (Keyed.erase old fields)) = some c := by
            rw [Keyed.find?_insert_of_ne hnew, Keyed.find?_erase_of_ne hname.symm]
            exact hc
          refine ⟨v, ?_, Becomes.refl _ v⟩
          rw [Document.child?, hkept]
          exact hv

/-- A document without placeholders stays what it is. -/
theorem Evolves.eq_of_plain (h : Evolves written d d') (hd : d.Ordered) (hd' : d'.Ordered)
    (hplain : d.Plain) : d' = d := by
  induction d using childInduction generalizing d' written with
  | h d ih =>
      obtain ⟨_, hself, hb⟩ := h [] (by simp [Place.Fixed]) d (at?_nil d)
      rw [at?_nil, Option.some.injEq] at hself
      subst hself
      cases d with
      | str s =>
          rcases hb with ⟨-, hs⟩ | heq
          · rw [plain_str.mp hplain] at hs
            cases hs
          · exact heq
      | list items =>
          obtain ⟨items', rfl, hlen⟩ := hb
          congr 1
          apply List.ext_getElem?
          intro n
          cases hc : items[n]? with
          | none =>
              rw [List.getElem?_eq_none_iff] at hc ⊢
              omega
          | some c =>
              have hstep : Place.Fixed [.index n] := by simp [Place.Fixed]
              have hchild : (list items).child? (.index n) = some c := hc
              obtain ⟨c', hc', he⟩ := h.child? hstep hchild
              rw [← ih (.index n) c hchild he (hd.child? hchild) (hd'.child? hc')
                (hplain.child? hd hchild)]
              exact hc'
      | map fields =>
          obtain ⟨fields', rfl, hkeys⟩ := hb
          congr 1
          apply Keyed.ext hd'.sorted hd.sorted
          intro key
          cases hc : Keyed.find? key fields with
          | none =>
              refine hkeys (fun e he => ?_) key hc
              exact hplain.key hd (Keyed.find?_of_mem hd.sorted he)
          | some c =>
              have hstep : Place.Fixed [.key key] := by
                simpa [Place.Fixed] using hplain.key hd hc
              have hchild : (map fields).child? (.key key) = some c := hc
              obtain ⟨c', hc', he⟩ := h.child? hstep hchild
              rw [← ih (.key key) c hchild he (hd.child? hchild) (hd'.child? hc')
                (hplain.child? hd hchild)]
              exact hc'
      | _ => exact hb

/-- What a settled reference finds is final, whatever is written and renamed later. -/
theorem Evolves.find_eq (h : Evolves written d d') (hd : d.Ordered) (hd' : d'.Ordered)
    (hpath : ∀ name ∈ path, Placeholder.occursIn name = false)
    (hsettled : Resolution.isSettled own d place path = true)
    (hown : ¬ place ++ path.map Step.key <+: own) : d'.find path = d.find path := by
  induction path generalizing d d' place written with
  | nil =>
      have hno : d.hasPending own place = false := by simpa [Resolution.isSettled] using hsettled
      have hplain : d.Plain := by
        have hiff : d.pendingAt place = [] ↔ d.Plain := pendingAt_eq_nil_iff hd
        rw [← hiff, List.eq_nil_iff_forall_not_mem]
        intro item hitem
        have hpre := prefix_of_mem_pendingAt hd hitem
        have hne : item.place ≠ own := by
          rintro rfl
          exact hown (by simpa using hpre)
        rw [hasPending_eq_true_iff.mpr ⟨item, hitem, hne⟩] at hno
        cases hno
      rw [h.eq_of_plain hd hd' hplain]
  | cons key rest ih =>
      obtain ⟨hkey, hrest⟩ := List.forall_mem_cons.mp hpath
      obtain ⟨_, hself, hb⟩ := h [] (by simp [Place.Fixed]) d (at?_nil d)
      rw [at?_nil, Option.some.injEq] at hself
      subst hself
      cases d with
      | map fields =>
          obtain ⟨fields', rfl, hkeys⟩ := hb
          cases hc : Keyed.find? key fields with
          | none =>
              have hplain : ∀ e ∈ fields, Placeholder.occursIn e.1 = false := by
                simpa [Resolution.isSettled, hc] using hsettled
              simp only [find, hc, hkeys hplain key hc]
          | some c =>
              have hstep : Place.Fixed [.key key] := by simpa [Place.Fixed] using hkey
              have hchild : (map fields).child? (.key key) = some c := hc
              obtain ⟨c', hc', he⟩ := h.child? hstep hchild
              have hbelow : Resolution.isSettled own c (place ++ [.key key]) rest = true := by
                simpa [Resolution.isSettled, hc] using hsettled
              have heq := ih he (hd.child? hchild) (hd'.child? hc') hrest hbelow
                (by simpa using hown)
              have hc'' : Keyed.find? key fields' = some c' := hc'
              simp only [find, hc, hc'', heq]
      | list items =>
          obtain ⟨items', rfl, -⟩ := hb
          rfl
      | str s =>
          rcases hb with ⟨-, hs⟩ | rfl
          · simp [Resolution.isSettled, hs] at hsettled
          · rfl
      | _ => cases hb; rfl

end Document

end ExperimentSuite
