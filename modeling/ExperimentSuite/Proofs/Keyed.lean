import ExperimentSuite.Keyed
import ExperimentSuite.Proofs.Outcome
import Mathlib.Data.List.Sort
import Mathlib.Data.String.Basic
import Mathlib.Order.Basic

/-!
# Looking up in keyed and ascending lists

What a write or an erasure does to every look-up, which operations keep the
order, and that an ordered keyed list is determined by its look-ups. Writes
and erasures of one key never touch another key, ordered or not; only the
statements about the key itself need the order. A traversal of a keyed list
that succeeds leaves the keys as they are and changes each value by itself.
-/

namespace ExperimentSuite

namespace Keyed

variable {α β : Type} {key other : String} {value : α} {entries left right : List (String × α)}

theorem find?_insert (key other : String) (value : α) (entries : List (String × α)) :
    find? other (insert key value entries) =
      if key = other then some value else find? other entries := by
  induction entries with
  | nil => simp [insert, find?]
  | cons e rest ih =>
      obtain ⟨k, a⟩ := e
      rw [insert]
      split
      · simp [find?]
      · split
        · next heq => subst heq; simp only [find?]; split <;> simp_all
        · simp only [find?, ih]
          split <;> split <;> simp_all

theorem find?_insert_of_ne (h : key ≠ other) :
    find? other (insert key value entries) = find? other entries := by
  rw [find?_insert, if_neg h]

theorem find?_erase_of_ne (h : key ≠ other) :
    find? other (erase key entries) = find? other entries := by
  induction entries with
  | nil => rfl
  | cons e rest ih =>
      obtain ⟨k, a⟩ := e
      simp only [erase, find?]
      split
      · next heq => subst heq; rw [if_neg h]
      · simp only [find?, ih]

theorem find?_eq_none_iff : find? key entries = none ↔ ∀ e ∈ entries, e.1 ≠ key := by
  induction entries with
  | nil => simp
  | cons e rest ih =>
      obtain ⟨k, a⟩ := e
      simp only [find?, List.forall_mem_cons]
      split <;> simp_all

theorem find?_eq_none_of_not_mem (h : key ∉ keys entries) : find? key entries = none := by
  apply find?_eq_none_iff.mpr
  rintro e he rfl
  exact h (List.mem_map_of_mem he)

theorem mem_of_find? (h : find? key entries = some value) : (key, value) ∈ entries := by
  induction entries with
  | nil => cases h
  | cons e rest ih =>
      obtain ⟨k, a⟩ := e
      simp only [find?] at h
      split at h
      · next heq => cases h; simp [heq]
      · exact List.mem_cons_of_mem _ (ih h)

theorem sorted_cons {e : String × α} :
    Sorted (e :: entries) ↔ (∀ e' ∈ entries, e.1 < e'.1) ∧ Sorted entries :=
  List.pairwise_cons

theorem sorted_iff_keys : Sorted entries ↔ (keys entries).Pairwise (· < ·) :=
  List.pairwise_map.symm

theorem Sorted.nodup_keys (hs : Sorted entries) : (keys entries).Nodup :=
  (sorted_iff_keys.mp hs).imp fun hlt => hlt.ne

/-- Of entries under different keys a look-up finds each one. -/
theorem find?_of_mem_of_nodup (hkeys : (keys entries).Nodup) (h : (key, value) ∈ entries) :
    find? key entries = some value := by
  induction entries with
  | nil => cases h
  | cons e rest ih =>
      obtain ⟨k, a⟩ := e
      obtain ⟨hnot, hrest⟩ := List.nodup_cons.mp hkeys
      simp only [find?]
      rcases List.mem_cons.mp h with heq | hmem
      · cases heq
        simp
      · have hne : k ≠ key := by
          rintro rfl
          exact hnot (List.mem_map.mpr ⟨_, hmem, rfl⟩)
        rw [if_neg hne, ih hrest hmem]

/-- In an ordered list every entry is the one that a look-up finds. -/
theorem find?_of_mem (hs : Sorted entries) (h : (key, value) ∈ entries) :
    find? key entries = some value :=
  find?_of_mem_of_nodup hs.nodup_keys h

theorem find?_eq_some_iff (hs : Sorted entries) :
    find? key entries = some value ↔ (key, value) ∈ entries :=
  ⟨mem_of_find?, find?_of_mem hs⟩

theorem mem_of_mem_erase {e : String × α} (h : e ∈ erase key entries) : e ∈ entries := by
  induction entries with
  | nil => cases h
  | cons e' rest ih =>
      obtain ⟨k, a⟩ := e'
      simp only [erase] at h
      split at h
      · exact List.mem_cons_of_mem _ h
      · rcases List.mem_cons.mp h with heq | hmem
        · simp [heq]
        · exact List.mem_cons_of_mem _ (ih hmem)

theorem mem_insert {e : String × α} (h : e ∈ insert key value entries) :
    e = (key, value) ∨ e ∈ entries := by
  induction entries with
  | nil => simpa [insert] using h
  | cons e' rest ih =>
      obtain ⟨k, a⟩ := e'
      simp only [insert] at h
      split at h
      · simpa using h
      · split at h
        · rcases List.mem_cons.mp h with heq | hmem
          · exact .inl heq
          · exact .inr (List.mem_cons_of_mem _ hmem)
        · rcases List.mem_cons.mp h with heq | hmem
          · exact .inr (by simp [heq])
          · exact (ih hmem).imp id (List.mem_cons_of_mem _)

/-- A write of one key leaves the entries under other keys where they are. -/
theorem mem_insert_of_ne {e : String × α} (he : e ∈ entries) (hne : e.1 ≠ key) :
    e ∈ insert key value entries := by
  induction entries with
  | nil => cases he
  | cons e' rest ih =>
      obtain ⟨k, a⟩ := e'
      simp only [insert]
      split
      · exact List.mem_cons_of_mem _ he
      · split
        · next heq =>
            rcases List.mem_cons.mp he with rfl | hrest
            · exact absurd heq.symm hne
            · exact List.mem_cons_of_mem _ hrest
        · rcases List.mem_cons.mp he with rfl | hrest
          · exact List.mem_cons_self
          · exact List.mem_cons_of_mem _ (ih hrest)

theorem sorted_insert (hs : Sorted entries) : Sorted (insert key value entries) := by
  induction entries with
  | nil => simp [insert, Sorted]
  | cons e rest ih =>
      obtain ⟨k, a⟩ := e
      obtain ⟨hlt, hrest⟩ := sorted_cons.mp hs
      simp only [insert]
      split
      · next hkey =>
          refine sorted_cons.mpr ⟨fun e' he' => ?_, hs⟩
          rcases List.mem_cons.mp he' with heq | hmem
          · rw [heq]; exact hkey
          · exact hkey.trans (hlt e' hmem)
      · split
        · next heq => exact sorted_cons.mpr ⟨heq ▸ hlt, hrest⟩
        · next hnlt hne =>
            refine sorted_cons.mpr ⟨fun e' he' => ?_, ih hrest⟩
            rcases mem_insert he' with heq | hmem
            · rw [heq]; exact lt_of_le_of_ne (not_lt.mp hnlt) (Ne.symm hne)
            · exact hlt e' hmem

theorem sorted_erase (hs : Sorted entries) : Sorted (erase key entries) := by
  induction entries with
  | nil => exact hs
  | cons e rest ih =>
      obtain ⟨k, a⟩ := e
      obtain ⟨hlt, hrest⟩ := sorted_cons.mp hs
      simp only [erase]
      split
      · exact hrest
      · exact sorted_cons.mpr ⟨fun e' he' => hlt e' (mem_of_mem_erase he'), ih hrest⟩

theorem find?_erase_self (hs : Sorted entries) : find? key (erase key entries) = none := by
  induction entries with
  | nil => rfl
  | cons e rest ih =>
      obtain ⟨k, a⟩ := e
      obtain ⟨hlt, hrest⟩ := sorted_cons.mp hs
      simp only [erase]
      split
      · next heq => exact find?_eq_none_iff.mpr fun e' he' => heq ▸ (hlt e' he').ne'
      · next hne => simp only [find?, if_neg hne, ih hrest]

/-- Ordered lists with the same look-ups are equal. -/
theorem ext (hl : Sorted left) (hr : Sorted right)
    (h : ∀ key, find? key left = find? key right) : left = right := by
  have hmem : ∀ e, e ∈ left ↔ e ∈ right := fun ⟨k, a⟩ => by
    rw [← find?_eq_some_iff hl, ← find?_eq_some_iff hr, h k]
  have hnodup : ∀ {l : List (String × α)}, Sorted l → l.Nodup :=
    fun hs => hs.imp fun h heq => absurd h (by simp [heq])
  refine ((List.perm_ext_iff_of_nodup (hnodup hl) (hnodup hr)).mpr hmem).eq_of_pairwise
    ?_ hl hr
  intro a b _ _ hab hba
  exact absurd hab hba.asymm

theorem erase_eq_self (h : find? key entries = none) : erase key entries = entries := by
  induction entries with
  | nil => rfl
  | cons e rest ih =>
      obtain ⟨k, a⟩ := e
      simp only [find?] at h
      split at h
      · cases h
      next hne =>
      rw [erase, if_neg hne, ih h]

/-- An entry that is taken out and put back leaves the list as it was. -/
theorem insert_erase_self (hs : Sorted entries) (h : find? key entries = some value) :
    insert key value (erase key entries) = entries := by
  apply ext (sorted_insert (sorted_erase hs)) hs
  intro other
  rw [find?_insert]
  by_cases heq : key = other
  · rw [if_pos heq, ← heq, h]
  · rw [if_neg heq, find?_erase_of_ne heq]

/-- Storing what is stored already leaves the list as it was. -/
theorem insert_eq_self (hs : Sorted entries) (h : find? key entries = some value) :
    insert key value entries = entries := by
  apply ext (sorted_insert hs) hs
  intro other
  rw [find?_insert]
  split
  · next heq => rw [← heq, h]
  · rfl

/-- Up to the order of the entries, a write puts an entry in the place of the one under its key. -/
theorem perm_insert (hs : Sorted entries) (key : String) (value : α) :
    (insert key value entries).Perm ((key, value) :: erase key entries) := by
  induction entries with
  | nil => exact List.Perm.refl _
  | cons e rest ih =>
      obtain ⟨k, a⟩ := e
      obtain ⟨hlt, hrest⟩ := sorted_cons.mp hs
      simp only [insert, erase]
      split
      · next hkey =>
          have habsent : find? key rest = none :=
            find?_eq_none_iff.mpr fun e he => (hkey.trans (hlt e he)).ne'
          rw [if_neg hkey.ne', erase_eq_self habsent]
      · split
        · next heq => rw [if_pos heq.symm]
        · next hne =>
            rw [if_neg (Ne.symm hne)]
            exact ((ih hrest).cons _).trans (List.Perm.swap _ _ _)

/-- Up to the order of the entries, the one under a key stands in front. -/
theorem perm_cons_erase (h : find? key entries = some value) :
    entries.Perm ((key, value) :: erase key entries) := by
  induction entries with
  | nil => cases h
  | cons e rest ih =>
      obtain ⟨k, a⟩ := e
      simp only [find?] at h
      simp only [erase]
      split at h
      · next heq =>
          cases h
          rw [if_pos heq, heq]
      · next hne =>
          rw [if_neg hne]
          exact ((ih h).cons _).trans (List.Perm.swap _ _ _)

/-- Up to the order of the entries, a key is exchanged for one that is free. -/
theorem perm_exchange (hs : Sorted entries) (hfree : other = key ∨ find? other entries = none)
    (value : α) :
    (insert other value (erase key entries)).Perm ((other, value) :: erase key entries) := by
  have habsent : find? other (erase key entries) = none := by
    by_cases heq : other = key
    · rw [heq, find?_erase_self hs]
    · rw [find?_erase_of_ne (Ne.symm heq)]
      exact hfree.resolve_left heq
  have herased : Sorted (erase key entries) := sorted_erase hs
  have hperm := perm_insert herased other value
  rwa [erase_eq_self habsent] at hperm

theorem hasKey_iff : hasKey key entries = true ↔ ∃ e ∈ entries, e.1 = key := by
  rw [hasKey, Option.isSome_iff_ne_none, ne_eq, find?_eq_none_iff]
  push Not
  rfl

theorem isSome_find?_iff : (find? key entries).isSome ↔ key ∈ keys entries := by
  rw [keys, List.mem_map, ← hasKey, hasKey_iff]

theorem find?_append (key : String) (left right : List (String × α)) :
    find? key (left ++ right) = (find? key left).or (find? key right) := by
  induction left with
  | nil => rfl
  | cons e rest ih =>
      obtain ⟨k, a⟩ := e
      rw [List.cons_append, find?, find?, ih]
      split <;> rfl

theorem find?_filter (keep : String → Bool) (key : String) (entries : List (String × α)) :
    find? key (entries.filter fun e => keep e.1) =
      if keep key then find? key entries else none := by
  induction entries with
  | nil => simp
  | cons e rest ih =>
      obtain ⟨k, a⟩ := e
      rw [List.filter_cons, find?]
      by_cases hk : k = key
      · subst hk
        by_cases hkeep : keep k <;> simp [hkeep, find?, ih]
      · by_cases hkeep : keep k <;> simp [hkeep, hk, find?, ih]

theorem keys_filter (keep : String → Bool) (entries : List (String × α)) :
    keys (entries.filter fun e => keep e.1) = (keys entries).filter keep :=
  List.filter_map.symm

theorem keys_mapValues (f : α → β) (entries : List (String × α)) :
    keys (mapValues f entries) = keys entries := by
  simp [keys, mapValues]

theorem sorted_mapValues {f : α → β} (hs : Sorted entries) : Sorted (mapValues f entries) := by
  rw [sorted_iff_keys, keys_mapValues]
  exact sorted_iff_keys.mp hs

theorem find?_mapValues (f : α → β) (key : String) (entries : List (String × α)) :
    find? key (mapValues f entries) = (find? key entries).map f := by
  induction entries with
  | nil => rfl
  | cons e rest ih =>
      obtain ⟨k, a⟩ := e
      rw [mapValues, List.map_cons, find?, find?]
      split
      · rfl
      · exact ih

theorem mapValues_insert (f : α → β) (key : String) (value : α) (entries : List (String × α)) :
    mapValues f (insert key value entries) = insert key (f value) (mapValues f entries) := by
  induction entries with
  | nil => rfl
  | cons e rest ih =>
      obtain ⟨k, a⟩ := e
      rw [insert, mapValues, mapValues, List.map_cons, insert]
      split
      · rfl
      · split
        · rfl
        · rw [List.map_cons]
          exact congrArg _ ih

/-- Of entries under different keys, in any order, a keyed list finds each one. -/
theorem find?_ofList (h : (keys entries).Nodup) (key : String) :
    find? key (ofList entries) = find? key entries := by
  have hfold : ∀ (entries acc : List (String × α)), (keys entries).Nodup →
      find? key (entries.foldl (fun acc e => insert e.1 e.2 acc) acc) =
        (find? key entries).or (find? key acc) := by
    intro entries
    induction entries with
    | nil =>
        intro acc _
        rfl
    | cons e rest ih =>
        intro acc hnodup
        obtain ⟨hnot, hrest⟩ := List.nodup_cons.mp hnodup
        rw [List.foldl_cons, ih _ hrest, find?_insert, find?]
        by_cases hkey : e.1 = key
        · have hnone : find? key rest = none := find?_eq_none_of_not_mem (hkey ▸ hnot)
          rw [if_pos hkey, if_pos hkey, hnone]
          rfl
        · rw [if_neg hkey, if_neg hkey]
  simpa [ofList] using hfold entries [] h

theorem sorted_ofList (entries : List (String × α)) : Sorted (ofList entries) := by
  have hfold : ∀ (entries acc : List (String × α)), Sorted acc →
      Sorted (entries.foldl (fun acc e => insert e.1 e.2 acc) acc) := by
    intro entries
    induction entries with
    | nil => exact fun _ hacc => hacc
    | cons e rest ih => exact fun acc hacc => ih _ (sorted_insert hacc)
  exact hfold entries [] List.Pairwise.nil

theorem mem_of_mem_ofList {e : String × α} (h : e ∈ ofList entries) : e ∈ entries := by
  have hfold : ∀ (entries acc : List (String × α)),
      e ∈ entries.foldl (fun acc e => insert e.1 e.2 acc) acc → e ∈ acc ∨ e ∈ entries := by
    intro entries
    induction entries with
    | nil => exact fun _ hacc => .inl hacc
    | cons e' rest ih =>
        intro acc hmem
        rcases ih _ hmem with hacc | hrest
        · rcases mem_insert hacc with heq | hacc
          · exact .inr (by simp [heq])
          · exact .inl hacc
        · exact .inr (List.mem_cons_of_mem _ hrest)
  exact (hfold entries [] h).resolve_left List.not_mem_nil

theorem ofList_eq_self (hs : Sorted entries) : ofList entries = entries :=
  ext (sorted_ofList entries) hs (find?_ofList hs.nodup_keys)

/-- Of entries under different keys a keyed list keeps every one. -/
theorem perm_ofList (h : (keys entries).Nodup) : (ofList entries).Perm entries := by
  have hsorted := (sorted_ofList entries).nodup_keys
  refine (List.perm_ext_iff_of_nodup hsorted.of_map h.of_map).mpr fun e =>
    ⟨mem_of_mem_ofList, fun he => mem_of_find? ?_⟩
  rw [find?_ofList h, find?_of_mem_of_nodup h he]

/-- A keyed list has as many entries as it was made from exactly if their keys are different. -/
theorem length_ofList_eq_iff :
    (ofList entries).length = entries.length ↔ (keys entries).Nodup := by
  constructor
  · intro hlength
    have hsubset : keys (ofList entries) ⊆ keys entries :=
      List.map_subset _ fun _ he => mem_of_mem_ofList he
    have hsorted := (sorted_ofList entries).nodup_keys
    have hperm := (List.subperm_of_subset hsorted hsubset).perm_of_length_le
      (by simp [keys, hlength])
    exact hperm.nodup_iff.mp hsorted
  · exact fun h => (perm_ofList h).length_eq

/-- Two keyed lists have the same keys, and the values under each of them are related. -/
def Aligned (related : String → α → β → Prop) (left : List (String × α))
    (right : List (String × β)) : Prop :=
  List.Forall₂ (fun a b => a.1 = b.1 ∧ related a.1 a.2 b.2) left right

section Aligned

variable {related : String → α → β → Prop} {sources : List (String × α)}
  {targets : List (String × β)}

theorem Aligned.keys_eq (h : Aligned related sources targets) : keys sources = keys targets := by
  induction h with
  | nil => rfl
  | cons hhead _ ih => exact congrArg₂ List.cons hhead.1 ih

theorem Aligned.sorted (h : Aligned related sources targets) (hs : Sorted sources) :
    Sorted targets :=
  sorted_iff_keys.mpr (h.keys_eq ▸ sorted_iff_keys.mp hs)

theorem Aligned.exists_source {b : β} (h : Aligned related sources targets)
    (hb : (key, b) ∈ targets) : ∃ a, (key, a) ∈ sources ∧ related key a b := by
  induction h with
  | nil => cases hb
  | @cons a' b' _ _ hhead _ ih =>
      rcases List.mem_cons.mp hb with rfl | hb
      · obtain ⟨hkey, hrelated⟩ := hhead
        dsimp only at hkey hrelated
        subst hkey
        exact ⟨a'.2, List.mem_cons_self, hrelated⟩
      · obtain ⟨a, ha, hrelated⟩ := ih hb
        exact ⟨a, List.mem_cons_of_mem _ ha, hrelated⟩

theorem Aligned.exists_target {a : α} (h : Aligned related sources targets)
    (ha : (key, a) ∈ sources) : ∃ b, (key, b) ∈ targets ∧ related key a b := by
  induction h with
  | nil => cases ha
  | @cons a' b' _ _ hhead _ ih =>
      obtain ⟨hkey, hrelated⟩ := hhead
      rcases List.mem_cons.mp ha with rfl | ha
      · exact ⟨b'.2, List.mem_cons.mpr (.inl (Prod.ext hkey rfl)), hrelated⟩
      · obtain ⟨b, hb, hb'⟩ := ih ha
        exact ⟨b, List.mem_cons_of_mem _ hb, hb'⟩

/-- Aligned lists stay aligned when the same keys are kept of both. -/
theorem Aligned.filter (h : Aligned related sources targets) (keep : String → Bool) :
    Aligned related (sources.filter fun e => keep e.1) (targets.filter fun e => keep e.1) := by
  induction h with
  | nil => exact .nil
  | @cons a b _ _ hhead _ ih =>
      rw [List.filter_cons, List.filter_cons, ← hhead.1]
      split
      · exact .cons hhead ih
      · exact ih

theorem Aligned.ne_nil (h : Aligned related sources targets) (hne : sources ≠ []) :
    targets ≠ [] := by
  rintro rfl
  cases h
  exact hne rfl

/-- A keyed list is aligned with what a function makes of its values. -/
theorem aligned_mapValues {f : β → α} (h : ∀ e ∈ targets, related e.1 (f e.2) e.2) :
    Aligned related (mapValues f targets) targets := by
  rw [Aligned, mapValues, List.forall₂_map_left_iff]
  exact List.forall₂_same.mpr fun e he => ⟨rfl, h e he⟩

theorem Aligned.flatMap_eq {γ : Type} {f : String × α → List γ} {g : String × β → List γ}
    (h : Aligned related sources targets)
    (hvalues : ∀ key a b, related key a b → f (key, a) = g (key, b)) :
    sources.flatMap f = targets.flatMap g := by
  induction h with
  | nil => rfl
  | @cons a b _ _ hhead _ ih =>
      obtain ⟨hkey, hrelated⟩ := hhead
      have hfirst : f a = g b := (hvalues a.1 a.2 b.2 hrelated).trans (by rw [hkey])
      rw [List.flatMap_cons, List.flatMap_cons, hfirst, ih]

/-- A traversal of a keyed list succeeds exactly if it does so on every value. -/
theorem traverse_eq_ok {ε : Type} {f : String → α → Except ε β} :
    (sources.mapM fun e => do return (e.1, ← f e.1 e.2)) = .ok targets ↔
      Aligned (fun key a b => f key a = .ok b) sources targets := by
  rw [Outcome.mapM_eq_ok_iff, Aligned]
  have hstep : ∀ (a : String × α) (b : String × β),
      (do return (a.1, ← f a.1 a.2) : Except ε (String × β)) = .ok b ↔
        a.1 = b.1 ∧ f a.1 a.2 = .ok b.2 := by
    intro a b
    rw [Outcome.bind_eq_ok]
    constructor
    · rintro ⟨value, hvalue, h⟩
      cases h
      exact ⟨rfl, hvalue⟩
    · rintro ⟨hkey, hvalue⟩
      exact ⟨b.2, hvalue, by rw [hkey]; rfl⟩
  simp only [hstep]

end Aligned

/-- The least key stands in front. -/
theorem exists_cons_of_find? (hs : Sorted entries) (hleast : ∀ e ∈ entries, key ≤ e.1)
    (h : find? key entries = some value) : ∃ rest, entries = (key, value) :: rest := by
  cases entries with
  | nil => cases h
  | cons e rest =>
      rcases List.mem_cons.mp (mem_of_find? h) with rfl | hmem
      · exact ⟨rest, rfl⟩
      · have hlt : e.1 < key := (sorted_cons.mp hs).1 _ hmem
        exact absurd hlt (not_lt.mpr (hleast e List.mem_cons_self))

/-- A wider keyed list is traversed like a keyed list if it says the same under the keys of that and
nothing under the other ones. -/
theorem flatMap_eq_of_wider {γ : Type} {wide : List (String × β)} {f : String × α → List γ}
    {g : String × β → List γ} (hs : Sorted entries) (hw : Sorted wide)
    (hkeys : ∀ e ∈ entries, e.1 ∈ keys wide)
    (hsame : ∀ e ∈ wide, ∀ a, find? e.1 entries = some a → g e = f (e.1, a))
    (hnew : ∀ e ∈ wide, find? e.1 entries = none → g e = []) :
    wide.flatMap g = entries.flatMap f := by
  induction wide generalizing entries with
  | nil =>
      cases entries with
      | nil => rfl
      | cons e _ => cases hkeys e List.mem_cons_self
  | cons w wide ih =>
      obtain ⟨hlt, hw⟩ := sorted_cons.mp hw
      have hlater : ∀ key ∈ keys wide, w.1 < key := List.forall_mem_map.mpr hlt
      obtain ⟨hsameHead, hsame⟩ := List.forall_mem_cons.mp hsame
      obtain ⟨hnewHead, hnew⟩ := List.forall_mem_cons.mp hnew
      rw [List.flatMap_cons]
      cases hfound : find? w.1 entries with
      | none =>
          rw [hnewHead hfound, List.nil_append]
          refine ih hs hw (fun e he => ?_) hsame hnew
          exact (List.mem_cons.mp (hkeys e he)).resolve_left (find?_eq_none_iff.mp hfound e he)
      | some a =>
          have hleast : ∀ e ∈ entries, w.1 ≤ e.1 := fun e he =>
            (List.mem_cons.mp (hkeys e he)).elim ge_of_eq fun hmem => (hlater _ hmem).le
          obtain ⟨rest, rfl⟩ := exists_cons_of_find? hs hleast hfound
          obtain ⟨hltRest, hrest⟩ := sorted_cons.mp hs
          have hskip : ∀ e ∈ wide, find? e.1 ((w.1, a) :: rest) = find? e.1 rest :=
            fun e he => if_neg (hlt e he).ne
          rw [List.flatMap_cons, hsameHead a hfound]
          refine congrArg _ (ih hrest hw (fun e he => ?_)
            (fun e he b hb => hsame e he b ((hskip e he).trans hb))
            fun e he hnone => hnew e he ((hskip e he).trans hnone))
          exact (List.mem_cons.mp (hkeys e (List.mem_cons_of_mem _ he))).resolve_left
            (hltRest e he).ne'

end Keyed

namespace Ascending

variable {α : Type} [LT α] [DecidableEq α] [DecidableLT α]

theorem mem_insert {a b : α} {items : List α} : b ∈ insert a items ↔ b = a ∨ b ∈ items := by
  induction items with
  | nil => simp [insert]
  | cons c rest ih =>
      simp only [insert]
      split
      · simp
      · split
        · next heq => simp [heq]
        · simp only [List.mem_cons, ih]
          tauto

theorem mem_ofList {b : α} {items : List α} : b ∈ ofList items ↔ b ∈ items := by
  have h : ∀ (rest acc : List α),
      b ∈ rest.foldl (fun acc a => insert a acc) acc ↔ b ∈ acc ∨ b ∈ rest := by
    intro rest
    induction rest with
    | nil => simp
    | cons a rest ih =>
        intro acc
        rw [List.foldl_cons, ih, mem_insert, List.mem_cons]
        tauto
  simpa [ofList] using h items []

omit [LT α] [DecidableLT α] in
theorem mem_difference {a : α} {items others : List α} :
    a ∈ difference items others ↔ a ∈ items ∧ a ∉ others := by
  simp [difference]

omit [DecidableLT α] in
theorem pairwise_difference {items others : List α} (h : items.Pairwise (· < ·)) :
    (difference items others).Pairwise (· < ·) :=
  h.filter _

omit [LT α] [DecidableLT α] in
theorem difference_eq_nil_iff {items others : List α} :
    difference items others = [] ↔ ∀ a ∈ items, a ∈ others := by
  simp [difference, List.filter_eq_nil_iff]

theorem ofList_eq_nil_iff {items : List α} : ofList items = [] ↔ items = [] := by
  simp only [List.eq_nil_iff_forall_not_mem, mem_ofList]

section Order

variable [IsStrictTotalOrder α (· < ·)] {items others : List α}

theorem pairwise_insert {a : α} (h : items.Pairwise (· < ·)) :
    (insert a items).Pairwise (· < ·) := by
  induction items with
  | nil => exact List.pairwise_singleton ..
  | cons b rest ih =>
      obtain ⟨hb, hrest⟩ := List.pairwise_cons.mp h
      rw [insert]
      split
      · next hlt =>
          have hall : ∀ c ∈ b :: rest, a < c :=
            List.forall_mem_cons.mpr ⟨hlt, fun c hc => trans_of (· < ·) hlt (hb c hc)⟩
          exact List.pairwise_cons.mpr ⟨hall, h⟩
      · next hlt =>
          split
          · exact h
          · next hne =>
              refine List.pairwise_cons.mpr ⟨fun c hc => ?_, ih hrest⟩
              rcases mem_insert.mp hc with rfl | hc
              · by_contra hge
                exact hne (Std.Trichotomous.trichotomous (r := (· < ·)) c b hlt hge)
              · exact hb c hc

theorem pairwise_ofList (items : List α) : (ofList items).Pairwise (· < ·) := by
  have h : ∀ (rest acc : List α), acc.Pairwise (· < ·) →
      (rest.foldl (fun acc a => insert a acc) acc).Pairwise (· < ·) := by
    intro rest
    induction rest with
    | nil => exact fun acc hacc => hacc
    | cons a rest ih => exact fun acc hacc => ih _ (pairwise_insert hacc)
  exact h items [] .nil

/-- The distinct elements of a list are the only increasing list of them. -/
theorem ofList_eq_of_pairwise (h : items.Pairwise (· < ·)) (hmem : ∀ a, a ∈ items ↔ a ∈ others) :
    ofList others = items :=
  (pairwise_ofList others).eq_of_mem_iff h fun a => mem_ofList.trans (hmem a).symm

end Order

end Ascending

end ExperimentSuite
