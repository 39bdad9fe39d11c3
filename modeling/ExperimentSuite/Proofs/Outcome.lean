import Mathlib.Data.List.Basic
import Mathlib.Data.List.Forall2

/-!
# Steps that may fail

How a chain of steps that may fail succeeds: every step of it succeeded, and
what each step keeps the whole chain keeps.
-/

namespace ExperimentSuite

namespace Outcome

variable {α β σ ε ε' : Type}

theorem bind_eq_ok {x : Except ε α} {f : α → Except ε β} {b : β} :
    (x >>= f) = .ok b ↔ ∃ a, x = .ok a ∧ f a = .ok b := by
  cases x <;> simp [bind, Except.bind]

theorem bind_eq_error {x : Except ε α} {f : α → Except ε β} {e : ε} :
    (x >>= f) = .error e ↔ x = .error e ∨ ∃ a, x = .ok a ∧ f a = .error e := by
  cases x <;> simp [bind, Except.bind]

theorem mapError_eq_ok {x : Except ε α} {f : ε → ε'} {a : α} :
    x.mapError f = .ok a ↔ x = .ok a := by
  cases x <;> simp [Except.mapError]

theorem mapError_eq_error {x : Except ε α} {f : ε → ε'} {e : ε'} :
    x.mapError f = .error e ↔ ∃ e', x = .error e' ∧ f e' = e := by
  cases x <;> simp [Except.mapError]

theorem ite_eq_ok {c : Prop} [Decidable c] {a b : α} {e : ε} :
    (if c then .ok a else .error e : Except ε α) = .ok b ↔ c ∧ b = a := by
  by_cases hc : c <;> simp [hc, eq_comm]

theorem ite_error_eq_ok {c : Prop} [Decidable c] {e : ε} {x : Except ε α} {a : α} :
    (if c then .error e else x) = .ok a ↔ ¬ c ∧ x = .ok a := by
  by_cases hc : c <;> simp [hc]

/-- A traversal whose every step is known to succeed collects the results. -/
theorem mapM_eq_ok {f : α → Except ε β} {g : α → β} {items : List α}
    (h : ∀ a ∈ items, f a = .ok (g a)) : items.mapM f = .ok (items.map g) := by
  induction items with
  | nil => rfl
  | cons a rest ih =>
      obtain ⟨ha, hrest⟩ := List.forall_mem_cons.mp h
      rw [List.mapM_cons, ha, ih hrest]
      rfl

theorem mapM_cons_eq_ok {f : α → Except ε β} {a : α} {rest : List α} {bs : List β} :
    (a :: rest).mapM f = .ok bs ↔
      ∃ b, f a = .ok b ∧ ∃ others, rest.mapM f = .ok others ∧ b :: others = bs := by
  simp only [List.mapM_cons, bind_eq_ok, pure, Except.pure, Except.ok.injEq]

/-- A traversal succeeds exactly if every step does, item by item. -/
theorem mapM_eq_ok_iff {f : α → Except ε β} {items : List α} {bs : List β} :
    items.mapM f = .ok bs ↔ List.Forall₂ (fun a b => f a = .ok b) items bs := by
  induction items generalizing bs with
  | nil => simp [pure, Except.pure, List.forall₂_nil_left_iff, eq_comm]
  | cons a rest ih =>
      rw [mapM_cons_eq_ok, List.forall₂_cons_left_iff]
      constructor
      · rintro ⟨b, hb, others, hothers, rfl⟩
        exact ⟨b, others, hb, ih.mp hothers, rfl⟩
      · rintro ⟨b, others, hb, hothers, rfl⟩
        exact ⟨b, hb, others, ih.mpr hothers, rfl⟩

/-- A traversal fails at one of its items. -/
theorem exists_of_mapM_eq_error {f : α → Except ε β} {items : List α} {e : ε}
    (h : items.mapM f = .error e) : ∃ a ∈ items, f a = .error e := by
  induction items with
  | nil => cases h
  | cons a rest ih =>
      rw [List.mapM_cons, bind_eq_error] at h
      rcases h with ha | ⟨b, -, h⟩
      · exact ⟨a, List.mem_cons_self, ha⟩
      · rcases bind_eq_error.mp h with hrest | ⟨others, -, h⟩
        · obtain ⟨c, hc, hfail⟩ := ih hrest
          exact ⟨c, List.mem_cons_of_mem _ hc, hfail⟩
        · cases h

/-- Every result of a traversal is that of an item. -/
theorem exists_of_mem_of_mapM {f : α → Except ε β} {items : List α} {bs : List β}
    {b : β} (h : items.mapM f = .ok bs) (hb : b ∈ bs) : ∃ a ∈ items, f a = .ok b := by
  induction items generalizing bs with
  | nil =>
      cases h
      cases hb
  | cons a rest ih =>
      obtain ⟨first, hfirst, others, hothers, rfl⟩ := mapM_cons_eq_ok.mp h
      rcases List.mem_cons.mp hb with rfl | hb
      · exact ⟨a, List.mem_cons_self, hfirst⟩
      · obtain ⟨c, hc, hresult⟩ := ih hothers hb
        exact ⟨c, List.mem_cons_of_mem _ hc, hresult⟩

theorem forM_eq_ok {f : α → Except ε Unit} {items : List α} :
    items.forM f = .ok () ↔ ∀ a ∈ items, f a = .ok () := by
  induction items with
  | nil => simp [pure, Except.pure]
  | cons a rest ih =>
      rw [List.forM, bind_eq_ok, List.forall_mem_cons, ← ih]
      constructor
      · rintro ⟨⟨⟩, ha, hrest⟩
        exact ⟨ha, hrest⟩
      · rintro ⟨ha, hrest⟩
        exact ⟨(), ha, hrest⟩

theorem foldlM_cons_eq_ok {f : σ → α → Except ε σ} {a : α} {rest : List α} {s t : σ} :
    (a :: rest).foldlM f s = .ok t ↔ ∃ u, f s a = .ok u ∧ rest.foldlM f u = .ok t := by
  rw [List.foldlM_cons, bind_eq_ok]

theorem exists_foldlM_eq_ok {f : σ → α → Except ε σ} {items : List α}
    (h : ∀ a ∈ items, ∀ s, ∃ t, f s a = .ok t) (s : σ) : ∃ t, items.foldlM f s = .ok t := by
  induction items generalizing s with
  | nil => exact ⟨s, rfl⟩
  | cons a rest ih =>
      obtain ⟨ha, hrest⟩ := List.forall_mem_cons.mp h
      obtain ⟨u, hu⟩ := ha s
      obtain ⟨t, ht⟩ := ih hrest u
      exact ⟨t, foldlM_cons_eq_ok.mpr ⟨u, hu, ht⟩⟩

/-- In a chain that succeeds every step does. -/
theorem exists_of_foldlM_eq_ok {f : σ → α → Except ε σ} {items : List α} {a : α} {s t : σ}
    (h : items.foldlM f s = .ok t) (ha : a ∈ items) : ∃ u v, f u a = .ok v := by
  induction items generalizing s with
  | nil => cases ha
  | cons b rest ih =>
      obtain ⟨u, hu, hrest⟩ := foldlM_cons_eq_ok.mp h
      rcases List.mem_cons.mp ha with rfl | ha
      · exact ⟨s, u, hu⟩
      · exact ih hrest ha

/-- A chain fails at one of its steps. -/
theorem exists_of_foldlM_eq_error {f : σ → α → Except ε σ} {items : List α} {s : σ} {e : ε}
    (h : items.foldlM f s = .error e) : ∃ a ∈ items, ∃ u, f u a = .error e := by
  induction items generalizing s with
  | nil => cases h
  | cons a rest ih =>
      rw [List.foldlM_cons] at h
      cases ha : f s a with
      | error e' =>
          rw [ha] at h
          cases h
          exact ⟨a, List.mem_cons_self, s, ha⟩
      | ok u =>
          rw [ha] at h
          obtain ⟨b, hb, v, hv⟩ := ih h
          exact ⟨b, List.mem_cons_of_mem _ hb, v, hv⟩

/-- Whenever a step fails, its error satisfies a predicate. -/
def FailsOnly (p : ε → Prop) (x : Except ε α) : Prop :=
  ∀ e, x = .error e → p e

section FailsOnly

variable {p : ε → Prop} {x : Except ε α}

theorem failsOnly_ok (a : α) : FailsOnly p (.ok a) := by
  intro e h
  cases h

theorem failsOnly_error {e : ε} (h : p e) : FailsOnly p (.error e : Except ε α) := by
  intro e' h'
  cases h'
  exact h

theorem FailsOnly.mono {q : ε → Prop} (h : FailsOnly p x) (hpq : ∀ e, p e → q e) : FailsOnly q x :=
  fun e he => hpq e (h e he)

theorem FailsOnly.bind_of_ok {f : α → Except ε β} (hx : FailsOnly p x)
    (hf : ∀ a, x = .ok a → FailsOnly p (f a)) : FailsOnly p (x >>= f) := by
  intro e h
  rcases bind_eq_error.mp h with hfirst | ⟨a, ha, hrest⟩
  · exact hx e hfirst
  · exact hf a ha e hrest

theorem FailsOnly.bind {f : α → Except ε β} (hx : FailsOnly p x) (hf : ∀ a, FailsOnly p (f a)) :
    FailsOnly p (x >>= f) :=
  hx.bind_of_ok fun a _ => hf a

theorem failsOnly_mapError {y : Except ε' α} {f : ε' → ε} (h : ∀ e, p (f e)) :
    FailsOnly p (y.mapError f) := by
  intro e he
  obtain ⟨e', -, rfl⟩ := mapError_eq_error.mp he
  exact h e'

theorem failsOnly_foldlM {f : σ → α → Except ε σ} {items : List α} {s : σ}
    (h : ∀ a ∈ items, ∀ s, FailsOnly p (f s a)) : FailsOnly p (items.foldlM f s) := by
  intro e he
  obtain ⟨a, ha, u, hfail⟩ := exists_of_foldlM_eq_error he
  exact h a ha u e hfail

end FailsOnly

/-- Whenever one computation succeeds, so does another one, and their results are related. -/
def Follows (R : α → β → Prop) (x : Except ε α) (y : Except ε' β) : Prop :=
  ∀ a, x = .ok a → ∃ b, y = .ok b ∧ R a b

section Follows

variable {γ δ : Type} {R : α → β → Prop} {S : γ → δ → Prop} {x : Except ε α} {y : Except ε' β}

theorem follows_ok {a : α} {b : β} (h : R a b) :
    Follows R (.ok a : Except ε α) (.ok b : Except ε' β) := by
  rintro _ ⟨⟩
  exact ⟨b, rfl, h⟩

theorem follows_error (e : ε) : Follows R (.error e) y := by
  intro a h
  cases h

theorem follows_refl (x : Except ε α) : Follows Eq x x :=
  fun a h => ⟨a, h, rfl⟩

theorem follows_eq_iff {z : Except ε' α} : Follows Eq x z ↔ ∀ a, x = .ok a → z = .ok a := by
  constructor
  · intro h a ha
    obtain ⟨_, hb, rfl⟩ := h a ha
    exact hb
  · exact fun h a ha => ⟨a, h a ha, rfl⟩

theorem Follows.bind {f : α → Except ε γ} {g : β → Except ε' δ} (h : Follows R x y)
    (hfg : ∀ a b, R a b → Follows S (f a) (g b)) : Follows S (x >>= f) (y >>= g) := by
  intro c hc
  obtain ⟨a, ha, hc⟩ := bind_eq_ok.mp hc
  obtain ⟨b, hb, hR⟩ := h a ha
  obtain ⟨d, hd, hS⟩ := hfg a b hR c hc
  exact ⟨d, bind_eq_ok.mpr ⟨b, hb, hd⟩, hS⟩

theorem Follows.bind_eq {z : Except ε' α} {f : α → Except ε γ} {g : α → Except ε' δ}
    (h : Follows Eq x z) (hfg : ∀ a, Follows S (f a) (g a)) : Follows S (x >>= f) (z >>= g) :=
  h.bind fun a _ heq => heq ▸ hfg a

theorem Follows.mapError {ε₁ ε₂ : Type} {f : ε → ε₁} {g : ε' → ε₂} (h : Follows R x y) :
    Follows R (x.mapError f) (y.mapError g) := by
  intro a ha
  obtain ⟨b, hb, hR⟩ := h a (mapError_eq_ok.mp ha)
  exact ⟨b, mapError_eq_ok.mpr hb, hR⟩

/-- One chain follows another one if every step of it does. -/
theorem follows_foldlM {f : α → γ → Except ε α} {g : β → γ → Except ε' β} {items : List γ}
    {s : α} {t : β} (h : ∀ c ∈ items, ∀ s t, R s t → Follows R (f s c) (g t c)) (hst : R s t) :
    Follows R (items.foldlM f s) (items.foldlM g t) := by
  induction items generalizing s t with
  | nil => exact follows_ok hst
  | cons c rest ih =>
      obtain ⟨hc, hrest⟩ := List.forall_mem_cons.mp h
      rw [List.foldlM_cons, List.foldlM_cons]
      exact (hc s t hst).bind fun s' t' hst' => ih hrest hst'

theorem follows_mapM {f : α → Except ε β} {g : α → Except ε' β} {items : List α}
    (h : ∀ a ∈ items, Follows Eq (f a) (g a)) : Follows Eq (items.mapM f) (items.mapM g) := by
  induction items with
  | nil => exact follows_ok rfl
  | cons a rest ih =>
      obtain ⟨ha, hrest⟩ := List.forall_mem_cons.mp h
      rw [List.mapM_cons, List.mapM_cons]
      exact ha.bind_eq fun b => (ih hrest).bind_eq fun others => follows_ok rfl

theorem follows_filterM {f : α → Except ε Bool} {g : α → Except ε' Bool} {items : List α}
    (h : ∀ a ∈ items, Follows Eq (f a) (g a)) : Follows Eq (items.filterM f) (items.filterM g) := by
  have haux : ∀ kept, Follows Eq (items.filterAuxM f kept) (items.filterAuxM g kept) := by
    induction items with
    | nil => exact fun kept => follows_ok rfl
    | cons a rest ih =>
        obtain ⟨ha, hrest⟩ := List.forall_mem_cons.mp h
        exact fun kept => ha.bind_eq fun keep => ih hrest _
  exact (haux []).bind_eq fun kept => follows_ok rfl

end Follows

end Outcome

end ExperimentSuite
