/-
# Theory.Collect — loops that stop at the first failure

`List.mapM` in `Except` reads every element of a list, or fails with the first that cannot be
read. The lemmas say when such a loop succeeds and with what, so that no proof steps through one.
-/
import Mathlib.Data.List.Forall2

namespace IrohKmp.Theory.Collect

set_option autoImplicit false

variable {ε ε' α β γ : Type}

/-! ## One fallible step -/

@[simp] theorem bind_eq_ok {x : Except ε α} {f : α → Except ε β} {b : β} :
    (x >>= f) = .ok b ↔ ∃ a, x = .ok a ∧ f a = .ok b := by
  cases x <;> simp [bind, Except.bind]

@[simp] theorem map_eq_ok {x : Except ε α} {f : α → β} {b : β} :
    x.map f = .ok b ↔ ∃ a, x = .ok a ∧ f a = b := by
  cases x <;> simp [Except.map]

@[simp] theorem pure_eq_ok {a b : α} : (pure a : Except ε α) = .ok b ↔ a = b := by
  simp [pure, Except.pure]

/-- `map_err` changes no success. -/
@[simp] theorem mapError_eq_ok {x : Except ε α} {f : ε → ε'} {a : α} :
    x.mapError f = .ok a ↔ x = .ok a := by
  cases x <;> simp [Except.mapError]

/-! ## Loops -/

variable {f : α → Except ε β}

theorem mapM_eq_ok_iff {l : List α} {bs : List β} :
    l.mapM f = .ok bs ↔ List.Forall₂ (fun a b => f a = .ok b) l bs := by
  induction l generalizing bs with
  | nil => simp only [List.mapM_nil, pure_eq_ok, List.forall₂_nil_left_iff, @eq_comm _ []]
  | cons a l ih =>
      simp only [List.mapM_cons, bind_eq_ok, pure_eq_ok, List.forall₂_cons_left_iff, ih]
      constructor
      · rintro ⟨b, first, rest, others, rfl⟩
        exact ⟨b, rest, first, others, rfl⟩
      · rintro ⟨b, rest, first, others, rfl⟩
        exact ⟨b, first, rest, others, rfl⟩

/-- The loop succeeds exactly when every element can be read. -/
theorem exists_mapM_eq_ok_iff {l : List α} :
    (∃ bs, l.mapM f = .ok bs) ↔ ∀ a ∈ l, ∃ b, f a = .ok b := by
  induction l with
  | nil => simp
  | cons a l ih =>
      simp only [mapM_eq_ok_iff, List.forall₂_cons_left_iff, List.forall_mem_cons] at ih ⊢
      rw [← ih]
      constructor
      · rintro ⟨_, b, rest, first, others, -⟩
        exact ⟨⟨b, first⟩, rest, others⟩
      · rintro ⟨⟨b, first⟩, rest, others⟩
        exact ⟨b :: rest, b, rest, first, others, rfl⟩

/-- Elements that are read back as `g` has them are read as a list. -/
theorem mapM_map_eq_ok {g : γ → α} {h : γ → β} {l : List γ} (reads : ∀ c ∈ l, f (g c) = .ok (h c)) :
    (l.map g).mapM f = .ok (l.map h) := by
  rw [mapM_eq_ok_iff, List.forall₂_map_left_iff, List.forall₂_map_right_iff]
  exact List.forall₂_same.mpr reads

/-- What a successful loop returns is what its elements are read as. -/
theorem mapM_eq_ok_filterMap {l : List α} {bs : List β} (read : l.mapM f = .ok bs) :
    bs = l.filterMap fun a => (f a).toOption := by
  rw [mapM_eq_ok_iff] at read
  induction read with
  | nil => rfl
  | cons first _ ih =>
      rw [List.filterMap_cons_some (by rw [first]; rfl), ← ih]

end IrohKmp.Theory.Collect
