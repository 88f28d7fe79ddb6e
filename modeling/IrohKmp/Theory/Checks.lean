/-
# Theory.Checks — which of many checks is the one that fails

A fallible function reads its arguments in some order and stops at the first it cannot read. What
it makes of them aside, it is a list of checks, and it fails as the first of them does.

* `outcome` — a computation without its result;
* `allOf`, `allOf_eq_error_iff` — checks one after another;
* `outcome_bind`, `outcome_mapM`, `outcome_foldlM` — which checks a step, or a loop, makes.
-/
import IrohKmp.Theory.Collect

namespace IrohKmp.Theory.Checks

set_option autoImplicit false

variable {ε α β β' : Type}

/-- Whether it succeeded, and how it failed. -/
def outcome (x : Except ε α) : Except ε Unit := x.map fun _ => ()

/-- The first failure of the list, if there is one. -/
def allOf : List (Except ε Unit) → Except ε Unit
  | [] => .ok ()
  | .error e :: _ => .error e
  | .ok () :: rest => allOf rest

variable {x : Except ε α} {f : α → Except ε β} {xs ys : List (Except ε Unit)} {e : ε}

@[simp] theorem outcome_ok (a : α) : outcome (.ok a : Except ε α) = .ok () := rfl

@[simp] theorem outcome_error (e : ε) : outcome (.error e : Except ε α) = .error e := rfl

@[simp] theorem outcome_map (g : α → β) : outcome (x.map g) = outcome x := by
  cases x <;> rfl

@[simp] theorem allOf_nil : allOf ([] : List (Except ε Unit)) = .ok () := rfl

@[simp] theorem allOf_ok : allOf (.ok () :: xs) = allOf xs := rfl

@[simp] theorem allOf_error : allOf (.error e :: xs) = .error e := rfl

theorem allOf_append : allOf (xs ++ ys) = match allOf xs with
    | .ok () => allOf ys
    | .error e => .error e := by
  induction xs with
  | nil => rfl
  | cons x xs ih =>
      cases x with
      | error e => rfl
      | ok _ => exact ih

/-- The failing check, and none before it. -/
theorem allOf_eq_error_iff : allOf xs = .error e ↔
    ∃ before after, xs = before ++ .error e :: after ∧ ∀ x ∈ before, x = .ok () := by
  induction xs with
  | nil => simp
  | cons x xs ih =>
      obtain e' | ⟨⟩ := x
      · rw [allOf_error]
        constructor
        · intro same
          cases same
          exact ⟨[], xs, rfl, nofun⟩
        · rintro ⟨_ | ⟨y, before⟩, after, split, passed⟩
          · cases split
            rfl
          · cases split
            cases passed _ List.mem_cons_self
      · rw [allOf_ok, ih]
        constructor
        · rintro ⟨before, after, rfl, passed⟩
          exact ⟨.ok () :: before, after, rfl, List.forall_mem_cons.mpr ⟨rfl, passed⟩⟩
        · rintro ⟨_ | ⟨y, before⟩, after, split, passed⟩
          · cases split
          · cases split
            exact ⟨before, after, rfl, (List.forall_mem_cons.mp passed).2⟩

/-! ## Which checks a computation makes -/

/-- What follows a check is checked after it, whatever the check has read. -/
theorem outcome_bind (first : outcome x = allOf xs)
    (rest : ∀ a, x = .ok a → outcome (f a) = allOf ys) :
    outcome (x >>= f) = allOf (xs ++ ys) := by
  rw [allOf_append, ← first]
  cases x with
  | error e => rfl
  | ok a => exact rest a rfl

/-- What is done with a value once it is there is checked last. -/
theorem outcome_then {g : α → Except ε β'} (first : outcome x = allOf xs)
    (same : ∀ a, outcome (f a) = outcome (g a)) :
    outcome (x >>= f) = allOf (xs ++ x.toOption.toList.map fun a => outcome (g a)) := by
  refine outcome_bind first fun a read => ?_
  rw [same, read]
  show outcome (g a) = allOf [outcome (g a)]
  cases g a <;> rfl

/-- A loop makes the check of each element in turn. -/
theorem outcome_mapM (l : List α) : outcome (l.mapM f) = allOf (l.map fun a => outcome (f a)) := by
  induction l with
  | nil => rfl
  | cons a l ih =>
      rw [List.mapM_cons, List.map_cons, ← List.singleton_append]
      refine outcome_bind ?_ fun b _ => ?_
      · cases f a <;> rfl
      · rw [← ih]
        exact outcome_map _

/-- A loop that carries a value along, too, if its checks do not depend on it. -/
theorem outcome_foldlM {step : β → α → Except ε β} {check : α → Except ε Unit} (l : List α)
    (each : ∀ b a, outcome (step b a) = check a) (b : β) :
    outcome (l.foldlM step b) = allOf (l.map check) := by
  induction l generalizing b with
  | nil => rfl
  | cons a l ih =>
      rw [List.foldlM_cons, List.map_cons, ← List.singleton_append]
      refine outcome_bind ?_ fun b' _ => ih b'
      rw [each]
      cases check a <;> rfl

end IrohKmp.Theory.Checks
