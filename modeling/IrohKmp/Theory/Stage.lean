/-
# Theory.Stage — fallible steps that build a value, seen through a view

A builder is taken through one fallible step after another. What a step does to it is told on a
view of the builder: when the step accepts, and what it then makes of the view. Stages compose,
so a whole pipeline is told on the view without a look at the builder.

* `Stage` — one step, its acceptance and its effect;
* `total`, `optional`, `andThen`, `each` — steps that cannot fail, are left out, follow one
  another, and loops.
-/
import IrohKmp.Theory.Collect

namespace IrohKmp.Theory

open IrohKmp.Theory.Collect

set_option autoImplicit false

variable {B C ε α β : Type}

/-- The step succeeds exactly on the views it accepts, and then sets the view. -/
structure Stage (view : B → C) (run : B → Except ε B) (accepts : C → Prop) (sets : C → C) :
    Prop where
  succeeds : ∀ b, (∃ b', run b = .ok b') ↔ accepts (view b)
  result : ∀ b b', run b = .ok b' → view b' = sets (view b)

namespace Stage

variable {view : B → C} {run run' : B → Except ε B} {accepts accepts' : C → Prop}
  {sets sets' : C → C}

/-- The effect need only be told where the step accepts. -/
theorem congr (stage : Stage view run accepts sets) (same : ∀ c, accepts c ↔ accepts' c)
    (effect : ∀ c, accepts' c → sets c = sets' c) : Stage view run accepts' sets' := by
  constructor
  · intro b
    exact (stage.succeeds b).trans (same _)
  · intro b b' ran
    rw [stage.result b b' ran]
    apply effect
    rw [← same]
    exact (stage.succeeds b).mp ⟨b', ran⟩

/-- A step that cannot fail. -/
theorem total {f : B → B} (effect : ∀ b, view (f b) = sets (view b)) :
    Stage (ε := ε) view (fun b => .ok (f b)) (fun _ => True) sets := by
  constructor
  · intro b
    exact iff_of_true ⟨f b, rfl⟩ trivial
  · rintro b _ ⟨⟩
    exact effect b

theorem skip : Stage (ε := ε) view .ok (fun _ => True) id := total fun _ => rfl

theorem andThen (first : Stage view run accepts sets) (second : Stage view run' accepts' sets') :
    Stage view (fun b => run b >>= run') (fun c => accepts c ∧ accepts' (sets c))
      (fun c => sets' (sets c)) := by
  constructor
  · intro b
    simp only [bind_eq_ok]
    constructor
    · rintro ⟨b'', b', ran, ran'⟩
      refine ⟨(first.succeeds b).mp ⟨b', ran⟩, ?_⟩
      rw [← first.result b b' ran]
      exact (second.succeeds b').mp ⟨b'', ran'⟩
    · rintro ⟨accepted, accepted'⟩
      obtain ⟨b', ran⟩ := (first.succeeds b).mpr accepted
      rw [← first.result b b' ran] at accepted'
      obtain ⟨b'', ran'⟩ := (second.succeeds b').mpr accepted'
      exact ⟨b'', b', ran, ran'⟩
  · intro b b'' both
    obtain ⟨b', ran, ran'⟩ := bind_eq_ok.mp both
    rw [second.result b' b'' ran', first.result b b' ran]

/-- A value is read and then put in. -/
theorem reading {x : Except ε α} {put : B → α → B} (set : C → α → C)
    (effect : ∀ b a, view (put b a) = set (view b) a) :
    Stage view (fun b => x.map (put b)) (fun _ => ∃ a, x = .ok a)
      (fun c => x.toOption.elim c (set c)) := by
  constructor
  · intro b
    simp only [map_eq_ok]
    constructor
    · rintro ⟨_, a, read, -⟩
      exact ⟨a, read⟩
    · rintro ⟨a, read⟩
      exact ⟨_, a, read, rfl⟩
  · intro b b' ran
    obtain ⟨a, rfl, rfl⟩ := map_eq_ok.mp ran
    exact effect b a

/-- A step made only of what an option holds. -/
theorem optional {step : α → B → Except ε B} {takes : α → C → Prop} {set : α → C → C}
    (each : ∀ a, Stage view (step a) (takes a) (set a)) (o : Option α) :
    Stage view (fun b => o.elim (.ok b) fun a => step a b) (fun c => ∀ a ∈ o, takes a c)
      (fun c => o.elim c fun a => set a c) := by
  cases o with
  | none => exact ⟨fun b => by simp, fun b b' ran => by cases ran; rfl⟩
  | some a => exact ⟨fun b => by simpa using (each a).succeeds b, (each a).result⟩

/-- A loop that reads each element of a list and puts it in: it accepts what it can read, and
puts all of it in. -/
theorem each {f : α → Except ε β} {put : B → β → B} (set : C → β → C)
    (effect : ∀ b x, view (put b x) = set (view b) x) (l : List α) :
    Stage view (fun b => l.foldlM (fun b a => (f a).map (put b)) b)
      (fun _ => ∀ a ∈ l, ∃ x, f a = .ok x)
      (fun c => (l.filterMap fun a => (f a).toOption).foldl set c) := by
  induction l with
  | nil => exact ⟨fun b => by simp [pure, Except.pure], fun b b' ran => by cases ran; rfl⟩
  | cons a l ih =>
      have both := (reading (x := f a) set effect).andThen ih
      constructor
      · intro b
        simpa using both.succeeds b
      · intro b b' ran
        rw [both.result b b' ran]
        cases read : f a with
        | ok x => simp [read, Except.toOption]
        | error e => simp [read, Except.toOption]

end Stage

end IrohKmp.Theory
