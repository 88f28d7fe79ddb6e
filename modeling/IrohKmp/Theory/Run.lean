/-
# Theory.Run — runs of a partial step function

A component is a partial step function `step : σ → ε → Option σ`; `step s e = none`
says that event `e` cannot happen in state `s`. Interleavings are event lists, so a
fact about every run is a fact about every order of the parties' steps.

* `exec` carries out one event list (it computes, so concrete runs are checked by `rfl`);
* `Via step ok s t`: `t` is reached from `s` by events `ok` allows where they happen;
* `Via.keeps` / `Reachable.keeps`: what one allowed step keeps, every run keeps;
* `CanReach step ok s goal`: some allowed run from `s` meets `goal`. `CanReach.pull`
  carries a fact backwards along such a run, `CanReach.elim` refutes it by a fact that
  allowed steps keep and `goal` excludes;
* `Along` / `Stepwise`: a fact of every state, and of every step, of one given run;
  `along_iff_stepwise` trades the one for the other.
-/
import Mathlib.Logic.Relation

namespace IrohKmp.Theory.Run

set_option autoImplicit false

universe u v

variable {σ : Type u} {ε : Type v} (step : σ → ε → Option σ)

/-- The state after a list of events, if each of them can happen in turn. -/
def exec : σ → List ε → Option σ
  | s, [] => some s
  | s, e :: es => (step s e).bind fun t => exec t es

@[simp] theorem exec_nil (s : σ) : exec step s [] = some s := rfl

@[simp] theorem exec_cons (s : σ) (e : ε) (es : List ε) :
    exec step s (e :: es) = (step s e).bind fun t => exec step t es := rfl

/-- What commutes with every event of a run commutes with the run. -/
theorem exec_map {note : σ → σ} (es : List ε)
    (each : ∀ e ∈ es, ∀ s, step (note s) e = (step s e).map note) (s : σ) :
    exec step (note s) es = (exec step s es).map note := by
  induction es generalizing s with
  | nil => rfl
  | cons e es ih =>
      simp only [exec_cons, each e List.mem_cons_self]
      cases step s e with
      | none => rfl
      | some t => exact ih (fun f member => each f (List.mem_cons_of_mem e member)) t

/-- `t` is reached from `s` by events that `ok` allows in the state they happen in. -/
inductive Via (ok : σ → ε → Prop) (s : σ) : σ → Prop
  | refl : Via ok s s
  | next {t u : σ} {e : ε} (prior : Via ok s t) (allowed : ok t e)
      (stepped : step t e = some u) : Via ok s u

/-- No restriction on the events of a run. -/
def Any : σ → ε → Prop := fun _ _ => True

/-- Reached from an initial state by allowed events. -/
def Reachable (ok : σ → ε → Prop) (init : σ → Prop) (s : σ) : Prop :=
  ∃ s₀, init s₀ ∧ Via step ok s₀ s

/-- Some run of allowed events from `s` meets `goal`. -/
def CanReach (ok : σ → ε → Prop) (s : σ) (goal : σ → Prop) : Prop :=
  ∃ t, Via step ok s t ∧ goal t

variable {step}

namespace Via

variable {ok ok' : σ → ε → Prop} {s t u : σ}

theorem single {e : ε} (allowed : ok s e) (stepped : step s e = some t) : Via step ok s t :=
  .next .refl allowed stepped

theorem trans (first : Via step ok s t) (second : Via step ok t u) : Via step ok s u := by
  induction second with
  | refl => exact first
  | next _ allowed stepped ih => exact .next ih allowed stepped

theorem head {e : ε} (allowed : ok s e) (stepped : step s e = some t)
    (rest : Via step ok t u) : Via step ok s u :=
  (single allowed stepped).trans rest

theorem mono (weaker : ∀ t e, ok t e → ok' t e) (run : Via step ok s t) : Via step ok' s t := by
  induction run with
  | refl => exact .refl
  | next _ allowed stepped ih => exact .next ih (weaker _ _ allowed) stepped

/-- The run lemma: a fact every allowed step keeps holds wherever the run gets. -/
theorem keeps {I : σ → Prop} (base : I s)
    (kept : ∀ t e u, I t → ok t e → step t e = some u → I u)
    (run : Via step ok s t) : I t := by
  induction run with
  | refl => exact base
  | next _ allowed stepped ih => exact kept _ _ _ ih allowed stepped

end Via

namespace Reachable

variable {ok ok' : σ → ε → Prop} {init : σ → Prop} {s t : σ}

theorem start (initial : init s) : Reachable step ok init s := ⟨s, initial, .refl⟩

theorem next {e : ε} (reached : Reachable step ok init s) (allowed : ok s e)
    (stepped : step s e = some t) : Reachable step ok init t := by
  obtain ⟨s₀, initial, run⟩ := reached
  exact ⟨s₀, initial, run.next allowed stepped⟩

theorem via (reached : Reachable step ok init s) (run : Via step ok s t) :
    Reachable step ok init t := by
  obtain ⟨s₀, initial, before⟩ := reached
  exact ⟨s₀, initial, before.trans run⟩

theorem mono (weaker : ∀ t e, ok t e → ok' t e) (reached : Reachable step ok init s) :
    Reachable step ok' init s := by
  obtain ⟨s₀, initial, run⟩ := reached
  exact ⟨s₀, initial, run.mono weaker⟩

/-- From fewer initial states. -/
theorem of_init {init' : σ → Prop} (reached : Reachable step ok init s)
    (weaker : ∀ s, init s → init' s) : Reachable step ok init' s := by
  obtain ⟨s₀, initial, run⟩ := reached
  exact ⟨s₀, weaker s₀ initial, run⟩

/-- An inductive invariant holds in every reachable state. -/
theorem keeps {I : σ → Prop} (base : ∀ s, init s → I s)
    (kept : ∀ t e u, I t → ok t e → step t e = some u → I u)
    (reached : Reachable step ok init s) : I s := by
  obtain ⟨s₀, initial, run⟩ := reached
  exact run.keeps (base s₀ initial) kept

end Reachable

namespace CanReach

variable {ok ok' : σ → ε → Prop} {s t : σ} {goal : σ → Prop}

theorem here (met : goal s) : CanReach step ok s goal := ⟨s, .refl, met⟩

theorem after (run : Via step ok s t) (rest : CanReach step ok t goal) :
    CanReach step ok s goal := by
  obtain ⟨u, more, met⟩ := rest
  exact ⟨u, run.trans more, met⟩

/-- A fact that allowed steps keep and the goal excludes refutes reaching the goal. -/
theorem elim {I : σ → Prop} (base : I s)
    (kept : ∀ t e u, I t → ok t e → step t e = some u → I u)
    (excluded : ∀ t, I t → ¬ goal t) : ¬ CanReach step ok s goal := by
  rintro ⟨t, run, met⟩
  exact excluded t (run.keeps base kept) met

/-- Carry `G` backwards from the goal to the start, under an invariant of the run. -/
theorem pull {I G : σ → Prop} (base : I s)
    (kept : ∀ t e u, I t → ok t e → step t e = some u → I u)
    (atGoal : ∀ t, I t → goal t → G t)
    (back : ∀ t e u, I t → ok t e → step t e = some u → G u → G t)
    (can : CanReach step ok s goal) : G s := by
  obtain ⟨t, run, met⟩ := can
  have here : I t := run.keeps base kept
  have last : G t := atGoal t here met
  clear met
  induction run with
  | refl => exact last
  | next prior allowed stepped ih =>
      have before := prior.keeps base kept
      exact ih before (back _ _ _ before allowed stepped last)

end CanReach

/-! ## One given run -/

section Given

variable (step) (P : σ → Prop) (ok : σ → ε → Prop)

/-- Every state the run passes through satisfies `P`. -/
def Along : σ → List ε → Prop
  | s, [] => P s
  | s, e :: es => P s ∧ ∀ t, step s e = some t → Along t es

/-- Every step of the run satisfies `ok` in the state it is taken in. -/
def Stepwise : σ → List ε → Prop
  | _, [] => True
  | s, e :: es => ok s e ∧ ∀ t, step s e = some t → Stepwise t es

variable {step P ok}

theorem Stepwise.of_forall {es : List ε} (allowed : ∀ e ∈ es, ∀ s, ok s e) :
    ∀ s, Stepwise step ok s es := by
  induction es with
  | nil => exact fun _ => trivial
  | cons e es ih =>
      intro s
      exact ⟨allowed e (by simp) s, fun t _ => ih (fun f member => allowed f (by simp [member])) t⟩

/-- A run whose steps are all allowed leads where allowed runs lead. -/
theorem Via.of_stepwise : ∀ {es : List ε} {s t : σ}, exec step s es = some t →
    Stepwise step ok s es → Via step ok s t
  | [], _, _, done, _ => by
      cases done
      exact .refl
  | e :: es, s, t, done, steps => by
      obtain ⟨m, first, rest⟩ := Option.bind_eq_some_iff.mp done
      exact .head steps.1 first (.of_stepwise rest (steps.2 m first))

/-- A run that can be carried out leads to a reachable state. -/
theorem Reachable.of_exec {init : σ → Prop} (es : List ε) {s₀ s : σ} (initial : init s₀)
    (done : exec step s₀ es = some s) : Reachable step Any init s :=
  ⟨s₀, initial, .of_stepwise done (.of_forall (fun _ _ _ => trivial) s₀)⟩

/-- A run that ends in a state of some kind, found by carrying it out. -/
theorem Via.of_any {s : σ} {p : σ → Prop} [DecidablePred p] (es : List ε)
    (runs : (exec step s es).any (fun t => decide (p t)) = true) :
    ∃ t, Via step Any s t ∧ p t := by
  obtain ⟨t, done, found⟩ := (Option.any_eq_true _ _).mp runs
  exact ⟨t, .of_stepwise done (.of_forall (fun _ _ _ => trivial) s), of_decide_eq_true found⟩

theorem Along.head : ∀ {s : σ} {es : List ε}, Along step P s es → P s
  | _, [], here => here
  | _, _ :: _, along => along.1

/-- If, under an invariant of the allowed steps, a step out of a `P`-state leads to a `P`-state
exactly when `ok` allows it, then a run stays in `P` exactly when all its steps are allowed. -/
theorem along_iff_stepwise {I : σ → Prop}
    (kept : ∀ s e t, I s → ok s e → step s e = some t → I t)
    (exact_step : ∀ s e t, I s → P s → step s e = some t → (P t ↔ ok s e)) :
    ∀ (es : List ε) (s : σ), I s → P s → (exec step s es).isSome →
      (Along step P s es ↔ Stepwise step ok s es)
  | [], _, _, here, _ => by simp only [Along, Stepwise, here]
  | e :: es, s, inv, here, runs => by
      obtain ⟨u, done⟩ := Option.isSome_iff_exists.mp runs
      obtain ⟨t, first, rest⟩ := Option.bind_eq_some_iff.mp done
      have same := exact_step s e t inv here first
      have later : P t → (Along step P t es ↔ Stepwise step ok t es) := fun there =>
        along_iff_stepwise kept exact_step es t (kept s e t inv (same.mp there) first) there
          (Option.isSome_iff_exists.mpr ⟨u, rest⟩)
      simp only [Along, Stepwise, first, Option.some.injEq, forall_eq', here, true_and]
      constructor
      · intro along
        exact ⟨same.mp along.head, (later along.head).mp along⟩
      · rintro ⟨allowed, steps⟩
        exact (later (same.mpr allowed)).mpr steps

end Given

end IrohKmp.Theory.Run
