/-
# Theory.GuardedCalls — what can be told of each call, and calls that might as well not be

Two things that hold of single calls whatever the others do, after one about no call at all.

* `res_via` — what every change of the resource keeps, every run keeps;
* `Account` — a fact about every call, its phase and the resource, that the call's own steps
  establish and the other changes of the resource leave; `Account.told_reachable` concludes for
  every reachable state;
* `step_recorded`, `step_over` — a call that is over takes no step, and its entry commutes with
  the steps of the others.
-/
import IrohKmp.Theory.GuardedOrder

namespace IrohKmp.Theory.Guarded

open IrohKmp.Theory.Run
open State

set_option autoImplicit false
set_option linter.unusedSectionVars false

variable {ι R M P A X E : Type} [DecidableEq ι]
variable {D : Discipline ι R M P A X} {env : R → E → Option R} {s t : State ι R M P A}

/-! ## The resource alone -/

/-- A step changes the resource as a turn or the environment does, or leaves it. -/
theorem change_of_step {e : Event M X E} (stepped : step D env s e = some t) :
    t.res = s.res ∨ Change D env (fun _ => True) (fun f => e = .env f) s.res t.res := by
  cases e with
  | call c m =>
      obtain ⟨-, ⟨a, -, rfl⟩ | ⟨i, -, rfl⟩⟩ := step_call_iff.mp stepped
      · exact .inl rfl
      · exact .inl rfl
  | acquire c =>
      obtain ⟨m, i, -, -, -, rfl⟩ := step_acquire_iff.mp stepped
      exact .inl rfl
  | work c x =>
      obtain ⟨m, p, r, turn, -, worked, rfl⟩ := step_work_iff.mp stepped
      rw [turned_res]
      exact .inr (.work trivial worked)
  | resolve c =>
      obtain ⟨m, a, -, -, rfl⟩ := step_resolve_iff.mp stepped
      exact .inl rfl
  | cancel c =>
      obtain ⟨m, ph, -, -, -, rfl⟩ := step_cancel_iff.mp stepped
      exact .inl (by simp)
  | env e =>
      obtain ⟨r, moved, rfl⟩ := step_env_iff.mp stepped
      exact .inr (.env rfl moved)

/-- What every change of the resource keeps, a run keeps. -/
theorem res_via {ok : State ι R M P A → Event M X E → Prop} (envOk : E → Prop) {I : R → Prop}
    (admits : ∀ u f, ok u (.env f) → envOk f)
    (keeps : ∀ {r r'}, I r → Change D env (fun _ => True) envOk r r' → I r')
    (run : Via (step D env) ok s t) (holds : I s.res) : I t.res := by
  refine run.keeps (I := fun s => I s.res) holds fun s e t holds allowed stepped => ?_
  obtain same | change := change_of_step stepped
  · rw [same]
    exact holds
  · exact keeps holds (change.mono fun f same => admits s f (same ▸ allowed))

/-! ## One fact about every call -/

/-- What `tells` says of a call in some phase while the resource is as it is, with what the
calls and the environment may do (`callOk`, `envOk`) and what stays true of the resource. -/
structure Account (D : Discipline ι R M P A X) (env : R → E → Option R) where
  callOk : M → Prop
  envOk : E → Prop
  inv : R → Prop
  tells : R → M → Phase P A → Prop
  keeps : ∀ {r r'}, inv r → Change D env callOk envOk r r' → inv r'
  begins : ∀ {r m}, callOk m → tells r m .waiting
  refused : ∀ {r m a}, callOk m → D.route m = .error a → tells r m (.ended a)
  starts : ∀ {r m}, tells r m .waiting → tells r m (.holding (D.start m))
  works : ∀ {r m p x r' turn}, inv r → callOk m → D.work r m p x = some (r', turn) →
    tells r m (.holding p) → tells r' m turn.phase
  resolves : ∀ {r m a}, inv r → D.resolve r m = some a → tells r m .detached → tells r m (.ended a)
  dropped : ∀ {r m ph}, tells r m ph → tells r m .cancelled
  /-- A change by another call, or by the environment, leaves what was told. -/
  lasts : ∀ {r r' m ph}, inv r → Change D env callOk envOk r r' → tells r m ph → tells r' m ph

namespace Account

variable (T : Account D env)

/-- Only admitted calls are made, and the environment does only what is admitted. -/
def Ok : State ι R M P A → Event M X E → Prop
  | _, .call _ m => T.callOk m
  | _, .env e => T.envOk e
  | _, _ => True

theorem Ok.of_all {T : Account D env} (calls : ∀ m, T.callOk m) (moves : ∀ e, T.envOk e)
    (s : State ι R M P A) (e : Event M X E) : T.Ok s e := by
  cases e with
  | call c m => exact calls m
  | env e => exact moves e
  | acquire c | work c x | resolve c | cancel c => trivial

/-- Everything is told of every call. -/
structure Told (s : State ι R M P A) : Prop where
  inv : T.inv s.res
  calls : ∀ c m ph, s.calls c = some (m, ph) → T.callOk m ∧ T.tells s.res m ph

variable {T} {c : CallId} {m : M} {ph : Phase P A}

namespace Told

theorem fresh (fresh : s.Fresh) (inv : T.inv s.res) : T.Told s where
  inv := inv
  calls c m ph called := by
    rw [fresh.2.1] at called
    cases called

/-- Recording a call of which everything is told. -/
theorem recorded (told : T.Told s) (admitted : T.callOk m) (tells : T.tells s.res m ph) :
    T.Told (s.record c m ph) where
  inv := told.inv
  calls d n q called := by
    rcases recorded_iff.mp called with ⟨-, rfl, rfl⟩ | ⟨-, before⟩
    · exact ⟨admitted, tells⟩
    · exact told.calls d n q before

/-- The lines and the history play no part. -/
theorem congr (told : T.Told s) (res : t.res = s.res) (calls : t.calls = s.calls) : T.Told t where
  inv := by rw [res]; exact told.inv
  calls := by rw [res, calls]; exact told.calls

/-- The resource changes. -/
theorem changed (told : T.Told s) {r : R} (change : Change D env T.callOk T.envOk s.res r) :
    T.Told { s with res := r } where
  inv := T.keeps told.inv change
  calls d n q called := by
    obtain ⟨admitted, tells⟩ := told.calls d n q called
    exact ⟨admitted, T.lasts told.inv change tells⟩

end Told

theorem told_step (e : Event M X E) (ok : T.Ok s e) (told : T.Told s)
    (stepped : step D env s e = some t) : T.Told t := by
  cases e with
  | call c m =>
      obtain ⟨-, ⟨a, refused, rfl⟩ | ⟨i, -, rfl⟩⟩ := step_call_iff.mp stepped
      · exact told.recorded ok (T.refused ok refused)
      · exact (told.recorded (c := c) ok (T.begins ok)).congr rfl rfl
  | acquire c =>
      obtain ⟨m, i, called, -, -, rfl⟩ := step_acquire_iff.mp stepped
      obtain ⟨admitted, tells⟩ := told.calls c m _ called
      exact (told.recorded (c := c) admitted (T.starts tells)).congr rfl rfl
  | work c x =>
      obtain ⟨m, p, r, turn, called, worked, rfl⟩ := step_work_iff.mp stepped
      obtain ⟨admitted, tells⟩ := told.calls c m _ called
      have after := T.works told.inv admitted worked tells
      have moved := told.changed (.work admitted worked)
      exact (moved.recorded (c := c) admitted after).congr (by simp) (by simp)
  | resolve c =>
      obtain ⟨m, a, called, answer, rfl⟩ := step_resolve_iff.mp stepped
      obtain ⟨admitted, tells⟩ := told.calls c m _ called
      exact told.recorded admitted (T.resolves told.inv answer tells)
  | cancel c =>
      obtain ⟨m, ph, called, -, -, rfl⟩ := step_cancel_iff.mp stepped
      obtain ⟨admitted, tells⟩ := told.calls c m _ called
      exact (told.recorded (c := c) admitted (T.dropped tells)).congr (by simp) (by simp)
  | env e =>
      obtain ⟨r, moved, rfl⟩ := step_env_iff.mp stepped
      exact told.changed (.env ok moved)

/-- **What is told of the calls** holds in every reachable state. -/
theorem told_reachable {init : State ι R M P A → Prop} (fresh : ∀ s, init s → s.Fresh)
    (inv : ∀ s, init s → T.inv s.res) (reached : Reachable (step D env) T.Ok init s) : T.Told s :=
  reached.keeps (fun s initial => .fresh (fresh s initial) (inv s initial))
    fun _ e _ told ok stepped => told_step e ok told stepped

end Account

/-! ## A call that is over -/

/-- The call an event belongs to. -/
def Event.caller : Event M X E → Option CallId
  | .call c _ | .acquire c | .work c _ | .resolve c | .cancel c => some c
  | .env _ => none

section Over

variable {c : CallId} {m : M} {a : A}

/-- Entries of two calls are made in any order. -/
theorem record_comm {d : CallId} {n : M} {ph q : Phase P A} (differ : d ≠ c) :
    (s.record c m ph).record d n q = (s.record d n q).record c m ph := by
  simp only [State.record, Function.update_comm differ]

theorem record_unlock {d : CallId} {n : M} {ph : Phase P A} :
    (s.record c m ph).unlock D d n = (s.unlock D d n).record c m ph := by
  unfold State.unlock
  split <;> rfl

theorem record_turned {d : CallId} {n : M} {ph : Phase P A} {r : R} {turn : Turn P A}
    (differ : d ≠ c) :
    (s.record c m ph).turned D d n r turn = (s.turned D d n r turn).record c m ph := by
  have swapped : ({ s.record c m ph with res := r } : State ι R M P A).record d n turn.phase =
      (({ s with res := r } : State ι R M P A).record d n turn.phase).record c m ph :=
    record_comm (s := { s with res := r }) differ
  cases turn with
  | keep p => exact swapped
  | finish a => exact (congrArg (State.unlock D · d n) swapped).trans record_unlock
  | detach => exact (congrArg (State.unlock D · d n) swapped).trans record_unlock

/-- A step of others commutes with the entry of a call. -/
theorem step_recorded {e : Event M X E} {ph : Phase P A} (other : e.caller ≠ some c) :
    step D env (s.record c m ph) e = (step D env s e).map fun t => t.record c m ph := by
  cases e with
  | env e =>
      simp only [step, record_res, Option.map_map]
      rfl
  | call d n =>
      have differ : d ≠ c := fun same => other (by rw [← same]; rfl)
      simp only [step, record_calls, Function.update_of_ne differ]
      cases s.calls d with
      | some _ => rfl
      | none =>
          cases D.route n with
          | error a => simp only [record_comm differ, Option.map_some]
          | ok i =>
              simp only [record_comm differ, Option.map_some]
              rfl
  | acquire d =>
      have differ : d ≠ c := fun same => other (by rw [← same]; rfl)
      simp only [step, record_calls, Function.update_of_ne differ]
      split
      · split
        · rw [record_queue]
          split
          · simp only [record_comm differ, Option.map_some]
            rfl
          · rfl
        · rfl
      · rfl
  | work d x =>
      have differ : d ≠ c := fun same => other (by rw [← same]; rfl)
      simp only [step, record_calls, Function.update_of_ne differ, record_res]
      split
      · rename_i n p called
        simp only [Option.map_map]
        refine congrArg (fun f => Option.map f (D.work s.res n p x)) (funext fun rt => ?_)
        exact record_turned differ
      · rfl
  | resolve d =>
      have differ : d ≠ c := fun same => other (by rw [← same]; rfl)
      simp only [step, record_calls, Function.update_of_ne differ, record_res]
      split
      · simp only [Option.map_map, record_comm differ]
        rfl
      · rfl
  | cancel d =>
      have differ : d ≠ c := fun same => other (by rw [← same]; rfl)
      simp only [step, record_calls, Function.update_of_ne differ]
      split
      · split
        · simp only [record_comm differ, record_unlock, Option.map_some]
        · rfl
      · rfl

/-- A call that is over takes no step. -/
theorem step_over {e : Event M X E} (over' : s.calls c = some (m, .ended a))
    (own : e.caller = some c) : step D env s e = none := by
  cases e <;> cases own <;> simp [step, over', Phase.Live]

end Over

end IrohKmp.Theory.Guarded
