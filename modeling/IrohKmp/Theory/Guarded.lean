/-
# Theory.Guarded — concurrent calls on a resource behind fair locks

Any number of calls share one resource. A call asks for one lock, works under its guard
in as many turns as it takes, and drops the guard; some calls are answered before they
ask (`route` says so), and some go on waiting after the guard is gone (`detach`).

A fair lock is its line of calls: the head of `queue i` owns lock `i`, the others wait in
the order they asked. Dropping the guard, and cancelling a call that owns or waits, is
leaving the line, so a released lock passes to the next call at once.

* `Discipline` — what the calls of a component do; `step` — one atomic step of one call,
  of a new call, or of the environment;
* `step_call_iff` … `step_env_iff` — everything a step can do, once;
* `WellFormed` — lines and phases agree; kept by every step (`wellFormed_step`);
* `holder_unique`, `WellFormed.not_waits_of_holds`, `WellFormed.not_mem_queue` — what it
  says about who holds and who waits.
-/
import IrohKmp.Theory.Run
import Mathlib.Data.List.Nodup
import Mathlib.Logic.Function.Basic

namespace IrohKmp.Theory.Guarded

open IrohKmp.Theory.Run

set_option autoImplicit false
set_option linter.unusedSectionVars false

abbrev CallId := Nat

/-- How one turn of work under the guard ends. -/
inductive Turn (P A : Type) where
  /-- The call keeps the guard, with this much progress. -/
  | keep (progress : P)
  /-- The call returns; its guard is dropped. -/
  | finish (answer : A)
  /-- The guard is dropped and the call waits on without it. -/
  | detach

/-- Where a call stands. -/
inductive Phase (P A : Type) where
  | waiting
  | holding (progress : P)
  | detached
  | ended (answer : A)
  | cancelled

namespace Phase

variable {P A : Type}

/-- In the line of its lock: owning it or waiting for it. -/
def InLine : Phase P A → Prop
  | waiting | holding _ => True
  | _ => False

/-- Not over yet. -/
def Live : Phase P A → Prop
  | waiting | holding _ | detached => True
  | _ => False

instance (ph : Phase P A) : Decidable ph.Live := by
  cases ph <;> unfold Live <;> infer_instance

@[simp] theorem inLine_waiting : (waiting : Phase P A).InLine := trivial
@[simp] theorem inLine_holding (p : P) : (holding p : Phase P A).InLine := trivial
@[simp] theorem not_inLine_detached : ¬ (detached : Phase P A).InLine := id
@[simp] theorem not_inLine_ended (a : A) : ¬ (ended a : Phase P A).InLine := id
@[simp] theorem not_inLine_cancelled : ¬ (cancelled : Phase P A).InLine := id

theorem inLine_iff {ph : Phase P A} : ph.InLine ↔ ph = .waiting ∨ ∃ p, ph = .holding p := by
  cases ph <;> simp

end Phase

/-- Where a turn leaves its call. -/
@[simp] def Turn.phase {P A : Type} : Turn P A → Phase P A
  | .keep p => .holding p
  | .finish a => .ended a
  | .detach => .detached

/-- What the calls of a component do: `ι` names the locks, `R` is the resource, `M` the
calls that can be made, `P` their progress under the guard, `A` their answers, and `X` the
choices a turn leaves open (how much of a transfer it carries out). -/
structure Discipline (ι R M P A X : Type) where
  /-- The lock a call asks for, or its answer if it never asks. -/
  route : M → Except A ι
  start : M → P
  /-- One turn under the guard; `none` while the call has to wait for the resource. -/
  work : R → M → P → X → Option (R × Turn P A)
  /-- The answer of a detached call, once the resource has one. -/
  resolve : R → M → Option A
  /-- A future can be dropped at an await; a blocking call cannot. -/
  cancellable : M → Bool

structure State (ι R M P A : Type) where
  res : R
  queue : ι → List CallId
  calls : CallId → Option (M × Phase P A)
  /-- History: the calls in the order in which they took each lock. -/
  taken : ι → List CallId

inductive Event (M X E : Type) where
  | call (c : CallId) (m : M)
  | acquire (c : CallId)
  | work (c : CallId) (x : X)
  | resolve (c : CallId)
  | cancel (c : CallId)
  | env (e : E)

variable {ι R M P A X E : Type} [DecidableEq ι]

namespace State

/-- No call was made yet. -/
def Fresh (s : State ι R M P A) : Prop :=
  (∀ i, s.queue i = []) ∧ (∀ c, s.calls c = none) ∧ ∀ i, s.taken i = []

/-- The state in which nothing was called and the resource is `r`. -/
def idle (r : R) : State ι R M P A := ⟨r, fun _ => [], fun _ => none, fun _ => []⟩

theorem idle_fresh (r : R) : (idle r : State ι R M P A).Fresh :=
  ⟨fun _ => rfl, fun _ => rfl, fun _ => rfl⟩

def record (s : State ι R M P A) (c : CallId) (m : M) (ph : Phase P A) : State ι R M P A :=
  { s with calls := Function.update s.calls c (some (m, ph)) }

def join (s : State ι R M P A) (i : ι) (c : CallId) : State ι R M P A :=
  { s with queue := Function.update s.queue i (s.queue i ++ [c]) }

def take (s : State ι R M P A) (i : ι) (c : CallId) : State ι R M P A :=
  { s with taken := Function.update s.taken i (s.taken i ++ [c]) }

def leave (s : State ι R M P A) (i : ι) (c : CallId) : State ι R M P A :=
  { s with queue := Function.update s.queue i ((s.queue i).erase c) }

/-- Leave the line of the lock the call `m` asked for. -/
def unlock (D : Discipline ι R M P A X) (s : State ι R M P A) (c : CallId) (m : M) :
    State ι R M P A :=
  match D.route m with
  | .ok i => s.leave i c
  | .error _ => s

/-- The state after a turn of call `c` that left the resource at `r`. -/
def turned (D : Discipline ι R M P A X) (s : State ι R M P A) (c : CallId) (m : M) (r : R)
    (turn : Turn P A) : State ι R M P A :=
  let t := { s with res := r }.record c m turn.phase
  match turn with
  | .keep _ => t
  | .finish _ | .detach => t.unlock D c m

end State

open State

/-- One atomic step. `env` is what the environment does to the resource. -/
def step (D : Discipline ι R M P A X) (env : R → E → Option R) (s : State ι R M P A) :
    Event M X E → Option (State ι R M P A)
  | .call c m =>
      match s.calls c with
      | some _ => none
      | none =>
          match D.route m with
          | .error a => some (s.record c m (.ended a))
          | .ok i => some ((s.record c m .waiting).join i c)
  | .acquire c =>
      match s.calls c with
      | some (m, .waiting) =>
          match D.route m with
          | .ok i =>
              if (s.queue i).head? = some c then
                some ((s.record c m (.holding (D.start m))).take i c)
              else none
          | .error _ => none
      | _ => none
  | .work c x =>
      match s.calls c with
      | some (m, .holding p) => (D.work s.res m p x).map fun rt => s.turned D c m rt.1 rt.2
      | _ => none
  | .resolve c =>
      match s.calls c with
      | some (m, .detached) => (D.resolve s.res m).map fun a => s.record c m (.ended a)
      | _ => none
  | .cancel c =>
      match s.calls c with
      | some (m, ph) =>
          if ph.Live ∧ D.cancellable m = true then
            some ((s.record c m .cancelled).unlock D c m)
          else none
      | none => none
  | .env e => (env s.res e).map fun r => { s with res := r }

variable {D : Discipline ι R M P A X} {env : R → E → Option R} {s t : State ι R M P A}

/-! ## What a step can do -/

theorem step_call_iff {c : CallId} {m : M} :
    step D env s (.call c m) = some t ↔ s.calls c = none ∧
      ((∃ a, D.route m = .error a ∧ t = s.record c m (.ended a)) ∨
        ∃ i, D.route m = .ok i ∧ t = (s.record c m .waiting).join i c) := by
  cases called : s.calls c with
  | some _ => simp [step, called]
  | none => cases routed : D.route m <;> simp [step, called, routed, eq_comm]

theorem step_acquire_iff {c : CallId} :
    step D env s (.acquire c) = some t ↔ ∃ m i, s.calls c = some (m, .waiting) ∧
      D.route m = .ok i ∧ (s.queue i).head? = some c ∧
      t = (s.record c m (.holding (D.start m))).take i c := by
  rcases called : s.calls c with _ | ⟨m, ph⟩
  · simp [step, called]
  · cases ph with
    | waiting =>
        cases routed : D.route m with
        | error a =>
            simp only [step, called, routed, reduceCtorEq, Option.some.injEq, Prod.mk.injEq,
              false_iff]
            rintro ⟨m', i, ⟨rfl, -⟩, ok, -⟩
            rw [routed] at ok
            cases ok
        | ok i =>
            simp only [step, called, routed, Option.ite_none_right_eq_some, Option.some.injEq,
              Prod.mk.injEq, and_true]
            constructor
            · rintro ⟨head, rfl⟩
              exact ⟨m, i, rfl, routed, head, rfl⟩
            · rintro ⟨_, j, rfl, ok, head, rfl⟩
              rw [routed] at ok
              cases ok
              exact ⟨head, rfl⟩
    | _ => simp [step, called]

theorem step_work_iff {c : CallId} {x : X} :
    step D env s (.work c x) = some t ↔ ∃ m p r turn, s.calls c = some (m, .holding p) ∧
      D.work s.res m p x = some (r, turn) ∧ t = s.turned D c m r turn := by
  rcases called : s.calls c with _ | ⟨m, ph⟩
  · simp [step, called]
  · cases ph with
    | holding p =>
        simp only [step, called, Option.map_eq_some_iff, Prod.exists, Option.some.injEq,
          Prod.mk.injEq, Phase.holding.injEq]
        constructor
        · rintro ⟨r, turn, worked, rfl⟩
          exact ⟨m, p, r, turn, ⟨rfl, rfl⟩, worked, rfl⟩
        · rintro ⟨_, _, r, turn, ⟨rfl, rfl⟩, worked, rfl⟩
          exact ⟨r, turn, worked, rfl⟩
    | _ => simp [step, called]

theorem step_resolve_iff {c : CallId} :
    step D env s (.resolve c) = some t ↔ ∃ m a, s.calls c = some (m, .detached) ∧
      D.resolve s.res m = some a ∧ t = s.record c m (.ended a) := by
  rcases called : s.calls c with _ | ⟨m, ph⟩
  · simp [step, called]
  · cases ph with
    | detached =>
        simp only [step, called, Option.map_eq_some_iff, Option.some.injEq, Prod.mk.injEq,
          and_true]
        constructor
        · rintro ⟨a, answer, rfl⟩
          exact ⟨m, a, rfl, answer, rfl⟩
        · rintro ⟨_, a, rfl, answer, rfl⟩
          exact ⟨a, answer, rfl⟩
    | _ => simp [step, called]

theorem step_cancel_iff {c : CallId} :
    step D env s (.cancel c) = some t ↔ ∃ m ph, s.calls c = some (m, ph) ∧ ph.Live ∧
      D.cancellable m = true ∧ t = (s.record c m .cancelled).unlock D c m := by
  rcases called : s.calls c with _ | ⟨m, ph⟩
  · simp [step, called]
  · simp only [step, called, Option.ite_none_right_eq_some, Option.some.injEq, Prod.mk.injEq]
    constructor
    · rintro ⟨⟨live, droppable⟩, rfl⟩
      exact ⟨m, ph, ⟨rfl, rfl⟩, live, droppable, rfl⟩
    · rintro ⟨_, _, ⟨rfl, rfl⟩, live, droppable, rfl⟩
      exact ⟨⟨live, droppable⟩, rfl⟩

theorem step_env_iff {e : E} :
    step D env s (.env e) = some t ↔ ∃ r, env s.res e = some r ∧ t = { s with res := r } := by
  simp only [step, Option.map_eq_some_iff, @eq_comm _ t]

/-! ## The parts of a state after a move -/

section Moves

variable {c d : CallId} {m : M} {ph : Phase P A} {i j : ι} {r : R} {turn : Turn P A}

@[simp] theorem record_res : (s.record c m ph).res = s.res := rfl
@[simp] theorem record_queue : (s.record c m ph).queue = s.queue := rfl
@[simp] theorem record_taken : (s.record c m ph).taken = s.taken := rfl
@[simp] theorem record_calls :
    (s.record c m ph).calls = Function.update s.calls c (some (m, ph)) := rfl

/-- Only the recorded call's entry changes. -/
theorem recorded_iff {n : M} {q : Phase P A} :
    (s.record c m ph).calls d = some (n, q) ↔
      (d = c ∧ n = m ∧ q = ph) ∨ (d ≠ c ∧ s.calls d = some (n, q)) := by
  by_cases self : d = c
  · subst self; simp [eq_comm]
  · simp [self]

@[simp] theorem join_res : (s.join i c).res = s.res := rfl
@[simp] theorem join_calls : (s.join i c).calls = s.calls := rfl
@[simp] theorem join_taken : (s.join i c).taken = s.taken := rfl
@[simp] theorem join_queue :
    (s.join i c).queue = Function.update s.queue i (s.queue i ++ [c]) := rfl

@[simp] theorem take_res : (s.take i c).res = s.res := rfl
@[simp] theorem take_calls : (s.take i c).calls = s.calls := rfl
@[simp] theorem take_queue : (s.take i c).queue = s.queue := rfl
@[simp] theorem take_taken :
    (s.take i c).taken = Function.update s.taken i (s.taken i ++ [c]) := rfl

@[simp] theorem leave_res : (s.leave i c).res = s.res := rfl
@[simp] theorem leave_calls : (s.leave i c).calls = s.calls := rfl
@[simp] theorem leave_taken : (s.leave i c).taken = s.taken := rfl
@[simp] theorem leave_queue :
    (s.leave i c).queue = Function.update s.queue i ((s.queue i).erase c) := rfl

theorem unlock_of_ok (routed : D.route m = .ok i) : s.unlock D c m = s.leave i c := by
  simp only [State.unlock, routed]

@[simp] theorem unlock_res : (s.unlock D c m).res = s.res := by
  unfold State.unlock; split <;> rfl
@[simp] theorem unlock_calls : (s.unlock D c m).calls = s.calls := by
  unfold State.unlock; split <;> rfl
@[simp] theorem unlock_taken : (s.unlock D c m).taken = s.taken := by
  unfold State.unlock; split <;> rfl

@[simp] theorem turned_res : (s.turned D c m r turn).res = r := by
  cases turn <;> simp [State.turned]
@[simp] theorem turned_calls :
    (s.turned D c m r turn).calls = Function.update s.calls c (some (m, turn.phase)) := by
  cases turn <;> simp [State.turned]
@[simp] theorem turned_taken : (s.turned D c m r turn).taken = s.taken := by
  cases turn <;> simp [State.turned]

/-- A turn after which the call is out of line gives the lock to the next in line. -/
theorem turned_drop (routed : D.route m = .ok i) (out : ¬ turn.phase.InLine) :
    s.turned D c m r turn = ({ s with res := r }.record c m turn.phase).leave i c := by
  cases turn with
  | keep p => exact absurd trivial out
  | finish a => exact unlock_of_ok routed
  | detach => exact unlock_of_ok routed

/-- A turn moves no line but its own. -/
theorem turned_queue_ne {j : ι} (routed : D.route m = .ok i) (other : j ≠ i) :
    (s.turned D c m r turn).queue j = s.queue j := by
  by_cases out : turn.phase.InLine
  · cases turn with
    | keep p => rfl
    | _ => exact absurd out id
  · rw [turned_drop routed out]
    simp [other]

/-- After a turn the other calls are still in line. -/
theorem mem_turned_queue {d : CallId} (routed : D.route m = .ok i) (nodup : (s.queue i).Nodup)
    (inLine : d ∈ s.queue i) (other : d ≠ c) : d ∈ (s.turned D c m r turn).queue i := by
  by_cases out : turn.phase.InLine
  · cases turn with
    | keep p => exact inLine
    | _ => exact absurd out id
  · rw [turned_drop routed out]
    simpa [other, nodup.mem_erase_iff] using inLine

end Moves

/-! ## Lines and phases agree -/

/-- The lines hold exactly the calls that own or wait for their lock, each once, and a
call works under the guard only at the head of its line. -/
structure WellFormed (D : Discipline ι R M P A X) (s : State ι R M P A) : Prop where
  nodup : ∀ i, (s.queue i).Nodup
  mem_queue : ∀ i c, c ∈ s.queue i ↔
    ∃ m ph, s.calls c = some (m, ph) ∧ D.route m = .ok i ∧ ph.InLine
  head : ∀ i c m p, s.calls c = some (m, .holding p) → D.route m = .ok i →
    (s.queue i).head? = some c
  routed : ∀ c m ph, s.calls c = some (m, ph) → ph.Live → ∃ i, D.route m = .ok i

theorem wellFormed_fresh (fresh : s.Fresh) : WellFormed D s := by
  obtain ⟨queues, calls, -⟩ := fresh
  refine ⟨fun i => ?_, fun i c => ?_, fun i c m p called => ?_, fun c m ph called => ?_⟩
  · simp [queues]
  · simp [queues, calls]
  · simp [calls] at called
  · simp [calls] at called

namespace WellFormed

variable {c d : CallId} {m : M} {ph : Phase P A} {i j : ι}

/-- The resource and the history play no part. -/
theorem congr (wf : WellFormed D s) (queues : t.queue = s.queue) (calls : t.calls = s.calls) :
    WellFormed D t := by
  constructor
  · rw [queues]; exact wf.nodup
  · rw [queues, calls]; exact wf.mem_queue
  · rw [queues, calls]; exact wf.head
  · rw [calls]; exact wf.routed

/-- A new call joins the end of its line. -/
theorem enter (wf : WellFormed D s) (new : s.calls c = none) (routed : D.route m = .ok i) :
    WellFormed D ((s.record c m .waiting).join i c) := by
  have absent : ∀ j, c ∉ s.queue j := by
    intro j member
    obtain ⟨_, _, called, -⟩ := (wf.mem_queue j c).mp member
    rw [new] at called
    cases called
  constructor
  · intro j
    by_cases same : j = i
    · subst same
      simpa [List.nodup_append, wf.nodup] using fun a ha (e : a = c) => absent j (e ▸ ha)
    · simpa [same] using wf.nodup j
  · intro j d
    by_cases self : d = c
    · subst self
      by_cases same : j = i
      · simp [same, routed]
      · simp [same, routed, absent, Ne.symm same]
    · by_cases same : j = i
      · subst same; simpa [self] using wf.mem_queue j d
      · simpa [self, same] using wf.mem_queue j d
  · intro j d n p now ok
    rcases recorded_iff.mp now with ⟨-, -, impossible⟩ | ⟨-, now⟩
    · cases impossible
    · have before := wf.head j d n p now ok
      by_cases same : j = i
      · subst same; simp [List.head?_append, before]
      · simpa [same] using before
  · intro d n q now live
    rcases recorded_iff.mp now with ⟨-, rfl, -⟩ | ⟨-, now⟩
    · exact ⟨i, routed⟩
    · exact wf.routed d n q now live

/-- A call at the head of its line changes its phase and stays there. -/
theorem rephase (wf : WellFormed D s) (called : s.calls c = some (m, ph))
    (routed : D.route m = .ok i) (inLine : ph.InLine) (head : (s.queue i).head? = some c)
    {ph' : Phase P A} (inLine' : ph'.InLine) : WellFormed D (s.record c m ph') := by
  constructor
  · exact wf.nodup
  · intro j d
    by_cases self : d = c
    · subst self
      simpa [inLine', called, inLine] using wf.mem_queue j d
    · simpa [self] using wf.mem_queue j d
  · intro j d n p now ok
    rcases recorded_iff.mp now with ⟨rfl, rfl, -⟩ | ⟨-, now⟩
    · rw [routed] at ok
      cases ok
      exact head
    · exact wf.head j d n p now ok
  · intro d n q now live
    rcases recorded_iff.mp now with ⟨-, rfl, -⟩ | ⟨-, now⟩
    · exact ⟨i, routed⟩
    · exact wf.routed d n q now live

/-- A call leaves its line. -/
theorem depart (wf : WellFormed D s) (called : s.calls c = some (m, ph))
    (routed : D.route m = .ok i) {ph' : Phase P A} (out : ¬ ph'.InLine) :
    WellFormed D ((s.record c m ph').leave i c) := by
  constructor
  · intro j
    by_cases same : j = i
    · subst same; simpa using (wf.nodup j).erase c
    · simpa [same] using wf.nodup j
  · intro j d
    by_cases self : d = c
    · subst self
      have away : j ≠ i → d ∉ s.queue j := by
        intro differ member
        obtain ⟨_, _, now, ok, -⟩ := (wf.mem_queue j d).mp member
        rw [called] at now
        cases now
        rw [routed] at ok
        cases ok
        exact differ rfl
      by_cases same : j = i
      · subst same; simp [out, (wf.nodup j).not_mem_erase]
      · simp [same, out, away same]
    · by_cases same : j = i
      · subst same
        simpa [self, (wf.nodup j).mem_erase_iff] using wf.mem_queue j d
      · simpa [self, same] using wf.mem_queue j d
  · intro j d n p now ok
    rcases recorded_iff.mp now with ⟨-, -, rfl⟩ | ⟨other, now⟩
    · exact absurd trivial out
    · have before := wf.head j d n p now ok
      by_cases same : j = i
      · subst same
        simp only [leave_queue, record_queue, Function.update_self]
        cases line : s.queue j with
        | nil => simp [line] at before
        | cons first rest =>
            rw [line] at before
            cases before
            simp [other]
      · simpa [same] using before
  · intro d n q now live
    rcases recorded_iff.mp now with ⟨-, rfl, -⟩ | ⟨-, now⟩
    · exact ⟨i, routed⟩
    · exact wf.routed d n q now live

/-- A call that is in no line ends. -/
theorem outside (wf : WellFormed D s) (before : ∀ n q, s.calls c = some (n, q) → ¬ q.InLine)
    {ph' : Phase P A} (spent : ¬ ph'.Live) : WellFormed D (s.record c m ph') := by
  have out : ¬ ph'.InLine := by cases ph' <;> simp_all [Phase.Live]
  constructor
  · exact wf.nodup
  · intro j d
    by_cases self : d = c
    · subst self
      have absent : d ∉ s.queue j := by
        intro member
        obtain ⟨n, q, now, -, inLine⟩ := (wf.mem_queue j d).mp member
        exact before n q now inLine
      simp [absent, out]
    · simpa [self] using wf.mem_queue j d
  · intro j d n p now ok
    rcases recorded_iff.mp now with ⟨-, -, rfl⟩ | ⟨-, now⟩
    · exact absurd trivial out
    · exact wf.head j d n p now ok
  · intro d n q now live
    rcases recorded_iff.mp now with ⟨-, -, rfl⟩ | ⟨-, now⟩
    · exact absurd live spent
    · exact wf.routed d n q now live

end WellFormed

/-- Whatever a call, the runtime or the environment does, lines and phases keep agreeing. -/
theorem wellFormed_step (e : Event M X E) (wf : WellFormed D s)
    (stepped : step D env s e = some t) : WellFormed D t := by
  cases e with
  | call c m =>
      obtain ⟨new, ⟨a, -, rfl⟩ | ⟨i, routed, rfl⟩⟩ := step_call_iff.mp stepped
      · exact wf.outside (by simp [new]) id
      · exact wf.enter new routed
  | acquire c =>
      obtain ⟨m, i, called, routed, head, rfl⟩ := step_acquire_iff.mp stepped
      have held : WellFormed D (s.record c m (.holding (D.start m))) :=
        wf.rephase called routed trivial head trivial
      exact held.congr rfl rfl
  | work c x =>
      obtain ⟨m, p, r, turn, called, -, rfl⟩ := step_work_iff.mp stepped
      obtain ⟨i, routed⟩ := wf.routed c m _ called trivial
      have moved : WellFormed D { s with res := r } := wf.congr rfl rfl
      by_cases out : turn.phase.InLine
      · cases turn with
        | keep p' => exact moved.rephase called routed trivial (wf.head i c m p called routed) out
        | _ => exact absurd out id
      · rw [turned_drop routed out]
        exact moved.depart called routed out
  | resolve c =>
      obtain ⟨m, a, called, -, rfl⟩ := step_resolve_iff.mp stepped
      refine wf.outside (fun n q now => ?_) id
      rw [called] at now
      cases now
      exact id
  | cancel c =>
      obtain ⟨m, ph, called, live, -, rfl⟩ := step_cancel_iff.mp stepped
      obtain ⟨i, routed⟩ := wf.routed c m ph called live
      rw [unlock_of_ok routed]
      exact wf.depart called routed id
  | env e =>
      obtain ⟨r, -, rfl⟩ := step_env_iff.mp stepped
      exact wf.congr rfl rfl

theorem wellFormed_reachable {ok : State ι R M P A → Event M X E → Prop}
    (reached : Reachable (step D env) ok State.Fresh s) : WellFormed D s :=
  reached.keeps (fun _ => wellFormed_fresh) fun _ e _ wf _ stepped => wellFormed_step e wf stepped

/-! ## Who holds, who waits -/

/-- The lock belongs to the head of its line, also before that call runs again. -/
def Holds (s : State ι R M P A) (c : CallId) (i : ι) : Prop := (s.queue i).head? = some c

/-- Behind the head, a call waits. -/
def Waits (s : State ι R M P A) (c : CallId) (i : ι) : Prop := c ∈ (s.queue i).tail

theorem holder_unique {c d : CallId} {i : ι} (hc : Holds s c i) (hd : Holds s d i) : c = d :=
  Option.some.inj (hc.symm.trans hd)

namespace WellFormed

variable {c d : CallId} {m n : M} {ph : Phase P A} {i j : ι}

/-- A call stands in the line of one lock only. -/
theorem one_line (wf : WellFormed D s) (hi : c ∈ s.queue i) (hj : c ∈ s.queue j) : i = j := by
  obtain ⟨m, ph, called, routed, -⟩ := (wf.mem_queue i c).mp hi
  obtain ⟨_, _, called', routed', -⟩ := (wf.mem_queue j c).mp hj
  rw [called] at called'
  cases called'
  rw [routed] at routed'
  cases routed'
  rfl

theorem not_waits_of_holds (wf : WellFormed D s) (holds : Holds s c i) : ¬ Waits s c j := by
  intro waits
  have inI : c ∈ s.queue i := List.mem_of_mem_head? (by rw [holds]; rfl)
  cases wf.one_line inI (List.mem_of_mem_tail waits)
  have nodup := wf.nodup i
  unfold Holds at holds
  unfold Waits at waits
  cases line : s.queue i with
  | nil => simp [line] at holds
  | cons first rest =>
      rw [line] at holds waits nodup
      cases holds
      exact (List.nodup_cons.mp nodup).1 waits

/-- A call that is over, or waits without the guard, holds and awaits no lock. -/
theorem not_mem_queue (wf : WellFormed D s) (called : s.calls c = some (m, ph))
    (out : ¬ ph.InLine) : c ∉ s.queue i := by
  intro member
  obtain ⟨_, _, now, -, inLine⟩ := (wf.mem_queue i c).mp member
  rw [called] at now
  cases now
  exact out inLine

/-- At most one call works under the guard of a lock. -/
theorem holding_unique (wf : WellFormed D s) {p q : P}
    (hc : s.calls c = some (m, .holding p)) (hd : s.calls d = some (n, .holding q))
    (rc : D.route m = .ok i) (rd : D.route n = .ok i) : c = d :=
  holder_unique (wf.head i c m p hc rc) (wf.head i d n q hd rd)

end WellFormed

end IrohKmp.Theory.Guarded
