/-
# Runtime.Watch — `addr` and `addr_updated`, looped by one consumer

`addr_updated` makes a fresh watcher on every call: its baseline is the address at the start
of the call, whatever snapshot the consumer was given before. A change that falls between two
calls is therefore seen only with the next change.

* `Watchable`, `Watcher` — the library's watched value and a watcher of it: the baseline is
  the value at creation, and `updated` resolves while the value is another;
* `step` — the address changes, the endpoint goes away, the consumer takes its steps;
* `Current` — a consumer that nothing will wake holds the current address;
* `stays_current_iff` — a run stays so exactly when each call starts on the address the
  consumer holds; `change_between_calls_lost`, the run that does not.
-/
import IrohKmp.Theory.Run

namespace IrohKmp.Runtime.Watch

open IrohKmp.Theory.Run

set_option autoImplicit false

/-! ## The library's watched value -/

/-- The address as the endpoint keeps it; `connected` until the endpoint is dropped. -/
structure Watchable (A : Type) where
  value : A
  connected : Bool

structure Watcher (A : Type) where
  baseline : A

inductive Disconnected where
  | disconnected

variable {A R : Type}

/-- `Endpoint::watch_addr`. -/
def Watchable.watchAddr (w : Watchable A) : Watcher A := ⟨w.value⟩

/-- What `updated()` resolves to now, if it does. The watcher compares values: a change that
went back before the call was polled does not wake it. -/
def Watcher.updated [DecidableEq A] (r : Watcher A) (w : Watchable A) :
    Option (Except Disconnected A) :=
  if w.connected then
    if w.value = r.baseline then none else some (.ok w.value)
  else some (.error .disconnected)

theorem Watcher.updated_eq_none [DecidableEq A] {r : Watcher A} {w : Watchable A} :
    r.updated w = none ↔ w.connected = true ∧ w.value = r.baseline := by
  unfold updated
  cases w.connected with
  | false => simp
  | true => by_cases seen : w.value = r.baseline <;> simp [seen]

/-! ## The consumer -/

inductive Consumer (A : Type) where
  | start
  /-- Between two calls. -/
  | ready
  /-- Inside `addr_updated`, with the watcher the call made. -/
  | parked (watcher : Watcher A)

structure State (A R : Type) where
  endpoint : Watchable A
  consumer : Consumer A
  /-- The last record the consumer was given. -/
  snapshot : Option R

inductive Event (A : Type) where
  | change (a : A)
  | drop
  | addr
  | addrUpdated
  | resolve
  /-- The call resolves after the endpoint went away; `last` is what the watcher still has. -/
  | resolveDropped (last : A)

section Machine

variable [DecidableEq A] (into : A → R)

/-- `IrohEndpoint::addr`: `self.inner.addr().into()`. -/
def addr (w : Watchable A) : R := into w.value

/-- What a pending `addr_updated` returns when it resolves; `last` is `watcher.get()` then. -/
def addrUpdated (w : Watchable A) (r : Watcher A) (last : A) : Option R :=
  match r.updated w with
  | some (.ok a) => some (into a)
  | some (.error _) => some (into last)
  | none => none

def step (s : State A R) : Event A → Option (State A R)
  | .change a =>
      if s.endpoint.connected then some { s with endpoint := { s.endpoint with value := a } }
      else none
  | .drop => some { s with endpoint := { s.endpoint with connected := false } }
  | .addr =>
      match s.consumer with
      | .start => some { s with consumer := .ready, snapshot := some (addr into s.endpoint) }
      | _ => none
  | .addrUpdated =>
      match s.consumer with
      | .ready => some { s with consumer := .parked s.endpoint.watchAddr }
      | _ => none
  | .resolve =>
      match s.consumer with
      | .parked r =>
          if s.endpoint.connected then
            (addrUpdated into s.endpoint r s.endpoint.value).map fun given =>
              { s with consumer := .ready, snapshot := some given }
          else none
      | _ => none
  | .resolveDropped last =>
      match s.consumer with
      | .parked r =>
          if s.endpoint.connected then none
          else (addrUpdated into s.endpoint r last).map fun given =>
            { s with consumer := .ready, snapshot := some given }
      | _ => none

/-- A consumer that is parked, with nothing to wake it, holds the current address. -/
def Current (s : State A R) : Prop :=
  ∀ r, s.consumer = .parked r → r.updated s.endpoint = none →
    s.snapshot = some (into s.endpoint.value)

/-- A call of `addr_updated` starts on the address the consumer holds, unless the endpoint is
gone. -/
def StartsCurrent (s : State A R) : Event A → Prop
  | .addrUpdated => s.endpoint.connected = true → s.snapshot = some (into s.endpoint.value)
  | _ => True

/-- The call in progress started on the address the consumer holds. -/
def Held (s : State A R) : Prop :=
  ∀ r, s.consumer = .parked r → s.endpoint.connected = true → s.snapshot = some (into r.baseline)

variable {into} {s t : State A R} {e : Event A}

/-- Everything a step can do to the consumer: it stays where it is, it starts a call, or it
is between calls. -/
theorem step_consumer (stepped : step into s e = some t) :
    (t.consumer = s.consumer ∧ t.snapshot = s.snapshot ∧
      ((∃ a, e = .change a ∧ t.endpoint = { s.endpoint with value := a }) ∨
        (e = .drop ∧ t.endpoint = { s.endpoint with connected := false }))) ∨
      (e = .addrUpdated ∧ t = { s with consumer := .parked s.endpoint.watchAddr }) ∨
      (t.consumer = .ready ∧ e ≠ .addrUpdated) := by
  cases e with
  | change a =>
      simp only [step, Option.ite_none_right_eq_some] at stepped
      cases stepped.2
      exact .inl ⟨rfl, rfl, .inl ⟨a, rfl, rfl⟩⟩
  | drop =>
      cases stepped
      exact .inl ⟨rfl, rfl, .inr ⟨rfl, rfl⟩⟩
  | addr =>
      simp only [step] at stepped
      split at stepped <;> cases stepped
      exact .inr (.inr ⟨rfl, by simp⟩)
  | addrUpdated =>
      simp only [step] at stepped
      split at stepped <;> cases stepped
      exact .inr (.inl ⟨rfl, rfl⟩)
  | resolve =>
      simp only [step] at stepped
      split at stepped
      · simp only [Option.ite_none_right_eq_some, Option.map_eq_some_iff] at stepped
        obtain ⟨-, given, -, rfl⟩ := stepped
        exact .inr (.inr ⟨rfl, by simp⟩)
      · cases stepped
  | resolveDropped last =>
      simp only [step] at stepped
      split at stepped
      · simp only [Option.ite_none_left_eq_some, Option.map_eq_some_iff] at stepped
        obtain ⟨-, given, -, rfl⟩ := stepped
        exact .inr (.inr ⟨rfl, by simp⟩)
      · cases stepped

/-- A consumer is asleep only on the baseline of its call. -/
theorem Held.current (held : Held into s) : Current into s := by
  intro r parked asleep
  obtain ⟨connected, same⟩ := Watcher.updated_eq_none.mp asleep
  rw [same]
  exact held r parked connected

theorem held_step (held : Held into s) (starts : StartsCurrent into s e)
    (stepped : step into s e = some t) : Held into t := by
  intro r parked connected
  obtain ⟨same, snapshot, ⟨a, -, endpoint⟩ | ⟨-, endpoint⟩⟩ | ⟨rfl, rfl⟩ | ⟨ready, -⟩ :=
    step_consumer stepped
  · rw [endpoint] at connected
    rw [snapshot]
    exact held r (same ▸ parked) connected
  · rw [endpoint] at connected
    cases connected
  · cases parked
    exact starts connected
  · rw [ready] at parked
    cases parked

/-- From a state whose call started on the address the consumer holds, a step leads to a state
where a sleeping consumer is current exactly when it starts no call on another address. -/
theorem current_step_iff (held : Held into s) (stepped : step into s e = some t) :
    Current into t ↔ StartsCurrent into s e := by
  constructor
  · intro current
    obtain ⟨-, -, ⟨a, rfl, -⟩ | ⟨rfl, -⟩⟩ | ⟨rfl, rfl⟩ | ⟨-, other⟩ := step_consumer stepped
    · trivial
    · trivial
    · intro connected
      exact current _ rfl (Watcher.updated_eq_none.mpr ⟨connected, rfl⟩)
    · cases e <;> first | exact trivial | exact absurd rfl other
  · intro starts
    exact (held_step held starts stepped).current

/-- The consumer has not begun. -/
def Initial (s : State A R) : Prop := s.consumer = .start

/-- **When watching loses no final update.** In every run, a consumer that is parked with
nothing to wake it holds the current address in every state, exactly when each of its calls
started on the address it held. -/
theorem stays_current_iff (initial : Initial s) (es : List (Event A))
    (runs : (exec (step into) s es).isSome) :
    Along (step into) (Current into) s es ↔ Stepwise (step into) (StartsCurrent into) s es := by
  have none : ∀ r, s.consumer ≠ .parked r := by
    intro r parked
    rw [show s.consumer = .start from initial] at parked
    cases parked
  exact along_iff_stepwise (fun _ _ _ held starts stepped => held_step held starts stepped)
    (fun _ _ _ held _ stepped => current_step_iff held stepped) es s
    (fun r parked => absurd parked (none r)) (fun r parked => absurd parked (none r)) runs

end Machine

/-! ## A change between two calls -/

/-- An endpoint at address 0, whose addresses are shown as they are. -/
def fresh : State Nat Nat := ⟨⟨0, true⟩, .start, none⟩

/-- The change falls inside the first call: it is delivered, and the second call waits. -/
theorem stays_current_iff_delivered :
    Along (step id) (Current id) fresh [.addr, .addrUpdated, .change 1, .resolve, .addrUpdated] :=
  (stays_current_iff (rfl : Initial fresh) _ rfl).mpr
    ⟨trivial, fun _ first => by
      cases first
      exact ⟨fun _ => rfl, fun _ second => by
        cases second
        exact ⟨trivial, fun _ third => by
          cases third
          exact ⟨trivial, fun _ fourth => by
            cases fourth
            exact ⟨fun _ => rfl, fun _ _ => trivial⟩⟩⟩⟩⟩

/-- A change between `addr` and the first `addr_updated` is lost: the consumer sleeps on the
address before it. -/
theorem change_between_calls_lost :
    ¬ ∀ s, Reachable (step id) Any (Initial (A := Nat) (R := Nat)) s → Current id s := by
  intro always
  have run : exec (step id) fresh [.addr, .change 1, .addrUpdated] =
      some ⟨⟨1, true⟩, .parked ⟨1⟩, some 0⟩ := rfl
  have stale := always _ (.of_exec _ (rfl : Initial fresh) run) ⟨1⟩ rfl (by decide)
  exact absurd stale (by decide)

end IrohKmp.Runtime.Watch
