/-
# Runtime.WatchOrder — what a consumer of `addr` and `addr_updated` is given

While the endpoint lives, the snapshots the loop is given are addresses the endpoint has had, in
the order it had them, and none of them twice: a call never answers with the address the call
before it answered with, unless the endpoint went back to it.

* `Observed` — the watched endpoint with every address it had, and every snapshot given;
* `Ordered` — what was given is of the addresses up to the baseline of the call in progress;
* `snapshots_in_order`.
-/
import IrohKmp.Runtime.Watch
import Mathlib.Data.List.Basic

namespace IrohKmp.Runtime.Watch

open IrohKmp.Theory.Run

set_option autoImplicit false
set_option linter.unusedSectionVars false

variable {A R : Type}

/-- A run so far: the state, every address the endpoint had, every snapshot the consumer got. -/
structure Observed (A R : Type) where
  state : State A R
  history : List A
  given : List R

/-- The event returns a call of the consumer. -/
def Event.returns : Event A → Bool
  | .addr | .resolve | .resolveDropped _ => true
  | _ => false

section Machine

variable [DecidableEq A] (into : A → R)

/-- A step, noted down: a new address joins the history, a call that returns adds its snapshot. -/
def observe (o : Observed A R) (e : Event A) : Option (Observed A R) :=
  (step into o.state e).map fun t => {
    state := t
    history :=
      if t.endpoint.value = o.state.endpoint.value then o.history
      else o.history ++ [t.endpoint.value]
    given := if e.returns then o.given ++ t.snapshot.toList else o.given }

/-- A living endpoint at its first address, and a consumer that has not begun. -/
structure Begins (o : Observed A R) : Prop where
  initial : Initial o.state
  connected : o.state.endpoint.connected = true
  history : o.history = [o.state.endpoint.value]
  given : o.given = []

/-- The endpoint is not dropped. -/
def Lives (_ : Observed A R) : Event A → Prop
  | .drop => False
  | _ => True

/-- The snapshots are of addresses of the history, and those before a call in progress are of
addresses up to its baseline. -/
structure Ordered (o : Observed A R) : Prop where
  connected : o.state.endpoint.connected = true
  latest : o.history.getLast? = some o.state.endpoint.value
  start : o.state.consumer = .start → o.given = []
  given : o.given.Sublist (o.history.map into)
  upTo : ∀ r, o.state.consumer = .parked r → ∃ past later,
    o.history = past ++ r.baseline :: later ∧ o.given.Sublist ((past ++ [r.baseline]).map into)

variable {into} {o o' : Observed A R} {e : Event A}

theorem ordered_begins (begins : Begins o) : Ordered into o where
  connected := begins.connected
  latest := by rw [begins.history]; rfl
  start _ := begins.given
  given := by rw [begins.given]; exact List.nil_sublist _
  upTo r parked := by
    rw [show o.state.consumer = .start from begins.initial] at parked
    cases parked

/-- A change adds its address, and takes none from the call in progress. -/
theorem ordered_change {a : A} (ordered : Ordered into o)
    (stepped : observe into o (.change a) = some o') : Ordered into o' := by
  obtain ⟨t, moved, rfl⟩ := Option.map_eq_some_iff.mp stepped
  simp only [step, Option.ite_none_right_eq_some] at moved
  obtain ⟨-, moved⟩ := moved
  cases moved
  by_cases same : a = o.state.endpoint.value
  · simp only [same, if_true]
    exact ⟨ordered.connected, ordered.latest, ordered.start, ordered.given, ordered.upTo⟩
  · simp only [if_neg same]
    refine ⟨ordered.connected, List.getLast?_concat .., ordered.start, ?_, fun r parked => ?_⟩
    · rw [List.map_append]
      exact ordered.given.trans (List.sublist_append_left _ _)
    · obtain ⟨past, later, whole, before⟩ := ordered.upTo r parked
      refine ⟨past, later ++ [a], ?_, before⟩
      simp only [whole, List.append_assoc, List.cons_append]

/-- A snapshot of the current address that is given after all that were before it. -/
theorem ordered_given (ordered : Ordered into o) (event : e.returns = true)
    (stepped : observe into o e = some o') (endpoint : o'.state.endpoint = o.state.endpoint)
    (ready : o'.state.consumer = .ready)
    (snapshot : o'.state.snapshot = some (into o.state.endpoint.value))
    (after : (o.given ++ [into o.state.endpoint.value]).Sublist (o.history.map into)) :
    Ordered into o' := by
  obtain ⟨t, moved, rfl⟩ := Option.map_eq_some_iff.mp stepped
  simp only at endpoint ready snapshot
  refine ⟨?_, ?_, fun start => ?_, ?_, fun r parked => ?_⟩
  · rw [endpoint]
    exact ordered.connected
  · simp only [endpoint, if_true]
    exact ordered.latest
  · rw [ready] at start
    cases start
  · simp only [endpoint, event, if_true, snapshot]
    exact after
  · rw [ready] at parked
    cases parked

/-- The first snapshot is of an address of the history. -/
theorem first_given (ordered : Ordered into o) (start : o.state.consumer = .start) :
    (o.given ++ [into o.state.endpoint.value]).Sublist (o.history.map into) := by
  rw [ordered.start start]
  exact List.singleton_sublist.mpr (List.mem_map_of_mem (List.mem_of_getLast? ordered.latest))

/-- A call answers only with an address after its baseline. -/
theorem resolved_given {r : Watcher A} (ordered : Ordered into o)
    (parked : o.state.consumer = .parked r) (moved : o.state.endpoint.value ≠ r.baseline) :
    (o.given ++ [into o.state.endpoint.value]).Sublist (o.history.map into) := by
  obtain ⟨past, later, whole, before⟩ := ordered.upTo r parked
  have latest := ordered.latest
  obtain rfl | ⟨init, last, rfl⟩ := List.eq_nil_or_concat' later
  · -- the baseline would be the current address
    rw [whole, List.getLast?_concat] at latest
    exact absurd (Option.some.inj latest).symm moved
  · have split : o.history = (past ++ [r.baseline]) ++ init ++ [last] := by
      rw [whole]
      simp
    rw [split, List.getLast?_concat] at latest
    rw [split, ← Option.some.inj latest, List.map_append, List.map_append]
    exact (before.trans (List.sublist_append_left _ _)).append (.refl _)

theorem ordered_step (ordered : Ordered into o) (lives : Lives o e)
    (stepped : observe into o e = some o') : Ordered into o' := by
  obtain ⟨t, moved, same⟩ := Option.map_eq_some_iff.mp stepped
  cases e with
  | change a => exact ordered_change ordered stepped
  | drop => exact lives.elim
  | addr =>
      simp only [step] at moved
      split at moved
      · rename_i start
        cases moved
        subst same
        exact ordered_given ordered rfl stepped rfl rfl rfl (first_given ordered start)
      · cases moved
  | addrUpdated =>
      simp only [step] at moved
      split at moved
      · cases moved
        subst same
        refine ⟨ordered.connected, ?_, fun start => ?_, ?_, fun r parked => ?_⟩
        · simp only [if_true]
          exact ordered.latest
        · cases start
        · simpa [Event.returns] using ordered.given
        · cases parked
          obtain ⟨past, whole⟩ := List.getLast?_eq_some_iff.mp ordered.latest
          have given := ordered.given
          rw [whole] at given
          refine ⟨past, [], ?_, given⟩
          simp only [if_true]
          exact whole
      · cases moved
  | resolve =>
      simp only [step] at moved
      split at moved
      · rename_i r parked
        simp only [ordered.connected, if_true, Option.map_eq_some_iff] at moved
        obtain ⟨given, answered, rfl⟩ := moved
        subst same
        by_cases same : o.state.endpoint.value = r.baseline
        · simp [addrUpdated, Watcher.updated, ordered.connected, same] at answered
        · simp only [addrUpdated, Watcher.updated, ordered.connected, same, if_true, if_false,
            Option.some.injEq] at answered
          exact ordered_given ordered rfl stepped rfl rfl (congrArg some answered.symm)
            (resolved_given ordered parked same)
      · cases moved
  | resolveDropped last =>
      simp only [step] at moved
      split at moved
      · simp [ordered.connected] at moved
      · cases moved

/-- **Snapshots come in order, and once.** In every run of a consumer that calls `addr` and then
`addr_updated` again and again on a living endpoint, whatever the address does meanwhile, the
snapshots it was given are those of some of the addresses the endpoint has had, in that order. -/
theorem snapshots_in_order (reached : Reachable (observe into) Lives Begins o) :
    o.given.Sublist (o.history.map into) := by
  have ordered : Ordered into o := reached.keeps (fun _ => ordered_begins)
    fun _ _ _ ordered lives stepped => ordered_step ordered lives stepped
  exact ordered.given

end Machine

/-- Two changes in one call: the consumer is given the second only. -/
def overtaken : List (Event Nat) :=
  [.addr, .addrUpdated, .change 1, .change 2, .resolve, .addrUpdated, .change 0, .resolve]

theorem snapshots_in_order_overtaken : ∃ o : Observed Nat Nat,
    exec (observe id) ⟨fresh, [0], []⟩ overtaken = some o ∧ o.given = [0, 2, 0] ∧
      [0, 2, 0].Sublist (o.history.map id) := by
  have runs : ∃ o, exec (observe id) ⟨fresh, [0], []⟩ overtaken = some o ∧ o.given = [0, 2, 0] :=
    ⟨_, rfl, rfl⟩
  obtain ⟨o, done, given⟩ := runs
  have begins : Begins (⟨fresh, [0], []⟩ : Observed Nat Nat) := ⟨rfl, rfl, rfl, rfl⟩
  have lives : ∀ e ∈ overtaken, ∀ o : Observed Nat Nat, Lives o e := by simp [overtaken, Lives]
  refine ⟨o, done, given, ?_⟩
  rw [← given]
  exact snapshots_in_order ⟨_, begins, .of_stepwise done (.of_forall lives _)⟩

end IrohKmp.Runtime.Watch
