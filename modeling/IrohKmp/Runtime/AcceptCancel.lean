/-
# Runtime.AcceptCancel — `accept_conn` and `accept_next` dropped half way

A cancelled coroutine drops the future of its call, and with it what the call holds: nothing
while it waits on the queue, and past it the one attempt it took, which no other call is given.

* `Cancelling`, `cancelStep` — the endpoint and its calls, where pending calls may be dropped;
* `Fate`, `Has` — what can have become of an attempt;
* `each_attempt_one_fate` — every attempt has one fate, in every reachable state, and a final
  fate stays.
-/
import IrohKmp.Runtime.AcceptLoop

namespace IrohKmp.Runtime.Accept

open IrohKmp.Kernel
open IrohKmp.Theory
open IrohKmp.Theory.Run

set_option autoImplicit false
set_option linter.unusedSectionVars false

variable {K : Type}

/-! ## Dropped calls -/

/-- The endpoint with its calls, and which of them were dropped. -/
structure Cancelling (K : Type) where
  accept : State K
  dropped : CallId → Bool

inductive CancelEvent where
  | accept (e : Event)
  | drop (c : CallId)

/-- The call that is polled, if one is. -/
def Event.polls : Event → Option CallId
  | .poll c => some c
  | _ => none

def Call.isPending : Call → Bool
  | .conn (.pending _) | .next (.pending _) => true
  | _ => false

namespace Cancelling

/-- The attempts that were handed to calls dropped since. -/
def lost (s : Cancelling K) : List AttemptId :=
  (s.accept.endpoint.incoming.handed.filter fun entry => s.dropped entry.2).map Prod.fst

def drop (s : Cancelling K) (c : CallId) : Cancelling K :=
  { s with dropped := Function.update s.dropped c true }

/-- An open endpoint to which nobody came and on which nothing was called, or dropped. -/
structure Fresh (s : Cancelling K) : Prop where
  accept : Accept.Fresh s.accept
  none : ∀ c, s.dropped c = false

end Cancelling

section Machine

variable [Display ConnectionError] [DebugText ConnectionError] [Display SendDatagramError]

def cancelStep (drains : Bool) (texts : Texts K) (s : Cancelling K) :
    CancelEvent → Option (Cancelling K)
  | .accept e =>
      if e.polls.any s.dropped then none
      else (step drains texts s.accept e).map fun t => { s with accept := t }
  | .drop c =>
      match s.accept.calls c with
      | some call => if call.isPending && !s.dropped c then some (s.drop c) else none
      | none => none

variable {drains : Bool} {texts : Texts K} {s t : Cancelling K} {c d : CallId} {call : Call}
  {a : AttemptId}

theorem isPending_iff : call.isPending = true ↔ ¬ call.Over := by
  rcases call with (_ | _) | (_ | _) <;> simp [Call.isPending, Call.Over]

/-- A step is one of the endpoint's, which polls no dropped call, or a drop. -/
inductive CancelStepped (drains : Bool) (texts : Texts K) (s t : Cancelling K) :
    CancelEvent → Prop
  | accept {e : Event} {u : State K} (alive : ∀ c, e = .poll c → s.dropped c = false)
      (stepped : step drains texts s.accept e = some u) (same : t = { s with accept := u }) :
      CancelStepped drains texts s t (.accept e)
  | drop {c : CallId} {call : Call} (known : s.accept.calls c = some call) (going : ¬ call.Over)
      (alive : s.dropped c = false) (same : t = s.drop c) :
      CancelStepped drains texts s t (.drop c)

theorem cancelStep_cases {e : CancelEvent} (stepped : cancelStep drains texts s e = some t) :
    CancelStepped drains texts s t e := by
  cases e with
  | accept e =>
      simp only [cancelStep, Option.ite_none_left_eq_some] at stepped
      obtain ⟨alive, moved⟩ := stepped
      obtain ⟨u, stepped, same⟩ := Option.map_eq_some_iff.mp moved
      refine .accept ?_ stepped same.symm
      rintro c rfl
      simpa [Event.polls] using alive
  | drop c =>
      simp only [cancelStep] at stepped
      split at stepped
      · rename_i call known
        obtain ⟨allowed, same⟩ := Option.ite_none_right_eq_some.mp stepped
        obtain ⟨going, alive⟩ := Bool.and_eq_true_iff.mp allowed
        cases same
        exact .drop known (isPending_iff.mp going) (by simpa using alive) rfl
      · cases stepped

theorem cancelStep_accept {e : Event} {u : State K}
    (alive : ∀ c, e = .poll c → s.dropped c = false)
    (stepped : step drains texts s.accept e = some u) :
    cancelStep drains texts s (.accept e) = some { s with accept := u } := by
  have quiet : e.polls.any s.dropped = false := by
    cases e with
    | poll c => exact alive c rfl
    | _ => rfl
  simp only [cancelStep, quiet, stepped, Bool.false_eq_true, if_false, Option.map_some]

/-- Without its drops, a run is one of the endpoint and its calls. -/
theorem accept_reachable {ok : Cancelling K → CancelEvent → Prop}
    (reached : Reachable (cancelStep drains texts) ok Cancelling.Fresh s) :
    Reachable (step drains texts) Any Fresh s.accept := by
  refine reached.keeps (I := fun s => Reachable (step drains texts) Any Fresh s.accept)
    (fun s fresh => .start fresh.accept) fun s e t before _ stepped => ?_
  cases cancelStep_cases stepped with
  | accept _ moved same =>
      subst same
      exact before.next trivial moved
  | drop _ _ _ same =>
      subst same
      exact before

/-! ## What stays -/

/-- A step leaves every call as it was that it neither starts nor polls. -/
theorem call_kept {s t : State K} {e : Event} (known : s.calls c = some call)
    (stepped : step drains texts s e = some t) (other : e ≠ .poll c) :
    t.calls c = some call := by
  cases step_cases stepped with
  | endpoint _ _ same =>
      subst same
      exact known
  | call new same =>
      subst same
      refine recorded_iff.mpr (.inr ⟨?_, known⟩)
      rintro rfl
      rw [new] at known
      cases known
  | poll _ _ same =>
      subst same
      refine recorded_iff.mpr (.inr ⟨?_, known⟩)
      rintro rfl
      exact other rfl

/-- A call that returned stays so. -/
theorem over_kept {s t : State K} {e : Event} (known : s.calls c = some call)
    (ended : call.Over) (stepped : step drains texts s e = some t) : t.calls c = some call := by
  refine call_kept known stepped ?_
  rintro rfl
  cases step_cases stepped with
  | poll known' polled _ =>
      rw [known] at known'
      cases known'
      exact not_over_of_poll polled ended
  | endpoint _ closed _ =>
      simp only [step, known] at stepped
      obtain ⟨r, polled, -⟩ := Option.map_eq_some_iff.mp stepped
      exact not_over_of_poll polled ended

/-- What was handed out stays handed out. -/
theorem handed_kept {s t : State K} {e : Event} (stepped : step drains texts s e = some t)
    (entry : (a, c) ∈ s.endpoint.incoming.handed) : (a, c) ∈ t.endpoint.incoming.handed := by
  cases step_cases stepped with
  | call _ same =>
      subst same
      exact entry
  | endpoint kept _ same =>
      subst same
      exact kept.handed ▸ entry
  | poll _ polled same =>
      subst same
      cases poll_cases polled with
      | closed _ _ same _ => exact same ▸ entry
      | handed _ _ hand same _ =>
          obtain ⟨rest, -, -, grown⟩ := Dispenser.hand_eq_some.mp hand
          subst same
          simp only [State.record, grown]
          exact List.mem_append_left _ entry
      | onward _ took _ => exact took.incoming ▸ entry

/-- A dropped call was pending, and so remains. -/
def Suspended (s : Cancelling K) : Prop :=
  ∀ c, s.dropped c = true → ∃ call, s.accept.calls c = some call ∧ ¬ call.Over

theorem dropped_iff : (s.drop c).dropped d = true ↔ d = c ∨ s.dropped d = true := by
  by_cases self : d = c
  · subst self
    simp [Cancelling.drop]
  · simp [Cancelling.drop, self]

theorem suspended_step {e : CancelEvent} (suspended : Suspended s)
    (stepped : cancelStep drains texts s e = some t) : Suspended t := by
  intro d dropped
  cases cancelStep_cases stepped with
  | accept alive moved same =>
      subst same
      obtain ⟨call, known, going⟩ := suspended d dropped
      refine ⟨call, call_kept known moved fun polled => ?_, going⟩
      rw [alive d polled] at dropped
      cases dropped
  | drop known going _ same =>
      subst same
      obtain rfl | before := dropped_iff.mp dropped
      · exact ⟨_, known, going⟩
      · exact suspended d before

theorem suspended_reachable {ok : Cancelling K → CancelEvent → Prop}
    (reached : Reachable (cancelStep drains texts) ok Cancelling.Fresh s) : Suspended s := by
  refine reached.keeps (fun s fresh c dropped => ?_) fun _ _ _ suspended _ stepped =>
    suspended_step suspended stepped
  rw [fresh.none c] at dropped
  cases dropped

/-! ## What becomes of an attempt -/

/-- What can have become of an attempt that came. -/
inductive Fate where
  | queued
  /-- A call in progress has it, -/
  | held (c : CallId)
  /-- returned it, -/
  | delivered (c : CallId)
  /-- returned its error, -/
  | failed (c : CallId)
  /-- or was dropped with it. -/
  | lost (c : CallId)

/-- Nothing more happens to the attempt. -/
def Fate.Final : Fate → Prop
  | .queued | .held _ => False
  | _ => True

/-- The call stands so. -/
def State.Stands (s : State K) (c : CallId) (standing : Standing) : Prop :=
  ∃ call, s.calls c = some call ∧ call.standing = standing

def Cancelling.Has (s : Cancelling K) (a : AttemptId) : Fate → Prop
  | .queued => a ∈ s.accept.endpoint.incoming.queue
  | .held c => s.dropped c = false ∧ s.accept.Stands c (.working a)
  | .delivered c => s.accept.Stands c (.delivered a)
  | .failed c => (a, c) ∈ s.accept.endpoint.incoming.handed ∧ s.accept.Stands c .failed
  | .lost c => s.dropped c = true ∧ (a, c) ∈ s.accept.endpoint.incoming.handed

def Fate.taker : Fate → Option CallId
  | .queued => none
  | .held c | .delivered c | .failed c | .lost c => some c

/-- Every fate but the queue's is of the call that was handed the attempt. -/
theorem handed_of_has (ledger : Ledger s.accept) {f : Fate} (has : s.Has a f)
    (taker : f.taker = some c) : (a, c) ∈ s.accept.endpoint.incoming.handed := by
  cases f with
  | queued => cases taker
  | held d =>
      cases taker
      obtain ⟨-, call, known, standing⟩ := has
      exact ledger.own _ call a known (.inl standing)
  | delivered d =>
      cases taker
      obtain ⟨call, known, standing⟩ := has
      exact ledger.own _ call a known (.inr standing)
  | failed d =>
      cases taker
      exact has.1
  | lost d =>
      cases taker
      exact has.2

theorem over_of_standing (ended : call.standing = .failed ∨ call.standing = .delivered a) :
    call.Over := by
  rcases call with (phase | out) | (phase | out)
  · cases phase <;> simp [Call.standing, ConnPhase.standing] at ended
  · trivial
  · rcases phase with (_ | _) | _ <;> simp [Call.standing, ConnPhase.standing] at ended
  · trivial

/-- A fate of a call is told by how the call stands, and whether it was dropped. -/
theorem fate_cases (suspended : Suspended s) (known : s.accept.calls c = some call) {f : Fate}
    (has : s.Has a f) (taker : f.taker = some c) :
    (s.dropped c = true ∧ f = .lost c) ∨
      (s.dropped c = false ∧ ((call.standing = .working a ∧ f = .held c) ∨
        (call.standing = .failed ∧ f = .failed c) ∨
        (call.standing = .delivered a ∧ f = .delivered c))) := by
  have stands : ∀ {standing}, s.accept.Stands c standing → call.standing = standing := by
    rintro _ ⟨call', known', rfl⟩
    cases known.symm.trans known'
    rfl
  have alive : call.Over → s.dropped c = false := by
    intro ended
    by_contra dropped
    obtain ⟨call', known', going⟩ := suspended c (by simpa using dropped)
    cases known.symm.trans known'
    exact going ended
  cases f with
  | queued => cases taker
  | held d =>
      cases taker
      exact .inr ⟨has.1, .inl ⟨stands has.2, rfl⟩⟩
  | delivered d =>
      cases taker
      have standing := stands has
      exact .inr ⟨alive (over_of_standing (.inr standing)), .inr (.inr ⟨standing, rfl⟩)⟩
  | failed d =>
      cases taker
      have standing := stands has.2
      exact .inr ⟨alive (over_of_standing (a := a) (.inl standing)), .inr (.inl ⟨standing, rfl⟩)⟩
  | lost d =>
      cases taker
      exact .inl ⟨has.1, rfl⟩

/-- Two fates of one attempt, of one call, are the same. -/
theorem fate_unique (suspended : Suspended s) (known : s.accept.calls c = some call) {f g : Fate}
    (has : s.Has a f) (has' : s.Has a g) (taker : f.taker = some c) (taker' : g.taker = some c) :
    f = g := by
  obtain ⟨dropped, rfl⟩ | ⟨alive, own⟩ := fate_cases suspended known has taker
  · obtain ⟨-, rfl⟩ | ⟨alive, -⟩ := fate_cases suspended known has' taker'
    · rfl
    · cases dropped.symm.trans alive
  · obtain ⟨dropped, -⟩ | ⟨-, own'⟩ := fate_cases suspended known has' taker'
    · cases alive.symm.trans dropped
    · obtain ⟨st, rfl⟩ | ⟨st, rfl⟩ | ⟨st, rfl⟩ := own <;>
        obtain ⟨st', rfl⟩ | ⟨st', rfl⟩ | ⟨st', rfl⟩ := own' <;>
        first | rfl | cases st.symm.trans st'

/-- What was handed to a call has a fate of that call. -/
theorem fate_of_handed (ledger : Ledger s.accept)
    (entry : (a, c) ∈ s.accept.endpoint.incoming.handed) :
    ∃ f, s.Has a f ∧ f.taker = some c := by
  obtain ⟨call, known⟩ := ledger.known a c entry
  have own : ∀ b, (b, c) ∈ s.accept.endpoint.incoming.handed → b = a := fun b entry' =>
    congrArg Prod.fst (List.inj_on_of_nodup_map ledger.once entry' entry rfl)
  cases dropped : s.dropped c with
  | true => exact ⟨.lost c, ⟨dropped, entry⟩, rfl⟩
  | false =>
      cases standing : call.standing with
      | queued => exact absurd entry (ledger.without c call known (.inl standing) a)
      | out => exact absurd entry (ledger.without c call known (.inr standing) a)
      | failed => exact ⟨.failed c, ⟨entry, call, known, standing⟩, rfl⟩
      | working b =>
          obtain rfl := own b (ledger.own c call b known (.inl standing))
          exact ⟨.held c, ⟨dropped, call, known, standing⟩, rfl⟩
      | delivered b =>
          obtain rfl := own b (ledger.own c call b known (.inr standing))
          exact ⟨.delivered c, ⟨call, known, standing⟩, rfl⟩

theorem one_fate (ledger : Ledger s.accept) (suspended : Suspended s)
    (came : a ∈ s.accept.endpoint.incoming.arrived) : ∃ f, s.Has a f ∧ ∀ g, s.Has a g → g = f := by
  obtain queued | ⟨c, entry⟩ := Dispenser.mem_arrived.mp came
  · refine ⟨.queued, queued, fun g has => ?_⟩
    cases taker : g.taker with
    | none => cases g <;> first | rfl | cases taker
    | some d => exact absurd queued (Dispenser.not_mem_queue (handed_of_has ledger has taker))
  · obtain ⟨f, has, taker⟩ := fate_of_handed ledger entry
    refine ⟨f, has, fun g has' => ?_⟩
    cases taker' : g.taker with
    | none =>
        cases g with
        | queued => exact absurd has' (Dispenser.not_mem_queue entry)
        | _ => cases taker'
    | some d =>
        obtain rfl := Dispenser.taker_unique entry (handed_of_has ledger has' taker')
        obtain ⟨call, known⟩ := ledger.known a c entry
        exact fate_unique suspended known has' has taker' taker

theorem stands_kept {s t : State K} {e : Event} {standing : Standing} (stands : s.Stands c standing)
    (ended : standing = .failed ∨ standing = .delivered a)
    (stepped : step drains texts s e = some t) : t.Stands c standing := by
  obtain ⟨call, known, rfl⟩ := stands
  exact ⟨call, over_kept known (over_of_standing ended) stepped, rfl⟩

/-- What is done with an attempt stays done. -/
theorem final_step {e : CancelEvent} {f : Fate} (final : f.Final) (has : s.Has a f)
    (stepped : cancelStep drains texts s e = some t) : t.Has a f := by
  cases cancelStep_cases stepped with
  | drop _ _ _ same =>
      subst same
      cases f with
      | queued | held _ => exact final.elim
      | delivered c | failed c => exact has
      | lost c => exact ⟨dropped_iff.mpr (.inr has.1), has.2⟩
  | accept _ moved same =>
      subst same
      cases f with
      | queued | held _ => exact final.elim
      | delivered c => exact stands_kept has (.inr rfl) moved
      | failed c => exact ⟨handed_kept moved has.1, stands_kept (a := a) has.2 (.inl rfl) moved⟩
      | lost c => exact ⟨has.1, handed_kept moved has.2⟩

/-- **Each attempt has one fate.** In every reachable state of any calls, drops, attempts, failures
and a close, the endpoint and the calls stand as some run without drops leaves them; every attempt
that came is in the queue, or with the one call that took it: in progress, delivered, failed, or
lost with the call when it was dropped. The last three are final. -/
theorem each_attempt_one_fate
    (reached : Reachable (cancelStep drains texts) Any Cancelling.Fresh s) :
    Reachable (step drains texts) Any Fresh s.accept ∧
      (∀ a ∈ s.accept.endpoint.incoming.arrived, ∃ f, s.Has a f ∧ ∀ g, s.Has a g → g = f) ∧
      ∀ t a f, Via (cancelStep drains texts) Any s t → s.Has a f → f.Final → t.Has a f := by
  have base := accept_reachable reached
  refine ⟨base, fun a came => ?_, fun t a f later has final => ?_⟩
  · exact one_fate (ledger_reachable base) (suspended_reachable reached) came
  · exact later.keeps (I := fun t => t.Has a f) has fun _ _ _ has _ stepped =>
      final_step final has stepped

end Machine

/-! ## A call dropped in its handshake -/

section Example

open IrohKmp.Runtime.Accept.Sample

def nobodyCalled : Cancelling Nat := ⟨start, fun _ => false⟩

/-- Call `0` takes peer `7` and is dropped; call `1` is given the next. -/
def droppedHandshake : List CancelEvent :=
  [.accept (.arrive 7), .accept (.arrive 8), .accept (.call 0 .acceptNext),
    .accept (.call 1 .acceptConn), .accept (.poll 0), .drop 0, .accept (.poll 1)]

theorem each_attempt_one_fate_dropped : ∃ s,
    exec (cancelStep false decimal) nobodyCalled droppedHandshake = some s ∧ s.lost = [7] ∧
      ∀ t, Via (cancelStep false decimal) Any s t → t.Has 7 (.lost 0) := by
  have runs : ∃ s, exec (cancelStep false decimal) nobodyCalled droppedHandshake = some s ∧
      s.lost = [7] ∧ s.Has 7 (.lost 0) := ⟨_, rfl, rfl, rfl, by decide⟩
  obtain ⟨s, done, lost, has⟩ := runs
  have reached : Reachable (cancelStep false decimal) Any Cancelling.Fresh s :=
    .of_exec droppedHandshake ⟨start_fresh, fun _ => rfl⟩ done
  exact ⟨s, done, lost, fun t later => (each_attempt_one_fate reached).2.2 t 7 _ later has trivial⟩

end Example

end IrohKmp.Runtime.Accept
