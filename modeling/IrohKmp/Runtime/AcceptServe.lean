/-
# Runtime.AcceptServe — what it costs to serve an attempt

A pool of consumers serves an attempt while some consumer is left after the silent peers in front
of it. Every one too many costs a dropped call, and the attempt that call holds.

* `cost_step` — what the consumers cannot do better;
* `frees`, `reaches` — a consumer that is left comes to the queue, and works through it;
* `served_iff` — how many attempts must be lost before a given one is served.
-/
import IrohKmp.Runtime.AcceptPool

namespace IrohKmp.Runtime.Accept

open IrohKmp.Kernel
open IrohKmp.Theory
open IrohKmp.Theory.Run

set_option autoImplicit false
set_option linter.unusedSectionVars false

variable {K W : Type}

section Serving

variable [Display ConnectionError] [DebugText ConnectionError] [Display SendDatagramError]
variable {drains : Bool} {texts : Texts K} {s t : Cancelling K} {ep ep' : Endpoint K}
  {c d : CallId} {a b : AttemptId} {phase : NextPhase} {who : CallId → W}

/-! ## Consumers that are left -/

theorem busy_of_blocked (stuck : c ∈ s.blocked) : s.Busy c := by
  obtain ⟨alive, phase, known, -⟩ := stuck
  exact ⟨alive, _, known, id⟩

theorem blocked_injOn (pooled : Pooled who s) : s.blocked.InjOn who :=
  fun c stuck d stuck' same => pooled.lone c d same (busy_of_blocked stuck) (busy_of_blocked stuck')

section Counting

variable [Finite W]

theorem blocked_le (pooled : Pooled who s) : s.blocked.ncard ≤ Nat.card W := by
  rw [← (blocked_injOn pooled).ncard_image]
  exact Set.ncard_le_card _

/-- A call in progress that is not stuck leaves a consumer. -/
theorem blocked_lt (pooled : Pooled who s) (busy : s.Busy c) (free : c ∉ s.blocked) :
    s.blocked.ncard < Nat.card W := by
  rw [← (blocked_injOn pooled).ncard_image]
  refine Set.ncard_lt_card fun all => ?_
  obtain ⟨d, stuck, same⟩ : who c ∈ who '' s.blocked := all ▸ Set.mem_univ _
  exact free (pooled.lone d c same (busy_of_blocked stuck) busy ▸ stuck)

theorem exists_free (pooled : Pooled who s) (left : s.blocked.ncard < Nat.card W) :
    ∃ w, ∀ c, who c = w → c ∉ s.blocked := by
  by_contra! none
  have all : who '' s.blocked = Set.univ := by
    refine Set.eq_univ_of_forall fun w => ?_
    obtain ⟨c, own, stuck⟩ := none w
    exact ⟨c, stuck, own⟩
  rw [← (blocked_injOn pooled).ncard_image, all, Set.ncard_univ] at left
  omega

/-! ## What serving costs -/

/-- Everything the consumers do by themselves keeps `blockers` and what is lost together at least
as large, while the attempt waits; and it is taken only by a consumer that is left. -/
theorem cost_step {e : CancelEvent} {cost : Nat} (pooled : Pooled who s)
    (own : PoolLocal who s e) (stepped : cancelStep drains texts s e = some t)
    (bound : (a ∈ s.accept.endpoint.incoming.queue ∧ cost ≤ s.blockers a + s.lost.length) ∨
      cost < Nat.card W + s.lost.length) :
    (a ∈ t.accept.endpoint.incoming.queue ∧ cost ≤ t.blockers a + t.lost.length) ∨
      cost < Nat.card W + t.lost.length := by
  rcases e with e | c
  · cases e with
    | call c kind =>
        obtain ⟨same, lost, endpoint⟩ := call_blockers (a := a) stepped
        rwa [same, lost, endpoint]
    | poll c =>
        by_cases still : a ∈ t.accept.endpoint.incoming.queue
        · rw [poll_blockers pooled stepped still, poll_lost pooled stepped]
          exact bound.imp_left fun before => ⟨still, before.2⟩
        · rw [poll_lost pooled stepped]
          obtain ⟨queued, enough⟩ | enough := bound
          · obtain ⟨first, busy, free⟩ := poll_takes pooled stepped queued still
            have left := blocked_lt pooled busy free
            omega
          · exact .inr enough
    | _ => exact absurd own id
  · cases cancelStep_cases stepped with
    | drop _ _ alive same =>
        subst same
        obtain ⟨cost', lost⟩ := drop_blockers (a := a) pooled alive
        refine bound.imp (fun before => ⟨before.1, ?_⟩) fun before => ?_
        · have := before.2
          omega
        · omega

end Counting

/-! ## A consumer comes to the queue -/

/-- The call is next to be handed an attempt. -/
structure Cancelling.Waits (s : Cancelling K) (c : CallId) : Prop where
  alive : s.dropped c = false
  known : s.accept.calls c = some (.next (.pending (.inConn .queued)))

theorem polls {poll : Poll NextPhase IncomingConn} (alive : s.dropped c = false)
    (known : s.accept.calls c = some (.next (.pending phase)))
    (polled : acceptNext drains texts s.accept.endpoint c phase = some (ep', poll)) :
    cancelStep drains texts s (.accept (.poll c)) = some (s.polled c ep' poll) :=
  cancelStep_accept (fun d same => by cases same; exact alive) (step_poll known polled)

theorem local_of_unaided {e : CancelEvent} (own : Unaided who s e) : PoolLocal who s e := by
  rcases e with e | c
  · cases e with
    | call c kind => exact own
    | poll c => trivial
    | _ => exact absurd own id
  · exact absurd own id

/-- What calls and polls leave of an attempt that stays in the queue. -/
structure Steady (a : AttemptId) (s t : Cancelling K) : Prop where
  queued : a ∈ s.accept.endpoint.incoming.queue
  blockers : t.blockers a = s.blockers a
  lost : t.lost = s.lost
  attempt : t.accept.endpoint.attempts a = s.accept.endpoint.attempts a

theorem steady_step {e : CancelEvent} (pooled : Pooled who s) (own : Unaided who s e)
    (stepped : cancelStep drains texts s e = some t)
    (queued : a ∈ t.accept.endpoint.incoming.queue) : Steady a s t := by
  rcases e with e | c
  · cases e with
    | call c kind =>
        obtain ⟨same, lost, endpoint⟩ := call_blockers (a := a) stepped
        rw [endpoint] at queued
        exact ⟨queued, same, lost, by rw [endpoint]⟩
    | poll c =>
        have same := poll_blockers pooled stepped queued
        have lost := poll_lost pooled stepped
        obtain ⟨phase, ep', poll, alive, known, advanced, rfl⟩ := poll_advanced pooled stepped
        cases advanced with
        | taken _ hand moved _ =>
            obtain ⟨rest, line, line', -⟩ := Dispenser.hand_eq_some.mp hand
            refine ⟨?_, same, lost, by subst moved; rfl⟩
            subst moved
            rw [line]
            exact List.mem_cons_of_mem _ (line' ▸ queued)
        | onward _ _ moved _ _ => exact ⟨moved ▸ queued, same, lost, by subst moved; rfl⟩
        | @ended b out held _ incoming others _ =>
            have still : a ∈ s.accept.endpoint.incoming.queue := incoming ▸ queued
            refine ⟨still, same, lost, others a ?_⟩
            rintro rfl
            exact Dispenser.not_mem_queue (pooled.ledger.own c _ _ known (.inl held)) still
    | _ => exact absurd own id
  · exact absurd own id

theorem steady_via (pooled : Pooled who s) (run : Via (cancelStep drains texts) (Unaided who) s t)
    (queued : a ∈ t.accept.endpoint.incoming.queue) : Steady a s t := by
  induction run with
  | refl => exact ⟨queued, rfl, rfl, rfl⟩
  | next prior own stepped ih =>
      have before : Pooled who _ := prior.keeps pooled fun _ _ _ pooled own stepped =>
        pooled_step pooled (pool_of_local (local_of_unaided own)) stepped
      have last := steady_step before own stepped queued
      have first := ih last.queued
      exact ⟨first.queued, last.blockers.trans first.blockers, last.lost.trans first.lost,
        last.attempt.trans first.attempt⟩

/-- A call that is not stuck returns by its own polls, and nothing else changes for the rest. -/
structure Released (s t : Cancelling K) (c : CallId) : Prop where
  dropped : t.dropped = s.dropped
  incoming : t.accept.endpoint.incoming = s.accept.endpoint.incoming
  others : ∀ d, d ≠ c → t.accept.calls d = s.accept.calls d
  ended : ∃ out, t.accept.calls c = some (.next (.ready out))

theorem released_of_ready (pooled : Pooled who s) (alive : s.dropped c = false)
    (known : s.accept.calls c = some (.next (.pending phase)))
    (held : (Call.next (.pending phase)).standing = .working a)
    (polled : ∃ ep' out, acceptNext drains texts s.accept.endpoint c phase =
      some (ep', .ready out)) :
    ∃ t, Via (cancelStep drains texts) (Unaided who) s t ∧ Released s t c := by
  obtain ⟨ep', out, polled⟩ := polled
  refine ⟨_, .single (e := .accept (.poll c)) trivial (polls alive known polled), rfl, ?_,
    fun d other => by simp [Cancelling.polled, State.record, other],
    out, by simp [Cancelling.polled, State.record]⟩
  cases acceptNext_advanced pooled.running polled with
  | taken waited _ _ _ =>
      subst waited
      cases held
  | onward _ _ _ _ still => cases still
  | ended _ _ incoming _ _ => exact incoming

variable (drains texts) in
theorem releases_acceptingBi {conn : IrohConnection} {remoteId alpn : String}
    (pooled : Pooled who s) (alive : s.dropped c = false)
    (known : s.accept.calls c = some (.next (.pending (.acceptingBi conn remoteId alpn))))
    (answerable : Answerable s.accept.endpoint (.acceptingBi conn remoteId alpn)) :
    ∃ t, Via (cancelStep drains texts) (Unaided who) s t ∧ Released s t c := by
  refine released_of_ready pooled alive known rfl ?_
  by_cases opened : (s.accept.endpoint.attempts conn.inner).accepted <
      (s.accept.endpoint.attempts conn.inner).opened
  · simp [acceptNext, acceptBi, Attempt.acceptBi, opened]
  · obtain ⟨f, failed⟩ := Option.isSome_iff_exists.mp (answerable.resolve_right opened)
    simp [acceptNext, acceptBi, Attempt.acceptBi, opened, failed]

variable (drains texts) in
/-- With the handshake complete, a poll goes on to the first stream. -/
theorem connected (alive : s.dropped c = false)
    (known : s.accept.calls c = some (.next (.pending (.inConn (.handshaking a)))))
    (established : (s.accept.endpoint.attempts a).established = true) :
    ∃ remoteId alpn, cancelStep drains texts s (.accept (.poll c)) =
      some (s.polled c s.accept.endpoint (.pending (.acceptingBi ⟨a⟩ remoteId alpn))) := by
  have polled : acceptNext drains texts s.accept.endpoint c (.inConn (.handshaking a)) =
      some (s.accept.endpoint, .pending (.acceptingBi ⟨a⟩
        (IrohConnection.remoteId texts s.accept.endpoint ⟨a⟩)
        (IrohConnection.alpn texts s.accept.endpoint ⟨a⟩))) := by
    simp only [acceptNext, acceptConn, Attempt.connecting, established, if_true, Option.map_some]
  exact ⟨_, _, polls alive known polled⟩

theorem polled_self {poll : Poll NextPhase IncomingConn} :
    (s.polled c ep' poll).accept.calls c = some (.next poll) := by
  simp [Cancelling.polled, State.record]

variable (drains texts) in
theorem releases (pooled : Pooled who s) (alive : s.dropped c = false)
    (known : s.accept.calls c = some (.next (.pending phase)))
    (held : (Call.next (.pending phase)).standing = .working a)
    (free : ¬ phase.Stuck s.accept.endpoint) :
    ∃ t, Via (cancelStep drains texts) (Unaided who) s t ∧ Released s t c := by
  rcases phase with (_ | b) | ⟨conn, remoteId, alpn⟩
  · cases held
  · have settled : (s.accept.endpoint.attempts b).Settled := not_not.mp free
    by_cases established : (s.accept.endpoint.attempts b).established = true
    · obtain ⟨remoteId, alpn, first⟩ :=
        connected drains texts alive known established
      have next := pooled_step pooled (e := .accept (.poll c)) trivial first
      obtain ⟨t, rest, released⟩ := releases_acceptingBi drains texts next
        alive polled_self (settled.imp_right And.right)
      refine ⟨t, .head (e := .accept (.poll c)) trivial first rest, released.dropped,
        released.incoming, fun d other => ?_, released.ended⟩
      rw [released.others d other]
      simp [Cancelling.polled, State.record, other]
    · obtain ⟨f, failed⟩ := Option.isSome_iff_exists.mp
        (settled.resolve_right fun done => established done.1)
      refine released_of_ready pooled alive known rfl ?_
      simp [acceptNext, acceptConn, Attempt.connecting, established, failed]
  · exact releases_acceptingBi drains texts pooled alive known (not_not.mp free)

variable (drains texts) in
/-- A consumer with no call in progress makes a new one. -/
theorem calls_again (pooled : Pooled who s) (suspended : Suspended s) {w : W}
    (again : {c | who c = w}.Infinite) (idle : ∀ d, who d = w → ¬ s.Busy d) :
    ∃ t c, Via (cancelStep drains texts) (Unaided who) s t ∧
      t.accept.endpoint.incoming = s.accept.endpoint.incoming ∧ t.Waits c := by
  obtain ⟨c, own, new⟩ := (again.sdiff pooled.finite).nonempty
  have new : s.accept.calls c = none := not_not.mp new
  have stepped : step drains texts s.accept (.call c .acceptNext) =
      some (s.accept.record c (.start .acceptNext)) := by
    simp only [step, new]
  have allowed : Unaided who s (.accept (.call c .acceptNext)) :=
    ⟨rfl, fun d same => idle d (same.trans own)⟩
  refine ⟨_, c, .single allowed (cancelStep_accept (fun d same => by cases same) stepped), rfl, ?_⟩
  refine ⟨?_, by simp [State.record, Call.start]⟩
  by_contra dropped
  obtain ⟨call, known, -⟩ := suspended c (by simpa using dropped)
  cases new.symm.trans known

variable (drains texts) in
/-- A consumer that is not stuck comes to the queue. -/
theorem frees [Finite W] (pooled : Pooled who s) (suspended : Suspended s)
    (again : ∀ w, {c | who c = w}.Infinite) (left : s.blocked.ncard < Nat.card W) :
    ∃ t c, Via (cancelStep drains texts) (Unaided who) s t ∧
      t.accept.endpoint.incoming = s.accept.endpoint.incoming ∧ t.Waits c := by
  obtain ⟨w, unblocked⟩ := exists_free pooled left
  by_cases idle : ∀ d, who d = w → ¬ s.Busy d
  · exact calls_again drains texts pooled suspended (again w) idle
  · push Not at idle
    obtain ⟨c, rfl, alive, call, known, going⟩ := idle
    obtain ⟨phase | out, rfl⟩ := pooled.loops c call known
    · have free : ¬ phase.Stuck s.accept.endpoint := fun stuck =>
        unblocked c rfl ⟨alive, phase, known, stuck⟩
      have holding : phase = .inConn .queued ∨
          ∃ a, (Call.next (.pending phase)).standing = .working a := by
        rcases phase with (_ | a) | ⟨conn, remoteId, alpn⟩
        · exact .inl rfl
        · exact .inr ⟨a, rfl⟩
        · exact .inr ⟨conn.inner, rfl⟩
      obtain rfl | ⟨a, held⟩ := holding
      · exact ⟨s, c, .refl, rfl, alive, known⟩
      · obtain ⟨t, run, released⟩ := releases drains texts pooled alive known
          held free
        have later : Pooled who t := run.keeps pooled fun _ _ _ pooled own stepped =>
          pooled_step pooled (pool_of_local (local_of_unaided own)) stepped
        have still : Suspended t := run.keeps suspended fun _ _ _ suspended _ stepped =>
          suspended_step suspended stepped
        -- the call returned, and no other of its consumer was in progress
        obtain ⟨u, d, more, same, waits⟩ := calls_again drains texts later still
          (again (who c)) fun d own busy => by
            obtain ⟨alive', call, known', going'⟩ := busy
            by_cases self : d = c
            · subst self
              obtain ⟨out, ended⟩ := released.ended
              cases ended.symm.trans known'
              exact going' trivial
            · rw [released.others d self] at known'
              rw [released.dropped] at alive'
              exact self (pooled.lone d c own ⟨alive', call, known', going'⟩
                ⟨alive, _, known, going⟩)
        exact ⟨u, d, run.trans more, same.trans released.incoming, waits⟩
    · exact absurd trivial going

/-! ## Working through the queue -/

variable (drains texts) in
theorem waits_polls (pooled : Pooled who s) (waits : s.Waits c)
    (queued : s.accept.endpoint.incoming.queue ≠ []) :
    ∃ t, cancelStep drains texts s (.accept (.poll c)) = some t := by
  obtain ⟨⟨b, incoming⟩, hand⟩ := Option.isSome_iff_exists.mp
    ((Dispenser.hand_isSome_iff (c := c)).mpr queued)
  have accepted : s.accept.endpoint.accept drains c =
      some ({ s.accept.endpoint with incoming := incoming }, some b) := by
    simp [Endpoint.accept, pooled.running, hand]
  have polled : ∃ ep' poll, acceptNext drains texts s.accept.endpoint c (.inConn .queued) =
      some (ep', poll) := by
    cases refusal : (s.accept.endpoint.attempts b).refusal <;>
      simp [acceptNext, acceptConn, accepted, refusal]
  obtain ⟨ep', poll, polled⟩ := polled
  exact ⟨_, polls waits.alive waits.known polled⟩

/-- A ready attempt is delivered to the call that took it. -/
theorem delivers (alive : s.dropped c = false)
    (known : s.accept.calls c = some (.next (.pending (.inConn (.handshaking a)))))
    (ready : (s.accept.endpoint.attempts a).Ready) :
    ∃ t, Via (cancelStep drains texts) (Unaided who) s t ∧ t.Has a (.delivered c) := by
  obtain ⟨remoteId, alpn, first⟩ := connected drains texts alive known ready.established
  have polled : ∃ ep' out, acceptNext drains texts s.accept.endpoint c
      (.acceptingBi ⟨a⟩ remoteId alpn) = some (ep', .ready ⟨.ok (some out), false⟩) ∧
        out.stream.conn = a := by
    simp [acceptNext, acceptBi, Attempt.acceptBi, ready.opened]
  obtain ⟨ep', out, polled, rfl⟩ := polled
  have second := polls (s := s.polled c s.accept.endpoint (.pending (.acceptingBi ⟨out.stream.conn⟩
    remoteId alpn))) alive polled_self polled
  refine ⟨_, .head (e := .accept (.poll c)) trivial first
    (.single (e := .accept (.poll c)) trivial second), ?_⟩
  exact ⟨_, polled_self, rfl⟩

theorem kept_via (pooled : Pooled who s) (suspended : Suspended s)
    (run : Via (cancelStep drains texts) (PoolLocal who) s t) : Pooled who t ∧ Suspended t :=
  run.keeps (I := fun t => Pooled who t ∧ Suspended t) ⟨pooled, suspended⟩
    fun _ _ _ kept own stepped =>
      ⟨pooled_step kept.1 (pool_of_local own) stepped, suspended_step kept.2 stepped⟩

theorem lost_via (pooled : Pooled who s)
    (run : Via (cancelStep drains texts) (Unaided who) s t) : t.lost = s.lost := by
  refine (run.keeps (I := fun t => Pooled who t ∧ t.lost = s.lost) ⟨pooled, rfl⟩ ?_).2
  intro u e v kept own stepped
  refine ⟨pooled_step kept.1 (pool_of_local (local_of_unaided own)) stepped, ?_⟩
  rw [← kept.2]
  rcases e with e | c
  · cases e with
    | call c kind => exact (call_blockers (a := 0) stepped).2.1
    | poll c => exact poll_lost kept.1 stepped
    | _ => exact absurd own id
  · exact absurd own id

/-- With every consumer stuck, one of the calls is dropped. -/
theorem makes_room [Finite W] [Nonempty W] {most : Nat} (pooled : Pooled who s)
    (bound : s.blockers a + s.lost.length < Nat.card W + most) (enough : s.lost.length ≤ most) :
    ∃ t, Via (cancelStep drains texts) (PoolLocal who) s t ∧ t.accept = s.accept ∧
      t.blocked.ncard < Nat.card W ∧ t.blockers a + t.lost.length < Nat.card W + most ∧
      t.lost.length ≤ most := by
  by_cases left : s.blocked.ncard < Nat.card W
  · exact ⟨s, .refl, rfl, left, bound, enough⟩
  · have all : s.blocked.ncard = Nat.card W := Nat.le_antisymm (blocked_le pooled) (not_lt.mp left)
    have consumers : 0 < Nat.card W := Nat.card_pos
    obtain ⟨c, stuck⟩ : s.blocked.Nonempty := by
      rw [← Set.ncard_pos (blocked_finite pooled)]
      omega
    have ⟨alive, phase, known, _⟩ := stuck
    have stepped : cancelStep drains texts s (.drop c) = some (s.drop c) := by
      simp [cancelStep, known, Call.isPending, alive]
    obtain ⟨lost, fewer⟩ := drop_stuck (a := a) pooled stuck
    have less := Set.ncard_sdiff_singleton_lt_of_mem stuck (blocked_finite pooled)
    have counted : s.blocked.ncard ≤ s.blockers a := Nat.le_add_right _ _
    refine ⟨_, .single (e := .drop c) trivial stepped, rfl, ?_, ?_, ?_⟩
    · rw [blocked_drop]
      omega
    · omega
    · omega

/-- A consumer at the queue takes its first attempt. -/
theorem takes_first (pooled : Pooled who s) (waits : s.Waits c)
    (stepped : cancelStep drains texts s (.accept (.poll c)) = some t) :
    ∃ b, s.accept.endpoint.incoming.queue = b :: t.accept.endpoint.incoming.queue ∧
      t.accept.endpoint.attempts = s.accept.endpoint.attempts ∧ t.dropped c = false ∧
      ((s.accept.endpoint.attempts b).refusal = none →
        t.accept.calls c = some (.next (.pending (.inConn (.handshaking b))))) := by
  obtain ⟨phase, ep', poll, alive, known, advanced, rfl⟩ := poll_advanced pooled stepped
  cases waits.known.symm.trans known
  cases advanced with
  | @taken b incoming _ hand same got =>
      obtain ⟨rest, line, line', -⟩ := Dispenser.hand_eq_some.mp hand
      subst same
      refine ⟨b, line.trans (congrArg _ line'.symm), rfl, alive, fun allowed => ?_⟩
      obtain ⟨-, rfl⟩ | ⟨turned, -⟩ := got
      · exact polled_self
      · exact absurd allowed turned
  | onward held _ _ _ _ => cases held
  | ended held _ _ _ _ => cases held

theorem reaches [Finite W] [Nonempty W] {most : Nat} (again : ∀ w, {c | who c = w}.Infinite)
    (n : Nat) : ∀ s : Cancelling K, Pooled who s → Suspended s →
      a ∈ s.accept.endpoint.incoming.queue → (s.accept.endpoint.attempts a).Ready →
      (s.accept.endpoint.incoming.queue.takeWhile (· != a)).length = n →
      s.blockers a + s.lost.length < Nat.card W + most → s.lost.length ≤ most →
      CanReach (cancelStep drains texts) (PoolLocal who) s fun t =>
        (∃ c, t.Has a (.delivered c)) ∧ t.lost.length ≤ most := by
  induction n using Nat.strong_induction_on with
  | _ n ih =>
      intro s pooled suspended queued ready place bound enough
      obtain ⟨u, room, same, left, bound, enough⟩ := makes_room pooled bound enough
      rw [← same] at queued ready place
      obtain ⟨pooled, suspended⟩ := kept_via pooled suspended room
      refine .after room ?_
      obtain ⟨v, c, run, line, waits⟩ := frees drains texts pooled suspended again left
      rw [← line] at queued place
      have steady := steady_via pooled run queued
      have lost := lost_via pooled run
      rw [← steady.attempt] at ready
      rw [← steady.blockers, ← lost] at bound
      rw [← lost] at enough
      have run := run.mono fun _ _ => local_of_unaided
      obtain ⟨pooled, suspended⟩ := kept_via pooled suspended run
      refine .after run ?_
      obtain ⟨w, stepped⟩ := waits_polls drains texts pooled waits (List.ne_nil_of_mem queued)
      have own : PoolLocal who v (.accept (.poll c)) := trivial
      obtain ⟨b, first, attempts, alive, got⟩ := takes_first pooled waits stepped
      have next := kept_via pooled suspended (.single own stepped)
      refine .after (.single own stepped) ?_
      rw [poll_lost pooled stepped |>.symm] at enough
      rw [← attempts] at ready
      by_cases self : b = a
      · subst self
        have known := got (by rw [← attempts]; exact ready.allowed)
        obtain ⟨t, more, has⟩ := delivers alive known ready
        refine ⟨t, more.mono fun _ _ => local_of_unaided, ⟨c, has⟩, ?_⟩
        rw [lost_via next.1 more]
        exact enough
      · rw [first] at queued place
        have still := (List.mem_cons.mp queued).resolve_left (Ne.symm self)
        have front : (b != a) = true := by simpa using self
        rw [List.takeWhile_cons, front] at place
        refine ih _ ?_ w next.1 next.2 still ready rfl ?_ enough
        · simp at place
          omega
        · rw [poll_blockers pooled stepped still, poll_lost pooled stepped]
          exact bound

/-- **What serving an attempt costs.** Any number of consumers loop over `accept_next` on an open
endpoint, each with one call at a time. By their own calls, polls and drops they can deliver a
ready attempt of the queue and lose at most `k` others, exactly when the silent attempts they hold
or have before it are fewer than the consumers and `k` together. Queued, an attempt is ready if
its handshake and its stream come once it is accepted. -/
theorem served_iff [Finite W] [Nonempty W] {k : Nat}
    (reached : Reachable (cancelStep drains texts) (Pool who) Cancelling.Fresh s)
    (again : ∀ w, {c | who c = w}.Infinite)
    (queued : a ∈ s.accept.endpoint.incoming.queue)
    (ready : (s.accept.endpoint.attempts a).Ready) :
    CanReach (cancelStep drains texts) (PoolLocal who) s (fun t =>
        (∃ c, t.Has a (.delivered c)) ∧ t.lost.length ≤ s.lost.length + k) ↔
      s.blockers a < Nat.card W + k := by
  have pooled := pooled_reachable reached
  constructor
  · intro can
    by_contra short
    refine CanReach.elim (I := fun t => Pooled who t ∧
      ((a ∈ t.accept.endpoint.incoming.queue ∧
          s.blockers a + s.lost.length ≤ t.blockers a + t.lost.length) ∨
        s.blockers a + s.lost.length < Nat.card W + t.lost.length))
      ⟨pooled, .inl ⟨queued, Nat.le_refl _⟩⟩ ?_ ?_ can
    · intro t e u kept own stepped
      exact ⟨pooled_step kept.1 (pool_of_local own) stepped, cost_step kept.1 own stepped kept.2⟩
    · rintro t ⟨pooled, bound⟩ ⟨⟨c, has⟩, cheap⟩
      obtain ⟨queued, -⟩ | dear := bound
      · exact Dispenser.not_mem_queue (handed_of_has pooled.ledger has rfl) queued
      · omega
  · intro enough
    exact reaches again _ s pooled (suspended_reachable reached) queued ready rfl (by omega)
      (Nat.le_add_right _ _)

end Serving

/-! ## Two consumers, two silent peers and a ready one -/

section Example

open IrohKmp.Runtime.Accept.Sample

/-- One consumer's calls are the even ones. -/
def evenCalls (c : CallId) : Bool := c % 2 == 0

def crowding : List CancelEvent :=
  [.call 0 .acceptNext, .call 1 .acceptNext, .arrive 1, .arrive 2, .arrive 3, .establish 3,
    .openBi 3].map .accept

def crowd : Cancelling Nat :=
  (exec (cancelStep false decimal) nobodyCalled crowding).get (by decide)

theorem evenCalls_again (w : Bool) : {c | evenCalls c = w}.Infinite := by
  apply Set.infinite_of_injective_forall_mem (f := fun m : Nat => 2 * m + if w then 0 else 1)
  · intro m n same
    simpa using same
  · intro m
    cases w <;> simp [evenCalls]

theorem crowd_reachable :
    Reachable (cancelStep false decimal) (Pool evenCalls) Cancelling.Fresh crowd := by
  have runs : exec (cancelStep false decimal) nobodyCalled crowding = some crowd :=
    (Option.some_get _).symm
  refine ⟨nobodyCalled, ⟨start_fresh, fun _ => rfl⟩, .of_stepwise runs
    ⟨⟨rfl, ?_⟩, fun t first => ⟨⟨rfl, ?_⟩, fun u _ => .of_forall ?_ u⟩⟩⟩
  · rintro d - ⟨-, call, known, -⟩
    cases known
  · cases first
    rintro d own ⟨-, call, known, -⟩
    obtain ⟨rfl, -⟩ | ⟨-, known⟩ := recorded_iff.mp known
    · cases own
    · cases known
  · intro e member s
    simp only [List.mem_map, List.mem_cons, List.not_mem_nil, or_false] at member
    obtain ⟨e, rfl | rfl | rfl | rfl | rfl, rfl⟩ := member <;> trivial

theorem served_iff_crowd :
    CanReach (cancelStep false decimal) (PoolLocal evenCalls) crowd (fun t =>
        (∃ c, t.Has 3 (.delivered c)) ∧ t.lost.length ≤ crowd.lost.length + 1) ↔
      crowd.blockers 3 < Nat.card Bool + 1 :=
  served_iff crowd_reachable evenCalls_again (by decide) ⟨rfl, rfl, by decide⟩

/-- The two silent peers are before it, so one attempt must be lost, and one is enough. -/
example : crowd.silentBefore 3 = 2 := by decide

end Example

end IrohKmp.Runtime.Accept
