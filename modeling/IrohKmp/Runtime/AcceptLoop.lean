/-
# Runtime.AcceptLoop — one consumer looping over `accept_next`, and its end

`accept_next` sees one attempt through at a time, so a peer that stops half way holds the loop
up; and once it holds an attempt, a close reaches it as that attempt's error.

* `SingleConsumer`, `Local` — the loop on an open endpoint, and its own steps;
* `Answerable` — the attempt the call holds, or the oldest in the queue, is settled;
* `accept_next_returns_iff`, and `silent_peer_blocks`, a silent peer before a ready one;
* `close_answers_none_iff` — which calls a close ends with `Ok(None)`;
  `close_during_handshake`, one it does not.
-/
import IrohKmp.Runtime.Accept

namespace IrohKmp.Runtime.Accept

open IrohKmp.Kernel
open IrohKmp.Theory
open IrohKmp.Theory.Run

set_option autoImplicit false
set_option linter.unusedSectionVars false

variable {K : Type}

section Loop

variable [Display ConnectionError] [DebugText ConnectionError] [Display SendDatagramError]
variable {drains : Bool} {texts : Texts K} {s t u : State K} {ep ep' : Endpoint K} {c d : CallId}
  {call : Call} {a : AttemptId} {phase : NextPhase}

/-! ## The loop -/

/-- The call has returned. -/
def Call.Over : Call → Prop
  | .conn (.ready _) | .next (.ready _) => True
  | _ => False

/-- Only `accept_next` is called, when the call before has returned, and nobody closes. -/
def SingleConsumer (s : State K) : Event → Prop
  | .call _ kind => kind = .acceptNext ∧ ∀ d call, s.calls d = some call → call.Over
  | .close _ => False
  | _ => True

/-- The steps of the calls: none of a peer, of the network or of a new call. -/
def Local : State K → Event → Prop
  | _, .poll _ => True
  | _, _ => False

/-- The loop has one call in progress at most, on an open endpoint. -/
structure Looping (s : State K) : Prop where
  running : s.endpoint.closed = false
  lone : ∀ c d call call', s.calls c = some call → s.calls d = some call' → ¬ call.Over →
    ¬ call'.Over → c = d

theorem not_over_of_poll {r : Endpoint K × Call} (polled : call.poll drains texts ep c = some r) :
    ¬ call.Over := by
  rcases call with (_ | _) | (_ | _)
  · exact id
  · cases polled
  · exact id
  · cases polled

theorem Polled.closed_eq {was now : Standing} (polled : Polled drains ep c was ep' now) :
    ep'.closed = ep.closed := by
  cases polled with
  | closed _ _ same _ | handed _ _ _ same _ => rw [same]
  | onward _ took _ => exact took.closed

/-- A poll leaves the other calls as they were, so the loop keeps its one call. -/
theorem looping_poll (looping : Looping s) (stepped : step drains texts s (.poll c) = some t) :
    Looping t := by
  cases step_cases stepped with
  | endpoint _ closed same =>
      obtain same' | ⟨errors, impossible⟩ := closed
      · subst same
        exact ⟨same'.trans looping.running, looping.lone⟩
      · cases impossible
  | poll known polled same =>
      subst same
      refine ⟨(poll_cases polled).closed_eq.trans looping.running, ?_⟩
      have active := not_over_of_poll polled
      intro b d call call' hb hd going going'
      obtain ⟨rfl, -⟩ | ⟨-, hb'⟩ := recorded_iff.mp hb
      · obtain ⟨rfl, -⟩ | ⟨-, hd'⟩ := recorded_iff.mp hd
        · rfl
        · exact looping.lone _ _ _ _ known hd' active going'
      · obtain ⟨rfl, -⟩ | ⟨-, hd'⟩ := recorded_iff.mp hd
        · exact looping.lone _ _ _ _ hb' known going active
        · exact looping.lone _ _ _ _ hb' hd' going going'

theorem looping_step {e : Event} (looping : Looping s) (allowed : SingleConsumer s e)
    (stepped : step drains texts s e = some t) : Looping t := by
  cases step_cases stepped with
  | poll known polled same => exact looping_poll looping stepped
  | endpoint kept closed same =>
      subst same
      obtain same | ⟨errors, rfl⟩ := closed
      · exact ⟨same.trans looping.running, looping.lone⟩
      · exact absurd allowed id
  | call new same =>
      subst same
      refine ⟨looping.running, ?_⟩
      intro b d call call' hb hd going going'
      obtain ⟨rfl, -⟩ | ⟨-, hb'⟩ := recorded_iff.mp hb
      · obtain ⟨rfl, -⟩ | ⟨-, hd'⟩ := recorded_iff.mp hd
        · rfl
        · exact absurd (allowed.2 _ _ hd') going'
      · obtain ⟨rfl, -⟩ | ⟨-, hd'⟩ := recorded_iff.mp hd
        · exact absurd (allowed.2 _ _ hb') going
        · exact looping.lone _ _ _ _ hb' hd' going going'

theorem looping_reachable (reached : Reachable (step drains texts) SingleConsumer Fresh s) :
    Looping s :=
  reached.keeps (fun s fresh => ⟨fresh.running, fun c d call call' known => by
    simp [fresh.quiet] at known⟩) fun _ _ _ looping allowed stepped =>
    looping_step looping allowed stepped

/-! ## When a pending call can return -/

/-- Seen through by its peer, or failed. -/
def Attempt.Settled (att : Attempt K) : Prop :=
  att.failure.isSome ∨ (att.established = true ∧ att.accepted < att.opened)

/-- The attempt the call holds is settled; if it waits on the queue, the oldest attempt there is
settled or refused. -/
def Answerable (ep : Endpoint K) : NextPhase → Prop
  | .inConn .queued => ∃ a rest, ep.incoming.queue = a :: rest ∧
      ((ep.attempts a).refusal.isSome ∨ (ep.attempts a).Settled)
  | .inConn (.handshaking a) => (ep.attempts a).Settled
  | .acceptingBi conn _ _ =>
      (ep.attempts conn.inner).failure.isSome ∨
        (ep.attempts conn.inner).accepted < (ep.attempts conn.inner).opened

/-- The call returns by its own steps. -/
def Returns (drains : Bool) (texts : Texts K) (s : State K) (c : CallId) : Prop :=
  CanReach (step drains texts) Local s fun t => ∃ out, t.calls c = some (.next (.ready out))

theorem step_poll {poll : Poll NextPhase IncomingConn}
    (known : s.calls c = some (.next (.pending phase)))
    (polled : acceptNext drains texts s.endpoint c phase = some (ep', poll)) :
    step drains texts s (.poll c) =
      some ({ s with endpoint := ep' }.record c (.next poll)) := by
  simp only [step, known, Call.poll, polled, Option.map_some]

theorem returns_of_ready (known : s.calls c = some (.next (.pending phase)))
    (polled : ∃ ep' out, acceptNext drains texts s.endpoint c phase = some (ep', .ready out)) :
    Returns drains texts s c := by
  obtain ⟨ep', out, polled⟩ := polled
  have own : Local s (.poll c) := trivial
  exact ⟨_, .single own (step_poll known polled), out, by simp [State.record]⟩

/-- A poll that only moves the call on leaves it to the rest. -/
theorem returns_of_pending {phase' : NextPhase}
    (known : s.calls c = some (.next (.pending phase)))
    (polled : acceptNext drains texts s.endpoint c phase = some (ep', .pending phase'))
    (rest : ∀ t : State K, t.endpoint = ep' → t.calls c = some (.next (.pending phase')) →
      Returns drains texts t c) : Returns drains texts s c := by
  have own : Local s (.poll c) := trivial
  exact .after (.single own (step_poll known polled)) (rest _ rfl (by simp [State.record]))

theorem returns_of_acceptingBi {conn : IrohConnection} {remoteId alpn : String}
    (known : s.calls c = some (.next (.pending (.acceptingBi conn remoteId alpn))))
    (answerable : Answerable s.endpoint (.acceptingBi conn remoteId alpn)) :
    Returns drains texts s c := by
  by_cases opened : (s.endpoint.attempts conn.inner).accepted <
      (s.endpoint.attempts conn.inner).opened
  · refine returns_of_ready known ?_
    simp [acceptNext, acceptBi, Attempt.acceptBi, opened]
  · obtain ⟨f, failed⟩ := Option.isSome_iff_exists.mp (answerable.resolve_right opened)
    refine returns_of_ready known ?_
    simp [acceptNext, acceptBi, Attempt.acceptBi, opened, failed]

theorem returns_of_handshaking
    (known : s.calls c = some (.next (.pending (.inConn (.handshaking a)))))
    (settled : (s.endpoint.attempts a).Settled) : Returns drains texts s c := by
  by_cases established : (s.endpoint.attempts a).established = true
  · have polled : acceptNext drains texts s.endpoint c (.inConn (.handshaking a)) =
        some (s.endpoint, .pending (.acceptingBi ⟨a⟩
          (IrohConnection.remoteId texts s.endpoint ⟨a⟩)
          (IrohConnection.alpn texts s.endpoint ⟨a⟩))) := by
      simp only [acceptNext, acceptConn, Attempt.connecting, established, if_true, Option.map_some]
    refine returns_of_pending known polled fun t same known => returns_of_acceptingBi known ?_
    rw [same]
    exact settled.imp_right And.right
  · obtain ⟨f, failed⟩ := Option.isSome_iff_exists.mp
      (settled.resolve_right fun done => established done.1)
    refine returns_of_ready known ?_
    simp [acceptNext, acceptConn, Attempt.connecting, established, failed]

theorem returns_of_answerable (running : s.endpoint.closed = false)
    (known : s.calls c = some (.next (.pending phase))) (answerable : Answerable s.endpoint phase) :
    Returns drains texts s c := by
  rcases phase with (_ | a) | ⟨conn, remoteId, alpn⟩
  · obtain ⟨a, rest, line, ready⟩ := answerable
    obtain ⟨⟨b, incoming⟩, hand⟩ := Option.isSome_iff_exists.mp
      ((Dispenser.hand_isSome_iff (c := c)).mpr (by simp [line] : s.endpoint.incoming.queue ≠ []))
    obtain ⟨rest', line', -, -⟩ := Dispenser.hand_eq_some.mp hand
    rw [line] at line'
    cases line'
    have accepted : s.endpoint.accept drains c =
        some ({ s.endpoint with incoming := incoming }, some a) := by
      simp [Endpoint.accept, running, hand]
    cases refusal : (s.endpoint.attempts a).refusal with
    | some e =>
        refine returns_of_ready known ?_
        simp [acceptNext, acceptConn, accepted, refusal]
    | none =>
        have polled : acceptNext drains texts s.endpoint c (.inConn .queued) =
            some ({ s.endpoint with incoming := incoming },
              .pending (.inConn (.handshaking a))) := by
          simp only [acceptNext, acceptConn, accepted, Option.map_some, refusal]
        refine returns_of_pending known polled fun t same known => returns_of_handshaking known ?_
        rw [same]
        exact ready.resolve_left (by simp [refusal])
  · exact returns_of_handshaking known answerable
  · exact returns_of_acceptingBi known answerable

/-- A poll of a call that is not answerable neither returns nor makes it so. -/
theorem unanswerable_poll {poll : Poll NextPhase IncomingConn} (running : ep.closed = false)
    (stuck : ¬ Answerable ep phase)
    (polled : acceptNext drains texts ep c phase = some (ep', poll)) :
    ∃ phase', poll = .pending phase' ∧ ¬ Answerable ep' phase' := by
  obtain (_ | a) | ⟨conn, remoteId, alpn⟩ := phase
  · obtain ⟨⟨ep₁, inner⟩, connected, result⟩ := Option.map_eq_some_iff.mp polled
    obtain ⟨⟨ep₂, taken⟩, accepted, result'⟩ := Option.map_eq_some_iff.mp connected
    obtain ⟨closed, -, -⟩ | ⟨a, incoming, -, hand, rfl, rfl⟩ := accept_cases accepted
    · rw [running] at closed
      cases closed
    · obtain ⟨rest, line, -, -⟩ := Dispenser.hand_eq_some.mp hand
      have waits : ¬ ((ep.attempts a).refusal.isSome ∨ (ep.attempts a).Settled) :=
        fun ready => stuck ⟨a, rest, line, ready⟩
      obtain ⟨allowed, unsettled⟩ := not_or.mp waits
      simp only [Option.not_isSome_iff_eq_none.mp allowed] at result'
      cases result'
      cases result
      exact ⟨_, rfl, unsettled⟩
  · obtain ⟨⟨ep₁, inner⟩, connected, result⟩ := Option.map_eq_some_iff.mp polled
    obtain ⟨r, resolved, result'⟩ := Option.map_eq_some_iff.mp connected
    unfold Attempt.connecting at resolved
    split at resolved
    · rename_i established
      cases resolved
      cases result'
      cases result
      refine ⟨_, rfl, fun answerable => stuck (answerable.imp_right fun opened => ?_)⟩
      exact ⟨established, opened⟩
    · obtain ⟨f, failed, -⟩ := Option.map_eq_some_iff.mp resolved
      exact absurd (.inl (by simp [failed])) stuck
  · obtain ⟨⟨ep₁, r⟩, accepted, -⟩ := Option.map_eq_some_iff.mp polled
    obtain ⟨r', resolved, -⟩ := Option.map_eq_some_iff.mp accepted
    unfold Attempt.acceptBi at resolved
    split at resolved
    · rename_i opened
      exact absurd (.inr opened) stuck
    · obtain ⟨f, failed, -⟩ := Option.map_eq_some_iff.mp resolved
      exact absurd (.inl (by simp [failed])) stuck

theorem returns_iff (looping : Looping s) (known : s.calls c = some (.next (.pending phase))) :
    Returns drains texts s c ↔ Answerable s.endpoint phase := by
  refine ⟨fun returns => ?_, returns_of_answerable looping.running known⟩
  by_contra stuck
  refine CanReach.elim (I := fun t => Looping t ∧ ∃ phase,
    t.calls c = some (.next (.pending phase)) ∧ ¬ Answerable t.endpoint phase)
    ⟨looping, phase, known, stuck⟩ ?_ ?_ returns
  · rintro t e u ⟨looping, phase, known, stuck⟩ own stepped
    cases e with
    | poll d =>
        refine ⟨looping_poll looping stepped, ?_⟩
        simp only [step] at stepped
        split at stepped
        · rename_i call known'
          obtain ⟨⟨ep', call'⟩, polled, rfl⟩ := Option.map_eq_some_iff.mp stepped
          cases looping.lone c d _ _ known known' id (not_over_of_poll polled)
          rw [known] at known'
          cases known'
          obtain ⟨⟨ep₁, poll⟩, accepted, result⟩ := Option.map_eq_some_iff.mp polled
          cases result
          obtain ⟨phase', rfl, stuck⟩ := unanswerable_poll looping.running stuck accepted
          exact ⟨phase', by simp [State.record], stuck⟩
        · cases stepped
    | _ => exact absurd own id
  · rintro t ⟨-, phase, known, -⟩ ⟨out, ended⟩
    rw [known] at ended
    cases ended

/-- **When the loop goes on.** In every reachable state of a single consumer on an open endpoint,
a pending `accept_next` can return by local steps exactly when the attempt it holds, or else the
oldest one in the queue, is settled (or refused); no other attempt matters. A queued attempt is
settled if it will be once it is accepted, with nothing more to decide for its peer. -/
theorem accept_next_returns_iff
    (reached : Reachable (step drains texts) SingleConsumer Fresh s)
    (known : s.calls c = some (.next (.pending phase))) :
    Returns drains texts s c ↔ Answerable s.endpoint phase :=
  returns_iff (looping_reachable reached) known

/-! ## A close -/

/-- Once the endpoint is closed and `accept` yields `None`, nothing more is handed out. -/
theorem handed_frozen {e : Event} (closed : s.endpoint.closed = true)
    (stepped : step false texts s e = some t) :
    t.endpoint.closed = true ∧ t.endpoint.incoming.handed = s.endpoint.incoming.handed := by
  cases step_cases stepped with
  | call new same => exact same ▸ ⟨closed, rfl⟩
  | endpoint kept _ same => exact same ▸ ⟨kept.closed closed, kept.handed⟩
  | poll known polled same =>
      subst same
      have moved := poll_cases polled
      refine ⟨moved.closed_eq.trans closed, ?_⟩
      cases moved with
      | closed _ _ same _ => exact same ▸ rfl
      | handed _ running _ _ _ => cases running closed
      | onward _ took _ => exact congrArg _ took.incoming

theorem out_iff {result : Except IrohError (Option IncomingConn)} {byClose : Bool} :
    result = .ok none ↔ ¬ (Call.next (.ready ⟨result, byClose⟩)).standing.Past := by
  rcases result with e | _ | inc <;> simp [Call.standing, Standing.Past]

/-- What a close ends with `None`: the calls that had taken no attempt when it came. -/
theorem none_iff_not_took {errors : AttemptId → ConnectionError}
    {result : Except IrohError (Option IncomingConn)} {byClose : Bool}
    (reached : Reachable (step false texts) Any Fresh s)
    (closing : step false texts s (.close errors) = some t) (later : Via (step false texts) Any t u)
    (ended : u.calls c = some (.next (.ready ⟨result, byClose⟩))) :
    result = .ok none ↔ ¬ Took s c := by
  have closed : t.endpoint.closed = true ∧
      t.endpoint.incoming.handed = s.endpoint.incoming.handed := by
    obtain ⟨ep, moved, rfl⟩ := Option.map_eq_some_iff.mp closing
    simp only [Endpoint.close, Option.ite_none_left_eq_some] at moved
    cases moved.2
    exact ⟨rfl, rfl⟩
  have frozen : u.endpoint.closed = true ∧
      u.endpoint.incoming.handed = s.endpoint.incoming.handed :=
    later.keeps (I := fun v => v.endpoint.closed = true ∧
      v.endpoint.incoming.handed = s.endpoint.incoming.handed) closed fun v e w kept _ stepped => by
        obtain ⟨shut, same⟩ := handed_frozen kept.1 stepped
        exact ⟨shut, same.trans kept.2⟩
  have ledger := ledger_reachable ((reached.next trivial closing).via later)
  rw [out_iff, ← ledger.took_iff ended]
  unfold Took
  rw [frozen.2]

/-- **Which calls a close ends with `None`.** For every run through a close, an `accept_next`
whose result the close produced returned `Ok(None)` exactly when it had taken no attempt off the
queue before the close. The close is the moment `shutdown` is done and `is_closed` holds: what a
call takes off the queue while `shutdown` still runs, it has taken before. -/
theorem close_answers_none_iff {errors : AttemptId → ConnectionError}
    {result : Except IrohError (Option IncomingConn)}
    (reached : Reachable (step false texts) Any Fresh s)
    (closing : step false texts s (.close errors) = some t) (later : Via (step false texts) Any t u)
    (ended : u.calls c = some (.next (.ready ⟨result, true⟩))) :
    result = .ok none ↔ ¬ Took s c :=
  none_iff_not_took reached closing later ended

end Loop

/-! ## Two runs -/

section Example

open IrohKmp.Runtime.Accept.Sample

/-- The loop calls first; no peer's step and no poll is ever refused to it. -/
theorem loop_reachable {es : List Event} {s : State Nat}
    (peers : ∀ e ∈ es, ∀ t, SingleConsumer (K := Nat) t e)
    (done : exec (step false decimal) start (.call 0 .acceptNext :: es) = some s) :
    Reachable (step false decimal) SingleConsumer Fresh s := by
  refine ⟨start, start_fresh, .of_stepwise done ⟨⟨rfl, ?_⟩, fun t _ => .of_forall peers t⟩⟩
  intro d call known
  cases known

/-- Peer `1` comes first and stays silent; peer `2` does all it has to. -/
def silentFirst : List Event := [.arrive 1, .arrive 2, .establish 2, .openBi 2, .poll 0]

def heldUp : State Nat :=
  (exec (step false decimal) start (.call 0 .acceptNext :: silentFirst)).get (by decide)

theorem heldUp_reachable : Reachable (step false decimal) SingleConsumer Fresh heldUp :=
  loop_reachable (by simp [silentFirst, SingleConsumer]) (Option.some_get _).symm

theorem heldUp_waits : heldUp.calls 0 = some (.next (.pending (.inConn (.handshaking 1)))) := rfl

theorem accept_next_returns_iff_heldUp :
    Returns false decimal heldUp 0 ↔ Answerable heldUp.endpoint (.inConn (.handshaking 1)) :=
  accept_next_returns_iff heldUp_reachable heldUp_waits

theorem silent_peer_blocks :
    ¬ ∀ (s : State Nat) (c : CallId) (phase : NextPhase) (a : AttemptId),
      Reachable (step false decimal) SingleConsumer Fresh s →
      s.calls c = some (.next (.pending phase)) → a ∈ s.endpoint.incoming.arrived →
      (∀ d call, s.calls d = some call → call.standing ≠ .delivered a) →
      (s.endpoint.attempts a).refusal = none → (s.endpoint.attempts a).failure = none →
      (s.endpoint.attempts a).established = true →
      (s.endpoint.attempts a).accepted < (s.endpoint.attempts a).opened →
      Returns false decimal s c := by
  intro serves
  have returns := serves heldUp 0 (.inConn (.handshaking 1)) 2 heldUp_reachable heldUp_waits
    (by decide) ?_ rfl rfl rfl (by decide)
  · have settled := (returns_iff (looping_reachable heldUp_reachable) heldUp_waits).mp returns
    obtain failed | ⟨established, -⟩ := settled
    · cases failed
    · cases established
  · intro d call known delivered
    have entry := (ledger_reachable heldUp_reachable).own d call 2 known (.inr delivered)
    have handed : heldUp.endpoint.incoming.handed = [(1, 0)] := rfl
    simp [handed] at entry

/-- A close of everything the endpoint has. -/
def closes : Event := .close fun _ => .locallyClosed

/-- The call waits on the queue when the close comes, -/
def waiting : State Nat :=
  (exec (step false decimal) start [.call 0 .acceptNext]).get (by decide)

/-- or has taken peer `1`, whose handshake is not complete. -/
def handshaking : State Nat :=
  (exec (step false decimal) start [.call 0 .acceptNext, .arrive 1, .poll 0]).get (by decide)

theorem close_answers_none_iff_waiting :
    ((.ok none : Except IrohError (Option IncomingConn)) = .ok none) ↔ ¬ Took waiting 0 := by
  have reached : Reachable (step false decimal) Any Fresh waiting :=
    .of_exec _ start_fresh (Option.some_get _).symm
  exact close_answers_none_iff reached (rfl : step false decimal waiting closes = _)
    (.single (e := .poll 0) trivial rfl) rfl

theorem close_during_handshake :
    ¬ ∀ (s t u : State Nat) (c : CallId) (errors : AttemptId → ConnectionError)
      (result : Except IrohError (Option IncomingConn)),
      Reachable (step false decimal) Any Fresh s →
      (∀ out, s.calls c ≠ some (.next (.ready out))) →
      step false decimal s (.close errors) = some t → Via (step false decimal) Any t u →
      u.calls c = some (.next (.ready ⟨result, true⟩)) → result = .ok none := by
  intro ends
  have reached : Reachable (step false decimal) Any Fresh handshaking :=
    .of_exec _ start_fresh (Option.some_get _).symm
  have pending : ∀ out, handshaking.calls 0 ≠ some (.next (.ready out)) := by
    intro out ended
    cases ended
  have none := ends handshaking _ _ 0 _ (.error (.generic "ConnectionLost")) reached pending
    (rfl : step false decimal handshaking closes = _) (.single (e := .poll 0) trivial rfl) rfl
  cases none

end Example

end IrohKmp.Runtime.Accept
