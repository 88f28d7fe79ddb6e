/-
# Runtime.AcceptPool — many consumers looping over `accept_next`

Each consumer sees one attempt through at a time, and a silent peer holds it up for good. A
consumer can be freed by dropping its call, at the price of the attempt the call holds.

* `Pool`, `PoolLocal` — consumers on an open endpoint, and their own steps;
* `blockers` — the silent attempts that are held, or come before a given one;
* `call_blockers`, `poll_blockers`, `drop_blockers` — what one step of theirs does to it.
-/
import IrohKmp.Runtime.AcceptCancel
import Mathlib.Data.Set.Card

namespace IrohKmp.Runtime.Accept

open IrohKmp.Kernel
open IrohKmp.Theory
open IrohKmp.Theory.Run

set_option autoImplicit false
set_option linter.unusedSectionVars false

variable {K W : Type}

/-! ## The consumers -/

/-- The call is in progress. -/
def Cancelling.Busy (s : Cancelling K) (c : CallId) : Prop :=
  s.dropped c = false ∧ ∃ call, s.accept.calls c = some call ∧ ¬ call.Over

section Rules

variable (who : CallId → W)

/-- A consumer calls `accept_next`, when no call of its own is in progress. -/
def CallsNext (s : Cancelling K) (c : CallId) (kind : Kind) : Prop :=
  kind = .acceptNext ∧ ∀ d, who d = who c → ¬ s.Busy d

/-- Whatever the peers and the consumers do, while nobody closes. -/
def Pool (s : Cancelling K) : CancelEvent → Prop
  | .accept (.call c kind) => CallsNext who s c kind
  | .accept (.close _) => False
  | _ => True

/-- What the consumers do without a drop: call and poll. -/
def Unaided (s : Cancelling K) : CancelEvent → Prop
  | .accept (.call c kind) => CallsNext who s c kind
  | .accept (.poll _) => True
  | _ => False

/-- What the consumers do by themselves: call, poll and drop. -/
def PoolLocal (s : Cancelling K) : CancelEvent → Prop
  | .accept (.call c kind) => CallsNext who s c kind
  | .accept (.poll _) | .drop _ => True
  | _ => False

/-- Each consumer has one call in progress at most, on an open endpoint. -/
structure Pooled (s : Cancelling K) : Prop where
  ledger : Ledger s.accept
  running : s.accept.endpoint.closed = false
  loops : ∀ c call, s.accept.calls c = some call → ∃ poll, call = .next poll
  lone : ∀ c d, who c = who d → s.Busy c → s.Busy d → c = d
  finite : {c | s.accept.calls c ≠ none}.Finite

end Rules

/-! ## What blocks an attempt -/

/-- Accepted, it holds the call that took it: neither seen through nor failed. -/
def Attempt.silent (att : Attempt K) : Bool :=
  att.refusal.isNone && att.failure.isNone && !(att.established && att.accepted < att.opened)

/-- Accepted, it is delivered at once. -/
structure Attempt.Ready (att : Attempt K) : Prop where
  allowed : att.refusal = none
  established : att.established = true
  opened : att.accepted < att.opened

theorem silent_iff {att : Attempt K} : att.silent = true ↔ att.refusal = none ∧ ¬ att.Settled := by
  simp only [Attempt.silent, Attempt.Settled, Bool.and_eq_true, Option.isNone_iff_eq_none,
    Bool.not_eq_true', Bool.and_eq_false_iff, decide_eq_false_iff_not, not_or, not_and,
    Option.not_isSome_iff_eq_none]
  cases att.established <;> simp [and_assoc]

/-- The call holds an attempt, and cannot return for it. -/
def NextPhase.Stuck (ep : Endpoint K) : NextPhase → Prop
  | .inConn .queued => False
  | phase => ¬ Answerable ep phase

namespace Cancelling

/-- The calls in progress that are stuck with the attempt they hold. -/
def blocked (s : Cancelling K) : Set CallId :=
  {c | s.dropped c = false ∧
    ∃ phase, s.accept.calls c = some (.next (.pending phase)) ∧ phase.Stuck s.accept.endpoint}

/-- The silent attempts in the queue before this one. -/
def silentBefore (s : Cancelling K) (a : AttemptId) : Nat :=
  (s.accept.endpoint.incoming.queue.takeWhile (· != a)).countP
    fun b => (s.accept.endpoint.attempts b).silent

noncomputable def blockers (s : Cancelling K) (a : AttemptId) : Nat :=
  s.blocked.ncard + s.silentBefore a

end Cancelling

section Serving

variable [Display ConnectionError] [DebugText ConnectionError] [Display SendDatagramError]
variable {drains : Bool} {texts : Texts K} {s t : Cancelling K} {ep ep' : Endpoint K}
  {c d : CallId} {call : Call} {a b : AttemptId} {phase : NextPhase} {who : CallId → W}

/-! ## One poll of `accept_next` -/

/-- On an open endpoint a poll takes the oldest attempt, which may be refused; or it goes on with
the one it holds, which it returns only when that is settled. -/
inductive Advanced (ep : Endpoint K) (c : CallId) (phase : NextPhase) (ep' : Endpoint K)
    (poll : Poll NextPhase IncomingConn) : Prop
  | taken {a : AttemptId} {incoming : Dispenser AttemptId CallId}
      (waited : phase = .inConn .queued) (hand : ep.incoming.hand c = some (a, incoming))
      (same : ep' = { ep with incoming := incoming })
      (got : ((ep.attempts a).refusal = none ∧ poll = .pending (.inConn (.handshaking a))) ∨
        ((ep.attempts a).refusal ≠ none ∧ ∃ out, poll = .ready out))
  | onward {a : AttemptId} {phase' : NextPhase}
      (held : (Call.next (.pending phase)).standing = .working a)
      (holds : (Call.next (.pending phase')).standing = .working a) (same : ep' = ep)
      (stuck : phase'.Stuck ep ↔ phase.Stuck ep) (still : poll = .pending phase')
  | ended {a : AttemptId} {out : Outcome IncomingConn}
      (held : (Call.next (.pending phase)).standing = .working a) (free : ¬ phase.Stuck ep)
      (incoming : ep'.incoming = ep.incoming)
      (others : ∀ b, b ≠ a → ep'.attempts b = ep.attempts b) (out : poll = .ready out)

theorem acceptNext_advanced {poll : Poll NextPhase IncomingConn} (running : ep.closed = false)
    (polled : acceptNext drains texts ep c phase = some (ep', poll)) :
    Advanced ep c phase ep' poll := by
  obtain (_ | a) | ⟨conn, remoteId, alpn⟩ := phase
  · obtain ⟨⟨ep₁, inner⟩, connected, result⟩ := Option.map_eq_some_iff.mp polled
    obtain ⟨⟨ep₂, taken⟩, accepted, result'⟩ := Option.map_eq_some_iff.mp connected
    obtain ⟨closed, -, -⟩ | ⟨a, incoming, -, hand, rfl, rfl⟩ := accept_cases accepted
    · cases running.symm.trans closed
    · cases refusal : (ep.attempts a).refusal with
      | none =>
          simp only [refusal] at result'
          cases result'
          cases result
          exact .taken rfl hand rfl (.inl ⟨refusal, rfl⟩)
      | some e =>
          simp only [refusal] at result'
          cases result'
          cases result
          exact .taken rfl hand rfl (.inr ⟨by simp [refusal], _, rfl⟩)
  · obtain ⟨⟨ep₁, inner⟩, connected, result⟩ := Option.map_eq_some_iff.mp polled
    obtain ⟨r, resolved, result'⟩ := Option.map_eq_some_iff.mp connected
    unfold Attempt.connecting at resolved
    split at resolved
    · rename_i established
      cases resolved
      cases result'
      cases result
      refine .onward rfl rfl rfl ?_ rfl
      simp only [NextPhase.Stuck, Answerable, Attempt.Settled, established, true_and]
    · obtain ⟨f, failed, rfl⟩ := Option.map_eq_some_iff.mp resolved
      cases result'
      cases result
      exact .ended rfl (not_not_intro (.inl (by simp [failed]))) rfl (fun _ _ => rfl) rfl
  · obtain ⟨⟨ep₁, r⟩, accepted, result⟩ := Option.map_eq_some_iff.mp polled
    obtain ⟨r', resolved, result'⟩ := Option.map_eq_some_iff.mp accepted
    unfold Attempt.acceptBi at resolved
    split at resolved
    · rename_i opened
      cases resolved
      cases result'
      cases result
      refine .ended rfl (not_not_intro (.inr opened)) rfl (fun b other => ?_) rfl
      simp [Endpoint.withAttempt, other]
    · obtain ⟨f, failed, rfl⟩ := Option.map_eq_some_iff.mp resolved
      cases result'
      cases result
      exact .ended rfl (not_not_intro (.inl (by simp [failed]))) rfl (fun _ _ => rfl) rfl

theorem holds_of_stuck (stuck : phase.Stuck ep) :
    ∃ a, (Call.next (.pending phase)).standing = .working a := by
  rcases phase with (_ | a) | ⟨conn, remoteId, alpn⟩
  · exact stuck.elim
  · exact ⟨a, rfl⟩
  · exact ⟨conn.inner, rfl⟩

theorem stuck_congr (held : (Call.next (.pending phase)).standing = .working a)
    (same : ep'.attempts a = ep.attempts a) : phase.Stuck ep' ↔ phase.Stuck ep := by
  rcases phase with (_ | a') | ⟨conn, remoteId, alpn⟩
  · cases held
  · cases held
    simp only [NextPhase.Stuck, Answerable, same]
  · cases held
    simp only [NextPhase.Stuck, Answerable, same]

/-! ## The pool over its steps -/

theorem pooled_fresh (fresh : Cancelling.Fresh s) : Pooled who s where
  ledger := ledger_fresh fresh.accept
  running := fresh.accept.running
  loops c call known := by simp [fresh.accept.quiet c] at known
  lone c d _ busy := by simp [Cancelling.Busy, fresh.accept.quiet c] at busy
  finite := by simp [fresh.accept.quiet]

/-- The endpoint's own steps leave the calls. -/
theorem pooled_endpoint (pooled : Pooled who s) {ep' : Endpoint K}
    (kept : Kept s.accept.endpoint ep') (same : ep'.closed = s.accept.endpoint.closed) :
    Pooled who { s with accept := { s.accept with endpoint := ep' } } where
  ledger := ledger_kept pooled.ledger kept
  running := same.trans pooled.running
  loops := pooled.loops
  lone := pooled.lone
  finite := pooled.finite

theorem finite_record (pooled : Pooled who s) (u : State K) (call : Call)
    (others : ∀ d, d ≠ c → u.calls d = s.accept.calls d) :
    {d | (u.record c call).calls d ≠ none}.Finite := by
  refine (pooled.finite.insert c).subset fun d called => ?_
  by_cases self : d = c
  · exact .inl self
  · refine .inr ?_
    simpa [State.record, self, others d self] using called

theorem pooled_call (pooled : Pooled who s) (free : ∀ d, who d = who c → ¬ s.Busy d)
    (new : s.accept.calls c = none) :
    Pooled who { s with accept := s.accept.record c (.start .acceptNext) } where
  ledger := ledger_call pooled.ledger new .acceptNext
  running := pooled.running
  loops d call known := by
    obtain ⟨-, rfl⟩ | ⟨-, known⟩ := recorded_iff.mp known
    · exact ⟨_, rfl⟩
    · exact pooled.loops d call known
  lone := by
    have older : ∀ {d}, d ≠ c → Cancelling.Busy { s with
        accept := s.accept.record c (.start .acceptNext) } d → s.Busy d := by
      rintro d other ⟨alive, call, known, going⟩
      obtain ⟨self, -⟩ | ⟨-, known⟩ := recorded_iff.mp known
      · exact absurd self other
      · exact ⟨alive, call, known, going⟩
    intro d d' same busy busy'
    by_cases first : d = c
    · by_cases second : d' = c
      · rw [first, second]
      · exact absurd (older second busy') (free d' (by rw [← same, first]))
    · by_cases second : d' = c
      · exact absurd (older first busy) (free d (by rw [same, second]))
      · exact pooled.lone d d' same (older first busy) (older second busy')
  finite := finite_record pooled s.accept _ fun _ _ => rfl

theorem pooled_drop (pooled : Pooled who s) : Pooled who (s.drop c) where
  ledger := pooled.ledger
  running := pooled.running
  loops := pooled.loops
  lone := by
    have older : ∀ {d}, (s.drop c).Busy d → s.Busy d := by
      rintro d ⟨alive, called⟩
      refine ⟨?_, called⟩
      by_contra dropped
      have still := (dropped_iff (c := c) (d := d)).mpr (.inr (by simpa using dropped))
      cases still.symm.trans alive
    exact fun d d' same busy busy' => pooled.lone d d' same (older busy) (older busy')
  finite := pooled.finite

/-- A poll is of a call in progress, and leaves at most that one in progress. -/
theorem pooled_poll (pooled : Pooled who s) {call call' : Call} {ep' : Endpoint K}
    (alive : s.dropped c = false) (known : s.accept.calls c = some call)
    (polled : call.poll drains texts s.accept.endpoint c = some (ep', call')) :
    Pooled who { s with accept := { s.accept with endpoint := ep' }.record c call' } where
  ledger := by
    have stepped : step drains texts s.accept (.poll c) =
        some ({ s.accept with endpoint := ep' }.record c call') := by
      simp only [step, known, polled, Option.map_some]
    exact ledger_step pooled.ledger stepped
  running := (poll_cases polled).closed_eq.trans pooled.running
  loops d call₁ known₁ := by
    obtain ⟨-, rfl⟩ | ⟨-, known₁⟩ := recorded_iff.mp known₁
    · obtain ⟨poll, rfl⟩ := pooled.loops c call known
      cases poll with
      | ready out => cases polled
      | pending phase =>
          obtain ⟨r, -, result⟩ := Option.map_eq_some_iff.mp polled
          cases result
          exact ⟨_, rfl⟩
    · exact pooled.loops d call₁ known₁
  lone := by
    have older : ∀ {d}, Cancelling.Busy { s with
        accept := { s.accept with endpoint := ep' }.record c call' } d → s.Busy d := by
      rintro d ⟨alive', call₁, known₁, going⟩
      obtain ⟨rfl, -⟩ | ⟨-, known₁⟩ := recorded_iff.mp known₁
      · exact ⟨alive, call, known, not_over_of_poll polled⟩
      · exact ⟨alive', call₁, known₁, going⟩
    exact fun d d' same busy busy' => pooled.lone d d' same (older busy) (older busy')
  finite := finite_record pooled { s.accept with endpoint := ep' } _ fun _ _ => rfl

theorem pooled_step {e : CancelEvent} (pooled : Pooled who s) (allowed : Pool who s e)
    (stepped : cancelStep drains texts s e = some t) : Pooled who t := by
  cases cancelStep_cases stepped with
  | drop _ _ _ same =>
      subst same
      exact pooled_drop pooled
  | accept alive moved same =>
      subst same
      cases step_cases moved with
      | call new same =>
          subst same
          obtain ⟨rfl, free⟩ := allowed
          exact pooled_call pooled free new
      | poll known polled same =>
          subst same
          exact pooled_poll pooled (alive _ rfl) known polled
      | endpoint kept closed same =>
          subst same
          obtain closed | ⟨errors, rfl⟩ := closed
          · exact pooled_endpoint pooled kept closed
          · exact allowed.elim

theorem pooled_reachable
    (reached : Reachable (cancelStep drains texts) (Pool who) Cancelling.Fresh s) : Pooled who s :=
  reached.keeps (fun _ fresh => pooled_fresh fresh) fun _ _ _ pooled allowed stepped =>
    pooled_step pooled allowed stepped

theorem pool_of_local {e : CancelEvent} (own : PoolLocal who s e) : Pool who s e := by
  rcases e with e | c
  · cases e with
    | call c kind => exact own
    | poll c => trivial
    | _ => exact absurd own id
  · trivial

/-! ## What a poll does to the blockers -/

/-- The state after a poll of `c`. -/
def Cancelling.polled (s : Cancelling K) (c : CallId) (ep' : Endpoint K)
    (poll : Poll NextPhase IncomingConn) : Cancelling K :=
  { s with accept := { s.accept with endpoint := ep' }.record c (.next poll) }

theorem poll_advanced (pooled : Pooled who s)
    (stepped : cancelStep drains texts s (.accept (.poll c)) = some t) :
    ∃ phase ep' poll, s.dropped c = false ∧ s.accept.calls c = some (.next (.pending phase)) ∧
      Advanced s.accept.endpoint c phase ep' poll ∧ t = s.polled c ep' poll := by
  cases cancelStep_cases stepped with
  | accept alive moved same =>
      subst same
      simp only [step] at moved
      split at moved
      · rename_i call known
        obtain ⟨⟨ep', call'⟩, polled, rfl⟩ := Option.map_eq_some_iff.mp moved
        obtain ⟨phase | out, rfl⟩ := pooled.loops c call known
        · obtain ⟨⟨ep₁, poll⟩, accepted, result⟩ := Option.map_eq_some_iff.mp polled
          cases result
          exact ⟨_, _, _, alive c rfl, known, acceptNext_advanced pooled.running accepted, rfl⟩
        · cases polled
      · cases moved

theorem mem_blocked_self {poll : Poll NextPhase IncomingConn} (alive : s.dropped c = false) :
    c ∈ (s.polled c ep' poll).blocked ↔ ∃ phase, poll = .pending phase ∧ phase.Stuck ep' := by
  simp [Cancelling.blocked, Cancelling.polled, State.record, alive]

/-- A poll that changes at most the attempt its call holds changes no other call. -/
theorem mem_blocked_other {poll : Poll NextPhase IncomingConn} (ledger : Ledger s.accept)
    (other : d ≠ c) (same : ∀ b, (b, c) ∉ s.accept.endpoint.incoming.handed →
      ep'.attempts b = s.accept.endpoint.attempts b) :
    d ∈ (s.polled c ep' poll).blocked ↔ d ∈ s.blocked := by
  have stuck : ∀ phase, s.accept.calls d = some (.next (.pending phase)) →
      (phase.Stuck ep' ↔ phase.Stuck s.accept.endpoint) := by
    intro phase known
    have frame : ∀ b, (Call.next (.pending phase)).standing = .working b →
        (phase.Stuck ep' ↔ phase.Stuck s.accept.endpoint) := fun b held => by
      have entry := ledger.own d _ b known (.inl held)
      exact stuck_congr held (same b fun entry' => other (Dispenser.taker_unique entry entry'))
    constructor
    · intro stuck
      obtain ⟨b, held⟩ := holds_of_stuck stuck
      exact (frame b held).mp stuck
    · intro stuck
      obtain ⟨b, held⟩ := holds_of_stuck stuck
      exact (frame b held).mpr stuck
  have kept : (s.polled c ep' poll).accept.calls d = s.accept.calls d := by
    simp [Cancelling.polled, State.record, other]
  simp only [Cancelling.blocked, Set.mem_ofPred_eq, kept]
  refine and_congr_right fun _ => exists_congr fun phase => ?_
  exact and_congr_right fun known => stuck phase known

theorem blocked_kept {poll : Poll NextPhase IncomingConn} (ledger : Ledger s.accept)
    (alive : s.dropped c = false) (same : ∀ b, (b, c) ∉ s.accept.endpoint.incoming.handed →
      ep'.attempts b = s.accept.endpoint.attempts b)
    (self : (∃ phase, poll = .pending phase ∧ phase.Stuck ep') ↔ c ∈ s.blocked) :
    (s.polled c ep' poll).blocked = s.blocked := by
  ext d
  by_cases own : d = c
  · subst own
    exact (mem_blocked_self alive).trans self
  · exact mem_blocked_other ledger own same

theorem blocked_grown {poll : Poll NextPhase IncomingConn} (ledger : Ledger s.accept)
    (alive : s.dropped c = false) (same : ∀ b, (b, c) ∉ s.accept.endpoint.incoming.handed →
      ep'.attempts b = s.accept.endpoint.attempts b)
    (self : ∃ phase, poll = .pending phase ∧ phase.Stuck ep') :
    (s.polled c ep' poll).blocked = insert c s.blocked := by
  ext d
  by_cases own : d = c
  · subst own
    exact iff_of_true ((mem_blocked_self alive).mpr self) (.inl rfl)
  · rw [mem_blocked_other ledger own same]
    simp [own]

theorem blocked_finite (pooled : Pooled who s) : s.blocked.Finite :=
  pooled.finite.subset fun c ⟨_, phase, known, _⟩ => by simp [known]

theorem silentBefore_congr {u : Cancelling K}
    (line : u.accept.endpoint.incoming.queue = s.accept.endpoint.incoming.queue)
    (same : ∀ b ∈ s.accept.endpoint.incoming.queue,
      u.accept.endpoint.attempts b = s.accept.endpoint.attempts b) :
    u.silentBefore a = s.silentBefore a := by
  unfold Cancelling.silentBefore
  rw [line]
  refine List.countP_congr fun b member => ?_
  rw [same b (List.takeWhile_subset _ member)]

/-- The oldest attempt goes: one less before those behind it, if it is silent. -/
theorem silentBefore_taken {rest : List AttemptId} {u : Cancelling K}
    (line : s.accept.endpoint.incoming.queue = b :: rest) (other : b ≠ a)
    (line' : u.accept.endpoint.incoming.queue = rest)
    (same : u.accept.endpoint.attempts = s.accept.endpoint.attempts) :
    s.silentBefore a = u.silentBefore a +
      if (s.accept.endpoint.attempts b).silent = true then 1 else 0 := by
  have front : (b != a) = true := by simpa using other
  simp only [Cancelling.silentBefore, line, line', same, List.takeWhile_cons, front, if_true,
    List.countP_cons]

/-- Handing an attempt to a call in progress loses nothing. -/
theorem poll_lost (pooled : Pooled who s)
    (stepped : cancelStep drains texts s (.accept (.poll c)) = some t) : t.lost = s.lost := by
  obtain ⟨phase, ep', poll, alive, -, advanced, rfl⟩ := poll_advanced pooled stepped
  have grown : ∃ more : List (AttemptId × CallId), (∀ entry ∈ more, entry.2 = c) ∧
      ep'.incoming.handed = s.accept.endpoint.incoming.handed ++ more := by
    cases advanced with
    | @taken b incoming _ hand same _ =>
        obtain ⟨_, -, -, handed⟩ := Dispenser.hand_eq_some.mp hand
        exact ⟨[(b, c)], by simp, same ▸ handed⟩
    | onward _ _ same _ _ => exact ⟨[], by simp, by simp [same]⟩
    | ended _ _ incoming _ _ => exact ⟨[], by simp, by simp [incoming]⟩
  obtain ⟨more, own, handed⟩ := grown
  have none : more.filter (fun entry => s.dropped entry.2) = [] := by
    rw [List.filter_eq_nil_iff]
    intro entry member
    simp [own entry member, alive]
  show ((ep'.incoming.handed.filter fun entry => s.dropped entry.2).map Prod.fst) = _
  rw [handed, List.filter_append, none, List.append_nil]
  rfl

theorem not_blocked_of_free (known : s.accept.calls c = some (.next (.pending phase)))
    (free : ¬ phase.Stuck s.accept.endpoint) : c ∉ s.blocked := by
  rintro ⟨-, phase', known', stuck⟩
  cases known.symm.trans known'
  exact free stuck

/-- What a call takes off the queue is counted with it, if it is silent, and not before the rest. -/
theorem taken_blockers {poll : Poll NextPhase IncomingConn} {rest : List AttemptId}
    (pooled : Pooled who s) (alive : s.dropped c = false) (apart : c ∉ s.blocked)
    (line : s.accept.endpoint.incoming.queue = b :: rest) (other : b ≠ a)
    (line' : ep'.incoming.queue = rest) (same : ep'.attempts = s.accept.endpoint.attempts)
    (self : (∃ phase, poll = .pending phase ∧ phase.Stuck ep') ↔
      (s.accept.endpoint.attempts b).silent = true) :
    (s.polled c ep' poll).blockers a = s.blockers a := by
  have before : s.silentBefore a = (s.polled c ep' poll).silentBefore a +
      if (s.accept.endpoint.attempts b).silent = true then 1 else 0 :=
    silentBefore_taken line other line' same
  have frame : ∀ b, (b, c) ∉ s.accept.endpoint.incoming.handed →
      ep'.attempts b = s.accept.endpoint.attempts b := fun b _ => by rw [same]
  unfold Cancelling.blockers
  by_cases silent : (s.accept.endpoint.attempts b).silent = true
  · rw [blocked_grown pooled.ledger alive frame (self.mpr silent), before, if_pos silent,
      Set.ncard_insert_of_notMem apart (blocked_finite pooled)]
    omega
  · rw [blocked_kept pooled.ledger alive frame
      (iff_of_false (fun stuck => silent (self.mp stuck)) apart), before, if_neg silent]
    rfl

/-- A poll that leaves the attempt in the queue leaves the number of its blockers. -/
theorem poll_blockers (pooled : Pooled who s)
    (stepped : cancelStep drains texts s (.accept (.poll c)) = some t)
    (queued : a ∈ t.accept.endpoint.incoming.queue) : t.blockers a = s.blockers a := by
  obtain ⟨phase, ep', poll, alive, known, advanced, rfl⟩ := poll_advanced pooled stepped
  cases advanced with
  | @taken b incoming waited hand same got =>
      subst waited
      obtain ⟨rest, line, line', -⟩ := Dispenser.hand_eq_some.mp hand
      have queue : ep'.incoming.queue = rest := same ▸ line'
      have attempts : ep'.attempts = s.accept.endpoint.attempts := same ▸ rfl
      have other : b ≠ a := by
        rintro rfl
        have nodup := (List.nodup_append.mp s.accept.endpoint.incoming.nodup).2.1
        rw [line] at nodup
        exact (List.nodup_cons.mp nodup).1 (queue ▸ queued)
      apply taken_blockers pooled alive (not_blocked_of_free known id) line other queue attempts
      obtain ⟨allowed, rfl⟩ | ⟨turned, out, rfl⟩ := got
      · simp [NextPhase.Stuck, Answerable, attempts, silent_iff, allowed]
      · simp [silent_iff, turned]
  | onward held holds same stuck still =>
      subst same still
      unfold Cancelling.blockers
      rw [blocked_kept pooled.ledger alive (fun _ _ => rfl)]
      · rfl
      · simp [Cancelling.blocked, alive, known, stuck]
  | @ended b out held released incoming others ended =>
      subst ended
      have entry := pooled.ledger.own c _ b known (.inl held)
      unfold Cancelling.blockers
      rw [blocked_kept pooled.ledger alive fun a none => others a fun self => none (self ▸ entry)]
      · refine congrArg _ (silentBefore_congr (congrArg _ incoming) fun a member => others a ?_)
        rintro rfl
        exact Dispenser.not_mem_queue entry member
      · exact iff_of_false (by simp) (not_blocked_of_free known released)

/-- A poll that takes the attempt off the queue finds nothing before it. -/
theorem poll_takes (pooled : Pooled who s)
    (stepped : cancelStep drains texts s (.accept (.poll c)) = some t)
    (queued : a ∈ s.accept.endpoint.incoming.queue)
    (taken : a ∉ t.accept.endpoint.incoming.queue) :
    s.blockers a = s.blocked.ncard ∧ s.Busy c ∧ c ∉ s.blocked := by
  obtain ⟨phase, ep', poll, alive, known, advanced, rfl⟩ := poll_advanced pooled stepped
  cases advanced with
  | @taken b incoming waited hand same got =>
      subst waited
      obtain ⟨rest, line, line', -⟩ := Dispenser.hand_eq_some.mp hand
      have first : b = a := by
        rw [line] at queued
        obtain self | later := List.mem_cons.mp queued
        · exact self.symm
        · exact absurd (same ▸ line' ▸ later) taken
      subst first
      refine ⟨?_, ⟨alive, _, known, id⟩, not_blocked_of_free known id⟩
      simp [Cancelling.blockers, Cancelling.silentBefore, line]
  | onward held holds same stuck still =>
      subst same
      exact absurd queued taken
  | ended held released incoming others ended =>
      exact absurd (incoming ▸ queued) taken

/-! ## A new call, and a drop -/

theorem call_blockers {kind : Kind} (stepped : cancelStep drains texts s (.accept (.call c kind)) =
    some t) : t.blockers a = s.blockers a ∧ t.lost = s.lost ∧
      t.accept.endpoint = s.accept.endpoint := by
  cases cancelStep_cases stepped with
  | accept alive moved same =>
      subst same
      simp only [step] at moved
      split at moved
      · cases moved
      · rename_i new
        cases moved
        refine ⟨?_, rfl, rfl⟩
        have kept : Cancelling.blocked { s with accept := s.accept.record c (.start kind) } =
            s.blocked := by
          ext d
          by_cases self : d = c
          · subst self
            refine iff_of_false ?_ (by simp [Cancelling.blocked, new])
            rintro ⟨-, phase, known, stuck⟩
            simp only [State.record, Function.update_self, Option.some.injEq] at known
            cases kind <;> cases known
            exact stuck
          · simp [Cancelling.blocked, State.record, self]
        unfold Cancelling.blockers
        rw [kept]
        rfl

/-- Dropping a call loses what it was handed. -/
theorem lost_drop (alive : s.dropped c = false) : (s.drop c).lost.length =
    s.lost.length + (s.accept.endpoint.incoming.handed.map Prod.snd).count c := by
  simp only [Cancelling.lost, List.length_map, ← List.countP_eq_length_filter]
  show List.countP (fun entry => Function.update s.dropped c true entry.2)
    s.accept.endpoint.incoming.handed = _
  generalize s.accept.endpoint.incoming.handed = handed
  induction handed with
  | nil => rfl
  | cons entry rest ih =>
      simp only [List.countP_cons, List.map_cons, List.count_cons, ih]
      by_cases self : entry.2 = c
      · simp [self, alive]
        omega
      · simp [self]
        omega

theorem blocked_drop : (s.drop c).blocked = s.blocked \ {c} := by
  ext d
  by_cases self : d = c
  · subst self
    simp [Cancelling.blocked, Cancelling.drop]
  · simp [Cancelling.blocked, Cancelling.drop, self]

/-- Dropping a stuck call trades its attempt for one blocker less, -/
theorem drop_stuck (pooled : Pooled who s) (stuck : c ∈ s.blocked) :
    (s.drop c).lost.length = s.lost.length + 1 ∧
      (s.drop c).blockers a + 1 = s.blockers a := by
  have ⟨alive, phase, known, held⟩ := stuck
  obtain ⟨b, holds⟩ := holds_of_stuck held
  have entry := pooled.ledger.own c _ b known (.inl holds)
  constructor
  · rw [lost_drop alive, List.count_eq_one_of_mem pooled.ledger.once
      (List.mem_map.mpr ⟨_, entry, rfl⟩)]
  · have one := Set.ncard_sdiff_singleton_add_one stuck (blocked_finite pooled)
    unfold Cancelling.blockers
    rw [blocked_drop, ← one]
    show _ + s.silentBefore a + 1 = _
    omega

/-- and no drop does better. -/
theorem drop_blockers (pooled : Pooled who s) (alive : s.dropped c = false) :
    s.blockers a + s.lost.length ≤ (s.drop c).blockers a + (s.drop c).lost.length ∧
      s.lost.length ≤ (s.drop c).lost.length := by
  have grows : s.lost.length ≤ (s.drop c).lost.length := by
    rw [lost_drop alive]
    omega
  refine ⟨?_, grows⟩
  by_cases stuck : c ∈ s.blocked
  · obtain ⟨lost, fewer⟩ := drop_stuck (a := a) pooled stuck
    omega
  · have same : (s.drop c).blockers a = s.blockers a := by
      unfold Cancelling.blockers
      rw [blocked_drop, Set.sdiff_singleton_eq_self stuck]
      rfl
    omega

end Serving

end IrohKmp.Runtime.Accept
