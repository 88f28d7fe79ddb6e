/-
# Runtime.Accept — `accept_conn`, `accept_next` and `shutdown`

Both calls take the next attempt off one queue and see it through its handshake;
`accept_next` then waits for the connection's first stream. The endpoint's close, the peers
and the calls take their steps in any order.

* `acceptConn`, `acceptNext` — one poll of each call, as the code runs between its awaits;
* `Standing`, `poll_cases` — what a call holds, and everything a poll can do to it;
* `Accounted`, `each_attempt_once` — every attempt goes to one call, and every result says
  what became of it, in every reachable state.
-/
import IrohKmp.Kernel.Connection
import IrohKmp.Theory.Dispenser
import IrohKmp.Theory.Run
import Mathlib.Logic.Function.Basic

namespace IrohKmp.Runtime.Accept

open IrohKmp.Kernel
open IrohKmp.Theory
open IrohKmp.Theory.Run

set_option autoImplicit false
set_option linter.unusedSectionVars false

abbrev AttemptId := Nat
abbrev CallId := Nat

/-! ## The library's endpoint -/

/-- Why a connection failed, and whether it was the endpoint's own close. -/
structure Failure where
  error : ConnectionError
  byClose : Bool

/-- An inbound attempt and the connection it becomes; `K` are the endpoint ids. -/
structure Attempt (K : Type) where
  remote : K
  alpn : List UInt8
  /-- The error `Incoming::accept` returns, if it does. -/
  refusal : Option ConnectionError
  /-- The handshake is complete, or will be as soon as the attempt is accepted. -/
  established : Bool
  /-- How many bidirectional streams the peer has opened, -/
  opened : Nat
  /-- and how many of them `accept_bi` has handed out. -/
  accepted : Nat
  failure : Option Failure

structure Endpoint (K : Type) where
  closed : Bool
  incoming : Dispenser AttemptId CallId
  /-- What is, or will be, of each attempt. -/
  attempts : AttemptId → Attempt K

variable {K : Type}

namespace Endpoint

def withAttempt (ep : Endpoint K) (a : AttemptId) (att : Attempt K) : Endpoint K :=
  { ep with attempts := Function.update ep.attempts a att }

/-- `Endpoint::accept` polled for `c`: the first attempt of the queue, or `None` once the
endpoint is closed. `drains` if the attempts queued at the close still come out first. -/
def accept (drains : Bool) (ep : Endpoint K) (c : CallId) :
    Option (Endpoint K × Option AttemptId) :=
  if ep.closed && (!drains || ep.incoming.queue.isEmpty) then some (ep, none)
  else (ep.incoming.hand c).map fun r => ({ ep with incoming := r.2 }, some r.1)

end Endpoint

/-- `Accepting` polled: a completed handshake stays completed. -/
def Attempt.connecting (att : Attempt K) : Option (Except Failure Unit) :=
  if att.established then some (.ok ()) else att.failure.map .error

/-- `Connection::accept_bi` polled: an opened stream comes before the error. -/
def Attempt.acceptBi (att : Attempt K) : Option (Except Failure Nat) :=
  if att.accepted < att.opened then some (.ok att.accepted) else att.failure.map .error

/-! ## The calls -/

structure IrohConnection where
  inner : AttemptId

structure IrohStream where
  conn : AttemptId
  index : Nat

structure IncomingConn where
  remoteId : String
  alpn : String
  stream : IrohStream

/-- What a call returned, and whether the endpoint's close produced it. -/
structure Outcome (α : Type) where
  result : Except IrohError (Option α)
  byClose : Bool

inductive Poll (φ α : Type) where
  | pending (phase : φ)
  | ready (out : Outcome α)

/-- The awaits of `accept_conn`. -/
inductive ConnPhase where
  | queued
  | handshaking (a : AttemptId)

/-- The awaits of `accept_next`: those of the `accept_conn` inside it, then `accept_bi`, with
what was read off the connection before it. -/
inductive NextPhase where
  | inConn (phase : ConnPhase)
  | acceptingBi (conn : IrohConnection) (remoteId alpn : String)

/-- `to_string` of an endpoint id, and `String::from_utf8_lossy`. -/
structure Texts (K : Type) where
  id : K → String
  lossy : List UInt8 → String

def IrohConnection.remoteId (texts : Texts K) (ep : Endpoint K) (conn : IrohConnection) : String :=
  texts.id (ep.attempts conn.inner).remote

def IrohConnection.alpn (texts : Texts K) (ep : Endpoint K) (conn : IrohConnection) : String :=
  texts.lossy (ep.attempts conn.inner).alpn

section Calls

variable [Display ConnectionError] [DebugText ConnectionError] [Display SendDatagramError]
variable (drains : Bool) (texts : Texts K) (ep : Endpoint K) (c : CallId)

/-- `accept_conn`, from one await to the next. -/
def acceptConn : ConnPhase → Option (Endpoint K × Poll ConnPhase IrohConnection)
  | .queued => (ep.accept drains c).map fun
      | (ep, none) => (ep, .ready ⟨.ok none, true⟩)
      | (ep, some a) =>
          match (ep.attempts a).refusal with
          | some e => (ep, .ready ⟨.error (IrohError.msg e), false⟩)
          | none => (ep, .pending (.handshaking a))
  | .handshaking a => (ep.attempts a).connecting.map fun
      | .ok () => (ep, .ready ⟨.ok (some ⟨a⟩), false⟩)
      | .error f => (ep, .ready ⟨.error (.generic (DebugText.debug f.error)), f.byClose⟩)

/-- `IrohConnection::accept_bi`, polled. -/
def acceptBi (conn : IrohConnection) : Option (Endpoint K × Except Failure IrohStream) :=
  let att := ep.attempts conn.inner
  att.acceptBi.map fun
    | .ok i => (ep.withAttempt conn.inner { att with accepted := i + 1 }, .ok ⟨conn.inner, i⟩)
    | .error f => (ep, .error f)

/-- `accept_next`, from one await to the next. -/
def acceptNext : NextPhase → Option (Endpoint K × Poll NextPhase IncomingConn)
  | .inConn phase => (acceptConn drains ep c phase).map fun
      | (ep, .pending phase) => (ep, .pending (.inConn phase))
      | (ep, .ready ⟨.ok (some conn), _⟩) =>
          (ep, .pending (.acceptingBi conn (conn.remoteId texts ep) (conn.alpn texts ep)))
      | (ep, .ready ⟨.ok none, byClose⟩) => (ep, .ready ⟨.ok none, byClose⟩)
      | (ep, .ready ⟨.error e, byClose⟩) => (ep, .ready ⟨.error e, byClose⟩)
  | .acceptingBi conn remoteId alpn => (acceptBi ep conn).map fun
      | (ep, .ok stream) => (ep, .ready ⟨.ok (some ⟨remoteId, alpn, stream⟩), false⟩)
      | (ep, .error f) => (ep, .ready ⟨.error (mapConnErr f.error), f.byClose⟩)

inductive Call where
  | conn (poll : Poll ConnPhase IrohConnection)
  | next (poll : Poll NextPhase IncomingConn)

inductive Kind where
  | acceptConn
  | acceptNext

def Call.start : Kind → Call
  | .acceptConn => .conn (.pending .queued)
  | .acceptNext => .next (.pending (.inConn .queued))

def Call.poll : Call → Option (Endpoint K × Call)
  | .conn (.pending phase) => (acceptConn drains ep c phase).map fun r => (r.1, .conn r.2)
  | .next (.pending phase) => (acceptNext drains texts ep c phase).map fun r => (r.1, .next r.2)
  | _ => none

end Calls

/-! ## The machine -/

structure State (K : Type) where
  endpoint : Endpoint K
  calls : CallId → Option Call

inductive Event where
  | call (c : CallId) (kind : Kind)
  | poll (c : CallId)
  | arrive (a : AttemptId)
  /-- The peer has done its part of the handshake. Of an attempt that is still in the queue this
  says what will be: the handshake completes once a call has accepted the attempt, -/
  | establish (a : AttemptId)
  /-- and then the peer opens its stream. -/
  | openBi (a : AttemptId)
  | fail (a : AttemptId) (e : ConnectionError)
  /-- `shutdown` completes (`is_closed` holds): every connection that has not failed does so with
  its `errors a`. While it still runs, queued attempts come out as before. -/
  | close (errors : AttemptId → ConnectionError)

namespace Endpoint

variable (ep : Endpoint K) (a : AttemptId)

def arrive : Option (Endpoint K) :=
  if fresh : a ∉ ep.incoming.arrived then
    if ep.closed then none else some { ep with incoming := ep.incoming.arrive a fresh }
  else none

def establish : Option (Endpoint K) :=
  let att := ep.attempts a
  if att.refusal.isNone && att.failure.isNone then
    some (ep.withAttempt a { att with established := true })
  else none

def openBi : Option (Endpoint K) :=
  let att := ep.attempts a
  if att.established && att.failure.isNone then
    some (ep.withAttempt a { att with opened := att.opened + 1 })
  else none

def fail (e : ConnectionError) : Option (Endpoint K) :=
  let att := ep.attempts a
  if att.failure.isNone then some (ep.withAttempt a { att with failure := some ⟨e, false⟩ })
  else none

def close (errors : AttemptId → ConnectionError) : Option (Endpoint K) :=
  if ep.closed then none
  else some { ep with
    closed := true
    attempts := fun a =>
      let att := ep.attempts a
      { att with failure := att.failure.or (some ⟨errors a, true⟩) } }

end Endpoint

section Machine

variable [Display ConnectionError] [DebugText ConnectionError] [Display SendDatagramError]

def State.record (s : State K) (c : CallId) (call : Call) : State K :=
  { s with calls := Function.update s.calls c (some call) }

def step (drains : Bool) (texts : Texts K) (s : State K) : Event → Option (State K)
  | .call c kind =>
      match s.calls c with
      | some _ => none
      | none => some (s.record c (.start kind))
  | .poll c =>
      match s.calls c with
      | some call => (call.poll drains texts s.endpoint c).map fun r =>
          { s with endpoint := r.1 }.record c r.2
      | none => none
  | .arrive a => (s.endpoint.arrive a).map fun ep => { s with endpoint := ep }
  | .establish a => (s.endpoint.establish a).map fun ep => { s with endpoint := ep }
  | .openBi a => (s.endpoint.openBi a).map fun ep => { s with endpoint := ep }
  | .fail a e => (s.endpoint.fail a e).map fun ep => { s with endpoint := ep }
  | .close errors => (s.endpoint.close errors).map fun ep => { s with endpoint := ep }

variable {drains : Bool} {texts : Texts K} {s t : State K} {ep ep' : Endpoint K} {c d : CallId}
  {call call' : Call} {a : AttemptId}

/-! ## What a call holds -/

inductive Standing where
  /-- Waiting on the queue. -/
  | queued
  /-- Past the queue, with the attempt it was handed. -/
  | working (a : AttemptId)
  /-- Returned `Ok(None)`. -/
  | out
  /-- Returned `Err`. -/
  | failed
  /-- Returned the connection the attempt became. -/
  | delivered (a : AttemptId)
  deriving DecidableEq

def ConnPhase.standing : ConnPhase → Standing
  | .queued => .queued
  | .handshaking a => .working a

def Call.standing : Call → Standing
  | .conn (.pending phase) | .next (.pending (.inConn phase)) => phase.standing
  | .next (.pending (.acceptingBi made _ _)) => .working made.inner
  | .conn (.ready ⟨.ok none, _⟩) | .next (.ready ⟨.ok none, _⟩) => .out
  | .conn (.ready ⟨.error _, _⟩) | .next (.ready ⟨.error _, _⟩) => .failed
  | .conn (.ready ⟨.ok (some made), _⟩) => .delivered made.inner
  | .next (.ready ⟨.ok (some inc), _⟩) => .delivered inc.stream.conn

/-- In progress past the queue, or returned `Ok(Some)` or `Err`. -/
def Standing.Past : Standing → Prop
  | .queued | .out => False
  | _ => True

/-- The endpoint of `ep'` differs at most in what `accept_bi` handed out of attempt `a`. -/
structure OnlyTook (ep ep' : Endpoint K) : Prop where
  closed : ep'.closed = ep.closed
  incoming : ep'.incoming = ep.incoming
  attempts : ∀ a, ep'.attempts a = { ep.attempts a with accepted := (ep'.attempts a).accepted }

theorem OnlyTook.refl (ep : Endpoint K) : OnlyTook ep ep := ⟨rfl, rfl, fun _ => rfl⟩

/-- Everything one poll can do to a call: it learns that the endpoint is closed, it is handed
an attempt and may find it refused, or it goes on with the attempt it holds. -/
inductive Polled (drains : Bool) (ep : Endpoint K) (c : CallId) (was : Standing)
    (ep' : Endpoint K) (now : Standing) : Prop
  | closed (waited : was = .queued) (shut : ep.closed = true) (same : ep' = ep) (ended : now = .out)
  | handed {a : AttemptId} {incoming : Dispenser AttemptId CallId} (waited : was = .queued)
      (running : ep.closed = true → drains = true) (hand : ep.incoming.hand c = some (a, incoming))
      (same : ep' = { ep with incoming := incoming }) (got : now = .working a ∨ now = .failed)
  | onward {a : AttemptId} (held : was = .working a) (took : OnlyTook ep ep')
      (next : now = .working a ∨ now = .failed ∨ now = .delivered a)

theorem accept_cases {taken : Option AttemptId} (polled : ep.accept drains c = some (ep', taken)) :
    (ep.closed = true ∧ ep' = ep ∧ taken = none) ∨
      ∃ a incoming, (ep.closed = true → drains = true) ∧
        ep.incoming.hand c = some (a, incoming) ∧ ep' = { ep with incoming := incoming } ∧
        taken = some a := by
  unfold Endpoint.accept at polled
  split at polled
  · rename_i shut
    cases polled
    exact .inl ⟨(Bool.and_eq_true_iff.mp shut).1, rfl, rfl⟩
  · rename_i running
    obtain ⟨⟨a, incoming⟩, hand, same⟩ := Option.map_eq_some_iff.mp polled
    cases same
    refine .inr ⟨a, incoming, fun closed => ?_, hand, rfl, rfl⟩
    cases drains with
    | true => rfl
    | false => simp [closed] at running

theorem acceptConn_polled {phase : ConnPhase} {poll : Poll ConnPhase IrohConnection}
    (polled : acceptConn drains ep c phase = some (ep', poll)) :
    Polled drains ep c phase.standing ep' (Call.conn poll).standing := by
  cases phase with
  | queued =>
      obtain ⟨⟨ep₁, taken⟩, accepted, result⟩ := Option.map_eq_some_iff.mp polled
      obtain ⟨closed, rfl, rfl⟩ | ⟨a, incoming, running, hand, rfl, rfl⟩ := accept_cases accepted
      · cases result
        exact .closed rfl closed rfl rfl
      · cases refusal : (ep.attempts a).refusal with
        | none =>
            simp only [refusal] at result
            cases result
            exact .handed rfl running hand rfl (.inl rfl)
        | some e =>
            simp only [refusal] at result
            cases result
            exact .handed rfl running hand rfl (.inr rfl)
  | handshaking a =>
      obtain ⟨r, -, result⟩ := Option.map_eq_some_iff.mp polled
      cases r with
      | ok _ =>
          cases result
          exact .onward rfl (.refl ep) (.inr (.inr rfl))
      | error f =>
          cases result
          exact .onward rfl (.refl ep) (.inr (.inl rfl))

theorem acceptBi_cases {conn : IrohConnection} {r : Except Failure IrohStream}
    (polled : acceptBi ep conn = some (ep', r)) : OnlyTook ep ep' ∧
      ((∃ f, r = .error f ∧ ep' = ep ∧ (ep.attempts conn.inner).failure = some f) ∨
        ∃ i, r = .ok ⟨conn.inner, i⟩ ∧ i < (ep.attempts conn.inner).opened) := by
  simp only [acceptBi, Attempt.acceptBi] at polled
  split at polled
  · rename_i opened
    cases polled
    refine ⟨⟨rfl, rfl, fun a => ?_⟩, .inr ⟨_, rfl, opened⟩⟩
    by_cases self : a = conn.inner
    · subst self
      simp [Endpoint.withAttempt]
    · simp [Endpoint.withAttempt, self]
  · simp only [Option.map_map, Option.map_eq_some_iff] at polled
    obtain ⟨f, failed, result⟩ := polled
    cases result
    exact ⟨.refl ep, .inl ⟨f, rfl, rfl, failed⟩⟩

theorem poll_cases (polled : call.poll drains texts ep c = some (ep', call')) :
    Polled drains ep c call.standing ep' call'.standing := by
  cases call with
  | conn poll =>
      cases poll with
      | ready out => cases polled
      | pending phase =>
          obtain ⟨⟨ep₁, poll'⟩, accepted, result⟩ := Option.map_eq_some_iff.mp polled
          cases result
          exact acceptConn_polled accepted
  | next poll =>
      cases poll with
      | ready out => cases polled
      | pending phase =>
          obtain ⟨⟨ep₁, poll'⟩, accepted, result⟩ := Option.map_eq_some_iff.mp polled
          cases result
          cases phase with
          | inConn phase =>
              obtain ⟨⟨ep₂, inner⟩, connected, result⟩ := Option.map_eq_some_iff.mp accepted
              have inside := acceptConn_polled connected
              rcases inner with phase' | ⟨⟨e⟩ | ⟨_ | conn⟩, byClose⟩
              · cases result
                exact inside
              · cases result
                exact inside
              · cases result
                exact inside
              · cases result
                -- the connection is not delivered yet: its first stream is awaited
                cases inside with
                | closed _ _ _ ended => cases ended
                | handed _ _ _ _ got => obtain got | got := got <;> cases got
                | onward held took next =>
                    obtain next | next | next := next <;> cases next
                    exact .onward held took (.inl rfl)
          | acceptingBi conn remoteId alpn =>
              obtain ⟨⟨ep₂, r⟩, accepted, result⟩ := Option.map_eq_some_iff.mp accepted
              obtain ⟨took, ⟨f, rfl, -⟩ | ⟨i, rfl, -⟩⟩ := acceptBi_cases accepted
              · cases result
                exact .onward rfl took (.inr (.inl rfl))
              · cases result
                exact .onward rfl took (.inr (.inr rfl))

/-- An open endpoint to which nobody came and on which nothing was called. -/
structure Fresh (s : State K) : Prop where
  running : s.endpoint.closed = false
  nobody : s.endpoint.incoming = .empty
  quiet : ∀ c, s.calls c = none

/-! ## What a step can do -/

/-- What stays of an attempt while its peer, the network and the calls go on. -/
structure Grows (att att' : Attempt K) : Prop where
  remote : att'.remote = att.remote
  alpn : att'.alpn = att.alpn
  opened : att.opened ≤ att'.opened

theorem Grows.refl (att : Attempt K) : Grows att att := ⟨rfl, rfl, Nat.le_refl _⟩

theorem OnlyTook.grows (took : OnlyTook ep ep') (a : AttemptId) :
    Grows (ep.attempts a) (ep'.attempts a) := by
  rw [took.attempts a]
  exact ⟨rfl, rfl, Nat.le_refl _⟩

theorem Polled.grows {was now : Standing} (polled : Polled drains ep c was ep' now)
    (a : AttemptId) : Grows (ep.attempts a) (ep'.attempts a) := by
  cases polled with
  | closed _ _ same _ | handed _ _ _ same _ => exact same ▸ .refl _
  | onward _ took _ => exact took.grows a

theorem grows_withAttempt {att : Attempt K} (own : Grows (ep.attempts a) att) (b : AttemptId) :
    Grows (ep.attempts b) ((ep.withAttempt a att).attempts b) := by
  by_cases self : b = a
  · subst self
    simpa [Endpoint.withAttempt] using own
  · simpa [Endpoint.withAttempt, self] using Grows.refl (ep.attempts b)

/-- What the peers, the network and a close leave as it was. -/
structure Kept (ep ep' : Endpoint K) : Prop where
  closed : ep.closed = true → ep'.closed = true
  handed : ep'.incoming.handed = ep.incoming.handed
  grows : ∀ a, Grows (ep.attempts a) (ep'.attempts a)

theorem kept_withAttempt {att : Attempt K} (own : Grows (ep.attempts a) att) :
    Kept ep (ep.withAttempt a att) :=
  ⟨id, rfl, grows_withAttempt own⟩

theorem arrive_kept (moved : ep.arrive a = some ep') :
    Kept ep ep' ∧ ep'.closed = ep.closed := by
  unfold Endpoint.arrive at moved
  split at moved
  · simp only [Option.ite_none_left_eq_some] at moved
    cases moved.2
    exact ⟨⟨id, rfl, fun _ => .refl _⟩, rfl⟩
  · cases moved

theorem establish_kept (moved : ep.establish a = some ep') :
    Kept ep ep' ∧ ep'.closed = ep.closed := by
  simp only [Endpoint.establish, Option.ite_none_right_eq_some] at moved
  cases moved.2
  exact ⟨kept_withAttempt ⟨rfl, rfl, Nat.le_refl _⟩, rfl⟩

theorem openBi_kept (moved : ep.openBi a = some ep') :
    Kept ep ep' ∧ ep'.closed = ep.closed := by
  simp only [Endpoint.openBi, Option.ite_none_right_eq_some] at moved
  cases moved.2
  exact ⟨kept_withAttempt ⟨rfl, rfl, Nat.le_succ _⟩, rfl⟩

theorem fail_kept {e : ConnectionError} (moved : ep.fail a e = some ep') :
    Kept ep ep' ∧ ep'.closed = ep.closed := by
  simp only [Endpoint.fail, Option.ite_none_right_eq_some] at moved
  cases moved.2
  exact ⟨kept_withAttempt ⟨rfl, rfl, Nat.le_refl _⟩, rfl⟩

theorem close_kept {errors : AttemptId → ConnectionError} (moved : ep.close errors = some ep') :
    Kept ep ep' := by
  simp only [Endpoint.close, Option.ite_none_left_eq_some] at moved
  cases moved.2
  exact ⟨fun _ => rfl, rfl, fun _ => ⟨rfl, rfl, Nat.le_refl _⟩⟩

/-- A step is a new call, a poll, or one of the endpoint's own. -/
inductive Stepped (drains : Bool) (texts : Texts K) (s t : State K) : Event → Prop
  | call {c : CallId} {kind : Kind} (new : s.calls c = none) (same : t = s.record c (.start kind)) :
      Stepped drains texts s t (.call c kind)
  | poll {c : CallId} {call call' : Call} {ep' : Endpoint K} (known : s.calls c = some call)
      (polled : call.poll drains texts s.endpoint c = some (ep', call'))
      (same : t = { s with endpoint := ep' }.record c call') : Stepped drains texts s t (.poll c)
  | endpoint {e : Event} {ep' : Endpoint K} (kept : Kept s.endpoint ep')
      (closed : ep'.closed = s.endpoint.closed ∨ ∃ errors, e = .close errors)
      (same : t = { s with endpoint := ep' }) : Stepped drains texts s t e

theorem step_cases {e : Event} (stepped : step drains texts s e = some t) :
    Stepped drains texts s t e := by
  cases e with
  | call c kind =>
      simp only [step] at stepped
      split at stepped
      · cases stepped
      · rename_i new
        cases stepped
        exact .call new rfl
  | poll c =>
      simp only [step] at stepped
      split at stepped
      · rename_i call known
        obtain ⟨⟨ep', call'⟩, polled, result⟩ := Option.map_eq_some_iff.mp stepped
        exact .poll known polled result.symm
      · cases stepped
  | arrive a =>
      obtain ⟨ep', moved, result⟩ := Option.map_eq_some_iff.mp stepped
      exact .endpoint (arrive_kept moved).1 (.inl (arrive_kept moved).2) result.symm
  | establish a =>
      obtain ⟨ep', moved, result⟩ := Option.map_eq_some_iff.mp stepped
      exact .endpoint (establish_kept moved).1 (.inl (establish_kept moved).2) result.symm
  | openBi a =>
      obtain ⟨ep', moved, result⟩ := Option.map_eq_some_iff.mp stepped
      exact .endpoint (openBi_kept moved).1 (.inl (openBi_kept moved).2) result.symm
  | fail a e =>
      obtain ⟨ep', moved, result⟩ := Option.map_eq_some_iff.mp stepped
      exact .endpoint (fail_kept moved).1 (.inl (fail_kept moved).2) result.symm
  | close errors =>
      obtain ⟨ep', moved, result⟩ := Option.map_eq_some_iff.mp stepped
      exact .endpoint (close_kept moved) (.inr ⟨errors, rfl⟩) result.symm

theorem recorded_iff {known : Call} : (s.record c call).calls d = some known ↔
    (d = c ∧ known = call) ∨ (d ≠ c ∧ s.calls d = some known) := by
  by_cases self : d = c
  · subst self
    simp [State.record, eq_comm]
  · simp [State.record, self]

/-! ## The account of the queue -/

/-- Which calls were handed an attempt, and which. -/
structure Ledger (s : State K) : Prop where
  once : (s.endpoint.incoming.handed.map Prod.snd).Nodup
  known : ∀ a c, (a, c) ∈ s.endpoint.incoming.handed → ∃ call, s.calls c = some call
  without : ∀ c call, s.calls c = some call → call.standing = .queued ∨ call.standing = .out →
    ∀ a, (a, c) ∉ s.endpoint.incoming.handed
  own : ∀ c call a, s.calls c = some call →
    call.standing = .working a ∨ call.standing = .delivered a →
    (a, c) ∈ s.endpoint.incoming.handed
  failed : ∀ c call, s.calls c = some call → call.standing = .failed →
    ∃ a, (a, c) ∈ s.endpoint.incoming.handed
  out : ∀ c call, s.calls c = some call → call.standing = .out → s.endpoint.closed = true

/-- What the account says of one call. -/
structure Entered (ep : Endpoint K) (c : CallId) (standing : Standing) : Prop where
  without : standing = .queued ∨ standing = .out → ∀ a, (a, c) ∉ ep.incoming.handed
  own : ∀ a, standing = .working a ∨ standing = .delivered a → (a, c) ∈ ep.incoming.handed
  failed : standing = .failed → ∃ a, (a, c) ∈ ep.incoming.handed
  out : standing = .out → ep.closed = true

namespace Entered

variable {standing : Standing}

/-- A call with an attempt. -/
theorem of_entry (entry : (a, c) ∈ ep.incoming.handed)
    (past : standing = .working a ∨ standing = .failed ∨ standing = .delivered a) :
    Entered ep c standing := by
  obtain rfl | rfl | rfl := past
  · refine ⟨nofun, fun b holds => ?_, nofun, nofun⟩
    obtain same | same := holds <;> cases same
    exact entry
  · exact ⟨nofun, nofun, fun _ => ⟨a, entry⟩, nofun⟩
  · refine ⟨nofun, fun b holds => ?_, nofun, nofun⟩
    obtain same | same := holds <;> cases same
    exact entry

/-- A call without one. -/
theorem of_none (none : ∀ a, (a, c) ∉ ep.incoming.handed)
    (before : standing = .queued ∨ (standing = .out ∧ ep.closed = true)) :
    Entered ep c standing := by
  obtain rfl | ⟨rfl, closed⟩ := before
  · exact ⟨fun _ => none, nofun, nofun, nofun⟩
  · exact ⟨fun _ => none, nofun, nofun, fun _ => closed⟩

/-- Where the endpoint handed the call nothing, and stays closed. -/
theorem carried (entered : Entered ep c standing) (closed : ep.closed = true → ep'.closed = true)
    (same : ∀ a, (a, c) ∈ ep'.incoming.handed ↔ (a, c) ∈ ep.incoming.handed) :
    Entered ep' c standing where
  without waits a entry := entered.without waits a ((same a).mp entry)
  own a holds := (same a).mpr (entered.own a holds)
  failed ended := by
    obtain ⟨a, entry⟩ := entered.failed ended
    exact ⟨a, (same a).mpr entry⟩
  out ended := closed (entered.out ended)

end Entered

theorem Ledger.entered (ledger : Ledger s) (known : s.calls c = some call) :
    Entered s.endpoint c call.standing where
  without := ledger.without c call known
  own a := ledger.own c call a known
  failed := ledger.failed c call known
  out := ledger.out c call known

theorem ledger_of_entered (once : (s.endpoint.incoming.handed.map Prod.snd).Nodup)
    (known : ∀ a c, (a, c) ∈ s.endpoint.incoming.handed → ∃ call, s.calls c = some call)
    (each : ∀ c call, s.calls c = some call → Entered s.endpoint c call.standing) : Ledger s where
  once := once
  known := known
  without c call called := (each c call called).without
  own c call a called := (each c call called).own a
  failed c call called := (each c call called).failed
  out c call called := (each c call called).out

theorem ledger_fresh (fresh : Fresh s) : Ledger s := by
  obtain ⟨-, nobody, quiet⟩ := fresh
  constructor <;> simp [nobody, quiet, Dispenser.empty]

theorem ledger_kept (ledger : Ledger s) {ep' : Endpoint K} (kept : Kept s.endpoint ep') :
    Ledger { s with endpoint := ep' } := by
  obtain ⟨closed, handed, -⟩ := kept
  apply ledger_of_entered
  · rw [handed]
    exact ledger.once
  · rw [handed]
    exact ledger.known
  · exact fun c call known => (ledger.entered known).carried closed fun a => by rw [handed]

theorem start_standing (kind : Kind) : (Call.start kind).standing = .queued := by
  cases kind <;> rfl

theorem ledger_call (ledger : Ledger s) (new : s.calls c = none) (kind : Kind) :
    Ledger (s.record c (.start kind)) := by
  have unknown : ∀ a, (a, c) ∉ s.endpoint.incoming.handed := by
    intro a member
    obtain ⟨call, known⟩ := ledger.known a c member
    rw [new] at known
    cases known
  apply ledger_of_entered
  · exact ledger.once
  · intro a d member
    obtain ⟨call, known⟩ := ledger.known a d member
    exact ⟨call, recorded_iff.mpr (.inr ⟨fun self => unknown a (self ▸ member), known⟩)⟩
  · intro d call known
    obtain ⟨rfl, rfl⟩ | ⟨-, known⟩ := recorded_iff.mp known
    · exact .of_none unknown (.inl (start_standing kind))
    · exact ledger.entered known

/-- A poll that hands nothing out keeps the account, if it keeps that of its call. -/
theorem ledger_onward (ledger : Ledger s) (known : s.calls c = some call) {ep' : Endpoint K}
    (closed : s.endpoint.closed = true → ep'.closed = true)
    (handed : ep'.incoming.handed = s.endpoint.incoming.handed)
    (entered : Entered ep' c call'.standing) :
    Ledger ({ s with endpoint := ep' }.record c call') := by
  apply ledger_of_entered
  · show (ep'.incoming.handed.map Prod.snd).Nodup
    rw [handed]
    exact ledger.once
  · intro a d member
    obtain ⟨call₁, known₁⟩ := ledger.known a d (handed ▸ member)
    by_cases self : d = c
    · exact ⟨call', recorded_iff.mpr (.inl ⟨self, rfl⟩)⟩
    · exact ⟨call₁, recorded_iff.mpr (.inr ⟨self, known₁⟩)⟩
  · intro d call₁ known₁
    obtain ⟨rfl, rfl⟩ | ⟨-, known₁⟩ := recorded_iff.mp known₁
    · exact entered
    · have same : ∀ a, (a, d) ∈ ep'.incoming.handed ↔ (a, d) ∈ s.endpoint.incoming.handed := by
        intro a
        rw [handed]
      exact (ledger.entered known₁).carried closed same

/-- The head of the queue goes to a call that had none, and is entered under it. -/
theorem ledger_handed (ledger : Ledger s) (known : s.calls c = some call)
    (waited : call.standing = .queued) {incoming : Dispenser AttemptId CallId}
    (hand : s.endpoint.incoming.hand c = some (a, incoming))
    (got : call'.standing = .working a ∨ call'.standing = .failed) :
    Ledger ({ s with endpoint := { s.endpoint with incoming := incoming } }.record c call') := by
  obtain ⟨rest, -, -, handed⟩ := Dispenser.hand_eq_some.mp hand
  have none := ledger.without c call known (.inl waited)
  have member : ∀ b d, (b, d) ∈ incoming.handed ↔
      (b, d) ∈ s.endpoint.incoming.handed ∨ (b = a ∧ d = c) := by
    intro b d
    rw [handed]
    simp
  apply ledger_of_entered
  · show (incoming.handed.map Prod.snd).Nodup
    rw [handed, List.map_append, List.nodup_append]
    refine ⟨ledger.once, by simp, ?_⟩
    rintro d before e last rfl
    obtain ⟨⟨b, d⟩, entry, rfl⟩ := List.mem_map.mp before
    cases List.mem_singleton.mp last
    exact none b entry
  · intro b d entry
    by_cases self : d = c
    · exact ⟨call', recorded_iff.mpr (.inl ⟨self, rfl⟩)⟩
    · obtain entry | ⟨-, self'⟩ := (member b d).mp entry
      · obtain ⟨call₁, known₁⟩ := ledger.known b d entry
        exact ⟨call₁, recorded_iff.mpr (.inr ⟨self, known₁⟩)⟩
      · exact absurd self' self
  · intro d call₁ known₁
    obtain ⟨rfl, rfl⟩ | ⟨other, known₁⟩ := recorded_iff.mp known₁
    · have entry : (a, d) ∈ incoming.handed := (member a d).mpr (.inr ⟨rfl, rfl⟩)
      exact .of_entry entry (got.imp_right .inl)
    · have same : ∀ b, (b, d) ∈ incoming.handed ↔ (b, d) ∈ s.endpoint.incoming.handed :=
        fun b => (member b d).trans (or_iff_left fun new => other new.2)
      exact (ledger.entered known₁).carried id same

theorem ledger_step {e : Event} (ledger : Ledger s) (stepped : step drains texts s e = some t) :
    Ledger t := by
  cases step_cases stepped with
  | call new same => exact same ▸ ledger_call ledger new _
  | endpoint kept _ same => exact same ▸ ledger_kept ledger kept
  | poll known polled same =>
      subst same
      cases poll_cases polled with
      | closed waited shut same ended =>
          subst same
          have none := ledger.without _ _ known (.inl waited)
          exact ledger_onward ledger known id rfl (.of_none none (.inr ⟨ended, shut⟩))
      | handed waited running hand same got =>
          subst same
          exact ledger_handed ledger known waited hand got
      | onward held took next =>
          have handed := congrArg Dispenser.handed took.incoming
          have entry := ledger.own _ _ _ known (.inl held)
          rw [← handed] at entry
          exact ledger_onward ledger known took.closed.trans handed (.of_entry entry next)

/-! ## What a result is made of -/

/-- The id, the ALPN and the stream are those of one connection. -/
structure IncomingConn.Of (texts : Texts K) (ep : Endpoint K) (inc : IncomingConn) : Prop where
  remoteId : inc.remoteId = texts.id (ep.attempts inc.stream.conn).remote
  alpn : inc.alpn = texts.lossy (ep.attempts inc.stream.conn).alpn
  stream : inc.stream.index < (ep.attempts inc.stream.conn).opened

/-- What `accept_next` read off its connection, while it waits for the stream. -/
def NextPhase.Of (texts : Texts K) (ep : Endpoint K) : NextPhase → Prop
  | .inConn _ => True
  | .acceptingBi conn remoteId alpn =>
      remoteId = conn.remoteId texts ep ∧ alpn = conn.alpn texts ep

def Call.Of (texts : Texts K) (ep : Endpoint K) : Call → Prop
  | .next (.pending phase) => phase.Of texts ep
  | .next (.ready ⟨.ok (some inc), _⟩) => inc.Of texts ep
  | _ => True

/-- Ids and ALPNs do not change, and opened streams stay opened. -/
theorem Call.Of.grows (of : call.Of texts ep)
    (grows : ∀ a, Grows (ep.attempts a) (ep'.attempts a)) : call.Of texts ep' := by
  unfold Call.Of at of ⊢
  split at of
  · rename_i phase
    cases phase with
    | inConn phase => trivial
    | acceptingBi made remoteId alpn =>
        simp only [NextPhase.Of, IrohConnection.remoteId, IrohConnection.alpn] at of ⊢
        rwa [(grows made.inner).remote, (grows made.inner).alpn]
  · rename_i inc byClose
    obtain ⟨remoteId, alpn, stream⟩ := of
    have same := grows inc.stream.conn
    exact ⟨by rw [same.remote]; exact remoteId, by rw [same.alpn]; exact alpn,
      Nat.lt_of_lt_of_le stream same.opened⟩
  · trivial

theorem acceptNext_of {phase : NextPhase} {poll : Poll NextPhase IncomingConn}
    (of : phase.Of texts ep) (polled : acceptNext drains texts ep c phase = some (ep', poll)) :
    (Call.next poll).Of texts ep' := by
  cases phase with
  | inConn phase =>
      obtain ⟨⟨ep₁, inner⟩, -, result⟩ := Option.map_eq_some_iff.mp polled
      rcases inner with phase' | ⟨⟨e⟩ | ⟨_ | conn⟩, byClose⟩
      · cases result
        trivial
      · cases result
        trivial
      · cases result
        trivial
      · cases result
        exact ⟨rfl, rfl⟩
  | acceptingBi conn remoteId alpn =>
      obtain ⟨⟨ep₁, r⟩, accepted, result⟩ := Option.map_eq_some_iff.mp polled
      obtain ⟨took, ⟨f, rfl, -⟩ | ⟨i, rfl, opened⟩⟩ := acceptBi_cases accepted
      · cases result
        trivial
      · cases result
        have same := took.grows conn.inner
        obtain ⟨remote, protocol⟩ := of
        refine ⟨?_, ?_, Nat.lt_of_lt_of_le opened same.opened⟩
        · rw [same.remote]; exact remote
        · rw [same.alpn]; exact protocol

theorem poll_of (of : call.Of texts ep) (polled : call.poll drains texts ep c = some (ep', call')) :
    call'.Of texts ep' := by
  cases call with
  | conn poll =>
      cases poll with
      | ready out => cases polled
      | pending phase =>
          obtain ⟨r, -, result⟩ := Option.map_eq_some_iff.mp polled
          cases result
          trivial
  | next poll =>
      cases poll with
      | ready out => cases polled
      | pending phase =>
          obtain ⟨r, accepted, result⟩ := Option.map_eq_some_iff.mp polled
          cases result
          exact acceptNext_of of accepted

/-- Every call's results, and what it has read, are of the connection it holds. -/
def Belongs (texts : Texts K) (s : State K) : Prop :=
  ∀ c call, s.calls c = some call → call.Of texts s.endpoint

theorem belongs_step {e : Event} (belongs : Belongs texts s)
    (stepped : step drains texts s e = some t) : Belongs texts t := by
  cases step_cases stepped with
  | call new same =>
      subst same
      rename_i kind
      intro d call known
      obtain ⟨-, rfl⟩ | ⟨-, known⟩ := recorded_iff.mp known
      · cases kind <;> trivial
      · exact belongs d call known
  | endpoint kept _ same =>
      subst same
      exact fun d call known => (belongs d call known).grows kept.grows
  | poll known polled same =>
      subst same
      intro d call known'
      obtain ⟨-, rfl⟩ | ⟨-, known'⟩ := recorded_iff.mp known'
      · exact poll_of (belongs _ _ known) polled
      · exact (belongs d call known').grows fun a => (poll_cases polled).grows a

/-! ## Every attempt once -/

/-- The call was handed an attempt. -/
def Took (s : State K) (c : CallId) : Prop := ∃ a, (a, c) ∈ s.endpoint.incoming.handed

/-- What became of every attempt that came, and whence every result. -/
structure Accounted (texts : Texts K) (s : State K) : Prop where
  /-- The attempts taken off the queue and the calls past it are one-to-one. -/
  taken : ∀ c call, s.calls c = some call → (Took s c ↔ call.standing.Past)
  calls : ∀ c, Took s c → ∃ call, s.calls c = some call
  oneCall : ∀ a c d, (a, c) ∈ s.endpoint.incoming.handed → (a, d) ∈ s.endpoint.incoming.handed →
    c = d
  oneAttempt : ∀ a b c, (a, c) ∈ s.endpoint.incoming.handed →
    (b, c) ∈ s.endpoint.incoming.handed → a = b
  /-- What came is on the queue or was taken, and not both. -/
  arrived : ∀ a, a ∈ s.endpoint.incoming.arrived →
    (a ∈ s.endpoint.incoming.queue ↔ ¬ ∃ c, (a, c) ∈ s.endpoint.incoming.handed)
  /-- A result wraps the connection its call took, so no two wrap one. -/
  delivered : ∀ c call a, s.calls c = some call → call.standing = .delivered a →
    (a, c) ∈ s.endpoint.incoming.handed
  distinct : ∀ c d call call' a, s.calls c = some call → s.calls d = some call' →
    call.standing = .delivered a → call'.standing = .delivered a → c = d
  /-- `Ok(None)` only of a closed endpoint, and with no attempt taken. -/
  out : ∀ c call, s.calls c = some call → call.standing = .out →
    s.endpoint.closed = true ∧ ¬ Took s c
  belongs : ∀ c inc byClose, s.calls c = some (.next (.ready ⟨.ok (some inc), byClose⟩)) →
    inc.Of texts s.endpoint

theorem ledger_reachable {ok : State K → Event → Prop}
    (reached : Reachable (step drains texts) ok Fresh s) : Ledger s :=
  reached.keeps (fun _ => ledger_fresh) fun _ _ _ ledger _ stepped => ledger_step ledger stepped

theorem belongs_reachable {ok : State K → Event → Prop}
    (reached : Reachable (step drains texts) ok Fresh s) : Belongs texts s :=
  reached.keeps (fun _ fresh c call known => by simp [fresh.quiet] at known)
    fun _ _ _ belongs _ stepped => belongs_step belongs stepped

theorem Ledger.took_iff (ledger : Ledger s) (known : s.calls c = some call) :
    Took s c ↔ call.standing.Past := by
  constructor
  · rintro ⟨a, entry⟩
    cases standing : call.standing with
    | queued => exact absurd entry (ledger.without c call known (.inl standing) a)
    | out => exact absurd entry (ledger.without c call known (.inr standing) a)
    | working | failed | delivered => trivial
  · intro past
    cases standing : call.standing with
    | queued | out => rw [standing] at past; exact past.elim
    | working a => exact ⟨a, ledger.own c call a known (.inl standing)⟩
    | delivered a => exact ⟨a, ledger.own c call a known (.inr standing)⟩
    | failed => exact ledger.failed c call known standing

/-- **Each attempt is consumed once.** In every reachable state of any calls, attempts, failures
and a close, attempts taken and calls past the queue are one-to-one, no two results wrap one
connection, `Ok(None)` means a closed endpoint and no attempt, and what a result holds is of
the one connection. -/
theorem each_attempt_once (reached : Reachable (step drains texts) Any Fresh s) :
    Accounted texts s := by
  have ledger := ledger_reachable reached
  constructor
  · exact fun c call known => ledger.took_iff known
  · exact fun c ⟨a, entry⟩ => ledger.known a c entry
  · exact fun a c d first second => Dispenser.taker_unique first second
  · intro a b c first second
    exact congrArg Prod.fst (List.inj_on_of_nodup_map ledger.once first second rfl)
  · intro a came
    obtain queued | taken := Dispenser.mem_arrived.mp came
    · exact iff_of_true queued fun ⟨c, entry⟩ => Dispenser.not_mem_queue entry queued
    · obtain ⟨c, entry⟩ := taken
      exact iff_of_false (Dispenser.not_mem_queue entry) fun none => none ⟨c, entry⟩
  · exact fun c call a known standing => ledger.own c call a known (.inr standing)
  · intro c d call call' a known known' standing standing'
    exact Dispenser.taker_unique (ledger.own c call a known (.inr standing))
      (ledger.own d call' a known' (.inr standing'))
  · intro c call known standing
    refine ⟨ledger.out c call known standing, fun took => ?_⟩
    have past := (ledger.took_iff known).mp took
    rw [standing] at past
    exact past
  · exact fun c inc byClose known => belongs_reachable reached c _ known

end Machine

/-! ## A run of both calls -/

namespace Sample

scoped instance connectionText : Display ConnectionError := ⟨fun _ => "connection lost"⟩
scoped instance connectionDebug : DebugText ConnectionError := ⟨fun _ => "ConnectionLost"⟩
scoped instance datagramText : Display SendDatagramError := ⟨fun _ => "connection lost"⟩

def decimal : Texts Nat := ⟨toString, fun _ => "echo"⟩

/-- An open endpoint to which nobody came. -/
def start : State Nat where
  endpoint := {
    closed := false
    incoming := .empty
    attempts := fun a => {
      remote := a, alpn := [], refusal := none, established := false, opened := 0, accepted := 0
      failure := none } }
  calls := fun _ => none

theorem start_fresh : Fresh start := ⟨rfl, rfl, fun _ => rfl⟩

/-- `accept_next` returns a connection; `accept_conn` waits behind it until the close. -/
def served : List Event :=
  [.arrive 7, .establish 7, .openBi 7, .call 0 .acceptNext, .call 1 .acceptConn, .poll 0, .poll 0,
    .poll 0, .close fun _ => .locallyClosed, .poll 1]

theorem each_attempt_once_served :
    ∃ s, exec (step false decimal) start served = some s ∧ Accounted decimal s := by
  have runs : (exec (step false decimal) start served).isSome = true := by decide
  obtain ⟨s, done⟩ := Option.isSome_iff_exists.mp runs
  exact ⟨s, done, each_attempt_once (.of_exec served start_fresh done)⟩

end Sample

end IrohKmp.Runtime.Accept
