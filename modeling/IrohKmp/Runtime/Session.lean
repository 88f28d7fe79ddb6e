/-
# Runtime.Session — a connection with its streams

`shutdown` is the one method that gives the library a code for a whole connection; it takes no
mutex. A `Session` is a connection and any number of stream objects on it. The streams step each
for itself (`discipline`, with an arbitrary peer), except that closing the connection, by
`shutdown` or from the far side, fails all of them at once.

* `Link`, `IrohConnection.shutdown` — the library's connection and the method;
* `Session.step` — a step of one stream, a `shutdown`, or the loss of the connection;
* `stream_reachable` — each stream of a reachable session is a reachable stream;
* `closedWith_via` — what a connection was closed with stays.
-/
import IrohKmp.Runtime.Stream

namespace IrohKmp.Runtime.Stream

open IrohKmp.Kernel
open IrohKmp.Theory.Run
open IrohKmp.Theory.Guarded

set_option autoImplicit false
set_option linter.unusedSectionVars false

/-! ## The connection -/

/-- The library's `Connection`, as far as closing it goes. -/
structure Link where
  /-- What this side closed the connection with: the peer is sent it. -/
  frame : Option (VarInt × Bytes)
  /-- Why the connection is closed, once it is. -/
  lost : Option ConnectionError
  deriving DecidableEq

/-- `Connection::close`; nothing happens to a connection that is closed. -/
def Link.close (l : Link) (code : VarInt) (reason : Bytes) : Link :=
  if l.lost.isSome then l else ⟨some (code, reason), some .locallyClosed⟩

/-- `IrohConnection::shutdown`: what it returns, and the connection after it. -/
def IrohConnection.shutdown [Display VarIntBoundsExceeded] (inner : Link) (errorCode : UInt64)
    (reason : Bytes) : Result × Link :=
  match VarInt.fromU64 errorCode with
  | .ok code => (.ok .unit, inner.close code reason)
  | .error e => (.error (IrohError.msg e), inner)

/-- The stream after its connection closed. -/
def failStream (cause : ConnectionError) (s : StreamState) : StreamState :=
  { s with res := ⟨{ s.res.send with lost := some cause }, { s.res.recv with lost := some cause }⟩ }

/-- What becomes of a stream as its connection changes: it fails when that closes. -/
def follow (before after : Link) : StreamState → StreamState :=
  match before.lost, after.lost with
  | none, some cause => failStream cause
  | _, _ => id

theorem follow_eq (before after : Link) :
    follow before after = id ∨ ∃ cause, follow before after = failStream cause := by
  unfold follow
  cases before.lost with
  | some _ => exact .inl rfl
  | none =>
      cases after.lost with
      | none => exact .inl rfl
      | some cause => exact .inr ⟨cause, rfl⟩

theorem follow_self (l : Link) : follow l l = id := by
  unfold follow
  cases l.lost <;> rfl

/-- Failing leaves the calls alone. -/
theorem follow_record (before after : Link) (s : StreamState) (c : CallId) (m : Method)
    (ph : Phase Bytes Result) :
    follow before after (s.record c m ph) = (follow before after s).record c m ph := by
  obtain same | ⟨cause, fails⟩ := follow_eq before after
  · rw [same]
    rfl
  · rw [fails]
    rfl

/-! ## The session -/

/-- A connection and the stream objects on it, those not opened yet included. -/
structure Session (ι : Type) where
  link : Link
  streams : ι → StreamState
  /-- What the calls of `shutdown` returned. -/
  shutdowns : CallId → Option Result

inductive SessionEvent (ι : Type) where
  | stream (i : ι) (e : Event Method Nat PeerEvent)
  | shutdown (c : CallId) (errorCode : UInt64) (reason : Bytes)
  /-- The connection fails, or the peer closes it. -/
  | lose (cause : ConnectionError)

/-- A step of one stream, over an arbitrary peer. -/
abbrev streamStep [Display StreamError] [Chunking] :
    StreamState → Event Method Nat PeerEvent → Option StreamState :=
  step discipline peer

/-- A stream that fails alone: it does so only with its connection. -/
def failsAlone : Event Method Nat PeerEvent → Bool
  | .env (.lose _) => true
  | _ => false

namespace Session

variable {ι : Type}

/-- No call was made yet, and the connection is open. -/
structure Fresh (s : Session ι) : Prop where
  link : s.link = ⟨none, none⟩
  streams : ∀ i, (s.streams i).Fresh
  shutdowns : ∀ c, s.shutdowns c = none

/-- The connection changes, and the streams with it. -/
def linked (s : Session ι) (link : Link) : Session ι where
  link := link
  streams i := follow s.link link (s.streams i)
  shutdowns := s.shutdowns

def answered (s : Session ι) (c : CallId) (a : Result) : Session ι :=
  { s with shutdowns := Function.update s.shutdowns c (some a) }

theorem linked_self (s : Session ι) : s.linked s.link = s := by
  rw [linked, follow_self]
  rfl

variable [DecidableEq ι]

/-- Stream `i` moves on. -/
def moved (s : Session ι) (i : ι) (t : StreamState) : Session ι :=
  { s with streams := Function.update s.streams i t }

theorem moved_linked (s : Session ι) (i : ι) (t : StreamState) (link : Link) :
    (s.moved i t).linked link = (s.linked link).moved i (follow s.link link t) := by
  unfold moved linked
  simp only [Session.mk.injEq, true_and, and_true]
  apply funext
  intro j
  by_cases same : j = i
  · subst same
    simp
  · simp [same]

variable [Display StreamError] [Chunking] [Display VarIntBoundsExceeded]

def step (s : Session ι) : SessionEvent ι → Option (Session ι)
  | .stream i e =>
      if failsAlone e then none
      else (streamStep (s.streams i) e).map (s.moved i)
  | .shutdown c errorCode reason =>
      if (s.shutdowns c).isSome then none
      else
        let (answer, link) := IrohConnection.shutdown s.link errorCode reason
        some ((s.answered c answer).linked link)
  | .lose cause => if s.link.lost.isSome then none else some (s.linked ⟨s.link.frame, some cause⟩)

variable {s t : Session ι}

theorem step_stream_iff {i : ι} {e : Event Method Nat PeerEvent} :
    s.step (.stream i e) = some t ↔ failsAlone e = false ∧
      ∃ u, streamStep (s.streams i) e = some u ∧ t = s.moved i u := by
  simp only [step, Option.ite_none_left_eq_some, Bool.not_eq_true, Option.map_eq_some_iff,
    @eq_comm _ t]

theorem step_shutdown_iff {c : CallId} {errorCode : UInt64} {reason : Bytes} :
    s.step (.shutdown c errorCode reason) = some t ↔ s.shutdowns c = none ∧
      t = (s.answered c (IrohConnection.shutdown s.link errorCode reason).1).linked
        (IrohConnection.shutdown s.link errorCode reason).2 := by
  simp only [step, Option.ite_none_left_eq_some, Option.not_isSome_iff_eq_none, Option.some.injEq,
    @eq_comm _ t]

theorem step_lose_iff {cause : ConnectionError} :
    s.step (.lose cause) = some t ↔ s.link.lost = none ∧
      t = s.linked ⟨s.link.frame, some cause⟩ := by
  simp only [step, Option.ite_none_left_eq_some, Option.not_isSome_iff_eq_none, Option.some.injEq,
    @eq_comm _ t]

/-! ### One stream of a session -/

theorem step_failStream (cause : ConnectionError) (s : StreamState) :
    streamStep s (.env (.lose cause)) = some (failStream cause s) := rfl

/-- A step of the session is a step of the stream, or leaves it. -/
theorem stream_of_step {e : SessionEvent ι} (stepped : s.step e = some t) (i : ι) :
    t.streams i = s.streams i ∨
      ∃ f, streamStep (s.streams i) f = some (t.streams i) := by
  have follows : ∀ before after : Link, follow before after (s.streams i) = s.streams i ∨
      ∃ f, streamStep (s.streams i) f = some (follow before after (s.streams i)) := by
    intro before after
    obtain stays | ⟨cause, fails⟩ := follow_eq before after
    · exact .inl (by rw [stays]; rfl)
    · exact .inr ⟨.env (.lose cause), by rw [step_failStream, fails]⟩
  cases e with
  | stream j f =>
      obtain ⟨-, u, moves, rfl⟩ := step_stream_iff.mp stepped
      by_cases same : i = j
      · subst same
        exact .inr ⟨f, by simpa [moved] using moves⟩
      · exact .inl (by simp [moved, same])
  | shutdown c errorCode reason =>
      obtain ⟨-, rfl⟩ := step_shutdown_iff.mp stepped
      exact follows _ _
  | lose cause =>
      obtain ⟨-, rfl⟩ := step_lose_iff.mp stepped
      exact follows _ _

/-- Each stream of a reachable session is a reachable stream. -/
theorem stream_reachable (reached : Reachable step Any Fresh s) (i : ι) :
    Reachable streamStep Any State.Fresh (s.streams i) := by
  refine reached.keeps (I := fun s => Reachable streamStep Any State.Fresh (s.streams i))
    (fun s fresh => .start (fresh.streams i)) fun s e t before _ stepped => ?_
  obtain same | ⟨f, moves⟩ := stream_of_step stepped i
  · rw [same]
    exact before
  · exact before.next trivial moves

/-! ### What a connection was closed with -/

/-- The connection is closed, with this frame. -/
def ClosedWith (frame : Option (VarInt × Bytes)) (s : Session ι) : Prop :=
  s.link.frame = frame ∧ s.link.lost.isSome = true

theorem shutdown_closed {link : Link} (closed : link.lost.isSome = true) (errorCode : UInt64)
    (reason : Bytes) : (IrohConnection.shutdown link errorCode reason).2 = link := by
  unfold IrohConnection.shutdown
  cases VarInt.fromU64 errorCode with
  | ok code => exact if_pos closed
  | error e => rfl

/-- What a connection was closed with stays. -/
theorem closedWith_via {frame : Option (VarInt × Bytes)} (closed : s.ClosedWith frame)
    (run : Via step Any s t) : t.ClosedWith frame := by
  refine run.keeps closed fun s e t closed _ stepped => ?_
  obtain ⟨same, lost⟩ := closed
  cases e with
  | stream j f =>
      obtain ⟨-, u, -, rfl⟩ := step_stream_iff.mp stepped
      exact ⟨same, lost⟩
  | shutdown c errorCode reason =>
      obtain ⟨-, rfl⟩ := step_shutdown_iff.mp stepped
      rw [shutdown_closed lost]
      exact ⟨same, lost⟩
  | lose cause =>
      obtain ⟨open', -⟩ := step_lose_iff.mp stepped
      rw [open'] at lost
      cases lost

end Session

end IrohKmp.Runtime.Stream
