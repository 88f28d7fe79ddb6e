/-
# Kernel.Connection — the operations of `IrohConnection` and the `closed: ` token

Five operations map the library's `ConnectionError` with `mapConnErr`, which marks the three
closed causes with a stable token; the two datagram sends have an error type of their own, and
keep nothing of it but its text.

* `Connection` — what each library call returns in one state of a connection;
* `Operation`, `message`, `cause` — the seven fallible operations, what they fail with and why;
* `Tells` — the token is there exactly when the cause is a closed connection;
* `tells_iff`, for every state and operation; `datagram_not_marked`, a send on a closed one.
-/
import IrohKmp.Kernel.Error

namespace IrohKmp.Kernel

set_option autoImplicit false

/-- The errors of the library's datagram sends. -/
inductive SendDatagramError where
  | unsupportedByPeer
  | disabled
  | tooLarge
  | connectionLost (cause : ConnectionError)
  deriving DecidableEq

/-- What the calls on the library's `Connection` return in some state of it; `S` and `R` are
its half-streams. -/
structure Connection (S R : Type) where
  openBi : Except ConnectionError (S × R)
  acceptBi : Except ConnectionError (S × R)
  openUni : Except ConnectionError S
  acceptUni : Except ConnectionError R
  readDatagram : Except ConnectionError (List UInt8)
  sendDatagramWait : List UInt8 → Except SendDatagramError Unit
  sendDatagram : List UInt8 → Except SendDatagramError Unit

section Wrapper

variable [Display ConnectionError] [Display SendDatagramError] {S R : Type}

/-- `map_conn_err`. -/
def mapConnErr (e : ConnectionError) : IrohError :=
  match e with
  | .locallyClosed | .applicationClosed _ _ | .connectionClosed _ =>
      .generic ("closed: " ++ Display.text e)
  | other => IrohError.msg other

namespace IrohConnection

variable (inner : Connection S R)

def openBi : Except IrohError (S × R) := inner.openBi.mapError mapConnErr
def acceptBi : Except IrohError (S × R) := inner.acceptBi.mapError mapConnErr
def openUni : Except IrohError S := inner.openUni.mapError mapConnErr
def acceptUni : Except IrohError R := inner.acceptUni.mapError mapConnErr
def sendDatagram (data : List UInt8) : Except IrohError Unit :=
  (inner.sendDatagramWait data).mapError IrohError.msg
def trySendDatagram (data : List UInt8) : Except IrohError Unit :=
  (inner.sendDatagram data).mapError IrohError.msg
def readDatagram : Except IrohError (List UInt8) := inner.readDatagram.mapError mapConnErr

end IrohConnection

/-! ## What an operation fails with, and why -/

inductive Operation where
  | openBi
  | acceptBi
  | openUni
  | acceptUni
  | readDatagram
  | sendDatagram (data : List UInt8)
  | trySendDatagram (data : List UInt8)
  deriving DecidableEq

/-- The error of a result. -/
def errorOf {ε α : Type} : Except ε α → Option ε
  | .error e => some e
  | .ok _ => none

omit [Display ConnectionError] [Display SendDatagramError] in
theorem errorOf_mapError {ε ε' α : Type} (x : Except ε α) (f : ε → ε') :
    errorOf (x.mapError f) = (errorOf x).map f := by
  cases x <;> rfl

/-- The `IrohError` the operation fails with, if it fails. -/
def failure (inner : Connection S R) : Operation → Option IrohError
  | .openBi => errorOf (IrohConnection.openBi inner)
  | .acceptBi => errorOf (IrohConnection.acceptBi inner)
  | .openUni => errorOf (IrohConnection.openUni inner)
  | .acceptUni => errorOf (IrohConnection.acceptUni inner)
  | .readDatagram => errorOf (IrohConnection.readDatagram inner)
  | .sendDatagram data => errorOf (IrohConnection.sendDatagram inner data)
  | .trySendDatagram data => errorOf (IrohConnection.trySendDatagram inner data)

/-- A library error behind a failure. -/
inductive Cause where
  | connection (e : ConnectionError)
  | datagram (e : SendDatagramError)
  deriving DecidableEq

/-- The library error behind the failure of the operation, if it fails. -/
def cause (inner : Connection S R) : Operation → Option Cause
  | .openBi => (errorOf inner.openBi).map .connection
  | .acceptBi => (errorOf inner.acceptBi).map .connection
  | .openUni => (errorOf inner.openUni).map .connection
  | .acceptUni => (errorOf inner.acceptUni).map .connection
  | .readDatagram => (errorOf inner.readDatagram).map .connection
  | .sendDatagram data => (errorOf (inner.sendDatagramWait data)).map .datagram
  | .trySendDatagram data => (errorOf (inner.sendDatagram data)).map .datagram

/-- The error an operation returns for a cause. -/
def Cause.mapped : Cause → IrohError
  | .connection e => mapConnErr e
  | .datagram e => IrohError.msg e

theorem failure_eq_cause (inner : Connection S R) (op : Operation) :
    failure inner op = (cause inner op).map Cause.mapped := by
  cases op <;>
    simp only [failure, cause, IrohConnection.openBi, IrohConnection.acceptBi,
      IrohConnection.openUni, IrohConnection.acceptUni, IrohConnection.readDatagram,
      IrohConnection.sendDatagram, IrohConnection.trySendDatagram, errorOf_mapError,
      Option.map_map] <;> rfl

/-! ## The token -/

/-- The three causes that mean the connection is closed. -/
def ConnectionError.IsClosed : ConnectionError → Prop
  | .locallyClosed | .applicationClosed _ _ | .connectionClosed _ => True
  | _ => False

/-- The cause is a closed connection, reported directly or wrapped. -/
def Cause.IsClosed : Cause → Prop
  | .connection e | .datagram (.connectionLost e) => e.IsClosed
  | .datagram _ => False

/-- The Kotlin side matches the start of the message on this. -/
def Marked (text : String) : Prop := "closed: ".toList <+: text.toList

instance (text : String) : Decidable (Marked text) := inferInstanceAs (Decidable (_ <+: _))

/-- No text of the library starts with the token. -/
structure Unmarked : Prop where
  connection : ∀ e : ConnectionError, ¬ Marked (Display.text e)
  datagram : ∀ e : SendDatagramError, ¬ Marked (Display.text e)

/-- Whenever the operation fails, its message is marked exactly when the cause is a closed
connection. -/
def Tells (inner : Connection S R) (op : Operation) : Prop :=
  ∀ err c, failure inner op = some err → cause inner op = some c →
    (Marked err.message ↔ c.IsClosed)

theorem marked_mapConnErr (unmarked : Unmarked) (e : ConnectionError) :
    Marked (mapConnErr e).message ↔ e.IsClosed := by
  have prefixed : ∀ text : String, Marked ("closed: " ++ text) := by
    intro text
    simp [Marked]
  cases e with
  | locallyClosed | applicationClosed code reason | connectionClosed detail =>
      exact iff_of_true (prefixed _) trivial
  | versionMismatch | transportError detail | reset | timedOut | cidsExhausted =>
      exact iff_of_false (unmarked.connection _) id

/-- Only a wrapped closed cause is told wrong. -/
theorem mapped_tells_iff (unmarked : Unmarked) (c : Cause) :
    (Marked c.mapped.message ↔ c.IsClosed) ↔
      ¬ ∃ e, c = .datagram (.connectionLost e) ∧ e.IsClosed := by
  cases c with
  | connection e => simpa [Cause.mapped, Cause.IsClosed] using marked_mapConnErr unmarked e
  | datagram e =>
      have plain : ¬ Marked (Cause.datagram e).mapped.message := unmarked.datagram e
      cases e <;> simp [plain, Cause.IsClosed]

/-- The operation sends a datagram on a connection the library reports as closed. -/
def SendsOnClosed (inner : Connection S R) (op : Operation) : Prop :=
  ∃ e, cause inner op = some (.datagram (.connectionLost e)) ∧ e.IsClosed

/-- **When the token tells a closed connection.** In every state and for every operation, the
message is marked exactly for a closed connection, unless a datagram is sent on one. -/
theorem tells_iff (unmarked : Unmarked) (inner : Connection S R) (op : Operation) :
    Tells inner op ↔ ¬ SendsOnClosed inner op := by
  unfold Tells SendsOnClosed
  cases known : cause inner op with
  | none => simp
  | some c =>
      simp only [failure_eq_cause, known, Option.map_some, Option.some.injEq]
      rw [← mapped_tells_iff unmarked c]
      constructor
      · exact fun told => told _ c rfl rfl
      · rintro told _ _ rfl rfl
        exact told

end Wrapper

/-! ## A datagram on a closed connection -/

section Example

local instance connectionText : Display ConnectionError := ⟨fun e =>
  match e with
  | .locallyClosed => "closed"
  | _ => "connection error"⟩

local instance datagramText : Display SendDatagramError := ⟨fun _ => "connection lost"⟩

theorem texts_unmarked : Unmarked where
  connection e := by cases e <;> simp [Marked, Display.text]
  datagram _ := by simp [Marked, Display.text]

/-- Every call on a connection this side closed. -/
def locallyClosed : Connection Unit Unit where
  openBi := .error .locallyClosed
  acceptBi := .error .locallyClosed
  openUni := .error .locallyClosed
  acceptUni := .error .locallyClosed
  readDatagram := .error .locallyClosed
  sendDatagramWait _ := .error (.connectionLost .locallyClosed)
  sendDatagram _ := .error (.connectionLost .locallyClosed)

theorem tells_iff_openBi : Tells locallyClosed .openBi :=
  (tells_iff texts_unmarked locallyClosed .openBi).mpr (by rintro ⟨e, sent, -⟩; cases sent)

theorem datagram_not_marked : Unmarked ∧ ¬ Tells locallyClosed (.sendDatagram [1]) := by
  refine ⟨texts_unmarked, fun tells => ?_⟩
  have marked : Marked "connection lost" := (tells _ _ rfl rfl).mpr trivial
  simp [Marked] at marked

end Example

end IrohKmp.Kernel
