/-
# Kernel.Error — the one error of the wrapper, and the library errors it is made from

`IrohError` keeps nothing of a library error but its text. The texts belong to the
library, so they are a parameter: `Display` for `to_string`, `DebugText` for `{:?}`.
`VarInt` is the QUIC integer every error code has to fit in; a value above `VarInt::MAX`
cannot be built.
-/
import IrohKmp.Theory.Collect
import Mathlib.Algebra.Group.Nat.Defs

namespace IrohKmp.Kernel

set_option autoImplicit false

/-- The text a value has in a message (`std::fmt::Display`). -/
class Display (ε : Type) where
  text : ε → String

/-- A text is its own text. -/
instance : Display String := ⟨id⟩

/-- The text a value has under `{:?}` (`std::fmt::Debug`). -/
class DebugText (ε : Type) where
  debug : ε → String

inductive IrohError where
  | generic (msg : String)
  deriving DecidableEq, Repr

namespace IrohError

/-- `IrohError::msg`: any displayable error, collapsed into its text. -/
def msg {ε : Type} [Display ε] (e : ε) : IrohError := .generic (Display.text e)

/-- `#[error("{msg}")]`. -/
def message : IrohError → String
  | .generic msg => msg

@[simp] theorem message_generic (text : String) : (generic text).message = text := rfl

@[simp] theorem message_msg {ε : Type} [Display ε] (e : ε) : (msg e).message = Display.text e := rfl

end IrohError

/-- A library type that prints (`to_string`) and parses (`from_str`); a failure to parse is
kept as its text. -/
structure TextForm (α : Type) where
  print : α → String
  parse : String → Except String α

/-- `α::from_str(text).map_err(IrohError::msg)`. -/
def TextForm.read {α : Type} (form : TextForm α) (text : String) : Except IrohError α :=
  (form.parse text).mapError IrohError.msg

theorem TextForm.read_eq_ok {α : Type} {form : TextForm α} {text : String} {a : α} :
    form.read text = .ok a ↔ form.parse text = .ok a := Theory.Collect.mapError_eq_ok

theorem TextForm.toOption_read {α : Type} (form : TextForm α) (text : String) :
    (form.read text).toOption = (form.parse text).toOption := by
  rw [read]
  cases form.parse text <;> rfl

/-- A QUIC variable-length integer: below `2^62`. -/
structure VarInt where
  value : UInt64
  bound : value.toNat < 2 ^ 62
  deriving DecidableEq

/-- The error of `VarInt::from_u64`. -/
inductive VarIntBoundsExceeded where
  | exceeded
  deriving DecidableEq

/-- `VarInt::from_u64`. -/
def VarInt.fromU64 (x : UInt64) : Except VarIntBoundsExceeded VarInt :=
  if fits : x.toNat < 2 ^ 62 then .ok ⟨x, fits⟩ else .error .exceeded

theorem VarInt.fromU64_of_lt {x : UInt64} (fits : x.toNat < 2 ^ 62) :
    VarInt.fromU64 x = .ok ⟨x, fits⟩ := dif_pos fits

/-- Why a connection failed. `LocallyClosed`, `ApplicationClosed` and `ConnectionClosed` are
the three that mean it was closed. -/
inductive ConnectionError where
  | versionMismatch
  | transportError (detail : String)
  | connectionClosed (detail : String)
  | applicationClosed (code : VarInt) (reason : List UInt8)
  | reset
  | timedOut
  | locallyClosed
  | cidsExhausted
  deriving DecidableEq

/-- What the library's reads fail with. -/
inductive ReadError where
  | reset (code : VarInt)
  | connectionLost (cause : ConnectionError)
  | closedStream
  | illegalOrderedRead
  deriving DecidableEq

/-- What the calls on a stream half can fail with, by the library call that reports it. The error
of a read has one text from `read` and `read_exact`, and another from `read_to_end`. -/
inductive StreamError where
  | writeStopped (code : VarInt)
  | writeLost (cause : ConnectionError)
  | writeClosed
  | closedStream
  | stoppedLost (cause : ConnectionError)
  | read (e : ReadError)
  | finishedEarly (count : Nat)
  | readToEnd (e : ReadError)
  | tooLong
  deriving DecidableEq

end IrohKmp.Kernel
