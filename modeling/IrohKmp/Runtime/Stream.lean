/-
# Runtime.Stream — `IrohStream`, `IrohSendStream` and `IrohRecvStream`

Every method of the three stream objects takes the mutex of one half, makes one library
call on that half under the guard, and returns; `stopped` lets go of the guard before it
waits. A method is therefore the library call it makes and how it takes the mutex
(`lock().await` or `blocking_lock()`), or the error it returns before it asks for the mutex
(a code that is no `VarInt`). `discipline` hands the methods to `Theory.Guarded`, with
`Half` naming the two mutexes.

The library's half-streams do what the library does: `SendStream` accepts bytes while the
flow-control credit lasts, `RecvStream` hands out what has arrived in order. A turn of
`write_all` or `read_exact` transfers any non-empty part of what is possible (the choice `x`), so
every schedule of partial transfers is a run; `read` takes all that is there and fits, and
`read_to_end` one chunk after the other, cut as the library has them (`Chunking`).

Two environments close the system: `peer` is an arbitrary peer at the far side of both
halves of one object; `network` joins a sender's half to the peer's receiving half, and
`network_moves` says what a step of it can do.
-/
import IrohKmp.Kernel.Error
import IrohKmp.Theory.Guarded
import Mathlib.Data.List.Basic

namespace IrohKmp.Runtime.Stream

open IrohKmp.Kernel
open IrohKmp.Theory.Guarded

set_option autoImplicit false
set_option linter.unusedSectionVars false

abbrev Bytes := List UInt8

/-! ## The library's half-streams -/

structure SendStream where
  id : UInt64
  priority : Int32
  /-- Every byte accepted so far, in order: what was handed to the QUIC stream. -/
  written : Bytes
  /-- How many more bytes a write can hand over before it has to wait. -/
  credit : Nat
  finished : Bool
  resetCode : Option VarInt
  /-- The code the peer stopped the stream with. -/
  stopCode : Option VarInt
  /-- The peer acknowledged the finished stream in full, or its reset: the library let go of it. -/
  acked : Bool
  lost : Option ConnectionError
  deriving DecidableEq

structure RecvStream where
  id : UInt64
  /-- Every byte handed out so far, in order. -/
  consumed : Bytes
  /-- Bytes that arrived in order and were not read yet. -/
  buffer : Bytes
  /-- The end of the stream is known and everything before it has arrived. -/
  fin : Bool
  resetCode : Option VarInt
  /-- The code this side stopped the stream with. -/
  stopCode : Option VarInt
  /-- A read was told the end of the stream, or its reset. -/
  told : Bool
  /-- A `read_to_end` was polled: no read in order is possible any more. -/
  unordered : Bool
  /-- The library let go of the stream when it refused such a read. -/
  dropped : Bool
  lost : Option ConnectionError
  deriving DecidableEq

/-- How the library cuts what is buffered into chunks: the size of the next one. -/
class Chunking where
  size : RecvStream → Nat

/-- What a method hands back on success. -/
inductive Answer where
  | unit
  | bytes (data : Bytes)
  | chunk (data : Option Bytes)
  | priority (p : Int32)
  | id (n : UInt64)
  | code (c : Option UInt64)
  deriving DecidableEq

abbrev Result := Except IrohError Answer

/-- The library calls on a send half. -/
inductive SendOp where
  | writeAll (data : Bytes)
  | finish
  | reset (code : VarInt)
  | setPriority (p : Int32)
  | priority
  | id
  | stopped
  deriving DecidableEq

/-- The library calls on a receive half. -/
inductive RecvOp where
  | read (max : Nat)
  | readExact (n : Nat)
  | readToEnd (max : Nat)
  | stop (code : VarInt)
  | id
  deriving DecidableEq

abbrev StreamTurn := Turn Bytes Result

section Library

variable [Display StreamError] [Chunking]

/-- `map_err(IrohError::msg)` on a library result. -/
def fails (e : StreamError) : StreamTurn := .finish (.error (IrohError.msg e))

def answers (a : Answer) : StreamTurn := .finish (.ok a)

theorem fails_out (e : StreamError) : ¬ (fails e).phase.InLine := by simp [fails]

theorem answers_out (a : Answer) : ¬ (answers a).phase.InLine := by simp [answers]

namespace SendStream

/-- No more data can be written. -/
def closed (v : SendStream) : Bool := v.finished || v.resetCode.isSome

/-- Why a write fails, if it does. -/
def writeError (v : SendStream) : Option StreamError :=
  match v.lost with
  | some e => some (.writeLost e)
  | none => if v.closed then some .writeClosed else v.stopCode.map .writeStopped

/-- `data` is accepted. -/
def accept (v : SendStream) (data : Bytes) : SendStream :=
  { v with written := v.written ++ data, credit := v.credit - data.length }

/-- One turn of a library call on the send half; `p` is what `write_all` has still to
write, `x` how much of it this turn tries to. -/
def work (v : SendStream) (o : SendOp) (p : Bytes) (x : Nat) : Option (SendStream × StreamTurn) :=
  match o with
  | .writeAll _ =>
      if p = [] then some (v, answers .unit)
      else match v.writeError with
        | some e => some (v, fails e)
        | none =>
            let n := min x (min v.credit p.length)
            if n = 0 then none else some (v.accept (p.take n), .keep (p.drop n))
  | .finish =>
      if v.acked then some (v, fails .closedStream)
      -- nothing is finished on a stream the peer stopped, and nobody told
      else if v.stopCode.isSome then some (v, answers .unit)
      else if v.closed then some (v, fails .closedStream)
      else some ({ v with finished := true }, answers .unit)
  | .reset code =>
      if v.resetCode.isSome || v.acked then some (v, fails .closedStream)
      else some ({ v with resetCode := some code }, answers .unit)
  | .setPriority p =>
      if v.acked then some (v, fails .closedStream)
      else some ({ v with priority := p }, answers .unit)
  | .priority =>
      if v.acked then some (v, fails .closedStream) else some (v, answers (.priority v.priority))
  | .id => some (v, answers (.id v.id))
  | .stopped => some (v, .detach)

/-- What the future of `SendStream::stopped` resolves to, once it does. -/
def stoppedAnswer (v : SendStream) : Option Result :=
  if v.acked then some (.ok (.code none))
  else match v.stopCode with
    | some code => some (.ok (.code (some code.value)))
    | none => v.lost.map fun e => .error (IrohError.msg (StreamError.stoppedLost e))

end SendStream

/-- The buffer after the library wrote `data` to its front. -/
def fill (buf data : Bytes) : Bytes := data ++ buf.drop data.length

namespace RecvStream

/-- The next `n` buffered bytes are handed out. -/
def handOut (v : RecvStream) (n : Nat) : RecvStream :=
  { v with consumed := v.consumed ++ v.buffer.take n, buffer := v.buffer.drop n }

/-- Reads come to the end without a look at the stream (`all_data_read`). -/
def done (v : RecvStream) : Bool := v.told || v.stopCode.isSome

/-- The library has no state of the stream. -/
def forgotten (v : RecvStream) : Bool := v.told || v.dropped

/-- What still arrives is thrown away. -/
def gone (v : RecvStream) : Bool := v.stopCode.isSome || v.dropped

/-- A read is told the end, or the reset. -/
def tell (v : RecvStream) : RecvStream := { v with told := true }

/-- From now on chunks are read in any order. -/
def unorder (v : RecvStream) : RecvStream := { v with unordered := true }

/-- `n` of the buffered bytes are read into `room` bytes of space. With space left behind all
there is, the same call meets the end. -/
def readInto (v : RecvStream) (n room : Nat) : RecvStream :=
  if v.fin ∧ v.buffer.length ≤ n ∧ n < room then (v.handOut n).tell else v.handOut n

/-- The next chunk of a buffer that is not empty. -/
def chunk (v : RecvStream) : Nat := max 1 (min (Chunking.size v) v.buffer.length)

/-- What a read comes to before it looks for bytes, if anything: `atEnd` where there is no more
to tell, an error where the library has let go of the stream or does so now. -/
def refuses (v : RecvStream) (ordered : Bool) (atEnd : StreamTurn) (err : ReadError → StreamError) :
    Option (RecvStream × StreamTurn) :=
  if v.done then some (v, atEnd)
  else if v.forgotten then some (v, fails (err .closedStream))
  else if ordered && v.unordered then
    some ({ v with dropped := true }, fails (err .illegalOrderedRead))
  else none

/-- A read that finds nothing buffered: the reset or the end is told once, the loss of the
connection each time, and else it waits. -/
def starved (v : RecvStream) (atEnd : StreamTurn) (err : ReadError → StreamError) :
    Option (RecvStream × StreamTurn) :=
  match v.resetCode with
  | some code => some (v.tell, fails (err (.reset code)))
  | none =>
      if v.fin then some (v.tell, atEnd)
      else v.lost.map fun cause => (v, fails (err (.connectionLost cause)))

/-- One turn of a library call on the receive half; `p` is what a longer read has got so
far, `x` how much more a turn of `read_exact` takes. -/
def work (v : RecvStream) (o : RecvOp) (p : Bytes) (x : Nat) : Option (RecvStream × StreamTurn) :=
  match o with
  | .read max =>
      if max = 0 then some (v, answers (.chunk (some [])))
      else (v.refuses true (answers (.chunk none)) .read).or <|
        if v.buffer = [] then v.starved (answers (.chunk none)) .read
        else
          let n := min max v.buffer.length
          -- `recv` hands back its zeroed buffer, truncated to the bytes read
          some (v.readInto n max,
            answers (.chunk (some ((fill (List.replicate max 0) (v.buffer.take n)).take n))))
  | .readExact n =>
      if n ≤ p.length then some (v, answers (.bytes (fill (List.replicate n 0) p)))
      else (v.refuses true (fails (.finishedEarly p.length)) .read).or <|
        if v.buffer = [] then v.starved (fails (.finishedEarly p.length)) .read
        else
          let k := min x (min (n - p.length) v.buffer.length)
          if k = 0 then none
          else some (v.readInto k (n - p.length), .keep (p ++ v.buffer.take k))
  | .readToEnd max =>
      (v.refuses false (answers (.bytes p)) .readToEnd).or <|
        -- the first poll gives up the order, even if it then waits
        if !v.unordered then some (v.unorder, .keep p)
        else if v.buffer = [] then v.starved (answers (.bytes p)) .readToEnd
        else
          let k := v.chunk
          if max < p.length + k then some (v.handOut k, fails .tooLong)
          else some (v.handOut k, .keep (p ++ v.buffer.take k))
  | .stop code =>
      if v.stopCode.isSome || v.forgotten then some (v, fails .closedStream)
      else some ({ v with stopCode := some code, buffer := [] }, answers .unit)
  | .id => some (v, answers (.id v.id))

end RecvStream

/-! ### What a turn can do -/

namespace SendStream

variable {v v' : SendStream} {p : Bytes}

@[simp] theorem accept_writeError (data : Bytes) : (v.accept data).writeError = v.writeError := rfl

@[simp] theorem accept_credit (data : Bytes) : (v.accept data).credit = v.credit - data.length :=
  rfl

theorem accept_accept (as bs : Bytes) : (v.accept as).accept bs = v.accept (as ++ bs) := by
  simp [accept, Nat.sub_sub]

/-- A turn of `write_all` ends the call when nothing is left or the stream takes no data, or
hands over a non-empty part within the credit. -/
theorem work_writeAll {data : Bytes} {x : Nat} {turn : StreamTurn}
    (worked : v.work (.writeAll data) p x = some (v', turn)) :
    (p = [] ∧ v' = v ∧ turn = answers .unit) ∨
      (∃ e, v.writeError = some e ∧ v' = v ∧ turn = fails e) ∨
      ∃ n, 0 < n ∧ n ≤ v.credit ∧ n ≤ p.length ∧ v.writeError = none ∧
        turn = .keep (p.drop n) ∧ v' = v.accept (p.take n) := by
  simp only [work] at worked
  split at worked
  · rename_i empty
    cases worked
    exact .inl ⟨empty, rfl, rfl⟩
  · split at worked
    · rename_i e failed
      cases worked
      exact .inr (.inl ⟨e, failed, rfl, rfl⟩)
    · rename_i writable
      split at worked
      · cases worked
      · rename_i nonzero
        cases worked
        exact .inr (.inr ⟨_, by omega, by omega, by omega, writable, rfl, rfl⟩)

/-- `finish` fails on a closed stream, does nothing on one the peer stopped, and finishes an
open one. -/
theorem work_finish {x : Nat} {turn : StreamTurn} (worked : v.work .finish p x = some (v', turn)) :
    ((v.acked = true ∨ v.closed = true) ∧ v' = v ∧ turn = fails .closedStream) ∨
      (v.stopCode.isSome = true ∧ v' = v ∧ turn = answers .unit) ∨
      (v.closed = false ∧ v.stopCode = none ∧ v' = { v with finished := true } ∧
        turn = answers .unit) := by
  simp only [work] at worked
  split at worked
  · rename_i acked
    cases worked
    exact .inl ⟨.inl acked, rfl, rfl⟩
  split at worked
  · rename_i stopped
    cases worked
    exact .inr (.inl ⟨stopped, rfl, rfl⟩)
  rename_i heard
  split at worked
  · rename_i closed
    cases worked
    exact .inl ⟨.inr closed, rfl, rfl⟩
  · rename_i running
    cases worked
    exact .inr (.inr ⟨by simpa using running, by simpa using heard, rfl, rfl⟩)

/-- Every call but a write ends in its first turn, whatever the choice. -/
theorem work_prompt (o : SendOp) (transfer : ∀ data, o ≠ .writeAll data) (x : Nat) :
    v.work o p x = v.work o p 0 ∧ ∃ w turn, v.work o p 0 = some (w, turn) ∧
      ¬ turn.phase.InLine := by
  cases o with
  | writeAll data => exact absurd rfl (transfer data)
  | finish =>
      refine ⟨rfl, ?_⟩
      simp only [work]
      split
      · exact ⟨_, _, rfl, fails_out _⟩
      split
      · exact ⟨_, _, rfl, answers_out _⟩
      · split <;> first | exact ⟨_, _, rfl, fails_out _⟩ | exact ⟨_, _, rfl, answers_out _⟩
  | reset | setPriority | priority =>
      refine ⟨rfl, ?_⟩
      simp only [work]
      split <;> first | exact ⟨_, _, rfl, fails_out _⟩ | exact ⟨_, _, rfl, answers_out _⟩
  | id => exact ⟨rfl, _, _, rfl, answers_out _⟩
  | stopped => exact ⟨rfl, _, _, rfl, by simp⟩

/-- What no turn of a call takes back on a send half, and what none of them changes. -/
structure Moved (v v' : SendStream) : Prop where
  reset : ∀ k, v.resetCode = some k → v'.resetCode = some k
  finished : v.finished = true → v'.finished = true
  stop : v'.stopCode = v.stopCode
  acked : v'.acked = v.acked
  lost : v'.lost = v.lost

theorem work_moved {o : SendOp} {x : Nat} {turn : StreamTurn}
    (worked : v.work o p x = some (v', turn)) : Moved v v' := by
  cases o with
  | writeAll data =>
      obtain ⟨-, rfl, -⟩ | ⟨e, -, rfl, -⟩ | ⟨n, -, -, -, -, -, rfl⟩ := work_writeAll worked <;>
        exact ⟨fun _ known => known, fun done => done, rfl, rfl, rfl⟩
  | reset code =>
      simp only [work] at worked
      split at worked
      · cases worked
        exact ⟨fun _ known => known, fun done => done, rfl, rfl, rfl⟩
      · rename_i unset
        cases worked
        refine ⟨fun k known => ?_, fun done => done, rfl, rfl, rfl⟩
        simp [known] at unset
  | finish =>
      obtain ⟨-, rfl, -⟩ | ⟨-, rfl, -⟩ | ⟨-, -, rfl, -⟩ := work_finish worked <;>
        exact ⟨fun _ known => known, by simp, rfl, rfl, rfl⟩
  | setPriority | priority =>
      simp only [work] at worked
      split at worked <;> cases worked <;> exact ⟨fun _ known => known, by simp, rfl, rfl, rfl⟩
  | id | stopped =>
      cases worked
      exact ⟨fun _ known => known, fun done => done, rfl, rfl, rfl⟩

theorem Moved.closed (moved : Moved v v') (closed : v.closed = true) : v'.closed = true := by
  rcases Bool.or_eq_true_iff.mp closed with finished | reset
  · simp [SendStream.closed, moved.finished finished]
  · obtain ⟨code, known⟩ := Option.isSome_iff_exists.mp reset
    simp [SendStream.closed, moved.reset code known]

end SendStream

theorem fill_take (buf data : Bytes) : (fill buf data).take data.length = data := by
  simp [fill]

/-- A buffer written over its whole length holds the data. -/
theorem fill_all {buf data : Bytes} (whole : buf.length ≤ data.length) : fill buf data = data := by
  simp [fill, List.drop_eq_nil_of_le whole]

namespace RecvStream

variable {v v' : RecvStream} {p : Bytes} {x : Nat} {turn atEnd : StreamTurn} {ordered : Bool}
  {err : ReadError → StreamError}

/-- A read gets to look for bytes. -/
structure Open (v : RecvStream) (ordered : Bool) : Prop where
  undone : v.done = false
  kept : v.forgotten = false
  fits : (ordered && v.unordered) = false

/-- How a read ends without taking anything, and what it leaves. -/
inductive EndsRead (v : RecvStream) (ordered : Bool) (atEnd : StreamTurn)
    (err : ReadError → StreamError) : RecvStream → StreamTurn → Prop
  | known (done : v.done = true) : EndsRead v ordered atEnd err v atEnd
  | closed (undone : v.done = false) (forgotten : v.forgotten = true) :
      EndsRead v ordered atEnd err v (fails (err .closedStream))
  | refused (undone : v.done = false) (kept : v.forgotten = false)
      (unfit : (ordered && v.unordered) = true) :
      EndsRead v ordered atEnd err { v with dropped := true } (fails (err .illegalOrderedRead))
  | reset (code : VarInt) (open' : v.Open ordered) (empty : v.buffer = [])
      (known : v.resetCode = some code) :
      EndsRead v ordered atEnd err v.tell (fails (err (.reset code)))
  | ended (open' : v.Open ordered) (empty : v.buffer = []) (intact : v.resetCode = none)
      (fin : v.fin = true) : EndsRead v ordered atEnd err v.tell atEnd
  | lost (cause : ConnectionError) (open' : v.Open ordered) (empty : v.buffer = [])
      (intact : v.resetCode = none) (running : v.fin = false) (known : v.lost = some cause) :
      EndsRead v ordered atEnd err v (fails (err (.connectionLost cause)))

theorem EndsRead.ended_or_failed (ends : v.EndsRead ordered atEnd err v' turn) :
    turn = atEnd ∨ ∃ e, turn = fails (err e) := by
  cases ends with
  | known | ended => exact .inl rfl
  | closed | refused | reset | lost => exact .inr ⟨_, rfl⟩

/-- A read that ends is out of the line. -/
theorem EndsRead.out (ends : v.EndsRead ordered atEnd err v' turn)
    (out : ¬ atEnd.phase.InLine) : ¬ turn.phase.InLine := by
  obtain rfl | ⟨e, rfl⟩ := ends.ended_or_failed
  · exact out
  · exact fails_out _

theorem refuses_eq_none : v.refuses ordered atEnd err = none ↔ v.Open ordered := by
  unfold refuses
  constructor
  · intro passes
    split at passes
    · cases passes
    split at passes
    · cases passes
    split at passes
    · cases passes
    exact ⟨by simp_all, by simp_all, by simp_all⟩
  · rintro ⟨undone, kept, fits⟩
    simp [undone, kept, fits]

theorem ends_of_refuses (refused : v.refuses ordered atEnd err = some (v', turn)) :
    v.EndsRead ordered atEnd err v' turn := by
  unfold refuses at refused
  split at refused
  · rename_i done
    cases refused
    exact .known done
  rename_i undone
  split at refused
  · rename_i forgotten
    cases refused
    exact .closed (by simpa using undone) forgotten
  rename_i kept
  split at refused
  · rename_i unfit
    cases refused
    exact .refused (by simpa using undone) (by simpa using kept) unfit
  · cases refused

theorem ends_of_starved (open' : v.Open ordered) (empty : v.buffer = [])
    (starved : v.starved atEnd err = some (v', turn)) :
    v.EndsRead ordered atEnd err v' turn := by
  unfold RecvStream.starved at starved
  split at starved
  · rename_i code known
    cases starved
    exact .reset code open' empty known
  · rename_i intact
    split at starved
    · rename_i fin
      cases starved
      exact .ended open' empty intact fin
    · rename_i running
      obtain ⟨cause, known, same⟩ := Option.map_eq_some_iff.mp starved
      cases same
      exact .lost cause open' empty intact (by simpa using running) known

/-- A turn of `read` ends the call: with nothing asked for, without a byte, or with all that is
buffered and fits. -/
theorem work_read {max : Nat} (worked : v.work (.read max) p x = some (v', turn)) :
    (max = 0 ∧ v' = v ∧ turn = answers (.chunk (some []))) ∨
      (max ≠ 0 ∧ v.EndsRead true (answers (.chunk none)) .read v' turn) ∨
      (max ≠ 0 ∧ v.Open true ∧ v.buffer ≠ [] ∧ v' = v.readInto (min max v.buffer.length) max ∧
        turn = answers (.chunk (some (v.buffer.take (min max v.buffer.length))))) := by
  simp only [work] at worked
  split at worked
  · rename_i nothing
    cases worked
    exact .inl ⟨nothing, rfl, rfl⟩
  rename_i asked
  obtain refused | ⟨passes, worked⟩ := Option.or_eq_some_iff.mp worked
  · exact .inr (.inl ⟨asked, ends_of_refuses refused⟩)
  have open' : v.Open true := refuses_eq_none.mp passes
  split at worked
  · rename_i empty
    exact .inr (.inl ⟨asked, ends_of_starved open' empty worked⟩)
  · rename_i buffered
    cases worked
    refine .inr (.inr ⟨asked, open', buffered, rfl, ?_⟩)
    have length : (v.buffer.take (min max v.buffer.length)).length = min max v.buffer.length := by
      rw [List.length_take]
      omega
    have truncated := fill_take (List.replicate max 0) (v.buffer.take (min max v.buffer.length))
    rw [length] at truncated
    rw [truncated]

/-- A turn of `read_exact` ends the call with exactly the bytes it got, or without them, or gets
a non-empty part of what is missing. -/
theorem work_readExact {n : Nat} (worked : v.work (.readExact n) p x = some (v', turn)) :
    (n ≤ p.length ∧ v' = v ∧ turn = answers (.bytes p)) ∨
      (p.length < n ∧ v.EndsRead true (fails (.finishedEarly p.length)) .read v' turn) ∨
      ∃ k, 0 < k ∧ k ≤ n - p.length ∧ k ≤ v.buffer.length ∧ v.Open true ∧
        v' = v.readInto k (n - p.length) ∧ turn = .keep (p ++ v.buffer.take k) := by
  simp only [work] at worked
  split at worked
  · rename_i all
    cases worked
    refine .inl ⟨all, rfl, ?_⟩
    rw [fill_all (by simpa using all)]
  rename_i missing
  obtain refused | ⟨passes, worked⟩ := Option.or_eq_some_iff.mp worked
  · exact .inr (.inl ⟨by omega, ends_of_refuses refused⟩)
  have open' : v.Open true := refuses_eq_none.mp passes
  split at worked
  · rename_i empty
    exact .inr (.inl ⟨by omega, ends_of_starved open' empty worked⟩)
  split at worked
  · cases worked
  · cases worked
    exact .inr (.inr ⟨_, by omega, by omega, by omega, open', rfl, rfl⟩)

theorem chunk_pos : 0 < v.chunk := by
  unfold chunk
  omega

theorem chunk_le (buffered : v.buffer ≠ []) : v.chunk ≤ v.buffer.length := by
  have pos : 0 < v.buffer.length := List.length_pos_iff.mpr buffered
  unfold chunk
  omega

/-- A turn of `read_to_end` ends the call without a byte, gives up the order, or takes a chunk:
one too many, or one more. -/
theorem work_readToEnd {max : Nat} (worked : v.work (.readToEnd max) p x = some (v', turn)) :
    (v.EndsRead false (answers (.bytes p)) .readToEnd v' turn ∧
        (v.Open false → v.unordered = true)) ∨
      (v.Open false ∧ v.unordered = false ∧ v' = v.unorder ∧ turn = .keep p) ∨
      (v.Open false ∧ v.unordered = true ∧ v.buffer ≠ [] ∧ v' = v.handOut v.chunk ∧
        ((max < p.length + v.chunk ∧ turn = fails .tooLong) ∨
          (p.length + v.chunk ≤ max ∧ turn = .keep (p ++ v.buffer.take v.chunk)))) := by
  simp only [work] at worked
  obtain refused | ⟨passes, worked⟩ := Option.or_eq_some_iff.mp worked
  · refine .inl ⟨ends_of_refuses refused, fun open' => ?_⟩
    rw [refuses_eq_none.mpr open'] at refused
    cases refused
  have open' : v.Open false := refuses_eq_none.mp passes
  split at worked
  · rename_i first
    cases worked
    exact .inr (.inl ⟨open', by simpa using first, rfl, rfl⟩)
  rename_i again
  split at worked
  · rename_i empty
    exact .inl ⟨ends_of_starved open' empty worked, fun _ => by simpa using again⟩
  rename_i buffered
  split at worked
  · rename_i long
    cases worked
    exact .inr (.inr ⟨open', by simpa using again, buffered, rfl, .inl ⟨long, rfl⟩⟩)
  · rename_i short
    cases worked
    exact .inr (.inr ⟨open', by simpa using again, buffered, rfl, .inr ⟨by omega, rfl⟩⟩)

/-- `stop` fails where the stream was stopped or the library let go of it. -/
theorem work_stop {code : VarInt} (worked : v.work (.stop code) p x = some (v', turn)) :
    ((v.stopCode.isSome || v.forgotten) = true ∧ v' = v ∧ turn = fails .closedStream) ∨
      (v.stopCode = none ∧ v.forgotten = false ∧
        v' = { v with stopCode := some code, buffer := [] } ∧ turn = answers .unit) := by
  simp only [work] at worked
  split at worked
  · rename_i spent
    cases worked
    exact .inl ⟨spent, rfl, rfl⟩
  · rename_i taken
    cases worked
    rw [Bool.or_eq_true, not_or, Option.not_isSome_iff_eq_none, Bool.not_eq_true] at taken
    exact .inr ⟨taken.1, taken.2, rfl, rfl⟩

end RecvStream

end Library

/-! ## The methods -/

/-- The two mutexes of an `IrohStream`; the one of an `IrohSendStream` or `IrohRecvStream`. -/
inductive Half where
  | send
  | recv
  deriving DecidableEq

/-- A library call on the half its guard gives access to. -/
inductive Op where
  | send (o : SendOp)
  | recv (o : RecvOp)
  deriving DecidableEq

def Op.half : Op → Half
  | .send _ => .send
  | .recv _ => .recv

structure Request where
  /-- `blocking_lock()` instead of `lock().await`. -/
  blocking : Bool
  op : Op
  deriving DecidableEq

/-- A method call: the request it makes under the mutex, or the error it returns first. -/
abbrev Method := Except IrohError Request

/-- `let mut half = self.half.lock().await; half.op(..).await`. -/
def locked (op : Op) : Method := .ok ⟨false, op⟩

/-- `let mut half = self.half.blocking_lock(); half.op(..)`. -/
def blockingLocked (op : Op) : Method := .ok ⟨true, op⟩

section Methods

variable [Display VarIntBoundsExceeded]

/-- `let code = VarInt::from_u64(error_code).map_err(IrohError::msg)?;` before the lock. -/
def withCode (errorCode : UInt64) (op : VarInt → Op) : Method :=
  match VarInt.fromU64 errorCode with
  | .ok code => blockingLocked (op code)
  | .error e => .error (IrohError.msg e)

namespace IrohStream

def sendBytes (data : Bytes) : Method := locked (.send (.writeAll data))
def recv (max : UInt32) : Method := locked (.recv (.read max.toNat))
def finish : Method := locked (.send .finish)
def readExact (n : UInt32) : Method := locked (.recv (.readExact n.toNat))
def readToEnd (max : UInt32) : Method := locked (.recv (.readToEnd max.toNat))
def setPriority (priority : Int32) : Method := blockingLocked (.send (.setPriority priority))
def priority : Method := blockingLocked (.send .priority)
def reset (errorCode : UInt64) : Method := withCode errorCode fun code => .send (.reset code)
def stop (errorCode : UInt64) : Method := withCode errorCode fun code => .recv (.stop code)
def sendId : Method := blockingLocked (.send .id)
def recvId : Method := blockingLocked (.recv .id)

end IrohStream

namespace IrohSendStream

def sendBytes (data : Bytes) : Method := locked (.send (.writeAll data))
def finish : Method := locked (.send .finish)
def reset (errorCode : UInt64) : Method := withCode errorCode fun code => .send (.reset code)
def setPriority (priority : Int32) : Method := blockingLocked (.send (.setPriority priority))
def priority : Method := blockingLocked (.send .priority)
/-- The guard is a temporary of the first statement: it is gone before the await. -/
def stopped : Method := locked (.send .stopped)
def id : Method := blockingLocked (.send .id)

end IrohSendStream

namespace IrohRecvStream

def recv (max : UInt32) : Method := locked (.recv (.read max.toNat))
def readExact (n : UInt32) : Method := locked (.recv (.readExact n.toNat))
def readToEnd (max : UInt32) : Method := locked (.recv (.readToEnd max.toNat))
def stop (errorCode : UInt64) : Method := withCode errorCode fun code => .recv (.stop code)
def id : Method := blockingLocked (.recv .id)

end IrohRecvStream

end Methods

/-! ## The calls of an object -/

/-- A send half and a receive half: those of one `IrohStream`, or the two ends of one
direction. -/
structure Halves where
  send : SendStream
  recv : RecvStream
  deriving DecidableEq

/-- Two halves nothing was done with yet, the peer having granted `credit`. -/
def Halves.opened (credit : Nat) : Halves where
  send := ⟨0, 0, [], credit, false, none, none, false, none⟩
  recv := ⟨0, [], [], false, none, none, false, false, false, none⟩

section System

variable [Display StreamError] [Chunking]

def discipline : Discipline Half Halves Method Bytes Result Nat where
  route
    | .ok q => .ok q.op.half
    | .error e => .error (.error e)
  start
    | .ok ⟨_, .send (.writeAll data)⟩ => data
    | _ => []
  work r m p x :=
    match m with
    | .ok ⟨_, .send o⟩ => (r.send.work o p x).map fun vt => ({ r with send := vt.1 }, vt.2)
    | .ok ⟨_, .recv o⟩ => (r.recv.work o p x).map fun vt => ({ r with recv := vt.1 }, vt.2)
    | .error _ => none
  resolve r
    | .ok ⟨_, .send .stopped⟩ => r.send.stoppedAnswer
    | _ => none
  cancellable
    | .ok q => !q.blocking
    | .error _ => false

abbrev StreamState := State Half Halves Method Bytes Result

section Discipline

variable {r r' : Halves} {m : Method} {p : Bytes} {x : Nat} {turn : StreamTurn} {b : Bool}

theorem route_send : discipline.route m = .ok .send ↔ ∃ b o, m = .ok ⟨b, .send o⟩ := by
  rcases m with e | ⟨b, o | o⟩ <;> simp [discipline, Op.half]

theorem route_recv : discipline.route m = .ok .recv ↔ ∃ b o, m = .ok ⟨b, .recv o⟩ := by
  rcases m with e | ⟨b, o | o⟩ <;> simp [discipline, Op.half]

/-- A turn on the send half is a turn of the library's send stream, and leaves the other. -/
theorem work_send {o : SendOp} :
    discipline.work r (.ok ⟨b, .send o⟩) p x = some (r', turn) ↔
      ∃ v, r.send.work o p x = some (v, turn) ∧ r' = { r with send := v } := by
  simp only [discipline, Option.map_eq_some_iff, Prod.exists, Prod.mk.injEq]
  constructor
  · rintro ⟨v, turn, worked, rfl, rfl⟩
    exact ⟨v, worked, rfl⟩
  · rintro ⟨v, worked, rfl⟩
    exact ⟨v, turn, worked, rfl, rfl⟩

theorem work_recv {o : RecvOp} :
    discipline.work r (.ok ⟨b, .recv o⟩) p x = some (r', turn) ↔
      ∃ v, r.recv.work o p x = some (v, turn) ∧ r' = { r with recv := v } := by
  simp only [discipline, Option.map_eq_some_iff, Prod.exists, Prod.mk.injEq]
  constructor
  · rintro ⟨v, turn, worked, rfl, rfl⟩
    exact ⟨v, worked, rfl⟩
  · rintro ⟨v, worked, rfl⟩
    exact ⟨v, turn, worked, rfl, rfl⟩

end Discipline

end System

/-! ## The environments -/

/-- What an arbitrary peer and the connection do to the two halves of one object. -/
inductive PeerEvent where
  | grant (n : Nat)
  | stopSending (code : VarInt)
  | ack
  | arrive (data : Bytes)
  | fin
  | reset (code : VarInt)
  | lose (cause : ConnectionError)
  deriving DecidableEq

def peer (r : Halves) : PeerEvent → Option Halves
  | .grant n => some { r with send := { r.send with credit := r.send.credit + n } }
  | .stopSending code =>
      if r.send.stopCode.isSome then none
      else some { r with send := { r.send with stopCode := some code } }
  | .ack => if r.send.closed then some { r with send := { r.send with acked := true } } else none
  | .arrive data =>
      if r.recv.fin || r.recv.resetCode.isSome || r.recv.gone then none
      else some { r with recv := { r.recv with buffer := r.recv.buffer ++ data } }
  | .fin =>
      if r.recv.resetCode.isSome then none else some { r with recv := { r.recv with fin := true } }
  -- a reset takes back what was not read yet, the end included
  | .reset code =>
      if r.recv.resetCode.isSome || r.recv.told then none
      else some { r with recv := { r.recv with resetCode := some code, buffer := [] } }
  | .lose e =>
      some { send := { r.send with lost := some e }, recv := { r.recv with lost := some e } }

/-- What the network does between a sender's half and the peer's receiving half. -/
inductive NetEvent where
  | grant (n : Nat)
  | deliver (n : Nat)
  | deliverFin
  | deliverReset
  | deliverStop
  | ack
  | lose (cause : ConnectionError)
  deriving DecidableEq

/-- How many bytes of the stream have arrived at the receiver. -/
def Halves.arrived (r : Halves) : Nat := r.recv.consumed.length + r.recv.buffer.length

/-- Everything the sender will send, or its reset, has come to the receiver. -/
def Halves.delivered (r : Halves) : Bool :=
  if r.send.resetCode.isSome then r.recv.resetCode.isSome || r.recv.told || r.recv.gone
  else r.send.finished && (r.recv.fin || r.recv.gone)

def network (r : Halves) : NetEvent → Option Halves
  | .grant n => some { r with send := { r.send with credit := r.send.credit + n } }
  | .deliver n =>
      if r.recv.fin || r.recv.resetCode.isSome || r.recv.gone then none
      else some { r with recv := { r.recv with
        buffer := r.recv.buffer ++ (r.send.written.drop r.arrived).take n } }
  | .deliverFin =>
      if r.send.finished && r.recv.resetCode.isNone && !r.recv.gone &&
          r.arrived == r.send.written.length then
        some { r with recv := { r.recv with fin := true } }
      else none
  | .deliverReset =>
      match r.send.resetCode with
      | some code =>
          if r.recv.resetCode.isSome || r.recv.told then none
          else some { r with recv := { r.recv with resetCode := some code, buffer := [] } }
      | none => none
  | .deliverStop =>
      match r.recv.stopCode with
      | some code =>
          if r.send.stopCode.isSome then none
          else some { r with send := { r.send with stopCode := some code } }
      | none => none
  | .ack => if r.delivered then some { r with send := { r.send with acked := true } } else none
  | .lose e =>
      some { send := { r.send with lost := some e }, recv := { r.recv with lost := some e } }

/-- Everything a step of the network can do to the two halves. -/
inductive NetMoves (r : Halves) : Halves → Prop
  | grant (n : Nat) : NetMoves r { r with send := { r.send with credit := r.send.credit + n } }
  | deliver (n : Nat) (running : r.recv.fin = false) (intact : r.recv.resetCode = none)
      (reading : r.recv.stopCode = none) :
      NetMoves r { r with recv := { r.recv with
        buffer := r.recv.buffer ++ (r.send.written.drop r.arrived).take n } }
  | fin (finished : r.send.finished = true) (intact : r.recv.resetCode = none)
      (reading : r.recv.stopCode = none) (whole : r.arrived = r.send.written.length) :
      NetMoves r { r with recv := { r.recv with fin := true } }
  | reset (code : VarInt) (known : r.send.resetCode = some code) (intact : r.recv.resetCode = none)
      (untold : r.recv.told = false) :
      NetMoves r { r with recv := { r.recv with resetCode := some code, buffer := [] } }
  | stop (code : VarInt) (known : r.recv.stopCode = some code) (unheard : r.send.stopCode = none) :
      NetMoves r { r with send := { r.send with stopCode := some code } }
  | ack (delivered : r.delivered = true) :
      NetMoves r { r with send := { r.send with acked := true } }
  | lose (cause : ConnectionError) :
      NetMoves r { send := { r.send with lost := some cause },
                   recv := { r.recv with lost := some cause } }

theorem network_moves {r r' : Halves} {e : NetEvent} (moved : network r e = some r') :
    NetMoves r r' := by
  have read : ∀ {v : RecvStream}, v.gone = false → v.stopCode = none := by
    intro v kept
    simp only [RecvStream.gone, Bool.or_eq_false_iff, Option.isSome_eq_false_iff,
      Option.isNone_iff_eq_none] at kept
    exact kept.1
  cases e with
  | grant n =>
      cases moved
      exact .grant n
  | deliver n =>
      simp only [network, Option.ite_none_left_eq_some, Bool.or_eq_true, not_or, Bool.not_eq_true,
        Option.isSome_eq_false_iff, Option.isNone_iff_eq_none] at moved
      obtain ⟨⟨⟨running, intact⟩, reading⟩, same⟩ := moved
      cases same
      exact .deliver n running intact (read reading)
  | deliverFin =>
      simp only [network, Option.ite_none_right_eq_some, Bool.and_eq_true,
        Option.isNone_iff_eq_none, beq_iff_eq, Bool.not_eq_true'] at moved
      obtain ⟨⟨⟨⟨finished, intact⟩, reading⟩, whole⟩, same⟩ := moved
      cases same
      exact .fin finished intact (read reading) whole
  | deliverReset =>
      simp only [network] at moved
      split at moved
      · rename_i code known
        rw [Option.ite_none_left_eq_some, Bool.or_eq_true, not_or, Option.not_isSome_iff_eq_none,
          Bool.not_eq_true] at moved
        obtain ⟨⟨intact, untold⟩, same⟩ := moved
        cases same
        exact .reset code known intact untold
      · cases moved
  | deliverStop =>
      simp only [network] at moved
      split at moved
      · rename_i code known
        rw [Option.ite_none_left_eq_some, Option.not_isSome_iff_eq_none] at moved
        obtain ⟨unheard, same⟩ := moved
        cases same
        exact .stop code known unheard
      · cases moved
  | ack =>
      simp only [network, Option.ite_none_right_eq_some] at moved
      obtain ⟨delivered, same⟩ := moved
      cases same
      exact .ack delivered
  | lose cause =>
      cases moved
      exact .lose cause

/-- Only a stream that was finished or reset is acknowledged. -/
theorem Halves.closed_of_delivered {r : Halves} (delivered : r.delivered = true) :
    r.send.closed = true := by
  unfold Halves.delivered at delivered
  split at delivered
  · rename_i reset
    simp [SendStream.closed, reset]
  · rw [Bool.and_eq_true] at delivered
    simp [SendStream.closed, delivered.1]

end IrohKmp.Runtime.Stream
