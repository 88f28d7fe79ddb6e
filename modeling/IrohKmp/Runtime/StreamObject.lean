/-
# Runtime.StreamObject — a stream half as its callers see it

`IrohStream`, `IrohSendStream` and `IrohRecvStream` are handed out behind an `Arc`, so any
number of tasks and threads call them at once, and any of the awaits can be dropped. What the
callers are promised is a plain object: each call happens as a whole, one after the other.

* `SendObject`, `RecvObject` — the object behind each mutex: what the calls share, without the
  peer's side and the connection;
* `SendOp.Did`, `RecvOp.Did` — what one call does to it, for each answer it can give, and what
  it leaves when it is cancelled or still going on;
* `Bystands` — what every environment here leaves to the calls;
* `send_linear`, `recv_linear` — every run of any methods is such a sequence of calls, in the
  order of the mutex, which is the order in time of calls that do not overlap.

A write that is cut off leaves a part of its payload; a `recv` that is cut off leaves nothing,
while `read_exact` and `read_to_end` lose what they have read so far, and a `read_to_end` that
was polled leaves no read in order behind it.
-/
import IrohKmp.Runtime.StreamIntegrity
import IrohKmp.Theory.GuardedSequence

namespace IrohKmp.Runtime.Stream

open IrohKmp.Kernel
open IrohKmp.Theory.Run
open IrohKmp.Theory.Guarded

set_option autoImplicit false
set_option linter.unusedSectionVars false

/-! ## The objects -/

/-- What the calls of a send half share. -/
structure SendObject where
  id : UInt64
  priority : Int32
  written : Bytes
  finished : Bool
  resetCode : Option VarInt
  deriving DecidableEq

def SendStream.object (v : SendStream) : SendObject :=
  ⟨v.id, v.priority, v.written, v.finished, v.resetCode⟩

namespace SendObject

def closed (v : SendObject) : Bool := v.finished || v.resetCode.isSome

def push (v : SendObject) (data : Bytes) : SendObject := { v with written := v.written ++ data }

theorem push_nil (v : SendObject) : v.push [] = v := by simp [push]

theorem push_push (v : SendObject) (as bs : Bytes) : (v.push as).push bs = v.push (as ++ bs) := by
  simp [push]

end SendObject

/-- What the calls of a receive half share. -/
structure RecvObject where
  id : UInt64
  consumed : Bytes
  stopCode : Option VarInt
  told : Bool
  unordered : Bool
  dropped : Bool
  deriving DecidableEq

def RecvStream.object (v : RecvStream) : RecvObject :=
  ⟨v.id, v.consumed, v.stopCode, v.told, v.unordered, v.dropped⟩

namespace RecvObject

def push (v : RecvObject) (data : Bytes) : RecvObject := { v with consumed := v.consumed ++ data }

def tell (v : RecvObject) : RecvObject := { v with told := true }

def unorder (v : RecvObject) : RecvObject := { v with unordered := true }

def done (v : RecvObject) : Bool := v.told || v.stopCode.isSome

def forgotten (v : RecvObject) : Bool := v.told || v.dropped

/-- A read gets to look for bytes. -/
structure Open (v : RecvObject) (ordered : Bool) : Prop where
  undone : v.done = false
  kept : v.forgotten = false
  fits : (ordered && v.unordered) = false

theorem push_nil (v : RecvObject) : v.push [] = v := by simp [push]

theorem push_push (v : RecvObject) (as bs : Bytes) : (v.push as).push bs = v.push (as ++ bs) := by
  simp [push]

theorem open_of_push {v : RecvObject} {data : Bytes} {ordered : Bool}
    (open' : (v.push data).Open ordered) : v.Open ordered := ⟨open'.1, open'.2, open'.3⟩

theorem not_open_tell (v : RecvObject) (ordered : Bool) : ¬ v.tell.Open ordered := by
  intro open'
  simpa [tell, done] using open'.undone

end RecvObject

section Library

variable [Display StreamError] [Chunking]

/-! ## What a call does to its object -/

/-- The part `seg` of its payload that a write which stands at `ph` has handed over. -/
def Wrote (data : Bytes) : Phase Bytes Result → Bytes → Prop
  | .holding p, seg => seg ++ p = data
  | .ended (.ok a), seg => a = .unit ∧ seg = data
  | .ended (.error _), seg => seg <+: data ∧ seg ≠ data
  | _, seg => seg <+: data

/-- What a call on the send half which stands at `ph` has done to the object. -/
def SendOp.Did (r : Halves) : SendOp → Phase Bytes Result → SendObject → SendObject → Prop
  | .writeAll data, ph, v, w =>
      ∃ seg, Wrote data ph seg ∧ (seg ≠ [] → v.closed = false) ∧ w = v.push seg
  | .finish, .ended (.ok a), v, w =>
      a = .unit ∧ ((v.closed = false ∧ w = { v with finished := true }) ∨
        -- the peer had stopped the stream
        (r.send.stopCode.isSome = true ∧ w = v))
  | .reset code, .ended (.ok a), v, w =>
      a = .unit ∧ v.resetCode = none ∧ w = { v with resetCode := some code }
  | .setPriority p, .ended (.ok a), v, w => a = .unit ∧ w = { v with priority := p }
  | .priority, .ended (.ok a), v, w => a = .priority v.priority ∧ w = v
  | .finish, .ended (.error e), v, w | .reset _, .ended (.error e), v, w
  | .setPriority _, .ended (.error e), v, w | .priority, .ended (.error e), v, w =>
      e = IrohError.msg StreamError.closedStream ∧ v.closed = true ∧ w = v
  | .id, .ended a, v, w => a = .ok (.id v.id) ∧ w = v
  | _, _, v, w => w = v

/-- Every call but a write leaves the bytes. -/
theorem SendOp.Did.written {r : Halves} {o : SendOp} {ph : Phase Bytes Result} {v w : SendObject}
    (other : ∀ data, o ≠ .writeAll data) (did : o.Did r ph v w) : w.written = v.written := by
  cases o with
  | writeAll data => exact absurd rfl (other data)
  | finish =>
      rcases ph with _ | p | _ | ⟨e | a⟩ | _
      case ended.error => rw [did.2.2]
      case ended.ok => obtain ⟨-, ⟨-, rfl⟩ | ⟨-, rfl⟩⟩ := did <;> rfl
      all_goals exact congrArg SendObject.written did
  | reset code =>
      rcases ph with _ | p | _ | ⟨e | a⟩ | _
      case ended.error | ended.ok => rw [did.2.2]
      all_goals exact congrArg SendObject.written did
  | setPriority q | priority =>
      rcases ph with _ | p | _ | ⟨e | a⟩ | _
      case ended.error => rw [did.2.2]
      case ended.ok => rw [did.2]
      all_goals exact congrArg SendObject.written did
  | id =>
      rcases ph with _ | p | _ | a | _
      case ended => rw [did.2]
      all_goals exact congrArg SendObject.written did
  | stopped => exact congrArg SendObject.written did

namespace RecvObject

/-- How a read ends without a byte, and what it leaves. -/
inductive EndsRead (v : RecvObject) (ordered : Bool) (atEnd : Result)
    (err : ReadError → StreamError) : RecvObject → Result → Prop
  | known (done : v.done = true) : EndsRead v ordered atEnd err v atEnd
  | closed (undone : v.done = false) (forgotten : v.forgotten = true) :
      EndsRead v ordered atEnd err v (.error (IrohError.msg (err .closedStream)))
  | refused (undone : v.done = false) (kept : v.forgotten = false)
      (unfit : (ordered && v.unordered) = true) :
      EndsRead v ordered atEnd err { v with dropped := true }
        (.error (IrohError.msg (err .illegalOrderedRead)))
  | reset (code : VarInt) (open' : v.Open ordered) :
      EndsRead v ordered atEnd err v.tell (.error (IrohError.msg (err (.reset code))))
  | ended (open' : v.Open ordered) : EndsRead v ordered atEnd err v.tell atEnd
  | lost (cause : ConnectionError) (open' : v.Open ordered) :
      EndsRead v ordered atEnd err v (.error (IrohError.msg (err (.connectionLost cause))))

/-- A read that asks for `n` bytes has got `got` of them. One that met the end behind what it
got was told so. -/
def Gets (v : RecvObject) (n : Nat) (got : Bytes) (w : RecvObject) : Prop :=
  got.length ≤ n ∧ ((got = [] ∧ w = v) ∨
    (got ≠ [] ∧ v.Open true ∧ (w = v.push got ∨ (got.length < n ∧ w = (v.push got).tell))))

/-- A read of the whole rest, of `max` bytes at most, has got `got`: it has not been polled, or
has given up the order. -/
def Gathers (v : RecvObject) (max : Nat) (got : Bytes) (w : RecvObject) : Prop :=
  (got = [] ∧ w = v) ∨ (v.Open false ∧ got.length ≤ max ∧ w = (v.push got).unorder)

end RecvObject

open RecvObject in
/-- What a call on the receive half which stands at `ph` has done to the object. -/
def RecvOp.Did : RecvOp → Phase Bytes Result → RecvObject → RecvObject → Prop
  | .read max, .ended a, v, w =>
      (max = 0 ∧ a = .ok (.chunk (some [])) ∧ w = v) ∨
        (max ≠ 0 ∧ v.EndsRead true (.ok (.chunk none)) .read w a) ∨
        ∃ got, got ≠ [] ∧ v.Gets max got w ∧ a = .ok (.chunk (some got))
  | .read _, .holding p, v, w => p = [] ∧ w = v
  | .read _, _, v, w => w = v
  | .readExact n, .ended a, v, w =>
      ∃ got u, v.Gets n got u ∧ ((got.length = n ∧ w = u ∧ a = .ok (.bytes got)) ∨
        (got.length < n ∧ u.EndsRead true
          (.error (IrohError.msg (StreamError.finishedEarly got.length))) .read w a))
  | .readExact n, .holding p, v, w => v.Gets n p w
  | .readExact n, _, v, w => ∃ got, v.Gets n got w
  | .readToEnd max, .ended a, v, w =>
      (∃ got u, v.Gathers max got u ∧ (u.Open false → u.unordered = true) ∧
        u.EndsRead false (.ok (.bytes got)) .readToEnd w a) ∨
      ∃ got, v.Open false ∧ max < got.length ∧ w = (v.push got).unorder ∧
        a = .error (IrohError.msg StreamError.tooLong)
  | .readToEnd max, .holding p, v, w => v.Gathers max p w
  | .readToEnd max, _, v, w => ∃ got, v.Gathers max got w
  | .stop code, .ended (.ok a), v, w =>
      a = .unit ∧ v.stopCode = none ∧ v.forgotten = false ∧ w = { v with stopCode := some code }
  | .stop _, .ended (.error e), v, w =>
      e = IrohError.msg StreamError.closedStream ∧ (v.stopCode.isSome || v.forgotten) = true ∧ w = v
  | .id, .ended a, v, w => a = .ok (.id v.id) ∧ w = v
  | .stop _, _, v, w | .id, _, v, w => w = v

def SendDid (r : Halves) : Method → Phase Bytes Result → SendObject → SendObject → Prop
  | .ok ⟨_, .send o⟩, ph, v, w => o.Did r ph v w
  | _, _, v, w => w = v

def RecvDid : Method → Phase Bytes Result → RecvObject → RecvObject → Prop
  | .ok ⟨_, .recv o⟩, ph, v, w => o.Did ph v w
  | _, _, v, w => w = v

/-! ## The environment stands by -/

/-- Only a closed stream is acknowledged. -/
def Settled (r : Halves) : Prop := r.send.acked = true → r.send.closed = true

/-- The environment leaves both objects alone, acknowledges only closed streams, and never takes
a stop back. -/
structure Bystands {E : Type} (env : Halves → E → Option Halves) : Prop where
  send : ∀ r e r', env r e = some r' → r'.send.object = r.send.object
  recv : ∀ r e r', env r e = some r' → r'.recv.object = r.recv.object
  settled : ∀ r e r', env r e = some r' → Settled r → Settled r'
  stopped : ∀ r e r', env r e = some r' → r.send.stopCode.isSome = true →
    r'.send.stopCode.isSome = true

theorem bystands_of {E : Type} {env : Halves → E → Option Halves}
    (each : ∀ r e r', env r e = some r' → r'.send.object = r.send.object ∧
      r'.recv.object = r.recv.object ∧ (Settled r → Settled r') ∧
      (r.send.stopCode.isSome = true → r'.send.stopCode.isSome = true)) : Bystands env where
  send r e r' moved := (each r e r' moved).1
  recv r e r' moved := (each r e r' moved).2.1
  settled r e r' moved := (each r e r' moved).2.2.1
  stopped r e r' moved := (each r e r' moved).2.2.2

theorem peer_bystands : Bystands peer := by
  refine bystands_of fun r e r' moved => ?_
  cases e with
  | grant n | lose cause =>
      cases moved
      exact ⟨rfl, rfl, fun settled => settled, fun stopped => stopped⟩
  | arrive data | fin | reset code =>
      simp only [peer, Option.ite_none_left_eq_some] at moved
      obtain ⟨-, same⟩ := moved
      cases same
      exact ⟨rfl, rfl, fun settled => settled, fun stopped => stopped⟩
  | stopSending code =>
      simp only [peer, Option.ite_none_left_eq_some] at moved
      obtain ⟨-, same⟩ := moved
      cases same
      exact ⟨rfl, rfl, fun settled => settled, fun _ => rfl⟩
  | ack =>
      simp only [peer, Option.ite_none_right_eq_some] at moved
      obtain ⟨closed, same⟩ := moved
      cases same
      exact ⟨rfl, rfl, fun _ _ => closed, fun stopped => stopped⟩

theorem network_bystands : Bystands network := by
  refine bystands_of fun r e r' moved => ?_
  cases network_moves moved with
  | grant | deliver | fin | reset | lose =>
      exact ⟨rfl, rfl, fun settled => settled, fun stopped => stopped⟩
  | stop => exact ⟨rfl, rfl, fun settled => settled, fun _ => rfl⟩
  | ack delivered =>
      exact ⟨rfl, rfl, fun _ _ => Halves.closed_of_delivered delivered, fun stopped => stopped⟩

/-! ## The send half -/

section Send

variable {r r' : Halves} {o : SendOp} {p : Bytes} {x : Nat} {turn : StreamTurn}

theorem settled_work {m : Method} (settled : Settled r)
    (worked : discipline.work r m p x = some (r', turn)) : Settled r' := by
  rcases m with e | ⟨b, o | o⟩
  · cases worked
  · obtain ⟨v, turned, rfl⟩ := work_send.mp worked
    have moved := SendStream.work_moved turned
    exact fun acked => moved.closed (settled (moved.acked.symm.trans acked))
  · obtain ⟨v, -, rfl⟩ := work_recv.mp worked
    exact settled

/-- A turn of a write hands over a part of what is left, or ends the call. -/
theorem did_writeAll {v w : SendObject} {data : Bytes} {half : SendStream}
    (before : (SendOp.writeAll data).Did r (.holding p) v r.send.object)
    (turned : r.send.work (.writeAll data) p x = some (half, turn)) (same : w = half.object) :
    (SendOp.writeAll data).Did r' turn.phase v w := by
  subst same
  obtain ⟨seg, left, opened, object⟩ := before
  obtain ⟨rfl, rfl, rfl⟩ | ⟨e, failed, rfl, rfl⟩ | ⟨n, pos, -, -, writable, rfl, rfl⟩ :=
    SendStream.work_writeAll turned
  · have whole : seg = data := by simpa [Wrote] using left
    exact ⟨seg, ⟨rfl, whole⟩, opened, object⟩
  · have more : p ≠ [] := by
      rintro rfl
      simp only [SendStream.work, if_true, Option.some.injEq, Prod.mk.injEq] at turned
      exact absurd turned.2 (by simp [answers, fails])
    refine ⟨seg, ⟨⟨p, left⟩, fun whole => more ?_⟩, opened, object⟩
    have split : seg ++ p = data := left
    rw [← whole] at split
    exact List.append_right_eq_self.mp split
  · have running : r.send.object.closed = false := by
      unfold SendStream.writeError at writable
      split at writable
      · cases writable
      · split at writable
        · cases writable
        · rename_i open'
          simpa [SendStream.closed, SendObject.closed, SendStream.object] using open'
    refine ⟨seg ++ p.take n, ?_, fun _ => ?_, ?_⟩
    · show seg ++ p.take n ++ p.drop n = data
      rw [List.append_assoc, List.take_append_drop]
      exact left
    · simpa [object, SendObject.closed, SendObject.push] using running
    · have handed : (r.send.accept (p.take n)).object = r.send.object.push (p.take n) := rfl
      rw [handed, object, SendObject.push_push]

theorem did_send {v : SendObject} {half : SendStream} (settled : Settled r)
    (before : o.Did r (.holding p) v r.send.object)
    (turned : r.send.work o p x = some (half, turn)) :
    o.Did { r with send := half } turn.phase v half.object := by
  cases o with
  | writeAll data => exact did_writeAll before turned rfl
  | finish =>
      cases before
      obtain ⟨refused, rfl, rfl⟩ | ⟨stopped, rfl, rfl⟩ | ⟨running, -, rfl, rfl⟩ :=
        SendStream.work_finish turned
      · exact ⟨rfl, refused.elim settled id, rfl⟩
      · exact ⟨rfl, .inr ⟨stopped, rfl⟩⟩
      · exact ⟨rfl, .inl ⟨running, rfl⟩⟩
  | reset code =>
      cases before
      simp only [SendStream.work] at turned
      split at turned
      · rename_i refused
        cases turned
        refine ⟨rfl, ?_, rfl⟩
        rcases Bool.or_eq_true_iff.mp refused with reset | acked
        · simp [SendObject.closed, SendStream.object, reset]
        · exact settled acked
      · rename_i fresh
        cases turned
        refine ⟨rfl, ?_, rfl⟩
        rw [Bool.or_eq_true, not_or, Option.not_isSome_iff_eq_none] at fresh
        exact fresh.1
  | setPriority q | priority =>
      cases before
      simp only [SendStream.work] at turned
      split at turned
      · rename_i acked
        cases turned
        exact ⟨rfl, settled acked, rfl⟩
      · cases turned
        exact ⟨rfl, rfl⟩
  | id =>
      cases before
      cases turned
      exact ⟨rfl, rfl⟩
  | stopped =>
      cases before
      cases turned
      rfl

/-- Only a `finish` looks at more than its object, and a stop stays. -/
theorem did_lasts {v w : SendObject} {ph : Phase Bytes Result}
    (stopped : r.send.stopCode.isSome = true → r'.send.stopCode.isSome = true)
    (did : o.Did r ph v w) : o.Did r' ph v w := by
  cases o with
  | finish =>
      rcases ph with _ | p | _ | ⟨e | a⟩ | _
      case ended.ok =>
        obtain ⟨unit, finished | ⟨heard, same⟩⟩ := did
        · exact ⟨unit, .inl finished⟩
        · exact ⟨unit, .inr ⟨stopped heard, same⟩⟩
      all_goals exact did
  | reset | setPriority | priority => rcases ph with _ | p | _ | ⟨e | a⟩ | _ <;> exact did
  | id => rcases ph with _ | p | _ | a | _ <;> exact did
  | writeAll | stopped => exact did

/-- A cancelled call has done what it did while it lasted. -/
theorem did_dropped {v w : SendObject} {ph : Phase Bytes Result} (live : ph.Live)
    (did : o.Did r ph v w) : o.Did r .cancelled v w := by
  cases o with
  | writeAll data =>
      obtain ⟨seg, left, opened, object⟩ := did
      refine ⟨seg, ?_, opened, object⟩
      cases ph with
      | holding p => exact ⟨p, left⟩
      | waiting | detached => exact left
      | ended a | cancelled => exact absurd live id
  | finish | reset | setPriority | priority | id | stopped =>
      cases ph with
      | waiting | holding | detached => exact did
      | ended a | cancelled => exact absurd live id

end Send

/-- The send half, told in sequence. -/
def sendSerial {E : Type} {env : Halves → E → Option Halves} (bystands : Bystands env) :
    Serial discipline env Half.send SendObject where
  view r := r.send.object
  inv := Settled
  did := SendDid
  keeps := by
    intro r r' settled change
    cases change with
    | work _ worked => exact settled_work settled worked
    | env _ moved => exact bystands.settled _ _ _ moved settled
  begins := by
    intro r m v routed
    obtain ⟨b, o, rfl⟩ := route_send.mp routed
    cases o with
    | writeAll data => exact ⟨[], rfl, fun some => absurd rfl some, v.push_nil.symm⟩
    | _ => rfl
  works := by
    intro r m p x r' turn v settled routed before worked
    obtain ⟨b, o, rfl⟩ := route_send.mp routed
    obtain ⟨half, turned, rfl⟩ := work_send.mp worked
    exact did_send settled before turned
  lasts := by
    intro r r' m ph v w change did
    rcases m with e | ⟨b, o | o⟩
    · exact did
    · refine did_lasts (fun stopped => ?_) did
      cases change with
      | @work m p x turn _ worked =>
          rcases m with e | ⟨b', o' | o'⟩
          · cases worked
          · obtain ⟨half, turned, rfl⟩ := work_send.mp worked
            exact (congrArg Option.isSome (SendStream.work_moved turned).stop).trans stopped
          · obtain ⟨half, -, rfl⟩ := work_recv.mp worked
            exact stopped
      | env _ moved => exact bystands.stopped _ _ _ moved stopped
    · exact did
  apart := by
    intro r m j p x r' turn routed other worked
    have recv : j = .recv := by
      cases j with
      | send => exact absurd rfl other
      | recv => rfl
    subst recv
    obtain ⟨b, o, rfl⟩ := route_recv.mp routed
    obtain ⟨half, -, rfl⟩ := work_recv.mp worked
    rfl
  calm moved := bystands.send _ _ _ moved
  resolves := by
    intro r m a v w _ answer did
    rcases m with e | ⟨b, o | o⟩
    · cases answer
    · cases o with
      | stopped => exact did
      | _ => cases answer
    · cases answer
  drops := by
    intro r m ph v w _ live did
    rcases m with e | ⟨b, o | o⟩
    · exact did
    · exact did_dropped live did
    · exact did

/-! ## The receive half -/

section Recv

variable {r r' : Halves} {o : RecvOp} {p : Bytes} {x : Nat} {turn : StreamTurn}
  {half : RecvStream} {v w : RecvObject} {ordered : Bool}

theorem object_open (open' : half.Open ordered) : half.object.Open ordered :=
  ⟨open'.undone, open'.kept, open'.fits⟩

/-- A read that ends on the half ends on its object. -/
theorem RecvStream.EndsRead.object {u : RecvStream} {a : Result} {err : ReadError → StreamError}
    (ends : u.EndsRead ordered (.finish a) err half turn) :
    ∃ b, turn = .finish b ∧ u.object.EndsRead ordered a err half.object b := by
  cases ends with
  | known done => exact ⟨_, rfl, .known done⟩
  | closed undone forgotten => exact ⟨_, rfl, .closed undone forgotten⟩
  | refused undone kept unfit => exact ⟨_, rfl, .refused undone kept unfit⟩
  | reset code open' => exact ⟨_, rfl, .reset code (object_open open')⟩
  | ended open' => exact ⟨_, rfl, .ended (object_open open')⟩
  | lost cause open' => exact ⟨_, rfl, .lost cause (object_open open')⟩

/-- The next part of a read that asks for `n` bytes. -/
theorem gets_readInto {n k : Nat} (before : v.Gets n p r.recv.object) (pos : 0 < k)
    (need : k ≤ n - p.length) (buffered : k ≤ r.recv.buffer.length) (open' : r.recv.Open true) :
    v.Gets n (p ++ r.recv.buffer.take k) (r.recv.readInto k (n - p.length)).object := by
  have length : (r.recv.buffer.take k).length = k := by
    rw [List.length_take]
    omega
  have some : p ++ r.recv.buffer.take k ≠ [] := by
    intro none
    rw [(List.append_eq_nil_iff.mp none).2, List.length_nil] at length
    omega
  obtain ⟨within, before⟩ := before
  have pushed : v.Open true ∧ (r.recv.handOut k).object = v.push (p ++ r.recv.buffer.take k) := by
    have handed : (r.recv.handOut k).object = r.recv.object.push (r.recv.buffer.take k) := rfl
    have open'' := object_open open'
    rw [handed]
    obtain ⟨rfl, same⟩ | ⟨-, -, same | ⟨-, same⟩⟩ := before
    · exact ⟨same ▸ open'', by rw [same, List.nil_append]⟩
    · rw [same] at open'' ⊢
      exact ⟨RecvObject.open_of_push open'', RecvObject.push_push _ _ _⟩
    · rw [same] at open''
      exact absurd open'' (RecvObject.not_open_tell _ _)
  refine ⟨by rw [List.length_append, length]; omega, .inr ⟨some, pushed.1, ?_⟩⟩
  obtain same | ⟨-, -, short, same⟩ := RecvStream.readInto_cases r.recv k (n - p.length)
  · exact .inl (same ▸ pushed.2)
  · refine .inr ⟨by rw [List.length_append, length]; omega, ?_⟩
    rw [same, ← pushed.2]
    rfl

theorem did_read {max : Nat} (before : (RecvOp.read max).Did (.holding p) v r.recv.object)
    (turned : r.recv.work (.read max) p x = some (half, turn)) :
    (RecvOp.read max).Did turn.phase v half.object := by
  obtain ⟨-, same⟩ : p = [] ∧ r.recv.object = v := before
  obtain ⟨nothing, rfl, rfl⟩ | ⟨asked, ends⟩ | ⟨asked, open', buffered, rfl, rfl⟩ :=
    RecvStream.work_read turned
  · exact .inl ⟨nothing, rfl, same⟩
  · obtain ⟨b, rfl, ended⟩ := ends.object
    exact .inr (.inl ⟨asked, same ▸ ended⟩)
  · have pos : 0 < r.recv.buffer.length := List.length_pos_iff.mpr buffered
    have gets := gets_readInto (n := max) (k := min max r.recv.buffer.length)
      ⟨Nat.zero_le _, .inl ⟨rfl, same⟩⟩ (by omega) (Nat.min_le_left _ _) (Nat.min_le_right _ _)
      open'
    refine .inr (.inr ⟨_, fun none => ?_, gets, rfl⟩)
    have length : (r.recv.buffer.take (min max r.recv.buffer.length)).length = 0 := by
      rw [show r.recv.buffer.take _ = [] from none, List.length_nil]
    rw [List.length_take] at length
    omega

theorem did_readExact {n : Nat} (before : (RecvOp.readExact n).Did (.holding p) v r.recv.object)
    (turned : r.recv.work (.readExact n) p x = some (half, turn)) :
    (RecvOp.readExact n).Did turn.phase v half.object := by
  have gets : v.Gets n p r.recv.object := before
  obtain ⟨all, rfl, rfl⟩ | ⟨missing, ends⟩ | ⟨k, pos, need, buffered, open', rfl, rfl⟩ :=
    RecvStream.work_readExact turned
  · exact ⟨p, _, gets, .inl ⟨Nat.le_antisymm gets.1 all, rfl, rfl⟩⟩
  · obtain ⟨b, rfl, ended⟩ := ends.object
    exact ⟨p, _, gets, .inr ⟨missing, ended⟩⟩
  · exact gets_readInto gets pos need buffered open'

/-- The next part of a read of the whole rest. -/
theorem gathers_chunk {max : Nat} (before : v.Gathers max p r.recv.object)
    (open' : r.recv.Open false) (again : r.recv.unordered = true) :
    v.Open false ∧ (r.recv.handOut r.recv.chunk).object =
      (v.push (p ++ r.recv.buffer.take r.recv.chunk)).unorder := by
  have handed : (r.recv.handOut r.recv.chunk).object =
      (r.recv.object.push (r.recv.buffer.take r.recv.chunk)).unorder := by
    simp [RecvStream.handOut, RecvStream.object, RecvObject.push, RecvObject.unorder, again]
  have open'' := object_open open'
  rw [handed]
  obtain ⟨rfl, same⟩ | ⟨first, -, same⟩ := before
  · exact ⟨same ▸ open'', by rw [same, List.nil_append]⟩
  · rw [same, ← RecvObject.push_push]
    exact ⟨first, rfl⟩

theorem did_readToEnd {max : Nat}
    (before : (RecvOp.readToEnd max).Did (.holding p) v r.recv.object)
    (turned : r.recv.work (.readToEnd max) p x = some (half, turn)) :
    (RecvOp.readToEnd max).Did turn.phase v half.object := by
  have gathers : v.Gathers max p r.recv.object := before
  obtain ⟨ends, polled⟩ | ⟨open', -, rfl, rfl⟩ | ⟨open', again, buffered, rfl, rest⟩ :=
    RecvStream.work_readToEnd turned
  · obtain ⟨b, rfl, ended⟩ := ends.object
    exact .inl ⟨p, _, gathers, fun open' => polled ⟨open'.1, open'.2, open'.3⟩, ended⟩
  · have open'' := object_open open'
    refine .inr ?_
    obtain ⟨rfl, same⟩ | ⟨first, within, same⟩ := gathers
    · refine ⟨same ▸ open'', Nat.zero_le _, ?_⟩
      rw [RecvObject.push_nil, ← same]
      rfl
    · refine ⟨first, within, ?_⟩
      have unordered : r.recv.unorder.object = r.recv.object.unorder := rfl
      rw [unordered, same]
      rfl
  · obtain ⟨first, pushed⟩ := gathers_chunk gathers open' again
    obtain ⟨long, rfl⟩ | ⟨short, rfl⟩ := rest
    · refine .inr ⟨_, first, ?_, pushed, rfl⟩
      rw [List.length_append, List.length_take, Nat.min_eq_left (RecvStream.chunk_le buffered)]
      exact long
    · refine .inr ⟨first, ?_, pushed⟩
      rw [List.length_append, List.length_take]
      omega

theorem did_recv (before : o.Did (.holding p) v r.recv.object)
    (turned : r.recv.work o p x = some (half, turn)) : o.Did turn.phase v half.object := by
  cases o with
  | read max => exact did_read before turned
  | readExact n => exact did_readExact before turned
  | readToEnd max => exact did_readToEnd before turned
  | stop code =>
      cases before
      obtain ⟨spent, rfl, rfl⟩ | ⟨running, kept, rfl, rfl⟩ := RecvStream.work_stop turned
      · exact ⟨rfl, spent, rfl⟩
      · exact ⟨rfl, running, kept, rfl⟩
  | id =>
      cases before
      cases turned
      exact ⟨rfl, rfl⟩

/-- A cancelled read has taken what it had, a cancelled `recv` nothing. -/
theorem dropped_recv {ph : Phase Bytes Result} (live : ph.Live) (did : o.Did ph v w) :
    o.Did .cancelled v w := by
  cases o with
  | read max =>
      cases ph with
      | holding p => exact did.2
      | waiting | detached => exact did
      | ended a | cancelled => exact absurd live id
  | readExact n | readToEnd max =>
      cases ph with
      | holding p => exact ⟨p, did⟩
      | waiting | detached => exact did
      | ended a | cancelled => exact absurd live id
  | stop | id =>
      cases ph with
      | waiting | holding | detached => exact did
      | ended a | cancelled => exact absurd live id

end Recv

/-- The receive half, told in sequence. -/
def recvSerial {E : Type} {env : Halves → E → Option Halves} (bystands : Bystands env) :
    Serial discipline env Half.recv RecvObject where
  view r := r.recv.object
  inv _ := True
  did _ := RecvDid
  keeps _ _ := trivial
  lasts _ did := did
  begins := by
    intro r m v routed
    obtain ⟨b, o, rfl⟩ := route_recv.mp routed
    cases o with
    | readExact n => exact ⟨Nat.zero_le _, .inl ⟨rfl, rfl⟩⟩
    | readToEnd max => exact .inl ⟨rfl, rfl⟩
    | read max => exact ⟨rfl, rfl⟩
    | stop | id => rfl
  works := by
    intro r m p x r' turn v _ routed before worked
    obtain ⟨b, o, rfl⟩ := route_recv.mp routed
    obtain ⟨half, turned, rfl⟩ := work_recv.mp worked
    exact did_recv before turned
  apart := by
    intro r m j p x r' turn routed other worked
    have send : j = .send := by
      cases j with
      | send => rfl
      | recv => exact absurd rfl other
    subst send
    obtain ⟨b, o, rfl⟩ := route_send.mp routed
    obtain ⟨half, -, rfl⟩ := work_send.mp worked
    rfl
  calm moved := bystands.recv _ _ _ moved
  resolves := by
    intro r m a v w _ answer did
    rcases m with e | ⟨b, o | o⟩
    · cases answer
    · exact did
    · cases answer
  drops := by
    intro r m ph v w _ live did
    rcases m with e | ⟨b, o | o⟩
    · exact did
    · exact did
    · exact dropped_recv live did

/-! ## Every run, told in sequence -/

section Runs

variable {s₀ s : StreamState}

/-- **The send half is one object.** Whatever calls are made on it at once, cancelled anywhere,
and whatever the peer does, the calls did what they would have done one after the other. -/
theorem send_linear (fresh : s₀.Fresh) (settled : Settled s₀.res)
    (run : Via (step discipline peer) Any s₀ s) : (sendSerial peer_bystands).Linear s₀ s :=
  (sendSerial peer_bystands).linear fresh settled run

end Runs

end Library

section Example

local instance objectText : Display StreamError := ⟨fun _ => "stream error"⟩
local instance objectChunks : Chunking := ⟨fun v => v.buffer.length⟩

/-- A write cut off after two of its three bytes, a priority set behind it, and a `finish`; a
read cut off after one byte, and the byte behind it read. -/
def cutShort : List (Event Method Nat PeerEvent) :=
  [.call 0 (IrohStream.sendBytes [1, 2, 3]), .acquire 0, .call 1 (IrohStream.setPriority 5),
    .work 0 2, .call 2 IrohStream.finish, .cancel 0, .acquire 1, .work 1 0, .acquire 2, .work 2 0,
    .call 3 (IrohStream.readExact 3), .acquire 3, .env (.arrive [7, 8]), .work 3 1, .cancel 3,
    .call 4 (IrohStream.recv 9), .acquire 4, .work 4 9]

theorem cutShort_runs :
    ∃ s, Via (step discipline peer) Any (State.idle (Halves.opened 9)) s ∧
      s.taken .send = [0, 1, 2] ∧ s.taken .recv = [3, 4] ∧
      s.res.send.written = [1, 2] ∧ s.res.recv.consumed = [7, 8] :=
  Via.of_any cutShort (by decide)

theorem send_linear_cutShort :
    ∃ s, (sendSerial peer_bystands).Linear (State.idle (Halves.opened 9)) s ∧
      s.taken .send = [0, 1, 2] := by
  obtain ⟨s, run, taken, -⟩ := cutShort_runs
  exact ⟨s, send_linear (State.idle_fresh _) (by intro acked; cases acked) run, taken⟩

end Example

end IrohKmp.Runtime.Stream
