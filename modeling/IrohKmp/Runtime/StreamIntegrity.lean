/-
# Runtime.StreamIntegrity — what concurrent transfers leave on a stream

Writers share the send mutex, readers the receive mutex, and each keeps it across its whole
transfer. So although every transfer is carried out in parts, the bytes on the stream are
whole payloads in the order of the mutex, with a part of at most one more at the end, and
the reads cut those bytes up in the order of theirs.

* `Transfers` — the runs: writes, finishes and reads, none cancelled, over any network;
* `Joined` — the two halves are the ends of one pipe;
* `sendTrail`, `recvTrail` — what one call leaves on `written` and on `consumed`;
* `Integrity`, `stream_integrity` — the two sides together, in every reachable state.
-/
import IrohKmp.Runtime.Stream
import IrohKmp.Theory.GuardedOrder

namespace IrohKmp.Runtime.Stream

open IrohKmp.Kernel
open IrohKmp.Theory.Run
open IrohKmp.Theory.Guarded

set_option autoImplicit false
set_option linter.unusedSectionVars false

section Library

variable [Display StreamError] [Chunking]

/-! ## The runs -/

/-- The calls of a transfer, on whichever object holds the half. -/
inductive IsTransfer : Method → Prop
  | streamSendBytes (data : Bytes) : IsTransfer (IrohStream.sendBytes data)
  | sendSendBytes (data : Bytes) : IsTransfer (IrohSendStream.sendBytes data)
  | streamFinish : IsTransfer IrohStream.finish
  | sendFinish : IsTransfer IrohSendStream.finish
  | streamRecv (max : UInt32) : IsTransfer (IrohStream.recv max)
  | recvRecv (max : UInt32) : IsTransfer (IrohRecvStream.recv max)
  | streamReadExact (n : UInt32) : IsTransfer (IrohStream.readExact n)
  | recvReadExact (n : UInt32) : IsTransfer (IrohRecvStream.readExact n)
  | streamReadToEnd (max : UInt32) : IsTransfer (IrohStream.readToEnd max)
  | recvReadToEnd (max : UInt32) : IsTransfer (IrohRecvStream.readToEnd max)

/-- Only calls of a transfer are made, and none is cancelled. -/
def Transfers : StreamState → Event Method Nat NetEvent → Prop
  | _, .call _ m => IsTransfer m
  | _, .cancel _ => False
  | _, _ => True

/-- The library call of a write or a `finish`. -/
inductive SendOp.Moves : SendOp → Prop
  | writeAll (data : Bytes) : Moves (.writeAll data)
  | finish : Moves .finish

/-- The library call of a read. -/
inductive RecvOp.Moves : RecvOp → Prop
  | read (max : Nat) : Moves (.read max)
  | readExact (n : Nat) : Moves (.readExact n)
  | readToEnd (max : Nat) : Moves (.readToEnd max)

theorem IsTransfer.op {m : Method} (transfer : IsTransfer m) :
    (∃ o, SendOp.Moves o ∧ m = locked (.send o)) ∨ ∃ o, RecvOp.Moves o ∧ m = locked (.recv o) := by
  cases transfer with
  | streamSendBytes data | sendSendBytes data => exact .inl ⟨_, .writeAll data, rfl⟩
  | streamFinish | sendFinish => exact .inl ⟨_, .finish, rfl⟩
  | streamRecv max | recvRecv max => exact .inr ⟨_, .read max.toNat, rfl⟩
  | streamReadExact n | recvReadExact n => exact .inr ⟨_, .readExact n.toNat, rfl⟩
  | streamReadToEnd max | recvReadToEnd max => exact .inr ⟨_, .readToEnd max.toNat, rfl⟩

theorem IsTransfer.onSend {m : Method} (transfer : IsTransfer m)
    (routed : discipline.route m = .ok .send) : ∃ o, SendOp.Moves o ∧ m = locked (.send o) := by
  obtain known | ⟨o, -, rfl⟩ := transfer.op
  · exact known
  · cases routed

theorem IsTransfer.onRecv {m : Method} (transfer : IsTransfer m)
    (routed : discipline.route m = .ok .recv) : ∃ o, RecvOp.Moves o ∧ m = locked (.recv o) := by
  obtain ⟨o, -, rfl⟩ | known := transfer.op
  · cases routed
  · exact known

/-! ## What one turn does to a half -/

/-- A turn of a write or a `finish` leaves the half as it was, hands bytes over while the
stream is writable, or finishes it. -/
theorem SendStream.work_moves {v v' : SendStream} {o : SendOp} {p : Bytes} {x : Nat}
    {turn : StreamTurn} (moves : o.Moves) (worked : v.work o p x = some (v', turn)) :
    v' = v ∨ (v.writeError = none ∧ ∃ data, v' = v.accept data) ∨
      v' = { v with finished := true } := by
  cases moves with
  | writeAll data =>
      obtain ⟨-, same, -⟩ | ⟨-, -, same, -⟩ | ⟨n, -, -, -, writable, -, same⟩ :=
        work_writeAll worked
      · exact .inl same
      · exact .inl same
      · exact .inr (.inl ⟨writable, _, same⟩)
  | finish =>
      obtain ⟨-, same, -⟩ | ⟨-, same, -⟩ | ⟨-, -, same, -⟩ := work_finish worked
      · exact .inl same
      · exact .inl same
      · exact .inr (.inr same)

namespace RecvStream

variable {v v' : RecvStream} {turn atEnd : StreamTurn} {ordered : Bool}
  {err : ReadError → StreamError}

/-- The half was read from: `n` bytes, and perhaps the reader was told that there are no more. -/
structure Passed (v v' : RecvStream) (n : Nat) : Prop where
  id : v'.id = v.id
  consumed : v'.consumed = v.consumed ++ v.buffer.take n
  buffer : v'.buffer = v.buffer.drop n
  fin : v'.fin = v.fin
  resetCode : v'.resetCode = v.resetCode
  stopCode : v'.stopCode = v.stopCode
  lost : v'.lost = v.lost
  told : v'.told = true → v.told = true ∨
    (v'.buffer = [] ∧ (v.fin = true ∨ v.resetCode.isSome = true))
  keeps : v.told = true → v'.told = true
  orders : v.unordered = true → v'.unordered = true

theorem passed_none : Passed v v 0 :=
  ⟨rfl, by simp, by simp, rfl, rfl, rfl, rfl, .inl, fun told => told, fun unordered => unordered⟩

theorem passed_unorder : Passed v v.unorder 0 :=
  ⟨rfl, by simp [unorder], by simp [unorder], rfl, rfl, rfl, rfl, .inl, fun told => told,
    fun _ => rfl⟩

theorem passed_handOut (n : Nat) : Passed v (v.handOut n) n :=
  ⟨rfl, rfl, rfl, rfl, rfl, rfl, rfl, .inl, fun told => told, fun unordered => unordered⟩

theorem readInto_cases (v : RecvStream) (n room : Nat) : v.readInto n room = v.handOut n ∨
    (v.fin = true ∧ v.buffer.length ≤ n ∧ n < room ∧ v.readInto n room = (v.handOut n).tell) := by
  unfold readInto
  split
  · rename_i ends
    exact .inr ⟨ends.1, ends.2.1, ends.2.2, rfl⟩
  · exact .inl rfl

theorem passed_readInto (n room : Nat) : Passed v (v.readInto n room) n := by
  obtain same | ⟨fin, all, -, same⟩ := readInto_cases v n room
  · rw [same]
    exact passed_handOut n
  · rw [same]
    exact ⟨rfl, rfl, rfl, rfl, rfl, rfl, rfl,
      fun _ => .inr ⟨List.drop_eq_nil_of_le all, .inl fin⟩, fun _ => rfl,
      fun unordered => unordered⟩

/-- A read that ends without a byte leaves the stream as far read as it was. -/
theorem EndsRead.passed (ends : v.EndsRead ordered atEnd err v' turn) : Passed v v' 0 := by
  cases ends with
  | known | closed | lost => exact passed_none
  | refused =>
      exact ⟨rfl, by simp, by simp, rfl, rfl, rfl, rfl, .inl, fun told => told,
        fun unordered => unordered⟩
  | reset code _ empty known =>
      exact ⟨rfl, by simp [tell], by simp [tell], rfl, rfl, rfl, rfl,
        fun _ => .inr ⟨empty, .inr (by simp [known])⟩, fun _ => rfl, fun unordered => unordered⟩
  | ended _ empty _ fin =>
      exact ⟨rfl, by simp [tell], by simp [tell], rfl, rfl, rfl, rfl,
        fun _ => .inr ⟨empty, .inl fin⟩, fun _ => rfl, fun unordered => unordered⟩

/-- One that comes to the end was told before, was stopped, or is told now. -/
theorem EndsRead.atEnd_of (ends : v.EndsRead ordered atEnd err v' turn)
    (good : ∀ e, turn ≠ fails (err e)) :
    (v.done = true ∧ v' = v) ∨
      (v.fin = true ∧ v.buffer = [] ∧ v.resetCode = none ∧ v' = v.tell) := by
  cases ends with
  | known done => exact .inl ⟨done, rfl⟩
  | ended _ empty intact fin => exact .inr ⟨fin, empty, intact, rfl⟩
  | closed | refused | reset | lost => exact absurd rfl (good _)

end RecvStream

/-- A turn of a read hands out some of what is buffered. -/
theorem RecvStream.work_moves {v v' : RecvStream} {o : RecvOp} {p : Bytes} {x : Nat}
    {turn : StreamTurn} (moves : o.Moves) (worked : v.work o p x = some (v', turn)) :
    ∃ n, v.Passed v' n := by
  cases moves with
  | read max =>
      obtain ⟨-, rfl, -⟩ | ⟨-, ends⟩ | ⟨-, -, -, rfl, -⟩ := work_read worked
      · exact ⟨0, passed_none⟩
      · exact ⟨0, ends.passed⟩
      · exact ⟨_, passed_readInto _ _⟩
  | readExact n =>
      obtain ⟨-, rfl, -⟩ | ⟨-, ends⟩ | ⟨k, -, -, -, -, rfl, -⟩ := work_readExact worked
      · exact ⟨0, passed_none⟩
      · exact ⟨0, ends.passed⟩
      · exact ⟨k, passed_readInto _ _⟩
  | readToEnd max =>
      obtain ⟨ends, -⟩ | ⟨-, -, rfl, -⟩ | ⟨-, -, -, rfl, -⟩ := work_readToEnd worked
      · exact ⟨0, ends.passed⟩
      · exact ⟨0, passed_unorder⟩
      · exact ⟨_, passed_handOut _⟩

/-- A turn on the receive half hands out some of what is buffered, or stops it. -/
theorem RecvStream.work_taken {v v' : RecvStream} {o : RecvOp} {p : Bytes} {x : Nat}
    {turn : StreamTurn} (worked : v.work o p x = some (v', turn)) : (∃ n, v.Passed v' n) ∨
      ∃ code, v.stopCode = none ∧ v.forgotten = false ∧
        v' = { v with stopCode := some code, buffer := [] } := by
  by_cases moves : o.Moves
  · exact .inl (work_moves moves worked)
  · cases o with
    | stop code =>
        obtain ⟨-, rfl, -⟩ | ⟨unset, kept, rfl, -⟩ := work_stop worked
        · exact .inl ⟨0, passed_none⟩
        · exact .inr ⟨code, unset, kept, rfl⟩
    | id =>
        cases worked
        exact .inl ⟨0, passed_none⟩
    | read max => exact absurd (.read max) moves
    | readExact n => exact absurd (.readExact n) moves
    | readToEnd max => exact absurd (.readToEnd max) moves

/-- Everything was read. -/
def RecvStream.Exhausted (v : RecvStream) : Prop := v.fin = true ∧ v.buffer = []

/-! ## The pipe -/

/-- The halves are the two ends of one pipe that nobody resets or stops: what arrived is a
prefix of what was written, and all of it once the end has arrived. -/
structure Joined (r : Halves) : Prop where
  notReset : r.send.resetCode = none
  notStopped : r.send.stopCode = none
  intact : r.recv.resetCode = none
  reading : r.recv.stopCode = none
  inOrder : r.recv.consumed ++ r.recv.buffer <+: r.send.written
  ended : r.recv.fin = true →
    r.send.finished = true ∧ r.recv.consumed ++ r.recv.buffer = r.send.written
  told : r.recv.told = true → r.recv.Exhausted

theorem Joined.writable {r : Halves} (joined : Joined r) :
    r.send.writeError = none ↔ r.send.lost = none ∧ r.send.finished = false := by
  unfold SendStream.writeError
  cases lost : r.send.lost with
  | some e => simp
  | none => cases finished : r.send.finished <;>
      simp [SendStream.closed, finished, joined.notReset, joined.notStopped]

theorem joined_work {r r' : Halves} {m : Method} {p : Bytes} {x : Nat} {turn : StreamTurn}
    (joined : Joined r) (transfer : IsTransfer m)
    (worked : discipline.work r m p x = some (r', turn)) : Joined r' := by
  have writable_iff := joined.writable
  obtain ⟨notReset, notStopped, intact, reading, inOrder, ended, told⟩ := joined
  obtain ⟨o, moves, rfl⟩ | ⟨o, moves, rfl⟩ := transfer.op
  · obtain ⟨v, turned, rfl⟩ := work_send.mp worked
    obtain rfl | ⟨writable, data, rfl⟩ | rfl := SendStream.work_moves moves turned
    · exact ⟨notReset, notStopped, intact, reading, inOrder, ended, told⟩
    · have unfinished := (writable_iff.mp writable).2
      refine ⟨notReset, notStopped, intact, reading, inOrder.trans (List.prefix_append _ _),
        fun fin => ?_, told⟩
      rw [(ended fin).1] at unfinished
      cases unfinished
    · exact ⟨notReset, notStopped, intact, reading, inOrder, fun fin => ⟨rfl, (ended fin).2⟩, told⟩
  · obtain ⟨v, turned, rfl⟩ := work_recv.mp worked
    obtain ⟨n, passed⟩ := RecvStream.work_moves moves turned
    have same : v.consumed ++ v.buffer = r.recv.consumed ++ r.recv.buffer := by
      rw [passed.consumed, passed.buffer, List.append_assoc, List.take_append_drop]
    refine ⟨notReset, notStopped, passed.resetCode.trans intact, passed.stopCode.trans reading,
      same ▸ inOrder, fun fin => same ▸ ended (passed.fin.symm.trans fin), fun now => ?_⟩
    obtain before | ⟨empty, fin | reset⟩ := passed.told now
    · obtain ⟨fin, empty⟩ := told before
      exact ⟨passed.fin.trans fin, by rw [passed.buffer, empty, List.drop_nil]⟩
    · exact ⟨passed.fin.trans fin, empty⟩
    · rw [intact] at reset
      cases reset

theorem joined_network {r r' : Halves} {e : NetEvent} (joined : Joined r)
    (moved : network r e = some r') : Joined r' := by
  obtain ⟨notReset, notStopped, intact, reading, inOrder, ended, told⟩ := joined
  cases network_moves moved with
  | grant | ack | lose => exact ⟨notReset, notStopped, intact, reading, inOrder, ended, told⟩
  | deliver n running =>
      refine ⟨notReset, notStopped, intact, reading, ?_, fun fin => ?_, fun told' => ?_⟩
      · obtain ⟨rest, split⟩ := inOrder
        refine ⟨rest.drop n, ?_⟩
        have arrived : r.arrived = (r.recv.consumed ++ r.recv.buffer).length := by
          simp [Halves.arrived]
        rw [← split, arrived, List.drop_left, ← List.append_assoc, List.append_assoc,
          List.take_append_drop]
      · exact absurd fin (by simp [running])
      · exact absurd (told told').1 (by simp [running])
  | fin finished _ _ whole =>
      have all : (r.recv.consumed ++ r.recv.buffer).length = r.send.written.length := by
        simpa [Halves.arrived] using whole
      exact ⟨notReset, notStopped, intact, reading, inOrder,
        fun _ => ⟨finished, inOrder.eq_of_length all⟩, fun before => ⟨rfl, (told before).2⟩⟩
  | reset code known =>
      rw [notReset] at known
      cases known
  | stop code known =>
      rw [reading] at known
      cases known

/-- A change of the pipe by a call of a transfer or by the network. -/
abbrev PipeChange : Halves → Halves → Prop :=
  Change discipline network IsTransfer fun _ => True

theorem joined_change {r r' : Halves} (joined : Joined r) (change : PipeChange r r') :
    Joined r' := by
  cases change with
  | work transfer worked => exact joined_work joined transfer worked
  | env _ moved => exact joined_network joined moved

/-! ## What a write leaves on the stream -/

/-- `seg` is what the call has handed to the stream: all of a payload that succeeded, nothing
if the call came after the stream was shut, and a part of the payload otherwise. Only the
loss of the connection cuts a payload off. -/
def SendExplains (r : Halves) (late : Prop) : Method → Phase Bytes Result → Bytes → Prop
  | .ok ⟨_, .send (.writeAll data)⟩, .holding p, seg =>
      seg ++ p = data ∧ (late → seg = []) ∧ (seg = [] ∨ r.send.finished = false)
  | .ok ⟨_, .send (.writeAll data)⟩, .ended (.ok _), seg => seg = data ∧ (late → data = [])
  | .ok ⟨_, .send (.writeAll data)⟩, .ended (.error _), seg =>
      seg <+: data ∧ (late → seg = []) ∧ (seg = [] ∨ r.send.lost.isSome)
  | .ok ⟨_, .send (.writeAll _)⟩, _, _ => False
  | _, _, seg => seg = []

/-- A `finish` that succeeded and a write that failed: nothing can be written any more. -/
def SendShuts : Method → Result → Prop
  | .ok ⟨_, .send .finish⟩, .ok _ => True
  | .ok ⟨_, .send (.writeAll _)⟩, .error _ => True
  | _, _ => False

theorem sendExplains_change {r r' : Halves} {late : Prop} {m : Method} {ph : Phase Bytes Result}
    {seg : Bytes} (finished : (∃ p, ph = .holding p) → r'.send.finished = r.send.finished)
    (lost : r.send.lost.isSome → r'.send.lost.isSome) (explained : SendExplains r late m ph seg) :
    SendExplains r' late m ph seg := by
  unfold SendExplains at explained ⊢
  split at explained
  · rw [finished ⟨_, rfl⟩]
    exact explained
  · exact explained
  · exact ⟨explained.1, explained.2.1, explained.2.2.imp_right lost⟩
  · exact explained
  · exact explained

/-- What no change of the pipe takes back on the send half, and what the network leaves. -/
structure SendKept (r r' : Halves) : Prop where
  finished : r.send.finished = true → r'.send.finished = true
  lost : r.send.lost.isSome → r'.send.lost.isSome

theorem network_send {r r' : Halves} {e : NetEvent} (moved : network r e = some r') :
    r'.send.written = r.send.written ∧ r'.send.finished = r.send.finished ∧
      (r.send.lost.isSome → r'.send.lost.isSome) := by
  cases network_moves moved with
  | grant | deliver | fin | reset | stop | ack => exact ⟨rfl, rfl, id⟩
  | lose cause => exact ⟨rfl, rfl, fun _ => rfl⟩

theorem sendKept_change {r r' : Halves} (change : PipeChange r r') : SendKept r r' := by
  cases change with
  | work transfer worked =>
      obtain ⟨o, moves, rfl⟩ | ⟨o, moves, rfl⟩ := transfer.op
      · obtain ⟨v, turned, rfl⟩ := work_send.mp worked
        obtain rfl | ⟨-, data, rfl⟩ | rfl := SendStream.work_moves moves turned
        · exact ⟨id, id⟩
        · exact ⟨id, id⟩
        · exact ⟨fun _ => rfl, id⟩
      · obtain ⟨v, -, rfl⟩ := work_recv.mp worked
        exact ⟨id, id⟩
  | env _ moved =>
      obtain ⟨-, finished, lost⟩ := network_send moved
      exact ⟨fun was => finished.trans was, lost⟩

/-- A stream that takes no data never takes any again. -/
theorem writeError_change {r r' : Halves} (joined : Joined r) (change : PipeChange r r')
    (shut : r.send.writeError.isSome) : r'.send.writeError.isSome := by
  have kept := sendKept_change change
  rw [Option.isSome_iff_ne_none, Ne, (joined_change joined change).writable]
  rw [Option.isSome_iff_ne_none, Ne, joined.writable] at shut
  rintro ⟨connected, unfinished⟩
  refine shut ⟨?_, ?_⟩
  · by_contra lost
    have still := kept.lost (Option.isSome_iff_ne_none.mpr lost)
    rw [connected] at still
    cases still
  · by_contra finished
    have still := kept.finished (by simpa using finished)
    rw [unfinished] at still
    cases still

theorem send_works {r r' : Halves} {o : SendOp} {p seg : Bytes} {x : Nat} {turn : StreamTurn}
    {late : Prop} (joined : Joined r) (moves : o.Moves) (shut : late → r.send.writeError.isSome)
    (worked : discipline.work r (locked (.send o)) p x = some (r', turn))
    (explained : SendExplains r late (locked (.send o)) (.holding p) seg) :
    ∃ more, r'.send.written = r.send.written ++ more ∧
      SendExplains r' late (locked (.send o)) turn.phase (seg ++ more) := by
  obtain ⟨v, turned, rfl⟩ := work_send.mp worked
  cases moves with
  | writeAll data =>
      obtain ⟨split, early, open'⟩ := explained
      obtain ⟨rfl, rfl, rfl⟩ | ⟨e, failed, rfl, rfl⟩ | ⟨n, -, -, -, writable, rfl, rfl⟩ :=
        SendStream.work_writeAll turned
      · refine ⟨[], by simp, ?_⟩
        rw [List.append_nil] at split ⊢
        exact ⟨split, fun late => split ▸ early late⟩
      · refine ⟨[], by simp, ?_⟩
        rw [List.append_nil]
        refine ⟨⟨p, split⟩, early, open'.imp_right fun unfinished => ?_⟩
        rw [Option.isSome_iff_ne_none]
        intro connected
        rw [joined.writable.mpr ⟨connected, unfinished⟩] at failed
        cases failed
      · refine ⟨p.take n, rfl, ?_, fun late => ?_, .inr (joined.writable.mp writable).2⟩
        · rw [List.append_assoc, List.take_append_drop, split]
        · have closed := shut late
          rw [writable] at closed
          cases closed
  | finish =>
      have empty : seg = [] := explained
      subst empty
      obtain ⟨-, rfl, -⟩ | ⟨-, rfl, -⟩ | ⟨-, -, rfl, -⟩ := SendStream.work_finish turned <;>
        exact ⟨[], by simp, rfl⟩

theorem send_closes {r r' : Halves} {o : SendOp} {p : Bytes} {x : Nat} {a : Result}
    (moves : o.Moves)
    (worked : discipline.work r (locked (.send o)) p x = some (r', .finish a))
    (shuts : SendShuts (locked (.send o)) a) : r'.send.writeError.isSome := by
  obtain ⟨v, turned, rfl⟩ := work_send.mp worked
  cases moves with
  | writeAll data =>
      obtain ⟨-, -, turn⟩ | ⟨e, failed, rfl, -⟩ | ⟨n, -, -, -, -, turn, -⟩ :=
        SendStream.work_writeAll turned
      · cases turn
        exact absurd shuts id
      · simp [failed]
      · cases turn
  | finish =>
      obtain ⟨-, -, turn⟩ | ⟨heard, rfl, -⟩ | ⟨-, -, rfl, -⟩ := SendStream.work_finish turned
      · cases turn
        exact absurd shuts id
      · unfold SendStream.writeError
        cases r.send.lost with
        | some cause => rfl
        | none => cases closed : r.send.closed <;> simp [heard]
      · show SendStream.writeError { r.send with finished := true } |>.isSome
        unfold SendStream.writeError
        cases r.send.lost <;> simp [SendStream.closed]

/-- The send mutex and the bytes handed to the stream. -/
def sendTrail : Trail discipline network Half.send UInt8 where
  out r := r.send.written
  explains := SendExplains
  callOk := IsTransfer
  envOk _ := True
  inv := Joined
  shuts := SendShuts
  shut r := r.send.writeError.isSome
  keeps := joined_change
  stays := writeError_change
  closes _ transfer routed worked shuts := by
    obtain ⟨o, moves, rfl⟩ := transfer.onSend routed
    exact send_closes moves worked shuts
  begins _ transfer routed := by
    obtain ⟨o, moves, rfl⟩ := transfer.onSend routed
    cases moves with
    | writeAll data => exact ⟨rfl, fun _ => rfl, .inl rfl⟩
    | finish => rfl
  works joined transfer routed shut worked explained := by
    obtain ⟨o, moves, rfl⟩ := transfer.onSend routed
    exact send_works joined moves shut worked explained
  settled joined change released explained :=
    sendExplains_change (fun ⟨p, held⟩ => absurd held (released p))
      (sendKept_change change).lost explained
  apart := by
    intro r m j p x r' turn joined transfer routed differ worked
    cases j with
    | send => exact absurd rfl differ
    | recv =>
        obtain ⟨b, o, rfl⟩ := route_recv.mp routed
        obtain ⟨v, -, rfl⟩ := work_recv.mp worked
        exact ⟨rfl, fun late n q seg explained => sendExplains_change (fun _ => rfl) id explained⟩
  calm := by
    intro r e r' joined _ moved
    obtain ⟨written, finished, lost⟩ := network_send moved
    exact ⟨written, fun late n q seg => sendExplains_change (fun _ => finished) lost⟩
  resolves := by
    rintro r late m a seg - explained answer
    simp only [discipline] at answer
    split at answer
    · exact ⟨explained, id⟩
    · cases answer

/-! ## What a read takes from the stream -/

/-- `data` is an answer `a` to the read `o`, within what was asked for. -/
def Delivers : RecvOp → Answer → Bytes → Prop
  | .read max, .chunk (some got), data => data = got ∧ got.length ≤ max
  | .read _, .chunk none, data => data = []
  | .readExact n, .bytes got, data => data = got ∧ got.length = n
  | .readToEnd max, .bytes got, data => data = got ∧ got.length ≤ max
  | _, _, _ => False

/-- What a read under the guard may have got so far. -/
def Within : RecvOp → Bytes → Prop
  | .read _, got => got = []
  | .readExact n, got => got.length ≤ n
  | .readToEnd max, got => got.length ≤ max
  | _, _ => True

/-- `seg` is what the call took: its answer if it succeeded, what it has got so far under the
guard, and nothing if the end of the stream was read before it. -/
def RecvExplains (late : Prop) : Method → Phase Bytes Result → Bytes → Prop
  | .ok ⟨_, .recv o⟩, .holding p, seg => seg = p ∧ Within o p ∧ (late → seg = [])
  | .ok ⟨_, .recv o⟩, .ended (.ok a), seg => Delivers o a seg ∧ (late → seg = [])
  | .ok ⟨_, .recv _⟩, .ended (.error _), seg => late → seg = []
  | _, _, _ => False

/-- An answer that says that the end of the stream was read. -/
def RecvShuts : Method → Result → Prop
  | .ok ⟨_, .recv (.read _)⟩, .ok (.chunk none) => True
  | .ok ⟨_, .recv (.readToEnd _)⟩, .ok _ => True
  | _, _ => False

/-- On a stream that is not reset, only the calls take from the buffer. -/
theorem network_recv {r r' : Halves} {e : NetEvent} (notReset : r.send.resetCode = none)
    (moved : network r e = some r') : r'.recv.consumed = r.recv.consumed ∧
      (r.recv.fin = true → r'.recv.fin = true ∧ r'.recv.buffer = r.recv.buffer) := by
  cases network_moves moved with
  | grant | stop | ack | lose => exact ⟨rfl, fun fin => ⟨fin, rfl⟩⟩
  | fin => exact ⟨rfl, fun _ => ⟨rfl, rfl⟩⟩
  -- data comes before the end only
  | deliver _ running => exact ⟨rfl, fun fin => absurd fin (by simp [running])⟩
  | reset code known =>
      rw [notReset] at known
      cases known

/-- Once everything was read, that stays so. -/
theorem exhausted_change {r r' : Halves} (joined : Joined r) (change : PipeChange r r')
    (done : r.recv.Exhausted) : r'.recv.Exhausted := by
  obtain ⟨fin, empty⟩ := done
  cases change with
  | work transfer worked =>
      obtain ⟨o, moves, rfl⟩ | ⟨o, moves, rfl⟩ := transfer.op
      · obtain ⟨v, -, rfl⟩ := work_send.mp worked
        exact ⟨fin, empty⟩
      · obtain ⟨v, turned, rfl⟩ := work_recv.mp worked
        obtain ⟨n, passed⟩ := RecvStream.work_moves moves turned
        exact ⟨passed.fin.trans fin, by rw [passed.buffer, empty, List.drop_nil]⟩
  | env _ moved =>
      obtain ⟨-, kept⟩ := network_recv joined.notReset moved
      exact ⟨(kept fin).1, (kept fin).2.trans empty⟩

theorem recv_works {r r' : Halves} {o : RecvOp} {p seg : Bytes} {x : Nat} {turn : StreamTurn}
    {late : Prop} (moves : o.Moves) (shut : late → r.recv.Exhausted)
    (worked : discipline.work r (locked (.recv o)) p x = some (r', turn))
    (explained : RecvExplains late (locked (.recv o)) (.holding p) seg) :
    ∃ more, r'.recv.consumed = r.recv.consumed ++ more ∧
      RecvExplains late (locked (.recv o)) turn.phase (seg ++ more) := by
  obtain ⟨v, turned, rfl⟩ := work_recv.mp worked
  obtain ⟨rfl, within, early⟩ := explained
  -- a turn that reads nothing leaves its segment as it is
  have unread : ∀ {v : RecvStream} {turn : StreamTurn}, r.recv.Passed v 0 →
      RecvExplains late (locked (.recv o)) turn.phase seg →
      ∃ more, v.consumed = r.recv.consumed ++ more ∧
        RecvExplains late (locked (.recv o)) turn.phase (seg ++ more) :=
    fun passed explained => ⟨[], by simp [passed.consumed], by simpa using explained⟩
  have ended : ∀ {v : RecvStream} {turn atEnd : StreamTurn} {ordered : Bool}
      {err : ReadError → StreamError}, r.recv.EndsRead ordered atEnd err v turn →
      RecvExplains late (locked (.recv o)) atEnd.phase seg →
      ∃ more, v.consumed = r.recv.consumed ++ more ∧
        RecvExplains late (locked (.recv o)) turn.phase (seg ++ more) := by
    intro v turn atEnd ordered err ends explained
    obtain rfl | ⟨e, rfl⟩ := ends.ended_or_failed
    · exact unread ends.passed explained
    · exact unread ends.passed early
  have exhausted : ∀ n, late → r.recv.buffer.take n = [] := fun n late => by simp [(shut late).2]
  cases moves with
  | read max =>
      obtain ⟨-, rfl, rfl⟩ | ⟨-, ends⟩ | ⟨-, -, -, rfl, rfl⟩ := RecvStream.work_read turned
      · exact unread RecvStream.passed_none ⟨⟨within, Nat.zero_le _⟩, early⟩
      · exact ended ends ⟨within, early⟩
      · refine ⟨_, (RecvStream.passed_readInto _ _).consumed,
          ⟨by rw [show seg = [] from within, List.nil_append], ?_⟩, fun late => ?_⟩
        · rw [List.length_take]
          omega
        · rw [early late, exhausted _ late, List.append_nil]
  | readExact n =>
      obtain ⟨all, rfl, rfl⟩ | ⟨-, ends⟩ | ⟨k, pos, need, held, -, rfl, rfl⟩ :=
        RecvStream.work_readExact turned
      · exact unread RecvStream.passed_none ⟨⟨rfl, Nat.le_antisymm within all⟩, early⟩
      · exact ended ends early
      · refine ⟨_, (RecvStream.passed_readInto _ _).consumed, rfl, ?_, fun late => ?_⟩
        · show (seg ++ r.recv.buffer.take k).length ≤ n
          rw [List.length_append, List.length_take]
          omega
        · rw [early late, exhausted _ late, List.append_nil]
  | readToEnd max =>
      obtain ⟨ends, -⟩ | ⟨-, -, rfl, rfl⟩ | ⟨-, -, buffered, rfl, turns⟩ :=
        RecvStream.work_readToEnd turned
      · exact ended ends ⟨⟨rfl, within⟩, early⟩
      · exact unread RecvStream.passed_unorder ⟨rfl, within, early⟩
      · have held := RecvStream.chunk_le buffered
        refine ⟨_, (RecvStream.passed_handOut _).consumed, ?_⟩
        obtain ⟨-, rfl⟩ | ⟨short, rfl⟩ := turns
        · exact fun late => by rw [early late, exhausted _ late, List.append_nil]
        · refine ⟨rfl, ?_, fun late => by rw [early late, exhausted _ late, List.append_nil]⟩
          show (seg ++ r.recv.buffer.take r.recv.chunk).length ≤ max
          rw [List.length_append, List.length_take]
          omega

theorem recv_closes {r r' : Halves} {o : RecvOp} {p : Bytes} {x : Nat} {a : Result}
    (joined : Joined r) (moves : o.Moves)
    (worked : discipline.work r (locked (.recv o)) p x = some (r', .finish a))
    (shuts : RecvShuts (locked (.recv o)) a) : r'.recv.Exhausted := by
  obtain ⟨v, turned, rfl⟩ := work_recv.mp worked
  have succeeded : ∀ e, a ≠ .error e := by
    rintro e rfl
    cases moves <;> exact shuts
  -- a read that comes to the end has read everything
  have ends : ∀ {atEnd : StreamTurn} {ordered : Bool} {err : ReadError → StreamError},
      r.recv.EndsRead ordered atEnd err v (.finish a) → v.Exhausted := by
    intro atEnd ordered err ends
    have good : ∀ e, (.finish a : StreamTurn) ≠ fails (err e) := by
      intro e same
      cases same
      exact succeeded _ rfl
    obtain ⟨done, rfl⟩ | ⟨fin, empty, -, rfl⟩ := ends.atEnd_of good
    · refine joined.told ?_
      simpa [RecvStream.done, joined.reading] using done
    · exact ⟨fin, empty⟩
  cases moves with
  | read max =>
      obtain ⟨-, -, turn⟩ | ⟨-, over'⟩ | ⟨-, -, -, -, turn⟩ := RecvStream.work_read turned
      · cases turn
        exact absurd shuts id
      · exact ends over'
      · cases turn
        exact absurd shuts id
  | readExact n => exact absurd shuts id
  | readToEnd max =>
      obtain ⟨over', -⟩ | ⟨-, -, -, turn⟩ | ⟨-, -, -, -, ⟨-, turn⟩ | ⟨-, turn⟩⟩ :=
        RecvStream.work_readToEnd turned
      · exact ends over'
      · cases turn
      · cases turn
        exact absurd shuts id
      · cases turn

/-- The receive mutex and the bytes taken from the stream. -/
def recvTrail : Trail discipline network Half.recv UInt8 where
  out r := r.recv.consumed
  explains _ := RecvExplains
  callOk := IsTransfer
  envOk _ := True
  inv := Joined
  shuts := RecvShuts
  shut r := r.recv.Exhausted
  keeps := joined_change
  stays := exhausted_change
  closes joined transfer routed worked shuts := by
    obtain ⟨o, moves, rfl⟩ := transfer.onRecv routed
    exact recv_closes joined moves worked shuts
  begins _ transfer routed := by
    obtain ⟨o, moves, rfl⟩ := transfer.onRecv routed
    cases moves with
    | read max => exact ⟨rfl, rfl, fun _ => rfl⟩
    | readExact n | readToEnd n => exact ⟨rfl, Nat.zero_le _, fun _ => rfl⟩
  works _ transfer routed shut worked explained := by
    obtain ⟨o, moves, rfl⟩ := transfer.onRecv routed
    exact recv_works moves shut worked explained
  settled _ _ _ explained := explained
  apart := by
    intro r m j p x r' turn joined transfer routed differ worked
    cases j with
    | recv => exact absurd rfl differ
    | send =>
        obtain ⟨b, o, rfl⟩ := route_send.mp routed
        obtain ⟨v, -, rfl⟩ := work_send.mp worked
        exact ⟨rfl, fun _ _ _ _ => id⟩
  calm joined _ moved := ⟨(network_recv joined.notReset moved).1, fun _ _ _ _ => id⟩
  resolves := by
    rintro r late m a seg - explained answer
    simp only [discipline] at answer
    split at answer
    · exact absurd explained id
    · cases answer

/-! ## Both sides -/

/-- The payload of a write that succeeded. -/
def sent (s : StreamState) (c : CallId) : Bytes :=
  match s.calls c with
  | some (.ok ⟨_, .send (.writeAll data)⟩, .ended (.ok _)) => data
  | _ => []

/-- The bytes a read answered with. -/
def received (s : StreamState) (c : CallId) : Bytes :=
  match s.calls c with
  | some (.ok ⟨_, .recv _⟩, .ended (.ok (.bytes data))) => data
  | some (.ok ⟨_, .recv _⟩, .ended (.ok (.chunk (some data)))) => data
  | _ => []

def Failed (s : StreamState) (c : CallId) : Prop := ∃ m e, s.calls c = some (m, .ended (.error e))

/-- The call is a `finish` that succeeded. -/
def Finished (s : StreamState) (c : CallId) : Prop :=
  ∃ b a, s.calls c = some (.ok ⟨b, .send .finish⟩, .ended (.ok a))

/-- The call read to the end of the stream: `recv` returned `None`, or `read_to_end` its bytes. -/
def SawEnd (s : StreamState) (c : CallId) : Prop :=
  ∃ b o a, s.calls c = some (.ok ⟨b, .recv o⟩, .ended (.ok a)) ∧
    RecvShuts (.ok ⟨b, .recv o⟩) (.ok a)

/-- A write whose payload is on the stream in part: under the guard, or failed because the
connection was lost. It did not come after a `finish`. -/
structure CutOff (s : StreamState) (c : CallId) (part : Bytes) : Prop where
  call : ∃ b data ph, s.calls c = some (.ok ⟨b, .send (.writeAll data)⟩, ph) ∧ part <+: data ∧
    ((∃ p, ph = .holding p) ∨ (s.res.send.lost.isSome ∧ ∃ e, ph = .ended (.error e)))
  before : ∀ f, [f, c].Sublist (s.taken .send) → ¬ Finished s f

/-- What the two ends of a stream see of any concurrent transfers. -/
structure Integrity (s : StreamState) : Prop where
  /-- Whole payloads in the order of the send mutex, then a part of at most one more. -/
  written : ∃ tail, s.res.send.written = (s.taken .send).flatMap (sent s) ++ tail ∧
    (tail = [] ∨ ∃ c ∈ s.taken .send, CutOff s c tail)
  /-- A write that takes the mutex after a `finish` hands nothing over, and succeeds only with
  nothing to write. -/
  late : ∀ f c b data ph, [f, c].Sublist (s.taken .send) → Finished s f →
    s.calls c = some (.ok ⟨b, .send (.writeAll data)⟩, ph) →
    (∀ p, ph = .holding p → p = data) ∧ (∀ a, ph = .ended (.ok a) → data = [])
  /-- Until a read fails, the reads got the written bytes in order, none lost or repeated. -/
  read : ∀ reads, reads <+: s.taken .recv → (∀ c ∈ reads, ¬ Failed s c) →
    reads.flatMap (received s) <+: s.res.send.written
  /-- A read that succeeded got what was asked for. -/
  sizes : ∀ c b o a, s.calls c = some (.ok ⟨b, .recv o⟩, .ended (.ok a)) →
    Delivers o a (received s c)
  /-- A read sees the end only of a finished stream, when every byte of it was read. -/
  complete : ∀ reads c, reads <+: s.taken .recv → (∀ d ∈ reads, ¬ Failed s d) → c ∈ reads →
    SawEnd s c → reads.flatMap (received s) = s.res.send.written ∧ s.res.send.finished = true

/-- A stream nothing was done with yet, over any connection. -/
structure Opened (s : StreamState) : Prop where
  fresh : s.Fresh
  send : s.res.send.written = [] ∧ s.res.send.finished = false ∧ s.res.send.resetCode = none ∧
    s.res.send.stopCode = none
  recv : s.res.recv.consumed = [] ∧ s.res.recv.buffer = [] ∧ s.res.recv.fin = false ∧
    s.res.recv.resetCode = none ∧ s.res.recv.stopCode = none ∧ s.res.recv.told = false

theorem Opened.joined {s : StreamState} (opened : Opened s) : Joined s.res := by
  obtain ⟨-, ⟨written, finished, notReset, notStopped⟩, consumed, buffer, fin, intact, reading,
    untold⟩ := opened
  exact ⟨notReset, notStopped, intact, reading, by simp [consumed, buffer, written], by simp [fin],
    by simp [untold]⟩

theorem sendSplit {s : StreamState}
    (reached : Reachable (step discipline network) Transfers Opened s) :
    sendTrail.Inv s :=
  sendTrail.split (fun _ opened => ⟨opened.fresh, opened.joined, opened.send.1⟩)
    (reached.mono fun _ e ok => by cases e <;> exact ok)

theorem recvSplit {s : StreamState}
    (reached : Reachable (step discipline network) Transfers Opened s) :
    recvTrail.Inv s :=
  recvTrail.split (fun _ opened => ⟨opened.fresh, opened.joined, opened.recv.1⟩)
    (reached.mono fun _ e ok => by cases e <;> exact ok)

section Written

variable {s : StreamState} {c d : CallId} {seg : CallId → Bytes} {late : CallId → Prop}

/-- A call that took the send mutex is a write or a `finish`, explained by its segment. -/
theorem sendCall (inv : sendTrail.Inv s) (split : sendTrail.Split s seg late)
    (member : c ∈ s.taken .send) : ∃ o ph, SendOp.Moves o ∧
      s.calls c = some (locked (.send o), ph) ∧
      SendExplains s.res (late c) (locked (.send o)) ph (seg c) := by
  obtain ⟨m, ph, called, explained⟩ := split.explained c member
  obtain ⟨_, _, now, routed, -⟩ := inv.ord.past .send c member
  rw [called] at now
  cases now
  obtain ⟨o, moves, rfl⟩ := (inv.calls c m ph called).onSend routed
  exact ⟨o, ph, moves, called, explained⟩

/-- A segment is the payload of a write that succeeded, or part of one that did not. -/
theorem whole_or_part (inv : sendTrail.Inv s) (split : sendTrail.Split s seg late)
    (member : c ∈ s.taken .send) : seg c = sent s c ∨
      (sent s c = [] ∧ ∃ b data ph, s.calls c = some (.ok ⟨b, .send (.writeAll data)⟩, ph) ∧
        seg c <+: data ∧
        ((∃ p, ph = .holding p) ∨ (s.res.send.lost.isSome ∧ ∃ e, ph = .ended (.error e)))) := by
  obtain ⟨o, ph, moves, called, explained⟩ := sendCall inv split member
  cases moves with
  | finish =>
      have empty : seg c = [] := explained
      exact .inl (by simp [empty, sent, called, locked])
  | writeAll data =>
      rcases ph with _ | p | _ | ⟨e | a⟩ | _
      · exact absurd explained id
      · exact .inr ⟨by simp [sent, called, locked], false, data, _, called, ⟨p, explained.1⟩,
          .inl ⟨p, rfl⟩⟩
      · exact absurd explained id
      · obtain ⟨part, -, empty | lost⟩ := explained
        · exact .inl (by simp [empty, sent, called, locked])
        · exact .inr ⟨by simp [sent, called, locked], false, data, _, called, part,
            .inr ⟨lost, e, rfl⟩⟩
      · exact .inl (by simp [explained.1, sent, called, locked])
      · exact absurd explained id

/-- A late call has handed nothing over. -/
theorem late_empty (inv : sendTrail.Inv s) (split : sendTrail.Split s seg late)
    (member : c ∈ s.taken .send) (isLate : late c) : seg c = [] ∧ sent s c = [] := by
  obtain ⟨o, ph, moves, called, explained⟩ := sendCall inv split member
  cases moves with
  | finish => exact ⟨explained, by simp [sent, called, locked]⟩
  | writeAll data =>
      rcases ph with _ | p | _ | ⟨e | a⟩ | _
      · exact absurd explained id
      · exact ⟨explained.2.1 isLate, by simp [sent, called, locked]⟩
      · exact absurd explained id
      · exact ⟨explained.2.1 isLate, by simp [sent, called, locked]⟩
      · exact ⟨explained.1.trans (explained.2 isLate), by
          simp [sent, called, locked, explained.2 isLate]⟩
      · exact absurd explained id

theorem Finished.shuts (finished : Finished s c) : sendTrail.ShutBy s c := by
  obtain ⟨b, a, called⟩ := finished
  exact ⟨_, _, called, trivial⟩

theorem integrity_written (inv : sendTrail.Inv s) :
    ∃ tail, s.res.send.written = (s.taken .send).flatMap (sent s) ++ tail ∧
      (tail = [] ∨ ∃ c ∈ s.taken .send, CutOff s c tail) := by
  obtain ⟨seg, late, split⟩ := inv.split
  have order : (s.taken .send).Pairwise
      fun c d => seg c ≠ sent s c → seg d = [] ∧ sent s d = [] := by
    refine List.pairwise_iff_forall_sublist.mpr fun {c d} behind partly => ?_
    have first : c ∈ s.taken .send := behind.subset (by simp)
    have second : d ∈ s.taken .send := behind.subset (by simp)
    obtain whole | ⟨-, b, data, ph, called, -, ⟨p, rfl⟩ | ⟨-, e, rfl⟩⟩ :=
      whole_or_part inv split first
    · exact absurd whole partly
    · exact absurd behind (inv.ord.none_behind called rfl)
    · exact late_empty inv split second (split.late_behind behind ⟨_, _, called, trivial⟩)
  obtain ⟨tail, record, rest⟩ := flatMap_full_append (s.taken .send)
    (fun c member => (whole_or_part inv split member).imp_right And.left) order
  refine ⟨tail, split.record.trans record, rest.imp_right ?_⟩
  rintro ⟨c, member, partly, rfl⟩
  obtain whole | ⟨-, call⟩ := whole_or_part inv split member
  · exact absurd whole partly
  refine ⟨c, member, call, fun f behind finished => partly ?_⟩
  obtain ⟨empty, none⟩ := late_empty inv split member (split.late_behind behind finished.shuts)
  rw [empty, none]

theorem integrity_late (inv : sendTrail.Inv s) {f : CallId} {b : Bool} {data : Bytes}
    {ph : Phase Bytes Result} (behind : [f, c].Sublist (s.taken .send)) (finished : Finished s f)
    (called : s.calls c = some (.ok ⟨b, .send (.writeAll data)⟩, ph)) :
    (∀ p, ph = .holding p → p = data) ∧ (∀ a, ph = .ended (.ok a) → data = []) := by
  obtain ⟨seg, late, split⟩ := inv.split
  have isLate := split.late_behind behind finished.shuts
  obtain ⟨m, ph', now, explained⟩ := split.explained c (behind.subset (by simp))
  rw [called] at now
  cases now
  constructor
  · rintro p rfl
    obtain ⟨split, early, -⟩ := explained
    rwa [early isLate, List.nil_append] at split
  · rintro a rfl
    exact explained.2 isLate

end Written

section Read

variable {s : StreamState} {c d : CallId} {seg : CallId → Bytes} {late : CallId → Prop}

theorem delivers_received {b : Bool} {o : RecvOp} {a : Answer} {data : Bytes}
    (called : s.calls c = some (.ok ⟨b, .recv o⟩, .ended (.ok a))) (delivers : Delivers o a data) :
    received s c = data := by
  simp only [received, called]
  unfold Delivers at delivers
  split at delivers
  · exact delivers.1.symm
  · exact delivers.symm
  · exact delivers.1.symm
  · exact delivers.1.symm
  · exact absurd delivers id

/-- A segment is the answer of a read, unless the read is under the guard or failed. -/
theorem answered_or_reading (inv : recvTrail.Inv s) (split : recvTrail.Split s seg late)
    (member : c ∈ s.taken .recv) (good : ¬ Failed s c) : seg c = received s c ∨
      (received s c = [] ∧ ∃ m p, s.calls c = some (m, .holding p) ∧
        discipline.route m = .ok .recv) := by
  obtain ⟨m, ph, called, explained⟩ := split.explained c member
  obtain ⟨_, _, now, routed, -⟩ := inv.ord.past .recv c member
  rw [called] at now
  cases now
  obtain ⟨o, -, rfl⟩ := (inv.calls c m ph called).onRecv routed
  rcases ph with _ | p | _ | ⟨e | a⟩ | _
  · exact absurd explained id
  · exact .inr ⟨by simp [received, called], _, p, called, rfl⟩
  · exact absurd explained id
  · exact absurd ⟨_, e, called⟩ good
  · exact .inl (delivers_received called explained.1).symm
  · exact absurd explained id

theorem consumed_of_written (inv : recvTrail.Inv s) : s.res.recv.consumed <+: s.res.send.written :=
  (List.prefix_append _ _).trans inv.res.inOrder

theorem integrity_read (inv : recvTrail.Inv s) {reads : List CallId}
    (first : reads <+: s.taken .recv) (good : ∀ c ∈ reads, ¬ Failed s c) :
    reads.flatMap (received s) <+: s.res.send.written := by
  obtain ⟨seg, late, split⟩ := inv.split
  have known := fun c member =>
    answered_or_reading inv split (first.subset member) (good c member)
  obtain ⟨tail, record, -⟩ := flatMap_full_append reads
    (fun c member => (known c member).imp_right And.left) <| by
      refine List.pairwise_iff_forall_sublist.mpr fun {c d} behind partly => ?_
      obtain whole | ⟨-, m, p, called, routed⟩ := known c (behind.subset (by simp))
      · exact absurd whole partly
      · exact absurd (behind.trans first.sublist) (inv.ord.none_behind called routed)
  have read : reads.flatMap seg <+: s.res.recv.consumed := by
    obtain ⟨rest, taken⟩ := first
    refine ⟨rest.flatMap seg, ?_⟩
    rw [← List.flatMap_append, taken]
    exact split.record.symm
  rw [record] at read
  exact ((List.prefix_append _ _).trans read).trans (consumed_of_written inv)

theorem integrity_sizes (inv : recvTrail.Inv s) {b : Bool} {o : RecvOp} {a : Answer}
    (called : s.calls c = some (.ok ⟨b, .recv o⟩, .ended (.ok a))) :
    Delivers o a (received s c) := by
  obtain ⟨seg, late, split⟩ := inv.split
  have member := inv.ord.mem .recv c _ _ called rfl (by simp) (by simp)
  obtain ⟨m, ph, now, explained⟩ := split.explained c member
  rw [called] at now
  cases now
  rw [delivers_received called explained.1]
  exact explained.1

theorem SawEnd.shuts (end' : SawEnd s c) : recvTrail.ShutBy s c := by
  obtain ⟨b, o, a, called, shuts⟩ := end'
  exact ⟨_, _, called, shuts⟩

/-- Nothing is left for the calls behind one that read to the end. -/
theorem behind_end (inv : recvTrail.Inv s) (split : recvTrail.Split s seg late)
    (behind : [c, d].Sublist (s.taken .recv)) (end' : SawEnd s c) : seg d = [] := by
  have isLate := split.late_behind behind end'.shuts
  obtain ⟨m, ph, called, explained⟩ := split.explained d (behind.subset (by simp))
  obtain ⟨_, _, now, routed, -⟩ := inv.ord.past .recv d (behind.subset (by simp))
  rw [called] at now
  cases now
  obtain ⟨o, -, rfl⟩ := (inv.calls d m ph called).onRecv routed
  rcases ph with _ | p | _ | ⟨e | a⟩ | _
  · exact absurd explained id
  · exact explained.2.2 isLate
  · exact absurd explained id
  · exact explained isLate
  · exact explained.2 isLate
  · exact absurd explained id

theorem integrity_complete (inv : recvTrail.Inv s) {reads : List CallId}
    (first : reads <+: s.taken .recv) (good : ∀ d ∈ reads, ¬ Failed s d) (member : c ∈ reads)
    (end' : SawEnd s c) :
    reads.flatMap (received s) = s.res.send.written ∧ s.res.send.finished = true := by
  obtain ⟨seg, late, split⟩ := inv.split
  obtain ⟨fin, empty⟩ : s.res.recv.Exhausted :=
    split.shut c (first.subset member) (.inr end'.shuts)
  obtain ⟨finished, all⟩ := inv.res.ended fin
  refine ⟨?_, finished⟩
  have same : reads.flatMap (received s) = reads.flatMap seg := by
    refine List.flatMap_congr fun d here => ?_
    obtain whole | ⟨none, m, p, called, routed⟩ :=
      answered_or_reading inv split (first.subset here) (good d here)
    · exact whole.symm
    · obtain ⟨before, taken⟩ := inv.ord.last .recv d m p called routed
      have other : c ≠ d := by
        rintro rfl
        obtain ⟨b, o, a, ended, -⟩ := end'
        rw [called] at ended
        cases ended
      have earlier : c ∈ before := by
        have before := first.subset member
        rw [taken] at before
        simpa [other] using before
      have behind : [c, d].Sublist (s.taken .recv) := by
        rw [taken]
        exact (List.singleton_sublist.mpr earlier).append (List.Sublist.refl [d])
      rw [none, behind_end inv split behind end']
  obtain ⟨rest, taken⟩ := first
  have nothing : rest.flatMap seg = [] := by
    refine List.flatMap_eq_nil_iff.mpr fun d here => behind_end inv split ?_ end'
    rw [← taken]
    exact (List.singleton_sublist.mpr member).append (List.singleton_sublist.mpr here)
  calc reads.flatMap (received s) = reads.flatMap seg ++ rest.flatMap seg := by
        rw [same, nothing, List.append_nil]
    _ = (s.taken .recv).flatMap seg := by rw [← List.flatMap_append, taken]
    _ = s.res.recv.consumed := split.record.symm
    _ = s.res.send.written := by rw [← all, empty, List.append_nil]

end Read

/-- **Bytes keep their order and their calls.** In every reachable state of any concurrent
writes, finishes and reads in any number of parts, payloads are on the stream whole and in the
order of the send mutex, and the reads got them in the order of the receive mutex. -/
theorem stream_integrity {s : StreamState}
    (reached : Reachable (step discipline network) Transfers Opened s) : Integrity s where
  written := integrity_written (sendSplit reached)
  late _ _ _ _ _ := integrity_late (sendSplit reached)
  read _ := integrity_read (recvSplit reached)
  sizes _ _ _ _ := integrity_sizes (recvSplit reached)
  complete _ _ := integrity_complete (recvSplit reached)

end Library

section Example

local instance partsText : Display StreamError := ⟨fun _ => "stream error"⟩
local instance partsChunks : Chunking := ⟨fun v => v.buffer.length⟩

/-- Two bytes written in two parts, a `finish`, both bytes read at once, then the end. -/
def inParts : List (Event Method Nat NetEvent) :=
  [.call 0 (IrohStream.sendBytes [1, 2]), .call 1 IrohStream.finish, .acquire 0, .work 0 1,
    .work 0 1, .work 0 0, .acquire 1, .work 1 0, .env (.deliver 2), .env .deliverFin,
    .call 2 (IrohRecvStream.recv 5), .acquire 2, .work 2 2, .call 3 (IrohRecvStream.recv 5),
    .acquire 3, .work 3 0]

theorem stream_integrity_inParts :
    ∃ s, exec (step discipline network) (State.idle (Halves.opened 2)) inParts = some s ∧
      Integrity s := by
  have runs :
      (exec (step discipline network) (State.idle (Halves.opened 2)) inParts).isSome = true := by
    decide
  obtain ⟨s, done⟩ := Option.isSome_iff_exists.mp runs
  have opened : Opened (State.idle (Halves.opened 2)) :=
    ⟨State.idle_fresh _, ⟨rfl, rfl, rfl, rfl⟩, rfl, rfl, rfl, rfl, rfl, rfl⟩
  refine ⟨s, done, stream_integrity ⟨_, opened, .of_stepwise done (.of_forall ?_ _)⟩⟩
  intro e member t
  simp only [inParts, List.mem_cons, List.not_mem_nil, or_false] at member
  obtain rfl | rfl | rfl | rfl | rfl | rfl | rfl | rfl | rfl | rfl | rfl | rfl | rfl | rfl | rfl |
    rfl := member
  all_goals first | exact trivial | constructor

end Example

end IrohKmp.Runtime.Stream
