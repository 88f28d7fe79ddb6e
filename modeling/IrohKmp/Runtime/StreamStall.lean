/-
# Runtime.StreamStall — when a call on a stream goes through without the peer

A call waits for its mutex behind other calls, and then for credit or for data. On the send half
all of it comes to one count: the bytes that the writes in line still have to hand over, up to
the first `finish` or `reset`, against the credit. On the receive half there is no such count,
since `recv` takes all that has arrived and fits, and leaves nothing to the call behind it: what
each call of the line leaves has to be followed, down to the call in question.

* `SendOp.cost`, `bytesToWrite` — what the calls of a line need of the send half;
* `sendMetered`, `drains_send_iff` — the send half is paid for in credit, and a line drains
  exactly when that is there;
* `RecvStream.readThrough` — what the calls of a line leave of the receive half, if they can end;
* `Enough`, `completes_iff_enough` — every call but `stopped`, in every reachable state;
  `completes_iff_enough_short`, two writes that need three bytes of credit.
-/
import IrohKmp.Runtime.Codes
import IrohKmp.Runtime.StreamAbort
import IrohKmp.Runtime.StreamDeadlock
import IrohKmp.Theory.GuardedServe

namespace IrohKmp.Runtime.Stream

open IrohKmp.Kernel
open IrohKmp.Theory.Run
open IrohKmp.Theory.Guarded

set_option autoImplicit false
set_option linter.unusedSectionVars false

/-! ## What a line needs -/

/-- The credit a call needs to end, with `p` left to write. -/
def SendOp.cost (p : Bytes) : SendOp → Nat
  | .writeAll _ => p.length
  | _ => 0

/-- After the call no write needs credit: it fails. -/
def SendOp.shuts (acked : Bool) : SendOp → Bool
  | .finish | .reset _ => !acked
  | _ => false

/-- The credit the writes of a line need. -/
def bytesToWrite (acked : Bool) : List (Method × Bytes) → Nat
  | (.ok ⟨_, .send o⟩, p) :: rest =>
      if o.shuts acked then 0 else o.cost p + bytesToWrite acked rest
  | _ => 0

section Library

variable [Display StreamError] [Chunking] [Display VarIntBoundsExceeded]

/-! ## The send half -/

namespace SendStream

variable {v v' : SendStream} {o : SendOp} {p : Bytes}

theorem writeError_isSome :
    v.writeError.isSome ↔ v.lost.isSome ∨ v.closed = true ∨ v.stopCode.isSome := by
  unfold writeError
  cases v.lost with
  | some cause => simp
  | none =>
      cases v.closed with
      | true => simp
      | false => simp

/-- A stream that takes no data takes none after a turn. -/
theorem writeError_moved (moves : Moved v v') (failed : v.writeError.isSome) :
    v'.writeError.isSome := by
  rw [writeError_isSome] at failed ⊢
  obtain lost | closed | stopped := failed
  · exact .inl (by rw [moves.lost]; exact lost)
  · exact .inr (.inl (moves.closed closed))
  · exact .inr (.inr (by rw [moves.stop]; exact stopped))

/-- On a stream that takes no data every call settles, and the stream stays so. -/
theorem settles_of_failed (failed : v.writeError.isSome) (o : SendOp) (p : Bytes) :
    ∃ v', v.Settles o p v' ∧ v'.writeError.isSome := by
  by_cases transfer : ∃ data, o = .writeAll data
  · obtain ⟨data, rfl⟩ := transfer
    exact ⟨v, by simp [Settles, failed], failed⟩
  · have other : ∀ data, o ≠ .writeAll data := fun data same => transfer ⟨data, same⟩
    obtain ⟨-, w, turn, first, -⟩ := work_prompt (v := v) (p := p) o other 0
    refine ⟨w, ?_, writeError_moved (work_moved first) failed⟩
    cases o with
    | writeAll data => exact absurd rfl (other data)
    | _ => exact ⟨turn, first⟩

/-- A `finish` or `reset` that takes leaves a stream that takes no data. -/
theorem settles_of_shuts (shuts : o.shuts v.acked = true) (p : Bytes) :
    ∃ v', v.Settles o p v' ∧ v'.writeError.isSome := by
  by_cases failed : v.writeError.isSome
  · exact settles_of_failed failed o p
  · rw [writeError_isSome, not_or, not_or] at failed
    obtain ⟨-, running, unstopped⟩ := failed
    rw [Bool.not_eq_true] at running
    cases o with
    | finish =>
        have unacked : v.acked = false := by simpa [SendOp.shuts] using shuts
        refine ⟨{ v with finished := true }, ⟨answers .unit, ?_⟩, ?_⟩
        · simp [work, running, unstopped, unacked]
        · rw [writeError_isSome]
          exact .inr (.inl rfl)
    | reset code =>
        have unset : v.resetCode.isSome = false := (Bool.or_eq_false_iff.mp running).2
        have unacked : v.acked = false := by simpa [SendOp.shuts] using shuts
        refine ⟨{ v with resetCode := some code }, ⟨answers .unit, ?_⟩, ?_⟩
        · simp [work, unset, unacked]
        · rw [writeError_isSome]
          exact .inr (.inl (Bool.or_true _))
    | writeAll data | setPriority q | priority | id | stopped => cases shuts

/-- On a stream that takes data, what a call that does not shut it needs, and leaves. -/
structure Spends (v v' : SendStream) (n : Nat) : Prop where
  within : n ≤ v.credit
  credit : v'.credit = v.credit - n
  writable : v'.writeError = none
  acked : v'.acked = v.acked

theorem spends_of_settles (writable : v.writeError = none) (runs : o.shuts v.acked = false)
    (settled : v.Settles o p v') : Spends v v' (o.cost p) := by
  have idle : v' = v → Spends v v' 0 := by
    rintro rfl
    exact ⟨Nat.zero_le _, rfl, writable, rfl⟩
  cases o with
  | writeAll data =>
      simp only [Settles, writable, Option.isSome_none, Bool.false_eq_true, or_false] at settled
      split at settled
      · rename_i empty
        rw [empty]
        exact idle settled
      · obtain ⟨fits, rfl⟩ := settled
        exact ⟨fits, rfl, writable, rfl⟩
  | finish | reset code =>
      have acked : v.acked = true := by simpa [SendOp.shuts] using runs
      obtain ⟨turn, worked⟩ := settled
      simp only [work, acked, Bool.or_true, if_true] at worked
      cases worked
      exact idle rfl
  | setPriority q =>
      obtain ⟨turn, worked⟩ := settled
      simp only [work] at worked
      split at worked
      · cases worked
        exact idle rfl
      · cases worked
        exact ⟨Nat.zero_le _, rfl, writable, rfl⟩
  | priority =>
      obtain ⟨turn, worked⟩ := settled
      simp only [work] at worked
      split at worked <;> cases worked <;> exact idle rfl
  | id | stopped =>
      obtain ⟨turn, worked⟩ := settled
      cases worked
      exact idle rfl

theorem settles_of_cost (writable : v.writeError = none) (fits : o.cost p ≤ v.credit) :
    ∃ v', v.Settles o p v' := by
  by_cases transfer : ∃ data, o = .writeAll data
  · obtain ⟨data, rfl⟩ := transfer
    by_cases empty : p = []
    · exact ⟨v, by simp [Settles, empty]⟩
    · refine ⟨v.accept p, ?_⟩
      simp only [Settles, empty, writable, Option.isSome_none, Bool.false_eq_true, or_self,
        if_false, and_true]
      exact fits
  · have other : ∀ data, o ≠ .writeAll data := fun data same => transfer ⟨data, same⟩
    obtain ⟨-, w, turn, first, -⟩ := work_prompt (v := v) (p := p) o other 0
    refine ⟨w, ?_⟩
    cases o with
    | writeAll data => exact absurd rfl (other data)
    | _ => exact ⟨turn, first⟩

end SendStream

/-- The work of a line of calls on the send half. -/
def OnSend (work : List (Method × Bytes)) : Prop := ∀ w ∈ work, ∃ b o, w.1 = .ok ⟨b, .send o⟩

/-- The send half is paid for in credit, while it takes data. -/
def sendMetered : Metered sendSettling Bool where
  Known w := ∃ b o, w.1 = .ok ⟨b, .send o⟩
  free v := v.writeError.isSome
  budget := SendStream.credit
  flag := SendStream.acked
  cost
    | (.ok ⟨_, .send o⟩, p) => o.cost p
    | _ => 0
  shuts acked
    | (.ok ⟨_, .send o⟩, _) => o.shuts acked
    | _ => false
  frees := by
    rintro v ⟨m, p⟩ ⟨b, o, rfl⟩ (failed | shuts)
    · obtain ⟨v', settled, failed'⟩ := SendStream.settles_of_failed failed o p
      exact ⟨v', ⟨b, o, rfl, settled⟩, failed'⟩
    · obtain ⟨v', settled, failed'⟩ := SendStream.settles_of_shuts shuts p
      exact ⟨v', ⟨b, o, rfl, settled⟩, failed'⟩
  spends := by
    rintro v v' ⟨m, p⟩ ⟨b, o, rfl⟩ running runs ⟨_, _, same, settled⟩
    cases same
    have writable : v.writeError = none := Option.not_isSome_iff_eq_none.mp running
    obtain ⟨within, credit, writable', acked⟩ :=
      SendStream.spends_of_settles writable runs settled
    exact ⟨within, le_of_eq credit, by simp [writable'], acked⟩
  affords := by
    rintro v ⟨m, p⟩ ⟨b, o, rfl⟩ running runs fits
    have writable : v.writeError = none := Option.not_isSome_iff_eq_none.mp running
    obtain ⟨v', settled⟩ := SendStream.settles_of_cost writable fits
    exact ⟨v', ⟨b, o, rfl, settled⟩,
      (SendStream.spends_of_settles writable runs settled).credit⟩

theorem bytesToWrite_eq_need {acked : Bool} {work : List (Method × Bytes)} (onSend : OnSend work) :
    bytesToWrite acked work = sendMetered.need acked work := by
  induction work with
  | nil => rfl
  | cons w rest ih =>
      obtain ⟨m, p⟩ := w
      obtain ⟨b, o, rfl⟩ := onSend _ List.mem_cons_self
      rw [bytesToWrite, ih fun w member => onSend w (List.mem_cons_of_mem _ member)]
      rfl

/-- **A line drains on the send half** exactly when it takes no data, or has the credit. -/
theorem drains_send_iff (work : List (Method × Bytes)) (onSend : OnSend work) (v : SendStream) :
    sendSettling.Drains v work ↔ v.writeError.isSome ∨ bytesToWrite v.acked work ≤ v.credit := by
  rw [bytesToWrite_eq_need onSend]
  exact sendMetered.drains_iff work onSend v

/-! ## The receive half -/

/-- What is left of the half behind the calls of a line, one after the other, if each can end on
what those in front of it left. -/
def RecvStream.readThrough (v : RecvStream) : List (Method × Bytes) → Option RecvStream
  | [] => some v
  | (.ok ⟨_, .recv o⟩, p) :: rest => (v.settle o p).bind fun v' => v'.readThrough rest
  | _ :: _ => none

def OnRecv (work : List (Method × Bytes)) : Prop := ∀ w ∈ work, ∃ b o, w.1 = .ok ⟨b, .recv o⟩

/-- **A line drains on the receive half** exactly when it can be read through. -/
theorem drains_recv_iff (work : List (Method × Bytes)) (onRecv : OnRecv work) :
    ∀ v : RecvStream, recvSettling.Drains v work ↔ (v.readThrough work).isSome := by
  induction work with
  | nil => exact fun v => iff_of_true trivial rfl
  | cons w rest ih =>
      intro v
      obtain ⟨m, p⟩ := w
      obtain ⟨b, o, rfl⟩ := onRecv _ List.mem_cons_self
      have behind := ih fun w member => onRecv w (List.mem_cons_of_mem _ member)
      rw [RecvStream.readThrough, Option.isSome_bind]
      constructor
      · rintro ⟨v', ⟨_, _, same, settled⟩, drains⟩
        cases same
        rw [settled]
        exact (behind v').mp drains
      · intro read
        cases settled : v.settle o p with
        | none =>
            rw [settled] at read
            cases read
        | some v' =>
            rw [settled] at read
            exact ⟨v', ⟨b, o, rfl, settled⟩, (behind v').mpr read⟩

/-! ## Every call but `stopped` -/

/-- What the half has is enough for the calls of the line up to the end of `c`. -/
def Enough (s : StreamState) (c : CallId) : Half → Prop
  | .send => s.res.send.writeError.isSome ∨
      bytesToWrite s.res.send.acked (workThrough discipline s .send c) ≤ s.res.send.credit
  | .recv => (s.res.recv.readThrough (workThrough discipline s .recv c)).isSome

variable {E : Type} {env : Halves → E → Option Halves} {s : StreamState} {c : CallId} {m : Method}
  {ph : Phase Bytes Result} {h : Half}

theorem routed_of_mem_workThrough (wf : WellFormed discipline s) (inLine : c ∈ s.queue h)
    {w : Method × Bytes} (member : w ∈ workThrough discipline s h c) :
    discipline.route w.1 = .ok h := by
  obtain ⟨d, front, work⟩ := List.mem_filterMap.mp member
  have queued : d ∈ s.queue h := Settling.mem_line inLine front
  obtain ⟨n, ph, called, routed, stands⟩ := (wf.mem_queue h d).mp queued
  have same : w.1 = n := by
    rcases Phase.inLine_iff.mp stands with rfl | ⟨p, rfl⟩ <;>
      · simp only [pending, called, Option.some.injEq] at work
        rw [← work]
  rw [same, routed]

/-- **When a call goes through without the peer.** In every reachable state of any calls on a
stream object, a call that holds or waits for the mutex of its half, other than `stopped`, can
end by local steps alone exactly when the half has enough for the line up to it. -/
theorem completes_iff_enough (reached : Reachable (step discipline env) Any State.Fresh s)
    (called : s.calls c = some (m, ph)) (inLine : ph.InLine) (operates : Operates h m)
    (returns : ¬ Detaches m) :
    CanReach (step discipline env) Local s (fun t => ∃ a, t.calls c = some (m, .ended a)) ↔
      Enough s c h := by
  have wf : WellFormed discipline s := wellFormed_reachable reached
  have routed : discipline.route m = .ok h := route_iff_operates.mpr operates
  have queued : c ∈ s.queue h := (wf.mem_queue h c).mpr ⟨m, ph, called, routed, inLine⟩
  have stays : ∀ r p x r', discipline.work r m p x ≠ some (r', .detach) :=
    fun r p x r' worked => returns (detaches_of_work worked)
  cases h with
  | send =>
      have onSend : OnSend (workThrough discipline s .send c) := fun w member =>
        route_send.mp (routed_of_mem_workThrough wf queued member)
      exact (sendSettling.ends_iff wf called routed inLine stays).trans
        (drains_send_iff _ onSend s.res.send)
  | recv =>
      have onRecv : OnRecv (workThrough discipline s .recv c) := fun w member =>
        route_recv.mp (routed_of_mem_workThrough wf queued member)
      exact (recvSettling.ends_iff wf called routed inLine stays).trans
        (drains_recv_iff _ onRecv s.res.recv)

end Library

/-! ## Two writes of three bytes -/

section Example

local instance stallText : Display StreamError := ⟨fun _ => "stream error"⟩
local instance stallChunks : Chunking := ⟨fun v => v.buffer.length⟩
local instance stallBounds : Display VarIntBoundsExceeded := ⟨fun _ => "out of bounds"⟩

/-- Two `recv(5)` behind three bytes: the first takes them all, and the second waits. Two
`recv(2)` both have their bytes. -/
example :
    let arrived : RecvStream := { (Halves.opened 0).recv with buffer := [1, 2, 3] }
    (arrived.readThrough [(IrohStream.recv 5, [])]).isSome = true ∧
      arrived.readThrough [(IrohStream.recv 5, []), (IrohStream.recv 5, [])] = none ∧
      (arrived.readThrough [(IrohStream.recv 2, []), (IrohStream.recv 2, [])]).isSome = true := by
  decide

/-- A write of two bytes has handed over one of them; a write of one byte waits behind it. -/
def shortOfCredit (credit : Nat) : StreamState :=
  let first := IrohStream.sendBytes [1, 2]
  let idle : StreamState := State.idle (Halves.opened credit)
  let writing := (((idle.record 0 first .waiting).join .send 0).record 0 first
    (.holding [1, 2])).take .send 0
  (writing.record 1 (IrohStream.sendBytes [3]) .waiting).join .send 1

theorem shortOfCredit_reachable (credit : Nat) :
    Reachable (step discipline peer) Any State.Fresh (shortOfCredit credit) :=
  .of_exec [.call 0 (IrohStream.sendBytes [1, 2]), .acquire 0, .call 1 (IrohStream.sendBytes [3])]
    (State.idle_fresh (Halves.opened credit)) rfl

/-- The second write ends by local steps. -/
def SecondEnds (credit : Nat) : Prop :=
  CanReach (step discipline peer) Local (shortOfCredit credit)
    fun t => ∃ a, t.calls 1 = some (IrohStream.sendBytes [3], .ended a)

/-- With three bytes of credit both writes go through; with two the second waits for the peer. -/
theorem completes_iff_enough_short : SecondEnds 3 ∧ ¬ SecondEnds 2 := by
  have operates : Operates .send (IrohStream.sendBytes [3]) := ⟨_, rfl, rfl⟩
  have returns : ¬ Detaches (IrohStream.sendBytes [3]) := by
    rintro ⟨b, same⟩
    cases same
  have granted := completes_iff_enough (c := 1) (shortOfCredit_reachable 3) rfl
    Phase.inLine_waiting operates returns
  have missing := completes_iff_enough (c := 1) (shortOfCredit_reachable 2) rfl
    Phase.inLine_waiting operates returns
  refine ⟨granted.mpr (.inr (by decide)), fun ends => ?_⟩
  obtain failed | enough := missing.mp ends
  · exact absurd failed (by decide)
  · exact absurd enough (by decide)

end Example

end IrohKmp.Runtime.Stream
