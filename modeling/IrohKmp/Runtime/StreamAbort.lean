/-
# Runtime.StreamAbort — when a pending `reset` or `stop` can complete

`reset` and `stop` take the mutex of their half, and a transfer keeps that mutex across
its whole await. So an abort completes without the peer exactly when every call ahead of
it in the line of the mutex can end on what is already there: a write on the credit left
(or because the stream no longer takes data), a read on the bytes that arrived (or because
the stream ended or broke).

* `SendStream.Settles`, `RecvStream.settle` — where one call leaves its half, if it can end;
* `sendSettling`, `recvSettling` — that the turns of the library calls get there;
* `Clear` — the calls ahead of an abort settle in turn;
* `abort_completes_iff`, for every reachable state; `abort_held_up`, the stalled write.
-/
import IrohKmp.Runtime.StreamIntegrity
import IrohKmp.Theory.GuardedDrain

namespace IrohKmp.Runtime.Stream

open IrohKmp.Kernel
open IrohKmp.Theory.Run
open IrohKmp.Theory.Guarded

set_option autoImplicit false
set_option linter.unusedSectionVars false

section Library

variable [Display StreamError] [Chunking]

/-! ## Where a call can leave the send half -/

namespace SendStream

variable {v v' : SendStream} {o : SendOp} {p : Bytes}

/-- `v'` can be left by the call's own turns. A write needs credit for all that remains. -/
def Settles (v : SendStream) (o : SendOp) (p : Bytes) (v' : SendStream) : Prop :=
  match o with
  | .writeAll _ =>
      if p = [] ∨ v.writeError.isSome then v' = v else p.length ≤ v.credit ∧ v' = v.accept p
  | o => ∃ turn, v.work o p 0 = some (v', turn)

theorem settles_more {x : Nat} {p' : Bytes} {w : SendStream}
    (worked : v.work o p x = some (v', .keep p')) (settled : v'.Settles o p' w) :
    v.Settles o p w := by
  by_cases transfer : ∃ data, o = .writeAll data
  · obtain ⟨data, rfl⟩ := transfer
    obtain ⟨-, -, turn⟩ | ⟨e, -, -, turn⟩ | ⟨n, pos, within, short, writable, turn, rfl⟩ :=
      work_writeAll worked
    · cases turn
    · cases turn
    · cases turn
      have nonempty : p ≠ [] := by rintro rfl; simp at short; omega
      simp only [Settles, accept_writeError, writable, Option.isSome_none, Bool.false_eq_true,
        or_false, nonempty, if_false, accept_credit, List.length_take] at settled ⊢
      split at settled
      · rename_i all
        rw [List.drop_eq_nil_iff] at all
        refine ⟨by omega, ?_⟩
        rw [settled, List.take_of_length_le all]
      · obtain ⟨fits, rfl⟩ := settled
        rw [List.length_drop] at fits
        refine ⟨by omega, ?_⟩
        rw [accept_accept, List.take_append_drop]
  · obtain ⟨same, _, turn, first, out⟩ :=
      work_prompt (v := v) (p := p) o (fun data e => transfer ⟨data, e⟩) x
    rw [same, first] at worked
    cases worked
    exact absurd trivial out

theorem settles_last {x : Nat} {turn : StreamTurn} (worked : v.work o p x = some (v', turn))
    (out : ¬ turn.phase.InLine) : v.Settles o p v' := by
  by_cases transfer : ∃ data, o = .writeAll data
  · obtain ⟨data, rfl⟩ := transfer
    obtain ⟨spent, rfl, -⟩ | ⟨e, spent, rfl, -⟩ | ⟨n, -, -, -, -, rfl, -⟩ := work_writeAll worked
    · simp [Settles, spent]
    · simp [Settles, spent]
    · exact absurd trivial out
  · have other : ∀ data, o ≠ .writeAll data := fun data e => transfer ⟨data, e⟩
    rw [(work_prompt o other x).1] at worked
    cases o with
    | writeAll data => exact absurd rfl (other data)
    | _ => exact ⟨turn, worked⟩

theorem settles_run {w : SendStream} (settled : v.Settles o p w) :
    ∃ x v' turn, v.work o p x = some (v', turn) ∧
      ((∃ p', turn = .keep p' ∧ v'.Settles o p' w ∧ p'.length < p.length) ∨
        (¬ turn.phase.InLine ∧ v' = w)) := by
  by_cases transfer : ∃ data, o = .writeAll data
  · obtain ⟨data, rfl⟩ := transfer
    simp only [Settles] at settled
    split at settled
    · rename_i spent
      subst settled
      by_cases empty : p = []
      · exact ⟨0, w, answers .unit, by simp [work, empty], .inr ⟨answers_out _, rfl⟩⟩
      · obtain ⟨e, failed⟩ := Option.isSome_iff_exists.mp (spent.resolve_left empty)
        exact ⟨0, w, fails e, by simp [work, empty, failed], .inr ⟨fails_out _, rfl⟩⟩
    · rename_i writable
      obtain ⟨nonempty, clear⟩ := not_or.mp writable
      obtain ⟨fits, rfl⟩ := settled
      have length : p.length ≠ 0 := by simpa using nonempty
      have whole : min v.credit p.length = p.length := by omega
      refine ⟨p.length, v.accept p, .keep [], ?_, .inl ⟨[], rfl, by simp [Settles], by
        simp only [List.length_nil]; omega⟩⟩
      simp [work, nonempty, Option.not_isSome_iff_eq_none.mp clear, whole]
  · have other : ∀ data, o ≠ .writeAll data := fun data e => transfer ⟨data, e⟩
    obtain ⟨-, v', turn, first, out⟩ := work_prompt (v := v) (p := p) o other 0
    refine ⟨0, v', turn, first, .inr ⟨out, ?_⟩⟩
    cases o with
    | writeAll data => exact absurd rfl (other data)
    | _ =>
        obtain ⟨turn', settled⟩ := settled
        rw [first] at settled
        cases settled
        rfl

end SendStream

/-! ## Where a call leaves the receive half -/

namespace RecvStream

variable {v v' w : RecvStream} {o : RecvOp} {p p' : Bytes} {x : Nat} {turn atEnd : StreamTurn}
  {ordered : Bool} {err : ReadError → StreamError}

@[simp] theorem handOut_buffer (n : Nat) : (v.handOut n).buffer = v.buffer.drop n := rfl
@[simp] theorem handOut_fin (n : Nat) : (v.handOut n).fin = v.fin := rfl
@[simp] theorem handOut_done (n : Nat) : (v.handOut n).done = v.done := rfl
@[simp] theorem handOut_forgotten (n : Nat) : (v.handOut n).forgotten = v.forgotten := rfl
@[simp] theorem tell_done : v.tell.done = true := rfl
@[simp] theorem unorder_done : v.unorder.done = v.done := rfl
@[simp] theorem unorder_forgotten : v.unorder.forgotten = v.forgotten := rfl

theorem handOut_zero : v.handOut 0 = v := by simp [handOut]

theorem handOut_handOut (a b : Nat) : (v.handOut a).handOut b = v.handOut (a + b) := by
  simp [handOut, List.take_add]

/-- What there is behind the last byte: a reset or the end, which is told, a lost connection, or
nothing yet. -/
def last (v : RecvStream) : Option RecvStream :=
  if v.resetCode.isSome || v.fin then some v.tell else if v.lost.isSome then some v else none

/-- Chunks are taken up to the first that does not fit in `room`. -/
def overrun (v : RecvStream) (room : Nat) : RecvStream :=
  if v.buffer = [] then v
  else if room < v.chunk then v.handOut v.chunk
  else (v.handOut v.chunk).overrun (room - v.chunk)
termination_by v.buffer.length
decreasing_by
  have pos : 0 < v.buffer.length := List.length_pos_iff.mpr ‹_›
  have one : 1 ≤ v.chunk := Nat.le_max_left _ _
  simp only [handOut_buffer, List.length_drop]
  omega

/-- What the call leaves once it has ended by its own turns; `none` if it cannot, because it
wants more than is there and there may be more to come. -/
def settle (v : RecvStream) (o : RecvOp) (p : Bytes) : Option RecvStream :=
  match o with
  | .read max =>
      if max = 0 ∨ v.done ∨ v.forgotten then some v
      else if v.unordered then some { v with dropped := true }
      else if v.buffer = [] then v.last
      else some (v.readInto (min max v.buffer.length) max)
  | .readExact n =>
      if n ≤ p.length ∨ v.done ∨ v.forgotten then some v
      else if v.unordered then some { v with dropped := true }
      else if n - p.length ≤ v.buffer.length then some (v.handOut (n - p.length))
      else (v.handOut v.buffer.length).last
  | .readToEnd max =>
      if v.done ∨ v.forgotten then some v
      else if v.buffer = [] ∨ p.length + v.buffer.length ≤ max then
        (v.unorder.handOut v.buffer.length).last
      else some (v.unorder.overrun (max - p.length))
  | o => (v.work o p 0).map Prod.fst

theorem Open.settles (open' : v.Open ordered) :
    ¬ (v.done = true ∨ v.forgotten = true) ∧ (ordered = true → ¬ v.unordered = true) := by
  obtain ⟨undone, kept, fits⟩ := open'
  refine ⟨by simp [undone, kept], ?_⟩
  rintro rfl
  simpa using fits

theorem unorder_self (unordered : v.unordered = true) : v.unorder = v := by
  cases v
  cases unordered
  rfl

/-- A read that can look for bytes and finds none is left to what there is behind them. -/
theorem EndsRead.last (ends : v.EndsRead ordered atEnd err v' turn) (open' : v.Open ordered) :
    v.buffer = [] ∧ v.last = some v' := by
  obtain ⟨undone, kept, fits⟩ := open'
  cases ends with
  | known done =>
      rw [done] at undone
      cases undone
  | closed _ forgotten =>
      rw [forgotten] at kept
      cases kept
  | refused _ _ unfit =>
      rw [unfit] at fits
      cases fits
  | reset code _ empty known => exact ⟨empty, by simp [RecvStream.last, known]⟩
  | ended _ empty intact fin => exact ⟨empty, by simp [RecvStream.last, fin]⟩
  | lost cause _ empty intact running known =>
      exact ⟨empty, by simp [RecvStream.last, intact, running, known]⟩

/-- One that cannot look comes to its end at once. -/
theorem EndsRead.shut (ends : v.EndsRead ordered atEnd err v' turn) (shut : ¬ v.Open ordered) :
    ((v.done = true ∨ v.forgotten = true) ∧ v' = v) ∨
      (ordered = true ∧ v.unordered = true ∧ v.done = false ∧ v.forgotten = false ∧
        v' = { v with dropped := true }) := by
  cases ends with
  | known done => exact .inl ⟨.inl done, rfl⟩
  | closed _ forgotten => exact .inl ⟨.inr forgotten, rfl⟩
  | refused undone kept unfit =>
      rw [Bool.and_eq_true] at unfit
      exact .inr ⟨unfit.1, unfit.2, undone, kept, rfl⟩
  | reset _ open' | ended open' | lost _ open' => exact absurd open' shut

theorem starved_isSome (v : RecvStream) (atEnd : StreamTurn) (err : ReadError → StreamError) :
    (v.starved atEnd err).isSome = v.last.isSome := by
  unfold starved last
  cases v.resetCode with
  | some code => rfl
  | none =>
      cases v.fin with
      | true => rfl
      | false => cases v.lost <;> rfl

/-! ### A turn keeps to it -/

/-- What `read_exact` leaves it also leaves from behind one of its parts. -/
theorem settle_part {n k : Nat} (pos : 0 < k) (need : k ≤ n - p.length)
    (held : k ≤ v.buffer.length) (open' : v.Open true) :
    v.settle (.readExact n) p =
      (v.readInto k (n - p.length)).settle (.readExact n) (p ++ v.buffer.take k) := by
  obtain ⟨looks, ordered⟩ := open'.settles
  have length : (p ++ v.buffer.take k).length = p.length + k := by
    rw [List.length_append, List.length_take]
    omega
  have missing : ¬ (n ≤ p.length ∨ v.done = true ∨ v.forgotten = true) :=
    not_or.mpr ⟨by omega, looks⟩
  rw [settle, if_neg missing, if_neg (ordered rfl)]
  by_cases whole : k = n - p.length
  · have same : v.readInto k (n - p.length) = v.handOut k := if_neg (by omega)
    rw [if_pos (by omega), same, settle, if_pos (.inl (by rw [length]; omega)), whole]
  obtain same | ⟨fin, all, -, same⟩ := readInto_cases v k (n - p.length)
  · have missing' : ¬ (n ≤ p.length + k ∨ (v.handOut k).done = true ∨
        (v.handOut k).forgotten = true) := not_or.mpr ⟨by omega, looks⟩
    have ordered' : ¬ (v.handOut k).unordered = true := ordered rfl
    rw [same, settle, length, if_neg missing', if_neg ordered']
    simp only [handOut_buffer, List.length_drop, handOut_handOut]
    by_cases enough : n - p.length ≤ v.buffer.length
    · rw [if_pos enough, if_pos (by omega)]
      congr 2
      omega
    · rw [if_neg enough, if_neg (by omega)]
      congr 2
      omega
  · have every : k = v.buffer.length := by omega
    rw [if_neg (by omega), same, settle, if_pos (.inr (.inl tell_done)), every]
    simp [RecvStream.last, fin]

/-- So does `read_to_end` from behind a chunk that fits. -/
theorem settle_chunk {max : Nat} (open' : v.Open false) (unordered : v.unordered = true)
    (buffered : v.buffer ≠ []) (short : p.length + v.chunk ≤ max) :
    v.settle (.readToEnd max) p =
      (v.handOut v.chunk).settle (.readToEnd max) (p ++ v.buffer.take v.chunk) := by
  have held := chunk_le buffered
  have looks := open'.settles.1
  have length : (p ++ v.buffer.take v.chunk).length = p.length + v.chunk := by
    rw [List.length_append, List.length_take]
    omega
  have taken : ((v.handOut v.chunk).buffer = [] ∨
      p.length + v.chunk + (v.buffer.length - v.chunk) ≤ max) ↔
      p.length + v.buffer.length ≤ max := by
    rw [handOut_buffer, List.drop_eq_nil_iff]
    omega
  simp only [settle, handOut_done, handOut_forgotten, if_neg looks, unorder_self unordered,
    unorder_self (v := v.handOut v.chunk) unordered, length, buffered, false_or]
  simp only [handOut_buffer, List.length_drop] at taken ⊢
  by_cases fits : p.length + v.buffer.length ≤ max
  · rw [if_pos fits, if_pos (taken.mpr fits), handOut_handOut]
    congr 2
    omega
  · rw [if_neg fits, if_neg (mt taken.mp fits), overrun, if_neg buffered, if_neg (by omega)]
    congr 2
    omega

/-- A turn that keeps the mutex changes nothing about where the call gets. -/
theorem settle_of_keep (worked : v.work o p x = some (v', .keep p')) :
    v.settle o p = v'.settle o p' := by
  cases o with
  | read max =>
      obtain ⟨-, -, turn⟩ | ⟨-, ends⟩ | ⟨-, -, -, -, turn⟩ := work_read worked
      · cases turn
      · exact absurd trivial (ends.out (answers_out _))
      · cases turn
  | readExact n =>
      obtain ⟨-, -, turn⟩ | ⟨-, ends⟩ | ⟨k, pos, need, held, open', rfl, turn⟩ :=
        work_readExact worked
      · cases turn
      · exact absurd trivial (ends.out (fails_out _))
      · cases turn
        exact settle_part pos need held open'
  | readToEnd max =>
      obtain ⟨ends, -⟩ | ⟨open', -, rfl, turn⟩ | ⟨open', unordered, buffered, rfl, turns⟩ :=
        work_readToEnd worked
      · exact absurd trivial (ends.out (answers_out _))
      · cases turn
        have looks := open'.settles.1
        rw [settle, if_neg looks, settle, unorder_done, unorder_forgotten, if_neg looks]
        rfl
      · obtain ⟨-, turn⟩ | ⟨short, turn⟩ := turns
        · cases turn
        · cases turn
          exact settle_chunk open' unordered buffered short
  | stop code => obtain ⟨-, -, turn⟩ | ⟨-, -, -, turn⟩ := work_stop worked <;> cases turn
  | id => cases worked

/-- A turn that ends the call leaves what the call leaves. -/
theorem settle_of_out (worked : v.work o p x = some (v', turn)) (out : ¬ turn.phase.InLine) :
    v.settle o p = some v' := by
  cases o with
  | read max =>
      obtain ⟨nothing, rfl, -⟩ | ⟨asked, ends⟩ | ⟨asked, open', buffered, rfl, -⟩ :=
        work_read worked
      · exact if_pos (.inl nothing)
      · by_cases open' : v.Open true
        · obtain ⟨looks, ordered⟩ := open'.settles
          obtain ⟨empty, last⟩ := ends.last open'
          rw [settle, if_neg (not_or.mpr ⟨asked, looks⟩), if_neg (ordered rfl),
            if_pos empty, last]
        · obtain ⟨over', rfl⟩ | ⟨-, unordered, undone, kept, rfl⟩ := ends.shut open'
          · exact if_pos (.inr over')
          · rw [settle, if_neg (by simp [asked, undone, kept]), if_pos unordered]
      · obtain ⟨looks, ordered⟩ := open'.settles
        rw [settle, if_neg (not_or.mpr ⟨asked, looks⟩), if_neg (ordered rfl),
          if_neg buffered]
  | readExact n =>
      obtain ⟨all, rfl, -⟩ | ⟨missing, ends⟩ | ⟨k, -, -, -, -, -, rfl⟩ := work_readExact worked
      · exact if_pos (.inl all)
      · by_cases open' : v.Open true
        · obtain ⟨looks, ordered⟩ := open'.settles
          obtain ⟨empty, last⟩ := ends.last open'
          have short : ¬ n - p.length ≤ v.buffer.length := by
            rw [empty, List.length_nil]
            omega
          rw [settle, if_neg (not_or.mpr ⟨by omega, looks⟩), if_neg (ordered rfl),
            if_neg short, empty, List.length_nil, handOut_zero, last]
        · obtain ⟨over', rfl⟩ | ⟨-, unordered, undone, kept, rfl⟩ := ends.shut open'
          · exact if_pos (.inr over')
          · rw [settle, if_neg (by simp [undone, kept]; omega), if_pos unordered]
      · exact absurd trivial out
  | readToEnd max =>
      obtain ⟨ends, again⟩ | ⟨-, -, -, rfl⟩ | ⟨open', unordered, buffered, rfl, turns⟩ :=
        work_readToEnd worked
      · by_cases open' : v.Open false
        · obtain ⟨empty, last⟩ := ends.last open'
          simp only [settle, if_neg open'.settles.1, unorder_self (again open'), empty, true_or,
            if_true, List.length_nil, handOut_zero, last]
        · obtain ⟨over', rfl⟩ | ⟨wrong, -⟩ := ends.shut open'
          · exact if_pos over'
          · cases wrong
      · exact absurd trivial out
      · obtain ⟨long, -⟩ | ⟨-, rfl⟩ := turns
        · have held := chunk_le buffered
          have one : 0 < v.chunk := chunk_pos
          simp only [settle, if_neg open'.settles.1, unorder_self unordered, buffered, false_or]
          rw [if_neg (by omega), overrun, if_neg buffered, if_pos (by omega)]
        · exact absurd trivial out
  | stop code => exact congrArg (Option.map Prod.fst) worked
  | id => exact congrArg (Option.map Prod.fst) worked

/-- What a call under the guard has left to do before it ends. -/
def left (v : RecvStream) : Nat := v.buffer.length + if v.unordered then 0 else 1

theorem handOut_left (n : Nat) (held : n ≤ v.buffer.length) : (v.handOut n).left + n = v.left := by
  have rest : (v.handOut n).left = (v.buffer.drop n).length + if v.unordered then 0 else 1 := rfl
  rw [rest, left, List.length_drop]
  omega

theorem readInto_left (n room : Nat) : (v.readInto n room).left = (v.handOut n).left := by
  obtain same | ⟨-, -, -, same⟩ := readInto_cases v n room <;> rw [same]
  rfl

theorem Passed.left_le {n : Nat} (passed : v.Passed v' n) : v'.left ≤ v.left := by
  unfold left
  rw [passed.buffer, List.length_drop]
  by_cases unordered : v.unordered = true
  · simp only [unordered, passed.orders unordered, if_true]
    omega
  · rw [if_neg unordered]
    split <;> omega

/-- A turn that keeps the mutex leaves less to do. -/
theorem left_of_keep (worked : v.work o p x = some (v', .keep p')) : v'.left < v.left := by
  cases o with
  | read max =>
      obtain ⟨-, -, turn⟩ | ⟨-, ends⟩ | ⟨-, -, -, -, turn⟩ := work_read worked
      · cases turn
      · exact absurd trivial (ends.out (answers_out _))
      · cases turn
  | readExact n =>
      obtain ⟨-, -, turn⟩ | ⟨-, ends⟩ | ⟨k, pos, -, held, -, rfl, -⟩ := work_readExact worked
      · cases turn
      · exact absurd trivial (ends.out (fails_out _))
      · have less := handOut_left (v := v) k held
        rw [readInto_left]
        omega
  | readToEnd max =>
      obtain ⟨ends, -⟩ | ⟨-, ordered, rfl, -⟩ | ⟨-, -, buffered, rfl, -⟩ := work_readToEnd worked
      · exact absurd trivial (ends.out (answers_out _))
      · simp [left, unorder, ordered]
      · have less := handOut_left (v := v) _ (chunk_le buffered)
        have one : 0 < v.chunk := chunk_pos
        omega
  | stop code => obtain ⟨-, -, turn⟩ | ⟨-, -, -, turn⟩ := work_stop worked <;> cases turn
  | id => cases worked

/-- A call that can end has a turn. -/
theorem work_of_settle (settles : (v.settle o p).isSome) : (v.work o p 1).isSome := by
  have refused : ∀ {ordered : Bool} {atEnd : StreamTurn} {err : ReadError → StreamError}
      {rest : Option (RecvStream × StreamTurn)}, (v.Open ordered → rest.isSome) →
      ((v.refuses ordered atEnd err).or rest).isSome := by
    intro ordered atEnd err rest looks
    cases passes : v.refuses ordered atEnd err with
    | some answer => rfl
    | none => exact looks (refuses_eq_none.mp passes)
  cases o with
  | read max =>
      simp only [work]
      split
      · rfl
      rename_i asked
      refine refused fun open' => ?_
      obtain ⟨looks, ordered⟩ := open'.settles
      rw [settle, if_neg (not_or.mpr ⟨asked, looks⟩), if_neg (ordered rfl)] at settles
      split
      · rename_i empty
        rw [if_pos empty] at settles
        rwa [starved_isSome]
      · rfl
  | readExact n =>
      simp only [work]
      split
      · rfl
      rename_i missing
      refine refused fun open' => ?_
      obtain ⟨looks, ordered⟩ := open'.settles
      rw [settle, if_neg (not_or.mpr ⟨missing, looks⟩), if_neg (ordered rfl)] at settles
      split
      · rename_i empty
        rw [if_neg (by rw [empty, List.length_nil]; omega), empty, List.length_nil,
          handOut_zero] at settles
        rwa [starved_isSome]
      · rename_i buffered
        have pos : 0 < v.buffer.length := List.length_pos_iff.mpr buffered
        rw [if_neg (by omega)]
        rfl
  | readToEnd max =>
      simp only [work]
      refine refused fun open' => ?_
      split
      · rfl
      rename_i again
      split
      · rename_i empty
        have unordered : v.unordered = true := by simpa using again
        simp only [settle, if_neg open'.settles.1, unorder_self unordered, empty, true_or,
          if_true, List.length_nil, handOut_zero] at settles
        rwa [starved_isSome]
      · split <;> rfl
  | stop code =>
      simp only [work]
      split <;> rfl
  | id => rfl

/-- A call that can end has a turn that ends it, or brings it closer to its end. -/
theorem settle_run (settled : v.settle o p = some w) :
    ∃ x v' turn, v.work o p x = some (v', turn) ∧
      ((∃ p', turn = .keep p' ∧ v'.settle o p' = some w ∧ v'.left < v.left) ∨
        (¬ turn.phase.InLine ∧ v' = w)) := by
  obtain ⟨⟨v', turn⟩, worked⟩ := Option.isSome_iff_exists.mp (work_of_settle (o := o) (p := p)
    (by rw [settled]; rfl))
  refine ⟨1, v', turn, worked, ?_⟩
  by_cases out : turn.phase.InLine
  · cases turn with
    | keep p' => exact .inl ⟨p', rfl, (settle_of_keep worked).symm.trans settled,
        left_of_keep worked⟩
    | finish a => exact absurd out (Phase.not_inLine_ended a)
    | detach => exact absurd out Phase.not_inLine_detached
  · have same := (settle_of_out worked out).symm.trans settled
    cases same
    exact .inr ⟨out, rfl⟩

end RecvStream

/-! ## The calls ahead of an abort -/

/-- The calls under the send mutex. -/
def sendSettling : Settling discipline Half.send SendStream where
  view r := r.send
  settles v m p v' := ∃ b o, m = .ok ⟨b, .send o⟩ ∧ v.Settles o p v'
  size _ p := p.length
  apart := by
    intro r m j p x r' turn routed differ worked
    cases j with
    | send => exact absurd rfl differ
    | recv =>
        obtain ⟨b, o, rfl⟩ := route_recv.mp routed
        obtain ⟨v, -, rfl⟩ := work_recv.mp worked
        rfl
  more := by
    rintro r m p x r' p' v - worked ⟨b, o, rfl, settled⟩
    obtain ⟨w, turned, rfl⟩ := work_send.mp worked
    exact ⟨b, o, rfl, SendStream.settles_more turned settled⟩
  last := by
    intro r m p x r' turn routed worked out
    obtain ⟨b, o, rfl⟩ := route_send.mp routed
    obtain ⟨w, turned, rfl⟩ := work_send.mp worked
    exact ⟨b, o, rfl, SendStream.settles_last turned out⟩
  run := by
    rintro r m p v - ⟨b, o, rfl, settled⟩
    obtain ⟨x, w, turn, worked, rest⟩ := SendStream.settles_run settled
    refine ⟨x, { r with send := w }, turn, work_send.mpr ⟨w, worked, rfl⟩, ?_⟩
    obtain ⟨p', rfl, settled, smaller⟩ | ended := rest
    · exact .inl ⟨p', rfl, ⟨b, o, rfl, settled⟩, smaller⟩
    · exact .inr ended

/-- The calls under the receive mutex. -/
def recvSettling : Settling discipline Half.recv RecvStream where
  view r := r.recv
  settles v m p v' := ∃ b o, m = .ok ⟨b, .recv o⟩ ∧ v.settle o p = some v'
  size v _ := v.left
  apart := by
    intro r m j p x r' turn routed differ worked
    cases j with
    | recv => exact absurd rfl differ
    | send =>
        obtain ⟨b, o, rfl⟩ := route_send.mp routed
        obtain ⟨v, -, rfl⟩ := work_send.mp worked
        rfl
  more := by
    rintro r m p x r' p' v - worked ⟨b, o, rfl, settled⟩
    obtain ⟨w, turned, rfl⟩ := work_recv.mp worked
    exact ⟨b, o, rfl, (RecvStream.settle_of_keep turned).trans settled⟩
  last := by
    intro r m p x r' turn routed worked out
    obtain ⟨b, o, rfl⟩ := route_recv.mp routed
    obtain ⟨w, turned, rfl⟩ := work_recv.mp worked
    exact ⟨b, o, rfl, RecvStream.settle_of_out turned out⟩
  run := by
    rintro r m p v - ⟨b, o, rfl, settled⟩
    obtain ⟨x, w, turn, worked, rest⟩ := RecvStream.settle_run settled
    refine ⟨x, { r with recv := w }, turn, work_recv.mpr ⟨w, worked, rfl⟩, ?_⟩
    obtain ⟨p', rfl, settled, smaller⟩ | ended := rest
    · exact .inl ⟨p', rfl, ⟨b, o, rfl, settled⟩, smaller⟩
    · exact .inr ended

/-- Every call ahead of `c` in the line of the half's mutex, its holder included, can run to
its end, one after the other, on what the half already has. -/
def Clear (s : StreamState) (c : CallId) : Half → Prop
  | .send => sendSettling.Drains s.res.send (workAhead discipline s .send c)
  | .recv => recvSettling.Drains s.res.recv (workAhead discipline s .recv c)

section Aborts

variable [Display VarIntBoundsExceeded]

/-- A `reset` or `stop` with a valid code, on any of the three objects. -/
inductive IsAbort : Half → Method → Prop
  | streamReset {code : UInt64} (valid : code.toNat < 2 ^ 62) :
      IsAbort .send (IrohStream.reset code)
  | sendReset {code : UInt64} (valid : code.toNat < 2 ^ 62) :
      IsAbort .send (IrohSendStream.reset code)
  | streamStop {code : UInt64} (valid : code.toNat < 2 ^ 62) : IsAbort .recv (IrohStream.stop code)
  | recvStop {code : UInt64} (valid : code.toNat < 2 ^ 62) :
      IsAbort .recv (IrohRecvStream.stop code)

theorem withCode_of_lt {code : UInt64} (valid : code.toNat < 2 ^ 62) (op : VarInt → Op) :
    withCode code op = blockingLocked (op ⟨code, valid⟩) := by
  simp only [withCode, VarInt.fromU64_of_lt valid]

/-- An abort asks for the mutex of its half, and under it always has a last turn. -/
theorem IsAbort.prompt {h : Half} {m : Method} (abort : IsAbort h m) :
    discipline.route m = .ok h ∧
      ∀ r p, ∃ x r' a, discipline.work r m p x = some (r', .finish a) := by
  have resets : ∀ {code : VarInt} (r : Halves) (p : Bytes), ∃ x r' a,
      discipline.work r (blockingLocked (.send (.reset code))) p x = some (r', .finish a) := by
    intro code r p
    by_cases spent : (r.send.resetCode.isSome || r.send.acked) = true
    · exact ⟨0, r, _, work_send.mpr ⟨r.send, if_pos spent, rfl⟩⟩
    · exact ⟨0, _, _, work_send.mpr ⟨_, if_neg spent, rfl⟩⟩
  have stops : ∀ {code : VarInt} (r : Halves) (p : Bytes), ∃ x r' a,
      discipline.work r (blockingLocked (.recv (.stop code))) p x = some (r', .finish a) := by
    intro code r p
    by_cases spent : (r.recv.stopCode.isSome || r.recv.forgotten) = true
    · exact ⟨0, r, _, work_recv.mpr ⟨r.recv, if_pos spent, rfl⟩⟩
    · exact ⟨0, _, _, work_recv.mpr ⟨_, if_neg spent, rfl⟩⟩
  cases abort with
  | streamReset valid =>
      rw [IrohStream.reset, withCode_of_lt valid]
      exact ⟨rfl, resets⟩
  | sendReset valid =>
      rw [IrohSendStream.reset, withCode_of_lt valid]
      exact ⟨rfl, resets⟩
  | streamStop valid =>
      rw [IrohStream.stop, withCode_of_lt valid]
      exact ⟨rfl, stops⟩
  | recvStop valid =>
      rw [IrohRecvStream.stop, withCode_of_lt valid]
      exact ⟨rfl, stops⟩

variable {E : Type} {env : Halves → E → Option Halves} {s : StreamState} {c : CallId} {m : Method}
  {ph : Phase Bytes Result} {h : Half}

/-- In a well-formed state a pending abort can end by local steps when the calls ahead of it
settle, and only then. -/
theorem clear_iff (wf : WellFormed discipline s) (abort : IsAbort h m)
    (called : s.calls c = some (m, ph)) (inLine : ph.InLine) :
    CanReach (step discipline env) Local s (fun t => ∃ a, t.calls c = some (m, .ended a)) ↔
      Clear s c h := by
  obtain ⟨routed, prompt⟩ := abort.prompt
  cases h with
  | send => exact sendSettling.completes_iff wf called routed inLine prompt
  | recv => exact recvSettling.completes_iff wf called routed inLine prompt

/-- **When an abort completes without the peer.** In every reachable state of any calls on a
stream object, a pending `reset` or `stop` can complete by local steps alone exactly when
every call ahead of it on its half's mutex can end on what the half already has. -/
theorem abort_completes_iff (reached : Reachable (step discipline env) Any State.Fresh s)
    (abort : IsAbort h m) (called : s.calls c = some (m, ph)) (inLine : ph.InLine) :
    CanReach (step discipline env) Local s (fun t => ∃ a, t.calls c = some (m, .ended a)) ↔
      Clear s c h :=
  clear_iff (wellFormed_reachable reached) abort called inLine

end Aborts

end Library

/-! ## A write without credit -/

section Stalled

local instance streamText : Display StreamError := ⟨fun _ => "stream error"⟩
local instance streamChunks : Chunking := ⟨fun v => v.buffer.length⟩
local instance codeText : Display VarIntBoundsExceeded := ⟨fun _ => "value too large"⟩

/-- `send_bytes([1])` has the send mutex and nothing written yet; `reset(7)` waits behind it. -/
def resetBehindWrite (credit : Nat) : StreamState :=
  let write := IrohStream.sendBytes [1]
  let idle : StreamState := State.idle (Halves.opened credit)
  let writing := (((idle.record 0 write .waiting).join .send 0).record 0 write
    (.holding [1])).take .send 0
  (writing.record 1 (IrohStream.reset 7) .waiting).join .send 1

theorem resetBehindWrite_reachable (credit : Nat) :
    Reachable (step discipline peer) Any State.Fresh (resetBehindWrite credit) :=
  .of_exec [.call 0 (IrohStream.sendBytes [1]), .acquire 0, .call 1 (IrohStream.reset 7)]
    (State.idle_fresh (Halves.opened credit)) rfl

theorem reset_isAbort : IsAbort .send (IrohStream.reset 7) := .streamReset (by decide)

theorem resetBehindWrite_ahead (credit : Nat) :
    workAhead discipline (resetBehindWrite credit) .send 1 =
      [(IrohStream.sendBytes [1], [1])] := rfl

/-- The reset waits for one byte of credit. -/
theorem resetBehindWrite_clear (credit : Nat) :
    Clear (resetBehindWrite credit) 1 .send ↔ 1 ≤ credit := by
  show sendSettling.Drains (Halves.opened credit).send _ ↔ _
  rw [resetBehindWrite_ahead]
  constructor
  · rintro ⟨v, ⟨b, o, same, settled⟩, -⟩
    cases same
    exact settled.1
  · intro granted
    exact ⟨_, ⟨false, .writeAll [1], rfl, granted, rfl⟩, trivial⟩

/-- With a byte of credit the reset behind the write completes on its own. -/
theorem abort_completes_iff_granted :
    CanReach (step discipline peer) Local (resetBehindWrite 1)
      (fun t => ∃ a, t.calls 1 = some (IrohStream.reset 7, .ended a)) :=
  (abort_completes_iff (resetBehindWrite_reachable 1) reset_isAbort rfl
    Phase.inLine_waiting).mpr ((resetBehindWrite_clear 1).mpr (by decide))

/-- Without credit the stalled write holds the reset up until the peer acts. -/
theorem abort_held_up :
    ¬ ∀ (s : StreamState) (c : CallId) (m : Method) (ph : Phase Bytes Result) (h : Half),
      Reachable (step discipline peer) Any State.Fresh s → IsAbort h m →
      s.calls c = some (m, ph) → ph.InLine →
      CanReach (step discipline peer) Local s (fun t => ∃ a, t.calls c = some (m, .ended a)) := by
  intro never
  have reached := resetBehindWrite_reachable 0
  have completes := never _ 1 _ .waiting .send reached reset_isAbort rfl trivial
  have clear := (clear_iff (wellFormed_reachable reached) reset_isAbort rfl
    Phase.inLine_waiting).mp completes
  exact absurd ((resetBehindWrite_clear 0).mp clear) (by decide)

end Stalled

end IrohKmp.Runtime.Stream
