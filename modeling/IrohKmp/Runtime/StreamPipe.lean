/-
# Runtime.StreamPipe — both ends of a stream, whatever is cut off, reset or stopped

`Runtime.StreamIntegrity` follows writes, finishes and reads that nobody disturbs. Here any
method is called on either end, calls are cancelled, streams are reset and stopped and the
connection is lost, and still every byte is accounted for.

* `Piped` — what holds of the two ends of a stream at any time;
* `Ended` — why a read may say that there is nothing more: all was read, or the reader stopped
  the stream, or was told its reset before;
* `SendPart`, `RecvPart` — the bytes one call put on the stream, or took from it;
* `Accounted` — the stream is the calls' parts in the order of each mutex, the reader has a
  prefix of what was written, and who sees the end has seen everything, or stopped the stream
  or was told its reset;
* `stream_accounted`, in every run.
-/
import IrohKmp.Runtime.StreamObject

namespace IrohKmp.Runtime.Stream

open IrohKmp.Kernel
open IrohKmp.Theory.Run
open IrohKmp.Theory.Guarded

set_option autoImplicit false
set_option linter.unusedSectionVars false

section Library

variable [Display StreamError] [Chunking]

/-! ## The pipe -/

/-- Everything that will ever be written was read. -/
structure Drained (r : Halves) : Prop where
  fin : r.recv.fin = true
  finished : r.send.finished = true
  empty : r.recv.buffer = []
  all : r.recv.consumed = r.send.written

/-- There is nothing more to read: everything was read, or this side stopped the stream, or it
was told that the sender reset it. -/
def Ended (r : Halves) : Prop :=
  Drained r ∨ r.recv.stopCode.isSome = true ∨
    (r.recv.resetCode.isSome = true ∧ r.recv.told = true)

/-- The two ends of one pipe. Until it is cut by a reset or a stop, what arrived is a prefix of
what was written; what was read stays one. -/
structure Piped (r : Halves) : Prop where
  inOrder : r.recv.consumed <+: r.send.written
  flowing : r.recv.resetCode = none → r.recv.stopCode = none →
    r.recv.consumed ++ r.recv.buffer <+: r.send.written
  cut : r.recv.resetCode.isSome ∨ r.recv.stopCode.isSome → r.recv.buffer = []
  ended : r.recv.fin = true → r.send.finished = true ∧
    (r.recv.resetCode = none → r.recv.stopCode = none →
      r.recv.consumed ++ r.recv.buffer = r.send.written)
  told : r.recv.told = true → Ended r

section Turns

variable {r r' : Halves} {m : Method} {p : Bytes} {x : Nat} {turn : StreamTurn}

/-- A turn on the send half adds bytes at the end, and only while the stream is not finished. -/
theorem SendStream.work_written {v v' : SendStream} {o : SendOp}
    (worked : v.work o p x = some (v', turn)) : (v.finished = true → v'.finished = true) ∧
      (v'.written = v.written ∨ (v.finished = false ∧ ∃ data, v'.written = v.written ++ data)) := by
  cases o with
  | writeAll data =>
      obtain ⟨-, rfl, -⟩ | ⟨e, -, rfl, -⟩ | ⟨n, -, -, -, writable, -, rfl⟩ := work_writeAll worked
      · exact ⟨fun done => done, .inl rfl⟩
      · exact ⟨fun done => done, .inl rfl⟩
      · refine ⟨fun done => done, .inr ⟨?_, _, rfl⟩⟩
        by_contra finished
        unfold writeError at writable
        split at writable
        · cases writable
        · simp [closed, Bool.not_eq_false _ ▸ finished] at writable
  | finish =>
      obtain ⟨-, rfl, -⟩ | ⟨-, rfl, -⟩ | ⟨-, -, rfl, -⟩ := work_finish worked <;>
        exact ⟨by simp, .inl rfl⟩
  | reset | setPriority | priority =>
      simp only [work] at worked
      split at worked <;> cases worked <;> exact ⟨by simp, .inl rfl⟩
  | id | stopped =>
      cases worked
      exact ⟨fun done => done, .inl rfl⟩

theorem Drained.passed {v : RecvStream} {n : Nat} (drained : Drained r)
    (passed : r.recv.Passed v n) : Drained { r with recv := v } where
  fin := passed.fin.trans drained.fin
  finished := drained.finished
  empty := by simp [passed.buffer, drained.empty]
  all := by simpa [passed.consumed, drained.empty] using drained.all

theorem Ended.passed {v : RecvStream} {n : Nat} (ended : Ended r) (passed : r.recv.Passed v n) :
    Ended { r with recv := v } := by
  obtain drained | stopped | ⟨reset, told⟩ := ended
  · exact .inl (drained.passed passed)
  · exact .inr (.inl (passed.stopCode ▸ stopped))
  · exact .inr (.inr ⟨passed.resetCode ▸ reset, passed.keeps told⟩)

/-- Where the end is known and nothing is buffered, there is nothing more to read. -/
theorem Piped.ended_of_fin (piped : Piped r) (fin : r.recv.fin = true)
    (empty : r.recv.buffer = []) (intact : r.recv.resetCode = none) : Ended r := by
  by_cases stopped : r.recv.stopCode.isSome = true
  · exact .inr (.inl stopped)
  · obtain ⟨finished, all⟩ := piped.ended fin
    exact .inl ⟨fin, finished, empty,
      by simpa [empty] using all intact (Option.not_isSome_iff_eq_none.mp stopped)⟩

theorem Piped.passed {v : RecvStream} {n : Nat} (piped : Piped r) (passed : r.recv.Passed v n) :
    Piped { r with recv := v } := by
  have same : v.consumed ++ v.buffer = r.recv.consumed ++ r.recv.buffer := by
    rw [passed.consumed, passed.buffer, List.append_assoc, List.take_append_drop]
  have flowing : v.resetCode = none → v.stopCode = none →
      v.consumed ++ v.buffer <+: r.send.written := fun intact running =>
    same ▸ piped.flowing (passed.resetCode ▸ intact) (passed.stopCode ▸ running)
  have cut : v.resetCode.isSome ∨ v.stopCode.isSome → v.buffer = [] := fun cut => by
    rw [passed.resetCode, passed.stopCode] at cut
    rw [passed.buffer, piped.cut cut, List.drop_nil]
  have ended : v.fin = true → r.send.finished = true ∧ (v.resetCode = none → v.stopCode = none →
      v.consumed ++ v.buffer = r.send.written) := fun fin => by
    obtain ⟨finished, all⟩ := piped.ended (passed.fin ▸ fin)
    exact ⟨finished, fun intact running =>
      same ▸ all (passed.resetCode ▸ intact) (passed.stopCode ▸ running)⟩
  have inOrder : v.consumed <+: r.send.written := by
    by_cases whole : r.recv.resetCode.isSome ∨ r.recv.stopCode.isSome
    · simpa [passed.consumed, piped.cut whole] using piped.inOrder
    · rw [not_or, Option.not_isSome_iff_eq_none, Option.not_isSome_iff_eq_none] at whole
      exact (List.prefix_append _ _).trans
        (flowing (passed.resetCode.trans whole.1) (passed.stopCode.trans whole.2))
  refine ⟨inOrder, flowing, cut, ended, fun told => ?_⟩
  obtain before | ⟨empty, known⟩ := passed.told told
  · exact (piped.told before).passed passed
  by_cases reset : v.resetCode.isSome = true
  · exact .inr (.inr ⟨reset, told⟩)
  by_cases stopped : v.stopCode.isSome = true
  · exact .inr (.inl stopped)
  have fin : v.fin = true := passed.fin.trans
    (known.resolve_right fun known => reset (passed.resetCode ▸ known))
  obtain ⟨finished, all⟩ := ended fin
  rw [Option.not_isSome_iff_eq_none] at reset stopped
  exact .inl ⟨fin, finished, empty, by simpa [empty] using all reset stopped⟩

theorem Piped.stop (piped : Piped r) (code : VarInt) :
    Piped { r with recv := { r.recv with stopCode := some code, buffer := [] } } where
  inOrder := piped.inOrder
  flowing _ running := by cases running
  cut _ := rfl
  ended fin := ⟨(piped.ended fin).1, fun _ running => by cases running⟩
  told _ := .inr (.inl rfl)

/-- A sender that writes on a stream that is not finished, or not at all, does not move the
reader's end. -/
theorem Ended.grown {v : SendStream} (ended : Ended r)
    (kept : r.send.finished = true → v.finished = true)
    (grown : v.written = r.send.written ∨ r.send.finished = false) :
    Ended { r with send := v } := by
  obtain ⟨fin, finished, empty, all⟩ | cut := ended
  · obtain same | running := grown
    · exact .inl ⟨fin, kept finished, empty, all.trans same.symm⟩
    · rw [finished] at running
      cases running
  · exact .inr cut

theorem ended_work (ended : Ended r) (worked : discipline.work r m p x = some (r', turn)) :
    Ended r' := by
  rcases m with e | ⟨b, o | o⟩
  · cases worked
  · obtain ⟨v, turned, rfl⟩ := work_send.mp worked
    obtain ⟨kept, same | ⟨running, -⟩⟩ := SendStream.work_written turned
    · exact ended.grown kept (.inl same)
    · exact ended.grown kept (.inr running)
  · obtain ⟨v, turned, rfl⟩ := work_recv.mp worked
    obtain ⟨n, passed⟩ | ⟨code, -, -, rfl⟩ := RecvStream.work_taken turned
    · exact ended.passed passed
    · exact .inr (.inl rfl)

theorem ended_network {e : NetEvent} (ended : Ended r) (moved : network r e = some r') :
    Ended r' := by
  obtain ⟨fin, finished, empty, all⟩ | stopped | ⟨reset, told⟩ := ended
  · cases network_moves moved with
    | grant | stop | ack | lose => exact .inl ⟨fin, finished, empty, all⟩
    | fin => exact .inl ⟨rfl, finished, empty, all⟩
    | reset => exact .inl ⟨fin, finished, rfl, all⟩
    | deliver n running => exact absurd fin (by simp [running])
  · cases network_moves moved with
    | grant | stop | ack | lose | fin | reset | deliver => exact .inr (.inl stopped)
  · cases network_moves moved with
    | grant | stop | ack | lose | fin | deliver => exact .inr (.inr ⟨reset, told⟩)
    | reset code _ _ untold => exact absurd told (by simp [untold])

theorem piped_work (piped : Piped r) (worked : discipline.work r m p x = some (r', turn)) :
    Piped r' := by
  rcases m with e | ⟨b, o | o⟩
  · cases worked
  · have told : r'.recv.told = true → Ended r' := by
      obtain ⟨v, -, rfl⟩ := work_send.mp worked
      exact fun told => ended_work (piped.told told) worked
    obtain ⟨v, turned, rfl⟩ := work_send.mp worked
    obtain ⟨kept, same | ⟨running, data, more⟩⟩ := SendStream.work_written turned
    · refine ⟨?_, ?_, piped.cut, fun fin => ?_, told⟩
      · simpa only [same] using piped.inOrder
      · simpa only [same] using piped.flowing
      · simpa only [same] using ⟨kept (piped.ended fin).1, (piped.ended fin).2⟩
    · have grown : r.send.written <+: v.written := ⟨data, more.symm⟩
      refine ⟨piped.inOrder.trans grown,
        fun intact reading => (piped.flowing intact reading).trans grown, piped.cut, fun fin => ?_,
        told⟩
      rw [(piped.ended fin).1] at running
      cases running
  · obtain ⟨v, turned, rfl⟩ := work_recv.mp worked
    obtain ⟨n, passed⟩ | ⟨code, -, -, rfl⟩ := RecvStream.work_taken turned
    · exact piped.passed passed
    · exact piped.stop code

theorem piped_network {e : NetEvent} (piped : Piped r) (moved : network r e = some r') :
    Piped r' := by
  have told : r.recv.told = true → Ended r' := fun told => ended_network (piped.told told) moved
  cases network_moves moved with
  | grant | stop | ack | lose => exact ⟨piped.inOrder, piped.flowing, piped.cut, piped.ended, told⟩
  | deliver n running intact reading =>
      refine ⟨piped.inOrder, fun _ _ => ?_, ?_, fun fin => absurd fin (by simp [running]), told⟩
      · obtain ⟨rest, split⟩ := piped.flowing intact reading
        have arrived : r.arrived = (r.recv.consumed ++ r.recv.buffer).length := by
          simp [Halves.arrived]
        refine ⟨rest.drop n, ?_⟩
        rw [← split, arrived, List.drop_left, ← List.append_assoc, List.append_assoc,
          List.take_append_drop]
      · rintro (cut | cut)
        · rw [intact] at cut
          cases cut
        · rw [reading] at cut
          cases cut
  | fin finished intact reading whole =>
      have all : (r.recv.consumed ++ r.recv.buffer).length = r.send.written.length := by
        simpa [Halves.arrived] using whole
      exact ⟨piped.inOrder, piped.flowing, piped.cut, fun _ => ⟨finished,
        fun _ _ => (piped.flowing intact reading).eq_of_length all⟩, told⟩
  | reset code =>
      have cut : ¬ some code = none := Option.some_ne_none code
      exact ⟨piped.inOrder, fun intact => absurd intact cut, fun _ => rfl,
        fun fin => ⟨(piped.ended fin).1, fun intact => absurd intact cut⟩, told⟩

theorem piped_change {callOk : Method → Prop} {envOk : NetEvent → Prop} (piped : Piped r)
    (change : Change discipline network callOk envOk r r') : Piped r' := by
  cases change with
  | work _ worked => exact piped_work piped worked
  | env _ moved => exact piped_network piped moved

/-- Once there is nothing more to read, that stays so. -/
theorem ended_change {callOk : Method → Prop} {envOk : NetEvent → Prop} (ended : Ended r)
    (change : Change discipline network callOk envOk r r') : Ended r' := by
  cases change with
  | work _ worked => exact ended_work ended worked
  | env _ moved => exact ended_network ended moved

/-- A read that reports the end has found nothing more to read. -/
theorem ended_of_end {o : RecvOp} {b : Bool} {a : Answer} (piped : Piped r)
    (worked : discipline.work r (.ok ⟨b, .recv o⟩) p x = some (r', .finish (.ok a)))
    (shuts : RecvShuts (.ok ⟨b, .recv o⟩) (.ok a)) : Ended r' := by
  obtain ⟨v, turned, rfl⟩ := work_recv.mp worked
  have ended : ∀ {ordered : Bool} {atEnd : StreamTurn} {err : ReadError → StreamError},
      r.recv.EndsRead ordered atEnd err v (.finish (.ok a)) → Ended { r with recv := v } := by
    intro ordered atEnd err ends
    obtain ⟨done, rfl⟩ | ⟨fin, empty, intact, -⟩ := ends.atEnd_of fun e => by simp [fails]
    · rcases Bool.or_eq_true_iff.mp done with told | stopped
      · exact piped.told told
      · exact .inr (.inl stopped)
    · exact (piped.ended_of_fin fin empty intact).passed ends.passed
  cases o with
  | read max =>
      obtain ⟨-, -, turn⟩ | ⟨-, ends⟩ | ⟨-, -, -, -, turn⟩ := RecvStream.work_read turned
      · cases turn
        exact absurd shuts id
      · exact ended ends
      · cases turn
        exact absurd shuts id
  | readToEnd max =>
      obtain ⟨ends, -⟩ | ⟨-, -, -, turn⟩ | ⟨-, -, -, -, ⟨-, turn⟩ | ⟨-, turn⟩⟩ :=
        RecvStream.work_readToEnd turned
      · exact ended ends
      · cases turn
      · cases turn
      · cases turn
  | readExact n | stop code | id => exact absurd shuts id

end Turns

/-! ## Who sees the end -/

/-- Behind a call that reported the end of the stream there is nothing more to read. -/
def endAccount : Account discipline network where
  callOk _ := True
  envOk _ := True
  inv := Piped
  tells r m ph := ∀ a, ph = .ended a → RecvShuts m a → Ended r
  keeps := piped_change
  begins _ a ended := by cases ended
  refused := by
    intro r m a _ refused b ended shuts
    rcases m with e | ⟨_, o | o⟩
    · exact absurd shuts id
    · cases refused
    · cases refused
  starts _ a ended := by cases ended
  works := by
    intro r m p x r' turn piped _ worked _ a ended shuts
    cases turn with
    | finish a' =>
        cases ended
        rcases m with e | ⟨b, o | o⟩
        · cases worked
        · exact absurd shuts id
        · cases a with
          | ok a => exact ended_of_end piped worked shuts
          | error e =>
              unfold RecvShuts at shuts
              split at shuts <;> first | exact absurd shuts id | contradiction
    | keep p' | detach => cases ended
  resolves := by
    intro r m a _ answer _ b ended shuts
    rcases m with e | ⟨_, o | o⟩
    · cases answer
    · exact absurd shuts id
    · cases answer
  dropped _ a ended := by cases ended
  lasts _ change told a ended shuts := ended_change (told a ended shuts) change

/-! ## The calls' parts -/

/-- What a read that fails may have taken. -/
def Short : RecvOp → Bytes → Prop
  | .read _, got => got = []
  | .readExact n, got => got.length < n
  | _, _ => True

/-- The bytes that a read which stands at `ph` has taken. Only `recv(0)` answers with none. -/
def Took (o : RecvOp) : Phase Bytes Result → Bytes → Prop
  | .ended (.ok a), seg => Delivers o a seg ∧ (o = .read 0 ∨ a ≠ .chunk (some []))
  | .ended (.error _), seg => Short o seg
  | .holding p, seg => seg = p ∧ Within o p
  | _, seg => Within o seg

/-- What a call that took the send mutex has put on the stream. -/
def SendPart : Method → Phase Bytes Result → Bytes → Prop
  | .ok ⟨_, .send (.writeAll data)⟩, ph, seg => Wrote data ph seg
  | _, _, seg => seg = []

/-- What a call that took the receive mutex has taken from it. -/
def RecvPart : Method → Phase Bytes Result → Bytes → Prop
  | .ok ⟨_, .recv (.stop _)⟩, _, seg | .ok ⟨_, .recv .id⟩, _, seg => seg = []
  | .ok ⟨_, .recv o⟩, ph, seg => Took o ph seg
  | _, _, seg => seg = []

theorem sendPart_of_did {r : Halves} {m : Method} {ph : Phase Bytes Result} {v w : SendObject}
    (did : SendDid r m ph v w) : ∃ seg, SendPart m ph seg ∧ w.written = v.written ++ seg := by
  have unmoved : w.written = v.written → ∃ seg, seg = ([] : Bytes) ∧
      w.written = v.written ++ seg := fun same => ⟨[], rfl, by rw [same, List.append_nil]⟩
  rcases m with e | ⟨b, o | o⟩
  · exact unmoved (congrArg SendObject.written did)
  · by_cases write : ∃ data, o = .writeAll data
    · obtain ⟨data, rfl⟩ := write
      obtain ⟨seg, wrote, -, rfl⟩ := did
      exact ⟨seg, wrote, rfl⟩
    · have other : ∀ data, o ≠ .writeAll data := fun data same => write ⟨data, same⟩
      have same : w.written = v.written := SendOp.Did.written other did
      cases o with
      | writeAll data => exact absurd rfl (other data)
      | _ => exact unmoved same
  · exact unmoved (congrArg SendObject.written did)

namespace RecvObject

variable {v w : RecvObject} {ordered : Bool} {atEnd a : Result} {err : ReadError → StreamError}
  {n : Nat} {got : Bytes}

theorem EndsRead.consumed (ends : v.EndsRead ordered atEnd err w a) : w.consumed = v.consumed := by
  cases ends <;> rfl

theorem Gets.consumed (gets : v.Gets n got w) : w.consumed = v.consumed ++ got := by
  obtain ⟨-, ⟨rfl, rfl⟩ | ⟨-, -, rfl | ⟨-, rfl⟩⟩⟩ := gets
  · rw [List.append_nil]
  · rfl
  · rfl

theorem Gathers.consumed (gathers : v.Gathers n got w) :
    got.length ≤ n ∧ w.consumed = v.consumed ++ got := by
  obtain ⟨rfl, rfl⟩ | ⟨-, within, rfl⟩ := gathers
  · exact ⟨Nat.zero_le _, by rw [List.append_nil]⟩
  · exact ⟨within, rfl⟩

end RecvObject

/-- What a read has taken is what the reader has got more. -/
theorem took_of_did {o : RecvOp} {ph : Phase Bytes Result} {v w : RecvObject} (moves : o.Moves)
    (did : o.Did ph v w) : ∃ seg, Took o ph seg ∧ w.consumed = v.consumed ++ seg := by
  cases moves with
  | read max =>
      have unmoved : w = v → w.consumed = v.consumed ++ [] := fun same => by simp [same]
      rcases ph with _ | p | _ | a | _
      case ended =>
        obtain ⟨rfl, rfl, same⟩ | ⟨asked, ends⟩ | ⟨got, some, gets, rfl⟩ := did
        · exact ⟨[], ⟨⟨rfl, Nat.zero_le _⟩, .inl rfl⟩, unmoved same⟩
        · refine ⟨[], ?_, by rw [ends.consumed, List.append_nil]⟩
          cases ends with
          | known | ended => exact ⟨rfl, .inr (by simp)⟩
          | closed | refused | reset | lost => exact rfl
        · exact ⟨got, ⟨⟨rfl, gets.1⟩, .inr (by simpa using some)⟩, gets.consumed⟩
      case holding =>
        obtain ⟨rfl, same⟩ := did
        exact ⟨[], ⟨rfl, rfl⟩, unmoved same⟩
      all_goals exact ⟨[], rfl, unmoved did⟩
  | readExact n =>
      rcases ph with _ | p | _ | a | _
      case ended =>
        obtain ⟨got, u, gets, ⟨all, rfl, rfl⟩ | ⟨missing, ends⟩⟩ := did
        · exact ⟨got, ⟨⟨rfl, all⟩, .inr (by simp)⟩, gets.consumed⟩
        · have consumed : w.consumed = v.consumed ++ got := ends.consumed.trans gets.consumed
          cases ends <;> exact ⟨got, missing, consumed⟩
      case holding =>
        have gets : v.Gets n p w := did
        exact ⟨p, ⟨rfl, gets.1⟩, gets.consumed⟩
      all_goals
        obtain ⟨got, gets⟩ := did
        exact ⟨got, gets.1, gets.consumed⟩
  | readToEnd max =>
      rcases ph with _ | p | _ | a | _
      case ended =>
        obtain ⟨got, u, gathers, -, ends⟩ | ⟨got, -, -, rfl, rfl⟩ := did
        · obtain ⟨within, consumed⟩ := gathers.consumed
          have consumed : w.consumed = v.consumed ++ got := ends.consumed.trans consumed
          cases ends with
          | known | ended => exact ⟨got, ⟨⟨rfl, within⟩, .inr (by simp)⟩, consumed⟩
          | closed | refused | reset | lost => exact ⟨got, trivial, consumed⟩
        · exact ⟨got, trivial, rfl⟩
      case holding =>
        obtain ⟨within, consumed⟩ := RecvObject.Gathers.consumed did
        exact ⟨p, ⟨rfl, within⟩, consumed⟩
      all_goals
        obtain ⟨got, gathers⟩ := did
        exact ⟨got, gathers.consumed⟩

theorem recvPart_of_did {m : Method} {ph : Phase Bytes Result} {v w : RecvObject}
    (did : RecvDid m ph v w) : ∃ seg, RecvPart m ph seg ∧ w.consumed = v.consumed ++ seg := by
  have unmoved : w.consumed = v.consumed → ∃ seg, seg = ([] : Bytes) ∧
      w.consumed = v.consumed ++ seg := fun same => ⟨[], rfl, by rw [same, List.append_nil]⟩
  rcases m with e | ⟨b, o | o⟩
  · exact unmoved (congrArg RecvObject.consumed did)
  · exact unmoved (congrArg RecvObject.consumed did)
  · by_cases moves : o.Moves
    · have took := took_of_did moves did
      cases moves <;> exact took
    · cases o with
      | stop code =>
          rcases ph with _ | p | _ | ⟨e | a⟩ | _
          case ended.error => exact unmoved (congrArg RecvObject.consumed did.2.2)
          case ended.ok =>
            obtain ⟨-, -, -, rfl⟩ := did
            exact unmoved rfl
          all_goals exact unmoved (congrArg RecvObject.consumed did)
      | id =>
          rcases ph with _ | p | _ | a | _
          case ended => exact unmoved (congrArg RecvObject.consumed did.2)
          all_goals exact unmoved (congrArg RecvObject.consumed did)
      | read max => exact absurd (.read max) moves
      | readExact n => exact absurd (.readExact n) moves
      | readToEnd max => exact absurd (.readToEnd max) moves

/-! ## Every byte -/

/-- Every byte of the stream belongs to one write, and every byte read to one read. -/
structure Accounted (s : StreamState) (wrote took : CallId → Bytes) : Prop where
  written : s.res.send.written = (s.taken .send).flatMap wrote
  consumed : s.res.recv.consumed = (s.taken .recv).flatMap took
  /-- The calls that read got what was written, from its start and in order. -/
  inOrder : s.res.recv.consumed <+: s.res.send.written
  writes : ∀ c ∈ s.taken .send, ∀ m ph, s.calls c = some (m, ph) → SendPart m ph (wrote c)
  reads : ∀ c ∈ s.taken .recv, ∀ m ph, s.calls c = some (m, ph) → RecvPart m ph (took c)
  /-- Who saw the end saw a finished stream, all of which had been read, or the reader's side had
  stopped it, or had been told that it was reset. -/
  ended : ∀ c, SawEnd s c →
    (s.res.send.finished = true ∧ s.res.recv.consumed = s.res.send.written) ∨
      s.res.recv.stopCode.isSome = true ∨
      (s.res.recv.resetCode.isSome = true ∧ s.res.recv.told = true)

section Runs

variable {s : StreamState}

theorem Opened.piped (opened : Opened s) : Piped s.res := by
  obtain ⟨-, ⟨written, -⟩, consumed, buffer, fin, intact, reading, untold⟩ := opened
  exact ⟨by simp [consumed], fun _ _ => by simp [consumed, buffer],
    fun cut => by simp [buffer], fun ended => by simp [fin] at ended,
    fun told => by simp [untold] at told⟩

/-- **Every byte is accounted for.** Whatever methods are called on the two ends at once,
whatever is cancelled, reset, stopped or lost, the stream is made of the writes' parts in the
order of their mutex, the reads got a prefix of it in the order of theirs, and a call that was
not cancelled and did not fail has its whole part. -/
theorem stream_accounted {s₀ : StreamState} (opened : Opened s₀) (settled : Settled s₀.res)
    (run : Via (step discipline network) Any s₀ s) : ∃ wrote took, Accounted s wrote took := by
  have sends := (sendSerial network_bystands).told_via opened.fresh settled run
  have reads := (recvSerial network_bystands).told_via opened.fresh trivial run
  obtain ⟨wrote, written, writeParts⟩ := Serial.chain_parts (fun v => v.written)
    (fun c seg => ∀ m ph, s.calls c = some (m, ph) → SendPart m ph seg)
    (sends.ord.nodup .send) (by
      rintro c - v w ⟨m, ph, called, did⟩
      obtain ⟨seg, part, grown⟩ := sendPart_of_did did
      refine ⟨seg, fun n q now => ?_, grown⟩
      rw [called] at now
      cases now
      exact part) sends.chain
  obtain ⟨took, consumed, readParts⟩ := Serial.chain_parts (fun v => v.consumed)
    (fun c seg => ∀ m ph, s.calls c = some (m, ph) → RecvPart m ph seg)
    (reads.ord.nodup .recv) (by
      rintro c - v w ⟨m, ph, called, did⟩
      obtain ⟨seg, part, grown⟩ := recvPart_of_did did
      refine ⟨seg, fun n q now => ?_, grown⟩
      rw [called] at now
      cases now
      exact part) reads.chain
  have told : endAccount.Told s := endAccount.told_reachable (fun _ opened => opened.fresh)
    (fun _ opened => opened.piped)
    ⟨s₀, opened, run.mono fun t e _ => .of_all (fun _ => trivial) (fun _ => trivial) t e⟩
  have piped : Piped s.res := told.inv
  refine ⟨wrote, took, ?_, ?_, piped.inOrder, writeParts, readParts, ?_⟩
  · have all : s.res.send.written = s₀.res.send.written ++ _ := written
    rw [all, opened.send.1, List.nil_append]
  · have all : s.res.recv.consumed = s₀.res.recv.consumed ++ _ := consumed
    rw [all, opened.recv.1, List.nil_append]
  · rintro c ⟨b, o, a, called, shuts⟩
    exact ((told.calls c _ _ called).2 _ rfl shuts).imp
      (fun drained => ⟨drained.finished, drained.all⟩) id

end Runs

end Library

section Example

local instance pipeText : Display StreamError := ⟨fun _ => "stream error"⟩
local instance pipeChunks : Chunking := ⟨fun v => v.buffer.length⟩
local instance pipeBounds : Display VarIntBoundsExceeded := ⟨fun _ => "out of bounds"⟩

/-- Of five bytes two are written when the call is dropped; a write behind it adds one. A
`read_exact` is dropped with one byte, a `recv` gets the next, and the rest is stopped. -/
def leftOver : List (Event Method Nat NetEvent) :=
  [.call 0 (IrohStream.sendBytes [1, 2, 3, 4, 5]), .call 1 (IrohStream.sendBytes [9]),
    .acquire 0, .work 0 2, .cancel 0, .acquire 1, .work 1 1, .work 1 0, .env (.deliver 3),
    .call 2 (IrohStream.readExact 2), .acquire 2, .work 2 1, .cancel 2,
    .call 3 (IrohRecvStream.recv 1), .acquire 3, .work 3 1,
    .call 4 (IrohRecvStream.stop 7), .acquire 4, .work 4 0]

theorem leftOver_runs :
    ∃ s, Via (step discipline network) Any (State.idle (Halves.opened 9)) s ∧
      s.res.send.written = [1, 2, 9] ∧ s.res.recv.consumed = [1, 2] :=
  Via.of_any leftOver (by decide)

theorem stream_accounted_leftOver :
    ∃ s wrote took, Accounted s wrote took ∧ s.res.send.written = [1, 2, 9] := by
  obtain ⟨s, run, written, -⟩ := leftOver_runs
  have opened : Opened (State.idle (Halves.opened 9)) :=
    ⟨State.idle_fresh _, ⟨rfl, rfl, rfl, rfl⟩, rfl, rfl, rfl, rfl, rfl, rfl⟩
  obtain ⟨wrote, took, accounted⟩ := stream_accounted opened (by intro acked; cases acked) run
  exact ⟨s, wrote, took, accounted, written⟩

end Example

end IrohKmp.Runtime.Stream
