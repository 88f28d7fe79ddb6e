/-
# Runtime.Closing — nothing hangs on a closed connection, and its reason stays

A connection closes once, by `shutdown` or from the far side, and every stream on it fails with
it. From then on the calls on its streams need nobody: reads hand out what had arrived and then
fail, writes fail, `stopped` resolves, and each lets the next in line have the mutex.

* `IrohConnection.closeReason`, `IrohConnection.closed` — the two accessors of the reason, which
  once given stays (`closeReason_via`);
* `Opened`, `OneCause` — a new connection, and that its streams fail when it does and as it does;
* `streamWinding`, `closed_ends` — the calls on a stream of a closed connection end, whatever
  their schedule.
-/
import IrohKmp.Runtime.Codes
import IrohKmp.Runtime.StreamDeadlock
import IrohKmp.Theory.GuardedEnd

namespace IrohKmp.Runtime.Stream

open IrohKmp.Kernel
open IrohKmp.Theory.Run
open IrohKmp.Theory.Guarded

set_option autoImplicit false
set_option linter.unusedSectionVars false

/-! ## The reason -/

namespace IrohConnection

variable [Display ConnectionError]

/-- `IrohConnection::close_reason`. -/
def closeReason (inner : Link) : Option String := inner.lost.map Display.text

/-- `IrohConnection::closed`: what its future resolves to, once it does. -/
def closed (inner : Link) : Option String := inner.lost.map Display.text

end IrohConnection

section Library

variable [Display StreamError] [Chunking] [Display VarIntBoundsExceeded]

/-! ## A stream fails with its connection -/

/-- Both halves of the stream failed with this cause, or neither failed. -/
def FailedBy (lost : Option ConnectionError) (r : Halves) : Prop :=
  r.send.lost = lost ∧ r.recv.lost = lost

section Turns

variable {r r' : Halves} {m : Method} {p : Bytes} {x : Nat} {turn : StreamTurn}
  {lost : Option ConnectionError}

theorem failedBy_work (failed : FailedBy lost r)
    (worked : discipline.work r m p x = some (r', turn)) : FailedBy lost r' := by
  rcases m with e | ⟨b, o | o⟩
  · cases worked
  · obtain ⟨v, turned, rfl⟩ := work_send.mp worked
    exact ⟨(SendStream.work_moved turned).lost.trans failed.1, failed.2⟩
  · obtain ⟨v, turned, rfl⟩ := work_recv.mp worked
    obtain ⟨n, passed⟩ | ⟨code, -, -, rfl⟩ := RecvStream.work_taken turned
    · exact ⟨failed.1, passed.lost.trans failed.2⟩
    · exact failed

theorem failedBy_peer {e : PeerEvent} (failed : FailedBy lost r) (apart : ∀ c, e ≠ .lose c)
    (moved : peer r e = some r') : FailedBy lost r' := by
  cases e with
  | lose c => exact absurd rfl (apart c)
  | grant n =>
      cases moved
      exact failed
  | stopSending code | arrive data | fin | reset code =>
      simp only [peer, Option.ite_none_left_eq_some] at moved
      cases moved.2
      exact failed
  | ack =>
      simp only [peer, Option.ite_none_right_eq_some] at moved
      cases moved.2
      exact failed

/-- A stream does not fail by itself, nor is its failure taken back. -/
theorem failedBy_step {s t : StreamState} {e : Event Method Nat PeerEvent}
    (failed : FailedBy lost s.res) (apart : failsAlone e = false)
    (stepped : streamStep s e = some t) : FailedBy lost t.res := by
  obtain same | change := change_of_step stepped
  · rw [same]
    exact failed
  · cases change with
    | work _ worked => exact failedBy_work failed worked
    | env own moved =>
        refine failedBy_peer failed ?_ moved
        rintro cause rfl
        rw [own] at apart
        cases apart

end Turns

/-! ## On a closed connection every turn can be taken -/

/-- The stream failed with its connection. -/
def Broken (r : Halves) : Prop := r.send.lost.isSome ∧ r.recv.lost.isSome

/-- A write on a failed stream fails; every other call has its one turn. -/
theorem SendStream.work_of_lost {v : SendStream} (lost : v.lost.isSome) (o : SendOp) (p : Bytes) :
    (v.work o p 1).isSome := by
  by_cases transfer : ∃ data, o = .writeAll data
  · obtain ⟨data, rfl⟩ := transfer
    obtain ⟨cause, known⟩ := Option.isSome_iff_exists.mp lost
    by_cases empty : p = []
    · simp [work, empty]
    · simp [work, empty, writeError, known]
  · have other : ∀ data, o ≠ .writeAll data := fun data same => transfer ⟨data, same⟩
    obtain ⟨same, w, turn, first, -⟩ := work_prompt (v := v) (p := p) o other 1
    rw [same, first]
    rfl

/-- On a failed stream every call can end: there is something behind the last byte. -/
theorem RecvStream.settle_of_lost {v : RecvStream} (lost : v.lost.isSome) (o : RecvOp) (p : Bytes) :
    (v.settle o p).isSome := by
  have last : ∀ {w : RecvStream}, w.lost = v.lost → w.last.isSome := by
    intro w same
    unfold RecvStream.last
    split
    · rfl
    · rw [if_pos (same ▸ lost)]
      rfl
  cases o with
  | read max =>
      simp only [settle]
      split
      · rfl
      split
      · rfl
      split
      · exact last rfl
      · rfl
  | readExact n =>
      simp only [settle]
      split
      · rfl
      split
      · rfl
      split
      · rfl
      · exact last rfl
  | readToEnd max =>
      simp only [settle]
      split
      · rfl
      split
      · exact last rfl
      · rfl
  | stop code =>
      simp only [settle, work]
      split <;> rfl
  | id => rfl

/-- No call keeps the send half of a failed stream. -/
theorem SendStream.not_keep_of_lost {v v' : SendStream} {o : SendOp} {p p' : Bytes} {x : Nat}
    (lost : v.lost.isSome) : v.work o p x ≠ some (v', .keep p') := by
  intro turned
  by_cases transfer : ∃ data, o = .writeAll data
  · obtain ⟨data, rfl⟩ := transfer
    obtain ⟨-, -, turn⟩ | ⟨e, -, -, turn⟩ | ⟨n, -, -, -, writable, -, -⟩ := work_writeAll turned
    · cases turn
    · cases turn
    · obtain ⟨cause, known⟩ := Option.isSome_iff_exists.mp lost
      simp [writeError, known] at writable
  · have other : ∀ data, o ≠ .writeAll data := fun data same => transfer ⟨data, same⟩
    obtain ⟨same, w, turn, first, out⟩ := work_prompt (v := v) (p := p) o other x
    rw [same, first] at turned
    cases turned
    exact absurd trivial out

/-- A turn that keeps the mutex of a failed stream leaves less to do. -/
theorem less_of_keep {r r' : Halves} {m : Method} {p p' : Bytes} {x : Nat} (broken : Broken r)
    (worked : discipline.work r m p x = some (r', .keep p')) : r'.recv.left < r.recv.left := by
  rcases m with e | ⟨b, o | o⟩
  · cases worked
  · obtain ⟨v, turned, -⟩ := work_send.mp worked
    exact absurd turned (SendStream.not_keep_of_lost broken.1)
  · obtain ⟨v, turned, rfl⟩ := work_recv.mp worked
    exact RecvStream.left_of_keep turned

/-- No turn leaves more. -/
theorem left_le {r r' : Halves} {m : Method} {p : Bytes} {x : Nat} {turn : StreamTurn}
    (worked : discipline.work r m p x = some (r', turn)) : r'.recv.left ≤ r.recv.left := by
  rcases m with e | ⟨b, o | o⟩
  · cases worked
  · obtain ⟨v, -, rfl⟩ := work_send.mp worked
    exact Nat.le_refl _
  · obtain ⟨v, turned, rfl⟩ := work_recv.mp worked
    obtain ⟨n, passed⟩ | ⟨code, -, -, rfl⟩ := RecvStream.work_taken turned
    · exact passed.left_le
    · exact Nat.add_le_add_right (Nat.zero_le _) _

/-- A stream that failed makes no call wait. -/
def streamWinding : Winding discipline where
  spent := Broken
  waits := Detaches
  size r := r.recv.left
  keeps := by
    rintro r m p x r' turn ⟨sendLost, recvLost⟩ worked
    rcases m with e | ⟨b, o | o⟩
    · cases worked
    · obtain ⟨v, turned, rfl⟩ := work_send.mp worked
      exact ⟨(congrArg Option.isSome (SendStream.work_moved turned).lost).trans sendLost, recvLost⟩
    · obtain ⟨v, turned, rfl⟩ := work_recv.mp worked
      obtain ⟨n, passed⟩ | ⟨code, -, -, rfl⟩ := RecvStream.work_taken turned
      · exact ⟨sendLost, (congrArg Option.isSome passed.lost).trans recvLost⟩
      · exact ⟨sendLost, recvLost⟩
  turns := by
    rintro r m i ⟨sendLost, recvLost⟩ routed p
    cases i with
    | send =>
        obtain ⟨b, o, rfl⟩ := route_send.mp routed
        exact ⟨1, Option.isSome_map.trans (SendStream.work_of_lost sendLost o p)⟩
    | recv =>
        obtain ⟨b, o, rfl⟩ := route_recv.mp routed
        exact ⟨1, Option.isSome_map.trans
          (RecvStream.work_of_settle (RecvStream.settle_of_lost recvLost o p))⟩
  detaches := detaches_of_work
  resolves := by
    rintro r m ⟨lost, -⟩ ⟨b, rfl⟩
    show r.send.stoppedAnswer.isSome = true
    unfold SendStream.stoppedAnswer
    split
    · rfl
    · cases r.send.stopCode with
      | some code => rfl
      | none => simpa using lost
  shrinks broken worked := less_of_keep broken worked
  bounded _ worked := left_le worked

/-! ## The session -/

namespace Session

variable {ι : Type}

/-- A new connection: open, with no call made and no stream failed. -/
structure Opened (s : Session ι) : Prop extends Fresh s where
  intact : ∀ i, FailedBy none (s.streams i).res

/-- The streams fail when the connection does, and with its cause. -/
def OneCause (s : Session ι) : Prop := ∀ i, FailedBy s.link.lost (s.streams i).res

variable [DecidableEq ι] {s t : Session ι}

theorem oneCause_linked {link : Link} (one : s.OneCause)
    (keeps : s.link.lost.isSome → link.lost = s.link.lost) : (s.linked link).OneCause := by
  intro i
  show FailedBy link.lost (follow s.link link (s.streams i)).res
  have before := one i
  unfold follow
  cases known : s.link.lost with
  | some cause =>
      rw [known] at before
      rw [keeps (by simp [known]), known]
      exact before
  | none =>
      rw [known] at before
      cases link.lost with
      | none => exact before
      | some cause => exact ⟨rfl, rfl⟩

theorem shutdown_keeps (link : Link) (errorCode : UInt64) (reason : Bytes)
    (closed : link.lost.isSome) :
    (IrohConnection.shutdown link errorCode reason).2.lost = link.lost := by
  rw [shutdown_closed closed]

theorem oneCause_step {e : SessionEvent ι} (one : s.OneCause) (stepped : s.step e = some t) :
    t.OneCause := by
  cases e with
  | stream j f =>
      obtain ⟨apart, u, moves, rfl⟩ := step_stream_iff.mp stepped
      intro i
      by_cases same : i = j
      · subst same
        simpa [moved] using failedBy_step (one i) apart moves
      · simpa [moved, same] using one i
  | shutdown c errorCode reason =>
      obtain ⟨-, rfl⟩ := step_shutdown_iff.mp stepped
      exact oneCause_linked (s := s.answered c _) one (shutdown_keeps s.link errorCode reason)
  | lose cause =>
      obtain ⟨open', rfl⟩ := step_lose_iff.mp stepped
      refine oneCause_linked one fun closed => ?_
      rw [open'] at closed
      cases closed

theorem oneCause_reachable (reached : Reachable step Any Opened s) : s.OneCause := by
  refine reached.keeps (I := fun s => s.OneCause) (fun s opened i => ?_)
    fun s e t one _ stepped => oneCause_step one stepped
  rw [opened.link]
  exact opened.intact i

/-- The reason a connection closed for stays. -/
theorem lost_via {cause : ConnectionError} (closed : s.link.lost = some cause)
    (run : Via step Any s t) : t.link.lost = some cause := by
  refine run.keeps (I := fun s => s.link.lost = some cause) closed fun s e t closed _ stepped => ?_
  cases e with
  | stream j f =>
      obtain ⟨-, u, -, rfl⟩ := step_stream_iff.mp stepped
      exact closed
  | shutdown c errorCode reason =>
      obtain ⟨-, rfl⟩ := step_shutdown_iff.mp stepped
      exact (shutdown_keeps s.link errorCode reason (by simp [closed])).trans closed
  | lose other =>
      obtain ⟨open', -⟩ := step_lose_iff.mp stepped
      rw [closed] at open'
      cases open'

end Session

/-! ## Nothing hangs, and the reason stays -/

section Closed

variable {ι : Type} [DecidableEq ι] {s : Session ι}

/-- **No call hangs on a closed connection.** In every reachable session whose connection is
closed, and for every stream on it: however the calls under way are scheduled, with nothing from
the peer, they go on until all of them are over. -/
theorem closed_ends (reached : Reachable Session.step Any Session.Opened s)
    (closed : s.link.lost.isSome) (i : ι) : ComesToRest discipline peer (s.streams i) := by
  have stream : Reachable streamStep Any State.Fresh (s.streams i) :=
    Session.stream_reachable (reached.of_init fun _ opened => opened.toFresh) i
  have failed : FailedBy s.link.lost (s.streams i).res := Session.oneCause_reachable reached i
  obtain ⟨calls, covers⟩ := covers_reachable stream
  have wound : streamWinding.Wound calls (s.streams i) :=
    { wf := wellFormed_reachable stream
      spent := ⟨by rw [failed.1]; exact closed, by rw [failed.2]; exact closed⟩
      covers := covers
      waits := fun c m called => detaches_of_detached stream called }
  exact wound.comesToRest

/-- **The reason stays.** What `close_reason` gave, it and `closed` give from then on, whatever
is called and whatever the peer does. -/
theorem closeReason_via [Display ConnectionError] {t : Session ι} {text : String}
    (given : IrohConnection.closeReason s.link = some text) (run : Via Session.step Any s t) :
    IrohConnection.closeReason t.link = some text ∧
      IrohConnection.closed t.link = some text := by
  obtain ⟨cause, lost, rfl⟩ := Option.map_eq_some_iff.mp given
  have still := Session.lost_via lost run
  constructor
  · rw [IrohConnection.closeReason, still]
    rfl
  · rw [IrohConnection.closed, still]
    rfl

end Closed

end Library

/-! ## A shutdown under three calls -/

section Example

local instance shutText : Display StreamError := ⟨fun _ => "stream error"⟩
local instance shutChunks : Chunking := ⟨fun v => v.buffer.length⟩
local instance shutBounds : Display VarIntBoundsExceeded := ⟨fun _ => "out of bounds"⟩

def newSession : Session Unit :=
  ⟨⟨none, none⟩, fun _ => State.idle (Halves.opened 0), fun _ => none⟩

theorem newSession_opened : newSession.Opened where
  link := rfl
  streams _ := State.idle_fresh _
  shutdowns _ := rfl
  intact _ := ⟨rfl, rfl⟩

/-- Two reads wait for bytes and a `stopped` for the peer when the connection is shut down; the
first read has failed since. -/
def shutUnderReads : List (SessionEvent Unit) :=
  [.stream () (.call 0 (IrohStream.recv 4)), .stream () (.acquire 0),
    .stream () (.call 1 (IrohStream.readExact 2)), .stream () (.call 2 IrohSendStream.stopped),
    .stream () (.acquire 2), .stream () (.work 2 0), .shutdown 0 7 [], .stream () (.work 0 1)]

theorem shutUnderReads_runs : ∃ s, Via Session.step Any newSession s ∧
    s.link.lost = some .locallyClosed ∧ (s.streams ()).queue .recv = [1] :=
  Via.of_any shutUnderReads (by decide)

theorem closed_ends_shutdown : ∃ s : Session Unit, (s.streams ()).queue .recv = [1] ∧
    ComesToRest discipline peer (s.streams ()) := by
  obtain ⟨s, run, lost, waiting⟩ := shutUnderReads_runs
  exact ⟨s, waiting, closed_ends ⟨newSession, newSession_opened, run⟩ (by rw [lost]; rfl) ()⟩

end Example

end IrohKmp.Runtime.Stream
