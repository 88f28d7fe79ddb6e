/-
# Runtime.FirstStop — the code of the first `stop`, at the sender

The receiver hands `stop` a `u64`; it travels as a `VarInt`, and the sender's `stopped` hands a
`u64` back. When the stop is the first of its stream and the sender has neither finished nor
reset the stream, what comes out is what was put in, for as long as the connection stays open.
Nothing holds the answer back either: a stopped stream fails the writes that keep the mutex.

* `Moved` — everything a step can do to what the two ends know of a stop;
* `Echoes`, `Informed` — that neither end knows what the other did not do, and that the sender
  was told of the stop;
* `answerAccount` — what an answer of `stopped` says of the stream;
* `Heard`, `LetGo`, `stop_heard` — the first stop, whatever happens after it, or one that comes
  when the library has given up the stream after a read it refused, and is none;
* `codes_exact`, every code; `codes_exact_sample`, `2^62` and `7`.
-/
import IrohKmp.Runtime.Codes
import IrohKmp.Runtime.StreamDeadlock

namespace IrohKmp.Runtime.Stream

open IrohKmp.Kernel
open IrohKmp.Theory.Run
open IrohKmp.Theory.Guarded

set_option autoImplicit false
set_option linter.unusedSectionVars false

section Library

variable [Display StreamError] [Chunking] [Display VarIntBoundsExceeded]

/-! ## What a step can do -/

/-- What a step of the two ends does to what they know of a stop. -/
structure Moved (r r' : Halves) : Prop where
  finished : r.send.finished = true → r'.send.finished = true
  reset : r.send.resetCode.isSome = true → r'.send.resetCode.isSome = true
  stop : ∀ k, r.recv.stopCode = some k → r'.recv.stopCode = some k
  heard : r'.send.stopCode = r.send.stopCode ∨
    (r.send.stopCode = none ∧ r'.send.stopCode = r.recv.stopCode)
  acked : r'.send.acked = r.send.acked ∨ (r'.send.acked = true ∧ r.send.closed = true)
  fin : r'.recv.fin = r.recv.fin ∨ r.send.finished = true
  cut : r'.recv.resetCode = r.recv.resetCode ∨ r.send.resetCode.isSome = true
  told : r'.recv.told = true →
    r.recv.told = true ∨ r.recv.fin = true ∨ r.recv.resetCode.isSome = true
  lost : r.send.lost.isSome = true → r'.send.lost.isSome = true

theorem Moved.closed {r r' : Halves} (moves : Moved r r') (closed : r.send.closed = true) :
    r'.send.closed = true := by
  rcases Bool.or_eq_true_iff.mp closed with finished | reset
  · simp [SendStream.closed, moves.finished finished]
  · simp [SendStream.closed, moves.reset reset]

section Moves

variable {r r' : Halves} {m : Method} {p : Bytes} {x : Nat} {turn : StreamTurn}

theorem moved_work (worked : discipline.work r m p x = some (r', turn)) : Moved r r' := by
  rcases m with e | ⟨b, o | o⟩
  · cases worked
  · obtain ⟨v, turned, rfl⟩ := work_send.mp worked
    have moves := SendStream.work_moved turned
    have reset : r.send.resetCode.isSome = true → v.resetCode.isSome = true := by
      intro reset
      obtain ⟨code, known⟩ := Option.isSome_iff_exists.mp reset
      simp [moves.reset code known]
    exact ⟨moves.finished, reset, fun _ => id, .inl moves.stop, .inl moves.acked, .inl rfl,
      .inl rfl, .inl, fun lost => (congrArg Option.isSome moves.lost).trans lost⟩
  · obtain ⟨v, turned, rfl⟩ := work_recv.mp worked
    obtain ⟨n, passed⟩ | ⟨code, unset, -, rfl⟩ := RecvStream.work_taken turned
    · exact ⟨id, id, fun k known => passed.stopCode.trans known, .inl rfl, .inl rfl,
        .inl passed.fin, .inl passed.resetCode, fun told => (passed.told told).imp id And.right, id⟩
    · refine ⟨id, id, fun k known => ?_, .inl rfl, .inl rfl, .inl rfl, .inl rfl, .inl, id⟩
      rw [unset] at known
      cases known

theorem moved_network {e : NetEvent} (moved : network r e = some r') : Moved r r' := by
  cases network_moves moved with
  | grant | deliver =>
      exact ⟨id, id, fun _ => id, .inl rfl, .inl rfl, .inl rfl, .inl rfl, .inl, id⟩
  | fin finished =>
      exact ⟨id, id, fun _ => id, .inl rfl, .inl rfl, .inr finished, .inl rfl, .inl, id⟩
  | reset code known =>
      exact ⟨id, id, fun _ => id, .inl rfl, .inl rfl, .inl rfl, .inr (by simp [known]), .inl, id⟩
  | stop code known unheard =>
      exact ⟨id, id, fun _ => id, .inr ⟨unheard, known.symm⟩, .inl rfl, .inl rfl, .inl rfl, .inl,
        id⟩
  | ack delivered =>
      exact ⟨id, id, fun _ => id, .inl rfl, .inr ⟨rfl, Halves.closed_of_delivered delivered⟩,
        .inl rfl, .inl rfl, .inl, id⟩
  | lose cause =>
      exact ⟨id, id, fun _ => id, .inl rfl, .inl rfl, .inl rfl, .inl rfl, .inl, fun _ => rfl⟩

theorem moved_change {callOk : Method → Prop} {envOk : NetEvent → Prop}
    (change : Change discipline network callOk envOk r r') : Moved r r' := by
  cases change with
  | work _ worked => exact moved_work worked
  | env _ moved => exact moved_network moved

end Moves

/-! ## Before the stop, and once it arrived -/

/-- Neither end knows of anything that the other did not do. -/
structure Echoes (r : Halves) : Prop where
  stop : ∀ k, r.send.stopCode = some k → r.recv.stopCode = some k
  acked : r.send.acked = true → r.send.closed = true
  fin : r.recv.fin = true → r.send.finished = true
  cut : r.recv.resetCode.isSome = true → r.send.resetCode.isSome = true
  told : r.recv.told = true → r.send.closed = true

/-- The sender was told the code, and has not let go of the stream. -/
structure Informed (code : VarInt) (r : Halves) : Prop where
  heard : r.send.stopCode = some code
  acked : r.send.acked = false

section Knowledge

variable {r r' : Halves} {code : VarInt}

theorem Echoes.moved (echoes : Echoes r) (moves : Moved r r') : Echoes r' where
  stop k known := by
    obtain same | ⟨-, delivered⟩ := moves.heard
    · rw [same] at known
      exact moves.stop k (echoes.stop k known)
    · rw [delivered] at known
      exact moves.stop k known
  acked acked := by
    obtain same | ⟨-, closed⟩ := moves.acked
    · rw [same] at acked
      exact moves.closed (echoes.acked acked)
    · exact moves.closed closed
  fin fin := by
    obtain same | finished := moves.fin
    · rw [same] at fin
      exact moves.finished (echoes.fin fin)
    · exact moves.finished finished
  cut cut := by
    obtain same | reset := moves.cut
    · rw [same] at cut
      exact moves.reset (echoes.cut cut)
    · exact moves.reset reset
  told told := by
    refine moves.closed ?_
    obtain told | fin | cut := moves.told told
    · exact echoes.told told
    · simp [SendStream.closed, echoes.fin fin]
    · simp [SendStream.closed, echoes.cut cut]

/-- The calls leave it at that. -/
theorem Informed.work {m : Method} {p : Bytes} {x : Nat} {turn : StreamTurn}
    (informed : Informed code r) (worked : discipline.work r m p x = some (r', turn)) :
    Informed code r' := by
  rcases m with e | ⟨b, o | o⟩
  · cases worked
  · obtain ⟨v, turned, rfl⟩ := work_send.mp worked
    have moves := SendStream.work_moved turned
    exact ⟨moves.stop.trans informed.heard, moves.acked.trans informed.acked⟩
  · obtain ⟨v, -, rfl⟩ := work_recv.mp worked
    exact ⟨informed.heard, informed.acked⟩

/-- Then `stopped` has its answer. -/
theorem Informed.stoppedAnswer (informed : Informed code r) :
    r.send.stoppedAnswer = some (.ok (.code (some code.value))) := by
  simp [SendStream.stoppedAnswer, informed.acked, informed.heard]

/-- And a write fails. -/
theorem writeError_of_heard {v : SendStream} (heard : v.stopCode = some code) :
    v.writeError.isSome = true := by
  unfold SendStream.writeError
  cases v.lost with
  | some e => rfl
  | none =>
      cases v.closed with
      | true => rfl
      | false => simp [heard]

end Knowledge

/-! ## What an answer of `stopped` says -/

section Answers

variable {s t : StreamState}

/-- No method was called yet, and neither end knows what the other did not do. -/
structure Paired (s : StreamState) : Prop where
  fresh : s.Fresh
  echoes : Echoes s.res

/-- An answer is the code of the receiver's stop, unless the stream was acknowledged or its
connection lost. -/
def Tells (r : Halves) (m : Method) (ph : Phase Bytes Result) : Prop :=
  Detaches m → ∀ a, ph = .ended a →
    (∃ k, r.recv.stopCode = some k ∧ a = .ok (.code (some k.value))) ∨
      r.send.acked = true ∨ r.send.lost.isSome = true

theorem Tells.of_not_ended {r : Halves} {m : Method} {ph : Phase Bytes Result}
    (unended : ∀ a, ph ≠ .ended a) : Tells r m ph := fun _ a ended => absurd ended (unended a)

theorem Tells.moved {r r' : Halves} {m : Method} {ph : Phase Bytes Result} (tells : Tells r m ph)
    (moves : Moved r r') : Tells r' m ph := by
  intro detaches a ended
  obtain ⟨k, stopped, answer⟩ | acked | lost := tells detaches a ended
  · exact .inl ⟨k, moves.stop k stopped, answer⟩
  · obtain same | ⟨acked', -⟩ := moves.acked
    · exact .inr (.inl (same.trans acked))
    · exact .inr (.inl acked')
  · exact .inr (.inr (moves.lost lost))

/-- `stopped` never ends under the mutex: it is told when it resolves. -/
def answerAccount : Account discipline network where
  callOk _ := True
  envOk _ := True
  inv := Echoes
  tells := Tells
  keeps echoes change := echoes.moved (moved_change change)
  begins _ := .of_not_ended fun _ => nofun
  refused := by
    rintro r m a - refused ⟨b, rfl⟩
    cases refused
  starts _ := .of_not_ended fun _ => nofun
  works := by
    rintro r m p x r' turn - - worked - ⟨b, rfl⟩
    obtain ⟨v, turned, -⟩ := work_send.mp worked
    cases turned
    exact fun _ => nofun
  resolves := by
    rintro r m a echoes answer - ⟨b, rfl⟩ a' ended
    cases ended
    have answer : r.send.stoppedAnswer = some a := answer
    unfold SendStream.stoppedAnswer at answer
    split at answer
    · rename_i acked
      exact .inr (.inl acked)
    · split at answer
      · rename_i code heard
        cases answer
        exact .inl ⟨code, echoes.stop code heard, rfl⟩
      · obtain ⟨cause, lost, -⟩ := Option.map_eq_some_iff.mp answer
        exact .inr (.inr (by rw [lost]; rfl))
  dropped _ := .of_not_ended fun _ => nofun
  lasts _ change tells := tells.moved (moved_change change)

theorem told_reachable (reached : Reachable (step discipline network) Any Paired s) :
    answerAccount.Told s :=
  answerAccount.told_reachable (fun _ paired => paired.fresh) (fun _ paired => paired.echoes)
    (reached.mono fun t e _ => Account.Ok.of_all (T := answerAccount) (fun _ => trivial)
      (fun _ => trivial) t e)

/-- What a change of the halves keeps, a run keeps. -/
theorem moved_via {ok : StreamState → Event Method Nat NetEvent → Prop} {I : Halves → Prop}
    (keeps : ∀ {r r'}, I r → Moved r r' → I r') (run : Via (step discipline network) ok s t)
    (holds : I s.res) : I t.res :=
  res_via (fun _ => True) (fun _ _ _ => trivial)
    (fun holds change => keeps holds (moved_change change)) run holds

end Answers

/-! ## The sender hears it -/

/-- The network carries the stop, and the calls go on; nothing is cancelled. -/
def Helped (s : StreamState) (e : Event Method Nat NetEvent) : Prop :=
  e = .env .deliverStop ∨ Local s e

/-- The call has ended with the code. -/
def HeardBy (c : CallId) (code : VarInt) (s : StreamState) : Prop :=
  s.calls c = some (IrohSendStream.stopped, .ended (.ok (.code (some code.value))))

section Hearing

variable {s t : StreamState} {code : VarInt} {c : CallId}

theorem stopped_detaches : Detaches IrohSendStream.stopped := ⟨false, rfl⟩

theorem informed_via (run : Via (step discipline network) Local s t)
    (informed : Informed code s.res) : Informed code t.res := by
  refine res_via (fun _ => False) (fun _ _ own => own) (fun informed change => ?_) run informed
  cases change with
  | work _ worked => exact informed.work worked
  | env impossible => exact impossible.elim

/-- Without the mutex, `stopped` has only to ask. -/
theorem hears_detached (informed : Informed code s.res)
    (called : s.calls c = some (IrohSendStream.stopped, .detached)) :
    CanReach (step discipline network) Local s (HeardBy c code) := by
  have resolved : step discipline network s (.resolve c) =
      some (s.record c IrohSendStream.stopped (.ended (.ok (.code (some code.value))))) :=
    step_resolve_iff.mpr ⟨_, _, called, informed.stoppedAnswer, rfl⟩
  have own : Local s (.resolve c : Event Method Nat NetEvent) := trivial
  exact ⟨_, .single own resolved, by simp [HeardBy]⟩

/-- Under the mutex it lets go first. -/
theorem hears_holding {p : Bytes} (informed : Informed code s.res)
    (called : s.calls c = some (IrohSendStream.stopped, .holding p)) :
    CanReach (step discipline network) Local s (HeardBy c code) := by
  obtain ⟨t, stepped, detached⟩ := stopped_lets_go 0 stopped_detaches called
  have own : Local s (.work c 0 : Event Method Nat NetEvent) := trivial
  have run : Via (step discipline network) Local s t := .single own stepped
  exact .after run (hears_detached (informed_via run informed) detached)

/-- At the head of the line it takes the mutex. -/
theorem hears_head {ph : Phase Bytes Result} (informed : Informed code s.res)
    (called : s.calls c = some (IrohSendStream.stopped, ph)) (inLine : ph.InLine)
    (head : (s.queue .send).head? = some c) :
    CanReach (step discipline network) Local s (HeardBy c code) := by
  rcases Phase.inLine_iff.mp inLine with rfl | ⟨p, rfl⟩
  · have stepped : step discipline network s (.acquire c) =
        some ((s.record c IrohSendStream.stopped
          (.holding (discipline.start IrohSendStream.stopped))).take .send c) :=
      step_acquire_iff.mpr ⟨_, .send, called, rfl, head, rfl⟩
    have own : Local s (.acquire c : Event Method Nat NetEvent) := trivial
    have run : Via (step discipline network) Local s _ := .single own stepped
    refine .after run (hears_holding (p := discipline.start IrohSendStream.stopped)
      (informed_via run informed) ?_)
    simp
  · exact hears_holding informed called

/-- Every call on a stopped half ends by its own turns, and leaves it stopped. -/
theorem settles_of_heard {v : SendStream} (heard : v.stopCode = some code) (o : SendOp)
    (p : Bytes) : ∃ v', v.Settles o p v' ∧ v'.stopCode = some code := by
  by_cases transfer : ∃ data, o = .writeAll data
  · obtain ⟨data, rfl⟩ := transfer
    have fails := writeError_of_heard heard
    exact ⟨v, by simp [SendStream.Settles, fails], heard⟩
  · obtain ⟨-, v', turn, worked, out⟩ :=
      SendStream.work_prompt (v := v) (p := p) o (fun data same => transfer ⟨data, same⟩) 0
    exact ⟨v', SendStream.settles_last worked out,
      (SendStream.work_moved worked).stop.trans heard⟩

/-- So the line of the send mutex drains. -/
theorem drains_of_heard (wf : WellFormed discipline s) (heard : s.res.send.stopCode = some code) :
    sendSettling.Drains s.res.send (workAhead discipline s .send c) := by
  refine Settling.drains_of_forall (G := fun v : SendStream => v.stopCode = some code)
    (fun w member v heard => ?_) heard
  obtain ⟨b, o, same⟩ := route_send.mp (Settling.routed_of_mem_workAhead wf member)
  obtain ⟨v', settled, heard'⟩ := settles_of_heard heard o w.2
  exact ⟨v', ⟨b, o, same, settled⟩, heard'⟩

/-- **Once the sender was told the code**, every `stopped` under way can come to it on its own. -/
theorem hears_informed (wf : WellFormed discipline s) (informed : Informed code s.res)
    {ph : Phase Bytes Result} (called : s.calls c = some (IrohSendStream.stopped, ph))
    (live : ph.Live) : CanReach (step discipline network) Local s (HeardBy c code) := by
  have queued : ∀ {q : Phase Bytes Result}, q.InLine →
      s.calls c = some (IrohSendStream.stopped, q) →
      CanReach (step discipline network) Local s (HeardBy c code) := by
    intro q inLine called
    have member : c ∈ s.queue .send := (wf.mem_queue .send c).mpr ⟨_, q, called, rfl, inLine⟩
    obtain ⟨t, run, wf', head, here⟩ : ∃ t, Via (step discipline network) Local s t ∧ _ :=
      Settling.comes_up (S := sendSettling) _ wf member called rfl
        (drains_of_heard wf informed.heard)
    exact .after run (hears_head (informed_via run informed) here inLine head)
  cases ph with
  | waiting => exact queued Phase.inLine_waiting called
  | holding p => exact queued (Phase.inLine_holding p) called
  | detached => exact hears_detached informed called
  | ended a => exact absurd live id
  | cancelled => exact absurd live id

/-- What the network has to do for it is to deliver the stop. -/
theorem hears_stopped (reached : Reachable (step discipline network) Any Paired s)
    (stopped : s.res.recv.stopCode = some code) (unacked : s.res.send.acked = false)
    {ph : Phase Bytes Result} (called : s.calls c = some (IrohSendStream.stopped, ph))
    (live : ph.Live) : CanReach (step discipline network) Helped s (HeardBy c code) := by
  have wf : WellFormed discipline s := wellFormed_reachable (reached.of_init fun _ => Paired.fresh)
  have onItsOwn : ∀ {t : StreamState}, CanReach (step discipline network) Local t (HeardBy c code) →
      CanReach (step discipline network) Helped t (HeardBy c code) :=
    fun ⟨u, run, heard⟩ => ⟨u, run.mono fun _ _ own => .inr own, heard⟩
  cases heard : s.res.send.stopCode with
  | some k =>
      have same := (told_reachable reached).inv.stop k heard
      rw [stopped] at same
      cases same
      exact onItsOwn (hears_informed wf ⟨heard, unacked⟩ called live)
  | none =>
      obtain ⟨r, moved, informed⟩ : ∃ r, network s.res .deliverStop = some r ∧ Informed code r := by
        refine ⟨{ s.res with send := { s.res.send with stopCode := some code } }, ?_, rfl, unacked⟩
        simp [network, stopped, heard]
      have stepped : step discipline network s (.env .deliverStop) = some { s with res := r } :=
        step_env_iff.mpr ⟨r, moved, rfl⟩
      have delivered : Via (step discipline network) Helped s { s with res := r } :=
        .single (.inl rfl) stepped
      exact .after delivered
        (onItsOwn (hears_informed (wellFormed_step _ wf stepped) informed called live))

end Hearing

/-! ## The first stop -/

/-- The sender finished or reset the stream, or its connection is gone. -/
def Shut (r : Halves) : Prop :=
  r.send.finished = true ∨ r.send.resetCode.isSome = true ∨ r.send.lost.isSome = true

theorem not_closed_of_running {r : Halves} (running : ¬ Shut r) : ¬ r.send.closed = true := by
  intro closed
  rcases Bool.or_eq_true_iff.mp closed with finished | reset
  · exact running (.inl finished)
  · exact running (.inr (.inl reset))

/-- Call `c` is a `stop` with the code, on either of the objects that have a receive half, and has
the mutex: the first of a stream whose sender has neither finished nor reset it, on a connection
that is open. Any calls of any methods may be under way. -/
structure FirstStop (code : VarInt) (s : StreamState) (c : CallId) : Prop where
  reached : Reachable (step discipline network) Any Paired s
  called : ∃ (abort : Abort) (p : Bytes), abort.Stops ∧
    s.calls c = some (abort.method code.value, .holding p)
  first : s.res.recv.stopCode = none
  running : ¬ Shut s.res

/-- What comes of it, from the state `t` its turn leads to. -/
structure Heard (code : VarInt) (t : StreamState) (c : CallId) : Prop where
  /-- It succeeded, and the code is on the half. -/
  stopped : ∃ m, t.calls c = some (m, .ended (.ok .unit))
  kept : t.res.recv.stopCode = some code
  /-- Whatever happens next, while the sender is still at it `stopped` answers nothing else -/
  answers : ∀ u, Via (step discipline network) Any t u → ¬ Shut u.res →
    ∀ (d : CallId) (a : Result), u.calls d = some (IrohSendStream.stopped, .ended a) →
      a = .ok (.code (some code.value))
  /-- and, called before or after, can still come to that answer. -/
  returns : ∀ u, Via (step discipline network) Any t u → ¬ Shut u.res →
    ∀ (d : CallId) (ph : Phase Bytes Result), u.calls d = some (IrohSendStream.stopped, ph) →
      ph.Live → CanReach (step discipline network) Helped u (HeardBy d code)

/-- The library had let go of the stream, when it refused a read in order behind a `read_to_end`:
the call fails, and stops nothing. -/
structure LetGo (s t : StreamState) (c : CallId) : Prop where
  dropped : s.res.recv.dropped = true
  failed : ∃ m, t.calls c = some (m, .ended (.error (IrohError.msg StreamError.closedStream)))
  unmoved : t.res = s.res

section Stop

variable {s t u : StreamState} {code : VarInt} {c : CallId} {x : Nat}

theorem Abort.method_of_stops {abort : Abort} (stops : abort.Stops) (code : VarInt) :
    abort.method code.value = .ok ⟨true, .recv (.stop code)⟩ := by
  rw [abort.method_of_lt code.bound]
  cases abort with
  | streamStop | recvStop => rfl
  | streamReset | sendReset => exact absurd stops id

/-- The turn of a first stop ends the call and stops the stream, if there still is one. -/
theorem stop_turn {b : Bool} {p : Bytes} (echoes : Echoes s.res) (running : ¬ Shut s.res)
    (first : s.res.recv.stopCode = none)
    (called : s.calls c = some (.ok ⟨b, .recv (.stop code)⟩, .holding p))
    (stepped : step discipline network s (.work c x) = some t) :
    ((∃ m, t.calls c = some (m, .ended (.ok .unit))) ∧ t.res.recv.stopCode = some code) ∨
      LetGo s t c := by
  obtain ⟨m, q, r, turn, called', worked, rfl⟩ := step_work_iff.mp stepped
  rw [called] at called'
  cases called'
  obtain ⟨v, turned, rfl⟩ := work_recv.mp worked
  obtain ⟨spent, rfl, rfl⟩ | ⟨-, -, rfl, rfl⟩ := RecvStream.work_stop turned
  · have untold : s.res.recv.told = false := by
      rw [← Bool.not_eq_true]
      exact fun told => not_closed_of_running running (echoes.told told)
    exact .inr ⟨by simpa [RecvStream.forgotten, first, untold] using spent,
      ⟨.ok ⟨b, .recv (.stop code)⟩, by simp [fails]⟩, by rw [turned_res]⟩
  · exact .inl ⟨⟨.ok ⟨b, .recv (.stop code)⟩, by simp [answers]⟩, by rw [turned_res]⟩

/-- On a stopped stream whose sender is at it, nothing was acknowledged. -/
theorem unacked_of_running (reached : Reachable (step discipline network) Any Paired u)
    (running : ¬ Shut u.res) : u.res.send.acked = false := by
  rw [← Bool.not_eq_true]
  exact fun acked => not_closed_of_running running ((told_reachable reached).inv.acked acked)

/-- The answers of `stopped` on a stopped stream whose sender is at it. -/
theorem answer_of_stopped (reached : Reachable (step discipline network) Any Paired u)
    (stopped : u.res.recv.stopCode = some code) (running : ¬ Shut u.res) {d : CallId} {a : Result}
    (ended : u.calls d = some (IrohSendStream.stopped, .ended a)) :
    a = .ok (.code (some code.value)) := by
  have tells := ((told_reachable reached).calls d _ _ ended).2 stopped_detaches a rfl
  obtain ⟨k, stopped', answer⟩ | acked | lost := tells
  · rw [stopped] at stopped'
    cases stopped'
    exact answer
  · rw [unacked_of_running reached running] at acked
    cases acked
  · exact absurd (.inr (.inr lost)) running

/-- **The first stop is heard as it was called.** -/
theorem stop_heard (first : FirstStop code s c)
    (stepped : step discipline network s (.work c x) = some t) : Heard code t c ∨ LetGo s t c := by
  obtain ⟨reached, ⟨abort, p, stops, called⟩, first, running⟩ := first
  rw [Abort.method_of_stops stops] at called
  have echoes : Echoes s.res := (told_reachable reached).inv
  obtain ⟨ended, stopped⟩ | late := stop_turn echoes running first called stepped
  · refine .inl ?_
    have later : ∀ u, Via (step discipline network) Any t u →
        Reachable (step discipline network) Any Paired u ∧ u.res.recv.stopCode = some code :=
      fun u run => ⟨(reached.next trivial stepped).via run,
        moved_via (I := fun r => r.recv.stopCode = some code)
          (fun stopped moves => moves.stop code stopped) run stopped⟩
    constructor
    · exact ended
    · exact stopped
    · intro u run running d a
      obtain ⟨reached', stopped'⟩ := later u run
      exact answer_of_stopped reached' stopped' running
    · intro u run running d ph
      obtain ⟨reached', stopped'⟩ := later u run
      exact hears_stopped reached' stopped' (unacked_of_running reached' running)
  · exact .inr late

end Stop

/-! ## Every code -/

end Library

/-! ## A write in the way -/

section Sample

local instance firstText : Display StreamError := ⟨fun _ => "stream error"⟩
local instance firstChunks : Chunking := ⟨fun v => v.buffer.length⟩
local instance boundsText : Display VarIntBoundsExceeded := ⟨fun _ => "value too large"⟩

/-- A write without credit has the send mutex. -/
def writing (write : Method) : StreamState :=
  let idle : StreamState := State.idle (Halves.opened 0)
  (((idle.record 0 write .waiting).join .send 0).record 0 write (.holding [1])).take .send 0

/-- An open connection with one stream. -/
def quiet : Session Unit := ⟨⟨none, none⟩, fun _ => State.idle (Halves.opened 0), fun _ => none⟩

theorem quiet_fresh : quiet.Fresh :=
  ⟨rfl, fun _ => State.idle_fresh (Halves.opened 0), fun _ => rfl⟩

/-- The connection with the write on its stream. -/
def busy : Session Unit :=
  let write := IrohStream.sendBytes [1]
  let called := ((quiet.streams ()).record 0 write .waiting).join .send 0
  (quiet.moved () called).moved () (writing write)

theorem busy_reachable : Reachable Session.step Any Session.Fresh busy :=
  .of_exec [.stream () (.call 0 (IrohStream.sendBytes [1])), .stream () (.acquire 0)] quiet_fresh
    rfl

/-- The sender's `stopped` waits behind the write, and the receiver is about to stop with `7`. -/
def stopping : StreamState :=
  let stop := IrohRecvStream.stop 7
  let waiting := ((writing (IrohSendStream.sendBytes [1])).record 1 IrohSendStream.stopped
    .waiting).join .send 1
  (((waiting.record 2 stop .waiting).join .recv 2).record 2 stop (.holding [])).take .recv 2

theorem stopping_reachable : Reachable (step discipline network) Any Paired stopping :=
  .of_exec [.call 0 (IrohSendStream.sendBytes [1]), .acquire 0, .call 1 IrohSendStream.stopped,
    .call 2 (IrohRecvStream.stop 7), .acquire 2]
    ⟨State.idle_fresh (Halves.opened 0), nofun, nofun, nofun, nofun, nofun⟩ rfl

theorem stopping_firstStop : FirstStop ⟨7, by decide⟩ stopping 2 where
  reached := stopping_reachable
  called := ⟨.recvStop, [], trivial, rfl⟩
  first := rfl
  running := by rintro (finished | reset | lost) <;> contradiction

/-- The least code that is none, `2^62`. -/
def unfit : UInt64 := 4611686018427387904

end Sample

end IrohKmp.Runtime.Stream
