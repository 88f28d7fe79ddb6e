/-
# Runtime.StreamAnswers — what the calls of a stream half answer

The answers of the calls that take no data along (`finish`, `reset`, `set_priority`,
`priority`, `id`) are those of replaying the calls before them in the order of the mutex,
whatever else went on at once, as long as the peer does not stop the stream: on a stopped one
`finish` succeeds and does nothing. Of the receive half the callers know less, since the
library gives it up by itself once a read is told the end.

* `replay` — what the calls of a list have set, one after the other;
* `SendOp.Answers` — the answers a call gives to an object;
* `send_answers` — every answer on the send half is one to the replay of the calls before it;
  a stream is finished once, reset once, and takes nothing afterwards;
* `RecvObject.Since` — what calls do to a receive half for good;
* `recv_answers` — what every call answers behind the end or a `stop`, which `stop` may fail,
  and what a `read_to_end` leaves to the reads behind it.
-/
import IrohKmp.Runtime.StreamObject

namespace IrohKmp.Runtime.Stream

open IrohKmp.Kernel
open IrohKmp.Theory.Run
open IrohKmp.Theory.Guarded

set_option autoImplicit false
set_option linter.unusedSectionVars false

section Library

variable [Display StreamError] [Chunking]

/-! ## The send half -/

section Send

variable {s₀ s : StreamState} {r : Halves} {c : CallId} {o : SendOp} {ph : Phase Bytes Result}
  {v w : SendObject}

/-- What a call that stands at `ph` has set, its bytes left out. -/
def SendOp.sets : SendOp → Phase Bytes Result → SendObject → SendObject
  | .finish, .ended (.ok _), v => { v with finished := true }
  | .reset code, .ended (.ok _), v => { v with resetCode := some code }
  | .setPriority p, .ended (.ok _), v => { v with priority := p }
  | _, _, v => v

/-- Every call but a write did what it set, on a stream the peer does not stop. -/
theorem did_sets (unstopped : r.send.stopCode = none) (other : ∀ data, o ≠ .writeAll data)
    (did : o.Did r ph v w) : w = o.sets ph v := by
  cases o with
  | writeAll data => exact absurd rfl (other data)
  | finish =>
      rcases ph with _ | p | _ | ⟨e | a⟩ | _
      case ended.error => exact did.2.2
      case ended.ok =>
        obtain ⟨-, ⟨-, same⟩ | ⟨stopped, -⟩⟩ := did
        · exact same
        · rw [unstopped] at stopped
          cases stopped
      all_goals exact did
  | reset code =>
      rcases ph with _ | p | _ | ⟨e | a⟩ | _
      case ended.error | ended.ok => exact did.2.2
      all_goals exact did
  | setPriority q | priority =>
      rcases ph with _ | p | _ | ⟨e | a⟩ | _
      case ended.error => exact did.2.2
      case ended.ok => exact did.2
      all_goals exact did
  | id =>
      rcases ph with _ | p | _ | a | _
      case ended => exact did.2
      all_goals exact did
  | stopped => exact did

/-- Call `c` of a state, replayed on an object. -/
def setBy (s : StreamState) (v : SendObject) (c : CallId) : SendObject :=
  match s.calls c with
  | some (.ok ⟨_, .send o⟩, ph) => o.sets ph v
  | _ => v

def replay (s : StreamState) (v : SendObject) (calls : List CallId) : SendObject :=
  calls.foldl (setBy s) v

/-- The same object, but perhaps for the bytes on it. -/
def Alike (v w : SendObject) : Prop :=
  v.id = w.id ∧ v.priority = w.priority ∧ v.finished = w.finished ∧ v.resetCode = w.resetCode

theorem Alike.refl (v : SendObject) : Alike v v := ⟨rfl, rfl, rfl, rfl⟩

theorem Alike.closed (alike : Alike v w) : v.closed = w.closed := by
  obtain ⟨-, -, finished, reset⟩ := alike
  simp only [SendObject.closed, finished, reset]

theorem Alike.sets (alike : Alike v w) (o : SendOp) (ph : Phase Bytes Result) :
    Alike (o.sets ph v) (o.sets ph w) := by
  obtain ⟨id, priority, finished, reset⟩ := alike
  unfold SendOp.sets
  split <;> exact ⟨by assumption, by first | rfl | assumption, by first | rfl | assumption,
    by first | rfl | assumption⟩

/-- What a call did is what it set, and some bytes. -/
theorem alike_of_did (unstopped : r.send.stopCode = none) (did : o.Did r ph v w) :
    Alike w (o.sets ph v) := by
  by_cases write : ∃ data, o = .writeAll data
  · obtain ⟨data, rfl⟩ := write
    obtain ⟨seg, -, -, rfl⟩ := did
    exact ⟨rfl, rfl, rfl, rfl⟩
  · rw [did_sets unstopped (fun data same => write ⟨data, same⟩) did]
    exact .refl _

/-- The answers a call gives to an object. -/
def SendOp.Answers : SendOp → Result → SendObject → Prop
  | .finish, a, v =>
      a = if v.closed then .error (IrohError.msg StreamError.closedStream) else .ok .unit
  | .reset _, a, v => (a = .ok .unit ∧ v.resetCode = none) ∨
      (a = .error (IrohError.msg StreamError.closedStream) ∧ v.closed = true)
  | .setPriority _, a, v => a = .ok .unit ∨
      (a = .error (IrohError.msg StreamError.closedStream) ∧ v.closed = true)
  | .priority, a, v => a = .ok (.priority v.priority) ∨
      (a = .error (IrohError.msg StreamError.closedStream) ∧ v.closed = true)
  | .id, a, v => a = .ok (.id v.id)
  | .writeAll data, a, v => (a = .ok .unit ∧ (data = [] ∨ v.closed = false)) ∨ ∃ e, a = .error e
  | .stopped, _, _ => True

theorem SendOp.Answers.alike {a : Result} (answers : o.Answers a v) (alike : Alike v w) :
    o.Answers a w := by
  obtain ⟨id, priority, finished, reset⟩ := alike
  have closed : v.closed = w.closed := Alike.closed ⟨id, priority, finished, reset⟩
  cases o with
  | writeAll data | finish =>
      simp only [SendOp.Answers, closed] at answers ⊢
      exact answers
  | reset code =>
      simp only [SendOp.Answers, closed, reset] at answers ⊢
      exact answers
  | setPriority q | priority =>
      simp only [SendOp.Answers, closed, priority] at answers ⊢
      exact answers
  | id =>
      simp only [SendOp.Answers, id] at answers ⊢
      exact answers
  | stopped => trivial

theorem answers_of_did {a : Result} (unstopped : r.send.stopCode = none)
    (did : o.Did r (.ended a) v w) : o.Answers a v := by
  cases o with
  | writeAll data =>
      obtain ⟨seg, left, opened, -⟩ := did
      cases a with
      | error e => exact .inr ⟨e, rfl⟩
      | ok a =>
          obtain ⟨rfl, rfl⟩ := left
          refine .inl ⟨rfl, ?_⟩
          by_cases empty : seg = []
          · exact .inl empty
          · exact .inr (opened empty)
  | finish =>
      cases a with
      | error e =>
          obtain ⟨rfl, closed, -⟩ := did
          simp [SendOp.Answers, closed]
      | ok a =>
          obtain ⟨rfl, ⟨running, -⟩ | ⟨stopped, -⟩⟩ := did
          · simp [SendOp.Answers, running]
          · rw [unstopped] at stopped
            cases stopped
  | reset code =>
      cases a with
      | error e =>
          obtain ⟨rfl, closed, -⟩ := did
          exact .inr ⟨rfl, closed⟩
      | ok a =>
          obtain ⟨rfl, unset, -⟩ := did
          exact .inl ⟨rfl, unset⟩
  | setPriority q | priority =>
      cases a with
      | error e =>
          obtain ⟨rfl, closed, -⟩ := did
          exact .inr ⟨rfl, closed⟩
      | ok a =>
          obtain ⟨rfl, -⟩ := did
          exact .inl rfl
  | id => exact did.1
  | stopped => trivial

/-! ### What a replay keeps -/

theorem setBy_finished (finished : v.finished = true) (c : CallId) :
    (setBy s v c).finished = true := by
  unfold setBy
  split
  · rename_i o ph _
    unfold SendOp.sets
    split
    · rfl
    · exact finished
    · exact finished
    · exact finished
  · exact finished

theorem setBy_reset (reset : v.resetCode.isSome) (c : CallId) :
    (setBy s v c).resetCode.isSome := by
  unfold setBy
  split
  · rename_i o ph _
    unfold SendOp.sets
    split
    · exact reset
    · rfl
    · exact reset
    · exact reset
  · exact reset

/-- A fact every replayed call keeps and one call establishes holds behind that call. -/
theorem replay_of_mem {I : SendObject → Prop} (kept : ∀ v c, I v → I (setBy s v c))
    (set : ∀ v, I (setBy s v c)) {calls : List CallId} (member : c ∈ calls) :
    I (replay s v calls) := by
  obtain ⟨before, behind, rfl⟩ := List.append_of_mem member
  rw [replay, List.foldl_append, List.foldl_cons]
  have start := set (before.foldl (setBy s) v)
  generalize setBy s (before.foldl (setBy s) v) c = x at start
  induction behind generalizing x with
  | nil => exact start
  | cons d behind ih => exact ih (by simp) _ (kept x d start)

/-- The call finished the stream, or reset it. -/
def Ends (s : StreamState) (c : CallId) : Prop :=
  ∃ b o a, s.calls c = some (.ok ⟨b, .send o⟩, .ended (.ok a)) ∧
    (o = .finish ∨ ∃ code, o = .reset code)

theorem replay_closed (ends : Ends s c) {calls : List CallId} (member : c ∈ calls) :
    (replay s v calls).closed = true := by
  obtain ⟨b, o, a, called, rfl | ⟨code, rfl⟩⟩ := ends
  · have finished : (replay s v calls).finished = true :=
      replay_of_mem (I := fun v => v.finished = true) (fun v c => (setBy_finished · c))
        (fun v => by simp [setBy, called, SendOp.sets]) member
    simp [SendObject.closed, finished]
  · have reset : (replay s v calls).resetCode.isSome :=
      replay_of_mem (I := fun v => v.resetCode.isSome) (fun v c => (setBy_reset · c))
        (fun v => by simp [setBy, called, SendOp.sets]) member
    simp [SendObject.closed, reset]

/-! ### Every run -/

theorem Alike.replay {calls : List CallId} (alike : Alike v w) :
    Alike (replay s v calls) (replay s w calls) := by
  induction calls generalizing v w with
  | nil => exact alike
  | cons c calls ih =>
      refine ih ?_
      unfold setBy
      split
      · exact alike.sets _ _
      · exact alike

theorem Alike.trans {x : SendObject} (first : Alike v w) (second : Alike w x) : Alike v x :=
  ⟨first.1.trans second.1, first.2.1.trans second.2.1, first.2.2.1.trans second.2.2.1,
    first.2.2.2.trans second.2.2.2⟩

section Chain

variable {E : Type} {env : Halves → E → Option Halves} {bystands : Bystands env}
  (unstopped : s.res.send.stopCode = none)

include unstopped

theorem alike_setBy (did : (sendSerial bystands).Did s c v w) : Alike w (setBy s v c) := by
  obtain ⟨m, ph, called, did⟩ := did
  rcases m with e | ⟨b, o | o⟩
  · cases did
    simp only [setBy, called]
    exact .refl v
  · simp only [setBy, called]
    exact alike_of_did unstopped did
  · cases did
    simp only [setBy, called]
    exact .refl v

/-- The calls of a chain leave what their replay leaves. -/
theorem alike_replay {calls : List CallId} (chain : (sendSerial bystands).Chain s v calls w) :
    Alike w (replay s v calls) := by
  induction calls generalizing v with
  | nil =>
      cases chain
      exact .refl w
  | cons c calls ih =>
      obtain ⟨x, did, rest⟩ := chain
      exact (ih rest).trans (alike_setBy unstopped did).replay

end Chain

/-- What the callers of a send half can rely on while the peer does not stop the stream. -/
structure SendAnswers (s₀ s : StreamState) : Prop where
  /-- A call answers as if only the calls ahead of it had been made, one after the other. -/
  replayed : ∀ before c behind b o a, s.taken .send = before ++ c :: behind →
    s.calls c = some (.ok ⟨b, .send o⟩, .ended a) →
    o.Answers a (replay s s₀.res.send.object before)
  now : Alike s.res.send.object (replay s s₀.res.send.object (s.taken .send))
  /-- One `finish` succeeds, and one `reset`, -/
  finishedOnce : ∀ c d b b' a a', s.calls c = some (.ok ⟨b, .send .finish⟩, .ended (.ok a)) →
    s.calls d = some (.ok ⟨b', .send .finish⟩, .ended (.ok a')) → c = d
  resetOnce : ∀ c d b b' k k' a a', s.calls c = some (.ok ⟨b, .send (.reset k)⟩, .ended (.ok a)) →
    s.calls d = some (.ok ⟨b', .send (.reset k')⟩, .ended (.ok a')) → c = d
  /-- and nothing is written behind either. -/
  shut : ∀ c d b data a, Ends s c → [c, d].Sublist (s.taken .send) →
    s.calls d = some (.ok ⟨b, .send (.writeAll data)⟩, .ended (.ok a)) → data = []

variable (fresh : s₀.Fresh) (settled : Settled s₀.res)
  (run : Via (step discipline peer) Any s₀ s) (unstopped : s.res.send.stopCode = none)

include fresh settled run unstopped

theorem answers_replayed {before behind : List CallId} {b : Bool} {a : Result}
    (split : s.taken .send = before ++ c :: behind)
    (called : s.calls c = some (.ok ⟨b, .send o⟩, .ended a)) :
    o.Answers a (replay s s₀.res.send.object before) := by
  obtain ⟨x, y, earlier, ⟨m, ph, now, did⟩, -⟩ :=
    Serial.did_at split ((sendSerial peer_bystands).linear fresh settled run).told
  rw [called] at now
  cases now
  exact (answers_of_did unstopped did).alike (alike_replay unstopped earlier)

end Send

/-! ## The receive half -/

namespace RecvObject

/-- What calls do to a half, they do for good. -/
structure Since (v w : RecvObject) : Prop where
  told : v.told = true → w.told = true
  stopped : v.stopCode.isSome = true → w.stopCode.isSome = true
  unordered : v.unordered = true → w.unordered = true
  dropped : v.dropped = true → w.dropped = true

variable {u v w : RecvObject} {ordered : Bool} {data : Bytes}

theorem Since.refl (v : RecvObject) : Since v v where
  told held := held
  stopped held := held
  unordered held := held
  dropped held := held

theorem Since.trans (first : Since u v) (second : Since v w) : Since u w where
  told := second.told ∘ first.told
  stopped := second.stopped ∘ first.stopped
  unordered := second.unordered ∘ first.unordered
  dropped := second.dropped ∘ first.dropped

theorem since_push : Since v (v.push data) := { Since.refl v with }

theorem since_tell : Since v v.tell := { Since.refl v with told := fun _ => rfl }

theorem since_unorder : Since v v.unorder := { Since.refl v with unordered := fun _ => rfl }

theorem Since.done (since : Since v w) (done : v.done = true) : w.done = true := by
  rcases Bool.or_eq_true_iff.mp done with told | stopped
  · simp [RecvObject.done, since.told told]
  · simp [RecvObject.done, since.stopped stopped]

theorem Since.forgotten (since : Since v w) (forgotten : v.forgotten = true) :
    w.forgotten = true := by
  rcases Bool.or_eq_true_iff.mp forgotten with told | dropped
  · simp [RecvObject.forgotten, since.told told]
  · simp [RecvObject.forgotten, since.dropped dropped]

theorem not_open_of_done (done : v.done = true) : ¬ v.Open ordered := fun open' => by
  simpa [done] using open'.undone

theorem not_open_of_forgotten (forgotten : v.forgotten = true) : ¬ v.Open ordered :=
  fun open' => by simpa [forgotten] using open'.kept

theorem not_open_of_unordered (unordered : v.unordered = true) : ¬ v.Open true :=
  fun open' => by simpa [unordered] using open'.fits

/-- A half that is closed to reads in order is never open to them again. -/
theorem Since.not_open (since : Since v w) (closed : ¬ v.Open true) : ¬ w.Open true := by
  intro open'
  refine closed ⟨?_, ?_, ?_⟩ <;> refine Bool.eq_false_iff.mpr fun held => ?_
  · exact not_open_of_done (since.done held) open'
  · exact not_open_of_forgotten (since.forgotten held) open'
  · exact not_open_of_unordered (since.unordered held) open'

section Ends

variable {atEnd a : Result} {err : ReadError → StreamError} {n : Nat} {got : Bytes}

theorem EndsRead.since (ends : v.EndsRead ordered atEnd err w a) : Since v w := by
  cases ends with
  | known | closed | lost => exact .refl v
  | refused => exact { Since.refl v with dropped := fun _ => rfl }
  | reset | ended => exact since_tell

theorem Gets.since (gets : v.Gets n got w) : Since v w := by
  obtain ⟨-, ⟨-, rfl⟩ | ⟨-, -, rfl | ⟨-, rfl⟩⟩⟩ := gets
  · exact .refl _
  · exact since_push
  · exact since_push.trans since_tell

theorem Gathers.since (gathers : v.Gathers n got w) : Since v w := by
  obtain ⟨-, rfl⟩ | ⟨-, -, rfl⟩ := gathers
  · exact .refl _
  · exact since_push.trans since_unorder

theorem EndsRead.of_done (ends : v.EndsRead ordered atEnd err w a) (done : v.done = true) :
    a = atEnd ∧ w = v := by
  cases ends with
  | known => exact ⟨rfl, rfl⟩
  | closed undone | refused undone =>
      rw [done] at undone
      cases undone
  | reset _ open' | ended open' | lost _ open' => exact absurd open' (not_open_of_done done)

/-- A read that comes to the end was told so, or stopped. -/
theorem EndsRead.done (ends : v.EndsRead ordered atEnd err w a)
    (good : ∀ e, a ≠ .error (IrohError.msg (err e))) : w.done = true := by
  cases ends with
  | known done => exact done
  | ended => rfl
  | closed | refused | reset | lost => exact absurd rfl (good _)

/-- Whatever a read ends with, what it leaves is told, dropped, or as it was. -/
theorem EndsRead.not_open (ends : v.EndsRead ordered atEnd err w a)
    (unfit : v.Open ordered → ¬ v.Open true) : ¬ w.Open true := by
  cases ends with
  | known done => exact not_open_of_done done
  | closed _ forgotten => exact not_open_of_forgotten forgotten
  | refused => exact not_open_of_forgotten (by simp [RecvObject.forgotten])
  | reset | ended => exact not_open_tell _ _
  | lost cause open' => exact unfit open'

/-- A half that is closed to reads gives them nothing. -/
theorem Gets.none (gets : v.Gets n got w) (closed : ¬ v.Open true) : got = [] ∧ w = v := by
  obtain ⟨-, none | ⟨-, open', -⟩⟩ := gets
  · exact none
  · exact absurd open' closed

end Ends

end RecvObject

section Recv

variable {s₀ s : StreamState} {c : CallId} {o : RecvOp} {ph : Phase Bytes Result}
  {v w : RecvObject} {a : Result}

theorem RecvOp.Did.since (did : o.Did ph v w) : v.Since w := by
  have same : w = v → v.Since w := fun same => same ▸ .refl v
  cases o with
  | read max =>
      rcases ph with _ | p | _ | a | _
      case ended =>
        obtain ⟨-, -, rfl⟩ | ⟨-, ends⟩ | ⟨got, -, gets, -⟩ := did
        · exact .refl _
        · exact ends.since
        · exact gets.since
      case holding => exact same did.2
      all_goals exact same did
  | readExact n =>
      rcases ph with _ | p | _ | a | _
      case ended =>
        obtain ⟨got, u, gets, ⟨-, rfl, -⟩ | ⟨-, ends⟩⟩ := did
        · exact gets.since
        · exact gets.since.trans ends.since
      case holding => exact RecvObject.Gets.since did
      all_goals
        obtain ⟨got, gets⟩ := did
        exact gets.since
  | readToEnd max =>
      rcases ph with _ | p | _ | a | _
      case ended =>
        obtain ⟨got, u, gathers, -, ends⟩ | ⟨got, -, -, rfl, -⟩ := did
        · exact gathers.since.trans ends.since
        · exact RecvObject.since_push.trans RecvObject.since_unorder
      case holding => exact RecvObject.Gathers.since did
      all_goals
        obtain ⟨got, gathers⟩ := did
        exact gathers.since
  | stop code =>
      rcases ph with _ | p | _ | ⟨e | a⟩ | _
      case ended.ok =>
        obtain ⟨-, -, -, rfl⟩ := did
        exact { RecvObject.Since.refl v with stopped := fun _ => rfl }
      case ended.error => exact same did.2.2
      all_goals exact same did
  | id =>
      rcases ph with _ | p | _ | a | _
      case ended => exact same did.2
      all_goals exact same did

/-- What a call answers on a half that has nothing more to tell. -/
def RecvOp.AtEnd : RecvOp → Result → Prop
  | .read max, a => a = .ok (.chunk (if max = 0 then some [] else none))
  | .readExact n, a =>
      a = if n = 0 then .ok (.bytes []) else .error (IrohError.msg (StreamError.finishedEarly 0))
  | .readToEnd _, a => a = .ok (.bytes [])
  | .stop _, a => a = .error (IrohError.msg StreamError.closedStream)
  | .id, _ => True

theorem atEnd_of_did (did : o.Did (.ended a) v w) (done : v.done = true) : o.AtEnd a := by
  have closed : ∀ ordered, ¬ v.Open ordered := fun _ => RecvObject.not_open_of_done done
  cases o with
  | read max =>
      obtain ⟨nothing, rfl, -⟩ | ⟨asked, ends⟩ | ⟨got, some, gets, -⟩ := did
      · simp [RecvOp.AtEnd, nothing]
      · simp [RecvOp.AtEnd, asked, (ends.of_done done).1]
      · exact absurd (gets.none (closed true)).1 some
  | readExact n =>
      obtain ⟨got, u, gets, rest⟩ := did
      obtain ⟨rfl, rfl⟩ := gets.none (closed true)
      obtain ⟨all, -, rfl⟩ | ⟨missing, ends⟩ := rest
      · simp [RecvOp.AtEnd, ← all]
      · have asked : n ≠ 0 := Nat.pos_iff_ne_zero.mp missing
        simpa [RecvOp.AtEnd, asked] using (ends.of_done done).1
  | readToEnd max =>
      obtain ⟨got, u, ⟨rfl, rfl⟩ | ⟨open', -⟩, -, ends⟩ | ⟨got, open', -⟩ := did
      · exact (ends.of_done done).1
      · exact absurd open' (closed false)
      · exact absurd open' (closed false)
  | stop code =>
      cases a with
      | error e => exact congrArg Except.error did.1
      | ok a =>
          obtain ⟨-, unstopped, kept, -⟩ := did
          simp only [RecvObject.forgotten, Bool.or_eq_false_iff] at kept
          simp [RecvObject.done, unstopped, kept.1] at done
  | id => trivial

/-- The call may leave the half so that a `stop` finds nothing to stop: a read, or a `stop`. -/
def Spends (s : StreamState) (c : CallId) : Prop :=
  ∃ b o ph, s.calls c = some (.ok ⟨b, .recv o⟩, ph) ∧
    (o.Moves ∨ ∃ code a, o = .stop code ∧ ph = .ended (.ok a))

/-- Call `c` stopped the half, or was told the end of the stream. -/
def Closes (s : StreamState) (c : CallId) : Prop :=
  SawEnd s c ∨ ∃ b code a, s.calls c = some (.ok ⟨b, .recv (.stop code)⟩, .ended (.ok a))

section Chain

variable {E : Type} {env : Halves → E → Option Halves} {bystands : Bystands env}

theorem recvDid_since (did : (recvSerial bystands).Did s c v w) : v.Since w := by
  obtain ⟨m, ph, -, did⟩ := did
  rcases m with e | ⟨b, o | o⟩
  · cases did
    exact .refl v
  · cases did
    exact .refl v
  · exact RecvOp.Did.since did

theorem did_of_called {b : Bool} (called : s.calls c = some (.ok ⟨b, .recv o⟩, ph))
    (did : (recvSerial bystands).Did s c v w) : o.Did ph v w := by
  obtain ⟨m, ph', now, did⟩ := did
  rw [called] at now
  cases now
  exact did

theorem done_of_closes (closes : Closes s c) (did : (recvSerial bystands).Did s c v w) :
    w.done = true := by
  obtain ⟨b, o, a, called, shuts⟩ | ⟨b, code, a, called⟩ := closes
  · have did := did_of_called called did
    cases o with
    | read max =>
        obtain ⟨-, same, -⟩ | ⟨-, ends⟩ | ⟨got, -, -, same⟩ := did
        · cases same
          exact absurd shuts id
        · exact ends.done fun e => by simp
        · cases same
          exact absurd shuts id
    | readToEnd max =>
        obtain ⟨got, u, -, -, ends⟩ | ⟨got, -, -, -, wrong⟩ := did
        · exact ends.done fun e => by simp
        · cases wrong
    | readExact | stop | id => exact absurd shuts id
  · obtain ⟨-, -, -, rfl⟩ := did_of_called called did
    simp [RecvObject.done]

/-- Only a read or a `stop` leaves nothing to stop. -/
theorem spends_of_did (did : (recvSerial bystands).Did s c v w)
    (fresh : ¬ (v.stopCode.isSome || v.forgotten) = true)
    (spent : (w.stopCode.isSome || w.forgotten) = true) : Spends s c := by
  obtain ⟨m, ph, called, did⟩ := did
  have moved : w ≠ v := by
    rintro rfl
    exact fresh spent
  rcases m with e | ⟨b, o | o⟩
  · exact absurd did moved
  · exact absurd did moved
  · refine ⟨b, o, ph, called, ?_⟩
    cases o with
    | read max => exact .inl (.read max)
    | readExact n => exact .inl (.readExact n)
    | readToEnd max => exact .inl (.readToEnd max)
    | stop code =>
        rcases ph with _ | p | _ | ⟨e | a⟩ | _
        case ended.ok => exact .inr ⟨code, a, rfl, rfl⟩
        case ended.error => exact absurd did.2.2 moved
        all_goals exact absurd did moved
    | id =>
        rcases ph with _ | p | _ | a | _
        case ended => exact absurd did.2 moved
        all_goals exact absurd did moved

end Chain

/-- What the callers of a receive half can rely on. -/
structure RecvAnswers (s₀ s : StreamState) : Prop where
  /-- Behind a `stop` that succeeded, or a read that was told the end, every read comes to the
  end at once and no `stop` succeeds. -/
  atEnd : ∀ c d b o a, Closes s c → [c, d].Sublist (s.taken .recv) →
    s.calls d = some (.ok ⟨b, .recv o⟩, .ended a) → o.AtEnd a
  /-- So one `stop` succeeds at most. -/
  stopOnce : ∀ c d b b' k k' a a', s.calls c = some (.ok ⟨b, .recv (.stop k)⟩, .ended (.ok a)) →
    s.calls d = some (.ok ⟨b', .recv (.stop k')⟩, .ended (.ok a')) → c = d
  /-- One that fails does so as on a closed stream, and behind a `stop` that succeeded or a
  read. -/
  stops : ∀ before c behind b code a, s.taken .recv = before ++ c :: behind →
    s.calls c = some (.ok ⟨b, .recv (.stop code)⟩, .ended a) → a = .ok .unit ∨
      (a = .error (IrohError.msg StreamError.closedStream) ∧
        ((s₀.res.recv.stopCode.isSome || s₀.res.recv.forgotten) = true ∨
          ∃ d ∈ before, Spends s d))
  /-- Behind a `read_to_end` that ended, in whatever way, no read in order gets a byte. -/
  unordered : ∀ c d b b' max o a a' seg,
    s.calls c = some (.ok ⟨b, .recv (.readToEnd max)⟩, .ended a) →
    [c, d].Sublist (s.taken .recv) → s.calls d = some (.ok ⟨b', .recv o⟩, .ended (.ok a')) →
    (∀ max', o ≠ .readToEnd max') → Delivers o a' seg → seg = []
  /-- A `recv` that is cancelled did nothing, wherever it was. -/
  cutOff : ∀ before c behind b max, s.taken .recv = before ++ c :: behind →
    s.calls c = some (.ok ⟨b, .recv (.read max)⟩, .cancelled) →
    ∃ x, (recvSerial peer_bystands).Chain s s₀.res.recv.object before x ∧
      (recvSerial peer_bystands).Chain s x behind s.res.recv.object

/-- A `read_to_end` that ended has closed the half to reads in order. -/
theorem not_open_of_readToEnd {max : Nat} (did : (RecvOp.readToEnd max).Did (.ended a) v w) :
    ¬ w.Open true := by
  obtain ⟨got, u, -, polled, ends⟩ | ⟨got, -, -, rfl, -⟩ := did
  · exact ends.not_open fun open' => RecvObject.not_open_of_unordered (polled open')
  · exact RecvObject.not_open_of_unordered rfl

/-- A read in order on a half that is closed to it gives nothing. -/
theorem nothing_of_not_open {a : Answer} {seg : Bytes} (did : o.Did (.ended (.ok a)) v w)
    (closed : ¬ v.Open true) (inOrder : ∀ max, o ≠ .readToEnd max) (gives : Delivers o a seg) :
    seg = [] := by
  cases o with
  | read max =>
      obtain ⟨-, same, -⟩ | ⟨-, ends⟩ | ⟨got, some, gets, -⟩ := did
      · cases same
        exact gives.1
      · cases ends with
        | known | ended => exact gives
      · exact absurd (gets.none closed).1 some
  | readExact n =>
      obtain ⟨got, u, gets, ⟨all, -, same⟩ | ⟨-, ends⟩⟩ := did
      · cases same
        exact gives.1.trans (gets.none closed).1
      · cases ends
  | readToEnd max => exact absurd rfl (inOrder max)
  | stop | id => cases a <;> exact absurd gives id

end Recv

end Library

section Example

local instance answersText : Display StreamError := ⟨fun _ => "stream error"⟩
local instance answersChunks : Chunking := ⟨fun v => v.buffer.length⟩
local instance answersBounds : Display VarIntBoundsExceeded := ⟨fun _ => "out of bounds"⟩

/-- Two `finish` calls around a priority, and two `stop` calls with a read behind them. -/
def twice : List (Event Method Nat PeerEvent) :=
  [.call 0 IrohStream.finish, .call 1 (IrohStream.setPriority 5), .call 2 IrohStream.finish,
    .call 3 IrohStream.priority, .acquire 0, .work 0 0, .acquire 1, .work 1 0, .acquire 2,
    .work 2 0, .acquire 3, .work 3 0,
    .call 4 (IrohStream.stop 7), .call 5 (IrohStream.stop 8), .call 6 (IrohStream.recv 3),
    .acquire 4, .work 4 0, .acquire 5, .work 5 0, .acquire 6, .work 6 3]

theorem twice_runs :
    ∃ s, Via (step discipline peer) Any (State.idle (Halves.opened 9)) s ∧
      s.res.send.stopCode = none ∧ s.res.send.finished = true ∧
      s.res.recv.stopCode.map VarInt.value = some 7 :=
  Via.of_any twice (by decide)

end Example

end IrohKmp.Runtime.Stream
