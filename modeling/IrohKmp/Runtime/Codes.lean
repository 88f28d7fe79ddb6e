/-
# Runtime.Codes — the five methods that take an error code

`shutdown`, `reset` and `stop` take the code as a `u64` and turn it into a `VarInt` first of all.
A code of `2^62` or more is refused there: before any mutex, before any effect, and so that
nobody can tell later that the call was made. A smaller one reaches QUIC as it is.

* `Abort`, `Site` — the four methods of a stream, and all five;
* `Refused`, `bad_code_refused` — what a bad code leaves, in any state;
* `Handed`, `valid_code_handed` — a valid code reaches the library, and what it sets stays.
-/
import IrohKmp.Runtime.Session
import IrohKmp.Runtime.StreamAbort
import IrohKmp.Runtime.StreamIntegrity
import IrohKmp.Theory.GuardedCalls

namespace IrohKmp.Runtime.Stream

open IrohKmp.Kernel
open IrohKmp.Theory.Run
open IrohKmp.Theory.Guarded

set_option autoImplicit false
set_option linter.unusedSectionVars false

/-! ## The five methods -/

/-- The methods of a stream object that take an error code. -/
inductive Abort where
  | streamReset
  | streamStop
  | sendReset
  | recvStop
  deriving DecidableEq

/-- One of the five methods, on one connection. -/
inductive Site (ι : Type) where
  | shutdown (reason : Bytes)
  | stream (i : ι) (abort : Abort)

section Library

variable [Display StreamError] [Chunking] [Display VarIntBoundsExceeded]

namespace Abort

def method : Abort → UInt64 → Method
  | streamReset => IrohStream.reset
  | streamStop => IrohStream.stop
  | sendReset => IrohSendStream.reset
  | recvStop => IrohRecvStream.stop

/-- The library call made with the code. -/
def op : Abort → VarInt → Op
  | streamReset, code | sendReset, code => .send (.reset code)
  | streamStop, code | recvStop, code => .recv (.stop code)

/-- Where the half the method aborts keeps the code it was given. -/
def code : Abort → Halves → Option VarInt
  | streamReset, r | sendReset, r => r.send.resetCode
  | streamStop, r | recvStop, r => r.recv.stopCode

/-- The two methods that stop the receive half. -/
def Stops : Abort → Prop
  | streamStop | recvStop => True
  | streamReset | sendReset => False

theorem method_eq (abort : Abort) (c : UInt64) : abort.method c = withCode c abort.op := by
  cases abort <;> rfl

/-- A valid code is in the library call as it is. -/
theorem method_of_lt {c : UInt64} (valid : c.toNat < 2 ^ 62) (abort : Abort) :
    abort.method c = .ok ⟨true, abort.op ⟨c, valid⟩⟩ := by
  rw [method_eq, withCode_of_lt valid]
  rfl

/-- A bad code is an error before any mutex. -/
theorem method_of_le {c : UInt64} (bad : 2 ^ 62 ≤ c.toNat) (abort : Abort) :
    abort.method c = .error (IrohError.msg VarIntBoundsExceeded.exceeded) := by
  have unfit : ¬ c.toNat < 2 ^ 62 := by omega
  rw [method_eq, withCode, VarInt.fromU64, dif_neg unfit]

end Abort

theorem shutdown_of_lt {c : UInt64} (valid : c.toNat < 2 ^ 62) (l : Link) (reason : Bytes) :
    IrohConnection.shutdown l c reason = (.ok .unit, l.close ⟨c, valid⟩ reason) := by
  rw [IrohConnection.shutdown, VarInt.fromU64_of_lt valid]

theorem shutdown_of_le {c : UInt64} (bad : 2 ^ 62 ≤ c.toNat) (l : Link) (reason : Bytes) :
    IrohConnection.shutdown l c reason =
      (.error (IrohError.msg VarIntBoundsExceeded.exceeded), l) := by
  have unfit : ¬ c.toNat < 2 ^ 62 := by omega
  rw [IrohConnection.shutdown, VarInt.fromU64, dif_neg unfit]

namespace Site

variable {ι : Type}

/-- The call of the method. -/
def event : Site ι → CallId → UInt64 → SessionEvent ι
  | shutdown reason, c, code => .shutdown c code reason
  | stream i abort, c, code => .stream i (.call c (abort.method code))

/-- The name of the call is still free. -/
def Unused : Site ι → CallId → Session ι → Prop
  | shutdown _, c, s => s.shutdowns c = none
  | stream i _, c, s => (s.streams i).calls c = none

/-- The call has returned this. -/
def Returned : Site ι → CallId → Session ι → Result → Prop
  | shutdown _, c, s, a => s.shutdowns c = some a
  | stream i _, c, s, a => ∃ m, (s.streams i).calls c = some (m, .ended a)

/-- The call is in the line of a mutex. -/
def Queued : Site ι → CallId → Session ι → Prop
  | shutdown _, _, _ => False
  | stream i _, c, s => ∃ h, c ∈ (s.streams i).queue h

/-- The event belongs to the call. -/
def Owns : Site ι → CallId → SessionEvent ι → Prop
  | shutdown _, c, .shutdown d _ _ => d = c
  | stream i _, c, .stream j e => j = i ∧ e.caller = some c
  | _, _, _ => False

variable [DecidableEq ι]

/-- The session with the call noted down as returned, and nothing else. -/
def noted (site : Site ι) (c : CallId) (code : UInt64) (a : Result) (s : Session ι) : Session ι :=
  match site with
  | shutdown _ => s.answered c a
  | stream i abort => s.moved i ((s.streams i).record c (abort.method code) (.ended a))

/-! ## A call that only returned -/

variable {site : Site ι} {c : CallId} {code : UInt64} {a : Result} {s t : Session ι}

theorem noted_link : (site.noted c code a s).link = s.link := by
  cases site <;> rfl

/-- The connection can change before or after the note. -/
theorem noted_linked (l : Link) :
    (site.noted c code a s).linked l = site.noted c code a (s.linked l) := by
  cases site with
  | shutdown reason => rfl
  | stream i abort =>
      rw [noted, Session.moved_linked, follow_record]
      rfl

/-- Another `shutdown` can return before or after the note. -/
theorem noted_answered {d : CallId} {b : Result} {r : Bytes} {k : UInt64}
    (other : ¬ site.Owns c (.shutdown d k r)) :
    (site.noted c code a s).answered d b = site.noted c code a (s.answered d b) := by
  cases site with
  | shutdown reason =>
      have differ : d ≠ c := other
      simp only [noted, Session.answered, Function.update_comm differ]
  | stream i abort => rfl

theorem noted_shutdowns {d : CallId} {r : Bytes} {k : UInt64}
    (other : ¬ site.Owns c (.shutdown d k r)) :
    (site.noted c code a s).shutdowns d = s.shutdowns d := by
  cases site with
  | shutdown reason =>
      have differ : d ≠ c := other
      simp [noted, Session.answered, differ]
  | stream i abort => rfl

/-- A stream takes the same step before and after the note. -/
theorem noted_stream {j : ι} {e : Event Method Nat PeerEvent}
    (other : ¬ site.Owns c (.stream j e)) :
    (streamStep ((site.noted c code a s).streams j) e).map ((site.noted c code a s).moved j) =
      ((streamStep (s.streams j) e).map (s.moved j)).map (site.noted c code a) := by
  rw [Option.map_map]
  cases site with
  | shutdown reason => rfl
  | stream i abort =>
      by_cases same : j = i
      · subst same
        have apart : e.caller ≠ some c := fun own => other ⟨rfl, own⟩
        have here : (noted (.stream j abort) c code a s).streams j =
            (s.streams j).record c (abort.method code) (.ended a) := by
          simp [noted, Session.moved]
        rw [here, streamStep, step_recorded apart, Option.map_map]
        refine congrArg (fun f => Option.map f _) (funext fun t => ?_)
        simp [noted, Session.moved]
      · have there : (noted (.stream i abort) c code a s).streams j = s.streams j := by
          simp [noted, Session.moved, same]
        rw [there]
        refine congrArg (fun f => Option.map f _) (funext fun t => ?_)
        simp [noted, Session.moved, Function.update_comm same, Ne.symm same]

/-- A step that is not of the call commutes with the note. -/
theorem step_noted {e : SessionEvent ι} (other : ¬ site.Owns c e) :
    (site.noted c code a s).step e = (s.step e).map (site.noted c code a) := by
  cases e with
  | stream j f =>
      simp only [Session.step]
      split
      · rfl
      · exact noted_stream other
  | shutdown d k r =>
      simp only [Session.step, noted_shutdowns other, noted_link]
      split
      · rfl
      · rw [noted_answered other, noted_linked]
        rfl
  | lose cause =>
      simp only [Session.step, noted_link]
      split
      · rfl
      · rw [noted_linked]
        rfl

/-- So every run of the others goes as it would without the call. -/
theorem exec_noted (es : List (SessionEvent ι)) (others : ∀ e ∈ es, ¬ site.Owns c e) :
    exec Session.step (site.noted c code a s) es =
      (exec Session.step s es).map (site.noted c code a) :=
  exec_map Session.step es (fun e member _ => step_noted (others e member)) s

/-- A call that returned takes no step. -/
theorem step_owned {e : SessionEvent ι} (returned : site.Returned c s a) (own : site.Owns c e) :
    s.step e = none := by
  cases site with
  | shutdown reason =>
      cases e with
      | shutdown d k r =>
          cases own
          have known : s.shutdowns c = some a := returned
          simp [Session.step, known]
      | stream j f => cases own
      | lose cause => cases own
  | stream i abort =>
      cases e with
      | stream j f =>
          obtain ⟨rfl, caller⟩ := own
          obtain ⟨m, called⟩ := returned
          have stuck : streamStep (s.streams j) f = none := step_over called caller
          simp [Session.step, stuck]
      | shutdown d k r => cases own
      | lose cause => cases own

end Site

/-! ## A bad code -/

section BadCode

variable {ι : Type} [DecidableEq ι] {s t : Session ι} {site : Site ι} {c : CallId} {code : UInt64}

/-- What a call with a bad code makes of session `s`: it has returned an error, and nothing else
is different, now or later. -/
structure Refused (s t : Session ι) (site : Site ι) (c : CallId) (code : UInt64)
    (err : IrohError) : Prop where
  returned : site.Returned c t (.error err)
  waits : ¬ site.Queued c t
  link : t.link = s.link
  halves : ∀ i, (t.streams i).res = (s.streams i).res
  mutexes : ∀ i,
    (t.streams i).queue = (s.streams i).queue ∧ (t.streams i).taken = (s.streams i).taken
  /-- Later runs go as they would without the call, whose return is all that is added. -/
  later : ∀ es, (∀ e ∈ es, ¬ site.Owns c e) →
    exec Session.step t es = (exec Session.step s es).map (site.noted c code (.error err))
  /-- And the call has no part in any of them. -/
  spent : ∀ e, site.Owns c e → t.step e = none

/-- The note changes no half and no mutex. -/
theorem noted_streams (a : Result) (i : ι) :
    ((site.noted c code a s).streams i).res = (s.streams i).res ∧
      ((site.noted c code a s).streams i).queue = (s.streams i).queue ∧
      ((site.noted c code a s).streams i).taken = (s.streams i).taken := by
  cases site with
  | shutdown reason => exact ⟨rfl, rfl, rfl⟩
  | stream j abort =>
      by_cases same : i = j
      · subst same
        simp [Site.noted, Session.moved]
      · simp [Site.noted, Session.moved, same]

theorem noted_returned (a : Result) : site.Returned c (site.noted c code a s) a := by
  cases site with
  | shutdown reason => simp [Site.Returned, Site.noted, Session.answered]
  | stream i abort => simp [Site.Returned, Site.noted, Session.moved]

/-- A call with a bad code returns at once, in every state. -/
theorem bad_code_noted (unused : site.Unused c s) (bad : 2 ^ 62 ≤ code.toNat) :
    s.step (site.event c code) =
      some (site.noted c code (.error (IrohError.msg VarIntBoundsExceeded.exceeded)) s) := by
  cases site with
  | shutdown reason =>
      apply Session.step_shutdown_iff.mpr
      rw [shutdown_of_le bad]
      exact ⟨unused, (Session.linked_self _).symm⟩
  | stream i abort =>
      apply Session.step_stream_iff.mpr
      refine ⟨rfl, _, ?_, rfl⟩
      apply step_call_iff.mpr
      refine ⟨unused, .inl ⟨_, ?_, rfl⟩⟩
      rw [abort.method_of_le bad]
      rfl

/-- A name that is free is in no line. -/
theorem not_queued_of_unused (reached : Reachable Session.step Any Session.Fresh s)
    (unused : site.Unused c s) : ¬ site.Queued c s := by
  cases site with
  | shutdown reason => exact id
  | stream i abort =>
      rintro ⟨h, inLine⟩
      have wf : WellFormed discipline (s.streams i) :=
        wellFormed_reachable (Session.stream_reachable reached i)
      obtain ⟨m, ph, called, -⟩ := (wf.mem_queue h c).mp inLine
      have free : (s.streams i).calls c = none := unused
      rw [free] at called
      cases called

theorem noted_queued (a : Result) : site.Queued c (site.noted c code a s) ↔ site.Queued c s := by
  cases site with
  | shutdown reason => exact Iff.rfl
  | stream i abort =>
      show (∃ h, c ∈ ((Site.noted (.stream i abort) c code a s).streams i).queue h) ↔ _
      rw [(noted_streams a i).2.1]
      rfl

/-- **A bad code changes nothing.** In every reachable state, whoever holds a mutex. -/
theorem bad_code_refused (reached : Reachable Session.step Any Session.Fresh s)
    (unused : site.Unused c s) (bad : 2 ^ 62 ≤ code.toNat) :
    ∃ t err, s.step (site.event c code) = some t ∧ Refused s t site c code err := by
  refine ⟨_, IrohError.msg VarIntBoundsExceeded.exceeded, bad_code_noted unused bad, ?_⟩
  have returned : site.Returned c (site.noted c code _ s)
      (.error (IrohError.msg VarIntBoundsExceeded.exceeded)) := noted_returned _
  constructor
  · exact returned
  · rw [noted_queued]
    exact not_queued_of_unused reached unused
  · exact Site.noted_link
  · exact fun i => (noted_streams _ i).1
  · exact fun i => (noted_streams _ i).2
  · exact Site.exec_noted
  · exact fun e => Site.step_owned returned

end BadCode

/-! ## A valid code, as the library keeps it -/

/-- The environment resets no send half and stops no receive half: only this side does. -/
def KeepsCodes {E : Type} (env : Halves → E → Option Halves) : Prop :=
  ∀ r e r', env r e = some r' →
    r'.send.resetCode = r.send.resetCode ∧ r'.recv.stopCode = r.recv.stopCode

theorem peer_keepsCodes : KeepsCodes peer := by
  intro r e r' moved
  cases e with
  | grant n | lose cause =>
      cases moved
      exact ⟨rfl, rfl⟩
  | stopSending code | arrive data | fin | reset code =>
      simp only [peer, Option.ite_none_left_eq_some] at moved
      cases moved.2
      exact ⟨rfl, rfl⟩
  | ack =>
      simp only [peer, Option.ite_none_right_eq_some] at moved
      cases moved.2
      exact ⟨rfl, rfl⟩

/-- A code once set is not replaced. -/
structure CodesKept (r r' : Halves) : Prop where
  reset : ∀ k, r.send.resetCode = some k → r'.send.resetCode = some k
  stop : ∀ k, r.recv.stopCode = some k → r'.recv.stopCode = some k

section ValidCode

variable {E : Type} {env : Halves → E → Option Halves} {r r' : Halves} {m : Method}
  {ph : Phase Bytes Result} {p : Bytes} {x : Nat} {turn : StreamTurn}

theorem codesKept_work (worked : discipline.work r m p x = some (r', turn)) : CodesKept r r' := by
  rcases m with e | ⟨b, o | o⟩
  · cases worked
  · obtain ⟨v, turned, rfl⟩ := work_send.mp worked
    exact ⟨(SendStream.work_moved turned).reset, fun k => id⟩
  · obtain ⟨v, turned, rfl⟩ := work_recv.mp worked
    refine ⟨fun k => id, fun k known => ?_⟩
    obtain ⟨n, passed⟩ | ⟨code, unset, -⟩ := RecvStream.work_taken turned
    · exact passed.stopCode.trans known
    · rw [unset] at known
      cases known

theorem codesKept_change {callOk : Method → Prop} {envOk : E → Prop} (keeps : KeepsCodes env)
    (change : Change discipline env callOk envOk r r') : CodesKept r r' := by
  cases change with
  | work _ worked => exact codesKept_work worked
  | env _ moved =>
      obtain ⟨reset, stop⟩ := keeps _ _ _ moved
      exact ⟨fun k known => reset.trans known, fun k known => stop.trans known⟩

/-- A `reset` or `stop` that succeeded has left its code on its half. -/
structure Sets (r : Halves) (m : Method) (ph : Phase Bytes Result) : Prop where
  reset : ∀ b code a, m = .ok ⟨b, .send (.reset code)⟩ → ph = .ended (.ok a) →
    r.send.resetCode = some code
  stop : ∀ b code a, m = .ok ⟨b, .recv (.stop code)⟩ → ph = .ended (.ok a) →
    r.recv.stopCode = some code

/-- A call that has not succeeded has nothing to show. -/
theorem Sets.of_not_ended (unended : ∀ a, ph ≠ .ended (.ok a)) : Sets r m ph :=
  ⟨fun _ _ a _ ended => absurd ended (unended a), fun _ _ a _ ended => absurd ended (unended a)⟩

/-- The turn in which a call succeeds sets its code. -/
theorem sets_of_work (worked : discipline.work r m p x = some (r', turn)) :
    Sets r' m turn.phase := by
  constructor
  · rintro b code a rfl ended
    obtain ⟨v, turned, rfl⟩ := work_send.mp worked
    simp only [SendStream.work] at turned
    split at turned
    · cases turned
      cases ended
    · cases turned
      rfl
  · rintro b code a rfl ended
    obtain ⟨v, turned, rfl⟩ := work_recv.mp worked
    obtain ⟨-, -, rfl⟩ | ⟨-, -, rfl, rfl⟩ := RecvStream.work_stop turned
    · cases ended
    · rfl

/-- The codes set by the calls that succeeded. -/
def codeAccount (keeps : KeepsCodes env) : Account discipline env where
  callOk _ := True
  envOk _ := True
  inv _ := True
  tells := Sets
  keeps _ _ := trivial
  begins _ := .of_not_ended fun _ => nofun
  refused := by
    intro r m a _ refused
    constructor
    · rintro b code a rfl
      cases refused
    · rintro b code a rfl
      cases refused
  starts _ := .of_not_ended fun _ => nofun
  works _ _ worked _ := sets_of_work worked
  resolves := by
    intro r m a _ answer _
    constructor
    · rintro b code a rfl
      cases answer
    · rintro b code a rfl
      cases answer
  dropped _ := .of_not_ended fun _ => nofun
  lasts _ change sets :=
    have kept := codesKept_change keeps change
    ⟨fun b code a same ended => kept.reset _ (sets.reset b code a same ended),
      fun b code a same ended => kept.stop _ (sets.stop b code a same ended)⟩

variable {s : StreamState}

/-- In every reachable state, a call that succeeded has its code on its half. -/
theorem sets_reachable (keeps : KeepsCodes env)
    (reached : Reachable (step discipline env) Any State.Fresh s) {c : CallId}
    (called : s.calls c = some (m, ph)) : Sets s.res m ph := by
  have told := (codeAccount keeps).told_reachable (fun _ fresh => fresh) (fun _ _ => trivial)
    (reached.mono fun t e _ => Account.Ok.of_all (T := codeAccount keeps) (fun _ => trivial)
      (fun _ => trivial) t e)
  exact (told.calls c m ph called).2

/-- So has each of the four methods. -/
theorem code_of_ended (keeps : KeepsCodes env)
    (reached : Reachable (step discipline env) Any State.Fresh s) {code : VarInt} (abort : Abort)
    {c : CallId} {a : Answer}
    (called : s.calls c = some (abort.method code.value, .ended (.ok a))) :
    abort.code s.res = some code := by
  rw [abort.method_of_lt code.bound] at called
  have sets := sets_reachable keeps reached called
  cases abort with
  | streamReset | sendReset => exact sets.reset true code a rfl rfl
  | streamStop | recvStop => exact sets.stop true code a rfl rfl

end ValidCode

section Handing

variable {ι : Type} [DecidableEq ι]

/-- A valid code is handed to QUIC as it is: in the library call a stream method makes under the
mutex, on the half once that succeeded, and in the frame an open connection is closed with. -/
structure Handed (ι : Type) [DecidableEq ι] (code : VarInt) : Prop where
  request : ∀ abort : Abort, abort.method code.value = .ok ⟨true, abort.op code⟩
  kept : ∀ s : Session ι, Reachable Session.step Any Session.Fresh s →
    ∀ (i : ι) (abort : Abort) (c : CallId) (a : Answer),
      (s.streams i).calls c = some (abort.method code.value, .ended (.ok a)) →
        abort.code (s.streams i).res = some code
  closes : ∀ (s t : Session ι) (c : CallId) (reason : Bytes),
    s.step (.shutdown c code.value reason) = some t →
      t.shutdowns c = some (.ok .unit) ∧ t.link = s.link.close code reason ∧
        (s.link.lost = none → ∀ u, Via Session.step Any t u → u.link.frame = some (code, reason))

theorem valid_code_handed (code : VarInt) : Handed ι code where
  request := Abort.method_of_lt code.bound
  kept s reached i abort c a called :=
    code_of_ended peer_keepsCodes (Session.stream_reachable reached i) abort called
  closes s t c reason stepped := by
    obtain ⟨-, rfl⟩ := Session.step_shutdown_iff.mp stepped
    rw [shutdown_of_lt code.bound]
    refine ⟨by simp [Session.linked, Session.answered], rfl, fun open' u run => ?_⟩
    have frame : s.link.close code reason = ⟨some (code, reason), some .locallyClosed⟩ := by
      simp [Link.close, open']
    rw [show (⟨code.value, code.bound⟩ : VarInt) = code from rfl, frame] at run
    exact (Session.closedWith_via ⟨rfl, rfl⟩ run).1

end Handing

end Library

end IrohKmp.Runtime.Stream
