/-
# Runtime.StreamDeadlock — the calls on a stream object cannot deadlock on each other

Every method asks for the mutex of one half, once, and holds no other while it waits for it. So
whoever waits for a mutex waits for calls on the same half, and at the head of the line stands
a call that waits for no mutex: it can take the mutex, or goes on as soon as its half lets it.
`stopped` has a turn under the guard at once, and drops it there; it waits for the peer with no
mutex. (`rtt_ms` asks for no mutex and is no call here.)

* `Operates` — the half a call works on;
* `DeadlockFree`, `deadlock_free` — in every reachable state, whatever the peer does and
  whichever calls fail or are cancelled; `deadlock_free_duplex`, a read and a write at once.
-/
import IrohKmp.Runtime.Stream
import IrohKmp.Theory.GuardedCalls
import IrohKmp.Theory.GuardedWaits

namespace IrohKmp.Runtime.Stream

open IrohKmp.Kernel
open IrohKmp.Theory.Run
open IrohKmp.Theory.Guarded

set_option autoImplicit false
set_option linter.unusedSectionVars false

section Library

variable [Display StreamError] [Chunking]

/-- The library call of the method is one on half `h`. -/
def Operates (h : Half) (m : Method) : Prop := ∃ q : Request, m = .ok q ∧ q.op.half = h

theorem route_iff_operates {h : Half} {m : Method} :
    discipline.route m = .ok h ↔ Operates h m := by
  cases m with
  | error e => simp [discipline, Operates]
  | ok q => simp [discipline, Operates]

/-- The method waits without the mutex: its library call is `stopped`. -/
def Detaches (m : Method) : Prop := ∃ b, m = .ok ⟨b, .send .stopped⟩

/-- A read or a `stop` keeps the mutex until it returns. -/
theorem RecvStream.not_detach_of_work {v v' : RecvStream} {o : RecvOp} {p : Bytes} {x : Nat}
    (worked : v.work o p x = some (v', .detach)) : False := by
  have answered : ∀ {ordered : Bool} {atEnd : StreamTurn} {err : ReadError → StreamError},
      atEnd ≠ .detach → ¬ v.EndsRead ordered atEnd err v' .detach := by
    intro ordered atEnd err stays ends
    obtain same | ⟨e, same⟩ := ends.ended_or_failed
    · exact stays same.symm
    · cases same
  cases o with
  | read max =>
      obtain ⟨-, -, turn⟩ | ⟨-, ends⟩ | ⟨-, -, -, -, turn⟩ := work_read worked
      · cases turn
      · exact answered (by simp [answers]) ends
      · cases turn
  | readExact n =>
      obtain ⟨-, -, turn⟩ | ⟨-, ends⟩ | ⟨k, -, -, -, -, -, turn⟩ := work_readExact worked
      · cases turn
      · exact answered (by simp [fails]) ends
      · cases turn
  | readToEnd max =>
      obtain ⟨ends, -⟩ | ⟨-, -, -, turn⟩ | ⟨-, -, -, -, ⟨-, turn⟩ | ⟨-, turn⟩⟩ :=
        work_readToEnd worked
      · exact answered (by simp [answers]) ends
      · cases turn
      · cases turn
      · cases turn
  | stop code => obtain ⟨-, -, turn⟩ | ⟨-, -, -, turn⟩ := work_stop worked <;> cases turn
  | id => cases worked

/-- Only `stopped` lets go of the mutex before it returns. -/
theorem detaches_of_work {r r' : Halves} {m : Method} {p : Bytes} {x : Nat}
    (worked : discipline.work r m p x = some (r', .detach)) : Detaches m := by
  rcases m with e | ⟨b, o | o⟩
  · cases worked
  · obtain ⟨v, turned, -⟩ := work_send.mp worked
    cases o with
    | stopped => exact ⟨b, rfl⟩
    | writeAll data =>
        obtain ⟨-, -, turn⟩ | ⟨e, -, -, turn⟩ | ⟨n, -, -, -, -, turn, -⟩ :=
          SendStream.work_writeAll turned <;> cases turn
    | finish =>
        obtain ⟨-, -, turn⟩ | ⟨-, -, turn⟩ | ⟨-, -, -, turn⟩ := SendStream.work_finish turned <;>
          cases turn
    | reset | setPriority | priority =>
        simp only [SendStream.work] at turned
        split at turned <;> cases turned
    | id => cases turned
  · obtain ⟨v, turned, -⟩ := work_recv.mp worked
    exact absurd turned RecvStream.not_detach_of_work

/-! ## No call waits without the mutex but `stopped` -/

section Calls

variable {E : Type} {env : Halves → E → Option Halves}

/-- A call that waits without the mutex is a `stopped`. -/
def detachedAccount (env : Halves → E → Option Halves) : Account discipline env where
  callOk _ := True
  envOk _ := True
  inv _ := True
  tells _ m ph := ph = .detached → Detaches m
  keeps _ _ := trivial
  begins _ waits := by cases waits
  refused _ _ waits := by cases waits
  starts _ waits := by cases waits
  works := by
    intro r m p x r' turn _ _ worked _ waits
    cases turn with
    | detach => exact detaches_of_work worked
    | _ => cases waits
  resolves _ _ _ waits := by cases waits
  dropped _ waits := by cases waits
  lasts _ _ told := told

variable {s : StreamState}

theorem detaches_of_detached (reached : Reachable (step discipline env) Any State.Fresh s)
    {c : CallId} {m : Method} (called : s.calls c = some (m, .detached)) : Detaches m := by
  have admitted : ∀ (t : StreamState) (e : Event Method Nat E), Any t e →
      Account.Ok (detachedAccount env) t e :=
    fun t e _ => .of_all (fun _ => trivial) (fun _ => trivial) t e
  have told := (detachedAccount env).told_reachable (fun _ fresh => fresh)
    (fun _ _ => trivial) (reached.mono admitted)
  exact (told.calls c m _ called).2 rfl

/-- `stopped` has a turn under the guard at once, and lets go of the mutex in it. -/
theorem stopped_lets_go {c : CallId} {m : Method} {p : Bytes} (x : Nat) (detaches : Detaches m)
    (called : s.calls c = some (m, .holding p)) :
    ∃ t, step discipline env s (.work c x) = some t ∧ t.calls c = some (m, .detached) := by
  obtain ⟨b, rfl⟩ := detaches
  have worked : discipline.work s.res (.ok ⟨b, .send .stopped⟩) p x =
      some ({ s.res with send := s.res.send }, .detach) := work_send.mpr ⟨s.res.send, rfl, rfl⟩
  exact ⟨_, step_work_iff.mpr ⟨_, p, _, .detach, called, worked, rfl⟩, by simp⟩

/-! ## No deadlock -/

/-- What the mutexes of a stream object are like in a state. -/
structure DeadlockFree (env : Halves → E → Option Halves) (s : StreamState) : Prop where
  /-- One call at most holds a half's mutex, -/
  exclusive : ∀ h c d, Holds s c h → Holds s d h → c = d
  /-- and a call works on a half only while it holds the mutex. -/
  guarded : ∀ c m p h, s.calls c = some (m, .holding p) → Operates h m → Holds s c h
  ended : ∀ c m ph, s.calls c = some (m, ph) → ¬ ph.Live → ∀ h, ¬ Holds s c h ∧ ¬ Waits s c h
  holders : ∀ c h h', Holds s c h → ¬ Waits s c h'
  acyclic : ∀ c, ¬ Relation.TransGen (Awaits s) c c
  /-- At the head of every line stands a call that waits for no mutex. -/
  led : ∀ c h, Waits s c h → ∃ d, Holds s d h ∧ WaitsFor s h c d ∧ ∀ h', ¬ Waits s d h'
  /-- Whoever waits, waits only for calls on its own half, directly and through others. -/
  sameHalf : ∀ c d, Relation.TransGen (Awaits s) c d → ∃ h m n ph q, s.calls c = some (m, ph) ∧
    s.calls d = some (n, q) ∧ Operates h m ∧ Operates h n
  /-- Nothing but the line keeps a call from its mutex, and nothing but its half from going on. -/
  acquires : ∀ c m h, s.calls c = some (m, .waiting) → Operates h m → Holds s c h →
    (step discipline env s (.acquire c)).isSome = true
  sends : ∀ c b o p x, s.calls c = some (.ok ⟨b, .send o⟩, .holding p) →
    (step discipline env s (.work c x)).isSome = (s.res.send.work o p x).isSome
  receives : ∀ c b o p x, s.calls c = some (.ok ⟨b, .recv o⟩, .holding p) →
    (step discipline env s (.work c x)).isSome = (s.res.recv.work o p x).isSome
  /-- A call that waits for the peer without the mutex is a `stopped`, and in nobody's way. -/
  stopped : ∀ c m, s.calls c = some (m, .detached) → Detaches m ∧
    (∀ h, ¬ Holds s c h ∧ ¬ Waits s c h) ∧ ∀ d, ¬ Awaits s d c
  letsGo : ∀ c m p x, s.calls c = some (m, .holding p) → Detaches m →
    ∃ t, step discipline env s (.work c x) = some t ∧ t.calls c = some (m, .detached)

/-- **Stream calls cannot deadlock on each other.** In every reachable state of any calls on a
stream object, and whatever the environment does. -/
theorem deadlock_free (reached : Reachable (step discipline env) Any State.Fresh s) :
    DeadlockFree env s := by
  have wf : WellFormed discipline s := wellFormed_reachable reached
  constructor
  · intro h c d
    exact holder_unique
  · intro c m p h called operates
    exact wf.head h c m p called (route_iff_operates.mpr operates)
  · intro c m ph called answered
    have out : ¬ ph.InLine := by cases ph <;> simp_all [Phase.Live]
    exact (wf.apart_of_out called out).1
  · intro c h h' holds
    exact wf.not_waits_of_holds holds
  · intro c
    exact wf.acyclic
  · intro c h waits
    exact wf.led waits
  · intro c d chain
    obtain ⟨h, m, n, ph, q, called, called', routed, routed'⟩ := wf.awaits_routed chain
    exact ⟨h, m, n, ph, q, called, called', route_iff_operates.mp routed,
      route_iff_operates.mp routed'⟩
  · intro c m h called operates holds
    exact acquire_open called (route_iff_operates.mpr operates) holds
  · intro c b o p x called
    rw [work_open called]
    exact Option.isSome_map
  · intro c b o p x called
    rw [work_open called]
    exact Option.isSome_map
  · intro c m called
    obtain ⟨free, apart⟩ := wf.apart_of_out called id
    exact ⟨detaches_of_detached reached called, free, fun d => (apart d).1⟩
  · intro c m p x called detaches
    exact stopped_lets_go x detaches called

end Calls

end Library

/-! ## A read and a write at once -/

section Example

local instance duplexText : Display StreamError := ⟨fun _ => "stream error"⟩
local instance duplexChunks : Chunking := ⟨fun v => v.buffer.length⟩

/-- A `recv` waits for data and a write for credit; `finish` waits for the write. -/
def duplex : StreamState :=
  let idle : StreamState := State.idle (Halves.opened 0)
  let read := IrohStream.recv 4
  let write := IrohStream.sendBytes [1]
  let reading := (((idle.record 0 read .waiting).join .recv 0).record 0 read
    (.holding [])).take .recv 0
  let writing := (((reading.record 1 write .waiting).join .send 1).record 1 write
    (.holding [1])).take .send 1
  (writing.record 2 IrohStream.finish .waiting).join .send 2

theorem duplex_reachable : Reachable (step discipline peer) Any State.Fresh duplex :=
  .of_exec [.call 0 (IrohStream.recv 4), .acquire 0, .call 1 (IrohStream.sendBytes [1]), .acquire 1,
    .call 2 IrohStream.finish] (State.idle_fresh (Halves.opened 0)) rfl

theorem deadlock_free_duplex :
    DeadlockFree peer duplex ∧ Holds duplex 0 .recv ∧ Holds duplex 1 .send ∧ Waits duplex 2 .send :=
  ⟨deadlock_free duplex_reachable, rfl, rfl, by simp [Waits, duplex, State.idle]⟩

end Example

end IrohKmp.Runtime.Stream
