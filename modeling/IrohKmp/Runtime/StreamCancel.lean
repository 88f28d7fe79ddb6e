/-
# Runtime.StreamCancel — a call dropped while it waits was never made

A Kotlin coroutine can be cancelled at any await, and the future of its call is dropped there.
While the call waits for the mutex of its half it has touched nothing but the line, so leaving it
out of the run leaves a run: the other calls take their mutexes in the same order, move the same
bytes and return the same. The same goes for a call that is still waiting, and for one refused
for its code.

* `Untouched` — the calls that had no turn under a mutex;
* `SameBut` — two states that differ in some calls and their places in line only;
* `untouched_forgotten`, for every run and every environment; `untouched_forgotten_dropped`.
-/
import IrohKmp.Runtime.StreamIntegrity
import IrohKmp.Theory.GuardedForget

namespace IrohKmp.Runtime.Stream

open IrohKmp.Kernel
open IrohKmp.Theory.Run
open IrohKmp.Theory.Guarded

set_option autoImplicit false
set_option linter.unusedSectionVars false

section Library

variable [Display StreamError] [Chunking] {E : Type} {env : Halves → E → Option Halves}
  {s s₀ : StreamState}

/-- The call never had the mutex of a half. -/
def Untouched (s : StreamState) (c : CallId) : Prop := ∀ h, c ∉ s.taken h

/-- The states differ in these calls, and in their places in line. -/
structure SameBut (gone : List CallId) (s t : StreamState) : Prop where
  res : t.res = s.res
  taken : t.taken = s.taken
  queue : ∀ h, t.queue h = (s.queue h).filter (· ∉ gone)
  calls : ∀ c, c ∉ gone → t.calls c = s.calls c
  unmade : ∀ c, c ∈ gone → t.calls c = none

/-- **Calls that never had a mutex were never made.** Take any run of calls on a stream object,
over any environment, and any of its calls that never had the mutex of their half. The rest of
the run is a run: it leaves the same halves, the same order at each mutex, and every other call
where it was, with the same answer. -/
theorem untouched_forgotten (fresh : s₀.Fresh) (es : List (Event Method Nat E))
    (done : exec (step discipline env) s₀ es = some s) (gone : List CallId)
    (untouched : ∀ c ∈ gone, Untouched s c) :
    ∃ t, exec (step discipline env) s₀ (withoutAll gone es) = some t ∧ SameBut gone s t := by
  have wf : WellFormed discipline s := wellFormed_reachable (.of_exec es fresh done)
  refine ⟨s.forgetAll gone, exec_forgetAll es fresh done gone untouched, ?_⟩
  constructor
  · exact forgetAll_res
  · exact forgetAll_taken
  · intro h
    exact forgetAll_queue (wf.nodup h)
  · intro c kept
    exact forgetAll_calls kept
  · intro c member
    exact forgetAll_gone member

end Library

/-! ## A write dropped behind another -/

section Example

local instance dropText : Display StreamError := ⟨fun _ => "stream error"⟩
local instance dropChunks : Chunking := ⟨fun v => v.buffer.length⟩

/-- Call 1 waits behind call 0, is dropped there, and call 2 goes next. -/
def dropped : List (Event Method Nat PeerEvent) :=
  [.call 0 (IrohStream.sendBytes [1]), .call 1 (IrohStream.sendBytes [2, 2]), .acquire 0,
    .call 2 (IrohStream.sendBytes [3]), .work 0 1, .cancel 1, .work 0 0, .acquire 2, .work 2 1]

theorem dropped_runs : ((exec (step discipline peer) (State.idle (Halves.opened 9)) dropped).any
    fun s => decide (s.taken .send = [0, 2] ∧ s.taken .recv = [] ∧
      s.res.send.written = [1, 3])) = true := by decide

theorem untouched_forgotten_dropped : ∃ s t : StreamState, s.res.send.written = [1, 3] ∧
    exec (step discipline peer) (State.idle (Halves.opened 9)) (withoutAll [1] dropped) = some t ∧
    SameBut [1] s t := by
  obtain ⟨s, done, found⟩ := (Option.any_eq_true _ _).mp dropped_runs
  obtain ⟨sends, reads, written⟩ := of_decide_eq_true found
  have untouched : ∀ c ∈ [1], Untouched s c := by
    intro c member h
    rw [List.mem_singleton.mp member]
    cases h with
    | send => simp [sends]
    | recv => simp [reads]
  obtain ⟨t, rest, same⟩ := untouched_forgotten (State.idle_fresh _) dropped done [1] untouched
  exact ⟨s, t, written, rest, same⟩

end Example

end IrohKmp.Runtime.Stream
