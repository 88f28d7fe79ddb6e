/-
# Theory.GuardedWaits — calls behind fair locks do not wait in a circle

A call in the line of a lock waits for every call in front of it, the holder first. As a call
stands in one line only, whom it waits for, directly or through others, is in front of it in
that line: waiting has no circle and never crosses from one lock to another.

* `WaitsFor` — the relation, on one lock; `Awaits`, on some lock;
* `WellFormed.awaits_line` — a chain of waiting stays on one line;
* `WellFormed.acyclic`, `WellFormed.led` — no circle, and at the end of each line a call that
  waits for no lock;
* `acquire_open`, `work_open` — when the call that holds the lock can go on.
-/
import IrohKmp.Theory.GuardedDrain
import Mathlib.Data.List.TakeWhile

namespace IrohKmp.Theory.Guarded

open IrohKmp.Theory.Run
open State

set_option autoImplicit false
set_option linter.unusedSectionVars false

variable {ι R M P A X E : Type} [DecidableEq ι]
variable {D : Discipline ι R M P A X} {env : R → E → Option R} {s t : State ι R M P A}

section Lines

variable {b c d : CallId} {line : List CallId}

theorem ne_of_mem_ahead (front : d ∈ ahead line c) : d ≠ c := by
  simpa using List.mem_takeWhile_imp front

/-- The calls in front of a call in front are in front. -/
theorem ahead_trans (front : d ∈ ahead line c) (further : b ∈ ahead line d) : b ∈ ahead line c := by
  induction line with
  | nil => cases front
  | cons e line ih =>
      by_cases first : e = c
      · subst first
        rw [ahead_cons_self] at front
        cases front
      · rw [ahead_cons_ne first] at front ⊢
        by_cases own : e = d
        · subst own
          rw [ahead_cons_self] at further
          cases further
        · rw [ahead_cons_ne own] at further
          rcases List.mem_cons.mp further with rfl | further
          · exact List.mem_cons_self
          · have front' : d ∈ ahead line c :=
              (List.mem_cons.mp front).resolve_left (Ne.symm own)
            exact List.mem_cons_of_mem _ (ih front' further)

/-- Behind the head of a line, the head is in front. -/
theorem head_mem_ahead (head : line.head? = some d) (differ : d ≠ c) : d ∈ ahead line c := by
  obtain ⟨rest, rfl⟩ := List.head?_eq_some_iff.mp head
  rw [ahead_cons_ne differ]
  exact List.mem_cons_self

end Lines

/-! ## Waiting for a call -/

/-- In the line of lock `i`, `c` has `d` in front of it. -/
def WaitsFor (s : State ι R M P A) (i : ι) (c d : CallId) : Prop :=
  c ∈ s.queue i ∧ d ∈ ahead (s.queue i) c

/-- `c` waits for `d`, on some lock. -/
def Awaits (s : State ι R M P A) (c d : CallId) : Prop := ∃ i, WaitsFor s i c d

namespace WellFormed

variable {c d : CallId} {m : M} {ph : Phase P A} {i : ι}

theorem mem_of_waits (waits : Waits s c i) : c ∈ s.queue i := List.mem_of_mem_tail waits

theorem mem_of_holds (holds : Holds s c i) : c ∈ s.queue i :=
  List.mem_of_mem_head? (by rw [show (s.queue i).head? = some c from holds]; rfl)

/-- A call that waits, waits for the holder. -/
theorem waitsFor_holder (wf : WellFormed D s) (waits : Waits s c i) (holds : Holds s d i) :
    WaitsFor s i c d := by
  refine ⟨mem_of_waits waits, head_mem_ahead holds ?_⟩
  rintro rfl
  exact wf.not_waits_of_holds holds waits

/-- **Waiting stays on one lock.** Whom a call waits for, through any number of others, is in
front of it in its own line. -/
theorem awaits_line (wf : WellFormed D s) (chain : Relation.TransGen (Awaits s) c d) :
    ∃ i, WaitsFor s i c d := by
  induction chain with
  | single waits => exact waits
  | tail _ waits ih =>
      obtain ⟨i, inLine, front⟩ := ih
      obtain ⟨j, inLine', front'⟩ := waits
      cases wf.one_line (mem_of_mem_ahead front) inLine'
      exact ⟨i, inLine, ahead_trans front front'⟩

/-- **No circle.** -/
theorem acyclic (wf : WellFormed D s) : ¬ Relation.TransGen (Awaits s) c c := by
  intro circle
  obtain ⟨i, -, front⟩ := wf.awaits_line circle
  exact ne_of_mem_ahead front rfl

/-- Where a call waits, another holds the lock and waits for none. -/
theorem led (wf : WellFormed D s) (waits : Waits s c i) :
    ∃ d, Holds s d i ∧ WaitsFor s i c d ∧ ∀ j, ¬ Waits s d j := by
  have inLine := mem_of_waits waits
  cases head : (s.queue i).head? with
  | none =>
      rw [List.head?_eq_none_iff.mp head] at inLine
      cases inLine
  | some d =>
      have holds : Holds s d i := head
      exact ⟨d, holds, wf.waitsFor_holder waits holds, fun j => wf.not_waits_of_holds holds⟩

/-- Who waits and whom it waits for asked for the same lock. -/
theorem awaits_routed (wf : WellFormed D s) (chain : Relation.TransGen (Awaits s) c d) :
    ∃ i m n ph q, s.calls c = some (m, ph) ∧ s.calls d = some (n, q) ∧ D.route m = .ok i ∧
      D.route n = .ok i := by
  obtain ⟨i, inLine, front⟩ := wf.awaits_line chain
  obtain ⟨m, ph, called, routed, -⟩ := (wf.mem_queue i c).mp inLine
  obtain ⟨n, q, called', routed', -⟩ := (wf.mem_queue i d).mp (mem_of_mem_ahead front)
  exact ⟨i, m, n, ph, q, called, called', routed, routed'⟩

/-- A call out of line holds and awaits no lock, and nobody waits for it. -/
theorem apart_of_out (wf : WellFormed D s) (called : s.calls c = some (m, ph))
    (out : ¬ ph.InLine) :
    (∀ j, ¬ Holds s c j ∧ ¬ Waits s c j) ∧ ∀ d, ¬ Awaits s d c ∧ ¬ Awaits s c d := by
  have absent : ∀ j, c ∉ s.queue j := fun j => wf.not_mem_queue called out
  refine ⟨fun j => ⟨fun holds => absent j (mem_of_holds holds),
    fun waits => absent j (mem_of_waits waits)⟩, fun d => ⟨?_, ?_⟩⟩
  · rintro ⟨j, -, front⟩
    exact absent j (mem_of_mem_ahead front)
  · rintro ⟨j, inLine, -⟩
    exact absent j inLine

end WellFormed

/-! ## What the holder needs -/

section Open

variable {c : CallId} {m : M} {p : P} {x : X} {i : ι}

/-- A lock that is a call's to take is taken, whatever else goes on. -/
theorem acquire_open (called : s.calls c = some (m, .waiting)) (routed : D.route m = .ok i)
    (holds : Holds s c i) : (step D env s (.acquire c)).isSome = true := by
  have stepped : step D env s (.acquire c) = some _ :=
    step_acquire_iff.mpr ⟨m, i, called, routed, holds, rfl⟩
  rw [stepped]
  rfl

/-- Under the guard, only the resource can keep a call from going on. -/
theorem work_open (called : s.calls c = some (m, .holding p)) :
    (step D env s (.work c x)).isSome = (D.work s.res m p x).isSome := by
  simp [step, called]

end Open

end IrohKmp.Theory.Guarded
