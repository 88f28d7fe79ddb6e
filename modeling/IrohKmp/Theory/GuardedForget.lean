/-
# Theory.GuardedForget — a call that never got its lock was never made

A call that waits in line, is cancelled there, or is answered before it asks, takes a place in
line and nothing else. Leaving it out of a run leaves out its steps only: every other step is
still possible, and leads to the same resource, histories and calls.

* `State.forget` — the state without a call;
* `forget_step`, `forget_own` — the steps of the others, and the steps of the call;
* `exec_forget`, `exec_forgetAll` — the run without the call, and without any number of them.
-/
import IrohKmp.Theory.GuardedSequence

namespace IrohKmp.Theory.Guarded

open IrohKmp.Theory.Run
open State

set_option autoImplicit false
set_option linter.unusedSectionVars false

variable {ι R M P A X E : Type} [DecidableEq ι]
variable {D : Discipline ι R M P A X} {env : R → E → Option R} {s t : State ι R M P A}

/-- The state as if call `c` had not been made. -/
def State.forget (s : State ι R M P A) (c : CallId) : State ι R M P A :=
  { s with queue := fun i => (s.queue i).erase c, calls := Function.update s.calls c none }

section Parts

variable {c d : CallId} {m : M} {ph : Phase P A} {i : ι} {r : R} {turn : Turn P A}

@[simp] theorem forget_self : (s.forget c).calls c = none := Function.update_self _ _ _

theorem forget_calls (other : d ≠ c) : (s.forget c).calls d = s.calls d :=
  Function.update_of_ne other _ _

theorem forget_record (other : d ≠ c) :
    (s.record d m ph).forget c = (s.forget c).record d m ph := by
  simp only [State.forget, State.record, Function.update_comm other]

theorem forget_record_self : (s.record c m ph).forget c = s.forget c := by
  simp only [State.forget, State.record, Function.update_idem]

theorem forget_take : (s.take i d).forget c = (s.forget c).take i d := rfl

theorem erase_concat {line : List CallId} (other : d ≠ c) :
    (line ++ [d]).erase c = line.erase c ++ [d] := by
  by_cases member : c ∈ line
  · rw [List.erase_append_left _ member]
  · have absent : c ∉ line ++ [d] := by simp [member, Ne.symm other]
    rw [List.erase_of_not_mem absent, List.erase_of_not_mem member]

theorem forget_join (other : d ≠ c) : (s.join i d).forget c = (s.forget c).join i d := by
  simp only [State.forget, State.join, State.mk.injEq, true_and, and_true]
  funext j
  by_cases same : j = i
  · subst same
    simp [erase_concat other]
  · simp [same]

theorem forget_leave : (s.leave i d).forget c = (s.forget c).leave i d := by
  simp only [State.forget, State.leave, State.mk.injEq, true_and, and_true]
  funext j
  by_cases same : j = i
  · subst same
    simpa using List.erase_comm (l := s.queue j) (a := d) (b := c)
  · simp [same]

theorem forget_unlock : (s.unlock D d m).forget c = (s.forget c).unlock D d m := by
  unfold State.unlock
  split
  · exact forget_leave
  · rfl

theorem forget_turned (other : d ≠ c) :
    (s.turned D d m r turn).forget c = (s.forget c).turned D d m r turn := by
  have moved : ({ s with res := r }.record d m turn.phase).forget c =
      ({ s.forget c with res := r } : State ι R M P A).record d m turn.phase :=
    forget_record (s := { s with res := r }) other
  cases turn with
  | keep p => exact moved
  | finish a => exact forget_unlock.trans (congrArg (State.unlock D · d m) moved)
  | detach => exact forget_unlock.trans (congrArg (State.unlock D · d m) moved)

/-- The head of a line is its head without another call. -/
theorem head_erase {line : List CallId} (other : d ≠ c) (head : line.head? = some d) :
    (line.erase c).head? = some d := by
  cases line with
  | nil => cases head
  | cons b rest =>
      cases head
      simp [other]

end Parts

/-! ## The steps of the others -/

/-- The others can do without the call what they did with it. -/
theorem forget_step {e : Event M X E} {c : CallId} (other : e.caller ≠ some c)
    (stepped : step D env s e = some t) : step D env (s.forget c) e = some (t.forget c) := by
  have apart : ∀ {d : CallId}, e.caller = some d → d ≠ c := by
    rintro d known rfl
    exact other known
  cases e with
  | call d m =>
      have differ : d ≠ c := apart rfl
      obtain ⟨new, ⟨a, refused, rfl⟩ | ⟨i, routed, rfl⟩⟩ := step_call_iff.mp stepped
      · exact step_call_iff.mpr ⟨(forget_calls differ).trans new,
          .inl ⟨a, refused, forget_record differ⟩⟩
      · refine step_call_iff.mpr ⟨(forget_calls differ).trans new, .inr ⟨i, routed, ?_⟩⟩
        rw [forget_join differ, forget_record differ]
  | acquire d =>
      have differ : d ≠ c := apart rfl
      obtain ⟨m, i, called, routed, head, rfl⟩ := step_acquire_iff.mp stepped
      refine step_acquire_iff.mpr ⟨m, i, (forget_calls differ).trans called, routed,
        head_erase differ head, ?_⟩
      rw [forget_take, forget_record differ]
  | work d x =>
      have differ : d ≠ c := apart rfl
      obtain ⟨m, p, r, turn, called, worked, rfl⟩ := step_work_iff.mp stepped
      exact step_work_iff.mpr ⟨m, p, r, turn, (forget_calls differ).trans called, worked,
        forget_turned differ⟩
  | resolve d =>
      have differ : d ≠ c := apart rfl
      obtain ⟨m, a, called, answer, rfl⟩ := step_resolve_iff.mp stepped
      exact step_resolve_iff.mpr ⟨m, a, (forget_calls differ).trans called, answer,
        forget_record differ⟩
  | cancel d =>
      have differ : d ≠ c := apart rfl
      obtain ⟨m, ph, called, live, droppable, rfl⟩ := step_cancel_iff.mp stepped
      refine step_cancel_iff.mpr ⟨m, ph, (forget_calls differ).trans called, live, droppable, ?_⟩
      rw [forget_unlock, forget_record differ]
  | env e =>
      obtain ⟨r, moved, rfl⟩ := step_env_iff.mp stepped
      exact step_env_iff.mpr ⟨r, moved, rfl⟩

/-! ## The steps of the call -/

/-- While the call has taken no lock, its own steps leave the others as they were. -/
theorem forget_own {e : Event M X E} {c : CallId} (seq : Sequenced D s)
    (own : e.caller = some c) (untaken : ∀ i, c ∉ t.taken i)
    (stepped : step D env s e = some t) : t.forget c = s.forget c := by
  have line : ∀ {m : M} {ph : Phase P A} {i : ι}, s.calls c = some (m, ph) →
      D.route m = .ok i → ph ≠ .waiting → ph ≠ .cancelled → c ∈ t.taken i := by
    intro m ph i called routed waits cancelled
    exact (taken_step stepped i).subset (seq.ord.mem i c m ph called routed waits cancelled)
  cases e with
  | env e => cases own
  | call d m =>
      cases own
      obtain ⟨new, ⟨a, -, rfl⟩ | ⟨i, -, rfl⟩⟩ := step_call_iff.mp stepped
      · exact forget_record_self
      · have absent : ∀ j, c ∉ s.queue j := by
          intro j member
          obtain ⟨_, _, called, -⟩ := (seq.wf.mem_queue j c).mp member
          rw [new] at called
          cases called
        have forgotten : (s.record c m .waiting).forget c = s.forget c := forget_record_self
        rw [← forgotten]
        simp only [State.forget, State.join, record_queue, record_calls, State.mk.injEq, record_res,
          record_taken, true_and, and_true]
        funext j
        by_cases same : j = i
        · subst same
          simp [List.erase_append_right _ (absent j), List.erase_of_not_mem (absent j)]
        · simp [same]
  | acquire d =>
      cases own
      obtain ⟨m, i, -, -, -, rfl⟩ := step_acquire_iff.mp stepped
      exact absurd (by simp) (untaken i)
  | work d x =>
      cases own
      obtain ⟨m, p, r, turn, called, -, -⟩ := step_work_iff.mp stepped
      obtain ⟨i, routed⟩ := seq.wf.routed c m _ called trivial
      exact absurd (line called routed (by simp) (by simp)) (untaken i)
  | resolve d =>
      cases own
      obtain ⟨m, a, called, -, -⟩ := step_resolve_iff.mp stepped
      obtain ⟨i, routed⟩ := seq.wf.routed c m _ called trivial
      exact absurd (line called routed (by simp) (by simp)) (untaken i)
  | cancel d =>
      cases own
      obtain ⟨m, ph, called, live, -, rfl⟩ := step_cancel_iff.mp stepped
      obtain ⟨i, routed⟩ := seq.wf.routed c m _ called live
      rw [unlock_of_ok routed, forget_leave, forget_record_self]
      simp only [State.forget, State.leave, State.mk.injEq, true_and, and_true]
      funext j
      by_cases same : j = i
      · subst same
        simp [List.erase_of_not_mem (seq.wf.nodup j).not_mem_erase]
      · simp [same]

/-! ## The run without the call -/

/-- The events of a run that are not the call's. -/
def without (c : CallId) (es : List (Event M X E)) : List (Event M X E) :=
  es.filter fun e => e.caller ≠ some c

/-- **A call that never got a lock was never made**: the run without it is a run, and leaves the
same state without it. -/
theorem exec_forget {c : CallId} (es : List (Event M X E)) {s t : State ι R M P A}
    (seq : Sequenced D s) (done : exec (step D env) s es = some t)
    (untaken : ∀ i, c ∉ t.taken i) :
    exec (step D env) (s.forget c) (without c es) = some (t.forget c) := by
  induction es generalizing s with
  | nil =>
      cases done
      rfl
  | cons e es ih =>
      obtain ⟨u, first, rest⟩ := Option.bind_eq_some_iff.mp done
      have run : Via (step D env) Any u t :=
        .of_stepwise rest (.of_forall (fun _ _ _ => trivial) u)
      have early : ∀ i, c ∉ u.taken i := fun i member =>
        untaken i ((taken_via run i).subset member)
      have later := ih (sequenced_step e seq first) rest
      by_cases own : e.caller = some c
      · have same : u.forget c = s.forget c := forget_own seq own early first
        rw [without, List.filter_cons_of_neg (by simpa using own), ← same]
        exact later
      · rw [without, List.filter_cons_of_pos (by simpa using own), exec_cons,
          forget_step own first]
        exact later

/-! ## The run without several calls -/

/-- The state as if none of the calls had been made. -/
def State.forgetAll (s : State ι R M P A) : List CallId → State ι R M P A
  | [] => s
  | c :: gone => (s.forgetAll gone).forget c

theorem forget_fresh (fresh : s.Fresh) (c : CallId) : s.forget c = s := by
  obtain ⟨queues, calls, -⟩ := fresh
  have unmade : Function.update s.calls c none = s.calls := by
    rw [← calls c, Function.update_eq_self]
  have lines : (fun i => (s.queue i).erase c) = s.queue := by
    funext i
    simp [queues i]
  simp only [State.forget, unmade, lines]

section All

variable {gone : List CallId} {c : CallId}

theorem forgetAll_res : (s.forgetAll gone).res = s.res := by
  induction gone with
  | nil => rfl
  | cons c gone ih => exact ih

theorem forgetAll_taken : (s.forgetAll gone).taken = s.taken := by
  induction gone with
  | nil => rfl
  | cons c gone ih => exact ih

theorem forgetAll_calls (kept : c ∉ gone) : (s.forgetAll gone).calls c = s.calls c := by
  induction gone with
  | nil => rfl
  | cons d gone ih =>
      rw [List.mem_cons, not_or] at kept
      exact (forget_calls kept.1).trans (ih kept.2)

theorem forgetAll_gone (member : c ∈ gone) : (s.forgetAll gone).calls c = none := by
  induction gone with
  | nil => cases member
  | cons d gone ih =>
      by_cases same : c = d
      · subst same
        exact forget_self
      · exact (forget_calls same).trans (ih ((List.mem_cons.mp member).resolve_left same))

/-- In a line without repetitions, who is left keeps the order. -/
theorem forgetAll_queue {i : ι} (nodup : (s.queue i).Nodup) :
    (s.forgetAll gone).queue i = (s.queue i).filter (· ∉ gone) := by
  induction gone with
  | nil => simp [State.forgetAll]
  | cons d gone ih =>
      show ((s.forgetAll gone).queue i).erase d = _
      rw [ih, (nodup.filter _).erase_eq_filter, List.filter_filter]
      apply List.filter_congr
      intro c _
      by_cases same : c = d
      · simp [same]
      · simp [same]

end All

/-- The events of a run that belong to none of the calls. -/
def withoutAll (gone : List CallId) (es : List (Event M X E)) : List (Event M X E) :=
  es.filter fun e => ∀ c ∈ gone, e.caller ≠ some c

theorem withoutAll_cons (c : CallId) (gone : List CallId) (es : List (Event M X E)) :
    withoutAll (c :: gone) es = without c (withoutAll gone es) := by
  simp only [withoutAll, without, List.filter_filter]
  apply List.filter_congr
  intro e _
  simp

/-- **The calls that never got a lock were never made**, in a run from the start. -/
theorem exec_forgetAll (es : List (Event M X E)) (fresh : s.Fresh)
    (done : exec (step D env) s es = some t) (gone : List CallId)
    (untaken : ∀ c ∈ gone, ∀ i, c ∉ t.taken i) :
    exec (step D env) s (withoutAll gone es) = some (t.forgetAll gone) := by
  induction gone with
  | nil =>
      have all : withoutAll [] es = es := by simp [withoutAll]
      rw [all]
      exact done
  | cons c gone ih =>
      have rest := ih fun d member => untaken d (List.mem_cons_of_mem c member)
      have never : ∀ i, c ∉ (t.forgetAll gone).taken i := by
        rw [forgetAll_taken]
        exact untaken c List.mem_cons_self
      have once := exec_forget (c := c) _ (sequenced_fresh fresh) rest never
      rw [forget_fresh fresh, ← withoutAll_cons] at once
      exact once

end IrohKmp.Theory.Guarded
