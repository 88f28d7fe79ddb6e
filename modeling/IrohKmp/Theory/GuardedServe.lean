/-
# Theory.GuardedServe — when a call in line can end on its own side

`Theory.GuardedDrain` follows the calls in front of a call that always has a last turn. Here the
call itself may need something of the resource: it can end without the environment exactly when
the calls in front of it and then the call itself can settle, one after the other.

* `workThrough` — what is left to do up to the end of a call, its own part included;
* `Settling.through_back` — no local step can make that work settle;
* `Settling.leaves_of_drains`, `ended_of_local` — it settles, and the call is over;
* `Settling.ends_iff` — the equivalence, in every well-formed state;
* `Metered`, `Metered.drains_iff` — work paid from a budget settles exactly when that is enough.
-/
import IrohKmp.Theory.GuardedDrain

namespace IrohKmp.Theory.Guarded

open IrohKmp.Theory.Run
open State

set_option autoImplicit false
set_option linter.unusedSectionVars false

variable {ι R M P A X E V : Type} [DecidableEq ι]
variable {D : Discipline ι R M P A X} {env : R → E → Option R} {s t : State ι R M P A}

/-- What is left to do until `c` is over. -/
def workThrough (D : Discipline ι R M P A X) (s : State ι R M P A) (i : ι) (c : CallId) :
    List (M × P) :=
  (ahead (s.queue i) c ++ [c]).filterMap (pending D s)

/-! ## A call that does not wait without its guard -/

section Ended

variable {c : CallId} {m : M} {ph : Phase P A} {i : ι}

/-- While only calls move, a call that never waits without its guard is in line, and then over. -/
theorem ended_of_local (stays : ∀ r p x r', D.work r m p x ≠ some (r', .detach))
    (called : s.calls c = some (m, ph)) (inLine : ph.InLine) (run : Via (step D env) Local s t) :
    ∃ ph', t.calls c = some (m, ph') ∧ (ph'.InLine ∨ ∃ a, ph' = .ended a) := by
  refine run.keeps (I := fun t : State ι R M P A => ∃ ph', t.calls c = some (m, ph') ∧
    (ph'.InLine ∨ ∃ a, ph' = .ended a)) ⟨ph, called, .inl inLine⟩ ?_
  rintro t e u ⟨ph', now, stands⟩ ok stepped
  have untouched : ∀ {d : CallId} {n : M} {q : Phase P A}, d ≠ c →
      u.calls = Function.update t.calls d (some (n, q)) →
      ∃ ph', u.calls c = some (m, ph') ∧ (ph'.InLine ∨ ∃ a, ph' = .ended a) := by
    intro d n q other same
    exact ⟨ph', by simp [same, Ne.symm other, now], stands⟩
  cases e with
  | env e => exact absurd ok id
  | cancel d => exact absurd ok id
  | call d n =>
      obtain ⟨new, moved⟩ := step_call_iff.mp stepped
      have other : d ≠ c := by
        rintro rfl
        rw [new] at now
        cases now
      obtain ⟨a, -, rfl⟩ | ⟨j, -, rfl⟩ := moved
      · exact untouched other rfl
      · exact untouched other rfl
  | acquire d =>
      obtain ⟨n, j, waiting, -, -, rfl⟩ := step_acquire_iff.mp stepped
      by_cases self : d = c
      · subst self
        rw [waiting] at now
        cases now
        exact ⟨.holding (D.start m), by simp, .inl trivial⟩
      · exact untouched self rfl
  | work d x =>
      obtain ⟨n, p, r, turn, holding, worked, rfl⟩ := step_work_iff.mp stepped
      by_cases self : d = c
      · subst self
        rw [holding] at now
        cases now
        refine ⟨turn.phase, by simp, ?_⟩
        cases turn with
        | keep p' => exact .inl trivial
        | finish a => exact .inr ⟨a, rfl⟩
        | detach => exact absurd worked (stays _ _ _ _)
      · exact untouched self turned_calls
  | resolve d =>
      obtain ⟨n, a, detached, -, rfl⟩ := step_resolve_iff.mp stepped
      by_cases self : d = c
      · subst self
        rw [detached] at now
        cases now
        obtain inLine | ⟨b, impossible⟩ := stands
        · exact absurd inLine id
        · cases impossible
      · exact untouched self rfl

end Ended

namespace Settling

variable {i : ι} {S : Settling D i V} {c d : CallId} {m n : M} {ph : Phase P A}

/-! ## No local step can make the work settle -/

/-- The same work is left on the same part of the resource. -/
theorem through_congr (drains : S.Drains (S.view t.res) (workThrough D t i c))
    (view : S.view t.res = S.view s.res) (queue : ahead (t.queue i) c = ahead (s.queue i) c)
    (same : ∀ d ∈ ahead (s.queue i) c ++ [c], pending D t d = pending D s d) :
    S.Drains (S.view s.res) (workThrough D s i c) := by
  have work : workThrough D t i c = workThrough D s i c := by
    unfold workThrough
    rw [queue]
    exact List.filterMap_congr same
  rwa [view, work] at drains

theorem mem_line (inLine : c ∈ s.queue i) (member : d ∈ ahead (s.queue i) c ++ [c]) :
    d ∈ s.queue i := by
  rcases List.mem_append.mp member with front | last
  · exact mem_of_mem_ahead front
  · rwa [List.mem_singleton.mp last]

/-- A call in line has something left to do. -/
theorem exists_pending (wf : WellFormed D s) (inLine : d ∈ s.queue i) :
    ∃ n p, pending D s d = some (n, p) := by
  obtain ⟨n, ph, called, -, stands⟩ := (wf.mem_queue i d).mp inLine
  refine ⟨n, ?_⟩
  rcases Phase.inLine_iff.mp stands with rfl | ⟨p, rfl⟩ <;> simp [pending, called]

/-- What is left behind the head up to `c` is what it was, if only the head has moved. -/
theorem pending_through {rest : List CallId} (nodup : (d :: rest).Nodup) (other : d ≠ c)
    (others : ∀ b, b ≠ d → t.calls b = s.calls b) :
    (ahead rest c ++ [c]).filterMap (pending D t) =
      (ahead rest c ++ [c]).filterMap (pending D s) := by
  have last : pending D t c = pending D s c := by simp only [pending, others c (Ne.symm other)]
  simp only [List.filterMap_append, pending_behind nodup others, List.filterMap_cons,
    List.filterMap_nil, last]

/-- A turn of the call itself. -/
theorem through_of_own (wf : WellFormed D s) {p : P} {x : X} {r : R} {turn : Turn P A}
    (called : s.calls c = some (n, .holding p)) (routed : D.route n = .ok i)
    (worked : D.work s.res n p x = some (r, turn))
    (drains : turn.phase.InLine →
      S.Drains (S.view r) (workThrough D (s.turned D c n r turn) i c)) :
    S.Drains (S.view s.res) (workThrough D s i c) := by
  obtain ⟨rest, line⟩ := List.head?_eq_some_iff.mp (wf.head i c n p called routed)
  have work : workThrough D s i c = [(n, p)] := by
    simp [workThrough, line, ahead_cons_self, pending, called]
  rw [work]
  by_cases out : turn.phase.InLine
  · cases turn with
    | keep p' =>
        have queue : (s.turned D c n r (.keep p')).queue i = c :: rest := line
        have after : workThrough D (s.turned D c n r (.keep p')) i c = [(n, p')] := by
          simp [workThrough, queue, ahead_cons_self, pending]
        have later := drains out
        rw [after] at later
        obtain ⟨v, settled, -⟩ := later
        exact ⟨v, S.more routed worked settled, trivial⟩
    | _ => exact absurd out id
  · exact ⟨S.view r, S.last routed worked out, trivial⟩

/-- A turn of a call in front. -/
theorem through_of_front (wf : WellFormed D s) {p : P} {x : X} {r : R} {turn : Turn P A}
    (called : s.calls d = some (n, .holding p)) (routed : D.route n = .ok i)
    (worked : D.work s.res n p x = some (r, turn)) (other : d ≠ c)
    (drains : S.Drains (S.view r) (workThrough D (s.turned D d n r turn) i c)) :
    S.Drains (S.view s.res) (workThrough D s i c) := by
  obtain ⟨rest, line⟩ := List.head?_eq_some_iff.mp (wf.head i d n p called routed)
  have nodup := wf.nodup i
  rw [line] at nodup
  -- what is behind the head keeps its calls
  have behind : (ahead rest c ++ [c]).filterMap (pending D (s.turned D d n r turn)) =
      (ahead rest c ++ [c]).filterMap (pending D s) :=
    pending_through nodup other fun b differ => by simp [differ]
  have work : workThrough D s i c = (n, p) :: (ahead rest c ++ [c]).filterMap (pending D s) := by
    simp [workThrough, line, ahead_cons_ne other, pending, called]
  rw [work]
  by_cases out : turn.phase.InLine
  · cases turn with
    | keep p' =>
        have queue : (s.turned D d n r (.keep p')).queue i = d :: rest := line
        have head : pending D (s.turned D d n r (.keep p')) d = some (n, p') := by simp [pending]
        have after : workThrough D (s.turned D d n r (.keep p')) i c =
            (n, p') :: (ahead rest c ++ [c]).filterMap (pending D s) := by
          rw [← behind, workThrough, queue, ahead_cons_ne other, List.cons_append,
            List.filterMap_cons_some head]
        rw [after] at drains
        obtain ⟨v, settled, remaining⟩ := drains
        exact ⟨v, S.more routed worked settled, remaining⟩
    | _ => exact absurd out id
  · have after : workThrough D (s.turned D d n r turn) i c =
        (ahead rest c ++ [c]).filterMap (pending D s) := by
      rw [← behind]
      simp [workThrough, turned_drop routed out, line]
    rw [after] at drains
    exact ⟨S.view r, S.last routed worked out, drains⟩

/-- No local step can make what is left up to the end of a call settle. -/
theorem through_back (wf : WellFormed D s) (e : Event M X E) (ok : Local s e)
    (stepped : step D env s e = some t) (inLine : c ∈ s.queue i)
    (drains : c ∈ t.queue i → S.Drains (S.view t.res) (workThrough D t i c)) :
    S.Drains (S.view s.res) (workThrough D s i c) := by
  cases e with
  | env e => exact absurd ok id
  | cancel d => exact absurd ok id
  | call d n =>
      obtain ⟨new, moved⟩ := step_call_iff.mp stepped
      have absent : ∀ b ∈ ahead (s.queue i) c ++ [c], b ≠ d := by
        rintro b member rfl
        obtain ⟨_, _, called, -⟩ := (wf.mem_queue i b).mp (mem_line inLine member)
        rw [new] at called
        cases called
      obtain ⟨a, -, rfl⟩ | ⟨j, -, rfl⟩ := moved
      · exact through_congr (drains inLine) rfl rfl
          fun b member => pending_record_ne (absent b member)
      · obtain ⟨more, queue⟩ : ∃ more,
            ((s.record d n .waiting).join j d).queue i = s.queue i ++ more := by
          by_cases same : i = j
          · subst same
            exact ⟨[d], by simp⟩
          · exact ⟨[], by simp [same]⟩
        have stays : c ∈ ((s.record d n .waiting).join j d).queue i := by
          rw [queue]
          exact List.mem_append_left _ inLine
        exact through_congr (drains stays) rfl (by rw [queue, ahead_append inLine])
          fun b member => pending_record_ne (absent b member)
  | acquire d =>
      obtain ⟨n, j, called, -, -, rfl⟩ := step_acquire_iff.mp stepped
      have same : ∀ b, pending D ((s.record d n (.holding (D.start n))).take j d) b =
          pending D s b := by
        intro b
        by_cases self : b = d
        · subst self
          simp [pending, called]
        · exact pending_record_ne self
      exact through_congr (drains inLine) rfl rfl fun b _ => same b
  | work d x =>
      obtain ⟨n, p, r, turn, called, worked, rfl⟩ := step_work_iff.mp stepped
      obtain ⟨j, routed⟩ := wf.routed d n _ called trivial
      by_cases own : j = i
      · subst own
        by_cases self : d = c
        · subst self
          refine through_of_own wf called routed worked fun keeps => ?_
          have stays : d ∈ (s.turned D d n r turn).queue j := by
            cases turn with
            | keep p' => exact inLine
            | _ => exact absurd keeps id
          simpa using drains stays
        · apply through_of_front wf called routed worked self
          simpa using drains (mem_turned_queue routed (wf.nodup j) inLine (Ne.symm self))
      · have queue : (s.turned D d n r turn).queue i = s.queue i :=
          turned_queue_ne routed (Ne.symm own)
        have elsewhere : ∀ b ∈ ahead (s.queue i) c ++ [c], b ≠ d := by
          rintro b member rfl
          obtain ⟨_, _, now, routed', -⟩ := (wf.mem_queue i b).mp (mem_line inLine member)
          rw [called] at now
          cases now
          rw [routed] at routed'
          cases routed'
          exact own rfl
        refine through_congr (drains (queue ▸ inLine)) ?_ (by rw [queue]) fun b member => ?_
        · rw [turned_res, S.apart routed own worked]
        · simp [pending, elsewhere b member]
  | resolve d =>
      obtain ⟨n, a, called, -, rfl⟩ := step_resolve_iff.mp stepped
      have elsewhere : ∀ b ∈ ahead (s.queue i) c ++ [c], b ≠ d := by
        rintro b member rfl
        exact wf.not_mem_queue called id (mem_line inLine member)
      exact through_congr (drains inLine) rfl rfl
        fun b member => pending_record_ne (elsewhere b member)

/-! ## Where it settles, it is done -/

/-- The calls in front are served one after the other, and then the call. -/
theorem leaves_of_drains (env : R → E → Option R) (front : List CallId) :
    ∀ {s : State ι R M P A}, WellFormed D s → c ∈ s.queue i → ahead (s.queue i) c = front →
    S.Drains (S.view s.res) (workThrough D s i c) →
    ∃ t, Via (step D env) Local s t ∧ WellFormed D t ∧ c ∉ t.queue i := by
  induction front with
  | nil =>
      intro s wf inLine none drains
      have head := head_of_ahead_eq_nil inLine none
      obtain ⟨n, p, work⟩ := exists_pending wf inLine
      have whole : workThrough D s i c = [(n, p)] := by simp [workThrough, none, work]
      rw [whole] at drains
      obtain ⟨v, settled, -⟩ := drains
      obtain ⟨t, served⟩ : ∃ t, Served S env s t c v := served_of_head wf head work settled
      refine ⟨t, served.run, served.wf, ?_⟩
      obtain ⟨rest, line⟩ := List.head?_eq_some_iff.mp head
      have nodup := wf.nodup i
      rw [line] at nodup
      rw [served.line, line]
      exact (List.nodup_cons.mp nodup).1
  | cons d front ih =>
      intro s wf inLine split drains
      obtain ⟨rest, line, other, behind⟩ := cons_of_ahead_eq_cons inLine split
      have nodup := wf.nodup i
      rw [line] at nodup
      obtain ⟨n, p, work⟩ : ∃ n p, pending D s d = some (n, p) :=
        exists_pending wf (i := i) (by simp [line])
      have whole : workThrough D s i c =
          (n, p) :: (ahead rest c ++ [c]).filterMap (pending D s) := by
        simp [workThrough, line, ahead_cons_ne other, work]
      rw [whole] at drains
      obtain ⟨v, settled, remaining⟩ := drains
      obtain ⟨t, served⟩ : ∃ t, Served S env s t d v :=
        served_of_head wf (by simp [line]) work settled
      have queue : t.queue i = rest := by
        rw [served.line, line]
        rfl
      have kept : workThrough D t i c = (ahead rest c ++ [c]).filterMap (pending D s) := by
        rw [workThrough, queue]
        exact pending_through nodup other served.others
      have member : c ∈ t.queue i := by
        rw [queue]
        simpa [line, Ne.symm other] using inLine
      obtain ⟨u, run, wf', gone⟩ := ih served.wf member (by rw [queue, behind])
        (by rw [served.view, kept]; exact remaining)
      exact ⟨u, served.run.trans run, wf', gone⟩

/-- **When a call ends on its own side.** In a well-formed state, a call that never waits without
its guard can end without the environment, and with no call cancelled, exactly when the calls in
front of it and then the call itself can settle one after the other. -/
theorem ends_iff (S : Settling D i V) (wf : WellFormed D s) (called : s.calls c = some (m, ph))
    (routed : D.route m = .ok i) (inLine : ph.InLine)
    (stays : ∀ r p x r', D.work r m p x ≠ some (r', .detach)) :
    CanReach (step D env) Local s (fun t => ∃ a, t.calls c = some (m, .ended a)) ↔
      S.Drains (S.view s.res) (workThrough D s i c) := by
  have queued : c ∈ s.queue i := (wf.mem_queue i c).mpr ⟨m, ph, called, routed, inLine⟩
  constructor
  · intro can
    have pulled := can.pull (I := WellFormed D)
      (G := fun t => c ∈ t.queue i → S.Drains (S.view t.res) (workThrough D t i c)) wf
      (fun _ e _ wf _ stepped => wellFormed_step e wf stepped) ?_ ?_
    · exact pulled queued
    · rintro t wf' ⟨a, ended⟩ member
      exact absurd member (wf'.not_mem_queue ended id)
    · intro t e u wf' ok stepped drains member
      exact through_back wf' e ok stepped member drains
  · intro drains
    obtain ⟨t, run, wf', gone⟩ := leaves_of_drains env _ wf queued rfl drains
    refine ⟨t, run, ?_⟩
    obtain ⟨ph', now, stands | ⟨a, rfl⟩⟩ := ended_of_local stays called inLine run
    · exact absurd ((wf'.mem_queue i c).mpr ⟨m, ph', now, routed, stands⟩) gone
    · exact ⟨a, now⟩

end Settling

/-! ## Work paid from a budget -/

/-- The work of a line is paid from a budget, unless the resource is free: then nothing waits, and
nothing will. Some work makes it free; which, is told by a flag that no paid work changes. -/
structure Metered {i : ι} (S : Settling D i V) (F : Type) where
  /-- The work that can stand in the line. -/
  Known : M × P → Prop
  free : V → Prop
  budget : V → Nat
  flag : V → F
  /-- The least the work can be paid with. -/
  cost : M × P → Nat
  shuts : F → M × P → Bool
  frees : ∀ {v w}, Known w → free v ∨ shuts (flag v) w = true →
    ∃ v', S.settles v w.1 w.2 v' ∧ free v'
  spends : ∀ {v v' w}, Known w → ¬ free v → shuts (flag v) w = false → S.settles v w.1 w.2 v' →
    cost w ≤ budget v ∧ budget v' ≤ budget v - cost w ∧ ¬ free v' ∧ flag v' = flag v
  affords : ∀ {v w}, Known w → ¬ free v → shuts (flag v) w = false → cost w ≤ budget v →
    ∃ v', S.settles v w.1 w.2 v' ∧ budget v' = budget v - cost w

namespace Metered

variable {i : ι} {S : Settling D i V} {F : Type} (B : Metered S F)

/-- What a line needs at least, up to the first work that makes the resource free. -/
def need (f : F) : List (M × P) → Nat
  | [] => 0
  | w :: rest => if B.shuts f w then 0 else B.cost w + need f rest

variable {B} {work : List (M × P)}

theorem drains_of_free {v : V} (known : ∀ w ∈ work, B.Known w) (free : B.free v) :
    S.Drains v work :=
  Settling.drains_of_forall (G := B.free)
    (fun w member _ free => B.frees (known w member) (.inl free)) free

/-- **A metered line drains** exactly when the resource is free, or has the budget. -/
theorem drains_iff (work : List (M × P)) (known : ∀ w ∈ work, B.Known w) :
    ∀ v : V, S.Drains v work ↔ B.free v ∨ B.need (B.flag v) work ≤ B.budget v := by
  induction work with
  | nil =>
      intro v
      exact iff_of_true trivial (.inr (Nat.zero_le _))
  | cons w rest ih =>
      intro v
      have first : B.Known w := known w List.mem_cons_self
      have others : ∀ w ∈ rest, B.Known w := fun w member => known w (List.mem_cons_of_mem _ member)
      by_cases free : B.free v
      · exact iff_of_true (drains_of_free known free) (.inl free)
      cases shuts : B.shuts (B.flag v) w with
      | true =>
          obtain ⟨v', settled, free'⟩ := B.frees first (.inr shuts)
          refine iff_of_true ⟨v', settled, drains_of_free others free'⟩ (.inr ?_)
          simp [need, shuts]
      | false =>
          have total : B.need (B.flag v) (w :: rest) = B.cost w + B.need (B.flag v) rest := by
            simp [need, shuts]
          rw [total]
          constructor
          · rintro ⟨v', settled, drains⟩
            obtain ⟨within, left, waits, same⟩ := B.spends first free shuts settled
            have later := ((ih others v').mp drains).resolve_left waits
            rw [same] at later
            exact .inr (by omega)
          · intro enough
            have paid := enough.resolve_left free
            obtain ⟨v', settled, left⟩ := B.affords first free shuts (by omega)
            obtain ⟨-, -, -, same⟩ := B.spends first free shuts settled
            refine ⟨v', settled, (ih others v').mpr (.inr ?_)⟩
            rw [same, left]
            omega

end Metered

end IrohKmp.Theory.Guarded
