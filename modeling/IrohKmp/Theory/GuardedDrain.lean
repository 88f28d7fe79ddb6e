/-
# Theory.GuardedDrain — when a call in line can complete on its own side

A call that waits for a fair lock completes without the environment exactly when every
call ahead of it can, one after the other, on what the resource already has.

* `Local` — steps of the calls themselves: no environment, no cancellation;
* `Settling` — for the calls on one lock, which states of their part of the resource each
  of them can leave behind, and that its turns get there;
* `Drains` — the calls ahead can settle in turn;
* `Settling.completes_iff` — the equivalence, in every well-formed state.
-/
import IrohKmp.Theory.Guarded

namespace IrohKmp.Theory.Guarded

open IrohKmp.Theory.Run
open State

set_option autoImplicit false
set_option linter.unusedSectionVars false

variable {ι R M P A X E V : Type} [DecidableEq ι]
variable {D : Discipline ι R M P A X} {env : R → E → Option R} {s t : State ι R M P A}

/-- A step of a call, or a new call: nothing from the environment, nothing cancelled. -/
def Local : State ι R M P A → Event M X E → Prop
  | _, .env _ => False
  | _, .cancel _ => False
  | _, _ => True

/-- The call and the progress from which it will work, or works, under the guard. -/
def pending (D : Discipline ι R M P A X) (s : State ι R M P A) (c : CallId) : Option (M × P) :=
  match s.calls c with
  | some (m, .waiting) => some (m, D.start m)
  | some (m, .holding p) => some (m, p)
  | _ => none

/-- The calls in front of `c` in a line. -/
def ahead (line : List CallId) (c : CallId) : List CallId := line.takeWhile (fun d => d ≠ c)

/-- What is left to do in front of `c`. -/
def workAhead (D : Discipline ι R M P A X) (s : State ι R M P A) (i : ι) (c : CallId) :
    List (M × P) :=
  (ahead (s.queue i) c).filterMap (pending D s)

section Lines

variable {c d : CallId} {line : List CallId}

theorem ahead_cons_self : ahead (c :: line) c = [] := by simp [ahead]

theorem ahead_cons_ne (other : d ≠ c) : ahead (d :: line) c = d :: ahead line c := by
  simp [ahead, other]

/-- Calls that join behind `c` are not ahead of it. -/
theorem ahead_append (member : c ∈ line) (more : List CallId) :
    ahead (line ++ more) c = ahead line c := by
  induction line with
  | nil => simp at member
  | cons d line ih =>
      by_cases self : d = c
      · subst self; simp [ahead]
      · have rest : c ∈ line := by simpa [Ne.symm self] using member
        rw [List.cons_append, ahead_cons_ne self, ahead_cons_ne self, ih rest]

theorem mem_of_mem_ahead (member : d ∈ ahead line c) : d ∈ line :=
  List.takeWhile_subset _ member

/-- Nobody is ahead of the head of the line. -/
theorem head_of_ahead_eq_nil (member : c ∈ line) (none : ahead line c = []) :
    line.head? = some c := by
  cases line with
  | nil => cases member
  | cons d rest =>
      by_cases self : d = c
      · simp [self]
      · simp [ahead_cons_ne self] at none

theorem cons_of_ahead_eq_cons {front : List CallId} (member : c ∈ line)
    (split : ahead line c = d :: front) :
    ∃ rest, line = d :: rest ∧ d ≠ c ∧ ahead rest c = front := by
  cases line with
  | nil => cases member
  | cons b rest =>
      by_cases self : b = c
      · subst self
        simp [ahead_cons_self] at split
      · rw [ahead_cons_ne self] at split
        cases split
        exact ⟨rest, rfl, self, rfl⟩

end Lines

/-- How the calls on lock `i` leave the part `view` of the resource: `settles v m p v'` says
that a call `m` with progress `p` can, by its own turns, end and leave `v'` where `v` was. -/
structure Settling (D : Discipline ι R M P A X) (i : ι) (V : Type) where
  view : R → V
  settles : V → M → P → V → Prop
  /-- Goes down with every turn that keeps the guard. -/
  size : V → P → Nat
  apart : ∀ {r m j p x r' turn}, D.route m = .ok j → j ≠ i →
    D.work r m p x = some (r', turn) → view r' = view r
  more : ∀ {r m p x r' p' v}, D.route m = .ok i → D.work r m p x = some (r', .keep p') →
    settles (view r') m p' v → settles (view r) m p v
  last : ∀ {r m p x r' turn}, D.route m = .ok i → D.work r m p x = some (r', turn) →
    ¬ turn.phase.InLine → settles (view r) m p (view r')
  run : ∀ {r m p v}, D.route m = .ok i → settles (view r) m p v →
    ∃ x r' turn, D.work r m p x = some (r', turn) ∧
      ((∃ p', turn = .keep p' ∧ settles (view r') m p' v ∧ size (view r') p' < size (view r) p) ∨
        (¬ turn.phase.InLine ∧ view r' = v))

namespace Settling

variable {i : ι} (S : Settling D i V)

/-- The pieces of work can settle one after the other. -/
def Drains : V → List (M × P) → Prop
  | _, [] => True
  | v, (m, p) :: rest => ∃ v', S.settles v m p v' ∧ Drains v' rest

variable {S}

section Step

variable {c d : CallId} {m n : M} {ph : Phase P A}

theorem workAhead_congr (queue : ahead (t.queue i) c = ahead (s.queue i) c)
    (same : ∀ d ∈ ahead (s.queue i) c, pending D t d = pending D s d) :
    workAhead D t i c = workAhead D s i c := by
  unfold workAhead
  rw [queue]
  exact List.filterMap_congr same

/-- The work of the head of the line comes first. -/
theorem workAhead_cons {rest : List CallId} {w : M × P} (line : s.queue i = d :: rest)
    (other : d ≠ c) (work : pending D s d = some w) :
    workAhead D s i c = w :: (ahead rest c).filterMap (pending D s) := by
  simp [workAhead, line, ahead_cons_ne other, work]

/-- What the head of the line does leaves the work of the calls behind it. -/
theorem pending_behind {rest : List CallId} (nodup : (d :: rest).Nodup)
    (others : ∀ b, b ≠ d → t.calls b = s.calls b) :
    (ahead rest c).filterMap (pending D t) = (ahead rest c).filterMap (pending D s) := by
  refine List.filterMap_congr fun b member => ?_
  have differ : b ≠ d := fun same =>
    (List.nodup_cons.mp nodup).1 (same ▸ mem_of_mem_ahead member)
  simp only [pending, others b differ]

/-- The same work is ahead on the same part of the resource. -/
theorem drains_congr (drains : S.Drains (S.view t.res) (workAhead D t i c))
    (view : S.view t.res = S.view s.res) (queue : ahead (t.queue i) c = ahead (s.queue i) c)
    (same : ∀ d ∈ ahead (s.queue i) c, pending D t d = pending D s d) :
    S.Drains (S.view s.res) (workAhead D s i c) := by
  rwa [view, workAhead_congr queue same] at drains

theorem pending_record_ne {q : Phase P A} (other : d ≠ c) :
    pending D (s.record c m q) d = pending D s d := by
  simp [pending, other]

/-- Before a turn of the call at the head of line `i`, the work ahead of `c` drains if it
does after the turn. -/
theorem drains_of_turn (wf : WellFormed D s) (inLine : c ∈ s.queue i) {p : P} {x : X} {r : R}
    {turn : Turn P A} (called : s.calls d = some (n, .holding p)) (routed : D.route n = .ok i)
    (worked : D.work s.res n p x = some (r, turn))
    (drains : d ≠ c → S.Drains (S.view r) (workAhead D (s.turned D d n r turn) i c)) :
    S.Drains (S.view s.res) (workAhead D s i c) := by
  have head := wf.head i d n p called routed
  obtain ⟨rest, line⟩ : ∃ rest, s.queue i = d :: rest := List.head?_eq_some_iff.mp head
  by_cases self : d = c
  · subst self
    simp [workAhead, line, ahead_cons_self, Drains]
  · have drains := drains self
    have nodup := wf.nodup i
    rw [line] at nodup
    have others : ∀ b, b ≠ d → (s.turned D d n r turn).calls b = s.calls b := by
      intro b differ
      simp [differ]
    have behind := pending_behind (D := D) (c := c) nodup others
    have work : pending D s d = some (n, p) := by simp [pending, called]
    rw [workAhead_cons line self work]
    by_cases out : turn.phase.InLine
    · cases turn with
      | keep p' =>
          have after : workAhead D (s.turned D d n r (.keep p')) i c =
              (n, p') :: (ahead rest c).filterMap (pending D s) := by
            rw [← behind]
            have work' : pending D (s.turned D d n r (.keep p')) d = some (n, p') := by
              simp [pending]
            exact workAhead_cons line self work'
          rw [after] at drains
          obtain ⟨v, settled, remaining⟩ := drains
          exact ⟨v, S.more routed worked settled, remaining⟩
      | _ => exact absurd out id
    · have after : workAhead D (s.turned D d n r turn) i c =
          (ahead rest c).filterMap (pending D s) := by
        rw [← behind]
        simp [workAhead, turned_drop routed out, line]
      rw [after] at drains
      exact ⟨S.view r, S.last routed worked out, drains⟩

/-- A new call is ahead of none. -/
theorem drains_back_call (wf : WellFormed D s) (stepped : step D env s (.call d n) = some t)
    (inLine : c ∈ s.queue i)
    (drains : c ∈ t.queue i → S.Drains (S.view t.res) (workAhead D t i c)) :
    S.Drains (S.view s.res) (workAhead D s i c) := by
  obtain ⟨new, moved⟩ := step_call_iff.mp stepped
  have absent : ∀ b ∈ ahead (s.queue i) c, b ≠ d := by
    rintro b member rfl
    obtain ⟨_, _, called, -⟩ := (wf.mem_queue i b).mp (mem_of_mem_ahead member)
    rw [new] at called
    cases called
  obtain ⟨a, -, rfl⟩ | ⟨j, -, rfl⟩ := moved
  · exact drains_congr (drains inLine) rfl rfl
      fun b member => pending_record_ne (absent b member)
  · have queue : ∃ more, ((s.record d n .waiting).join j d).queue i = s.queue i ++ more := by
      by_cases same : i = j
      · subst same; exact ⟨[d], by simp⟩
      · exact ⟨[], by simp [same]⟩
    obtain ⟨more, queue⟩ := queue
    have stays : c ∈ ((s.record d n .waiting).join j d).queue i := by
      rw [queue]
      exact List.mem_append_left _ inLine
    exact drains_congr (drains stays) rfl (by rw [queue, ahead_append inLine])
      fun b member => pending_record_ne (absent b member)

/-- A turn in one line leaves what drains in another. -/
theorem drains_of_turn_elsewhere (wf : WellFormed D s) {j : ι} {p : P} {x : X} {r : R}
    {turn : Turn P A} (called : s.calls d = some (n, .holding p)) (routed : D.route n = .ok j)
    (worked : D.work s.res n p x = some (r, turn)) (apart : j ≠ i)
    (drains : S.Drains (S.view (s.turned D d n r turn).res)
      (workAhead D (s.turned D d n r turn) i c)) :
    S.Drains (S.view s.res) (workAhead D s i c) := by
  have elsewhere : ∀ b ∈ ahead (s.queue i) c, b ≠ d := by
    rintro b member rfl
    obtain ⟨_, _, now, routed', -⟩ := (wf.mem_queue i b).mp (mem_of_mem_ahead member)
    rw [called] at now
    cases now
    rw [routed] at routed'
    cases routed'
    exact apart rfl
  have queue : (s.turned D d n r turn).queue i = s.queue i :=
    turned_queue_ne routed (Ne.symm apart)
  refine drains_congr drains ?_ (by rw [queue]) fun b member => ?_
  · rw [turned_res, S.apart routed apart worked]
  · simp [pending, elsewhere b member]

/-- No local step can make the work ahead of a call drain. -/
theorem drains_back (wf : WellFormed D s) (e : Event M X E) (ok : Local s e)
    (stepped : step D env s e = some t) (inLine : c ∈ s.queue i)
    (drains : c ∈ t.queue i → S.Drains (S.view t.res) (workAhead D t i c)) :
    S.Drains (S.view s.res) (workAhead D s i c) := by
  cases e with
  | env e => exact absurd ok id
  | cancel d => exact absurd ok id
  | call d n => exact drains_back_call wf stepped inLine drains
  | acquire d =>
      obtain ⟨n, j, called, -, -, rfl⟩ := step_acquire_iff.mp stepped
      have same : ∀ b, pending D ((s.record d n (.holding (D.start n))).take j d) b =
          pending D s b := by
        intro b
        by_cases self : b = d
        · subst self; simp [pending, called]
        · exact pending_record_ne self
      exact drains_congr (drains inLine) rfl rfl fun b _ => same b
  | work d x =>
      obtain ⟨n, p, r, turn, called, worked, rfl⟩ := step_work_iff.mp stepped
      obtain ⟨j, routed⟩ := wf.routed d n _ called trivial
      by_cases own : j = i
      · subst own
        refine drains_of_turn wf inLine called routed worked fun differ => ?_
        simpa using drains (mem_turned_queue routed (wf.nodup j) inLine (Ne.symm differ))
      · refine drains_of_turn_elsewhere wf called routed worked own (drains ?_)
        rw [turned_queue_ne routed (Ne.symm own)]
        exact inLine
  | resolve d =>
      obtain ⟨n, a, called, -, rfl⟩ := step_resolve_iff.mp stepped
      have elsewhere : ∀ b ∈ ahead (s.queue i) c, b ≠ d := by
        rintro b member rfl
        exact wf.not_mem_queue called id (mem_of_mem_ahead member)
      exact drains_congr (drains inLine) rfl rfl
        fun b member => pending_record_ne (elsewhere b member)

end Step

section Complete

variable {c d : CallId} {m n : M} {ph : Phase P A} {p : P} {v : V}

/-- Serving the call `d` at the head of line `i`, by its own turns, to its end. -/
structure Served (S : Settling D i V) (env : R → E → Option R) (s t : State ι R M P A) (d : CallId)
    (v : V) : Prop where
  run : Via (step D env) Local s t
  wf : WellFormed D t
  view : S.view t.res = v
  line : t.queue i = (s.queue i).tail
  others : ∀ b, b ≠ d → t.calls b = s.calls b

/-- A call under the guard ends by its own turns wherever it can settle. -/
theorem served_of_holding (wf : WellFormed D s) (called : s.calls d = some (n, .holding p))
    (routed : D.route n = .ok i) (settled : S.settles (S.view s.res) n p v) :
    ∃ t, Served S env s t d v := by
  induction size : S.size (S.view s.res) p using Nat.strongRecOn generalizing s p with
  | ind k ih =>
      subst size
      obtain ⟨x, r, turn, worked, rest⟩ := S.run routed settled
      have stepped : step D env s (.work d x) = some (s.turned D d n r turn) :=
        step_work_iff.mpr ⟨n, p, r, turn, called, worked, rfl⟩
      have wf' := wellFormed_step _ wf stepped
      have own : Local s (.work d x : Event M X E) := trivial
      have first : Via (step D env) Local s (s.turned D d n r turn) := .single own stepped
      have others : ∀ b, b ≠ d → (s.turned D d n r turn).calls b = s.calls b := by
        intro b other
        simp [other]
      obtain ⟨p', rfl, settled', smaller⟩ | ⟨out, done⟩ := rest
      · obtain ⟨t, served⟩ := ih _ (by simpa using smaller) wf' (by simp [Turn.phase])
          (by simpa using settled') rfl
        exact ⟨t, first.trans served.run, served.wf, served.view, served.line,
          fun b other => (served.others b other).trans (others b other)⟩
      · refine ⟨_, first, wf', by simpa using done, ?_, others⟩
        obtain ⟨line, queue⟩ := List.head?_eq_some_iff.mp (wf.head i d n p called routed)
        rw [turned_drop routed out]
        simp [queue]

/-- So does a waiting call whose turn has come. -/
theorem served_of_head (wf : WellFormed D s) (head : (s.queue i).head? = some d)
    (work : pending D s d = some (n, p)) (settled : S.settles (S.view s.res) n p v) :
    ∃ t, Served S env s t d v := by
  obtain ⟨n', ph, called, routed, inLine⟩ :=
    (wf.mem_queue i d).mp (List.mem_of_mem_head? (by rw [head]; rfl))
  rcases Phase.inLine_iff.mp inLine with rfl | ⟨q, rfl⟩
  · simp only [pending, called, Option.some.injEq, Prod.mk.injEq] at work
    obtain ⟨rfl, rfl⟩ := work
    have stepped : step D env s (.acquire d) =
        some ((s.record d n' (.holding (D.start n'))).take i d) :=
      step_acquire_iff.mpr ⟨n', i, called, routed, head, rfl⟩
    have holding : ((s.record d n' (.holding (D.start n'))).take i d).calls d =
        some (n', .holding (D.start n')) := by simp
    obtain ⟨t, served⟩ : ∃ t, Served S env _ t d v :=
      served_of_holding (wellFormed_step _ wf stepped) holding routed settled
    refine ⟨t, (Via.single trivial stepped).trans served.run, served.wf, served.view,
      served.line, fun b other => (served.others b other).trans (by simp [other])⟩
  · simp only [pending, called, Option.some.injEq, Prod.mk.injEq] at work
    obtain ⟨rfl, rfl⟩ := work
    exact served_of_holding wf called routed settled

/-- A call at the head of its line ends at once if it always has a last turn. -/
theorem ends_at_head (wf : WellFormed D s) (head : (s.queue i).head? = some c)
    (called : s.calls c = some (m, ph))
    (prompt : ∀ r p, ∃ x r' a, D.work r m p x = some (r', .finish a)) :
    CanReach (step D env) Local s fun t => ∃ a, t.calls c = some (m, .ended a) := by
  obtain ⟨m', ph', called', routed, inLine⟩ :=
    (wf.mem_queue i c).mp (List.mem_of_mem_head? (by rw [head]; rfl))
  rw [called] at called'
  cases called'
  have ends : ∀ {t : State ι R M P A} {p : P}, t.calls c = some (m, .holding p) →
      CanReach (step D env) Local t fun u => ∃ a, u.calls c = some (m, .ended a) := by
    intro t p holding
    obtain ⟨x, r, a, worked⟩ := prompt t.res p
    have stepped : step D env t (.work c x) = some (t.turned D c m r (.finish a)) :=
      step_work_iff.mpr ⟨m, p, r, .finish a, holding, worked, rfl⟩
    have own : Local t (.work c x : Event M X E) := trivial
    exact ⟨_, .single own stepped, a, by simp [Turn.phase]⟩
  rcases Phase.inLine_iff.mp inLine with rfl | ⟨p, rfl⟩
  · have stepped : step D env s (.acquire c) =
        some ((s.record c m (.holding (D.start m))).take i c) :=
      step_acquire_iff.mpr ⟨m, i, called, routed, head, rfl⟩
    have own : Local s (.acquire c : Event M X E) := trivial
    have holding : ((s.record c m (.holding (D.start m))).take i c).calls c =
        some (m, .holding (D.start m)) := by simp
    exact .after (.single own stepped) (ends holding)
  · exact ends called

/-- A call comes to the head of its line when the calls ahead of it settle in turn. -/
theorem comes_up (front : List CallId) : ∀ {s : State ι R M P A}, WellFormed D s →
    c ∈ s.queue i → s.calls c = some (m, ph) → ahead (s.queue i) c = front →
    S.Drains (S.view s.res) (workAhead D s i c) →
    ∃ t, Via (step D env) Local s t ∧ WellFormed D t ∧ (t.queue i).head? = some c ∧
      t.calls c = some (m, ph) := by
  induction front with
  | nil =>
      intro s wf inLine called front _
      exact ⟨s, .refl, wf, head_of_ahead_eq_nil inLine front, called⟩
  | cons d front ih =>
      intro s wf inLine called split drains
      obtain ⟨rest, line, other, behind⟩ := cons_of_ahead_eq_cons inLine split
      have nodup := wf.nodup i
      rw [line] at nodup
      obtain ⟨n, ph', called', -, inLine'⟩ := (wf.mem_queue i d).mp (by simp [line])
      obtain ⟨p, work⟩ : ∃ p, pending D s d = some (n, p) := by
        rcases Phase.inLine_iff.mp inLine' with rfl | ⟨p, rfl⟩ <;> simp [pending, called']
      rw [workAhead_cons line other work] at drains
      obtain ⟨v, settled, remaining⟩ := drains
      obtain ⟨t, served⟩ : ∃ t, Served S env s t d v :=
        served_of_head wf (by simp [line]) work settled
      have queue : t.queue i = rest := by rw [served.line, line]; rfl
      obtain ⟨u, run, wf', head, here⟩ := ih served.wf
        (by rw [queue]; simpa [line, Ne.symm other] using inLine)
        (by rw [served.others c (Ne.symm other), called]) (by rw [queue, behind])
        (by rw [served.view, workAhead, queue, pending_behind nodup served.others]
            exact remaining)
      exact ⟨u, served.run.trans run, wf', head, here⟩

theorem completes_of_drains (prompt : ∀ r p, ∃ x r' a, D.work r m p x = some (r', .finish a))
    (wf : WellFormed D s) (inLine : c ∈ s.queue i) (called : s.calls c = some (m, ph))
    (drains : S.Drains (S.view s.res) (workAhead D s i c)) :
    CanReach (step D env) Local s fun t => ∃ a, t.calls c = some (m, .ended a) := by
  obtain ⟨t, run, wf', head, here⟩ : ∃ t, Via (step D env) Local s t ∧ _ :=
    comes_up _ wf inLine called rfl drains
  exact .after run (ends_at_head wf' head here prompt)

/-- Work drains where every piece of it can settle and leaves what the next one needs. -/
theorem drains_of_forall {G : V → Prop} {works : List (M × P)}
    (each : ∀ w ∈ works, ∀ v, G v → ∃ v', S.settles v w.1 w.2 v' ∧ G v') :
    ∀ {v : V}, G v → S.Drains v works := by
  induction works with
  | nil => exact fun _ => trivial
  | cons w works ih =>
      intro v good
      obtain ⟨v', settled, good'⟩ := each w List.mem_cons_self v good
      exact ⟨v', settled, ih (fun w' member => each w' (List.mem_cons_of_mem _ member)) good'⟩

/-- The work ahead on lock `i` is that of calls on lock `i`. -/
theorem routed_of_mem_workAhead (wf : WellFormed D s) {w : M × P} (member : w ∈ workAhead D s i c) :
    D.route w.1 = .ok i := by
  obtain ⟨d, front, work⟩ := List.mem_filterMap.mp member
  obtain ⟨n, ph, called, routed, inLine⟩ := (wf.mem_queue i d).mp (mem_of_mem_ahead front)
  have same : w.1 = n := by
    rcases Phase.inLine_iff.mp inLine with rfl | ⟨p, rfl⟩ <;>
      · simp only [pending, called, Option.some.injEq] at work
        rw [← work]
  rw [same, routed]

/-- **When a call in line completes by local steps.** In a well-formed state, a call that
always has a last turn can end without the environment, and with no call cancelled, exactly
when the calls ahead of it can settle one after the other. -/
theorem completes_iff (wf : WellFormed D s) (called : s.calls c = some (m, ph))
    (routed : D.route m = .ok i) (inLine : ph.InLine)
    (prompt : ∀ r p, ∃ x r' a, D.work r m p x = some (r', .finish a)) :
    CanReach (step D env) Local s (fun t => ∃ a, t.calls c = some (m, .ended a)) ↔
      S.Drains (S.view s.res) (workAhead D s i c) := by
  have queued : c ∈ s.queue i := (wf.mem_queue i c).mpr ⟨m, ph, called, routed, inLine⟩
  constructor
  · intro can
    have pulled := can.pull (I := WellFormed D)
      (G := fun t => c ∈ t.queue i → S.Drains (S.view t.res) (workAhead D t i c)) wf
      (fun _ e _ wf _ stepped => wellFormed_step e wf stepped) ?_ ?_
    · exact pulled queued
    · rintro t wf' ⟨a, ended⟩ member
      exact absurd member (wf'.not_mem_queue ended id)
    · intro t e u wf' ok stepped drains member
      exact drains_back wf' e ok stepped member drains
  · intro drains
    exact completes_of_drains prompt wf queued called drains

end Complete

end Settling

end IrohKmp.Theory.Guarded
