/-
# Theory.GuardedOrder — a lock puts its calls in sequence

The history `taken i` lists the calls in the order in which they took lock `i`. A call
works only while it is the last of that list (`Ordered.last`), so whatever the calls on
one lock append to a record of the resource, the record is the concatenation of one
segment for each call, in lock order: interleaved turns leave uninterleaved segments.

A `Trail` says what one turn of a call adds to its own segment and that nothing else
touches the record; `Trail.split` concludes for every reachable state. Some answers say that
the resource is shut from then on; the calls that take the lock after such a call are late,
and a segment may be explained by that.
-/
import IrohKmp.Theory.Guarded
import Mathlib.Data.List.Basic

namespace IrohKmp.Theory.Guarded

open IrohKmp.Theory.Run
open State

set_option autoImplicit false
set_option linter.unusedSectionVars false

variable {ι R M P A X E B : Type} [DecidableEq ι]
variable {D : Discipline ι R M P A X} {env : R → E → Option R} {s t : State ι R M P A}

/-! ## The order of the lock -/

/-- The history of a lock lists, once each, the calls that got past its line, and the call
under the guard last. -/
structure Ordered (D : Discipline ι R M P A X) (s : State ι R M P A) : Prop where
  nodup : ∀ i, (s.taken i).Nodup
  past : ∀ i c, c ∈ s.taken i →
    ∃ m ph, s.calls c = some (m, ph) ∧ D.route m = .ok i ∧ ph ≠ .waiting
  mem : ∀ i c m ph, s.calls c = some (m, ph) → D.route m = .ok i → ph ≠ .waiting →
    ph ≠ .cancelled → c ∈ s.taken i
  last : ∀ i c m p, s.calls c = some (m, .holding p) → D.route m = .ok i →
    ∃ before, s.taken i = before ++ [c]

theorem ordered_fresh (fresh : s.Fresh) : Ordered D s := by
  obtain ⟨-, calls, taken⟩ := fresh
  constructor
  · simp [taken]
  · simp [taken]
  · simp [calls]
  · simp [calls]

namespace Ordered

variable {c d : CallId} {m : M} {ph : Phase P A} {i : ι}

theorem congr (ord : Ordered D s) (calls : t.calls = s.calls) (taken : t.taken = s.taken) :
    Ordered D t := by
  constructor
  · rw [taken]; exact ord.nodup
  · rw [calls, taken]; exact ord.past
  · rw [calls, taken]; exact ord.mem
  · rw [calls, taken]; exact ord.last

/-- A call that never took a lock is in no history. -/
theorem not_taken (ord : Ordered D s)
    (before : ∀ n q, s.calls c = some (n, q) → q = .waiting) : c ∉ s.taken i := by
  intro member
  obtain ⟨n, q, called, -, taken⟩ := ord.past i c member
  exact taken (before n q called)

/-- A call changes its phase without taking a lock: it was past its line already, or it
ends before the lock, or it only starts to wait. -/
theorem rephase (ord : Ordered D s) {ph' : Phase P A}
    (same : ∀ n q, s.calls c = some (n, q) → n = m)
    (known : ph' = .waiting → s.calls c = none)
    (mem : ∀ i, D.route m = .ok i → ph' ≠ .waiting → ph' ≠ .cancelled → c ∈ s.taken i)
    (last : ∀ i p, D.route m = .ok i → ph' = .holding p → ∃ before, s.taken i = before ++ [c]) :
    Ordered D (s.record c m ph') := by
  constructor
  · exact ord.nodup
  · intro i d member
    obtain ⟨n, q, called, routed, taken⟩ := ord.past i d member
    by_cases self : d = c
    · subst self
      refine ⟨m, ph', by simp, same n q called ▸ routed, fun waits => ?_⟩
      rw [known waits] at called
      cases called
    · exact ⟨n, q, by simpa [self] using called, routed, taken⟩
  · intro i d n q now routed waits cancelled
    rcases recorded_iff.mp now with ⟨rfl, rfl, rfl⟩ | ⟨-, now⟩
    · exact mem i routed waits cancelled
    · exact ord.mem i d n q now routed waits cancelled
  · intro i d n p now routed
    rcases recorded_iff.mp now with ⟨rfl, rfl, held⟩ | ⟨-, now⟩
    · exact last i p routed held.symm
    · exact ord.last i d n p now routed

/-- The head of a line takes its lock: it becomes the last of the history. -/
theorem acquire (wf : WellFormed D s) (ord : Ordered D s) (called : s.calls c = some (m, .waiting))
    (routed : D.route m = .ok i) (head : (s.queue i).head? = some c) {p : P} :
    Ordered D ((s.record c m (.holding p)).take i c) := by
  have absent : ∀ j, c ∉ s.taken j := fun j => ord.not_taken fun n q now => by
    rw [called] at now
    cases now
    rfl
  constructor
  · intro j
    by_cases same : j = i
    · subst same
      simpa [List.nodup_append, ord.nodup] using fun a ha (e : a = c) => absent j (e ▸ ha)
    · simpa [same] using ord.nodup j
  · intro j d member
    by_cases self : d = c
    · subst self
      refine ⟨m, .holding p, by simp, ?_, by simp⟩
      by_cases same : j = i
      · exact same ▸ routed
      · exact absurd (by simpa [same] using member) (absent j)
    · have before : d ∈ s.taken j := by
        by_cases same : j = i
        · subst same; simpa [self] using member
        · simpa [same] using member
      simpa [self] using ord.past j d before
  · intro j d n q now ok waits cancelled
    rcases recorded_iff.mp now with ⟨rfl, rfl, rfl⟩ | ⟨-, now⟩
    · rw [routed] at ok
      cases ok
      simp
    · have before := ord.mem j d n q now ok waits cancelled
      by_cases same : j = i
      · subst same; simp [before]
      · simpa [same] using before
  · intro j d n q now ok
    rcases recorded_iff.mp now with ⟨rfl, rfl, -⟩ | ⟨other, before⟩
    · rw [routed] at ok
      cases ok
      exact ⟨s.taken i, by simp⟩
    · -- another holder would be at the head of the line `c` is at the head of
      have apart : j ≠ i := by
        rintro rfl
        exact other (holder_unique (wf.head j d n q before ok) head)
      simpa [apart] using ord.last j d n q before ok

end Ordered

/-- No call took the lock after the one that holds it. -/
theorem Ordered.none_behind {c d : CallId} {m : M} {p : P} {i : ι} (ord : Ordered D s)
    (called : s.calls c = some (m, .holding p)) (routed : D.route m = .ok i) :
    ¬ [c, d].Sublist (s.taken i) := by
  intro behind
  obtain ⟨before, taken⟩ := ord.last i c m p called routed
  have nodup := ord.nodup i
  rw [taken] at behind nodup
  have absent : c ∉ before := fun member => by
    rw [List.nodup_append] at nodup
    exact nodup.2.2 c member c (by simp) rfl
  have turned : [d, c].Sublist (c :: before.reverse) := by simpa using behind.reverse
  cases turned with
  | cons _ rest => exact absent (List.mem_reverse.mp (rest.subset (by simp)))
  | cons_cons _ rest => exact absent (List.mem_reverse.mp (rest.subset (by simp)))

theorem ordered_step (e : Event M X E) (wf : WellFormed D s) (ord : Ordered D s)
    (stepped : step D env s e = some t) : Ordered D t := by
  cases e with
  | call c m =>
      obtain ⟨new, ⟨a, refused, rfl⟩ | ⟨i, -, rfl⟩⟩ := step_call_iff.mp stepped
      · refine ord.rephase (by simp [new]) (fun _ => new) (fun i routed => ?_)
          (fun i p routed => ?_)
        all_goals rw [refused] at routed; cases routed
      · have waits : Ordered D (s.record c m .waiting) :=
          ord.rephase (by simp [new]) (fun _ => new) (fun _ _ w => absurd rfl w) (by simp)
        exact waits.congr rfl rfl
  | acquire c =>
      obtain ⟨m, i, called, routed, head, rfl⟩ := step_acquire_iff.mp stepped
      exact ord.acquire wf called routed head
  | work c x =>
      obtain ⟨m, p, r, turn, called, -, rfl⟩ := step_work_iff.mp stepped
      have moved : Ordered D (s.record c m turn.phase) := by
        refine ord.rephase (fun n q now => ?_) (fun waits => ?_)
          (fun i routed _ _ => ord.mem i c m _ called routed (by simp) (by simp))
          (fun i _ routed _ => ord.last i c m p called routed)
        · rw [called] at now
          cases now
          rfl
        · cases turn <;> cases waits
      exact moved.congr (by simp) (by simp)
  | resolve c =>
      obtain ⟨m, a, called, -, rfl⟩ := step_resolve_iff.mp stepped
      refine ord.rephase (fun n q now => ?_) (by simp)
        (fun i routed _ _ => ord.mem i c m _ called routed (by simp) (by simp)) (by simp)
      rw [called] at now
      cases now
      rfl
  | cancel c =>
      obtain ⟨m, ph, called, -, -, rfl⟩ := step_cancel_iff.mp stepped
      have moved : Ordered D (s.record c m .cancelled) := by
        refine ord.rephase (fun n q now => ?_) (by simp) (fun _ _ _ h => absurd rfl h) (by simp)
        rw [called] at now
        cases now
        rfl
      exact moved.congr (by simp) (by simp)
  | env e =>
      obtain ⟨r, -, rfl⟩ := step_env_iff.mp stepped
      exact ord.congr rfl rfl

/-- Lines, phases and histories agree. -/
structure Sequenced (D : Discipline ι R M P A X) (s : State ι R M P A) : Prop where
  wf : WellFormed D s
  ord : Ordered D s

theorem sequenced_fresh (fresh : s.Fresh) : Sequenced D s :=
  ⟨wellFormed_fresh fresh, ordered_fresh fresh⟩

theorem sequenced_step (e : Event M X E) (seq : Sequenced D s)
    (stepped : step D env s e = some t) : Sequenced D t :=
  ⟨wellFormed_step e seq.wf stepped, ordered_step e seq.wf seq.ord stepped⟩

/-! ## One segment for each call -/

/-- If segments are full but for one that only empty ones follow, that one is a tail. -/
theorem flatMap_full_append {seg full : CallId → List B} (calls : List CallId)
    (known : ∀ c ∈ calls, seg c = full c ∨ full c = [])
    (order : calls.Pairwise fun c d => seg c ≠ full c → seg d = [] ∧ full d = []) :
    ∃ tail, calls.flatMap seg = calls.flatMap full ++ tail ∧
      (tail = [] ∨ ∃ c ∈ calls, seg c ≠ full c ∧ tail = seg c) := by
  induction calls with
  | nil => exact ⟨[], rfl, .inl rfl⟩
  | cons c calls ih =>
      obtain ⟨behind, order⟩ := List.pairwise_cons.mp order
      by_cases whole : seg c = full c
      · obtain ⟨tail, split, rest⟩ := ih (fun d member => known d (by simp [member])) order
        refine ⟨tail, by simp [split, whole], rest.imp_right ?_⟩
        rintro ⟨d, member, part⟩
        exact ⟨d, by simp [member], part⟩
      · have empty := (known c (by simp)).resolve_left whole
        have none : calls.flatMap seg = [] :=
          List.flatMap_eq_nil_iff.mpr fun d member => (behind d member whole).1
        have none' : calls.flatMap full = [] :=
          List.flatMap_eq_nil_iff.mpr fun d member => (behind d member whole).2
        exact ⟨seg c, by simp [none, none', empty], .inr ⟨c, by simp, whole, rfl⟩⟩

/-- One change of the resource by an admitted call or an admitted step of the environment. -/
inductive Change (D : Discipline ι R M P A X) (env : R → E → Option R) (callOk : M → Prop)
    (envOk : E → Prop) (r r' : R) : Prop
  | work {m : M} {p : P} {x : X} {turn : Turn P A} (admitted : callOk m)
      (worked : D.work r m p x = some (r', turn))
  | env {e : E} (admitted : envOk e) (moved : env r e = some r')

theorem Change.mono {D : Discipline ι R M P A X} {env : R → E → Option R} {callOk : M → Prop}
    {envOk envOk' : E → Prop} {r r' : R} (change : Change D env callOk envOk r r')
    (each : ∀ e, envOk e → envOk' e) : Change D env callOk envOk' r r' := by
  cases change with
  | work admitted worked => exact .work admitted worked
  | env admitted moved => exact .env (each _ admitted) moved

/-- What the calls on lock `i` leave on the record `out` of the resource.
`explains r late m ph seg` says that `seg` is what a call `m` in phase `ph` has put there;
`late` if it took the lock after a call whose answer shut the resource. -/
structure Trail (D : Discipline ι R M P A X) (env : R → E → Option R) (i : ι) (B : Type) where
  out : R → List B
  explains : R → Prop → M → Phase P A → List B → Prop
  callOk : M → Prop
  envOk : E → Prop
  inv : R → Prop
  /-- The answers that say that the resource is shut from now on. -/
  shuts : M → A → Prop
  shut : R → Prop
  keeps : ∀ {r r'}, inv r → Change D env callOk envOk r r' → inv r'
  stays : ∀ {r r'}, inv r → Change D env callOk envOk r r' → shut r → shut r'
  closes : ∀ {r m p x r' a}, inv r → callOk m → D.route m = .ok i →
    D.work r m p x = some (r', .finish a) → shuts m a → shut r'
  begins : ∀ {r m late}, inv r → callOk m → D.route m = .ok i →
    explains r late m (.holding (D.start m)) []
  works : ∀ {r m p x r' turn seg} {late : Prop}, inv r → callOk m → D.route m = .ok i →
    (late → shut r) → D.work r m p x = some (r', turn) → explains r late m (.holding p) seg →
    ∃ more, out r' = out r ++ more ∧ explains r' late m turn.phase (seg ++ more)
  /-- A call that has dropped the guard needs no more of the resource. -/
  settled : ∀ {r r' late m ph seg}, inv r → Change D env callOk envOk r r' →
    (∀ p, ph ≠ .holding p) → explains r late m ph seg → explains r' late m ph seg
  /-- Calls on the other locks leave the record alone. -/
  apart : ∀ {r m j p x r' turn}, inv r → callOk m → D.route m = .ok j → j ≠ i →
    D.work r m p x = some (r', turn) → out r' = out r ∧
      ∀ late n q seg, explains r late n (.holding q) seg → explains r' late n (.holding q) seg
  calm : ∀ {r e r'}, inv r → envOk e → env r e = some r' → out r' = out r ∧
    ∀ late n q seg, explains r late n (.holding q) seg → explains r' late n (.holding q) seg
  resolves : ∀ {r late m a seg}, inv r → explains r late m .detached seg →
    D.resolve r m = some a → explains r late m (.ended a) seg ∧ ¬ shuts m a

namespace Trail

variable {i : ι} (T : Trail D env i B)

/-- The runs of a trail: admitted calls and steps of the environment, none cancelled. -/
def Ok : State ι R M P A → Event M X E → Prop
  | _, .call _ m => T.callOk m
  | _, .env e => T.envOk e
  | _, .cancel _ => False
  | _, _ => True

/-- The answer of `c` shut the resource. -/
def ShutBy (s : State ι R M P A) (c : CallId) : Prop :=
  ∃ m a, s.calls c = some (m, .ended a) ∧ T.shuts m a

/-- The record is the concatenation, in lock order, of explained segments, and the calls
behind one that shut the resource are late. -/
structure Split (s : State ι R M P A) (seg : CallId → List B) (late : CallId → Prop) : Prop where
  record : T.out s.res = (s.taken i).flatMap seg
  explained : ∀ c ∈ s.taken i,
    ∃ m ph, s.calls c = some (m, ph) ∧ T.explains s.res (late c) m ph (seg c)
  shut : ∀ c ∈ s.taken i, late c ∨ T.ShutBy s c → T.shut s.res
  order : (s.taken i).Pairwise fun c d => T.ShutBy s c → late d

structure Inv (s : State ι R M P A) : Prop extends Sequenced D s where
  res : T.inv s.res
  calls : ∀ c m ph, s.calls c = some (m, ph) → T.callOk m
  split : ∃ seg late, T.Split s seg late

variable {T} {seg : CallId → List B} {late : CallId → Prop}

theorem ShutBy.congr {c : CallId} (same : t.calls c = s.calls c) : T.ShutBy t c ↔ T.ShutBy s c := by
  simp only [ShutBy, same]

theorem ShutBy.record_ne {c d : CallId} {m : M} {ph : Phase P A} (other : d ≠ c) :
    T.ShutBy (s.record c m ph) d ↔ T.ShutBy s d :=
  ShutBy.congr (by simp [other])

namespace Split

/-- Recording a call that is not in the history of lock `i` disturbs no segment. -/
theorem record_other {c : CallId} {m : M} {ph : Phase P A} (split : T.Split s seg late)
    (absent : c ∉ s.taken i) : T.Split (s.record c m ph) seg late := by
  have other : ∀ d ∈ s.taken i, d ≠ c := fun d member same => absent (same ▸ member)
  constructor
  · exact split.record
  · intro d member
    simpa [other d member] using split.explained d member
  · intro d member early
    rw [ShutBy.record_ne (other d member)] at early
    exact split.shut d member early
  · refine split.order.imp_of_mem fun {b d} member _ before early => before ?_
    rwa [ShutBy.record_ne (other b member)] at early

theorem congr (split : T.Split s seg late) (res : t.res = s.res) (calls : t.calls = s.calls)
    (taken : t.taken i = s.taken i) : T.Split t seg late := by
  have same : ∀ c, T.ShutBy t c ↔ T.ShutBy s c := fun c => ShutBy.congr (by rw [calls])
  constructor
  · rw [res, taken]; exact split.record
  · rw [res, calls, taken]; exact split.explained
  · simp only [res, same, taken]; exact split.shut
  · simp only [same, taken]; exact split.order

/-- A call behind one that shut the resource is late. -/
theorem late_behind (split : T.Split s seg late) {c d : CallId}
    (behind : [c, d].Sublist (s.taken i)) (shut : T.ShutBy s c) : late d :=
  List.pairwise_iff_forall_sublist.mp split.order behind shut

/-- Segments of others stay. -/
theorem flatMap_update {calls : List CallId} {c : CallId} {data : List B}
    (other : ∀ d ∈ calls, d ≠ c) : calls.flatMap (Function.update seg c data) = calls.flatMap seg :=
  List.flatMap_congr fun d member => Function.update_of_ne (other d member) _ _

/-- The turn of a call on lock `i` extends that call's segment, which is the last one. -/
theorem work_own (inv : T.Inv s) (split : T.Split s seg late) {c : CallId} {m : M} {p : P} {x : X}
    {r : R} {turn : Turn P A} (called : s.calls c = some (m, .holding p))
    (routed : D.route m = .ok i) (worked : D.work s.res m p x = some (r, turn)) :
    ∃ seg', T.Split ({ s with res := r }.record c m turn.phase) seg' late := by
  obtain ⟨before, taken⟩ := inv.ord.last i c m p called routed
  have fresh : ∀ b ∈ before, b ≠ c := by
    rintro b member rfl
    have nodup := inv.ord.nodup i
    rw [taken, List.nodup_append] at nodup
    exact nodup.2.2 b member b (by simp) rfl
  have self : c ∈ s.taken i := by simp [taken]
  obtain ⟨m', ph', now, explained⟩ := split.explained c self
  rw [called] at now
  cases now
  have admitted := inv.calls c m _ called
  have change : Change D env T.callOk T.envOk s.res r := .work admitted worked
  obtain ⟨more, grown, next⟩ := T.works inv.res admitted routed
    (fun early => split.shut c self (.inl early)) worked explained
  refine ⟨Function.update seg c (seg c ++ more), ?_, fun d member => ?_,
    fun d member early => ?_, ?_⟩
  · simp only [record_res, record_taken, grown, split.record, taken, List.flatMap_append,
      List.flatMap_singleton, flatMap_update fresh, Function.update_self, List.append_assoc]
  · by_cases same : d = c
    · subst same
      exact ⟨m, turn.phase, by simp, by simpa using next⟩
    · obtain ⟨n, q, now, explained⟩ := split.explained d member
      refine ⟨n, q, by simpa [same] using now, ?_⟩
      obtain ⟨_, _, now', routed', -⟩ := inv.ord.past i d member
      rw [now] at now'
      cases now'
      have released : ∀ p', q ≠ .holding p' := by
        rintro p' rfl
        exact same (inv.wf.holding_unique now called routed' routed)
      simpa [same] using T.settled inv.res change released explained
  · show T.shut r
    obtain early | ended := early
    · exact T.stays inv.res change (split.shut d member (.inl early))
    · by_cases same : d = c
      · subst same
        obtain ⟨n, a, now, shuts⟩ := ended
        simp only [record_calls, Function.update_self, Option.some.injEq, Prod.mk.injEq] at now
        obtain ⟨rfl, last⟩ := now
        cases turn with
        | finish a' =>
            cases last
            exact T.closes inv.res admitted routed worked shuts
        | _ => cases last
      · rw [ShutBy.record_ne same] at ended
        exact T.stays inv.res change (split.shut d member (.inr ended))
  · have order := split.order
    rw [record_taken]
    rw [taken, List.pairwise_append] at order ⊢
    refine ⟨order.1.imp_of_mem fun {b d} member _ before ended => before ?_, by simp,
      fun b member d last ended => order.2.2 b member d last ?_⟩
    all_goals
      rw [ShutBy.record_ne (fresh b member)] at ended
      exact ended

/-- A change of the resource by the environment, or by a call on another lock, changes no
segment. -/
theorem changed (inv : T.Inv s) (split : T.Split s seg late) {r : R}
    (change : Change D env T.callOk T.envOk s.res r) (same : T.out r = T.out s.res)
    (kept : ∀ late n q seg, T.explains s.res late n (.holding q) seg →
      T.explains r late n (.holding q) seg) : T.Split { s with res := r } seg late := by
  refine ⟨same.trans split.record, fun d member => ?_, fun d member early => ?_, split.order⟩
  · obtain ⟨n, q, now, explained⟩ := split.explained d member
    refine ⟨n, q, now, ?_⟩
    by_cases held : ∃ p', q = .holding p'
    · obtain ⟨p', rfl⟩ := held
      exact kept _ n p' _ explained
    · exact T.settled inv.res change (fun p' e => held ⟨p', e⟩) explained
  · exact T.stays inv.res change (split.shut d member early)

/-- A turn on another lock changes no segment. -/
theorem work_apart (inv : T.Inv s) (split : T.Split s seg late) {c : CallId} {m : M} {p : P}
    {x : X} {r : R} {turn : Turn P A} {j : ι} (called : s.calls c = some (m, .holding p))
    (routed : D.route m = .ok j) (differ : j ≠ i) (worked : D.work s.res m p x = some (r, turn)) :
    T.Split ({ s with res := r }.record c m turn.phase) seg late := by
  have admitted := inv.calls c m _ called
  obtain ⟨same, kept⟩ := T.apart inv.res admitted routed differ worked
  have moved : T.Split { s with res := r } seg late :=
    split.changed inv (.work admitted worked) same kept
  refine moved.record_other fun member => ?_
  obtain ⟨_, _, now, routed', -⟩ := inv.ord.past i c member
  rw [called] at now
  cases now
  rw [routed] at routed'
  cases routed'
  exact differ rfl

theorem moved (inv : T.Inv s) (split : T.Split s seg late) {e : E} {r : R} (admitted : T.envOk e)
    (moved : env s.res e = some r) : T.Split { s with res := r } seg late := by
  obtain ⟨same, kept⟩ := T.calm inv.res admitted moved
  exact split.changed inv (.env admitted moved) same kept

/-- The call that takes lock `i` opens an empty segment at the end; it is late if some call
before it shut the resource. -/
theorem acquire (inv : T.Inv s) (split : T.Split s seg late) {c : CallId} {m : M} {j : ι}
    (called : s.calls c = some (m, .waiting)) (routed : D.route m = .ok j) :
    ∃ seg' late', T.Split ((s.record c m (.holding (D.start m))).take j c) seg' late' := by
  have absent : c ∉ s.taken i := inv.ord.not_taken fun n q now => by
    rw [called] at now
    cases now
    rfl
  by_cases own : j = i
  · subst own
    have other : ∀ d ∈ s.taken j, d ≠ c := fun d member same => absent (same ▸ member)
    have old : ∀ d, d ≠ c → d ∈ s.taken j ++ [c] → d ∈ s.taken j := by
      intro d differ member
      simpa [differ] using member
    refine ⟨Function.update seg c [], Function.update late c (∃ b ∈ s.taken j, T.ShutBy s b),
      ?_, fun d member => ?_, fun d member early => ?_, ?_⟩
    · simp [split.record, flatMap_update other]
    · by_cases self : d = c
      · subst self
        exact ⟨m, .holding (D.start m), by simp, by
          simpa using T.begins inv.res (inv.calls d m _ called) routed⟩
      · simp only [take_taken, record_taken, Function.update_self] at member
        simpa [self] using split.explained d (old d self member)
    · show T.shut s.res
      simp only [take_taken, record_taken, Function.update_self] at member
      by_cases self : d = c
      · subst self
        obtain early | ⟨n, a, now, -⟩ := early
        · simp only [Function.update_self] at early
          obtain ⟨b, member, ended⟩ := early
          exact split.shut b member (.inr ended)
        · simp at now
      · refine split.shut d (old d self member) ?_
        have same : T.ShutBy ((s.record c m (.holding (D.start m))).take j c) d ↔ T.ShutBy s d :=
          ShutBy.congr (by simp [self])
        simpa [self, same] using early
    · simp only [take_taken, record_taken, Function.update_self]
      have same : ∀ b ∈ s.taken j,
          T.ShutBy ((s.record c m (.holding (D.start m))).take j c) b → T.ShutBy s b :=
        fun b member ended => (ShutBy.congr (by simp [other b member])).mp ended
      rw [List.pairwise_append]
      refine ⟨split.order.imp_of_mem fun {b d} hb hd before ended => ?_, by simp,
        fun b hb d hd ended => ?_⟩
      · simpa [other d hd] using before (same b hb ended)
      · cases List.mem_singleton.mp hd
        simpa using ⟨b, hb, same b hb ended⟩
  · exact ⟨seg, late, (split.record_other absent).congr rfl rfl (by simp [Ne.symm own])⟩

theorem resolve (inv : T.Inv s) (split : T.Split s seg late) {c : CallId} {m : M} {a : A}
    (called : s.calls c = some (m, .detached)) (answer : D.resolve s.res m = some a) :
    T.Split (s.record c m (.ended a)) seg late := by
  by_cases member : c ∈ s.taken i
  · obtain ⟨n, q, now, explained⟩ := split.explained c member
    rw [called] at now
    cases now
    obtain ⟨explained, open'⟩ := T.resolves inv.res explained answer
    have same : ∀ d, T.ShutBy (s.record c m (.ended a)) d → T.ShutBy s d := by
      intro d ended
      by_cases self : d = c
      · subst self
        obtain ⟨n, b, now, shuts⟩ := ended
        simp only [record_calls, Function.update_self, Option.some.injEq, Prod.mk.injEq,
          Phase.ended.injEq] at now
        obtain ⟨rfl, rfl⟩ := now
        exact absurd shuts open'
      · rwa [ShutBy.record_ne self] at ended
    refine ⟨split.record, fun d member => ?_, fun d member early => ?_, ?_⟩
    · by_cases self : d = c
      · subst self
        exact ⟨m, .ended a, by simp, explained⟩
      · simpa [self] using split.explained d member
    · exact split.shut d member (early.imp_right (same d))
    · exact split.order.imp fun {b d} before ended => before (same b ended)
  · exact split.record_other member

end Split

theorem split_step (e : Event M X E) (inv : T.Inv s) (ok : T.Ok s e)
    (stepped : step D env s e = some t) : ∃ seg late, T.Split t seg late := by
  obtain ⟨seg, late, split⟩ := inv.split
  cases e with
  | call c m =>
      obtain ⟨new, ⟨a, -, rfl⟩ | ⟨j, -, rfl⟩⟩ := step_call_iff.mp stepped
      all_goals
        have absent : c ∉ s.taken i := inv.ord.not_taken (by simp [new])
        exact ⟨seg, late, (split.record_other absent).congr rfl rfl rfl⟩
  | acquire c =>
      obtain ⟨m, j, called, routed, -, rfl⟩ := step_acquire_iff.mp stepped
      exact split.acquire inv called routed
  | work c x =>
      obtain ⟨m, p, r, turn, called, worked, rfl⟩ := step_work_iff.mp stepped
      obtain ⟨j, routed⟩ := inv.wf.routed c m _ called trivial
      by_cases own : j = i
      · subst own
        obtain ⟨seg', next⟩ := split.work_own inv called routed worked
        exact ⟨seg', late, next.congr (by simp) (by simp) (by simp)⟩
      · exact ⟨seg, late, (split.work_apart inv called routed own worked).congr
          (by simp) (by simp) (by simp)⟩
  | resolve c =>
      obtain ⟨m, a, called, answer, rfl⟩ := step_resolve_iff.mp stepped
      exact ⟨seg, late, split.resolve inv called answer⟩
  | cancel c => exact absurd ok id
  | env e =>
      obtain ⟨r, moved, rfl⟩ := step_env_iff.mp stepped
      exact ⟨seg, late, split.moved inv ok moved⟩

theorem res_step (e : Event M X E) (inv : T.Inv s) (ok : T.Ok s e)
    (stepped : step D env s e = some t) : T.inv t.res := by
  cases e with
  | call c m =>
      obtain ⟨-, ⟨a, -, rfl⟩ | ⟨j, -, rfl⟩⟩ := step_call_iff.mp stepped <;> exact inv.res
  | acquire c =>
      obtain ⟨m, j, -, -, -, rfl⟩ := step_acquire_iff.mp stepped
      exact inv.res
  | work c x =>
      obtain ⟨m, p, r, turn, called, worked, rfl⟩ := step_work_iff.mp stepped
      rw [turned_res]
      exact T.keeps inv.res (.work (inv.calls c m _ called) worked)
  | resolve c =>
      obtain ⟨m, a, -, -, rfl⟩ := step_resolve_iff.mp stepped
      exact inv.res
  | cancel c => exact absurd ok id
  | env e =>
      obtain ⟨r, moved, rfl⟩ := step_env_iff.mp stepped
      exact T.keeps inv.res (.env ok moved)

theorem calls_step (e : Event M X E) (inv : T.Inv s) (ok : T.Ok s e)
    (stepped : step D env s e = some t) : ∀ c m ph, t.calls c = some (m, ph) → T.callOk m := by
  -- every move records a call that was admitted before, or the one admitted now
  have recorded : ∀ {c : CallId} {m : M} {ph : Phase P A}, T.callOk m →
      ∀ d n q, (Function.update s.calls c (some (m, ph))) d = some (n, q) → T.callOk n := by
    intro c m ph admitted d n q now
    by_cases self : d = c
    · subst self
      simp only [Function.update_self, Option.some.injEq, Prod.mk.injEq] at now
      exact now.1 ▸ admitted
    · exact inv.calls d n q (by simpa [self] using now)
  cases e with
  | call c m =>
      obtain ⟨-, ⟨a, -, rfl⟩ | ⟨j, -, rfl⟩⟩ := step_call_iff.mp stepped <;> exact recorded ok
  | acquire c =>
      obtain ⟨m, j, called, -, -, rfl⟩ := step_acquire_iff.mp stepped
      exact recorded (inv.calls c m _ called)
  | work c x =>
      obtain ⟨m, p, r, turn, called, -, rfl⟩ := step_work_iff.mp stepped
      rw [turned_calls]
      exact recorded (inv.calls c m _ called)
  | resolve c =>
      obtain ⟨m, a, called, -, rfl⟩ := step_resolve_iff.mp stepped
      exact recorded (inv.calls c m _ called)
  | cancel c => exact absurd ok id
  | env e =>
      obtain ⟨r, -, rfl⟩ := step_env_iff.mp stepped
      exact inv.calls

variable (T)

theorem inv_fresh (fresh : s.Fresh) (res : T.inv s.res) (empty : T.out s.res = []) : T.Inv s where
  toSequenced := sequenced_fresh fresh
  res := res
  calls := by simp [fresh.2.1]
  split := ⟨fun _ => [], fun _ => False, by simp [fresh.2.2, empty], by simp [fresh.2.2],
    by simp [fresh.2.2], by simp [fresh.2.2]⟩

theorem inv_step (e : Event M X E) (inv : T.Inv s) (ok : T.Ok s e)
    (stepped : step D env s e = some t) : T.Inv t where
  toSequenced := sequenced_step e inv.toSequenced stepped
  res := res_step e inv ok stepped
  calls := calls_step e inv ok stepped
  split := split_step e inv ok stepped

/-- **The lock serialises**: in every reachable state the record is the concatenation, in
lock order, of one explained segment for each call that took the lock. -/
theorem split {init : State ι R M P A → Prop}
    (base : ∀ s, init s → s.Fresh ∧ T.inv s.res ∧ T.out s.res = [])
    (reached : Reachable (step D env) T.Ok init s) : T.Inv s :=
  reached.keeps (fun s initial => T.inv_fresh (base s initial).1 (base s initial).2.1
    (base s initial).2.2) fun _ e _ inv ok stepped => T.inv_step e inv ok stepped

end Trail

end IrohKmp.Theory.Guarded
