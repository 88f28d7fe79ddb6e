/-
# Theory.GuardedEnd — calls that cannot hang

Once the resource makes no call wait any more, the calls under way come to their end however
they are scheduled: every run of their own steps is short, and while one of them is not over
some step is possible.

* `Event.Own` — the steps of calls already made: taking a lock, a turn, an answer;
* `Winding` — a resource that makes no call wait, and a size that goes down with every turn that
  does not end its call;
* `Wound` — the state of such a run, with a list of all calls under way;
* `Winding.bounded_runs`, `Winding.progress` — no run of own steps is longer than the load, and
  no run is stuck before the end;
* `ComesToRest`, `Winding.Wound.comesToRest` — so every such run can be carried on to where all
  calls are over.
-/
import IrohKmp.Theory.GuardedCalls

namespace IrohKmp.Theory.Guarded

open IrohKmp.Theory.Run
open State

set_option autoImplicit false
set_option linter.unusedSectionVars false

variable {ι R M P A X E : Type} [DecidableEq ι]
variable {D : Discipline ι R M P A X} {env : R → E → Option R} {s t : State ι R M P A}

/-- A step of a call that was made: not a new call, nothing cancelled, not the environment. -/
def Event.Own : Event M X E → Prop
  | .acquire _ | .work _ _ | .resolve _ => True
  | _ => False

/-- How many of its steps a call has left, but for the turns that keep the guard. -/
def Phase.weight : Phase P A → Nat
  | .waiting => 3
  | .holding _ => 2
  | .detached => 1
  | _ => 0

def State.weight (s : State ι R M P A) (c : CallId) : Nat :=
  match s.calls c with
  | some (_, ph) => ph.weight
  | none => 0

/-- The steps left of the calls on a list. -/
def State.weights (s : State ι R M P A) : List CallId → Nat
  | [] => 0
  | c :: calls => s.weight c + s.weights calls

/-- A resource that makes no call wait: every turn can be taken, every detached call is
answered, and that stays so. -/
structure Winding (D : Discipline ι R M P A X) where
  spent : R → Prop
  /-- The calls that go on without their guard. -/
  waits : M → Prop
  size : R → Nat
  keeps : ∀ {r m p x r' turn}, spent r → D.work r m p x = some (r', turn) → spent r'
  turns : ∀ {r m i}, spent r → D.route m = .ok i → ∀ p, ∃ x, (D.work r m p x).isSome
  detaches : ∀ {r m p x r'}, D.work r m p x = some (r', .detach) → waits m
  resolves : ∀ {r m}, spent r → waits m → (D.resolve r m).isSome
  shrinks : ∀ {r m p x r' p'}, spent r → D.work r m p x = some (r', .keep p') → size r' < size r
  bounded : ∀ {r m p x r' turn}, spent r → D.work r m p x = some (r', turn) → size r' ≤ size r

/-- Every call under way is on the list. -/
def Covers (calls : List CallId) (s : State ι R M P A) : Prop :=
  ∀ c m ph, s.calls c = some (m, ph) → ph.Live → c ∈ calls

theorem covers_fresh (fresh : s.Fresh) : Covers [] s := by
  intro c m ph called
  rw [fresh.2.1] at called
  cases called

/-- In every reachable state some list has all calls. -/
theorem covers_reachable {ok : State ι R M P A → Event M X E → Prop}
    (reached : Reachable (step D env) ok State.Fresh s) : ∃ calls, Covers calls s := by
  refine reached.keeps (I := fun s => ∃ calls, Covers calls s)
    (fun s fresh => ⟨[], covers_fresh fresh⟩) ?_
  rintro t e u ⟨calls, covers⟩ _ stepped
  have grown : ∀ {c : CallId} {m : M} {ph : Phase P A} {v : State ι R M P A},
      v.calls = Function.update t.calls c (some (m, ph)) → Covers (c :: calls) v := by
    intro c m ph v same d n q called live
    rw [same] at called
    by_cases self : d = c
    · simp [self]
    · exact List.mem_cons_of_mem _ (covers d n q (by simpa [self] using called) live)
  cases e with
  | call c m =>
      obtain ⟨-, ⟨a, -, rfl⟩ | ⟨i, -, rfl⟩⟩ := step_call_iff.mp stepped
      · exact ⟨c :: calls, grown rfl⟩
      · exact ⟨c :: calls, grown rfl⟩
  | acquire c =>
      obtain ⟨m, i, -, -, -, rfl⟩ := step_acquire_iff.mp stepped
      exact ⟨c :: calls, grown rfl⟩
  | work c x =>
      obtain ⟨m, p, r, turn, -, -, rfl⟩ := step_work_iff.mp stepped
      exact ⟨c :: calls, grown turned_calls⟩
  | resolve c =>
      obtain ⟨m, a, -, -, rfl⟩ := step_resolve_iff.mp stepped
      exact ⟨c :: calls, grown rfl⟩
  | cancel c =>
      obtain ⟨m, ph, -, -, -, rfl⟩ := step_cancel_iff.mp stepped
      exact ⟨c :: calls, grown (by simp only [unlock_calls]; rfl)⟩
  | env e =>
      obtain ⟨r, -, rfl⟩ := step_env_iff.mp stepped
      exact ⟨calls, covers⟩

/-- No call is under way. -/
def Quiet (s : State ι R M P A) : Prop := ∀ c m ph, s.calls c = some (m, ph) → ¬ ph.Live

/-! ## The weight of the calls -/

section Weight

variable {c d : CallId} {m n : M} {ph q : Phase P A} {calls : List CallId}

theorem weight_self (called : s.calls c = some (m, ph)) : s.weight c = ph.weight := by
  simp [State.weight, called]

theorem weights_congr (same : ∀ d ∈ calls, t.weight d = s.weight d) :
    t.weights calls = s.weights calls := by
  induction calls with
  | nil => rfl
  | cons d calls ih =>
      show t.weight d + t.weights calls = s.weight d + s.weights calls
      rw [same d (by simp), ih fun b member => same b (by simp [member])]

theorem weights_le (each : ∀ d, t.weight d ≤ s.weight d) : t.weights calls ≤ s.weights calls := by
  induction calls with
  | nil => exact Nat.le_refl 0
  | cons d calls ih =>
      show t.weight d + t.weights calls ≤ s.weight d + s.weights calls
      have first := each d
      omega

/-- One call moves on, and the weight of the calls goes down with its own. -/
theorem weights_lt (each : ∀ d, t.weight d ≤ s.weight d) (lighter : t.weight c < s.weight c)
    (member : c ∈ calls) : t.weights calls < s.weights calls := by
  induction calls with
  | nil => cases member
  | cons d calls ih =>
      show t.weight d + t.weights calls < s.weight d + s.weights calls
      have first := each d
      rcases List.mem_cons.mp member with rfl | later
      · have rest : t.weights calls ≤ s.weights calls := weights_le each
        omega
      · have rest := ih later
        omega

end Weight

/-! ## Every schedule comes to an end -/

namespace Winding

variable (W : Winding D)

/-- What is left to do: the steps of the calls, and the turns that keep the guard. -/
def load (calls : List CallId) (s : State ι R M P A) : Nat :=
  s.weights calls + W.size s.res

/-- A state whose resource is spent, with a list of the calls under way. -/
structure Wound (calls : List CallId) (s : State ι R M P A) : Prop where
  wf : WellFormed D s
  spent : W.spent s.res
  covers : Covers calls s
  waits : ∀ c m, s.calls c = some (m, .detached) → W.waits m

variable {W} {calls : List CallId}

namespace Wound

/-- A call of the list moves on by an own step. -/
theorem moved {c : CallId} {m : M} {ph ph' : Phase P A} (wound : W.Wound calls s)
    (called : s.calls c = some (m, ph)) (live : ph.Live) (wf : WellFormed D t)
    (spent : W.spent t.res) (same : t.calls = Function.update s.calls c (some (m, ph')))
    (waits : ph' = .detached → W.waits m) : W.Wound calls t where
  wf := wf
  spent := spent
  covers d n q now live' := by
    rw [same] at now
    by_cases self : d = c
    · exact self ▸ wound.covers c m ph called live
    · exact wound.covers d n q (by simpa [self] using now) live'
  waits d n now := by
    rw [same] at now
    by_cases self : d = c
    · subst self
      simp only [Function.update_self, Option.some.injEq, Prod.mk.injEq] at now
      exact now.1 ▸ waits now.2
    · exact wound.waits d n (by simpa [self] using now)

/-- An own step leaves a wound state, with less to do. -/
theorem step {e : Event M X E} (wound : W.Wound calls s) (own : e.Own)
    (stepped : Guarded.step D env s e = some t) :
    W.Wound calls t ∧ W.load calls t < W.load calls s := by
  have wf := wellFormed_step e wound.wf stepped
  have lighter : ∀ {c : CallId} {m : M} {ph ph' : Phase P A}, s.calls c = some (m, ph) →
      ph.Live → t.calls = Function.update s.calls c (some (m, ph')) → ph'.weight < ph.weight →
      W.size t.res ≤ W.size s.res → W.load calls t < W.load calls s := by
    intro c m ph ph' called live same less size
    have own : t.weight c < s.weight c := by
      have now : t.calls c = some (m, ph') := by simp [same]
      rw [weight_self called, weight_self now]
      exact less
    have weights : t.weights calls < s.weights calls := by
      apply weights_lt _ own (wound.covers c m ph called live)
      intro d
      by_cases self : d = c
      · exact self ▸ Nat.le_of_lt own
      · simp [State.weight, same, self]
    simp only [load]
    omega
  cases e with
  | acquire c =>
      obtain ⟨m, i, called, routed, -, rfl⟩ := step_acquire_iff.mp stepped
      exact ⟨wound.moved called trivial wf wound.spent rfl (by simp),
        lighter called trivial rfl (by simp [Phase.weight]) (Nat.le_refl _)⟩
  | work c x =>
      obtain ⟨m, p, r, turn, called, worked, rfl⟩ := step_work_iff.mp stepped
      have spent : W.spent (s.turned D c m r turn).res := by
        rw [turned_res]
        exact W.keeps wound.spent worked
      have size : W.size (s.turned D c m r turn).res ≤ W.size s.res := by
        rw [turned_res]
        exact W.bounded wound.spent worked
      refine ⟨wound.moved called trivial wf spent turned_calls fun waits => ?_, ?_⟩
      · cases turn with
        | detach => exact W.detaches worked
        | _ => cases waits
      · cases turn with
        | keep p' =>
            -- the call stays as heavy as it was; the resource gives the difference
            have kept : (s.turned D c m r (.keep p')).weights calls = s.weights calls := by
              apply weights_congr
              intro d _
              by_cases self : d = c
              · subst self
                have now : (s.turned D d m r (.keep p')).calls d = some (m, .holding p') := by simp
                rw [weight_self called, weight_self now]
                rfl
              · simp [State.weight, self]
            have smaller := W.shrinks wound.spent worked
            simp only [load, kept, turned_res]
            omega
        | finish a => exact lighter called trivial turned_calls (by simp [Phase.weight]) size
        | detach => exact lighter called trivial turned_calls (by simp [Phase.weight]) size
  | resolve c =>
      obtain ⟨m, a, called, -, rfl⟩ := step_resolve_iff.mp stepped
      exact ⟨wound.moved called trivial wf wound.spent rfl (by simp),
        lighter called trivial rfl (by simp [Phase.weight]) (Nat.le_refl _)⟩
  | call | cancel | env => exact absurd own id

end Wound

/-- **No run of own steps is longer than the load.** -/
theorem bounded_runs (es : List (Event M X E)) {s : State ι R M P A} (wound : W.Wound calls s)
    (own : ∀ e ∈ es, e.Own) (done : exec (Guarded.step D env) s es = some t) :
    W.Wound calls t ∧ es.length + W.load calls t ≤ W.load calls s := by
  induction es generalizing s with
  | nil =>
      cases done
      exact ⟨wound, by simp⟩
  | cons e es ih =>
      obtain ⟨u, first, rest⟩ := Option.bind_eq_some_iff.mp done
      obtain ⟨wound', less⟩ := wound.step (own e (by simp)) first
      obtain ⟨last, short⟩ := ih wound' (fun f member => own f (by simp [member])) rest
      refine ⟨last, ?_⟩
      rw [List.length_cons]
      omega

/-- **While a call is not over, some own step is possible.** -/
theorem progress (env : R → E → Option R) {c : CallId} {m : M} {ph : Phase P A}
    (wound : W.Wound calls s) (called : s.calls c = some (m, ph)) (live : ph.Live) :
    ∃ e : Event M X E, e.Own ∧ (Guarded.step D env s e).isSome := by
  have inLine : ph.InLine → ∃ e : Event M X E, e.Own ∧ (Guarded.step D env s e).isSome := by
    intro inLine
    obtain ⟨i, routed⟩ := wound.wf.routed c m ph called live
    have member := (wound.wf.mem_queue i c).mpr ⟨m, ph, called, routed, inLine⟩
    obtain ⟨d, head⟩ : ∃ d, (s.queue i).head? = some d := by
      cases line : s.queue i with
      | nil =>
          rw [line] at member
          cases member
      | cons d rest => exact ⟨d, rfl⟩
    obtain ⟨n, q, first, routed', inLine'⟩ :=
      (wound.wf.mem_queue i d).mp (List.mem_of_mem_head? (by rw [head]; rfl))
    rcases Phase.inLine_iff.mp inLine' with rfl | ⟨p, rfl⟩
    · refine ⟨.acquire d, trivial, ?_⟩
      rw [step_acquire_iff.mpr ⟨n, i, first, routed', head, rfl⟩]
      rfl
    · obtain ⟨x, works⟩ := W.turns wound.spent routed' p
      obtain ⟨⟨r, turn⟩, worked⟩ := Option.isSome_iff_exists.mp works
      refine ⟨.work d x, trivial, ?_⟩
      rw [step_work_iff.mpr ⟨n, p, r, turn, first, worked, rfl⟩]
      rfl
  cases ph with
  | waiting => exact inLine trivial
  | holding p => exact inLine trivial
  | detached =>
      obtain ⟨a, answer⟩ := Option.isSome_iff_exists.mp
        (W.resolves wound.spent (wound.waits c m called))
      refine ⟨.resolve c, trivial, ?_⟩
      rw [step_resolve_iff.mpr ⟨m, a, called, answer, rfl⟩]
      rfl
  | ended a | cancelled => exact absurd live id

/-- **Every such run can be carried on to the end of all calls.** -/
theorem finishes (env : R → E → Option R) {s : State ι R M P A} (wound : W.Wound calls s) :
    ∃ (es : List (Event M X E)) (t : State ι R M P A), (∀ e ∈ es, e.Own) ∧
      exec (Guarded.step D env) s es = some t ∧ Quiet t := by
  induction load : W.load calls s using Nat.strongRecOn generalizing s with
  | ind k ih =>
      subst load
      by_cases quiet : Quiet s
      · exact ⟨[], s, by simp, rfl, quiet⟩
      · simp only [Quiet, not_forall, not_not] at quiet
        obtain ⟨c, m, ph, called, live⟩ := quiet
        obtain ⟨e, own, can⟩ := W.progress env wound called live
        obtain ⟨u, first⟩ := Option.isSome_iff_exists.mp can
        obtain ⟨wound', less⟩ := wound.step own first
        obtain ⟨es, t, owns, done, quiet⟩ := ih _ less wound' rfl
        refine ⟨e :: es, t, ?_, ?_, quiet⟩
        · simpa using ⟨own, owns⟩
        · rw [exec_cons, first]
          exact done

end Winding

/-- However the calls under way are scheduled, they come to their end. -/
structure ComesToRest (D : Discipline ι R M P A X) (env : R → E → Option R)
    (s : State ι R M P A) : Prop where
  /-- No schedule of their steps goes on for ever, -/
  bounded : ∃ n, ∀ (es : List (Event M X E)) (t : State ι R M P A), (∀ e ∈ es, e.Own) →
    exec (Guarded.step D env) s es = some t → es.length ≤ n
  /-- none gets stuck while a call is under way, -/
  goesOn : ∀ (es : List (Event M X E)) (t : State ι R M P A), (∀ e ∈ es, e.Own) →
    exec (Guarded.step D env) s es = some t → Quiet t ∨
      ∃ e : Event M X E, e.Own ∧ (Guarded.step D env t e).isSome
  /-- and so some schedule leads to the end of all. -/
  ends : ∃ (es : List (Event M X E)) (t : State ι R M P A), (∀ e ∈ es, e.Own) ∧
    exec (Guarded.step D env) s es = some t ∧ Quiet t

/-- **The calls on a spent resource end.** -/
theorem Winding.Wound.comesToRest {W : Winding D} {calls : List CallId}
    (wound : W.Wound calls s) : ComesToRest D env s where
  bounded := by
    refine ⟨W.load calls s, fun es t own done => ?_⟩
    have short := (W.bounded_runs es wound own done).2
    omega
  goesOn es t own done := by
    have after := (W.bounded_runs es wound own done).1
    by_cases quiet : Quiet t
    · exact .inl quiet
    · simp only [Quiet, not_forall, not_not] at quiet
      obtain ⟨c, m, ph, called, live⟩ := quiet
      exact .inr (W.progress env after called live)
  ends := W.finishes env wound

end IrohKmp.Theory.Guarded
