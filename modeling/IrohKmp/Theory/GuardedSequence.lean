/-
# Theory.GuardedSequence — concurrent calls told as calls made one after the other

The calls on one lock take turns, wait for the environment, are cancelled, and share the
resource with the calls on other locks. What they did can still be told without any of that:
an object of which the lock protects the whole state, and one call after the other on it, in
the order of the lock.

* `Serial` — the object (`view`), and what a call that stands at some phase did to it (`did`),
  as far as what the environment has done by then is known for good;
* `Serial.Chain` — the calls of a list, one after the other, took the object from `v` to `w`;
* `Serial.told_via` — the calls of any run, in lock order, are such a chain from the object at
  the start to the object now;
* `taken_via`, `before_of_over` — the order of the lock is the order in time of calls that
  did not overlap;
* `Serial.Linear`, `Serial.linear` — both together;
* `Serial.chain_keeps`, `chain_brings`, `chain_parts`, `did_at`, `did_behind` — reading a chain.
-/
import IrohKmp.Theory.GuardedCalls

namespace IrohKmp.Theory.Guarded

open IrohKmp.Theory.Run
open State

set_option autoImplicit false
set_option linter.unusedSectionVars false

variable {ι R M P A X E V : Type} [DecidableEq ι]
variable {D : Discipline ι R M P A X} {env : R → E → Option R} {s t u : State ι R M P A}

/-! ## The order of the lock and the order in time -/

theorem taken_step {e : Event M X E} (stepped : step D env s e = some t) (i : ι) :
    s.taken i <+: t.taken i := by
  cases e with
  | call c m =>
      obtain ⟨-, ⟨a, -, rfl⟩ | ⟨j, -, rfl⟩⟩ := step_call_iff.mp stepped
      · exact List.prefix_refl _
      · exact List.prefix_refl _
  | acquire c =>
      obtain ⟨m, j, -, -, -, rfl⟩ := step_acquire_iff.mp stepped
      by_cases same : i = j
      · subst same
        simp
      · simp [same]
  | work c x =>
      obtain ⟨m, p, r, turn, -, -, rfl⟩ := step_work_iff.mp stepped
      simp
  | resolve c =>
      obtain ⟨m, a, -, -, rfl⟩ := step_resolve_iff.mp stepped
      exact List.prefix_refl _
  | cancel c =>
      obtain ⟨m, ph, -, -, -, rfl⟩ := step_cancel_iff.mp stepped
      simp
  | env e =>
      obtain ⟨r, -, rfl⟩ := step_env_iff.mp stepped
      exact List.prefix_refl _

/-- Histories only grow at the end. -/
theorem taken_via {ok : State ι R M P A → Event M X E → Prop} (run : Via (step D env) ok s t)
    (i : ι) : s.taken i <+: t.taken i := by
  refine run.keeps (I := fun u => s.taken i <+: u.taken i) (List.prefix_refl _) ?_
  intro u e v before _ stepped
  exact before.trans (taken_step stepped i)

/-- A call that took the lock before another one was made comes before it. -/
theorem before_of_over {ok : State ι R M P A → Event M X E → Prop} {i : ι} {c d : CallId}
    (seq : Sequenced D s) (run : Via (step D env) ok s t) (taken : c ∈ s.taken i)
    (unmade : s.calls d = none) (later : d ∈ t.taken i) : [c, d].Sublist (t.taken i) := by
  obtain ⟨rest, split⟩ := taken_via run i
  have absent : d ∉ s.taken i := seq.ord.not_taken fun n q called => by
    rw [unmade] at called
    cases called
  rw [← split, List.mem_append] at later
  rw [← split]
  exact (List.singleton_sublist.mpr taken).append
    (List.singleton_sublist.mpr (later.resolve_left absent))

/-- Of two calls of a history, one comes first. -/
theorem one_before {line : List CallId} {c d : CallId} (hc : c ∈ line) (hd : d ∈ line)
    (differ : c ≠ d) : (∃ before behind, line = before ++ d :: behind ∧ c ∈ before) ∨
      ∃ before behind, line = before ++ c :: behind ∧ d ∈ before := by
  obtain ⟨before, behind, rfl⟩ := List.append_of_mem hd
  rcases List.mem_append.mp hc with early | late
  · exact .inl ⟨before, behind, rfl, early⟩
  · have behind' : c ∈ behind := (List.mem_cons.mp late).resolve_left differ
    obtain ⟨between, rest, rfl⟩ := List.append_of_mem behind'
    exact .inr ⟨before ++ d :: between, rest, by simp, by simp⟩

theorem split_of_sublist {line : List CallId} {c d : CallId} (order : [c, d].Sublist line) :
    ∃ before behind, line = before ++ d :: behind ∧ c ∈ before := by
  induction line with
  | nil => cases order
  | cons x line ih =>
      cases order with
      | cons _ rest =>
          obtain ⟨before, behind, rfl, member⟩ := ih rest
          exact ⟨x :: before, behind, rfl, by simp [member]⟩
      | cons_cons _ rest =>
          obtain ⟨before, behind, rfl⟩ := List.append_of_mem (List.singleton_sublist.mp rest)
          exact ⟨c :: before, behind, rfl, by simp⟩

theorem sublist_of_split {line before behind : List CallId} {c d : CallId}
    (split : line = before ++ d :: behind) (member : c ∈ before) : [c, d].Sublist line := by
  rw [split]
  exact (List.singleton_sublist.mpr member).append (List.singleton_sublist.mpr (by simp))

/-- Two calls of a history that come in neither order are one. -/
theorem eq_of_unordered {line : List CallId} {c d : CallId} (hc : c ∈ line) (hd : d ∈ line)
    (first : ¬ [c, d].Sublist line) (second : ¬ [d, c].Sublist line) : c = d := by
  by_contra differ
  rcases one_before hc hd differ with
    ⟨before, behind, split, member⟩ | ⟨before, behind, split, member⟩
  · exact first (sublist_of_split split member)
  · exact second (sublist_of_split split member)

/-! ## The object behind a lock -/

/-- The object that lock `i` protects. `did r m ph v w` says that a call `m` which stands at
`ph` has taken it from `v` to `w`, over a resource that has come to `r`; nothing but the calls on
lock `i` touches the object. -/
structure Serial (D : Discipline ι R M P A X) (env : R → E → Option R) (i : ι) (V : Type) where
  view : R → V
  inv : R → Prop
  did : R → M → Phase P A → V → V → Prop
  keeps : ∀ {r r'}, inv r → Change D env (fun _ => True) (fun _ => True) r r' → inv r'
  begins : ∀ {r m v}, D.route m = .ok i → did r m (.holding (D.start m)) v v
  works : ∀ {r m p x r' turn v}, inv r → D.route m = .ok i → did r m (.holding p) v (view r) →
    D.work r m p x = some (r', turn) → did r' m turn.phase v (view r')
  /-- What a call did stays done. -/
  lasts : ∀ {r r' m ph v w}, Change D env (fun _ => True) (fun _ => True) r r' →
    did r m ph v w → did r' m ph v w
  /-- Calls on the other locks leave the object alone, -/
  apart : ∀ {r m j p x r' turn}, D.route m = .ok j → j ≠ i → D.work r m p x = some (r', turn) →
    view r' = view r
  /-- and so does the environment. -/
  calm : ∀ {r e r'}, env r e = some r' → view r' = view r
  resolves : ∀ {r m a v w}, inv r → D.resolve r m = some a → did r m .detached v w →
    did r m (.ended a) v w
  drops : ∀ {r m ph v w}, D.cancellable m = true → ph.Live → did r m ph v w →
    did r m .cancelled v w

namespace Serial

variable {i : ι} (T : Serial D env i V)

/-- Call `c`, as far as it has got, took the object from `v` to `w`. -/
def Did (s : State ι R M P A) (c : CallId) (v w : V) : Prop :=
  ∃ m ph, s.calls c = some (m, ph) ∧ T.did s.res m ph v w

/-- The calls of a list, one after the other, took the object from `v` to `w`. -/
def Chain (s : State ι R M P A) : V → List CallId → V → Prop
  | v, [], w => w = v
  | v, c :: cs, w => ∃ x, T.Did s c v x ∧ Chain s x cs w

variable {T} {v w : V}

@[simp] theorem chain_nil : T.Chain s v [] w ↔ w = v := Iff.rfl

theorem chain_append {cs ds : List CallId} :
    T.Chain s v (cs ++ ds) w ↔ ∃ x, T.Chain s v cs x ∧ T.Chain s x ds w := by
  induction cs generalizing v with
  | nil => simp
  | cons c cs ih =>
      simp only [List.cons_append, Chain, ih]
      constructor
      · rintro ⟨x, did, y, before, after⟩
        exact ⟨y, ⟨x, did, before⟩, after⟩
      · rintro ⟨y, ⟨x, did, before⟩, after⟩
        exact ⟨x, did, y, before, after⟩

theorem chain_singleton {c : CallId} : T.Chain s v [c] w ↔ T.Did s c v w := by
  simp [Chain]

/-- What each call did in one state it did in the other. -/
theorem chain_mono {cs : List CallId}
    (each : ∀ c ∈ cs, ∀ v w, T.Did s c v w → T.Did t c v w) (chain : T.Chain s v cs w) :
    T.Chain t v cs w := by
  induction cs generalizing v with
  | nil => exact chain
  | cons c cs ih =>
      obtain ⟨x, did, rest⟩ := chain
      exact ⟨x, each c (by simp) v x did, ih (fun d member => each d (by simp [member])) rest⟩

/-- The calls of a chain stand where they stood. -/
theorem chain_congr {cs : List CallId} (chain : T.Chain s v cs w) (res : t.res = s.res)
    (same : ∀ c ∈ cs, t.calls c = s.calls c) : T.Chain t v cs w := by
  refine chain_mono (fun c member v w did => ?_) chain
  obtain ⟨m, ph, called, did⟩ := did
  exact ⟨m, ph, (same c member).trans called, res ▸ did⟩

/-- The calls of a chain did what they did, whatever becomes of the resource. -/
theorem chain_lasts {cs : List CallId} (chain : T.Chain s v cs w)
    (change : Change D env (fun _ => True) (fun _ => True) s.res t.res)
    (same : t.calls = s.calls) : T.Chain t v cs w := by
  refine chain_mono (fun c _ v w did => ?_) chain
  obtain ⟨m, ph, called, did⟩ := did
  exact ⟨m, ph, by rw [same, called], T.lasts change did⟩

theorem chain_record {cs : List CallId} {c : CallId} {m : M} {ph : Phase P A} (absent : c ∉ cs)
    (chain : T.Chain s v cs w) : T.Chain (s.record c m ph) v cs w := by
  refine chain_congr chain rfl fun d member => ?_
  have other : d ≠ c := fun same => absent (same ▸ member)
  simp [other]

/-- One call of a chain moves on to a phase at which it did the same. -/
theorem chain_rephase {cs : List CallId} {c : CallId} {m : M} {ph ph' : Phase P A}
    (called : s.calls c = some (m, ph))
    (same : ∀ v w, T.did s.res m ph v w → T.did s.res m ph' v w)
    (chain : T.Chain s v cs w) : T.Chain (s.record c m ph') v cs w := by
  refine chain_mono (fun d member v w did => ?_) chain
  obtain ⟨n, q, now, did⟩ := did
  by_cases self : d = c
  · subst self
    rw [called] at now
    cases now
    exact ⟨m, ph', by simp, same v w did⟩
  · exact ⟨n, q, by simpa [self] using now, did⟩

/-! ## Every run is a chain -/

variable (T) in
/-- The calls that took the lock, in its order, took the object from `v` to what it is. -/
structure Told (v : V) (s : State ι R M P A) : Prop extends Sequenced D s where
  res : T.inv s.res
  chain : T.Chain s v (s.taken i) (T.view s.res)

namespace Told

variable {c : CallId} {m : M} {j : ι}

theorem work (told : T.Told v s) {p : P} {x : X} {r : R} {turn : Turn P A}
    (called : s.calls c = some (m, .holding p)) (routed : D.route m = .ok j)
    (worked : D.work s.res m p x = some (r, turn)) :
    T.Chain (({ s with res := r } : State ι R M P A).record c m turn.phase) v (s.taken i)
      (T.view r) := by
  have lasts : ∀ {cs w}, T.Chain s v cs w →
      T.Chain ({ s with res := r } : State ι R M P A) v cs w :=
    fun chain => chain_lasts chain (.work trivial worked) rfl
  by_cases own : j = i
  · subst own
    obtain ⟨before, taken⟩ := told.ord.last j c m p called routed
    have absent : c ∉ before := by
      intro member
      have nodup := told.ord.nodup j
      rw [taken, List.nodup_append] at nodup
      exact nodup.2.2 c member c (by simp) rfl
    have chain := told.chain
    rw [taken] at chain ⊢
    obtain ⟨y, earlier, own⟩ := chain_append.mp chain
    obtain ⟨n, q, now, did⟩ := chain_singleton.mp own
    rw [called] at now
    cases now
    refine chain_append.mpr ⟨y, chain_record absent (lasts earlier), chain_singleton.mpr ?_⟩
    exact ⟨m, turn.phase, by simp, T.works told.res routed did worked⟩
  · have absent : c ∉ s.taken i := by
      intro member
      obtain ⟨_, _, now, routed', -⟩ := told.ord.past i c member
      rw [called] at now
      cases now
      rw [routed] at routed'
      cases routed'
      exact own rfl
    rw [T.apart routed own worked]
    exact chain_record absent (lasts told.chain)

theorem acquire (told : T.Told v s) (called : s.calls c = some (m, .waiting))
    (routed : D.route m = .ok j) :
    T.Chain ((s.record c m (.holding (D.start m))).take j c) v
      (((s.record c m (.holding (D.start m))).take j c).taken i) (T.view s.res) := by
  have absent : c ∉ s.taken i := told.ord.not_taken fun n q now => by
    rw [called] at now
    cases now
    rfl
  have before : T.Chain ((s.record c m (.holding (D.start m))).take j c) v (s.taken i)
      (T.view s.res) := chain_congr (chain_record absent told.chain) rfl fun _ _ => rfl
  by_cases own : i = j
  · subst own
    rw [take_taken, Function.update_self]
    refine chain_append.mpr ⟨_, before, chain_singleton.mpr ?_⟩
    exact ⟨m, .holding (D.start m), by simp, T.begins routed⟩
  · simpa [own] using before

theorem step (told : T.Told v s) (e : Event M X E) (stepped : step D env s e = some t) :
    T.Told v t where
  toSequenced := sequenced_step e told.toSequenced stepped
  res := by
    obtain same | change := change_of_step stepped
    · rw [same]
      exact told.res
    · exact T.keeps told.res (change.mono fun _ _ => trivial)
  chain := by
    cases e with
    | call c m =>
        obtain ⟨new, ⟨a, -, rfl⟩ | ⟨j, -, rfl⟩⟩ := step_call_iff.mp stepped
        all_goals
          have absent : c ∉ s.taken i := told.ord.not_taken (by simp [new])
          exact chain_congr (chain_record absent told.chain) rfl fun _ _ => rfl
    | acquire c =>
        obtain ⟨m, j, called, routed, -, rfl⟩ := step_acquire_iff.mp stepped
        exact told.acquire called routed
    | work c x =>
        obtain ⟨m, p, r, turn, called, worked, rfl⟩ := step_work_iff.mp stepped
        obtain ⟨j, routed⟩ := told.wf.routed c m _ called trivial
        rw [turned_taken, turned_res]
        exact chain_congr (told.work called routed worked) (by simp) fun _ _ => by simp
    | resolve c =>
        obtain ⟨m, a, called, answer, rfl⟩ := step_resolve_iff.mp stepped
        exact chain_rephase called (fun _ _ => T.resolves told.res answer) told.chain
    | cancel c =>
        obtain ⟨m, ph, called, live, droppable, rfl⟩ := step_cancel_iff.mp stepped
        rw [unlock_taken, unlock_res]
        have dropped : T.Chain (s.record c m .cancelled) v (s.taken i) (T.view s.res) :=
          chain_rephase called (fun _ _ => T.drops droppable live) told.chain
        exact chain_congr dropped (by simp) fun _ _ => by rw [unlock_calls]
    | env e =>
        obtain ⟨r, moved, rfl⟩ := step_env_iff.mp stepped
        show T.Chain _ v (s.taken i) (T.view r)
        rw [T.calm moved]
        exact chain_lasts told.chain (.env trivial moved) rfl

end Told

theorem told_fresh (fresh : s.Fresh) (res : T.inv s.res) : T.Told (T.view s.res) s where
  toSequenced := sequenced_fresh fresh
  res := res
  chain := by simp [fresh.2.2]

/-- **One after the other**: whatever the calls and the environment do, the calls on a lock did
to its object what they would have done one after the other, in the order of the lock. -/
theorem told_via {ok : State ι R M P A → Event M X E → Prop} (fresh : s.Fresh)
    (res : T.inv s.res) (run : Via (Guarded.step D env) ok s t) : T.Told (T.view s.res) t :=
  run.keeps (told_fresh fresh res) fun _ e _ told _ stepped => told.step e stepped

variable (T) in
/-- What a run from `s₀` shows of the calls on lock `i`: an order of them, and in it one
account of all they did. -/
structure Linear (s₀ s : State ι R M P A) : Prop where
  once : (s.taken i).Nodup
  /-- Every call that got past the line is in the order, but perhaps one that was cancelled. -/
  all : ∀ c m ph, s.calls c = some (m, ph) → D.route m = .ok i → ph ≠ .waiting →
    ph ≠ .cancelled → c ∈ s.taken i
  told : T.Chain s (T.view s₀.res) (s.taken i) (T.view s.res)
  /-- A call that was over before another one was made comes first. -/
  inTime : ∀ u c m a d, Via (Guarded.step D env) Any s₀ u → Via (Guarded.step D env) Any u s →
    u.calls c = some (m, .ended a) → D.route m = .ok i → u.calls d = none → d ∈ s.taken i →
    [c, d].Sublist (s.taken i)

theorem linear {s₀ : State ι R M P A} (fresh : s₀.Fresh) (res : T.inv s₀.res)
    (run : Via (Guarded.step D env) Any s₀ s) : T.Linear s₀ s where
  once := (told_via fresh res run).ord.nodup i
  all c m ph := (told_via fresh res run).ord.mem i c m ph
  told := (told_via fresh res run).chain
  inTime u c m a d early late called routed unmade later := by
    have seq : Sequenced D u := (told_via fresh res early).toSequenced
    have taken : c ∈ u.taken i := seq.ord.mem i c m _ called routed (by simp) (by simp)
    exact before_of_over seq late taken unmade later

/-! ## Reading a chain -/

/-- A fact that every call of a chain keeps. -/
theorem chain_keeps {I : V → Prop} {cs : List CallId}
    (each : ∀ c ∈ cs, ∀ v w, T.Did s c v w → I v → I w) (start : I v) (chain : T.Chain s v cs w) :
    I w := by
  induction cs generalizing v with
  | nil => exact chain_nil.mp chain ▸ start
  | cons c cs ih =>
      obtain ⟨x, did, rest⟩ := chain
      exact ih (fun d member => each d (by simp [member])) (each c (by simp) v x did start) rest

/-- A fact that holds at the end of a chain held at its start, or came with one of the calls. -/
theorem chain_brings {I : V → Prop} {cs : List CallId} (chain : T.Chain s v cs w) (late : I w) :
    I v ∨ ∃ c ∈ cs, ∃ x y, T.Did s c x y ∧ ¬ I x ∧ I y := by
  induction cs generalizing v with
  | nil => exact .inl (chain_nil.mp chain ▸ late)
  | cons c cs ih =>
      obtain ⟨x, did, rest⟩ := chain
      obtain held | ⟨d, member, brought⟩ := ih rest
      · by_cases before : I v
        · exact .inl before
        · exact .inr ⟨c, by simp, v, x, did, before, held⟩
      · exact .inr ⟨d, by simp [member], brought⟩

/-- A record that each call extends by its part is the calls' parts in turn. -/
theorem chain_parts {B : Type} (record : V → List B) (part : CallId → List B → Prop)
    {cs : List CallId} (nodup : cs.Nodup)
    (each : ∀ c ∈ cs, ∀ v w, T.Did s c v w → ∃ seg, part c seg ∧ record w = record v ++ seg)
    (chain : T.Chain s v cs w) :
    ∃ seg, record w = record v ++ cs.flatMap seg ∧ ∀ c ∈ cs, part c (seg c) := by
  induction cs generalizing v with
  | nil => exact ⟨fun _ => [], by simp [chain_nil.mp chain], by simp⟩
  | cons c cs ih =>
      obtain ⟨x, did, rest⟩ := chain
      obtain ⟨absent, nodup⟩ := List.nodup_cons.mp nodup
      obtain ⟨own, holds, first⟩ := each c (by simp) v x did
      obtain ⟨seg, later, parts⟩ := ih nodup (fun d member => each d (by simp [member])) rest
      have other : ∀ d ∈ cs, d ≠ c := fun d member same => absent (same ▸ member)
      refine ⟨Function.update seg c own, ?_, fun d member => ?_⟩
      · have same : cs.flatMap (Function.update seg c own) = cs.flatMap seg :=
          List.flatMap_congr fun d member => Function.update_of_ne (other d member) _ _
        rw [later, first, List.flatMap_cons, Function.update_self, same, List.append_assoc]
      · rcases List.mem_cons.mp member with rfl | behind
        · simpa using holds
        · simpa [other d behind] using parts d behind

/-- One call of a chain, with the calls before it and the calls behind it. -/
theorem did_at {cs before behind : List CallId} {c : CallId} (split : cs = before ++ c :: behind)
    (chain : T.Chain s v cs w) :
    ∃ x y, T.Chain s v before x ∧ T.Did s c x y ∧ T.Chain s y behind w := by
  rw [split] at chain
  obtain ⟨x, earlier, y, did, later⟩ := chain_append.mp chain
  exact ⟨x, y, earlier, did, later⟩

/-- Of two calls of a chain the later one starts from what the earlier one left and every call
kept. -/
theorem did_behind {I : V → Prop} {cs : List CallId} {c d : CallId}
    (each : ∀ c v w, T.Did s c v w → I v → I w) (order : [c, d].Sublist cs)
    (chain : T.Chain s v cs w) :
    ∃ x y x' y', T.Did s c x y ∧ T.Did s d x' y' ∧ (I y → I x') := by
  obtain ⟨before, behind, split, member⟩ := split_of_sublist order
  obtain ⟨x', y', earlier, later, -⟩ := did_at split chain
  obtain ⟨first, between, split⟩ := List.append_of_mem member
  obtain ⟨x, y, -, did, kept⟩ := did_at split earlier
  exact ⟨x, y, x', y', did, later, fun start => chain_keeps (fun c _ => each c) start kept⟩

end Serial

end IrohKmp.Theory.Guarded
