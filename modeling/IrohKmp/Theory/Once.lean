/-
# Theory.Once — code that the first of any number of callers runs

A cell starts incomplete. The first caller to enter runs the code, step by step, and asks its
surroundings something at each; the others wait until the code has returned, and return without
running it.

* `Code`, `Code.run` — code that goes on by answers, and a sequential run of it;
* `State`, `step` — the cell, what the code works on, and the callers, in any order;
* `sequential_reachable` — what the callers see is one sequential run of the code, the first's;
* `settled_via`, `all_return` — it is final when anyone has returned, and everyone can.
-/
import IrohKmp.Theory.Run
import Mathlib.Logic.Function.Basic

namespace IrohKmp.Theory.Once

open IrohKmp.Theory.Run

set_option autoImplicit false
set_option linter.unusedSectionVars false

variable {C A P R S : Type}

/-- Code of arguments `A` that works on `S`, and goes on from phase to phase by answers `R`. -/
structure Code (A P R S : Type) where
  entry : A → P
  /-- `none` if this answers nothing the code asks; without a phase left, the code has returned. -/
  step : S → P → R → Option (S × Option P)

namespace Code

variable (code : Code A P R S)

/-- What a list of answers leads to, from a phase. -/
def run : S → P → List R → Option (S × Option P)
  | s, p, [] => some (s, some p)
  | s, p, r :: rs =>
      match code.step s p r with
      | some (s', some p') => run s' p' rs
      | some (s', none) => if rs.isEmpty then some (s', none) else none
      | none => none

/-- From every phase, some answers bring the code to its end. -/
def Ends : Prop := ∀ s p, ∃ rs s', code.run s p rs = some (s', none)

variable {code} {s s' : S} {p p' : P} {r : R} {rs : List R}

theorem run_single : code.run s p [r] = code.step s p r := by
  simp only [run]
  split <;> simp_all

/-- One answer more. -/
theorem run_concat (before : code.run s p rs = some (s', some p')) :
    code.run s p (rs ++ [r]) = code.step s' p' r := by
  induction rs generalizing s p with
  | nil =>
      cases before
      exact run_single
  | cons q rs ih =>
      simp only [run] at before
      simp only [List.cons_append, run]
      split at before
      · exact ih before
      · split at before <;> cases before
      · cases before

/-- What every step that goes on keeps, holds wherever a run goes on. -/
theorem run_keeps {I : S → P → Prop} (base : I s p)
    (kept : ∀ s p r s' p', I s p → code.step s p r = some (s', some p') → I s' p')
    (ran : code.run s p rs = some (s', some p')) : I s' p' := by
  induction rs generalizing s p with
  | nil =>
      cases ran
      exact base
  | cons r rs ih =>
      simp only [run] at ran
      split at ran
      · rename_i next
        exact ih (kept _ _ _ _ _ base next) ran
      · split at ran <;> cases ran
      · cases ran

end Code

/-! ## The cell and its callers -/

inductive Cell (C P : Type) where
  | incomplete
  | running (c : C) (phase : P)
  /-- The code of `c` has returned. -/
  | complete (c : C)

inductive Status where
  /-- Before the cell, or waiting for its runner. -/
  | waiting
  /-- Runs the code, or has run it. -/
  | inside
  | returned

structure State (C A P R S : Type) where
  shared : S
  cell : Cell C P
  /-- What the code was answered. -/
  answers : List R
  /-- The callers, with their arguments. -/
  calls : C → Option (A × Status)

inductive Event (C A R : Type) where
  | call (c : C) (a : A)
  | enter (c : C)
  | answer (r : R)
  | leave (c : C)

namespace State

variable [DecidableEq C]

def record (s : State C A P R S) (c : C) (a : A) (status : Status) : State C A P R S :=
  { s with calls := Function.update s.calls c (some (a, status)) }

def answered (s : State C A P R S) (r : R) (shared : S) (cell : Cell C P) : State C A P R S :=
  { s with shared := shared, cell := cell, answers := s.answers ++ [r] }

/-- The cell is incomplete, and nobody has called. -/
structure Fresh (s₀ : S) (s : State C A P R S) : Prop where
  shared : s.shared = s₀
  cell : s.cell = .incomplete
  answers : s.answers = []
  calls : ∀ c, s.calls c = none

end State

section Machine

variable [DecidableEq C] (code : Code A P R S)

def step (s : State C A P R S) : Event C A R → Option (State C A P R S)
  | .call c a =>
      match s.calls c with
      | some _ => none
      | none => some (s.record c a .waiting)
  | .enter c =>
      match s.cell, s.calls c with
      | .incomplete, some (a, .waiting) =>
          some { s.record c a .inside with cell := .running c (code.entry a) }
      | _, _ => none
  | .answer r =>
      match s.cell with
      | .running c p => (code.step s.shared p r).map fun
          | (shared, some p') => s.answered r shared (.running c p')
          | (shared, none) => s.answered r shared (.complete c)
      | _ => none
  | .leave c =>
      match s.cell, s.calls c with
      | .complete _, some (_, .returned) => none
      | .complete _, some (a, _) => some (s.record c a .returned)
      | _, _ => none

variable {code} {s t : State C A P R S} {s₀ : S} {c d : C} {a : A} {e : Event C A R}
  {status : Status}

/-- Everything a step can be. -/
inductive Stepped (code : Code A P R S) (s t : State C A P R S) : Event C A R → Prop
  | call {c : C} {a : A} (new : s.calls c = none) (same : t = s.record c a .waiting) :
      Stepped code s t (.call c a)
  | enter {c : C} {a : A} (first : s.cell = .incomplete) (known : s.calls c = some (a, .waiting))
      (same : t = { s.record c a .inside with cell := .running c (code.entry a) }) :
      Stepped code s t (.enter c)
  | goes {c : C} {p p' : P} {r : R} {shared : S} (runs : s.cell = .running c p)
      (stepped : code.step s.shared p r = some (shared, some p'))
      (same : t = s.answered r shared (.running c p')) : Stepped code s t (.answer r)
  | ends {c : C} {p : P} {r : R} {shared : S} (runs : s.cell = .running c p)
      (stepped : code.step s.shared p r = some (shared, none))
      (same : t = s.answered r shared (.complete c)) : Stepped code s t (.answer r)
  | leave {c d : C} {a : A} {status : Status} (done : s.cell = .complete d)
      (known : s.calls c = some (a, status)) (same : t = s.record c a .returned) :
      Stepped code s t (.leave c)

theorem step_cases (stepped : step code s e = some t) : Stepped code s t e := by
  cases e with
  | call c a =>
      simp only [step] at stepped
      split at stepped
      · cases stepped
      · cases stepped
        exact .call ‹_› rfl
  | enter c =>
      simp only [step] at stepped
      split at stepped
      · cases stepped
        exact .enter ‹_› ‹_› rfl
      · cases stepped
  | answer r =>
      simp only [step] at stepped
      split at stepped
      · obtain ⟨⟨shared, _ | p'⟩, next, rfl⟩ := Option.map_eq_some_iff.mp stepped
        · exact .ends ‹_› next rfl
        · exact .goes ‹_› next rfl
      · cases stepped
  | leave c =>
      simp only [step] at stepped
      split at stepped
      · cases stepped
      · cases stepped
        exact .leave ‹_› ‹_› rfl
      · cases stepped

theorem recorded_iff {known : A × Status} : (s.record c a status).calls d = some known ↔
    (d = c ∧ known = (a, status)) ∨ (d ≠ c ∧ s.calls d = some known) := by
  by_cases self : d = c
  · subst self
    simp [State.record, eq_comm]
  · simp [State.record, self]

/-- How a caller stands after another status was recorded, it stood before. -/
theorem older_of_record {status' : Status} {b : A}
    (known : (s.record c a status).calls d = some (b, status')) (differs : status' ≠ status) :
    s.calls d = some (b, status') := by
  obtain ⟨-, same⟩ | ⟨-, older⟩ := recorded_iff.mp known
  · exact absurd (congrArg Prod.snd same) differs
  · exact older

/-- A first call leaves every other one. -/
theorem record_of_new {known : A × Status} (new : s.calls c = none)
    (older : s.calls d = some known) : (s.record c a status).calls d = some known := by
  refine recorded_iff.mpr (.inr ⟨?_, older⟩)
  rintro rfl
  cases new.symm.trans older

/-! ## One sequential run -/

/-- The shared state is that of one sequential run of the code, of the one caller that entered;
before it has ended nobody has returned. -/
structure Sequential (code : Code A P R S) (s₀ : S) (s : State C A P R S) : Prop where
  incomplete : s.cell = .incomplete → s.shared = s₀ ∧ s.answers = []
  running : ∀ c p, s.cell = .running c p → ∃ a, s.calls c = some (a, .inside) ∧
    code.run s₀ (code.entry a) s.answers = some (s.shared, some p)
  complete : ∀ c, s.cell = .complete c → ∃ a status, s.calls c = some (a, status) ∧
    code.run s₀ (code.entry a) s.answers = some (s.shared, none)
  returned : ∀ c a, s.calls c = some (a, .returned) → ∃ d, s.cell = .complete d
  inside : ∀ c a, s.calls c = some (a, .inside) →
    (∃ p, s.cell = .running c p) ∨ s.cell = .complete c

theorem sequential_fresh (fresh : s.Fresh s₀) : Sequential code s₀ s where
  incomplete _ := ⟨fresh.shared, fresh.answers⟩
  running c p runs := by simp [fresh.cell] at runs
  complete c done := by simp [fresh.cell] at done
  returned c a known := by simp [fresh.calls c] at known
  inside c a known := by simp [fresh.calls c] at known

theorem sequential_step (seq : Sequential code s₀ s) (stepped : step code s e = some t) :
    Sequential code s₀ t := by
  cases step_cases stepped with
  | @call b a new same =>
      subst same
      refine ⟨seq.incomplete, fun c p runs => ?_, fun c done => ?_, fun c a known => ?_,
        fun c a known => ?_⟩
      · obtain ⟨a', known, ran⟩ := seq.running c p runs
        exact ⟨a', record_of_new new known, ran⟩
      · obtain ⟨a', status, known, ran⟩ := seq.complete c done
        exact ⟨a', status, record_of_new new known, ran⟩
      · exact seq.returned c a (older_of_record known nofun)
      · exact seq.inside c a (older_of_record known nofun)
  | @enter b a first known same =>
      subst same
      refine ⟨nofun, fun c p runs => ?_, nofun, fun c a' known' => ?_, fun c a' known' => ?_⟩
      · cases runs
        obtain ⟨same, none⟩ := seq.incomplete first
        refine ⟨a, recorded_iff.mpr (.inl ⟨rfl, rfl⟩), ?_⟩
        simp only [State.record, none, Code.run, same]
      · obtain ⟨d, done⟩ := seq.returned c a' (older_of_record known' nofun)
        cases first.symm.trans done
      · obtain ⟨rfl, -⟩ | ⟨-, known'⟩ := recorded_iff.mp known'
        · exact .inl ⟨_, rfl⟩
        · obtain ⟨p, runs⟩ | done := seq.inside c a' known'
          · cases first.symm.trans runs
          · cases first.symm.trans done
  | @goes b p p' r shared runs moved same =>
      subst same
      refine ⟨nofun, fun c q runs' => ?_, nofun, fun c a known => ?_, fun c a known => ?_⟩
      · cases runs'
        obtain ⟨a, known, ran⟩ := seq.running b p runs
        exact ⟨a, known, (Code.run_concat ran).trans moved⟩
      · obtain ⟨d, done⟩ := seq.returned c a known
        cases runs.symm.trans done
      · obtain ⟨q, runs'⟩ | done := seq.inside c a known
        · cases runs.symm.trans runs'
          exact .inl ⟨p', rfl⟩
        · cases runs.symm.trans done
  | @ends b p r shared runs moved same =>
      subst same
      obtain ⟨a, known, ran⟩ := seq.running b p runs
      refine ⟨nofun, nofun, fun c done => ?_, fun c a _ => ⟨b, rfl⟩, fun c a' known' => ?_⟩
      · cases done
        exact ⟨a, .inside, known, (Code.run_concat ran).trans moved⟩
      · obtain ⟨q, runs'⟩ | done := seq.inside c a' known'
        · cases runs.symm.trans runs'
          exact .inr rfl
        · cases runs.symm.trans done
  | @leave b d a status done known same =>
      subst same
      refine ⟨seq.incomplete, fun c p runs => ?_, fun c done' => ?_, fun c a' _ => ⟨d, done⟩,
        fun c a' known' => ?_⟩
      · cases done.symm.trans runs
      · obtain ⟨a', status', known', ran⟩ := seq.complete c done'
        by_cases self : c = b
        · subst self
          cases known.symm.trans known'
          exact ⟨a, .returned, recorded_iff.mpr (.inl ⟨rfl, rfl⟩), ran⟩
        · exact ⟨a', status', recorded_iff.mpr (.inr ⟨self, known'⟩), ran⟩
      · exact seq.inside c a' (older_of_record known' nofun)

/-- **One sequential run.** Whatever the order of the callers' steps, what they share is what one
of them, the first to enter, has made of it by itself. -/
theorem sequential_reachable {ok : State C A P R S → Event C A R → Prop}
    (reached : Reachable (step code) ok (State.Fresh s₀) s) : Sequential code s₀ s :=
  reached.keeps (fun _ => sequential_fresh) fun _ _ _ seq _ stepped => sequential_step seq stepped

/-! ## What is final, and that everyone returns -/

theorem settled_step (done : s.cell = .complete c) (stepped : step code s e = some t) :
    t.cell = .complete c ∧ t.shared = s.shared := by
  cases step_cases stepped with
  | call _ same | leave _ _ same =>
      subst same
      exact ⟨done, rfl⟩
  | enter other _ _ | goes other _ _ | ends other _ _ => cases done.symm.trans other

/-- Once the code has returned, what the callers share stays. -/
theorem settled_via {ok : State C A P R S → Event C A R → Prop} (done : s.cell = .complete c)
    (run : Via (step code) ok s t) : t.cell = .complete c ∧ t.shared = s.shared :=
  run.keeps (I := fun t => t.cell = .complete c ∧ t.shared = s.shared) ⟨done, rfl⟩
    fun _ _ _ kept _ stepped => by
      obtain ⟨done, same⟩ := settled_step kept.1 stepped
      exact ⟨done, same.trans kept.2⟩

/-- All steps but new calls. -/
def Local (_ : State C A P R S) : Event C A R → Prop
  | .call _ _ => False
  | _ => True

def Called (s : State C A P R S) (c : C) (a : A) : Prop := ∃ status, s.calls c = some (a, status)

/-- The runner comes to its end, if the code does. -/
theorem completes {p : P} {rs : List R} {shared : S} (runs : s.cell = .running c p)
    (ran : code.run s.shared p rs = some (shared, none)) :
    ∃ t, Via (step code) Local s t ∧ t.cell = .complete c ∧ t.calls = s.calls := by
  induction rs generalizing s p with
  | nil => cases ran
  | cons r rs ih =>
      simp only [Code.run] at ran
      split at ran
      · rename_i s' p' next
        have stepped : step code s (.answer r) =
            some (s.answered r s' (.running c p')) := by
          simp only [step, runs, next, Option.map_some]
        obtain ⟨t, rest, done, same⟩ := ih (s := s.answered r s' (.running c p')) rfl ran
        exact ⟨t, .head (e := .answer r) trivial stepped rest, done, same⟩
      · rename_i s' next
        have stepped : step code s (.answer r) =
            some (s.answered r s' (.complete c)) := by
          simp only [step, runs, next, Option.map_some]
        exact ⟨_, .single (e := .answer r) trivial stepped, rfl, rfl⟩
      · cases ran

theorem leaves (done : s.cell = .complete d) (called : Called s c a) :
    CanReach (step code) Local s fun t => t.calls c = some (a, .returned) := by
  obtain ⟨status, known⟩ := called
  cases status with
  | returned => exact .here known
  | waiting | inside =>
      have stepped : step code s (.leave c) = some (s.record c a .returned) := by
        simp only [step, done, known]
      refine ⟨_, .single (e := .leave c) trivial stepped, ?_⟩
      simp [State.record]

/-- **Everyone returns.** If the code can end from wherever it is, every call made can return,
without any more being made. -/
theorem all_return {ok : State C A P R S → Event C A R → Prop} (ends : code.Ends)
    (reached : Reachable (step code) ok (State.Fresh s₀) s) (called : Called s c a) :
    CanReach (step code) Local s fun t => t.calls c = some (a, .returned) := by
  have running : ∀ {s d p}, s.cell = .running d p → Called s c a →
      CanReach (step code) Local s fun t => t.calls c = some (a, .returned) := by
    intro s d p runs called
    obtain ⟨rs, shared, ran⟩ := ends s.shared p
    obtain ⟨t, run, done, same⟩ := completes runs ran
    refine .after run (leaves done ?_)
    obtain ⟨status, known⟩ := called
    exact ⟨status, same ▸ known⟩
  cases cell : s.cell with
  | complete d => exact leaves cell called
  | running d p => exact running cell called
  | incomplete =>
      have seq := sequential_reachable reached
      obtain ⟨status, known⟩ := called
      cases status with
      | returned => exact .here known
      | inside =>
          obtain ⟨p, runs⟩ | done := seq.inside c a known
          · cases cell.symm.trans runs
          · cases cell.symm.trans done
      | waiting =>
          have stepped : step code s (.enter c) =
              some { s.record c a .inside with cell := .running c (code.entry a) } := by
            simp only [step, cell, known]
          refine .after (.single (e := .enter c) trivial stepped) (running rfl ?_)
          exact ⟨.inside, recorded_iff.mpr (.inl ⟨rfl, rfl⟩)⟩

end Machine

end IrohKmp.Theory.Once
