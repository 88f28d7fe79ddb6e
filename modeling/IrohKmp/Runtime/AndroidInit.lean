/-
# Runtime.AndroidInit — `installAndroidContext`, from any number of threads

The JNI entry point hands the JavaVM and the application context to `ndk_context`, which keeps raw
pointers and panics when it is given a second pair. A `Once` keeps the entry point to one pair, for
the first call only: what that call could not look up, no later call will.

* `Process`, `Answer` — what `ndk_context` and the JVM keep, and what they answer;
* `Phase`, `installCode` — the closure under the `Once`, from one outside call to the next;
* `context_installed_once` — what the threads see, in any order of their steps.
-/
import IrohKmp.Theory.Once

namespace IrohKmp.Runtime.AndroidInit

open IrohKmp.Theory
open IrohKmp.Theory.Run

set_option autoImplicit false

/-! ## What is outside -/

/-- The raw pointers `ndk_context` keeps: of the JavaVM `V`, and through a global reference `G`. -/
structure AndroidContext (V G : Type) where
  javaVm : V
  contextJobject : G

structure Process (V G O : Type) where
  androidContext : Option (AndroidContext V G)
  /-- The global references made and not deleted, with the object each keeps alive. -/
  globalRefs : List (G × O)
  panicked : Bool

variable {V G O E C : Type}

/-- Before the library is first used. -/
def Process.start : Process V G O := ⟨none, [], false⟩

/-- `initialize_android_context`: a second context is a failed assertion. -/
def Process.initializeAndroidContext (p : Process V G O) (javaVm : V) (globalRef : G) :
    Process V G O :=
  match p.androidContext with
  | none => { p with androidContext := some ⟨javaVm, globalRef⟩ }
  | some _ => { p with panicked := true }

/-- What the JVM answers to `get_java_vm` and to `new_global_ref`; the rest only returns. -/
inductive Answer (V G E : Type) where
  | javaVm (result : Except E V)
  | globalRef (result : Except E G)
  | returned

/-! ## The entry point -/

/-- What the closure asks next, with what it has so far. -/
inductive Phase (V G O : Type) where
  | getJavaVm (context : O)
  | newGlobalRef (context : O) (javaVm : V)
  | initializing (javaVm : V) (globalRef : G)
  | forget (globalRef : G)

/-- The closure given to `INIT.call_once`. A global reference would be deleted when dropped, and
`forget` does not drop it; the early returns come before there is one. -/
def installCode : Once.Code O (Phase V G O) (Answer V G E) (Process V G O) where
  entry := .getJavaVm
  step
    | p, .getJavaVm context, .javaVm (.ok javaVm) => some (p, some (.newGlobalRef context javaVm))
    | p, .getJavaVm _, .javaVm (.error _) => some (p, none)
    | p, .newGlobalRef context javaVm, .globalRef (.ok globalRef) =>
        some ({ p with globalRefs := (globalRef, context) :: p.globalRefs },
          some (.initializing javaVm globalRef))
    | p, .newGlobalRef _ _, .globalRef (.error _) => some (p, none)
    | p, .initializing javaVm globalRef, .returned =>
        some (p.initializeAndroidContext javaVm globalRef, some (.forget globalRef))
    | p, .forget _, .returned => some (p, none)
    | _, _, _ => none

variable [DecidableEq C]

abbrev State (V G O E C : Type) :=
  Once.State C O (Phase V G O) (Answer V G E) (Process V G O)

/-- `installAndroidContext`, called by any threads `C` with any contexts `O`. -/
abbrev step : State V G O E C → Once.Event C O (Answer V G E) → Option (State V G O E C) :=
  Once.step installCode

abbrev Fresh : State V G O E C → Prop := Once.State.Fresh .start

/-! ## One call of the closure -/

/-- What one call leaves, and which answers lead there: both lookups succeeded, or one failed. -/
inductive Outcome (context : O) : List (Answer V G E) → Process V G O → Prop
  | installed (javaVm : V) (globalRef : G) : Outcome context
      [.javaVm (.ok javaVm), .globalRef (.ok globalRef), .returned, .returned]
      ⟨some ⟨javaVm, globalRef⟩, [(globalRef, context)], false⟩
  | noJavaVm (e : E) : Outcome context [.javaVm (.error e)] .start
  | noGlobalRef (javaVm : V) (e : E) :
      Outcome context [.javaVm (.ok javaVm), .globalRef (.error e)] .start

variable {context : O} {answers : List (Answer V G E)} {p p' : Process V G O}
  {phase : Phase V G O} {s t : State V G O E C} {c : C}

theorem run_forget {globalRef : G}
    (ran : installCode.run p (.forget globalRef) answers = some (p', none)) :
    answers = [.returned] ∧ p' = p := by
  rcases answers with _ | ⟨_ | _ | _, _ | ⟨_, _⟩⟩
  case cons.returned.nil =>
      cases ran
      exact ⟨rfl, rfl⟩
  all_goals cases ran

theorem run_initializing {javaVm : V} {globalRef : G}
    (ran : installCode.run p (.initializing javaVm globalRef) answers = some (p', none)) :
    answers = [.returned, .returned] ∧ p' = p.initializeAndroidContext javaVm globalRef := by
  rcases answers with _ | ⟨_ | _ | _, rest⟩
  case cons.returned =>
      obtain ⟨rfl, rfl⟩ := run_forget ran
      exact ⟨rfl, rfl⟩
  all_goals cases ran

theorem run_newGlobalRef {javaVm : V}
    (ran : installCode.run p (.newGlobalRef context javaVm) answers = some (p', none)) :
    (∃ globalRef, answers = [.globalRef (.ok globalRef), .returned, .returned] ∧
      p' = Process.initializeAndroidContext
        { p with globalRefs := (globalRef, context) :: p.globalRefs } javaVm globalRef) ∨
      ∃ e, answers = [.globalRef (.error e)] ∧ p' = p := by
  rcases answers with _ | ⟨_ | (e | globalRef) | _, rest⟩
  case cons.globalRef.ok =>
      obtain ⟨rfl, rfl⟩ := run_initializing ran
      exact .inl ⟨globalRef, rfl, rfl⟩
  case cons.globalRef.error =>
      cases rest with
      | nil =>
          cases ran
          exact .inr ⟨e, rfl, rfl⟩
      | cons _ _ => cases ran
  all_goals cases ran

theorem outcome_of_run
    (ran : installCode.run .start (.getJavaVm context) answers = some (p, none)) :
    Outcome context answers p := by
  rcases answers with _ | ⟨(e | javaVm) | _ | _, rest⟩
  case cons.javaVm.ok =>
      obtain ⟨globalRef, rfl, rfl⟩ | ⟨e, rfl, rfl⟩ := run_newGlobalRef ran
      · exact .installed javaVm globalRef
      · exact .noGlobalRef javaVm e
  case cons.javaVm.error =>
      cases rest with
      | nil =>
          cases ran
          exact .noJavaVm e
      | cons _ _ => cases ran
  all_goals cases ran

/-- The closure comes to its end from wherever it is: the JVM may always answer with an error. -/
theorem installCode_ends [Inhabited E] :
    (installCode : Once.Code O (Phase V G O) (Answer V G E) (Process V G O)).Ends := by
  intro p phase
  cases phase with
  | getJavaVm context => exact ⟨[.javaVm (.error default)], p, rfl⟩
  | newGlobalRef context javaVm => exact ⟨[.globalRef (.error default)], p, rfl⟩
  | initializing javaVm globalRef => exact ⟨[.returned, .returned], _, rfl⟩
  | forget globalRef => exact ⟨[.returned], p, rfl⟩

/-- What is there when the closure asks its next. -/
def Before (p : Process V G O) : Phase V G O → Prop
  | .getJavaVm _ | .newGlobalRef _ _ => p = .start
  | .initializing _ globalRef => ∃ context, p = ⟨none, [(globalRef, context)], false⟩
  | .forget globalRef => ∃ javaVm context,
      p = ⟨some ⟨javaVm, globalRef⟩, [(globalRef, context)], false⟩

theorem before_step {a : Answer V G E} {phase' : Phase V G O} (before : Before p phase)
    (stepped : installCode.step p phase a = some (p', some phase')) : Before p' phase' := by
  cases phase with
  | getJavaVm context =>
      rcases a with (_ | javaVm) | _ | _ <;> cases stepped
      exact before
  | newGlobalRef context javaVm =>
      rcases a with _ | (_ | globalRef) | _ <;> cases stepped
      cases before
      exact ⟨context, rfl⟩
  | initializing javaVm globalRef =>
      rcases a with _ | _ | _ <;> cases stepped
      obtain ⟨context, rfl⟩ := before
      exact ⟨javaVm, context, rfl⟩
  | forget globalRef => rcases a with _ | _ | _ <;> cases stepped

/-! ## Any number of calls -/

/-- `ndk_context` was given one pair at most, and its pointer is of a living reference. -/
structure Sound (p : Process V G O) : Prop where
  calm : p.panicked = false
  alive : ∀ k, p.androidContext = some k → ∃ context, (k.contextJobject, context) ∈ p.globalRefs

theorem sound_start : Sound (.start : Process V G O) := ⟨rfl, nofun⟩

theorem sound_installed (javaVm : V) (globalRef : G) (context : O) :
    Sound ⟨some ⟨javaVm, globalRef⟩, [(globalRef, context)], false⟩ := by
  refine ⟨rfl, fun k kept => ?_⟩
  cases kept
  exact ⟨context, List.mem_singleton_self _⟩

theorem Before.sound (before : Before p phase) : Sound p := by
  cases phase with
  | getJavaVm _ | newGlobalRef _ _ => exact before ▸ sound_start
  | initializing javaVm globalRef =>
      obtain ⟨context, rfl⟩ := before
      exact ⟨rfl, nofun⟩
  | forget globalRef =>
      obtain ⟨javaVm, context, rfl⟩ := before
      exact sound_installed javaVm globalRef context

theorem Outcome.sound (outcome : Outcome context answers p) : Sound p := by
  cases outcome with
  | installed javaVm globalRef => exact sound_installed javaVm globalRef context
  | noJavaVm e | noGlobalRef javaVm e => exact sound_start

/-- **The context is installed once.** In every reachable state of any threads' calls of
`installAndroidContext`, `ndk_context` was given no second pair and its reference is alive. A call
returns only when the first call's closure has, and then what that one left, by what the JVM
answered it, is final: the context is there for good exactly when both its lookups succeeded. Every
call can return. -/
theorem context_installed_once [Inhabited E] (reached : Reachable step Any Fresh s) :
    Sound s.shared ∧
      (∀ c context, s.calls c = some (context, .returned) → ∃ d, s.cell = .complete d) ∧
      (∀ d, s.cell = .complete d →
        (∃ context, Once.Called s d context ∧ Outcome context s.answers s.shared) ∧
        ∀ t, Via step Any s t → t.shared = s.shared) ∧
      ∀ c context, Once.Called s c context →
        CanReach step Once.Local s fun t => t.calls c = some (context, .returned) := by
  have seq := Once.sequential_reachable reached
  have outcome : ∀ d, s.cell = .complete d →
      ∃ context, Once.Called s d context ∧ Outcome context s.answers s.shared := by
    intro d done
    obtain ⟨context, status, known, ran⟩ := seq.complete d done
    exact ⟨context, ⟨status, known⟩, outcome_of_run ran⟩
  refine ⟨?_, seq.returned, fun d done => ⟨outcome d done, fun t run => ?_⟩, fun c context called =>
    Once.all_return installCode_ends reached called⟩
  · cases cell : s.cell with
    | incomplete => exact (seq.incomplete cell).1 ▸ sound_start
    | running c phase =>
        obtain ⟨context, -, ran⟩ := seq.running c phase cell
        have first : Before (.start : Process V G O) (.getJavaVm context) := rfl
        have before : Before s.shared phase := Once.Code.run_keeps first
          (fun _ _ _ _ _ before stepped => before_step before stepped) ran
        exact before.sound
    | complete d =>
        obtain ⟨context, -, outcome⟩ := outcome d cell
        exact outcome.sound
  · exact (Once.settled_via done run).2

/-! ## Two threads, and a failed first call -/

section Example

/-- Thread `0` enters first and gets no global reference; thread `1` is too late. -/
def failedFirst : List (Once.Event Nat String (Answer Nat Nat String)) :=
  [.call 0 "first", .call 1 "second", .enter 0, .answer (.javaVm (.ok 7)),
    .answer (.globalRef (.error "out of memory")), .leave 0, .leave 1]

def threads : State Nat Nat String String Nat :=
  ⟨.start, .incomplete, [], fun _ => none⟩

theorem context_installed_once_failedFirst : ∃ s : State Nat Nat String String Nat,
    s.cell = .complete 0 ∧ s.shared.androidContext = none ∧
      ∀ t, Via step Any s t → t.shared = s.shared := by
  have runs : ∃ s, exec step threads failedFirst = some s ∧ s.cell = .complete 0 ∧
      s.shared.androidContext = none := ⟨_, rfl, rfl, rfl⟩
  obtain ⟨s, done, cell, none⟩ := runs
  have reached : Reachable step Any Fresh s :=
    .of_exec failedFirst ⟨rfl, rfl, rfl, fun _ => rfl⟩ done
  exact ⟨s, cell, none, ((context_installed_once reached).2.2.1 0 cell).2⟩

end Example

end IrohKmp.Runtime.AndroidInit
