/-
# Theory.Dispenser — a queue that hands each item to one taker

Items arrive in order and are handed out in that order; the history of who was handed what is
part of the value, and so is that no item is in it or in the queue twice. So a dispenser that
loses or repeats an item cannot be built; `arrived` is what came, handed out or not.
-/
import Mathlib.Data.List.Nodup

namespace IrohKmp.Theory

set_option autoImplicit false

structure Dispenser (A C : Type) where
  queue : List A
  /-- Who was handed what, in order. -/
  handed : List (A × C)
  nodup : (handed.map Prod.fst ++ queue).Nodup

namespace Dispenser

variable {A C : Type} {d d' : Dispenser A C} {a b : A} {c c' : C}

def empty : Dispenser A C := ⟨[], [], List.nodup_nil⟩

/-- Every item that came, in order. -/
def arrived (d : Dispenser A C) : List A := d.handed.map Prod.fst ++ d.queue

/-- A new item goes to the end of the queue. -/
def arrive (d : Dispenser A C) (a : A) (fresh : a ∉ d.arrived) : Dispenser A C where
  queue := d.queue ++ [a]
  handed := d.handed
  nodup := by
    rw [← List.append_assoc]
    exact d.nodup.append (List.nodup_singleton a) (List.disjoint_singleton.mpr fresh)

/-- The first item of the queue is handed to `c`, if there is one. -/
def hand (d : Dispenser A C) (c : C) : Option (A × Dispenser A C) :=
  match line : d.queue with
  | [] => none
  | a :: rest => some (a, {
      queue := rest
      handed := d.handed ++ [(a, c)]
      nodup := by simpa [line] using d.nodup })

@[simp] theorem arrive_queue (fresh : a ∉ d.arrived) : (d.arrive a fresh).queue = d.queue ++ [a] :=
  rfl
@[simp] theorem arrive_handed (fresh : a ∉ d.arrived) : (d.arrive a fresh).handed = d.handed := rfl

theorem hand_eq_some : d.hand c = some (a, d') ↔
    ∃ rest, d.queue = a :: rest ∧ d'.queue = rest ∧ d'.handed = d.handed ++ [(a, c)] := by
  unfold hand
  split
  · rename_i line
    simp [line]
  · rename_i first rest line
    simp only [Option.some.injEq, Prod.mk.injEq, line, List.cons.injEq]
    constructor
    · rintro ⟨rfl, rfl⟩
      exact ⟨rest, ⟨rfl, rfl⟩, rfl, rfl⟩
    · rintro ⟨_, ⟨rfl, rfl⟩, queue, handed⟩
      refine ⟨rfl, ?_⟩
      cases d'
      cases queue
      cases handed
      rfl

theorem hand_isSome_iff : (d.hand c).isSome ↔ d.queue ≠ [] := by
  unfold hand
  split <;> simp_all

/-- An item goes to one taker. -/
theorem taker_unique (first : (a, c) ∈ d.handed) (second : (a, c') ∈ d.handed) : c = c' := by
  have nodup : (d.handed.map Prod.fst).Nodup := (List.nodup_append.mp d.nodup).1
  exact congrArg Prod.snd (List.inj_on_of_nodup_map nodup first second rfl)

/-- An item that was handed out is not in the queue. -/
theorem not_mem_queue (handed : (a, c) ∈ d.handed) : a ∉ d.queue := fun member =>
  (List.nodup_append.mp d.nodup).2.2 a (List.mem_map_of_mem handed) a member rfl

/-- What came is in the queue or was handed out. -/
theorem mem_arrived : a ∈ d.arrived ↔ a ∈ d.queue ∨ ∃ c, (a, c) ∈ d.handed := by
  simp [arrived, or_comm]

end Dispenser

end IrohKmp.Theory
