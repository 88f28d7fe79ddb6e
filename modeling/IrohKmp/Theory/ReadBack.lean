/-
# Theory.ReadBack — what was read is read back from what it writes

`read` accepts some texts, many of them for one value; `write` picks one text for a value.
They need not be inverse: `ReadsBack` asks only that a value that was read is read again from
its own text. Then reading and writing in turn is a normal form.

* `ReadsBack` — the condition; kept by optional values and by sets written in order;
* `normalize` — read, then write; `ReadsBack.normalize_idem`, once is enough;
* `ReadsBack.write_inj` — two texts that have one normal form are read as one value;
* `transcode` — from one format of a kind of value to another, and back.
-/
import IrohKmp.Theory.Collect
import Mathlib.Data.Finset.Sort

namespace IrohKmp.Theory.ReadBack

open IrohKmp.Theory.Collect

set_option autoImplicit false

variable {ε α β : Type}

/-- A value that was read is read again from its own text. -/
def ReadsBack (read : α → Except ε β) (write : β → α) : Prop :=
  ∀ a b, read a = .ok b → read (write b) = .ok b

/-- Read, then write. -/
def normalize (read : α → Except ε β) (write : β → α) (a : α) : Except ε α := (read a).map write

variable {read : α → Except ε β} {write : β → α}

theorem normalize_eq_ok {a n : α} :
    normalize read write a = .ok n ↔ ∃ b, read a = .ok b ∧ write b = n := map_eq_ok

namespace ReadsBack

variable {a a' : α} {b b' : β}

/-- Values that were read are told apart by their texts. -/
theorem write_inj (back : ReadsBack read write) (here : read a = .ok b) (there : read a' = .ok b')
    (same : write b = write b') : b = b' := by
  have first := back a b here
  rw [same, back a' b' there] at first
  exact (Except.ok.inj first).symm

/-- The normal form is read as the same value, and is its own normal form. -/
theorem normalize_idem (back : ReadsBack read write) {n : α}
    (normal : normalize read write a = .ok n) : normalize read write n = .ok n := by
  obtain ⟨b, here, rfl⟩ := normalize_eq_ok.mp normal
  exact normalize_eq_ok.mpr ⟨b, back a b here, rfl⟩

end ReadsBack

/-! ## A value that may be missing -/

/-- Read the value if there is one. -/
def readOption (read : α → Except ε β) : Option α → Except ε (Option β)
  | some a => (read a).map some
  | none => .ok none

theorem readOption_eq_ok {o : Option α} {v : Option β} :
    readOption read o = .ok v ↔
      (o = none ∧ v = none) ∨ ∃ a b, o = some a ∧ v = some b ∧ read a = .ok b := by
  cases o with
  | none => simp [readOption, @eq_comm _ none]
  | some a =>
      simp only [readOption, map_eq_ok, Option.some.injEq, reduceCtorEq, false_and, false_or]
      constructor
      · rintro ⟨b, accepted, rfl⟩
        exact ⟨a, b, rfl, rfl, accepted⟩
      · rintro ⟨_, b, rfl, rfl, accepted⟩
        exact ⟨b, accepted, rfl⟩

theorem ReadsBack.option (back : ReadsBack read write) :
    ReadsBack (readOption read) (Option.map write) := by
  intro o v accepted
  apply readOption_eq_ok.mpr
  obtain ⟨rfl, rfl⟩ | ⟨a, b, rfl, rfl, here⟩ := readOption_eq_ok.mp accepted
  · exact .inl ⟨rfl, rfl⟩
  · exact .inr ⟨write b, b, rfl, rfl, back a b here⟩

/-! ## A set, written in order -/

section Sets

variable [LinearOrder β]

/-- Read every element of a list, as a set. -/
def readSet (read : α → Except ε β) (l : List α) : Except ε (Finset β) :=
  (l.mapM read).map List.toFinset

/-- The elements of a set, each once and in increasing order. -/
def writeSet (write : β → α) (s : Finset β) : List α := s.sort.map write

/-- The set a list was read as holds what its elements were read as. -/
theorem mem_of_readSet {l : List α} {s : Finset β} (accepted : readSet read l = .ok s) (b : β) :
    b ∈ s ↔ ∃ a ∈ l, read a = .ok b := by
  obtain ⟨bs, collected, rfl⟩ := map_eq_ok.mp accepted
  have elements := mapM_eq_ok_iff.mp collected
  clear accepted collected
  induction elements with
  | nil => simp
  | @cons a first l bs here _ ih =>
      have own : read a = .ok b ↔ b = first := by
        rw [here, Except.ok.injEq, eq_comm]
      simp only [List.toFinset_cons, Finset.mem_insert, ih, List.mem_cons, exists_eq_or_imp, own]

theorem exists_readSet_iff {l : List α} :
    (∃ s, readSet read l = .ok s) ↔ ∀ a ∈ l, ∃ b, read a = .ok b := by
  rw [← exists_mapM_eq_ok_iff]
  constructor
  · rintro ⟨s, accepted⟩
    obtain ⟨bs, collected, -⟩ := map_eq_ok.mp accepted
    exact ⟨bs, collected⟩
  · rintro ⟨bs, collected⟩
    exact ⟨bs.toFinset, map_eq_ok.mpr ⟨bs, collected, rfl⟩⟩

theorem ReadsBack.set (back : ReadsBack read write) :
    ReadsBack (readSet read) (writeSet write) := by
  intro l s accepted
  have each : ∀ b ∈ s.sort, read (write b) = .ok (id b) := by
    intro b member
    obtain ⟨a, -, here⟩ := (mem_of_readSet accepted b).mp ((Finset.mem_sort _).mp member)
    exact back a b here
  have sorted := mapM_map_eq_ok each
  exact map_eq_ok.mpr ⟨_, sorted, by simp⟩

/-- Written in order, no text comes twice. -/
theorem ReadsBack.nodup_writeSet (back : ReadsBack read write) {l : List α} {s : Finset β}
    (accepted : readSet read l = .ok s) : (writeSet write s).Nodup := by
  apply List.Nodup.map_on _ (Finset.sort_nodup s _)
  intro b member b' member' same
  obtain ⟨a, -, here⟩ := (mem_of_readSet accepted b).mp ((Finset.mem_sort _).mp member)
  obtain ⟨a', -, there⟩ := (mem_of_readSet accepted b').mp ((Finset.mem_sort _).mp member')
  exact back.write_inj here there same

end Sets

/-! ## Two formats of one kind of value -/

section Formats

variable {α' : Type} {read' : α' → Except ε β} {write' : β → α'} {a c : α} {a' : α'} {b d : β}

/-- Read one format and write another. -/
def transcode (read : α → Except ε β) (write' : β → α') (a : α) : Except ε α' := (read a).map write'

theorem transcode_eq_ok : transcode read write' a = .ok a' ↔ ∃ b, read a = .ok b ∧ write' b = a' :=
  map_eq_ok

theorem transcode_of_read (here : read a = .ok b) : transcode read write' a = .ok (write' b) :=
  transcode_eq_ok.mpr ⟨b, here, rfl⟩

/-- In a format that loses nothing of them two texts have one form exactly when they say one
thing. -/
theorem transcode_eq_iff (here : read a = .ok b) (there : read c = .ok d)
    (back : read' (write' b) = .ok b) (back' : read' (write' d) = .ok d) :
    transcode read write' a = transcode read write' c ↔ b = d := by
  rw [transcode_of_read here, transcode_of_read there, Except.ok.injEq]
  constructor
  · intro same
    rw [same, back'] at back
    exact (Except.ok.inj back).symm
  · exact congrArg write'

end Formats

end IrohKmp.Theory.ReadBack
