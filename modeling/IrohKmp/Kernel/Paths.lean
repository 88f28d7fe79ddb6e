/-
# Kernel.Paths — `conn_type`, `rtt_ms` and `paths` of one snapshot

Four functions go through the same list of open paths, each with tests of its own. `paths`
reports every path; what the other three return can be told from its report alone: the type is
the word for the kinds that count, those of the first selected entry or of all if none is
selected, and the round-trip time is that entry's.

* `IrohConnection.paths`, `.connType`, `.rttMs`, `IrohStream.rttMs` — the code;
* `counted`, `word` — which kinds count, and the word for a set of kinds;
* `connType_eq`, `rttMs_eq` — the code tells what the report tells;
* `OneStory`, `one_story` — for every snapshot of IP and relay paths; `one_story_switching`.
-/
import IrohKmp.Kernel.EndpointAddr
import Mathlib.Data.Finset.Dedup
import Mathlib.Data.Fintype.Powerset

namespace IrohKmp.Kernel

set_option autoImplicit false
set_option linter.unusedSectionVars false

/-! ## The library's paths -/

/-- `std::time::Duration`. -/
structure Duration where
  secs : UInt64
  nanos : UInt32
  bound : nanos.toNat < 1000000000
  deriving DecidableEq

/-- `as_millis`; it always fits the `u128` it is returned in (`asMillis_lt`). -/
def Duration.asMillis (d : Duration) : Nat := d.secs.toNat * 1000 + d.nanos.toNat / 1000000

theorem Duration.asMillis_lt (d : Duration) : d.asMillis < 2 ^ 128 := by
  have secs := d.secs.toNat_lt
  have nanos := d.bound
  unfold asMillis
  omega

/-- One open path of a snapshot. -/
structure Path (U S O : Type) where
  remoteAddr : TransportAddr U S O
  isSelected : Bool
  rtt : Duration

namespace Path

variable {U S O : Type}

def isRelay (p : Path U S O) : Bool := p.remoteAddr.relay?.isSome

def isIp (p : Path U S O) : Bool := p.remoteAddr.ip?.isSome

theorem not_isIp_of_isRelay {p : Path U S O} (relay : p.isRelay = true) : p.isIp = false := by
  unfold isRelay at relay
  unfold isIp
  cases addr : p.remoteAddr <;> simp_all [TransportAddr.relay?, TransportAddr.ip?]

end Path

/-! ## The wrapper -/

/-- `PathKind`: whether a path runs directly over IP or via a relay server. -/
inductive PathKind where
  | ip
  | relay
  deriving DecidableEq, Repr

instance : Fintype PathKind := ⟨{.ip, .relay}, by rintro (_ | _) <;> decide⟩

structure ConnPath where
  addr : String
  kind : PathKind
  isSelected : Bool
  rttMs : Option UInt64
  deriving DecidableEq, Repr

section Wrapper

variable {U S O : Type} [Display (TransportAddr U S O)]

/-- The entry `paths` makes of one path. -/
def ConnPath.ofPath (p : Path U S O) : ConnPath where
  addr := Display.text p.remoteAddr
  kind := if p.isRelay then .relay else .ip
  isSelected := p.isSelected
  rttMs := some (UInt64.ofNat p.rtt.asMillis)

namespace IrohConnection

/-- `rtt_ms`; `as u64` keeps the low 64 bits. -/
def rttMs (inner : List (Path U S O)) : Option UInt64 :=
  (inner.find? fun p => p.isSelected).map fun p => UInt64.ofNat p.rtt.asMillis

def paths (inner : List (Path U S O)) : List ConnPath := inner.map ConnPath.ofPath

/-- `conn_type`. -/
def connType (inner : List (Path U S O)) : String :=
  if inner.isEmpty then "none"
  else match inner.find? fun p => p.isSelected with
    | some selected => if selected.isRelay then "relay" else "direct"
    | none =>
        match inner.any fun p => p.isIp, inner.any fun p => p.isRelay with
        | true, true => "mixed"
        | true, false => "direct"
        | false, true => "relay"
        | false, false => "none"

end IrohConnection

/-- `IrohStream::rtt_ms`, on the paths of its connection. -/
def IrohStream.rttMs (conn : List (Path U S O)) : Option UInt64 :=
  (conn.find? fun p => p.isSelected).map fun p => UInt64.ofNat p.rtt.asMillis

/-! ## What the report tells -/

/-- The first entry that is selected. -/
def selected (entries : List ConnPath) : Option ConnPath := entries.find? fun e => e.isSelected

/-- The kinds that count: that of the first selected entry, all of them if none is selected. -/
def counted (entries : List ConnPath) : Finset PathKind :=
  match selected entries with
  | some e => {e.kind}
  | none => (entries.map fun e => e.kind).toFinset

/-- The word for a set of kinds. -/
def word (kinds : Finset PathKind) : String :=
  if .ip ∈ kinds then if .relay ∈ kinds then "mixed" else "direct"
  else if .relay ∈ kinds then "relay" else "none"

variable {ps qs : List (Path U S O)} {p : Path U S O}

theorem selected_paths :
    selected (IrohConnection.paths ps) =
      (ps.find? fun p => p.isSelected).map ConnPath.ofPath := by
  simp only [selected, IrohConnection.paths, List.find?_map]
  rfl

/-- The round-trip time is the selected entry's. -/
theorem rttMs_eq :
    IrohConnection.rttMs ps = (selected (IrohConnection.paths ps)).bind (·.rttMs) := by
  rw [selected_paths, IrohConnection.rttMs]
  cases ps.find? fun p => p.isSelected <;> rfl

theorem stream_rttMs_eq : IrohStream.rttMs ps = IrohConnection.rttMs ps := rfl

/-- Of IP and relay paths, one that is not a relay is an IP path. -/
theorem ofPath_kind_eq_ip (kinds : ∀ p ∈ ps, p.isIp = true ∨ p.isRelay = true) (member : p ∈ ps) :
    (ConnPath.ofPath p).kind = .ip ↔ p.isIp = true := by
  cases relay : p.isRelay with
  | true => simp [ConnPath.ofPath, relay, Path.not_isIp_of_isRelay relay]
  | false => simpa [ConnPath.ofPath, relay] using kinds p member

theorem ofPath_kind_eq_relay : (ConnPath.ofPath p).kind = .relay ↔ p.isRelay = true := by
  cases relay : p.isRelay <;> simp [ConnPath.ofPath, relay]

/-- Both `any` tests of `conn_type` can be made on the entries. -/
theorem any_isIp (kinds : ∀ p ∈ ps, p.isIp = true ∨ p.isRelay = true) :
    (ps.any fun p => p.isIp) = true ↔ ∃ e ∈ IrohConnection.paths ps, e.kind = .ip := by
  simp only [IrohConnection.paths, List.any_eq_true, List.mem_map, exists_exists_and_eq_and]
  constructor
  · rintro ⟨p, member, ip⟩
    exact ⟨p, member, (ofPath_kind_eq_ip kinds member).mpr ip⟩
  · rintro ⟨p, member, ip⟩
    exact ⟨p, member, (ofPath_kind_eq_ip kinds member).mp ip⟩

theorem any_isRelay :
    (ps.any fun p => p.isRelay) = true ↔ ∃ e ∈ IrohConnection.paths ps, e.kind = .relay := by
  simp only [IrohConnection.paths, List.any_eq_true, List.mem_map, exists_exists_and_eq_and,
    ofPath_kind_eq_relay]

theorem mem_counted_of_unselected {entries : List ConnPath} {kind : PathKind}
    (unselected : selected entries = none) :
    kind ∈ counted entries ↔ ∃ e ∈ entries, e.kind = kind := by
  have all : counted entries = (entries.map fun e => e.kind).toFinset := by
    rw [counted, unselected]
  simp [all]

theorem counted_of_selected {entries : List ConnPath} {e : ConnPath}
    (first : selected entries = some e) : counted entries = {e.kind} := by
  rw [counted, first]

/-- The type is the word for the kinds that count. -/
theorem connType_eq (kinds : ∀ p ∈ ps, p.isIp = true ∨ p.isRelay = true) :
    IrohConnection.connType ps = word (counted (IrohConnection.paths ps)) := by
  have told : selected (IrohConnection.paths ps) = _ := selected_paths
  unfold IrohConnection.connType
  cases first : ps.find? fun p => p.isSelected with
  | some p =>
      rw [first, Option.map_some] at told
      have some' : ps.isEmpty = false := by cases ps <;> simp_all
      rw [counted_of_selected told]
      cases relay : p.isRelay <;> simp [some', word, ConnPath.ofPath, relay]
  | none =>
      rw [first, Option.map_none] at told
      have ip : PathKind.ip ∈ counted _ ↔ _ := mem_counted_of_unselected told
      have relay : PathKind.relay ∈ counted _ ↔ _ := mem_counted_of_unselected told
      rw [← any_isIp kinds] at ip
      rw [← any_isRelay] at relay
      simp only [word, ip, relay]
      cases ps with
      | nil => rfl
      | cons p ps =>
          simp only [List.isEmpty_cons, Bool.false_eq_true, if_false]
          split <;> simp_all

/-! ### The words -/

theorem word_eq_none {kinds : Finset PathKind} : word kinds = "none" ↔ kinds = ∅ := by
  revert kinds
  decide

theorem word_eq_direct {kinds : Finset PathKind} :
    word kinds = "direct" ↔ .ip ∈ kinds ∧ .relay ∉ kinds := by
  revert kinds
  decide

theorem word_eq_relay {kinds : Finset PathKind} :
    word kinds = "relay" ↔ .relay ∈ kinds ∧ .ip ∉ kinds := by
  revert kinds
  decide

theorem word_eq_mixed {kinds : Finset PathKind} :
    word kinds = "mixed" ↔ .ip ∈ kinds ∧ .relay ∈ kinds := by
  revert kinds
  decide

/-! ### In any order -/

/-- The one marked element of a list is found in any order. -/
theorem find?_eq_of_perm {α : Type} {mark : α → Bool} {l l' : List α} (perm : l'.Perm l)
    (one : l.countP mark ≤ 1) : l'.find? mark = l.find? mark := by
  have marked : (l'.filter mark).Perm (l.filter mark) := perm.filter mark
  rw [List.countP_eq_length_filter] at one
  rw [← List.head?_filter, ← List.head?_filter]
  cases found : l.filter mark with
  | nil =>
      rw [found] at marked
      rw [marked.eq_nil]
  | cons a rest =>
      have alone : rest = [] := by
        rw [found, List.length_cons] at one
        apply List.eq_nil_of_length_eq_zero
        omega
      rw [found, alone] at marked
      rw [marked.eq_singleton]
      rfl

theorem selected_perm (one : ps.countP (fun p => p.isSelected) ≤ 1) (perm : qs.Perm ps) :
    selected (IrohConnection.paths qs) = selected (IrohConnection.paths ps) := by
  rw [selected_paths, selected_paths, find?_eq_of_perm perm one]

theorem counted_perm (one : ps.countP (fun p => p.isSelected) ≤ 1) (perm : qs.Perm ps) :
    counted (IrohConnection.paths qs) = counted (IrohConnection.paths ps) := by
  have same := selected_perm one perm
  cases first : selected (IrohConnection.paths ps) with
  | some e => rw [counted_of_selected first, counted_of_selected (same.trans first)]
  | none =>
      apply Finset.ext
      intro kind
      have entries : (IrohConnection.paths qs).Perm (IrohConnection.paths ps) := perm.map _
      rw [mem_counted_of_unselected first, mem_counted_of_unselected (same.trans first)]
      simp only [entries.mem_iff]

/-! ## One story -/

/-- The entry reports the path. -/
structure Reports (p : Path U S O) (e : ConnPath) : Prop where
  addr : e.addr = Display.text p.remoteAddr
  relay : e.kind = .relay ↔ p.isRelay = true
  ip : e.kind = .ip ↔ p.isIp = true
  isSelected : e.isSelected = p.isSelected
  rttMs : e.rttMs = some (UInt64.ofNat p.rtt.asMillis)

/-- The word for the kind of one path. -/
def PathKind.word : PathKind → String
  | .ip => "direct"
  | .relay => "relay"

/-- On one snapshot, the type and both round-trip times are those of the first selected entry
of the report; if there is none, the times are missing and the type tells the kinds reported. -/
structure OneStory (ps : List (Path U S O)) : Prop where
  entries : List.Forall₂ Reports ps (IrohConnection.paths ps)
  none : IrohConnection.connType ps = "none" ↔ IrohConnection.paths ps = []
  chosen : ∀ e, (IrohConnection.paths ps).find? (fun e => e.isSelected) = some e →
    IrohConnection.connType ps = e.kind.word ∧ IrohConnection.rttMs ps = e.rttMs ∧
      IrohStream.rttMs ps = e.rttMs
  unchosen : ps ≠ [] → (∀ e ∈ IrohConnection.paths ps, e.isSelected = false) →
    IrohConnection.rttMs ps = .none ∧ IrohStream.rttMs ps = .none ∧
      (IrohConnection.connType ps = "direct" ↔ ∀ e ∈ IrohConnection.paths ps, e.kind = .ip) ∧
      (IrohConnection.connType ps = "relay" ↔ ∀ e ∈ IrohConnection.paths ps, e.kind = .relay) ∧
      (IrohConnection.connType ps = "mixed" ↔
        (∃ e ∈ IrohConnection.paths ps, e.kind = .ip) ∧
          ∃ e ∈ IrohConnection.paths ps, e.kind = .relay)
  anyOrder : ps.countP (fun p => p.isSelected) ≤ 1 → ∀ qs : List (Path U S O), qs.Perm ps →
    IrohConnection.connType qs = IrohConnection.connType ps ∧
      IrohConnection.rttMs qs = IrohConnection.rttMs ps ∧
      IrohStream.rttMs qs = IrohStream.rttMs ps

theorem reports (kinds : ∀ p ∈ ps, p.isIp = true ∨ p.isRelay = true) :
    List.Forall₂ Reports ps (IrohConnection.paths ps) := by
  rw [IrohConnection.paths, List.forall₂_map_right_iff, List.forall₂_same]
  intro p member
  exact ⟨rfl, ofPath_kind_eq_relay, ofPath_kind_eq_ip kinds member, rfl, rfl⟩

theorem counted_eq_empty {entries : List ConnPath} : counted entries = ∅ ↔ entries = [] := by
  cases first : selected entries with
  | some e =>
      have nonempty : entries ≠ [] := by
        rintro rfl
        cases first
      simp [counted_of_selected first, nonempty]
  | none =>
      simp only [Finset.eq_empty_iff_forall_notMem, mem_counted_of_unselected first]
      cases entries with
      | nil => simp
      | cons e rest => exact iff_of_false (fun absent => absent e.kind ⟨e, by simp, rfl⟩) (by simp)

theorem word_singleton (kind : PathKind) : word {kind} = kind.word := by
  cases kind <;> decide

/-- Every entry is of the one kind exactly when that kind is there and the other is not. -/
theorem all_kind_iff {entries : List ConnPath} {kind other : PathKind} (differ : kind ≠ other)
    (entry : entries ≠ []) :
    (∃ e ∈ entries, e.kind = kind) ∧ (¬ ∃ e ∈ entries, e.kind = other) ↔
      ∀ e ∈ entries, e.kind = kind := by
  have two : ∀ k : PathKind, k ≠ other → k = kind := by
    revert differ
    revert kind other
    decide
  constructor
  · rintro ⟨-, absent⟩ e member
    exact two e.kind fun same => absent ⟨e, member, same⟩
  · intro all
    obtain ⟨e, member⟩ := List.exists_mem_of_ne_nil entries entry
    refine ⟨⟨e, member, all e member⟩, ?_⟩
    rintro ⟨e', member', same⟩
    exact differ ((all e' member').symm.trans same)

theorem unchosen_words (kinds : ∀ p ∈ ps, p.isIp = true ∨ p.isRelay = true) (some' : ps ≠ [])
    (unselected : selected (IrohConnection.paths ps) = none) :
    (IrohConnection.connType ps = "direct" ↔ ∀ e ∈ IrohConnection.paths ps, e.kind = .ip) ∧
      (IrohConnection.connType ps = "relay" ↔ ∀ e ∈ IrohConnection.paths ps, e.kind = .relay) ∧
      (IrohConnection.connType ps = "mixed" ↔
        (∃ e ∈ IrohConnection.paths ps, e.kind = .ip) ∧
          ∃ e ∈ IrohConnection.paths ps, e.kind = .relay) := by
  have entry : IrohConnection.paths ps ≠ [] := by simpa [IrohConnection.paths] using some'
  have member : ∀ kind, kind ∈ counted (IrohConnection.paths ps) ↔ _ :=
    fun _ => mem_counted_of_unselected unselected
  rw [connType_eq kinds, word_eq_direct, word_eq_relay, word_eq_mixed]
  refine ⟨?_, ?_, ?_⟩
  · rw [member, member]
    exact all_kind_iff (by decide) entry
  · rw [member, member]
    exact all_kind_iff (by decide) entry
  · rw [member, member]

/-- **One story.** For every list of open paths, each an IP path or a relay path, the four
functions agree: what `conn_type` and `rtt_ms` return can be told from `paths`, and while one
path is selected at most, not even its order matters. -/
theorem one_story (kinds : ∀ p ∈ ps, p.isIp = true ∨ p.isRelay = true) : OneStory ps where
  entries := reports kinds
  none := by
    rw [connType_eq kinds, word_eq_none]
    exact counted_eq_empty
  chosen := by
    intro e first
    have found : selected (IrohConnection.paths ps) = some e := first
    refine ⟨?_, ?_, ?_⟩
    · rw [connType_eq kinds, counted_of_selected found, word_singleton]
    · rw [rttMs_eq, found]
      rfl
    · rw [stream_rttMs_eq, rttMs_eq, found]
      rfl
  unchosen := by
    intro some' each
    have unselected : selected (IrohConnection.paths ps) = .none := by
      apply List.find?_eq_none.mpr
      intro e member
      simp [each e member]
    refine ⟨?_, ?_, unchosen_words kinds some' unselected⟩
    · rw [rttMs_eq, unselected]
      rfl
    · rw [stream_rttMs_eq, rttMs_eq, unselected]
      rfl
  anyOrder := by
    intro one qs perm
    have kinds' : ∀ q ∈ qs, q.isIp = true ∨ q.isRelay = true :=
      fun q member => kinds q (perm.mem_iff.mp member)
    refine ⟨?_, ?_, ?_⟩
    · rw [connType_eq kinds, connType_eq kinds', counted_perm one perm]
    · rw [rttMs_eq, rttMs_eq, selected_perm one perm]
    · rw [stream_rttMs_eq, stream_rttMs_eq, rttMs_eq, rttMs_eq, selected_perm one perm]

end Wrapper

/-! ## While a connection moves from its relay to a direct path -/

section Example

local instance addrText : Display (TransportAddr Unit Unit Unit) := ⟨fun addr =>
  match addr with
  | .relay _ => "relay:https://relay.example.com./"
  | .ip _ => "ip:127.0.0.1:1234"
  | .other _ => "custom:0_00"⟩

/-- The relay path is still open and not selected any more. -/
def switching : List (Path Unit Unit Unit) :=
  [⟨.relay (), false, ⟨0, 80000000, by decide⟩⟩, ⟨.ip (), true, ⟨0, 12500000, by decide⟩⟩]

theorem one_story_switching :
    OneStory switching ∧ IrohConnection.connType switching = "direct" ∧
      IrohStream.rttMs switching = some 12 :=
  ⟨one_story (by decide), rfl, rfl⟩

/-- A path of another kind is reported as an IP path, and counts for none. -/
example : IrohConnection.connType [(⟨.other (), false, ⟨0, 0, by decide⟩⟩ : Path Unit Unit Unit)] =
    "none" := rfl

end Example

end IrohKmp.Kernel
