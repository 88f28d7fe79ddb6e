/-
# Kernel.RemoteInfo — `remote_info`, and dialling what it reports

`remote_info` reports what the endpoint knows of a remote: an entry for each address, with its
text, its kind and whether it is in use. An address of a kind the wrapper has no word for is
reported as an IP address, under the text the library prints for it. Apps that read the report by
kind into an address record dial the remote they were told about, unless such an address is there.

* `IrohEndpoint.remoteInfo` — the code; `RemoteInfo.record` — a report, read by kind;
* `record_accepted_iff`, `record_whole_iff` — when the record is an address, and all of it;
* `reported_redials`, of whatever the endpoint knows; `reported_redials_relay`.
-/
import IrohKmp.Kernel.Paths

namespace IrohKmp.Kernel

open IrohKmp.Theory.Collect

set_option autoImplicit false
set_option linter.unusedSectionVars false

/-! ## The library's record -/

/-- `TransportAddrUsage`; the enumeration is open, so there may be other states. -/
inductive TransportAddrUsage where
  | active
  | inactive
  | other
  deriving DecidableEq

/-- One address of a remote, and whether it is in use. -/
structure TransportAddrInfo (U S O : Type) where
  addr : TransportAddr U S O
  usage : TransportAddrUsage

/-- What the endpoint knows of a remote; the entries as `into_addrs` gives them. -/
structure IrohRemoteInfo (K U S O : Type) where
  id : K
  addrs : List (TransportAddrInfo U S O)

/-! ## The report -/

structure RemoteAddrInfo where
  addr : String
  kind : PathKind
  usage : String
  deriving DecidableEq, Repr

structure RemoteInfo where
  id : String
  addrs : List RemoteAddrInfo
  deriving DecidableEq, Repr

section Wrapper

variable {K U S O : Type} [LinearOrder U] [LinearOrder S] [LinearOrder O]
  [Display (TransportAddr U S O)] (lib : Library K U S O)

def TransportAddrUsage.text : TransportAddrUsage → String
  | active => "active"
  | inactive => "inactive"
  | other => "unknown"

/-- The text and the kind of an address; one of another kind counts as an IP address. -/
def TransportAddr.told : TransportAddr U S O → String × PathKind
  | ip sock => (lib.sock.print sock, .ip)
  | relay url => (lib.url.print url, .relay)
  | other addr => (Display.text (other addr : TransportAddr U S O), .ip)

def RemoteAddrInfo.ofIroh (a : TransportAddrInfo U S O) : RemoteAddrInfo where
  addr := (a.addr.told lib).1
  kind := (a.addr.told lib).2
  usage := a.usage.text

def RemoteInfo.ofIroh (info : IrohRemoteInfo K U S O) : RemoteInfo where
  id := lib.key.print info.id
  addrs := info.addrs.map (RemoteAddrInfo.ofIroh lib)

/-- `remote_info`, on what the library answers for each id. -/
def IrohEndpoint.remoteInfo (inner : K → Option (IrohRemoteInfo K U S O))
    (endpointIdHex : String) : Except IrohError (Option RemoteInfo) := do
  let id ← lib.key.read endpointIdHex
  match inner id with
  | some info => pure (some (.ofIroh lib info))
  | none => pure none

/-! ## Reading the report by kind -/

/-- The address record an app makes of a report: the first relay, and the IP addresses. -/
def RemoteInfo.record (r : RemoteInfo) : EndpointAddr where
  id := r.id
  relayUrl := (r.addrs.find? fun e => e.kind = .relay).map (·.addr)
  directAddresses := (r.addrs.filter fun e => e.kind = .ip).map (·.addr)

namespace IrohRemoteInfo

/-- The addresses of a remote, as one address of the library. -/
def endpointAddr (info : IrohRemoteInfo K U S O) : IrohEndpointAddr K U S O :=
  .fromParts info.id (info.addrs.map (·.addr))

/-- What is not a relay. -/
def direct (info : IrohRemoteInfo K U S O) : List (TransportAddr U S O) :=
  (info.addrs.map (·.addr)).filter fun a => a.relay?.isNone

/-- The relays, as the entries have them. -/
def relays (info : IrohRemoteInfo K U S O) : List U :=
  (info.addrs.map (·.addr)).filterMap TransportAddr.relay?

variable {info : IrohRemoteInfo K U S O}

theorem mem_endpointAddr {a : TransportAddr U S O} :
    a ∈ info.endpointAddr.addrs ↔ a ∈ info.addrs.map (·.addr) := by
  simp [endpointAddr, IrohEndpointAddr.fromParts]

theorem mem_direct {a : TransportAddr U S O} :
    a ∈ info.direct ↔ a ∈ info.endpointAddr.addrs ∧ a.relay? = none := by
  rw [direct, List.mem_filter, mem_endpointAddr, Option.isNone_iff_eq_none]

theorem mem_relays {url : U} : url ∈ info.relays ↔ .relay url ∈ info.endpointAddr.addrs := by
  simp [relays, mem_endpointAddr, TransportAddr.relay?_eq_some]

end IrohRemoteInfo

variable {lib} {info : IrohRemoteInfo K U S O}

theorem told_kind_eq_ip {a : TransportAddr U S O} : (a.told lib).2 = .ip ↔ a.relay? = none := by
  cases a <;> simp [TransportAddr.told, TransportAddr.relay?]

/-- The kind of an address is the one `paths` reports for a path that leads there. -/
theorem told_kind_eq_paths (p : Path U S O) :
    (p.remoteAddr.told lib).2 = (ConnPath.ofPath p).kind := by
  unfold ConnPath.ofPath Path.isRelay
  cases p.remoteAddr <;> rfl

theorem record_directAddresses :
    (RemoteInfo.ofIroh lib info).record.directAddresses =
      info.direct.map fun a => (a.told lib).1 := by
  simp only [RemoteInfo.record, RemoteInfo.ofIroh, IrohRemoteInfo.direct, List.filter_map,
    List.map_map]
  have same : ∀ a : TransportAddrInfo U S O,
      decide ((RemoteAddrInfo.ofIroh lib a).kind = .ip) = a.addr.relay?.isNone := by
    intro a
    rw [Bool.eq_iff_iff, decide_eq_true_iff, Option.isNone_iff_eq_none]
    exact told_kind_eq_ip
  simp only [Function.comp_def, same]
  rfl

theorem record_relayUrl :
    (RemoteInfo.ofIroh lib info).record.relayUrl = info.relays.head?.map lib.url.print := by
  simp only [RemoteInfo.record, RemoteInfo.ofIroh, IrohRemoteInfo.relays]
  induction info.addrs with
  | nil => rfl
  | cons a rest ih =>
      cases first : a.addr.relay? with
      | some url =>
          have relay : a.addr = .relay url := TransportAddr.relay?_eq_some.mp first
          simp [RemoteAddrInfo.ofIroh, TransportAddr.told, TransportAddr.relay?, relay]
      | none =>
          have ip : (RemoteAddrInfo.ofIroh lib a).kind = .ip := told_kind_eq_ip.mpr first
          rw [List.map_cons, List.map_cons, List.find?_cons_of_neg (by simp [ip]),
            List.filterMap_cons_none first]
          exact ih

/-! ## When the record is an address -/

/-- No socket address reads from what an address of another kind prints as. -/
def Foreign (lib : Library K U S O) (addr : O) : Prop :=
  ∀ sock, lib.sock.parse (Display.text (.other addr : TransportAddr U S O)) ≠ .ok sock

variable (prints : PrintsBack lib info.endpointAddr)

include prints

theorem read_told {sock : S} (member : .ip sock ∈ info.endpointAddr.addrs) :
    lib.sock.read ((TransportAddr.ip sock : TransportAddr U S O).told lib).1 = .ok sock :=
  TextForm.read_eq_ok.mpr (prints.ip sock member)

/-- The direct addresses are read exactly when each of them is a socket address. -/
theorem pushDirect_ok_iff
    (foreign : ∀ addr, .other addr ∈ info.endpointAddr.addrs → Foreign lib addr) :
    (∃ ips, EndpointAddr.pushDirect lib (info.direct.map fun a => (a.told lib).1) = .ok ips) ↔
      ∀ addr, .other addr ∉ info.endpointAddr.addrs := by
  rw [EndpointAddr.pushDirect, exists_mapM_eq_ok_iff]
  constructor
  · intro each addr member
    have direct : .other addr ∈ info.direct := IrohRemoteInfo.mem_direct.mpr ⟨member, rfl⟩
    obtain ⟨a, read⟩ := each _ (List.mem_map_of_mem direct)
    obtain ⟨sock, read, -⟩ := map_eq_ok.mp read
    exact foreign addr member sock (TextForm.read_eq_ok.mp read)
  · intro none text member
    obtain ⟨a, direct, rfl⟩ := List.mem_map.mp member
    obtain ⟨member, notRelay⟩ := IrohRemoteInfo.mem_direct.mp direct
    cases a with
    | ip sock => exact ⟨.ip sock, map_eq_ok.mpr ⟨sock, read_told prints member, rfl⟩⟩
    | relay url => cases notRelay
    | other addr => exact absurd member (none addr)

theorem pushDirect_direct (none : ∀ addr, .other addr ∉ info.endpointAddr.addrs) :
    EndpointAddr.pushDirect lib (info.direct.map fun a => (a.told lib).1) = .ok info.direct := by
  have reads : ∀ a ∈ info.direct,
      (lib.sock.read (a.told lib).1).map TransportAddr.ip = .ok (id a) := by
    intro a direct
    obtain ⟨member, notRelay⟩ := IrohRemoteInfo.mem_direct.mp direct
    cases a with
    | ip sock => exact map_eq_ok.mpr ⟨sock, read_told prints member, rfl⟩
    | relay url => cases notRelay
    | other addr => exact absurd member (none addr)
  have all := mapM_map_eq_ok (f := fun ip => (lib.sock.read ip).map TransportAddr.ip) reads
  rw [List.map_id] at all
  exact all

theorem pushRelay_relays :
    EndpointAddr.pushRelay lib (info.relays.head?.map lib.url.print) =
      .ok (info.relays.head?.toList.map .relay) := by
  cases first : info.relays.head? with
  | none => rfl
  | some url =>
      have member := IrohRemoteInfo.mem_relays.mp (List.mem_of_mem_head? first)
      exact map_eq_ok.mpr ⟨url, TextForm.read_eq_ok.mpr (prints.relay url member), rfl⟩

/-- With no address of another kind the record stands for the direct addresses and one relay. -/
theorem tryInto_record (none : ∀ addr, .other addr ∉ info.endpointAddr.addrs) :
    (RemoteInfo.ofIroh lib info).record.tryInto lib =
      .ok (.fromParts info.id (info.direct ++ info.relays.head?.toList.map .relay)) := by
  have id : lib.key.read (lib.key.print info.id) = .ok info.id :=
    TextForm.read_eq_ok.mpr prints.id
  simp only [EndpointAddr.tryInto, record_directAddresses, record_relayUrl, bind_eq_ok, pure_eq_ok]
  exact ⟨info.id, id, _, pushDirect_direct prints none, _, pushRelay_relays prints, rfl⟩

theorem record_accepted_iff
    (foreign : ∀ addr, .other addr ∈ info.endpointAddr.addrs → Foreign lib addr) :
    (∃ x, (RemoteInfo.ofIroh lib info).record.tryInto lib = .ok x) ↔
      ∀ addr, .other addr ∉ info.endpointAddr.addrs := by
  constructor
  · rintro ⟨x, accepted⟩
    simp only [EndpointAddr.tryInto, record_directAddresses, bind_eq_ok] at accepted
    obtain ⟨-, -, ips, read, -⟩ := accepted
    exact (pushDirect_ok_iff prints foreign).mp ⟨ips, read⟩
  · intro none
    exact ⟨_, tryInto_record prints none⟩

omit prints in
/-- One relay of the entries is all of them exactly when no two of them differ. -/
theorem fromParts_eq_iff :
    .fromParts info.id (info.direct ++ info.relays.head?.toList.map .relay) = info.endpointAddr ↔
      ∀ url url', .relay url ∈ info.endpointAddr.addrs → .relay url' ∈ info.endpointAddr.addrs →
        url = url' := by
  have kept : ∀ a : TransportAddr U S O,
      a ∈ (IrohEndpointAddr.fromParts info.id
          (info.direct ++ info.relays.head?.toList.map .relay)).addrs ↔
        (a ∈ info.endpointAddr.addrs ∧ a.relay? = none) ∨
          ∃ url, info.relays.head? = some url ∧ a = .relay url := by
    intro a
    simp [IrohEndpointAddr.fromParts, IrohRemoteInfo.mem_direct, eq_comm]
  rw [IrohEndpointAddr.ext_iff']
  constructor
  · rintro ⟨-, same⟩ url url' here there
    have first : ∀ u, .relay u ∈ info.endpointAddr.addrs → info.relays.head? = some u := by
      intro u member
      rw [← same, kept] at member
      obtain ⟨-, notRelay⟩ | ⟨u', head, equal⟩ := member
      · cases notRelay
      · cases equal
        exact head
    exact Option.some.inj ((first url here).symm.trans (first url' there))
  · intro one
    refine ⟨rfl, Finset.ext fun a => (kept a).trans ?_⟩
    constructor
    · rintro (⟨member, -⟩ | ⟨url, head, rfl⟩)
      · exact member
      · exact IrohRemoteInfo.mem_relays.mp (List.mem_of_mem_head? head)
    · intro member
      cases relay : a.relay? with
      | none => exact .inl ⟨member, rfl⟩
      | some url =>
          obtain rfl := TransportAddr.relay?_eq_some.mp relay
          have among := IrohRemoteInfo.mem_relays.mpr member
          cases head : info.relays.head? with
          | none => simp [List.head?_eq_none_iff.mp head] at among
          | some url' =>
              have there := IrohRemoteInfo.mem_relays.mp (List.mem_of_mem_head? head)
              exact .inr ⟨url', rfl, by rw [one url url' member there]⟩

/-- The record is the whole address exactly when that is flat. -/
theorem record_whole_iff
    (foreign : ∀ addr, .other addr ∈ info.endpointAddr.addrs → Foreign lib addr) :
    (RemoteInfo.ofIroh lib info).record.tryInto lib = .ok info.endpointAddr ↔
      info.endpointAddr.Flat := by
  constructor
  · intro whole
    have none := (record_accepted_iff prints foreign).mp ⟨_, whole⟩
    rw [tryInto_record prints none] at whole
    exact ⟨fromParts_eq_iff.mp (Except.ok.inj whole), none⟩
  · rintro ⟨one, none⟩
    rw [tryInto_record prints none, fromParts_eq_iff.mpr one]

/-! ## Dialling what is reported -/

omit prints in
/-- What an app that was told `r` of a remote at `x` can do with it: its record is an address
exactly when none of the addresses is of another kind, and dials all of `x` exactly when that is
flat; and a path to one of the addresses has an entry with the kind `paths` reports. -/
structure Redials (lib : Library K U S O) (x : IrohEndpointAddr K U S O) (r : RemoteInfo) :
    Prop where
  accepted : (∃ y, r.record.tryInto lib = .ok y) ↔ ∀ addr, .other addr ∉ x.addrs
  dials : (∀ (C : Type) (connect : Connect K U S O C) (alpn : String),
      connectAddr lib connect r.record alpn = (connect x alpn.toUTF8).mapError IrohError.msg) ↔
    x.Flat
  paths : ∀ p : Path U S O, p.remoteAddr ∈ x.addrs → ∃ e ∈ r.addrs,
    e.addr = (p.remoteAddr.told lib).1 ∧ e.kind = (ConnPath.ofPath p).kind

omit prints in
/-- A record dials an address through every connector exactly when it is read as that address. -/
theorem dials_iff {addr : EndpointAddr} {x : IrohEndpointAddr K U S O} :
    (∀ (C : Type) (connect : Connect K U S O C) (alpn : String),
      connectAddr lib connect addr alpn = (connect x alpn.toUTF8).mapError IrohError.msg) ↔
    addr.tryInto lib = .ok x := by
  constructor
  · intro dials
    -- a connector that returns the address it is given
    have same := dials (IrohEndpointAddr K U S O) (fun y _ => .ok y) ""
    simp only [connectAddr, bind_eq_ok, Except.mapError] at same
    obtain ⟨y, read, equal⟩ := same
    rw [read, Except.ok.inj equal]
  · intro read C connect alpn
    rw [connectAddr, read]
    rfl

theorem redials (foreign : ∀ addr, .other addr ∈ info.endpointAddr.addrs → Foreign lib addr) :
    Redials lib info.endpointAddr (.ofIroh lib info) where
  accepted := record_accepted_iff prints foreign
  dials := dials_iff.trans (record_whole_iff prints foreign)
  paths := by
    intro p member
    obtain ⟨a, entry, same⟩ := List.mem_map.mp (IrohRemoteInfo.mem_endpointAddr.mp member)
    refine ⟨.ofIroh lib a, List.mem_map_of_mem entry, ?_, ?_⟩
    · rw [← same]
      rfl
    · rw [← told_kind_eq_paths p, ← same]
      rfl

omit prints

/-- What the endpoint answers: about the id it is asked for, with texts that read back. -/
structure Known (lib : Library K U S O) (inner : K → Option (IrohRemoteInfo K U S O)) : Prop where
  asked : ∀ id info, inner id = some info → info.id = id
  prints : ∀ id info, inner id = some info → PrintsBack lib info.endpointAddr
  foreign : ∀ id info, inner id = some info →
    ∀ addr, .other addr ∈ info.endpointAddr.addrs → Foreign lib addr

variable {inner : K → Option (IrohRemoteInfo K U S O)} {hex : String} {r : RemoteInfo}

theorem remoteInfo_eq_some :
    IrohEndpoint.remoteInfo lib inner hex = .ok (some r) ↔
      ∃ id info, lib.key.parse hex = .ok id ∧ inner id = some info ∧ .ofIroh lib info = r := by
  simp only [IrohEndpoint.remoteInfo, bind_eq_ok, TextForm.read_eq_ok]
  constructor
  · rintro ⟨id, read, answer⟩
    cases known : inner id with
    | none => simp [known] at answer
    | some info =>
        simp only [known, pure_eq_ok, Option.some.injEq] at answer
        exact ⟨id, info, read, known, answer⟩
  · rintro ⟨id, info, read, known, rfl⟩
    exact ⟨id, read, by simp only [known, pure_eq_ok]⟩

/-- **A report can be dialled.** Whatever the endpoint reports of a remote is about the id asked
for, and the record an app makes of it is an address unless one of the addresses is of a kind the
wrapper has no word for; it dials all the endpoint knows exactly when there is one relay at most
besides. -/
theorem reported_redials (known : Known lib inner)
    (told : IrohEndpoint.remoteInfo lib inner hex = .ok (some r)) :
    ∃ id info, lib.key.parse hex = .ok id ∧ inner id = some info ∧
      lib.key.parse r.id = .ok id ∧ Redials lib info.endpointAddr r := by
  obtain ⟨id, info, read, answer, rfl⟩ := remoteInfo_eq_some.mp told
  have prints := known.prints id info answer
  have about : lib.key.parse (lib.key.print info.id) = .ok info.id := prints.id
  refine ⟨id, info, read, answer, ?_, redials prints (known.foreign id info answer)⟩
  rw [← known.asked id info answer]
  exact about

end Wrapper

/-! ## A relay, and an address of another kind -/

section Example

local instance remoteText : Display (TransportAddr Bool Unit Unit) := ⟨fun addr =>
  match addr with
  | .relay _ => "relay:https://a./"
  | .ip _ => "ip:127.0.0.1:1"
  | .other _ => "custom:0_00"⟩

def remoteLibrary : Library Unit Bool Unit Unit where
  key := ⟨fun _ => "id", fun t => if t = "id" then .ok () else .error "invalid length"⟩
  url := ⟨fun b => if b then "https://b./" else "https://a./", fun t =>
    if t = "https://a./" then .ok false else
      if t = "https://b./" then .ok true else .error "relative URL without a base"⟩
  sock := ⟨fun _ => "127.0.0.1:1", fun t =>
    if t = "127.0.0.1:1" then .ok () else .error "invalid socket address syntax"⟩
  ticket := ⟨fun _ => "", fun _ => .error "wrong prefix"⟩

/-- The endpoint reaches the remote through its relay, and knows a custom address. -/
def relayed (_ : Unit) : Option (IrohRemoteInfo Unit Bool Unit Unit) :=
  some ⟨(), [⟨.ip (), .inactive⟩, ⟨.relay true, .active⟩, ⟨.other (), .other⟩]⟩

theorem relayed_known : Known remoteLibrary relayed where
  asked _ _ _ := rfl
  prints _ _ _ := ⟨rfl, fun url _ => by cases url <;> rfl, fun _ _ => rfl⟩
  foreign _ _ _ addr _ sock := by cases sock; cases addr; decide

def relayedReport : RemoteInfo where
  id := "id"
  addrs := [⟨"127.0.0.1:1", .ip, "inactive"⟩, ⟨"https://b./", .relay, "active"⟩,
    ⟨"custom:0_00", .ip, "unknown"⟩]

/-- The custom address is told as an IP address, so the record is refused. -/
theorem reported_redials_custom :
    IrohEndpoint.remoteInfo remoteLibrary relayed "id" = .ok (some relayedReport) ∧
      ¬ ∃ y, relayedReport.record.tryInto remoteLibrary = .ok y := by
  have told : IrohEndpoint.remoteInfo remoteLibrary relayed "id" = .ok (some relayedReport) := rfl
  obtain ⟨_, info, -, answer, -, redials⟩ := reported_redials relayed_known told
  cases answer
  refine ⟨told, fun accepted => redials.accepted.mp accepted () ?_⟩
  simp [IrohRemoteInfo.mem_endpointAddr]

end Example

end IrohKmp.Kernel
