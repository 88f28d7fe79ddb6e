/-
# Kernel.EndpointAddr — the flattened address record, tickets, and the library's address set

The library's `iroh::EndpointAddr` is an id and one ordered set of transport addresses of any
kind. The wrapper's record has one optional relay and a list of direct addresses, both as
strings. `ofIroh` flattens the set, `tryInto` rebuilds one from a record.

* `TransportAddr`, `IrohEndpointAddr` — the library's types; `Library` — its texts;
* `flattened` — what is left of a set after both conversions (`tryInto_ofIroh`);
* `flattened_eq_iff` — nothing is lost exactly when there is one relay at most, and no
  address of a kind the record has no field for;
* `lossless_iff`, for every ticket that is accepted; `second_relay_lost`, a ticket with two.
-/
import IrohKmp.Kernel.Error
import IrohKmp.Theory.Collect
import Mathlib.Data.Finset.Sort
import Mathlib.Data.Sum.Order

namespace IrohKmp.Kernel

open IrohKmp.Theory.Collect

set_option autoImplicit false

/-! ## The library's types -/

/-- `iroh::TransportAddr`; the enumeration is open, so there may be other kinds. -/
inductive TransportAddr (U S O : Type) where
  | relay (url : U)
  | ip (sock : S)
  | other (addr : O)
  deriving DecidableEq

variable {K U S O : Type}

namespace TransportAddr

def relay? : TransportAddr U S O → Option U
  | relay url => some url
  | _ => none

def ip? : TransportAddr U S O → Option S
  | ip sock => some sock
  | _ => none

theorem relay?_eq_some {a : TransportAddr U S O} {url : U} :
    a.relay? = some url ↔ a = relay url := by
  cases a <;> simp [relay?]

theorem ip?_eq_some {a : TransportAddr U S O} {sock : S} : a.ip? = some sock ↔ a = ip sock := by
  cases a <;> simp [ip?]

/-- The kinds in the order the enumeration lists them. -/
def rank : TransportAddr U S O → Lex (U ⊕ Lex (S ⊕ O))
  | relay url => toLex (.inl url)
  | ip sock => toLex (.inr (toLex (.inl sock)))
  | other addr => toLex (.inr (toLex (.inr addr)))

theorem rank_injective : Function.Injective (rank : TransportAddr U S O → _) := by
  intro a b same
  cases a <;> cases b <;> simp_all [rank]

end TransportAddr

variable [LinearOrder U] [LinearOrder S] [LinearOrder O]

/-- The derived order: by kind, then by address. -/
instance : LinearOrder (TransportAddr U S O) :=
  .lift' TransportAddr.rank TransportAddr.rank_injective

/-- `iroh::EndpointAddr`: `K` the endpoint ids, `U` the relay URLs, `S` the socket addresses. -/
structure IrohEndpointAddr (K U S O : Type) where
  id : K
  /-- `BTreeSet<TransportAddr>`. -/
  addrs : Finset (TransportAddr U S O)

namespace IrohEndpointAddr

omit [LinearOrder U] [LinearOrder S] [LinearOrder O] in
theorem ext_iff' {x y : IrohEndpointAddr K U S O} : x = y ↔ x.id = y.id ∧ x.addrs = y.addrs := by
  cases x
  cases y
  simp

/-- `from_parts`. -/
def fromParts (id : K) (addrs : List (TransportAddr U S O)) : IrohEndpointAddr K U S O :=
  ⟨id, addrs.toFinset⟩

/-- `relay_urls()`: the relays among the addresses, in the order of the set. -/
def relayUrls (x : IrohEndpointAddr K U S O) : List U := x.addrs.sort.filterMap TransportAddr.relay?

/-- `ip_addrs()`. -/
def ipAddrs (x : IrohEndpointAddr K U S O) : List S := x.addrs.sort.filterMap TransportAddr.ip?

theorem mem_relayUrls {x : IrohEndpointAddr K U S O} {url : U} :
    url ∈ x.relayUrls ↔ .relay url ∈ x.addrs := by
  simp [relayUrls, TransportAddr.relay?_eq_some]

theorem mem_ipAddrs {x : IrohEndpointAddr K U S O} {sock : S} :
    sock ∈ x.ipAddrs ↔ .ip sock ∈ x.addrs := by
  simp [ipAddrs, TransportAddr.ip?_eq_some]

end IrohEndpointAddr

/-- The library's texts: of ids, URLs and socket addresses, and the ticket codec
(`EndpointTicket::new(addr).to_string()` and `EndpointTicket::from_str`). -/
structure Library (K U S O : Type) where
  key : TextForm K
  url : TextForm U
  sock : TextForm S
  ticket : TextForm (IrohEndpointAddr K U S O)

/-! ## The record -/

structure EndpointAddr where
  id : String
  relayUrl : Option String
  directAddresses : List String
  deriving DecidableEq, Repr

section Wrapper

variable (lib : Library K U S O)

namespace EndpointAddr

/-- The loop over `direct_addresses`. -/
def pushDirect (ips : List String) : Except IrohError (List (TransportAddr U S O)) :=
  ips.mapM fun ip => (lib.sock.read ip).map .ip

/-- `if let Some(relay) = &addr.relay_url`. -/
def pushRelay : Option String → Except IrohError (List (TransportAddr U S O))
  | some relay => (lib.url.read relay).map fun url => [.relay url]
  | none => .ok []

/-- `TryFrom<EndpointAddr> for iroh::EndpointAddr`. -/
def tryInto (addr : EndpointAddr) : Except IrohError (IrohEndpointAddr K U S O) := do
  let id ← lib.key.read addr.id
  let ips ← pushDirect lib addr.directAddresses
  let relay ← pushRelay lib addr.relayUrl
  pure (.fromParts id (ips ++ relay))

/-- `From<iroh::EndpointAddr> for EndpointAddr`. -/
def ofIroh (addr : IrohEndpointAddr K U S O) : EndpointAddr where
  id := lib.key.print addr.id
  relayUrl := addr.relayUrls.head?.map lib.url.print
  directAddresses := addr.ipAddrs.map lib.sock.print

end EndpointAddr

def endpointAddrFromTicket (ticket : String) : Except IrohError EndpointAddr := do
  let t ← lib.ticket.read ticket
  pure (.ofIroh lib t)

def ticketFromEndpointAddr (addr : EndpointAddr) : Except IrohError String := do
  let addr ← addr.tryInto lib
  pure (lib.ticket.print addr)

/-! ## Dialling -/

section Dial

/-- `Endpoint::connect`: dials an address on an ALPN. -/
abbrev Connect (K U S O C : Type) :=
  IrohEndpointAddr K U S O → ByteArray → Except String C

variable {C : Type} (connect : Connect K U S O C)

/-- `IrohEndpoint::connect_conn`. -/
def connectConn (ticket alpn : String) : Except IrohError C := do
  let addr ← lib.ticket.read ticket
  (connect addr alpn.toUTF8).mapError IrohError.msg

/-- `IrohEndpoint::connect_addr`. -/
def connectAddr (addr : EndpointAddr) (alpn : String) : Except IrohError C := do
  let addr ← addr.tryInto lib
  (connect addr alpn.toUTF8).mapError IrohError.msg

end Dial

/-! ## Both conversions in turn -/

variable {lib}

/-- What the record keeps of an address: the first relay and the socket addresses. -/
def IrohEndpointAddr.flattened (x : IrohEndpointAddr K U S O) : IrohEndpointAddr K U S O :=
  .fromParts x.id (x.ipAddrs.map .ip ++ x.relayUrls.head?.toList.map .relay)

/-- The printed forms of what an address is made of parse back to it. -/
structure PrintsBack (lib : Library K U S O) (x : IrohEndpointAddr K U S O) : Prop where
  id : lib.key.parse (lib.key.print x.id) = .ok x.id
  relay : ∀ url, .relay url ∈ x.addrs → lib.url.parse (lib.url.print url) = .ok url
  ip : ∀ sock, .ip sock ∈ x.addrs → lib.sock.parse (lib.sock.print sock) = .ok sock

/-- A record made from an address is accepted, and stands for the flattened address. -/
theorem tryInto_ofIroh {x : IrohEndpointAddr K U S O} (prints : PrintsBack lib x) :
    (EndpointAddr.ofIroh lib x).tryInto lib = .ok x.flattened := by
  have id : lib.key.read (lib.key.print x.id) = .ok x.id := TextForm.read_eq_ok.mpr prints.id
  have ips : EndpointAddr.pushDirect lib (x.ipAddrs.map lib.sock.print) = .ok (x.ipAddrs.map .ip) :=
    mapM_map_eq_ok fun sock member => map_eq_ok.mpr
      ⟨sock, TextForm.read_eq_ok.mpr (prints.ip sock (IrohEndpointAddr.mem_ipAddrs.mp member)), rfl⟩
  have relay : EndpointAddr.pushRelay lib (x.relayUrls.head?.map lib.url.print) =
      .ok (x.relayUrls.head?.toList.map .relay) := by
    cases first : x.relayUrls.head? with
    | none => rfl
    | some url =>
        have member := IrohEndpointAddr.mem_relayUrls.mp (List.mem_of_mem_head? first)
        exact map_eq_ok.mpr ⟨url, TextForm.read_eq_ok.mpr (prints.relay url member), rfl⟩
  simp only [EndpointAddr.tryInto, bind_eq_ok, pure_eq_ok]
  exact ⟨x.id, id, _, ips, _, relay, rfl⟩

/-- Only the first relay is in the flattened set, and nothing of another kind. -/
theorem mem_flattened {x : IrohEndpointAddr K U S O} {a : TransportAddr U S O} :
    a ∈ x.flattened.addrs ↔
      (∃ sock, .ip sock ∈ x.addrs ∧ a = .ip sock) ∨
        ∃ url, x.relayUrls.head? = some url ∧ a = .relay url := by
  simp [IrohEndpointAddr.flattened, IrohEndpointAddr.fromParts, IrohEndpointAddr.mem_ipAddrs,
    eq_comm]

theorem IrohEndpointAddr.flattened_subset (x : IrohEndpointAddr K U S O) :
    x.flattened.addrs ⊆ x.addrs := by
  intro a member
  obtain ⟨sock, here, rfl⟩ | ⟨url, head, rfl⟩ := mem_flattened.mp member
  · exact here
  · exact mem_relayUrls.mp (List.mem_of_mem_head? head)

/-- The address has at most one relay, and nothing the record has no field for. -/
def IrohEndpointAddr.Flat (x : IrohEndpointAddr K U S O) : Prop :=
  (∀ url url', .relay url ∈ x.addrs → .relay url' ∈ x.addrs → url = url') ∧
    ∀ addr, .other addr ∉ x.addrs

open IrohEndpointAddr in
theorem flattened_eq_iff {x : IrohEndpointAddr K U S O} : x.flattened = x ↔ x.Flat := by
  constructor
  · intro same
    have kept : ∀ a, a ∈ x.addrs → a ∈ x.flattened.addrs := fun a member => by rwa [same]
    -- of the relays only the first is kept
    have first : ∀ url, .relay url ∈ x.addrs → x.relayUrls.head? = some url := by
      intro url member
      obtain ⟨sock, -, other⟩ | ⟨url', head, equal⟩ := mem_flattened.mp (kept _ member)
      · cases other
      · cases equal
        exact head
    refine ⟨fun url url' here there => ?_, fun addr member => ?_⟩
    · exact Option.some.inj ((first url here).symm.trans (first url' there))
    · obtain ⟨sock, -, other⟩ | ⟨url, -, other⟩ := mem_flattened.mp (kept _ member) <;> cases other
  · rintro ⟨one, none⟩
    refine ext_iff'.mpr ⟨rfl, Finset.ext fun a => mem_flattened.trans ?_⟩
    constructor
    · exact fun member => x.flattened_subset (mem_flattened.mpr member)
    · intro member
      cases a with
      | ip sock => exact .inl ⟨sock, member, rfl⟩
      | other addr => exact absurd member (none addr)
      | relay url =>
          have among := mem_relayUrls.mpr member
          cases head : x.relayUrls.head? with
          | none => simp [List.head?_eq_none_iff.mp head] at among
          | some url' =>
              have there := mem_relayUrls.mp (List.mem_of_mem_head? head)
              exact .inr ⟨url', rfl, by rw [one url url' member there]⟩

/-! ## From a ticket and back -/

/-- Of what a ticket holds the codec loses nothing, nor of any part of it (of other addresses it
may: a ticket has no room for the scope of an IPv6 address), and it prints and parses back. -/
structure Library.Faithful (lib : Library K U S O) : Prop where
  codec : ∀ t x y, lib.ticket.parse t = .ok x → y.id = x.id → y.addrs ⊆ x.addrs →
    lib.ticket.parse (lib.ticket.print y) = .ok y
  prints : ∀ t x, lib.ticket.parse t = .ok x → PrintsBack lib x

/-- The record taken from ticket `t` makes a ticket of the same address `x`, and dials it. -/
structure Lossless (lib : Library K U S O) (t : String) (x : IrohEndpointAddr K U S O) : Prop where
  roundTrip : ∃ a t', endpointAddrFromTicket lib t = .ok a ∧ ticketFromEndpointAddr lib a = .ok t' ∧
    lib.ticket.parse t' = .ok x
  dials : ∃ a, endpointAddrFromTicket lib t = .ok a ∧
    ∀ (C : Type) (connect : Connect K U S O C) (alpn : String),
      connectAddr lib connect a alpn = connectConn lib connect t alpn

variable {t : String} {x : IrohEndpointAddr K U S O}

theorem endpointAddrFromTicket_eq (accepted : lib.ticket.parse t = .ok x) :
    endpointAddrFromTicket lib t = .ok (.ofIroh lib x) := by
  simp only [endpointAddrFromTicket, bind_eq_ok, pure_eq_ok]
  exact ⟨x, TextForm.read_eq_ok.mpr accepted, rfl⟩

theorem ticketFromEndpointAddr_ofIroh (prints : PrintsBack lib x) :
    ticketFromEndpointAddr lib (.ofIroh lib x) = .ok (lib.ticket.print x.flattened) := by
  simp only [ticketFromEndpointAddr, bind_eq_ok, pure_eq_ok]
  exact ⟨x.flattened, tryInto_ofIroh prints, rfl⟩

/-- A ticket made of the flattened address stands for it. -/
theorem parse_print_flattened (faithful : lib.Faithful) (accepted : lib.ticket.parse t = .ok x) :
    lib.ticket.parse (lib.ticket.print x.flattened) = .ok x.flattened :=
  faithful.codec t x _ accepted rfl x.flattened_subset

theorem flat_of_lossless (faithful : lib.Faithful) (accepted : lib.ticket.parse t = .ok x)
    (lossless : Lossless lib t x) : x.Flat := by
  obtain ⟨a, t', taken, made, decoded⟩ := lossless.roundTrip
  rw [endpointAddrFromTicket_eq accepted] at taken
  cases taken
  rw [ticketFromEndpointAddr_ofIroh (faithful.prints t x accepted)] at made
  cases made
  rw [parse_print_flattened faithful accepted] at decoded
  exact flattened_eq_iff.mp (Except.ok.inj decoded)

theorem lossless_of_flat (faithful : lib.Faithful) (accepted : lib.ticket.parse t = .ok x)
    (flat : x.Flat) : Lossless lib t x := by
  have prints := faithful.prints t x accepted
  have same : x.flattened = x := flattened_eq_iff.mpr flat
  have taken := endpointAddrFromTicket_eq accepted
  have whole := parse_print_flattened faithful accepted
  refine ⟨⟨_, _, taken, ticketFromEndpointAddr_ofIroh prints, ?_⟩, _, taken,
    fun C connect alpn => ?_⟩
  · rw [whole, same]
  · have record : (EndpointAddr.ofIroh lib x).tryInto lib = .ok x := by
      rw [tryInto_ofIroh prints, same]
    have ticket : lib.ticket.read t = .ok x := TextForm.read_eq_ok.mpr accepted
    rw [connectAddr, connectConn, record, ticket]

/-- **When a ticket survives the record.** For every ticket the codec accepts, the round trip
through the record gives the same address, and dials the same, exactly when the address has
one relay at most and nothing the record has no field for. -/
theorem lossless_iff (faithful : lib.Faithful) (accepted : lib.ticket.parse t = .ok x) :
    Lossless lib t x ↔ x.Flat :=
  ⟨flat_of_lossless faithful accepted, lossless_of_flat faithful accepted⟩

end Wrapper

/-! ## Two relays -/

section Example

/-- A small address space: one id, two relays, one socket address. -/
abbrev SmallAddr := IrohEndpointAddr Unit Bool Unit Empty

/-- A ticket lists its members by letter. -/
def letters : List (Char × TransportAddr Bool Unit Empty) :=
  [('a', .relay false), ('b', .relay true), ('i', .ip ())]

def smallLibrary : Library Unit Bool Unit Empty where
  key := ⟨fun _ => "id", fun _ => .ok ()⟩
  url := ⟨fun b => if b then "https://b./" else "https://a./", fun t => .ok (t == "https://b./")⟩
  sock := ⟨fun _ => "127.0.0.1:1", fun _ => .ok ()⟩
  ticket :=
    ⟨fun x => String.ofList ((letters.filter fun l => l.2 ∈ x.addrs).map Prod.fst),
      fun t => .ok (.fromParts () ((letters.filter fun l => l.1 ∈ t.toList).map Prod.snd))⟩

theorem smallLibrary_faithful : smallLibrary.Faithful where
  codec _ _ x _ _ _ := by
    refine congrArg Except.ok (IrohEndpointAddr.ext_iff'.mpr ⟨rfl, Finset.ext fun a => ?_⟩)
    rcases a with (_ | _) | _ | none
    · simp [IrohEndpointAddr.fromParts, letters, smallLibrary]
    · simp [IrohEndpointAddr.fromParts, letters, smallLibrary]
    · simp [IrohEndpointAddr.fromParts, letters, smallLibrary]
    · cases none
  prints _ x _ := ⟨rfl, fun url _ => by cases url <;> rfl, fun _ _ => rfl⟩

theorem lossless_iff_oneRelay :
    Lossless smallLibrary "bi" (.fromParts () [.relay true, .ip ()]) := by
  have accepted : smallLibrary.ticket.parse "bi" = .ok (.fromParts () [.relay true, .ip ()]) := rfl
  refine (lossless_iff smallLibrary_faithful accepted).mpr ⟨?_, fun none => none.elim⟩
  simp [IrohEndpointAddr.fromParts]

/-- Of two relays only the first in order comes back. -/
theorem second_relay_lost :
    smallLibrary.Faithful ∧
      smallLibrary.ticket.parse "ab" = .ok (.fromParts () [.relay false, .relay true]) ∧
      ¬ Lossless smallLibrary "ab" (.fromParts () [.relay false, .relay true]) := by
  have accepted :
      smallLibrary.ticket.parse "ab" = .ok (.fromParts () [.relay false, .relay true]) := rfl
  refine ⟨smallLibrary_faithful, accepted, fun lossless => ?_⟩
  obtain ⟨one, -⟩ := flat_of_lossless smallLibrary_faithful accepted lossless
  have same : false = true :=
    one false true (by simp [IrohEndpointAddr.fromParts]) (by simp [IrohEndpointAddr.fromParts])
  cases same

end Example

end IrohKmp.Kernel
