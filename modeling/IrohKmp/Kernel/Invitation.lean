/-
# Kernel.Invitation — tickets as text and as bytes, and what is signed beside them

A ticket travels as text or, in an invitation, as raw bytes, and an endpoint signs what it sends
beside it. The other side takes the endpoint id out of the ticket and checks the signature under
it, or dials. `ticketBytes` and `ticketFromBytes` change the form, the functions of
`Kernel.EndpointAddr` make a record of it, and `connectById` needs no ticket at all.

* `OneTicket`, `Refused`, `ticket_forms` — for every text, all forms stand for one address, or
  all that take a ticket refuse it alike;
* `PeerName`, `dial_eq_iff` — a dial tells two names apart exactly when they are read differently;
* `OneDial`, `one_dial` — a ticket, a record and an id of one peer all dial the same, if the codec
  has room for the address (it has none for the scope of an IPv6 address);
* `OneEndpoint`, `one_endpoint` — what an endpoint says of itself is one address, and so is its
  ticket, with the same reserve;
* `Invites`, `invitation_verifies` — what an endpoint signed is accepted under the id in its
  ticket, and nothing is that its key does not verify.
-/
import IrohKmp.Kernel.EndpointAddr
import IrohKmp.Kernel.Identity
import IrohKmp.Theory.ReadBack

namespace IrohKmp.Kernel

open IrohKmp.Theory.Collect
open IrohKmp.Theory.ReadBack

set_option autoImplicit false
set_option linter.unusedSectionVars false

/-- Tickets have bytes too: `EndpointTicket::encode_bytes` and `decode_bytes`. -/
structure TicketLibrary (V U S O : Type) extends Library V U S O where
  encodeBytes : IrohEndpointAddr V U S O → List UInt8
  decodeBytes : List UInt8 → Except String (IrohEndpointAddr V U S O)

/-- Neither form of a ticket loses anything of an address that a ticket stands for. -/
structure TicketLibrary.Lossless {V U S O : Type} (lib : TicketLibrary V U S O) : Prop where
  text : ∀ t x, lib.ticket.parse t = .ok x → lib.ticket.parse (lib.ticket.print x) = .ok x
  bytes : ∀ t x, lib.ticket.parse t = .ok x → lib.decodeBytes (lib.encodeBytes x) = .ok x

/-- A ticket of any address is one of its id, whatever else the codec has no room for (the scope
of an IPv6 address). -/
def TicketLibrary.KeepsId {V U S O : Type} (lib : TicketLibrary V U S O) : Prop :=
  ∀ x, ∃ x', lib.ticket.parse (lib.ticket.print x) = .ok x' ∧ x'.id = x.id

/-- `EndpointTicket::decode_bytes(&bytes).map_err(IrohError::msg)`. -/
def TicketLibrary.readBytes {V U S O : Type} (lib : TicketLibrary V U S O) (bytes : List UInt8) :
    Except IrohError (IrohEndpointAddr V U S O) :=
  (lib.decodeBytes bytes).mapError IrohError.msg

section Tickets

variable {V U S O : Type} [LinearOrder U] [LinearOrder S] [LinearOrder O]
variable (lib : TicketLibrary V U S O)

/-! ## The functions -/

def endpointIdFromTicket (ticket : String) : Except IrohError String := do
  let t ← lib.ticket.read ticket
  pure (lib.key.print t.id)

def ticketBytes (ticket : String) : Except IrohError (List UInt8) := do
  let t ← lib.ticket.read ticket
  pure (lib.encodeBytes t)

def ticketFromBytes (bytes : List UInt8) : Except IrohError String := do
  let t ← lib.readBytes bytes
  pure (lib.ticket.print t)

section Dial

variable {C : Type} (connect : Connect V U S O C)

/-- `IrohEndpoint::connect_by_id`: an id alone is an address with nothing else in it. -/
def connectById (endpointIdHex alpn : String) : Except IrohError C := do
  let id ← lib.key.read endpointIdHex
  (connect (.fromParts id []) alpn.toUTF8).mapError IrohError.msg

end Dial

/-! ## One ticket in its forms -/

variable {lib}

theorem ticketBytes_eq (t : String) :
    ticketBytes lib t = transcode lib.ticket.read lib.encodeBytes t := by
  unfold ticketBytes transcode
  cases lib.ticket.read t <;> rfl

theorem ticketFromBytes_eq (bytes : List UInt8) :
    ticketFromBytes lib bytes = transcode lib.readBytes lib.ticket.print bytes := by
  unfold ticketFromBytes transcode
  cases lib.readBytes bytes <;> rfl

/-- The forms of ticket `t` stand for the address `x`. -/
structure OneTicket (lib : TicketLibrary V U S O) (t : String) (x : IrohEndpointAddr V U S O) :
    Prop where
  bytes : ∃ b, ticketBytes lib t = .ok b ∧ lib.decodeBytes b = .ok x
  /-- A ticket made of its bytes is its normal form. -/
  normal : ∀ b, ticketBytes lib t = .ok b → ∃ t', ticketFromBytes lib b = .ok t' ∧
    lib.ticket.parse t' = .ok x ∧ ticketBytes lib t' = .ok b
  /-- Two tickets have the same bytes exactly when they stand for the same address. -/
  same : ∀ t' x', lib.ticket.parse t' = .ok x' →
    (ticketBytes lib t' = ticketBytes lib t ↔ x' = x)
  /-- The id alone is that of the record. -/
  id : ∃ a, endpointAddrFromTicket lib.toLibrary t = .ok a ∧ endpointIdFromTicket lib t = .ok a.id
  dials : ∀ b t', ticketBytes lib t = .ok b → ticketFromBytes lib b = .ok t' →
    ∀ (C : Type) (connect : Connect V U S O C) (alpn : String),
      connectConn lib.toLibrary connect t' alpn = connectConn lib.toLibrary connect t alpn

/-- All that take a ticket refuse `t` with this error, and nothing is dialled. -/
structure Refused (lib : TicketLibrary V U S O) (t : String) (e : IrohError) : Prop where
  bytes : ticketBytes lib t = .error e
  id : endpointIdFromTicket lib t = .error e
  record : endpointAddrFromTicket lib.toLibrary t = .error e
  dial : ∀ (C : Type) (connect : Connect V U S O C) (alpn : String),
    connectConn lib.toLibrary connect t alpn = .error e

variable {t : String} {x : IrohEndpointAddr V U S O}

theorem oneTicket (lossless : lib.Lossless) (accepted : lib.ticket.parse t = .ok x) :
    OneTicket lib t x := by
  have whole : ∀ {t x}, lib.ticket.parse t = .ok x → lib.readBytes (lib.encodeBytes x) = .ok x :=
    fun accepted => mapError_eq_ok.mpr (lossless.bytes _ _ accepted)
  have text : lib.ticket.parse (lib.ticket.print x) = .ok x := lossless.text t x accepted
  have read : lib.ticket.read t = .ok x := TextForm.read_eq_ok.mpr accepted
  have bytes : ticketBytes lib t = .ok (lib.encodeBytes x) := by
    rw [ticketBytes_eq, transcode_of_read read]
  have back : ticketFromBytes lib (lib.encodeBytes x) = .ok (lib.ticket.print x) := by
    rw [ticketFromBytes_eq]
    exact transcode_of_read (whole accepted)
  have again : lib.ticket.read (lib.ticket.print x) = .ok x := TextForm.read_eq_ok.mpr text
  constructor
  · exact ⟨_, bytes, lossless.bytes t x accepted⟩
  · intro b made
    rw [bytes] at made
    cases made
    refine ⟨_, back, text, ?_⟩
    rw [ticketBytes_eq, transcode_of_read again]
  · intro t' x' accepted'
    rw [ticketBytes_eq, ticketBytes_eq]
    exact transcode_eq_iff (TextForm.read_eq_ok.mpr accepted') read (whole accepted')
      (whole accepted)
  · refine ⟨_, endpointAddrFromTicket_eq accepted, ?_⟩
    simp only [endpointIdFromTicket, bind_eq_ok, pure_eq_ok]
    exact ⟨x, read, rfl⟩
  · intro b t' made remade C connect alpn
    rw [bytes] at made
    cases made
    rw [back] at remade
    cases remade
    rw [connectConn, connectConn, again, read]

/-- The ticket made of an address that a ticket stands for is in normal form. -/
theorem normal_print (lossless : lib.Lossless) (accepted : lib.ticket.parse t = .ok x)
    {b : List UInt8} (made : ticketBytes lib (lib.ticket.print x) = .ok b) :
    ticketFromBytes lib b = .ok (lib.ticket.print x) := by
  have again : lib.ticket.read (lib.ticket.print x) = .ok x :=
    TextForm.read_eq_ok.mpr (lossless.text t x accepted)
  have whole : lib.readBytes (lib.encodeBytes x) = .ok x :=
    mapError_eq_ok.mpr (lossless.bytes t x accepted)
  rw [ticketBytes_eq, transcode_of_read again] at made
  cases made
  rw [ticketFromBytes_eq, transcode_of_read whole]

theorem refused {err : String} (rejected : lib.ticket.parse t = .error err) :
    Refused lib t (IrohError.msg err) := by
  have read : lib.ticket.read t = .error (IrohError.msg err) := by
    rw [TextForm.read, rejected]
    rfl
  constructor
  · rw [ticketBytes, read]
    rfl
  · rw [endpointIdFromTicket, read]
    rfl
  · rw [endpointAddrFromTicket, read]
    rfl
  · intro C connect alpn
    rw [connectConn, read]
    rfl

/-- **One ticket in all its forms.** Every text stands for one address in each form, or is refused
alike by all that take a ticket. -/
theorem ticket_forms (lossless : lib.Lossless) (t : String) :
    (∃ x, lib.ticket.parse t = .ok x ∧ OneTicket lib t x) ∨
      ∃ err, lib.ticket.parse t = .error err ∧ Refused lib t (IrohError.msg err) := by
  cases parsed : lib.ticket.parse t with
  | ok x => exact .inl ⟨x, rfl, oneTicket lossless parsed⟩
  | error err => exact .inr ⟨err, rfl, refused parsed⟩

/-! ## One peer, however it is named -/

/-- What an app can dial by. -/
inductive PeerName where
  | ticket (ticket : String)
  | addr (addr : EndpointAddr)
  | id (endpointIdHex : String)

namespace PeerName

variable (lib) in
/-- The address a name stands for. -/
def read : PeerName → Except IrohError (IrohEndpointAddr V U S O)
  | ticket t => lib.ticket.read t
  | addr a => a.tryInto lib.toLibrary
  | id hex => (lib.key.read hex).map fun id => .fromParts id []

variable (lib) in
/-- `connect_conn`, `connect_addr` or `connect_by_id`. -/
def dial {C : Type} (connect : Connect V U S O C) (alpn : String) : PeerName → Except IrohError C
  | ticket t => connectConn lib.toLibrary connect t alpn
  | addr a => connectAddr lib.toLibrary connect a alpn
  | id hex => connectById lib connect hex alpn

/-- A name is read first, and dialled if it can be read. -/
theorem dial_eq {C : Type} (connect : Connect V U S O C) (alpn : String) (n : PeerName) :
    n.dial lib connect alpn =
      n.read lib >>= fun x => (connect x alpn.toUTF8).mapError IrohError.msg := by
  cases n with
  | ticket t | addr a => rfl
  | id hex =>
      simp only [dial, connectById, read]
      cases lib.key.read hex <;> rfl

/-- Through every connector two names dial the same exactly when they are read alike. -/
theorem dial_eq_iff {n n' : PeerName} :
    (∀ (C : Type) (connect : Connect V U S O C) (alpn : String),
      n.dial lib connect alpn = n'.dial lib connect alpn) ↔ n.read lib = n'.read lib := by
  constructor
  · intro same
    -- a connector that returns the address it is given
    have echo : ∀ n : PeerName, n.dial lib (fun x _ => .ok x) "" = n.read lib := by
      intro n
      rw [dial_eq]
      cases n.read lib <;> rfl
    rw [← echo n, ← echo n']
    exact same _ _ _
  · intro same C connect alpn
    rw [dial_eq, dial_eq, same]

end PeerName

/-- An id, a record or a ticket: all ways to name a peer dial the same. -/
structure OneDial (lib : TicketLibrary V U S O) : Prop where
  /-- Two names cannot be told apart by dialling exactly when they stand for the same address, or
  are refused alike. -/
  same : ∀ n n' : PeerName,
    (∀ (C : Type) (connect : Connect V U S O C) (alpn : String),
      n.dial lib connect alpn = n'.dial lib connect alpn) ↔ n.read lib = n'.read lib
  /-- An id is a record with nothing else in it, -/
  byId : ∀ hex, (PeerName.id hex).read lib = (PeerName.addr ⟨hex, none, []⟩).read lib
  /-- a record made a ticket is the record exactly when some ticket is (the codec has room for its
  address), and then also if the ticket goes as bytes, -/
  byTicket : ∀ a t, ticketFromEndpointAddr lib.toLibrary a = .ok t →
    ((PeerName.ticket t).read lib = (PeerName.addr a).read lib ↔
      ∃ t', (PeerName.ticket t').read lib = (PeerName.addr a).read lib) ∧
    ∀ t', (PeerName.ticket t').read lib = (PeerName.addr a).read lib →
      ∃ b, ticketBytes lib t = .ok b ∧ ticketFromBytes lib b = .ok t
  /-- and a record that makes no ticket is not dialled either. -/
  refused : ∀ a e, ticketFromEndpointAddr lib.toLibrary a = .error e ↔
    (PeerName.addr a).read lib = .error e

theorem ticketFromEndpointAddr_eq_error {a : EndpointAddr} {e : IrohError} :
    ticketFromEndpointAddr lib.toLibrary a = .error e ↔ a.tryInto lib.toLibrary = .error e := by
  unfold ticketFromEndpointAddr
  cases a.tryInto lib.toLibrary with
  | ok x => simp [bind, Except.bind, pure, Except.pure]
  | error err => simp [bind, Except.bind]

/-- **Every way to name a peer dials the same.** -/
theorem one_dial (lossless : lib.Lossless) : OneDial lib where
  same _ _ := PeerName.dial_eq_iff
  byId hex := by
    unfold PeerName.read EndpointAddr.tryInto
    cases lib.key.read hex <;> rfl
  byTicket a t made := by
    simp only [ticketFromEndpointAddr, bind_eq_ok, pure_eq_ok] at made
    obtain ⟨x, record, rfl⟩ := made
    have read : (PeerName.addr a).read lib = .ok x := record
    have stands : ∀ t', (PeerName.ticket t').read lib = (PeerName.addr a).read lib →
        lib.ticket.parse t' = .ok x := fun t' same => TextForm.read_eq_ok.mp (same.trans read)
    refine ⟨⟨fun same => ⟨_, same⟩, ?_⟩, ?_⟩
    · rintro ⟨t', same⟩
      have text := lossless.text t' x (stands t' same)
      exact (TextForm.read_eq_ok.mpr text).trans read.symm
    · intro t' same
      have accepted := stands t' same
      have text : lib.ticket.read (lib.ticket.print x) = .ok x :=
        TextForm.read_eq_ok.mpr (lossless.text t' x accepted)
      have bytes : ticketBytes lib (lib.ticket.print x) = .ok (lib.encodeBytes x) := by
        rw [ticketBytes_eq, transcode_of_read text]
      exact ⟨_, bytes, normal_print lossless accepted bytes⟩
  refused _ _ := ticketFromEndpointAddr_eq_error

/-! ## What an endpoint says of itself -/

section Endpoint

variable {B E K G : Type} (lib) (keys : KeyLibrary K V G) (ends : EndpointLibrary B E K V)
variable (addrOf : E → IrohEndpointAddr V U S O)

namespace IrohEndpoint

def addr (e : IrohEndpoint E) : EndpointAddr := .ofIroh lib.toLibrary (addrOf e.inner)

def directAddresses (e : IrohEndpoint E) : List String :=
  (addrOf e.inner).ipAddrs.map lib.sock.print

/-- What `my_ticket` returns, once the endpoint is online. -/
def myTicket (e : IrohEndpoint E) : String := lib.ticket.print (addrOf e.inner)

end IrohEndpoint

/-- The endpoint's addresses name the endpoint, by the text its id has. -/
structure Names : Prop where
  own : ∀ e, (addrOf e).id = ends.id e
  ids : lib.key = keys.id

/-- What an endpoint says of itself, all at one time, is one address under its own id. -/
structure OneEndpoint (e : IrohEndpoint E) : Prop where
  id : (e.addr lib addrOf).id = e.id keys ends
  direct : (e.addr lib addrOf).directAddresses = e.directAddresses lib addrOf
  ticketId : endpointIdFromTicket lib (e.myTicket lib addrOf) = .ok (e.id keys ends)
  /-- If any ticket stands for what it says (the codec has room for it), its own does, -/
  ticket : ∀ t, lib.ticket.parse t = .ok (addrOf e.inner) →
    OneTicket lib (e.myTicket lib addrOf) (addrOf e.inner)
  ticketRecord : ∀ t, lib.ticket.parse t = .ok (addrOf e.inner) →
    endpointAddrFromTicket lib.toLibrary (e.myTicket lib addrOf) = .ok (e.addr lib addrOf)
  /-- and is in normal form. -/
  normal : ∀ t, lib.ticket.parse t = .ok (addrOf e.inner) →
    ∀ b, ticketBytes lib (e.myTicket lib addrOf) = .ok b →
      ticketFromBytes lib b = .ok (e.myTicket lib addrOf)

variable {lib keys ends addrOf}

/-- **One address for each endpoint.** -/
theorem one_endpoint (lossless : lib.Lossless) (keeps : lib.KeepsId)
    (names : Names lib keys ends addrOf) (e : IrohEndpoint E) :
    OneEndpoint lib keys ends addrOf e := by
  have id : lib.key.print (addrOf e.inner).id = e.id keys ends := by
    rw [names.own, names.ids, IrohEndpoint.id]
  constructor
  · exact id
  · rfl
  · obtain ⟨x, accepted, same⟩ := keeps (addrOf e.inner)
    simp only [endpointIdFromTicket, bind_eq_ok, pure_eq_ok]
    exact ⟨x, TextForm.read_eq_ok.mpr accepted, by rw [same, id]⟩
  · intro t accepted
    exact oneTicket lossless (lossless.text t _ accepted)
  · intro t accepted
    exact endpointAddrFromTicket_eq (lossless.text t _ accepted)
  · intro t accepted b made
    exact normal_print lossless accepted made

/-! ## What is signed beside a ticket -/

/-- A signature is checked under the id that ticket `t` of address `x` gives. -/
structure Invites (lib : TicketLibrary V U S O) (keys : KeyLibrary K V G)
    (ends : EndpointLibrary B E K V) (t : String) (x : IrohEndpointAddr V U S O) : Prop where
  /-- It is accepted exactly when the key of the ticket verifies it. -/
  checks : ∀ hex data signature, endpointIdFromTicket lib t = .ok hex →
    (verifySignature keys hex data signature = true ↔
      ∃ sig, keys.signatureTryFrom signature = .ok sig ∧ keys.verify x.id data sig = .ok ())
  /-- So is what the endpoint of that id signed, also when the ticket went as bytes. -/
  accepts : ∀ (e : IrohEndpoint E) data, ends.id e.inner = x.id →
    ∀ b t', ticketBytes lib t = .ok b → ticketFromBytes lib b = .ok t' →
      ∃ hex, endpointIdFromTicket lib t' = .ok hex ∧
        verifySignature keys hex data (e.sign keys ends data) = true

theorem verifySignature_print {fromBytes : U8Array 32 → K} (faithful : keys.Faithful fromBytes)
    (v : V) (data signature : List UInt8) :
    verifySignature keys (keys.id.print v) data signature = true ↔
      ∃ sig, keys.signatureTryFrom signature = .ok sig ∧ keys.verify v data sig = .ok () := by
  rw [verifySignature, faithful.parses]
  cases read : keys.signatureTryFrom signature with
  | error err => simp [verifyAgainst, read]
  | ok sig =>
      rw [verifyAgainst_ok read]
      cases verified : keys.verify v data sig with
      | error err => simp [Except.isOk, Except.toBool, verified]
      | ok _ => simp [Except.isOk, Except.toBool, verified]

/-- **An invitation is checked under the key of its ticket**, whatever form the ticket has. -/
theorem invitation_verifies {fromBytes : U8Array 32 → K} (lossless : lib.Lossless)
    (faithful : keys.Faithful fromBytes) (ids : lib.key = keys.id)
    (derived : ∀ e, ends.id e = keys.publicKey (ends.secretKey e))
    (accepted : lib.ticket.parse t = .ok x) : Invites lib keys ends t x := by
  have named : ∀ {t : String}, lib.ticket.parse t = .ok x →
      endpointIdFromTicket lib t = .ok (keys.id.print x.id) := by
    intro t accepted
    simp only [endpointIdFromTicket, bind_eq_ok, pure_eq_ok]
    exact ⟨x, TextForm.read_eq_ok.mpr accepted, by rw [ids]⟩
  constructor
  · intro hex data signature known
    rw [named accepted] at known
    cases known
    exact verifySignature_print faithful x.id data signature
  · intro e data own b t' made remade
    obtain ⟨t'', remade', same, -⟩ := (oneTicket lossless accepted).normal b made
    rw [remade] at remade'
    cases remade'
    refine ⟨_, named same, (verifySignature_print faithful x.id data _).mpr ?_⟩
    refine ⟨_, faithful.signatureBytes _, ?_⟩
    rw [← own, derived]
    exact faithful.verifies _ data

end Endpoint

end Tickets

/-! ## An invitation under one key -/

namespace Sample

/-- A ticket lists its members by number when it goes as bytes. -/
def numbers : List (UInt8 × TransportAddr Bool Unit Empty) :=
  [(0, .relay false), (1, .relay true), (2, .ip ())]

def ticketLibrary : TicketLibrary Unit Bool Unit Empty where
  toLibrary := { smallLibrary with key := testKeys.id }
  encodeBytes x := (numbers.filter fun l => l.2 ∈ x.addrs).map Prod.fst
  decodeBytes bytes := .ok (.fromParts () ((numbers.filter fun l => l.1 ∈ bytes).map Prod.snd))

theorem ticketLibrary_lossless : ticketLibrary.Lossless where
  text _ x accepted := smallLibrary_faithful.codec _ _ x accepted rfl (Finset.Subset.refl _)
  bytes _ x _ := by
    refine congrArg Except.ok (IrohEndpointAddr.ext_iff'.mpr ⟨rfl, Finset.ext fun a => ?_⟩)
    rcases a with (_ | _) | _ | none
    · simp [IrohEndpointAddr.fromParts, numbers, ticketLibrary]
    · simp [IrohEndpointAddr.fromParts, numbers, ticketLibrary]
    · simp [IrohEndpointAddr.fromParts, numbers, ticketLibrary]
    · cases none

/-- One relay and one socket address. -/
def home : SmallAddr := .fromParts () [.relay true, .ip ()]

theorem ticket_forms_home : ∃ x, ticketLibrary.ticket.parse "bi" = .ok x ∧
    OneTicket ticketLibrary "bi" x := by
  obtain accepted | ⟨err, refused, -⟩ := ticket_forms ticketLibrary_lossless "bi"
  · exact accepted
  · cases refused

theorem one_dial_home : OneDial ticketLibrary := one_dial ticketLibrary_lossless

/-- The codec has room for the address of this endpoint: some ticket stands for it. -/
theorem one_endpoint_home :
    OneEndpoint ticketLibrary testKeys endpoints (fun _ => home) ⟨secret⟩ ∧
      ticketLibrary.ticket.parse "bi" = .ok home :=
  ⟨one_endpoint ticketLibrary_lossless (fun _ => ⟨_, rfl, rfl⟩) ⟨fun _ => rfl, rfl⟩ ⟨secret⟩, rfl⟩

theorem invitation_verifies_home : Invites ticketLibrary testKeys endpoints "bi" home :=
  invitation_verifies ticketLibrary_lossless testKeys_faithful rfl (fun _ => rfl) rfl

end Sample

end IrohKmp.Kernel
