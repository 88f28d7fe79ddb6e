/-
# Kernel.AddrNormalForm — a record, made an address and made a record again, is in normal form

What a record says is its `Parts`: a parsed id, a parsed relay if there is one, and the set of
parsed socket addresses. The library's address of some parts holds them and nothing else, and
the record made from that address prints them, the socket addresses each once and in order. So
the two conversions in turn read the parts and print them.

* `EndpointAddr.parts`, `Parts.addr`, `Parts.record` — reading, embedding and printing;
* `tryInto_eq`, `ofIroh_addr` — the two conversions through the parts;
* `parts_readsBack` — what a record says is read back from the record it is printed as;
* `NormalForm`, `normalForm` — all of it, for every record; `normalForm_spelling`, two spellings.
-/
import IrohKmp.Kernel.EndpointAddr
import IrohKmp.Theory.ReadBack
import Mathlib.Data.Finset.Option

namespace IrohKmp.Kernel

open IrohKmp.Theory.Collect
open IrohKmp.Theory.ReadBack

set_option autoImplicit false
set_option linter.unusedSectionVars false

/-- What a record says: the parsed id, relay and socket addresses. -/
structure Parts (K U S : Type) where
  id : K
  relay : Option U
  direct : Finset S

section Conversions

variable {K U S O : Type} [LinearOrder U] [LinearOrder S] [LinearOrder O]

/-! ## The address that holds some parts -/

/-- The library's address with these parts. -/
def Parts.addr (p : Parts K U S) : IrohEndpointAddr K U S O where
  id := p.id
  addrs := p.direct.image .ip ∪ p.relay.toFinset.image .relay

namespace TransportAddr

theorem ip_lt_ip {s t : S} : (ip s : TransportAddr U S O) < ip t ↔ s < t := by
  show rank (ip s : TransportAddr U S O) < rank (ip t) ↔ s < t
  simp [rank, Sum.Lex.toLex_lt_toLex]

end TransportAddr

/-- The socket addresses of a set come in increasing order. -/
theorem IrohEndpointAddr.ipAddrs_increasing (x : IrohEndpointAddr K U S O) :
    x.ipAddrs.Pairwise (· < ·) := by
  apply List.Pairwise.filterMap TransportAddr.ip? _ x.addrs.sortedLT_sort.pairwise
  intro a b before s first t second
  rw [TransportAddr.ip?_eq_some.mp first, TransportAddr.ip?_eq_some.mp second] at before
  exact TransportAddr.ip_lt_ip.mp before

namespace Parts

variable (p : Parts K U S)

theorem mem_addr {a : TransportAddr U S O} :
    a ∈ (p.addr : IrohEndpointAddr K U S O).addrs ↔
      (∃ s ∈ p.direct, a = .ip s) ∨ ∃ u, p.relay = some u ∧ a = .relay u := by
  simp [addr, eq_comm]

/-- Its socket addresses are those of the parts, in order. -/
theorem ipAddrs_addr : (p.addr : IrohEndpointAddr K U S O).ipAddrs = p.direct.sort := by
  apply List.Pairwise.eq_of_mem_iff (IrohEndpointAddr.ipAddrs_increasing _)
    p.direct.sortedLT_sort.pairwise
  intro s
  rw [IrohEndpointAddr.mem_ipAddrs, mem_addr, Finset.mem_sort]
  simp

theorem relayUrls_addr : (p.addr : IrohEndpointAddr K U S O).relayUrls.head? = p.relay := by
  have members : ∀ u, u ∈ (p.addr : IrohEndpointAddr K U S O).relayUrls ↔ p.relay = some u := by
    intro u
    rw [IrohEndpointAddr.mem_relayUrls, mem_addr]
    simp
  cases first : (p.addr : IrohEndpointAddr K U S O).relayUrls.head? with
  | some u => exact ((members u).mp (List.mem_of_mem_head? first)).symm
  | none =>
      cases there : p.relay with
      | none => rfl
      | some u =>
          have member := (members u).mpr there
          rw [List.head?_eq_none_iff.mp first] at member
          cases member

/-- Different parts make different addresses. -/
theorem addr_injective : Function.Injective (addr : Parts K U S → IrohEndpointAddr K U S O) := by
  intro p q same
  have ids : p.id = q.id := congrArg IrohEndpointAddr.id same
  have relays : p.relay = q.relay := by
    rw [← p.relayUrls_addr (O := O), same, relayUrls_addr]
  have directs : p.direct = q.direct := by
    have lists : p.direct.sort = q.direct.sort := by
      rw [← p.ipAddrs_addr (O := O), same, ipAddrs_addr]
    rw [← p.direct.sort_toFinset (· ≤ ·), lists, Finset.sort_toFinset]
  cases p
  cases q
  simp_all

end Parts

/-! ## The conversions through the parts -/

variable (lib : Library K U S O)

/-- Read the strings of a record. -/
def EndpointAddr.parts (a : EndpointAddr) : Except IrohError (Parts K U S) := do
  let id ← lib.key.read a.id
  let direct ← readSet lib.sock.read a.directAddresses
  let relay ← readOption lib.url.read a.relayUrl
  pure ⟨id, relay, direct⟩

/-- The record the parts are printed as. -/
def Parts.record (p : Parts K U S) : EndpointAddr where
  id := lib.key.print p.id
  relayUrl := p.relay.map lib.url.print
  directAddresses := writeSet lib.sock.print p.direct

/-- The library's printed forms parse back to what was parsed. -/
structure Library.PrintsParsed (lib : Library K U S O) : Prop where
  key : ReadsBack lib.key.parse lib.key.print
  url : ReadsBack lib.url.parse lib.url.print
  sock : ReadsBack lib.sock.parse lib.sock.print

variable {lib} {a b : EndpointAddr} {p q : Parts K U S} {x : IrohEndpointAddr K U S O}

theorem TextForm.readsBack {α : Type} {form : TextForm α} (back : ReadsBack form.parse form.print) :
    ReadsBack form.read form.print := by
  intro text v accepted
  exact TextForm.read_eq_ok.mpr (back text v (TextForm.read_eq_ok.mp accepted))

theorem parts_eq_ok :
    a.parts lib = .ok p ↔ lib.key.read a.id = .ok p.id ∧
      readSet lib.sock.read a.directAddresses = .ok p.direct ∧
      readOption lib.url.read a.relayUrl = .ok p.relay := by
  simp only [EndpointAddr.parts, bind_eq_ok, pure_eq_ok]
  constructor
  · rintro ⟨id, ids, direct, directs, relay, relays, rfl⟩
    exact ⟨ids, directs, relays⟩
  · rintro ⟨ids, directs, relays⟩
    exact ⟨p.id, ids, p.direct, directs, p.relay, relays, rfl⟩

/-- What a record says is read back from the record it is printed as. -/
theorem parts_readsBack (prints : lib.PrintsParsed) :
    ReadsBack (EndpointAddr.parts lib) (Parts.record lib) := by
  intro a p accepted
  obtain ⟨ids, directs, relays⟩ := parts_eq_ok.mp accepted
  apply parts_eq_ok.mpr
  refine ⟨?_, ?_, ?_⟩
  · exact TextForm.readsBack prints.key _ _ ids
  · exact (TextForm.readsBack prints.sock).set _ _ directs
  · exact (TextForm.readsBack prints.url).option _ _ relays

/-- The loop collects the set of parsed addresses, as members of the library's set. -/
theorem pushDirect_eq_ok {ips : List String} {addrs : List (TransportAddr U S O)} :
    EndpointAddr.pushDirect lib ips = .ok addrs ↔
      ∃ socks, ips.mapM lib.sock.read = .ok socks ∧ addrs = socks.map .ip := by
  simp only [EndpointAddr.pushDirect, mapM_eq_ok_iff, map_eq_ok]
  constructor
  · intro elements
    induction elements with
    | nil => exact ⟨[], .nil, rfl⟩
    | @cons ip addr ips addrs first _ ih =>
        obtain ⟨sock, here, rfl⟩ := first
        obtain ⟨socks, others, rfl⟩ := ih
        exact ⟨sock :: socks, .cons here others, rfl⟩
  · rintro ⟨socks, elements, rfl⟩
    rw [List.forall₂_map_right_iff]
    exact elements.imp fun ip sock here => ⟨sock, here, rfl⟩

theorem pushRelay_eq (relay : Option String) :
    EndpointAddr.pushRelay lib relay =
      (readOption lib.url.read relay).map fun v =>
        (v.toList.map .relay : List (TransportAddr U S O)) := by
  cases relay with
  | none => rfl
  | some text => cases read : lib.url.read text <;> simp [EndpointAddr.pushRelay, readOption, read,
      Except.map]

/-- `tryInto` reads the parts, and makes their address. -/
theorem tryInto_eq_ok : a.tryInto lib = .ok x ↔ ∃ p, a.parts lib = .ok p ∧ p.addr = x := by
  simp only [EndpointAddr.tryInto, bind_eq_ok, pure_eq_ok, pushDirect_eq_ok, pushRelay_eq,
    map_eq_ok, parts_eq_ok]
  constructor
  · rintro ⟨id, ids, _, ⟨socks, collected, rfl⟩, _, ⟨relay, relays, rfl⟩, rfl⟩
    refine ⟨⟨id, relay, socks.toFinset⟩, ⟨ids, map_eq_ok.mpr ⟨socks, collected, rfl⟩, relays⟩, ?_⟩
    refine IrohEndpointAddr.ext_iff'.mpr ⟨rfl, Finset.ext fun addr => ?_⟩
    rw [Parts.mem_addr]
    simp [IrohEndpointAddr.fromParts, eq_comm]
  · rintro ⟨p, ⟨ids, directs, relays⟩, rfl⟩
    obtain ⟨socks, collected, set⟩ := map_eq_ok.mp directs
    refine ⟨p.id, ids, _, ⟨socks, collected, rfl⟩, _, ⟨p.relay, relays, rfl⟩, ?_⟩
    refine IrohEndpointAddr.ext_iff'.mpr ⟨rfl, Finset.ext fun addr => ?_⟩
    rw [Parts.mem_addr, ← set]
    simp [IrohEndpointAddr.fromParts, eq_comm]

/-- The record of the address of some parts prints them. -/
theorem ofIroh_addr : EndpointAddr.ofIroh lib p.addr = p.record lib := by
  simp only [EndpointAddr.ofIroh, Parts.record, Parts.relayUrls_addr, Parts.ipAddrs_addr, writeSet]
  rfl

/-- So an accepted record's address is made again from the record it becomes. -/
theorem tryInto_readsBack (prints : lib.PrintsParsed) :
    ReadsBack (EndpointAddr.tryInto lib) (EndpointAddr.ofIroh lib) := by
  intro a x accepted
  obtain ⟨p, said, rfl⟩ := tryInto_eq_ok.mp accepted
  rw [ofIroh_addr]
  exact tryInto_eq_ok.mpr ⟨p, parts_readsBack prints a p said, rfl⟩

/-! ## The normal form -/

/-- Every string of the record parses. -/
structure Parses (lib : Library K U S O) (a : EndpointAddr) : Prop where
  id : ∃ key, lib.key.parse a.id = .ok key
  direct : ∀ ip ∈ a.directAddresses, ∃ sock, lib.sock.parse ip = .ok sock
  relay : ∀ relay, a.relayUrl = some relay → ∃ url, lib.url.parse relay = .ok url

/-- The record made from `x` prints what `a` parses to. -/
structure Normalizes (lib : Library K U S O) (a : EndpointAddr) (x : IrohEndpointAddr K U S O) :
    Prop where
  id : ∃ key, lib.key.parse a.id = .ok key ∧ (EndpointAddr.ofIroh lib x).id = lib.key.print key
  noRelay : a.relayUrl = none → (EndpointAddr.ofIroh lib x).relayUrl = none
  relay : ∀ relay, a.relayUrl = some relay → ∃ url, lib.url.parse relay = .ok url ∧
    (EndpointAddr.ofIroh lib x).relayUrl = some (lib.url.print url)
  direct : ∃ socks : List S, (EndpointAddr.ofIroh lib x).directAddresses =
      socks.map lib.sock.print ∧ socks.Pairwise (· < ·) ∧
    ∀ sock, sock ∈ socks ↔ ∃ ip ∈ a.directAddresses, lib.sock.parse ip = .ok sock
  once : (EndpointAddr.ofIroh lib x).directAddresses.Nodup

/-- The two records parse to the same id, the same relay and the same set of addresses. -/
structure SaysSame (lib : Library K U S O) (a b : EndpointAddr) : Prop where
  id : lib.key.parse a.id = lib.key.parse b.id
  relay : a.relayUrl.map lib.url.parse = b.relayUrl.map lib.url.parse
  direct : ∀ sock, (∃ ip ∈ a.directAddresses, lib.sock.parse ip = .ok sock) ↔
    ∃ ip ∈ b.directAddresses, lib.sock.parse ip = .ok sock

/-- A record is accepted exactly when it parses; it then becomes its normal form, which is its
own; and it stands for the address of every record that says the same. -/
structure NormalForm (lib : Library K U S O) (a : EndpointAddr) : Prop where
  accepted : (∃ x, a.tryInto lib = .ok x) ↔ Parses lib a
  normal : ∀ x, a.tryInto lib = .ok x → Normalizes lib a x
  idempotent : ∀ n, normalize (EndpointAddr.tryInto lib) (EndpointAddr.ofIroh lib) a = .ok n →
    normalize (EndpointAddr.tryInto lib) (EndpointAddr.ofIroh lib) n = .ok n
  same : ∀ b x y, a.tryInto lib = .ok x → b.tryInto lib = .ok y → (x = y ↔ SaysSame lib a b)

theorem accepted_iff : (∃ x, a.tryInto lib = .ok x) ↔ Parses lib a := by
  constructor
  · rintro ⟨x, accepted⟩
    obtain ⟨p, said, -⟩ := tryInto_eq_ok.mp accepted
    obtain ⟨ids, directs, relays⟩ := parts_eq_ok.mp said
    refine ⟨⟨p.id, TextForm.read_eq_ok.mp ids⟩, fun ip member => ?_, fun relay present => ?_⟩
    · obtain ⟨sock, here⟩ := exists_readSet_iff.mp ⟨p.direct, directs⟩ ip member
      exact ⟨sock, TextForm.read_eq_ok.mp here⟩
    · obtain ⟨absent, -⟩ | ⟨text, url, there, -, here⟩ := readOption_eq_ok.mp relays
      · rw [present] at absent
        cases absent
      · rw [present] at there
        cases there
        exact ⟨url, TextForm.read_eq_ok.mp here⟩
  · rintro ⟨⟨key, ids⟩, directs, relays⟩
    obtain ⟨set, collected⟩ : ∃ set, readSet lib.sock.read a.directAddresses = .ok set := by
      apply exists_readSet_iff.mpr
      intro ip member
      obtain ⟨sock, here⟩ := directs ip member
      exact ⟨sock, TextForm.read_eq_ok.mpr here⟩
    obtain ⟨relay, present⟩ : ∃ relay, readOption lib.url.read a.relayUrl = .ok relay := by
      cases text : a.relayUrl with
      | none => exact ⟨none, rfl⟩
      | some text' =>
          obtain ⟨url, here⟩ := relays text' text
          exact ⟨some url, map_eq_ok.mpr ⟨url, TextForm.read_eq_ok.mpr here, rfl⟩⟩
    exact ⟨_, tryInto_eq_ok.mpr ⟨⟨key, relay, set⟩,
      parts_eq_ok.mpr ⟨TextForm.read_eq_ok.mpr ids, collected, present⟩, rfl⟩⟩

/-! ### The parts, told on the strings of the record -/

theorem id_said (said : a.parts lib = .ok p) : lib.key.parse a.id = .ok p.id :=
  TextForm.read_eq_ok.mp (parts_eq_ok.mp said).1

theorem relay_said (said : a.parts lib = .ok p) :
    a.relayUrl.map lib.url.parse = p.relay.map Except.ok := by
  obtain ⟨-, -, relays⟩ := parts_eq_ok.mp said
  obtain ⟨absent, missing⟩ | ⟨text, url, present, parsed, here⟩ := readOption_eq_ok.mp relays
  · rw [absent, missing]
    rfl
  · rw [present, parsed, Option.map_some, Option.map_some, TextForm.read_eq_ok.mp here]

theorem direct_said (said : a.parts lib = .ok p) (sock : S) :
    sock ∈ p.direct ↔ ∃ ip ∈ a.directAddresses, lib.sock.parse ip = .ok sock := by
  obtain ⟨-, directs, -⟩ := parts_eq_ok.mp said
  simpa only [TextForm.read_eq_ok] using mem_of_readSet directs sock

theorem normalizes (prints : lib.PrintsParsed) (said : a.parts lib = .ok p) :
    Normalizes lib a (p.addr : IrohEndpointAddr K U S O) := by
  have relays := relay_said said
  constructor <;> rw [ofIroh_addr]
  · exact ⟨p.id, id_said said, rfl⟩
  · intro none
    have missing : p.relay = Option.none := by simpa [none] using relays
    simp [Parts.record, missing]
  · intro text present
    rw [present, Option.map_some] at relays
    obtain ⟨url, parsed, here⟩ := Option.map_eq_some_iff.mp relays.symm
    exact ⟨url, here.symm, by simp [Parts.record, parsed]⟩
  · refine ⟨p.direct.sort, rfl, p.direct.sortedLT_sort.pairwise, fun sock => ?_⟩
    rw [Finset.mem_sort]
    exact direct_said said sock
  · obtain ⟨-, directs, -⟩ := parts_eq_ok.mp said
    exact (TextForm.readsBack prints.sock).nodup_writeSet directs

/-- Two records say the same exactly when they have the same parts. -/
theorem parts_eq_iff (here : a.parts lib = .ok p) (there : b.parts lib = .ok q) :
    p = q ↔ SaysSame lib a b := by
  constructor
  · rintro rfl
    constructor
    · rw [id_said here, id_said there]
    · rw [relay_said here, relay_said there]
    · intro sock
      rw [← direct_said here, ← direct_said there]
  · rintro ⟨ids, relays, directs⟩
    have id : p.id = q.id := by
      rw [id_said here, id_said there] at ids
      exact Except.ok.inj ids
    have relay : p.relay = q.relay := by
      rw [relay_said here, relay_said there] at relays
      apply Option.map_injective (fun _ _ => Except.ok.inj)
      exact relays
    have direct : p.direct = q.direct := by
      apply Finset.ext
      intro sock
      rw [direct_said here, direct_said there]
      exact directs sock
    cases p
    cases q
    simp_all

/-- **The normal form of a record.** For every record, whatever its strings: it is accepted
exactly when they parse; the record it becomes prints what they parse to, the socket addresses
each once and in increasing order; a second round trip changes nothing; and records stand for
one address exactly when they parse to the same. -/
theorem normalForm (prints : lib.PrintsParsed) (a : EndpointAddr) : NormalForm lib a where
  accepted := accepted_iff
  normal x accepted := by
    obtain ⟨p, said, rfl⟩ := tryInto_eq_ok.mp accepted
    exact normalizes prints said
  idempotent _ := (tryInto_readsBack prints).normalize_idem
  same b x y here there := by
    obtain ⟨p, said, rfl⟩ := tryInto_eq_ok.mp here
    obtain ⟨q, said', rfl⟩ := tryInto_eq_ok.mp there
    rw [Parts.addr_injective.eq_iff]
    exact parts_eq_iff said said'

end Conversions

/-! ## Two spellings of one relay and of one address -/

section Example

/-- One id, one relay and two addresses; the relay and the second address have two spellings. -/
def spellings : Library Unit Unit Bool Empty where
  key :=
    ⟨fun _ => "ae58ff8833241ac82d6ff7611046ed67b5072d142c588d0063e942d9a75502b6",
      fun t => if t = "ae58ff8833241ac82d6ff7611046ed67b5072d142c588d0063e942d9a75502b6" then .ok ()
        else .error "invalid key"⟩
  url :=
    ⟨fun _ => "https://relay.example.com./",
      fun t => if t = "https://relay.example.com./" ∨ t = "https://relay.example.com" then .ok ()
        else .error "invalid url"⟩
  sock :=
    ⟨fun v6 => if v6 then "[::1]:5678" else "127.0.0.1:1234",
      fun t => if t = "127.0.0.1:1234" then .ok false
        else if t = "[::1]:5678" ∨ t = "[0:0::1]:5678" then .ok true
        else .error "invalid socket address syntax"⟩
  ticket := ⟨fun _ => "", fun _ => .error "invalid ticket"⟩

theorem spellings_printsParsed : spellings.PrintsParsed where
  key _ _ _ := rfl
  url _ _ _ := rfl
  sock _ v6 _ := by cases v6 <;> decide

/-- Out of order, an address twice, neither spelled as it is printed. -/
def spelled : EndpointAddr where
  id := "ae58ff8833241ac82d6ff7611046ed67b5072d142c588d0063e942d9a75502b6"
  relayUrl := some "https://relay.example.com"
  directAddresses := ["[0:0::1]:5678", "127.0.0.1:1234", "[::1]:5678"]

theorem spelled_parses : Parses spellings spelled where
  id := ⟨(), rfl⟩
  direct := by decide +kernel
  relay := by
    intro relay present
    cases present
    exact ⟨(), rfl⟩

theorem normalForm_spelling :
    NormalForm spellings spelled ∧ ∃ x, spelled.tryInto spellings = .ok x := by
  have form := normalForm spellings_printsParsed spelled
  exact ⟨form, form.accepted.mpr spelled_parses⟩

end Example

end IrohKmp.Kernel
