/-
# Kernel.Refusals — with which error options and addresses are refused

`builder_from_options` and the conversion of an address record read their fields one after another
and stop at the first they cannot read, so of several bad fields the caller is told of one: the
first in the order of the code, not of the record.

* `EndpointOptions.checks`, `EndpointAddr.checks` — the checks, in the order they are made;
* `RefusesFirst` — a function fails exactly as the first check that fails;
* `options_refused_first`, and `addr_refused_first` of what takes an address record.
-/
import IrohKmp.Kernel.EndpointAddr
import IrohKmp.Kernel.Identity
import IrohKmp.Theory.Checks

namespace IrohKmp.Kernel

open IrohKmp.Theory
open IrohKmp.Theory.Collect
open IrohKmp.Theory.Checks

set_option autoImplicit false
set_option linter.unusedSectionVars false

/-- The function fails exactly as the first of the checks that fails. -/
def RefusesFirst {ε α : Type} (x : Except ε α) (checks : List (Except ε Unit)) : Prop :=
  ∀ e, x = .error e ↔ ∃ before after, checks = before ++ .error e :: after ∧
    ∀ check ∈ before, check = .ok ()

theorem outcome_eq_error {ε α : Type} {x : Except ε α} {e : ε} :
    outcome x = .error e ↔ x = .error e := by
  cases x <;> simp [outcome, Except.map]

theorem refusesFirst_of_outcome {ε α : Type} {x : Except ε α} {checks : List (Except ε Unit)}
    (made : outcome x = allOf checks) : RefusesFirst x checks := by
  intro e
  rw [← outcome_eq_error, made, allOf_eq_error_iff]

/-! ## The options of an endpoint -/

section Options

variable {B K U S L T P X : Type} [DecidableEq U] [DecidableEq S]

def RelayModeOption.checks (lib : BuilderLibrary B K U S) :
    RelayModeOption → List (Except IrohError Unit)
  | .default | .disabled => []
  | .custom urls => urls.map fun u => outcome (lib.url.read u)

/-- The relay URLs, the length of the key, the address to bind, the external addresses. -/
def EndpointOptions.checks (lib : BuilderLibrary B K U S) (bind : String → X → Except String X)
    (bound : X) (options : EndpointOptions) : List (Except IrohError Unit) :=
  (options.relayMode.getD default).checks lib ++
    (options.secretKey.toList.map (fun bytes =>
        if bytes.length = 32 then .ok () else .error (.generic "secret key must be 32 bytes")) ++
      (options.bindAddr.toList.map
          (fun addr => outcome ((bind addr bound).mapError IrohError.msg)) ++
        (options.externalAddrs.getD []).map fun addr => outcome (lib.sock.read addr)))

variable {lib : BuilderLibrary B K U S} {view : B → Configuration L T P K U S X}
  {bind : String → X → Except String X}

theorem relayMode_outcome (mode : RelayModeOption) (b : B) :
    outcome (applyRelayMode lib mode b) = allOf (mode.checks lib) := by
  cases mode with
  | default | disabled => rfl
  | custom urls => exact (outcome_map _).trans (outcome_mapM urls)

theorem secretKey_outcome (secretKey : Option (List UInt8)) (b : B) :
    outcome (applySecretKey lib secretKey b) = allOf (secretKey.toList.map fun bytes =>
      if bytes.length = 32 then .ok () else .error (.generic "secret key must be 32 bytes")) := by
  cases secretKey with
  | none => rfl
  | some bytes =>
      by_cases long : bytes.length = 32 <;>
        simp [applySecretKey, keyOfBytes, sliceToArray, long]

theorem bindAddr_outcome (lawful : lib.Lawful view bind) (bindAddr : Option String) (b : B) :
    outcome (applyBindAddr lib bindAddr b) = allOf (bindAddr.toList.map fun addr =>
      outcome ((bind addr (view b).bound).mapError IrohError.msg)) := by
  cases bindAddr with
  | none => rfl
  | some addr =>
      have law := lawful.bindAddr b addr
      simp only [applyBindAddr, Option.elim_some, Option.toList_some, List.map_cons, List.map_nil]
      cases built : lib.bindAddr b addr <;> cases bound : bind addr (view b).bound <;>
        simp_all [Except.map, Except.mapError]

theorem externalAddrs_outcome (externalAddrs : Option (List String)) (b : B) :
    outcome (applyExternalAddrs lib externalAddrs b) =
      allOf ((externalAddrs.getD []).map fun addr => outcome (lib.sock.read addr)) := by
  cases externalAddrs with
  | none => rfl
  | some addrs =>
      have each : ∀ b addr, outcome ((lib.sock.read addr).map (lib.externalAddr b)) =
          outcome (lib.sock.read addr) := fun _ _ => outcome_map _
      exact outcome_foldlM addrs each b

theorem applyOptions_outcome (lawful : lib.Lawful view bind) (options : EndpointOptions) (b : B) :
    outcome (applyOptions lib options b) = allOf (options.checks lib bind (view b).bound) := by
  refine outcome_bind (relayMode_outcome _ b) fun b₁ ran₁ => ?_
  have bound₁ : (view b₁).bound = (view b).bound := by
    rw [(relayMode_stage lawful _).result b b₁ ran₁]
    rfl
  have bound₂ :
      (view (applyAddressLookup lib options.addressLookup b₁)).bound = (view b).bound := by
    cases options.addressLookup with
    | true => exact bound₁
    | false => exact (congrArg Configuration.bound (lawful.clearAddressLookup b₁)).trans bound₁
  refine outcome_bind (secretKey_outcome _ _) fun b₃ ran₃ => ?_
  have bound₃ : (view (lib.alpns b₃ (options.alpns.map String.toUTF8))).bound = (view b).bound := by
    rw [lawful.alpns, ← bound₂, (secretKey_stage lawful _).result _ b₃ ran₃]
    rfl
  refine outcome_bind ?_ fun b₄ _ => externalAddrs_outcome _ b₄
  rw [← bound₃]
  exact bindAddr_outcome lawful _ _

/-- **Of several bad options the first is told.** `builder_from_options` fails exactly as the first
of its checks that fails: the relay URLs, the key's length, the address to bind, the external
addresses. `bind_with` fails the same way, and if none does, as the socket does. -/
theorem options_refused_first {E V : Type} (ends : EndpointLibrary B E K V)
    (lawful : lib.Lawful view bind) (options : EndpointOptions) :
    RefusesFirst (builderFromOptions lib options)
        (options.checks lib bind (view lib.preset).bound) ∧
      RefusesFirst (IrohEndpoint.bindWith lib ends options)
        (options.checks lib bind (view lib.preset).bound ++
          (builderFromOptions lib options).toOption.toList.map fun builder =>
            outcome ((ends.bind builder).mapError IrohError.msg)) := by
  have made := applyOptions_outcome lawful options lib.preset
  refine ⟨refusesFirst_of_outcome made,
    refusesFirst_of_outcome (outcome_then made fun builder => ?_)⟩
  cases ends.bind builder <;> rfl

end Options

/-! ## An address record -/

section Address

variable {K U S O C : Type} [LinearOrder U] [LinearOrder S] [LinearOrder O] (lib : Library K U S O)

/-- The id, the direct addresses, the relay URL. -/
def EndpointAddr.checks (addr : EndpointAddr) : List (Except IrohError Unit) :=
  [outcome (lib.key.read addr.id)] ++
    (addr.directAddresses.map (fun ip => outcome (lib.sock.read ip)) ++
      addr.relayUrl.toList.map fun url => outcome (lib.url.read url))

theorem tryInto_outcome (addr : EndpointAddr) :
    outcome (addr.tryInto lib) = allOf (addr.checks lib) := by
  refine outcome_bind ?_ fun id _ => ?_
  · cases lib.key.read addr.id <;> rfl
  · refine outcome_bind ?_ fun ips _ => ?_
    · refine (outcome_mapM _).trans (congrArg allOf (List.map_congr_left fun ip _ => ?_))
      exact outcome_map _
    · cases addr.relayUrl with
      | none => rfl
      | some url =>
          simp only [EndpointAddr.pushRelay, Option.toList_some, List.map_cons, List.map_nil]
          cases lib.url.read url <;> rfl

/-- **Of several bad fields the first is told.** Whatever takes an address record, to convert it,
to make a ticket of it or to dial it, fails exactly as the first check of the record that fails:
the id, the direct addresses, the relay URL; a dial only if all of them pass. -/
theorem addr_refused_first (connect : Connect K U S O C) (addr : EndpointAddr) (alpn : String) :
    RefusesFirst (addr.tryInto lib) (addr.checks lib) ∧
      RefusesFirst (ticketFromEndpointAddr lib addr) (addr.checks lib) ∧
      RefusesFirst (connectAddr lib connect addr alpn)
        (addr.checks lib ++ (addr.tryInto lib).toOption.toList.map fun x =>
          outcome ((connect x alpn.toUTF8).mapError IrohError.msg)) := by
  have made := tryInto_outcome lib addr
  refine ⟨refusesFirst_of_outcome made, refusesFirst_of_outcome ?_,
    refusesFirst_of_outcome (outcome_then made fun _ => rfl)⟩
  have last : outcome (ticketFromEndpointAddr lib addr) = allOf (addr.checks lib ++ []) :=
    outcome_bind made fun _ _ => rfl
  rwa [List.append_nil] at last

end Address

namespace Sample

/-- A relay URL that does not parse, and a key that is too short. -/
def twoBad : EndpointOptions :=
  { custom with relayMode := some (.custom ["https://example.invalid", ""]), secretKey := some [5] }

theorem options_refused_first_twoBad :
    builderFromOptions library twoBad = .error (.generic "empty") := by
  have lawful : library.Lawful id bindOne := recordLibrary_lawful rfl rfl
  have first := (options_refused_first endpoints lawful twoBad).1
  exact (first _).mpr ⟨[.ok ()], _, rfl, by simp⟩

end Sample

end IrohKmp.Kernel
