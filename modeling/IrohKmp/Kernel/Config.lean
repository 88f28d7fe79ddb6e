/-
# Kernel.Config — `EndpointOptions` and `builder_from_options`

Every endpoint is built from the preset by subtraction: the relay mode replaces the preset's
relays, and the address lookup is cleared or left. The builder belongs to the library; what it
holds is a `Configuration`, and `BuilderLibrary.Lawful` says what each of its methods does to one.

* `builderFromOptions` — the code, one stage an option;
* `EndpointOptions.Accepted`, `meaning` — when options are accepted, and what they ask for;
* `builder_from_options_means` — the code does that, whatever the preset holds, and no option
  touches another's component.
-/
import IrohKmp.Kernel.Error
import IrohKmp.Theory.Stage
import Mathlib.Data.Finset.Dedup
import Mathlib.Data.Finset.Lattice.Lemmas

namespace IrohKmp.Kernel

open IrohKmp.Theory
open IrohKmp.Theory.Collect

set_option autoImplicit false
set_option linter.unusedSectionVars false

/-! ## The options -/

inductive RelayModeOption where
  /-- The preset's relays. -/
  | default
  | disabled
  | custom (urls : List String)
  deriving DecidableEq

instance : Inhabited RelayModeOption := ⟨.default⟩

structure EndpointOptions where
  alpns : List String
  secretKey : Option (List UInt8)
  relayMode : Option RelayModeOption
  addressLookup : Bool
  bindAddr : Option String
  externalAddrs : Option (List String)
  warmUpOnline : Bool

/-! ## The library's builder -/

/-- `iroh::RelayMode`, as far as it is used; a custom one holds the set of its relays. -/
inductive RelayMode (U : Type) where
  | disabled
  | custom (urls : Finset U)

/-- `[u8; n]`. -/
structure U8Array (n : Nat) where
  toList : List UInt8
  long : toList.length = n
  deriving DecidableEq

/-- `[u8; n]::try_from` of a slice. -/
def sliceToArray (n : Nat) (bytes : List UInt8) : Option (U8Array n) :=
  if long : bytes.length = n then some ⟨bytes, long⟩ else none

/-- `Builder` and what it is given: `B` the builders, `K` the secret keys, `U` the relay URLs and
`S` the socket addresses. -/
structure BuilderLibrary (B K U S : Type) where
  url : TextForm U
  sock : TextForm S
  /-- `SecretKey::from_bytes`. -/
  keyFromBytes : U8Array 32 → K
  /-- `Builder::empty`. -/
  empty : B
  /-- `presets::N0.apply`. -/
  applyN0 : B → B
  relayMode : B → RelayMode U → B
  clearAddressLookup : B → B
  secretKey : B → K → B
  alpns : B → List ByteArray → B
  bindAddr : B → String → Except String B
  externalAddr : B → S → B

variable {B K U S L T P X : Type}

/-! ## From options to a builder -/

section Code

variable [DecidableEq U] (lib : BuilderLibrary B K U S)

/-- `RelayMode::custom`. -/
def RelayMode.ofUrls (urls : List U) : RelayMode U := .custom urls.toFinset

def applyRelayMode (mode : RelayModeOption) (builder : B) : Except IrohError B :=
  match mode with
  | .default => .ok builder
  | .disabled => .ok (lib.relayMode builder .disabled)
  | .custom urls => (urls.mapM fun u => lib.url.read u).map fun relayUrls =>
      lib.relayMode builder (.ofUrls relayUrls)

/-- `if !address_lookup`. -/
def applyAddressLookup (addressLookup : Bool) (builder : B) : B :=
  if addressLookup then builder else lib.clearAddressLookup builder

def keyOfBytes (bytes : List UInt8) : Except IrohError K :=
  match sliceToArray 32 bytes with
  | some key => .ok (lib.keyFromBytes key)
  | none => .error (.generic "secret key must be 32 bytes")

def applySecretKey (secretKey : Option (List UInt8)) (builder : B) : Except IrohError B :=
  secretKey.elim (.ok builder) fun bytes => (keyOfBytes lib bytes).map (lib.secretKey builder)

def applyBindAddr (bindAddr : Option String) (builder : B) : Except IrohError B :=
  bindAddr.elim (.ok builder) fun addr => (lib.bindAddr builder addr).mapError IrohError.msg

/-- The loop over `external_addrs`. -/
def pushExternal (addrs : List String) (builder : B) : Except IrohError B :=
  addrs.foldlM (fun builder addr => (lib.sock.read addr).map (lib.externalAddr builder)) builder

def applyExternalAddrs (externalAddrs : Option (List String)) (builder : B) : Except IrohError B :=
  externalAddrs.elim (.ok builder) fun addrs => pushExternal lib addrs builder

/-- `presets::N0.apply(Builder::empty())`. -/
def BuilderLibrary.preset : B := lib.applyN0 lib.empty

/-- The options, in the order the code takes them. -/
def applyOptions (options : EndpointOptions) (builder : B) : Except IrohError B := do
  let builder ← applyRelayMode lib (options.relayMode.getD default) builder
  let builder := applyAddressLookup lib options.addressLookup builder
  let builder ← applySecretKey lib options.secretKey builder
  let builder := lib.alpns builder (options.alpns.map String.toUTF8)
  let builder ← applyBindAddr lib options.bindAddr builder
  applyExternalAddrs lib options.externalAddrs builder

def builderFromOptions (options : EndpointOptions) : Except IrohError B :=
  applyOptions lib options lib.preset

end Code

/-! ## What a builder holds -/

/-- Relays: what a preset brings, or given ones. -/
inductive RelayTransport (T U : Type) where
  | ofPreset (transport : T)
  | custom (urls : Finset U)

/-- `L` the address-lookup services, `P` the crypto providers, `X` the local sockets. -/
structure Configuration (L T P K U S X : Type) where
  lookups : List L
  relay : Option (RelayTransport T U)
  crypto : P
  secretKey : Option K
  alpns : List ByteArray
  bound : X
  externalAddrs : Finset S

namespace Configuration

variable (c : Configuration L T P K U S X)

def withLookups (lookups : List L) : Configuration L T P K U S X := { c with lookups := lookups }

def withRelay (relay : Option (RelayTransport T U)) : Configuration L T P K U S X :=
  { c with relay := relay }

def withSecretKey (key : Option K) : Configuration L T P K U S X := { c with secretKey := key }

def withAlpns (alpns : List ByteArray) : Configuration L T P K U S X := { c with alpns := alpns }

def withBound (bound : X) : Configuration L T P K U S X := { c with bound := bound }

def withExternalAddrs (addrs : Finset S) : Configuration L T P K U S X :=
  { c with externalAddrs := addrs }

@[simp] theorem withExternalAddrs_self : c.withExternalAddrs c.externalAddrs = c := rfl

@[simp] theorem withExternalAddrs_twice (addrs addrs' : Finset S) :
    (c.withExternalAddrs addrs).withExternalAddrs addrs' = c.withExternalAddrs addrs' := rfl

@[simp] theorem externalAddrs_withExternalAddrs (addrs : Finset S) :
    (c.withExternalAddrs addrs).externalAddrs = addrs := rfl

end Configuration

def RelayMode.transport : RelayMode U → Option (RelayTransport T U)
  | .disabled => none
  | .custom urls => some (.custom urls)

/-- What the builder's methods do to what it holds, and what no preset sets. -/
structure BuilderLibrary.Lawful [DecidableEq S] (lib : BuilderLibrary B K U S)
    (view : B → Configuration L T P K U S X) (bind : String → X → Except String X) : Prop where
  relayMode : ∀ b mode, view (lib.relayMode b mode) = (view b).withRelay mode.transport
  clearAddressLookup : ∀ b, view (lib.clearAddressLookup b) = (view b).withLookups []
  secretKey : ∀ b key, view (lib.secretKey b key) = (view b).withSecretKey (some key)
  alpns : ∀ b protocols, view (lib.alpns b protocols) = (view b).withAlpns protocols
  bindAddr : ∀ b addr,
    (lib.bindAddr b addr).map view = (bind addr (view b).bound).map (view b).withBound
  externalAddr : ∀ b sock, view (lib.externalAddr b sock) =
    (view b).withExternalAddrs (insert sock (view b).externalAddrs)
  noKey : (view lib.preset).secretKey = none
  noExternalAddrs : (view lib.preset).externalAddrs = ∅

/-! ## What the options ask for -/

/-- What the texts parse to, as far as they do. -/
def TextForm.all {α : Type} (form : TextForm α) (texts : List String) : List α :=
  texts.filterMap fun text => (form.parse text).toOption

section Meaning

variable [DecidableEq U] [DecidableEq S] (lib : BuilderLibrary B K U S)
  (bind : String → X → Except String X)

structure EndpointOptions.Accepted (bound : X) (options : EndpointOptions) : Prop where
  relays : ∀ urls, options.relayMode = some (.custom urls) →
    ∀ u ∈ urls, ∃ url, lib.url.parse u = .ok url
  secretKey : ∀ bytes ∈ options.secretKey, bytes.length = 32
  bindAddr : ∀ addr ∈ options.bindAddr, ∃ bound', bind addr bound = .ok bound'
  externalAddrs : ∀ addrs ∈ options.externalAddrs, ∀ addr ∈ addrs,
    ∃ sock, lib.sock.parse addr = .ok sock

def relayMeaning (preset : Option (RelayTransport T U)) :
    Option RelayModeOption → Option (RelayTransport T U)
  | none | some .default => preset
  | some .disabled => none
  | some (.custom urls) => some (.custom (lib.url.all urls).toFinset)

/-- The configuration accepted options ask for: each component is made of one option and of what
the preset has there. -/
def meaning (options : EndpointOptions) (preset : Configuration L T P K U S X) :
    Configuration L T P K U S X where
  lookups := if options.addressLookup then preset.lookups else []
  relay := relayMeaning lib preset.relay options.relayMode
  crypto := preset.crypto
  secretKey := options.secretKey.elim none fun bytes =>
    (sliceToArray 32 bytes).map lib.keyFromBytes
  alpns := options.alpns.map String.toUTF8
  bound := options.bindAddr.elim preset.bound fun addr =>
    (bind addr preset.bound).toOption.getD preset.bound
  externalAddrs := (options.externalAddrs.elim [] lib.sock.all).toFinset

end Meaning

/-! ## Each option by itself -/

section Stages

variable [DecidableEq U] [DecidableEq S] {lib : BuilderLibrary B K U S}
  {view : B → Configuration L T P K U S X} {bind : String → X → Except String X}

theorem TextForm.exists_mapM_read_iff {α : Type} (form : TextForm α) (texts : List String) :
    (∃ as, texts.mapM (fun text => form.read text) = .ok as) ↔
      ∀ text ∈ texts, ∃ a, form.parse text = .ok a := by
  simp only [exists_mapM_eq_ok_iff, TextForm.read_eq_ok]

theorem TextForm.filterMap_read {α : Type} (form : TextForm α) (texts : List String) :
    (texts.filterMap fun text => (form.read text).toOption) = form.all texts := by
  simp only [TextForm.toOption_read, TextForm.all]

theorem relayMode_stage (lawful : lib.Lawful view bind) (mode : RelayModeOption) :
    Stage view (applyRelayMode lib mode)
      (fun _ => ∀ urls, mode = .custom urls → ∀ u ∈ urls, ∃ url, lib.url.parse u = .ok url)
      (fun c => c.withRelay (relayMeaning lib c.relay (some mode))) := by
  cases mode with
  | default => exact Stage.skip.congr (fun c => by simp) (fun c _ => rfl)
  | disabled =>
      have replaced := fun b => lawful.relayMode b .disabled
      exact (Stage.total replaced).congr (fun c => by simp) (fun c _ => rfl)
  | custom urls =>
      have replaced : ∀ b (relayUrls : List U), view (lib.relayMode b (.ofUrls relayUrls)) =
          (view b).withRelay (some (.custom relayUrls.toFinset)) :=
        fun b relayUrls => lawful.relayMode b _
      let set (c : Configuration L T P K U S X) (relayUrls : List U) :=
        c.withRelay (some (.custom relayUrls.toFinset))
      refine (Stage.reading set replaced).congr (fun c => ?_) (fun c accepted => ?_)
      · simp [TextForm.exists_mapM_read_iff]
      · obtain ⟨relayUrls, read⟩ := (lib.url.exists_mapM_read_iff urls).mpr (accepted urls rfl)
        have all := mapM_eq_ok_filterMap read
        rw [TextForm.filterMap_read] at all
        rw [read, all]
        rfl

theorem addressLookup_stage (lawful : lib.Lawful view bind) (addressLookup : Bool) :
    Stage view (fun b => (.ok (applyAddressLookup lib addressLookup b) : Except IrohError B))
      (fun _ => True) (fun c => c.withLookups (if addressLookup then c.lookups else [])) := by
  apply Stage.total
  intro b
  cases addressLookup with
  | true => rfl
  | false => exact lawful.clearAddressLookup b

theorem keyOfBytes_eq_ok {bytes : List UInt8} {key : K} : keyOfBytes lib bytes = .ok key ↔
    ∃ long : bytes.length = 32, lib.keyFromBytes ⟨bytes, long⟩ = key := by
  unfold keyOfBytes sliceToArray
  by_cases long : bytes.length = 32 <;> simp [long]

theorem secretKey_stage (lawful : lib.Lawful view bind) (secretKey : Option (List UInt8)) :
    Stage view (applySecretKey lib secretKey) (fun _ => ∀ bytes ∈ secretKey, bytes.length = 32)
      (fun c => c.withSecretKey (secretKey.elim c.secretKey fun bytes =>
        (sliceToArray 32 bytes).map lib.keyFromBytes)) := by
  have one : ∀ bytes, Stage view (fun b => (keyOfBytes lib bytes).map (lib.secretKey b))
      (fun _ => bytes.length = 32)
      (fun c => c.withSecretKey ((sliceToArray 32 bytes).map lib.keyFromBytes)) := by
    intro bytes
    let set (c : Configuration L T P K U S X) (key : K) := c.withSecretKey (some key)
    refine (Stage.reading set lawful.secretKey).congr (fun c => ?_) (fun c long => ?_)
    · simp [keyOfBytes_eq_ok]
    · rw [keyOfBytes, sliceToArray, dif_pos long]
      rfl
  refine (Stage.optional one secretKey).congr (fun c => Iff.rfl) (fun c _ => ?_)
  cases secretKey <;> rfl

theorem alpns_stage (lawful : lib.Lawful view bind) (protocols : List ByteArray) :
    Stage view (fun b => (.ok (lib.alpns b protocols) : Except IrohError B)) (fun _ => True)
      (fun c => c.withAlpns protocols) :=
  Stage.total fun b => lawful.alpns b protocols

theorem bindAddr_stage (lawful : lib.Lawful view bind) (bindAddr : Option String) :
    Stage view (applyBindAddr lib bindAddr)
      (fun c => ∀ addr ∈ bindAddr, ∃ bound, bind addr c.bound = .ok bound)
      (fun c => c.withBound (bindAddr.elim c.bound fun addr =>
        (bind addr c.bound).toOption.getD c.bound)) := by
  have one : ∀ addr, Stage view (fun b => (lib.bindAddr b addr).mapError IrohError.msg)
      (fun c => ∃ bound, bind addr c.bound = .ok bound)
      (fun c => c.withBound ((bind addr c.bound).toOption.getD c.bound)) := by
    intro addr
    constructor
    · intro b
      have law := lawful.bindAddr b addr
      cases bound : bind addr (view b).bound <;> cases built : lib.bindAddr b addr <;>
        simp [bound, built, Except.map, Except.mapError] at law ⊢
    · intro b b' built
      have law := lawful.bindAddr b addr
      rw [mapError_eq_ok.mp built] at law
      obtain ⟨bound, accepted, same⟩ := map_eq_ok.mp law.symm
      rw [accepted]
      exact same.symm
  refine (Stage.optional one bindAddr).congr (fun c => Iff.rfl) (fun c _ => ?_)
  cases bindAddr <;> rfl

/-- Every address is put in; those that were there stay. -/
theorem foldl_insert (socks : List S) (c : Configuration L T P K U S X) :
    socks.foldl (fun c sock => c.withExternalAddrs (insert sock c.externalAddrs)) c =
      c.withExternalAddrs (c.externalAddrs ∪ socks.toFinset) := by
  induction socks generalizing c with
  | nil => simp
  | cons sock socks ih =>
      rw [List.foldl_cons, ih]
      simp [Finset.union_insert]

theorem externalAddrs_stage (lawful : lib.Lawful view bind) (externalAddrs : Option (List String)) :
    Stage view (applyExternalAddrs lib externalAddrs)
      (fun _ => ∀ addrs ∈ externalAddrs, ∀ addr ∈ addrs, ∃ sock, lib.sock.parse addr = .ok sock)
      (fun c => c.withExternalAddrs
        (c.externalAddrs ∪ (externalAddrs.elim [] lib.sock.all).toFinset)) := by
  have one : ∀ addrs, Stage view (pushExternal lib addrs)
      (fun _ => ∀ addr ∈ addrs, ∃ sock, lib.sock.parse addr = .ok sock)
      (fun c => c.withExternalAddrs (c.externalAddrs ∪ (lib.sock.all addrs).toFinset)) := by
    intro addrs
    let set (c : Configuration L T P K U S X) (sock : S) :=
      c.withExternalAddrs (insert sock c.externalAddrs)
    refine (Stage.each set lawful.externalAddr addrs).congr (fun c => ?_) (fun c _ => ?_)
    · simp only [TextForm.read_eq_ok]
    · rw [TextForm.filterMap_read, foldl_insert]
  refine (Stage.optional one externalAddrs).congr (fun c => Iff.rfl) (fun c _ => ?_)
  cases externalAddrs <;> simp

/-! ## All of them -/

theorem relayMeaning_getD (preset : Option (RelayTransport T U)) (mode : Option RelayModeOption) :
    relayMeaning lib preset (some (mode.getD default)) = relayMeaning lib preset mode := by
  cases mode <;> rfl

/-- What the options make of any builder, before it is known what the preset leaves unset. -/
theorem applyOptions_stage (lawful : lib.Lawful view bind) (options : EndpointOptions) :
    Stage view (applyOptions lib options) (fun c => options.Accepted lib bind c.bound)
      (fun c => ((meaning lib bind options c).withSecretKey
        (options.secretKey.elim c.secretKey fun bytes =>
          (sliceToArray 32 bytes).map lib.keyFromBytes)).withExternalAddrs
        (c.externalAddrs ∪ (options.externalAddrs.elim [] lib.sock.all).toFinset)) := by
  have stages := (relayMode_stage lawful (options.relayMode.getD default)).andThen <|
    (addressLookup_stage lawful options.addressLookup).andThen <|
    (secretKey_stage lawful options.secretKey).andThen <|
    (alpns_stage lawful (options.alpns.map String.toUTF8)).andThen <|
    (bindAddr_stage lawful options.bindAddr).andThen <|
    externalAddrs_stage lawful options.externalAddrs
  refine Stage.congr stages (fun c => ?_) (fun c _ => ?_)
  · constructor
    · rintro ⟨relays, -, secretKey, -, bindAddr, externalAddrs⟩
      exact ⟨fun urls custom => relays urls (by rw [custom]; rfl), secretKey, bindAddr,
        externalAddrs⟩
    · rintro ⟨relays, secretKey, bindAddr, externalAddrs⟩
      refine ⟨fun urls custom => relays urls ?_, trivial, secretKey, trivial, bindAddr,
        externalAddrs⟩
      cases mode : options.relayMode with
      | none =>
          rw [mode] at custom
          cases custom
      | some mode' =>
          rw [mode] at custom
          exact congrArg some custom
  · simp only [meaning, ← relayMeaning_getD c.relay options.relayMode]
    rfl

/-- Options that agree on an option give configurations that agree on its component. -/
structure Independent (options options' : EndpointOptions)
    (config config' : Configuration L T P K U S X) : Prop where
  lookups : options.addressLookup = options'.addressLookup → config.lookups = config'.lookups
  relay : options.relayMode = options'.relayMode → config.relay = config'.relay
  secretKey : options.secretKey = options'.secretKey → config.secretKey = config'.secretKey
  alpns : options.alpns = options'.alpns → config.alpns = config'.alpns
  bound : options.bindAddr = options'.bindAddr → config.bound = config'.bound
  externalAddrs : options.externalAddrs = options'.externalAddrs →
    config.externalAddrs = config'.externalAddrs
  crypto : config.crypto = config'.crypto

theorem meaning_independent (options options' : EndpointOptions)
    (preset : Configuration L T P K U S X) :
    Independent options options' (meaning lib bind options preset)
      (meaning lib bind options' preset) := by
  constructor <;> first | rfl | (intro same; simp only [meaning, same])

/-- What the code does: the options are accepted exactly when each of them can be read, the
configuration is what they ask for, and no option touches another's component. -/
structure Means (lib : BuilderLibrary B K U S) (view : B → Configuration L T P K U S X)
    (bind : String → X → Except String X) (options : EndpointOptions) : Prop where
  succeeds : (∃ builder, builderFromOptions lib options = .ok builder) ↔
    options.Accepted lib bind (view lib.preset).bound
  config : ∀ builder, builderFromOptions lib options = .ok builder →
    view builder = meaning lib bind options (view lib.preset)
  independent : ∀ builder options' builder', builderFromOptions lib options = .ok builder →
    builderFromOptions lib options' = .ok builder' →
    Independent options options' (view builder) (view builder')

theorem builderFromOptions_view (lawful : lib.Lawful view bind) {options : EndpointOptions}
    {builder : B} (built : builderFromOptions lib options = .ok builder) :
    view builder = meaning lib bind options (view lib.preset) := by
  have held := (applyOptions_stage lawful options).result lib.preset builder built
  rw [held, lawful.noKey, lawful.noExternalAddrs, Finset.empty_union]
  rfl

/-- **`builder_from_options` means its reference.** For all options, whatever the preset holds. -/
theorem builder_from_options_means (lawful : lib.Lawful view bind) (options : EndpointOptions) :
    Means lib view bind options := by
  constructor
  · exact (applyOptions_stage lawful options).succeeds lib.preset
  · intro builder built
    exact builderFromOptions_view lawful built
  · intro builder options' builder' built built'
    rw [builderFromOptions_view lawful built, builderFromOptions_view lawful built']
    exact meaning_independent options options' _

end Stages

/-! ## A builder that is what it holds -/

section Record

variable [DecidableEq S]

/-- The builder is its configuration; the preset is any that leaves key and addresses unset. -/
def recordLibrary (url : TextForm U) (sock : TextForm S) (keyFromBytes : U8Array 32 → K)
    (bind : String → X → Except String X) (preset : Configuration L T P K U S X) :
    BuilderLibrary (Configuration L T P K U S X) K U S where
  url := url
  sock := sock
  keyFromBytes := keyFromBytes
  empty := (preset.withLookups []).withRelay none
  applyN0 b := (b.withLookups preset.lookups).withRelay preset.relay
  relayMode b mode := b.withRelay mode.transport
  clearAddressLookup b := b.withLookups []
  secretKey b key := b.withSecretKey (some key)
  alpns b protocols := b.withAlpns protocols
  bindAddr b addr := (bind addr b.bound).map b.withBound
  externalAddr b sock := b.withExternalAddrs (insert sock b.externalAddrs)

theorem recordLibrary_lawful {url : TextForm U} {sock : TextForm S}
    {keyFromBytes : U8Array 32 → K} {bind : String → X → Except String X}
    {preset : Configuration L T P K U S X} (noKey : preset.secretKey = none)
    (noExternalAddrs : preset.externalAddrs = ∅) :
    (recordLibrary url sock keyFromBytes bind preset).Lawful id bind where
  relayMode _ _ := rfl
  clearAddressLookup _ := rfl
  secretKey _ _ := rfl
  alpns _ _ := rfl
  bindAddr b addr := by
    show ((bind addr b.bound).map b.withBound).map id = (bind addr b.bound).map b.withBound
    cases bind addr b.bound <;> rfl
  externalAddr _ _ := rfl
  noKey := noKey
  noExternalAddrs := noExternalAddrs

end Record

namespace Sample

/-- Texts that are what they stand for. -/
def plain : TextForm String := ⟨id, fun text => if text = "" then .error "empty" else .ok text⟩

/-- A preset with two lookup services, relays and a provider. -/
def n0 : Configuration String String String (U8Array 32) String String (List String) where
  lookups := ["pkarr", "dns"]
  relay := some (.ofPreset "n0")
  crypto := "ring"
  secretKey := none
  alpns := []
  bound := []
  externalAddrs := ∅

/-- Another local socket. -/
def bindOne (addr : String) (bound : List String) : Except String (List String) :=
  (plain.parse addr).map fun addr => bound ++ [addr]

def library := recordLibrary plain plain id bindOne n0

/-- Custom relays, and the lookup services stay. -/
def custom : EndpointOptions where
  alpns := ["test/lookup"]
  secretKey := some (List.replicate 32 5)
  relayMode := some (.custom ["https://example.invalid"])
  addressLookup := true
  bindAddr := some "0.0.0.0:11204"
  externalAddrs := some ["203.0.113.7:11204", "203.0.113.8:11204"]
  warmUpOnline := false

theorem builder_from_options_means_custom : Means library id bindOne custom :=
  builder_from_options_means (recordLibrary_lawful rfl rfl) custom

example : (builderFromOptions library custom).map (·.lookups) = .ok ["pkarr", "dns"] := rfl

end Sample

end IrohKmp.Kernel
