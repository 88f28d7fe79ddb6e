/-
# Kernel.Identity — an endpoint's identity and the standalone Ed25519 functions

A key comes in by two ways: as an option of an endpoint, whose id is then text, or as raw bytes
to the standalone functions. The ways have their own length checks and meet only in the library.

* `KeyLibrary`, `EndpointLibrary` — the library's keys and endpoints; `Faithful` and `Keeps` say
  what is relied on;
* `ed25519Sign`, `ed25519PublicFromSecret`, `ed25519Verify`, `verifySignature` — the functions;
* `identity_agrees` — both ways accept the same keys and give the same answers.
-/
import IrohKmp.Kernel.Config

namespace IrohKmp.Kernel

open IrohKmp.Theory
open IrohKmp.Theory.Collect

set_option autoImplicit false
set_option linter.unusedSectionVars false

/-! ## The library's keys and endpoints -/

/-- `K` the secret keys, `V` the public keys (endpoint ids), `G` the signatures. -/
structure KeyLibrary (K V G : Type) where
  toBytes : K → U8Array 32
  /-- `SecretKey::try_from` of a slice. -/
  secretTryFrom : List UInt8 → Except String K
  /-- `SecretKey::public`. -/
  publicKey : K → V
  asBytes : V → U8Array 32
  publicTryFrom : List UInt8 → Except String V
  /-- `PublicKey::to_string` and `from_str`. -/
  id : TextForm V
  sign : K → List UInt8 → G
  signatureBytes : G → U8Array 64
  signatureTryFrom : List UInt8 → Except String G
  verify : V → List UInt8 → G → Except String Unit

/-- Two lower-case digits a byte. -/
def lowerHex (bytes : List UInt8) : String :=
  .ofList (bytes.flatMap fun b => [Nat.digitChar (b.toNat / 16), Nat.digitChar (b.toNat % 16)])

example : lowerHex [0x9d, 0x61, 0x0f] = "9d610f" := by decide

variable {B E K V G U S L T P X : Type}

/-- What the code relies on; `fromBytes` is `SecretKey::from_bytes`. -/
structure KeyLibrary.Faithful (keys : KeyLibrary K V G) (fromBytes : U8Array 32 → K) :
    Prop where
  toBytes_fromBytes : ∀ bytes, keys.toBytes (fromBytes bytes) = bytes
  secretTryFrom : ∀ bytes key, keys.secretTryFrom bytes = .ok key ↔
    ∃ long : bytes.length = 32, fromBytes ⟨bytes, long⟩ = key
  publicTryFrom : ∀ key, keys.publicTryFrom (keys.asBytes key).toList = .ok key
  printsHex : ∀ key, keys.id.print key = lowerHex (keys.asBytes key).toList
  parses : ∀ key, keys.id.parse (keys.id.print key) = .ok key
  signatureTryFrom : ∀ bytes, (∃ sig, keys.signatureTryFrom bytes = .ok sig) ↔ bytes.length = 64
  signatureBytes : ∀ sig, keys.signatureTryFrom (keys.signatureBytes sig).toList = .ok sig
  verifies : ∀ key data, keys.verify (keys.publicKey key) data (keys.sign key data) = .ok ()

/-- `Endpoint`: `Builder::bind`, `id` and `secret_key`. -/
structure EndpointLibrary (B E K V : Type) where
  bind : B → Except String E
  id : E → V
  secretKey : E → K

/-- An endpoint built with a key keeps it, and its id is the key's. -/
structure EndpointLibrary.Keeps (ends : EndpointLibrary B E K V) (keys : KeyLibrary K V G)
    (view : B → Configuration L T P K U S X) : Prop where
  secretKey : ∀ b e key, ends.bind b = .ok e → (view b).secretKey = some key →
    ends.secretKey e = key
  id : ∀ e, ends.id e = keys.publicKey (ends.secretKey e)

/-! ## The standalone functions -/

section Code

variable (keys : KeyLibrary K V G)

def ed25519Sign (secret data : List UInt8) : Except IrohError (List UInt8) := do
  let key ← (keys.secretTryFrom secret).mapError IrohError.msg
  pure (keys.signatureBytes (keys.sign key data)).toList

def ed25519PublicFromSecret (secret : List UInt8) : Except IrohError (List UInt8) := do
  let key ← (keys.secretTryFrom secret).mapError IrohError.msg
  pure (keys.asBytes (keys.publicKey key)).toList

/-- A signature checked against a key, once that is read: whatever is malformed is false. -/
def verifyAgainst (key : Except String V) (data signature : List UInt8) : Bool :=
  match key with
  | .error _ => false
  | .ok key =>
      match keys.signatureTryFrom signature with
      | .error _ => false
      | .ok sig => (keys.verify key data sig).isOk

def ed25519Verify (publicBytes data signature : List UInt8) : Bool :=
  verifyAgainst keys (keys.publicTryFrom publicBytes) data signature

def verifySignature (endpointIdHex : String) (data signature : List UInt8) : Bool :=
  verifyAgainst keys (keys.id.parse endpointIdHex) data signature

/-! ## The endpoint -/

structure IrohEndpoint (E : Type) where
  inner : E

/-- A bound endpoint, and the clone `online()` is awaited on in the background, if it is. -/
structure Bound (E : Type) where
  endpoint : IrohEndpoint E
  warm : Option E

variable [DecidableEq U] (lib : BuilderLibrary B K U S) (ends : EndpointLibrary B E K V)

namespace IrohEndpoint

def bindWith (options : EndpointOptions) : Except IrohError (Bound E) := do
  let builder ← builderFromOptions lib options
  let inner ← (ends.bind builder).mapError IrohError.msg
  pure ⟨⟨inner⟩, if options.warmUpOnline then some inner else none⟩

/-- `bind_with`, every option at its default. -/
def bind (alpns : List String) (secretKey : Option (List UInt8)) : Except IrohError (Bound E) :=
  bindWith lib ends {
    alpns := alpns
    secretKey := secretKey
    relayMode := none
    addressLookup := true
    bindAddr := none
    externalAddrs := none
    warmUpOnline := true }

def id (e : IrohEndpoint E) : String := keys.id.print (ends.id e.inner)

def secretKeyBytes (e : IrohEndpoint E) : List UInt8 :=
  (keys.toBytes (ends.secretKey e.inner)).toList

def sign (e : IrohEndpoint E) (data : List UInt8) : List UInt8 :=
  (keys.signatureBytes (keys.sign (ends.secretKey e.inner) data)).toList

end IrohEndpoint

end Code

/-! ## Both ways -/

section Agreement

variable [DecidableEq U] [DecidableEq S] {keys : KeyLibrary K V G} {lib : BuilderLibrary B K U S}
  {ends : EndpointLibrary B E K V} {view : B → Configuration L T P K U S X}
  {bind : String → X → Except String X} {k : List UInt8}

/-- An endpoint whose key has the bytes `k` answers as the standalone functions do with `k`. -/
structure Answers (keys : KeyLibrary K V G) (ends : EndpointLibrary B E K V) (k : List UInt8)
    (e : IrohEndpoint E) : Prop where
  secretKeyBytes : e.secretKeyBytes keys ends = k
  sign : ∀ data, ed25519Sign keys k data = .ok (e.sign keys ends data)
  id : ∃ pk, ed25519PublicFromSecret keys k = .ok pk ∧ e.id keys ends = lowerHex pk ∧
    ∀ data signature,
      verifySignature keys (e.id keys ends) data signature = ed25519Verify keys pk data signature ∧
      (signature.length ≠ 64 → ed25519Verify keys pk data signature = false) ∧
      (signature = e.sign keys ends data → ed25519Verify keys pk data signature = true)

/-- All that take the bytes `k` for a key agree about it. -/
structure IdentityAgrees (keys : KeyLibrary K V G) (lib : BuilderLibrary B K U S)
    (ends : EndpointLibrary B E K V) (k : List UInt8) : Prop where
  sign : ∀ data, (∃ sig, ed25519Sign keys k data = .ok sig) ↔ k.length = 32
  publicFromSecret : (∃ pk, ed25519PublicFromSecret keys k = .ok pk) ↔ k.length = 32
  /-- The builder takes the key exactly when it takes the other options. -/
  builder : ∀ options : EndpointOptions,
    (∃ b, builderFromOptions lib { options with secretKey := some k } = .ok b) ↔
      (∃ b, builderFromOptions lib { options with secretKey := none } = .ok b) ∧ k.length = 32
  bindWith : ∀ options bound, options.secretKey = some k →
    IrohEndpoint.bindWith lib ends options = .ok bound → Answers keys ends k bound.endpoint
  bind : ∀ alpns bound, IrohEndpoint.bind lib ends alpns (some k) = .ok bound →
    Answers keys ends k bound.endpoint

theorem exists_secretTryFrom_iff (faithful : keys.Faithful lib.keyFromBytes) :
    (∃ key, keys.secretTryFrom k = .ok key) ↔ k.length = 32 := by
  simp only [faithful.secretTryFrom]
  constructor
  · rintro ⟨_, long, -⟩
    exact long
  · exact fun long => ⟨_, long, rfl⟩

theorem ed25519Sign_eq_ok {data sig : List UInt8} : ed25519Sign keys k data = .ok sig ↔
    ∃ key, keys.secretTryFrom k = .ok key ∧
      (keys.signatureBytes (keys.sign key data)).toList = sig := by
  simp only [ed25519Sign, bind_eq_ok, mapError_eq_ok, pure_eq_ok]

theorem ed25519PublicFromSecret_eq_ok {pk : List UInt8} : ed25519PublicFromSecret keys k = .ok pk ↔
    ∃ key, keys.secretTryFrom k = .ok key ∧ (keys.asBytes (keys.publicKey key)).toList = pk := by
  simp only [ed25519PublicFromSecret, bind_eq_ok, mapError_eq_ok, pure_eq_ok]

/-- The other options are accepted or not whatever the key. -/
theorem accepted_key_iff {bound : X} {options : EndpointOptions} :
    EndpointOptions.Accepted lib bind bound { options with secretKey := some k } ↔
      EndpointOptions.Accepted lib bind bound { options with secretKey := none } ∧
        k.length = 32 := by
  constructor
  · rintro ⟨relays, secretKey, bindAddr, externalAddrs⟩
    exact ⟨⟨relays, by simp, bindAddr, externalAddrs⟩, secretKey k rfl⟩
  · rintro ⟨⟨relays, -, bindAddr, externalAddrs⟩, long⟩
    exact ⟨relays, by rintro _ ⟨⟩; exact long, bindAddr, externalAddrs⟩

/-- The key of the options is the key the endpoint keeps. -/
theorem bindWith_secretKey (lawful : lib.Lawful view bind) (keeps : ends.Keeps keys view)
    {options : EndpointOptions} {bound : Bound E} (given : options.secretKey = some k)
    (done : IrohEndpoint.bindWith lib ends options = .ok bound) :
    ∃ long : k.length = 32, ends.secretKey bound.endpoint.inner = lib.keyFromBytes ⟨k, long⟩ := by
  simp only [IrohEndpoint.bindWith, bind_eq_ok, mapError_eq_ok, pure_eq_ok] at done
  obtain ⟨builder, built, inner, started, rfl⟩ := done
  have accepted := ((applyOptions_stage lawful options).succeeds lib.preset).mp ⟨builder, built⟩
  have long : k.length = 32 := accepted.secretKey k given
  refine ⟨long, keeps.secretKey builder inner _ started ?_⟩
  rw [builderFromOptions_view lawful built]
  simp only [meaning, given, Option.elim_some, sliceToArray, dif_pos long]
  rfl

theorem verifyAgainst_ok {key : V} {data signature : List UInt8} {sig : G}
    (read : keys.signatureTryFrom signature = .ok sig) :
    verifyAgainst keys (.ok key) data signature = (keys.verify key data sig).isOk := by
  simp only [verifyAgainst, read]

/-- What cannot be read as a signature is not one. -/
theorem verifyAgainst_of_length (faithful : keys.Faithful lib.keyFromBytes)
    {key : Except String V} {data signature : List UInt8} (wrong : signature.length ≠ 64) :
    verifyAgainst keys key data signature = false := by
  unfold verifyAgainst
  split
  · rfl
  · split
    · rfl
    · rename_i sig read
      exact absurd ((faithful.signatureTryFrom signature).mp ⟨sig, read⟩) wrong

theorem answers_of_secretKey (faithful : keys.Faithful lib.keyFromBytes)
    (keeps : ends.Keeps keys view) {e : IrohEndpoint E} (long : k.length = 32)
    (kept : ends.secretKey e.inner = lib.keyFromBytes ⟨k, long⟩) : Answers keys ends k e := by
  have read : keys.secretTryFrom k = .ok (lib.keyFromBytes ⟨k, long⟩) :=
    (faithful.secretTryFrom _ _).mpr ⟨long, rfl⟩
  have own : ends.id e.inner = keys.publicKey (lib.keyFromBytes ⟨k, long⟩) := by
    rw [keeps.id, kept]
  constructor
  · rw [IrohEndpoint.secretKeyBytes, kept, faithful.toBytes_fromBytes]
  · intro data
    rw [IrohEndpoint.sign, kept]
    exact ed25519Sign_eq_ok.mpr ⟨_, read, rfl⟩
  · refine ⟨_, ed25519PublicFromSecret_eq_ok.mpr ⟨_, read, rfl⟩, ?_, fun data signature => ?_⟩
    · rw [IrohEndpoint.id, own, faithful.printsHex]
    · refine ⟨?_, fun wrong => verifyAgainst_of_length faithful wrong, ?_⟩
      · rw [verifySignature, ed25519Verify, IrohEndpoint.id, own, faithful.parses,
          faithful.publicTryFrom]
      · rintro rfl
        rw [ed25519Verify, faithful.publicTryFrom, IrohEndpoint.sign, kept,
          verifyAgainst_ok (faithful.signatureBytes _), faithful.verifies]
        rfl

/-- **Both ways agree.** For every byte string, and every endpoint bound with it as its key. -/
theorem identity_agrees (faithful : keys.Faithful lib.keyFromBytes) (lawful : lib.Lawful view bind)
    (keeps : ends.Keeps keys view) (k : List UInt8) : IdentityAgrees keys lib ends k := by
  have agrees : ∀ options bound, options.secretKey = some k →
      IrohEndpoint.bindWith lib ends options = .ok bound → Answers keys ends k bound.endpoint := by
    intro options bound given done
    obtain ⟨long, kept⟩ := bindWith_secretKey lawful keeps given done
    exact answers_of_secretKey faithful keeps long kept
  constructor
  · intro data
    rw [← exists_secretTryFrom_iff faithful]
    simp [ed25519Sign_eq_ok]
  · rw [← exists_secretTryFrom_iff faithful]
    simp [ed25519PublicFromSecret_eq_ok]
  · intro options
    have stage := fun options => (applyOptions_stage lawful options).succeeds lib.preset
    exact (stage _).trans (accepted_key_iff.trans (and_congr_left fun _ => (stage _).symm))
  · exact agrees
  · intro alpns bound done
    exact agrees _ bound rfl done

end Agreement

/-! ## One key pair -/

namespace Sample

/-- The secret, the public key and the signature of no data of the first RFC 8032 test. -/
def secret : U8Array 32 where
  toList := [
    0x9d, 0x61, 0xb1, 0x9d, 0xef, 0xfd, 0x5a, 0x60, 0xba, 0x84, 0x4a, 0xf4, 0x92, 0xec, 0x2c,
    0xc4, 0x44, 0x49, 0xc5, 0x69, 0x7b, 0x32, 0x69, 0x19, 0x70, 0x3b, 0xac, 0x03, 0x1c, 0xae,
    0x7f, 0x60]
  long := rfl

def publicBytes : U8Array 32 where
  toList := [
    0xd7, 0x5a, 0x98, 0x01, 0x82, 0xb1, 0x0a, 0xb7, 0xd5, 0x4b, 0xfe, 0xd3, 0xc9, 0x64, 0x07,
    0x3a, 0x0e, 0xe1, 0x72, 0xf3, 0xda, 0xa6, 0x23, 0x25, 0xaf, 0x02, 0x1a, 0x68, 0xf7, 0x07,
    0x51, 0x1a]
  long := rfl

def signature : U8Array 64 where
  toList := [
    0xe5, 0x56, 0x43, 0x00, 0xc3, 0x60, 0xac, 0x72, 0x90, 0x86, 0xe2, 0xcc, 0x80, 0x6e, 0x82,
    0x8a, 0x84, 0x87, 0x7f, 0x1e, 0xb8, 0xe5, 0xd9, 0x74, 0xd8, 0x73, 0xe0, 0x65, 0x22, 0x49,
    0x01, 0x55, 0x5f, 0xb8, 0x82, 0x15, 0x90, 0xa3, 0x3b, 0xac, 0xc6, 0x1e, 0x39, 0x70, 0x1c,
    0xf9, 0xb4, 0x6b, 0xd2, 0x5b, 0xf5, 0xf0, 0x59, 0x5b, 0xbe, 0x24, 0x65, 0x51, 0x41, 0x43,
    0x8e, 0x7a, 0x10, 0x0b]
  long := rfl

/-- The library as far as that test goes: one public key, and one signature. -/
def testKeys : KeyLibrary (U8Array 32) Unit (U8Array 64) where
  toBytes := id
  secretTryFrom bytes :=
    match sliceToArray 32 bytes with
    | some key => .ok key
    | none => .error "wrong length"
  publicKey _ := ()
  asBytes _ := publicBytes
  publicTryFrom bytes := if bytes = publicBytes.toList then .ok () else .error "not a key"
  id := {
    print := fun _ => lowerHex publicBytes.toList
    parse := fun text => if text = lowerHex publicBytes.toList then .ok () else .error "not an id" }
  sign _ _ := signature
  signatureBytes := id
  signatureTryFrom bytes :=
    match sliceToArray 64 bytes with
    | some sig => .ok sig
    | none => .error "wrong length"
  verify _ _ sig := if sig = signature then .ok () else .error "not signed"

theorem testKeys_faithful : testKeys.Faithful id where
  toBytes_fromBytes _ := rfl
  secretTryFrom bytes key := by
    simp only [testKeys, sliceToArray]
    by_cases long : bytes.length = 32 <;> simp [long]
  publicTryFrom _ := rfl
  printsHex _ := rfl
  parses _ := by simp [testKeys]
  signatureTryFrom bytes := by
    simp only [testKeys, sliceToArray]
    by_cases long : bytes.length = 64 <;> simp [long]
  signatureBytes sig := by
    simp only [testKeys, sliceToArray, id, dif_pos sig.long]
  verifies _ _ := by simp [testKeys]

/-- An endpoint is its key; without one it generates `secret`. -/
def endpoints : EndpointLibrary (Configuration String String String (U8Array 32) String String
    (List String)) (U8Array 32) (U8Array 32) Unit where
  bind b := .ok (b.secretKey.getD secret)
  id _ := ()
  secretKey := id

theorem endpoints_keep : endpoints.Keeps testKeys id where
  secretKey b e key started held := by
    cases started
    exact congrArg (Option.getD · secret) held
  id _ := rfl

/-- An endpoint bound with `secret` and custom relays has it as its key, and answers as it. -/
theorem identity_agrees_secret : IdentityAgrees testKeys library endpoints secret.toList ∧
    ∃ bound, IrohEndpoint.bindWith library endpoints
        { custom with secretKey := some secret.toList } = .ok bound ∧
      Answers testKeys endpoints secret.toList bound.endpoint := by
  have lawful : library.Lawful id bindOne := recordLibrary_lawful rfl rfl
  have agrees := identity_agrees testKeys_faithful lawful endpoints_keep secret.toList
  have started : IrohEndpoint.bindWith library endpoints
      { custom with secretKey := some secret.toList } = .ok ⟨⟨secret⟩, none⟩ := rfl
  exact ⟨agrees, _, started, agrees.bindWith _ _ rfl started⟩

end Sample

end IrohKmp.Kernel
