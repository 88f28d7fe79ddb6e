/-
# Kernel.Restart — one identity over restarts

An app stores the bytes of its key, those of the first endpoint it bound or of a pair it minted,
and binds every later endpoint with them. However often it starts, and with whatever other options,
its peers see one id, and what any of its endpoints signed stays valid.

* `generateEd25519Keypair` — a pair that is minted without an endpoint;
* `App`, `App.step` — the stored bytes, and every endpoint bound so far;
* `Keyed`, `keyed_step` — they are all of one key, the stored one;
* `OneIdentity`, `one_identity`; `one_identity_restarted`, an app that did not start with a key.
-/
import IrohKmp.Kernel.Identity
import IrohKmp.Theory.Run

namespace IrohKmp.Kernel

open IrohKmp.Theory
open IrohKmp.Theory.Collect
open IrohKmp.Theory.Run

set_option autoImplicit false
set_option linter.unusedSectionVars false

variable {B E K V G U S L T P X : Type}

/-! ## The app -/

structure Ed25519Keypair where
  secret : List UInt8
  /-- `public`. -/
  publicBytes : List UInt8

/-- `generate_ed25519_keypair`, of the key that `SecretKey::generate` gives. -/
def generateEd25519Keypair (keys : KeyLibrary K V G) (generated : K) : Ed25519Keypair where
  secret := (keys.toBytes generated).toList
  publicBytes := (keys.asBytes (keys.publicKey generated)).toList

structure App (E : Type) where
  stored : Option (List UInt8)
  /-- Every endpoint that was bound, the oldest first. -/
  endpoints : List (IrohEndpoint E)

inductive AppEvent (K : Type) where
  | mint (generated : K)
  /-- The app starts; it sets the key among the options to what it has stored. -/
  | start (options : EndpointOptions)

namespace App

structure Fresh (s : App E) : Prop where
  stored : s.stored = none
  endpoints : s.endpoints = []

variable [DecidableEq U] (keys : KeyLibrary K V G) (lib : BuilderLibrary B K U S)
  (ends : EndpointLibrary B E K V)

/-- A pair is minted when nothing is stored; a start that fails changes nothing. -/
def step (s : App E) : AppEvent K → Option (App E)
  | .mint generated =>
      match s.stored with
      | some _ => none
      | none => some { s with stored := some (generateEd25519Keypair keys generated).secret }
  | .start options =>
      match IrohEndpoint.bindWith lib ends { options with secretKey := s.stored } with
      | .ok bound => some {
          stored := some (bound.endpoint.secretKeyBytes keys ends)
          endpoints := s.endpoints ++ [bound.endpoint] }
      | .error _ => some s

end App

section Runs

variable [DecidableEq U] [DecidableEq S] {keys : KeyLibrary K V G} {lib : BuilderLibrary B K U S}
  {ends : EndpointLibrary B E K V} {view : B → Configuration L T P K U S X}
  {bind : String → X → Except String X} {k : List UInt8} {s t : App E} {e : AppEvent K}

/-! ## One step -/

/-- The endpoints and the stored bytes are of this key. -/
structure Holds (keys : KeyLibrary K V G) (ends : EndpointLibrary B E K V) (key : K) (s : App E) :
    Prop where
  stored : s.stored = some (keys.toBytes key).toList
  endpoints : ∀ e ∈ s.endpoints, ends.secretKey e.inner = key

/-- There is no key yet, or one that everything is of. -/
def Keyed (keys : KeyLibrary K V G) (ends : EndpointLibrary B E K V) (s : App E) : Prop :=
  s.Fresh ∨ ∃ key, Holds keys ends key s

theorem holds_of_fresh (fresh : s.Fresh) {bound : IrohEndpoint E} :
    Holds keys ends (ends.secretKey bound.inner)
      ⟨some (bound.secretKeyBytes keys ends), s.endpoints ++ [bound]⟩ where
  stored := rfl
  endpoints := by simp [fresh.endpoints]

/-- A key that is held stays. -/
theorem holds_step (lawful : lib.Lawful view bind) (keeps : ends.Keeps keys view)
    (restores : ∀ key, lib.keyFromBytes (keys.toBytes key) = key) {key : K}
    (holds : Holds keys ends key s) (stepped : App.step keys lib ends s e = some t) :
    Holds keys ends key t := by
  cases e with
  | mint generated =>
      simp only [App.step, holds.stored] at stepped
      cases stepped
  | start options =>
      simp only [App.step] at stepped
      split at stepped
      · rename_i bound started
        cases stepped
        obtain ⟨long, kept⟩ := bindWith_secretKey lawful keeps holds.stored started
        have same : ends.secretKey bound.endpoint.inner = key := kept.trans (restores key)
        constructor
        · rw [IrohEndpoint.secretKeyBytes, same]
        · intro e member
          rcases List.mem_append.mp member with older | new
          · exact holds.endpoints e older
          · rw [List.mem_singleton.mp new, same]
      · cases stepped
        exact holds

theorem keyed_step (lawful : lib.Lawful view bind) (keeps : ends.Keeps keys view)
    (restores : ∀ key, lib.keyFromBytes (keys.toBytes key) = key) (keyed : Keyed keys ends s)
    (stepped : App.step keys lib ends s e = some t) : Keyed keys ends t := by
  obtain fresh | ⟨key, holds⟩ := keyed
  · cases e with
    | mint generated =>
        simp only [App.step, fresh.stored] at stepped
        cases stepped
        exact .inr ⟨generated, rfl, by simp [fresh.endpoints]⟩
    | start options =>
        simp only [App.step] at stepped
        split at stepped
        · cases stepped
          exact .inr ⟨_, holds_of_fresh fresh⟩
        · cases stepped
          exact .inl fresh
  · exact .inr ⟨key, holds_step lawful keeps restores holds stepped⟩

theorem endpoints_step (stepped : App.step keys lib ends s e = some t) :
    s.endpoints <+: t.endpoints := by
  cases e with
  | mint generated =>
      simp only [App.step] at stepped
      split at stepped
      · cases stepped
      · cases stepped
        exact List.prefix_refl _
  | start options =>
      simp only [App.step] at stepped
      split at stepped
      · cases stepped
        exact List.prefix_append _ _
      · cases stepped
        exact List.prefix_refl _

/-! ## Every run -/

/-- Everything of the app answers for the one key whose bytes are `k`. -/
structure OneIdentity (keys : KeyLibrary K V G) (lib : BuilderLibrary B K U S)
    (ends : EndpointLibrary B E K V) (k : List UInt8) (s : App E) : Prop where
  /-- All endpoints have the id that the stored bytes give, -/
  id : ∃ pk, ed25519PublicFromSecret keys k = .ok pk ∧
    ∀ e ∈ s.endpoints, e.id keys ends = lowerHex pk
  /-- which is the public half of the pair, if one was minted. -/
  minted : ∀ generated, (generateEd25519Keypair keys generated).secret = k →
    ed25519PublicFromSecret keys k = .ok (generateEd25519Keypair keys generated).publicBytes
  answers : ∀ e ∈ s.endpoints, Answers keys ends k e
  /-- What one endpoint signed is valid under the id of every other. -/
  signed : ∀ e ∈ s.endpoints, ∀ e' ∈ s.endpoints, ∀ data,
    verifySignature keys (e'.id keys ends) data (e.sign keys ends data) = true
  /-- No start fails for the stored key. -/
  starts : ∀ options : EndpointOptions,
    (∃ b, builderFromOptions lib { options with secretKey := some k } = .ok b) ↔
      ∃ b, builderFromOptions lib { options with secretKey := none } = .ok b

theorem answers_of_holds (faithful : keys.Faithful lib.keyFromBytes)
    (keeps : ends.Keeps keys view) (restores : ∀ key, lib.keyFromBytes (keys.toBytes key) = key)
    {key : K} (holds : Holds keys ends key s) {e : IrohEndpoint E} (member : e ∈ s.endpoints) :
    Answers keys ends (keys.toBytes key).toList e :=
  answers_of_secretKey faithful keeps (keys.toBytes key).long
    ((holds.endpoints e member).trans (restores key).symm)

theorem oneIdentity (faithful : keys.Faithful lib.keyFromBytes) (lawful : lib.Lawful view bind)
    (keeps : ends.Keeps keys view) (restores : ∀ key, lib.keyFromBytes (keys.toBytes key) = key)
    {key : K} (holds : Holds keys ends key s) :
    OneIdentity keys lib ends (keys.toBytes key).toList s := by
  have given : ∀ key, ed25519PublicFromSecret keys (keys.toBytes key).toList =
      .ok (keys.asBytes (keys.publicKey key)).toList := by
    intro key
    refine ed25519PublicFromSecret_eq_ok.mpr ⟨key, ?_, rfl⟩
    exact (faithful.secretTryFrom _ _).mpr ⟨(keys.toBytes key).long, restores key⟩
  have named : ∀ e ∈ s.endpoints,
      e.id keys ends = lowerHex (keys.asBytes (keys.publicKey key)).toList := by
    intro e member
    rw [IrohEndpoint.id, keeps.id, holds.endpoints e member, faithful.printsHex]
  have answers : ∀ e ∈ s.endpoints, Answers keys ends (keys.toBytes key).toList e :=
    fun e member => answers_of_holds faithful keeps restores holds member
  constructor
  · exact ⟨_, given key, named⟩
  · intro generated same
    rw [← same]
    exact given generated
  · exact answers
  · intro e member e' member' data
    obtain ⟨pk, -, -, checks⟩ := (answers e member).id
    rw [named e' member', ← named e member, (checks data _).1]
    exact (checks data _).2.2 rfl
  · intro options
    have stage := fun options => (applyOptions_stage lawful options).succeeds lib.preset
    refine (stage _).trans (accepted_key_iff.trans ?_)
    exact (and_iff_left (keys.toBytes key).long).trans (stage _).symm

/-- **One identity over restarts.** In every run of an app that binds its endpoints with the key it
has stored, whatever the other options and whichever starts fail, once there is a key it stays:
every endpoint bound before or after has the id of that key and answers for it, what any of them
signed is valid under the id of any other, and no start fails for the key. -/
theorem one_identity (faithful : keys.Faithful lib.keyFromBytes) (lawful : lib.Lawful view bind)
    (keeps : ends.Keeps keys view) (restores : ∀ key, lib.keyFromBytes (keys.toBytes key) = key)
    (reached : Reachable (App.step keys lib ends) Any App.Fresh s) (stored : s.stored = some k) :
    ∀ t, Via (App.step keys lib ends) Any s t →
      t.stored = some k ∧ s.endpoints <+: t.endpoints ∧ OneIdentity keys lib ends k t := by
  have keyed : Keyed keys ends s := reached.keeps (fun _ fresh => .inl fresh)
    fun _ _ _ keyed _ stepped => keyed_step lawful keeps restores keyed stepped
  obtain ⟨key, holds⟩ : ∃ key, Holds keys ends key s := by
    refine keyed.resolve_left fun fresh => ?_
    rw [fresh.stored] at stored
    cases stored
  obtain rfl : (keys.toBytes key).toList = k := Option.some.inj (holds.stored.symm.trans stored)
  intro t run
  have later : Holds keys ends key t := run.keeps holds fun _ _ _ holds _ stepped =>
    holds_step lawful keeps restores holds stepped
  refine ⟨later.stored, ?_, oneIdentity faithful lawful keeps restores later⟩
  refine run.keeps (I := fun t => s.endpoints <+: t.endpoints) (List.prefix_refl _) ?_
  intro u e v before _ stepped
  exact before.trans (endpoints_step stepped)

end Runs

/-! ## An app that did not start with a key -/

namespace Sample

/-- One start with nothing stored, one that fails for its options, and one more. -/
def restarts : List (AppEvent (U8Array 32)) :=
  [.start { custom with bindAddr := none }, .start { custom with bindAddr := some "" },
    .start custom]

/-- Two endpoints of the key that the first one generated. -/
def restarted : App (U8Array 32) where
  stored := some secret.toList
  endpoints := [⟨secret⟩, ⟨secret⟩]

theorem one_identity_restarted :
    exec (App.step testKeys library endpoints) ⟨none, []⟩ restarts = some restarted ∧
      OneIdentity testKeys library endpoints secret.toList restarted := by
  have runs : exec (App.step testKeys library endpoints) ⟨none, []⟩ restarts = some restarted := rfl
  have reached : Reachable (App.step testKeys library endpoints) Any App.Fresh restarted :=
    .of_exec restarts ⟨rfl, rfl⟩ runs
  have lawful : library.Lawful id bindOne := recordLibrary_lawful rfl rfl
  exact ⟨runs, (one_identity testKeys_faithful lawful endpoints_keep (fun _ => rfl) reached rfl
    restarted .refl).2.2⟩

end Sample

end IrohKmp.Kernel
