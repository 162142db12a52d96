import Libssha.PubKey
import Libssha.RestrictDestination

/-!
# Private keys and the key registry

`KeyBase` with the state of its family (`eddsa-key.cpp`, `rsa-key.cpp`, `edcsa-key.cpp`)
and `KeyFactory`'s per-type operations: create a key, extract the public blob, skip the
private blob. The Botan private-key object is represented by the bytes it was built from.
An operation on a C++ object is a step of `EStateM Fault`, whose state survives an
exception as the mutated object does.
-/
namespace Libssha

open Deserializer Serializer

instance instDecidableEqResult {ε σ α : Type} [DecidableEq ε] [DecidableEq σ] [DecidableEq α] :
    DecidableEq (EStateM.Result ε σ α)
  | .ok a s, .ok b t => decidable_of_iff (a = b ∧ s = t) (by simp)
  | .error a s, .error b t => decidable_of_iff (a = b ∧ s = t) (by simp)
  | .ok _ _, .error _ _ => isFalse nofun
  | .error _ _, .ok _ _ => isFalse nofun

/-- The private-key families, with what `ECDSAKey` keeps besides `KeyBase`: the type
name it was registered under and the curve name read from its blob. -/
inductive KeyFamily where
  | ed25519
  | ed448
  | rsa
  | ecdsa (typeName curve : Bytes)
  deriving Repr, DecidableEq

structure Key where
  family : KeyFamily
  comment : Bytes
  /-- `m_pubkey`. -/
  pubKey : PubKey
  /-- `m_priv_key`: the live signing material, `none` once the key is locked. -/
  material : Option Bytes
  /-- `BotanLock::m_locked_data`. -/
  lockedData : Bytes
  /-- `m_added_time` (steady-clock nanoseconds) and `m_lifetime_seconds`. -/
  addedTime : Int
  lifetime : UInt32
  destConstraints : List OpenSSHSDestinationConstraint
  confirmRequired : Bool
  /-- Which allocation this object is: two keys are one `shared_ptr` target iff their
  serials agree. -/
  serial : Nat
  deriving Repr, DecidableEq

namespace Key

variable (crypto : Crypto)

/-- `KeyBase::pubBlob`. -/
def pubBlob (k : Key) : Bytes := k.pubKey.blob

def type (k : Key) : Bytes :=
  match k.family with
  | .ed25519 => ed25519TypeName
  | .ed448 => ed448TypeName
  | .rsa => rsaTypeName
  | .ecdsa typeName _ => typeName

def fingerprint (k : Key) : Bytes := crypto.fingerprint k.pubBlob

/-- `KeyBase::expired` at steady-clock time `now`: whole seconds elapsed since
`setLifetime`, truncated as `duration_cast<seconds>` does. -/
def expired (k : Key) (now : Int) : Bool :=
  k.lifetime ≠ 0 && decide (((now - k.addedTime).tdiv 1000000000) ≥ k.lifetime.toNat)

/-- `sign(data, flags)` of each family: Botan signs with the private key object, then
the adapter frames `string sig-type ‖ blob signature`. A locked key has no object to
sign with: the source dereferences the null `m_priv_key`. -/
def sign (k : Key) (data : Bytes) (flags : UInt32) : Except Fault Bytes :=
  match k.material with
  | none => .error (.crash "null m_priv_key dereferenced by sign")
  | some m =>
    let (sigType, scheme) : Bytes × String :=
      match k.family with
      | .ed25519 => (ed25519TypeName, "Ed25519")
      | .ed448 => (ed448TypeName, "Ed448")
      | .rsa =>
        if flags &&& 4 ≠ 0 then (ascii "rsa-sha2-512", "EMSA-PKCS1-v1_5(SHA-512)")
        else if flags &&& 2 ≠ 0 then (ascii "rsa-sha2-256", "EMSA-PKCS1-v1_5(SHA-256)")
        else (rsaTypeName, "EMSA-PKCS1-v1_5(SHA-1)")
      | .ecdsa typeName curve => (typeName, ((ecdsaCurve curve).map (·.2.2)).getD "")
    (do
      let parts ← crypto.signRaw scheme m data
      match k.family with
      | .ecdsa .. =>
        let inner ← Serializer.build (parts.forM writeMPInt)
        Serializer.build (do writeString sigType; writeSecureBlob inner)
      | _ => Serializer.build (do writeString sigType; parts.forM writeBlob)).mapError
      .exception

/-- `lock(password)`: `protectData(*m_priv_key, password)` clears the locked blob and
stores the passphrase-encrypted key, then the plaintext object is released. -/
def lock (password : Bytes) : EStateM Fault Key Unit := do
  let k ← get
  match k.material with
  | none => throw (.crash "null m_priv_key dereferenced by lock")
  | some m =>
    set { k with lockedData := [] }
    match crypto.protect m password with
    | .error e => throw (.exception e)
    | .ok enc => set { k with lockedData := enc, material := none }

/-- `unlock(password)`: `false` when the stored blob decodes to a null key. -/
def unlock (password : Bytes) : EStateM Fault Key Bool := do
  let k ← get
  match crypto.unprotect k.lockedData password with
  | .error e => throw (.exception e)
  | .ok none => pure false
  | .ok (some m) =>
    set { k with material := some m }
    pure true

end Key

/-- The private-key operations `Key<T, name>::registerType` puts in `KeyFactory`; a key
is created with the crypto provider at hand. -/
structure KeyType where
  name : Bytes
  create : Crypto → Bytes → Bytes → Except String Key
  extractPub : Bytes → Except String Bytes
  skipBlob : Reader Unit

section Families

/-- A key as a family's constructor leaves it, before `KeyManager` sets its options. -/
def Key.fresh (family : KeyFamily) (comment : Bytes) (pubKey : PubKey) (material : Bytes) :
    Key :=
  ⟨family, comment, pubKey, some material, [], 0, 0, [], false, 0⟩

/-- `EDDSABase::extractPub(data, type_name)`. -/
def eddsaExtractPub (typeName data : Bytes) : Except String Bytes := do
  let pubData ← Deserializer.parse readBlob data
  Serializer.build (do writeString typeName; writeBlob pubData)

/-- The fields `Ed25519Key(blob, comment)` and `Ed448Key(blob, comment)` read: the public
and the private blob. -/
def eddsaFields : Reader (Bytes × Bytes) := do
  let p ← readBlob
  let s ← readBlobSecure
  pure (p, s)

/-- `Ed25519Key(blob, comment)` and `Ed448Key(blob, comment)`. -/
def eddsaCreate (crypto : Crypto) (family : KeyFamily) (typeName : Bytes) (privAlg : String)
    (pubOf : Bytes → Except String PubKey) (blob comment : Bytes) : Except String Key := do
  let (pubData, priv) ← Deserializer.parse eddsaFields blob
  crypto.build privAlg [priv]
  let pubBlob ← Serializer.build (do writeString typeName; writeBlob pubData)
  let pubKey ← pubOf pubBlob
  pure (Key.fresh family comment pubKey blob)

/-- `EDDSABase::skipBlob`: the public and the private blob. -/
def eddsaSkipBlob : Reader Unit := do
  discardBlob
  discardBlob

def Ed25519Key : KeyType where
  name := ed25519TypeName
  create crypto :=
    eddsaCreate crypto .ed25519 ed25519TypeName "Ed25519_PrivateKey" (ED25519Pub crypto)
  extractPub := eddsaExtractPub ed25519TypeName
  skipBlob := eddsaSkipBlob

def Ed448Key : KeyType where
  name := ed448TypeName
  create crypto := eddsaCreate crypto .ed448 ed448TypeName "Ed448_PrivateKey" (ED448Pub crypto)
  extractPub := eddsaExtractPub ed448TypeName
  skipBlob := eddsaSkipBlob

/-- The fields `RsaKey(blob, comment)` reads: `n`, `e`, `d`, then `iqmp` (discarded), `p`
and `q`. -/
def rsaFields : Reader (Bytes × Bytes × Bytes × Bytes × Bytes) := do
  let n ← readMPInt
  let e ← readMPInt
  let d ← readMPIntSecure
  discardBlob
  let p ← readMPIntSecure
  let q ← readMPIntSecure
  pure (n, e, d, p, q)

/-- The fields `RsaKey::extractPub` reads: `n` and `e`. -/
def rsaPubFields : Reader (Bytes × Bytes) := do
  let n ← readMPInt
  let e ← readMPInt
  pure (n, e)

def RsaKey : KeyType where
  name := rsaTypeName
  create crypto blob comment := do
    let (n, e, d, p, q) ← Deserializer.parse rsaFields blob
    crypto.build "RSA_PrivateKey" [p, q, e, d, n]
    let pubBlob ← Serializer.build (do writeString rsaTypeName; writeMPInt e; writeMPInt n)
    let pubKey ← RSAPub crypto pubBlob
    pure (Key.fresh .rsa comment pubKey blob)
  extractPub data := do
    let (n, e) ← Deserializer.parse rsaPubFields data
    Serializer.build (do writeString rsaTypeName; writeMPInt e; writeMPInt n)
  skipBlob := do
    discardBlob; discardBlob; discardBlob; discardBlob; discardBlob; discardBlob

/-- The scalar length each curve's private key is zero-padded to. -/
def ecdsaScalarLength (curve : Bytes) : Nat :=
  if curve = ascii "nistp256" then 32 else if curve = ascii "nistp384" then 48 else 66

/-- The fields `ECDSAKey(blob, comment, type_name)` reads: the curve name, the public point
and the private scalar. -/
def ecdsaFields : Reader (Bytes × Bytes × Bytes) := do
  let c ← readString
  let p ← readBlob
  let s ← readMPIntSecure
  pure (c, p, s)

/-- The fields `ECDSAKey::extractPub` reads: the curve name and the public point. -/
def ecdsaPubFields : Reader (Bytes × Bytes) := do
  let c ← readString
  let p ← readBlob
  pure (c, p)

/-- `ECDSAKey(blob, comment, type_name)`: the key keeps `type_name`, while the curve,
the Botan domain and the public blob's curve field come from the blob. -/
def ecdsaCreate (crypto : Crypto) (typeName blob comment : Bytes) : Except String Key := do
  let (curve, pubData, priv) ← Deserializer.parse ecdsaFields blob
  match ecdsaCurve curve with
  | none => throw ("ECDSABase: unknown curve name: " ++ text curve)
  | some (_, botanCurve, _) =>
    let padded := List.replicate (ecdsaScalarLength curve - priv.length) 0 ++ priv
    if !crypto.accepts "EC_Scalar" [ascii botanCurve, padded] then
      throw "ECDSABase: invalid private scalar"
    let pubBlob ← Serializer.build (do writeString typeName; writeString curve; writeBlob pubData)
    let pubKey ← ECDSAPub crypto pubBlob
    pure (Key.fresh (.ecdsa typeName curve) comment pubKey blob)

/-- `ECDSAKey::extractPub`: the type name is derived from the blob's curve. -/
def ecdsaExtractPub (data : Bytes) : Except String Bytes := do
  let (curve, pubData) ← Deserializer.parse ecdsaPubFields data
  match ecdsaCurve curve with
  | none => throw ("ECDSABase::extractPub: unknown curve name: " ++ text curve)
  | some (typeName, _, _) =>
    Serializer.build (do writeString typeName; writeString curve; writeBlob pubData)

def ECDSAKey (typeName : Bytes) : KeyType where
  name := typeName
  create crypto := ecdsaCreate crypto typeName
  extractPub := ecdsaExtractPub
  skipBlob := do
    discardBlob; discardBlob; discardBlob

/-- `KeyFactory` after `initializeKeyTypes`, in registration order. -/
def keyTypes : List KeyType :=
  [Ed25519Key, Ed448Key, RsaKey] ++ ecdsaTypeNames.map ECDSAKey

def findKeyType (type : Bytes) : Option KeyType := keyTypes.find? (·.name = type)

end Families

namespace KeyFactory

def createKey (crypto : Crypto) (type blob comment : Bytes) : Except String Key :=
  match findKeyType type with
  | some t => t.create crypto blob comment
  | none => throw ("KeyFactory: unknown key type: " ++ text type)

def extractPubKey (type blob : Bytes) : Except String Bytes :=
  match findKeyType type with
  | some t => t.extractPub blob
  | none => throw ("KeyFactory: unknown key type for extracting pubkey: " ++ text type)

def skipKeyBlob (type : Bytes) : Reader Unit :=
  match findKeyType type with
  | some t => t.skipBlob
  | none => throw ("KeyFactory: unknown key type for skipping blob: " ++ text type)

end KeyFactory

section Material

variable {crypto : Crypto} {blob comment : Bytes} {k : Key}

theorem eddsaCreate_material {family : KeyFamily} {typeName : Bytes} {privAlg : String}
    {pubOf : Bytes → Except String PubKey}
    (h : eddsaCreate crypto family typeName privAlg pubOf blob comment = .ok k) :
    k.material = some blob := by
  simp only [eddsaCreate, except_bind_eq_ok, pure, Except.pure, Except.ok.injEq] at h
  obtain ⟨_, _, _, _, _, _, _, _, rfl⟩ := h
  rfl

theorem ecdsaCreate_material {typeName : Bytes}
    (h : ecdsaCreate crypto typeName blob comment = .ok k) : k.material = some blob := by
  simp only [ecdsaCreate, except_bind_eq_ok] at h
  obtain ⟨_, _, h⟩ := h
  split at h
  · cases h
  · split at h
    · cases h
    · simp only [except_bind_eq_ok, pure, Except.pure, Except.ok.injEq] at h
      obtain ⟨_, _, _, _, _, _, rfl⟩ := h
      rfl

theorem rsaCreate_material (h : RsaKey.create crypto blob comment = .ok k) :
    k.material = some blob := by
  simp only [RsaKey, except_bind_eq_ok, pure, Except.pure, Except.ok.injEq] at h
  obtain ⟨_, _, _, _, _, _, _, _, rfl⟩ := h
  rfl

/-- Every registered family keeps the blob it was created from as the live material. -/
theorem KeyFactory.createKey_material {type : Bytes}
    (h : KeyFactory.createKey crypto type blob comment = .ok k) : k.material = some blob := by
  unfold KeyFactory.createKey at h
  split at h
  · next t ht =>
    have hmem := List.mem_of_find?_eq_some ht
    simp only [keyTypes, List.mem_append, List.mem_cons, List.mem_map, List.not_mem_nil,
      or_false] at hmem
    rcases hmem with (rfl | rfl | rfl) | ⟨_, _, rfl⟩
    · exact eddsaCreate_material h
    · exact eddsaCreate_material h
    · exact rsaCreate_material h
    · exact ecdsaCreate_material h
  · cases h

end Material

end Libssha
