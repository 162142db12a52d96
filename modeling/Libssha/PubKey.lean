import Libssha.Codec

/-!
# Cryptographic interface and public keys

The primitives of the key adapters (Botan and the bundled SHA-256 in the source) are out
of the library's scope: `Crypto` lists the ones it calls, and every result below holds
for every `Crypto`. The public-key families of `providers/botan/*-pub.cpp` parse their
blob and verify a signature blob with them; `KeyFactory::createPubKey` selects a family
by its registered type name.
-/
namespace Libssha

open Deserializer

/-- How a call ends when it does not return: a `std::exception` escaping with its
`what()` text, or the process ending (`abort`, `std::terminate`, undefined behaviour). -/
inductive Fault where
  | exception (what : String)
  | crash (reason : String)
  deriving Repr, DecidableEq

/-- The text of a byte string, for error messages built from wire data. -/
def text (b : Bytes) : String := String.mk (b.map fun u => Char.ofNat u.toNat)

structure Crypto where
  /-- Whether the named Botan object can be built from these components without throwing
  (`Ed25519_PublicKey`, `RSA_PrivateKey`, `EC_Scalar`, ...). -/
  accepts : String → List Bytes → Bool
  /-- `PK_Signer::sign_message` under a scheme, with the private material: the signature
  components (one, or `r` and `s` after the DER decode for ECDSA). -/
  signRaw : String → Bytes → Bytes → Except String (List Bytes)
  /-- `PK_Verifier::verify_message` under a scheme, with the public components. -/
  verifyRaw : String → List Bytes → Bytes → List Bytes → Bool
  /-- `PKCS8::BER_encode` of the material under a passphrase. -/
  protect : Bytes → Bytes → Except String Bytes
  /-- `PKCS8::load_key`: the material, or a null key. -/
  unprotect : Bytes → Bytes → Except String (Option Bytes)
  /-- `argon2_generate_pwhash` and `argon2_check_pwhash` of `BotanLockProvider`. -/
  pwHash : Bytes → Bytes
  pwCheck : Bytes → Bytes → Bool
  /-- `PubKeyBase::fingerprint`: `SHA256:` and the unpadded base64 of the blob's digest. -/
  fingerprint : Bytes → Bytes

variable (crypto : Crypto)

/-- A symbolic provider: every construction succeeds, a signature is the signed data,
protected material is the passphrase followed by the material, and a passphrase hash is
the passphrase. It meets every assumption the results below make of a provider, and the
runs that exhibit a defect are evaluated with it. -/
def Crypto.symbolic : Crypto where
  accepts _ _ := true
  signRaw _ _ data := .ok [data]
  verifyRaw _ _ data sig := sig == [data]
  protect material passphrase := .ok (passphrase ++ material)
  unprotect enc passphrase :=
    if passphrase.isPrefixOf enc then .ok (some (enc.drop passphrase.length))
    else .error "PKCS8: wrong passphrase"
  pwHash passphrase := passphrase
  pwCheck passphrase hash := passphrase == hash
  fingerprint blob := blob

theorem Crypto.symbolic_unprotect_protect (material passphrase : Bytes) :
    Crypto.symbolic.unprotect (passphrase ++ material) passphrase = .ok (some material) := by
  simp [Crypto.symbolic, List.isPrefixOf_iff_prefix]

theorem Crypto.symbolic_pwCheck_pwHash (p q : Bytes) :
    Crypto.symbolic.pwCheck p (Crypto.symbolic.pwHash q) = true ↔ p = q := beq_iff_eq

/-- A Botan constructor: it throws unless `Crypto.accepts` holds. -/
def Crypto.build (alg : String) (parts : List Bytes) : Except String Unit :=
  if crypto.accepts alg parts then pure () else throw ("Botan: invalid " ++ alg)

def ed25519TypeName : Bytes := ascii "ssh-ed25519"
def ed448TypeName : Bytes := ascii "ssh-ed448"
def rsaTypeName : Bytes := ascii "ssh-rsa"

/-- ECDSA curve names and what the source derives from them: the registered key type,
Botan's curve and the signature scheme. -/
def ecdsaCurve (curve : Bytes) : Option (Bytes × String × String) :=
  if curve = ascii "nistp256" then
    some (ascii "ecdsa-sha2-nistp256", "secp256r1", "EMSA1(SHA-256)")
  else if curve = ascii "nistp384" then
    some (ascii "ecdsa-sha2-nistp384", "secp384r1", "EMSA1(SHA-384)")
  else if curve = ascii "nistp521" then
    some (ascii "ecdsa-sha2-nistp521", "secp521r1", "EMSA1(SHA-512)")
  else none

def ecdsaTypeNames : List Bytes :=
  [ascii "ecdsa-sha2-nistp256", ascii "ecdsa-sha2-nistp384", ascii "ecdsa-sha2-nistp521"]

/-- The public keys of the four families, with the components Botan was given. -/
inductive PubKeyData where
  | ed25519 (a : Bytes)
  | ed448 (a : Bytes)
  | rsa (e n : Bytes)
  | ecdsa (curve point : Bytes)
  deriving Repr, DecidableEq

/-- `PubKeyBase`: the blob it was built from and the parsed key. -/
structure PubKey where
  blob : Bytes
  key : PubKeyData
  deriving Repr, DecidableEq

/-- `ED25519Pub(blob)` and `ED448Pub(blob)`: the key type must be the family's, and the
key field is read as an mpint. -/
def eddsaPub (cls : String) (typeName : Bytes) (alg : String) (mk : Bytes → PubKeyData)
    (blob : Bytes) : Except String PubKey := do
  let a ← Deserializer.parse (do
    let ty ← readString
    if ty ≠ typeName then throw (cls ++ ": invalid key type: " ++ text ty)
    readMPInt) blob
  crypto.build alg [a]
  pure ⟨blob, mk a⟩

def ED25519Pub (blob : Bytes) : Except String PubKey :=
  eddsaPub crypto "ED25519Pub" ed25519TypeName "Ed25519_PublicKey" .ed25519 blob

def ED448Pub (blob : Bytes) : Except String PubKey :=
  eddsaPub crypto "ED448Pub" ed448TypeName "Ed448_PublicKey" .ed448 blob

def RSAPub (blob : Bytes) : Except String PubKey := do
  let (e, n) ← Deserializer.parse (do
    let _ ← readString
    let e ← readMPInt
    let n ← readMPInt
    pure (e, n)) blob
  crypto.build "RSA_PublicKey" [n, e]
  pure ⟨blob, .rsa e n⟩

def ECDSAPub (blob : Bytes) : Except String PubKey := do
  let (curve, point) ← Deserializer.parse (do
    let _ ← readString
    let curve ← readString
    let point ← readMPInt
    pure (curve, point)) blob
  match ecdsaCurve curve with
  | none => throw ("ECDSAPub: unknown curve name: " ++ text curve)
  | some (_, botanCurve, _) =>
    crypto.build "EC_AffinePoint" [ascii botanCurve, point]
    pure ⟨blob, .ecdsa curve point⟩

/-- `KeyFactory::createPubKey`: the families registered by `initializeKeyTypes`. -/
def createPubKey (type blob : Bytes) : Except String PubKey :=
  if type = ed25519TypeName then ED25519Pub crypto blob
  else if type = ed448TypeName then ED448Pub crypto blob
  else if type = rsaTypeName then RSAPub crypto blob
  else if type ∈ ecdsaTypeNames then ECDSAPub crypto blob
  else throw ("KeyFactory: unknown public key type: " ++ text type)

/-- `PubKeyBase::verify(data, signature)` of each family: parse the signature blob, then
verify with Botan. -/
def PubKey.verify (pk : PubKey) (data signature : Bytes) : Except String Bool :=
  match pk.key with
  | .ed25519 a => eddsaVerify "ED25519Pub" ed25519TypeName "Ed25519" a
  | .ed448 a => eddsaVerify "ED448Pub" ed448TypeName "Ed448" a
  | .rsa e n => do
    let (sigType, sig) ← Deserializer.parse (do
      let t ← readString
      let s ← readBlob
      pure (t, s)) signature
    let alg ←
      if sigType = ascii "rsa-sha2-512" then pure "EMSA-PKCS1-v1_5(SHA-512)"
      else if sigType = ascii "rsa-sha2-256" then pure "EMSA-PKCS1-v1_5(SHA-256)"
      else if sigType = ascii "ssh-rsa" then pure "EMSA-PKCS1-v1_5(SHA-1)"
      else throw ("RSAPub: invalid signature type: " ++ text sigType)
    pure (crypto.verifyRaw alg [n, e] data [sig])
  | .ecdsa curve point => do
    let sigBlob ← Deserializer.parse (do
      let _ ← readString
      readBlob) signature
    let (r, s) ← Deserializer.parse (do
      let r ← readMPInt
      let s ← readMPInt
      pure (r, s)) sigBlob
    let alg := ((ecdsaCurve curve).map (·.2.2)).getD ""
    pure (crypto.verifyRaw alg [curve, point] data [r, s])
where
  eddsaVerify (cls : String) (typeName : Bytes) (alg : String) (a : Bytes) :
      Except String Bool := do
    let (sigType, sig) ← Deserializer.parse (do
      let t ← readString
      let s ← readString
      pure (t, s)) signature
    if sigType ≠ typeName then
      throw (cls ++ ": invalid signature type: " ++ text sigType)
    pure (crypto.verifyRaw alg [a] data [sig])

end Libssha
