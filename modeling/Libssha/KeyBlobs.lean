import Libssha.Key
import Libssha.CodecLaws

/-!
# Private-key blobs and EdDSA public keys

Two readings of a key's wire form. `AddIdentityMessage::deserialize` does not parse the
private-key blob: it asks the family's `skipBlob` where the blob ends, slices it out and
reads the comment after it; the family's constructor parses the slice later, and
`extractPub` reads its leading fields. For every family the skip goes exactly as far as the
constructor's reads, field for field, so the slice holds every field the constructor reads.

The EdDSA public-key constructors read the key field of `string(type) ‖ string(key)` with
`readMPInt`, whose leading-zero rule is meant for integers: a key that starts with a zero
byte followed by a byte with its top bit set reaches the Botan constructor one byte short,
on the path `addKey` takes through `Ed25519Key`/`Ed448Key` as on the path a session-bind
host key takes through `createPubKey`.
-/
namespace Libssha

open Deserializer Serializer

section Fields

/-- `readMPInt` reads a length-prefixed field; only its value differs from the bytes. -/
theorem discardBlob_sameExtent_readMPInt : SameExtent discardBlob readMPInt :=
  (discardBlob_sameExtent _).bind_pure _

theorem determined_readMPInt : Determined readMPInt :=
  (determined_readPrefixed _).bind fun _ => Determined.pure _

theorem determined_eddsaFields : Determined eddsaFields :=
  (determined_readPrefixed _).bind fun _ =>
    (determined_readPrefixed _).bind fun _ => Determined.pure _

theorem determined_rsaFields : Determined rsaFields :=
  determined_readMPInt.bind fun _ => determined_readMPInt.bind fun _ =>
    determined_readMPInt.bind fun _ =>
      ((determined_readPrefixed _).bind fun _ => Determined.pure _).bind fun _ =>
        determined_readMPInt.bind fun _ => determined_readMPInt.bind fun _ => Determined.pure _

theorem determined_ecdsaFields : Determined ecdsaFields :=
  (determined_readPrefixed _).bind fun _ => (determined_readPrefixed _).bind fun _ =>
    determined_readMPInt.bind fun _ => Determined.pure _

/-- A family's skip against its constructor and its `extractPub`: the skip succeeds exactly
where the constructor's reads do and stops where they stop; the slice it delimits is read
by the constructor whole, with the same values; and `extractPub` reads the constructor's
leading fields. -/
def SkipAgrees {α β : Type} (skip : Reader Unit) (fields : Reader α) (pubFields : Reader β)
    (lead : α → β) : Prop :=
  ∀ d d' : Deserializer, (skip.run d = .ok ((), d') ↔ ∃ v, fields.run d = .ok (v, d')) ∧
    ∀ v, fields.run d = .ok (v, d') →
      fields.run (ofBytes ((d.data.take d'.offset).drop d.offset)) =
        .ok (v, ⟨(d.data.take d'.offset).drop d.offset,
          ((d.data.take d'.offset).drop d.offset).length⟩) ∧
      ∃ d'', pubFields.run d = .ok (lead v, d'')

theorem skipAgrees_of {α β : Type} {skip : Reader Unit} {fields : Reader α}
    {pubFields : Reader β} {lead : α → β} (hext : SameExtent skip fields)
    (hdet : Determined fields)
    (hpub : ∀ d v d', fields.run d = .ok (v, d') → ∃ d'', pubFields.run d = .ok (lead v, d'')) :
    SkipAgrees skip fields pubFields lead := by
  refine fun d d' => ⟨?_, fun v hv => ⟨hdet.run_slice hv, hpub d v d' hv⟩⟩
  rw [← hext d d']
  exact ⟨fun h => ⟨(), h⟩, fun ⟨(), h⟩ => h⟩

theorem eddsa_skipAgrees : SkipAgrees eddsaSkipBlob eddsaFields readBlob Prod.fst := by
  refine skipAgrees_of ((discardBlob_sameExtent _).bind fun _ _ =>
    (discardBlob_sameExtent _).bind_pure _) determined_eddsaFields ?_
  intro d v d' h
  obtain ⟨p, d₁, hp, hrest⟩ := run_bind_eq_ok.mp h
  obtain ⟨s, d₂, -, hpure⟩ := run_bind_eq_ok.mp hrest
  cases hpure
  exact ⟨d₁, hp⟩

theorem rsa_skipAgrees :
    SkipAgrees RsaKey.skipBlob rsaFields rsaPubFields fun v => (v.1, v.2.1) := by
  have hm := discardBlob_sameExtent_readMPInt
  refine skipAgrees_of (hm.bind fun _ _ => hm.bind fun _ _ => hm.bind fun _ _ =>
    (SameExtent.refl _).bind fun _ _ => hm.bind fun _ _ => hm.bind_pure _)
    determined_rsaFields ?_
  intro d v d' h
  obtain ⟨n, d₁, hn, h⟩ := run_bind_eq_ok.mp h
  obtain ⟨e, d₂, he, h⟩ := run_bind_eq_ok.mp h
  obtain ⟨_, _, -, h⟩ := run_bind_eq_ok.mp h
  obtain ⟨_, _, -, h⟩ := run_bind_eq_ok.mp h
  obtain ⟨_, _, -, h⟩ := run_bind_eq_ok.mp h
  obtain ⟨_, _, -, h⟩ := run_bind_eq_ok.mp h
  cases h
  exact ⟨d₂, run_bind_eq_ok.mpr ⟨n, d₁, hn, run_bind_eq_ok.mpr ⟨e, d₂, he, rfl⟩⟩⟩

theorem ecdsa_skipAgrees (typeName : Bytes) :
    SkipAgrees (ECDSAKey typeName).skipBlob ecdsaFields ecdsaPubFields fun v => (v.1, v.2.1) := by
  refine skipAgrees_of ((discardBlob_sameExtent _).bind fun _ _ =>
    (discardBlob_sameExtent _).bind fun _ _ => discardBlob_sameExtent_readMPInt.bind_pure _)
    determined_ecdsaFields ?_
  intro d v d' h
  obtain ⟨c, d₁, hc, h⟩ := run_bind_eq_ok.mp h
  obtain ⟨p, d₂, hp, h⟩ := run_bind_eq_ok.mp h
  obtain ⟨_, _, -, h⟩ := run_bind_eq_ok.mp h
  cases h
  exact ⟨d₂, run_bind_eq_ok.mpr ⟨c, d₁, hc, run_bind_eq_ok.mpr ⟨p, d₂, hp, rfl⟩⟩⟩

theorem readsAs_discardBlob {x : Bytes} (hx : x.length < UInt32.size) :
    ReadsAs discardBlob (blobEncoding x) () :=
  (readsAs_readPrefixed _ hx).bind_pure

/-- An EdDSA private-key blob, `string(pub) ‖ string(priv)`, is read whole by the skip. -/
theorem readsAs_eddsaSkipBlob {pub priv : Bytes} (hp : pub.length < UInt32.size)
    (hk : priv.length < UInt32.size) :
    ReadsAs eddsaSkipBlob (blobEncoding pub ++ blobEncoding priv) () :=
  (readsAs_discardBlob hp).bind (readsAs_discardBlob hk)

/-- Every registered private-key family: `skipBlob` succeeds exactly where the family's
constructor reads its fields and ends where they end, the slice `AddIdentityMessage`
hands to `createKey` holds every field the constructor reads, with the values read in
place, and `extractPub` reads the constructor's leading fields. -/
theorem skipBlob_consumes_constructor_fields :
    SkipAgrees Ed25519Key.skipBlob eddsaFields readBlob Prod.fst ∧
    SkipAgrees Ed448Key.skipBlob eddsaFields readBlob Prod.fst ∧
    SkipAgrees RsaKey.skipBlob rsaFields rsaPubFields (fun v => (v.1, v.2.1)) ∧
    ∀ typeName ∈ ecdsaTypeNames,
      SkipAgrees (ECDSAKey typeName).skipBlob ecdsaFields ecdsaPubFields fun v => (v.1, v.2.1) :=
  ⟨eddsa_skipAgrees, eddsa_skipAgrees, rsa_skipAgrees, fun t _ => ecdsa_skipAgrees t⟩

end Fields

section EdDSA

variable (crypto : Crypto)

/-- The public-key blob `string(type) ‖ string(key)` of an EdDSA family. -/
def eddsaPubBlob (typeName key : Bytes) : Bytes := blobEncoding typeName ++ blobEncoding key

/-- `ED25519Pub` and `ED448Pub` hand the Botan constructor the key field as `readMPInt`
returns it. -/
theorem eddsaPub_eq (cls : String) (typeName : Bytes) (alg : String) (mk : Bytes → PubKeyData)
    {key : Bytes} (htype : typeName.length < UInt32.size) (hkey : key.length < UInt32.size) :
    eddsaPub crypto cls typeName alg mk (eddsaPubBlob typeName key) =
      (crypto.build alg [stripMPInt key] >>= fun _ =>
        pure ⟨eddsaPubBlob typeName key, mk (stripMPInt key)⟩) := by
  have h₀ : (ofBytes (eddsaPubBlob typeName key)).rest =
      blobEncoding typeName ++ blobEncoding key := rfl
  simp only [eddsaPub, Deserializer.parse, run_bind, readString, readBlob_of_rest h₀ htype,
    ne_eq, not_true_eq_false, ite_false, pure_bind,
    readMPInt_of_rest ((rest_advance h₀).trans (List.append_nil _).symm) hkey]
  rfl

/-- `Ed25519Key`/`Ed448Key` on a private blob `blob(pub) ‖ blob(priv)`: after the private
key, the family's public-key class parses the blob `string(type) ‖ string(pub)`. -/
theorem eddsaCreate_eq (family : KeyFamily) (typeName : Bytes) (privAlg : String)
    (pubOf : Bytes → Except String PubKey) {pub priv : Bytes} (comment : Bytes)
    (hfit : typeName.length + pub.length + 8 ≤ MAX_SERIALIZED_SIZE)
    (hpriv : priv.length < UInt32.size) :
    eddsaCreate crypto family typeName privAlg pubOf (blobEncoding pub ++ blobEncoding priv)
        comment =
      (do
        crypto.build privAlg [priv]
        let pk ← pubOf (eddsaPubBlob typeName pub)
        pure (Key.fresh family comment pk (blobEncoding pub ++ blobEncoding priv))) := by
  have hsize := max_lt_uint32Size
  have h₀ : (ofBytes (blobEncoding pub ++ blobEncoding priv)).rest =
      blobEncoding pub ++ blobEncoding priv := rfl
  have hparse : Deserializer.parse eddsaFields (blobEncoding pub ++ blobEncoding priv) =
      .ok (pub, priv) := by
    simp only [eddsaFields, Deserializer.parse, run_bind, readBlob_of_rest h₀ (by omega),
      readBlobSecure, readPrefixed_of_rest _ ((rest_advance h₀).trans (List.append_nil _).symm)
        hpriv]
    rfl
  have hbuild := ((appends_writeString typeName).bind (appends_writeBlob pub)).build_eq
  simp only [List.length_append, length_blobEncoding] at hbuild
  rw [if_neg (by omega)] at hbuild
  have hok : ∀ {α β : Type} (a : α) (f : α → Except String β), (Except.ok a >>= f) = f a :=
    fun _ _ => rfl
  rw [eddsaCreate, hparse, hok]
  dsimp only
  rw [hbuild]
  rfl

/-- A key field that starts with a zero byte followed by a byte with its top bit set: the
EdDSA public-key classes pass Botan the field without its first byte, whether the blob
comes from a session-bind host key or from the public blob `Ed25519Key` builds when a
private key is added. -/
theorem eddsaPub_strips_leading_zero {b : UInt8} {rest : Bytes} (hb : b &&& 0x80 ≠ 0)
    (hlen : rest.length + 2 < UInt32.size) :
    ED25519Pub crypto (eddsaPubBlob ed25519TypeName (0 :: b :: rest)) =
      (crypto.build "Ed25519_PublicKey" [b :: rest] >>= fun _ =>
        pure ⟨eddsaPubBlob ed25519TypeName (0 :: b :: rest), .ed25519 (b :: rest)⟩) ∧
    ED448Pub crypto (eddsaPubBlob ed448TypeName (0 :: b :: rest)) =
      (crypto.build "Ed448_PublicKey" [b :: rest] >>= fun _ =>
        pure ⟨eddsaPubBlob ed448TypeName (0 :: b :: rest), .ed448 (b :: rest)⟩) := by
  have hstrip : stripMPInt (0 :: b :: rest) = b :: rest := by
    rw [stripMPInt_zero_cons, if_pos hb]
  constructor
  · rw [ED25519Pub, eddsaPub_eq crypto _ _ _ _ (by decide) (by simpa using hlen), hstrip]
  · rw [ED448Pub, eddsaPub_eq crypto _ _ _ _ (by decide) (by simpa using hlen), hstrip]

end EdDSA

/-- A 32-byte Ed25519 public key whose first byte is zero and whose second has the top bit
set. -/
def leadingZeroKey : Bytes := 0 :: 0x80 :: List.replicate 30 1

theorem eddsaPub_strips_leading_zero_key :
    (0x80 : UInt8) &&& 0x80 ≠ 0 ∧ (List.replicate 30 (1 : UInt8)).length + 2 < UInt32.size ∧
      (ED25519Pub Crypto.symbolic (eddsaPubBlob ed25519TypeName leadingZeroKey) =
        (Crypto.symbolic.build "Ed25519_PublicKey" [0x80 :: List.replicate 30 1] >>= fun _ =>
          pure ⟨eddsaPubBlob ed25519TypeName leadingZeroKey,
            .ed25519 (0x80 :: List.replicate 30 1)⟩) ∧
      ED448Pub Crypto.symbolic (eddsaPubBlob ed448TypeName leadingZeroKey) =
        (Crypto.symbolic.build "Ed448_PublicKey" [0x80 :: List.replicate 30 1] >>= fun _ =>
          pure ⟨eddsaPubBlob ed448TypeName leadingZeroKey,
            .ed448 (0x80 :: List.replicate 30 1)⟩)) :=
  ⟨by decide, by decide, eddsaPub_strips_leading_zero Crypto.symbolic (by decide) (by decide)⟩

section PubBlob

variable (crypto : Crypto)

/-- Whether a key's type name is the one its curve names: always, but for an ECDSA key added
under another curve's type. -/
def Key.typeMatchesCurve (k : Key) : Bool :=
  match k.family with
  | .ecdsa typeName curve => (ecdsaCurve curve).map Prod.fst == some typeName
  | _ => true

theorem parse_eq_ok {α : Type} {r : Reader α} {data : Bytes} {v : α} :
    Deserializer.parse r data = .ok v ↔ ∃ d, r.run (ofBytes data) = .ok (v, d) := by
  unfold Deserializer.parse
  rcases r.run (ofBytes data) with _ | ⟨v', d⟩ <;> simp [Except.map]

/-- What the constructor's reads return, `extractPub`'s reads return in front. -/
theorem SkipAgrees.parse_lead {α β : Type} {skip : Reader Unit} {fields : Reader α}
    {pubFields : Reader β} {lead : α → β} (h : SkipAgrees skip fields pubFields lead)
    {data : Bytes} {v : α} (hv : Deserializer.parse fields data = .ok v) :
    Deserializer.parse pubFields data = .ok (lead v) := by
  obtain ⟨d', hd⟩ := parse_eq_ok.mp hv
  obtain ⟨d'', hd''⟩ := ((h (ofBytes data) d').2 v hd).2
  exact parse_eq_ok.mpr ⟨d'', hd''⟩

theorem blobEncoding_inj {a b : Bytes} (h : blobEncoding a = blobEncoding b) : a = b := by
  simpa only [blobEncoding, List.drop_left' (length_be32 _)] using congrArg (List.drop 4) h

/-- Each public-key class keeps the blob it was built from. -/
theorem eddsaPub_blob {cls : String} {typeName : Bytes} {alg : String} {mk : Bytes → PubKeyData}
    {blob : Bytes} {pk : PubKey} (h : eddsaPub crypto cls typeName alg mk blob = .ok pk) :
    pk.blob = blob := by
  obtain ⟨_, -, h⟩ := except_bind_eq_ok.mp h
  obtain ⟨_, -, h⟩ := except_bind_eq_ok.mp h
  cases h
  rfl

theorem RSAPub_blob {blob : Bytes} {pk : PubKey} (h : RSAPub crypto blob = .ok pk) :
    pk.blob = blob := by
  obtain ⟨_, -, h⟩ := except_bind_eq_ok.mp h
  obtain ⟨_, -, h⟩ := except_bind_eq_ok.mp h
  cases h
  rfl

theorem ECDSAPub_blob {blob : Bytes} {pk : PubKey} (h : ECDSAPub crypto blob = .ok pk) :
    pk.blob = blob := by
  obtain ⟨⟨_, _⟩, -, h⟩ := except_bind_eq_ok.mp h
  dsimp only at h
  split at h
  · cases h
  · obtain ⟨_, -, h⟩ := except_bind_eq_ok.mp h
    cases h
    rfl

theorem eddsaCreate_pubBlob {family : KeyFamily} {typeName : Bytes} {privAlg : String}
    {pubOf : Bytes → Except String PubKey} (hpub : ∀ b pk, pubOf b = .ok pk → pk.blob = b)
    {blob comment p : Bytes} {k : Key} (hx : eddsaExtractPub typeName blob = .ok p)
    (hc : eddsaCreate crypto family typeName privAlg pubOf blob comment = .ok k) :
    k.pubBlob = p ∧ k.family = family := by
  obtain ⟨⟨pd, priv⟩, hf, hc⟩ := except_bind_eq_ok.mp hc
  obtain ⟨_, -, hc⟩ := except_bind_eq_ok.mp hc
  obtain ⟨b, hb, hc⟩ := except_bind_eq_ok.mp hc
  obtain ⟨pk, hpk, hc⟩ := except_bind_eq_ok.mp hc
  cases hc
  obtain ⟨pd', hpd, hx⟩ := except_bind_eq_ok.mp hx
  cases (eddsa_skipAgrees.parse_lead hf).symm.trans hpd
  exact ⟨(hpub b pk hpk).trans (Except.ok.inj (hb.symm.trans hx)), rfl⟩

theorem rsaCreate_pubBlob {blob comment p : Bytes} {k : Key} (hx : RsaKey.extractPub blob = .ok p)
    (hc : RsaKey.create crypto blob comment = .ok k) : k.pubBlob = p ∧ k.family = .rsa := by
  obtain ⟨⟨n, e, d, q₁, q₂⟩, hf, hc⟩ := except_bind_eq_ok.mp hc
  obtain ⟨_, -, hc⟩ := except_bind_eq_ok.mp hc
  obtain ⟨b, hb, hc⟩ := except_bind_eq_ok.mp hc
  obtain ⟨pk, hpk, hc⟩ := except_bind_eq_ok.mp hc
  cases hc
  obtain ⟨⟨n', e'⟩, hpd, hx⟩ := except_bind_eq_ok.mp hx
  cases (rsa_skipAgrees.parse_lead hf).symm.trans hpd
  exact ⟨(RSAPub_blob crypto hpk).trans (Except.ok.inj (hb.symm.trans hx)), rfl⟩

theorem build_ecdsaPubBlob {typeName curve pubData b : Bytes}
    (h : Serializer.build (do writeString typeName; writeString curve; writeBlob pubData) = .ok b) :
    b = blobEncoding typeName ++ (blobEncoding curve ++ blobEncoding pubData) := by
  rw [((appends_writeString _).bind ((appends_writeString _).bind (appends_writeBlob _))).build_eq]
    at h
  split at h
  · cases h
  · exact (Except.ok.inj h).symm

/-- An ECDSA key's stored blob names its declared type, `extractPub`'s the curve's. -/
theorem ecdsaCreate_pubBlob {typeName blob comment p : Bytes} {k : Key}
    (hx : ecdsaExtractPub blob = .ok p) (hc : ecdsaCreate crypto typeName blob comment = .ok k) :
    k.pubBlob = p ↔ k.typeMatchesCurve = true := by
  obtain ⟨⟨curve, pd, priv⟩, hf, hc⟩ := except_bind_eq_ok.mp hc
  obtain ⟨⟨curve', pd'⟩, hpd, hx⟩ := except_bind_eq_ok.mp hx
  cases ((ecdsa_skipAgrees typeName).parse_lead hf).symm.trans hpd
  cases hcur : ecdsaCurve curve with
  | none => simp only [hcur] at hc; cases hc
  | some names =>
    obtain ⟨tn, botan, scheme⟩ := names
    simp only [hcur] at hc hx
    split at hc
    · cases hc
    · obtain ⟨_, -, hc⟩ := except_bind_eq_ok.mp hc
      obtain ⟨b, hb, hc⟩ := except_bind_eq_ok.mp hc
      obtain ⟨pk, hpk, hc⟩ := except_bind_eq_ok.mp hc
      cases hc
      show pk.blob = p ↔ ((ecdsaCurve curve).map Prod.fst == some typeName) = true
      rw [ECDSAPub_blob crypto hpk, hcur, build_ecdsaPubBlob hb, build_ecdsaPubBlob hx,
        List.append_left_inj]
      simp only [Option.map_some', beq_iff_eq, Option.some.injEq]
      exact ⟨fun h => (blobEncoding_inj h).symm, fun h => h ▸ rfl⟩

/-- `KeyManager::addKey` erases a stored key under the blob `KeyFactory::extractPubKey`
returns and stores the new key under the blob its public key was built from. The two agree
exactly for the keys whose type name is their curve's: every key but an ECDSA key added
under another curve's type. -/
theorem KeyFactory.pubBlob_eq_extractPubKey_iff {type blob comment p : Bytes} {k : Key}
    (hx : KeyFactory.extractPubKey type blob = .ok p)
    (hc : KeyFactory.createKey crypto type blob comment = .ok k) :
    k.pubBlob = p ↔ k.typeMatchesCurve = true := by
  unfold KeyFactory.extractPubKey at hx
  unfold KeyFactory.createKey at hc
  cases ht : findKeyType type with
  | none => rw [ht] at hx; cases hx
  | some t =>
    rw [ht] at hx hc
    have hmem := List.mem_of_find?_eq_some ht
    simp only [keyTypes, List.mem_append, List.mem_cons, List.mem_map, List.not_mem_nil,
      or_false] at hmem
    rcases hmem with (rfl | rfl | rfl) | ⟨n, -, rfl⟩
    · have h := eddsaCreate_pubBlob crypto (fun _ _ => eddsaPub_blob crypto) hx hc
      exact iff_of_true h.1 (by rw [Key.typeMatchesCurve, h.2])
    · have h := eddsaCreate_pubBlob crypto (fun _ _ => eddsaPub_blob crypto) hx hc
      exact iff_of_true h.1 (by rw [Key.typeMatchesCurve, h.2])
    · have h := rsaCreate_pubBlob crypto hx hc
      exact iff_of_true h.1 (by rw [Key.typeMatchesCurve, h.2])
    · exact ecdsaCreate_pubBlob crypto hx hc

end PubBlob

end Libssha
