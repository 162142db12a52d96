import Libssha.KeyBlobs
import Libssha.Encoders
import Libssha.DestinationCodec

/-!
# Message round trips

`decode(encode(m))` for the messages of the agent protocol. `finalize` turns the header and
body an encoder appended into a `frame`, and the typed constructor checks the frame's type,
re-reads its header and reads the body back field by field: every sign request and response,
identities answer, remove-identity, lock and unlock message decodes to itself from whatever
its `serialize` returns.

`AddIdentityMessage::deserialize` does not parse the key blob; it lets the family's skip
find its end and slices it out. A message decodes to itself when the skip reads its key blob
whole and `serialize` writes everything it holds (`Canonical`): `serialize` writes the key,
the comment, and for `ADD_IDENTITY_CONSTRAINED` the confirm and lifetime constraints, but no
constraint extension, while `deserialize` reads one when it is there, so a
`restrict-destination-v00@openssh.com` constraint does not survive the round trip.
-/
namespace Libssha

open Deserializer Serializer

namespace Message

theorem readsAs_readHeader (v : UInt32) (type : UInt8) :
    ReadsAs readHeader (be32 v ++ [type]) type :=
  (readsAs_readBE32 v).bind (readsAs_readByte type)

theorem ofBytes_frame (type : UInt8) (body : Bytes) :
    ofBytes (frame type body) = .ok ⟨type, frame type body⟩ := by
  have h := readsAs_readHeader (UInt32.ofNat (body.length + 1)) type
    (Deserializer.ofBytes (frame type body)) body
    (by simp [frame, Deserializer.rest, Deserializer.ofBytes])
  simp only [ofBytes, Deserializer.parse, h]
  rfl

theorem ofBytes_frame_bind {α : Type} (type : UInt8) (body : Bytes)
    (f : Message → Except String α) : (ofBytes (frame type body) >>= f) = f ⟨type, frame type body⟩ := by
  rw [ofBytes_frame]
  rfl

theorem readsAs_readTypedHeader {ok : UInt8 → Bool} {type : UInt8} (hok : ok type = true)
    (err : String) (v : UInt32) : ReadsAs (readTypedHeader ok err) (be32 v ++ [type]) type := by
  intro e post he
  rw [readTypedHeader, Deserializer.run_bind, readsAs_readHeader v type e post he]
  simp only [hok, Bool.not_true, Bool.false_eq_true, ite_false]
  rfl

theorem parse_frame {α : Type} {ok : UInt8 → Bool} {type : UInt8} (hok : ok type = true)
    (err : String) {f : UInt8 → Reader α} {body : Bytes} {v : α} (hr : ReadsAll (f type) body v) :
    Deserializer.parse (readTypedHeader ok err >>= f) (frame type body) = .ok v := by
  have h := ((readsAs_readTypedHeader hok err (UInt32.ofNat (body.length + 1))).bind_readsAll
    hr).parse
  simpa only [List.append_assoc, List.singleton_append] using h

/-- A frame decodes through a typed constructor that checks its type with `expect` and then
re-reads its header and the body. -/
theorem decode_expect {α : Type} {ok : UInt8 → Bool} {type : UInt8} (hok : ok type = true)
    (cls err : String) {f : UInt8 → Reader α} {body : Bytes} {v : α}
    (hr : ReadsAll (f type) body v) :
    (ofBytes (frame type body) >>= fun msg => do
      msg.expect ok cls
      Deserializer.parse (readTypedHeader ok err >>= f) msg.data) = .ok v := by
  have hexp : expect ⟨type, frame type body⟩ ok cls = .ok () := by
    simp only [expect, hok, Bool.not_true, Bool.false_eq_true, ite_false]
    rfl
  rw [ofBytes_frame_bind]
  show (do expect ⟨type, frame type body⟩ ok cls; Deserializer.parse _ (frame type body)) = _
  rw [hexp]
  exact parse_frame hok err hr

end Message

/-- A sign request decodes from whatever its `serialize` returns. -/
theorem SignRequestMessage.ofMessage_serialize {m : SignRequestMessage} {bytes : Bytes}
    (h : m.serialize = .ok bytes) : (Message.ofBytes bytes >>= ofMessage) = .ok m := by
  have hmax := max_lt_uint32Size
  obtain ⟨rfl, hfit⟩ := serialize_isFrame h
  simp only [List.length_append, length_blobEncoding, length_be32] at hfit
  exact Message.decode_expect (by decide) _ _
    ((readsAs_readPrefixed _ (by omega)).bind_readsAll ((readsAs_readPrefixed _ (by omega)).bind_readsAll
      (readsAs_readBE32 m.flags).readsAll_bind_pure))

theorem SignResponseMessage.ofMessage_serialize {m : SignResponseMessage} {bytes : Bytes}
    (h : m.serialize = .ok bytes) : (Message.ofBytes bytes >>= ofMessage) = .ok m := by
  have hmax := max_lt_uint32Size
  obtain ⟨rfl, hfit⟩ := serialize_isFrame h
  simp only [length_blobEncoding, length_be32] at hfit
  exact Message.decode_expect (by decide) _ _
    (readsAs_readPrefixed _ (by omega)).readsAll_bind_pure

theorem RemoveIdentityMessage.ofMessage_serialize {m : RemoveIdentityMessage} {bytes : Bytes}
    (h : m.serialize = .ok bytes) : (Message.ofBytes bytes >>= ofMessage) = .ok m := by
  have hmax := max_lt_uint32Size
  obtain ⟨rfl, hfit⟩ := serialize_isFrame h
  simp only [length_blobEncoding, length_be32] at hfit
  exact Message.decode_expect (by decide) _ _
    (readsAs_readPrefixed _ (by omega)).readsAll_bind_pure

theorem LockMessageBase.ofMessage_serialize {msgType : UInt8} {m : LockMessageBase msgType}
    {bytes : Bytes} (h : m.serialize = .ok bytes) :
    (Message.ofBytes bytes >>= ofMessage) = .ok m := by
  have hmax := max_lt_uint32Size
  obtain ⟨rfl, hfit⟩ := serialize_isFrame h
  simp only [length_blobEncoding, length_be32] at hfit
  exact @Message.decode_expect _ (· == msgType) msgType (beq_self_eq_true msgType) _ _ _ _ _
    (readsAs_readPrefixed _ (by omega)).readsAll_bind_pure

namespace IdentitiesAnswerMessage

theorem readsAs_readIdentities (ids : List (Bytes × Bytes))
    (hfit : (identitiesEncoding ids).length ≤ MAX_SERIALIZED_SIZE) :
    ReadsAs (readIdentities ids.length) (identitiesEncoding ids) ids := by
  have hmax := max_lt_uint32Size
  induction ids with
  | nil => exact readsAs_pure []
  | cons p ids ih =>
    simp only [identitiesEncoding, List.flatMap_cons, List.length_append, length_blobEncoding]
      at hfit ih ⊢
    rw [List.append_assoc]
    exact (readsAs_readPrefixed _ (by omega)).bind ((readsAs_readPrefixed _ (by omega)).bind
      (ih (by omega)).bind_pure)

/-- `IdentitiesAnswerMessage(const Message&)` makes its own checks of the type and the
buffer, with the text of `AddIdentityMessage` for an empty one; a frame of its type passes
both. -/
theorem ofMessage_frame (body : Bytes) :
    ofMessage ⟨SSH_AGENT_IDENTITIES_ANSWER, Message.frame SSH_AGENT_IDENTITIES_ANSWER body⟩ =
      Deserializer.parse deserialize (Message.frame SSH_AGENT_IDENTITIES_ANSWER body) := by
  have hne : (Message.frame SSH_AGENT_IDENTITIES_ANSWER body).isEmpty = false := rfl
  simp only [ofMessage, bne_self_eq_false, Bool.false_eq_true, ite_false, hne, pure_bind]

theorem ofMessage_serialize {m : IdentitiesAnswerMessage} {bytes : Bytes}
    (h : m.serialize = .ok bytes) : (Message.ofBytes bytes >>= ofMessage) = .ok m := by
  have hmax := max_lt_uint32Size
  obtain ⟨rfl, hfit⟩ := serialize_isFrame h
  have hlen : m.identities.length ≤ (identitiesEncoding m.identities).length :=
    length_le_length_flatMap_of_pos (fun _ => by
      simp only [List.length_append, length_blobEncoding]; omega) _
  simp only [List.length_append, length_be32] at hfit
  rw [Message.ofBytes_frame_bind, ofMessage_frame]
  refine Message.parse_frame rfl _ (readsAs_unless_remaining_lt
    (by simp only [List.length_append, length_be32]; omega) ((readsAs_readBE32 _).bind ?_)).readsAll
  rw [toNat_ofNat_of_le_max (by omega)]
  exact (readsAs_readIdentities _ (by omega)).bind_pure

end IdentitiesAnswerMessage

namespace AddIdentityMessage

/-- The messages `serialize` writes without loss: an `ADD_IDENTITY` with no constraints or
an `ADD_IDENTITY_CONSTRAINED` with any confirm flag and lifetime, and no extension. -/
def Canonical (m : AddIdentityMessage) : Prop :=
  (m.type = SSH_AGENTC_ADD_IDENTITY ∧ m.confirmRequired = false ∧ m.lifetime = 0 ∨
    m.type = SSH_AGENTC_ADD_IDENTITY_CONSTRAINED) ∧ m.extension = none

instance (m : AddIdentityMessage) : Decidable m.Canonical := inferInstanceAs (Decidable (_ ∧ _))

/-- The message `deserialize` builds before it reads the constraints. -/
def unconstrained (m : AddIdentityMessage) : AddIdentityMessage :=
  ⟨m.type, m.keyType, m.keyBlob, m.keyComment, false, 0, none⟩

theorem readsAll_readConstraints_nil (fuel : Nat) (m : AddIdentityMessage) :
    ReadsAll (readConstraints fuel m) [] m := by
  intro e he
  cases fuel with
  | zero => rfl
  | succ fuel =>
    have hrem : e.remaining = 0 := by rw [remaining_eq_length_rest, he]; rfl
    show StateT.run (if e.remaining > 0 then _ else _) e = _
    rw [if_neg (by omega)]
    rfl

theorem readsAll_readConstraints_confirm {fuel : Nat} {m m' : AddIdentityMessage} {c : Bytes}
    (h : ReadsAll (readConstraints fuel { m with confirmRequired := true }) c m') :
    ReadsAll (readConstraints (fuel + 1) m) (SSH_AGENT_CONSTRAIN_CONFIRM :: c) m' := by
  intro e he
  have hrem : e.remaining > 0 := by rw [remaining_eq_length_rest, he]; simp
  show StateT.run (if e.remaining > 0 then _ else _) e = _
  have h₁ := @rest_advance e [_] c he
  simp only [List.length_singleton] at h₁
  rw [if_pos hrem, Deserializer.run_bind, readByte_of_rest he]
  dsimp only
  rw [if_pos rfl, h _ h₁, List.length_cons, Nat.add_comm c.length, Nat.add_assoc]

theorem readsAll_readConstraints_lifetime {fuel : Nat} {m m' : AddIdentityMessage} {v : UInt32}
    {c : Bytes} (h : ReadsAll (readConstraints fuel { m with lifetime := v }) c m') :
    ReadsAll (readConstraints (fuel + 1) m) (SSH_AGENT_CONSTRAIN_LIFETIME :: (be32 v ++ c)) m' := by
  intro e he
  have hrem : e.remaining > 0 := by rw [remaining_eq_length_rest, he]; simp
  have h₁ := @rest_advance e [_] (be32 v ++ c) he
  simp only [List.length_singleton] at h₁
  show StateT.run (if e.remaining > 0 then _ else _) e = _
  rw [if_pos hrem, Deserializer.run_bind, readByte_of_rest he]
  dsimp only
  rw [if_neg (by decide), if_pos rfl, Deserializer.run_bind, readBE32_of_rest h₁]
  dsimp only
  have h₂ := rest_advance h₁
  simp only [length_be32] at h₂
  rw [h _ h₂]
  simp only [List.length_cons, List.length_append, length_be32]
  rw [show e.offset + 1 + 4 + c.length = e.offset + (4 + c.length + 1) by omega]

theorem readsAll_readConstraints_remaining {m m' : AddIdentityMessage} {c : Bytes}
    (h : ReadsAll (readConstraints c.length m) c m') :
    ReadsAll (do readConstraints (← get).remaining m) c m' := by
  intro e he
  show (readConstraints e.remaining m).run e = _
  rw [remaining_eq_length_rest, he]
  exact h e he

theorem readsAll_constraints {m : AddIdentityMessage} (hc : m.Canonical) :
    ReadsAll (if m.type = SSH_AGENTC_ADD_IDENTITY_CONSTRAINED then
        (do readConstraints (← get).remaining (unconstrained m)) else pure (unconstrained m))
      (constraintsEncoding m) m := by
  rcases m with ⟨type, keyType, keyBlob, comment, confirm, lifetime, ext⟩
  obtain ⟨hty, rfl⟩ := hc
  rcases hty with ⟨rfl, rfl, rfl⟩ | rfl
  · simp only [constraintsEncoding,
      if_neg (by decide : SSH_AGENTC_ADD_IDENTITY ≠ SSH_AGENTC_ADD_IDENTITY_CONSTRAINED)]
    exact (readsAs_pure _).readsAll
  · simp only [constraintsEncoding, if_true]
    refine readsAll_readConstraints_remaining ?_
    by_cases hl : lifetime > 0
    · rw [if_pos hl, ← List.append_nil (be32 lifetime)]
      cases confirm
      · exact readsAll_readConstraints_lifetime (readsAll_readConstraints_nil _ _)
      · exact readsAll_readConstraints_confirm
          (readsAll_readConstraints_lifetime (readsAll_readConstraints_nil _ _))
    · obtain rfl := uint32_eq_zero_of_not_pos hl
      rw [if_neg hl, List.append_nil]
      cases confirm
      · exact readsAll_readConstraints_nil _ _
      · exact readsAll_readConstraints_confirm (readsAll_readConstraints_nil _ _)

/-- Every canonical message whose key blob its family's skip reads whole decodes to itself
from whatever its `serialize` returns. -/
theorem ofMessage_serialize {m : AddIdentityMessage} {bytes : Bytes} (hc : m.Canonical)
    (hskip : ReadsAs (KeyFactory.skipKeyBlob m.keyType) m.keyBlob ())
    (h : m.serialize = .ok bytes) : (Message.ofBytes bytes >>= ofMessage) = .ok m := by
  have hmax := max_lt_uint32Size
  obtain ⟨rfl, hfit⟩ := serialize_isFrame h
  simp only [bodyEncoding, List.length_append, length_blobEncoding] at hfit
  have hok : (m.type == SSH_AGENTC_ADD_IDENTITY || m.type == SSH_AGENTC_ADD_IDENTITY_CONSTRAINED) =
      true := by
    rcases hc.1 with ⟨ht, -⟩ | ht <;> rw [ht] <;> rfl
  exact Message.decode_expect hok _ _ ((readsAs_readPrefixed _ (by omega)).bind_readsAll
    (readsAll_skip_slice hskip (List.ne_nil_of_length_pos (by
      simp only [List.length_append, length_blobEncoding]; omega))
      ((readsAs_readPrefixed _ (by omega)).bind_readsAll (readsAll_constraints hc))))

/-- An Ed25519 key with its two fields, confirmation and a 30 s lifetime. -/
example : ∀ bytes, (⟨SSH_AGENTC_ADD_IDENTITY_CONSTRAINED, ed25519TypeName,
      blobEncoding [7] ++ blobEncoding [8], ascii "k1", true, 30, none⟩ :
      AddIdentityMessage).serialize = .ok bytes →
    (Message.ofBytes bytes >>= ofMessage) = .ok ⟨SSH_AGENTC_ADD_IDENTITY_CONSTRAINED,
      ed25519TypeName, blobEncoding [7] ++ blobEncoding [8], ascii "k1", true, 30, none⟩ :=
  fun _ => ofMessage_serialize (by decide) (readsAs_eddsaSkipBlob (by decide) (by decide))

end AddIdentityMessage

/-- `decode(encode(m)) = m` for every message of the protocol that carries data: each
decodes through its typed constructor from whatever its `serialize` returns, an add-identity
message when it is canonical and the skip reads its key blob whole. -/
theorem messages_round_trip :
    (∀ (m : SignRequestMessage) bytes, m.serialize = .ok bytes →
      (Message.ofBytes bytes >>= SignRequestMessage.ofMessage) = .ok m) ∧
    (∀ (m : SignResponseMessage) bytes, m.serialize = .ok bytes →
      (Message.ofBytes bytes >>= SignResponseMessage.ofMessage) = .ok m) ∧
    (∀ (m : IdentitiesAnswerMessage) bytes, m.serialize = .ok bytes →
      (Message.ofBytes bytes >>= IdentitiesAnswerMessage.ofMessage) = .ok m) ∧
    (∀ (m : RemoveIdentityMessage) bytes, m.serialize = .ok bytes →
      (Message.ofBytes bytes >>= RemoveIdentityMessage.ofMessage) = .ok m) ∧
    (∀ (m : LockMessage) bytes, m.serialize = .ok bytes →
      (Message.ofBytes bytes >>= LockMessageBase.ofMessage) = .ok m) ∧
    (∀ (m : UnlockMessage) bytes, m.serialize = .ok bytes →
      (Message.ofBytes bytes >>= LockMessageBase.ofMessage) = .ok m) ∧
    (∀ (m : AddIdentityMessage) bytes, m.Canonical →
      ReadsAs (KeyFactory.skipKeyBlob m.keyType) m.keyBlob () → m.serialize = .ok bytes →
      (Message.ofBytes bytes >>= AddIdentityMessage.ofMessage) = .ok m) :=
  ⟨fun _ _ => SignRequestMessage.ofMessage_serialize,
    fun _ _ => SignResponseMessage.ofMessage_serialize,
    fun _ _ => IdentitiesAnswerMessage.ofMessage_serialize,
    fun _ _ => RemoveIdentityMessage.ofMessage_serialize,
    fun _ _ => LockMessageBase.ofMessage_serialize, fun _ _ => LockMessageBase.ofMessage_serialize,
    fun _ _ => AddIdentityMessage.ofMessage_serialize⟩

/-- An `ADD_IDENTITY_CONSTRAINED` for an Ed25519 key with every constraint: confirmation, a
30 s lifetime, and a destination constraint to the host `example.com`. -/
def constrainedAddIdentity : AddIdentityMessage :=
  ⟨SSH_AGENTC_ADD_IDENTITY_CONSTRAINED, ed25519TypeName, [0, 0, 0, 1, 7, 0, 0, 0, 1, 8],
    ascii "k1", true, 30,
    some ⟨[⟨⟨[], [], []⟩, ⟨[], ascii "example.com", [⟨ascii "HK", false⟩]⟩⟩]⟩⟩

/-- What `serialize` writes for it: no constraint extension after the lifetime. -/
def constrainedAddIdentityBytes : Bytes :=
  [0, 0, 0, 38, 25, 0, 0, 0, 11] ++ ed25519TypeName ++ [0, 0, 0, 1, 7, 0, 0, 0, 1, 8] ++
    [0, 0, 0, 2] ++ ascii "k1" ++ [2, 1, 0, 0, 0, 30]

/-- The message decodes from its encoding to itself without the extension. -/
theorem addIdentity_round_trip_drops_extension :
    ∃ bs, constrainedAddIdentity.serialize = .ok bs ∧
      (Message.ofBytes bs >>= AddIdentityMessage.ofMessage) =
        .ok { constrainedAddIdentity with extension := none } ∧
      { constrainedAddIdentity with extension := none } ≠ constrainedAddIdentity :=
  ⟨constrainedAddIdentityBytes, by decide, by decide,
    fun h => nomatch congrArg AddIdentityMessage.extension h⟩

end Libssha
