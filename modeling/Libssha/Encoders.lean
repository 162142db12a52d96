import Libssha.Messages
import Libssha.CodecLaws

/-!
# The frames the encoders emit

A frame on the wire is `uint32 length ‖ type ‖ body`, the length counting the bytes after
it. Every typed `serialize` writes the header with the placeholder length 1, appends its
body and lets `finalize` patch the length: what it returns is the `frame` of the body it
wrote (one `serialize_isFrame` lemma per message, which names the body), and every frame
that fits the budget is well formed. A `SimpleMessage` is the header alone, whose
placeholder is its true length. `ExtensionMessage::serialize` never calls `finalize`, so
every extension frame it returns keeps the length 1 while its name and body follow.
-/
namespace Libssha

open Serializer

/-- A well-formed agent frame of type `type`: a `uint32_t` equal to the number of bytes
after it, then the type byte. -/
def WellFormedFrame (type : UInt8) (bytes : Bytes) : Prop :=
  (getBE32 bytes).toNat + 4 = bytes.length ∧ (bytes.drop 4).head? = some type

instance (type : UInt8) (bytes : Bytes) : Decidable (WellFormedFrame type bytes) :=
  inferInstanceAs (Decidable (_ ∧ _))

/-- What an encoder may put on the wire: a well-formed frame within the serializer's budget. -/
def FrameInBudget (type : UInt8) (bytes : Bytes) : Prop :=
  WellFormedFrame type bytes ∧ bytes.length ≤ MAX_SERIALIZED_SIZE

instance (type : UInt8) (bytes : Bytes) : Decidable (FrameInBudget type bytes) :=
  inferInstanceAs (Decidable (_ ∧ _))

theorem appends_writeHeader (type : UInt8) :
    Appends (Message.writeHeader type) (be32 1 ++ [type]) :=
  (appends_writeBE32 1).bind (appends_writeByte type)

namespace Message

/-- The frame `finalize` leaves for a header of type `type` and the body after it. -/
def frame (type : UInt8) (body : Bytes) : Bytes :=
  be32 (UInt32.ofNat (body.length + 1)) ++ type :: body

/-- `bytes` is the frame of `body`, and the frame fitted the serializer's budget. -/
structure IsFrame (bytes : Bytes) (type : UInt8) (body : Bytes) : Prop where
  eq : bytes = frame type body
  fits : body.length + 5 ≤ MAX_SERIALIZED_SIZE

/-- An appending write of a header and a body, then `finalize`: what it returns is the frame
of the body. -/
theorem isFrame_of_build {w : Writer Unit} {type : UInt8} {body bytes : Bytes}
    (hw : Appends w (be32 1 ++ type :: body)) (hb : build (w >>= fun _ => finalize) = .ok bytes) :
    IsFrame bytes type body := by
  rw [hw.build_finalize] at hb
  split_ifs at hb with h₁ h₂
  cases hb
  simp only [List.length_append, length_be32, List.length_cons] at h₁ h₂ ⊢
  refine ⟨?_, by omega⟩
  simp only [frame, show 4 + (body.length + 1) - 4 = body.length + 1 by omega]
  rfl

theorem IsFrame.wellFormed {bytes body : Bytes} {type : UInt8} (h : IsFrame bytes type body) :
    WellFormedFrame type bytes := by
  obtain ⟨rfl, hfit⟩ := h
  refine ⟨?_, rfl⟩
  simp only [frame, getBE32_be32_append, List.length_append, length_be32, List.length_cons]
  rw [toNat_ofNat_of_le_max (by omega)]
  omega

theorem IsFrame.inBudget {bytes body : Bytes} {type : UInt8} (h : IsFrame bytes type body) :
    FrameInBudget type bytes := by
  refine ⟨h.wellFormed, ?_⟩
  obtain ⟨rfl, hfit⟩ := h
  simp only [frame, List.length_append, length_be32, List.length_cons]
  omega

end Message

open Message

/-- A `SimpleMessage` (SUCCESS, FAILURE, EXTENSION_FAILURE, ...) is a well-formed frame of
five bytes. -/
theorem serializeSimple_inBudget (type : UInt8) :
    ∃ bytes, Message.serializeSimple type = .ok bytes ∧ FrameInBudget type bytes :=
  ⟨be32 1 ++ [type], rfl, by simp only [WellFormedFrame, getBE32_be32_append]; exact ⟨rfl, rfl⟩,
    by simp only [List.length_append, length_be32, List.length_singleton]; decide⟩

theorem SignRequestMessage.serialize_isFrame {m : SignRequestMessage} {bytes : Bytes}
    (h : m.serialize = .ok bytes) : IsFrame bytes SSH_AGENTC_SIGN_REQUEST
      (blobEncoding m.keyBlob ++ (blobEncoding m.data ++ be32 m.flags)) := by
  simp only [serialize, ← bind_assoc] at h
  have hw := (((appends_writeHeader SSH_AGENTC_SIGN_REQUEST).bind
    (appends_writeBlob m.keyBlob)).bind (appends_writeBlob m.data)).bind (appends_writeBE32 m.flags)
  simp only [List.append_assoc, List.singleton_append, List.cons_append] at hw
  exact isFrame_of_build hw h

theorem SignResponseMessage.serialize_isFrame {m : SignResponseMessage} {bytes : Bytes}
    (h : m.serialize = .ok bytes) :
    IsFrame bytes SSH_AGENT_SIGN_RESPONSE (blobEncoding m.signature) := by
  simp only [serialize, ← bind_assoc] at h
  have hw := (appends_writeHeader SSH_AGENT_SIGN_RESPONSE).bind (appends_writeBlob m.signature)
  simp only [List.append_assoc, List.singleton_append] at hw
  exact isFrame_of_build hw h

namespace IdentitiesAnswerMessage

/-- The identity entries as `serialize` writes them: `blob key ‖ string comment` each. -/
def identitiesEncoding (ids : List (Bytes × Bytes)) : Bytes :=
  ids.flatMap fun p => blobEncoding p.1 ++ blobEncoding p.2

theorem appends_writeIdentities (ids : List (Bytes × Bytes)) :
    Appends (ids.forM fun (blob, comment) => do writeBlob blob; writeString comment)
      (identitiesEncoding ids) :=
  Appends.forM _ _ (fun _ => (appends_writeBlob _).bind (appends_writeString _)) ids

theorem serialize_isFrame {m : IdentitiesAnswerMessage} {bytes : Bytes}
    (h : m.serialize = .ok bytes) : IsFrame bytes SSH_AGENT_IDENTITIES_ANSWER
      (be32 (UInt32.ofNat m.identities.length) ++ identitiesEncoding m.identities) := by
  simp only [serialize, ← bind_assoc] at h
  have hw := ((appends_writeHeader SSH_AGENT_IDENTITIES_ANSWER).bind
    (appends_writeBE32 (UInt32.ofNat m.identities.length))).bind
    (appends_writeIdentities m.identities)
  simp only [List.append_assoc, List.singleton_append, List.cons_append, List.nil_append] at hw
  exact isFrame_of_build hw h

end IdentitiesAnswerMessage

theorem RemoveIdentityMessage.serialize_isFrame {m : RemoveIdentityMessage} {bytes : Bytes}
    (h : m.serialize = .ok bytes) :
    IsFrame bytes SSH_AGENTC_REMOVE_IDENTITY (blobEncoding m.keyBlob) := by
  simp only [serialize, ← bind_assoc] at h
  have hw := (appends_writeHeader SSH_AGENTC_REMOVE_IDENTITY).bind (appends_writeBlob m.keyBlob)
  simp only [List.append_assoc, List.singleton_append] at hw
  exact isFrame_of_build hw h

theorem LockMessageBase.serialize_isFrame {msgType : UInt8} {m : LockMessageBase msgType}
    {bytes : Bytes} (h : m.serialize = .ok bytes) :
    IsFrame bytes msgType (blobEncoding m.password) := by
  simp only [serialize, ← bind_assoc] at h
  have hw := (appends_writeHeader msgType).bind (appends_writeSecureBlob m.password)
  simp only [List.append_assoc, List.singleton_append] at hw
  exact isFrame_of_build hw h

namespace AddIdentityMessage

/-- The constraint records `serialize` writes after the comment. -/
def constraintsEncoding (m : AddIdentityMessage) : Bytes :=
  if m.type = SSH_AGENTC_ADD_IDENTITY_CONSTRAINED then
    (if m.confirmRequired then [SSH_AGENT_CONSTRAIN_CONFIRM] else []) ++
      (if m.lifetime > 0 then SSH_AGENT_CONSTRAIN_LIFETIME :: be32 m.lifetime else [])
  else []

/-- What `serialize` writes after the header: the key type, the key blob as it is, the
comment, the constraints. -/
def bodyEncoding (m : AddIdentityMessage) : Bytes :=
  blobEncoding m.keyType ++ (m.keyBlob ++ (blobEncoding m.keyComment ++ constraintsEncoding m))

theorem serialize_isFrame {m : AddIdentityMessage} {bytes : Bytes}
    (h : m.serialize = .ok bytes) : IsFrame bytes m.type (bodyEncoding m) := by
  have key : ∀ {w : Writer Unit} {enc : Bytes}, Appends w enc →
      enc = be32 1 ++ m.type :: bodyEncoding m → build (w >>= fun _ => finalize) = .ok bytes →
      IsFrame bytes m.type (bodyEncoding m) := by
    rintro w _ hw rfl hb
    exact isFrame_of_build hw hb
  simp only [serialize] at h
  have hpre := ((((appends_writeHeader m.type).bind (appends_writeString m.keyType)).bind
    (appends_writeRaw m.keyBlob)).bind (appends_writeString m.keyComment))
  split_ifs at h with hC hconf hl hl <;> simp only [← bind_assoc] at h
  · exact key (((hpre.bind (appends_writeByte _)).bind (appends_writeByte _)).bind
      (appends_writeBE32 _)) (by simp [bodyEncoding, constraintsEncoding, hC, hconf, hl]) h
  · exact key ((hpre.bind (appends_writeByte _)).bind Appends.pure)
      (by simp [bodyEncoding, constraintsEncoding, hC, hconf, hl]) h
  · exact key (((hpre.bind Appends.pure).bind (appends_writeByte _)).bind
      (appends_writeBE32 _)) (by simp [bodyEncoding, constraintsEncoding, hC, hconf, hl]) h
  · exact key ((hpre.bind Appends.pure).bind Appends.pure)
      (by simp [bodyEncoding, constraintsEncoding, hC, hconf, hl]) h
  · exact key (hpre.bind Appends.pure) (by simp [bodyEncoding, constraintsEncoding, hC]) h

end AddIdentityMessage

/-- Every encoder but the extension's: what `serialize` returns is a well-formed frame of
the message's type, within the serializer's budget. -/
theorem encoders_emit_well_formed_frames :
    (∀ type : UInt8, ∃ bytes, Message.serializeSimple type = .ok bytes ∧
      FrameInBudget type bytes) ∧
    (∀ (m : SignRequestMessage) bytes, m.serialize = .ok bytes →
      FrameInBudget SSH_AGENTC_SIGN_REQUEST bytes) ∧
    (∀ (m : SignResponseMessage) bytes, m.serialize = .ok bytes →
      FrameInBudget SSH_AGENT_SIGN_RESPONSE bytes) ∧
    (∀ (m : IdentitiesAnswerMessage) bytes, m.serialize = .ok bytes →
      FrameInBudget SSH_AGENT_IDENTITIES_ANSWER bytes) ∧
    (∀ (m : RemoveIdentityMessage) bytes, m.serialize = .ok bytes →
      FrameInBudget SSH_AGENTC_REMOVE_IDENTITY bytes) ∧
    (∀ (m : LockMessage) bytes, m.serialize = .ok bytes → FrameInBudget SSH_AGENTC_LOCK bytes) ∧
    (∀ (m : UnlockMessage) bytes, m.serialize = .ok bytes →
      FrameInBudget SSH_AGENTC_UNLOCK bytes) ∧
    (∀ (m : AddIdentityMessage) bytes, m.serialize = .ok bytes → FrameInBudget m.type bytes) :=
  ⟨serializeSimple_inBudget, fun _ _ h => (SignRequestMessage.serialize_isFrame h).inBudget,
    fun _ _ h => (SignResponseMessage.serialize_isFrame h).inBudget,
    fun _ _ h => (IdentitiesAnswerMessage.serialize_isFrame h).inBudget,
    fun _ _ h => (RemoveIdentityMessage.serialize_isFrame h).inBudget,
    fun _ _ h => (LockMessageBase.serialize_isFrame h).inBudget,
    fun _ _ h => (LockMessageBase.serialize_isFrame h).inBudget,
    fun _ _ h => (AddIdentityMessage.serialize_isFrame h).inBudget⟩

/-- `ExtensionMessage::serialize` on a fresh serializer: the header, the name, and the
extension's body if it has one, with the placeholder length left in place. -/
theorem ExtensionMessage.serialize_eq (m : ExtensionMessage) :
    ∃ body, m.serialize = (if (be32 1 ++ [SSH_AGENTC_EXTENSION] ++ (blobEncoding m.extensionName ++
      body)).length > MAX_SERIALIZED_SIZE then .error "Serializer: message too large"
      else .ok (be32 1 ++ [SSH_AGENTC_EXTENSION] ++ (blobEncoding m.extensionName ++ body))) := by
  rcases m with ⟨name, _ | ext⟩
  · exact ⟨_, ((appends_writeHeader _).bind ((appends_writeString _).bind Appends.pure)).build_eq⟩
  · exact ⟨_, ((appends_writeHeader _).bind ((appends_writeString _).bind
      ((appends_writeBlob _).bind ((appends_writeBlob _).bind
        ((appends_writeBlob _).bind (appends_writeByte _)))))).build_eq⟩

/-- Every frame `ExtensionMessage::serialize` returns keeps the placeholder length 1, while
the extension name alone puts at least four more bytes after the type byte: the frame is
never well formed. -/
theorem ExtensionMessage.serialize_keeps_placeholder_length {m : ExtensionMessage}
    {bytes : Bytes} (h : m.serialize = .ok bytes) :
    getBE32 bytes = 1 ∧ ¬WellFormedFrame SSH_AGENTC_EXTENSION bytes := by
  obtain ⟨body, hser⟩ := m.serialize_eq
  rw [hser] at h
  split_ifs at h
  cases h
  rw [List.append_assoc, getBE32_be32_append]
  refine ⟨rfl, fun hw => ?_⟩
  have hlen := hw.1
  simp only [getBE32_be32_append, List.length_append, length_be32, length_blobEncoding,
    List.length_singleton] at hlen
  have hone : (1 : UInt32).toNat = 1 := rfl
  omega

theorem ExtensionMessage.serialize_keeps_placeholder_length_sessionBind :
    ∃ bytes, ({ extensionName := OpenSSHSessionBind.extName, extension := none } :
        ExtensionMessage).serialize = .ok bytes ∧
      getBE32 bytes = 1 ∧ ¬WellFormedFrame SSH_AGENTC_EXTENSION bytes :=
  ⟨_, rfl, @ExtensionMessage.serialize_keeps_placeholder_length
    ⟨OpenSSHSessionBind.extName, none⟩ _ rfl⟩

end Libssha
