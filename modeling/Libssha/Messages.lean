import Libssha.Key

/-!
# Message frames

The typed messages of `messages/` and the `session-bind@openssh.com` extension. Each
frame is `uint32 length ‖ type ‖ body`; a typed message is parsed from a `Message`, the
type byte and the whole buffer it was read from, by reading the header again and then
its body. A serializer writes the placeholder length 1, the type and the body, and
`finalize` patches the length (the simple messages and `ExtensionMessage` do not).
-/
namespace Libssha

open Deserializer Serializer

def SSH_AGENT_FAILURE : UInt8 := 5
def SSH_AGENT_SUCCESS : UInt8 := 6
def SSH_AGENTC_REMOVE_ALL_RSA_IDENTITIES : UInt8 := 9
def SSH_AGENTC_REQUEST_IDENTITIES : UInt8 := 11
def SSH_AGENT_IDENTITIES_ANSWER : UInt8 := 12
def SSH_AGENTC_SIGN_REQUEST : UInt8 := 13
def SSH_AGENT_SIGN_RESPONSE : UInt8 := 14
def SSH_AGENTC_ADD_IDENTITY : UInt8 := 17
def SSH_AGENTC_REMOVE_IDENTITY : UInt8 := 18
def SSH_AGENTC_REMOVE_ALL_IDENTITIES : UInt8 := 19
def SSH_AGENTC_LOCK : UInt8 := 22
def SSH_AGENTC_UNLOCK : UInt8 := 23
def SSH_AGENTC_ADD_IDENTITY_CONSTRAINED : UInt8 := 25
def SSH_AGENTC_EXTENSION : UInt8 := 27
def SSH_AGENT_EXTENSION_FAILURE : UInt8 := 28

def SSH_AGENT_CONSTRAIN_LIFETIME : UInt8 := 1
def SSH_AGENT_CONSTRAIN_CONFIRM : UInt8 := 2
def SSH_AGENT_CONSTRAIN_EXTENSION : UInt8 := 255

/-- A parsed frame header: its type byte and the buffer it was read from. -/
structure Message where
  type : UInt8
  data : Bytes
  deriving Repr, DecidableEq

namespace Message

/-- `Message::deserialize`: the length is read and discarded, then the type byte. -/
def readHeader : Reader UInt8 := do
  let _ ← readBE32
  readByte

/-- `Message(data, length)`. -/
def ofBytes (data : Bytes) : Except String Message := do
  let type ← Deserializer.parse readHeader data
  pure ⟨type, data⟩

/-- `Message::serialize(s)`: the placeholder length 1 and the type byte. -/
def writeHeader (type : UInt8) : Writer Unit := do
  writeBE32 1
  writeByte type

/-- `Message::serialize()` of a `SimpleMessage` (`SUCCESS`, `FAILURE`, ...): the header
alone, its length left at the placeholder. -/
def serializeSimple (type : UInt8) : Except String Bytes := Serializer.build (writeHeader type)

/-- The checks every typed constructor makes before parsing a `Message`. -/
def expect (msg : Message) (ok : UInt8 → Bool) (cls : String) : Except String Unit := do
  if !ok msg.type then throw (cls ++ ": incorrect message type")
  if msg.data.isEmpty then throw (cls ++ ": no data")

/-- Re-read the header of the message's buffer and check its type. -/
def readTypedHeader (ok : UInt8 → Bool) (err : String) : Reader UInt8 := do
  let type ← readHeader
  if !ok type then throw err
  pure type

end Message

structure SignRequestMessage where
  keyBlob : Bytes
  data : Bytes
  flags : UInt32
  deriving Repr, DecidableEq

namespace SignRequestMessage

def deserialize : Reader SignRequestMessage := do
  let _ ← Message.readTypedHeader (· == SSH_AGENTC_SIGN_REQUEST)
    "SignRequestMessage: incorrect message type"
  let keyBlob ← readBlob
  let data ← readBlob
  let flags ← readBE32
  pure ⟨keyBlob, data, flags⟩

def ofMessage (msg : Message) : Except String SignRequestMessage := do
  msg.expect (· == SSH_AGENTC_SIGN_REQUEST) "SignRequestMessage"
  Deserializer.parse deserialize msg.data

def serialize (m : SignRequestMessage) : Except String Bytes :=
  Serializer.build do
    Message.writeHeader SSH_AGENTC_SIGN_REQUEST
    writeBlob m.keyBlob
    writeBlob m.data
    writeBE32 m.flags
    finalize

end SignRequestMessage

structure SignResponseMessage where
  signature : Bytes
  deriving Repr, DecidableEq

namespace SignResponseMessage

def deserialize : Reader SignResponseMessage := do
  let _ ← Message.readTypedHeader (· == SSH_AGENT_SIGN_RESPONSE)
    "SignResponseMessage: incorrect message type"
  let signature ← readBlob
  pure ⟨signature⟩

def ofMessage (msg : Message) : Except String SignResponseMessage := do
  msg.expect (· == SSH_AGENT_SIGN_RESPONSE) "SignResponseMessage"
  Deserializer.parse deserialize msg.data

def serialize (m : SignResponseMessage) : Except String Bytes :=
  Serializer.build do
    Message.writeHeader SSH_AGENT_SIGN_RESPONSE
    writeBlob m.signature
    finalize

end SignResponseMessage

/-- `IdentitiesAnswerMessage`: `(key blob, comment)` pairs. -/
structure IdentitiesAnswerMessage where
  identities : List (Bytes × Bytes)
  deriving Repr, DecidableEq

namespace IdentitiesAnswerMessage

/-- The `count` iterations of the identity loop. -/
def readIdentities : Nat → Reader (List (Bytes × Bytes))
  | 0 => pure []
  | n + 1 => do
    let blob ← readBlob
    let comment ← readString
    let rest ← readIdentities n
    pure ((blob, comment) :: rest)

def deserialize : Reader IdentitiesAnswerMessage := do
  let _ ← Message.readTypedHeader (· == SSH_AGENT_IDENTITIES_ANSWER)
    "IdentitiesAnswerMessage: incorrect message type"
  if (← get).remaining < 4 then throw "IdentitiesAnswerMessage: not enough data for count"
  let count ← readBE32
  let identities ← readIdentities count.toNat
  pure ⟨identities⟩

def ofMessage (msg : Message) : Except String IdentitiesAnswerMessage := do
  if msg.type != SSH_AGENT_IDENTITIES_ANSWER then
    throw "IdentitiesAnswerMessage: incorrect message type"
  if msg.data.isEmpty then throw "AddIdentityMessage: no data"
  Deserializer.parse deserialize msg.data

def serialize (m : IdentitiesAnswerMessage) : Except String Bytes :=
  Serializer.build do
    Message.writeHeader SSH_AGENT_IDENTITIES_ANSWER
    writeBE32 (UInt32.ofNat m.identities.length)
    m.identities.forM fun (blob, comment) => do
      writeBlob blob
      writeString comment
    finalize

end IdentitiesAnswerMessage

structure RemoveIdentityMessage where
  keyBlob : Bytes
  deriving Repr, DecidableEq

namespace RemoveIdentityMessage

def deserialize : Reader RemoveIdentityMessage := do
  let _ ← Message.readTypedHeader (· == SSH_AGENTC_REMOVE_IDENTITY)
    "RemoveIdentityMessage: incorrect message type"
  let keyBlob ← readBlob
  pure ⟨keyBlob⟩

def ofMessage (msg : Message) : Except String RemoveIdentityMessage := do
  msg.expect (· == SSH_AGENTC_REMOVE_IDENTITY) "RemoveIdentityMessage"
  Deserializer.parse deserialize msg.data

def serialize (m : RemoveIdentityMessage) : Except String Bytes :=
  Serializer.build do
    Message.writeHeader SSH_AGENTC_REMOVE_IDENTITY
    writeBlob m.keyBlob
    finalize

end RemoveIdentityMessage

/-- `LockMessageBase<msg_type>`: `LockMessage` for `msgType = 22`, `UnlockMessage` for 23. -/
structure LockMessageBase (msgType : UInt8) where
  password : Bytes
  deriving Repr, DecidableEq

namespace LockMessageBase

variable {msgType : UInt8}

def deserialize : Reader (LockMessageBase msgType) := do
  let _ ← Message.readTypedHeader (· == msgType) "LockMessage: incorrect message type"
  let password ← readBlobSecure
  pure ⟨password⟩

def ofMessage (msg : Message) : Except String (LockMessageBase msgType) := do
  msg.expect (· == msgType) "LockMessage"
  Deserializer.parse deserialize msg.data

def serialize (m : LockMessageBase msgType) : Except String Bytes :=
  Serializer.build do
    Message.writeHeader msgType
    writeSecureBlob m.password
    finalize

end LockMessageBase

abbrev LockMessage := LockMessageBase SSH_AGENTC_LOCK
abbrev UnlockMessage := LockMessageBase SSH_AGENTC_UNLOCK

/-- The `session-bind@openssh.com` message extension. -/
structure OpenSSHSessionBind where
  hostKey : Bytes
  sessionId : Bytes
  signature : Bytes
  forwarded : Bool
  deriving Repr, DecidableEq

namespace OpenSSHSessionBind

def extName : Bytes := ascii "session-bind@openssh.com"

def serialize (b : OpenSSHSessionBind) : Writer Unit := do
  writeBlob b.hostKey
  writeBlob b.sessionId
  writeBlob b.signature
  writeByte (if b.forwarded then 1 else 0)

variable (crypto : Crypto)

/-- `deserialize`: the four fields, then the host key is parsed into a public key and a
non-empty signature must verify over the session id. -/
def deserialize : Reader OpenSSHSessionBind := do
  let hostKey ← readBlob
  let sessionId ← readBlob
  let signature ← readBlob
  let forwarded ← readByte
  let keyType ← Deserializer.parse (do
    let t ← readString
    let _ ← readBlob
    pure t) hostKey
  let pubkey ← createPubKey crypto keyType hostKey
  if !signature.isEmpty then
    let _ ← Deserializer.parse (do
      let _ ← readString
      readBlob) signature
    if !(← pubkey.verify crypto sessionId signature) then
      throw "OpenSSHSessionBind: signature verification failed"
  pure ⟨hostKey, sessionId, signature, forwarded ≠ 0⟩

end OpenSSHSessionBind

namespace ExtensionFactory

/-- `createMessageExtension(name)`: the decoder of the registered message extension. -/
def createMessageExtension (crypto : Crypto) (name : Bytes) :
    Except String (Reader OpenSSHSessionBind) :=
  if name = OpenSSHSessionBind.extName then pure (OpenSSHSessionBind.deserialize crypto)
  else throw ("ExtensionFactory: unknown message extension: " ++ text name)

/-- `createConstraintExtension(name)`: the decoder of the registered constraint extension. -/
def createConstraintExtension (name : Bytes) :
    Except String (Reader OpenSSHSRestrictDestination) :=
  if name = OpenSSHSRestrictDestination.extName then pure OpenSSHSRestrictDestination.deserialize
  else throw ("ExtensionFactory: unknown constraint extension: " ++ text name)

end ExtensionFactory

structure ExtensionMessage where
  extensionName : Bytes
  extension : Option OpenSSHSessionBind
  deriving Repr, DecidableEq

namespace ExtensionMessage

variable (crypto : Crypto)

/-- The header and the extension name. -/
def readName : Reader Bytes := do
  let _ ← Message.readHeader
  readString

def deserialize : Reader ExtensionMessage := do
  let name ← readName
  let decoder ← ExtensionFactory.createMessageExtension crypto name
  let ext ← decoder
  pure ⟨name, some ext⟩

def ofMessage (msg : Message) : Except String ExtensionMessage := do
  msg.expect (· == SSH_AGENTC_EXTENSION) "ExtensionMessage"
  Deserializer.parse (deserialize crypto) msg.data

/-- `serialize`: the name and the extension's body, with no `finalize`. -/
def serialize (m : ExtensionMessage) : Except String Bytes :=
  Serializer.build do
    Message.writeHeader SSH_AGENTC_EXTENSION
    writeString m.extensionName
    match m.extension with
    | some ext => ext.serialize
    | none => pure ()

end ExtensionMessage

structure AddIdentityMessage where
  type : UInt8
  keyType : Bytes
  keyBlob : Bytes
  keyComment : Bytes
  confirmRequired : Bool
  lifetime : UInt32
  extension : Option OpenSSHSRestrictDestination
  deriving Repr, DecidableEq

namespace AddIdentityMessage

/-- The constraints of `ADD_IDENTITY_CONSTRAINED`, read while bytes remain; each round
reads a tag byte. -/
def readConstraints : Nat → AddIdentityMessage → Reader AddIdentityMessage
  | 0, m => pure m
  | fuel + 1, m => do
    if (← get).remaining > 0 then
      let constr ← readByte
      if constr = SSH_AGENT_CONSTRAIN_CONFIRM then
        readConstraints fuel { m with confirmRequired := true }
      else if constr = SSH_AGENT_CONSTRAIN_LIFETIME then
        let lifetime ← readBE32
        readConstraints fuel { m with lifetime := lifetime }
      else if constr = SSH_AGENT_CONSTRAIN_EXTENSION then
        let extType ← readString
        let decoder ← ExtensionFactory.createConstraintExtension extType
        let ext ← decoder
        readConstraints fuel { m with extension := some ext }
      else throw ("AddIdentityMessage: unknown constraint type " ++ toString constr.toNat)
    else pure m

def deserialize : Reader AddIdentityMessage := do
  let type ← Message.readTypedHeader
    (fun t => t == SSH_AGENTC_ADD_IDENTITY || t == SSH_AGENTC_ADD_IDENTITY_CONSTRAINED)
    "AddIdentityMessage: incorrect message type"
  let keyType ← readString
  let start := (← get).offset
  KeyFactory.skipKeyBlob keyType
  let d ← get
  let keyBlob ← d.sliceSecure start d.offset
  let comment ← readString
  let m : AddIdentityMessage := ⟨type, keyType, keyBlob, comment, false, 0, none⟩
  if type = SSH_AGENTC_ADD_IDENTITY_CONSTRAINED then readConstraints (← get).remaining m
  else pure m

def ofMessage (msg : Message) : Except String AddIdentityMessage := do
  msg.expect (fun t => t == SSH_AGENTC_ADD_IDENTITY || t == SSH_AGENTC_ADD_IDENTITY_CONSTRAINED)
    "AddIdentityMessage"
  Deserializer.parse deserialize msg.data

/-- `serialize`: the key, the comment, and for `ADD_IDENTITY_CONSTRAINED` the confirm and
lifetime constraints. The constraint extension is not written. -/
def serialize (m : AddIdentityMessage) : Except String Bytes :=
  Serializer.build do
    Message.writeHeader m.type
    writeString m.keyType
    writeRaw m.keyBlob
    writeString m.keyComment
    if m.type = SSH_AGENTC_ADD_IDENTITY_CONSTRAINED then
      if m.confirmRequired then writeByte SSH_AGENT_CONSTRAIN_CONFIRM
      if m.lifetime > 0 then
        writeByte SSH_AGENT_CONSTRAIN_LIFETIME
        writeBE32 m.lifetime
    finalize

end AddIdentityMessage

structure UserAuthRequestMessage where
  sessionId : Bytes
  username : Bytes
  keyType : Bytes
  publicKey : Bytes
  serverHostKey : Bytes
  deriving Repr, DecidableEq

namespace UserAuthRequestMessage

def SSH_MSG_USERAUTH_REQUEST : UInt8 := 50

/-- `UserAuthRequestMessage(data)`: only a `publickey-hostbound-v00@openssh.com` request
for `ssh-connection` carrying a signature is accepted. -/
def ofBytes (data : Bytes) : Except String UserAuthRequestMessage :=
  Deserializer.parse (do
    let sessionId ← readBlob
    if sessionId.isEmpty then throw "UserAuthRequestMessage: empty session ID"
    let msgType ← readByte
    if msgType ≠ SSH_MSG_USERAUTH_REQUEST then
      throw "UserAuthRequestMessage: incorrect message type"
    let username ← readString
    let serviceName ← readString
    let methodName ← readString
    let hasSignature ← readByte
    if serviceName ≠ ascii "ssh-connection" ||
        methodName ≠ ascii "publickey-hostbound-v00@openssh.com" || hasSignature = 0 then
      throw "UserAuthRequestMessage: unsupported service/method/signature"
    let keyType ← readString
    let publicKey ← readBlob
    let serverHostKey ← readBlob
    pure ⟨sessionId, username, keyType, publicKey, serverHostKey⟩) data

end UserAuthRequestMessage

end Libssha
