import Libssha.Framing
import Libssha.Locking
import Libssha.RoundTrip

/-!
# Requests end to end

What a request does from the bytes a client's encoder returns to the reply the client
decodes. The frame of a `serialize` is read whole by `Message(data, length)`, passes the
lock gate of `processReal`, and reaches its handler, whose typed constructor returns the
client's message: a store request runs its operation on it, a SIGN_REQUEST for a key
without destination constraints or confirmation is answered with the key's signature, and
a REQUEST_IDENTITIES with the keys the session may see. The theorems take the session's
worker slots free and the session synchronous, as `Framing` shows what happens otherwise;
`Signing` treats the keys with destination constraints.
-/
namespace Libssha

open Message

/-- What `serialize` returned is read as one message of its type, whose buffer is the
frame. -/
theorem ofBytes_of_isFrame {bytes body : Bytes} {type : UInt8} (h : IsFrame bytes type body) :
    Message.ofBytes bytes = .ok ⟨type, bytes⟩ := by
  obtain ⟨rfl, -⟩ := h
  exact ofBytes_frame type body

/-- A typed constructor that decodes the client's message from its bytes decodes it from the
message `processReal` hands on. -/
theorem ofMessage_of_round_trip {α : Type} {ofMessage : Message → Except String α}
    {bytes body : Bytes} {type : UInt8} {m : α} (hf : IsFrame bytes type body)
    (hr : (Message.ofBytes bytes >>= ofMessage) = .ok m) : ofMessage ⟨type, bytes⟩ = .ok m := by
  rwa [ofBytes_of_isFrame hf] at hr

namespace Session

/-- The public blob of an Ed25519 key with key field `[7]`. -/
def signerBlob : Bytes := [0, 0, 0, 11] ++ ed25519TypeName ++ [0, 0, 0, 1, 7]

/-- An agent whose store, unlocked and with a lock provider, holds that key with material
`[8]` and no constraint, in a fresh synchronous session. -/
def signerAgent : Agent :=
  ⟨{ (KeyManager.init 0).setLockProvider with
      keys := [Key.fresh .ed25519 [] ⟨signerBlob, .ed25519 [7]⟩ [0, 0, 0, 1, 7, 0, 0, 0, 1, 8]]
      nextSerial := 1 },
    { Session.init with asyncOperation := false }, []⟩

variable {crypto : Crypto} {emb : Embedder} (a : Agent) (now : Int)

/-- A store request a client encoded, read whole through the lock gate: the store operation
runs on the client's message. -/
theorem processReal_keyRequest {α : Type} {parse : Message → Except String α}
    {op : α → EStateM Fault KeyManager Unit} {bytes body : Bytes} {type : UInt8} {m : α}
    (hf : IsFrame bytes type body) (hgate : a.keys.locked = false ∨ type = SSH_AGENTC_UNLOCK)
    (hd : dispatch crypto emb now ⟨type, bytes⟩ = processKeyRequest parse op ⟨type, bytes⟩)
    (hp : (Message.ofBytes bytes >>= parse) = .ok m) :
    (processReal crypto emb now bytes).run a = keyRequestReply a ((op m).run a.keys) := by
  rw [processReal_run_of_gate a now (ofBytes_of_isFrame hf) hgate, hd, processKeyRequest_run,
    ofMessage_of_round_trip hf hp]

/-- A remove-identity request a client encoded removes, on an unlocked store, the first key
with the blob it names, and is answered SUCCESS. -/
theorem processReal_removeIdentity {m : RemoveIdentityMessage} {bytes : Bytes}
    (h : m.serialize = .ok bytes) (hl : a.keys.locked = false) :
    (processReal crypto emb now bytes).run a =
      .ok true { a with
        keys := { a.keys with keys := KeyManager.eraseKey a.keys.keys m.keyBlob }
        sent := a.sent ++ [simpleReply SSH_AGENT_SUCCESS] } := by
  rw [processReal_keyRequest a now (RemoveIdentityMessage.serialize_isFrame h) (.inl hl)
    (by rw [dispatch]; rfl) (RemoveIdentityMessage.ofMessage_serialize h)]
  rfl

/-- Removing the stored key empties the store. -/
theorem processReal_removeIdentity_signer :
    (processReal Crypto.symbolic Embedder.plain 0 ([0, 0, 0, 25, 18, 0, 0, 0, 20] ++ signerBlob)).run
        signerAgent =
      .ok true { signerAgent with
        keys := { signerAgent.keys with keys := KeyManager.eraseKey signerAgent.keys.keys signerBlob }
        sent := signerAgent.sent ++ [simpleReply SSH_AGENT_SUCCESS] } :=
  @processReal_removeIdentity Crypto.symbolic Embedder.plain signerAgent 0 ⟨signerBlob⟩ _ rfl rfl

/-- The sign worker, for a stored key without destination constraints whose signature needs
no confirmation or gets it: the one reply is the key's signature of the data under the
request's flags. -/
theorem processSignRequest_run_signs {msg : Message} {sm : SignRequestMessage} {key : Key}
    {sig resp : Bytes} (hsm : SignRequestMessage.ofMessage msg = .ok sm)
    (hkey : a.keys.getKey sm.keyBlob = some key) (hc : key.destConstraints = [])
    (hconf : ((key.confirmRequired || emb.requiresConfirmation key) && !emb.confirmRequest key) =
      false)
    (hsig : key.sign crypto sm.data sm.flags = .ok sig)
    (hresp : SignResponseMessage.serialize ⟨sig⟩ = .ok resp) :
    (processSignRequest crypto emb msg).run a =
      .ok true { a with
        session := { a.session with matchInfo := MatchInfo.empty }
        sent := a.sent ++ [resp] } := by
  rw [processSignRequest, catchFailure_run]
  simp only [estateRun_eq, bind, EStateM.bind, hsm, liftExcept_ok, pure, EStateM.pure, get,
    getThe, MonadStateOf.get, EStateM.get, hkey, hc, List.isEmpty_nil, Bool.not_true,
    Bool.false_eq_true, ↓reduceIte, hconf, hsig, liftFault, hresp]
  rfl

/-- A sign request a client encoded, on an unlocked store with the session's confirmation
slot free, for a stored key without destination constraints whose signature needs no
confirmation or gets it: the store is left as it was, and the one reply decodes, at the
client, to the key's signature of the data under the request's flags. -/
theorem processReal_signRequest {m : SignRequestMessage} {bytes : Bytes} {key : Key}
    {sig resp : Bytes} (h : m.serialize = .ok bytes) (hl : a.keys.locked = false)
    (hw : a.session.waitingForConfirmation = false) (ht : a.session.confirmationThread = false)
    (hkey : a.keys.getKey m.keyBlob = some key) (hc : key.destConstraints = [])
    (hconf : ((key.confirmRequired || emb.requiresConfirmation key) && !emb.confirmRequest key) =
      false)
    (hsig : key.sign crypto m.data m.flags = .ok sig)
    (hresp : SignResponseMessage.serialize ⟨sig⟩ = .ok resp) :
    ∃ a', (processReal crypto emb now bytes).run a = .ok true a' ∧ a'.keys = a.keys ∧
      a'.sent = a.sent ++ [resp] ∧
      (Message.ofBytes resp >>= SignResponseMessage.ofMessage) = .ok ⟨sig⟩ := by
  have hf := SignRequestMessage.serialize_isFrame h
  have hw' := processSignRequest_run_signs
    { a with session := confirmationSlot.setWaiting true (confirmationSlot.setThread true a.session) }
    (ofMessage_of_round_trip hf (SignRequestMessage.ofMessage_serialize h)) hkey hc hconf hsig hresp
  rw [processReal_run_of_gate a now (ofBytes_of_isFrame hf) (.inl hl), dispatch_sign now rfl,
    run_bind, startSignWorker, startWorker_run]
  simp only [confirmationSlot] at hw' ⊢
  simp only [hw, ht, Bool.false_eq_true, ↓reduceIte, run_bind, hw', run_pure]
  refine ⟨_, rfl, ?_, ?_, SignResponseMessage.ofMessage_serialize hresp⟩ <;> split <;> rfl

/-- The symbolic signature of the empty data by the stored key. -/
def signerSignature : Bytes := [0, 0, 0, 11] ++ ed25519TypeName ++ [0, 0, 0, 0]

theorem processReal_signRequest_signer :
    ∃ a', (processReal Crypto.symbolic Embedder.plain 0
        ([0, 0, 0, 33, 13, 0, 0, 0, 20] ++ signerBlob ++ [0, 0, 0, 0, 0, 0, 0, 0])).run signerAgent =
        .ok true a' ∧ a'.keys = signerAgent.keys ∧
      a'.sent = signerAgent.sent ++ [[0, 0, 0, 24, 14, 0, 0, 0, 19] ++ signerSignature] ∧
      (Message.ofBytes ([0, 0, 0, 24, 14, 0, 0, 0, 19] ++ signerSignature) >>=
        SignResponseMessage.ofMessage) = .ok ⟨signerSignature⟩ :=
  @processReal_signRequest Crypto.symbolic Embedder.plain signerAgent 0 ⟨signerBlob, [], 0⟩ _ _ _ _
    rfl rfl rfl rfl rfl rfl rfl rfl rfl

/-- The public blob and comment of every key the session may see, in store order. -/
def visibleIdentities (a : Agent) : List (Bytes × Bytes) :=
  (a.keys.listKeys a.session.bindingFailed a.session.bindings).map fun k => (k.pubBlob, k.comment)

/-- A REQUEST_IDENTITIES, on an unlocked store with the session's key-selection slot free: the
store is left as it was, and the one reply decodes, at the client, to the public blob and
comment of every key the session may see, in store order. -/
theorem processReal_requestIdentities {data resp : Bytes} {msg : Message}
    (hmsg : Message.ofBytes data = .ok msg) (hty : msg.type = SSH_AGENTC_REQUEST_IDENTITIES)
    (hl : a.keys.locked = false) (hw : a.session.waitingForKeySelection = false)
    (ht : a.session.keySelectionThread = false)
    (hresp : IdentitiesAnswerMessage.serialize ⟨visibleIdentities a⟩ = .ok resp) :
    ∃ a', (processReal crypto emb now data).run a = .ok true a' ∧ a'.keys = a.keys ∧
      a'.sent = a.sent ++ [resp] ∧
      (Message.ofBytes resp >>= IdentitiesAnswerMessage.ofMessage) = .ok ⟨visibleIdentities a⟩ := by
  have hrun : processRequestIdentities.run
      { a with session := keySelectionSlot.setWaiting true (keySelectionSlot.setThread true a.session) } =
        .ok () { a with
          session := keySelectionSlot.setWaiting true (keySelectionSlot.setThread true a.session)
          sent := a.sent ++ [resp] } := by
    simp only [processRequestIdentities, estateRun_eq, bind, EStateM.bind, get, getThe,
      MonadStateOf.get, EStateM.get]
    exact congrArg (fun x => (liftExcept x >>= send : AgentM Unit) _) hresp
  rw [processReal_run_of_gate a now hmsg (.inl hl), dispatch_requestIdentities now hty,
    run_bind, startKeySelectionWorker, startWorker_run]
  simp only [keySelectionSlot] at hrun ⊢
  simp only [hw, ht, Bool.false_eq_true, ↓reduceIte, hrun, run_pure]
  refine ⟨_, rfl, ?_, ?_, IdentitiesAnswerMessage.ofMessage_serialize hresp⟩ <;> split <;> rfl

theorem processReal_requestIdentities_signer :
    ∃ a', (processReal Crypto.symbolic Embedder.plain 0 [0, 0, 0, 1, 11]).run signerAgent =
        .ok true a' ∧ a'.keys = signerAgent.keys ∧
      a'.sent = signerAgent.sent ++ [[0, 0, 0, 33, 12, 0, 0, 0, 1, 0, 0, 0, 20] ++ signerBlob ++
        [0, 0, 0, 0]] ∧
      (Message.ofBytes ([0, 0, 0, 33, 12, 0, 0, 0, 1, 0, 0, 0, 20] ++ signerBlob ++ [0, 0, 0, 0]) >>=
        IdentitiesAnswerMessage.ofMessage) = .ok ⟨visibleIdentities signerAgent⟩ :=
  @processReal_requestIdentities Crypto.symbolic Embedder.plain signerAgent 0 _ _ _
    rfl rfl rfl rfl rfl rfl

section WellBehaved

variable {crypto : Crypto} {emb : Embedder} (a : Agent) (now : Int)
  (hprotect : ∀ mat pw, ∃ enc, crypto.protect mat pw = .ok enc)
  (hunprotect : ∀ mat pw enc, crypto.protect mat pw = .ok enc →
    crypto.unprotect enc pw = .ok (some mat))
  (hcheck : ∀ p q, crypto.pwCheck p (crypto.pwHash q) = true ↔ p = q)

include hprotect hunprotect hcheck in
/-- A LOCK and then an UNLOCK with the same password, each as a client encodes it, on a
consistent unlocked store outside the throttle window: both are answered SUCCESS, and the
store is unlocked again with every key's material as it was. -/
theorem processFrames_lock_unlock_restores {lm : LockMessage} {um : UnlockMessage}
    {lb ub : Bytes} (hlm : lm.serialize = .ok lb) (hum : um.serialize = .ok ub)
    (hpw : um.password = lm.password) (hc : KeyManager.LockConsistent crypto a.keys)
    (hl : a.keys.locked = false) (ht : a.keys.lockedUntil ≤ now) :
    ∃ km, (processFrames crypto emb now [lb, ub]).run a =
        .ok () { a with
          keys := km
          sent := a.sent ++ [simpleReply SSH_AGENT_SUCCESS, simpleReply SSH_AGENT_SUCCESS] } ∧
      km.locked = false ∧ km.keys.map Key.material = a.keys.keys.map Key.material := by
  obtain ⟨km, hrun, hkl, hmat⟩ := @KeyManager.lock_unlock_restores crypto a.keys lm.password now
    hprotect hunprotect hcheck hc hl ht
  rw [run_bind] at hrun
  cases hlk : (KeyManager.lock crypto lm.password).run a.keys with
  | error e m₁ =>
    rw [hlk] at hrun
    cases hrun
  | ok _ m₁ =>
    rw [hlk] at hrun
    have hu : (KeyManager.unlock crypto lm.password now).run m₁ = .ok () km := hrun
    refine ⟨km, ?_, hkl, hmat⟩
    rw [processFrames, run_bind, processReal_keyRequest a now (LockMessageBase.serialize_isFrame hlm)
      (.inl hl) (by rw [dispatch]; rfl) (LockMessageBase.ofMessage_serialize hlm), hlk]
    dsimp only [keyRequestReply]
    rw [processFrames, run_bind, processReal_keyRequest _ now (LockMessageBase.serialize_isFrame hum)
      (.inr rfl) (by rw [dispatch]; rfl) (LockMessageBase.ofMessage_serialize hum), hpw, hu]
    simp only [keyRequestReply, processFrames, run_pure, List.append_assoc, List.singleton_append]

end WellBehaved

theorem processFrames_lock_unlock_restores_signer :
    ∃ km, (processFrames Crypto.symbolic Embedder.plain 0
        [[0, 0, 0, 7, 22, 0, 0, 0, 2, 112, 119], [0, 0, 0, 7, 23, 0, 0, 0, 2, 112, 119]]).run
          signerAgent =
        .ok () { signerAgent with
          keys := km
          sent := signerAgent.sent ++
            [simpleReply SSH_AGENT_SUCCESS, simpleReply SSH_AGENT_SUCCESS] } ∧
      km.locked = false ∧ km.keys.map Key.material = signerAgent.keys.keys.map Key.material :=
  @processFrames_lock_unlock_restores Crypto.symbolic Embedder.plain signerAgent 0
    (fun _ _ => ⟨_, rfl⟩) (fun _ _ _ h => by cases h; exact Crypto.symbolic_unprotect_protect _ _)
    Crypto.symbolic_pwCheck_pwHash ⟨[112, 119]⟩ ⟨[112, 119]⟩ _ _ rfl rfl rfl
    (.of_unlocked rfl rfl (by decide)) rfl (by decide)

end Session

end Libssha
