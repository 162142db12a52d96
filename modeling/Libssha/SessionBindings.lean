import Libssha.Framing
import Libssha.RoundTrip

/-!
# Session bindings

How `Session::processExtension` changes the binding state (`binding_failed`, the bindings,
`is_forwarded`) for every EXTENSION message. A consumed extension and a decoded extension
of another name leave it alone, and a decoded session-bind appends its binding. Every
exception inside the `try` marks the binding failed and clears the chain, including the one
`ExtensionFactory::createMessageExtension` raises while the message is still being parsed,
for a name under which no message extension is registered.

These are the only writes of the binding fields: every other request, worker and reply
leaves `m_session_bindings`, `m_binding_failed` and `m_is_forwarded` as they were. So a
relation on sessions that those two writes keep, and that unchanged fields satisfy, holds
between a connection's session before and after any chunks. Two such relations: a failed
binding stays failed, and until it fails the chain only grows, by appending.

What the chain grows by is checked less than it should be: `OpenSSHSessionBind::deserialize`
verifies the host key's signature only when the signature field is non-empty, so a
session-bind with an empty signature appends whatever host key and session id it names.
-/
namespace Libssha

open Deserializer

/-- An EXTENSION message whose name no message extension is registered under does not
parse: the factory throws before any extension data is read. -/
theorem ExtensionMessage.ofMessage_unknown (crypto : Crypto) {msg : Message} {name : Bytes}
    (hty : msg.type = SSH_AGENTC_EXTENSION) (hne : msg.data ≠ [])
    (hname : Deserializer.parse ExtensionMessage.readName msg.data = .ok name)
    (hunk : name ≠ OpenSSHSessionBind.extName) :
    ExtensionMessage.ofMessage crypto msg =
      .error ("ExtensionFactory: unknown message extension: " ++ text name) := by
  simp only [Deserializer.parse, Except.map] at hname
  split at hname
  · cases hname
  · next p hp =>
    cases hname
    simp only [ExtensionMessage.ofMessage, Message.expect, hty, Deserializer.parse,
      ExtensionMessage.deserialize, StateT.run_bind, hp]
    simp [ExtensionFactory.createMessageExtension, hunk, hne, bind, Except.bind, liftM, monadLift,
      MonadLift.monadLift, StateT.lift, Except.map, throw, throwThe, MonadExceptOf.throw]
    rfl

namespace Session

variable (crypto : Crypto) (emb : Embedder) (a : Agent)

/-- Every outcome of `processExtension`: it never raises, and only a session-bind that is
not consumed, or an exception, touches the binding state. -/
theorem processExtension_run (msg : Message) :
    (processExtension crypto emb msg).run a =
      match ExtensionMessage.ofMessage crypto msg with
      | .error _ => .ok false { a with
          session := { a.session with bindingFailed := true, bindings := [] },
          sent := a.sent ++ [simpleReply SSH_AGENT_FAILURE] }
      | .ok ext =>
        if emb.processExtensionMessage ext then
          .ok true { a with sent := a.sent ++ [simpleReply SSH_AGENT_SUCCESS] }
        else if ext.extensionName ≠ OpenSSHSessionBind.extName then
          .ok false { a with sent := a.sent ++ [simpleReply SSH_AGENT_FAILURE] }
        else match ext.extension with
          | none => .ok false { a with
              session := { a.session with bindingFailed := true, bindings := [] },
              sent := a.sent ++ [simpleReply SSH_AGENT_FAILURE] }
          | some b => .ok true { a with
              session := { a.session with
                isForwarded := a.session.isForwarded || b.forwarded
                bindings := a.session.bindings ++ [⟨b.hostKey, b.sessionId, b.forwarded⟩] },
              sent := a.sent ++ [simpleReply SSH_AGENT_SUCCESS] } := by
  rw [processExtension, catchFailure_run]
  cases ExtensionMessage.ofMessage crypto msg with
  | error e => rfl
  | ok ext =>
    simp only [estateRun_eq, bind, EStateM.bind, liftExcept_ok, pure, EStateM.pure]
    by_cases hc : emb.processExtensionMessage ext <;> simp only [hc, ↓reduceIte]
    · rfl
    by_cases hn : ext.extensionName = OpenSSHSessionBind.extName <;>
      simp only [hn, ↓reduceIte, ne_eq, not_true_eq_false, not_false_eq_true]
    · cases ext.extension <;> rfl
    · rfl

/-- An EXTENSION frame under an unregistered name, on an unlocked store, marks the binding
as failed and clears every binding, whatever the embedder would have done with it. -/
theorem processReal_unknown_extension_fails_binding (now : Int) {data name : Bytes}
    (hl : a.keys.locked = false)
    (hmsg : Message.ofBytes data = .ok ⟨SSH_AGENTC_EXTENSION, data⟩)
    (hname : Deserializer.parse ExtensionMessage.readName data = .ok name)
    (hunk : name ≠ OpenSSHSessionBind.extName) :
    (processReal crypto emb now data).run a =
      .ok false { a with
        session := { a.session with bindingFailed := true, bindings := [] },
        sent := a.sent ++ [simpleReply SSH_AGENT_FAILURE] } := by
  have hne : data ≠ [] := by
    rintro rfl
    cases hname
  rw [processReal_run a now hmsg hl, dispatch_extension now rfl, processExtension_run,
    @ExtensionMessage.ofMessage_unknown crypto ⟨SSH_AGENTC_EXTENSION, data⟩ name rfl hne hname hunk]

/-- A frame `foo` after one binding. -/
theorem processReal_unknown_extension_fails_binding_foo :
    (processReal Crypto.symbolic Embedder.plain 0 [0, 0, 0, 8, 27, 0, 0, 0, 3, 102, 111, 111]).run
        ⟨KeyManager.init 0, { Session.init with bindings := [⟨[1], [2], false⟩] }, []⟩ =
      .ok false ⟨KeyManager.init 0, { Session.init with bindingFailed := true, bindings := [] },
        [simpleReply SSH_AGENT_FAILURE]⟩ :=
  processReal_unknown_extension_fails_binding Crypto.symbolic Embedder.plain _ 0 rfl rfl rfl
    (by decide)

end Session


namespace Session

/-- Two sessions with the same binding fields. -/
def SameBindings (s s' : Session) : Prop :=
  s'.bindings = s.bindings ∧ s'.bindingFailed = s.bindingFailed ∧ s'.isForwarded = s.isForwarded

/-- A relation between sessions that the agent's writes of its binding fields keep. -/
structure BindingRel (r : Session → Session → Prop) : Prop where
  frame : ∀ s s' : Session, SameBindings s s' → r s s'
  bind : ∀ (s : Session) (b : SessionBinding) (f : Bool),
    r s { s with isForwarded := s.isForwarded || f, bindings := s.bindings ++ [b] }
  fail : ∀ s : Session, r s { s with bindingFailed := true, bindings := [] }
  trans : ∀ s₁ s₂ s₃ : Session, r s₁ s₂ → r s₂ s₃ → r s₁ s₃

/-- `r` between the sessions of two agents. -/
def OnSession (r : Session → Session → Prop) (a a' : Agent) : Prop := r a.session a'.session

section BindingRel

variable {crypto : Crypto} {emb : Embedder} {r : Session → Session → Prop} (hr : BindingRel r)

include hr

theorem BindingRel.refl (s : Session) : r s s := hr.frame s s ⟨rfl, rfl, rfl⟩

theorem onSession_refl (a : Agent) : OnSession r a a := hr.refl a.session

theorem onSession_bind {α β : Type} {x : AgentM α} {f : α → AgentM β}
    (hx : Keeps (OnSession r) x) (hf : ∀ v, Keeps (OnSession r) (f v)) :
    Keeps (OnSession r) (x >>= f) :=
  keeps_bind (fun a₁ a₂ a₃ => hr.trans a₁.session a₂.session a₃.session) hx hf

theorem onSession_send (data : Bytes) : Keeps (OnSession r) (send data) :=
  onSession_refl hr

theorem onSession_onKeys {α : Type} (x : EStateM Fault KeyManager α) :
    Keeps (OnSession r) (onKeys x) := by
  intro a
  dsimp only [estateRun_eq, onKeys]
  split <;> exact hr.refl a.session

theorem processKeyRequest_onSession {α : Type} (parse : Message → Except String α)
    (op : α → EStateM Fault KeyManager Unit) (msg : Message) :
    Keeps (OnSession r) (processKeyRequest parse op msg) := by
  intro a
  rw [processKeyRequest_run]
  split
  · exact hr.refl a.session
  · rename_i req _
    rcases (op req).run a.keys with ⟨_, _⟩ | ⟨_ | _, _⟩ <;> exact hr.refl a.session

/-- The sign request writes the session's `MatchInfo` only. -/
theorem processSignRequest_onSession (msg : Message) :
    Keeps (OnSession r) (processSignRequest crypto emb msg) := fun a => by
  have h := (@processSignRequest_keeps crypto emb msg a).2
  have hb := congrArg Session.bindings h
  have hf := congrArg Session.bindingFailed h
  have hfw := congrArg Session.isForwarded h
  exact hr.frame _ _ ⟨hb, hf, hfw⟩

theorem processRequestIdentities_onSession : Keeps (OnSession r) processRequestIdentities :=
  onSession_bind hr (keeps_get (onSession_refl hr)) fun _ =>
    onSession_bind hr (keeps_liftExcept (onSession_refl hr) _) fun _ => onSession_send hr _

/-- The two writes of the binding fields. -/
theorem processExtension_onSession (msg : Message) :
    Keeps (OnSession r) (processExtension crypto emb msg) := by
  intro a
  rw [processExtension_run]
  repeat' split
  all_goals first
    | exact hr.refl a.session
    | exact hr.fail a.session
    | exact hr.bind a.session _ _

/-- A worker start keeps `r` when its worker does: it writes only the slot's flags. -/
theorem startWorker_onSession (slot : WorkerSlot)
    (hs : ∀ b s, SameBindings s (slot.setWaiting b s) ∧ SameBindings s (slot.setThread b s))
    {body : AgentM Unit} (hb : Keeps (OnSession r) body) :
    Keeps (OnSession r) (startWorker slot body) := by
  intro a
  have hw : ∀ b s, r s (slot.setWaiting b s) := fun b s => hr.frame _ _ (hs b s).1
  have ht : ∀ b s, r s (slot.setThread b s) := fun b s => hr.frame _ _ (hs b s).2
  have h₀ := hr.trans _ _ _ (ht true a.session) (hw true _)
  have hk := hb { a with session := slot.setWaiting true (slot.setThread true a.session) }
  rw [startWorker_run]
  split_ifs
  · exact hr.refl a.session
  · exact hr.refl a.session
  all_goals
    revert hk
    rcases body.run { a with session := slot.setWaiting true (slot.setThread true a.session) } with
      ⟨_, a₁⟩ | ⟨⟨e⟩ | ⟨e⟩, a₁⟩
    · intro hk
      have h₁ := hr.trans _ _ _ (hr.trans _ _ _ h₀ hk) (hw false a₁.session)
      first
        | exact h₁
        | exact hr.trans _ _ _ h₁ (ht false _)
    all_goals exact hr.trans _ _ _ h₀

theorem dispatch_onSession (now : Int) (msg : Message) :
    Keeps (OnSession r) (dispatch crypto emb now msg) := by
  have hslot : ∀ b s, SameBindings s (confirmationSlot.setWaiting b s) ∧
      SameBindings s (confirmationSlot.setThread b s) := fun _ _ => ⟨⟨rfl, rfl, rfl⟩, rfl, rfl, rfl⟩
  have hslot' : ∀ b s, SameBindings s (keySelectionSlot.setWaiting b s) ∧
      SameBindings s (keySelectionSlot.setThread b s) := fun _ _ => ⟨⟨rfl, rfl, rfl⟩, rfl, rfl, rfl⟩
  have hpure : ∀ v : Bool, Keeps (OnSession r) (pure v) := keeps_pure (onSession_refl hr)
  have hremove : Keeps (OnSession r) (do processRemoveAllIdentity; pure true) :=
    onSession_bind hr (onSession_bind hr (onSession_onKeys hr _) fun _ => onSession_send hr _)
      fun _ => hpure _
  rw [dispatch]
  refine keeps_ite (processKeyRequest_onSession hr _ _ msg)
    (keeps_ite (processKeyRequest_onSession hr _ _ msg) (keeps_ite hremove
    (keeps_ite (onSession_bind hr (startWorker_onSession hr _ hslot
      (onSession_bind hr (processSignRequest_onSession hr msg) fun _ => keeps_pure
        (onSession_refl hr) _)) fun _ => hpure _)
    (keeps_ite (onSession_bind hr (startWorker_onSession hr _ hslot'
      (processRequestIdentities_onSession hr)) fun _ => hpure _)
    (keeps_ite (processExtension_onSession hr msg) (keeps_ite (processKeyRequest_onSession hr _ _ msg)
    (keeps_ite (processKeyRequest_onSession hr _ _ msg) (keeps_ite hremove
    (onSession_bind hr (onSession_send hr _) fun _ => hpure _)))))))))

theorem processReal_onSession (now : Int) (data : Bytes) :
    Keeps (OnSession r) (processReal crypto emb now data) := by
  rw [processReal]
  refine onSession_bind hr (keeps_liftExcept (onSession_refl hr) _) fun msg => ?_
  refine onSession_bind hr (keeps_get (onSession_refl hr)) fun _ => ?_
  exact keeps_ite (onSession_bind hr (onSession_send hr _) fun _ => keeps_pure (onSession_refl hr) _)
    (dispatch_onSession hr now msg)

theorem process_onSession (now : Int) (data : Bytes) :
    Keeps (fun c c' : Connection => r c.agent.session c'.agent.session)
      (process crypto emb now data) := by
  intro c
  by_cases hb : c.tempBuffer = []
  · by_cases hlen : data.length < 5
    · rw [process_run_short hb hlen]
      exact hr.refl _
    · have h := @processReal_onSession crypto emb r hr now data c.agent
      rw [process_run_direct hb (by omega)]
      revert h
      rcases (processReal crypto emb now data).run c.agent with ⟨_, _⟩ | ⟨_, _⟩ <;> exact id
  · have h := @processReal_onSession crypto emb r hr now (c.tempBuffer ++ data) c.agent
    rw [process_run_buffered hb]
    revert h
    rcases (processReal crypto emb now (c.tempBuffer ++ data)).run c.agent with
      ⟨_, _⟩ | ⟨_, _⟩ <;> exact id

/-- `r` holds between a connection's session before and after any chunks. -/
theorem processChunks_onSession (now : Int) (ds : List Bytes) :
    Keeps (fun c c' : Connection => r c.agent.session c'.agent.session)
      (processChunks crypto emb now ds) := by
  induction ds with
  | nil => exact keeps_pure (fun c : Connection => hr.refl c.agent.session) _
  | cons d ds ih =>
    rw [processChunks]
    exact keeps_bind (fun (c₁ c₂ c₃ : Connection) => hr.trans c₁.agent.session c₂.agent.session
      c₃.agent.session) (process_onSession hr now d) fun _ => ih

end BindingRel

/-- A failed binding stays failed. -/
def FailedStays (s s' : Session) : Prop := s.bindingFailed = true → s'.bindingFailed = true

theorem bindingRel_failedStays : BindingRel FailedStays where
  frame _ _ h hf := h.2.1.trans hf
  bind _ _ _ hf := hf
  fail _ _ := rfl
  trans _ _ _ h₁ h₂ := h₂ ∘ h₁

/-- Unless the binding has failed by `s'`, it had not failed at `s` and the chain of `s'`
extends that of `s`; a forwarded session stays forwarded. -/
def BindingsGrow (s s' : Session) : Prop :=
  (s'.bindingFailed = false → s.bindingFailed = false ∧ s.bindings <+: s'.bindings) ∧
    (s.isForwarded = true → s'.isForwarded = true)

theorem bindingRel_bindingsGrow : BindingRel BindingsGrow where
  frame _ _ h := ⟨fun hf => ⟨h.2.1.symm.trans hf, h.1 ▸ List.prefix_refl _⟩, h.2.2.trans⟩
  bind _ _ _ := ⟨fun hf => ⟨hf, List.prefix_append _ _⟩, fun hfw => by rw [hfw]; rfl⟩
  fail _ := ⟨(fun h => nomatch h), id⟩
  trans _ _ _ h₁ h₂ := ⟨fun hf =>
    have h₂' := h₂.1 hf
    have h₁' := h₁.1 h₂'.1
    ⟨h₁'.1, h₁'.2.trans h₂'.2⟩, h₂.2 ∘ h₁.2⟩

variable {crypto : Crypto} {emb : Embedder}

/-- Whatever chunks follow on a connection, a session whose binding has not failed by the
end had not failed at the start, and its chain only grew, by appending; a forwarded session
stays forwarded. -/
theorem processChunks_bindings_grow {now : Int} {ds : List Bytes} {c c' : Connection}
    (h : resultState ((processChunks crypto emb now ds).run c) = c') :
    (c'.agent.session.bindingFailed = false →
      c.agent.session.bindingFailed = false ∧
        c.agent.session.bindings <+: c'.agent.session.bindings) ∧
      (c.agent.session.isForwarded = true → c'.agent.session.isForwarded = true) :=
  h ▸ processChunks_onSession bindingRel_bindingsGrow now ds c

/-- An EXTENSION frame binding the Ed25519 host key `[7]` to the session id `[1, 2]`, with an
empty signature. -/
def unsignedBindFrame : Bytes :=
  Message.frame SSH_AGENTC_EXTENSION (Serializer.blobEncoding OpenSSHSessionBind.extName ++
    (Serializer.blobEncoding (eddsaPubBlob ed25519TypeName [7]) ++ Serializer.blobEncoding [1, 2] ++
      Serializer.blobEncoding [] ++ [0]))

/-- A fresh connection sent the frame: its chain has grown by one binding. -/
theorem processChunks_bindings_grow_unsigned :
    ∃ c', resultState ((processChunks Crypto.symbolic Embedder.plain 0 [unsignedBindFrame]).run
        ⟨⟨KeyManager.init 0, Session.init, []⟩, []⟩) = c' ∧ c'.agent.session.bindings.length = 1 ∧
      (c'.agent.session.bindingFailed = false →
        Session.init.bindingFailed = false ∧ Session.init.bindings <+: c'.agent.session.bindings) ∧
      (Session.init.isForwarded = true → c'.agent.session.isForwarded = true) :=
  ⟨_, rfl, rfl, processChunks_bindings_grow rfl⟩

end Session

open Deserializer Serializer

/-- A session-bind body with an empty signature decodes for every host key a registered
public-key class parses: the signature check is skipped. -/
theorem OpenSSHSessionBind.readsAs_unsigned (crypto : Crypto) {hostKey sessionId keyType : Bytes}
    {pk : PubKey} (fw : UInt8)
    (htype : Deserializer.parse (do let t ← readString; let _ ← readBlob; pure t) hostKey =
      .ok keyType)
    (hpk : createPubKey crypto keyType hostKey = .ok pk)
    (hh : hostKey.length < UInt32.size) (hs : sessionId.length < UInt32.size) :
    ReadsAs (OpenSSHSessionBind.deserialize crypto)
      (blobEncoding hostKey ++ blobEncoding sessionId ++ blobEncoding [] ++ [fw])
      ⟨hostKey, sessionId, [], fw ≠ 0⟩ := by
  rw [List.append_assoc, List.append_assoc, ← List.append_nil [fw]]
  unfold OpenSSHSessionBind.deserialize
  refine (readsAs_readPrefixed _ hh).bind ((readsAs_readPrefixed _ hs).bind
    ((readsAs_readPrefixed _ (show ([] : Bytes).length < UInt32.size by decide)).bind
    ((readsAs_readByte fw).bind ?_)))
  rw [htype]
  refine (readsAs_liftM_ok keyType).bind ?_
  rw [hpk]
  refine (readsAs_liftM_ok pk).bind ?_
  simp only [List.isEmpty_nil, Bool.not_true, Bool.false_eq_true, ↓reduceIte]
  exact (readsAs_pure ()).bind (readsAs_pure _)

/-- An EXTENSION frame under the session-bind name decodes to the session-bind its body
reads as. -/
theorem ExtensionMessage.ofMessage_sessionBind (crypto : Crypto) {body : Bytes}
    {b : OpenSSHSessionBind} (hb : ReadsAs (OpenSSHSessionBind.deserialize crypto) body b) :
    ExtensionMessage.ofMessage crypto ⟨SSH_AGENTC_EXTENSION,
        Message.frame SSH_AGENTC_EXTENSION (blobEncoding OpenSSHSessionBind.extName ++ body)⟩ =
      .ok ⟨OpenSSHSessionBind.extName, some b⟩ := by
  have hexp : Message.expect ⟨SSH_AGENTC_EXTENSION, Message.frame SSH_AGENTC_EXTENSION
      (blobEncoding OpenSSHSessionBind.extName ++ body)⟩ (· == SSH_AGENTC_EXTENSION)
      "ExtensionMessage" = .ok () := rfl
  have hname : ReadsAs ExtensionMessage.readName
      (be32 (UInt32.ofNat ((blobEncoding OpenSSHSessionBind.extName ++ body).length + 1)) ++
        [SSH_AGENTC_EXTENSION] ++ blobEncoding OpenSSHSessionBind.extName)
      OpenSSHSessionBind.extName :=
    (Message.readsAs_readHeader _ _).bind
      (readsAs_readPrefixed _ (show OpenSSHSessionBind.extName.length < UInt32.size by decide))
  have hr : ReadsAll (ExtensionMessage.deserialize crypto)
      (be32 (UInt32.ofNat ((blobEncoding OpenSSHSessionBind.extName ++ body).length + 1)) ++
        [SSH_AGENTC_EXTENSION] ++ blobEncoding OpenSSHSessionBind.extName ++ ([] ++ body))
      ⟨OpenSSHSessionBind.extName, some b⟩ :=
    hname.bind_readsAll ((readsAs_liftM_ok _).bind_readsAll hb.readsAll_bind_pure)
  have hparse : Deserializer.parse (ExtensionMessage.deserialize crypto)
      (Message.frame SSH_AGENTC_EXTENSION (blobEncoding OpenSSHSessionBind.extName ++ body)) =
        .ok ⟨OpenSSHSessionBind.extName, some b⟩ := by
    simpa only [Message.frame, List.append_assoc, List.singleton_append, List.nil_append]
      using hr.parse
  rw [ExtensionMessage.ofMessage, hexp]
  exact except_bind_eq_ok.mpr ⟨(), rfl, hparse⟩

namespace Session

/-- `OpenSSHSessionBind::deserialize` verifies the signature only when the signature field is
non-empty. So a session-bind with an empty signature, for every host key a registered
public-key class parses and every session id, is taken as a binding: on an unlocked store
whose embedder does not consume it, the frame appends the binding it names, and the reply is
SUCCESS. -/
theorem processReal_unsigned_session_bind (crypto : Crypto) (emb : Embedder) (a : Agent)
    (now : Int) {hostKey sessionId keyType : Bytes} {pk : PubKey} (fw : UInt8)
    (hl : a.keys.locked = false)
    (htype : Deserializer.parse (do let t ← readString; let _ ← readBlob; pure t) hostKey =
      .ok keyType)
    (hpk : createPubKey crypto keyType hostKey = .ok pk)
    (hh : hostKey.length < UInt32.size) (hs : sessionId.length < UInt32.size)
    (hemb : emb.processExtensionMessage
      ⟨OpenSSHSessionBind.extName, some ⟨hostKey, sessionId, [], fw ≠ 0⟩⟩ = false) :
    (processReal crypto emb now (Message.frame SSH_AGENTC_EXTENSION
        (blobEncoding OpenSSHSessionBind.extName ++
          (blobEncoding hostKey ++ blobEncoding sessionId ++ blobEncoding [] ++ [fw])))).run a =
      .ok true { a with
        session := { a.session with
          isForwarded := a.session.isForwarded || decide (fw ≠ 0)
          bindings := a.session.bindings ++ [⟨hostKey, sessionId, decide (fw ≠ 0)⟩] }
        sent := a.sent ++ [simpleReply SSH_AGENT_SUCCESS] } := by
  rw [processReal_run a now (Message.ofBytes_frame _ _) hl, dispatch_extension now rfl,
    processExtension_run, ExtensionMessage.ofMessage_sessionBind crypto
      (OpenSSHSessionBind.readsAs_unsigned crypto fw htype hpk hh hs)]
  simp only [hemb, Bool.false_eq_true, ↓reduceIte, ne_eq, not_true_eq_false]

/-- The frame on a fresh connection: the host key `[7]` is bound to the session id `[1, 2]`. -/
theorem processReal_unsigned_session_bind_ed25519 :
    (processReal Crypto.symbolic Embedder.plain 0 unsignedBindFrame).run
        ⟨KeyManager.init 0, Session.init, []⟩ =
      .ok true ⟨KeyManager.init 0,
        { Session.init with bindings := [⟨eddsaPubBlob ed25519TypeName [7], [1, 2], false⟩] },
        [simpleReply SSH_AGENT_SUCCESS]⟩ :=
  processReal_unsigned_session_bind Crypto.symbolic Embedder.plain _ 0 0 rfl rfl rfl
    (by decide) (by decide) rfl

end Session

end Libssha
