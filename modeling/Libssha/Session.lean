import Libssha.KeyManager

/-!
# The agent session

`Session` (`session.cpp`): the per-connection dispatcher. `process` buffers a chunk shorter
than a frame header and hands the rest to `processReal`, which reads the header outside any
`try`, turns away every request but UNLOCK while the store is locked, and dispatches on the
type byte. The buffer is kept beside the agent in a `Connection`, since nothing but
`process` touches it. The embedder's virtual methods are an `Embedder`. Everything `send`
is given is appended to `Agent.sent`. A SIGN_REQUEST or REQUEST_IDENTITIES worker runs on its
`std::thread` to completion before the next chunk arrives, as the transport's serial order
of requests and replies has it; without a `join` its thread slot stays occupied.
-/
namespace Libssha

open Deserializer

structure Session where
  bindings : List SessionBinding
  bindingFailed : Bool
  isForwarded : Bool
  matchInfo : MatchInfo
  waitingForConfirmation : Bool
  waitingForKeySelection : Bool
  /-- Whether `m_confirmation_thread` holds a thread that was never joined. -/
  confirmationThread : Bool
  /-- Whether `m_key_selection_thread` holds a thread that was never joined. -/
  keySelectionThread : Bool
  asyncOperation : Bool
  deriving Repr, DecidableEq

/-- `Session()`: no bindings, free thread slots, asynchronous workers. -/
def Session.init : Session := ⟨[], false, false, MatchInfo.empty, false, false, false, false, true⟩

/-- The pure virtual methods of `Session` an embedder implements: the user's answer to a
confirmation prompt, whether a key needs one, and whether it consumes an extension. -/
structure Embedder where
  confirmRequest : Key → Bool
  requiresConfirmation : Key → Bool
  processExtensionMessage : ExtensionMessage → Bool

/-- An embedder that asks for no confirmation of its own, declines every prompt and consumes
no extension. -/
def Embedder.plain : Embedder := ⟨fun _ => false, fun _ => false, fun _ => false⟩

/-- The store, one session of it, and everything the session has sent. -/
structure Agent where
  keys : KeyManager
  session : Session
  sent : List Bytes
  deriving Repr, DecidableEq

abbrev AgentM := EStateM Fault Agent

/-- The state a step leaves, whether it returned or raised. -/
def resultState {σ α : Type} : EStateM.Result Fault σ α → σ
  | .ok _ a => a
  | .error _ a => a

/-- An agent with the session's `m_temp_buffer`, which only `process` reads and writes. -/
structure Connection where
  agent : Agent
  tempBuffer : Bytes
  deriving Repr, DecidableEq

/-- A step keeps the relation `r` between the state it starts from and the one it leaves,
whether it returns or raises. -/
def Keeps {σ α : Type} (r : σ → σ → Prop) (x : EStateM Fault σ α) : Prop :=
  ∀ s, r s (resultState (x.run s))

section Keeps

variable {σ : Type} {r : σ → σ → Prop} (hrefl : ∀ s, r s s)

include hrefl

theorem keeps_pure {α : Type} (v : α) : Keeps r (pure v : EStateM Fault σ α) := hrefl

theorem keeps_throw {α : Type} (e : Fault) : Keeps r (throw e : EStateM Fault σ α) := hrefl

theorem keeps_get : Keeps r (get : EStateM Fault σ σ) := hrefl

theorem keeps_liftExcept {α : Type} (x : Except String α) :
    Keeps r (liftExcept x : EStateM Fault σ α) := by
  cases x <;> exact hrefl

theorem keeps_liftFault {α : Type} (x : Except Fault α) :
    Keeps r (liftFault x : EStateM Fault σ α) := by
  cases x <;> exact hrefl

omit hrefl in
theorem keeps_bind (htrans : ∀ s₁ s₂ s₃, r s₁ s₂ → r s₂ s₃ → r s₁ s₃) {α β : Type}
    {x : EStateM Fault σ α} {f : α → EStateM Fault σ β} (hx : Keeps r x)
    (hf : ∀ v, Keeps r (f v)) : Keeps r (x >>= f) := by
  intro s
  have hs := hx s
  rw [run_bind]
  cases h : x.run s with
  | ok v s' =>
    rw [h] at hs
    exact htrans _ _ _ hs (hf v s')
  | error e s' =>
    rw [h] at hs
    exact hs

theorem keeps_throw_bind {α β : Type} (e : Fault) (f : α → EStateM Fault σ β) :
    Keeps r (throw e >>= f) := hrefl

omit hrefl in
theorem keeps_ite {α : Type} {c : Prop} {_ : Decidable c} {x y : EStateM Fault σ α}
    (hx : Keeps r x) (hy : Keeps r y) : Keeps r (if c then x else y) := by
  split
  · exact hx
  · exact hy

omit hrefl in
/-- The join point a `do` block makes of an `if` without `else` before the rest of the
block. -/
theorem keeps_ite_bind (htrans : ∀ s₁ s₂ s₃, r s₁ s₂ → r s₂ s₃ → r s₁ s₃) {β : Type} {c : Prop}
    {_ : Decidable c} {x : EStateM Fault σ PUnit} {k : PUnit → EStateM Fault σ β} (hx : Keeps r x)
    (hk : ∀ y, Keeps r (k y)) : Keeps r (if c then x >>= k else pure PUnit.unit >>= k) := by
  split
  · exact keeps_bind htrans hx hk
  · exact hk _

end Keeps

namespace Session

variable (crypto : Crypto) (emb : Embedder)

def send (data : Bytes) : AgentM Unit := modify fun a => { a with sent := a.sent ++ [data] }

/-- The replies a `SimpleMessage` serializes to: its type byte under the placeholder
length 1. -/
def simpleReply (type : UInt8) : Bytes := [0, 0, 0, 1, type]

def successResponse : AgentM Unit := send (simpleReply SSH_AGENT_SUCCESS)

def failureResponse : AgentM Unit := send (simpleReply SSH_AGENT_FAILURE)

/-- A call on `KeyManager::instance()`. -/
def onKeys {α : Type} (x : EStateM Fault KeyManager α) : AgentM α := fun a =>
  match x.run a.keys with
  | .ok v km => .ok v { a with keys := km }
  | .error e km => .error e { a with keys := km }

def modifySession (f : Session → Session) : AgentM Unit :=
  modify fun a => { a with session := f a.session }

/-- `try { body } catch (const std::exception &e) { onError; failureResponse(); return
false; }`: an exception becomes a FAILURE reply, the end of the process stays one. -/
def catchFailure (body : AgentM Bool) (onError : AgentM Unit) : AgentM Bool :=
  tryCatch body fun e =>
    match e with
    | .exception _ => do
      onError
      failureResponse
      pure false
    | .crash r => throw (.crash r)

section Steps

variable (a : Agent)

@[simp] theorem send_run (data : Bytes) :
    (send data).run a = .ok () { a with sent := a.sent ++ [data] } := rfl

@[simp] theorem failureResponse_run :
    failureResponse.run a = .ok () { a with sent := a.sent ++ [simpleReply SSH_AGENT_FAILURE] } :=
  rfl

@[simp] theorem successResponse_run :
    successResponse.run a = .ok () { a with sent := a.sent ++ [simpleReply SSH_AGENT_SUCCESS] } :=
  rfl

@[simp] theorem modifySession_run (f : Session → Session) :
    (modifySession f).run a = .ok () { a with session := f a.session } := rfl

theorem catchFailure_run (body : AgentM Bool) (onError : AgentM Unit) :
    (catchFailure body onError).run a =
      match body.run a with
      | .ok v a' => .ok v a'
      | .error (.exception _) a' =>
        match onError.run a' with
        | .ok _ a'' => .ok false { a'' with sent := a''.sent ++ [simpleReply SSH_AGENT_FAILURE] }
        | .error e a'' => .error e a''
      | .error (.crash r) a' => .error (.crash r) a' := by
  simp only [catchFailure, tryCatch, tryCatchThe, MonadExceptOf.tryCatch, EStateM.tryCatch,
    estateRun_eq]
  cases body a with
  | ok => rfl
  | error e a' =>
    cases e with
    | crash => rfl
    | exception =>
      simp only [EStateM.Backtrackable.restore, EStateM.Backtrackable.save, EStateM.bind,
        EStateM.dummyRestore, EStateM.dummySave, bind]
      cases onError a' <;> rfl

/-- A handler wrapped in `catchFailure` keeps a relation that its body, its error handler
and a FAILURE reply keep. -/
theorem catchFailure_keeps {r : Agent → Agent → Prop}
    (htrans : ∀ a₁ a₂ a₃, r a₁ a₂ → r a₂ a₃ → r a₁ a₃) {body : AgentM Bool}
    {onError : AgentM Unit} (hbody : Keeps r body) (honError : Keeps r onError)
    (hfail : Keeps r failureResponse) : Keeps r (catchFailure body onError) := by
  intro a
  have hb := hbody a
  rw [catchFailure_run]
  split <;> rename_i h <;> rw [h] at hb
  · exact hb
  · rename_i a'
    have ho := honError a'
    split <;> rename_i h' <;> rw [h'] at ho
    · exact htrans _ _ _ hb (htrans _ _ _ ho (hfail _))
    · exact htrans _ _ _ hb ho
  · exact hb

end Steps

/-- The handlers `processAddIdentity`, `processRemoveIdentity`, `processLock` and
`processUnlock`: parse the typed message, run the store operation, reply SUCCESS. -/
def processKeyRequest {α : Type} (parse : Message → Except String α)
    (op : α → EStateM Fault KeyManager Unit) (msg : Message) : AgentM Bool :=
  catchFailure (do
    let request ← liftExcept (parse msg)
    onKeys (op request)
    successResponse
    pure true) (pure ())

def processAddIdentity (now : Int) (msg : Message) : AgentM Bool :=
  processKeyRequest AddIdentityMessage.ofMessage
    (fun m => KeyManager.addIdentity crypto m now) msg

def processRemoveIdentity (msg : Message) : AgentM Bool :=
  processKeyRequest RemoveIdentityMessage.ofMessage (fun m => KeyManager.removeKey m.keyBlob) msg

def processLock (msg : Message) : AgentM Bool :=
  processKeyRequest (LockMessageBase.ofMessage : Message → Except String LockMessage)
    (fun m => KeyManager.lock crypto m.password) msg

def processUnlock (now : Int) (msg : Message) : AgentM Bool :=
  processKeyRequest (LockMessageBase.ofMessage : Message → Except String UnlockMessage)
    (fun m => KeyManager.unlock crypto m.password now) msg

def processRemoveAllIdentity : AgentM Unit := do
  onKeys KeyManager.removeAllKeys
  successResponse

/-- The checks `processSignRequest` makes of a key with destination constraints before it
signs: a binding, a host-bound user-auth request, `permitted` for its user (which records
the `MatchInfo`), and the request's session id equal to the last binding's. -/
def checkDestination (key : Key) (data : Bytes) : AgentM Unit := do
  let s := (← get).session
  if s.bindings.isEmpty then throw (.exception "Session has no bindings")
  let userauth ← liftExcept (UserAuthRequestMessage.ofBytes data)
  let (ok, mi) := key.permitted s.bindingFailed s.bindings userauth.username s.matchInfo
  modifySession fun s => { s with matchInfo := mi }
  if !ok then throw (.exception "Key not permitted by destination constraints")
  if some userauth.sessionId ≠ (s.bindings.getLast?).map (·.sessionId) then
    throw (.exception "Session ID does not match any session bindings")

/-- `processSignRequest(msg)`: the body of the sign worker. -/
def processSignRequest (msg : Message) : AgentM Bool :=
  catchFailure (do
    let signMsg ← liftExcept (SignRequestMessage.ofMessage msg)
    let some key := (← get).keys.getKey signMsg.keyBlob
      | throw (.exception "Key not found for signing")
    if !key.destConstraints.isEmpty then checkDestination key signMsg.data
    if (key.confirmRequired || emb.requiresConfirmation key) && !emb.confirmRequest key then
      failureResponse
      modifySession fun s => { s with matchInfo := MatchInfo.empty }
      return false
    let signature ← liftFault (key.sign crypto signMsg.data signMsg.flags)
    modifySession fun s => { s with matchInfo := MatchInfo.empty }
    let response ← liftExcept (SignResponseMessage.serialize ⟨signature⟩)
    send response
    pure true) (pure ())

/-- `processRequestIdentities(msg)`: the body of the key-selection worker, outside any
`try`. -/
def processRequestIdentities : AgentM Unit := do
  let a ← get
  let items := a.keys.listKeys a.session.bindingFailed a.session.bindings
  let response ← liftExcept
    (IdentitiesAnswerMessage.serialize ⟨items.map fun k => (k.pubBlob, k.comment)⟩)
  send response

/-- `processExtension(msg)`: a consumed extension succeeds; a session-bind appends its
binding; any exception on the way marks the binding as failed and clears the chain. -/
def processExtension (msg : Message) : AgentM Bool :=
  catchFailure (do
    let ext ← liftExcept (ExtensionMessage.ofMessage crypto msg)
    if emb.processExtensionMessage ext then
      successResponse
      return true
    if ext.extensionName ≠ OpenSSHSessionBind.extName then
      failureResponse
      return false
    let some bind := ext.extension | throw (.exception "Invalid extension type")
    modifySession fun s => { s with
      isForwarded := s.isForwarded || bind.forwarded
      bindings := s.bindings ++ [⟨bind.hostKey, bind.sessionId, bind.forwarded⟩] }
    successResponse
    pure true)
    (modifySession fun s => { s with bindingFailed := true, bindings := [] })

/-- A worker on a `std::thread`: an exception escaping its function terminates the
process. -/
def runThread (body : AgentM Unit) : AgentM Unit := fun a =>
  match body a with
  | .ok _ a' => .ok () a'
  | .error (.exception e) a' => .error (.crash ("std::terminate: " ++ e)) a'
  | .error (.crash r) a' => .error (.crash r) a'

/-- A worker slot of the session: its pending flag and its `std::thread`. -/
structure WorkerSlot where
  waiting : Session → Bool
  setWaiting : Bool → Session → Session
  thread : Session → Bool
  setThread : Bool → Session → Session

/-- `m_waiting_for_confirmation` and `m_confirmation_thread`. -/
def confirmationSlot : WorkerSlot :=
  ⟨(·.waitingForConfirmation), fun b s => { s with waitingForConfirmation := b },
    (·.confirmationThread), fun b s => { s with confirmationThread := b }⟩

/-- `m_waiting_for_key_selection` and `m_key_selection_thread`. -/
def keySelectionSlot : WorkerSlot :=
  ⟨(·.waitingForKeySelection), fun b s => { s with waitingForKeySelection := b },
    (·.keySelectionThread), fun b s => { s with keySelectionThread := b }⟩

/-- The SIGN_REQUEST and REQUEST_IDENTITIES branches of `processReal`: a request while one
is pending raises `logic_error`, and a new `std::thread` moved into a slot still holding an
unjoined one terminates the process. The worker sets its flag, runs, clears it; in
synchronous mode the thread is joined at once. -/
def startWorker (slot : WorkerSlot) (body : AgentM Unit) : AgentM Unit := do
  let s := (← get).session
  if slot.waiting s then
    throw (.exception "Multiple connections using single Session instance")
  else if slot.thread s then throw (.crash "std::terminate: joinable std::thread reassigned")
  else do
    modifySession (slot.setThread true)
    runThread do
      modifySession (slot.setWaiting true)
      body
      modifySession (slot.setWaiting false)
    if !s.asyncOperation then modifySession (slot.setThread false)

def startSignWorker (msg : Message) : AgentM Unit :=
  startWorker confirmationSlot do
    let _ ← processSignRequest crypto emb msg

def startKeySelectionWorker : AgentM Unit :=
  startWorker keySelectionSlot processRequestIdentities

/-- The dispatch of `processReal` on the type byte, once the lock gate let the message
through. -/
def dispatch (now : Int) (msg : Message) : AgentM Bool :=
  if msg.type = SSH_AGENTC_ADD_IDENTITY || msg.type = SSH_AGENTC_ADD_IDENTITY_CONSTRAINED then
    processAddIdentity crypto now msg
  else if msg.type = SSH_AGENTC_REMOVE_IDENTITY then processRemoveIdentity msg
  else if msg.type = SSH_AGENTC_REMOVE_ALL_IDENTITIES then do
    processRemoveAllIdentity
    pure true
  else if msg.type = SSH_AGENTC_SIGN_REQUEST then do
    startSignWorker crypto emb msg
    pure true
  else if msg.type = SSH_AGENTC_REQUEST_IDENTITIES then do
    startKeySelectionWorker
    pure true
  else if msg.type = SSH_AGENTC_EXTENSION then processExtension crypto emb msg
  else if msg.type = SSH_AGENTC_LOCK then processLock crypto msg
  else if msg.type = SSH_AGENTC_UNLOCK then processUnlock crypto now msg
  else if msg.type = SSH_AGENTC_REMOVE_ALL_RSA_IDENTITIES then do
    processRemoveAllIdentity
    pure true
  else do
    failureResponse
    pure false

/-- `processReal(data, length)` at clock `now`: the header is read outside any `try`, and
a locked store lets only UNLOCK through. -/
def processReal (now : Int) (data : Bytes) : AgentM Bool := do
  let msg ← liftExcept (Message.ofBytes data)
  if (← get).keys.isLocked && msg.type ≠ SSH_AGENTC_UNLOCK then
    failureResponse
    return false
  dispatch crypto emb now msg

/-- `a'` has `a`'s store and session up to the session's `MatchInfo`: all that the sign
worker changes besides what it sends. -/
def SignFrame (a a' : Agent) : Prop :=
  a'.keys = a.keys ∧ a'.session = { a.session with matchInfo := a'.session.matchInfo }

section SignFrame

variable {crypto emb}

theorem SignFrame.refl (a : Agent) : SignFrame a a := ⟨rfl, rfl⟩

theorem SignFrame.trans (a₁ a₂ a₃ : Agent) (h₁ : SignFrame a₁ a₂) (h₂ : SignFrame a₂ a₃) :
    SignFrame a₁ a₃ :=
  ⟨h₂.1.trans h₁.1, h₂.2.trans (by rw [h₁.2])⟩

theorem signFrame_bind {α β : Type} {x : AgentM α} {f : α → AgentM β} (hx : Keeps SignFrame x)
    (hf : ∀ v, Keeps SignFrame (f v)) : Keeps SignFrame (x >>= f) :=
  keeps_bind SignFrame.trans hx hf

theorem signFrame_send (data : Bytes) : Keeps SignFrame (send data) := fun _ => ⟨rfl, rfl⟩

theorem signFrame_setMatchInfo (g : Session → MatchInfo) :
    Keeps SignFrame (modifySession fun s => { s with matchInfo := g s }) := fun _ => ⟨rfl, rfl⟩

/-- The destination checks write the agent only through the session's `MatchInfo`: they
keep every relation such a write keeps. -/
theorem checkDestination_keepsOf {r : Agent → Agent → Prop} (hrefl : ∀ a, r a a)
    (htrans : ∀ a₁ a₂ a₃, r a₁ a₂ → r a₂ a₃ → r a₁ a₃)
    (hmi : ∀ g : Session → MatchInfo, Keeps r (modifySession fun s => { s with matchInfo := g s }))
    (key : Key) (data : Bytes) : Keeps r (checkDestination key data) := by
  refine keeps_bind htrans (keeps_get hrefl) fun a => ?_
  refine keeps_ite_bind htrans (keeps_throw hrefl _) fun _ => ?_
  refine keeps_bind htrans (keeps_liftExcept hrefl _) fun ua => ?_
  split
  refine keeps_bind htrans (hmi _) fun _ => ?_
  refine keeps_ite_bind htrans (keeps_throw hrefl _) fun _ => ?_
  split
  · exact keeps_throw hrefl _
  · exact keeps_pure hrefl _

theorem checkDestination_keeps (key : Key) (data : Bytes) :
    Keeps SignFrame (checkDestination key data) :=
  checkDestination_keepsOf SignFrame.refl SignFrame.trans signFrame_setMatchInfo key data

/-- The sign worker leaves the store and the session's flags as they were, whatever it
returns, raises or sends. -/
theorem processSignRequest_keeps (msg : Message) :
    Keeps SignFrame (processSignRequest crypto emb msg) := by
  refine catchFailure_keeps SignFrame.trans ?_ (keeps_pure SignFrame.refl _) (signFrame_send _)
  refine signFrame_bind (keeps_liftExcept SignFrame.refl _) fun sm => ?_
  refine signFrame_bind (keeps_get SignFrame.refl) fun a => ?_
  split
  · refine keeps_ite_bind SignFrame.trans (checkDestination_keeps _ _) fun _ => ?_
    split
    · exact signFrame_bind (signFrame_send _) fun _ =>
        signFrame_bind (signFrame_setMatchInfo _) fun _ => keeps_pure SignFrame.refl _
    refine signFrame_bind (keeps_pure SignFrame.refl _) fun _ => ?_
    refine signFrame_bind (keeps_liftFault SignFrame.refl _) fun sig => ?_
    refine signFrame_bind (signFrame_setMatchInfo _) fun _ => ?_
    refine signFrame_bind (keeps_liftExcept SignFrame.refl _) fun resp => ?_
    exact signFrame_bind (signFrame_send _) fun _ => keeps_pure SignFrame.refl _
  · exact keeps_throw SignFrame.refl _

end SignFrame

section Dispatch

variable {crypto emb} (a : Agent) (now : Int) {data : Bytes} {msg : Message}

/-- What a parsed store request answers, from what its store operation did: SUCCESS after an
operation that returns, FAILURE after one that raises an exception, with the store the
operation left either way; a crash ends the process. -/
def keyRequestReply (a : Agent) : EStateM.Result Fault KeyManager Unit → EStateM.Result Fault Agent Bool
  | .ok _ km => .ok true { a with keys := km, sent := a.sent ++ [simpleReply SSH_AGENT_SUCCESS] }
  | .error (.exception _) km =>
    .ok false { a with keys := km, sent := a.sent ++ [simpleReply SSH_AGENT_FAILURE] }
  | .error (.crash r) km => .error (.crash r) { a with keys := km }

/-- What a store request answers: FAILURE to a message that does not parse, else the reply to
what its operation did. -/
theorem processKeyRequest_run {α : Type} (parse : Message → Except String α)
    (op : α → EStateM Fault KeyManager Unit) (msg : Message) :
    (processKeyRequest parse op msg).run a =
      match parse msg with
      | .error _ => .ok false { a with sent := a.sent ++ [simpleReply SSH_AGENT_FAILURE] }
      | .ok req => keyRequestReply a ((op req).run a.keys) := by
  rw [processKeyRequest, catchFailure_run]
  cases parse msg with
  | error => rfl
  | ok req =>
    simp only [estateRun_eq, bind, EStateM.bind, liftExcept_ok, pure, EStateM.pure, onKeys]
    cases op req a.keys with
    | ok => rfl
    | error e => cases e <;> rfl

/-- A worker start: refused while one is pending, fatal while the slot holds an unjoined
thread, else the body runs between the two flag writes and the slot stays occupied unless
the session is synchronous. -/
theorem startWorker_run (slot : WorkerSlot) (body : AgentM Unit) :
    (startWorker slot body).run a =
      if slot.waiting a.session then
        .error (.exception "Multiple connections using single Session instance") a
      else if slot.thread a.session then
        .error (.crash "std::terminate: joinable std::thread reassigned") a
      else
        match body.run
            { a with session := slot.setWaiting true (slot.setThread true a.session) } with
        | .ok _ a' =>
          let a'' := { a' with session := slot.setWaiting false a'.session }
          .ok () (if a.session.asyncOperation then a''
            else { a'' with session := slot.setThread false a''.session })
        | .error (.exception e) a' => .error (.crash ("std::terminate: " ++ e)) a'
        | .error (.crash r) a' => .error (.crash r) a' := by
  simp only [startWorker, estateRun_eq, bind, EStateM.bind, get, getThe, MonadStateOf.get,
    EStateM.get]
  cases slot.waiting a.session
  case true => rfl
  cases slot.thread a.session
  case true => rfl
  simp only [Bool.false_eq_true, ↓reduceIte, modifySession, runThread, modify, modifyGet,
    MonadStateOf.modifyGet, EStateM.modifyGet, bind, EStateM.bind]
  cases body _ with
  | ok => cases a.session.asyncOperation <;> rfl
  | error e => cases e <;> rfl

theorem processReal_run (hmsg : Message.ofBytes data = .ok msg) (hl : a.keys.locked = false) :
    (processReal crypto emb now data).run a = (dispatch crypto emb now msg).run a := by
  simp only [processReal, estateRun_eq, bind, EStateM.bind, hmsg, liftExcept_ok, pure,
    EStateM.pure, get, getThe, MonadStateOf.get, EStateM.get, KeyManager.isLocked, hl,
    Bool.false_and, Bool.false_eq_true, ↓reduceIte]

/-- The lock gate lets every message through an unlocked store, and an UNLOCK always. -/
theorem processReal_run_of_gate (hmsg : Message.ofBytes data = .ok msg)
    (hgate : a.keys.locked = false ∨ msg.type = SSH_AGENTC_UNLOCK) :
    (processReal crypto emb now data).run a = (dispatch crypto emb now msg).run a := by
  rcases hgate with hl | ht
  · exact processReal_run a now hmsg hl
  · simp only [processReal, estateRun_eq, bind, EStateM.bind, hmsg, liftExcept_ok, pure,
      EStateM.pure, get, getThe, MonadStateOf.get, EStateM.get, ht, ne_eq, not_true_eq_false,
      decide_False, Bool.and_false, Bool.false_eq_true, ↓reduceIte]

theorem processReal_run_locked (hmsg : Message.ofBytes data = .ok msg)
    (hl : a.keys.locked = true) (ht : msg.type ≠ SSH_AGENTC_UNLOCK) :
    (processReal crypto emb now data).run a =
      .ok false { a with sent := a.sent ++ [simpleReply SSH_AGENT_FAILURE] } := by
  simp only [processReal, estateRun_eq, bind, EStateM.bind, hmsg, liftExcept_ok, pure,
    EStateM.pure, get, getThe, MonadStateOf.get, EStateM.get, KeyManager.isLocked, hl, ht,
    ne_eq, not_false_eq_true, decide_True, Bool.and_self, ↓reduceIte]
  rfl

theorem dispatch_sign (h : msg.type = SSH_AGENTC_SIGN_REQUEST) :
    dispatch crypto emb now msg = (do startSignWorker crypto emb msg; pure true) := by
  rw [dispatch, h]; rfl

theorem dispatch_requestIdentities (h : msg.type = SSH_AGENTC_REQUEST_IDENTITIES) :
    dispatch crypto emb now msg = (do startKeySelectionWorker; pure true) := by
  rw [dispatch, h]; rfl

theorem dispatch_extension (h : msg.type = SSH_AGENTC_EXTENSION) :
    dispatch crypto emb now msg = processExtension crypto emb msg := by
  rw [dispatch, h]; rfl

theorem dispatch_removeAll (h : msg.type = SSH_AGENTC_REMOVE_ALL_IDENTITIES) :
    dispatch crypto emb now msg = (do processRemoveAllIdentity; pure true) := by
  rw [dispatch, h]; rfl

end Dispatch

/-- Run a step of the agent inside `process`. -/
def onAgent {α : Type} (x : AgentM α) : EStateM Fault Connection α := fun c =>
  match x.run c.agent with
  | .ok v a => .ok v { c with agent := a }
  | .error e a => .error e { c with agent := a }

/-- `process(data, length)`: a chunk after a buffered one is appended and the whole buffer
processed, then cleared (not when `processReal` raises); a first chunk shorter than a
header is buffered. -/
def process (now : Int) (data : Bytes) : EStateM Fault Connection Bool := do
  let c ← get
  if c.tempBuffer.length > 0 then
    let buffer := c.tempBuffer ++ data
    set { c with tempBuffer := buffer }
    let result ← onAgent (processReal crypto emb now buffer)
    modify fun c => { c with tempBuffer := [] }
    pure result
  else if data.length < 5 then
    set { c with tempBuffer := data }
    pure true
  else onAgent (processReal crypto emb now data)

end Session

end Libssha
