import Libssha.Session

/-!
# Framing

What `Session::process` makes of the transport's chunks. It hands `processReal` a whole
chunk, or a buffered prefix shorter than a header together with the chunk after it.
`Message(data, length)` reads the declared length and drops it, and the request's decoder
reads from all the bytes it was handed, not only those the length declares. So a frame split
into a first part shorter than a header and the rest is dispatched as if it had come whole,
but several frames in one chunk are one request, of the first frame's type, decoded from all
their bytes: a constrained ADD_IDENTITY reads constraints until the buffer ends, so a frame
after it in the chunk is read as its constraints. A first part of five bytes or more is
dispatched on its own, and a header split over three chunks escapes as an exception. A
worker's thread slot is never joined in asynchronous mode, so the session's second
SIGN_REQUEST terminates the process.
-/
namespace Libssha

/-- Fewer bytes than a header: `Message(data, length)` throws before it reads a type. -/
theorem Message.ofBytes_short {data : Bytes} (hlt : data.length < 5) :
    Message.ofBytes data = .error (if data.length < 4 then "Not enough data to read uint32_t"
      else "Not enough data to read byte") := by
  by_cases h4 : data.length < 4 <;>
    simp [Message.ofBytes, Message.readHeader, Deserializer.parse, Deserializer.readBE32,
      Deserializer.readByte, Deserializer.ofBytes, StateT.run, bind, StateT.bind, Except.bind, h4,
      hlt, Except.map]

theorem Message.length_of_ofBytes {data : Bytes} {msg : Message}
    (h : Message.ofBytes data = .ok msg) : 5 ≤ data.length := by
  by_contra hlt
  rw [Message.ofBytes_short (by omega)] at h
  split at h <;> cases h

namespace Session

variable (crypto : Crypto) (emb : Embedder) (now : Int)

/-- Every chunk, in order, each after the replies to the ones before. -/
def processChunks : List Bytes → EStateM Fault Connection Unit
  | [] => pure ()
  | d :: ds => do
    let _ ← process crypto emb now d
    processChunks ds

/-- Every frame handed to `processReal` on its own. -/
def processFrames : List Bytes → AgentM Unit
  | [] => pure ()
  | f :: fs => do
    let _ ← processReal crypto emb now f
    processFrames fs

/-- The agent's part of a connection's step. -/
def agentResult {α : Type} : EStateM.Result Fault Connection α → EStateM.Result Fault Agent α
  | .ok v c => .ok v c.agent
  | .error e c => .error e c.agent

/-- How one frame reaches `process`: whole, or as a first part shorter than a header and
the rest. -/
inductive Piece where
  | whole
  | split (k : Nat) (pos : 0 < k) (short : k < 5)

def Piece.chunks (f : Bytes) : Piece → List Bytes
  | .whole => [f]
  | .split k _ _ => [f.take k, f.drop k]

variable {crypto emb now} {c : Connection} {data : Bytes}

theorem process_run_direct (hb : c.tempBuffer = []) (hlen : 5 ≤ data.length) :
    (process crypto emb now data).run c =
      match (processReal crypto emb now data).run c.agent with
      | .ok r a => .ok r { c with agent := a }
      | .error e a => .error e { c with agent := a } := by
  have hn : ¬data.length < 5 := by omega
  obtain ⟨a, tb⟩ := c
  subst hb
  simp only [process, estateRun_eq, bind, EStateM.bind, get, getThe, MonadStateOf.get, EStateM.get,
    List.length_nil, Nat.lt_irrefl, ↓reduceIte, hn, onAgent]
  cases processReal crypto emb now data a <;> rfl

theorem process_run_short (hb : c.tempBuffer = []) (hlen : data.length < 5) :
    (process crypto emb now data).run c = .ok true { c with tempBuffer := data } := by
  simp only [process, estateRun_eq, bind, EStateM.bind, get, getThe, MonadStateOf.get, EStateM.get,
    hb, List.length_nil, Nat.lt_irrefl, ↓reduceIte, hlen, set, EStateM.set, pure, EStateM.pure]

/-- A frame header that `Message` cannot read: the exception escapes `processReal`. -/
theorem processReal_run_malformed {a : Agent} {e : String} (h : Message.ofBytes data = .error e) :
    (processReal crypto emb now data).run a = .error (.exception e) a := by
  simp only [processReal, estateRun_eq, bind, EStateM.bind, h, liftExcept_error, throw,
    throwThe, MonadExceptOf.throw, EStateM.throw]

theorem process_run_buffered (hb : c.tempBuffer ≠ []) :
    (process crypto emb now data).run c =
      match (processReal crypto emb now (c.tempBuffer ++ data)).run c.agent with
      | .ok r a => .ok r ⟨a, []⟩
      | .error e a => .error e ⟨a, c.tempBuffer ++ data⟩ := by
  have hp : c.tempBuffer.length > 0 := List.length_pos.mpr hb
  simp only [process, estateRun_eq, bind, EStateM.bind, get, getThe, MonadStateOf.get, EStateM.get,
    hp, ↓reduceIte, set, EStateM.set, onAgent, modify, modifyGet, MonadStateOf.modifyGet,
    EStateM.modifyGet, pure, EStateM.pure]
  cases processReal crypto emb now (c.tempBuffer ++ data) c.agent <;> rfl

/-- A header split over three chunks: the second chunk completes no header, and the
exception `Message` throws escapes `process`. -/
theorem process_header_split_raises (hb : c.tempBuffer ≠ [])
    (hlen : (c.tempBuffer ++ data).length < 5) :
    ∃ e, (process crypto emb now data).run c =
      .error (.exception e) ⟨c.agent, c.tempBuffer ++ data⟩ :=
  ⟨_, by rw [process_run_buffered hb, processReal_run_malformed (Message.ofBytes_short hlen)]⟩

section Workers

variable (a : Agent) {msg : Message}

/-- A sign worker started on a free slot in asynchronous mode returns with the store as it
was and its thread slot occupied, or ends the process. -/
theorem startSignWorker_async (hasync : a.session.asyncOperation = true)
    (hw : a.session.waitingForConfirmation = false) (ht : a.session.confirmationThread = false) :
    (∃ a', (startSignWorker crypto emb msg).run a = .ok () a' ∧ a'.keys = a.keys ∧
      a'.session =
        { a.session with confirmationThread := true, matchInfo := a'.session.matchInfo }) ∨
    ∃ r a', (startSignWorker crypto emb msg).run a = .error (.crash r) a' := by
  rw [startSignWorker, startWorker_run, run_bind, if_neg (by simpa [confirmationSlot] using hw),
    if_neg (by simpa [confirmationSlot] using ht)]
  let a₀ : Agent :=
    { a with session := confirmationSlot.setWaiting true (confirmationSlot.setThread true a.session) }
  have hk : SignFrame a₀ (resultState ((processSignRequest crypto emb msg).run a₀)) :=
    processSignRequest_keeps msg a₀
  cases h : (processSignRequest crypto emb msg).run a₀ with
  | ok v a₁ =>
    rw [h] at hk
    obtain ⟨hkeys, hsession⟩ := hk
    refine .inl ⟨_, rfl, ?_, ?_⟩ <;> simp only [hasync, ↓reduceIte]
    · exact hkeys
    · simp only [resultState] at hsession
      rw [hsession]
      simp only [confirmationSlot, hw, hasync]
  | error e a₁ =>
    cases e
    all_goals exact .inr ⟨_, _, rfl⟩

/-- A SIGN_REQUEST while the confirmation slot holds an unjoined thread terminates the
process. -/
theorem startSignWorker_occupied (hw : a.session.waitingForConfirmation = false)
    (ht : a.session.confirmationThread = true) :
    (startSignWorker crypto emb msg).run a =
      .error (.crash "std::terminate: joinable std::thread reassigned") a := by
  simp [startSignWorker, startWorker_run, confirmationSlot, hw, ht]

/-- In asynchronous mode a session does not survive its second SIGN_REQUEST: the first
worker's thread is never joined, so starting the second ends the process, unless the first
worker already did. Each frame comes in a chunk of its own, as the transport delivers it. -/
theorem process_second_sign_request_terminates {f₁ f₂ : Bytes} {m₁ m₂ : Message}
    (hasync : a.session.asyncOperation = true) (hw : a.session.waitingForConfirmation = false)
    (ht : a.session.confirmationThread = false) (hl : a.keys.locked = false)
    (h₁ : Message.ofBytes f₁ = .ok m₁) (hty₁ : m₁.type = SSH_AGENTC_SIGN_REQUEST)
    (h₂ : Message.ofBytes f₂ = .ok m₂) (hty₂ : m₂.type = SSH_AGENTC_SIGN_REQUEST) :
    ∃ r a', (processChunks crypto emb now [f₁, f₂]).run ⟨a, []⟩ = .error (.crash r) ⟨a', []⟩ ∧
      ∀ v a₁, (processReal crypto emb now f₁).run a = .ok v a₁ →
        r = "std::terminate: joinable std::thread reassigned" := by
  have hfirst : (processReal crypto emb now f₁).run a =
      match (startSignWorker crypto emb m₁).run a with
      | .ok _ a' => .ok true a'
      | .error e a' => .error e a' := by
    rw [processReal_run a now h₁ hl, dispatch_sign now hty₁, run_bind]
    cases (startSignWorker crypto emb m₁).run a <;> rfl
  rw [processChunks, run_bind, process_run_direct rfl (Message.length_of_ofBytes h₁), hfirst]
  rcases startSignWorker_async a hasync hw ht with ⟨a₁, hrun, hkeys, hsession⟩ | ⟨r, a₁, hrun⟩
  · rw [hrun]
    dsimp only
    have hw₁ : a₁.session.waitingForConfirmation = false := by rw [hsession]; exact hw
    have ht₁ : a₁.session.confirmationThread = true := by rw [hsession]
    refine ⟨_, a₁, ?_, fun _ _ _ => rfl⟩
    rw [processChunks, run_bind, process_run_direct rfl (Message.length_of_ofBytes h₂),
      processReal_run a₁ now h₂ (by rw [hkeys]; exact hl), dispatch_sign now hty₂, run_bind,
      startSignWorker_occupied a₁ hw₁ ht₁]
  · rw [hrun]
    exact ⟨r, a₁, rfl, fun _ _ h => nomatch h⟩

/-- Two SIGN_REQUESTs for a key the store does not hold. -/
theorem process_second_sign_request_terminates_fresh :
    ∃ r a', (processChunks Crypto.symbolic Embedder.plain 0
        [[0, 0, 0, 14, 13, 0, 0, 0, 1, 7, 0, 0, 0, 0, 0, 0, 0, 0],
         [0, 0, 0, 14, 13, 0, 0, 0, 1, 7, 0, 0, 0, 0, 0, 0, 0, 0]]).run
        ⟨⟨KeyManager.init 0, Session.init, []⟩, []⟩ = .error (.crash r) ⟨a', []⟩ ∧
      ∀ v a₁, (processReal Crypto.symbolic Embedder.plain 0
          [0, 0, 0, 14, 13, 0, 0, 0, 1, 7, 0, 0, 0, 0, 0, 0, 0, 0]).run
          ⟨KeyManager.init 0, Session.init, []⟩ = .ok v a₁ →
        r = "std::terminate: joinable std::thread reassigned" :=
  process_second_sign_request_terminates _ rfl rfl rfl rfl rfl rfl rfl rfl

end Workers

section Chunking

/-- One frame delivered in its pieces runs as `processReal` on the whole frame; the buffer
is empty after it returns. -/
theorem processChunks_piece (f : Bytes) (p : Piece) (hf : 5 ≤ f.length) (rest : List Bytes)
    (a : Agent) :
    ∃ buf, (processChunks crypto emb now (p.chunks f ++ rest)).run ⟨a, []⟩ =
      match (processReal crypto emb now f).run a with
      | .ok _ a' => (processChunks crypto emb now rest).run ⟨a', []⟩
      | .error e a' => .error e ⟨a', buf⟩ := by
  cases p with
  | whole =>
    refine ⟨[], ?_⟩
    rw [Piece.chunks, List.singleton_append, processChunks, run_bind, process_run_direct rfl hf]
    cases (processReal crypto emb now f).run a <;> rfl
  | split k pos short =>
    have hne : f.take k ≠ [] := List.ne_nil_of_length_pos (by rw [List.length_take]; omega)
    have hshort : (f.take k).length < 5 := by rw [List.length_take]; omega
    refine ⟨f, ?_⟩
    rw [Piece.chunks, List.cons_append, List.singleton_append, processChunks, run_bind,
      process_run_short rfl hshort]
    dsimp only
    rw [processChunks, run_bind, process_run_buffered hne]
    simp only [List.take_append_drop]
    cases (processReal crypto emb now f).run a <;> rfl

/-- Frames that each come whole, or split into a first part shorter than a header and the
rest, from an empty buffer: the session does what `processReal` does on each frame in turn,
and returns with an empty buffer. -/
theorem processChunks_refines_processFrames (ps : List (Bytes × Piece))
    (hlen : ∀ p ∈ ps, 5 ≤ p.1.length) (a : Agent) :
    agentResult ((processChunks crypto emb now (ps.flatMap fun p => p.2.chunks p.1)).run ⟨a, []⟩) =
        (processFrames crypto emb now (ps.map Prod.fst)).run a ∧
      ∀ c, (processChunks crypto emb now (ps.flatMap fun p => p.2.chunks p.1)).run ⟨a, []⟩ =
        .ok () c → c.tempBuffer = [] := by
  induction ps generalizing a with
  | nil => exact ⟨rfl, fun c h => by cases h; rfl⟩
  | cons p ps ih =>
    obtain ⟨buf, h⟩ := processChunks_piece p.1 p.2 (hlen p (.head _)) _ a
    rw [List.flatMap_cons, h, List.map_cons, processFrames, run_bind]
    cases (processReal crypto emb now p.1).run a with
    | ok _ a' => exact ih (fun q hq => hlen q (.tail _ hq)) a'
    | error e a' => exact ⟨rfl, fun c h => nomatch h⟩

theorem processFrames_run_cons (f : Bytes) (fs : List Bytes) (a : Agent) :
    (processFrames crypto emb now (f :: fs)).run a =
      match (processReal crypto emb now f).run a with
      | .ok _ a' => (processFrames crypto emb now fs).run a'
      | .error e a' => .error e a' := by
  rw [processFrames, run_bind]
  cases (processReal crypto emb now f).run a <;> rfl

/-- An ADD_IDENTITY_CONSTRAINED of an Ed25519 key with key field `[7]`, no comment, and the
confirm constraint. -/
def confirmAddFrame : Bytes :=
  [0, 0, 0, 31, 25, 0, 0, 0, 11] ++ ed25519TypeName ++
    [0, 0, 0, 1, 7, 0, 0, 0, 1, 8, 0, 0, 0, 0, 2]

/-- A LOCK with the passphrase `pw`. -/
def lockFrame : Bytes := [0, 0, 0, 7, 22, 0, 0, 0, 2, 112, 119]

/-- That add and a LOCK, on a store with a lock provider. Each on its own, the key is added
and the store locked. In one chunk, the add's constraint loop reads past its declared length
into the LOCK, whose first byte is no constraint type: the add is refused, the chunk gets one
FAILURE, and the store stays unlocked and empty. -/
theorem constrained_add_reads_next_frame :
    (∃ a, (processFrames Crypto.symbolic Embedder.plain 0 [confirmAddFrame, lockFrame]).run
        ⟨(KeyManager.init 0).setLockProvider, Session.init, []⟩ = .ok () a ∧
      a.keys.keys.length = 1 ∧ a.keys.locked = true ∧
      a.sent = [simpleReply SSH_AGENT_SUCCESS, simpleReply SSH_AGENT_SUCCESS]) ∧
    AddIdentityMessage.ofMessage ⟨SSH_AGENTC_ADD_IDENTITY_CONSTRAINED, confirmAddFrame ++ lockFrame⟩ =
      .error "AddIdentityMessage: unknown constraint type 0" ∧
    (processChunks Crypto.symbolic Embedder.plain 0 [confirmAddFrame ++ lockFrame]).run
        ⟨⟨(KeyManager.init 0).setLockProvider, Session.init, []⟩, []⟩ =
      .ok () ⟨⟨(KeyManager.init 0).setLockProvider, Session.init, [simpleReply SSH_AGENT_FAILURE]⟩,
        []⟩ := by
  obtain ⟨a₁, h₁, a₂, h₂, hk, hl, hs⟩ : ∃ a₁,
      (processReal Crypto.symbolic Embedder.plain 0 confirmAddFrame).run
        ⟨(KeyManager.init 0).setLockProvider, Session.init, []⟩ = .ok true a₁ ∧
      ∃ a₂, (processReal Crypto.symbolic Embedder.plain 0 lockFrame).run a₁ = .ok true a₂ ∧
        a₂.keys.keys.length = 1 ∧ a₂.keys.locked = true ∧
        a₂.sent = [simpleReply SSH_AGENT_SUCCESS, simpleReply SSH_AGENT_SUCCESS] :=
    ⟨_, rfl, _, rfl, rfl, rfl, rfl⟩
  refine ⟨⟨a₂, ?_, hk, hl, hs⟩, by decide, rfl⟩
  rw [processFrames_run_cons, h₁]
  dsimp only
  rw [processFrames_run_cons, h₂]
  rfl

/-- Two REMOVE_ALL_IDENTITIES frames, the first split after two bytes. -/
def splitRemoveAllFrames : List (Bytes × Piece) :=
  [([0, 0, 0, 1, 19], .split 2 (by decide) (by decide)), ([0, 0, 0, 1, 19], .whole)]

theorem processChunks_refines_processFrames_removeAll :
    agentResult ((processChunks Crypto.symbolic Embedder.plain 0
        (splitRemoveAllFrames.flatMap fun p => p.2.chunks p.1)).run
          ⟨⟨KeyManager.init 0, Session.init, []⟩, []⟩) =
        (processFrames Crypto.symbolic Embedder.plain 0 (splitRemoveAllFrames.map Prod.fst)).run
          ⟨KeyManager.init 0, Session.init, []⟩ ∧
      ∀ c, (processChunks Crypto.symbolic Embedder.plain 0
        (splitRemoveAllFrames.flatMap fun p => p.2.chunks p.1)).run
          ⟨⟨KeyManager.init 0, Session.init, []⟩, []⟩ = .ok () c → c.tempBuffer = [] :=
  processChunks_refines_processFrames splitRemoveAllFrames (by decide) _

end Chunking

end Session

end Libssha
