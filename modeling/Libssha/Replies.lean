import Libssha.SessionBindings
import Libssha.Encoders
import Libssha.Framing
import Libssha.Interleaving

/-!
# One request, one reply

The agent protocol alternates: a client writes a request and reads exactly one reply before
it writes the next. `processReal` keeps to this on every path on which it returns. Whichever
handler the type byte selects, and whatever the parsing, the store operation or the sign
worker does, it sends exactly one message, a well-formed frame of type FAILURE, SUCCESS,
IDENTITIES_ANSWER or SIGN_RESPONSE. A request that raises out of `processReal` (a header
`Message` cannot read, a SIGN_REQUEST or REQUEST_IDENTITIES while the session's worker is
pending) is not answered, and a crash ends the process.

Over a connection, every chunk `process` hands on is answered once, in order, and a first
part shorter than a header is answered together with the chunk after it. Across any
interleaving of sessions on one store, each session has one reply per frame it sent, its
sign request whose prompt is open apart.
-/
namespace Libssha

namespace Session

open Message

/-- A reply of `Session`: a well-formed frame of one of the four types it sends. -/
def IsReply (r : Bytes) : Prop :=
  ∃ type body, IsFrame r type body ∧
    type ∈ [SSH_AGENT_FAILURE, SSH_AGENT_SUCCESS, SSH_AGENT_IDENTITIES_ANSWER,
      SSH_AGENT_SIGN_RESPONSE]

theorem simpleReply_isReply {type : UInt8}
    (h : type ∈ [SSH_AGENT_FAILURE, SSH_AGENT_SUCCESS, SSH_AGENT_IDENTITIES_ANSWER,
      SSH_AGENT_SIGN_RESPONSE]) : IsReply (simpleReply type) :=
  ⟨type, [], ⟨rfl, by decide⟩, h⟩

section Replies

variable {α β : Type}

/-- What a step leaves of the replies: one more, a reply, if it returns; none if it raises
an exception. A crash ends the process, and nothing it leaves is read. -/
def RepliedOnce (a : Agent) : EStateM.Result Fault Agent α → Prop
  | .ok _ a' => ∃ r, IsReply r ∧ a'.sent = a.sent ++ [r]
  | .error (.exception _) a' => a'.sent = a.sent
  | .error (.crash _) _ => True

/-- A step that answers once if it returns, and not at all if it raises. -/
def Answers (x : AgentM α) : Prop := ∀ a, RepliedOnce a (x.run a)

/-- `a'` has been sent what `a` had. -/
def SameSent (a a' : Agent) : Prop := a'.sent = a.sent

theorem SameSent.refl (a : Agent) : SameSent a a := rfl

theorem SameSent.trans (a₁ a₂ a₃ : Agent) (h₁ : SameSent a₁ a₂) (h₂ : SameSent a₂ a₃) :
    SameSent a₁ a₃ := Eq.trans h₂ h₁

theorem RepliedOnce.of_ok {v : α} {a a' : Agent} {r : Bytes} (hr : IsReply r)
    (hs : a'.sent = a.sent ++ [r]) : RepliedOnce a (.ok v a') := ⟨r, hr, hs⟩

/-- A step that sent nothing before the rest of the work leaves the replies to the rest. -/
theorem RepliedOnce.of_sameSent {a a' : Agent} {x : EStateM.Result Fault Agent α}
    (hs : SameSent a a') (h : RepliedOnce a' x) : RepliedOnce a x := by
  rcases x with ⟨_, a''⟩ | ⟨_ | _, a''⟩
  · obtain ⟨r, hr, he⟩ := h
    exact RepliedOnce.of_ok hr (by rw [he, hs])
  · exact Eq.trans h hs
  · trivial

theorem answers_send {r : Bytes} (hr : IsReply r) : Answers (send r) :=
  fun _ => RepliedOnce.of_ok hr rfl

theorem Answers.bind_pure {x : AgentM α} (hx : Answers x) (f : α → β) :
    Answers (x >>= fun v => pure (f v)) := by
  intro a
  have h := hx a
  rw [run_bind]
  revert h
  rcases x.run a with ⟨_, _⟩ | ⟨_ | _, _⟩ <;> exact id

theorem Answers.ite {c : Prop} {_ : Decidable c} {x y : AgentM α} (hx : Answers x)
    (hy : Answers y) : Answers (if c then x else y) := by
  split
  · exact hx
  · exact hy

theorem answers_bind_of_sameSent {x : AgentM α} {f : α → AgentM β} (hx : Keeps SameSent x)
    (hf : ∀ v, Answers (f v)) : Answers (x >>= f) := by
  intro a
  have hs := hx a
  rw [run_bind]
  revert hs
  rcases x.run a with ⟨v, a'⟩ | ⟨_ | _, _⟩
  · exact fun hs => (hf v a').of_sameSent hs
  · exact id
  · exact fun _ => trivial

theorem answers_liftExcept_bind {e : Except String α} {f : α → AgentM β}
    (hf : ∀ v, e = .ok v → Answers (f v)) : Answers (liftExcept e >>= f) := by
  cases e with
  | error => exact fun a => (rfl : a.sent = a.sent)
  | ok v => exact hf v rfl

/-- `catchFailure` turns the exception of a body that sent nothing into the one FAILURE
reply, as long as the error handler sends nothing. -/
theorem answers_catchFailure {body : AgentM Bool} {onError : AgentM Unit} (hb : Answers body)
    (ho : Keeps SameSent onError) : Answers (catchFailure body onError) := by
  intro a
  have h := hb a
  rw [catchFailure_run]
  split <;> rename_i heq <;> rw [heq] at h
  · exact h
  · rename_i a'
    have h' := ho a'
    split <;> rename_i heq' <;> rw [heq'] at h'
    · exact RepliedOnce.of_ok (@simpleReply_isReply SSH_AGENT_FAILURE (by decide))
        (congrArg (· ++ [simpleReply SSH_AGENT_FAILURE]) (Eq.trans h' h))
    · rename_i e _
      cases e
      · exact Eq.trans h' h
      · trivial
  · trivial

theorem onKeys_sameSent (x : EStateM Fault KeyManager α) : Keeps SameSent (onKeys x) := by
  intro a
  dsimp only [estateRun_eq, onKeys]
  split <;> rfl

end Replies

section Handlers

variable {crypto emb} {α : Type}

theorem keyRequestReply_repliedOnce (a : Agent) (r : EStateM.Result Fault KeyManager Unit) :
    RepliedOnce a (keyRequestReply a r) := by
  rcases r with ⟨_, _⟩ | ⟨_ | _, _⟩
  · exact RepliedOnce.of_ok (simpleReply_isReply (by decide)) rfl
  · exact RepliedOnce.of_ok (simpleReply_isReply (by decide)) rfl
  · trivial

theorem processKeyRequest_answers (parse : Message → Except String α)
    (op : α → EStateM Fault KeyManager Unit) (msg : Message) :
    Answers (processKeyRequest parse op msg) := by
  intro a
  rw [processKeyRequest_run]
  split
  · exact RepliedOnce.of_ok (simpleReply_isReply (by decide)) rfl
  · exact keyRequestReply_repliedOnce a _

theorem processRemoveAllIdentity_answers : Answers processRemoveAllIdentity :=
  answers_bind_of_sameSent (onKeys_sameSent _) fun _ => answers_send (simpleReply_isReply (by decide))

theorem signCheck_sameSent (msg : Message) : Keeps SameSent (signCheck msg) :=
  signCheck_keepsOf SameSent.refl SameSent.trans (fun _ _ => rfl) msg

/-- From the prompt on, the worker answers with the one FAILURE of a refused prompt or the
one SIGN_RESPONSE, and raises only before it sends. -/
theorem signFinish_answers (sm : SignRequestMessage) (key : Key) (confirmed : Bool) :
    Answers (signFinish crypto emb sm key confirmed) := by
  unfold signFinish
  split
  · exact fun _ => RepliedOnce.of_ok (simpleReply_isReply (by decide)) rfl
  refine answers_bind_of_sameSent (keeps_pure SameSent.refl _) fun _ => ?_
  refine answers_bind_of_sameSent (keeps_liftFault SameSent.refl _) fun _ => ?_
  refine answers_bind_of_sameSent (fun _ => rfl) fun _ => ?_
  refine answers_liftExcept_bind fun _ h => ?_
  exact (answers_send ⟨_, _, SignResponseMessage.serialize_isFrame h, by decide⟩).bind_pure _

theorem processSignRequest_answers (msg : Message) :
    Answers (processSignRequest crypto emb msg) := by
  rw [processSignRequest_eq_check_finish]
  refine answers_catchFailure (answers_bind_of_sameSent (signCheck_sameSent msg) fun p => ?_)
    (keeps_pure SameSent.refl _)
  exact signFinish_answers p.1 p.2 _

theorem processRequestIdentities_answers : Answers processRequestIdentities := by
  refine answers_bind_of_sameSent (keeps_get SameSent.refl) fun _ => ?_
  refine answers_liftExcept_bind fun _ h => ?_
  exact answers_send ⟨_, _, IdentitiesAnswerMessage.serialize_isFrame h, by decide⟩

theorem processExtension_answers (msg : Message) : Answers (processExtension crypto emb msg) := by
  intro a
  rw [processExtension_run]
  repeat' split
  all_goals exact RepliedOnce.of_ok (simpleReply_isReply (by decide)) rfl

/-- A worker start raises before its worker runs, and a worker that raises ends the process:
the start answers as its worker does. -/
theorem startWorker_answers (slot : WorkerSlot) {body : AgentM Unit} (hb : Answers body) :
    Answers (startWorker slot body) := by
  intro a
  rw [startWorker_run]
  split
  · exact (rfl : a.sent = a.sent)
  split
  · trivial
  have h := hb { a with session := slot.setWaiting true (slot.setThread true a.session) }
  split <;> rename_i heq <;> rw [heq] at h
  · obtain ⟨r, hr, hs⟩ := h
    exact RepliedOnce.of_ok hr (by split <;> exact hs)
  all_goals trivial

theorem dispatch_answers (now : Int) (msg : Message) : Answers (dispatch crypto emb now msg) := by
  rw [dispatch]
  refine .ite (processKeyRequest_answers _ _ msg) (.ite (processKeyRequest_answers _ _ msg)
    (.ite (processRemoveAllIdentity_answers.bind_pure _)
    (.ite ((startWorker_answers _ ((processSignRequest_answers msg).bind_pure _)).bind_pure _)
    (.ite ((startWorker_answers _ processRequestIdentities_answers).bind_pure _)
    (.ite (processExtension_answers msg) (.ite (processKeyRequest_answers _ _ msg)
    (.ite (processKeyRequest_answers _ _ msg) (.ite (processRemoveAllIdentity_answers.bind_pure _)
    ((answers_send (simpleReply_isReply (by decide))).bind_pure _)))))))))

/-- Every request `processReal` returns from is answered by exactly one reply, a
well-formed frame of type FAILURE, SUCCESS, IDENTITIES_ANSWER or SIGN_RESPONSE; a request it
raises an exception out of is not answered. -/
theorem processReal_answers (now : Int) (data : Bytes) :
    Answers (processReal crypto emb now data) := by
  unfold processReal
  refine answers_liftExcept_bind fun msg _ => ?_
  refine answers_bind_of_sameSent (keeps_get SameSent.refl) fun _ => ?_
  split
  · exact (answers_send (simpleReply_isReply (by decide))).bind_pure _
  · exact dispatch_answers now msg

/-- The reply discipline of `processReal`, read out: a request it returns from has exactly
one reply, a well-formed reply frame, appended to what the session was sent; a request it
raises an exception out of has none. -/
theorem processReal_answers_once (now : Int) (data : Bytes) (a : Agent) :
    (∀ v a', (processReal crypto emb now data).run a = .ok v a' →
      ∃ r, IsReply r ∧ a'.sent = a.sent ++ [r]) ∧
    ∀ e a', (processReal crypto emb now data).run a = .error (.exception e) a' →
      a'.sent = a.sent := by
  have ha := @processReal_answers crypto emb now data a
  exact ⟨fun v a' h => by rwa [h] at ha, fun e a' h => by rwa [h] at ha⟩

end Handlers

/-- How many of the chunks `process` hands to `processReal`, from the buffer `buffer`: each
one after a buffered chunk, and each one that is not a first part shorter than a header. -/
def dispatchedChunks : Bytes → List Bytes → Nat
  | _, [] => 0
  | buffer, d :: ds =>
    if buffer.length > 0 then dispatchedChunks [] ds + 1
    else if d.length < 5 then dispatchedChunks d ds
    else dispatchedChunks [] ds + 1

section Connection

variable {crypto emb} {now : Int}

theorem processReal_replied {data : Bytes} {a a' : Agent} {v : Bool}
    (h : (processReal crypto emb now data).run a = .ok v a') :
    ∃ r, IsReply r ∧ a'.sent = a.sent ++ [r] := by
  have ha := @processReal_answers crypto emb now data a
  rwa [h] at ha

/-- One chunk: the replies it adds, and what it leaves of the count of the chunks after it. -/
theorem process_replies {c c' : Connection} {data : Bytes} {v : Bool} (ds : List Bytes)
    (h : (process crypto emb now data).run c = .ok v c') :
    ∃ rs, c'.agent.sent = c.agent.sent ++ rs ∧ (∀ r ∈ rs, IsReply r) ∧
      dispatchedChunks c.tempBuffer (data :: ds) = dispatchedChunks c'.tempBuffer ds + rs.length := by
  by_cases hb : c.tempBuffer = []
  · by_cases hlen : data.length < 5
    · rw [process_run_short hb hlen] at h
      cases h
      exact ⟨[], (List.append_nil _).symm, nofun, by simp [dispatchedChunks, hb, hlen]⟩
    · rw [process_run_direct hb (by omega)] at h
      split at h <;> cases h
      obtain ⟨r, hr, hs⟩ := processReal_replied ‹_›
      exact ⟨[r], hs, by simpa using hr, by simp [dispatchedChunks, hb, hlen]⟩
  · rw [process_run_buffered hb] at h
    split at h <;> cases h
    obtain ⟨r, hr, hs⟩ := processReal_replied ‹_›
    have hp : c.tempBuffer.length > 0 := List.length_pos.mpr hb
    exact ⟨[r], hs, by simpa using hr, by simp [dispatchedChunks, hp]⟩

/-- A run of chunks that returns has sent, in order, one reply for each chunk `process`
handed to `processReal` and none for a buffered one, each a well-formed reply frame. -/
theorem processChunks_replies {ds : List Bytes} {c c' : Connection}
    (h : (processChunks crypto emb now ds).run c = .ok () c') :
    ∃ rs, c'.agent.sent = c.agent.sent ++ rs ∧ rs.length = dispatchedChunks c.tempBuffer ds ∧
      ∀ r ∈ rs, IsReply r := by
  induction ds generalizing c with
  | nil =>
    cases h
    exact ⟨[], (List.append_nil _).symm, rfl, nofun⟩
  | cons d ds ih =>
    rw [processChunks, run_bind] at h
    split at h
    · obtain ⟨rs₁, hs₁, hr₁, hn₁⟩ := process_replies ds ‹_›
      obtain ⟨rs₂, hs₂, hn₂, hr₂⟩ := ih h
      refine ⟨rs₁ ++ rs₂, by rw [hs₂, hs₁, List.append_assoc], ?_, ?_⟩
      · rw [hn₁, List.length_append, hn₂, Nat.add_comm]
      · intro r hr
        exact (List.mem_append.mp hr).elim (hr₁ r) (hr₂ r)
    · cases h

/-- A LOCK whose first three bytes come alone, then an UNLOCK in one chunk: three chunks,
two answered. -/
theorem processChunks_replies_splitLock :
    ∃ c', (processChunks Crypto.symbolic Embedder.plain 0
        [[0, 0, 0], [7, 22, 0, 0, 0, 2, 112, 119], [0, 0, 0, 7, 23, 0, 0, 0, 2, 112, 119]]).run
          ⟨⟨(KeyManager.init 0).setLockProvider, Session.init, []⟩, []⟩ = .ok () c' ∧
      ∃ rs, c'.agent.sent = [] ++ rs ∧ rs.length = 2 ∧ ∀ r ∈ rs, IsReply r := by
  obtain ⟨c', h⟩ : ∃ c', (processChunks Crypto.symbolic Embedder.plain 0
      [[0, 0, 0], [7, 22, 0, 0, 0, 2, 112, 119], [0, 0, 0, 7, 23, 0, 0, 0, 2, 112, 119]]).run
        ⟨⟨(KeyManager.init 0).setLockProvider, Session.init, []⟩, []⟩ = .ok () c' := ⟨_, rfl⟩
  exact ⟨c', h, processChunks_replies h⟩

end Connection

end Session

/-- The request of a session still to be answered: its sign request while the prompt is
open. -/
def Peer.outstanding (p : Peer) : Nat := if p.pending.isSome then 1 else 0

/-- Session `p'` is session `p` after `n` more frames: it was sent, in order, one reply for
each of them and for each request of `p` no longer outstanding, and nothing else. -/
def Peer.Answered (p p' : Peer) (n : Nat) : Prop :=
  ∃ rs, p'.sent = p.sent ++ rs ∧ (∀ r ∈ rs, Session.IsReply r) ∧
    rs.length + p'.outstanding = p.outstanding + n

theorem Peer.Answered.trans {p₁ p₂ p₃ : Peer} {n m : Nat} (h₁ : Peer.Answered p₁ p₂ n)
    (h₂ : Peer.Answered p₂ p₃ m) : Peer.Answered p₁ p₃ (n + m) := by
  obtain ⟨rs₁, hs₁, hr₁, hn₁⟩ := h₁
  obtain ⟨rs₂, hs₂, hr₂, hn₂⟩ := h₂
  refine ⟨rs₁ ++ rs₂, by rw [hs₂, hs₁, List.append_assoc],
    fun r hr => (List.mem_append.mp hr).elim (hr₁ r) (hr₂ r), ?_⟩
  rw [List.length_append]
  omega

/-- One if `e` is a frame reaching session `i`. -/
def Event.framesTo (i : Nat) : Event → Nat
  | .frame j _ => if j = i then 1 else 0
  | .answer _ _ => 0

/-- The number of frames among `es` that reach session `i`. -/
def Event.countFramesTo (i : Nat) : List Event → Nat
  | [] => 0
  | e :: es => e.framesTo i + countFramesTo i es

namespace System

open Session

section Replies

variable {crypto : Crypto} {emb : Embedder} {now : Int} {sys sys' : System} {i j : Nat}

/-- Session `k` stepped to the agent `a`, which answered as `n` more frames to it ask: it is
answered so, and every other session as after no frame. -/
theorem setPeer_answered {k n : Nat} {pk p : Peer} {a : Agent}
    {q : Option (SignRequestMessage × Key)} (hk : sys.peers.get? k = some pk)
    (hn : Peer.Answered pk ⟨a.session, a.sent, q⟩ n) (hp : sys.peers.get? j = some p) :
    ∃ p', (sys.setPeer k a q).peers.get? j = some p' ∧
      Peer.Answered p p' (if k = j then n else 0) := by
  by_cases hkj : k = j
  · subst hkj
    obtain rfl := Option.some.inj (hp.symm.trans hk)
    obtain ⟨rs, hs, hr, hn⟩ := hn
    exact ⟨_, setPeer_get?_self hk a q, rs, hs, hr, by rw [if_pos rfl]; cases q <;> exact hn⟩
  · refine ⟨_, setPeer_get?_ne hkj hp a q, [], (List.append_nil _).symm, nofun, ?_⟩
    simp only [if_neg hkj, Peer.outstanding, Option.isSome_map', List.length_nil, Nat.zero_add,
      Nat.add_zero]

theorem finish_inv {a : Agent} {sm : SignRequestMessage} {key : Key} {b : Bool}
    (h : finish crypto emb sys i a sm key b = some sys') :
    ∃ a' sigs, sys' = { sys.setPeer i a' none with signatures := sigs } ∧
      ∃ r, IsReply r ∧ a'.sent = a.sent ++ [r] := by
  unfold finish at h
  split at h
  · rename_i a' heq
    cases h
    have ha := answers_catchFailure (@signFinish_answers crypto emb sm key b)
      (keeps_pure SameSent.refl ()) a
    rw [heq] at ha
    exact ⟨{ a' with session := a'.session.leaveSignWorker }, _, rfl, ha⟩
  · cases h

/-- What a frame a session has read leaves: a reply and no open prompt, or an open prompt
and no reply. -/
theorem deliver_inv {a : Agent} {msg : Message} {data : Bytes}
    (h : sys.deliver crypto emb now i a msg data = some sys') :
    ∃ a' q sigs, sys' = { sys.setPeer i a' q with signatures := sigs } ∧
      ((q = none ∧ ∃ r, IsReply r ∧ a'.sent = a.sent ++ [r]) ∨ (q.isSome ∧ a'.sent = a.sent)) := by
  rcases deliver_cases h with ⟨-, sm, key, a₁, hc, h⟩ | ⟨e, a₁, hc, rfl⟩ | ⟨v, a', hr, rfl⟩
  · have hs : a₁.sent = a.sent := by
      have h₁ := signCheck_sameSent msg { a with session := a.session.enterSignWorker }
      rwa [hc] at h₁
    rcases h with rfl | h
    · exact ⟨a₁, _, _, rfl, .inr ⟨rfl, hs⟩⟩
    · obtain ⟨a', sigs, rfl, r, hr, hs'⟩ := finish_inv h
      exact ⟨a', none, sigs, rfl, .inl ⟨rfl, r, hr, by rw [hs', hs]⟩⟩
  · have hs : a₁.sent = a.sent := by
      have h₁ := signCheck_sameSent msg { a with session := a.session.enterSignWorker }
      rwa [hc] at h₁
    exact ⟨{ a₁ with session := a₁.session.leaveSignWorker
                     sent := a₁.sent ++ [simpleReply SSH_AGENT_FAILURE] }, none, _, rfl,
      .inl ⟨rfl, _, simpleReply_isReply (by decide), congrArg (· ++ _) hs⟩⟩
  · obtain ⟨r, hr, hs⟩ := processReal_replied hr
    exact ⟨_, none, _, rfl, .inl ⟨rfl, r, hr, hs⟩⟩

theorem step_answered {e : Event} {p : Peer} (hp : sys.peers.get? j = some p)
    (h : sys.step crypto emb now e = some sys') :
    ∃ p', sys'.peers.get? j = some p' ∧ Peer.Answered p p' (e.framesTo j) := by
  cases e with
  | frame k data =>
    obtain ⟨session, sent, msg, hk, -, h⟩ := step_frame_inv h
    obtain ⟨a', q, sigs, rfl, hq⟩ := deliver_inv h
    refine setPeer_answered hk ?_ hp
    rcases hq with ⟨rfl, r, hr, hs⟩ | ⟨hq, hs⟩
    · exact ⟨[r], hs, by simpa using hr, rfl⟩
    · exact ⟨[], by rw [hs, List.append_nil], nofun, by simp [Peer.outstanding, hq]⟩
  | answer k b =>
    rw [step] at h
    split at h
    · rename_i session sent sm key hk
      obtain ⟨a', sigs, rfl, r, hr, hs⟩ := finish_inv h
      obtain ⟨p', hp', ha⟩ := setPeer_answered hk
        (show Peer.Answered _ ⟨a'.session, a'.sent, none⟩ 0 from ⟨[r], hs, by simpa using hr, rfl⟩) hp
      exact ⟨p', hp', by simpa using ha⟩
    · cases h

/-- Across every interleaving of frames and prompt answers that runs, each session was sent,
in order, exactly one reply for each frame that reached it and for each request that was
outstanding at the start, less the one still outstanding at the end; each is a well-formed
reply frame, and no session is sent another's reply. -/
theorem run_answered {es : List Event} (h : sys.run crypto emb now es = some sys') {p : Peer}
    (hp : sys.peers.get? i = some p) :
    ∃ p', sys'.peers.get? i = some p' ∧ Peer.Answered p p' (Event.countFramesTo i es) := by
  induction es generalizing sys p with
  | nil =>
    cases h
    exact ⟨p, hp, [], (List.append_nil _).symm, nofun, Nat.zero_add _⟩
  | cons e es ih =>
    rw [run, Option.bind_eq_some] at h
    obtain ⟨sys₁, h₁, h⟩ := h
    obtain ⟨p₁, hp₁, ha₁⟩ := step_answered hp h₁
    obtain ⟨p', hp', ha'⟩ := ih h hp₁
    exact ⟨p', hp', ha₁.trans ha'⟩

end Replies

/-- Session 0 asks for a signature and its prompt opens; the user confirms. Its one frame is
answered once, when the prompt returns. -/
theorem run_answered_confirmed :
    ∃ sys', System.run Crypto.symbolic Embedder.plain 0 (System.init promptStore 1)
        [.frame 0 promptSignFrame, .answer 0 true] = some sys' ∧
      ∃ p', sys'.peers.get? 0 = some p' ∧ Peer.Answered ⟨Session.init, [], none⟩ p' 1 := by
  obtain ⟨sys', h⟩ : ∃ sys', System.run Crypto.symbolic Embedder.plain 0
      (System.init promptStore 1) [.frame 0 promptSignFrame, .answer 0 true] = some sys' :=
    ⟨_, rfl⟩
  exact ⟨sys', h, System.run_answered h rfl⟩

end System

end Libssha
