import Libssha.SessionBindings
import Libssha.Framing
import Libssha.Interleaving
import Libssha.Locking

/-!
# The store under the agent

Every step of the agent is a step of the store's own model. Whatever bytes a session hands
`processReal`, the store it hands on is the store it met, or that store after one `Op`
issued through the lock gate (`lockGate`: no key is added to a locked store). So every run
of chunks through one connection's `process`, and every interleaving of sessions that share
the store (`System`), leaves the store `Reachable` by gated operations, and what is proved of
gated runs of the store holds of the agent: here, that the lock flag agrees with the keys.
A step that ends the process hands nothing on.
-/

namespace Libssha

namespace KeyManager

variable (crypto : Crypto)

/-- One caller's step on the store: nothing, or one operation issued through the lock gate
that returned or raised an exception. -/
def GatedStep (m m' : KeyManager) : Prop :=
  m' = m ∨ ∃ op, lockGate m op ∧ op.apply crypto m = some m'

variable {crypto} {allowed : KeyManager → Op → Prop} {m₀ m₁ m₂ : KeyManager}

theorem Reachable.trans (h₁ : Reachable crypto allowed m₀ m₁)
    (h₂ : Reachable crypto allowed m₁ m₂) : Reachable crypto allowed m₀ m₂ := by
  induction h₂ with
  | init => exact h₁
  | step op _ hallowed happly ih => exact ih.step op hallowed happly

theorem GatedStep.reachable (h : GatedStep crypto m₁ m₂) : Reachable crypto lockGate m₁ m₂ := by
  rcases h with rfl | ⟨op, hg, happly⟩
  · exact .init
  · exact Reachable.init.step op hg happly

end KeyManager

namespace Session

open KeyManager

/-- What a step hands on to the rest of the process: the state it returned or raised in, or
nothing once it ended the process. -/
def afterStep {σ α : Type} : EStateM.Result Fault σ α → Option σ
  | .ok _ s => some s
  | .error (.exception _) s => some s
  | .error (.crash _) _ => none

theorem afterStep_resultState {σ α : Type} {r : EStateM.Result Fault σ α} {s : σ}
    (h : afterStep r = some s) : resultState r = s := by
  rcases r with ⟨v, s'⟩ | ⟨⟨e⟩ | ⟨e⟩, s'⟩ <;> cases h <;> rfl

variable {crypto : Crypto} {emb : Embedder} {now : Int} {a a' : Agent}

/-- The store is left as it was. -/
def SameKeys (a a' : Agent) : Prop := a'.keys = a.keys

theorem SameKeys.trans (a₁ a₂ a₃ : Agent) (h₁ : SameKeys a₁ a₂) (h₂ : SameKeys a₂ a₃) :
    SameKeys a₁ a₃ := Eq.trans h₂ h₁

theorem SameKeys.refl (a : Agent) : SameKeys a a := rfl

theorem gatedStep_of_keeps {α : Type} {x : AgentM α} (hx : Keeps SameKeys x)
    (h : afterStep (x.run a) = some a') : GatedStep crypto a.keys a'.keys :=
  .inl (afterStep_resultState h ▸ hx a)

theorem keeps_sameKeys_bind {α β : Type} {x : AgentM α} {f : α → AgentM β}
    (hx : Keeps SameKeys x) (hf : ∀ v, Keeps SameKeys (f v)) : Keeps SameKeys (x >>= f) :=
  keeps_bind SameKeys.trans hx hf

/-- A worker start leaves the store as its body does. -/
theorem startWorker_keeps (slot : WorkerSlot) {body : AgentM Unit} (hb : Keeps SameKeys body) :
    Keeps SameKeys (startWorker slot body) := by
  intro a
  have hk := hb { a with session := slot.setWaiting true (slot.setThread true a.session) }
  rw [startWorker_run]
  split_ifs
  · rfl
  · rfl
  all_goals
    revert hk
    rcases body.run { a with session := slot.setWaiting true (slot.setThread true a.session) } with
      ⟨_, a₁⟩ | ⟨⟨e⟩ | ⟨e⟩, a₁⟩ <;> exact id

theorem startSignWorker_keeps (msg : Message) :
    Keeps SameKeys (do startSignWorker crypto emb msg; pure true) :=
  keeps_sameKeys_bind (startWorker_keeps _ (keeps_sameKeys_bind
    (fun a => (processSignRequest_keeps msg a).1) fun _ _ => rfl)) fun _ _ => rfl

theorem startKeySelectionWorker_keeps :
    Keeps SameKeys (do startKeySelectionWorker; pure true) := by
  refine keeps_sameKeys_bind (startWorker_keeps _ ?_) fun _ _ => rfl
  refine keeps_sameKeys_bind (keeps_get SameKeys.refl) fun a => ?_
  exact keeps_sameKeys_bind (keeps_liftExcept SameKeys.refl _) fun _ _ => rfl

theorem processExtension_keeps (msg : Message) : Keeps SameKeys (processExtension crypto emb msg) := by
  intro a
  rw [processExtension_run]
  split
  · rfl
  split
  · rfl
  split
  · rfl
  split <;> rfl

/-- A store request issues one operation, and only once its message parsed. -/
theorem processKeyRequest_gatedStep {α : Type} {parse : Message → Except String α}
    {op : α → EStateM Fault KeyManager Unit} (o : α → Op) (ho : ∀ req, op req = (o req).exec crypto)
    {msg : Message} (hg : ∀ req, lockGate a.keys (o req))
    (h : afterStep ((processKeyRequest parse op msg).run a) = some a') :
    GatedStep crypto a.keys a'.keys := by
  rw [processKeyRequest_run] at h
  split at h
  · cases h
    exact .inl rfl
  · rename_i req _
    refine .inr ⟨o req, hg req, ?_⟩
    rw [Op.apply, ← ho]
    revert h
    rcases (op req).run a.keys with _ | ⟨_ | _, _⟩ <;> intro h <;> cases h <;> rfl


/-- A step that branches on `c` hands on what the branch taken hands on. -/
theorem afterStep_ite {α : Type} {c : Prop} [Decidable c] {x y : AgentM α} {P : Agent → Prop}
    (hx : c → ∀ a', afterStep (x.run a) = some a' → P a')
    (hy : ¬c → ∀ a', afterStep (y.run a) = some a' → P a') :
    ∀ a', afterStep ((if c then x else y).run a) = some a' → P a' := by
  by_cases hc : c
  · rw [if_pos hc]
    exact hx hc
  · rw [if_neg hc]
    exact hy hc

/-- The dispatch issues at most one store operation, and one that adds a key only on an
unlocked store. -/
theorem dispatch_gatedStep {msg : Message}
    (hgate : a.keys.locked = false ∨ msg.type = SSH_AGENTC_UNLOCK) :
    ∀ a', afterStep ((dispatch crypto emb now msg).run a) = some a' →
      GatedStep crypto a.keys a'.keys := by
  unfold dispatch
  refine afterStep_ite (fun hadd _ h => ?add) fun _ => ?_
  case add =>
    rw [processAddIdentity] at h
    refine processKeyRequest_gatedStep (fun (m : AddIdentityMessage) => .addIdentity m now) (fun _ => rfl) (fun _ _ => ?_) h
    refine hgate.resolve_right fun ht => ?_
    rw [ht] at hadd
    exact absurd hadd (by decide)
  refine afterStep_ite (fun _ _ h => ?_) fun _ => ?_
  · rw [processRemoveIdentity] at h
    exact processKeyRequest_gatedStep (fun (m : RemoveIdentityMessage) => .removeKey m.keyBlob) (fun _ => rfl)
      (fun _ hadd => absurd hadd Bool.false_ne_true) h
  refine afterStep_ite (fun _ _ h => ?_) fun _ => ?_
  · cases h
    exact .inr ⟨.removeAllKeys, fun hadd => absurd hadd Bool.false_ne_true, rfl⟩
  refine afterStep_ite (fun _ _ => gatedStep_of_keeps (startSignWorker_keeps msg)) fun _ => ?_
  refine afterStep_ite (fun _ _ => gatedStep_of_keeps startKeySelectionWorker_keeps) fun _ => ?_
  refine afterStep_ite (fun _ _ => gatedStep_of_keeps (processExtension_keeps msg)) fun _ => ?_
  refine afterStep_ite (fun _ _ h => ?_) fun _ => ?_
  · rw [processLock] at h
    exact processKeyRequest_gatedStep (fun (m : LockMessage) => .lock m.password) (fun _ => rfl)
      (fun _ hadd => absurd hadd Bool.false_ne_true) h
  refine afterStep_ite (fun _ _ h => ?_) fun _ => ?_
  · rw [processUnlock] at h
    exact processKeyRequest_gatedStep (fun (m : UnlockMessage) => .unlock m.password now) (fun _ => rfl)
      (fun _ hadd => absurd hadd Bool.false_ne_true) h
  refine afterStep_ite (fun _ _ h => ?_) fun _ _ h => ?_
  · cases h
    exact .inr ⟨.removeAllKeys, fun hadd => absurd hadd Bool.false_ne_true, rfl⟩
  · cases h
    exact .inl rfl

/-- Whatever bytes reach `processReal`, the store it hands on is the store it met, or that
store after one operation issued through the lock gate. -/
theorem processReal_gatedStep (data : Bytes)
    (h : afterStep ((processReal crypto emb now data).run a) = some a') :
    GatedStep crypto a.keys a'.keys := by
  cases hm : Message.ofBytes data with
  | error e =>
    rw [processReal_run_malformed hm] at h
    cases h
    exact .inl rfl
  | ok msg =>
    by_cases hgate : a.keys.locked = false ∨ msg.type = SSH_AGENTC_UNLOCK
    · rw [processReal_run_of_gate a now hm hgate] at h
      exact dispatch_gatedStep hgate _ h
    · obtain ⟨hl, ht⟩ := not_or.mp hgate
      rw [processReal_run_locked a now hm (by simpa using hl) ht] at h
      cases h
      exact .inl rfl

/-- `process` moves the store as the `processReal` it calls does, and a buffered chunk not
at all. -/
theorem process_gatedStep {c c' : Connection} (data : Bytes)
    (h : afterStep ((process crypto emb now data).run c) = some c') :
    GatedStep crypto c.agent.keys c'.agent.keys := by
  by_cases hb : c.tempBuffer = []
  · by_cases hlen : 5 ≤ data.length
    · rw [process_run_direct hb hlen] at h
      have hr : afterStep ((processReal crypto emb now data).run c.agent) = some c'.agent := by
        revert h
        rcases (processReal crypto emb now data).run c.agent with ⟨_, _⟩ | ⟨⟨_⟩ | ⟨_⟩, _⟩ <;>
          intro h <;> cases h <;> rfl
      exact processReal_gatedStep data hr
    · rw [process_run_short hb (by omega)] at h
      cases h
      exact .inl rfl
  · rw [process_run_buffered hb] at h
    have hr : afterStep ((processReal crypto emb now (c.tempBuffer ++ data)).run c.agent) =
        some c'.agent := by
      revert h
      rcases (processReal crypto emb now (c.tempBuffer ++ data)).run c.agent with
        ⟨_, _⟩ | ⟨⟨_⟩ | ⟨_⟩, _⟩ <;> intro h <;> cases h <;> rfl
    exact processReal_gatedStep _ hr

/-- Every run of chunks through a connection moves the store only by operations issued
through the lock gate. -/
theorem processChunks_reachable (ds : List Bytes) :
    ∀ c c', afterStep ((processChunks crypto emb now ds).run c) = some c' →
      Reachable crypto lockGate c.agent.keys c'.agent.keys := by
  induction ds with
  | nil =>
    intro c c' h
    cases h
    exact .init
  | cons d ds ih =>
    intro c c' h
    rw [processChunks, run_bind] at h
    cases hr : (process crypto emb now d).run c with
    | ok v c₁ =>
      rw [hr] at h
      exact (process_gatedStep d (by rw [hr]; rfl)).reachable.trans (ih c₁ c' h)
    | error e c₁ =>
      rw [hr] at h
      have h' : afterStep ((process crypto emb now d).run c) = some c' := by
        rw [hr]
        cases e <;> exact h
      exact (process_gatedStep d h').reachable

/-- A LOCK frame whose first three bytes come alone: they are buffered, and the store is
locked once the rest arrives. -/
theorem processChunks_reachable_splitLock :
    ∃ c', afterStep ((processChunks Crypto.symbolic Embedder.plain 0
        [[0, 0, 0], [7, 22, 0, 0, 0, 2, 112, 119]]).run
          ⟨⟨(KeyManager.init 0).setLockProvider, Session.init, []⟩, []⟩) = some c' ∧
      Reachable Crypto.symbolic lockGate (KeyManager.init 0).setLockProvider c'.agent.keys :=
  ⟨_, rfl, @processChunks_reachable Crypto.symbolic Embedder.plain 0
    [[0, 0, 0], [7, 22, 0, 0, 0, 2, 112, 119]]
    ⟨⟨(KeyManager.init 0).setLockProvider, Session.init, []⟩, []⟩ _ rfl⟩

theorem signFinish_keeps (sm : SignRequestMessage) (key : Key) (confirmed : Bool) :
    Keeps SameKeys (signFinish crypto emb sm key confirmed) := by
  unfold signFinish
  split
  · exact keeps_sameKeys_bind (fun _ => rfl) fun _ =>
      keeps_sameKeys_bind (fun _ => rfl) fun _ => keeps_pure SameKeys.refl _
  refine keeps_sameKeys_bind (keeps_pure SameKeys.refl _) fun _ => ?_
  refine keeps_sameKeys_bind (keeps_liftFault SameKeys.refl _) fun _ => ?_
  refine keeps_sameKeys_bind (fun _ => rfl) fun _ => ?_
  refine keeps_sameKeys_bind (keeps_liftExcept SameKeys.refl _) fun _ => ?_
  exact keeps_sameKeys_bind (fun _ => rfl) fun _ => keeps_pure SameKeys.refl _

end Session

open KeyManager Session

namespace System

variable {crypto : Crypto} {emb : Embedder} {now : Int} {sys sys' : System} {i : Nat}

/-- A sign worker that finishes leaves the store it ran on. -/
theorem finish_keys {a : Agent} {sm : SignRequestMessage} {key : Key} {b : Bool}
    (h : finish crypto emb sys i a sm key b = some sys') : sys'.keys = a.keys := by
  unfold finish at h
  split at h
  · rename_i hr
    cases h
    have hk := catchFailure_keeps SameKeys.trans (@signFinish_keeps crypto emb sm key b)
      (keeps_pure SameKeys.refl ()) (fun _ => rfl) a
    rw [hr] at hk
    exact hk
  · cases h

/-- A frame moves the shared store as `processReal` does; a SIGN_REQUEST split at its
prompt not at all. -/
theorem deliver_gatedStep {session : Session} {sent : List Bytes} {msg : Message} {data : Bytes}
    (h : sys.deliver crypto emb now i ⟨sys.keys, session, sent⟩ msg data = some sys') :
    GatedStep crypto sys.keys sys'.keys := by
  rcases deliver_cases h with ⟨-, sm, key, a', hc, h⟩ | ⟨e, a', hc, rfl⟩ | ⟨r, a', hr, rfl⟩
  · have hk : a'.keys = sys.keys := by
      have := signCheck_keeps msg ⟨sys.keys, session.enterSignWorker, sent⟩
      rw [hc] at this
      exact this.1
    rcases h with rfl | h
    · exact .inl hk
    · exact .inl ((finish_keys h).trans hk)
  · have := signCheck_keeps msg ⟨sys.keys, session.enterSignWorker, sent⟩
    rw [hc] at this
    exact .inl this.1
  · exact processReal_gatedStep data (by rw [hr]; rfl)

theorem step_gatedStep {e : Event} (h : sys.step crypto emb now e = some sys') :
    GatedStep crypto sys.keys sys'.keys := by
  cases e with
  | frame i data =>
    obtain ⟨_, _, _, -, -, h⟩ := step_frame_inv h
    exact deliver_gatedStep h
  | answer i b =>
    rw [step] at h
    split at h
    · exact .inl (finish_keys h)
    · cases h

/-- Across every interleaving of the sessions' frames and prompt answers, the shared store
moves only by operations issued through the lock gate. -/
theorem run_reachable {es : List Event} (h : sys.run crypto emb now es = some sys') :
    Reachable crypto lockGate sys.keys sys'.keys := by
  induction es generalizing sys with
  | nil =>
    cases h
    exact .init
  | cons e es ih =>
    rw [run, Option.bind_eq_some] at h
    obtain ⟨sys₁, h₁, h⟩ := h
    exact (step_gatedStep h₁).reachable.trans (ih h)

/-- While the store is locked, a run of frames none of which is an UNLOCK leaves the store
and the signature log as they were: the lock gate turns every other request away. -/
theorem run_locked_frames {es : List Event} (hl : sys.keys.locked = true)
    (hes : ∀ e ∈ es, ∃ i data msg, e = .frame i data ∧ Message.ofBytes data = .ok msg ∧
      msg.type ≠ SSH_AGENTC_UNLOCK)
    (h : sys.run crypto emb now es = some sys') :
    sys'.keys = sys.keys ∧ sys'.signatures = sys.signatures := by
  induction es generalizing sys with
  | nil =>
    cases h
    exact ⟨rfl, rfl⟩
  | cons e es ih =>
    rw [run, Option.bind_eq_some] at h
    obtain ⟨sys₁, h₁, h⟩ := h
    obtain ⟨i, data, msg, rfl, hmsg, hty⟩ := hes e (List.mem_cons_self _ _)
    obtain ⟨hk, hs⟩ := step_frame_locked hl hmsg hty h₁
    obtain ⟨hk', hs'⟩ := ih (hk ▸ hl) (fun e he => hes e (List.mem_cons_of_mem _ he)) h
    exact ⟨hk'.trans hk, hs'.trans hs⟩

/-- A sign request and a remove-identity request of the prompt run's key. -/
def signRemoveFrames : List Event :=
  [.frame 0 ([0, 0, 0, 33, 13, 0, 0, 0, 20] ++ promptKeyBlob ++ [0, 0, 0, 0, 0, 0, 0, 0]),
   .frame 0 ([0, 0, 0, 25, 18, 0, 0, 0, 20] ++ promptKeyBlob)]

/-- On the prompt run's store, locked, both are turned away. -/
theorem run_locked_frames_signRemove :
    ∃ sys', System.run Crypto.symbolic Embedder.plain 0
        (System.init { promptStore with locked := true } 1) signRemoveFrames = some sys' ∧
      sys'.keys = { promptStore with locked := true } ∧ sys'.signatures = [] := by
  obtain ⟨sys', h⟩ : ∃ sys', System.run Crypto.symbolic Embedder.plain 0
      (System.init { promptStore with locked := true } 1) signRemoveFrames = some sys' := ⟨_, rfl⟩
  refine ⟨sys', h, run_locked_frames rfl (fun e he => ?_) h⟩
  simp only [signRemoveFrames, List.mem_cons, List.mem_singleton, List.not_mem_nil,
    or_false] at he
  rcases he with rfl | rfl
  · exact ⟨0, _, _, rfl, rfl, by decide⟩
  · exact ⟨0, _, _, rfl, rfl, by decide⟩

end System

section WellBehaved

variable {crypto : Crypto} {emb : Embedder} {now : Int} {sys sys' : System} {es : List Event}
  (hprotect : ∀ mat pw, ∃ enc, crypto.protect mat pw = .ok enc)
  (hunprotect : ∀ mat pw enc, crypto.protect mat pw = .ok enc →
    crypto.unprotect enc pw = .ok (some mat))
  (hcheck : ∀ p q, crypto.pwCheck p (crypto.pwHash q) = true ↔ p = q)

include hprotect hunprotect hcheck in
/-- Across every interleaving of the sessions' frames and prompt answers, the lock flag
agrees with the shared store's keys: unlocked, every key holds its material; locked, none
does, and each holds it protected under the passphrase the provider's hash was made from. -/
theorem System.run_keeps_lockConsistent (hc : LockConsistent crypto sys.keys)
    (h : sys.run crypto emb now es = some sys') : LockConsistent crypto sys'.keys :=
  (System.run_reachable h).invariant hc fun _ _ _ hc hg hs =>
    hc.step hprotect hunprotect hcheck hg hs

include hprotect hunprotect hcheck in
/-- While session `i`'s prompt is open, a frame of another session (a LOCK) leaves the store
locked with the worker's key still in it: the lock took the stored key's material, the worker
holds that stored object, and when the user confirms, signing with it ends the process. -/
theorem System.lock_during_prompt_ends_run {i j : Nat} {data : Bytes} {sys₁ : System}
    {session : Session} {sent : List Bytes} {sm : SignRequestMessage} {key : Key}
    (hc : LockConsistent crypto sys.keys) (hji : j ≠ i)
    (hp : sys.peers.get? i = some ⟨session, sent, some (sm, key)⟩)
    (hstep : sys.step crypto emb now (.frame j data) = some sys₁) (hl : sys₁.keys.locked = true)
    (hheld : sys₁.keys.keys.any (·.serial == key.serial)) :
    sys.run crypto emb now [.frame j data, .answer i true] = none := by
  have hc₁ : LockConsistent crypto sys₁.keys :=
    (step_gatedStep hstep).reachable.invariant hc fun _ _ _ hc hg hs =>
      hc.step hprotect hunprotect hcheck hg hs
  obtain ⟨_, -, hall⟩ := hc₁.locked hl
  have hbare := holdKey_material (fun k hk => (hall k hk).1) hheld
  rw [run, hstep, Option.some_bind, run, step, step_frame_pending hji hp hstep]
  dsimp only
  rw [finish_without_material hbare (by rw [Bool.not_true, Bool.and_false])]
  rfl

end WellBehaved

/-- Session 0's prompt for the prompt run's key is open when session 1 locks the store with
`pw`, and the user confirms. -/
theorem lock_during_prompt_ends_run_promptStore :
    ∃ sys, System.step Crypto.symbolic Embedder.plain 0 (System.init promptStore 2)
        (.frame 0 promptSignFrame) = some sys ∧
      System.run Crypto.symbolic Embedder.plain 0 sys
        [.frame 1 [0, 0, 0, 7, 22, 0, 0, 0, 2, 112, 119], .answer 0 true] = none :=
  ⟨_, rfl, @System.lock_during_prompt_ends_run Crypto.symbolic Embedder.plain 0 _
    (fun _ _ => ⟨_, rfl⟩) (fun _ _ _ h => by cases h; exact Crypto.symbolic_unprotect_protect _ _)
    Crypto.symbolic_pwCheck_pwHash 0 1 _ _ _ _ _ _ (.of_unlocked rfl rfl (by decide)) (by decide)
    rfl rfl rfl rfl⟩

/-- An ADD_IDENTITY frame of an Ed25519 key with key field `[7]`, no comment. -/
def addEd25519Frame : Bytes :=
  [0, 0, 0, 30, 17, 0, 0, 0, 11] ++ ed25519TypeName ++ [0, 0, 0, 1, 7, 0, 0, 0, 1, 8, 0, 0, 0, 0]


/-- Session 0 adds a key, session 1 locks the store, session 0's sign request is turned away,
and session 1 unlocks. -/
def addLockSignUnlock : List Event :=
  [.frame 0 addEd25519Frame, .frame 1 [0, 0, 0, 7, 22, 0, 0, 0, 2, 112, 119],
   .frame 0 ([0, 0, 0, 33, 13, 0, 0, 0, 20] ++ promptKeyBlob ++ [0, 0, 0, 0, 0, 0, 0, 0]),
   .frame 1 [0, 0, 0, 7, 23, 0, 0, 0, 2, 112, 119]]

theorem run_keeps_lockConsistent_addLockSignUnlock :
    ∃ sys', System.run Crypto.symbolic Embedder.plain 0
        (System.init (KeyManager.init 0).setLockProvider 2) addLockSignUnlock = some sys' ∧
      LockConsistent Crypto.symbolic sys'.keys :=
  ⟨_, rfl, @System.run_keeps_lockConsistent _ Embedder.plain 0
    (System.init (KeyManager.init 0).setLockProvider 2) _ addLockSignUnlock (fun _ _ => ⟨_, rfl⟩)
    (fun _ _ _ h => by cases h; exact Crypto.symbolic_unprotect_protect _ _)
    Crypto.symbolic_pwCheck_pwHash (LockConsistent.initial 0) rfl⟩

/-- That run: the key is added and kept, the store ends unlocked, session 0 is answered
SUCCESS then FAILURE, session 1 SUCCESS twice. -/
example : ∃ sys', System.run Crypto.symbolic Embedder.plain 0
        (System.init (KeyManager.init 0).setLockProvider 2) addLockSignUnlock = some sys' ∧
      sys'.keys.keys.length = 1 ∧ sys'.keys.locked = false ∧
      sys'.peers.map (·.sent) = [[simpleReply SSH_AGENT_SUCCESS, simpleReply SSH_AGENT_FAILURE],
        [simpleReply SSH_AGENT_SUCCESS, simpleReply SSH_AGENT_SUCCESS]] :=
  ⟨_, rfl, by decide, rfl, by decide⟩

end Libssha
