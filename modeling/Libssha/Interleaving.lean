import Libssha.Session

/-!
# Sessions interleaved

The agent serves many sessions against one `KeyManager`. Each store operation runs
atomically. A SIGN_REQUEST runs in two steps: the key lookup and the checks, then, once the
confirmation prompt returns, the signature. Other sessions' requests may run while the prompt
is open. Across the prompt the worker holds the `shared_ptr` it looked up: while the store
holds that key it is the stored object, and once the store drops it the worker's copy lives
on. Nothing looks at the store again after the prompt, so a REMOVE_IDENTITY or a LOCK that
completes while a prompt is open is bypassed; a LOCK of a key the store still holds leaves
the worker a key without material, and signing with it ends the process. The sign worker
starts as `startWorker` starts it: a request while the session's worker is pending, or while
its slot holds an unjoined thread, ends the run, so in asynchronous mode a session's second
SIGN_REQUEST ends it.
-/
namespace Libssha

namespace Session

variable (crypto : Crypto) (emb : Embedder)

/-- `processSignRequest` up to the confirmation prompt: parse the request, look up the key,
run the destination checks. -/
def signCheck (msg : Message) : AgentM (SignRequestMessage × Key) := do
  let signMsg ← liftExcept (SignRequestMessage.ofMessage msg)
  let some key := (← get).keys.getKey signMsg.keyBlob
    | throw (.exception "Key not found for signing")
  if !key.destConstraints.isEmpty then checkDestination key signMsg.data
  pure (signMsg, key)

/-- `processSignRequest` from the prompt on, given the user's answer. -/
def signFinish (signMsg : SignRequestMessage) (key : Key) (confirmed : Bool) : AgentM Bool := do
  if (key.confirmRequired || emb.requiresConfirmation key) && !confirmed then
    failureResponse
    modifySession fun s => { s with matchInfo := MatchInfo.empty }
    return false
  let signature ← liftFault (key.sign crypto signMsg.data signMsg.flags)
  modifySession fun s => { s with matchInfo := MatchInfo.empty }
  let response ← liftExcept (SignResponseMessage.serialize ⟨signature⟩)
  send response
  pure true

/-- The two steps, run back to back with the embedder's answer, are the worker. -/
theorem processSignRequest_eq_check_finish (msg : Message) :
    processSignRequest crypto emb msg =
      catchFailure (do
        let (signMsg, key) ← signCheck msg
        signFinish crypto emb signMsg key (emb.confirmRequest key)) (pure ()) := by
  rw [processSignRequest, signCheck]
  simp only [bind_assoc]
  refine congrArg (catchFailure · (pure ())) (bind_congr fun sm => bind_congr fun a => ?_)
  cases a.keys.getKey sm.keyBlob with
  | none => rfl
  | some key =>
    dsimp only
    split <;> simp only [bind_assoc, pure_bind, signFinish]

variable {crypto emb}

/-- The checks, like the destination checks they run, write the agent only through the
session's `MatchInfo`. -/
theorem signCheck_keepsOf {r : Agent → Agent → Prop} (hrefl : ∀ a, r a a)
    (htrans : ∀ a₁ a₂ a₃, r a₁ a₂ → r a₂ a₃ → r a₁ a₃)
    (hmi : ∀ g : Session → MatchInfo, Keeps r (modifySession fun s => { s with matchInfo := g s }))
    (msg : Message) : Keeps r (signCheck msg) := by
  refine keeps_bind htrans (keeps_liftExcept hrefl _) fun sm => ?_
  refine keeps_bind htrans (keeps_get hrefl) fun a => ?_
  split
  · refine keeps_ite_bind htrans (checkDestination_keepsOf hrefl htrans hmi _ _) fun _ => ?_
    exact keeps_pure hrefl _
  · exact keeps_throw hrefl _

theorem signCheck_keeps (msg : Message) : Keeps SignFrame (signCheck msg) :=
  signCheck_keepsOf SignFrame.refl SignFrame.trans signFrame_setMatchInfo msg

/-- The key the checks hand on is the one the store gives for the request's blob. -/
theorem signCheck_ok {a a' : Agent} {msg : Message} {sm : SignRequestMessage} {key : Key}
    (h : (signCheck msg).run a = .ok (sm, key) a') :
    a.keys.getKey sm.keyBlob = some key := by
  rw [signCheck, run_bind] at h
  cases hm : SignRequestMessage.ofMessage msg with
  | error e => rw [hm] at h; cases h
  | ok sm₀ =>
    rw [hm, liftExcept_ok, run_pure] at h
    dsimp only at h
    rw [run_bind, show EStateM.run get a = .ok a a from rfl] at h
    dsimp only at h
    cases hk : a.keys.getKey sm₀.keyBlob with
    | none => rw [hk] at h; cases h
    | some key₀ =>
      rw [hk] at h
      dsimp only at h
      have hpure : ∀ {x : AgentM Unit},
          (x >>= fun _ => (pure (sm₀, key₀) : AgentM _)).run a = .ok (sm, key) a' →
            sm₀ = sm ∧ key₀ = key := by
        intro x hx
        rw [run_bind] at hx
        split at hx <;> cases hx
        exact ⟨rfl, rfl⟩
      obtain ⟨rfl, rfl⟩ : sm₀ = sm ∧ key₀ = key := by split at h <;> exact hpure h
      exact hk

/-- The session `startWorker` hands the sign worker: the thread slot taken, the pending flag
set. -/
def enterSignWorker (s : Session) : Session :=
  confirmationSlot.setWaiting true (confirmationSlot.setThread true s)

/-- The session when the sign worker's thread returns: the pending flag cleared, and in
synchronous mode the thread joined. -/
def leaveSignWorker (s : Session) : Session :=
  if s.asyncOperation then confirmationSlot.setWaiting false s
  else confirmationSlot.setThread false (confirmationSlot.setWaiting false s)

end Session

/-- One session of the agent: its state, what it has been sent, and, while its sign worker
waits on the confirmation prompt, the request and the key the worker holds. -/
structure Peer where
  session : Session
  sent : List Bytes
  pending : Option (SignRequestMessage × Key)
  deriving DecidableEq

/-- The store and its sessions. Every signature computed is logged with the key object that
computed it and the store at that moment. -/
structure System where
  keys : KeyManager
  peers : List Peer
  signatures : List (Key × KeyManager)
  deriving DecidableEq

/-- A whole frame reaching a session, or the confirmation prompt of a session's sign worker
returning the user's answer. -/
inductive Event where
  | frame (peer : Nat) (data : Bytes)
  | answer (peer : Nat) (confirmed : Bool)

namespace System

open Session

variable (crypto : Crypto) (emb : Embedder) (now : Int)

/-- The `shared_ptr` a worker holds: the stored key with its serial while the store holds
one, else the worker's own copy. -/
def holdKey (m : KeyManager) (k : Key) : Key := (m.keys.find? (·.serial == k.serial)).getD k

/-- `n` sessions of a store, none with a request in flight. -/
def init (m : KeyManager) (n : Nat) : System := ⟨m, List.replicate n ⟨Session.init, [], none⟩, []⟩

/-- Session `i` after a step of it that left the agent `a`; every waiting worker's key is
the stored object again. -/
def setPeer (sys : System) (i : Nat) (a : Agent) (pending : Option (SignRequestMessage × Key)) :
    System :=
  { sys with
    keys := a.keys
    peers := (sys.peers.set i ⟨a.session, a.sent, pending⟩).map fun p =>
      { p with pending := p.pending.map fun (sm, k) => (sm, holdKey a.keys k) } }

/-- The sign worker of session `i` from the prompt on, under `catchFailure`, from agent `a`,
and then the end of its thread. A crash ends the run. -/
def finish (sys : System) (i : Nat) (a : Agent) (sm : SignRequestMessage) (key : Key)
    (confirmed : Bool) : Option System :=
  match (catchFailure (signFinish crypto emb sm key confirmed) (pure ())).run a with
  | .ok signed a' =>
    let sys' := sys.setPeer i { a' with session := a'.session.leaveSignWorker } none
    some { sys' with signatures := sys.signatures ++ if signed then [(key, a.keys)] else [] }
  | .error _ _ => none

/-- A frame that session `i`, at agent `a`, has read as `msg`. It goes through
`processReal`, but an unlocked SIGN_REQUEST is split at its prompt, which it reaches only
when the key asks for confirmation. It starts its worker as `startWorker` does: while the
session's worker is pending its `logic_error` escapes, and while the slot holds an unjoined
thread the process terminates. An escaping exception or a crash ends the run. -/
def deliver (sys : System) (i : Nat) (a : Agent) (msg : Message) (data : Bytes) :
    Option System :=
  if msg.type = SSH_AGENTC_SIGN_REQUEST ∧ sys.keys.locked = false then
    if confirmationSlot.waiting a.session || confirmationSlot.thread a.session then none
    else
      match (signCheck msg).run { a with session := a.session.enterSignWorker } with
      | .ok (sm, key) a' =>
        if key.confirmRequired || emb.requiresConfirmation key then
          some (sys.setPeer i a' (some (sm, key)))
        else finish crypto emb sys i a' sm key true
      | .error (.exception _) a' =>
        some (sys.setPeer i { a' with session := a'.session.leaveSignWorker
                                      sent := a'.sent ++ [simpleReply SSH_AGENT_FAILURE] } none)
      | .error (.crash _) _ => none
  else
    match (processReal crypto emb now data).run a with
    | .ok _ a' => some (sys.setPeer i a' none)
    | .error _ _ => none

/-- One event. A session with a request in flight gets no frame, as the transport holds the
next request until the reply, and a frame without a header ends the run. -/
def step (sys : System) : Event → Option System
  | .frame i data =>
    match sys.peers.get? i, Message.ofBytes data with
    | some ⟨session, sent, none⟩, .ok msg =>
      sys.deliver crypto emb now i ⟨sys.keys, session, sent⟩ msg data
    | _, _ => none
  | .answer i confirmed =>
    match sys.peers.get? i with
    | some ⟨session, sent, some (sm, key)⟩ =>
      finish crypto emb sys i ⟨sys.keys, session, sent⟩ sm key confirmed
    | _ => none

def run (sys : System) : List Event → Option System
  | [] => some sys
  | e :: es => (sys.step crypto emb now e).bind fun sys' => run sys' es

/-- Every signature was computed with a key the store held, while it was unlocked. -/
def SignaturesSound (sys : System) : Prop :=
  ∀ k m, (k, m) ∈ sys.signatures → m.keys.any (·.serial == k.serial) ∧ m.locked = false

/-- When a prompt returns, the store still holds the worker's key and is unlocked. -/
def Held (sys : System) : Event → Prop
  | .frame _ _ => True
  | .answer i _ => ∀ session sent sm key, sys.peers.get? i = some ⟨session, sent, some (sm, key)⟩ →
      sys.keys.keys.any (·.serial == key.serial) ∧ sys.keys.locked = false

/-- Every prompt of the run returns while its key is held. -/
def HeldRun (sys : System) : List Event → Prop
  | [] => True
  | e :: es => sys.Held e ∧ ∀ sys', sys.step crypto emb now e = some sys' → HeldRun sys' es

section Steps

variable {crypto emb now} {sys sys' : System} {i : Nat}

@[simp] theorem setPeer_keys (a : Agent) (p : Option (SignRequestMessage × Key)) :
    (sys.setPeer i a p).keys = a.keys := rfl

@[simp] theorem setPeer_signatures (a : Agent) (p : Option (SignRequestMessage × Key)) :
    (sys.setPeer i a p).signatures = sys.signatures := rfl

theorem setPeer_get?_self {k : Nat} {pk : Peer} (hk : sys.peers.get? k = some pk) (a : Agent)
    (q : Option (SignRequestMessage × Key)) :
    (sys.setPeer k a q).peers.get? k =
      some ⟨a.session, a.sent, q.map fun x => (x.1, holdKey a.keys x.2)⟩ := by
  rw [List.get?_eq_getElem?] at hk ⊢
  simp only [setPeer, List.map_set, List.getElem?_set_self', List.getElem?_map, hk,
    Option.map_some', Option.map_eq_map, Function.const_apply]

theorem setPeer_get?_ne {k j : Nat} {p : Peer} (hkj : k ≠ j) (hp : sys.peers.get? j = some p)
    (a : Agent) (q : Option (SignRequestMessage × Key)) :
    (sys.setPeer k a q).peers.get? j =
      some { p with pending := p.pending.map fun x => (x.1, holdKey a.keys x.2) } := by
  rw [List.get?_eq_getElem?] at hp ⊢
  simp only [setPeer, List.map_set, List.getElem?_set_ne hkj, List.getElem?_map, hp,
    Option.map_some']

/-- A finished worker logs at most its own signature, against the store it ran on. -/
theorem finish_signatures {a : Agent} {sm : SignRequestMessage} {key : Key} {b : Bool}
    (h : finish crypto emb sys i a sm key b = some sys') :
    sys'.signatures = sys.signatures ∨ sys'.signatures = sys.signatures ++ [(key, a.keys)] := by
  unfold finish at h
  split at h
  · cases h
    rename_i signed _ _
    cases signed <;> simp
  · cases h

/-- While the store holds the worker's key, the worker sees the stored object: a store whose
keys hold no material (a locked one) hands the worker a key without material too. -/
theorem holdKey_material {m : KeyManager} {k : Key} (hall : ∀ k' ∈ m.keys, k'.material = none)
    (hk : m.keys.any (·.serial == k.serial)) : (holdKey m k).material = none := by
  obtain ⟨k', hfind⟩ := Option.isSome_iff_exists.mp
    (List.find?_isSome.mpr (List.any_eq_true.mp hk))
  rw [holdKey, hfind]
  exact hall k' (List.mem_of_find?_eq_some hfind)

/-- A worker that goes on to sign with a key whose material is gone (a LOCK reached the
stored object while the prompt was open) dereferences the null private key: the run ends. -/
theorem finish_without_material {a : Agent} {sm : SignRequestMessage} {key : Key} {b : Bool}
    (hm : key.material = none)
    (hgo : ((key.confirmRequired || emb.requiresConfirmation key) && !b) = false) :
    finish crypto emb sys i a sm key b = none := by
  simp only [finish, catchFailure_run, signFinish, hgo, Bool.false_eq_true, ↓reduceIte, run_bind,
    run_pure, Key.sign, hm, liftFault]
  rfl

theorem SignaturesSound.of_eq (hs : sys.SignaturesSound) (h : sys'.signatures = sys.signatures) :
    sys'.SignaturesSound := fun k m hm => hs k m (h ▸ hm)

theorem SignaturesSound.snoc {k : Key} {m : KeyManager} (hs : sys.SignaturesSound)
    (h : sys'.signatures = sys.signatures ++ [(k, m)]) (hk : m.keys.any (·.serial == k.serial))
    (hl : m.locked = false) : sys'.SignaturesSound := by
  intro k' m' hm
  rw [h, List.mem_append, List.mem_singleton] at hm
  rcases hm with hm | hm
  · exact hs k' m' hm
  · cases hm
    exact ⟨hk, hl⟩

theorem step_frame_inv {data : Bytes} (h : sys.step crypto emb now (.frame i data) = some sys') :
    ∃ session sent msg, sys.peers.get? i = some ⟨session, sent, none⟩ ∧
      Message.ofBytes data = .ok msg ∧
      sys.deliver crypto emb now i ⟨sys.keys, session, sent⟩ msg data = some sys' := by
  rw [step] at h
  split at h
  · exact ⟨_, _, _, ‹_›, ‹_›, h⟩
  · cases h

/-- Everything a frame a session has read can do: an unlocked SIGN_REQUEST whose worker
starts passes its checks and leaves its prompt open or finishes at once, or fails its checks
and is answered FAILURE; every other frame is what `processReal` makes of it. -/
theorem deliver_cases {a : Agent} {msg : Message} {data : Bytes}
    (h : sys.deliver crypto emb now i a msg data = some sys') :
    (sys.keys.locked = false ∧ ∃ sm key a',
      (signCheck msg).run { a with session := a.session.enterSignWorker } = .ok (sm, key) a' ∧
      (sys' = sys.setPeer i a' (some (sm, key)) ∨ finish crypto emb sys i a' sm key true = some sys')) ∨
    (∃ e a', (signCheck msg).run { a with session := a.session.enterSignWorker } =
        .error (.exception e) a' ∧
      sys' = sys.setPeer i { a' with session := a'.session.leaveSignWorker
                                     sent := a'.sent ++ [simpleReply SSH_AGENT_FAILURE] } none) ∨
    ∃ r a', (processReal crypto emb now data).run a = .ok r a' ∧ sys' = sys.setPeer i a' none := by
  unfold deliver at h
  split at h
  · rename_i hsign
    split at h
    · cases h
    split at h
    · refine .inl ⟨hsign.2, _, _, _, ‹_›, ?_⟩
      split at h
      · exact .inl (Option.some.inj h).symm
      · exact .inr h
    · exact .inr (.inl ⟨_, _, ‹_›, (Option.some.inj h).symm⟩)
    · cases h
  · split at h
    · exact .inr (.inr ⟨_, _, ‹_›, (Option.some.inj h).symm⟩)
    · cases h

/-- A frame logs no unsound signature: it signs only right after its checks found the key
in the unlocked store. -/
theorem step_frame_sound {data : Bytes} (hs : sys.SignaturesSound)
    (h : sys.step crypto emb now (.frame i data) = some sys') : sys'.SignaturesSound := by
  obtain ⟨session, sent, msg, -, -, h⟩ := step_frame_inv h
  rcases deliver_cases h with ⟨hl, sm, key, a', hc, rfl | h⟩ | ⟨e, a', -, rfl⟩ | ⟨r, a', -, rfl⟩
  · exact hs.of_eq rfl
  · have hkeys : a'.keys = sys.keys := by
      have hk := signCheck_keeps msg ⟨sys.keys, session.enterSignWorker, sent⟩
      rw [hc] at hk
      exact hk.1
    rcases finish_signatures h with h' | h'
    · exact hs.of_eq h'
    · refine hs.snoc h' ?_ (hkeys ▸ hl)
      rw [hkeys]
      exact List.any_eq_true.mpr
        ⟨key, List.mem_of_find?_eq_some (signCheck_ok hc), beq_self_eq_true _⟩
  · exact hs.of_eq rfl
  · exact hs.of_eq rfl

/-- A frame of session `j` leaves another session's open prompt as it was, the key its
worker holds read again in the store the frame left. -/
theorem step_frame_pending {j : Nat} {data : Bytes} {session : Session} {sent : List Bytes}
    {sm : SignRequestMessage} {key : Key} (hji : j ≠ i)
    (hp : sys.peers.get? i = some ⟨session, sent, some (sm, key)⟩)
    (h : sys.step crypto emb now (.frame j data) = some sys') :
    sys'.peers.get? i = some ⟨session, sent, some (sm, holdKey sys'.keys key)⟩ := by
  obtain ⟨_, _, _, -, -, h⟩ := step_frame_inv h
  rcases deliver_cases h with ⟨-, _, _, _, -, rfl | h⟩ | ⟨_, _, -, rfl⟩ | ⟨_, _, -, rfl⟩
  · exact setPeer_get?_ne hji hp _ _
  · unfold finish at h
    split at h
    · cases h
      exact setPeer_get?_ne hji hp _ _
    · cases h
  · exact setPeer_get?_ne hji hp _ _
  · exact setPeer_get?_ne hji hp _ _

theorem step_sound {e : Event} (hs : sys.SignaturesSound) (hheld : sys.Held e)
    (h : sys.step crypto emb now e = some sys') : sys'.SignaturesSound := by
  cases e with
  | frame i data => exact step_frame_sound hs h
  | answer i b =>
    rw [step] at h
    split at h
    · rename_i session sent sm key hp
      obtain ⟨hk, hl⟩ := hheld session sent sm key hp
      rcases finish_signatures h with h' | h'
      · exact hs.of_eq h'
      · exact hs.snoc h' hk hl
    · cases h

/-- Along a run, signatures stay sound as long as every prompt returns while the store holds
its key, unlocked. -/
theorem run_sound {es : List Event} (hs : sys.SignaturesSound) (hr : sys.HeldRun crypto emb now es)
    (h : sys.run crypto emb now es = some sys') : sys'.SignaturesSound := by
  induction es generalizing sys with
  | nil => cases h; exact hs
  | cons e es ih =>
    obtain ⟨hheld, hrest⟩ := hr
    rw [run, Option.bind_eq_some] at h
    obtain ⟨sys₁, h₁, h⟩ := h
    exact ih (step_sound hs hheld h₁) (hrest sys₁ h₁) h

/-- While the store is locked, a frame other than UNLOCK leaves the store and the signature
log as they were. -/
theorem step_frame_locked {data : Bytes} {msg : Message} (hl : sys.keys.locked = true)
    (hmsg : Message.ofBytes data = .ok msg) (hty : msg.type ≠ SSH_AGENTC_UNLOCK)
    (h : sys.step crypto emb now (.frame i data) = some sys') :
    sys'.keys = sys.keys ∧ sys'.signatures = sys.signatures := by
  obtain ⟨session, sent, msg', -, hmsg', h⟩ := step_frame_inv h
  rw [hmsg] at hmsg'
  cases hmsg'
  unfold deliver at h
  rw [if_neg (fun hs => by simp [hl] at hs),
    processReal_run_locked _ now hmsg hl hty] at h
  cases h
  exact ⟨rfl, rfl⟩

end Steps

end System

/-- The public blob of an Ed25519 key with key field `[7]`. -/
def promptKeyBlob : Bytes := [0, 0, 0, 11] ++ ed25519TypeName ++ [0, 0, 0, 1, 7]

/-- A store with a lock provider, holding that key, added with the confirm constraint. -/
def promptStore : KeyManager :=
  { (KeyManager.init 0).setLockProvider with
    keys := [{ Key.fresh .ed25519 [] ⟨promptKeyBlob, .ed25519 [7]⟩
      [0, 0, 0, 1, 7, 0, 0, 0, 1, 8] with confirmRequired := true }]
    nextSerial := 1 }

/-- Session 0's SIGN_REQUEST for that key. -/
def promptSignFrame : Bytes :=
  [0, 0, 0, 33, 13, 0, 0, 0, 20] ++ promptKeyBlob ++ [0, 0, 0, 0, 0, 0, 0, 0]

/-- The request opens the prompt, and the user confirms while the store still holds the key,
unlocked: the signature logged is sound. -/
theorem run_sound_confirmed :
    ∃ sys', System.run Crypto.symbolic Embedder.plain 0 (System.init promptStore 1)
        [.frame 0 promptSignFrame, .answer 0 true] = some sys' ∧ sys'.SignaturesSound := by
  obtain ⟨sys', h⟩ : ∃ sys', System.run Crypto.symbolic Embedder.plain 0
      (System.init promptStore 1) [.frame 0 promptSignFrame, .answer 0 true] = some sys' :=
    ⟨_, rfl⟩
  refine ⟨sys', h, @System.run_sound Crypto.symbolic Embedder.plain 0 (System.init promptStore 1)
    sys' [.frame 0 promptSignFrame, .answer 0 true] (fun _ _ hm => nomatch hm)
    ⟨trivial, fun sys₁ h₁ => ⟨?_, fun _ _ => trivial⟩⟩ h⟩
  obtain rfl := Option.some.inj h₁.symm
  intro session sent sm key hp
  cases hp
  exact ⟨rfl, rfl⟩

/-- Session 0 asks for a signature and its prompt opens; session 1 removes the key and locks
the store; then the user confirms. The worker signs with the key it holds, though the store
no longer has it and is locked. -/
theorem sign_after_remove_and_lock :
    ∃ sys, System.run Crypto.symbolic Embedder.plain 0 (System.init promptStore 2)
        [.frame 0 ([0, 0, 0, 33, 13, 0, 0, 0, 20] ++ promptKeyBlob ++ [0, 0, 0, 0, 0, 0, 0, 0]),
         .frame 1 ([0, 0, 0, 25, 18, 0, 0, 0, 20] ++ promptKeyBlob),
         .frame 1 [0, 0, 0, 7, 22, 0, 0, 0, 2, 112, 119],
         .answer 0 true] = some sys ∧
      ¬ sys.SignaturesSound ∧ sys.keys.getKey promptKeyBlob = none ∧ sys.keys.locked = true := by
  refine ⟨_, rfl, fun h => ?_, rfl, rfl⟩
  exact absurd (h _ _ (List.mem_singleton_self _)).2 (by decide)

end Libssha
