import Libssha.SessionBindings

/-!
# Signing with destination-constrained keys

For a key with destination constraints, `Session::processSignRequest` signs only after the
checks of `checkDestination`, and those checks pass only when the design's conditions hold:
an unfailed, non-empty binding chain, a host-bound user-auth request for the last binding's
session, and `identity_permitted` for its user. Otherwise the one reply is FAILURE, and the
store is left as it was. A failed binding is never undone: once `binding_failed` is set on
a connection, every key with destination constraints is refused for the rest of it, whatever
chunks follow.
-/
namespace Libssha

namespace Session

/-- Conditions (i)–(iii) under which a key with destination constraints may sign `data` in a
session, with `identity_permitted` over the design's hop match. -/
def SignAuthorized (key : Key) (s : Session) (data : Bytes) : Prop :=
  s.bindingFailed = false ∧ s.bindings ≠ [] ∧
    ∃ ua, UserAuthRequestMessage.ofBytes data = .ok ua ∧
      (s.bindings.getLast?).map (·.sessionId) = some ua.sessionId ∧
      IdentityPermitted HopMatchesAny key.destConstraints ua.username s.bindingFailed s.bindings

variable {crypto : Crypto} {emb : Embedder} (a : Agent)

/-- What the destination checks establish when they all pass. -/
theorem signAuthorized_of_checks {key : Key} {data : Bytes} {ua : UserAuthRequestMessage}
    {mi : MatchInfo} (hc : key.destConstraints ≠ []) (hb : a.session.bindings ≠ [])
    (hua : UserAuthRequestMessage.ofBytes data = .ok ua)
    (hp : (key.permitted a.session.bindingFailed a.session.bindings ua.username mi).1 = true)
    (hs : (a.session.bindings.getLast?).map (·.sessionId) = some ua.sessionId) :
    SignAuthorized key a.session data := by
  rcases (Key.permitted_iff _ _ _ _ _).mp hp with hnil | ⟨hbf, hrest⟩
  · exact absurd hnil hc
  · exact ⟨hbf, hb, ua, hua, hs, IdentityPermitted.mono (fun _ _ => HopMatchesFirst.any)
      (.inr ⟨hbf, hrest⟩)⟩

/-- Every outcome of the destination checks: they pass, and the key is authorized, or they
raise an exception; either way only the session's `MatchInfo` has changed. -/
theorem checkDestination_run (key : Key) (data : Bytes) (hc : key.destConstraints ≠ []) :
    ∃ mi, ((checkDestination key data).run a =
        .ok () { a with session := { a.session with matchInfo := mi } } ∧
        SignAuthorized key a.session data) ∨
      ∃ e, (checkDestination key data).run a =
        .error (.exception e) { a with session := { a.session with matchInfo := mi } } := by
  simp only [checkDestination, estateRun_eq, bind, EStateM.bind, get, getThe, MonadStateOf.get,
    EStateM.get]
  by_cases hb : a.session.bindings = []
  · have he : a.session.bindings.isEmpty = true := List.isEmpty_iff.mpr hb
    exact ⟨a.session.matchInfo, .inr ⟨_, by simp only [he, ↓reduceIte]; rfl⟩⟩
  have he : a.session.bindings.isEmpty = false := by simpa using hb
  simp only [he, Bool.false_eq_true, ↓reduceIte]
  cases hua : UserAuthRequestMessage.ofBytes data with
  | error e => exact ⟨a.session.matchInfo, .inr ⟨e, by simp only [liftExcept_error]; rfl⟩⟩
  | ok ua =>
    rcases hpm : key.permitted a.session.bindingFailed a.session.bindings ua.username
      a.session.matchInfo with ⟨ok, mi⟩
    refine ⟨mi, ?_⟩
    simp only [liftExcept_ok, pure, EStateM.pure, EStateM.bind, hpm, modifySession, modify,
      modifyGet, MonadStateOf.modifyGet, EStateM.modifyGet]
    cases ok
    · exact .inr ⟨_, rfl⟩
    by_cases hs : (a.session.bindings.getLast?).map (·.sessionId) = some ua.sessionId
    · refine .inl ⟨?_, signAuthorized_of_checks a hc hb hua (by rw [hpm]) hs⟩
      simp only [hs, ne_eq, not_true_eq_false, ↓reduceIte, Bool.not_true, Bool.false_eq_true,
        EStateM.bind, EStateM.pure]
    · have hs' : some ua.sessionId ≠ (a.session.bindings.getLast?).map (·.sessionId) :=
        fun h => hs h.symm
      refine .inr ⟨"Session ID does not match any session bindings", ?_⟩
      simp only [Bool.not_true, Bool.false_eq_true, ↓reduceIte, EStateM.bind, EStateM.pure]
      rw [if_pos hs']
      rfl

/-- A SIGN_REQUEST for a key with destination constraints that the design does not
authorize gets FAILURE and nothing else: no signature is made, and only the session's
`MatchInfo` has changed. -/
theorem processSignRequest_refused (crypto : Crypto) (emb : Embedder) {msg : Message}
    {sm : SignRequestMessage} {key : Key}
    (hsm : SignRequestMessage.ofMessage msg = .ok sm) (hkey : a.keys.getKey sm.keyBlob = some key)
    (hc : key.destConstraints ≠ []) (hna : ¬SignAuthorized key a.session sm.data) :
    ∃ mi, (processSignRequest crypto emb msg).run a =
      .ok false { a with session := { a.session with matchInfo := mi },
                         sent := a.sent ++ [simpleReply SSH_AGENT_FAILURE] } := by
  obtain ⟨mi, ⟨_, hauth⟩ | ⟨e, hchk⟩⟩ := checkDestination_run a key sm.data hc
  · exact absurd hauth hna
  refine ⟨mi, ?_⟩
  have hne : (!key.destConstraints.isEmpty) = true := by simpa using hc
  simp only [estateRun_eq] at hchk
  rw [processSignRequest, catchFailure_run]
  simp only [estateRun_eq, bind, EStateM.bind, hsm, liftExcept_ok, pure, EStateM.pure, get, getThe,
    MonadStateOf.get, EStateM.get, hkey, hne, ↓reduceIte, hchk]

/-- The public blob of an Ed25519 key with key field `[7]`. -/
def unboundKeyBlob : Bytes := [0, 0, 0, 11] ++ ed25519TypeName ++ [0, 0, 0, 1, 7]

/-- A store holding that key, restricted to one destination, and a session with no binding. -/
def unboundAgent : Agent :=
  ⟨{ KeyManager.init 0 with keys := [{ Key.fresh .ed25519 [] ⟨unboundKeyBlob, .ed25519 [7]⟩
      [0, 0, 0, 1, 7, 0, 0, 0, 1, 8] with
      destConstraints := [⟨⟨[], [], []⟩, ⟨[], ascii "host", [⟨ascii "K", false⟩]⟩⟩] }] },
    Session.init, []⟩

/-- The store of `unboundAgent` in a session bound to host key `K` with session id `S`. -/
def boundAgent : Agent :=
  { unboundAgent with session := { Session.init with bindings := [⟨ascii "K", ascii "S", false⟩] } }

/-- A host-bound user-auth request for user `u` that carries the session id `T`. -/
def mismatchedUserAuth : Bytes :=
  [0, 0, 0, 1] ++ ascii "T" ++ [50, 0, 0, 0, 1] ++ ascii "u" ++ [0, 0, 0, 14] ++
    ascii "ssh-connection" ++ [0, 0, 0, 35] ++ ascii "publickey-hostbound-v00@openssh.com" ++
    [1, 0, 0, 0, 0, 0, 0, 0, 0, 0, 0, 0, 0]

/-- A SIGN_REQUEST for the stored key over that user-auth request. -/
def mismatchedSignRequest : Message :=
  ⟨SSH_AGENTC_SIGN_REQUEST, [0, 0, 0, 0, 13, 0, 0, 0, 20] ++ unboundKeyBlob ++ [0, 0, 0, 81] ++
    mismatchedUserAuth ++ [0, 0, 0, 0]⟩

set_option maxRecDepth 4000 in
/-- The key is permitted to the bound host, so `permitted` writes the hop into the session's
`MatchInfo`; the session id check then raises, and the `catch` block replies FAILURE
without clearing it. -/
theorem processSignRequest_keeps_matchInfo_on_session_mismatch :
    boundAgent.session.matchInfo = MatchInfo.empty ∧
      (processSignRequest Crypto.symbolic Embedder.plain mismatchedSignRequest).run boundAgent =
        .ok false { boundAgent with
          session := { boundAgent.session with matchInfo := ⟨[], ascii "host", ascii "u"⟩ },
          sent := [simpleReply SSH_AGENT_FAILURE] } :=
  ⟨rfl, by decide⟩

/-- The agent refuses every key with destination constraints: REQUEST_IDENTITIES lists none
of them, and a SIGN_REQUEST for one is answered FAILURE with no signature made, only the
session's `MatchInfo` changed. -/
def RefusesConstrainedKeys (crypto : Crypto) (emb : Embedder) (a : Agent) : Prop :=
  (∀ k ∈ a.keys.listKeys a.session.bindingFailed a.session.bindings, k.destConstraints = []) ∧
    ∀ {msg : Message} {sm : SignRequestMessage} {key : Key},
      SignRequestMessage.ofMessage msg = .ok sm → a.keys.getKey sm.keyBlob = some key →
      key.destConstraints ≠ [] →
      ∃ mi, (processSignRequest crypto emb msg).run a =
        .ok false { a with
          session := { a.session with matchInfo := mi }
          sent := a.sent ++ [simpleReply SSH_AGENT_FAILURE] }

section FailedStays

variable {crypto : Crypto} {emb : Embedder}

/-- A failed binding lists no key with destination constraints. -/
theorem listKeys_bindingFailed (m : KeyManager) (bindings : List SessionBinding) :
    ∀ k ∈ m.listKeys true bindings, k.destConstraints = [] := by
  intro k hk
  rw [KeyManager.listKeys, List.mem_filter] at hk
  by_cases hc : k.destConstraints.isEmpty
  · exact List.isEmpty_iff.mp hc
  · simp [Key.permitted, hc] at hk

theorem refusesConstrainedKeys_of_bindingFailed {a : Agent}
    (hf : a.session.bindingFailed = true) : RefusesConstrainedKeys crypto emb a := by
  refine ⟨hf ▸ listKeys_bindingFailed _ _, fun hsm hkey hc =>
    processSignRequest_refused a crypto emb hsm hkey hc fun ha => ?_⟩
  exact Bool.false_ne_true (ha.1.symm.trans hf)

/-- Once a binding has failed on a connection it stays failed, whatever chunks follow, and
the agent refuses every key with destination constraints from then on. -/
theorem processChunks_failed_binding_refuses {now : Int} {ds : List Bytes} {c c' : Connection}
    (hf : c.agent.session.bindingFailed = true)
    (h : resultState ((processChunks crypto emb now ds).run c) = c') :
    c'.agent.session.bindingFailed = true ∧ RefusesConstrainedKeys crypto emb c'.agent := by
  subst h
  have hf' := @processChunks_onSession crypto emb _ bindingRel_failedStays now ds c hf
  exact ⟨hf', refusesConstrainedKeys_of_bindingFailed hf'⟩

end FailedStays

/-- The store of `unboundAgent` on a connection whose binding failed, after a
REQUEST_IDENTITIES. -/
theorem processChunks_failed_binding_refuses_unbound :
    ∃ c', resultState ((processChunks Crypto.symbolic Embedder.plain 0
        [[0, 0, 0, 1, 11]]).run
          ⟨{ unboundAgent with session := { Session.init with bindingFailed := true } }, []⟩) = c' ∧
      c'.agent.session.bindingFailed = true ∧
      RefusesConstrainedKeys Crypto.symbolic Embedder.plain c'.agent :=
  ⟨_, rfl, processChunks_failed_binding_refuses rfl rfl⟩

end Session

end Libssha
