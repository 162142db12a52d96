import Libssha.Messages
import Libssha.Permit

/-!
# The key store

`KeyManager` (`key-manager.cpp`): the stored keys, the lock flag, the unlock throttle and
the lock provider, a `BotanLockProvider` that keeps the Argon2 hash of the last lock
passphrase. Every public operation is a step of `EStateM Fault KeyManager`, so a call that
raises leaves the store as the exception found it. A key handed out is the `shared_ptr`
the store holds: a setter called on it changes the stored key with the same serial. Clock
readings (`steady_clock`, in nanoseconds) are arguments.
-/
namespace Libssha

/-- A call of the library (`Except String`) inside a stateful operation: its exception
escapes with its text. -/
def liftExcept {σ α : Type} : Except String α → EStateM Fault σ α
  | .ok a => pure a
  | .error e => throw (.exception e)

theorem run_bind {ε σ α β : Type} (x : EStateM ε σ α) (f : α → EStateM ε σ β) (s : σ) :
    (x >>= f).run s =
      match x.run s with
      | .ok a s' => (f a).run s'
      | .error e s' => .error e s' := rfl

@[simp] theorem run_pure {ε σ α : Type} (a : α) (s : σ) :
    (pure a : EStateM ε σ α).run s = .ok a s := rfl

@[simp] theorem liftExcept_ok {σ α : Type} (v : α) :
    (liftExcept (.ok v) : EStateM Fault σ α) = pure v := rfl

@[simp] theorem liftExcept_error {σ α : Type} (e : String) :
    (liftExcept (.error e) : EStateM Fault σ α) = throw (.exception e) := rfl

/-- A step that returns a value or ends the process. -/
def liftFault {σ α : Type} : Except Fault α → EStateM Fault σ α
  | .ok a => pure a
  | .error e => throw e

/-- The `for (auto &key : m_keys)` loop of `lock` and `unlock`, running a key operation in
place: a key keeps what the operation did to it, also when it raises, and the loop ends at
the first raise. -/
def eachKey {α : Type} (f : EStateM Fault Key α) : List Key → EStateM.Result Fault (List Key) Unit
  | [] => .ok () []
  | k :: ks =>
    match f.run k with
    | .ok _ k' =>
      match eachKey f ks with
      | .ok _ ks' => .ok () (k' :: ks')
      | .error e ks' => .error e (k' :: ks')
    | .error e k' => .error e (k' :: ks)

structure KeyManager where
  keys : List Key
  locked : Bool
  failedAttempts : Nat
  lockedUntil : Int
  /-- `m_lock_provider`: `none` until the embedder sets one, else the hash the provider
  holds. -/
  lockProvider : Option Bytes
  /-- The serial of the next key the store creates. -/
  nextSerial : Nat
  deriving Repr, DecidableEq

/-- A key is live at `now` when it has no lifetime, or fewer whole seconds than its lifetime
have passed since `setLifetime`. -/
def Key.Live (k : Key) (now : Int) : Prop :=
  k.lifetime = 0 ∨ (now - k.addedTime).tdiv 1000000000 < k.lifetime.toNat

instance (k : Key) (now : Int) : Decidable (k.Live now) := inferInstanceAs (Decidable (_ ∨ _))

theorem Key.expired_eq_false_iff (k : Key) (now : Int) : k.expired now = false ↔ k.Live now := by
  simp only [Key.expired, Key.Live, Bool.and_eq_false_iff, decide_eq_false_iff_not, ne_eq,
    Bool.not_eq_false', decide_eq_true_eq, not_not, ge_iff_le, Int.not_le]

theorem Key.not_expired_eq (k : Key) (now : Int) : (!k.expired now) = decide (k.Live now) :=
  Bool.eq_iff_iff.mpr (by simp only [Bool.not_eq_true', Key.expired_eq_false_iff,
    decide_eq_true_eq])

theorem Key.expired_eq (k : Key) (now : Int) : k.expired now = decide ¬k.Live now :=
  Bool.eq_iff_iff.mpr (by simp only [← Key.expired_eq_false_iff, Bool.not_eq_false,
    decide_eq_true_eq])

namespace KeyManager

variable (crypto : Crypto)

/-- `KeyManager()` at clock `now`: empty, unlocked, the throttle window ten seconds past. -/
def init (now : Int) : KeyManager := ⟨[], false, 0, now - 10 * 1000000000, none, 0⟩

/-- `setLockProvider(new BotanLockProvider)`: a provider whose hash is still empty. -/
def setLockProvider (m : KeyManager) : KeyManager := { m with lockProvider := some [] }

/-- `isLocked()`. -/
def isLocked (m : KeyManager) : Bool := m.locked

/-- `getKey(key_blob)`: the first stored key with this public blob (`findKey`). -/
def getKey (m : KeyManager) (blob : Bytes) : Option Key := m.keys.find? (·.pubBlob == blob)

/-- `m_keys.erase(findKey(blob))`: the first stored key with this public blob goes. -/
def eraseKey (keys : List Key) (blob : Bytes) : List Key := keys.eraseP (·.pubBlob == blob)

/-- A setter called through a handed-out pointer: the stored key with this serial changes. -/
def updateKey (m : KeyManager) (serial : Nat) (f : Key → Key) : KeyManager :=
  { m with keys := m.keys.map fun k => if k.serial = serial then f k else k }

/-- Run a key operation on every stored key in place (`for (auto &key : m_keys)`). -/
def forEachKey {α : Type} (f : EStateM Fault Key α) : EStateM Fault KeyManager Unit := fun m =>
  match eachKey f m.keys with
  | .ok _ ks => .ok () { m with keys := ks }
  | .error e ks => .error e { m with keys := ks }

/-- `addKey(type, blob, comment)`: the public blob is extracted first and a stored key with
that blob is erased; only then is the new key created and appended. -/
def addKey (type blob comment : Bytes) : EStateM Fault KeyManager Key := do
  let pubKey ← liftExcept (KeyFactory.extractPubKey type blob)
  modify fun m => { m with keys := eraseKey m.keys pubKey }
  let k ← liftExcept (KeyFactory.createKey crypto type blob comment)
  let m ← get
  let k := { k with serial := m.nextSerial }
  set { m with keys := m.keys ++ [k], nextSerial := m.nextSerial + 1 }
  pure k

/-- The options `addKey(msg)` sets on the key it added: a positive lifetime from `now`, the
confirm flag, and the constraints of a restrict-destination extension. -/
def keyOptions (msg : AddIdentityMessage) (now : Int) (k : Key) : Key :=
  let k := if msg.lifetime > 0 then { k with lifetime := msg.lifetime, addedTime := now } else k
  let k := { k with confirmRequired := msg.confirmRequired }
  match msg.extension with
  | some ext => { k with destConstraints := ext.constraints }
  | none => k

/-- `addKey(msg)`. -/
def addIdentity (msg : AddIdentityMessage) (now : Int) : EStateM Fault KeyManager Unit := do
  let key ← addKey crypto msg.keyType msg.keyBlob msg.keyComment
  modify fun m => m.updateKey key.serial (keyOptions msg now)

def removeKey (blob : Bytes) : EStateM Fault KeyManager Unit :=
  modify fun m => { m with keys := eraseKey m.keys blob }

def removeAllKeys : EStateM Fault KeyManager Unit :=
  modify fun m => { m with keys := [] }

/-- A call `KeyManager` makes on a registered `KeyManagerObserver`. -/
inductive KeyEvent where
  | keyPreRemove (key : Key)
  | keyRemoved (fingerprint : Bytes)
  deriving Repr, DecidableEq

/-- `emitKeyPreRemove(key)` and `emitKeyRemoved(fingerprint)`: the event goes to every
observer of `m_observers`, in its order. -/
def emit (observers : List Nat) (e : KeyEvent) : List (Nat × KeyEvent) :=
  observers.map fun o => (o, e)

/-- The iterator loop of `cleanupExpiredKeys` at position `i`: an expired key is announced,
erased (the iterator then stands on its successor) and announced removed by fingerprint; a
live key is stepped over. It returns the keys left and the observer calls made. -/
def cleanupFrom (observers : List Nat) (now : Int) (i : Nat) (keys : List Key) :
    List Key × List (Nat × KeyEvent) :=
  if h : i < keys.length then
    if keys[i].expired now then
      let r := cleanupFrom observers now i (keys.eraseIdx i)
      (r.1, emit observers (.keyPreRemove keys[i]) ++
        emit observers (.keyRemoved (keys[i].fingerprint crypto)) ++ r.2)
    else cleanupFrom observers now (i + 1) keys
  else (keys, [])
termination_by keys.length - i
decreasing_by
  all_goals simp_wf
  · rw [List.length_eraseIdx, if_pos h]
    omega
  · omega

/-- `cleanupExpiredKeys()` at clock `now`, with these observers registered: the store keeps
what the loop leaves, and the observer calls the loop made are returned. -/
def cleanupExpiredKeys (observers : List Nat) (now : Int) :
    EStateM Fault KeyManager (List (Nat × KeyEvent)) := fun m =>
  let r := cleanupFrom crypto observers now 0 m.keys
  .ok r.2 { m with keys := r.1 }

/-- `listKeys(session)`: the keys permitted to the session for an empty user. -/
def listKeys (m : KeyManager) (bindingFailed : Bool) (bindings : List SessionBinding) :
    List Key :=
  m.keys.filter fun k => (k.permitted bindingFailed bindings [] MatchInfo.empty).1

/-- `lock(passphrase)`: no provider aborts; the provider hashes the passphrase, then each
key encrypts its material, and only after the loop is the store marked locked. -/
def lock (passphrase : Bytes) : EStateM Fault KeyManager Unit := do
  let m ← get
  if m.lockProvider.isNone then throw (.crash "abort: no lock provider set")
  if m.locked then throw (.exception "Agent is already locked")
  set { m with lockProvider := some (crypto.pwHash passphrase) }
  forEachKey (Key.lock crypto passphrase)
  modify fun m => { m with locked := true }

/-- `INT_MAX` of the `int` the throttle wait is cast to. -/
def INT_MAX : Nat := 2147483647

/-- `static_cast<int>(floor(pow(1.8, n)))`, with `1.8^n` taken as the exact `9^n / 5^n`:
past `INT_MAX` the conversion is undefined. -/
def waitTime (n : Nat) : Except Fault Int :=
  if 9 ^ n / 5 ^ n > INT_MAX then .error (.crash "static_cast<int> of a double past INT_MAX")
  else .ok (9 ^ n / 5 ^ n : Nat)

/-- The `catch (...)` block of `unlock`: count the failure and, past two, close the
throttle window for `floor(1.8^n)` seconds from `now`. -/
def recordFailure (now : Int) : EStateM Fault KeyManager Unit := do
  let m ← get
  let n := m.failedAttempts + 1
  set { m with failedAttempts := n }
  if n > 2 then
    let wait ← liftFault (waitTime n)
    set { m with failedAttempts := n, lockedUntil := now + wait * 1000000000 }

/-- The `try` block of `unlock`: the provider checks the passphrase against its hash, then
every key decrypts its material; a `false` from a key is ignored. -/
def unlockKeys (passphrase hash : Bytes) : EStateM Fault KeyManager Unit := do
  if !crypto.pwCheck passphrase hash then throw (.exception "Incorrect passphrase")
  forEachKey (Key.unlock crypto passphrase)

/-- `unlock(passphrase)` at clock `now`. Inside the throttle window even the right
passphrase is refused, and the attempt still counts. -/
def unlock (passphrase : Bytes) (now : Int) : EStateM Fault KeyManager Unit := do
  let m ← get
  if !m.locked then throw (.exception "Agent is not locked")
  let some hash := m.lockProvider | throw (.crash "abort: no lock provider set")
  if now < m.lockedUntil then
    set { m with failedAttempts := m.failedAttempts + 1 }
    throw (.exception ("Too many failed unlock attempts, please wait " ++
      toString ((m.lockedUntil - now).tdiv 1000000000) ++ " seconds before retrying"))
  tryCatch (unlockKeys crypto passphrase hash) fun e => do
    if let .exception _ := e then recordFailure now
    throw e
  modify fun m => { m with locked := false, failedAttempts := 0 }

/-- The operations a caller issues on the store, with the clock readings they take. -/
inductive Op where
  | addKey (type blob comment : Bytes)
  | addIdentity (msg : AddIdentityMessage) (now : Int)
  | removeKey (blob : Bytes)
  | removeAllKeys
  | cleanupExpiredKeys (observers : List Nat) (now : Int)
  | lock (passphrase : Bytes)
  | unlock (passphrase : Bytes) (now : Int)
  deriving Repr, DecidableEq

namespace Op

def exec : Op → EStateM Fault KeyManager Unit
  | .addKey type blob comment => do let _ ← KeyManager.addKey crypto type blob comment
  | .addIdentity msg now => KeyManager.addIdentity crypto msg now
  | .removeKey blob => KeyManager.removeKey blob
  | .removeAllKeys => KeyManager.removeAllKeys
  | .cleanupExpiredKeys observers now => do
    let _ ← KeyManager.cleanupExpiredKeys crypto observers now
  | .lock passphrase => KeyManager.lock crypto passphrase
  | .unlock passphrase now => KeyManager.unlock crypto passphrase now

def addsKey : Op → Bool
  | .addKey .. | .addIdentity .. => true
  | _ => false

/-- The store after the operation, whether it returned or raised; `none` when it ended
the process. -/
def apply (op : Op) (m : KeyManager) : Option KeyManager :=
  match (op.exec crypto).run m with
  | .ok _ m' => some m'
  | .error (.exception _) m' => some m'
  | .error (.crash _) _ => none

end Op

/-- A run of operations, one after another, up to the first that ends the process. -/
def runOps : List Op → KeyManager → Option KeyManager
  | [], m => some m
  | op :: ops, m => (op.apply crypto m).bind (runOps ops)

/-- The stores reachable from `m₀` by operations that return or raise, each issued while
`allowed` holds of the store it meets. -/
inductive Reachable (allowed : KeyManager → Op → Prop) (m₀ : KeyManager) : KeyManager → Prop
  | init : Reachable allowed m₀ m₀
  | step {m m' : KeyManager} (op : Op) : Reachable allowed m₀ m → allowed m op →
      op.apply crypto m = some m' → Reachable allowed m₀ m'

/-- The lock gate of `Session::processReal`: no key is added while the store is locked. -/
def lockGate (m : KeyManager) (op : Op) : Prop := op.addsKey = true → m.locked = false

variable {crypto}

/-- An invariant that holds at the start and survives every allowed operation holds of
every reachable store. -/
theorem Reachable.invariant {allowed : KeyManager → Op → Prop} {m₀ m : KeyManager}
    {P : KeyManager → Prop} (h₀ : P m₀)
    (hstep : ∀ m m' op, P m → allowed m op → op.apply crypto m = some m' → P m')
    (h : Reachable crypto allowed m₀ m) : P m := by
  induction h with
  | init => exact h₀
  | step op _ hallowed happly ih => exact hstep _ _ op ih hallowed happly

/-- A run with no restriction, started from a reachable store, ends in a reachable one. -/
theorem Reachable.runOps {m₀ m₁ : KeyManager} (h₁ : Reachable crypto (fun _ _ => True) m₀ m₁) :
    ∀ {ops : List Op} {m : KeyManager}, runOps crypto ops m₁ = some m →
      Reachable crypto (fun _ _ => True) m₀ m
  | [], _, h => by cases h; exact h₁
  | op :: _, _, h => by
    obtain ⟨m₂, h₂, h⟩ := Option.bind_eq_some.mp h
    exact Reachable.runOps (h₁.step op trivial h₂) h

theorem addKey_run (m : KeyManager) (type blob comment : Bytes) :
    (addKey crypto type blob comment).run m =
      match KeyFactory.extractPubKey type blob with
      | .error e => .error (.exception e) m
      | .ok p =>
        match KeyFactory.createKey crypto type blob comment with
        | .error e => .error (.exception e) { m with keys := eraseKey m.keys p }
        | .ok k => .ok { k with serial := m.nextSerial }
            { m with keys := eraseKey m.keys p ++ [{ k with serial := m.nextSerial }],
                     nextSerial := m.nextSerial + 1 } := by
  unfold addKey
  cases KeyFactory.extractPubKey type blob <;>
    cases KeyFactory.createKey crypto type blob comment <;> rfl

theorem addIdentity_run (m : KeyManager) (msg : AddIdentityMessage) (now : Int) :
    (addIdentity crypto msg now).run m =
      match (addKey crypto msg.keyType msg.keyBlob msg.keyComment).run m with
      | .ok k m' => .ok () (m'.updateKey k.serial (keyOptions msg now))
      | .error e m' => .error e m' := by
  simp only [addIdentity, estateRun_eq, bind, EStateM.bind]
  cases addKey crypto msg.keyType msg.keyBlob msg.keyComment m <;> rfl

@[simp] theorem removeKey_run (m : KeyManager) (blob : Bytes) :
    (removeKey blob).run m = .ok () { m with keys := eraseKey m.keys blob } := rfl

@[simp] theorem removeAllKeys_run (m : KeyManager) :
    removeAllKeys.run m = .ok () { m with keys := [] } := rfl

/-- The observer calls for the keys a cleanup removes, in store order. -/
def removalEvents (crypto : Crypto) (observers : List Nat) (removed : List Key) :
    List (Nat × KeyEvent) :=
  removed.flatMap fun k =>
    emit observers (.keyPreRemove k) ++ emit observers (.keyRemoved (k.fingerprint crypto))

/-- From position `i` the loop keeps the keys before `i` and the live keys after, and
announces the expired keys after `i` in order: erasing under the iterator skips none. -/
theorem cleanupFrom_eq (observers : List Nat) (now : Int) (i : Nat) (keys : List Key) :
    cleanupFrom crypto observers now i keys =
      (keys.take i ++ (keys.drop i).filter (fun k => !k.expired now),
        removalEvents crypto observers ((keys.drop i).filter (·.expired now))) := by
  induction i, keys using cleanupFrom.induct crypto observers now with
  | case1 i keys h hexp ih =>
    rw [cleanupFrom, dif_pos h, if_pos hexp, ih, List.eraseIdx_eq_take_drop_succ,
      List.drop_eq_getElem_cons h]
    have htake : (keys.take i).length = i := List.length_take_of_le (by omega)
    simp only [List.take_left' htake, List.drop_left' htake, List.filter_cons, hexp,
      Bool.not_true, Bool.false_eq_true, ite_false, ite_true, removalEvents, List.flatMap_cons,
      List.append_assoc]
  | case2 i keys h hexp ih =>
    rw [cleanupFrom, dif_pos h, if_neg hexp, ih, List.drop_eq_getElem_cons h]
    simp only [Bool.not_eq_true] at hexp
    simp only [List.filter_cons, hexp, Bool.not_false, ite_true, Bool.false_eq_true, ite_false,
      List.take_succ, List.getElem?_eq_getElem h, Option.toList_some, List.append_assoc,
      List.singleton_append]
  | case3 i keys h =>
    rw [cleanupFrom, dif_neg h, List.take_of_length_le (by omega),
      List.drop_of_length_le (by omega)]
    simp [removalEvents]

theorem cleanupExpiredKeys_run (m : KeyManager) (observers : List Nat) (now : Int) :
    (cleanupExpiredKeys crypto observers now).run m =
      .ok (removalEvents crypto observers (m.keys.filter (·.expired now)))
        { m with keys := m.keys.filter fun k => !k.expired now } := by
  simp only [cleanupExpiredKeys, estateRun_eq, cleanupFrom_eq, List.take_zero, List.drop_zero,
    List.nil_append]

theorem Op.apply_cleanupExpiredKeys (m : KeyManager) (observers : List Nat) (now : Int) :
    (Op.cleanupExpiredKeys observers now).apply crypto m =
      some { m with keys := m.keys.filter fun k => !k.expired now } := by
  have h := @cleanupExpiredKeys_run crypto m observers now
  simp only [estateRun_eq] at h
  simp only [Op.apply, Op.exec, estateRun_eq, bind, EStateM.bind, h]
  rfl

/-- An ECDSA private blob whose curve is `nistp384`, point `[4]` and scalar `[9]`: added
under the type `ecdsa-sha2-nistp256`, `extractPub` names it by its curve while the created
key keeps the declared type. -/
def mismatchedEcdsaBlob : Bytes := [0, 0, 0, 8] ++ ascii "nistp384" ++ [0, 0, 0, 1, 4, 0, 0, 0, 1, 9]

theorem emit_filter_of_not_mem {observers : List Nat} {o : Nat} (ho : o ∉ observers)
    (e : KeyEvent) : (emit observers e).filter (fun p => p.1 = o) = [] := by
  rw [List.filter_eq_nil_iff]
  intro p hp
  obtain ⟨o', ho', rfl⟩ := List.mem_map.mp hp
  simpa using fun h : o' = o => ho (h ▸ ho')

/-- An observer registered once hears each event once. -/
theorem emit_filter_of_mem {observers : List Nat} {o : Nat} (hobs : observers.Nodup)
    (ho : o ∈ observers) (e : KeyEvent) : (emit observers e).filter (fun p => p.1 = o) = [(o, e)] := by
  induction observers with
  | nil => nomatch ho
  | cons o' os ih =>
    obtain ⟨hnot, hnodup⟩ := List.nodup_cons.mp hobs
    by_cases h : o' = o
    · subst h
      rw [emit, List.map_cons, List.filter_cons_of_pos (by simp)]
      exact congrArg _ (emit_filter_of_not_mem hnot e)
    · have ho' : o ∈ os := (List.mem_cons.mp ho).resolve_left (Ne.symm h)
      rw [emit, List.map_cons, List.filter_cons_of_neg (by simpa using h)]
      exact ih hnodup ho'

/-- `cleanupExpiredKeys` on every store at every clock reading: it keeps exactly the live
keys, in their order, and each observer registered hears, for each key removed and in store
order, `onKeyPreRemove` and then `onKeyRemoved` with its fingerprint. -/
theorem cleanupExpiredKeys_keeps_live_keys (observers : List Nat) (hobs : observers.Nodup)
    (now : Int) (m : KeyManager) :
    ∃ calls, (cleanupExpiredKeys crypto observers now).run m =
        .ok calls { m with keys := m.keys.filter fun k => k.Live now } ∧
      ∀ o ∈ observers, (calls.filter fun p => p.1 = o).map (·.2) =
        (m.keys.filter fun k => ¬k.Live now).flatMap fun k =>
          [.keyPreRemove k, .keyRemoved (k.fingerprint crypto)] := by
  refine ⟨removalEvents crypto observers (m.keys.filter (·.expired now)),
    by rw [cleanupExpiredKeys_run]; simp only [Key.not_expired_eq], fun o ho => ?_⟩
  simp only [Key.expired_eq]
  induction (m.keys.filter fun k => decide ¬k.Live now) with
  | nil => rfl
  | cons k ks ih =>
    simp only [removalEvents, List.flatMap_cons, List.filter_append, List.map_append,
      emit_filter_of_mem hobs ho] at ih ⊢
    rw [ih]
    rfl

/-- A store with a key of lifetime 3 s added at time 0 and a key without lifetime. -/
def expiringStore : KeyManager :=
  { init 0 with keys := [{ Key.fresh .ed25519 [] ⟨[1], .ed25519 [1]⟩ [2] with lifetime := 3 },
    Key.fresh .ed25519 [] ⟨[3], .ed25519 [3]⟩ [4]] }

theorem cleanupExpiredKeys_keeps_live_keys_expiringStore :
    [1, 2].Nodup ∧ ∃ calls, (cleanupExpiredKeys Crypto.symbolic [1, 2] 5000000000).run
        expiringStore = .ok calls
          { expiringStore with keys := expiringStore.keys.filter fun k => k.Live 5000000000 } ∧
      ∀ o ∈ [1, 2], (calls.filter fun p => p.1 = o).map (·.2) =
        (expiringStore.keys.filter fun k => ¬k.Live 5000000000).flatMap fun k =>
          [.keyPreRemove k, .keyRemoved (k.fingerprint Crypto.symbolic)] :=
  ⟨by decide, @cleanupExpiredKeys_keeps_live_keys Crypto.symbolic [1, 2] (by decide) 5000000000
    expiringStore⟩

end KeyManager

end Libssha
