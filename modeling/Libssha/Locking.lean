import Libssha.KeyManager

/-!
# Locking the store

What `KeyManager::lock` and `KeyManager::unlock` do to the stored keys through each
family's `lock` and `unlock`, the invariant that ties the lock flag to the keys' material,
and the `floor(1.8^n)` throttle of failed unlocks. The invariant is kept under three
assumptions on the lock provider: `protect` succeeds, `unprotect` inverts it under the same
passphrase, and the password check accepts exactly the passphrase hashed.
-/
namespace Libssha

theorem eachKey_map {α : Type} {f : EStateM Fault Key α} {g : Key → Key} :
    ∀ {ks : List Key}, (∀ k ∈ ks, ∃ a, f.run k = .ok a (g k)) → eachKey f ks = .ok () (ks.map g)
  | [], _ => rfl
  | k :: ks, h => by
    obtain ⟨a, ha⟩ := h k (List.mem_cons_self k ks)
    simp only [eachKey, ha, eachKey_map fun k' hk' => h k' (List.mem_cons_of_mem k hk'),
      List.map_cons]

namespace Key

variable (crypto : Crypto) {k : Key} {passphrase mat : Bytes}

theorem lock_run_of_material {enc : Bytes} (h : k.material = some mat)
    (he : crypto.protect mat passphrase = .ok enc) :
    (Key.lock crypto passphrase).run k = .ok () { k with lockedData := enc, material := none } := by
  simp only [Key.lock, estateRun_eq, bind, EStateM.bind, get, getThe, MonadStateOf.get,
    EStateM.get, h, he, set, EStateM.set]

theorem unlock_run_of_unprotect (h : crypto.unprotect k.lockedData passphrase = .ok (some mat)) :
    (Key.unlock crypto passphrase).run k = .ok true { k with material := some mat } := by
  simp only [Key.unlock, estateRun_eq, bind, EStateM.bind, get, getThe, MonadStateOf.get,
    EStateM.get, h, set, EStateM.set, pure, EStateM.pure]

end Key

namespace KeyManager

variable (crypto : Crypto) {m : KeyManager} {passphrase hash : Bytes} {now : Int}

theorem lock_run_of_locked (hp : m.lockProvider = some hash) (hl : m.locked = true) :
    (lock crypto passphrase).run m = .error (.exception "Agent is already locked") m := by
  simp only [lock, estateRun_eq, bind, EStateM.bind, get, getThe, MonadStateOf.get, EStateM.get,
    hp, hl, Option.isNone_some, Bool.false_eq_true, ↓reduceIte]
  rfl

theorem lock_run (hp : m.lockProvider = some hash) (hl : m.locked = false) :
    (lock crypto passphrase).run m =
      match eachKey (Key.lock crypto passphrase) m.keys with
      | .ok _ ks =>
        .ok () { m with lockProvider := some (crypto.pwHash passphrase), keys := ks, locked := true }
      | .error e ks =>
        .error e { m with lockProvider := some (crypto.pwHash passphrase), keys := ks } := by
  simp only [lock, estateRun_eq, bind, EStateM.bind, get, getThe, MonadStateOf.get, EStateM.get, hp,
    hl, Option.isNone_some, Bool.false_eq_true, ↓reduceIte, set, EStateM.set, forEachKey]
  cases eachKey (Key.lock crypto passphrase) m.keys <;> rfl

theorem unlock_run_of_unlocked (hl : m.locked = false) :
    (unlock crypto passphrase now).run m = .error (.exception "Agent is not locked") m := by
  simp only [unlock, estateRun_eq, bind, EStateM.bind, get, getThe, MonadStateOf.get, EStateM.get,
    hl, Bool.not_false, ↓reduceIte]
  rfl

theorem unlock_run_throttled (hp : m.lockProvider = some hash) (hl : m.locked = true)
    (ht : now < m.lockedUntil) :
    ∃ msg, (unlock crypto passphrase now).run m =
      .error (.exception msg) { m with failedAttempts := m.failedAttempts + 1 } := by
  simp only [unlock, estateRun_eq, bind, EStateM.bind, get, getThe, MonadStateOf.get, EStateM.get,
    hp, hl, Bool.not_true, Bool.false_eq_true, ↓reduceIte, ht, set, EStateM.set]
  exact ⟨_, rfl⟩

/-- Outside the throttle window, `unlock` runs its `try` block and, on an exception,
records the failure before re-raising. -/
theorem unlock_run (hp : m.lockProvider = some hash) (hl : m.locked = true)
    (ht : m.lockedUntil ≤ now) :
    (unlock crypto passphrase now).run m =
      match (unlockKeys crypto passphrase hash).run m with
      | .ok _ m' => .ok () { m' with locked := false, failedAttempts := 0 }
      | .error (.exception e) m' =>
        match (recordFailure now).run m' with
        | .ok _ m'' => .error (.exception e) m''
        | .error e' m'' => .error e' m''
      | .error e m' => .error e m' := by
  have hn : ¬now < m.lockedUntil := by omega
  simp only [unlock, estateRun_eq, bind, EStateM.bind, get, getThe, MonadStateOf.get, EStateM.get,
    hp, hl, Bool.not_true, Bool.false_eq_true, ↓reduceIte, hn, tryCatch, tryCatchThe,
    MonadExceptOf.tryCatch, EStateM.tryCatch, pure, EStateM.pure]
  cases unlockKeys crypto passphrase hash m with
  | ok => rfl
  | error e m' =>
    cases e with
    | crash => rfl
    | exception =>
      simp only [EStateM.Backtrackable.restore, EStateM.Backtrackable.save, EStateM.bind,
        EStateM.dummyRestore, EStateM.dummySave]
      cases recordFailure now m' <;> rfl

theorem unlockKeys_run :
    (unlockKeys crypto passphrase hash).run m =
      if crypto.pwCheck passphrase hash then forEachKey (Key.unlock crypto passphrase) m
      else .error (.exception "Incorrect passphrase") m := by
  cases h : crypto.pwCheck passphrase hash <;>
    simp only [unlockKeys, estateRun_eq, bind, EStateM.bind, h, Bool.not_true, Bool.not_false,
      Bool.false_eq_true, ↓reduceIte] <;> rfl

theorem recordFailure_run :
    (recordFailure now).run m =
      if m.failedAttempts + 1 > 2 then
        match waitTime (m.failedAttempts + 1) with
        | .ok w =>
          .ok () { m with failedAttempts := m.failedAttempts + 1,
                          lockedUntil := now + w * 1000000000 }
        | .error e => .error e { m with failedAttempts := m.failedAttempts + 1 }
      else .ok () { m with failedAttempts := m.failedAttempts + 1 } := by
  simp only [recordFailure, estateRun_eq, bind, EStateM.bind, get, getThe, MonadStateOf.get,
    EStateM.get, set, EStateM.set]
  split
  · cases waitTime (m.failedAttempts + 1) <;> rfl
  · rfl

/-- A failure record changes only the throttle: every state it leaves, also when the wait
cast ends the process, has the store's keys, lock flag and provider. -/
theorem recordFailure_frame {r : EStateM.Result Fault KeyManager Unit}
    (h : (recordFailure now).run m = r) :
    ∃ m', (r = .ok () m' ∨ ∃ e, r = .error e m') ∧
      m'.keys = m.keys ∧ m'.locked = m.locked ∧ m'.lockProvider = m.lockProvider := by
  rw [recordFailure_run] at h
  subst h
  split
  · split
    · exact ⟨_, .inl rfl, rfl, rfl, rfl⟩
    · exact ⟨_, .inr ⟨_, rfl⟩, rfl, rfl, rfl⟩
  · exact ⟨_, .inl rfl, rfl, rfl, rfl⟩

/-- The lock flag agrees with every stored key: unlocked, every key holds its signing
material; locked, none does, and each holds material protected under the passphrase the
provider's hash was made from. -/
structure LockConsistent (m : KeyManager) : Prop where
  provider : m.lockProvider.isSome
  unlocked : m.locked = false → ∀ k ∈ m.keys, k.material.isSome
  locked : m.locked = true → ∃ pw, m.lockProvider = some (crypto.pwHash pw) ∧
    ∀ k ∈ m.keys, k.material = none ∧ ∃ mat, crypto.protect mat pw = .ok k.lockedData

variable {crypto} {m' : KeyManager}

theorem LockConsistent.restrict (hc : LockConsistent crypto m) (hl : m'.locked = m.locked)
    (hp : m'.lockProvider = m.lockProvider) (hk : ∀ k ∈ m'.keys, k ∈ m.keys) :
    LockConsistent crypto m' where
  provider := hp ▸ hc.provider
  unlocked h k hk' := hc.unlocked (hl ▸ h) k (hk k hk')
  locked h := by
    obtain ⟨pw, hpw, hks⟩ := hc.locked (hl ▸ h)
    exact ⟨pw, hp ▸ hpw, fun k hk' => hks k (hk k hk')⟩

theorem LockConsistent.of_unlocked (hp : m.lockProvider.isSome) (hl : m.locked = false)
    (hlive : ∀ k ∈ m.keys, k.material.isSome) : LockConsistent crypto m :=
  ⟨hp, fun _ => hlive, fun h => absurd (hl ▸ h) Bool.false_ne_true⟩

/-- The store an embedder starts from: a lock provider set, no keys. -/
theorem LockConsistent.initial (now : Int) : LockConsistent crypto (init now).setLockProvider :=
  .of_unlocked rfl rfl fun _ h => nomatch h

theorem keyOptions_material (msg : AddIdentityMessage) (now : Int) (k : Key) :
    (keyOptions msg now k).material = k.material := by
  unfold keyOptions; split <;> split <;> rfl

/-- After `addKey` erased a key and appended the one it created, every key is live. -/
theorem live_after_add {p blob type comment : Bytes} {k₀ : Key} {serial : Nat}
    (hlive : ∀ k ∈ m.keys, k.material.isSome)
    (hc : KeyFactory.createKey crypto type blob comment = .ok k₀) :
    ∀ k ∈ eraseKey m.keys p ++ [{ k₀ with serial := serial }], k.material.isSome := by
  intro k hk
  rcases List.mem_append.mp hk with hk | hk
  · exact hlive k (List.mem_of_mem_eraseP hk)
  · rw [List.mem_singleton.mp hk]; simp [KeyFactory.createKey_material hc]

theorem apply_addKey_live {type blob comment : Bytes} (hlive : ∀ k ∈ m.keys, k.material.isSome)
    (h : (Op.addKey type blob comment).apply crypto m = some m') :
    m'.locked = m.locked ∧ m'.lockProvider = m.lockProvider ∧ ∀ k ∈ m'.keys, k.material.isSome := by
  simp only [Op.apply, Op.exec, run_bind, addKey_run, run_pure] at h
  cases he : KeyFactory.extractPubKey type blob with
  | error e => simp only [he, Option.some.injEq] at h; subst h; exact ⟨rfl, rfl, hlive⟩
  | ok p =>
    cases hc : KeyFactory.createKey crypto type blob comment with
    | error e =>
      simp only [he, hc, Option.some.injEq] at h; subst h
      exact ⟨rfl, rfl, fun k hk => hlive k (List.mem_of_mem_eraseP hk)⟩
    | ok k₀ =>
      simp only [he, hc, Option.some.injEq] at h; subst h
      exact ⟨rfl, rfl, live_after_add hlive hc⟩

theorem apply_addIdentity_live {msg : AddIdentityMessage} {now : Int}
    (hlive : ∀ k ∈ m.keys, k.material.isSome)
    (h : (Op.addIdentity msg now).apply crypto m = some m') :
    m'.locked = m.locked ∧ m'.lockProvider = m.lockProvider ∧ ∀ k ∈ m'.keys, k.material.isSome := by
  simp only [Op.apply, Op.exec, addIdentity_run, addKey_run] at h
  cases he : KeyFactory.extractPubKey msg.keyType msg.keyBlob with
  | error e => simp only [he, Option.some.injEq] at h; subst h; exact ⟨rfl, rfl, hlive⟩
  | ok p =>
    cases hc : KeyFactory.createKey crypto msg.keyType msg.keyBlob msg.keyComment with
    | error e =>
      simp only [he, hc, Option.some.injEq] at h; subst h
      exact ⟨rfl, rfl, fun k hk => hlive k (List.mem_of_mem_eraseP hk)⟩
    | ok k₀ =>
      simp only [he, hc, Option.some.injEq] at h; subst h
      refine ⟨rfl, rfl, ?_⟩
      simp only [updateKey, List.mem_map]
      rintro _ ⟨k, hk, rfl⟩
      split <;> simp only [keyOptions_material, live_after_add hlive hc k hk]

/-- With a `protect` that succeeds as `enc`, locking live keys locks each of them. -/
theorem eachKey_lock {enc : Bytes → Bytes → Bytes} {ks : List Key}
    (henc : ∀ mat pw, crypto.protect mat pw = .ok (enc mat pw))
    (hlive : ∀ k ∈ ks, k.material.isSome) :
    eachKey (Key.lock crypto passphrase) ks =
      .ok () (ks.map fun k =>
        { k with lockedData := enc (k.material.getD []) passphrase, material := none }) :=
  eachKey_map fun k hk => by
    obtain ⟨mat, hmat⟩ := Option.isSome_iff_exists.mp (hlive k hk)
    exact ⟨(), by rw [Key.lock_run_of_material crypto hmat (henc mat passphrase), hmat]; rfl⟩

/-- When every key's blob decrypts, unlocking gives each key its material back. -/
theorem eachKey_unlock {ks : List Key}
    (hks : ∀ k ∈ ks, ∃ mat, crypto.unprotect k.lockedData passphrase = .ok (some mat)) :
    eachKey (Key.unlock crypto passphrase) ks =
      .ok () (ks.map fun k =>
        { k with material := (crypto.unprotect k.lockedData passphrase).toOption.join }) :=
  eachKey_map fun k hk => by
    obtain ⟨mat, hu⟩ := hks k hk
    exact ⟨true, by rw [Key.unlock_run_of_unprotect crypto hu, hu]; rfl⟩

section WellBehaved

variable (hprotect : ∀ mat pw, ∃ enc, crypto.protect mat pw = .ok enc)
  (hunprotect : ∀ mat pw enc, crypto.protect mat pw = .ok enc →
    crypto.unprotect enc pw = .ok (some mat))
  (hcheck : ∀ p q, crypto.pwCheck p (crypto.pwHash q) = true ↔ p = q)

include hprotect in
theorem LockConsistent.lock_step (hc : LockConsistent crypto m)
    (h : (Op.lock passphrase).apply crypto m = some m') : LockConsistent crypto m' := by
  obtain ⟨hash, hp⟩ := Option.isSome_iff_exists.mp hc.provider
  cases hl : m.locked
  · choose enc henc using hprotect
    simp only [Op.apply, Op.exec, lock_run crypto hp hl, eachKey_lock henc (hc.unlocked hl),
      Option.some.injEq] at h
    subst h
    refine ⟨rfl, (fun h => nomatch h), fun _ => ⟨passphrase, rfl, ?_⟩⟩
    simp only [List.mem_map]
    rintro _ ⟨k, _, rfl⟩
    exact ⟨rfl, _, henc _ _⟩
  · simp only [Op.apply, Op.exec, lock_run_of_locked crypto hp hl, Option.some.injEq] at h
    exact h ▸ hc

include hunprotect hcheck in
theorem LockConsistent.unlock_step (hc : LockConsistent crypto m)
    (h : (Op.unlock passphrase now).apply crypto m = some m') : LockConsistent crypto m' := by
  obtain ⟨hash, hp⟩ := Option.isSome_iff_exists.mp hc.provider
  cases hl : m.locked
  · simp only [Op.apply, Op.exec, unlock_run_of_unlocked crypto hl, Option.some.injEq] at h
    exact h ▸ hc
  by_cases ht : now < m.lockedUntil
  · obtain ⟨msg, hr⟩ : ∃ msg, (unlock crypto passphrase now).run m = _ :=
      unlock_run_throttled crypto hp hl ht
    simp only [Op.apply, Op.exec, hr, Option.some.injEq] at h
    subst h
    exact hc.restrict rfl rfl fun _ hk => hk
  simp only [Op.apply, Op.exec, unlock_run crypto hp hl (Int.not_lt.mp ht), unlockKeys_run] at h
  obtain ⟨pw, hpw, hks⟩ := hc.locked hl
  cases hpass : crypto.pwCheck passphrase hash
  · -- a refused passphrase: only the throttle changes, unless the wait cast ends the process
    obtain ⟨m'', hr | ⟨e, hr⟩, hk, hl', hp'⟩ := recordFailure_frame
      (show (recordFailure now).run m = _ from rfl)
    all_goals simp only [hpass, Bool.false_eq_true, ↓reduceIte, hr] at h
    · cases h; exact hc.restrict hl' hp' (hk ▸ fun _ hk => hk)
    · cases e <;> cases h; exact hc.restrict hl' hp' (hk ▸ fun _ hk => hk)
  · -- the lock passphrase: every key decrypts
    obtain rfl : hash = crypto.pwHash pw := Option.some.inj (hp.symm.trans hpw)
    obtain rfl := (hcheck passphrase pw).mp hpass
    have hdec : ∀ k ∈ m.keys, ∃ mat, crypto.unprotect k.lockedData passphrase = .ok (some mat) :=
      fun k hk => let ⟨_, mat, he⟩ := hks k hk; ⟨mat, hunprotect _ _ _ he⟩
    simp only [hpass, ↓reduceIte, forEachKey, eachKey_unlock hdec, Option.some.injEq] at h
    subst h
    refine .of_unlocked hc.provider rfl ?_
    simp only [List.mem_map]
    rintro _ ⟨k, hk, rfl⟩
    obtain ⟨mat, hu⟩ := hdec k hk
    simp only [hu]
    rfl

include hprotect hunprotect hcheck in
/-- Every operation issued through the lock gate keeps the lock flag and the keys in step. -/
theorem LockConsistent.step {op : Op} (hc : LockConsistent crypto m) (hg : lockGate m op)
    (h : op.apply crypto m = some m') : LockConsistent crypto m' := by
  cases op with
  | addKey =>
    obtain ⟨hl, hp, hlive⟩ := apply_addKey_live (hc.unlocked (hg rfl)) h
    exact .of_unlocked (hp ▸ hc.provider) (hl.trans (hg rfl)) hlive
  | addIdentity =>
    obtain ⟨hl, hp, hlive⟩ := apply_addIdentity_live (hc.unlocked (hg rfl)) h
    exact .of_unlocked (hp ▸ hc.provider) (hl.trans (hg rfl)) hlive
  | removeKey =>
    simp only [Op.apply, Op.exec, removeKey_run, Option.some.injEq] at h
    exact h ▸ hc.restrict rfl rfl fun _ hk => List.mem_of_mem_eraseP hk
  | removeAllKeys =>
    simp only [Op.apply, Op.exec, removeAllKeys_run, Option.some.injEq] at h
    exact h ▸ hc.restrict rfl rfl fun _ hk => nomatch hk
  | cleanupExpiredKeys =>
    simp only [Op.apply_cleanupExpiredKeys, Option.some.injEq] at h
    exact h ▸ hc.restrict rfl rfl fun _ hk => List.mem_of_mem_filter hk
  | lock => exact hc.lock_step hprotect h
  | unlock => exact hc.unlock_step hunprotect hcheck h

include hprotect hcheck hunprotect in
/-- From a consistent unlocked store outside the throttle window, `lock(pw)` and then
`unlock(pw)` both succeed and every key gets its material back. -/
theorem lock_unlock_restores (hc : LockConsistent crypto m) (hl : m.locked = false)
    (ht : m.lockedUntil ≤ now) :
    ∃ m', (do lock crypto passphrase; unlock crypto passphrase now).run m = .ok () m' ∧
      m'.locked = false ∧ m'.keys.map Key.material = m.keys.map Key.material := by
  obtain ⟨hash, hp⟩ := Option.isSome_iff_exists.mp hc.provider
  choose enc henc using hprotect
  have hlive := hc.unlocked hl
  have hdec : ∀ k ∈ m.keys.map fun k =>
      { k with lockedData := enc (k.material.getD []) passphrase, material := none },
      ∃ mat, crypto.unprotect k.lockedData passphrase = .ok (some mat) := by
    simp only [List.mem_map]
    rintro _ ⟨k, _, rfl⟩
    exact ⟨_, hunprotect _ _ _ (henc _ _)⟩
  apply Exists.intro
  refine ⟨?run, ?unlocked, ?material⟩
  case run =>
    rw [run_bind, lock_run crypto hp hl, eachKey_lock henc hlive]
    dsimp only
    rw [unlock_run crypto rfl rfl ?window, unlockKeys_run, if_pos ((hcheck _ _).mpr rfl)]
    · simp only [forEachKey, eachKey_unlock hdec]
      rfl
    · exact ht
  case unlocked => rfl
  case material =>
    simp only [List.map_map]
    refine List.map_congr_left fun k hk => ?_
    obtain ⟨mat, hmat⟩ := Option.isSome_iff_exists.mp (hlive k hk)
    simp only [Function.comp_apply, hmat, Option.getD_some, hunprotect _ _ _ (henc _ _)]
    rfl

end WellBehaved

theorem waitTime_mono {a b : Nat} (h : a ≤ b) : 9 ^ a / 5 ^ a ≤ 9 ^ b / 5 ^ b := by
  obtain ⟨k, rfl⟩ := Nat.exists_eq_add_of_le h
  calc 9 ^ a / 5 ^ a = 9 ^ a * 5 ^ k / (5 ^ a * 5 ^ k) :=
        (Nat.mul_div_mul_right _ _ (Nat.pow_pos (by decide))).symm
    _ ≤ 9 ^ a * 9 ^ k / (5 ^ a * 5 ^ k) :=
        Nat.div_le_div_right (Nat.mul_le_mul_left _ (Nat.pow_le_pow_left (by decide) k))
    _ = 9 ^ (a + k) / 5 ^ (a + k) := by rw [Nat.pow_add, Nat.pow_add]

/-- The wait of the `n`-th failure fits the `int` it is cast to exactly up to `n = 36`. -/
theorem waitTime_ok_iff (n : Nat) : (∃ w, waitTime n = .ok w) ↔ n ≤ 36 := by
  have h36 : 9 ^ 36 / 5 ^ 36 ≤ INT_MAX := by decide
  have h37 : 9 ^ 37 / 5 ^ 37 > INT_MAX := by decide
  unfold waitTime
  constructor
  · rintro ⟨w, hw⟩
    split at hw
    · cases hw
    · next hle => exact Nat.not_lt.mp fun hn => hle (Nat.lt_of_lt_of_le h37 (waitTime_mono hn))
  · intro hn
    rw [if_neg (Nat.not_lt.mpr ((waitTime_mono hn).trans h36))]
    exact ⟨_, rfl⟩

/-- From the third failure on, a wait that fits is at least five seconds. -/
theorem waitTime_ge_five {n : Nat} {w : Int} (hn : 3 ≤ n) (hw : waitTime n = .ok w) : 5 ≤ w := by
  unfold waitTime at hw
  split at hw
  · cases hw
  · cases hw
    have h3 : 9 ^ 3 / 5 ^ 3 = 5 := by decide
    have := waitTime_mono hn
    omega

/-- Up to the 36th failure, a failure opens a window at least five seconds past `now`. -/
theorem recordFailure_opens_window (hn : 2 ≤ m.failedAttempts) (hn' : m.failedAttempts < 36) :
    ∃ t₀, now + 5000000000 ≤ t₀ ∧ (recordFailure now).run m =
      .ok () { m with failedAttempts := m.failedAttempts + 1, lockedUntil := t₀ } := by
  obtain ⟨w, hw⟩ := (waitTime_ok_iff _).mpr (by omega : m.failedAttempts + 1 ≤ 36)
  have h5 := waitTime_ge_five (by omega) hw
  rw [recordFailure_run, if_pos (by omega), hw]
  exact ⟨_, by omega, rfl⟩

/-- A wrong passphrase outside the window, after two to 35 failures: the unlock is refused
and counted, the store stays locked with its keys, and for five seconds every unlock is
refused without a look at its passphrase, the right one included, and still counted. -/
theorem unlock_refused_locks_out (hp : m.lockProvider = some hash) (hl : m.locked = true)
    (ht : m.lockedUntil ≤ now) (hpass : crypto.pwCheck passphrase hash = false)
    (hn : 2 ≤ m.failedAttempts) (hn' : m.failedAttempts < 36) :
    ∃ m', (unlock crypto passphrase now).run m = .error (.exception "Incorrect passphrase") m' ∧
      m'.keys = m.keys ∧ m'.locked = true ∧ m'.failedAttempts = m.failedAttempts + 1 ∧
      ∀ pw t, t < now + 5000000000 → ∃ msg, (unlock crypto pw t).run m' =
        .error (.exception msg) { m' with failedAttempts := m'.failedAttempts + 1 } := by
  obtain ⟨t₀, h5, hrec⟩ := @recordFailure_opens_window m now hn hn'
  rw [unlock_run crypto hp hl ht, unlockKeys_run, hpass]
  simp only [Bool.false_eq_true, ↓reduceIte]
  rw [hrec]
  exact ⟨_, rfl, rfl, hl, rfl, fun pw t ht' => unlock_run_throttled crypto hp hl
    (show t < t₀ by omega)⟩

/-- From the 36th failure on, a refused unlock outside the window ends the process: the
wait no longer fits an `int`. -/
theorem unlock_crashes_past_36 (hp : m.lockProvider = some hash) (hl : m.locked = true)
    (ht : m.lockedUntil ≤ now) (hpass : crypto.pwCheck passphrase hash = false)
    (hn : 36 ≤ m.failedAttempts) :
    (unlock crypto passphrase now).run m =
      .error (.crash "static_cast<int> of a double past INT_MAX")
        { m with failedAttempts := m.failedAttempts + 1 } := by
  have hw : waitTime (m.failedAttempts + 1) =
      .error (.crash "static_cast<int> of a double past INT_MAX") := by
    unfold waitTime
    rw [if_pos (Nat.lt_of_lt_of_le (by decide) (waitTime_mono (by omega : 37 ≤ _)))]
  rw [unlock_run crypto hp hl ht, unlockKeys_run, hpass]
  simp only [Bool.false_eq_true, ↓reduceIte]
  rw [recordFailure_run, if_pos (by omega), hw]

/-- A store locked under `[1]` after two failed unlocks, and a third with `[2]` at time 0. -/
theorem unlock_refused_locks_out_third :
    ∃ m', (unlock Crypto.symbolic [2] 0).run
        { (init 0).setLockProvider with locked := true, lockProvider := some [1], failedAttempts := 2 } =
        .error (.exception "Incorrect passphrase") m' ∧
      m'.keys = [] ∧ m'.locked = true ∧ m'.failedAttempts = 3 ∧
      ∀ pw t, t < 5000000000 → ∃ msg, (unlock Crypto.symbolic pw t).run m' =
        .error (.exception msg) { m' with failedAttempts := m'.failedAttempts + 1 } :=
  @unlock_refused_locks_out Crypto.symbolic _ [2] [1] 0 rfl rfl (by decide) rfl (by decide) (by decide)

/-- Lock with `[1]`, then 36 unlocks with `[2]` at time 0: the third opens a five-second
window and the 33 after it fall inside, each still counted. The next wrong unlock, once the
window has passed, is the 37th failure, and `floor(1.8^37)` does not fit an `int`. -/
theorem unlock_wait_overflows_int :
    ∃ m, runOps Crypto.symbolic (.lock [1] :: List.replicate 36 (.unlock [2] 0))
        (init 0).setLockProvider = some m ∧
      m.failedAttempts = 36 ∧ m.lockedUntil = 5000000000 ∧
      (unlock Crypto.symbolic [2] 5000000000).run m =
        .error (.crash "static_cast<int> of a double past INT_MAX") { m with failedAttempts := 37 } :=
  ⟨_, rfl, rfl, rfl, rfl⟩

end KeyManager

end Libssha
