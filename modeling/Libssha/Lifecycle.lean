import Libssha.KeyBlobs
import Libssha.Locking
import Libssha.Session

/-!
# What the store does to a stored key

`KeyManager::addKey` creates a key object and `addKey(msg)` sets its options right after;
from then on the store only encrypts (`lock`) and decrypts (`unlock`) its private material,
until an operation erases it. No operation, whether it returns or raises, changes a stored
key's family, comment, public key, lifetime, confirm flag, destination constraints or
serial. A key added again under the same public blob is a new object under a new serial. So
every key of every store a run of operations reaches is a key of the store the run started
from, up to its material, or a key the run added.
-/
namespace Libssha

namespace Key

/-- A key with its private material, live or encrypted, taken out. -/
def identity (k : Key) : Key := { k with material := none, lockedData := [] }

theorem serial_eq_of_identity {k k' : Key} (h : k'.identity = k.identity) : k'.serial = k.serial :=
  (congrArg Key.serial h : k'.identity.serial = k.identity.serial)

variable (crypto : Crypto)

theorem lock_identity (pw : Bytes) (k : Key) :
    (resultState ((Key.lock crypto pw).run k)).identity = k.identity := by
  simp only [Key.lock, estateRun_eq, bind, EStateM.bind, get, getThe, MonadStateOf.get,
    EStateM.get]
  rcases k.material with _ | mat
  · rfl
  · dsimp only
    cases crypto.protect mat pw <;> rfl

theorem unlock_identity (pw : Bytes) (k : Key) :
    (resultState ((Key.unlock crypto pw).run k)).identity = k.identity := by
  simp only [Key.unlock, estateRun_eq, bind, EStateM.bind, get, getThe, MonadStateOf.get,
    EStateM.get]
  cases crypto.unprotect k.lockedData pw with
  | error => rfl
  | ok o => cases o <;> rfl

end Key

namespace KeyManager

variable {crypto : Crypto} {m m' : KeyManager}

/-- The loop over the stored keys leaves each key as the key operation leaves it, whether
it returns or raises, and the keys after a raise as they were. -/
theorem eachKey_identity {α : Type} {f : EStateM Fault Key α}
    (hf : ∀ k, (resultState (f.run k)).identity = k.identity) :
    ∀ ks, (resultState (eachKey f ks)).map Key.identity = ks.map Key.identity
  | [] => rfl
  | k :: ks => by
    have hk := hf k
    have ih := eachKey_identity hf ks
    rw [eachKey]
    revert hk ih
    rcases f.run k with ⟨_, _⟩ | ⟨_, _⟩
    · rcases eachKey f ks with ⟨_, _⟩ | ⟨_, _⟩ <;> exact fun hk ih => congrArg₂ List.cons hk ih
    · exact fun hk _ => congrArg₂ List.cons hk rfl

/-- `m'` holds some of `m`'s keys, in `m`'s order and changed in their private material at
most, and hands out serials where `m` does. -/
def Rematerialized (m m' : KeyManager) : Prop :=
  m'.nextSerial = m.nextSerial ∧ (m'.keys.map Key.identity).Sublist (m.keys.map Key.identity)

theorem Rematerialized.refl (m : KeyManager) : Rematerialized m m := ⟨rfl, .refl _⟩

theorem Rematerialized.trans {m₁ m₂ m₃ : KeyManager} (h₁ : Rematerialized m₁ m₂)
    (h₂ : Rematerialized m₂ m₃) : Rematerialized m₁ m₃ :=
  ⟨h₂.1.trans h₁.1, h₂.2.trans h₁.2⟩

theorem rematerialized_of_sublist (hn : m'.nextSerial = m.nextSerial)
    (hk : m'.keys.Sublist m.keys) : Rematerialized m m' :=
  ⟨hn, hk.map _⟩

theorem rematerialized_of_identity (hn : m'.nextSerial = m.nextSerial)
    (hk : m'.keys.map Key.identity = m.keys.map Key.identity) : Rematerialized m m' :=
  ⟨hn, hk ▸ .refl _⟩

theorem forEachKey_rematerialized {α : Type} {f : EStateM Fault Key α}
    (hf : ∀ k, (resultState (f.run k)).identity = k.identity) (m : KeyManager) :
    Rematerialized m (resultState ((forEachKey f).run m)) := by
  have h := eachKey_identity hf m.keys
  dsimp only [estateRun_eq, forEachKey]
  revert h
  rcases eachKey f m.keys with ⟨_, _⟩ | ⟨_, _⟩ <;> exact fun h => rematerialized_of_identity rfl h

theorem recordFailure_rematerialized (now : Int) (m : KeyManager) :
    Rematerialized m (resultState ((recordFailure now).run m)) := by
  rw [recordFailure_run]
  split
  · split <;> exact .refl _
  · exact .refl _

/-- The store an operation leaves, when it leaves one. -/
theorem Op.apply_state {op : Op} (h : op.apply crypto m = some m') :
    m' = resultState ((op.exec crypto).run m) := by
  revert h
  unfold Op.apply
  rcases (op.exec crypto).run m with ⟨_, _⟩ | ⟨_ | _, _⟩ <;> rintro ⟨⟩ <;> rfl

theorem lock_run_of_none {passphrase : Bytes} (hp : m.lockProvider = none) :
    (lock crypto passphrase).run m = .error (.crash "abort: no lock provider set") m := by
  simp only [lock, estateRun_eq, bind, EStateM.bind, get, getThe, MonadStateOf.get, EStateM.get,
    hp, Option.isNone_none, ↓reduceIte]
  rfl

theorem unlock_run_of_none {passphrase : Bytes} {now : Int} (hl : m.locked = true)
    (hp : m.lockProvider = none) :
    (unlock crypto passphrase now).run m = .error (.crash "abort: no lock provider set") m := by
  simp only [unlock, estateRun_eq, bind, EStateM.bind, get, getThe, MonadStateOf.get, EStateM.get,
    hl, hp, Bool.not_true, Bool.false_eq_true, ↓reduceIte]
  rfl

/-- `lock` encrypts keys' material and nothing else of them, whatever it ends in. -/
theorem lock_rematerialized (passphrase : Bytes) (m : KeyManager) :
    Rematerialized m (resultState ((lock crypto passphrase).run m)) := by
  cases hp : m.lockProvider with
  | none => rw [lock_run_of_none hp]; exact .refl m
  | some hash =>
    cases hl : m.locked
    · have hi := eachKey_identity (Key.lock_identity crypto passphrase) m.keys
      rw [lock_run crypto hp hl]
      revert hi
      rcases eachKey (Key.lock crypto passphrase) m.keys with ⟨_, _⟩ | ⟨_, _⟩ <;>
        exact fun h => rematerialized_of_identity rfl h
    · rw [lock_run_of_locked crypto hp hl]; exact .refl m

/-- `unlock` decrypts keys' material and nothing else of them, whatever it ends in: a
wrong passphrase only counts the failure. -/
theorem unlock_rematerialized (passphrase : Bytes) (now : Int) (m : KeyManager) :
    Rematerialized m (resultState ((unlock crypto passphrase now).run m)) := by
  cases hl : m.locked
  · rw [unlock_run_of_unlocked crypto hl]; exact .refl m
  cases hp : m.lockProvider with
  | none => rw [unlock_run_of_none hl hp]; exact .refl m
  | some hash =>
    by_cases ht : now < m.lockedUntil
    · obtain ⟨_, hr⟩ := @unlock_run_throttled crypto m passphrase hash now hp hl ht
      rw [hr]
      exact rematerialized_of_sublist rfl (.refl _)
    have hk : Rematerialized m (resultState ((unlockKeys crypto passphrase hash).run m)) := by
      rw [unlockKeys_run]
      split
      · exact forEachKey_rematerialized (Key.unlock_identity crypto passphrase) m
      · exact .refl m
    rw [unlock_run crypto hp hl (Int.not_lt.mp ht)]
    revert hk
    rcases (unlockKeys crypto passphrase hash).run m with ⟨_, m₁⟩ | ⟨_ | _, m₁⟩
    · exact fun hk => ⟨hk.1, hk.2⟩
    · dsimp only
      have hf := recordFailure_rematerialized now m₁
      revert hf
      rcases (recordFailure now).run m₁ with ⟨_, _⟩ | ⟨_, _⟩ <;> exact fun hf hk => hk.trans hf
    · exact id

/-- A store with a lock provider and one Ed25519 key, public `[7]` and private `[8]`. -/
def oneKeyStore : KeyManager :=
  resultState ((addKey Crypto.symbolic ed25519TypeName [0, 0, 0, 1, 7, 0, 0, 0, 1, 8] []).run
    (init 0).setLockProvider)

/-- Every serial the store has handed out is below the next one. -/
def SerialsFresh (m : KeyManager) : Prop := ∀ k ∈ m.keys, k.serial < m.nextSerial

instance decidableSerialsFresh (m : KeyManager) : Decidable (SerialsFresh m) :=
  inferInstanceAs (Decidable (∀ k ∈ m.keys, k.serial < m.nextSerial))

/-- `m` is `m₀` after a run of store operations: its keys are some of `m₀`'s, in `m₀`'s
order and changed in their private material at most, followed by the keys the run added,
in the order it added them, under serials from `m₀.nextSerial` on. -/
structure KeysEvolve (m₀ m : KeyManager) : Prop where
  fresh : SerialsFresh m
  counter : m₀.nextSerial ≤ m.nextSerial
  split : ∃ old new, m.keys = old ++ new ∧
    (old.map Key.identity).Sublist (m₀.keys.map Key.identity) ∧
    (new.map Key.serial).Pairwise (· < ·) ∧ ∀ k ∈ new, m₀.nextSerial ≤ k.serial

theorem Rematerialized.serial_mem (h : Rematerialized m m') {k : Key} (hk : k ∈ m'.keys) :
    ∃ k₁ ∈ m.keys, k₁.serial = k.serial := by
  obtain ⟨k₁, hk₁, he⟩ := List.mem_map.mp (h.2.subset (List.mem_map_of_mem Key.identity hk))
  exact ⟨k₁, hk₁, Key.serial_eq_of_identity he⟩

theorem map_identity_serial (ks : List Key) : (ks.map Key.identity).map Key.serial = ks.map Key.serial := by
  rw [List.map_map]; rfl

section Evolve

variable {m₀ : KeyManager}

theorem KeysEvolve.init (hf : SerialsFresh m₀) : KeysEvolve m₀ m₀ :=
  ⟨hf, Nat.le_refl _, m₀.keys, [], (List.append_nil _).symm, .refl _, .nil, fun _ h => nomatch h⟩

/-- Keys erased or changed in their material: the first store's keys lose some, and so do
the run's. -/
theorem KeysEvolve.rematerialized (he : KeysEvolve m₀ m) (h : Rematerialized m m') :
    KeysEvolve m₀ m' := by
  obtain ⟨old, new, hkeys, hold, hinc, hlo⟩ := he.split
  have hs := h.2
  rw [hkeys, List.map_append] at hs
  obtain ⟨l₁, l₂, hl, h₁, h₂⟩ := List.sublist_append_iff.mp hs
  obtain ⟨old', new', hkeys', rfl, rfl⟩ := List.map_eq_append_iff.mp hl
  have hser : (new'.map Key.serial).Sublist (new.map Key.serial) := by
    simpa only [map_identity_serial] using h₂.map Key.serial
  refine ⟨fun k hk => ?_, he.counter.trans_eq h.1.symm,
    old', new', hkeys', h₁.trans hold, hinc.sublist hser, fun k hk => ?_⟩
  · obtain ⟨k₁, hk₁, hs₁⟩ := h.serial_mem hk
    exact h.1 ▸ hs₁ ▸ he.fresh k₁ hk₁
  · obtain ⟨k₁, hk₁, hs₁⟩ := List.mem_map.mp (hser.subset (List.mem_map_of_mem Key.serial hk))
    exact hs₁ ▸ hlo k₁ hk₁

/-- `addKey` appends the key it created under the next serial and moves the counter on. -/
theorem KeysEvolve.append (he : KeysEvolve m₀ m) (k : Key) :
    KeysEvolve m₀ { m with keys := m.keys ++ [{ k with serial := m.nextSerial }],
                           nextSerial := m.nextSerial + 1 } := by
  obtain ⟨old, new, hkeys, hold, hinc, hlo⟩ := he.split
  have hlt : ∀ k ∈ m.keys, k.serial < m.nextSerial + 1 := fun k hk =>
    Nat.lt_succ_of_lt (he.fresh k hk)
  refine ⟨fun k' hk' => ?_, Nat.le_succ_of_le he.counter, old, new ++ [{ k with serial := m.nextSerial }],
    by rw [hkeys, List.append_assoc], hold, ?_, fun k' hk' => ?_⟩
  · rcases List.mem_append.mp hk' with hk' | hk'
    · exact hlt k' hk'
    · rw [List.mem_singleton.mp hk']; exact Nat.lt_succ_self _
  · rw [List.map_append, List.pairwise_append]
    refine ⟨hinc, List.pairwise_singleton _ _, fun s hs t ht => ?_⟩
    obtain ⟨k₁, hk₁, rfl⟩ := List.mem_map.mp hs
    rw [List.mem_singleton.mp ht]
    exact he.fresh k₁ (hkeys ▸ List.mem_append_right old hk₁)
  · rcases List.mem_append.mp hk' with hk' | hk'
    · exact hlo k' hk'
    · rw [List.mem_singleton.mp hk']; exact he.counter

/-- The options `addKey(msg)` sets go to the key under a serial the run handed out: the
first store's keys, whose serials are older, stay as they were. -/
theorem KeysEvolve.updateKey (hf₀ : SerialsFresh m₀) (he : KeysEvolve m₀ m) {s : Nat}
    (hs : m₀.nextSerial ≤ s) {f : Key → Key} (hfs : ∀ k, (f k).serial = k.serial) :
    KeysEvolve m₀ (m.updateKey s f) := by
  obtain ⟨old, new, hkeys, hold, hinc, hlo⟩ := he.split
  have hg : ∀ k : Key, (if k.serial = s then f k else k).serial = k.serial := fun k => by
    split
    · exact hfs k
    · rfl
  have hold' : old.map (fun k => if k.serial = s then f k else k) = old :=
    (List.map_congr_left fun k hk => if_neg fun heq => by
      obtain ⟨k₀, hk₀, he₀⟩ := List.mem_map.mp (hold.subset (List.mem_map_of_mem Key.identity hk))
      have := hf₀ k₀ hk₀
      rw [Key.serial_eq_of_identity he₀, heq] at this
      omega).trans (List.map_id old)
  have hmap : ∀ ks : List Key,
      (ks.map fun k => if k.serial = s then f k else k).map Key.serial = ks.map Key.serial :=
    fun ks => by rw [List.map_map]; exact List.map_congr_left fun k _ => hg k
  refine ⟨fun k hk => ?_, he.counter, old, new.map fun k => if k.serial = s then f k else k,
    by rw [KeyManager.updateKey, hkeys, List.map_append, hold'], hold, by rw [hmap]; exact hinc,
    fun k hk => ?_⟩
  · obtain ⟨k₁, hk₁, rfl⟩ := List.mem_map.mp hk
    exact (hg k₁).symm ▸ he.fresh k₁ hk₁
  · obtain ⟨k₁, hk₁, rfl⟩ := List.mem_map.mp hk
    exact (hg k₁).symm ▸ hlo k₁ hk₁

end Evolve

/-- The options `addKey(msg)` sets leave the public key and the serial alone. -/
theorem keyOptions_pubKey_serial (msg : AddIdentityMessage) (now : Int) (k : Key) :
    (keyOptions msg now k).pubKey = k.pubKey ∧ (keyOptions msg now k).serial = k.serial := by
  unfold keyOptions; split <;> split <;> exact ⟨rfl, rfl⟩

theorem eraseKey_rematerialized (p : Bytes) (m : KeyManager) :
    Rematerialized m { m with keys := eraseKey m.keys p } :=
  rematerialized_of_sublist rfl (List.eraseP_sublist _)

/-- The store `addKey` leaves when it returns: the key under the public blob erased, the
created key appended under the next serial, the counter moved on. -/
def added (m : KeyManager) (p : Bytes) (k : Key) : KeyManager :=
  { m with keys := eraseKey m.keys p ++ [{ k with serial := m.nextSerial }],
           nextSerial := m.nextSerial + 1 }

/-- What one operation can do to the stored keys: erase some and change others' private
material (`lock`, `unlock`, the removals, and an `addKey` that raised), or, for an `addKey`
that returned, erase the key under the blob `extractPubKey` gave and append the created key,
whose options `addKey(msg)` then sets. -/
theorem Op.apply_cases {op : Op} (h : op.apply crypto m = some m') :
    Rematerialized m m' ∨
    (∃ type blob comment p k₀, op = .addKey type blob comment ∧
      KeyFactory.extractPubKey type blob = .ok p ∧
      KeyFactory.createKey crypto type blob comment = .ok k₀ ∧ m' = m.added p k₀) ∨
    ∃ msg now p k₀, op = .addIdentity msg now ∧
      KeyFactory.extractPubKey msg.keyType msg.keyBlob = .ok p ∧
      KeyFactory.createKey crypto msg.keyType msg.keyBlob msg.keyComment = .ok k₀ ∧
      m' = (m.added p k₀).updateKey m.nextSerial (keyOptions msg now) := by
  cases op with
  | addKey type blob comment =>
    simp only [Op.apply, Op.exec, run_bind, addKey_run, run_pure] at h
    cases hx : KeyFactory.extractPubKey type blob with
    | error e =>
      simp only [hx, Option.some.injEq] at h
      subst h
      exact .inl (.refl _)
    | ok p =>
      cases hc : KeyFactory.createKey crypto type blob comment with
      | error e =>
        simp only [hx, hc, Option.some.injEq] at h
        subst h
        exact .inl (eraseKey_rematerialized p m)
      | ok k₀ =>
        simp only [hx, hc, Option.some.injEq] at h
        exact .inr (.inl ⟨type, blob, comment, p, k₀, rfl, hx, hc, h.symm⟩)
  | addIdentity msg now =>
    simp only [Op.apply, Op.exec, addIdentity_run, addKey_run] at h
    cases hx : KeyFactory.extractPubKey msg.keyType msg.keyBlob with
    | error e =>
      simp only [hx, Option.some.injEq] at h
      subst h
      exact .inl (.refl _)
    | ok p =>
      cases hc : KeyFactory.createKey crypto msg.keyType msg.keyBlob msg.keyComment with
      | error e =>
        simp only [hx, hc, Option.some.injEq] at h
        subst h
        exact .inl (eraseKey_rematerialized p m)
      | ok k₀ =>
        simp only [hx, hc, Option.some.injEq] at h
        exact .inr (.inr ⟨msg, now, p, k₀, rfl, hx, hc, h.symm⟩)
  | removeKey =>
    simp only [Op.apply, Op.exec, removeKey_run, Option.some.injEq] at h
    subst h
    exact .inl (eraseKey_rematerialized _ m)
  | removeAllKeys =>
    simp only [Op.apply, Op.exec, removeAllKeys_run, Option.some.injEq] at h
    subst h
    exact .inl (rematerialized_of_sublist rfl (List.nil_sublist _))
  | cleanupExpiredKeys =>
    simp only [Op.apply_cleanupExpiredKeys, Option.some.injEq] at h
    subst h
    exact .inl (rematerialized_of_sublist rfl (List.filter_sublist _))
  | lock passphrase => rw [Op.apply_state h]; exact .inl (lock_rematerialized passphrase m)
  | unlock passphrase now =>
    rw [Op.apply_state h]; exact .inl (unlock_rematerialized passphrase now m)

/-- What one operation may do to the stored keys, whatever it ends in. -/
theorem Op.evolve {m₀ : KeyManager} (hf₀ : SerialsFresh m₀) (op : Op) (he : KeysEvolve m₀ m)
    (h : op.apply crypto m = some m') : KeysEvolve m₀ m' := by
  rcases Op.apply_cases h with hr | ⟨_, _, _, p, k₀, -, -, -, rfl⟩ | ⟨msg, now, p, k₀, -, -, -, rfl⟩
  · exact he.rematerialized hr
  · exact (he.rematerialized (eraseKey_rematerialized p m)).append k₀
  · exact ((he.rematerialized (eraseKey_rematerialized p m)).append k₀).updateKey hf₀ he.counter
      fun k => (keyOptions_pubKey_serial msg now k).2


/-- Along every run of store operations, from a store whose serials are fresh, the serials
stay fresh, and the store reached holds some of the first store's keys, in their order and
changed in their private material at most (family, comment, public key, lifetime, confirm
flag, destination constraints and serial as they were), followed by the keys the run added,
in the order it added them, under increasing serials the first store had not handed out. -/
theorem Reachable.keys_keep_identity {allowed : KeyManager → Op → Prop} {m₀ : KeyManager}
    (hf : SerialsFresh m₀) (h : Reachable crypto allowed m₀ m) :
    SerialsFresh m ∧ ∃ old new, m.keys = old ++ new ∧
      (old.map Key.identity).Sublist (m₀.keys.map Key.identity) ∧
      (new.map Key.serial).Pairwise (· < ·) ∧ ∀ k ∈ new, m₀.nextSerial ≤ k.serial := by
  suffices he : KeysEvolve m₀ m from ⟨he.fresh, he.split⟩
  induction h with
  | init => exact .init hf
  | step op _ _ happly ih => exact Op.evolve hf op ih happly

/-- The stored key locked and unlocked, and a second key added beside it: the first comes
back as it was, the second follows it under the next serial. -/
theorem Reachable.keys_keep_identity_relock :
    ∃ m, SerialsFresh oneKeyStore ∧ Reachable Crypto.symbolic (fun _ _ => True) oneKeyStore m ∧
      m.keys.length = 2 ∧ (SerialsFresh m ∧ ∃ old new, m.keys = old ++ new ∧
        (old.map Key.identity).Sublist (oneKeyStore.keys.map Key.identity) ∧
        (new.map Key.serial).Pairwise (· < ·) ∧ ∀ k ∈ new, oneKeyStore.nextSerial ≤ k.serial) :=
  have hr := Reachable.runOps .init (show KeyManager.runOps Crypto.symbolic
    [.lock [1], .unlock [1] 0, .addKey ed25519TypeName [0, 0, 0, 1, 9, 0, 0, 0, 1, 8] []]
    oneKeyStore = some _ from rfl)
  ⟨_, by decide, hr, rfl, Reachable.keys_keep_identity (by decide) hr⟩

/-- No two stored keys share a public blob. -/
def BlobsUnique (m : KeyManager) : Prop := (m.keys.map Key.pubBlob).Nodup

instance decidableBlobsUnique (m : KeyManager) : Decidable (BlobsUnique m) :=
  inferInstanceAs (Decidable (m.keys.map Key.pubBlob).Nodup)

/-- Whether every key the operation would create has its curve's type name, so that it is
stored under the blob `addKey` erased by. -/
def Op.curveConsistent (crypto : Crypto) : Op → Bool
  | .addKey type blob comment => matchesCurve (KeyFactory.createKey crypto type blob comment)
  | .addIdentity msg _ =>
    matchesCurve (KeyFactory.createKey crypto msg.keyType msg.keyBlob msg.keyComment)
  | _ => true
where
  matchesCurve : Except String Key → Bool
    | .ok k => k.typeMatchesCurve
    | .error _ => true

theorem Rematerialized.blobsUnique (h : Rematerialized m m') (hu : BlobsUnique m) :
    BlobsUnique m' := by
  have hs := h.2.map Key.pubBlob
  rw [List.map_map, List.map_map] at hs
  exact hu.sublist hs

/-- On a store with one key under each blob, `eraseKey` leaves no key under its blob. -/
theorem eraseKey_blob_ne {p : Bytes} :
    ∀ {ks : List Key}, (ks.map Key.pubBlob).Nodup → ∀ k ∈ eraseKey ks p, k.pubBlob ≠ p
  | [], _, _, hk => nomatch hk
  | k₁ :: ks, hu, k, hk => by
    rw [List.map_cons, List.nodup_cons] at hu
    cases hb : k₁.pubBlob == p with
    | true =>
      simp only [eraseKey, List.eraseP_cons, hb, cond_true] at hk
      exact fun heq => hu.1 (by rw [beq_iff_eq.mp hb, ← heq]; exact List.mem_map_of_mem _ hk)
    | false =>
      simp only [eraseKey, List.eraseP_cons, hb, cond_false, List.mem_cons] at hk
      rcases hk with rfl | hk
      · exact ne_of_beq_false hb
      · exact eraseKey_blob_ne hu.2 k hk

theorem added_blobsUnique {p : Bytes} {k₀ : Key} (hu : BlobsUnique m) (hp : k₀.pubBlob = p) :
    BlobsUnique (m.added p k₀) := by
  show ((eraseKey m.keys p ++ [{ k₀ with serial := m.nextSerial }]).map Key.pubBlob).Nodup
  rw [List.map_append, List.map_singleton]
  refine List.pairwise_append.mpr ⟨hu.sublist ((List.eraseP_sublist _).map _),
    List.pairwise_singleton _ _, fun a ha b hb => ?_⟩
  obtain ⟨k, hk, rfl⟩ := List.mem_map.mp ha
  rw [List.mem_singleton.mp hb]
  exact hp ▸ eraseKey_blob_ne hu k hk

theorem updateKey_blobs (s : Nat) {f : Key → Key} (hf : ∀ k, (f k).pubKey = k.pubKey) :
    (m.updateKey s f).keys.map Key.pubBlob = m.keys.map Key.pubBlob := by
  simp only [KeyManager.updateKey, List.map_map]
  refine List.map_congr_left fun k _ => ?_
  show (if k.serial = s then f k else k).pubKey.blob = k.pubKey.blob
  split
  · rw [hf]
  · rfl

/-- One operation keeps one key under each blob, if it adds none whose type is not its
curve's. -/
theorem Op.blobsUnique {op : Op} (hc : op.curveConsistent crypto = true) (hu : BlobsUnique m)
    (h : op.apply crypto m = some m') : BlobsUnique m' := by
  rcases Op.apply_cases h with hr | ⟨_, _, _, p, k₀, rfl, hx, hk, rfl⟩ |
    ⟨msg, now, p, k₀, rfl, hx, hk, rfl⟩
  · exact hr.blobsUnique hu
  · rw [Op.curveConsistent, hk] at hc
    exact added_blobsUnique hu ((KeyFactory.pubBlob_eq_extractPubKey_iff crypto hx hk).mpr hc)
  · rw [Op.curveConsistent, hk] at hc
    have ha := added_blobsUnique hu ((KeyFactory.pubBlob_eq_extractPubKey_iff crypto hx hk).mpr hc)
    unfold BlobsUnique
    rw [updateKey_blobs m.nextSerial fun k => (keyOptions_pubKey_serial msg now k).1]
    exact ha

/-- Along every run that adds no key whose type name is not its curve's, a store with one
key under each public blob keeps one key under each: `addKey` replaces the key it finds, and
nothing else stores a key or changes a public key. -/
theorem Reachable.blobs_unique {allowed : KeyManager → Op → Prop} {m₀ : KeyManager}
    (hallowed : ∀ m op, allowed m op → op.curveConsistent crypto = true) (hu : BlobsUnique m₀)
    (h : Reachable crypto allowed m₀ m) : BlobsUnique m := by
  induction h with
  | init => exact hu
  | step op _ ha happly ih => exact Op.blobsUnique (hallowed _ op ha) ih happly

/-- The stored key locked, unlocked and added again: the store still holds one key under its
blob. -/
theorem Reachable.blobs_unique_readded :
    ∃ m, BlobsUnique oneKeyStore ∧
      Reachable Crypto.symbolic (fun _ op => op.curveConsistent Crypto.symbolic = true)
        oneKeyStore m ∧ m.keys.length = 1 ∧ BlobsUnique m :=
  have hr : Reachable Crypto.symbolic (fun _ op => op.curveConsistent Crypto.symbolic = true)
      oneKeyStore _ :=
    (((@Reachable.init Crypto.symbolic _ oneKeyStore).step (.lock [1]) rfl rfl).step
      (.unlock [1] 0) rfl rfl).step (.addKey ed25519TypeName [0, 0, 0, 1, 7, 0, 0, 0, 1, 8] [5])
      rfl rfl
  ⟨_, by decide, hr, rfl, Reachable.blobs_unique (fun _ _ h => h) (by decide) hr⟩

/-- `eraseKey` under one blob leaves every key under another blob, in order. -/
theorem filter_eraseKey_of_ne {p b : Bytes} (hb : b ≠ p) :
    ∀ ks : List Key, (eraseKey ks p).filter (·.pubBlob == b) = ks.filter (·.pubBlob == b)
  | [] => rfl
  | k :: ks => by
    cases hk : k.pubBlob == p with
    | true =>
      have hkb : (k.pubBlob == b) = false := by
        rw [beq_iff_eq.mp hk]; exact beq_false_of_ne (Ne.symm hb)
      simp only [eraseKey, List.eraseP_cons, hk, cond_true, List.filter_cons, hkb,
        Bool.false_eq_true, ↓reduceIte]
    | false =>
      simp only [eraseKey, List.eraseP_cons, hk, cond_false, List.filter_cons]
      rw [← eraseKey, filter_eraseKey_of_ne hb ks]

theorem find?_eraseKey_self {p : Bytes} {ks : List Key} (hu : (ks.map Key.pubBlob).Nodup) :
    (eraseKey ks p).find? (·.pubBlob == p) = none :=
  List.find?_eq_none.mpr fun k hk h => eraseKey_blob_ne hu k hk (beq_iff_eq.mp h)

/-- On a store with one key under each blob, `removeKey` leaves nothing under its blob for
`getKey` to find, and every other blob finds what it found before. -/
theorem removeKey_getKey (hu : BlobsUnique m) (p b : Bytes) :
    (resultState ((removeKey p).run m)).getKey b = if b = p then none else m.getKey b := by
  rw [removeKey_run]
  split
  · subst b
    exact find?_eraseKey_self hu
  · show (eraseKey m.keys p).find? _ = m.keys.find? _
    rw [← List.filter_head?, ← List.filter_head?, filter_eraseKey_of_ne ‹_›]

/-- A store whose one key is removed: `getKey` finds nothing under its blob. -/
theorem removeKey_getKey_only :
    BlobsUnique oneKeyStore ∧
      (resultState ((removeKey (eddsaPubBlob ed25519TypeName [7])).run oneKeyStore)).getKey
          (eddsaPubBlob ed25519TypeName [7]) =
        if eddsaPubBlob ed25519TypeName [7] = eddsaPubBlob ed25519TypeName [7] then none
        else oneKeyStore.getKey (eddsaPubBlob ed25519TypeName [7]) :=
  ⟨by decide, removeKey_getKey (by decide) _ _⟩

theorem addKey_run_ok {type blob comment : Bytes} {k : Key}
    (h : (addKey crypto type blob comment).run m = .ok k m') :
    ∃ p k₀, KeyFactory.extractPubKey type blob = .ok p ∧
      KeyFactory.createKey crypto type blob comment = .ok k₀ ∧
      k = { k₀ with serial := m.nextSerial } ∧ m' = m.added p k₀ := by
  rw [addKey_run] at h
  cases hx : KeyFactory.extractPubKey type blob with
  | error e => rw [hx] at h; cases h
  | ok p =>
    cases hk : KeyFactory.createKey crypto type blob comment with
    | error e => rw [hx, hk] at h; cases h
    | ok k₀ =>
      rw [hx, hk] at h
      cases h
      exact ⟨p, k₀, rfl, rfl, rfl, rfl⟩

/-- On a store with one key under each blob, an `addKey` that returns a key whose type name
is its curve's makes that key what `getKey` finds under its blob, and every other blob finds
what it found before. -/
theorem addKey_getKey {type blob comment : Bytes} {k : Key} (hu : BlobsUnique m)
    (hc : (Op.addKey type blob comment).curveConsistent crypto = true)
    (h : (addKey crypto type blob comment).run m = .ok k m') (b : Bytes) :
    m'.getKey b = if b = k.pubBlob then some k else m.getKey b := by
  obtain ⟨p, k₀, hx, hk, hk', rfl⟩ := addKey_run_ok h
  rw [Op.curveConsistent, hk] at hc
  have hp : k.pubBlob = p := hk' ▸ (KeyFactory.pubBlob_eq_extractPubKey_iff crypto hx hk).mpr hc
  dsimp only [getKey, added]
  rw [← hk', List.find?_append, hp]
  split
  · rename_i hb
    rw [hb, find?_eraseKey_self hu]
    simp [hp]
  · rw [← List.filter_head?, filter_eraseKey_of_ne ‹_›, List.filter_head?]
    simp [hp, Ne.symm ‹_›]

/-- The stored key added again, with another comment: `getKey` finds the new key under its
blob. -/
theorem addKey_getKey_readded :
    BlobsUnique oneKeyStore ∧
      (Op.addKey ed25519TypeName [0, 0, 0, 1, 7, 0, 0, 0, 1, 8] [5]).curveConsistent
        Crypto.symbolic = true ∧
      ∃ k m', (addKey Crypto.symbolic ed25519TypeName [0, 0, 0, 1, 7, 0, 0, 0, 1, 8] [5]).run
          oneKeyStore = .ok k m' ∧ k.comment = [5] ∧
        m'.getKey k.pubBlob = if k.pubBlob = k.pubBlob then some k else oneKeyStore.getKey k.pubBlob :=
  ⟨by decide, rfl, _, _, rfl, rfl, @addKey_getKey Crypto.symbolic oneKeyStore _ ed25519TypeName
    [0, 0, 0, 1, 7, 0, 0, 0, 1, 8] [5] _ (by decide) rfl rfl _⟩

/-- An `addKey` that returns a key whose type name is not its curve's erases no key under the
blob the new key is stored under: every key stored there stays, and the new one joins them. -/
theorem addKey_mismatched_keeps {type blob comment : Bytes} {k : Key}
    (h : (addKey crypto type blob comment).run m = .ok k m') (hm : k.typeMatchesCurve = false) :
    m'.keys.filter (·.pubBlob == k.pubBlob) = m.keys.filter (·.pubBlob == k.pubBlob) ++ [k] := by
  obtain ⟨p, k₀, hx, hk, hk', rfl⟩ := addKey_run_ok h
  have hne : k.pubBlob ≠ p := fun he => by
    subst hk'
    exact nomatch ((KeyFactory.pubBlob_eq_extractPubKey_iff crypto hx hk).mp he).symm.trans hm
  dsimp only [added]
  rw [← hk', List.filter_append, filter_eraseKey_of_ne hne]
  simp

/-- The ECDSA blob of curve `nistp384` added twice under the type `ecdsa-sha2-nistp256`: the
second add keeps the first key beside the new one. -/
theorem addKey_mismatched_keeps_twice :
    ∃ k₁ m₁ k m', (addKey Crypto.symbolic (ascii "ecdsa-sha2-nistp256") mismatchedEcdsaBlob []).run
        (init 0) = .ok k₁ m₁ ∧
      (addKey Crypto.symbolic (ascii "ecdsa-sha2-nistp256") mismatchedEcdsaBlob []).run m₁ =
        .ok k m' ∧ k.typeMatchesCurve = false ∧
      m'.keys.filter (·.pubBlob == k.pubBlob) = m₁.keys.filter (·.pubBlob == k.pubBlob) ++ [k] ∧
      m₁.keys.filter (·.pubBlob == k.pubBlob) = [k₁] :=
  ⟨_, _, _, _, rfl, rfl, rfl, @addKey_mismatched_keeps Crypto.symbolic _ _
    (ascii "ecdsa-sha2-nistp256") mismatchedEcdsaBlob [] _ rfl rfl, rfl⟩

end KeyManager

end Libssha
