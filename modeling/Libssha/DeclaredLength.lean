import Libssha.Framing
import Libssha.CodecLaws

/-!
# The declared length

`Message(data, length)` reads a frame's `uint32_t` length and drops it, and no decoder
behind it reads those four bytes again: each typed constructor re-reads the header, then
reads its fields from the bytes after it and slices only past it. So `processReal` runs
alike on any two buffers of one length that agree past their first four bytes. The length
a frame declares is never read, and the bytes after a frame in a chunk are read as the end
of its body.

`PastHeader` relates two cursors at one offset past the header of two such buffers. A reader
`Respects` it when, run from related cursors, it raises the same exception or returns the
same value at related cursors: the primitive reads do, and binds, conditions and lifted
`Except` values keep it. `FromStart` is the same for a read that begins with the header.
-/
namespace Libssha

namespace Deserializer

/-- Two buffers that differ at most in their first four bytes, the frame's declared
length. -/
structure SameBody (d₁ d₂ : Bytes) : Prop where
  length_eq : d₁.length = d₂.length
  drop_eq : d₁.drop 4 = d₂.drop 4

/-- Cursors at one offset past the header of two buffers with the same body. -/
structure PastHeader (e₁ e₂ : Deserializer) : Prop where
  body : SameBody e₁.data e₂.data
  offset_eq : e₁.offset = e₂.offset
  four_le : 4 ≤ e₁.offset

/-- What two runs from related cursors may end in: one exception, or one value at related
cursors. -/
inductive SameOutcome {α : Type} : Except String (α × Deserializer) →
    Except String (α × Deserializer) → Prop
  | error (msg : String) : SameOutcome (.error msg) (.error msg)
  | ok (v : α) {e₁ e₂ : Deserializer} (h : PastHeader e₁ e₂) :
      SameOutcome (.ok (v, e₁)) (.ok (v, e₂))

/-- `r` cannot tell related cursors apart. -/
def Respects {α : Type} (r : Reader α) : Prop :=
  ∀ e₁ e₂, PastHeader e₁ e₂ → SameOutcome (r.run e₁) (r.run e₂)

/-- `r`, run from the start of two buffers with the same body, cannot tell them apart. -/
def FromStart {α : Type} (r : Reader α) : Prop :=
  ∀ d₁ d₂, SameBody d₁ d₂ → SameOutcome (r.run (ofBytes d₁)) (r.run (ofBytes d₂))

variable {α β : Type} {d₁ d₂ : Bytes} {e₁ e₂ : Deserializer}

theorem drop_eq_drop_four (d : Bytes) {n : Nat} (hn : 4 ≤ n) :
    d.drop n = (d.drop 4).drop (n - 4) := by
  rw [List.drop_drop, Nat.add_sub_cancel' hn]

theorem SameBody.isEmpty_eq (h : SameBody d₁ d₂) : d₁.isEmpty = d₂.isEmpty :=
  Bool.eq_iff_iff.mpr (by
    rw [List.isEmpty_iff_length_eq_zero, List.isEmpty_iff_length_eq_zero, h.length_eq])

theorem PastHeader.rest_eq (h : PastHeader e₁ e₂) : e₁.rest = e₂.rest := by
  have h₂ : 4 ≤ e₂.offset := h.offset_eq ▸ h.four_le
  rw [rest, rest, drop_eq_drop_four e₁.data h.four_le, drop_eq_drop_four e₂.data h₂,
    h.body.drop_eq, h.offset_eq]

theorem PastHeader.remaining_eq (h : PastHeader e₁ e₂) : e₁.remaining = e₂.remaining := by
  rw [remaining, remaining, h.body.length_eq, h.offset_eq]

theorem PastHeader.advance (h : PastHeader e₁ e₂) (k : Nat) :
    PastHeader { e₁ with offset := e₁.offset + k } { e₂ with offset := e₂.offset + k } :=
  ⟨h.body, congrArg (· + k) h.offset_eq, Nat.le_add_right_of_le h.four_le⟩

/-- A slice that starts past the header is the same in both buffers. -/
theorem PastHeader.sliceSecure_eq (h : PastHeader e₁ e₂) {start stop : Nat} (hs : 4 ≤ start) :
    e₁.sliceSecure start stop = e₂.sliceSecure start stop := by
  rw [sliceSecure, sliceSecure, slice, slice, h.body.length_eq, List.drop_take, List.drop_take,
    drop_eq_drop_four _ hs, drop_eq_drop_four _ hs, h.body.drop_eq]

theorem SameOutcome.map_fst {o₁ o₂ : Except String (α × Deserializer)}
    (h : SameOutcome o₁ o₂) : o₁.map Prod.fst = o₂.map Prod.fst := by
  cases h <;> rfl

theorem SameOutcome.bind {x : Reader α} {f : α → Reader β}
    (h : SameOutcome (x.run e₁) (x.run e₂)) (hf : ∀ a, Respects (f a)) :
    SameOutcome ((x >>= f).run e₁) ((x >>= f).run e₂) := by
  rw [run_bind, run_bind]
  revert h
  generalize x.run e₁ = o₁
  generalize x.run e₂ = o₂
  rintro (_ | ⟨v, h⟩)
  · exact .error _
  · exact hf v _ _ h

theorem Respects.bind {x : Reader α} {f : α → Reader β} (hx : Respects x)
    (hf : ∀ a, Respects (f a)) : Respects (x >>= f) :=
  fun e₁ e₂ h => (hx e₁ e₂ h).bind hf

theorem FromStart.parse_eq {r : Reader α} (hr : FromStart r) (h : SameBody d₁ d₂) :
    parse r d₁ = parse r d₂ :=
  (hr d₁ d₂ h).map_fst

theorem FromStart.bind {x : Reader α} {f : α → Reader β} (hx : FromStart x)
    (hf : ∀ a, Respects (f a)) : FromStart (x >>= f) :=
  fun d₁ d₂ h => (hx d₁ d₂ h).bind hf

theorem Respects.pure (v : α) : Respects (Pure.pure v : Reader α) := fun _ _ h => .ok v h

theorem Respects.throw (msg : String) : Respects (throw msg : Reader α) :=
  fun _ _ _ => .error msg

theorem Respects.lift (x : Except String α) : Respects (liftM x : Reader α) := by
  cases x with
  | error msg => exact fun _ _ _ => .error msg
  | ok v => exact fun _ _ h => .ok v h

/-- A value lifted from `Except` and used by what follows: only its successful values
matter. -/
theorem Respects.bind_liftM {x : Except String α} {f : α → Reader β}
    (hf : ∀ a, x = .ok a → Respects (f a)) : Respects (liftM x >>= f) := by
  cases x with
  | error msg => exact fun _ _ _ => .error msg
  | ok a => exact hf a rfl

theorem Respects.ite {c : Prop} [Decidable c] {t e : Reader α} (ht : c → Respects t)
    (he : ¬c → Respects e) : Respects (if c then t else e) := by
  by_cases hc : c
  · rw [if_pos hc]; exact ht hc
  · rw [if_neg hc]; exact he hc

/-- A read that looks at the cursor, but goes on alike from related cursors. -/
theorem Respects.get_bind {f : Deserializer → Reader β}
    (hf : ∀ e₁ e₂, PastHeader e₁ e₂ → f e₁ = f e₂ ∧ Respects (f e₂)) :
    Respects (get >>= f) :=
  fun e₁ e₂ h => by
    show SameOutcome ((f e₁).run e₁) ((f e₂).run e₂)
    rw [(hf e₁ e₂ h).1]
    exact (hf e₁ e₂ h).2 e₁ e₂ h

/-- A read that looks at the cursor only for the bytes that remain. -/
theorem Respects.get_remaining {f : Nat → Reader β} (hf : ∀ n, Respects (f n)) :
    Respects (get >>= fun d => f d.remaining) :=
  Respects.get_bind fun _ _ h => ⟨by rw [h.remaining_eq], hf _⟩

/-- A read of `k` bytes at the cursor: `readBE32`, `readByte` and `takeBytes`. -/
theorem respects_advance (k : Nat) (msg : String) (g : Bytes → α) :
    Respects (fun d => if d.offset + k > d.data.length then .error msg
      else .ok (g d.rest, { d with offset := d.offset + k }) : Reader α) := fun e₁ e₂ h => by
  have hc : (e₁.offset + k > e₁.data.length) = (e₂.offset + k > e₂.data.length) := by
    rw [h.offset_eq, h.body.length_eq]
  simp only [StateT.run, h.rest_eq, hc]
  split
  · exact .error msg
  · exact .ok _ (h.advance k)

theorem respects_readBE32 : Respects readBE32 := respects_advance 4 _ getBE32

theorem respects_readByte : Respects readByte := respects_advance 1 _ fun r => r.headD 0

theorem respects_readPrefixed (msg : String) : Respects (readPrefixed msg) :=
  respects_readBE32.bind fun len => respects_advance len.toNat msg (List.take len.toNat)

theorem respects_readBlob : Respects readBlob := respects_readPrefixed _

theorem respects_readBlobSecure : Respects readBlobSecure := respects_readPrefixed _

theorem respects_discardBlob : Respects discardBlob :=
  (respects_readPrefixed _).bind fun _ => Respects.pure _

theorem readBE32_run_ofBytes (d : Bytes) :
    readBE32.run (ofBytes d) = if d.length < 4 then .error "Not enough data to read uint32_t"
      else .ok (getBE32 d, ⟨d, 4⟩) := by
  simp only [StateT.run, readBE32, ofBytes, rest, List.drop_zero, Nat.zero_add, gt_iff_lt]

theorem fromStart_readHeader : FromStart Message.readHeader := fun d₁ d₂ h => by
  rw [Message.readHeader, run_bind, run_bind, readBE32_run_ofBytes, readBE32_run_ofBytes,
    h.length_eq]
  by_cases hk : d₂.length < 4
  · rw [if_pos hk, if_pos hk]; exact .error _
  · rw [if_neg hk, if_neg hk]
    exact respects_readByte ⟨d₁, 4⟩ ⟨d₂, 4⟩ ⟨h, rfl, le_refl 4⟩

theorem fromStart_readTypedHeader (ok : UInt8 → Bool) (err : String) :
    FromStart (Message.readTypedHeader ok err) :=
  fromStart_readHeader.bind fun _ =>
    Respects.ite (fun _ => (Respects.throw _).bind fun _ => Respects.pure _)
      fun _ => (Respects.pure _).bind fun _ => Respects.pure _

end Deserializer

open Deserializer

theorem respects_eddsaSkipBlob : Respects eddsaSkipBlob :=
  respects_discardBlob.bind fun _ => respects_discardBlob

/-- Every registered key type's skipper. -/
theorem respects_skipBlob : ∀ t ∈ keyTypes, Respects t.skipBlob := by
  intro t ht
  simp only [keyTypes, List.mem_append, List.mem_cons, List.mem_map, List.not_mem_nil,
    or_false] at ht
  rcases ht with (rfl | rfl | rfl) | ⟨n, -, rfl⟩
  · exact respects_eddsaSkipBlob
  · exact respects_eddsaSkipBlob
  · exact respects_discardBlob.bind fun _ => respects_discardBlob.bind fun _ =>
      respects_discardBlob.bind fun _ => respects_discardBlob.bind fun _ =>
        respects_discardBlob.bind fun _ => respects_discardBlob
  · exact respects_discardBlob.bind fun _ => respects_discardBlob.bind fun _ => respects_discardBlob

theorem respects_skipKeyBlob (type : Bytes) : Respects (KeyFactory.skipKeyBlob type) := by
  unfold KeyFactory.skipKeyBlob
  split
  · next t ht => exact respects_skipBlob t (List.mem_of_find?_eq_some ht)
  · exact Respects.throw _

theorem fromStart_signRequest : FromStart SignRequestMessage.deserialize :=
  (fromStart_readTypedHeader _ _).bind fun _ => respects_readBlob.bind fun _ =>
    respects_readBlob.bind fun _ => respects_readBE32.bind fun _ => Respects.pure _

theorem fromStart_removeIdentity : FromStart RemoveIdentityMessage.deserialize :=
  (fromStart_readTypedHeader _ _).bind fun _ => respects_readBlob.bind fun _ => Respects.pure _

theorem fromStart_lockMessage (msgType : UInt8) :
    FromStart (LockMessageBase.deserialize : Reader (LockMessageBase msgType)) :=
  (fromStart_readTypedHeader _ _).bind fun _ =>
    respects_readBlobSecure.bind fun _ => Respects.pure _

theorem respects_sessionBind (crypto : Crypto) :
    Respects (OpenSSHSessionBind.deserialize crypto) :=
  respects_readBlob.bind fun _ => respects_readBlob.bind fun _ => respects_readBlob.bind fun _ =>
    respects_readByte.bind fun _ => (Respects.lift _).bind fun _ => (Respects.lift _).bind fun _ =>
      Respects.ite (fun _ => (Respects.lift _).bind fun _ => (Respects.lift _).bind fun _ =>
          Respects.ite (fun _ => (Respects.throw _).bind fun _ => Respects.pure _)
            fun _ => (Respects.pure _).bind fun _ => Respects.pure _)
        fun _ => (Respects.pure _).bind fun _ => Respects.pure _

theorem respects_of_createMessageExtension {crypto : Crypto} {name : Bytes}
    {r : Reader OpenSSHSessionBind}
    (h : ExtensionFactory.createMessageExtension crypto name = .ok r) : Respects r := by
  unfold ExtensionFactory.createMessageExtension at h
  split at h
  · cases h; exact respects_sessionBind crypto
  · cases h

theorem fromStart_extension (crypto : Crypto) : FromStart (ExtensionMessage.deserialize crypto) :=
  (fromStart_readHeader.bind fun _ => respects_readBlob).bind fun _ =>
    Respects.bind_liftM fun _ h =>
      (respects_of_createMessageExtension h).bind fun _ => Respects.pure _

theorem respects_restrictDestination : Respects OpenSSHSRestrictDestination.deserialize :=
  respects_readBlob.bind fun _ => (Respects.lift _).bind fun _ => Respects.pure _

theorem respects_of_createConstraintExtension {name : Bytes}
    {r : Reader OpenSSHSRestrictDestination}
    (h : ExtensionFactory.createConstraintExtension name = .ok r) : Respects r := by
  unfold ExtensionFactory.createConstraintExtension at h
  split at h
  · cases h; exact respects_restrictDestination
  · cases h

theorem respects_readConstraints :
    ∀ fuel m, Respects (AddIdentityMessage.readConstraints fuel m)
  | 0, m => Respects.pure m
  | fuel + 1, m => by
    rw [AddIdentityMessage.readConstraints]
    exact Respects.get_bind fun _ _ h => ⟨by rw [h.remaining_eq], Respects.ite
      (fun _ => respects_readByte.bind fun _ =>
        Respects.ite (fun _ => respects_readConstraints fuel _) fun _ =>
        Respects.ite (fun _ => respects_readBE32.bind fun _ => respects_readConstraints fuel _)
        fun _ =>
        Respects.ite (fun _ => respects_readBlob.bind fun _ => Respects.bind_liftM fun _ h =>
          (respects_of_createConstraintExtension h).bind fun _ => respects_readConstraints fuel _)
        fun _ => Respects.throw _)
      fun _ => Respects.pure m⟩

/-- The key blob is the slice from where the skipper started, past the header, to where it
stopped. -/
theorem respects_keyBlobSlice {start : Nat} (hs : 4 ≤ start) {f : Bytes → Reader β}
    (hf : ∀ b, Respects (f b)) :
    Respects (get >>= fun d => liftM (d.sliceSecure start d.offset) >>= f) :=
  Respects.get_bind fun _ _ h =>
    ⟨by rw [h.sliceSecure_eq hs, h.offset_eq], (Respects.lift _).bind hf⟩

theorem fromStart_addIdentity : FromStart AddIdentityMessage.deserialize :=
  (fromStart_readTypedHeader _ _).bind fun _ => respects_readBlob.bind fun keyType =>
    Respects.get_bind fun _ _ h => ⟨by simp only [h.offset_eq],
      (respects_skipKeyBlob keyType).bind fun _ =>
        respects_keyBlobSlice (h.offset_eq ▸ h.four_le) fun _ => respects_readBlob.bind fun _ =>
          Respects.ite (fun _ => Respects.get_remaining fun n => respects_readConstraints n _)
            fun _ => Respects.pure _⟩

namespace Message

variable {α : Type} {d₁ d₂ : Bytes}

theorem ofBytes_eq_map (d : Bytes) : ofBytes d = (parse readHeader d).map (⟨·, d⟩) := by
  unfold ofBytes; cases parse readHeader d <;> rfl

theorem expect_eq (h : SameBody d₁ d₂) (t : UInt8) (ok : UInt8 → Bool) (cls : String) :
    expect ⟨t, d₁⟩ ok cls = expect ⟨t, d₂⟩ ok cls := by
  simp only [expect, h.isEmpty_eq]

/-- A typed constructor: the checks of `expect`, then its decoder over the whole buffer. -/
theorem typed_eq {r : Reader α} (hr : FromStart r) (h : SameBody d₁ d₂) (t : UInt8)
    (ok : UInt8 → Bool) (cls : String) :
    (do expect ⟨t, d₁⟩ ok cls; parse r d₁ : Except String α) =
      (do expect ⟨t, d₂⟩ ok cls; parse r d₂) := by
  rw [expect_eq h, hr.parse_eq h]

/-- Two messages of one type that every request decoder `dispatch` calls reads alike. -/
structure DecodesAlike (crypto : Crypto) (m₁ m₂ : Message) : Prop where
  type_eq : m₁.type = m₂.type
  add : AddIdentityMessage.ofMessage m₁ = AddIdentityMessage.ofMessage m₂
  remove : RemoveIdentityMessage.ofMessage m₁ = RemoveIdentityMessage.ofMessage m₂
  lock : (LockMessageBase.ofMessage m₁ : Except String LockMessage) =
    LockMessageBase.ofMessage m₂
  unlock : (LockMessageBase.ofMessage m₁ : Except String UnlockMessage) =
    LockMessageBase.ofMessage m₂
  sign : SignRequestMessage.ofMessage m₁ = SignRequestMessage.ofMessage m₂
  extension : ExtensionMessage.ofMessage crypto m₁ = ExtensionMessage.ofMessage crypto m₂

theorem decodesAlike (crypto : Crypto) (h : SameBody d₁ d₂) (t : UInt8) :
    DecodesAlike crypto ⟨t, d₁⟩ ⟨t, d₂⟩ :=
  ⟨rfl, typed_eq fromStart_addIdentity h t _ _, typed_eq fromStart_removeIdentity h t _ _,
    typed_eq (fromStart_lockMessage _) h t _ _, typed_eq (fromStart_lockMessage _) h t _ _,
    typed_eq fromStart_signRequest h t _ _, typed_eq (fromStart_extension crypto) h t _ _⟩

end Message

namespace Session

variable {crypto : Crypto} {emb : Embedder} {now : Int}

/-- `dispatch` reads a message only through its type and the decoders of its handlers. -/
theorem dispatch_congr {m₁ m₂ : Message} (h : Message.DecodesAlike crypto m₁ m₂) :
    dispatch crypto emb now m₁ = dispatch crypto emb now m₂ := by
  unfold dispatch processAddIdentity processRemoveIdentity processLock processUnlock
    startSignWorker processSignRequest processExtension processKeyRequest
  rw [h.type_eq, h.add, h.remove, h.lock, h.unlock, h.sign, h.extension]

theorem processReal_ignores_declaredLength {d₁ d₂ : Bytes} (hlen : d₁.length = d₂.length)
    (hbody : d₁.drop 4 = d₂.drop 4) (a : Agent) :
    (processReal crypto emb now d₁).run a = (processReal crypto emb now d₂).run a := by
  have h : SameBody d₁ d₂ := ⟨hlen, hbody⟩
  have hp := fromStart_readHeader.parse_eq h
  rcases hh : parse Message.readHeader d₂ with e | t
  · have hof : ∀ d, parse Message.readHeader d = .error e → Message.ofBytes d = .error e :=
      fun d hd => by rw [Message.ofBytes_eq_map, hd]; rfl
    rw [processReal_run_malformed (hof d₁ (hp.trans hh)),
      processReal_run_malformed (hof d₂ hh)]
  · have hof : ∀ d, parse Message.readHeader d = .ok t → Message.ofBytes d = .ok ⟨t, d⟩ :=
      fun d hd => by rw [Message.ofBytes_eq_map, hd]; rfl
    by_cases hg : a.keys.locked = false ∨ t = SSH_AGENTC_UNLOCK
    · rw [processReal_run_of_gate a now (hof d₁ (hp.trans hh)) hg,
        processReal_run_of_gate a now (hof d₂ hh) hg,
        dispatch_congr (Message.decodesAlike crypto h t)]
    · obtain ⟨hl, ht⟩ := not_or.mp hg
      rw [processReal_run_locked a now (hof d₁ (hp.trans hh)) (by simpa using hl) ht,
        processReal_run_locked a now (hof d₂ hh) (by simpa using hl) ht]

/-- A REMOVE_ALL frame and a LOCK frame in one chunk are handled as one REMOVE_ALL frame
whose declared length covers both. -/
theorem processReal_ignores_declaredLength_twoFrames :
    ([0, 0, 0, 1, 19, 0, 0, 0, 7, 22, 0, 0, 0, 2, 112, 119] : Bytes).length =
        ([0, 0, 0, 12, 19, 0, 0, 0, 7, 22, 0, 0, 0, 2, 112, 119] : Bytes).length ∧
      ([0, 0, 0, 1, 19, 0, 0, 0, 7, 22, 0, 0, 0, 2, 112, 119] : Bytes).drop 4 =
        ([0, 0, 0, 12, 19, 0, 0, 0, 7, 22, 0, 0, 0, 2, 112, 119] : Bytes).drop 4 ∧
      (processReal Crypto.symbolic Embedder.plain 0
          [0, 0, 0, 1, 19, 0, 0, 0, 7, 22, 0, 0, 0, 2, 112, 119]).run
          ⟨KeyManager.init 0, Session.init, []⟩ =
        (processReal Crypto.symbolic Embedder.plain 0
          [0, 0, 0, 12, 19, 0, 0, 0, 7, 22, 0, 0, 0, 2, 112, 119]).run
          ⟨KeyManager.init 0, Session.init, []⟩ :=
  ⟨rfl, rfl, processReal_ignores_declaredLength rfl rfl _⟩

end Session

end Libssha
