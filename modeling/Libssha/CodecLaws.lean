import Libssha.Codec

/-!
# Laws of the wire codec

What each `Serializer` write and each `Deserializer` read does, said once here so that the
encoders and parsers above are reasoned about through these lemmas and never unfolded. An
appending write checks the 256 KiB budget before it touches the buffer and then appends
exactly its encoding, so a raise leaves the buffer as the write found it, and a caller that
catches it goes on with that buffer. Over every sequence of writes the buffer stays within
the budget, and every `uint32_t` length the serializer writes is the number of bytes it
stands for. Reading back what a sequence of primitive writes produced returns the values
written, an mpint up to a redundant leading zero.
-/
namespace Libssha

open Deserializer

namespace Serializer

/-- What `writeBlob` appends: the length cast to `uint32_t`, then the bytes. -/
def blobEncoding (blob : Bytes) : Bytes := be32 (UInt32.ofNat blob.length) ++ blob

/-- The payload `writeMPInt` writes: a zero byte goes before a first byte with its top bit
set. -/
def mpintBody : Bytes → Bytes
  | [] => []
  | b :: rest => if b &&& 0x80 ≠ 0 then 0 :: b :: rest else b :: rest

/-- What `writeMPInt` appends. -/
def mpintEncoding (mpint : Bytes) : Bytes := blobEncoding (mpintBody mpint)

@[simp] theorem length_blobEncoding (blob : Bytes) :
    (blobEncoding blob).length = blob.length + 4 := by
  simp [blobEncoding, Nat.add_comm]

theorem be32_getBE32 (b0 b1 b2 b3 : UInt8) (r : Bytes) :
    be32 (getBE32 (b0 :: b1 :: b2 :: b3 :: r)) = [b0, b1, b2, b3] := by
  have h0 := b0.toNat_lt_size; have h1 := b1.toNat_lt_size
  have h2 := b2.toNat_lt_size; have h3 := b3.toNat_lt_size
  obtain ⟨e0, e1, e2, e3⟩ := be32_bytes h0 h1 h2 h3
  have hof : ∀ b : UInt8, Nat.toUInt8 b.toNat = b := fun b =>
    UInt8.toNat.inj (UInt8.toNat_ofNat_of_lt b.toNat_lt_size)
  simp only [UInt8.size] at h0 h1 h2 h3
  simp only [getBE32, be32]
  rw [UInt32.toNat_ofNat_of_lt (by simp only [UInt32.size]; omega), e0, e1, e2, e3, hof, hof, hof,
    hof]

/-- The four bytes `readBE32` assembles are the big-endian bytes of the value. -/
theorem be32_getBE32_take {l : Bytes} (hl : 4 ≤ l.length) : be32 (getBE32 l) = l.take 4 := by
  match l, hl with
  | b0 :: b1 :: b2 :: b3 :: r, _ => exact be32_getBE32 b0 b1 b2 b3 r

/-- A write that, on a buffer within the budget, appends `enc` when the result still fits
and otherwise raises `message too large` before writing anything. -/
def Appends (w : Writer Unit) (enc : Bytes) : Prop :=
  ∀ s : Serializer, s.data.length ≤ MAX_SERIALIZED_SIZE →
    w.run s = if s.data.length + enc.length > MAX_SERIALIZED_SIZE then
      .error "Serializer: message too large" else .ok ((), ⟨s.data ++ enc⟩)

/-- A write that fits appends its encoding. -/
theorem Appends.run_of_fits {w : Writer Unit} {enc : Bytes} (h : Appends w enc) {s : Serializer}
    (hs : s.data.length + enc.length ≤ MAX_SERIALIZED_SIZE) :
    w.run s = .ok ((), ⟨s.data ++ enc⟩) := by
  rw [h s (by omega), if_neg (by omega)]

theorem seq_apply (w₁ w₂ : Writer Unit) (s : Serializer) :
    (w₁ >>= fun _ => w₂) s =
      match w₁ s with
      | .ok (_, s') => w₂ s'
      | .error e => .error e := by
  simp only [Bind.bind, StateT.bind, Except.bind]
  cases w₁ s <;> rfl

theorem writeBE32_apply_of_fits (value : UInt32) {s : Serializer}
    (h : s.data.length + 4 ≤ MAX_SERIALIZED_SIZE) :
    writeBE32 value s = .ok ((), ⟨s.data ++ be32 value⟩) := by
  simp only [writeBE32, if_neg (Nat.not_lt.mpr h)]
  rfl

theorem appends_writeBE32 (value : UInt32) : Appends (writeBE32 value) (be32 value) :=
  fun _ _ => rfl

theorem appends_writeByte (byte : UInt8) : Appends (writeByte byte) [byte] :=
  fun _ _ => rfl

theorem appends_writeRaw (data : Bytes) : Appends (writeRaw data) data :=
  fun _ _ => rfl

theorem push_apply (bytes : Bytes) (s : Serializer) :
    push bytes s = .ok ((), ⟨s.data ++ bytes⟩) :=
  rfl

theorem appends_writeBlob (blob : Bytes) : Appends (writeBlob blob) (blobEncoding blob) := by
  intro s _
  simp only [writeBlob, StateT.run, length_blobEncoding]
  by_cases h : s.data.length + 4 + blob.length > MAX_SERIALIZED_SIZE
  · rw [if_pos h, if_pos (by omega)]
  · rw [if_neg h, if_neg (by omega), seq_apply, writeBE32_apply_of_fits _ (by omega)]
    dsimp only
    rw [push_apply, blobEncoding, List.append_assoc]

theorem appends_writeString (str : Bytes) : Appends (writeString str) (blobEncoding str) :=
  appends_writeBlob str

theorem appends_writeSecureBlob (blob : Bytes) :
    Appends (writeSecureBlob blob) (blobEncoding blob) :=
  appends_writeBlob blob

theorem appends_writeMPInt (mpint : Bytes) : Appends (writeMPInt mpint) (mpintEncoding mpint) := by
  intro s _
  cases mpint with
  | nil => rfl
  | cons b rest =>
    simp only [writeMPInt, StateT.run, mpintEncoding, length_blobEncoding]
    by_cases hb : b &&& 0x80 ≠ 0 <;>
      simp only [mpintBody, hb, ite_true, ite_false, not_false_eq_true] <;>
      split_ifs with h₁ h₂ h₂
    all_goals first
      | rfl
      | (simp only [List.length_cons] at *; omega)
      | rw [seq_apply, writeBE32_apply_of_fits _ (by omega)]
        simp [push, modify, modifyGet, MonadStateOf.modifyGet, StateT.modifyGet, Bind.bind,
          StateT.bind, StateT.pure, Pure.pure, Except.pure, Except.bind, blobEncoding]

theorem Appends.pure : Appends (Pure.pure ()) [] := by
  intro s hs
  simp only [List.length_nil, Nat.add_zero, List.append_nil, if_neg (Nat.not_lt.mpr hs)]
  rfl

theorem Appends.bind {w₁ w₂ : Writer Unit} {e₁ e₂ : Bytes} (h₁ : Appends w₁ e₁)
    (h₂ : Appends w₂ e₂) : Appends (w₁ >>= fun _ => w₂) (e₁ ++ e₂) := by
  intro s hs
  have h₁s := h₁ s hs
  simp only [StateT.run] at h₁s ⊢
  rw [seq_apply, h₁s, List.length_append]
  by_cases hc : s.data.length + e₁.length > MAX_SERIALIZED_SIZE
  · rw [if_pos hc, if_pos (by omega)]
  · have h₂s := h₂ ⟨s.data ++ e₁⟩ (by simp only [List.length_append]; omega)
    simp only [StateT.run, List.length_append] at h₂s
    simp only [if_neg hc, h₂s, List.append_assoc, Nat.add_assoc]

theorem Appends.ite {c : Prop} [Decidable c] {w₁ w₂ : Writer Unit} {e₁ e₂ : Bytes}
    (h₁ : Appends w₁ e₁) (h₂ : Appends w₂ e₂) :
    Appends (if c then w₁ else w₂) (if c then e₁ else e₂) := by
  by_cases hc : c <;> simpa [hc]

theorem Appends.forM {α : Type} (f : α → Writer Unit) (g : α → Bytes)
    (h : ∀ a, Appends (f a) (g a)) : ∀ xs : List α, Appends (xs.forM f) (xs.flatMap g)
  | [] => Appends.pure
  | x :: xs => by
    simpa only [List.forM_cons, List.flatMap_cons] using (h x).bind (Appends.forM f g h xs)

/-- A fresh serializer given an appending write returns its encoding, if it fits. -/
theorem Appends.build_eq {w : Writer Unit} {enc : Bytes} (h : Appends w enc) :
    build w = if enc.length > MAX_SERIALIZED_SIZE then .error "Serializer: message too large"
      else .ok enc := by
  have := h ⟨[]⟩ (by decide)
  simp only [List.length_nil, Nat.zero_add, List.nil_append] at this
  simp only [build, this]
  split <;> rfl

theorem finalize_run (s : Serializer) :
    finalize.run s = if s.data.length < 4 then .error "Serializer: not enough data to finalize"
      else .ok ((), ⟨be32 (UInt32.ofNat (s.data.length - 4)) ++ s.data.drop 4⟩) := by
  simp only [finalize, StateT.run, writeBE32At, List.take_zero, List.nil_append, Nat.zero_add]
  split <;> rfl

/-- An appending write and then `finalize`, on a fresh serializer: the buffer's first four
bytes become the length of the rest. -/
theorem Appends.build_finalize {w : Writer Unit} {enc : Bytes} (h : Appends w enc) :
    build (w >>= fun _ => finalize) =
      if enc.length > MAX_SERIALIZED_SIZE then .error "Serializer: message too large"
      else if enc.length < 4 then .error "Serializer: not enough data to finalize"
      else .ok (be32 (UInt32.ofNat (enc.length - 4)) ++ enc.drop 4) := by
  have hw := h ⟨[]⟩ (by decide)
  have hf := finalize_run ⟨enc⟩
  simp only [List.length_nil, Nat.zero_add, List.nil_append, StateT.run] at hw hf
  simp only [build, StateT.run, seq_apply, hw]
  split_ifs <;> simp_all only [not_false_eq_true, if_true, if_false] <;> rfl

/-- What an appending write returned, it appended within the budget. -/
theorem Appends.eq_of_run {w : Writer Unit} {enc : Bytes} (h : Appends w enc) {s s' : Serializer}
    (hs : s.data.length ≤ MAX_SERIALIZED_SIZE) (hr : w.run s = .ok ((), s')) :
    s' = ⟨s.data ++ enc⟩ ∧ s.data.length + enc.length ≤ MAX_SERIALIZED_SIZE := by
  rw [h s hs] at hr
  split at hr
  · cases hr
  · cases hr
    exact ⟨rfl, by omega⟩

theorem max_lt_uint32Size : MAX_SERIALIZED_SIZE < UInt32.size := by decide

theorem uint32_eq_zero_of_not_pos {a : UInt32} (h : ¬a > 0) : a = 0 := by
  rw [gt_iff_lt, UInt32.lt_def, BitVec.lt_def] at h
  exact UInt32.toNat.inj (Nat.eq_zero_of_not_pos h)

theorem toNat_ofNat_of_le_max {n : Nat} (h : n ≤ MAX_SERIALIZED_SIZE) :
    (UInt32.ofNat n).toNat = n :=
  UInt32.toNat_ofNat_of_lt (by unfold MAX_SERIALIZED_SIZE at h; simp only [UInt32.size]; omega)

/-- The in-place writes keep the buffer's length. -/
theorem length_of_writeBE32At {value : UInt32} {pos : Nat} {s s' : Serializer}
    (hr : (writeBE32At value pos).run s = .ok ((), s')) : s'.data.length = s.data.length := by
  simp only [writeBE32At, StateT.run] at hr
  split at hr <;> cases hr
  simp only [List.length_append, List.length_take, List.length_drop, length_be32]
  omega

theorem length_of_writeByteAt {byte : UInt8} {pos : Nat} {s s' : Serializer}
    (hr : (writeByteAt byte pos).run s = .ok ((), s')) : s'.data.length = s.data.length := by
  simp only [writeByteAt, StateT.run] at hr
  split at hr <;> cases hr
  exact List.length_set _ _ _

theorem finalize_eq_of_run {s s' : Serializer} (hr : finalize.run s = .ok ((), s')) :
    s'.data = be32 (UInt32.ofNat (s.data.length - 4)) ++ s.data.drop 4 ∧ 4 ≤ s.data.length := by
  rw [finalize_run] at hr
  split at hr <;> cases hr
  exact ⟨rfl, by omega⟩

/-- The calls a caller makes on one `Serializer`, with their arguments. -/
inductive Op where
  | writeBE32 (value : UInt32)
  | writeBE32At (value : UInt32) (pos : Nat)
  | writeByte (byte : UInt8)
  | writeByteAt (byte : UInt8) (pos : Nat)
  | writeBlob (blob : Bytes)
  | writeSecureBlob (blob : Bytes)
  | writeString (str : Bytes)
  | writeRaw (data : Bytes)
  | writeMPInt (mpint : Bytes)
  | finalize
  deriving Repr, DecidableEq

namespace Op

def write : Op → Writer Unit
  | .writeBE32 value => Serializer.writeBE32 value
  | .writeBE32At value pos => Serializer.writeBE32At value pos
  | .writeByte byte => Serializer.writeByte byte
  | .writeByteAt byte pos => Serializer.writeByteAt byte pos
  | .writeBlob blob => Serializer.writeBlob blob
  | .writeSecureBlob blob => Serializer.writeSecureBlob blob
  | .writeString str => Serializer.writeString str
  | .writeRaw data => Serializer.writeRaw data
  | .writeMPInt mpint => Serializer.writeMPInt mpint
  | .finalize => Serializer.finalize

/-- What an appending call appends; `none` for the calls that write in place. -/
def appended : Op → Option Bytes
  | .writeBE32 value => some (be32 value)
  | .writeByte byte => some [byte]
  | .writeBlob blob | .writeSecureBlob blob | .writeString blob => some (blobEncoding blob)
  | .writeRaw data => some data
  | .writeMPInt mpint => some (mpintEncoding mpint)
  | .writeBE32At .. | .writeByteAt .. | .finalize => none

/-- Where the call writes a `uint32_t` length into buffer `s`: at its end for a
length-prefixed append, at 0 for `finalize`. -/
def lengthAt (s : Serializer) : Op → Option Nat
  | .writeBlob _ | .writeSecureBlob _ | .writeString _ | .writeMPInt _ => some s.data.length
  | .finalize => some 0
  | _ => none

/-- The buffer after the call, for a caller that catches what it raises: each write raises
from its first check, before it writes, so a raise leaves the buffer it found. -/
def apply (op : Op) (s : Serializer) : Serializer :=
  match op.write.run s with
  | .ok (_, s') => s'
  | .error _ => s

theorem appends {op : Op} {enc : Bytes} (h : op.appended = some enc) : Appends op.write enc := by
  cases op <;> cases h
  · exact appends_writeBE32 _
  · exact appends_writeByte _
  · exact appends_writeBlob _
  · exact appends_writeSecureBlob _
  · exact appends_writeString _
  · exact appends_writeRaw _
  · exact appends_writeMPInt _

/-- A call that returns leaves a buffer within the budget. -/
theorem length_le_of_run {op : Op} {s s' : Serializer} (hs : s.data.length ≤ MAX_SERIALIZED_SIZE)
    (hr : op.write.run s = .ok ((), s')) : s'.data.length ≤ MAX_SERIALIZED_SIZE := by
  cases happ : op.appended with
  | some enc =>
    obtain ⟨rfl, hfit⟩ := (appends happ).eq_of_run hs hr
    simpa using hfit
  | none =>
    cases op <;> simp only [appended, reduceCtorEq] at happ
    · rw [length_of_writeBE32At hr]; exact hs
    · rw [length_of_writeByteAt hr]; exact hs
    · obtain ⟨h, h4⟩ := finalize_eq_of_run hr
      simp only [h, List.length_append, length_be32, List.length_drop]
      omega

theorem length_apply_le (op : Op) {s : Serializer} (hs : s.data.length ≤ MAX_SERIALIZED_SIZE) :
    (op.apply s).data.length ≤ MAX_SERIALIZED_SIZE := by
  unfold apply
  split
  · next hr => exact length_le_of_run hs hr
  · exact hs

/-- Every `uint32_t` length a call writes is the number of bytes after it. -/
theorem lengthAt_exact {op : Op} {s s' : Serializer} {k : Nat}
    (hs : s.data.length ≤ MAX_SERIALIZED_SIZE) (hr : op.write.run s = .ok ((), s'))
    (hk : op.lengthAt s = some k) :
    (getBE32 (s'.data.drop k)).toNat = s'.data.length - k - 4 := by
  cases op <;> simp only [lengthAt, Option.some.injEq, reduceCtorEq] at hk <;> subst hk
  case finalize =>
    obtain ⟨h, h4⟩ := finalize_eq_of_run hr
    simp only [h, List.drop_zero, getBE32_be32_append, List.length_append, length_be32,
      List.length_drop]
    rw [toNat_ofNat_of_le_max (by omega)]
    omega
  all_goals
    obtain ⟨rfl, hfit⟩ := (appends (by rfl)).eq_of_run hs hr
    simp only [length_blobEncoding, mpintEncoding] at hfit
    simp only [List.drop_left, blobEncoding, mpintEncoding, getBE32_be32_append,
      List.length_append, length_be32]
    rw [toNat_ofNat_of_le_max (by omega)]
    omega

end Op

/-- The buffer after a sequence of calls, each raise caught by the caller. -/
def runOps (s : Serializer) (ops : List Op) : Serializer := ops.foldl (fun s op => op.apply s) s

theorem runOps_length_le (ops : List Op) {s : Serializer}
    (hs : s.data.length ≤ MAX_SERIALIZED_SIZE) :
    (runOps s ops).data.length ≤ MAX_SERIALIZED_SIZE := by
  induction ops generalizing s with
  | nil => exact hs
  | cons op ops ih => exact ih (op.length_apply_le hs)

/-- From a buffer within the budget, every sequence of calls keeps the buffer within 256 KiB;
an appending call appends exactly its encoding or raises `message too large` because the
encoding would not fit the buffer it found; and every `uint32_t` length a call writes
(`writeBlob`, `writeSecureBlob`, `writeString`, `writeMPInt`, `finalize`) is the number of
bytes after it, so the cast never truncates. -/
theorem writes_stay_within_budget (s : Serializer) (hs : s.data.length ≤ MAX_SERIALIZED_SIZE) :
    (∀ ops : List Op, (runOps s ops).data.length ≤ MAX_SERIALIZED_SIZE) ∧
    (∀ (op : Op) (enc : Bytes), op.appended = some enc →
      op.write.run s = .ok ((), ⟨s.data ++ enc⟩) ∨
      (op.write.run s = .error "Serializer: message too large" ∧
        s.data.length + enc.length > MAX_SERIALIZED_SIZE)) ∧
    (∀ (op : Op) (s' : Serializer) (k : Nat), op.write.run s = .ok ((), s') →
      op.lengthAt s = some k → (getBE32 (s'.data.drop k)).toNat = s'.data.length - k - 4) := by
  refine ⟨fun ops => runOps_length_le ops hs, fun op enc h => ?_,
    fun _ _ _ hr hk => Op.lengthAt_exact hs hr hk⟩
  rw [Op.appends h s hs]
  split
  · exact .inr ⟨rfl, ‹_›⟩
  · exact .inl rfl

theorem writes_stay_within_budget_empty :
    ([] : Bytes).length ≤ MAX_SERIALIZED_SIZE ∧
      (runOps ⟨[]⟩ [.writeBlob [1, 2], .writeMPInt [0x80], .finalize]).data.length ≤
        MAX_SERIALIZED_SIZE :=
  ⟨by decide, (writes_stay_within_budget ⟨[]⟩ (by decide)).1 _⟩

end Serializer

namespace Deserializer

open Serializer

theorem run_bind {α β : Type} (x : Reader α) (f : α → Reader β) (d : Deserializer) :
    (x >>= f).run d =
      match x.run d with
      | .ok (a, d') => (f a).run d'
      | .error e => .error e := by
  simp only [StateT.run, Bind.bind, StateT.bind, Except.bind]
  cases x d <;> rfl

theorem run_bind_eq_ok {α β : Type} {x : Reader α} {f : α → Reader β} {d d' : Deserializer}
    {v : β} :
    (x >>= f).run d = .ok (v, d') ↔ ∃ a d₁, x.run d = .ok (a, d₁) ∧ (f a).run d₁ = .ok (v, d') := by
  rw [run_bind]
  constructor
  · intro h
    split at h
    · exact ⟨_, _, ‹_›, h⟩
    · cases h
  · rintro ⟨a, d₁, h₁, h₂⟩
    rw [h₁]
    exact h₂

theorem readBE32_eq_ok {d d' : Deserializer} {v : UInt32} (h : readBE32.run d = .ok (v, d')) :
    d.offset + 4 ≤ d.data.length ∧ v = getBE32 d.rest ∧ d' = { d with offset := d.offset + 4 } := by
  simp only [readBE32, StateT.run] at h
  split at h
  · cases h
  · cases h
    exact ⟨by omega, rfl, rfl⟩

theorem takeBytes_eq_ok {n : Nat} {msg : String} {d d' : Deserializer} {x : Bytes}
    (h : (takeBytes n msg).run d = .ok (x, d')) :
    d.offset + n ≤ d.data.length ∧ x = d.rest.take n ∧ d' = { d with offset := d.offset + n } := by
  simp only [takeBytes, StateT.run] at h
  split at h
  · cases h
  · cases h
    exact ⟨by omega, rfl, rfl⟩

/-- What a length-prefixed read returned is a whole field at the cursor, which it moved past. -/
theorem readPrefixed_eq_ok {msg : String} {d d' : Deserializer} {x : Bytes}
    (h : (readPrefixed msg).run d = .ok (x, d')) :
    d.rest = blobEncoding x ++ d'.rest ∧ x.length < UInt32.size ∧
      d' = { d with offset := d.offset + (blobEncoding x).length } := by
  obtain ⟨len, d₁, h₁, h₂⟩ := run_bind_eq_ok.mp h
  obtain ⟨h4, rfl, rfl⟩ := readBE32_eq_ok h₁
  obtain ⟨hn, rfl, rfl⟩ := takeBytes_eq_ok h₂
  simp only [rest] at *
  generalize hD : d.data.drop d.offset = D at *
  have e1 : d.data.drop (d.offset + 4) = D.drop 4 := by rw [← hD, List.drop_drop]
  have e2 : d.data.drop (d.offset + 4 + (getBE32 D).toNat) =
      (D.drop 4).drop (getBE32 D).toNat := by
    rw [← e1, List.drop_drop]
  have hl : 4 ≤ D.length := by rw [← hD, List.length_drop]; omega
  have hx : ((D.drop 4).take (getBE32 D).toNat).length = (getBE32 D).toNat := by
    rw [← e1]; simp only [List.length_take, List.length_drop]; omega
  have hv : UInt32.ofNat (getBE32 D).toNat = getBE32 D :=
    UInt32.toNat.inj (UInt32.toNat_ofNat_of_lt (getBE32 D).toNat_lt_size)
  refine ⟨?_, ?_, ?_⟩
  · rw [e1, e2, blobEncoding, hx, hv, be32_getBE32_take hl, List.append_assoc,
      List.take_append_drop, List.take_append_drop]
  · rw [e1, hx]
    exact (getBE32 D).toNat_lt_size
  · rw [e1, length_blobEncoding, hx]
    congr 1
    omega

/-- The cursor moved past `xs`. -/
theorem rest_advance {d : Deserializer} {xs r : Bytes} (h : d.rest = xs ++ r) :
    ({ d with offset := d.offset + xs.length } : Deserializer).rest = r := by
  simp only [rest] at h ⊢
  rw [← List.drop_drop, h, List.drop_left]

theorem offset_add_le_of_rest {d : Deserializer} {xs r : Bytes} (h : d.rest = xs ++ r)
    (hxs : xs ≠ []) : d.offset + xs.length ≤ d.data.length := by
  have hl := congrArg List.length h
  have hpos := List.length_pos.mpr hxs
  simp only [rest, List.length_drop, List.length_append] at hl
  omega

theorem readBE32_of_rest {d : Deserializer} {v : UInt32} {r : Bytes} (h : d.rest = be32 v ++ r) :
    readBE32.run d = .ok (v, { d with offset := d.offset + 4 }) := by
  have ho := offset_add_le_of_rest h (List.ne_nil_of_length_pos (by simp))
  simp only [readBE32, StateT.run, length_be32] at ho ⊢
  rw [if_neg (by omega), h, getBE32_be32_append]

theorem readByte_of_rest {d : Deserializer} {b : UInt8} {r : Bytes} (h : d.rest = b :: r) :
    readByte.run d = .ok (b, { d with offset := d.offset + 1 }) := by
  have ho := @offset_add_le_of_rest d [b] r h (List.cons_ne_nil _ _)
  simp only [readByte, StateT.run, List.length_singleton] at ho ⊢
  rw [if_neg (by omega), h]
  rfl

/-- A length-prefixed field at the cursor is read whole, whatever the member's message. -/
theorem readPrefixed_of_rest {d : Deserializer} {xs r : Bytes} (msg : String)
    (h : d.rest = blobEncoding xs ++ r) (hlen : xs.length < UInt32.size) :
    (readPrefixed msg).run d = .ok (xs, { d with offset := d.offset + (blobEncoding xs).length }) := by
  have ho := offset_add_le_of_rest h (List.ne_nil_of_length_pos (by simp))
  rw [blobEncoding, List.append_assoc] at h
  have hr := rest_advance h
  simp only [length_blobEncoding, length_be32] at ho hr ⊢
  rw [readPrefixed, run_bind, readBE32_of_rest h]
  simp only [UInt32.toNat_ofNat_of_lt hlen, takeBytes, StateT.run, hr]
  rw [if_neg (by omega), List.take_left, Nat.add_comm xs.length, Nat.add_assoc]

theorem readBlob_of_rest {d : Deserializer} {xs r : Bytes} (h : d.rest = blobEncoding xs ++ r)
    (hlen : xs.length < UInt32.size) :
    readBlob.run d = .ok (xs, { d with offset := d.offset + (blobEncoding xs).length }) :=
  readPrefixed_of_rest _ h hlen

theorem readMPInt_of_rest {d : Deserializer} {xs r : Bytes} (h : d.rest = blobEncoding xs ++ r)
    (hlen : xs.length < UInt32.size) :
    readMPInt.run d =
      .ok (stripMPInt xs, { d with offset := d.offset + (blobEncoding xs).length }) := by
  rw [readMPInt, run_bind, readPrefixed_of_rest _ h hlen]
  rfl

theorem stripMPInt_cons_of_ne {b : UInt8} (hb : b ≠ 0) (rest : Bytes) :
    stripMPInt (b :: rest) = b :: rest := by
  cases rest <;> simp [stripMPInt, hb]

theorem stripMPInt_zero_cons (c : UInt8) (rest : Bytes) :
    stripMPInt (0 :: c :: rest) = if c &&& 0x80 ≠ 0 then c :: rest else 0 :: c :: rest := rfl

/-- `r` returns `v` and consumes exactly `c` from every cursor whose unread bytes start
with `c`. -/
def ReadsAs {α : Type} (r : Reader α) (c : Bytes) (v : α) : Prop :=
  ∀ (e : Deserializer) (post : Bytes), e.rest = c ++ post →
    r.run e = .ok (v, { e with offset := e.offset + c.length })

/-- Every successful run of `r` consumed some bytes `c` and would return the same value from
any cursor whose unread bytes start with `c`. -/
def Determined {α : Type} (r : Reader α) : Prop :=
  ∀ d v d', r.run d = .ok (v, d') →
    ∃ c, d.rest = c ++ d'.rest ∧ d' = { d with offset := d.offset + c.length } ∧ ReadsAs r c v

/-- Two reads that succeed from the same cursors and stop at the same place, whatever they
return. -/
def SameExtent {α β : Type} (r₁ : Reader α) (r₂ : Reader β) : Prop :=
  ∀ d d', (∃ a, r₁.run d = .ok (a, d')) ↔ ∃ b, r₂.run d = .ok (b, d')

theorem readsAs_readPrefixed (msg : String) {x : Bytes} (hlen : x.length < UInt32.size) :
    ReadsAs (readPrefixed msg) (blobEncoding x) x :=
  fun _ _ h => readPrefixed_of_rest msg h hlen

theorem readsAs_readBE32 (v : UInt32) : ReadsAs readBE32 (be32 v) v :=
  fun _ _ h => readBE32_of_rest h

theorem readsAs_readByte (b : UInt8) : ReadsAs readByte [b] b :=
  fun _ _ h => readByte_of_rest h

theorem readsAs_pure {α : Type} (v : α) : ReadsAs (pure v) [] v := fun e _ _ => by
  simp only [StateT.run_pure, List.length_nil, Nat.add_zero]
  rfl

theorem ReadsAs.bind {α β : Type} {r : Reader α} {f : α → Reader β} {c₁ c₂ : Bytes} {a : α}
    {v : β} (h₁ : ReadsAs r c₁ a) (h₂ : ReadsAs (f a) c₂ v) : ReadsAs (r >>= f) (c₁ ++ c₂) v := by
  intro e post he
  rw [List.append_assoc] at he
  rw [run_bind, h₁ e _ he]
  dsimp only
  rw [h₂ _ post (rest_advance he), List.length_append, Nat.add_assoc]

theorem remaining_eq_length_rest (d : Deserializer) : d.remaining = d.rest.length :=
  (List.length_drop _ _).symm

theorem ReadsAs.bind_pure {α β : Type} {r : Reader α} {g : α → β} {c : Bytes} {a : α}
    (h : ReadsAs r c a) : ReadsAs (r >>= fun x => pure (g x)) c (g a) := by
  intro e post he
  rw [run_bind, h e post he]
  rfl

/-- A guard on the bytes left passes where the bytes read next are there. -/
theorem readsAs_unless_remaining_lt {α : Type} {k : Nat} {msg : String} {r : Reader α}
    {c : Bytes} {v : α} (hk : k ≤ c.length) (h : ReadsAs r c v) :
    ReadsAs (do
      if (← get).remaining < k then throw msg
      r) c v := by
  intro e post he
  have hrem : ¬e.remaining < k := by
    rw [remaining_eq_length_rest, he, List.length_append]
    omega
  show StateT.run (if e.remaining < k then _ else _) e = _
  rw [if_neg hrem]
  exact h e post he

/-- `r` reads exactly the bytes `c` that remain and returns `v`: the shape of a reader that
loops while bytes remain. -/
def ReadsAll {α : Type} (r : Reader α) (c : Bytes) (v : α) : Prop :=
  ∀ e : Deserializer, e.rest = c → r.run e = .ok (v, { e with offset := e.offset + c.length })

theorem ReadsAs.readsAll {α : Type} {r : Reader α} {c : Bytes} {v : α} (h : ReadsAs r c v) :
    ReadsAll r c v :=
  fun e he => h e [] (he.trans (List.append_nil c).symm)

theorem ReadsAs.bind_readsAll {α β : Type} {r : Reader α} {f : α → Reader β} {c₁ c₂ : Bytes}
    {a : α} {v : β} (h₁ : ReadsAs r c₁ a) (h₂ : ReadsAll (f a) c₂ v) :
    ReadsAll (r >>= f) (c₁ ++ c₂) v := by
  intro e he
  rw [run_bind, h₁ e c₂ he]
  dsimp only
  rw [h₂ _ (rest_advance he), List.length_append, Nat.add_assoc]

theorem ReadsAs.readsAll_bind_pure {α β : Type} {r : Reader α} {g : α → β} {c : Bytes} {a : α}
    (h : ReadsAs r c a) : ReadsAll (r >>= fun x => pure (g x)) c (g a) := by
  intro e he
  rw [run_bind, h e [] (he.trans (List.append_nil c).symm)]
  rfl

theorem ReadsAll.parse {α : Type} {r : Reader α} {c : Bytes} {v : α} (h : ReadsAll r c v) :
    Deserializer.parse r c = .ok v := by
  simp only [Deserializer.parse, h (ofBytes c) rfl]
  rfl

theorem run_liftM_ok {α : Type} (a : α) (d : Deserializer) :
    (liftM (Except.ok a : Except String α) : Reader α).run d = .ok (a, d) :=
  rfl

theorem readsAs_liftM_ok {α : Type} (a : α) :
    ReadsAs (liftM (Except.ok a : Except String α) : Reader α) [] a := fun e _ _ => by
  rw [run_liftM_ok]
  rfl

theorem slice_of_rest {d : Deserializer} {xs r : Bytes} (h : d.rest = xs ++ r)
    (hxs : xs ++ r ≠ []) (o : Nat) :
    ({ d with offset := o } : Deserializer).sliceSecure d.offset (d.offset + xs.length) = .ok xs := by
  have ho := @offset_add_le_of_rest d (xs ++ r) [] (by rw [h, List.append_nil]) hxs
  simp only [List.length_append] at ho
  simp only [sliceSecure, slice]
  rw [if_neg (by omega), List.drop_take, Nat.add_sub_cancel_left]
  simp only [rest] at h
  rw [h, List.take_left]

/-- A skip that reads `blob` whole, then the slice from where it started to where it
stopped: how `AddIdentityMessage::deserialize` takes the key blob. -/
theorem readsAll_skip_slice {α : Type} {skip : Reader Unit} {blob c : Bytes}
    {k : Bytes → Reader α} {v : α} (hs : ReadsAs skip blob ()) (hc : c ≠ [])
    (hk : ReadsAll (k blob) c v) :
    ReadsAll (do
      let start := (← get).offset
      skip
      let d ← get
      let b ← d.sliceSecure start d.offset
      k b) (blob ++ c) v := by
  intro e he
  have hne : blob ++ c ≠ [] := fun h => hc (List.append_eq_nil.mp h).2
  show (skip >>= fun _ => _).run e = _
  rw [run_bind, hs e c he]
  show (liftM (Deserializer.sliceSecure _ e.offset _) >>= k).run _ = _
  rw [run_bind, slice_of_rest he hne, run_liftM_ok]
  dsimp only
  rw [hk _ (rest_advance he), List.length_append, Nat.add_assoc]

theorem determined_readPrefixed (msg : String) : Determined (readPrefixed msg) := by
  intro d x d' h
  obtain ⟨hrest, hlen, rfl⟩ := readPrefixed_eq_ok h
  exact ⟨_, hrest, rfl, readsAs_readPrefixed msg hlen⟩

theorem Determined.pure {α : Type} (v : α) : Determined (Pure.pure v : Reader α) := by
  intro d a d' h
  cases h
  exact ⟨[], rfl, rfl, fun e _ _ => rfl⟩

theorem Determined.bind {α β : Type} {r : Reader α} {f : α → Reader β} (h₁ : Determined r)
    (h₂ : ∀ a, Determined (f a)) : Determined (r >>= f) := by
  intro d v d' h
  obtain ⟨a, d₁, hr, hf⟩ := run_bind_eq_ok.mp h
  obtain ⟨c₁, hrest₁, rfl, hc₁⟩ := h₁ d a _ hr
  obtain ⟨c₂, hrest₂, rfl, hc₂⟩ := h₂ a _ v _ hf
  refine ⟨c₁ ++ c₂, ?_, ?_, hc₁.bind hc₂⟩
  · rw [hrest₁, hrest₂, List.append_assoc]
  · simp only [List.length_append, Nat.add_assoc]

/-- A read that succeeded in place reads the same from the slice of the bytes it consumed,
and consumes the whole slice: what `sliceSecure(start, offset)` hands on after a skip. -/
theorem Determined.run_slice {α : Type} {r : Reader α} (h : Determined r) {d d' : Deserializer}
    {v : α} (hr : r.run d = .ok (v, d')) :
    r.run (ofBytes ((d.data.take d'.offset).drop d.offset)) =
      .ok (v, ⟨(d.data.take d'.offset).drop d.offset, ((d.data.take d'.offset).drop d.offset).length⟩) := by
  obtain ⟨c, hrest, rfl, hc⟩ := h d v d' hr
  have hslice : (d.data.take (d.offset + c.length)).drop d.offset = c := by
    rw [List.drop_take, Nat.add_sub_cancel_left]
    exact (congrArg (List.take c.length) hrest).trans (List.take_left c _)
  rw [hslice]
  simpa [ofBytes] using hc (ofBytes c) [] (by simp [rest, ofBytes])

theorem Determined.offset_le {α : Type} {r : Reader α} (h : Determined r) {d d' : Deserializer}
    {v : α} (hr : r.run d = .ok (v, d')) : d.offset ≤ d'.offset := by
  obtain ⟨c, -, rfl, -⟩ := h d v d' hr
  exact Nat.le_add_right _ _

theorem SameExtent.bind {α β γ δ : Type} {r₁ : Reader α} {r₂ : Reader β} {f : α → Reader γ}
    {g : β → Reader δ} (h : SameExtent r₁ r₂) (hf : ∀ a b, SameExtent (f a) (g b)) :
    SameExtent (r₁ >>= f) (r₂ >>= g) := by
  intro d d'
  simp only [run_bind_eq_ok]
  constructor
  · rintro ⟨v, a, d₁, h₁, h₂⟩
    obtain ⟨b, hb⟩ := (h d d₁).mp ⟨a, h₁⟩
    obtain ⟨w, hw⟩ := (hf a b d₁ d').mp ⟨v, h₂⟩
    exact ⟨w, b, d₁, hb, hw⟩
  · rintro ⟨w, b, d₁, h₁, h₂⟩
    obtain ⟨a, ha⟩ := (h d d₁).mpr ⟨b, h₁⟩
    obtain ⟨v, hv⟩ := (hf a b d₁ d').mpr ⟨w, h₂⟩
    exact ⟨v, a, d₁, ha, hv⟩

theorem SameExtent.pure {α β : Type} (a : α) (b : β) :
    SameExtent (Pure.pure a : Reader α) (Pure.pure b : Reader β) := by
  intro d d'
  constructor
  · rintro ⟨_, h⟩
    cases h
    exact ⟨b, rfl⟩
  · rintro ⟨_, h⟩
    cases h
    exact ⟨a, rfl⟩

/-- The length-prefixed reads differ only in the text of their exception. -/
theorem readPrefixed_sameExtent (msg₁ msg₂ : String) :
    SameExtent (readPrefixed msg₁) (readPrefixed msg₂) := by
  have key : ∀ m₁ m₂ d d', (∃ a, (readPrefixed m₁).run d = .ok (a, d')) →
      ∃ b, (readPrefixed m₂).run d = .ok (b, d') := by
    rintro m₁ m₂ d d' ⟨x, hx⟩
    obtain ⟨hrest, hlen, rfl⟩ := readPrefixed_eq_ok hx
    exact ⟨x, readPrefixed_of_rest m₂ hrest hlen⟩
  exact fun d d' => ⟨key msg₁ msg₂ d d', key msg₂ msg₁ d d'⟩

/-- A length-prefixed read goes as far as `discardBlob`. -/
theorem readPrefixed_sameExtent_discardBlob (msg : String) :
    SameExtent (readPrefixed msg) discardBlob := by
  intro d d'
  rw [readPrefixed_sameExtent msg "Not enough data to discard blob"]
  simp only [discardBlob, run_bind_eq_ok]
  constructor
  · rintro ⟨x, hx⟩
    exact ⟨(), x, d', hx, rfl⟩
  · rintro ⟨_, x, d₁, hx, h⟩
    cases h
    exact ⟨x, hx⟩

theorem SameExtent.symm {α β : Type} {r₁ : Reader α} {r₂ : Reader β} (h : SameExtent r₁ r₂) :
    SameExtent r₂ r₁ := fun d d' => (h d d').symm

theorem SameExtent.refl {α : Type} (r : Reader α) : SameExtent r r := fun _ _ => Iff.rfl

/-- Returning a function of the value does not move the cursor. -/
theorem SameExtent.bind_pure {α β γ : Type} {r₁ : Reader α} {r₂ : Reader β}
    (h : SameExtent r₁ r₂) (g : β → γ) : SameExtent r₁ (r₂ >>= fun b => Pure.pure (g b)) := by
  intro d d'
  rw [h d d']
  simp only [run_bind_eq_ok]
  constructor
  · rintro ⟨b, hb⟩
    exact ⟨g b, b, d', hb, rfl⟩
  · rintro ⟨_, b, d₁, hb, hp⟩
    cases hp
    exact ⟨b, hb⟩

theorem discardBlob_sameExtent (msg : String) : SameExtent discardBlob (readPrefixed msg) :=
  (readPrefixed_sameExtent_discardBlob msg).symm

end Deserializer

/-- A value of one of the primitive wire types. -/
inductive Prim where
  | uint32 (v : UInt32)
  | byte (b : UInt8)
  | blob (b : Bytes)
  | string (s : Bytes)
  | mpint (x : Bytes)
  deriving Repr, DecidableEq

/-- The unsigned big-endian value of a byte string. -/
def bigEndian (b : Bytes) : Nat := b.foldl (fun n x => n * 256 + x.toNat) 0

namespace Prim

open Serializer Deserializer

/-- The `Serializer` call that writes the value. -/
def write : Prim → Writer Unit
  | .uint32 v => writeBE32 v
  | .byte b => writeByte b
  | .blob b => writeBlob b
  | .string s => writeString s
  | .mpint x => writeMPInt x

/-- The matching `Deserializer` call: the argument selects the kind only. -/
def read : Prim → Reader Prim
  | .uint32 _ => .uint32 <$> readBE32
  | .byte _ => .byte <$> readByte
  | .blob _ => .blob <$> readBlob
  | .string _ => .string <$> readString
  | .mpint _ => .mpint <$> readMPInt

def encoding : Prim → Bytes
  | .uint32 v => be32 v
  | .byte b => [b]
  | .blob b | .string b => blobEncoding b
  | .mpint x => mpintEncoding x

/-- What the matching read returns: the value itself, an mpint without the zero byte the
reader strips. -/
def decoded : Prim → Prim
  | .mpint x => .mpint (stripMPInt (mpintBody x))
  | p => p

theorem appends (p : Prim) : Appends p.write p.encoding := by
  cases p
  · exact appends_writeBE32 _
  · exact appends_writeByte _
  · exact appends_writeBlob _
  · exact appends_writeString _
  · exact appends_writeMPInt _

theorem read_of_rest {p : Prim} {d : Deserializer} {r : Bytes} (h : d.rest = p.encoding ++ r)
    (hlen : p.encoding.length ≤ MAX_SERIALIZED_SIZE) :
    p.read.run d = .ok (p.decoded, { d with offset := d.offset + p.encoding.length }) := by
  have hsize := max_lt_uint32Size
  cases p <;> simp only [encoding, length_blobEncoding, mpintEncoding] at h hlen
  · simp only [read, StateT.run_map, readBE32_of_rest h]; rfl
  · simp only [read, StateT.run_map, readByte_of_rest h]; rfl
  · simp only [read, StateT.run_map, readBlob_of_rest h (by omega)]; rfl
  · simp only [read, readString, StateT.run_map, readBlob_of_rest h (by omega)]; rfl
  · simp only [read, StateT.run_map, readMPInt_of_rest h (by omega)]; rfl

/-- Reading a sequence back from its encoding, with bytes `r` after it. -/
theorem readAll_of_rest (ps : List Prim) {d : Deserializer} {r : Bytes}
    (h : d.rest = ps.flatMap encoding ++ r)
    (hlen : (ps.flatMap encoding).length ≤ MAX_SERIALIZED_SIZE) :
    (ps.mapM read).run d =
      .ok (ps.map decoded, { d with offset := d.offset + (ps.flatMap encoding).length }) := by
  induction ps generalizing d with
  | nil => simp [List.mapM_nil]; rfl
  | cons p ps ih =>
    simp only [List.flatMap_cons, List.append_assoc, List.length_append] at h hlen
    have hp := read_of_rest h (by omega)
    have hps := @ih { d with offset := d.offset + p.encoding.length } (rest_advance h)
      (by omega)
    simp only [List.mapM_cons, run_bind, hp, hps, List.map_cons, List.flatMap_cons,
      List.length_append, Nat.add_assoc]
    rfl

end Prim

theorem bigEndian_zero_cons (r : Bytes) : bigEndian (0 :: r) = bigEndian r := rfl

/-- The mpint the reader returns has the value written. -/
theorem bigEndian_stripMPInt_mpintBody (x : Bytes) :
    bigEndian (stripMPInt (Serializer.mpintBody x)) = bigEndian x := by
  match x with
  | [] => rfl
  | b :: rest =>
    by_cases hb : b &&& 0x80 ≠ 0
    · simp only [Serializer.mpintBody, if_pos hb, stripMPInt_zero_cons]
    · simp only [Serializer.mpintBody, if_neg hb]
      by_cases hb0 : b = 0
      · subst hb0
        cases rest with
        | nil => rfl
        | cons c rest =>
          rw [stripMPInt_zero_cons]
          split
          · exact (bigEndian_zero_cons _).symm
          · rfl
      · rw [stripMPInt_cons_of_ne hb0]

/-- Without a leading zero byte, an mpint comes back byte for byte, and its payload starts
with a zero byte exactly when its first byte has the top bit set. -/
theorem mpintBody_of_no_leading_zero {x : Bytes} (hx : x.head? ≠ some 0) :
    stripMPInt (Serializer.mpintBody x) = x ∧
      ((Serializer.mpintBody x).head? = some 0 ↔ ∃ b rest, x = b :: rest ∧ b &&& 0x80 ≠ 0) := by
  match x with
  | [] => simp [Serializer.mpintBody, stripMPInt]
  | b :: rest =>
    have hb0 : b ≠ 0 := fun h => hx (by rw [h]; rfl)
    by_cases hb : b &&& 0x80 ≠ 0
    · have hbody : Serializer.mpintBody (b :: rest) = 0 :: b :: rest := if_pos hb
      rw [hbody, stripMPInt_zero_cons, if_pos hb]
      exact ⟨rfl, iff_of_true rfl ⟨b, rest, rfl, hb⟩⟩
    · have hbody : Serializer.mpintBody (b :: rest) = b :: rest := if_neg hb
      rw [hbody, stripMPInt_cons_of_ne hb0]
      refine ⟨rfl, iff_of_false (fun h => hb0 (Option.some.inj h)) ?_⟩
      rintro ⟨_, _, he, hb'⟩
      rw [← (List.cons.inj he).1] at hb'
      exact hb hb'

/-- Any sequence of primitive values whose encoding fits the budget: the serializer writes
the concatenated encodings, and the matching reads return the values with nothing left
over. A blob, a string, a `uint32_t` and a byte come back as written; an mpint comes back
with the value written, byte for byte when it has no leading zero byte, and its payload
then starts with a zero byte exactly when its first byte has the top bit set. -/
theorem prims_round_trip (ps : List Prim)
    (hfit : (ps.flatMap Prim.encoding).length ≤ MAX_SERIALIZED_SIZE) :
    Serializer.build (ps.forM Prim.write) = .ok (ps.flatMap Prim.encoding) ∧
    (∃ d, (ps.mapM Prim.read).run (Deserializer.ofBytes (ps.flatMap Prim.encoding)) =
      .ok (ps.map Prim.decoded, d) ∧ d.remaining = 0) ∧
    (∀ x, bigEndian (stripMPInt (Serializer.mpintBody x)) = bigEndian x) ∧
    (∀ x : Bytes, x.head? ≠ some 0 → stripMPInt (Serializer.mpintBody x) = x ∧
      ((Serializer.mpintBody x).head? = some 0 ↔ ∃ b rest, x = b :: rest ∧ b &&& 0x80 ≠ 0)) := by
  refine ⟨?_, ⟨_, @Prim.readAll_of_rest ps _ [] (by simp [Deserializer.rest,
    Deserializer.ofBytes]) hfit, ?_⟩, bigEndian_stripMPInt_mpintBody,
    fun _ => mpintBody_of_no_leading_zero⟩
  · rw [(Serializer.Appends.forM _ _ Prim.appends ps).build_eq, if_neg (by omega)]
  · simp [Deserializer.remaining, Deserializer.ofBytes]

theorem prims_round_trip_sample :
    ([Prim.uint32 7, .byte 1, .blob [2, 3], .string (ascii "ssh"), .mpint [0x80, 1],
        .mpint [0, 0x90]].flatMap Prim.encoding).length ≤ MAX_SERIALIZED_SIZE ∧
      Serializer.build ([Prim.uint32 7, .byte 1, .blob [2, 3], .string (ascii "ssh"),
        .mpint [0x80, 1], .mpint [0, 0x90]].forM Prim.write) =
        .ok ([Prim.uint32 7, .byte 1, .blob [2, 3], .string (ascii "ssh"), .mpint [0x80, 1],
          .mpint [0, 0x90]].flatMap Prim.encoding) :=
  ⟨by decide, (prims_round_trip _ (by decide)).1⟩

end Libssha
