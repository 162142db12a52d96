import Mathlib.Algebra.Group.Nat.Basic
import Mathlib.Data.List.Basic

/-!
# The SSH wire codec

`Serializer` and `Deserializer` of `utils/`. A byte buffer is a list of `UInt8`, and a
`std::string` is the byte list it holds. A read is a step of `Reader`, a state monad over
the cursor that fails with the text of the exception the source throws; a write is a step
of `Writer` over the output buffer, failing the same way. Offsets are naturals: the
`size_t` arithmetic of the bounds checks is taken without wrap-around.
-/
namespace Libssha

abbrev Bytes := List UInt8

/-- Results of the model are compared constructor by constructor, so that `decide` can
evaluate them. -/
instance instDecidableEqExcept {ε α : Type} [DecidableEq ε] [DecidableEq α] :
    DecidableEq (Except ε α)
  | .ok a, .ok b => decidable_of_iff (a = b) (by simp)
  | .error a, .error b => decidable_of_iff (a = b) (by simp)
  | .ok _, .error _ => isFalse nofun
  | .error _, .ok _ => isFalse nofun

/-- The bytes of an ASCII text, as the source's `std::string` literals hold them. -/
def ascii (s : String) : Bytes := s.toList.map fun c => c.toNat.toUInt8

/-- Big-endian bytes of a `uint32_t`, as `writeBE32` pushes them. -/
def be32 (v : UInt32) : Bytes :=
  [(v.toNat / 16777216 % 256).toUInt8, (v.toNat / 65536 % 256).toUInt8,
    (v.toNat / 256 % 256).toUInt8, (v.toNat % 256).toUInt8]

/-- The `uint32_t` assembled from the first four bytes, as `readBE32` does. -/
def getBE32 : Bytes → UInt32
  | b0 :: b1 :: b2 :: b3 :: _ =>
    UInt32.ofNat (b0.toNat * 16777216 + b1.toNat * 65536 + b2.toNat * 256 + b3.toNat)
  | _ => 0

@[simp] theorem length_be32 (v : UInt32) : (be32 v).length = 4 := rfl

theorem toNat_toUInt8 (n : Nat) : (Nat.toUInt8 n).toNat = n % 256 := by
  simp [Nat.toUInt8, UInt8.ofNat, UInt8.toNat, BitVec.toNat_ofNat]

/-- A `uint32_t` is the sum of its four big-endian bytes. -/
theorem be32_digits (n : Nat) (h : n < 4294967296) :
    n / 16777216 % 256 * 16777216 + n / 65536 % 256 * 65536 + n / 256 % 256 * 256 + n % 256 =
      n := by
  have h1 := Nat.div_add_mod n 256
  have h2 := Nat.div_add_mod (n / 256) 256
  have h3 := Nat.div_add_mod (n / 65536) 256
  rw [Nat.div_div_eq_div_mul] at h2 h3
  have h4 : n / 16777216 % 256 = n / 16777216 := Nat.mod_eq_of_lt (by omega)
  simp only [Nat.reduceMul] at h2 h3
  omega

/-- The four bytes of a big-endian sum are its summands. -/
theorem be32_bytes {a b c d : Nat} (ha : a < 256) (hb : b < 256) (hc : c < 256) (hd : d < 256) :
    (a * 16777216 + b * 65536 + c * 256 + d) / 16777216 % 256 = a ∧
    (a * 16777216 + b * 65536 + c * 256 + d) / 65536 % 256 = b ∧
    (a * 16777216 + b * 65536 + c * 256 + d) / 256 % 256 = c ∧
    (a * 16777216 + b * 65536 + c * 256 + d) % 256 = d := by
  have e : a * 16777216 + b * 65536 + c * 256 + d = d + 256 * (c + 256 * (b + 256 * a)) := by
    omega
  have e2 : (16777216 : Nat) = 256 * (256 * 256) := rfl
  have e3 : (65536 : Nat) = 256 * 256 := rfl
  rw [e, e2, e3, ← Nat.div_div_eq_div_mul, ← Nat.div_div_eq_div_mul, ← Nat.div_div_eq_div_mul]
  simp only [Nat.add_mul_div_left _ _ (by decide : 0 < 256), Nat.add_mul_mod_self_left,
    Nat.div_eq_of_lt hd, Nat.div_eq_of_lt hc, Nat.div_eq_of_lt hb, Nat.mod_eq_of_lt ha,
    Nat.mod_eq_of_lt hb, Nat.mod_eq_of_lt hc, Nat.mod_eq_of_lt hd, Nat.zero_add]
  exact ⟨trivial, trivial, trivial, trivial⟩

@[simp] theorem getBE32_be32_append (v : UInt32) (rest : Bytes) :
    getBE32 (be32 v ++ rest) = v := by
  have hv := v.toNat_lt_size
  simp only [be32, getBE32, List.cons_append, toNat_toUInt8, Nat.mod_mod,
    be32_digits v.toNat hv]
  exact UInt32.toNat.inj (UInt32.toNat_ofNat_of_lt hv)

/-- `EStateM.run` is the step applied to the state. -/
theorem estateRun_eq {ε σ α : Type} (x : EStateM ε σ α) (s : σ) : x.run s = x s := rfl

theorem except_bind_eq_ok {ε α β : Type} {x : Except ε α} {f : α → Except ε β} {b : β} :
    x >>= f = .ok b ↔ ∃ a, x = .ok a ∧ f a = .ok b := by
  cases x <;> simp [bind, Except.bind]

/-- A read cursor over a buffer (`Deserializer`). -/
structure Deserializer where
  data : Bytes
  offset : Nat
  deriving Repr, DecidableEq

abbrev Reader := StateT Deserializer (Except String)

namespace Deserializer

/-- `Deserializer(data)`: a cursor at the start of `data`. -/
def ofBytes (data : Bytes) : Deserializer := ⟨data, 0⟩

def remaining (d : Deserializer) : Nat := d.data.length - d.offset

/-- The bytes not yet read. -/
def rest (d : Deserializer) : Bytes := d.data.drop d.offset

def readBE32 : Reader UInt32 := fun d =>
  if d.offset + 4 > d.data.length then .error "Not enough data to read uint32_t"
  else .ok (getBE32 d.rest, { d with offset := d.offset + 4 })

def readByte : Reader UInt8 := fun d =>
  if d.offset + 1 > d.data.length then .error "Not enough data to read byte"
  else .ok (d.rest.headD 0, { d with offset := d.offset + 1 })

/-- Take `n` bytes at the cursor, or fail with `msg` when fewer remain. -/
def takeBytes (n : Nat) (msg : String) : Reader Bytes := fun d =>
  if d.offset + n > d.data.length then .error msg
  else .ok (d.rest.take n, { d with offset := d.offset + n })

/-- The shape shared by every length-prefixed read: a `uint32_t` length, then that
many bytes, failing with the member's own text. -/
def readPrefixed (msg : String) : Reader Bytes := do
  let len ← readBE32
  takeBytes len.toNat msg

def readBlob : Reader Bytes := readPrefixed "Not enough data to read blob"

def readBlobSecure : Reader Bytes := readPrefixed "Not enough data to read secure blob"

def discardBlob : Reader Unit := do
  let _ ← readPrefixed "Not enough data to discard blob"

/-- `readString` reads a blob; the `std::string` holds its bytes. -/
def readString : Reader Bytes := readBlob

/-- Drop the single leading zero of an mpint payload when the next byte has its
top bit set. -/
def stripMPInt : Bytes → Bytes
  | 0 :: b :: rest => if b &&& 0x80 ≠ 0 then b :: rest else 0 :: b :: rest
  | r => r

def readMPInt : Reader Bytes := do
  let r ← readPrefixed "Not enough data to read mpint"
  pure (stripMPInt r)

def readMPIntSecure : Reader Bytes := readMPInt

/-- Run a read program on a fresh cursor over `data` and keep its value. -/
def parse (r : Reader α) (data : Bytes) : Except String α :=
  (r.run (ofBytes data)).map Prod.fst

/-- `slice(start, end)`: the bytes `[start, end)` of the whole buffer; the cursor does
not move. -/
def slice (d : Deserializer) (start stop : Nat) : Except String Bytes :=
  if start > stop ∨ stop > d.data.length then .error "Invalid slice range"
  else .ok ((d.data.take stop).drop start)

def sliceSecure (d : Deserializer) (start stop : Nat) : Except String Bytes :=
  d.slice start stop

end Deserializer

/-- The output buffer of a `Serializer`. -/
structure Serializer where
  data : Bytes
  deriving Repr, DecidableEq

abbrev Writer := StateT Serializer (Except String)

/-- `MAX_SERIALIZED_SIZE`: no write may grow the buffer past 256 KiB. -/
def MAX_SERIALIZED_SIZE : Nat := 256 * 1024

namespace Serializer

/-- Append `bytes` unchecked; every caller has checked the budget. -/
def push (bytes : Bytes) : Writer Unit := modify fun s => ⟨s.data ++ bytes⟩

def writeBE32 (value : UInt32) : Writer Unit := fun s =>
  if s.data.length + 4 > MAX_SERIALIZED_SIZE then .error "Serializer: message too large"
  else push (be32 value) s

/-- `writeBE32(value, at)` with an explicit `at`: overwrite four bytes in place. -/
def writeBE32At (value : UInt32) (pos : Nat) : Writer Unit := fun s =>
  if pos + 4 > s.data.length then .error "Serializer: writeBE32 at out of range"
  else .ok ((), ⟨s.data.take pos ++ be32 value ++ s.data.drop (pos + 4)⟩)

def writeByte (byte : UInt8) : Writer Unit := fun s =>
  if s.data.length + 1 > MAX_SERIALIZED_SIZE then .error "Serializer: message too large"
  else push [byte] s

def writeByteAt (byte : UInt8) (pos : Nat) : Writer Unit := fun s =>
  if pos ≥ s.data.length then .error "Serializer: writeByte at out of range"
  else .ok ((), ⟨s.data.set pos byte⟩)

/-- `writeBlob`: the length (cast to `uint32_t`) and the payload, after one budget
check for both. -/
def writeBlob (blob : Bytes) : Writer Unit := fun s =>
  if s.data.length + 4 + blob.length > MAX_SERIALIZED_SIZE then
    .error "Serializer: message too large"
  else (do writeBE32 (UInt32.ofNat blob.length); push blob) s

def writeSecureBlob (blob : Bytes) : Writer Unit := writeBlob blob

def writeString (str : Bytes) : Writer Unit := writeBlob str

def writeRaw (data : Bytes) : Writer Unit := fun s =>
  if s.data.length + data.length > MAX_SERIALIZED_SIZE then
    .error "Serializer: message too large"
  else push data s

/-- `writeMPInt`: a leading zero is prepended when the top bit of the first byte is set;
an empty integer is the bare length 0. -/
def writeMPInt (mpint : Bytes) : Writer Unit := fun s =>
  match mpint with
  | [] => writeBE32 0 s
  | b :: _ =>
    let prependZero := b &&& 0x80 ≠ 0
    let length := mpint.length + if prependZero then 1 else 0
    if s.data.length + 4 + length > MAX_SERIALIZED_SIZE then
      .error "Serializer: message too large"
    else (do
      writeBE32 (UInt32.ofNat length)
      if prependZero then push [0]
      push mpint) s

/-- `finalize`: overwrite bytes `[0, 4)` with the length of what follows them. -/
def finalize : Writer Unit := fun s =>
  if s.data.length < 4 then .error "Serializer: not enough data to finalize"
  else writeBE32At (UInt32.ofNat (s.data.length - 4)) 0 s

/-- Run a sequence of writes on a fresh `Serializer` and return its buffer. -/
def build (w : Writer Unit) : Except String Bytes :=
  (w.run ⟨[]⟩).map fun r => r.2.data

end Serializer

end Libssha
