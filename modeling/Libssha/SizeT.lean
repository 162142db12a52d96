import Libssha.Codec

/-!
# The cursor in `size_t`

`Deserializer` keeps `m_offset` and `m_length` as `size_t`. Each bounds check adds to the
offset in that type: `m_offset + 4`, `m_offset + 1`, and `m_offset + len` with `len` the
`uint32_t` just read. On a target whose `size_t` has `w` bits these sums are taken modulo
`2 ^ w`. `Codec` takes them without wrap-around, and here each read is modelled with the
wrapped sums.

A call is a step of an `EStateM` over `m_offset`, so an exception keeps the cursor where the
C++ object leaves it: after a length header, a failed blob check leaves the offset past the
header. Its value is the range `[start, stop)` of the buffer that the result is copied from.
`discardBlob` copies nothing.

Each check tests the very sum the offset then becomes, so whatever `w` is, the offset never
passes the buffer's end (`offsetAfter_le`). Suppose no sum can wrap, that is
`L + 2 ^ 32 + 4 ≤ 2 ^ w`. Then the reads are those of `Codec`, every range lies in the buffer,
and a read raises exactly when it needs more bytes than remain
(`calls_in_bounds_of_no_wrap`). A 64-bit `size_t` meets this for every buffer shorter than
`2 ^ 63` bytes. A 32-bit one does not: a declared length near `2 ^ 32` wraps the blob check,
and the read hands back a range past the end of an eight-byte buffer while it moves the
cursor backwards.
-/
namespace Libssha

namespace SizeT

section Reads

variable (w : Nat) (data : Bytes)

/-- `a + b` in a `size_t` of `w` bits. -/
def add (a b : Nat) : Nat := (a + b) % 2 ^ w

theorem add_of_lt {a b : Nat} (h : a + b < 2 ^ w) : add w a b = a + b := Nat.mod_eq_of_lt h

/-- A step of the cursor: the state is `m_offset`, a failure the exception's text. -/
abbrev Cursor := EStateM String Nat

/-- The `uint32_t` that `readBE32` assembles from the bytes at offset `o`. -/
def lengthAt (o : Nat) : Nat := (getBE32 (data.drop o)).toNat

theorem lengthAt_lt (o : Nat) : lengthAt data o < 2 ^ 32 := (getBE32 (data.drop o)).toNat_lt_size

def readBE32 : Cursor UInt32 := fun o =>
  if add w o 4 > data.length then .error "Not enough data to read uint32_t" o
  else .ok (getBE32 (data.drop o)) (add w o 4)

/-- The length-prefixed reads: the payload's range, or the member's own text when the
check fails, with the cursor left past the header. -/
def readPrefixed (msg : String) : Cursor (Nat × Nat) := do
  let len ← SizeT.readBE32 w data
  let o ← get
  if add w o len.toNat > data.length then throw msg
  set (add w o len.toNat)
  pure (o, o + len.toNat)

def readByte : Cursor (Nat × Nat) := fun o =>
  if add w o 1 > data.length then .error "Not enough data to read byte" o
  else .ok (o, o + 1) (add w o 1)

def slice (start stop : Nat) : Cursor (Nat × Nat) := fun o =>
  if start > stop ∨ stop > data.length then .error "Invalid slice range" o
  else .ok (start, stop) o

/-- The public reads of `Deserializer`. -/
inductive Read where
  | readBE32
  | readByte
  | readBlob
  | readBlobSecure
  | discardBlob
  | readString
  | readMPInt
  | readMPIntSecure
  | slice (start stop : Nat)
  deriving Repr, DecidableEq

/-- One call: the range its result is copied from (`readMPInt` may then drop the range's
first byte), none for `discardBlob`. -/
def Read.run : Read → Cursor (Option (Nat × Nat))
  | .readBE32 => do
    let o ← get
    let _ ← SizeT.readBE32 w data
    pure (some (o, o + 4))
  | .readByte => some <$> SizeT.readByte w data
  | .readBlob => some <$> readPrefixed w data "Not enough data to read blob"
  | .readBlobSecure => some <$> readPrefixed w data "Not enough data to read secure blob"
  | .discardBlob => (fun _ => none) <$> readPrefixed w data "Not enough data to discard blob"
  | .readString => some <$> readPrefixed w data "Not enough data to read blob"
  | .readMPInt => some <$> readPrefixed w data "Not enough data to read mpint"
  | .readMPIntSecure => some <$> readPrefixed w data "Not enough data to read mpint"
  | .slice start stop => some <$> SizeT.slice data start stop

/-- What a step gives from a cursor at `o`, and where it leaves the cursor, raise or not. -/
def outcome {α : Type} (x : Cursor α) (o : Nat) : Except String α × Nat :=
  match x.run o with
  | .ok v o' => (.ok v, o')
  | .error e o' => (.error e, o')

/-- A call on a cursor at `o`. -/
def call (r : Read) (o : Nat) : Except String (Option (Nat × Nat)) × Nat :=
  outcome (r.run w data) o

/-- The offset a sequence of calls leaves, each raise caught by the caller. -/
def offsetAfter (rs : List Read) (o : Nat) : Nat :=
  rs.foldl (fun o r => (call w data r o).2) o

/-- The bytes a call at `o` takes from the cursor, counted without wrap-around: the header
and then the declared length for a length-prefixed read. -/
def Read.needs : Read → Nat → Nat
  | .readBE32, _ => 4
  | .readByte, _ => 1
  | .slice _ _, _ => 0
  | _, o => 4 + lengthAt data o

/-- Whether a call at `o` can be served from the buffer: the bytes it needs remain, or, for a
slice, the range lies in the buffer. -/
def Read.fits : Read → Nat → Bool
  | .slice start stop, _ => start ≤ stop && stop ≤ data.length
  | r, o => r.needs data o ≤ data.length - o

@[simp] theorem outcome_map {α β : Type} (f : α → β) (x : Cursor α) (o : Nat) :
    outcome (f <$> x) o = ((outcome x o).1.map f, (outcome x o).2) := by
  simp only [outcome, estateRun_eq, Functor.map, EStateM.map]
  cases x o <;> rfl

theorem outcome_readPrefixed (msg : String) (o : Nat) :
    outcome (readPrefixed w data msg) o =
      if add w o 4 > data.length then (.error "Not enough data to read uint32_t", o)
      else if add w (add w o 4) (lengthAt data o) > data.length then (.error msg, add w o 4)
      else (.ok (add w o 4, add w o 4 + lengthAt data o), add w (add w o 4) (lengthAt data o)) := by
  simp only [outcome, readPrefixed, SizeT.readBE32, estateRun_eq, bind, EStateM.bind, get,
    getThe, MonadStateOf.get, EStateM.get, lengthAt]
  by_cases h : add w o 4 > data.length
  · simp only [if_pos h]
  · simp only [if_neg h]
    split_ifs <;> rfl

theorem call_readBE32 (o : Nat) :
    call w data .readBE32 o =
      if add w o 4 > data.length then (.error "Not enough data to read uint32_t", o)
      else (.ok (some (o, o + 4)), add w o 4) := by
  simp only [call, Read.run, outcome, SizeT.readBE32, estateRun_eq, bind, EStateM.bind, get,
    getThe, MonadStateOf.get, EStateM.get]
  split_ifs <;> rfl

theorem call_readByte (o : Nat) :
    call w data .readByte o =
      if add w o 1 > data.length then (.error "Not enough data to read byte", o)
      else (.ok (some (o, o + 1)), add w o 1) := by
  simp only [call, Read.run, outcome_map]
  simp only [outcome, SizeT.readByte, estateRun_eq]
  split_ifs <;> rfl

theorem call_slice (start stop o : Nat) :
    call w data (.slice start stop) o =
      if start > stop ∨ stop > data.length then (.error "Invalid slice range", o)
      else (.ok (some (start, stop)), o) := by
  simp only [call, Read.run, outcome_map]
  simp only [outcome, SizeT.slice, estateRun_eq]
  split_ifs <;> rfl

theorem prefixed_offset_le {β : Type} (msg : String) (f : Nat × Nat → β) {o : Nat}
    (ho : o ≤ data.length) : (outcome (f <$> readPrefixed w data msg) o).2 ≤ data.length := by
  rw [outcome_map, outcome_readPrefixed]
  split_ifs <;> omega

/-- Every check tests the sum the offset then becomes, so no call, returning or raising,
takes the cursor past the end, whatever the width of `size_t`. -/
theorem call_offset_le (r : Read) {o : Nat} (ho : o ≤ data.length) :
    (call w data r o).2 ≤ data.length := by
  cases r with
  | readBE32 => rw [call_readBE32]; split_ifs <;> omega
  | readByte => rw [call_readByte]; split_ifs <;> omega
  | slice => rw [call_slice]; split_ifs <;> omega
  | _ => exact prefixed_offset_le w data _ _ ho

theorem offsetAfter_le (rs : List Read) {o : Nat} (ho : o ≤ data.length) :
    offsetAfter w data rs o ≤ data.length := by
  induction rs generalizing o with
  | nil => exact ho
  | cons r rs ih => exact ih (call_offset_le w data r ho)

/-- `slice` adds nothing to the offset, so `Codec`'s is this one at every width. -/
theorem slice_refines (start stop o : Nat) :
    Deserializer.slice ⟨data, o⟩ start stop =
      match outcome (SizeT.slice data start stop) o with
      | (.ok (a, b), _) => .ok ((data.take b).drop a)
      | (.error e, _) => .error e := by
  simp only [outcome, SizeT.slice, estateRun_eq, Deserializer.slice]
  split_ifs <;> rfl

end Reads

section NoWrap

variable {w : Nat} {data : Bytes} (hw : data.length + 2 ^ 32 + 4 ≤ 2 ^ w)
include hw

theorem add_of_no_wrap {a b : Nat} (ha : a ≤ data.length) (hb : b < 2 ^ 32 + 4) :
    add w a b = a + b :=
  add_of_lt w (by omega)

theorem outcome_readPrefixed_of_no_wrap (msg : String) {o : Nat} (ho : o ≤ data.length) :
    outcome (readPrefixed w data msg) o =
      if o + 4 > data.length then (.error "Not enough data to read uint32_t", o)
      else if o + 4 + lengthAt data o > data.length then (.error msg, o + 4)
      else (.ok (o + 4, o + 4 + lengthAt data o), o + 4 + lengthAt data o) := by
  rw [outcome_readPrefixed, add_of_no_wrap hw ho (by omega)]
  by_cases h : o + 4 > data.length
  · simp only [if_pos h]
  · have hlen := lengthAt_lt data o
    simp only [if_neg h, add_of_no_wrap hw (show o + 4 ≤ data.length by omega)
      (show lengthAt data o < 2 ^ 32 + 4 by omega)]

/-- The length-prefixed calls at once: a call `f <$> readPrefixed msg` whose value `f` takes
from the payload's range. -/
theorem prefixed_of_no_wrap (msg : String) (f : Nat × Nat → Option (Nat × Nat))
    (hf : ∀ p a b, f p = some (a, b) → p = (a, b)) {o : Nat} (ho : o ≤ data.length) :
    (decide (4 + lengthAt data o ≤ data.length - o) = false ∧
      ∃ e, (outcome (f <$> readPrefixed w data msg) o).1 = .error e) ∨
    (decide (4 + lengthAt data o ≤ data.length - o) = true ∧
      ∃ v, (outcome (f <$> readPrefixed w data msg) o).1 = .ok v ∧
      (outcome (f <$> readPrefixed w data msg) o).2 = o + (4 + lengthAt data o) ∧
      ∀ a b, v = some (a, b) → a ≤ b ∧ b ≤ data.length) := by
  rw [outcome_map, outcome_readPrefixed_of_no_wrap hw msg ho]
  split_ifs
  · exact .inl ⟨decide_eq_false (by omega), _, rfl⟩
  · exact .inl ⟨decide_eq_false (by omega), _, rfl⟩
  · refine .inr ⟨decide_eq_true (by omega), _, rfl, by omega, fun a b hv => ?_⟩
    cases hf _ a b hv
    omega

/-- A call from inside the buffer where no sum can wrap: either it cannot be served and
raises, or it can, and it hands back a range inside the buffer and moves the cursor on by
the bytes it needs. -/
theorem call_of_no_wrap (r : Read) {o : Nat} (ho : o ≤ data.length) :
    (r.fits data o = false ∧ ∃ e, (call w data r o).1 = .error e) ∨
    (r.fits data o = true ∧ ∃ v, (call w data r o).1 = .ok v ∧
      (call w data r o).2 = o + r.needs data o ∧
      ∀ a b, v = some (a, b) → a ≤ b ∧ b ≤ data.length) := by
  cases r with
  | readBE32 | readByte =>
    -- the fixed-width reads: four bytes or one at the cursor
    first | rw [call_readBE32] | rw [call_readByte]
    rw [add_of_no_wrap hw ho (by omega)]
    split_ifs
    · exact .inl ⟨by simp only [Read.fits, Read.needs, decide_eq_false_iff_not]; omega, _, rfl⟩
    · refine .inr ⟨by simp only [Read.fits, Read.needs, decide_eq_true_eq]; omega, _, rfl, rfl,
        fun a b hv => ?_⟩
      cases hv
      omega
  | slice start stop =>
    rw [call_slice]
    split_ifs
    · exact .inl ⟨by simp only [Read.fits, Bool.and_eq_false_iff, decide_eq_false_iff_not]; omega,
        _, rfl⟩
    · refine .inr ⟨by simp only [Read.fits, Bool.and_eq_true, decide_eq_true_eq]; omega, _, rfl,
        rfl, fun a b hv => ?_⟩
      cases hv
      omega
  | _ => exact prefixed_of_no_wrap hw _ _ (fun _ _ _ h => by cases h <;> rfl) ho

/-- Every range a call hands back lies in the buffer. -/
theorem call_range_le (r : Read) {o : Nat} (ho : o ≤ data.length) {a b : Nat}
    (h : (call w data r o).1 = .ok (some (a, b))) : a ≤ b ∧ b ≤ data.length := by
  rcases call_of_no_wrap hw r ho with ⟨-, e, he⟩ | ⟨-, v, hv, -, hrange⟩
  · cases he ▸ h
  · exact hrange a b (Except.ok.inj (hv ▸ h))

/-- A call raises exactly when it cannot be served: the header and the declared length
together exceed what remains, or a slice leaves the buffer. -/
theorem call_isOk_eq_fits (r : Read) {o : Nat} (ho : o ≤ data.length) :
    (call w data r o).1.isOk = r.fits data o := by
  rcases call_of_no_wrap hw r ho with ⟨hf, e, he⟩ | ⟨hf, v, hv, -⟩ <;> rw [hf]
  · rw [he]; rfl
  · rw [hv]; rfl

/-- From a fresh cursor, whatever reads came before, when no sum can wrap: a call leaves the
offset in the buffer, hands back a range inside it, and raises exactly when it cannot be
served. -/
theorem calls_in_bounds_of_no_wrap (rs : List Read) (r : Read) :
    (call w data r (offsetAfter w data rs 0)).2 ≤ data.length ∧
      (∀ a b, (call w data r (offsetAfter w data rs 0)).1 = .ok (some (a, b)) →
        a ≤ b ∧ b ≤ data.length) ∧
      (call w data r (offsetAfter w data rs 0)).1.isOk = r.fits data (offsetAfter w data rs 0) :=
  have ho := offsetAfter_le w data rs (Nat.zero_le _)
  ⟨call_offset_le w data r ho, fun _ _ => call_range_le hw r ho, call_isOk_eq_fits hw r ho⟩

end NoWrap

/-- A one-byte blob and a byte after it. -/
def blobThenByte : Bytes := [0, 0, 0, 1, 7, 9]

/-- On a 64-bit `size_t`, the byte read after the blob. -/
theorem calls_in_bounds_of_no_wrap_blobThenByte :
    blobThenByte.length + 2 ^ 32 + 4 ≤ 2 ^ 64 ∧
      (call 64 blobThenByte .readByte (offsetAfter 64 blobThenByte [.readBlob] 0)).2 ≤
        blobThenByte.length ∧
      (∀ a b, (call 64 blobThenByte .readByte (offsetAfter 64 blobThenByte [.readBlob] 0)).1 =
          .ok (some (a, b)) → a ≤ b ∧ b ≤ blobThenByte.length) ∧
      (call 64 blobThenByte .readByte (offsetAfter 64 blobThenByte [.readBlob] 0)).1.isOk =
        Read.fits blobThenByte .readByte (offsetAfter 64 blobThenByte [.readBlob] 0) :=
  ⟨by decide, calls_in_bounds_of_no_wrap (by decide) [.readBlob] .readByte⟩

section Refines

variable {w : Nat} {data : Bytes} (hw : data.length + 2 ^ 32 + 4 ≤ 2 ^ w)
include hw

/-- `Codec`'s length-prefixed read is this one where no sum can wrap: the same checks and
texts, the same offset, and its bytes are those of the range this read copies from. -/
theorem readPrefixed_refines (msg : String) {o : Nat} (ho : o ≤ data.length) :
    (Deserializer.readPrefixed msg).run ⟨data, o⟩ =
      match outcome (readPrefixed w data msg) o with
      | (.ok (a, b), o') => .ok ((data.take b).drop a, ⟨data, o'⟩)
      | (.error e, _) => .error e := by
  rw [outcome_readPrefixed_of_no_wrap hw msg ho]
  simp only [Deserializer.readPrefixed, StateT.run, bind, StateT.bind, Deserializer.readBE32,
    Deserializer.takeBytes, Deserializer.rest]
  split_ifs with h1 h2
  · rfl
  · simp only [Except.bind, lengthAt] at h2 ⊢
    rw [if_pos h2]
  · simp only [Except.bind, lengthAt] at h2 ⊢
    rw [if_neg h2, List.drop_take, Nat.add_sub_cancel_left]

theorem readBE32_refines {o : Nat} (ho : o ≤ data.length) :
    Deserializer.readBE32.run ⟨data, o⟩ =
      match outcome (SizeT.readBE32 w data) o with
      | (.ok v, o') => .ok (v, ⟨data, o'⟩)
      | (.error e, _) => .error e := by
  simp only [outcome, SizeT.readBE32, estateRun_eq, Deserializer.readBE32, StateT.run,
    Deserializer.rest, add_of_no_wrap hw ho (show 4 < 2 ^ 32 + 4 by omega)]
  split_ifs <;> rfl

theorem readByte_refines {o : Nat} (ho : o ≤ data.length) :
    Deserializer.readByte.run ⟨data, o⟩ =
      match outcome (SizeT.readByte w data) o with
      | (.ok (a, _), o') => .ok ((data.drop a).headD 0, ⟨data, o'⟩)
      | (.error e, _) => .error e := by
  simp only [outcome, SizeT.readByte, estateRun_eq, Deserializer.readByte, StateT.run,
    Deserializer.rest, add_of_no_wrap hw ho (show 1 < 2 ^ 32 + 4 by omega)]
  split_ifs <;> rfl

end Refines

/-- On a 64-bit `size_t`, `Codec`'s blob read of `blobThenByte` is the range `[4, 5)`. -/
theorem readPrefixed_refines_blobThenByte :
    blobThenByte.length + 2 ^ 32 + 4 ≤ 2 ^ 64 ∧
      (Deserializer.readPrefixed "Not enough data to read blob").run ⟨blobThenByte, 0⟩ =
        match outcome (readPrefixed 64 blobThenByte "Not enough data to read blob") 0 with
        | (.ok (a, b), o') => .ok ((blobThenByte.take b).drop a, ⟨blobThenByte, o'⟩)
        | (.error e, _) => .error e :=
  ⟨by decide, @readPrefixed_refines 64 blobThenByte (by decide) _ _ (Nat.zero_le _)⟩

/-- Eight bytes whose leading `uint32_t` declares `2 ^ 32 - 1` bytes. -/
def wrapFrame : Bytes := [0xFF, 0xFF, 0xFF, 0xFF, 0, 0, 0, 0]

/-- With a 32-bit `size_t` the blob check of `readBlob` on `wrapFrame` computes
`4 + (2 ^ 32 - 1)`, which wraps to 3: the read passes, hands back the range `[4, 2 ^ 32 + 3)`
of an eight-byte buffer and moves the cursor back from 4 to 3, though it cannot be served. -/
theorem readBlob_wraps_on_32_bit_size_t :
    call 32 wrapFrame .readBlob 0 = (.ok (some (4, 4 + 0xFFFFFFFF)), 3) ∧
      Read.fits wrapFrame .readBlob 0 = false := by
  decide

end SizeT

end Libssha
