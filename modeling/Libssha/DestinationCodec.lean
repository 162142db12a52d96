import Libssha.RestrictDestination
import Libssha.CodecLaws

/-!
# The destination-constraint codec

`serialize` and the binary constructors of `openssh-restrict-destination.cpp`, at each level:
a hop, a destination constraint, the list `OpenSSHSRestrictDestination` holds. Each
`encoding` is what the level's `serialize` writes, and each reader reads its own encoding
back when the parse invariants hold and the bytes fit the serializer's budget. So every
non-empty list of such constraints round-trips (`round_trip_of_ne_nil`). The empty list does
not: `deserialize` reads a first constraint blob before it tests what remains, and the empty
list's blob holds none.
-/
namespace Libssha

open Deserializer Serializer

theorem length_le_length_flatMap {α β : Type} {f : α → List β} {l : List α} {x : α}
    (hx : x ∈ l) : (f x).length ≤ (l.flatMap f).length :=
  (List.infix_of_mem_flatten (List.mem_map_of_mem f hx)).length_le

theorem length_le_length_flatMap_of_pos {α β : Type} {f : α → List β}
    (hf : ∀ x, 0 < (f x).length) (l : List α) : l.length ≤ (l.flatMap f).length := by
  induction l with
  | nil => exact Nat.le_refl 0
  | cons x l ih =>
    rw [List.flatMap_cons, List.length_append, List.length_cons]
    have := hf x
    omega

namespace OpenSSHHopDescriptor

/-- The key entries of a hop as `serialize` writes them: `blob key ‖ byte is-ca` each. -/
def keysEncoding (keys : List OpenSSHHopKey) : Bytes :=
  keys.flatMap fun k => blobEncoding k.key ++ [if k.keyIsCa then 1 else 0]

/-- What `serialize` writes for a hop, with its empty extension blob. -/
def encoding (h : OpenSSHHopDescriptor) : Bytes :=
  blobEncoding h.user ++ (blobEncoding h.hostname ++ (blobEncoding [] ++ keysEncoding h.keys))

theorem serialize_eq (h : OpenSSHHopDescriptor) :
    h.serialize = if h.encoding.length > MAX_SERIALIZED_SIZE then
      .error "Serializer: message too large" else .ok h.encoding :=
  ((appends_writeString _).bind ((appends_writeString _).bind ((appends_writeBlob _).bind
    (Appends.forM _ _ (fun _ => (appends_writeBlob _).bind (appends_writeByte _)) _)))).build_eq

/-- The `is-ca` byte `serialize` writes reads back as the flag. -/
theorem caByte_ne_zero (c : Bool) : decide ((if c then 1 else 0 : UInt8) ≠ 0) = c := by
  cases c <;> rfl

/-- The key loop reads back every entry written, and stops at the end of the hop. -/
theorem readKeys_of_rest (keys : List OpenSSHHopKey)
    (hlen : ∀ k ∈ keys, k.key.length < UInt32.size) {d : Deserializer} {fuel : Nat}
    (hfuel : keys.length ≤ fuel) (h : d.rest = keysEncoding keys) :
    (readKeys fuel).run d =
      .ok (keys, { d with offset := d.offset + (keysEncoding keys).length }) := by
  induction keys generalizing d fuel with
  | nil =>
    have hd : d.remaining = 0 := by rw [remaining_eq_length_rest, h]; rfl
    cases fuel with
    | zero => rfl
    | succ fuel =>
      simp only [readKeys, run_bind, StateT.run_get, pure, Except.pure, hd, gt_iff_lt,
        Nat.lt_irrefl, ite_false]
      rfl
  | cons k ks ih =>
    rw [List.length_cons] at hfuel
    obtain ⟨fuel, rfl⟩ : ∃ f, fuel = f + 1 := ⟨fuel - 1, by omega⟩
    simp only [keysEncoding, List.flatMap_cons, List.append_assoc] at h
    have hpos : d.remaining > 0 := by
      rw [remaining_eq_length_rest, h, List.length_append, length_blobEncoding]
      omega
    have h₁ := rest_advance h
    have hks := ih (fun k hk => hlen k (List.mem_cons_of_mem _ hk))
      (show ks.length ≤ fuel by omega) (rest_advance h₁)
    simp only [List.length_singleton] at hks
    simp only [readKeys, run_bind, StateT.run_get, pure, Except.pure, hpos, ite_true,
      readBlob_of_rest h (hlen k (List.mem_cons_self _ _)), readByte_of_rest h₁, hks,
      caByte_ne_zero]
    simp only [StateT.run, StateT.pure, pure, Except.pure, keysEncoding, List.flatMap_cons,
      List.length_append, List.length_singleton, Nat.add_assoc]

/-- The tail of the hop reader: the keys while bytes remain. -/
theorem readsAll_keys (user hostname : Bytes) {keys : List OpenSSHHopKey}
    (hlen : ∀ k ∈ keys, k.key.length < UInt32.size) :
    ReadsAll (do let d ← get; let keys ← readKeys d.remaining; pure (mk user hostname keys))
      (keysEncoding keys) (mk user hostname keys) := by
  intro e he
  have hfuel : keys.length ≤ e.remaining := by
    rw [remaining_eq_length_rest, he]
    exact length_le_length_flatMap_of_pos (fun k => by simp) keys
  simp only [run_bind, StateT.run_get, pure, Except.pure, readKeys_of_rest keys hlen hfuel he]
  rfl

/-- A hop reads back from what `serialize` writes for it, when that fits the budget. -/
theorem ofBytes_encoding (h : OpenSSHHopDescriptor)
    (hfit : h.encoding.length ≤ MAX_SERIALIZED_SIZE) : ofBytes h.encoding = .ok h := by
  have hmax := max_lt_uint32Size
  have hkeys : ∀ k ∈ h.keys, k.key.length < UInt32.size := fun k hk => by
    have := @length_le_length_flatMap _ _ (fun k : OpenSSHHopKey =>
      blobEncoding k.key ++ [if k.keyIsCa then 1 else 0]) _ _ hk
    simp only [encoding, keysEncoding, List.length_append, length_blobEncoding] at hfit this
    omega
  simp only [encoding, List.length_append, length_blobEncoding] at hfit
  exact ReadsAll.parse ((readsAs_readPrefixed _ (by omega)).bind_readsAll
    ((readsAs_readPrefixed _ (by omega)).bind_readsAll
      ((readsAs_readPrefixed _ (by decide)).bind_readsAll (readsAll_keys h.user h.hostname hkeys))))

end OpenSSHHopDescriptor

namespace OpenSSHSDestinationConstraint

/-- The parse invariants of `OpenSSHSDestinationConstraint(data)`: the from-hop has no user,
and a hostname exactly when it has keys; the to-hop has a hostname and keys. -/
def Valid (c : OpenSSHSDestinationConstraint) : Prop :=
  c.fromHop.user = [] ∧ (c.fromHop.hostname = [] ↔ c.fromHop.keys = []) ∧
    c.toHop.hostname ≠ [] ∧ c.toHop.keys ≠ []

instance (c : OpenSSHSDestinationConstraint) : Decidable c.Valid :=
  inferInstanceAs (Decidable (_ ∧ _ ∧ _ ∧ _))

/-- What `serialize` writes for a constraint, with its empty extension blob. -/
def encoding (c : OpenSSHSDestinationConstraint) : Bytes :=
  blobEncoding c.fromHop.encoding ++ (blobEncoding c.toHop.encoding ++ blobEncoding [])

/-- `serialize` writes the constraint's encoding, and fails as the serializer's budget check
does when that does not fit. -/
theorem serialize_eq (c : OpenSSHSDestinationConstraint) :
    c.serialize = if c.encoding.length > MAX_SERIALIZED_SIZE then
      .error "Serializer: message too large" else .ok c.encoding := by
  have hlen : c.encoding.length = c.fromHop.encoding.length + c.toHop.encoding.length + 12 := by
    simp only [encoding, List.length_append, length_blobEncoding, List.length_nil]
    omega
  rw [serialize, OpenSSHHopDescriptor.serialize_eq, OpenSSHHopDescriptor.serialize_eq]
  by_cases hf : c.fromHop.encoding.length > MAX_SERIALIZED_SIZE
  · rw [if_pos hf, if_pos (show c.encoding.length > MAX_SERIALIZED_SIZE by omega)]
    rfl
  by_cases ht : c.toHop.encoding.length > MAX_SERIALIZED_SIZE
  · rw [if_neg hf, if_pos ht, if_pos (show c.encoding.length > MAX_SERIALIZED_SIZE by omega)]
    rfl
  rw [if_neg hf, if_neg ht]
  exact ((appends_writeBlob _).bind ((appends_writeBlob _).bind (appends_writeBlob _))).build_eq

theorem ofBytes_encoding (c : OpenSSHSDestinationConstraint) (hv : c.Valid)
    (hfit : c.encoding.length ≤ MAX_SERIALIZED_SIZE) : ofBytes c.encoding = .ok c := by
  have hmax := max_lt_uint32Size
  simp only [encoding, List.length_append, length_blobEncoding, List.length_nil] at hfit
  have hblobs : Deserializer.parse (do
      let f ← readBlob
      let t ← readBlob
      let e ← readBlob
      pure (f, t, e)) c.encoding = .ok (c.fromHop.encoding, c.toHop.encoding, []) :=
    ReadsAll.parse ((readsAs_readPrefixed _ (by omega)).bind_readsAll
      ((readsAs_readPrefixed _ (by omega)).bind_readsAll
        (readsAs_readPrefixed _ (by decide)).readsAll_bind_pure))
  obtain ⟨hu, hfrom, hh, hk⟩ := hv
  have he : c.fromHop.hostname.isEmpty = c.fromHop.keys.isEmpty :=
    Bool.eq_iff_iff.mpr (by simpa only [List.isEmpty_iff] using hfrom)
  have hvf : (c.fromHop.hostname.isEmpty != c.fromHop.keys.isEmpty || !c.fromHop.user.isEmpty) =
      false := by
    simp [hu, he]
  have hvt : (c.toHop.hostname.isEmpty || c.toHop.keys.isEmpty) = false := by simp [hh, hk]
  rw [ofBytes, hblobs]
  simp only [bind, Except.bind, List.length_nil, gt_iff_lt, Nat.lt_irrefl, ite_false,
    OpenSSHHopDescriptor.ofBytes_encoding _ (show c.fromHop.encoding.length ≤ _ by omega),
    OpenSSHHopDescriptor.ofBytes_encoding _ (show c.toHop.encoding.length ≤ _ by omega), hvf, hvt]
  rfl

end OpenSSHSDestinationConstraint

namespace OpenSSHSRestrictDestination

/-- The buffer `serialize` wraps in its blob: one blob per constraint. -/
def encoding (r : OpenSSHSRestrictDestination) : Bytes :=
  r.constraints.flatMap fun c => blobEncoding c.encoding

/-- A blob whose bytes come from an encoder that fails only as the budget check does: it
appends the blob of the encoder's bytes. -/
theorem appends_lift_writeBlob {x : Except String Bytes} {enc : Bytes}
    (hx : x = if enc.length > MAX_SERIALIZED_SIZE then .error "Serializer: message too large"
      else .ok enc) :
    Appends (do let b ← x; writeBlob b) (blobEncoding enc) := by
  intro s hs
  rw [hx]
  by_cases h : enc.length > MAX_SERIALIZED_SIZE
  · rw [if_pos h, length_blobEncoding, if_pos (by omega)]
    rfl
  · rw [if_neg h]
    exact appends_writeBlob _ s hs

theorem constraintBlobs_eq (r : OpenSSHSRestrictDestination) :
    r.constraintBlobs = if r.encoding.length > MAX_SERIALIZED_SIZE then
      .error "Serializer: message too large" else .ok r.encoding :=
  (Appends.forM _ _ (fun c => appends_lift_writeBlob c.serialize_eq) r.constraints).build_eq

theorem appends_serialize (r : OpenSSHSRestrictDestination) :
    Appends r.serialize (blobEncoding r.encoding) :=
  appends_lift_writeBlob r.constraintBlobs_eq

/-- The `do … while` loop reads back every constraint of a non-empty list. -/
theorem readConstraints_readsAll {cs : List OpenSSHSDestinationConstraint} (hne : cs ≠ [])
    (hv : ∀ c ∈ cs, c.Valid) (hfit : ∀ c ∈ cs, c.encoding.length ≤ MAX_SERIALIZED_SIZE)
    {fuel : Nat} (hfuel : cs.length ≤ fuel) :
    ReadsAll (readConstraints fuel) (cs.flatMap fun c => blobEncoding c.encoding) cs := by
  induction cs generalizing fuel with
  | nil => exact absurd rfl hne
  | cons c cs ih =>
    rw [List.length_cons] at hfuel
    obtain ⟨fuel, rfl⟩ : ∃ f, fuel = f + 1 := ⟨fuel - 1, by omega⟩
    intro e he
    have hmax := max_lt_uint32Size
    have hc := OpenSSHSDestinationConstraint.ofBytes_encoding c (hv c (List.mem_cons_self _ _))
      (hfit c (List.mem_cons_self _ _))
    have hlen := hfit c (List.mem_cons_self _ _)
    rw [List.flatMap_cons] at he
    have h₁ := rest_advance he
    simp only [readConstraints, run_bind, readBlob_of_rest he (by omega), hc, run_liftM_ok,
      StateT.run_get, pure, Except.pure]
    by_cases hcs : cs = []
    · subst hcs
      have hd : ({ e with offset := e.offset + (blobEncoding c.encoding).length } :
          Deserializer).remaining = 0 := by
        rw [remaining_eq_length_rest, h₁]; rfl
      simp only [hd, Nat.lt_irrefl, gt_iff_lt, ite_false, List.flatMap_cons, List.flatMap_nil,
        List.append_nil]
      rfl
    · have hpos : ({ e with offset := e.offset + (blobEncoding c.encoding).length } :
          Deserializer).remaining > 0 := by
        obtain ⟨c', cs', rfl⟩ := List.exists_cons_of_ne_nil hcs
        rw [remaining_eq_length_rest, h₁, List.flatMap_cons, List.length_append,
          length_blobEncoding]
        omega
      simp only [hpos, ite_true, run_bind, ih hcs (fun c hc => hv c (List.mem_cons_of_mem _ hc))
        (fun c hc => hfit c (List.mem_cons_of_mem _ hc)) (show cs.length ≤ fuel by omega) _ h₁,
        List.flatMap_cons, List.length_append, Nat.add_assoc]
      rfl

/-- `deserialize` reads back the blob `serialize` writes for a non-empty list of valid
constraints, and nothing after it. -/
theorem readsAs_deserialize {r : OpenSSHSRestrictDestination} (hne : r.constraints ≠ [])
    (hv : ∀ c ∈ r.constraints, c.Valid) (hfit : r.encoding.length ≤ MAX_SERIALIZED_SIZE) :
    ReadsAs deserialize (blobEncoding r.encoding) r := by
  have hmax := max_lt_uint32Size
  have hcs : ∀ c ∈ r.constraints, c.encoding.length ≤ MAX_SERIALIZED_SIZE := fun c hc => by
    have := @length_le_length_flatMap _ _ (fun c : OpenSSHSDestinationConstraint =>
      blobEncoding c.encoding) _ _ hc
    simp only [encoding, length_blobEncoding] at hfit this
    omega
  have hparse : Deserializer.parse (do readConstraints ((← get).remaining + 1)) r.encoding =
      .ok r.constraints := ReadsAll.parse fun e he => by
    have hfuel : r.constraints.length ≤ e.remaining + 1 := by
      rw [remaining_eq_length_rest, he]
      exact Nat.le_succ_of_le (length_le_length_flatMap_of_pos (fun c => by simp) _)
    rw [run_bind, StateT.run_get]
    exact readConstraints_readsAll hne hv hcs hfuel e he
  intro e post he
  rw [deserialize, run_bind, readBlob_of_rest he (by omega)]
  dsimp only
  rw [run_bind, hparse, run_liftM_ok]
  rfl

/-- Every non-empty list of constraints that satisfy the parse invariants and fit the
budget round-trips: `serialize` writes the blob of their encodings, and `deserialize` reads
exactly that blob back to the same list. -/
theorem round_trip_of_ne_nil (r : OpenSSHSRestrictDestination) (hne : r.constraints ≠ [])
    (hv : ∀ c ∈ r.constraints, c.Valid)
    (hfit : (blobEncoding r.encoding).length ≤ MAX_SERIALIZED_SIZE) :
    build r.serialize = .ok (blobEncoding r.encoding) ∧
      ReadsAs deserialize (blobEncoding r.encoding) r :=
  ⟨by rw [r.appends_serialize.build_eq, if_neg (Nat.not_lt.mpr hfit)],
    readsAs_deserialize hne hv (by rw [length_blobEncoding] at hfit; omega)⟩

/-- One constraint: from this host, to `host` with host key `K`. -/
def hostOnly : OpenSSHSRestrictDestination :=
  ⟨[⟨⟨[], [], []⟩, ⟨[], ascii "host", [⟨ascii "K", false⟩]⟩⟩]⟩

theorem round_trip_of_ne_nil_hostOnly :
    build hostOnly.serialize = .ok (blobEncoding hostOnly.encoding) ∧
      ReadsAs deserialize (blobEncoding hostOnly.encoding) hostOnly :=
  round_trip_of_ne_nil hostOnly (List.cons_ne_nil _ _) (by decide) (by decide)

end OpenSSHSRestrictDestination

/-- `OpenSSHSRestrictDestination::deserialize` reads one constraint blob before it tests
for remaining bytes: the empty constraint list serializes to an empty blob, which it cannot
read back. -/
theorem restrictDestination_empty_round_trip_fails :
    Serializer.build (OpenSSHSRestrictDestination.serialize ⟨[]⟩) = .ok [0, 0, 0, 0] ∧
      OpenSSHSRestrictDestination.deserialize.run (Deserializer.ofBytes [0, 0, 0, 0]) =
        .error "Not enough data to read uint32_t" :=
  ⟨by decide, by decide⟩

end Libssha
