import Libssha.Codec

/-!
# Destination constraints

`openssh-restrict-destination.cpp`: hop descriptors, destination constraints, their wire
codec, and the single-constraint match that `KeyBase::permitted` walks. The `while` loops
over the remaining bytes run on a fuel equal to the bytes left: each round reads at least
one byte, so the fuel is never the reason a loop stops.
-/
namespace Libssha

open Deserializer Serializer

structure OpenSSHHopKey where
  key : Bytes
  keyIsCa : Bool
  deriving Repr, DecidableEq

structure OpenSSHHopDescriptor where
  user : Bytes
  hostname : Bytes
  keys : List OpenSSHHopKey
  deriving Repr, DecidableEq

/-- `MatchInfo`: what the last successful match records for the confirmation prompt. -/
structure MatchInfo where
  «from» : Bytes
  «to» : Bytes
  user : Bytes
  deriving Repr, DecidableEq

namespace MatchInfo

/-- The cleared record (`MatchInfo::clear`), also its initial value. -/
def empty : MatchInfo := ⟨[], [], []⟩

end MatchInfo

namespace OpenSSHHopDescriptor

/-- The key loop of the binary constructor: `(blob key ‖ byte is-ca)` while bytes remain. -/
def readKeys : Nat → Reader (List OpenSSHHopKey)
  | 0 => pure []
  | fuel + 1 => do
    if (← get).remaining > 0 then
      let key ← readBlob
      let isCa ← readByte
      let keys ← readKeys fuel
      pure (⟨key, isCa ≠ 0⟩ :: keys)
    else pure []

/-- `OpenSSHHopDescriptor(data)`. -/
def ofBytes (data : Bytes) : Except String OpenSSHHopDescriptor :=
  Deserializer.parse (do
    let user ← readString
    let hostname ← readString
    let extensions ← readBlob
    if extensions.length > 0 then
      throw "OpenSSHHopDescriptor: extensions not supported"
    let keys ← readKeys (← get).remaining
    pure ⟨user, hostname, keys⟩) data

def serialize (h : OpenSSHHopDescriptor) : Except String Bytes :=
  Serializer.build do
    writeString h.user
    writeString h.hostname
    writeBlob []
    h.keys.forM fun k => do
      writeBlob k.key
      writeByte (if k.keyIsCa then 1 else 0)

/-- The loop of `matchesKey`: an empty entry ends the scan without a match, CA entries
are skipped, and the first plain entry equal to the key matches. -/
def matchesKeyIn (key : Bytes) : List OpenSSHHopKey → Bool
  | [] => false
  | k :: ks =>
    if k.key.isEmpty then false
    else if k.keyIsCa then matchesKeyIn key ks
    else if k.key ≠ key then matchesKeyIn key ks
    else true

def matchesKey (h : OpenSSHHopDescriptor) (key : Bytes) : Bool := matchesKeyIn key h.keys

end OpenSSHHopDescriptor

structure OpenSSHSDestinationConstraint where
  fromHop : OpenSSHHopDescriptor
  toHop : OpenSSHHopDescriptor
  deriving Repr, DecidableEq

namespace OpenSSHSDestinationConstraint

/-- `OpenSSHSDestinationConstraint(data)`, with the parse invariants on both hops. -/
def ofBytes (data : Bytes) : Except String OpenSSHSDestinationConstraint := do
  let (fromBlob, toBlob, extensions) ← Deserializer.parse (do
    let f ← readBlob
    let t ← readBlob
    let e ← readBlob
    pure (f, t, e)) data
  if extensions.length > 0 then
    throw "OpenSSHSDestinationConstraint: extensions not supported"
  let fromHop ← OpenSSHHopDescriptor.ofBytes fromBlob
  let toHop ← OpenSSHHopDescriptor.ofBytes toBlob
  if (fromHop.hostname.isEmpty != fromHop.keys.isEmpty) || !fromHop.user.isEmpty then
    throw "OpenSSHSDestinationConstraint: invalid from_hop"
  if toHop.hostname.isEmpty || toHop.keys.isEmpty then
    throw "OpenSSHSDestinationConstraint: invalid to_hop"
  pure ⟨fromHop, toHop⟩

def serialize (c : OpenSSHSDestinationConstraint) : Except String Bytes := do
  let fb ← c.fromHop.serialize
  let tb ← c.toHop.serialize
  Serializer.build do
    writeBlob fb
    writeBlob tb
    writeBlob []

/-- `matches(from_key, to_key, user)`, the loop body of `permitted_by_dest_constraints`. -/
def «matches» (c : OpenSSHSDestinationConstraint) (fromKey toKey user : Bytes) : Bool :=
  (if fromKey.isEmpty then c.fromHop.hostname.isEmpty && c.fromHop.keys.isEmpty
   else c.fromHop.matchesKey fromKey) &&
  (toKey.isEmpty || c.toHop.matchesKey toKey) &&
  (c.toHop.user.isEmpty || user.isEmpty || c.toHop.user == user)

/-- What a successful `matches` writes into the `MatchInfo` it is given. -/
def matchInfo (c : OpenSSHSDestinationConstraint) (user : Bytes) : MatchInfo :=
  ⟨c.fromHop.hostname, c.toHop.hostname, user⟩

end OpenSSHSDestinationConstraint

/-- The `restrict-destination-v00@openssh.com` constraint extension. -/
structure OpenSSHSRestrictDestination where
  constraints : List OpenSSHSDestinationConstraint
  deriving Repr, DecidableEq

namespace OpenSSHSRestrictDestination

def extName : Bytes := ascii "restrict-destination-v00@openssh.com"

/-- The `do … while (dd.remaining() > 0)` loop: one constraint blob is read before the
first test. -/
def readConstraints : Nat → Reader (List OpenSSHSDestinationConstraint)
  | 0 => pure []
  | fuel + 1 => do
    let b ← readBlob
    let c ← OpenSSHSDestinationConstraint.ofBytes b
    let cs ← if (← get).remaining > 0 then readConstraints fuel else pure []
    pure (c :: cs)

/-- The inner `Serializer out` of `serialize`: one blob per constraint. -/
def constraintBlobs (r : OpenSSHSRestrictDestination) : Except String Bytes :=
  Serializer.build <| r.constraints.forM fun c => do
    let cb ← c.serialize
    writeBlob cb

def serialize (r : OpenSSHSRestrictDestination) : Writer Unit := do
  let out ← r.constraintBlobs
  writeBlob out

def deserialize : Reader OpenSSHSRestrictDestination := do
  let data ← readBlob
  let cs ← Deserializer.parse (do readConstraints ((← get).remaining + 1)) data
  pure ⟨cs⟩

end OpenSSHSRestrictDestination

end Libssha
