import Libssha.Key

/-!
# Destination-constraint evaluation

`KeyBase::permittedByConstraints` and `KeyBase::permitted` (`key.cpp`), the walk of a
session's binding chain, next to `IdentityPermitted`, the declarative `identity_permitted`
of the design (§4.5) over a hop-match relation. `permitted_iff` says that the walk decides
`IdentityPermitted` for the match `matchesKey` performs: a plain entry equal to the key,
found before any empty entry.
-/
namespace Libssha

/-- A `session-bind@openssh.com` binding (`SessionBinding`). -/
structure SessionBinding where
  hostKey : Bytes
  sessionId : Bytes
  forwarded : Bool
  deriving Repr, DecidableEq

namespace Key

/-- `permittedByConstraints(from_key, to_key, user)`: the first constraint that matches,
whose `MatchInfo` a caller passing one receives. -/
def permittedByConstraints (k : Key) (fromKey toKey user : Bytes) :
    Option OpenSSHSDestinationConstraint :=
  k.destConstraints.find? fun c => c.matches fromKey toKey user

/-- The loop of `permitted` over the bindings, from the previous host key `fromKey`; the
`user` is checked at the last binding only. It returns the verdict and the `MatchInfo`
the successful steps wrote. -/
def permittedWalk (k : Key) (user : Bytes) :
    Bytes → List SessionBinding → MatchInfo → Bool × MatchInfo
  | _, [], mi => (true, mi)
  | fromKey, s :: rest, mi =>
    if s.hostKey.isEmpty then (false, mi)
    else
      let userToCheck := if rest.isEmpty then user else []
      if rest.isEmpty && s.forwarded && !userToCheck.isEmpty then (false, mi)
      else if !rest.isEmpty && !s.forwarded then (false, mi)
      else match k.permittedByConstraints fromKey s.hostKey userToCheck with
        | none => (false, mi)
        | some c => permittedWalk k user s.hostKey rest (c.matchInfo userToCheck)

/-- `permitted(session, user, mi)` over the session's `binding_failed` flag and bindings. -/
def permitted (k : Key) (bindingFailed : Bool) (bindings : List SessionBinding)
    (user : Bytes) (mi : MatchInfo) : Bool × MatchInfo :=
  if k.destConstraints.isEmpty then (true, mi)
  else if bindingFailed then (false, mi)
  else if bindings.isEmpty then (true, mi)
  else
    let (ok, mi') := k.permittedWalk user [] bindings mi
    if !ok then (false, mi')
    else match bindings.getLast? with
      | some last =>
        if last.forwarded && user.isEmpty &&
            (k.permittedByConstraints last.hostKey [] []).isNone then (false, mi')
        else (true, mi')
      | none => (true, mi')

end Key

section Spec

variable (hopMatches : OpenSSHHopDescriptor → Bytes → Prop)
  (cs : List OpenSSHSDestinationConstraint) (user : Bytes)

/-- Spec §4.5: a hop matches a key iff one of its `(key, is_ca = false)` entries equals it. -/
def HopMatchesAny (h : OpenSSHHopDescriptor) (key : Bytes) : Prop :=
  ∃ e ∈ h.keys, e.keyIsCa = false ∧ e.key = key

/-- The match `matchesKey` performs: a plain entry equal to the key occurs before any
entry whose key blob is empty. -/
def HopMatchesFirst (h : OpenSSHHopDescriptor) (key : Bytes) : Prop :=
  ∃ l₁ e l₂, h.keys = l₁ ++ e :: l₂ ∧ (∀ x ∈ l₁, x.key ≠ []) ∧
    e.keyIsCa = false ∧ e.key ≠ [] ∧ e.key = key

/-- Condition (4) along the chain from the previous host key: some constraint leads from
it to each binding's host key, checking the user at the last binding only. The first
binding starts from a from-hop with no hostname and no keys. -/
def HopsPermitted : Option Bytes → List SessionBinding → Prop
  | _, [] => True
  | fromKey, b :: rest =>
    (∃ c ∈ cs,
      (match fromKey with
        | none => c.fromHop.hostname = [] ∧ c.fromHop.keys = []
        | some f => hopMatches c.fromHop f) ∧
      hopMatches c.toHop b.hostKey ∧
      (rest = [] → c.toHop.user = [] ∨ user = [] ∨ c.toHop.user = user)) ∧
    HopsPermitted (some b.hostKey) rest

/-- Conditions (1)–(5) on a non-empty binding chain. -/
structure ChainPermitted (bindings : List SessionBinding) : Prop where
  hostKeys : ∀ b ∈ bindings, b.hostKey ≠ []
  forwarding : ∀ b ∈ bindings.dropLast, b.forwarded = true
  signing : ∀ b ∈ bindings.getLast?, user ≠ [] → b.forwarded = false
  hops : HopsPermitted hopMatches cs user none bindings
  after : ∀ b ∈ bindings.getLast?, b.forwarded = true → user = [] →
    ∃ c ∈ cs, hopMatches c.fromHop b.hostKey

/-- `identity_permitted(session, user)` as the design states it. -/
def IdentityPermitted (bindingFailed : Bool) (bindings : List SessionBinding) : Prop :=
  cs = [] ∨ bindingFailed = false ∧ (bindings = [] ∨ ChainPermitted hopMatches cs user bindings)

end Spec

/-- A first entry satisfying `Q` after entries satisfying `P`, in `k :: ks`: `k` itself, or
one in `ks` once `k` satisfies `P`. -/
theorem exists_prefix_cons_iff {α : Type} (P Q : α → Prop) (k : α) (ks : List α) :
    (∃ l₁ e l₂, k :: ks = l₁ ++ e :: l₂ ∧ (∀ x ∈ l₁, P x) ∧ Q e) ↔
      Q k ∨ (P k ∧ ∃ l₁ e l₂, ks = l₁ ++ e :: l₂ ∧ (∀ x ∈ l₁, P x) ∧ Q e) := by
  constructor
  · rintro ⟨_ | ⟨x, l₁⟩, e, l₂, heq, hpre, he⟩
    · obtain ⟨rfl, -⟩ := List.cons.inj heq
      exact .inl he
    · obtain ⟨rfl, rfl⟩ := List.cons.inj heq
      exact .inr ⟨hpre k (List.mem_cons_self _ _), l₁, e, l₂, rfl,
        fun y hy => hpre y (List.mem_cons_of_mem _ hy), he⟩
  · rintro (hk | ⟨hk, l₁, e, l₂, rfl, hpre, he⟩)
    · exact ⟨[], k, ks, rfl, fun _ h => absurd h (List.not_mem_nil _), hk⟩
    · exact ⟨k :: l₁, e, l₂, rfl, List.forall_mem_cons.mpr ⟨hk, hpre⟩, he⟩

namespace OpenSSHHopDescriptor

theorem matchesKeyIn_iff (key : Bytes) (keys : List OpenSSHHopKey) :
    matchesKeyIn key keys = true ↔ ∃ l₁ e l₂, keys = l₁ ++ e :: l₂ ∧ (∀ x ∈ l₁, x.key ≠ []) ∧
      e.keyIsCa = false ∧ e.key ≠ [] ∧ e.key = key := by
  induction keys with
  | nil => simp [matchesKeyIn]
  | cons k ks ih =>
    rw [exists_prefix_cons_iff (fun x : OpenSSHHopKey => x.key ≠ [])
      (fun e => e.keyIsCa = false ∧ e.key ≠ [] ∧ e.key = key), ← ih, matchesKeyIn]
    by_cases h0 : k.key = []
    · simp [h0]
    by_cases hca : k.keyIsCa
    · simp [h0, hca]
    by_cases heq : k.key = key
    · subst heq
      simp [h0, hca]
    · simp [h0, hca, heq]

theorem matchesKey_iff (h : OpenSSHHopDescriptor) (key : Bytes) :
    h.matchesKey key = true ↔ HopMatchesFirst h key :=
  matchesKeyIn_iff key h.keys

end OpenSSHHopDescriptor

namespace OpenSSHSDestinationConstraint

/-- `matches` as three conditions: the from-hop, the to-hop and the user. -/
theorem matches_iff (c : OpenSSHSDestinationConstraint) (fromKey toKey user : Bytes) :
    c.matches fromKey toKey user = true ↔
      (if fromKey = [] then c.fromHop.hostname = [] ∧ c.fromHop.keys = []
        else HopMatchesFirst c.fromHop fromKey) ∧
      (toKey = [] ∨ HopMatchesFirst c.toHop toKey) ∧
      (c.toHop.user = [] ∨ user = [] ∨ c.toHop.user = user) := by
  simp only [«matches», Bool.and_eq_true, Bool.or_eq_true, List.isEmpty_iff, beq_iff_eq,
    ← OpenSSHHopDescriptor.matchesKey_iff]
  split <;> simp only [Bool.and_eq_true, List.isEmpty_iff, and_assoc, or_assoc]

end OpenSSHSDestinationConstraint

namespace Key

theorem permittedByConstraints_isSome (k : Key) (fromKey toKey user : Bytes) :
    (k.permittedByConstraints fromKey toKey user).isSome ↔
      ∃ c ∈ k.destConstraints, c.matches fromKey toKey user = true := by
  simp [permittedByConstraints, List.find?_isSome]

/-- The verdict of the walk does not depend on the `MatchInfo` it is handed. -/
theorem permittedWalk_fst (k : Key) (user fromKey : Bytes) (bs : List SessionBinding)
    (mi mi' : MatchInfo) :
    (k.permittedWalk user fromKey bs mi).1 = (k.permittedWalk user fromKey bs mi').1 := by
  induction bs generalizing fromKey mi mi' with
  | nil => rfl
  | cons s rest ih =>
    cases hc : k.permittedByConstraints fromKey s.hostKey (if rest.isEmpty then user else []) <;>
      simp only [permittedWalk, hc, apply_ite Prod.fst, ih]

/-- One binding of the walk: its own checks, a matching constraint, and the rest. -/
theorem permittedWalk_cons (k : Key) (user fromKey : Bytes) (s : SessionBinding)
    (rest : List SessionBinding) (mi : MatchInfo) :
    (k.permittedWalk user fromKey (s :: rest) mi).1 = true ↔
      s.hostKey ≠ [] ∧ (rest = [] → user ≠ [] → s.forwarded = false) ∧
      (rest ≠ [] → s.forwarded = true) ∧
      (k.permittedByConstraints fromKey s.hostKey (if rest = [] then user else [])).isSome ∧
      (k.permittedWalk user s.hostKey rest mi).1 = true := by
  rw [permittedWalk.eq_2]
  simp only [List.isEmpty_iff]
  by_cases h0 : s.hostKey = []
  · simp [h0]
  by_cases hr : rest = []
  · -- the last binding: the user is checked, a forwarded hop refuses one
    subst hr
    cases s.forwarded <;> by_cases hu : user = [] <;> simp [h0, hu] <;>
      cases hc : k.permittedByConstraints fromKey s.hostKey _ <;> simp [hc, permittedWalk]
  · -- an inner binding must be forwarded, and the walk goes on from its host key
    cases hf : s.forwarded
    · simp [h0, hr, hf]
    · simp only [h0, hr, hf, ↓reduceIte]
      cases hc : k.permittedByConstraints fromKey s.hostKey [] <;> simp [hc, hr, h0]
      rw [permittedWalk_fst _ _ _ _ _ mi]

theorem forall_mem_dropLast_cons {α : Type} (s : α) (rest : List α) (F : α → Prop) :
    (∀ b ∈ (s :: rest).dropLast, F b) ↔ (rest ≠ [] → F s) ∧ ∀ b ∈ rest.dropLast, F b := by
  cases rest <;> simp

theorem forall_mem_getLast?_cons {α : Type} (s : α) (rest : List α) (F : α → Prop) :
    (∀ b ∈ (s :: rest).getLast?, F b) ↔ (rest = [] → F s) ∧ ∀ b ∈ rest.getLast?, F b := by
  cases rest <;> simp

/-- One hop of the walk against one hop of `HopsPermitted`. -/
theorem exists_matches_iff (cs : List OpenSSHSDestinationConstraint) (fromKey toKey user : Bytes)
    (rest : List SessionBinding) (ht : toKey ≠ []) :
    (∃ c ∈ cs, c.matches fromKey toKey (if rest = [] then user else []) = true) ↔
      ∃ c ∈ cs,
        (match (if fromKey = [] then none else some fromKey) with
          | none => c.fromHop.hostname = [] ∧ c.fromHop.keys = []
          | some f => HopMatchesFirst c.fromHop f) ∧
        HopMatchesFirst c.toHop toKey ∧
        (rest = [] → c.toHop.user = [] ∨ user = [] ∨ c.toHop.user = user) := by
  by_cases hf : fromKey = [] <;> by_cases hr : rest = [] <;>
    simp [OpenSSHSDestinationConstraint.matches_iff, hf, hr, ht]

/-- The walk accepts exactly the chains with non-empty host keys, forwarding non-last
bindings, a last binding that signs only for an empty user, and a constraint at each hop. -/
theorem permittedWalk_iff (k : Key) (user fromKey : Bytes) (bs : List SessionBinding)
    (mi : MatchInfo) :
    (k.permittedWalk user fromKey bs mi).1 = true ↔
      (∀ b ∈ bs, b.hostKey ≠ []) ∧ (∀ b ∈ bs.dropLast, b.forwarded = true) ∧
      (∀ b ∈ bs.getLast?, user ≠ [] → b.forwarded = false) ∧
      HopsPermitted HopMatchesFirst k.destConstraints user
        (if fromKey = [] then none else some fromKey) bs := by
  induction bs generalizing fromKey mi with
  | nil => simp [permittedWalk, HopsPermitted]
  | cons s rest ih =>
    rw [permittedWalk_cons, ih, permittedByConstraints_isSome]
    by_cases h0 : s.hostKey = []
    · simp [h0]
    rw [exists_matches_iff _ _ _ _ _ h0, if_neg h0]
    simp only [List.forall_mem_cons, forall_mem_dropLast_cons, forall_mem_getLast?_cons,
      HopsPermitted]
    exact ⟨fun ⟨hA, hlast, hfw, hE, hs, hd, hg, hh⟩ => ⟨⟨hA, hs⟩, ⟨hfw, hd⟩, ⟨hlast, hg⟩, hE, hh⟩,
      fun ⟨⟨hA, hs⟩, ⟨hfw, hd⟩, ⟨hlast, hg⟩, hE, hh⟩ => ⟨hA, hlast, hfw, hE, hs, hd, hg, hh⟩⟩

/-- The final check of `permitted` for a forwarded last hop and an empty user. -/
theorem permittedByConstraints_after (k : Key) (key : Bytes) (hk : key ≠ []) :
    (k.permittedByConstraints key [] []).isSome ↔
      ∃ c ∈ k.destConstraints, HopMatchesFirst c.fromHop key := by
  simp [permittedByConstraints_isSome, OpenSSHSDestinationConstraint.matches_iff, hk]

/-- `permitted` decides `identity_permitted` for the hop match `matchesKey` performs. -/
theorem permitted_iff (k : Key) (bindingFailed : Bool) (bindings : List SessionBinding)
    (user : Bytes) (mi : MatchInfo) :
    (k.permitted bindingFailed bindings user mi).1 = true ↔
      IdentityPermitted HopMatchesFirst k.destConstraints user bindingFailed bindings := by
  simp only [permitted, IdentityPermitted, List.isEmpty_iff]
  by_cases hc : k.destConstraints = []
  · simp [hc]
  cases bindingFailed
  swap
  · simp [hc]
  by_cases hb : bindings = []
  · simp [hb]
  obtain ⟨last, hlast⟩ : ∃ last, bindings.getLast? = some last := by
    cases h : bindings.getLast? <;> simp_all
  have hw := permittedWalk_iff k user [] bindings mi
  rcases hwalk : k.permittedWalk user [] bindings mi with ⟨ok, mi'⟩
  simp only [hwalk, if_pos] at hw
  simp only [hc, hb, hlast, false_or, true_and, if_false]
  cases ok
  · have hn : ¬ChainPermitted HopMatchesFirst k.destConstraints user bindings :=
      fun h => absurd (hw.mpr ⟨h.hostKeys, h.forwarding, h.signing, h.hops⟩) (by simp)
    simp [hn]
  obtain ⟨hk, hfw, hsg, hh⟩ := hw.mp rfl
  have hafter := permittedByConstraints_after k last.hostKey
    (hk last (List.mem_of_getLast?_eq_some hlast))
  have hchain : (∀ b ∈ bindings.getLast?, b.forwarded = true → user = [] →
      ∃ c ∈ k.destConstraints, HopMatchesFirst c.fromHop b.hostKey) ↔
      ChainPermitted HopMatchesFirst k.destConstraints user bindings :=
    ⟨fun h => ⟨hk, hfw, hsg, hh, h⟩, ChainPermitted.after⟩
  rw [← hchain]
  simp only [hlast, Option.mem_def, Option.some.injEq, forall_eq', ← hafter]
  by_cases hn : k.permittedByConstraints last.hostKey [] [] = none <;>
    by_cases hf : last.forwarded <;> by_cases hu : user = [] <;>
    simp [hn, hf, hu, Option.isSome_iff_ne_none]

/-- For every constraint list, binding chain and user, `permitted` agrees with
`identity_permitted` when a hop matches a key iff a plain entry equal to it comes before
any entry with an empty key blob. -/
theorem permitted_agrees_with_identity_permitted :
    ∀ (k : Key) (bindingFailed : Bool) (bindings : List SessionBinding) (user : Bytes)
      (mi : MatchInfo),
      (k.permitted bindingFailed bindings user mi).1 = true ↔
        IdentityPermitted HopMatchesFirst k.destConstraints user bindingFailed bindings :=
  permitted_iff

end Key

/-- A hop whose first entry has an empty key blob, before the host key `K`. -/
def emptyEntryHop : OpenSSHHopDescriptor :=
  ⟨[], ascii "host", [⟨[], false⟩, ⟨ascii "K", false⟩]⟩

def emptyEntryKey : Key :=
  { Key.fresh .ed25519 [] ⟨[], .ed25519 []⟩ [] with
    destConstraints := [⟨⟨[], [], []⟩, emptyEntryHop⟩] }

/-- With `K` listed after an empty entry, `permitted` refuses the one-hop chain to `K`,
which the "any plain entry" reading of a hop match permits. -/
theorem permitted_refuses_key_after_empty_entry :
    (emptyEntryKey.permitted false [⟨ascii "K", ascii "S", false⟩] [] MatchInfo.empty).1 = false ∧
      IdentityPermitted HopMatchesAny emptyEntryKey.destConstraints [] false
        [⟨ascii "K", ascii "S", false⟩] := by
  refine ⟨by decide, .inr ⟨rfl, .inr ⟨by decide, by simp, by simp, ?_, by simp⟩⟩⟩
  exact ⟨⟨_, List.mem_singleton_self _, ⟨rfl, rfl⟩,
    ⟨⟨ascii "K", false⟩, by simp [emptyEntryHop], rfl, rfl⟩,
    fun _ => .inr (.inl rfl)⟩, trivial⟩

/-- A relation implied by the hop match keeps `identity_permitted`. -/
theorem IdentityPermitted.mono {P Q : OpenSSHHopDescriptor → Bytes → Prop}
    (hPQ : ∀ h key, P h key → Q h key) {cs : List OpenSSHSDestinationConstraint} {user : Bytes}
    {bindingFailed : Bool} {bindings : List SessionBinding}
    (h : IdentityPermitted P cs user bindingFailed bindings) :
    IdentityPermitted Q cs user bindingFailed bindings := by
  have hops : ∀ fromKey bs, HopsPermitted P cs user fromKey bs →
      HopsPermitted Q cs user fromKey bs := by
    intro fromKey bs
    induction bs generalizing fromKey with
    | nil => exact id
    | cons b rest ih =>
      rintro ⟨⟨c, hc, hfrom, hto, hu⟩, hrest⟩
      refine ⟨⟨c, hc, ?_, hPQ _ _ hto, hu⟩, ih _ hrest⟩
      cases fromKey with
      | none => exact hfrom
      | some f => exact hPQ _ _ hfrom
  rcases h with h | ⟨hf, h | h⟩
  · exact .inl h
  · exact .inr ⟨hf, .inl h⟩
  · exact .inr ⟨hf, .inr ⟨h.hostKeys, h.forwarding, h.signing, hops _ _ h.hops,
      fun b hb hfw hu => (h.after b hb hfw hu).imp fun c ⟨hc, hm⟩ => ⟨hc, hPQ _ _ hm⟩⟩⟩

/-- The match `matchesKey` performs is one of the design's hop matches. -/
theorem HopMatchesFirst.any {h : OpenSSHHopDescriptor} {key : Bytes}
    (hm : HopMatchesFirst h key) : HopMatchesAny h key := by
  obtain ⟨l₁, e, l₂, heq, -, hca, -, hkey⟩ := hm
  exact ⟨e, by simp [heq], hca, hkey⟩

end Libssha
