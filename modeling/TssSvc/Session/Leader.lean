import Mathlib.Data.List.Sort
import TssSvc.Broadcast.Message
import TssSvc.Lib.Base58

/-!
# The leader of a session

`internal/tss/session/leader.go` and the conversions of `internal/core/address.go`.  Every party
sorts the identifiers of the others and its own by their keys and draws an index from the session
identifier.  A key is the number in the data part of the address, so the order is the same for
all parties when the keys, not only the addresses, are distinct.
-/

set_option autoImplicit false

namespace TssSvc.Leader

open TssSvc.Broadcast

structure PartyID where
  id : GoString
  moniker : GoString
  key : Nat
  deriving DecidableEq, Repr

/-- The data part that `bech32.DecodeAndConvert` returns, `none` for an error; SHA-256; the first
number of a ChaCha8 generator with a seed; and `tss.SortPartyIDs`. -/
structure Libraries where
  decodeAndConvert : Address → Option Bytes
  sha256 : Bytes → Bytes
  chaCha8 : Bytes → UInt64
  sortPartyIDs : List PartyID → List PartyID

/-- `big.Int.SetBytes`. -/
def setBytes (raw : Bytes) : Nat := Base58.ofBigEndian 256 (raw.map UInt8.toNat)

def addrFromPartyId (id : PartyID) : Address := id.moniker

structure Party where
  coreAddress : Address
  identifier : PartyID

namespace Libraries

variable (lib : Libraries)

/-- `Address.Bytes` panics on an address that does not decode. -/
def bytes (a : Address) : Go Bytes :=
  match lib.decodeAndConvert a with
  | some data => .ok data
  | none => .error .explicit

def partyKey (a : Address) : Go Nat := do
  let data ← lib.bytes a
  return setBytes data

def partyIdentifier (a : Address) : Go PartyID := do
  let key ← lib.partyKey a
  return ⟨a, a, key⟩

def newParty (coreAddr : Address) : Go Party := do
  let identifier ← lib.partyIdentifier coreAddr
  return ⟨coreAddr, identifier⟩

def sortAllParties (parties : List Party) (self : Address) : Go (List PartyID) := do
  let selfId ← lib.partyIdentifier self
  return lib.sortPartyIDs (parties.map Party.identifier ++ [selfId])

def deterministicRandSource (sessionId : GoString) : UInt64 := lib.chaCha8 (lib.sha256 sessionId)

def determineLeader (sessionId : GoString) (partyIds : List PartyID) : Go Address :=
  if partyIds.length = 0 then .error .divideByZero
  else
    match partyIds[(lib.deterministicRandSource sessionId).toNat % partyIds.length]? with
    | some id => .ok (addrFromPartyId id)
    | none => .error .indexOutOfRange

/-- The leader as the party `self` computes it. -/
def leader (sessionId : GoString) (parties : List Party) (self : Address) : Go Address := do
  let partyIds ← lib.sortAllParties parties self
  lib.determineLeader sessionId partyIds

/-! ## Sorted identifiers -/

/-- What is assumed of `tss.SortPartyIDs`. -/
structure Sorts : Prop where
  permutes : ∀ ids, (lib.sortPartyIDs ids).Perm ids
  ordered : ∀ ids, (lib.sortPartyIDs ids).Pairwise fun a b => a.key ≤ b.key

/-- The parties of one member of a set of addresses: the others, in any order. -/
structure Others (addresses : List Address) (own : Address) (parties : List Party) : Prop where
  members : (parties.map Party.coreAddress ++ [own]).Perm addresses
  built : ∀ party ∈ parties, lib.newParty party.coreAddress = .ok party

variable {lib} {addresses : List Address} {self : Address} {parties : List Party}

/-- The identifier of an address that decodes. -/
def identifierOf (lib : Libraries) (a : Address) : PartyID :=
  ⟨a, a, (lib.decodeAndConvert a).elim 0 setBytes⟩

theorem partyIdentifier_eq {a : Address} (decodes : (lib.decodeAndConvert a).isSome = true) :
    lib.partyIdentifier a = .ok (lib.identifierOf a) := by
  obtain ⟨data, hdata⟩ := Option.isSome_iff_exists.mp decodes
  simp only [partyIdentifier, partyKey, bytes, identifierOf, hdata]
  rfl

theorem partyKey_eq {a : Address} (decodes : (lib.decodeAndConvert a).isSome = true) :
    lib.partyKey a = .ok (lib.identifierOf a).key := by
  obtain ⟨data, hdata⟩ := Option.isSome_iff_exists.mp decodes
  simp only [partyKey, bytes, identifierOf, hdata]
  rfl

theorem newParty_identifier {party : Party} {a : Address} (h : lib.newParty a = .ok party) :
    party.identifier = lib.identifierOf a := by
  unfold newParty partyIdentifier partyKey bytes at h
  cases hdata : lib.decodeAndConvert a with
  | none =>
      rw [hdata] at h
      cases h
  | some data =>
      rw [hdata] at h
      cases h
      simp [identifierOf, hdata]

theorem Others.identifiers (others : lib.Others addresses self parties) :
    (parties.map Party.identifier ++ [lib.identifierOf self]).Perm
      (addresses.map lib.identifierOf) := by
  have hmap : parties.map Party.identifier =
      (parties.map Party.coreAddress).map lib.identifierOf := by
    rw [List.map_map]
    exact List.map_congr_left fun party hmem => newParty_identifier (others.built party hmem)
  rw [hmap, ← List.map_singleton, ← List.map_append]
  exact others.members.map _

/-- Every member sorts the identifiers of the whole set. -/
theorem Others.sortAllParties_eq (others : lib.Others addresses self parties)
    (decodes : ∀ a ∈ addresses, (lib.decodeAndConvert a).isSome = true) (sorts : lib.Sorts) :
    ∃ ids, lib.sortAllParties parties self = .ok ids ∧
      ids.Perm (addresses.map lib.identifierOf) ∧ ids.Pairwise fun a b => a.key ≤ b.key := by
  have hself : self ∈ addresses := others.members.subset (by simp)
  refine ⟨_, ?_, (sorts.permutes _).trans others.identifiers, sorts.ordered _⟩
  rw [sortAllParties, partyIdentifier_eq (decodes self hself)]
  rfl

/-- With distinct keys there is one sorted list. -/
theorem sorted_unique (decodes : ∀ a ∈ addresses, (lib.decodeAndConvert a).isSome = true)
    (distinct : (addresses.map lib.partyKey).Nodup) {ids ids' : List PartyID}
    (hperm : ids.Perm (addresses.map lib.identifierOf))
    (hperm' : ids'.Perm (addresses.map lib.identifierOf))
    (hordered : ids.Pairwise fun a b => a.key ≤ b.key)
    (hordered' : ids'.Pairwise fun a b => a.key ≤ b.key) : ids = ids' := by
  refine List.Perm.eq_of_pairwise ?_ hordered hordered' (hperm.trans hperm'.symm)
  intro x y hx hy hle hge
  obtain ⟨a, ha, rfl⟩ := List.mem_map.mp (hperm.subset hx)
  obtain ⟨b, hb, rfl⟩ := List.mem_map.mp (hperm'.subset hy)
  have hkey : lib.partyKey a = lib.partyKey b := by
    rw [partyKey_eq (decodes a ha), partyKey_eq (decodes b hb), le_antisymm hle hge]
  rw [List.inj_on_of_nodup_map distinct ha hb hkey]

theorem determineLeader_mem (sessionId : GoString) {ids : List PartyID}
    (hperm : ids.Perm (addresses.map lib.identifierOf)) (hne : addresses ≠ []) :
    ∃ leader ∈ addresses, lib.determineLeader sessionId ids = .ok leader := by
  have hlength : ids.length ≠ 0 := by
    rw [hperm.length_eq, List.length_map]
    exact mt List.length_eq_zero_iff.mp hne
  have hbound : (lib.deterministicRandSource sessionId).toNat % ids.length < ids.length :=
    Nat.mod_lt _ (Nat.pos_of_ne_zero hlength)
  obtain ⟨a, ha, heq⟩ := List.mem_map.mp (hperm.subset (List.getElem_mem hbound))
  refine ⟨a, ha, ?_⟩
  rw [determineLeader, if_neg hlength, List.getElem?_eq_getElem hbound, ← heq]
  rfl

/-- Any two members of a set with distinct keys compute the same leader, a member. -/
theorem leader_agrees (lib : Libraries) (sorts : lib.Sorts) (addresses : List Address)
    (decodes : ∀ a ∈ addresses, (lib.decodeAndConvert a).isSome = true)
    (distinct : (addresses.map lib.partyKey).Nodup) (sessionId : GoString) (p q : Address)
    (ps qs : List Party) (hp : lib.Others addresses p ps) (hq : lib.Others addresses q qs) :
    ∃ leader ∈ addresses, lib.leader sessionId ps p = .ok leader ∧
      lib.leader sessionId qs q = .ok leader := by
  obtain ⟨ids, hids, hperm, hordered⟩ := hp.sortAllParties_eq decodes sorts
  obtain ⟨ids', hids', hperm', hordered'⟩ := hq.sortAllParties_eq decodes sorts
  obtain rfl := sorted_unique decodes distinct hperm hperm' hordered hordered'
  have hne : addresses ≠ [] := by
    rintro rfl
    simpa using hp.members.length_eq
  obtain ⟨a, ha, hleader⟩ := determineLeader_mem sessionId hperm hne
  refine ⟨a, ha, ?_, ?_⟩
  · rw [leader, hids]
    exact hleader
  · rw [leader, hids']
    exact hleader

section Sample

/-- A decoder that takes the human-readable part off, as bech32 does; identifiers sorted as
`sort.Sort` sorts few of them: `Less` of the library holds of equal keys, so insertion reverses
these. -/
def sampleLibraries (draw : Bytes → UInt64) : Libraries where
  decodeAndConvert a := if 0x31 ∈ a then some ((a.dropWhile (· ≠ 0x31)).drop 1) else none
  sha256 := id
  chaCha8 := draw
  sortPartyIDs ids := ids.reverse.insertionSort fun a b => a.key ≤ b.key

theorem sampleLibraries_sorts (draw : Bytes → UInt64) : (sampleLibraries draw).Sorts where
  permutes ids := (List.perm_insertionSort _ ids.reverse).trans ids.reverse_perm
  ordered ids := by
    have htotal : Std.Total fun a b : PartyID => a.key ≤ b.key := ⟨fun a b => Nat.le_total _ _⟩
    have htrans : IsTrans PartyID fun a b => a.key ≤ b.key := ⟨fun _ _ _ => Nat.le_trans⟩
    exact List.pairwise_insertionSort _ ids.reverse

def partyOf (a : Address) : Party := ⟨a, (sampleLibraries fun _ => 0).identifierOf a⟩

/-- The addresses that decode are those with a separator. -/
theorem newParty_partyOf {draw : Bytes → UInt64} {a : Address} (decodes : 0x31 ∈ a) :
    (sampleLibraries draw).newParty (partyOf a).coreAddress = .ok (partyOf a) := by
  simp only [newParty, partyIdentifier, partyKey, bytes, sampleLibraries, partyOf, identifierOf,
    decodes, if_true]
  rfl

theorem leader_agrees_sample :
    ∃ leader ∈ [str "bridge1a", str "bridge1b", str "bridge1c"],
      (sampleLibraries fun _ => 4).leader (str "SIGN_1_7")
          [partyOf (str "bridge1c"), partyOf (str "bridge1b")] (str "bridge1a") = .ok leader ∧
        (sampleLibraries fun _ => 4).leader (str "SIGN_1_7")
          [partyOf (str "bridge1a"), partyOf (str "bridge1c")] (str "bridge1b") = .ok leader :=
  leader_agrees (sampleLibraries fun _ => 4) (sampleLibraries_sorts _)
    [str "bridge1a", str "bridge1b", str "bridge1c"] (by decide) (by decide) (str "SIGN_1_7")
    (str "bridge1a") (str "bridge1b") [partyOf (str "bridge1c"), partyOf (str "bridge1b")]
    [partyOf (str "bridge1a"), partyOf (str "bridge1c")]
    ⟨by decide, by simp [newParty_partyOf, str]⟩ ⟨by decide, by simp [newParty_partyOf, str]⟩

/-- Two addresses of one key: whatever is drawn, each of the two takes the other end of the
list. -/
theorem leader_disagrees :
    str "bridge1a" ≠ str "cosmos1a" ∧
      (∀ a ∈ [str "bridge1a", str "cosmos1a"],
        (sampleLibraries fun _ => 0).decodeAndConvert a = some [0x61]) ∧
      ∀ (draw : Bytes → UInt64) (sessionId : GoString),
        (sampleLibraries draw).leader sessionId [partyOf (str "cosmos1a")] (str "bridge1a") ≠
          (sampleLibraries draw).leader sessionId [partyOf (str "bridge1a")] (str "cosmos1a") := by
  refine ⟨by decide, by decide, fun draw sessionId => ?_⟩
  have hfirst : (sampleLibraries draw).leader sessionId [partyOf (str "cosmos1a")]
      (str "bridge1a") = (sampleLibraries draw).determineLeader sessionId
        [⟨str "bridge1a", str "bridge1a", 0x61⟩, ⟨str "cosmos1a", str "cosmos1a", 0x61⟩] := rfl
  have hsecond : (sampleLibraries draw).leader sessionId [partyOf (str "bridge1a")]
      (str "cosmos1a") = (sampleLibraries draw).determineLeader sessionId
        [⟨str "cosmos1a", str "cosmos1a", 0x61⟩, ⟨str "bridge1a", str "bridge1a", 0x61⟩] := rfl
  rw [hfirst, hsecond]
  simp only [determineLeader, List.length_cons, List.length_nil]
  rcases Nat.mod_two_eq_zero_or_one ((sampleLibraries draw).deterministicRandSource
    sessionId).toNat with hzero | hone
  · rw [hzero]
    decide
  · rw [hone]
    decide

end Sample

end Libraries

end TssSvc.Leader
