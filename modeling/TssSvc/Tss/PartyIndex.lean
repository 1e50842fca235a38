import TssSvc.Lib.Machine
import TssSvc.Lib.Rank

/-!
# Party indices of concurrent signings

`internal/tss/signer.go` and `internal/tss/session/leader.go` over the heap of `tss.PartyID`
objects.  Every chain session gets the same `p2p.Party` values, and `Identifier()` hands out the
pointer they hold.  `SortPartyIDs` writes the position of each identifier into the object itself,
so a signing that starts renumbers the parties of the signings that run.  The functions of tss-lib
are parameters; what is assumed of them is in `TssLib.Lawful`.

An address is identified with its party key.
-/

set_option autoImplicit false

namespace TssSvc.Tss

/-! ## Identifiers -/

structure PartyID where
  key : Nat
  index : Int
  deriving DecidableEq, Repr

/-- A `*tss.PartyID`. -/
abbrev Ref := Nat

abbrev Heap := List PartyID

def keyOf (heap : Heap) (ref : Ref) : Nat := (heap[ref]?).elim 0 PartyID.key

def indexOf (heap : Heap) (ref : Ref) : Option Int := (heap[ref]?).map PartyID.index

def assignIndexes (heap : Heap) : Nat → List Ref → Heap
  | _, [] => heap
  | i, ref :: rest => assignIndexes (heap.modify ref fun id => { id with index := i }) (i + 1) rest

/-- `tss.NewPartyID`, `tss.SortPartyIDs` and `SortedPartyIDs.FindByKey`. -/
structure TssLib where
  newPartyID : Heap → Nat → Ref × Heap
  sortPartyIDs : Heap → List Ref → List Ref × Heap
  findByKey : Heap → List Ref → Nat → Option Ref

/-- A new identifier is a new object; sorting orders the identifiers by their keys and overwrites
the index of each with its position; a key that is there is found. -/
structure TssLib.Lawful (lib : TssLib) : Prop where
  allocates : ∀ heap key, ∃ index, lib.newPartyID heap key = (heap.length, heap ++ [⟨key, index⟩])
  permutes : ∀ heap ids, (lib.sortPartyIDs heap ids).1.Perm ids
  ordered : ∀ heap ids, ((lib.sortPartyIDs heap ids).1.map (keyOf heap)).Pairwise (· ≤ ·)
  numbers : ∀ heap ids,
    (lib.sortPartyIDs heap ids).2 = assignIndexes heap 0 (lib.sortPartyIDs heap ids).1
  finds : ∀ heap sorted key, key ∈ sorted.map (keyOf heap) →
    ∃ ref ∈ sorted, keyOf heap ref = key ∧ lib.findByKey heap sorted key = some ref

/-! ## Signing parties -/

structure Party where
  coreAddress : Nat
  identifier : Ref
  deriving DecidableEq, Repr

structure SignParty where
  parties : List Nat
  sortedPartyIds : List Ref
  running : Bool := false
  deriving DecidableEq, Repr

section Parties

variable (lib : TssLib)

def withParties (self : Nat) (heap : Heap) (parties : List Party) : SignParty × Heap :=
  let (selfId, heap) := lib.newPartyID heap self
  let (sorted, heap) := lib.sortPartyIDs heap (selfId :: parties.map Party.identifier)
  (⟨parties.map Party.coreAddress, sorted, false⟩, heap)

/-- `SortAllParties`, which every `NewSession` calls. -/
def sortAllParties (self : Nat) (heap : Heap) (parties : List Party) : List Ref × Heap :=
  let (selfId, heap) := lib.newPartyID heap self
  lib.sortPartyIDs heap (parties.map Party.identifier ++ [selfId])

/-- The slot `UpdateFromBytes` files a message of the sender under. -/
def slotOf (heap : Heap) (p : SignParty) (sender : Nat) : Option Int :=
  if sender ∈ p.parties then (lib.findByKey heap p.sortedPartyIds sender).bind (indexOf heap)
  else none

end Parties

/-! ## The sessions of one party -/

/-- The own address, the configured parties and the number of chain sessions. -/
structure Setup where
  self : Nat
  parties : List Nat
  distinct : (self :: parties).Nodup
  sessions : Nat

variable (setup : Setup)

/-- The identifiers `NewParty` allocates when the configuration is read. -/
def Setup.heap : Heap := setup.parties.map fun key => ⟨key, -1⟩

def Setup.configured : List Party := setup.parties.mapIdx fun ref key => ⟨key, ref⟩

structure State where
  heap : Heap
  signing : Fin setup.sessions → Option SignParty

inductive Label where
  | newSession
  | withParties (session : Fin setup.sessions) (signers : List Party)
  | run (session : Fin setup.sessions)
  | receiveMsg (session : Fin setup.sessions) (sender : Nat)
  /-- `WaitFor` returns; the next `SignParty` of the session is a new one. -/
  | waitFor (session : Fin setup.sessions)

/-- A selection of the configured parties, as the consensus makes it. -/
def Setup.Selects (signers : List Party) : Prop :=
  signers.Nodup ∧ ∀ p ∈ signers, p ∈ setup.configured

instance (signers : List Party) : Decidable (setup.Selects signers) :=
  inferInstanceAs (Decidable (_ ∧ _))

variable {setup}

def step (lib : TssLib) (s : State setup) : Label setup → Option (State setup)
  | .newSession =>
      some { s with heap := (sortAllParties lib setup.self s.heap setup.configured).2 }
  | .withParties session signers =>
      match s.signing session with
      | none =>
          if setup.Selects signers then
            let (p, heap) := withParties lib setup.self s.heap signers
            some ⟨heap, Function.update s.signing session (some p)⟩
          else none
      | some _ => none
  | .run session =>
      match s.signing session with
      | some p =>
          if p.running then none
          else some { s with
            signing := Function.update s.signing session (some { p with running := true }) }
      | none => none
  | .receiveMsg session sender =>
      match s.signing session with
      | some p => if p.running ∧ sender ∈ p.parties then some s else none
      | none => none
  | .waitFor session =>
      match s.signing session with
      | some p =>
          if p.running then some { s with signing := Function.update s.signing session none }
          else none
      | none => none

variable (setup) in
def machine (lib : TssLib) : Machine (State setup) (Label setup) where
  init s := s = ⟨setup.heap, fun _ => none⟩
  step := step lib

end TssSvc.Tss
