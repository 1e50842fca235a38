import TssSvc.Party.Submission
import TssSvc.Session.Consensus

/-!
# Distribution of deposits

The deposit-distribution sessions (`internal/tss/session/distributor`) of all parties, beside the
writers of their tables.  `runDistributor` broadcasts the identifier of its oldest pending deposit
that is not distributed and marks the row; `Broadcast` does not wait for its sends.  `runAcceptor`
takes identifiers from its channel and fetches the deposits it does not have.

`announced`, `dropped` and `foreign` record what was broadcast, what a party has given up, and what
it learned from the core, a proposal or a corrupted distributor; no step reads them.
-/

set_option autoImplicit false

namespace TssSvc.Distributor

open TssSvc.Db TssSvc.Bridge TssSvc.Party
open TssSvc.Broadcast (Address)
open TssSvc.Session (SubmitRequest Fallible)

/-! ## Requests -/

/-- The data of a request: nil, or what it unmarshals to. -/
abbrev Data := Option (Fallible (Option DepositIdentifier))

def receive (validAddress : GoString → Bool) (distributors : List Address)
    (request : Option (SubmitRequest Data)) : Fallible DepositIdentifier := do
  let request ← Outcome.ofOption (.new "nil request") request
  let data ← Outcome.ofOption (.new "nil request") request.data
  Outcome.check (request.type = .depositDistribution) (.new "invalid request type")
  Outcome.check (validAddress request.sender)
    (GoError.wrap (str "failed to parse sender address") (.new "invalid address"))
  Outcome.check (request.sender ∈ distributors)
    ⟨none, str "sender '" ++ request.sender ++ str "' is not a valid deposit distributor"⟩
  let depositId ← data.wrap "failed to unmarshal deposit identifier"
  Outcome.ofOption (.new "nil deposit identifier") depositId

def sessionIdentifier : GoString := str "DEPOSIT_DISTRIBUTION"

/-- The request `runDistributor` broadcasts. -/
def distributionRequest (self : Address) (id : DepositIdentifier) : SubmitRequest Data :=
  ⟨self, sessionIdentifier, .depositDistribution, some (.ok (some id))⟩

theorem receive_distributionRequest {validAddress : GoString → Bool} {distributors : List Address}
    {self : Address} (valid : validAddress self = true) (listed : self ∈ distributors)
    (id : DepositIdentifier) :
    receive validAddress distributors (some (distributionRequest self id)) = .ok id := by
  simp [receive, distributionRequest, valid, listed, Outcome.ofOption, Outcome.check,
    Outcome.wrap, Outcome.mapErr]

/-! ## One party -/

/-- `distributing` is the deposit whose broadcast is out and whose mark is to come, `accepting` the
one that was not found in the table and is being fetched. -/
structure Node where
  party : State
  distributing : Option DepositIdentifier
  msgs : List DepositIdentifier
  accepting : Option DepositIdentifier

/-- The capacity of the channel. -/
def msgsCapacity : Nat := 100

inductive NodeLabel where
  | party (label : Label)
  | distribute (getFails : Bool)
  | mark (fails : Bool)
  | take (getFails : Bool)
  | insert (clients : Repository) (core : Core) (insertFails : Bool)

structure NodeMove where
  next : Node
  announced : List DepositIdentifier := []
  dropped : List DepositIdentifier := []
  foreign : List DepositIdentifier := []

/-- The deposits that come in with a proposal or an event of the core. -/
def learned : Label → List DepositIdentifier
  | .session _ (.verifyInsert (some deposit) _ _) => [deposit.identifier]
  | label => emitted label

/-- The steps of the writers that are not the distributor's: its mark and the inserts of
distributed rows. -/
def isDistribution : Label → Bool
  | .setDistributed _ => true
  | .admission row => row.distributed
  | _ => false

def isRestart : Label → Bool
  | .restart _ => true
  | _ => false

section Move

variable (kinds : GoString → Option SessionKind)

def Node.move (n : Node) : NodeLabel → Option NodeMove
  | .party label =>
      if isDistribution label then none
      else (step kinds n.party label).map fun party =>
        if isRestart label then
          { next := ⟨party, none, [], none⟩, dropped := n.msgs ++ n.accepting.toList }
        else { next := { n with party := party }, foreign := learned label }
  | .distribute getFails =>
      match n.distributing, n.party.table.getWithSelector .undistributed with
      | none, some row =>
          if getFails then some { next := n }
          else some {
            next := { n with distributing := some row.identifier }
            announced := [row.identifier] }
      | none, none => some { next := n }
      | some _, _ => none
  | .mark fails =>
      n.distributing.map fun id =>
        { next := { n with
            party := if fails then n.party
              else ⟨(TableOp.setDistributed id).apply n.party.table, n.party.control⟩
            distributing := none } }
  | .take getFails =>
      match n.accepting, n.msgs with
      | none, id :: msgs =>
          if getFails then some { next := { n with msgs := msgs }, dropped := [id] }
          else some { next := { n with
            msgs := msgs
            accepting := if (n.party.table.get id).isSome then none else some id } }
      | _, _ => none
  | .insert clients core insertFails =>
      n.accepting.map fun id =>
        match insertFails, distributedRow clients core id with
        | false, some row =>
            { next := { n with
                party := ⟨(TableOp.insert row).apply n.party.table, n.party.control⟩
                accepting := none } }
        | _, _ => { next := { n with accepting := none }, dropped := [id] }

end Move

/-- With nothing in between, the two steps of the acceptor are one turn of its loop. -/
theorem turn_eq_acceptDistributed {kinds : GoString → Option SessionKind} {n : Node}
    {id : DepositIdentifier} {msgs : List DepositIdentifier} (idle : n.accepting = none)
    (head : n.msgs = id :: msgs) (clients : Repository) (core : Core)
    (getFails insertFails : Bool) :
    ∃ taken, n.move kinds (.take getFails) = some taken ∧
      match taken.next.move kinds (.insert clients core insertFails) with
      | some m => m.next.party.table =
          acceptDistributed clients core ⟨getFails, insertFails⟩ n.party.table id
      | none => taken.next.party.table =
          acceptDistributed clients core ⟨getFails, insertFails⟩ n.party.table id := by
  simp only [Node.move, idle, head]
  cases getFails with
  | true => exact ⟨_, rfl, rfl⟩
  | false =>
      refine ⟨_, rfl, ?_⟩
      cases hget : n.party.table.get id with
      | some row => simp [acceptDistributed, Table.queryGet, hget]
      | none =>
          simp only [acceptDistributed, Table.queryGet, hget, Bool.false_eq_true, if_false,
            Option.isSome_none, Option.map_some]
          cases hrow : distributedRow clients core id with
          | none => cases insertFails <;> rfl
          | some row =>
              cases insertFails with
              | true => rfl
              | false =>
                  simp only [TableOp.apply, Table.queryInsert, Bool.false_eq_true, if_false]
                  cases n.party.table.insert row <;> rfl

/-! ## The network -/

structure Setup where
  group : List Address
  corrupted : Address → Bool
  validAddress : GoString → Bool
  kinds : Address → GoString → Option SessionKind
  valid : ∀ self ∈ group, validAddress self = true

/-- The other parties, as each one's configuration lists them. -/
def Setup.distributors (setup : Setup) (self : Address) : List Address :=
  setup.group.filter fun other => other ≠ self

structure Envelope where
  sender : Address
  receiver : Address
  id : DepositIdentifier
  deriving DecidableEq, Repr

structure Network where
  nodes : Address → Node
  flying : List Envelope
  announced : List DepositIdentifier
  dropped : List (Address × DepositIdentifier)
  foreign : List (Address × DepositIdentifier)

inductive NetworkLabel where
  | node (self : Address) (label : NodeLabel)
  | deliver (envelope : Envelope)
  | lose (envelope : Envelope)
  /-- A request of a corrupted distributor. -/
  | submit (receiver : Address) (request : SubmitRequest Data)

section Network

variable (setup : Setup)

def Network.moved (net : Network) (self : Address) (m : NodeMove) : Network where
  nodes := Function.update net.nodes self m.next
  flying := net.flying ++ m.announced.flatMap fun id =>
    (setup.distributors self).map fun receiver => ⟨self, receiver, id⟩
  announced := net.announced ++ m.announced
  dropped := net.dropped ++ m.dropped.map (self, ·)
  foreign := net.foreign ++ m.foreign.map (self, ·)

/-- `Receive` blocks until there is room in the channel. -/
def Node.put (n : Node) (id : DepositIdentifier) : Option Node :=
  if n.msgs.length < msgsCapacity then some { n with msgs := n.msgs ++ [id] } else none

def networkStep (net : Network) : NetworkLabel → Option Network
  | .node self label =>
      if self ∈ setup.group ∧ setup.corrupted self = false then
        ((net.nodes self).move (setup.kinds self) label).map (net.moved setup self)
      else none
  | .deliver e =>
      if e ∈ net.flying then
        match receive setup.validAddress (setup.distributors e.receiver)
            (some (distributionRequest e.sender e.id)) with
        | .ok id =>
            ((net.nodes e.receiver).put id).map fun n => { net with
              nodes := Function.update net.nodes e.receiver n
              flying := net.flying.erase e }
        | _ => some { net with
            flying := net.flying.erase e
            dropped := net.dropped ++ [(e.receiver, e.id)] }
      else none
  | .lose e =>
      if e ∈ net.flying then
        some { net with
          flying := net.flying.erase e
          dropped := net.dropped ++ [(e.receiver, e.id)] }
      else none
  | .submit receiver request =>
      if setup.corrupted request.sender then
        match receive setup.validAddress (setup.distributors receiver) (some request) with
        | .ok id =>
            ((net.nodes receiver).put id).map fun n => { net with
              nodes := Function.update net.nodes receiver n
              foreign := net.foreign ++ [(receiver, id)] }
        | _ => some net
      else none

def network : Machine Network NetworkLabel where
  init net := (∀ self, (machine (setup.kinds self)).init (net.nodes self).party ∧
      (net.nodes self).distributing = none ∧ (net.nodes self).msgs = [] ∧
      (net.nodes self).accepting = none) ∧
    net.flying = [] ∧ net.announced = [] ∧ net.dropped = [] ∧ net.foreign = []
  step := networkStep setup

end Network

end TssSvc.Distributor
