import Mathlib.Logic.Function.Basic
import TssSvc.Db.Deposits
import TssSvc.Lib.Machine

/-!
# The writers of one party's deposits table

Every goroutine of a party that touches the deposits table, one database query a step: the
signing session of each chain (`internal/tss/session/signing/*/session.go`), its finalizers
(`finalizer.go`), the core event subscriber (`internal/core/subscriber/main.go`), the API and
the distributor.  The outcomes of all external calls are in the labels, and so are restarts.

`signed` records the runs of `SignParty`; nothing reads it.
-/

set_option autoImplicit false

namespace TssSvc.Party

open TssSvc.Db

/-! ## Queries -/

/-- The statuses a writer can take a row to have when it updates it. -/
inductive OpenStatus where
  | pending
  | processing
  deriving DecidableEq, Repr

def OpenStatus.toStatus : OpenStatus → WithdrawalStatus
  | pending => .pending
  | processing => .processing

/-- The writing queries.  `known` is the status the subscriber read; the query does not use it. -/
inductive TableOp where
  | keep
  | insert (row : Deposit)
  | insertProcessed (row : Deposit)
  | markProcessing (id : DepositIdentifier)
  | markFailed (id : DepositIdentifier)
  | updateProcessed (data : ProcessedDepositData)
  | updateDetails (id : DepositIdentifier) (known : OpenStatus) (hash signature : Option GoString)
  | setDistributed (id : DepositIdentifier)
  | setSubmitted (id : DepositIdentifier)

/-- A row the unique constraint refuses leaves the table as it is. -/
def inserted (t : Table) : Except DbError Table → Table
  | .ok next => next
  | .error _ => t

def TableOp.apply (t : Table) : TableOp → Table
  | keep => t
  | insert row => inserted t (t.insert row)
  | insertProcessed row => inserted t (t.insertProcessedDeposit row)
  | markProcessing id => t.updateStatus id .processing
  | markFailed id => t.updateStatus id .failed
  | updateProcessed data => t.updateProcessed data
  | updateDetails id _ hash signature => t.updateWithdrawalDetails id hash signature
  | setDistributed id => t.updateDistributedStatus id true
  | setSubmitted id => t.updateSubmittedStatus id true

/-- An update of the status column: the row, the status its writer last read or wrote itself,
and the status it writes. -/
structure StatusWrite where
  id : DepositIdentifier
  known : OpenStatus
  written : WithdrawalStatus

def TableOp.statusWrite : TableOp → Option StatusWrite
  | markProcessing id => some ⟨id, .pending, .processing⟩
  | markFailed id => some ⟨id, .processing, .failed⟩
  | updateProcessed data => some ⟨data.identifier, .processing, .processed⟩
  | updateDetails id known _ _ => some ⟨id, known, .processed⟩
  | keep | insert _ | insertProcessed _ | setDistributed _ | setSubmitted _ => none

/-! ## Signing sessions -/

inductive SessionKind where
  | evm
  | ton
  | solana
  | zano
  | utxo
  deriving DecidableEq, Repr

/-- The finalizers of these sessions send the transaction if the party leads the session. -/
def SessionKind.sends : SessionKind → Bool
  | zano | utxo => true
  | evm | ton | solana => false

/-- A finalizer goroutine: before `UpdateProcessed`, before the transaction is sent, and with its
result in the channel. -/
inductive FinalizerPc where
  | updating
  | sending
  | done (failed : Bool)
  deriving DecidableEq, Repr

inductive FinalizerLabel where
  | fail
  | update (data : ProcessedDepositData) (leader : Bool)
  | send (ok : Bool)

def finalizerStep (kind : SessionKind) (id : DepositIdentifier) :
    FinalizerPc → FinalizerLabel → Option (TableOp × FinalizerPc)
  | .updating, .fail => some (.keep, .done true)
  | .updating, .update data leader =>
      if data.identifier = id then
        some (.updateProcessed data, if leader && kind.sends then .sending else .done false)
      else none
  | .sending, .send ok => some (.keep, .done !ok)
  | _, _ => none

inductive Pc where
  | idle
  /-- `VerifyProposedData` has found no row. -/
  | verifying (id : DepositIdentifier)
  /-- The data is proposed, or accepted; the consensus goes on. -/
  | proposed (id : DepositIdentifier)
  | agreed (id : DepositIdentifier) (signer : Bool)
  | signing (id : DepositIdentifier)
  | running (id : DepositIdentifier)
  | distributing (id : DepositIdentifier)
  | finalizing (id : DepositIdentifier) (finalizer : FinalizerPc)
  /-- An error is returned: the deferred update is next. -/
  | failing (id : DepositIdentifier)
  deriving DecidableEq, Repr

structure ChainState where
  pc : Pc
  session : Nat
  deriving DecidableEq, Repr

inductive SignResult where
  | signature
  | nextRound
  | cancelled
  | failed
  deriving DecidableEq, Repr

inductive SessionLabel where
  | skip
  | formProposal
  | verifyGet (id : DepositIdentifier) (isValid : Bool)
  | verifyInsert (fetched : Option Deposit) (faulted isValid : Bool)
  | consensus (outcome : Option Bool)
  | markProcessing (ok : Bool)
  | runSignParty
  | signResult (result : SignResult)
  | distribution (ok : Bool)
  | finalizer (label : FinalizerLabel)
  | finalizeResult
  | finalizeTimeout
  | markFailed (ok : Bool)

/-- A finalizer whose session has stopped waiting for it. -/
structure Orphan where
  kind : SessionKind
  id : DepositIdentifier
  pc : FinalizerPc
  deriving DecidableEq, Repr

structure SessionMove where
  op : TableOp := .keep
  next : ChainState
  orphaned : List Orphan := []
  ran : List DepositIdentifier := []

def ChainState.goto (cs : ChainState) (pc : Pc) : ChainState := { cs with pc := pc }

def ChainState.finish (cs : ChainState) : ChainState := ⟨.idle, cs.session + 1⟩

/-- The end of a signing round.  A failed Zano session returns an error the deferred function does
not see; a UTXO session signs one input a round and can be cancelled between rounds. -/
def signedRound (kind : SessionKind) (cs : ChainState) (id : DepositIdentifier) :
    SignResult → Option SessionMove
  | .signature => some { next := cs.goto (.distributing id) }
  | .nextRound => if kind = .utxo then some { next := cs.goto (.signing id) } else none
  | .cancelled => if kind = .utxo then some { next := cs.finish } else none
  | .failed => some { next := if kind = .zano then cs.finish else cs.goto (.failing id) }

def sessionMove (kind : SessionKind) (chainId : GoString) (t : Table) (cs : ChainState) :
    SessionLabel → Option SessionMove
  | .skip => if cs.pc = .idle then some { next := cs.finish } else none
  | .formProposal =>
      match cs.pc, t.nextPending chainId with
      | .idle, some row => some { next := cs.goto (.proposed row.identifier) }
      | _, _ => none
  | .verifyGet id isValid =>
      match cs.pc, t.get id with
      | .idle, none => some { next := cs.goto (.verifying id) }
      | .idle, some row =>
          some { next :=
            if row.withdrawalStatus = .pending ∧ isValid then cs.goto (.proposed id)
            else cs.finish }
      | _, _ => none
  | .verifyInsert fetched faulted isValid =>
      match cs.pc, fetched with
      | .verifying _, none => some { next := cs.finish }
      | .verifying id, some deposit =>
          if deposit.identifier = id ∧ deposit.withdrawalStatus = .pending then
            if faulted then some { next := cs.finish }
            else some {
              op := .insert { deposit with distributed := true }
              next := if isValid then cs.goto (.proposed id) else cs.finish }
          else none
      | _, _ => none
  | .consensus outcome =>
      match cs.pc, outcome with
      | .proposed _, none => some { next := cs.finish }
      | .proposed id, some signer => some { next := cs.goto (.agreed id signer) }
      | _, _ => none
  | .markProcessing ok =>
      match cs.pc with
      | .agreed id signer =>
          if ok then some {
            op := .markProcessing id
            next := cs.goto (if signer then .signing id else .distributing id) }
          else some { next := cs.finish }
      | _ => none
  | .runSignParty =>
      match cs.pc with
      | .signing id => some { next := cs.goto (.running id), ran := [id] }
      | _ => none
  | .signResult result =>
      match cs.pc with
      | .running id => signedRound kind cs id result
      | _ => none
  | .distribution ok =>
      match cs.pc with
      | .distributing id =>
          some { next := cs.goto (if ok then .finalizing id .updating else .failing id) }
      | _ => none
  | .finalizer label =>
      match cs.pc with
      | .finalizing id finalizer =>
          (finalizerStep kind id finalizer label).map fun step =>
            { op := step.1, next := cs.goto (.finalizing id step.2) }
      | _ => none
  | .finalizeResult =>
      match cs.pc with
      | .finalizing id (.done failed) =>
          some { next := if failed then cs.goto (.failing id) else cs.finish }
      | _ => none
  | .finalizeTimeout =>
      match cs.pc with
      | .finalizing id finalizer =>
          some { next := cs.goto (.failing id), orphaned := [⟨kind, id, finalizer⟩] }
      | _ => none
  | .markFailed ok =>
      match cs.pc with
      | .failing id => some { op := if ok then .markFailed id else .keep, next := cs.finish }
      | _ => none

/-! ## The party -/

/-- The event subscriber between its `Get` and its write. -/
inductive SubscriberPc where
  | idle
  | inserting (event : Deposit)
  | updating (event : Deposit) (read : OpenStatus)
  deriving DecidableEq, Repr

inductive SubscriberLabel where
  | get (event : Deposit)
  | write (ok : Bool)

def subscriberStep (t : Table) : SubscriberPc → SubscriberLabel → Option (TableOp × SubscriberPc)
  | .idle, .get event =>
      match t.get event.identifier with
      | none => some (.keep, .inserting event)
      | some row =>
          match row.withdrawalStatus with
          | .pending => some (.keep, .updating event .pending)
          | .processing => some (.keep, .updating event .processing)
          | _ => some (.keep, .idle)
  | .inserting event, .write ok => some (if ok then .insertProcessed event else .keep, .idle)
  | .updating event read, .write ok =>
      some (if ok then .updateDetails event.identifier read event.withdrawalTxHash event.signature
        else .keep, .idle)
  | _, _ => none

structure SignRun where
  chainId : GoString
  session : Nat
  id : DepositIdentifier
  deriving DecidableEq, Repr

structure Control where
  chains : GoString → ChainState
  orphans : List Orphan
  subscriber : SubscriberPc
  signed : List SignRun

structure State where
  table : Table
  control : Control

inductive Label where
  | session (chainId : GoString) (label : SessionLabel)
  | orphan (orphan : Orphan) (label : FinalizerLabel)
  | subscriber (label : SubscriberLabel)
  /-- An insert of the API or of the distributor. -/
  | admission (row : Deposit)
  | setDistributed (id : DepositIdentifier)
  | setSubmitted (id : DepositIdentifier)
  /-- The process starts again, with the given session numbers. -/
  | restart (sessions : GoString → Nat)

/-- The query of a step and the control state after it; `kinds` are the configured sessions. -/
def move (kinds : GoString → Option SessionKind) (s : State) : Label → Option (TableOp × Control)
  | .session chainId label =>
      (kinds chainId).bind fun kind =>
        (sessionMove kind chainId s.table (s.control.chains chainId) label).map fun m =>
          (m.op, { s.control with
            chains := Function.update s.control.chains chainId m.next
            orphans := s.control.orphans ++ m.orphaned
            signed := s.control.signed ++
              m.ran.map fun id => ⟨chainId, (s.control.chains chainId).session, id⟩ })
  | .orphan orphan label =>
      if orphan ∈ s.control.orphans then
        (finalizerStep orphan.kind orphan.id orphan.pc label).map fun step =>
          (step.1, { s.control with
            orphans := s.control.orphans.erase orphan ++ [{ orphan with pc := step.2 }] })
      else none
  | .subscriber label =>
      (subscriberStep s.table s.control.subscriber label).map fun step =>
        (step.1, { s.control with subscriber := step.2 })
  | .admission row =>
      if row.withdrawalStatus = .pending ∨ row.withdrawalStatus = .invalid then
        some (.insert row, s.control)
      else none
  | .setDistributed id => some (.setDistributed id, s.control)
  | .setSubmitted id => some (.setSubmitted id, s.control)
  | .restart sessions =>
      some (.keep, ⟨fun chainId => ⟨.idle, sessions chainId⟩, [], .idle, s.control.signed⟩)

def step (kinds : GoString → Option SessionKind) (s : State) (label : Label) : Option State :=
  (move kinds s label).map fun m => ⟨m.1.apply s.table, m.2⟩

def machine (kinds : GoString → Option SessionKind) : Machine State Label where
  init s := s.table = Table.empty ∧ (∀ chainId, (s.control.chains chainId).pc = .idle) ∧
    s.control.orphans = [] ∧ s.control.subscriber = .idle ∧ s.control.signed = []
  step := step kinds

end TssSvc.Party
