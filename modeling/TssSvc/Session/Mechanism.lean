import TssSvc.Bridge.Fetcher

/-!
# The consensus mechanism of a signing session

`internal/tss/session/signing/consensus.go`.  The withdrawal constructor is a parameter: what it
forms for a deposit and whether it accepts the proposed data for one.
-/

set_option autoImplicit false

namespace TssSvc.Session

open TssSvc.Db TssSvc.Bridge

/-- `withdrawal.Constructor[T]` with the identifier the data of type `T` names. -/
structure Constructor (T : Type) where
  depositIdentifier : T → DepositIdentifier
  formSigningData : Deposit → Result T
  isValid : T → Deposit → Result Bool

variable {T : Type}

def formProposalData (constructor : Constructor T) (chainId : GoString) (faults : Table.Faults)
    (t : Table) : Result (Option T) :=
  if faults.get then .err ((GoError.new "query failed").wrap (str "failed to get deposit"))
  else
    match t.nextPending chainId with
    | none => .ok none
    | some unsignedDeposit => do
        let data ← (constructor.formSigningData unsignedDeposit).wrap "failed to form proposal data"
        return some data

/-- The insertion of a fetched deposit; that the row exists already is not an error. -/
def saveFetched (faults : Table.Faults) (t : Table) (fetched : Deposit) : Result Deposit × Table :=
  let unsignedDeposit := { fetched with distributed := true }
  match t.queryInsert faults unsignedDeposit with
  | .ok inserted => (.ok unsignedDeposit, inserted)
  | .error .alreadySubmitted => (.ok unsignedDeposit, t)
  | .error .other =>
      (.err ((GoError.new "query failed").wrap (str "failed to save fetched deposit")), t)

/-- The deposit the proposal names: the row, or what the party fetches and inserts itself. -/
def lookupDeposit (clients : Repository) (core : Core) (faults : Table.Faults) (t : Table)
    (id : DepositIdentifier) : Result Deposit × Table :=
  match t.queryGet faults id with
  | .error _ => (.err ((GoError.new "query failed").wrap (str "failed to get deposit")), t)
  | .ok (some row) => (.ok row, t)
  | .ok none =>
      match (fetchDeposit clients core id).wrap "failed to fetch deposit" with
      | .err e => (.err e, t)
      | .panic reason => (.panic reason, t)
      | .ok fetched => saveFetched faults t fetched

def acceptDeposit (constructor : Constructor T) (data : T) (unsignedDeposit : Deposit) :
    Result Unit := do
  Outcome.check (unsignedDeposit.withdrawalStatus = .pending)
    (.new "deposit is not in pending status")
  let isValid ← (constructor.isValid data unsignedDeposit).wrap "failed to validate proposal data"
  Outcome.check isValid (.new "proposal data is invalid")

def verifyProposedData (constructor : Constructor T) (clients : Repository) (core : Core)
    (faults : Table.Faults) (t : Table) (data : T) : Result Unit × Table :=
  let found := lookupDeposit clients core faults t (constructor.depositIdentifier data)
  (found.1 >>= acceptDeposit constructor data, found.2)

end TssSvc.Session
