import TssSvc.Bridge.Events
import TssSvc.Lib.Machine
import TssSvc.Session.Mechanism

/-!
# Admission of deposits

The three ways a deposit enters the table of a party: the API's `SubmitWithdrawal`
(`internal/api/grpc/submit_withdrawal.go`), a deposit-distribution message
(`internal/tss/session/distributor`) and `VerifyProposedData`.

All three look the identifier up as the bytes it came in, so aliases of one event are different
deposits to them.
-/

set_option autoImplicit false

namespace TssSvc.Bridge

open TssSvc.Db TssSvc.Session

/-! ## The API -/

inductive Code where
  | invalidArgument
  | alreadyExists
  | failedPrecondition
  | internal
  deriving DecidableEq, Repr

structure ApiStatus where
  code : Code
  message : GoString
  deriving DecidableEq, Repr

def errInternal : ApiStatus := ⟨.internal, str "internal error"⟩

def errTxAlreadySubmitted : ApiStatus := ⟨.alreadyExists, str "transaction already submitted"⟩

def errDepositPending : ApiStatus := ⟨.failedPrecondition, str "deposit pending"⟩

def errInvalid (message : String) : ApiStatus := ⟨.invalidArgument, str message⟩

def errExists : ApiStatus := ⟨.alreadyExists, str "deposit already exists"⟩

/-- The fields of an identifier that are not valid, in the order the library prints them. -/
def identifierErrors (id : DepositIdentifier) : List String :=
  (if id.chainId = [] then ["chain_id: cannot be blank"] else []) ++
    (if id.txHash = [] then ["tx_hash: cannot be blank"] else []) ++
    if id.txNonce < 0 then ["tx_nonce: must be no less than 0"] else []

def validateIdentifier : Option DepositIdentifier → Outcome ApiStatus DepositIdentifier
  | none => .err (errInvalid "identifier is required")
  | some id => do
      Outcome.check (identifierErrors id = [])
        (errInvalid ("; ".intercalate (identifierErrors id) ++ "."))
      return id

def validateChainIdentifier (id : DepositIdentifier) (client : Client) :
    Outcome ApiStatus Unit := do
  Outcome.check (client.transactionHashValid id.txHash) (errInvalid "invalid transaction hash")
  Outcome.check (¬(client.type = .zano ∧ id.txNonce ≠ 0))
    (errInvalid "event index must be 0 for Zano chain")

inductive Decision where
  | insert (deposit : Deposit)
  | markInvalid (id : DepositIdentifier)

def invalidRow (id : DepositIdentifier) : Deposit :=
  { identifier := id, withdrawalStatus := .invalid }

def submitDecision (clients : Repository) (core : Core) (faults : Table.Faults) (t : Table)
    (identifier : Option DepositIdentifier) : Outcome ApiStatus Decision := do
  let id ← validateIdentifier identifier
  let client ← (clients.client id.chainId).mapErr fun _ => errInvalid "unsupported chain"
  validateChainIdentifier id client
  let existing ← (core.getDepositInfo id).mapErr fun _ => errInternal
  Outcome.check (existing = false) errExists
  Outcome.check (faults.get = false) errInternal
  Outcome.check ((t.get id).isNone) errExists
  match fetchDeposit clients core id with
  | .ok deposit => .ok (.insert deposit)
  | .panic reason => .panic reason
  | .err e =>
      if isPendingDepositError e then .err errDepositPending
      else if isInvalidDepositError e || coreIsInvalidDepositError e then .ok (.markInvalid id)
      else .err errInternal

/-- A call's effect: the table after it, the INVALID rows a goroutine has yet to insert, and the
response. -/
structure Submitted where
  table : Table
  deferred : List DepositIdentifier
  response : Outcome ApiStatus Unit

def submitWithdrawal (clients : Repository) (core : Core) (faults : Table.Faults) (t : Table)
    (identifier : Option DepositIdentifier) : Submitted :=
  match submitDecision clients core faults t identifier with
  | .ok (.insert deposit) =>
      match t.queryInsert faults deposit with
      | .ok inserted => ⟨inserted, [], .ok ()⟩
      | .error .alreadySubmitted => ⟨t, [], .err errTxAlreadySubmitted⟩
      | .error .other => ⟨t, [], .err errInternal⟩
  | .ok (.markInvalid id) => ⟨t, [id], .err (errInvalid "invalid deposit")⟩
  | .err e => ⟨t, [], .err e⟩
  | .panic reason => ⟨t, [], .panic reason⟩

/-! ## Distribution -/

def distributedRow (clients : Repository) (core : Core) (id : DepositIdentifier) : Option Deposit :=
  match fetchDeposit clients core id with
  | .ok deposit => some { deposit with distributed := true }
  | .panic _ => none
  | .err e =>
      if isPendingDepositError e then none
      else if isInvalidDepositError e || coreIsInvalidDepositError e then some (invalidRow id)
      else none

/-- One turn of `runAcceptor`; errors are logged and the loop goes on. -/
def acceptDistributed (clients : Repository) (core : Core) (faults : Table.Faults) (t : Table)
    (id : DepositIdentifier) : Table :=
  match t.queryGet faults id with
  | .error _ => t
  | .ok (some _) => t
  | .ok none =>
      match distributedRow clients core id with
      | none => t
      | some row =>
          match t.queryInsert faults row with
          | .ok inserted => inserted
          | .error _ => t

/-! ## What an entry point can do -/

/-- The table is left as it is, or gains one row: an INVALID one or a fetched deposit. -/
inductive Admits (clients : Repository) (core : Core) (id : DepositIdentifier) (t : Table) :
    Table → Prop
  | unchanged : Admits clients core id t t
  | invalid {t' : Table} (inserted : t.insert (invalidRow id) = .ok t') :
      Admits clients core id t t'
  | fetched {t' : Table} {deposit : Deposit} (distributed : Bool)
      (found : fetchDeposit clients core id = .ok deposit)
      (inserted : t.insert { deposit with distributed := distributed } = .ok t') :
      Admits clients core id t t'

section Entry

variable {clients : Repository} {core : Core} {faults : Table.Faults} {t : Table}

theorem submitDecision_ok {identifier : Option DepositIdentifier} {decision : Decision}
    (h : submitDecision clients core faults t identifier = .ok decision) :
    ∃ id, identifier = some id ∧
      ((∃ deposit, decision = .insert deposit ∧ fetchDeposit clients core id = .ok deposit) ∨
        decision = .markInvalid id) := by
  cases identifier with
  | none => simp [submitDecision, validateIdentifier] at h
  | some id =>
      simp only [submitDecision, validateIdentifier, Outcome.bind_eq_ok, Outcome.pure_eq_ok,
        Outcome.ok.injEq] at h
      obtain ⟨_, ⟨_, _, rfl⟩, _, _, _, _, _, _, _, _, _, _, _, _, hlast⟩ := h
      refine ⟨id, rfl, ?_⟩
      split at hlast
      · rename_i deposit hfetch
        cases hlast
        exact .inl ⟨deposit, rfl, hfetch⟩
      · cases hlast
      · split at hlast
        · cases hlast
        · split at hlast
          · cases hlast
            exact .inr rfl
          · cases hlast

theorem submitWithdrawal_admits (id : DepositIdentifier) :
    Admits clients core id t (submitWithdrawal clients core faults t (some id)).table := by
  simp only [submitWithdrawal]
  split
  · rename_i deposit hdecision
    obtain ⟨id', hid, hcase⟩ := submitDecision_ok hdecision
    cases hid
    rcases hcase with ⟨_, hinsert, hfetch⟩ | hmark
    · cases hinsert
      split
      · rename_i inserted hinserted
        exact .fetched deposit.distributed hfetch (Table.queryInsert_ok hinserted)
      · exact .unchanged
      · exact .unchanged
    · cases hmark
  · exact .unchanged
  · exact .unchanged
  · exact .unchanged

theorem acceptDistributed_admits (id : DepositIdentifier) :
    Admits clients core id t (acceptDistributed clients core faults t id) := by
  simp only [acceptDistributed]
  split
  · exact .unchanged
  · exact .unchanged
  · split
    · exact .unchanged
    · rename_i row hrow
      split
      · rename_i inserted hinserted
        have hinsert := Table.queryInsert_ok hinserted
        simp only [distributedRow] at hrow
        split at hrow
        · rename_i deposit hfetch
          cases hrow
          exact .fetched true hfetch hinsert
        · cases hrow
        · split at hrow
          · cases hrow
          · split at hrow
            · cases hrow
              exact .invalid hinsert
            · cases hrow
      · exact .unchanged

theorem lookupDeposit_admits (id : DepositIdentifier) :
    Admits clients core id t (lookupDeposit clients core faults t id).2 := by
  simp only [lookupDeposit]
  split
  · exact .unchanged
  · exact .unchanged
  · split
    · exact .unchanged
    · exact .unchanged
    · rename_i fetched hfetch
      simp only [saveFetched]
      split
      · rename_i inserted hinserted
        exact .fetched true (Outcome.wrap_eq_ok.mp hfetch) (Table.queryInsert_ok hinserted)
      · exact .unchanged
      · exact .unchanged

end Entry

end TssSvc.Bridge
