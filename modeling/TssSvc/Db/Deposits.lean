import Mathlib.Data.List.Nodup
import TssSvc.Lib.Decimal

/-!
# The deposits table

`internal/db/deposits.go` and its queries in `internal/db/postgres/deposits.go`.  The rows are
kept in the order of their ids.  The unique constraint on the identifier columns is a field of
the table: a table with two rows of one identifier cannot be built.

All updates are unconditional: they write whatever the row holds at that time.
-/

set_option autoImplicit false

namespace TssSvc.Db

inductive WithdrawalStatus where
  | unspecified
  | pending
  | processing
  | processed
  | failed
  | invalid
  deriving DecidableEq, Repr

def finalWithdrawalStatuses : List WithdrawalStatus := [.processed, .invalid, .failed]

/-- `TxNonce` is an `int64`. -/
structure DepositIdentifier where
  txHash : GoString
  txNonce : Int
  chainId : GoString
  deriving DecidableEq, Repr

/-- `db.Deposit`; the fields default to Go's zero values. -/
structure Deposit where
  identifier : DepositIdentifier
  depositor : Option GoString := none
  depositAmount : GoString := []
  depositToken : GoString := []
  receiver : GoString := []
  withdrawalToken : GoString := []
  depositBlock : Int := 0
  commissionAmount : GoString := []
  referralId : Nat := 0
  withdrawalStatus : WithdrawalStatus := .unspecified
  withdrawalTxHash : Option GoString := none
  withdrawalChainId : GoString := []
  withdrawalAmount : GoString := []
  isWrappedToken : Bool := false
  signature : Option GoString := none
  txData : Option GoString := none
  submitted : Bool := false
  distributed : Bool := false
  deriving DecidableEq, Repr

/-- What a chain client reads off a deposit; `DepositAmount` is a `*big.Int`. -/
structure DepositData where
  identifier : DepositIdentifier
  block : Int
  sourceAddress : GoString
  depositAmount : Int
  tokenAddress : GoString
  referralId : Nat
  destinationAddress : GoString
  destinationChainId : GoString
  deriving DecidableEq, Repr

def DepositData.toNewDeposit (d : DepositData) (withdrawalAmount commissionAmount : Int)
    (dstTokenAddress : GoString) (isWrappedToken : Bool) : Deposit where
  identifier := d.identifier
  depositor := some d.sourceAddress
  depositAmount := Decimal.formatInt d.depositAmount
  depositToken := d.tokenAddress
  receiver := d.destinationAddress
  withdrawalToken := dstTokenAddress
  depositBlock := d.block
  withdrawalStatus := .pending
  withdrawalChainId := d.destinationChainId
  withdrawalAmount := Decimal.formatInt withdrawalAmount
  isWrappedToken := isWrappedToken
  commissionAmount := Decimal.formatInt commissionAmount
  referralId := d.referralId

structure Table where
  rows : List Deposit
  unique : (rows.map Deposit.identifier).Nodup

inductive DbError where
  | alreadySubmitted
  | other
  deriving DecidableEq, Repr

structure ProcessedDepositData where
  identifier : DepositIdentifier
  signature : Option GoString
  txHash : Option GoString
  txData : Option GoString
  deriving DecidableEq, Repr

namespace Table

def empty : Table := ⟨[], List.nodup_nil⟩

def identifiers (t : Table) : List DepositIdentifier := t.rows.map Deposit.identifier

def get (t : Table) (id : DepositIdentifier) : Option Deposit :=
  t.rows.find? fun row => decide (row.identifier = id)

def statusOf (t : Table) (id : DepositIdentifier) : Option WithdrawalStatus :=
  (t.get id).map Deposit.withdrawalStatus

/-- The unique constraint refuses the row or it is appended. -/
def insertRow (t : Table) (row : Deposit) : Except DbError Table :=
  if h : row.identifier ∈ t.identifiers then .error .alreadySubmitted
  else .ok ⟨t.rows ++ [row], by
    rw [List.map_append, List.map_singleton]
    exact List.nodup_append.mpr ⟨t.unique, List.nodup_singleton _, by
      intro a ha b hb hab
      rw [List.mem_singleton] at hb
      exact h (hb ▸ hab ▸ ha)⟩⟩

/-- `Insert`: the withdrawal columns stay NULL and `submitted` is false. -/
def insert (t : Table) (deposit : Deposit) : Except DbError Table :=
  t.insertRow { deposit with
    withdrawalTxHash := none, signature := none, txData := none, submitted := false }

def insertProcessedDeposit (t : Table) (deposit : Deposit) : Except DbError Table :=
  t.insertRow { deposit with
    receiver := toLower deposit.receiver
    depositToken := toLower deposit.depositToken
    withdrawalToken := toLower deposit.withdrawalToken
    withdrawalStatus := .processed
    submitted := true
    distributed := true }

def update (t : Table) (id : DepositIdentifier) (f : Deposit → Deposit)
    (keeps : ∀ row, (f row).identifier = row.identifier) : Table :=
  ⟨t.rows.map fun row => if row.identifier = id then f row else row, by
    have hids : (t.rows.map fun row => if row.identifier = id then f row else row).map
        Deposit.identifier = t.rows.map Deposit.identifier := by
      rw [List.map_map]
      apply List.map_congr_left
      intro row _
      simp only [Function.comp_apply]
      split
      · exact keeps row
      · rfl
    rw [hids]
    exact t.unique⟩

def updateStatus (t : Table) (id : DepositIdentifier) (status : WithdrawalStatus) : Table :=
  t.update id (fun row => { row with withdrawalStatus := status }) fun _ => rfl

def updateWithdrawalDetails (t : Table) (id : DepositIdentifier)
    (hash signature : Option GoString) : Table :=
  t.update id (fun row => { row with
    withdrawalTxHash := hash, signature := signature, submitted := true,
    withdrawalStatus := .processed }) fun _ => rfl

def updateProcessed (t : Table) (data : ProcessedDepositData) : Table :=
  t.update data.identifier (fun row => { row with
    withdrawalTxHash := data.txHash <|> row.withdrawalTxHash
    signature := data.signature <|> row.signature
    txData := data.txData <|> row.txData
    withdrawalStatus := .processed }) fun _ => rfl

def updateDistributedStatus (t : Table) (id : DepositIdentifier) (distributed : Bool) : Table :=
  t.update id (fun row => { row with distributed := distributed }) fun _ => rfl

def updateSubmittedStatus (t : Table) (id : DepositIdentifier) (submitted : Bool) : Table :=
  t.update id (fun row => { row with submitted := submitted }) fun _ => rfl

/-- The proposer's `depositSelector`: the oldest distributed pending deposit for the chain. -/
def nextPending (t : Table) (withdrawalChainId : GoString) : Option Deposit :=
  t.rows.find? fun row => decide (row.withdrawalChainId = withdrawalChainId ∧
    row.withdrawalStatus = .pending ∧ row.distributed = true)

/-- Which queries of a call fail for a reason outside the table. -/
structure Faults where
  get : Bool := false
  insert : Bool := false
  deriving DecidableEq, Repr

def queryGet (t : Table) (faults : Faults) (id : DepositIdentifier) :
    Except DbError (Option Deposit) :=
  if faults.get then .error .other else .ok (t.get id)

def queryInsert (t : Table) (faults : Faults) (deposit : Deposit) : Except DbError Table :=
  if faults.insert then .error .other else t.insert deposit

theorem queryInsert_ok {t t' : Table} {faults : Faults} {deposit : Deposit}
    (h : t.queryInsert faults deposit = .ok t') : t.insert deposit = .ok t' := by
  simp only [queryInsert] at h
  split at h
  · cases h
  · exact h

/-! ## Lookups -/

theorem get_eq_some_iff {t : Table} {id : DepositIdentifier} {row : Deposit} :
    t.get id = some row ↔ row ∈ t.rows ∧ row.identifier = id := by
  constructor
  · intro h
    have hid := List.find?_some h
    exact ⟨List.mem_of_find?_eq_some h, of_decide_eq_true hid⟩
  · rintro ⟨hmem, hid⟩
    cases hfound : t.get id with
    | none =>
        have hnone := List.find?_eq_none.mp hfound row hmem
        simp [hid] at hnone
    | some other =>
        have hother := List.mem_of_find?_eq_some hfound
        have hotherId := List.find?_some hfound
        rw [List.inj_on_of_nodup_map t.unique hother hmem
          ((of_decide_eq_true hotherId).trans hid.symm)]

theorem get_eq_none_iff {t : Table} {id : DepositIdentifier} :
    t.get id = none ↔ id ∉ t.identifiers := by
  constructor
  · intro hnone hmem
    obtain ⟨row, hrow, hid⟩ := List.mem_map.mp hmem
    rw [get_eq_some_iff.mpr ⟨hrow, hid⟩] at hnone
    cases hnone
  · intro hnot
    cases hfound : t.get id with
    | none => rfl
    | some row =>
        obtain ⟨hrow, hid⟩ := get_eq_some_iff.mp hfound
        exact absurd (hid ▸ List.mem_map_of_mem hrow) hnot

theorem insertRow_eq_ok_iff {t t' : Table} {row : Deposit} :
    t.insertRow row = .ok t' ↔ row.identifier ∉ t.identifiers ∧ t'.rows = t.rows ++ [row] := by
  cases t' with
  | mk rows unique =>
      simp only [insertRow]
      split
      · rename_i h
        constructor
        · intro heq
          cases heq
        · rintro ⟨hnot, -⟩
          exact absurd h hnot
      · rename_i h
        simp [h, eq_comm]

theorem get_insertRow {t t' : Table} {row : Deposit} (h : t.insertRow row = .ok t')
    (id : DepositIdentifier) : t'.get id = if row.identifier = id then some row else t.get id := by
  obtain ⟨hnew, hrows⟩ := insertRow_eq_ok_iff.mp h
  split
  · rename_i hid
    apply get_eq_some_iff.mpr
    exact ⟨by rw [hrows]; simp, hid⟩
  · rename_i hid
    simp only [get, hrows, List.find?_append]
    simp [hid]

theorem get_update {t : Table} {target : DepositIdentifier} {f : Deposit → Deposit}
    {keeps : ∀ row, (f row).identifier = row.identifier} (id : DepositIdentifier) :
    (t.update target f keeps).get id = if id = target then (t.get id).map f else t.get id := by
  cases hfound : t.get id with
  | none =>
      have hnot : id ∉ (t.update target f keeps).identifiers := by
        have hids := get_eq_none_iff.mp hfound
        intro hmem
        obtain ⟨row', hrow', hid⟩ := List.mem_map.mp hmem
        obtain ⟨row, hrow, rfl⟩ := List.mem_map.mp hrow'
        apply hids
        apply List.mem_map.mpr
        refine ⟨row, hrow, ?_⟩
        rw [← hid]
        split
        · exact (keeps row).symm
        · rfl
      rw [get_eq_none_iff.mpr hnot]
      simp
  | some row =>
      obtain ⟨hrow, hid⟩ := get_eq_some_iff.mp hfound
      split
      · rename_i htarget
        apply get_eq_some_iff.mpr
        refine ⟨List.mem_map.mpr ⟨row, hrow, if_pos (hid.trans htarget)⟩, ?_⟩
        rw [keeps, hid]
      · rename_i htarget
        apply get_eq_some_iff.mpr
        refine ⟨List.mem_map.mpr ⟨row, hrow, if_neg ?_⟩, hid⟩
        rw [hid]
        exact htarget

section StatusOf

variable {t : Table} {target id : DepositIdentifier} {f : Deposit → Deposit}
  {keeps : ∀ row, (f row).identifier = row.identifier} {status : WithdrawalStatus}

theorem statusOf_update :
    (t.update target f keeps).statusOf id =
      if id = target then (t.get id).map fun row => (f row).withdrawalStatus
      else t.statusOf id := by
  simp only [statusOf, get_update]
  split
  · rw [Option.map_map]
    rfl
  · rfl

theorem statusOf_update_writes {written : WithdrawalStatus}
    (keeps : ∀ row, (f row).identifier = row.identifier) (held : t.statusOf id = some status)
    (writes : ∀ row, (f row).withdrawalStatus = written) :
    (t.update target f keeps).statusOf id = some (if id = target then written else status) := by
  obtain ⟨row, hrow, -⟩ := Option.map_eq_some_iff.mp held
  rw [statusOf_update, held, hrow, Option.map_some, writes]
  split <;> rfl

theorem statusOf_update_keeps (keeps : ∀ row, (f row).identifier = row.identifier)
    (held : t.statusOf id = some status)
    (same : ∀ row, (f row).withdrawalStatus = row.withdrawalStatus) :
    (t.update target f keeps).statusOf id = some status := by
  simp only [statusOf_update, same]
  split
  · exact held
  · exact held

end StatusOf

end Table

end TssSvc.Db
