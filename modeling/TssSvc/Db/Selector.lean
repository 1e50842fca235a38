import TssSvc.Db.Deposits

/-!
# Selectors

`DepositsSelector` (`internal/db/deposits.go`) and the queries that apply it.  Every caller asks
for one row, and gets the matching row with the least id.
-/

set_option autoImplicit false

namespace TssSvc.Db

/-- Without the filter on row ids, which no caller sets. -/
structure DepositsSelector where
  chainId : Option GoString := none
  withdrawalChainId : Option GoString := none
  status : Option WithdrawalStatus := none
  notSubmitted : Bool := false
  distributed : Bool := false
  notDistributed : Bool := false
  deriving DecidableEq, Repr

/-- `applySelector`: each filter that is set is one more conjunct. -/
def DepositsSelector.selects (selector : DepositsSelector) (row : Deposit) : Bool :=
  selector.chainId.all (row.identifier.chainId = ·) &&
    selector.withdrawalChainId.all (row.withdrawalChainId = ·) &&
    selector.status.all (row.withdrawalStatus = ·) &&
    (!selector.notSubmitted || !row.submitted) &&
    (!selector.distributed || row.distributed) &&
    (!selector.notDistributed || !row.distributed)

/-- `GetWithSelector` with `One` set: `ORDER BY id ASC LIMIT 1`. -/
def Table.getWithSelector (t : Table) (selector : DepositsSelector) : Option Deposit :=
  t.rows.find? selector.selects

namespace DepositsSelector

/-- Of the consensus mechanism for the withdrawals to a chain. -/
def proposable (chainId : GoString) : DepositsSelector where
  withdrawalChainId := some chainId
  status := some .pending
  distributed := true

/-- Of `runDistributor`. -/
def undistributed : DepositsSelector where
  status := some .pending
  notDistributed := true

/-- Of `runSubmitter`. -/
def unsubmitted : DepositsSelector where
  status := some .processed
  notSubmitted := true

theorem selects_proposable {chainId : GoString} {row : Deposit} :
    (proposable chainId).selects row = true ↔ row.withdrawalChainId = chainId ∧
      row.withdrawalStatus = .pending ∧ row.distributed = true := by
  simp [proposable, selects, and_assoc]

theorem selects_unsubmitted {row : Deposit} :
    unsubmitted.selects row = true ↔
      row.withdrawalStatus = .processed ∧ row.submitted = false := by
  simp [unsubmitted, selects]

end DepositsSelector

namespace Table

variable {t : Table} {selector : DepositsSelector} {row : Deposit}

theorem getWithSelector_proposable (t : Table) (chainId : GoString) :
    t.getWithSelector (.proposable chainId) = t.nextPending chainId := by
  simp only [getWithSelector, nextPending]
  congr 1
  funext row
  rw [Bool.eq_iff_iff, DepositsSelector.selects_proposable, decide_eq_true_iff]

/-- What is found is in the table under its identifier. -/
theorem get_of_getWithSelector (h : t.getWithSelector selector = some row) :
    t.get row.identifier = some row ∧ selector.selects row = true :=
  ⟨get_eq_some_iff.mpr ⟨List.mem_of_find?_eq_some h, rfl⟩, List.find?_some h⟩

end Table

end TssSvc.Db
