import TssSvc.Party.Final

/-!
# What a query does to a row

Every query of the writers either rewrites the row of one identifier or adds one row.
-/

set_option autoImplicit false

namespace TssSvc.Party

open TssSvc.Db

namespace TableOp

/-- The row an update rewrites. -/
def target : TableOp → Option DepositIdentifier
  | markProcessing id | markFailed id | updateDetails id _ _ _ | setDistributed id
  | setSubmitted id => some id
  | updateProcessed data => some data.identifier
  | keep | insert _ | insertProcessed _ => none

def rewrite (row : Deposit) : TableOp → Deposit
  | markProcessing _ => { row with withdrawalStatus := .processing }
  | markFailed _ => { row with withdrawalStatus := .failed }
  | updateProcessed data => { row with
      withdrawalTxHash := data.txHash <|> row.withdrawalTxHash
      signature := data.signature <|> row.signature
      txData := data.txData <|> row.txData
      withdrawalStatus := .processed }
  | updateDetails _ _ hash signature => { row with
      withdrawalTxHash := hash, signature := signature, submitted := true,
      withdrawalStatus := .processed }
  | setDistributed _ => { row with distributed := true }
  | setSubmitted _ => { row with submitted := true }
  | keep | insert _ | insertProcessed _ => row

def onRow (op : TableOp) (row : Deposit) : Deposit :=
  if op.target = some row.identifier then op.rewrite row else row

/-- The row an insert adds, unless there is one with its identifier. -/
def newRow : TableOp → Option Deposit
  | insert row => some { row with
      withdrawalTxHash := none, signature := none, txData := none, submitted := false }
  | insertProcessed row => some { row with
      receiver := toLower row.receiver
      depositToken := toLower row.depositToken
      withdrawalToken := toLower row.withdrawalToken
      withdrawalStatus := .processed
      submitted := true
      distributed := true }
  | keep | markProcessing _ | markFailed _ | updateProcessed _ | updateDetails _ _ _ _
  | setDistributed _ | setSubmitted _ => none

@[simp] theorem identifier_rewrite (op : TableOp) (row : Deposit) :
    (op.rewrite row).identifier = row.identifier := by
  cases op <;> rfl

@[simp] theorem identifier_onRow (op : TableOp) (row : Deposit) :
    (op.onRow row).identifier = row.identifier := by
  rw [onRow]
  split
  · exact op.identifier_rewrite row
  · rfl

end TableOp

section Tables

variable {t : Table} {id : DepositIdentifier} {row : Deposit}

theorem get_inserted_of_none (absent : t.get id = none) (row : Deposit) :
    (inserted t (t.insertRow row)).get id = (some row).filter fun row => row.identifier = id := by
  cases hinsert : t.insertRow row with
  | error e =>
      have hid : row.identifier ≠ id := by
        rintro rfl
        have hnew := Table.get_eq_none_iff.mp absent
        simp [Table.insertRow, hnew] at hinsert
      simp [inserted, absent, hid, Option.filter]
  | ok next =>
      rw [inserted, Table.get_insertRow hinsert, absent]
      simp [Option.filter]

theorem get_update_of_some {target : DepositIdentifier} {f : Deposit → Deposit}
    (same : ∀ row, (f row).identifier = row.identifier) (present : t.get id = some row) :
    (t.update target f same).get id =
      some (if some target = some row.identifier then f row else row) := by
  obtain ⟨-, rfl⟩ := Table.get_eq_some_iff.mp present
  rw [Table.get_update, present]
  simp only [Option.map_some, Option.some.injEq, eq_comm (a := target)]
  split <;> rfl

/-- One lookup after one query. -/
theorem TableOp.get_apply_of_some (op : TableOp) (present : t.get id = some row) :
    (op.apply t).get id = some (op.onRow row) := by
  cases op with
  | keep => exact present
  | insert new => exact get_inserted present
  | insertProcessed new => exact get_inserted present
  | markProcessing target =>
      refine get_update_of_some ?_ present
      exact fun _ => rfl
  | markFailed target =>
      refine get_update_of_some ?_ present
      exact fun _ => rfl
  | updateProcessed data =>
      refine get_update_of_some ?_ present
      exact fun _ => rfl
  | updateDetails target known hash signature =>
      refine get_update_of_some ?_ present
      exact fun _ => rfl
  | setDistributed target =>
      refine get_update_of_some ?_ present
      exact fun _ => rfl
  | setSubmitted target =>
      refine get_update_of_some ?_ present
      exact fun _ => rfl

theorem get_update_of_none {target : DepositIdentifier} {f : Deposit → Deposit}
    (same : ∀ row, (f row).identifier = row.identifier) (absent : t.get id = none) :
    (t.update target f same).get id = none := by
  rw [Table.get_update, absent]
  split <;> rfl

theorem TableOp.get_apply_of_none (op : TableOp) (absent : t.get id = none) :
    (op.apply t).get id = op.newRow.filter fun row => row.identifier = id := by
  cases op with
  | keep => exact absent
  | insert new => exact get_inserted_of_none absent _
  | insertProcessed new => exact get_inserted_of_none absent _
  | markProcessing target =>
      refine get_update_of_none ?_ absent
      exact fun _ => rfl
  | markFailed target =>
      refine get_update_of_none ?_ absent
      exact fun _ => rfl
  | updateProcessed data =>
      refine get_update_of_none ?_ absent
      exact fun _ => rfl
  | updateDetails target known hash signature =>
      refine get_update_of_none ?_ absent
      exact fun _ => rfl
  | setDistributed target =>
      refine get_update_of_none ?_ absent
      exact fun _ => rfl
  | setSubmitted target =>
      refine get_update_of_none ?_ absent
      exact fun _ => rfl

/-- A row after a query is one from before, rewritten, or the added one. -/
theorem TableOp.get_apply_eq_some {op : TableOp} (h : (op.apply t).get id = some row) :
    (∃ before, t.get id = some before ∧ row = op.onRow before) ∨
      t.get id = none ∧ op.newRow = some row := by
  cases hbefore : t.get id with
  | some before =>
      rw [op.get_apply_of_some hbefore] at h
      exact .inl ⟨before, rfl, (Option.some.inj h).symm⟩
  | none =>
      rw [op.get_apply_of_none hbefore] at h
      exact .inr ⟨rfl, (Option.filter_eq_some_iff.mp h).1⟩

/-- The row is there and has a flag set. -/
def Flagged (flag : Deposit → Bool) (t : Table) (id : DepositIdentifier) : Prop :=
  ∃ row, t.get id = some row ∧ flag row = true

variable {flag : Deposit → Bool} {op : TableOp}

theorem Flagged.apply (h : Flagged flag t id)
    (keeps : ∀ row, flag row = true → flag (op.onRow row) = true) :
    Flagged flag (op.apply t) id := by
  obtain ⟨row, hrow, hflag⟩ := h
  exact ⟨_, op.get_apply_of_some hrow, keeps row hflag⟩

/-- A flag that is set after a query was set before, or the query has set it. -/
theorem flagged_apply (sets : DepositIdentifier → Prop)
    (onRow : ∀ row, flag (op.onRow row) = true → flag row = true ∨ sets row.identifier)
    (newRow : ∀ row, op.newRow = some row → flag row = true → sets row.identifier)
    (h : Flagged flag (op.apply t) id) : Flagged flag t id ∨ sets id := by
  obtain ⟨row, hrow, hflag⟩ := h
  have hid := (Table.get_eq_some_iff.mp hrow).2
  rcases TableOp.get_apply_eq_some hrow with ⟨before, hbefore, rfl⟩ | ⟨-, hnew⟩
  · rw [TableOp.identifier_onRow] at hid
    rw [← hid]
    apply (onRow before hflag).imp_left
    intro hflag
    exact ⟨before, by rw [hid, hbefore], hflag⟩
  · rw [← hid]
    exact .inr (newRow row hnew hflag)

end Tables

/-! ## The queries of the sessions -/

/-- The queries of a session on rows that are there. -/
inductive SessionUpdate : TableOp → Prop
  | keep : SessionUpdate .keep
  | markProcessing (id : DepositIdentifier) : SessionUpdate (.markProcessing id)
  | markFailed (id : DepositIdentifier) : SessionUpdate (.markFailed id)
  | updateProcessed (data : ProcessedDepositData) : SessionUpdate (.updateProcessed data)

/-- A session updates rows, or inserts a proposed deposit it has fetched. -/
inductive SessionQuery : SessionLabel → TableOp → Prop
  | update (label : SessionLabel) {op : TableOp} (updates : SessionUpdate op) :
      SessionQuery label op
  | insert {deposit : Deposit} (isValid : Bool) (pending : deposit.withdrawalStatus = .pending) :
      SessionQuery (.verifyInsert (some deposit) false isValid)
        (.insert { deposit with distributed := true })

theorem finalizerStep_query {kind : SessionKind} {id : DepositIdentifier} {pc : FinalizerPc}
    {label : FinalizerLabel} {op : TableOp} {next : FinalizerPc}
    (h : finalizerStep kind id pc label = some (op, next)) : SessionUpdate op := by
  unfold finalizerStep at h
  split at h
  · cases h
    exact .keep
  · split at h
    · cases h
      exact .updateProcessed _
    · cases h
  · cases h
    exact .keep
  · cases h

theorem signedRound_query {kind : SessionKind} {cs : ChainState} {id : DepositIdentifier}
    {result : SignResult} {m : SessionMove} (h : signedRound kind cs id result = some m) :
    m.op = .keep := by
  cases result with
  | signature =>
      cases h
      rfl
  | nextRound =>
      simp only [signedRound, Option.ite_none_right_eq_some, Option.some.injEq] at h
      obtain ⟨-, rfl⟩ := h
      rfl
  | cancelled =>
      simp only [signedRound, Option.ite_none_right_eq_some, Option.some.injEq] at h
      obtain ⟨-, rfl⟩ := h
      rfl
  | failed =>
      cases h
      rfl

theorem SessionQuery.keeps (label : SessionLabel) : SessionQuery label .keep := .update label .keep

theorem sessionMove_query {kind : SessionKind} {chainId : GoString} {t : Table} {cs : ChainState}
    {label : SessionLabel} {m : SessionMove} (h : sessionMove kind chainId t cs label = some m) :
    SessionQuery label m.op := by
  cases label with
  | skip =>
      simp only [sessionMove, Option.ite_none_right_eq_some, Option.some.injEq] at h
      obtain ⟨-, rfl⟩ := h
      exact .keeps _
  | formProposal =>
      simp only [sessionMove] at h
      split at h <;> cases h
      exact .keeps _
  | verifyGet id isValid =>
      simp only [sessionMove] at h
      split at h <;> cases h
      · exact .keeps _
      · exact .keeps _
  | verifyInsert fetched faulted isValid =>
      simp only [sessionMove] at h
      split at h
      · cases h
        exact .keeps _
      · split at h
        · rename_i hdeposit
          cases faulted with
          | false =>
              cases h
              exact .insert isValid hdeposit.2
          | true =>
              cases h
              exact .keeps _
        · cases h
      · cases h
  | consensus outcome =>
      simp only [sessionMove] at h
      split at h <;> cases h
      · exact .keeps _
      · exact .keeps _
  | markProcessing ok =>
      simp only [sessionMove] at h
      split at h
      · split at h <;> cases h
        · exact .update _ (.markProcessing _)
        · exact .keeps _
      · cases h
  | runSignParty =>
      simp only [sessionMove] at h
      split at h <;> cases h
      exact .keeps _
  | signResult result =>
      simp only [sessionMove] at h
      split at h
      · rw [signedRound_query h]
        exact .keeps _
      · cases h
  | distribution ok =>
      simp only [sessionMove] at h
      split at h <;> cases h
      exact .keeps _
  | finalizer label =>
      simp only [sessionMove] at h
      split at h
      · obtain ⟨⟨op, next⟩, hstep, rfl⟩ := Option.map_eq_some_iff.mp h
        exact .update _ (finalizerStep_query hstep)
      · cases h
  | finalizeResult =>
      simp only [sessionMove] at h
      split at h <;> cases h
      exact .keeps _
  | finalizeTimeout =>
      simp only [sessionMove] at h
      split at h <;> cases h
      exact .keeps _
  | markFailed ok =>
      simp only [sessionMove] at h
      split at h <;> cases h
      dsimp only
      split
      · exact .update _ (.markFailed _)
      · exact .keeps _

end TssSvc.Party
