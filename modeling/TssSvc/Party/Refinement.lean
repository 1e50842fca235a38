import TssSvc.Bridge.Admission
import TssSvc.Party.Writers
import TssSvc.Session.ProposalBinding

/-!
# The calls of a party as runs of its writers

The writers of the table run one query at a time.  Here the calls as the source has them, each
executed with nothing in between, are runs of the writers: the API and the distributor insert as
`admission` does, and the two sides of the consensus reach `proposed`.
-/

set_option autoImplicit false

namespace TssSvc.Party

open TssSvc.Db TssSvc.Bridge TssSvc.Session

variable {kinds : GoString → Option SessionKind} {clients : Repository} {core : Core}
  {faults : Table.Faults} {t : Table} {control : Control}

abbrev Runs (kinds : GoString → Option SessionKind) (s s' : State) : Prop :=
  (machine kinds).Leads (fun _ _ => True) s s'

theorem Runs.step {s mid s' : State} (label : Label) (before : Runs kinds s mid)
    (taken : step kinds mid label = some s') : Runs kinds s s' :=
  Machine.Leads.step before trivial taken

/-! ## The API and the distributor -/

theorem insert_step {row : Deposit} {t' : Table} (h : t.insert row = .ok t')
    (hstatus : row.withdrawalStatus = .pending ∨ row.withdrawalStatus = .invalid) :
    step kinds ⟨t, control⟩ (.admission row) = some ⟨t', control⟩ := by
  simp [Party.step, move, hstatus, TableOp.apply, h, inserted]

theorem admits_runs {id : DepositIdentifier} {t' : Table} (h : Admits clients core id t t') :
    Runs kinds ⟨t, control⟩ ⟨t', control⟩ := by
  cases h with
  | unchanged => exact .refl
  | invalid hinserted => exact Runs.step _ .refl (insert_step hinserted (Or.inr rfl))
  | fetched distributed found hinserted =>
      obtain ⟨f⟩ := fetchDeposit_ok found
      exact Runs.step _ .refl (insert_step hinserted (Or.inl f.pending))

theorem submitWithdrawal_runs (id : DepositIdentifier) :
    Runs kinds ⟨t, control⟩ ⟨(submitWithdrawal clients core faults t (some id)).table, control⟩ :=
  admits_runs (submitWithdrawal_admits id)

theorem acceptDistributed_runs (id : DepositIdentifier) :
    Runs kinds ⟨t, control⟩ ⟨acceptDistributed clients core faults t id, control⟩ :=
  admits_runs (acceptDistributed_admits id)

/-! ## The two sides of the consensus -/

/-- The session of the chain moves to another place and does nothing else. -/
def Control.moved (control : Control) (chainId : GoString) (pc : Pc) : Control :=
  { control with
    chains := Function.update control.chains chainId ((control.chains chainId).goto pc) }

theorem session_step {kind : SessionKind} {chainId : GoString} {label : SessionLabel}
    (op : TableOp) {pc : Pc} (hkind : kinds chainId = some kind)
    (h : sessionMove kind chainId t (control.chains chainId) label =
      some { op := op, next := (control.chains chainId).goto pc }) :
    step kinds ⟨t, control⟩ (.session chainId label) =
      some ⟨op.apply t, control.moved chainId pc⟩ := by
  simp [Party.step, move, hkind, h, Control.moved]

section Identifier

variable {deposit : Deposit}

theorem hashSigningData_identifier {getSignHash : Deposit → Result Bytes}
    {data : Option HashProposalData} (h : hashSigningData getSignHash deposit = .ok data) :
    identifierOf (data.bind HashProposalData.depositId) = deposit.identifier := by
  simp only [hashSigningData, Outcome.bind_eq_ok, Outcome.pure_eq_ok, Outcome.ok.injEq] at h
  obtain ⟨hash, -, rfl⟩ := h
  rfl

theorem zanoSigningData_identifier {client : Zano.Client} {data : Option ZanoProposalData}
    (h : zanoSigningData client deposit = .ok data) :
    identifierOf (data.bind ZanoProposalData.depositId) = deposit.identifier := by
  simp only [zanoSigningData, Outcome.bind_eq_ok, Outcome.pure_eq_ok, Outcome.ok.injEq] at h
  obtain ⟨tx, -, sigData, -, rfl⟩ := h
  rfl

theorem utxoSigningData_identifier {c : Utxo.WithdrawalConstructor}
    {data : Option BitcoinProposalData} (h : c.formSigningData deposit = .ok data) :
    identifierOf (data.bind BitcoinProposalData.depositId) = deposit.identifier := by
  simp only [Utxo.WithdrawalConstructor.formSigningData, Outcome.bind_eq_ok, Outcome.pure_eq_ok,
    Outcome.ok.injEq] at h
  obtain ⟨output, -, unspent, -, built, -, sigHashes, -, rfl⟩ := h
  rfl

/-- Every constructor forms data that names the deposit it is formed for. -/
theorem formSigningData_identifier (session : SigningSession) {data : session.Data}
    (h : session.constructor.formSigningData deposit = .ok data) :
    session.constructor.depositIdentifier data = deposit.identifier := by
  cases session with
  | evm client => exact hashSigningData_identifier h
  | ton client => exact hashSigningData_identifier h
  | solana client => exact hashSigningData_identifier h
  | zano client => exact zanoSigningData_identifier h
  | utxo c => exact utxoSigningData_identifier h

end Identifier

section Consensus

variable (session : SigningSession) {kind : SessionKind} {data : session.Data}

/-- A proposer that forms data stands at `proposed` for the deposit the data names. -/
theorem formProposalData_runs (hkind : kinds session.chainId = some kind)
    (idle : (control.chains session.chainId).pc = .idle)
    (h : formProposalData session.constructor session.chainId faults t = .ok (some data)) :
    Runs kinds ⟨t, control⟩ ⟨t, control.moved session.chainId
      (.proposed (session.constructor.depositIdentifier data))⟩ := by
  simp only [formProposalData] at h
  split at h
  · cases h
  · cases hpending : t.nextPending session.chainId with
    | none =>
        rw [hpending] at h
        cases h
    | some row =>
        simp only [hpending, Outcome.bind_eq_ok, Outcome.wrap_eq_ok, Outcome.pure_eq_ok,
          Outcome.ok.injEq, Option.some.injEq] at h
        obtain ⟨formed, hformed, rfl⟩ := h
        rw [formSigningData_identifier session hformed]
        apply Runs.step (.session session.chainId .formProposal) .refl
        apply session_step .keep hkind
        simp [sessionMove, idle, hpending]

theorem saveFetched_table {fetched : Deposit} (hinsert : faults.insert = false) :
    (saveFetched faults t fetched).2 =
      (TableOp.insert { fetched with distributed := true }).apply t := by
  simp only [saveFetched, Table.queryInsert, hinsert, Bool.false_eq_true, if_false, TableOp.apply]
  split
  · rename_i hok
    rw [hok]
    rfl
  · rename_i herror
    rw [herror]
    rfl
  · rename_i herror
    rw [herror]
    rfl

/-- An acceptor that accepts data stands at `proposed` for the deposit the data names, with the
table the call leaves. -/
theorem verifyProposedData_runs (hkind : kinds session.chainId = some kind)
    (idle : (control.chains session.chainId).pc = .idle)
    (h : (verifyProposedData session.constructor clients core faults t data).1 = .ok ()) :
    ∃ control', (control'.chains session.chainId).pc =
        .proposed (session.constructor.depositIdentifier data) ∧
      Runs kinds ⟨t, control⟩
        ⟨(verifyProposedData session.constructor clients core faults t data).2, control'⟩ := by
  obtain ⟨deposit, ⟨hget, hcase⟩, hpending, hvalid⟩ := verifyProposedData_ok.mp h
  simp only [verifyProposedData]
  generalize session.constructor.depositIdentifier data = id at hcase
  rcases hcase with hrow | ⟨hnone, hinsert, fetched, hfetch, rfl⟩
  · refine ⟨control.moved session.chainId (.proposed id),
      by simp [Control.moved, ChainState.goto], ?_⟩
    have htable : (lookupDeposit clients core faults t id).2 = t := by
      simp [lookupDeposit, Table.queryGet, hget, hrow]
    rw [htable]
    apply Runs.step (.session session.chainId (.verifyGet id true)) .refl
    apply session_step .keep hkind
    simp [sessionMove, idle, hrow, hpending]
  · obtain ⟨f⟩ := fetchDeposit_ok hfetch
    have htable : (lookupDeposit clients core faults t id).2 =
        (TableOp.insert { fetched with distributed := true }).apply t := by
      rw [← saveFetched_table hinsert]
      simp [lookupDeposit, Table.queryGet, hget, hnone, hfetch, Outcome.wrap, Outcome.mapErr]
    rw [htable]
    have hfirst : Runs kinds ⟨t, control⟩ ⟨t, control.moved session.chainId (.verifying id)⟩ := by
      apply Runs.step (.session session.chainId (.verifyGet id true)) .refl
      apply session_step .keep hkind
      simp [sessionMove, idle, hnone]
    refine ⟨(control.moved session.chainId (.verifying id)).moved session.chainId (.proposed id),
      by simp [Control.moved, ChainState.goto], ?_⟩
    apply Runs.step (.session session.chainId (.verifyInsert (some fetched) false true)) hfirst
    apply session_step _ hkind
    simp [sessionMove, Control.moved, ChainState.goto, f.identifier_eq, f.pending]

end Consensus

end TssSvc.Party
