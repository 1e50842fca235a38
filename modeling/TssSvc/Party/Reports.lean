import TssSvc.Bridge.Admission
import TssSvc.Party.Final

/-!
# What the API reports about a deposit

`CheckWithdrawal` (`internal/api/grpc/check_withdrawal.go`), the websocket `CheckWithdrawalWs`
(`internal/api/http/api_ws.go`) and their helpers in `internal/api/common`, beside the writers of
the table.

No writer deletes a row or touches the columns the deposit was inserted with, so what has been
reported about a transfer stays true.
-/

set_option autoImplicit false

namespace TssSvc.Party

open TssSvc.Db TssSvc.Bridge

/-! ## Columns that are written once -/

/-- The row without the columns an update can set. -/
def fixedColumns (row : Deposit) : Deposit :=
  { row with
    withdrawalStatus := .unspecified
    withdrawalTxHash := none
    signature := none
    txData := none
    submitted := false
    distributed := false }

/-- The rows of `t` are in `t'`, with the columns they were inserted with. -/
def Keeps (t t' : Table) : Prop :=
  ∀ id row, t.get id = some row →
    ∃ row', t'.get id = some row' ∧ fixedColumns row' = fixedColumns row

theorem Keeps.refl (t : Table) : Keeps t t := fun _ row h => ⟨row, h, rfl⟩

theorem Keeps.trans {t mid t' : Table} (first : Keeps t mid) (second : Keeps mid t') :
    Keeps t t' := by
  intro id row hrow
  obtain ⟨between, hbetween, hfixed⟩ := first id row hrow
  obtain ⟨row', hrow', hfixed'⟩ := second id between hbetween
  exact ⟨row', hrow', hfixed'.trans hfixed⟩

theorem keeps_update (t : Table) (target : DepositIdentifier) {f : Deposit → Deposit}
    (same : ∀ row, (f row).identifier = row.identifier)
    (fixed : ∀ row, fixedColumns (f row) = fixedColumns row) :
    Keeps t (t.update target f same) := by
  intro id row hrow
  rw [Table.get_update]
  split
  · exact ⟨f row, by rw [hrow, Option.map_some], fixed row⟩
  · exact ⟨row, hrow, rfl⟩

theorem keeps_inserted (t : Table) (row : Deposit) : Keeps t (inserted t (t.insertRow row)) :=
  fun _ found h => ⟨found, get_inserted h, rfl⟩

theorem TableOp.keeps (op : TableOp) (t : Table) : Keeps t (op.apply t) := by
  cases op with
  | keep => exact .refl t
  | insert row => exact keeps_inserted t _
  | insertProcessed row => exact keeps_inserted t _
  | markProcessing id => refine keeps_update t id ?_ ?_ <;> exact fun _ => rfl
  | markFailed id => refine keeps_update t id ?_ ?_ <;> exact fun _ => rfl
  | updateProcessed data => refine keeps_update t data.identifier ?_ ?_ <;> exact fun _ => rfl
  | updateDetails id known hash signature => refine keeps_update t id ?_ ?_ <;> exact fun _ => rfl
  | setDistributed id => refine keeps_update t id ?_ ?_ <;> exact fun _ => rfl
  | setSubmitted id => refine keeps_update t id ?_ ?_ <;> exact fun _ => rfl

variable {kinds : GoString → Option SessionKind} {allowed : State → Label → Prop}

theorem step_keeps {s s' : State} {label : Label} (taken : step kinds s label = some s') :
    Keeps s.table s'.table := by
  obtain ⟨op, -, htable⟩ := step_eq_some taken
  rw [htable]
  exact op.keeps s.table

theorem leads_keeps {s s' : State} (run : (machine kinds).Leads allowed s s') :
    Keeps s.table s'.table := by
  induction run with
  | refl => exact .refl _
  | step before meets taken ih => exact ih.trans (step_keeps taken)

/-! ## The response -/

structure TransferData where
  sender : Option GoString
  receiver : GoString
  depositAmount : GoString
  withdrawalAmount : GoString
  commissionAmount : GoString
  depositAsset : GoString
  withdrawalAsset : GoString
  isWrappedAsset : Bool
  depositBlock : Int
  signature : Option GoString
  deriving DecidableEq, Repr

structure WithdrawalIdentifier where
  txHash : Option GoString
  chainId : GoString
  deriving DecidableEq, Repr

structure CheckWithdrawalResponse where
  depositIdentifier : DepositIdentifier
  withdrawalStatus : WithdrawalStatus
  transferData : Option TransferData := none
  withdrawalIdentifier : Option WithdrawalIdentifier := none
  deriving DecidableEq, Repr

def toStatusResponse (d : Deposit) : CheckWithdrawalResponse :=
  let result : CheckWithdrawalResponse :=
    { depositIdentifier := d.identifier, withdrawalStatus := d.withdrawalStatus }
  if d.withdrawalStatus = .invalid then result
  else { result with
    transferData := some {
      sender := d.depositor
      receiver := d.receiver
      depositAmount := d.depositAmount
      withdrawalAmount := d.withdrawalAmount
      commissionAmount := d.commissionAmount
      depositAsset := d.depositToken
      withdrawalAsset := d.withdrawalToken
      isWrappedAsset := d.isWrappedToken
      depositBlock := d.depositBlock
      signature := d.signature }
    withdrawalIdentifier := some { txHash := d.withdrawalTxHash, chainId := d.withdrawalChainId } }

@[simp] theorem depositIdentifier_toStatusResponse (d : Deposit) :
    (toStatusResponse d).depositIdentifier = d.identifier := by
  rw [toStatusResponse]
  split <;> rfl

@[simp] theorem withdrawalStatus_toStatusResponse (d : Deposit) :
    (toStatusResponse d).withdrawalStatus = d.withdrawalStatus := by
  rw [toStatusResponse]
  split <;> rfl

/-- The gRPC code `NotFound` is met here only. -/
inductive CheckError where
  | api (status : ApiStatus)
  | notFound
  deriving DecidableEq, Repr

def findDeposit (faults : Table.Faults) (t : Table) (id : DepositIdentifier) :
    Outcome CheckError Deposit := do
  Outcome.check (faults.get = false) (.api errInternal)
  Outcome.ofOption .notFound (t.get id)

def checkWithdrawal (clients : Repository) (faults : Table.Faults) (t : Table)
    (identifier : Option DepositIdentifier) : Outcome CheckError CheckWithdrawalResponse := do
  let id ← (validateIdentifier identifier).mapErr .api
  let client ← (clients.client id.chainId).mapErr fun _ => .api (errInvalid "unsupported chain")
  (validateChainIdentifier id client).mapErr .api
  let deposit ← findDeposit faults t id
  return toStatusResponse deposit

/-- The value `strconv.ParseInt` returns beside an error nobody looks at: zero for what is no
number, the nearest `int64` for a number out of range. -/
def parseIntOrNearest (s : GoString) : Int :=
  match Decimal.setString s with
  | none => 0
  | some n => max (-9223372036854775808) (min n 9223372036854775807)

def identifierFromParams (chainId txHash txNonce : GoString) :
    Outcome ApiStatus DepositIdentifier :=
  (validateIdentifier (some ⟨txHash, parseIntOrNearest txNonce, chainId⟩)).mapErr fun e =>
    { e with message := str "invalid data: " ++ e.message }

/-- `CheckWithdrawalWs` up to the upgrade of the connection: the deposit it watches. -/
def checkWithdrawalWs (clients : Repository) (faults : Table.Faults) (t : Table)
    (chainId txHash txNonce : GoString) : Outcome CheckError Deposit := do
  let id ← (identifierFromParams chainId txHash txNonce).mapErr .api
  let client ← (clients.client id.chainId).mapErr fun e => .api ⟨.invalidArgument, e.text⟩
  (validateChainIdentifier id client).mapErr .api
  findDeposit faults t id

theorem findDeposit_eq_ok {faults : Table.Faults} {t : Table} {id : DepositIdentifier}
    {deposit : Deposit} : findDeposit faults t id = .ok deposit ↔
      faults.get = false ∧ t.get id = some deposit := by
  simp [findDeposit]

theorem checkWithdrawal_eq_ok {clients : Repository} {faults : Table.Faults} {t : Table}
    {identifier : Option DepositIdentifier} {response : CheckWithdrawalResponse} :
    checkWithdrawal clients faults t identifier = .ok response ↔
      ∃ id client deposit, validateIdentifier identifier = .ok id ∧
        clients.client id.chainId = .ok client ∧ validateChainIdentifier id client = .ok () ∧
        faults.get = false ∧ t.get id = some deposit ∧ response = toStatusResponse deposit := by
  simp only [checkWithdrawal, Outcome.bind_eq_ok, Outcome.mapErr_eq_ok, findDeposit_eq_ok,
    Outcome.pure_eq_ok, Outcome.ok.injEq]
  constructor
  · rintro ⟨id, hid, client, hclient, ⟨⟩, hchain, deposit, ⟨hfaults, hget⟩, rfl⟩
    exact ⟨id, client, deposit, hid, hclient, hchain, hfaults, hget, rfl⟩
  · rintro ⟨id, client, deposit, hid, hclient, hchain, hfaults, hget, rfl⟩
    exact ⟨id, hid, client, hclient, (), hchain, deposit, ⟨hfaults, hget⟩, rfl⟩

theorem validateIdentifier_some {id id' : DepositIdentifier}
    (h : validateIdentifier (some id) = .ok id') : id' = id := by
  simp only [validateIdentifier, Outcome.bind_eq_ok, Outcome.pure_eq_ok, Outcome.ok.injEq] at h
  obtain ⟨-, -, rfl⟩ := h
  rfl

theorem checkWithdrawal_finds {clients : Repository} {faults : Table.Faults} {t : Table}
    {id : DepositIdentifier} {row : Deposit} (present : t.get id = some row) :
    checkWithdrawal clients faults t (some id) ≠ .err .notFound := by
  have hfind : (findDeposit faults t id).Avoids (· = .notFound) := by
    simp [findDeposit, Outcome.avoids_bind, present]
  have havoids : (checkWithdrawal clients faults t (some id)).Avoids (· = .notFound) := by
    simp only [checkWithdrawal, Outcome.avoids_bind, Outcome.avoids_mapErr, Outcome.pure_eq_ok,
      Outcome.avoids_ok, implies_true, and_true, Outcome.mapErr_eq_ok]
    refine ⟨?_, fun id' hid => ⟨?_, fun client _ => ⟨?_, fun _ _ => ?_⟩⟩⟩
    · exact fun _ _ h => by cases h
    · exact fun _ _ h => by cases h
    · exact fun _ _ h => by cases h
    · rw [validateIdentifier_some hid]
      exact hfind
  exact fun h => havoids _ h rfl

/-- The websocket watches a row of the table. -/
theorem get_of_checkWithdrawalWs {clients : Repository} {faults : Table.Faults} {t : Table}
    {chainId txHash txNonce : GoString} {deposit : Deposit}
    (h : checkWithdrawalWs clients faults t chainId txHash txNonce = .ok deposit) :
    t.get deposit.identifier = some deposit := by
  simp only [checkWithdrawalWs, Outcome.bind_eq_ok, findDeposit_eq_ok] at h
  obtain ⟨id, -, client, -, ⟨⟩, -, -, hget⟩ := h
  rw [(Table.get_eq_some_iff.mp hget).2]
  exact hget

/-- What a response says about the transfer, without the signature. -/
def CheckWithdrawalResponse.transfer (r : CheckWithdrawalResponse) :
    Option (TransferData × GoString) :=
  r.transferData.bind fun data =>
    r.withdrawalIdentifier.map fun w => ({ data with signature := none }, w.chainId)

theorem transfer_toStatusResponse {row row' : Deposit}
    (fixed : fixedColumns row' = fixedColumns row) :
    ∀ told ∈ (toStatusResponse row).transfer, ∀ told' ∈ (toStatusResponse row').transfer,
      told' = told := by
  have hshown : ∀ d : Deposit, ∀ told ∈ (toStatusResponse d).transfer,
      told = (⟨(fixedColumns d).depositor, (fixedColumns d).receiver,
        (fixedColumns d).depositAmount, (fixedColumns d).withdrawalAmount,
        (fixedColumns d).commissionAmount, (fixedColumns d).depositToken,
        (fixedColumns d).withdrawalToken, (fixedColumns d).isWrappedToken,
        (fixedColumns d).depositBlock, none⟩, (fixedColumns d).withdrawalChainId) := by
    intro d told htold
    simp only [toStatusResponse] at htold
    split at htold
    · cases htold
    · cases htold
      rfl
  intro told htold told' htold'
  rw [hshown row told htold, hshown row' told' htold', fixed]

/-- A deposit that was reported once is reported again at any later time, by whatever clients the
service then has, and with the same transfer whenever both responses carry one. -/
theorem reports_agree (kinds : GoString → Option SessionKind) {s s' : State}
    (run : (machine kinds).Leads (fun _ _ => True) s s') {clients clients' : Repository}
    {faults faults' : Table.Faults} {id : DepositIdentifier} {response : CheckWithdrawalResponse}
    (reported : checkWithdrawal clients faults s.table (some id) = .ok response) :
    checkWithdrawal clients' faults' s'.table (some id) ≠ .err .notFound ∧
      ∀ response', checkWithdrawal clients' faults' s'.table (some id) = .ok response' →
        response'.depositIdentifier = response.depositIdentifier ∧
          ∀ told ∈ response.transfer, ∀ told' ∈ response'.transfer, told' = told := by
  obtain ⟨id₁, client, row, hid, hclient, hchain, hfaults, hrow, rfl⟩ :=
    checkWithdrawal_eq_ok.mp reported
  cases validateIdentifier_some hid
  obtain ⟨row', hrow', hfixed⟩ := leads_keeps run id row hrow
  refine ⟨checkWithdrawal_finds hrow', ?_⟩
  intro response' hresponse
  obtain ⟨id₂, client', found, hid', -, -, -, hfound, rfl⟩ := checkWithdrawal_eq_ok.mp hresponse
  cases validateIdentifier_some hid'
  rw [hrow'] at hfound
  cases hfound
  refine ⟨?_, transfer_toStatusResponse hfixed⟩
  rw [depositIdentifier_toStatusResponse, depositIdentifier_toStatusResponse,
    (Table.get_eq_some_iff.mp hrow).2, (Table.get_eq_some_iff.mp hrow').2]

def sampleClients : Repository where
  clients := [{
    type := .evm
    chainId := str "1"
    getDepositData := fun _ => .err Sentinel.errDepositNotFound.toErr
    addressValid := fun _ => true
    transactionHashValid := fun _ => true
    withdrawalAmountValid := fun _ => true
    identifies := by
      intro id data h
      cases h }]

theorem reports_agree_processed :
    ∃ s s', (machine utxoOnly).Leads (fun _ _ => True) s s' ∧
      checkWithdrawal sampleClients {} s.table (some sampleId) =
        .ok (toStatusResponse samplePending) ∧
      ∃ response', checkWithdrawal sampleClients {} s'.table (some sampleId) = .ok response' ∧
        response'.withdrawalStatus = .processed ∧ response'.depositIdentifier = sampleId ∧
        response'.transfer = (toStatusResponse samplePending).transfer := by
  have hrun : (((machine utxoOnly).exec (fun _ _ => True) fresh
      (leaderProcesses.take 1)).bind fun s =>
      ((machine utxoOnly).exec (fun _ _ => True) s leaderProcesses.tail).map fun s' =>
        (checkWithdrawal sampleClients {} s.table (some sampleId),
          checkWithdrawal sampleClients {} s'.table (some sampleId))) =
      some (.ok (toStatusResponse samplePending), .ok (toStatusResponse { samplePending with
        withdrawalStatus := .processed
        withdrawalTxHash := some (str "0xbb")
        txData := some (str "tx") })) := by
    decide +kernel
  obtain ⟨s, hs, hrest⟩ := Option.bind_eq_some_iff.mp hrun
  obtain ⟨s', hs', hseen⟩ := Option.map_eq_some_iff.mp hrest
  obtain ⟨hfirst, hsecond⟩ := Prod.mk.inj hseen
  have hleads : (machine utxoOnly).Leads (fun _ _ => True) s s' := Machine.Leads.refl.exec hs'
  obtain ⟨-, hlater⟩ := reports_agree utxoOnly hleads hfirst
  obtain ⟨hid, htransfer⟩ := hlater _ hsecond
  refine ⟨s, s', hleads, hfirst, _, hsecond, rfl, hid, ?_⟩
  exact congrArg some (htransfer _ rfl _ rfl)

end TssSvc.Party
