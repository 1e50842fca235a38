import TssSvc.Bridge.Events
import TssSvc.Bridge.UtxoSoundness
import TssSvc.Bridge.ZanoSoundness

/-!
# Which deposits a session accepts

A proposer selects the pending deposits of its session's chain.  An acceptor looks the proposed
deposit up by its identifier alone, and none of the five constructors compares the deposit's
withdrawal chain with the session's.  A session is bound to its chain for an identifier exactly
when the deposit behind it is destined to the chain or cannot be accepted by the session at all.
-/

set_option autoImplicit false

namespace TssSvc.Session

open TssSvc.Db TssSvc.Bridge

inductive SigningSession where
  | evm (client : Evm.Client)
  | ton (client : Ton.Client)
  | solana (client : Solana.Client)
  | zano (client : Zano.Client)
  | utxo (constructor : Utxo.WithdrawalConstructor)

namespace SigningSession

def chainId : SigningSession → GoString
  | evm client => client.id
  | ton client => client.id
  | solana client => client.id
  | zano client => client.id
  | utxo constructor => constructor.client.id

def Data : SigningSession → Type
  | evm _ | ton _ | solana _ => Option HashProposalData
  | zano _ => Option ZanoProposalData
  | utxo _ => Option BitcoinProposalData

def constructor : (session : SigningSession) → Constructor session.Data
  | evm client => evmConstructor client
  | ton client => tonConstructor client
  | solana client => solanaConstructor client
  | zano client => zanoConstructor client
  | utxo c => utxoConstructor c

/-- There is signing data of this session for the deposit, whatever chain it is destined to: the
hash can be formed, the daemon decodes some transaction to outputs that pay the deposit out, or the
wallet has outputs to pay it from. -/
def Signs (deposit : Deposit) : SigningSession → Prop
  | evm client => ∃ hash, client.getSignHash deposit = .ok hash
  | ton client => ∃ hash, client.getSignHash deposit = .ok hash
  | solana client => ∃ hash, client.getSignHash deposit = .ok hash
  | zano client => ∃ tx details sigData, client.decryptTxDetails tx = .ok details ∧
      Zano.Emits deposit details.decodedOutputs ∧
      Zano.formSigningData details.verifiedTxId = .ok sigData
  | utxo c => ∃ coins feeRate expected, c.Payable deposit coins feeRate expected

section Constructors

variable (deposit : Deposit) (id : DepositIdentifier)

theorem hash_signs (getSignHash : Deposit → Result Bytes) :
    (∃ hash, getSignHash deposit = .ok hash) ↔
      ∃ data, (hashConstructor getSignHash).depositIdentifier data = id ∧
        (hashConstructor getSignHash).isValid data deposit = .ok true := by
  constructor
  · rintro ⟨hash, hhash⟩
    exact ⟨some ⟨some id, hash⟩, rfl, hashIsValid_eq_ok.mpr ⟨_, rfl, hhash⟩⟩
  · rintro ⟨data, -, hvalid⟩
    obtain ⟨proposal, -, hhash⟩ := hashIsValid_eq_ok.mp hvalid
    exact ⟨_, hhash⟩

theorem zano_signs (client : Zano.Client) :
    (zano client).Signs deposit ↔
      ∃ data, (zanoConstructor client).depositIdentifier data = id ∧
        (zanoConstructor client).isValid data deposit = .ok true := by
  constructor
  · rintro ⟨tx, details, sigData, hdetails, emits, hsig⟩
    exact ⟨some ⟨some id, tx.outputsAddresses, tx.unsignedTx, tx.finalizedTx, tx.txSecretKey, [],
      sigData⟩, rfl, Zano.zanoIsValid_eq_true_iff.mpr ⟨details, hdetails, emits, hsig⟩⟩
  · rintro ⟨data, -, hvalid⟩
    cases data with
    | none => cases hvalid
    | some proposal =>
        obtain ⟨details, hdetails, emits, hsig⟩ := Zano.zanoIsValid_eq_true_iff.mp hvalid
        exact ⟨signingTx proposal, details, proposal.sigData, hdetails, emits, hsig⟩

theorem utxo_signs (c : Utxo.WithdrawalConstructor) :
    (utxo c).Signs deposit ↔
      ∃ data, (utxoConstructor c).depositIdentifier data = id ∧
        (utxoConstructor c).isValid data deposit = .ok true := by
  constructor
  · rintro ⟨coins, feeRate, expected, payable⟩
    obtain ⟨sigHashes, hhashes⟩ := payable.hashed
    exact ⟨some ⟨some id, c.serialize expected.tx, feeRate, sigHashes⟩, rfl,
      Utxo.WithdrawalConstructor.isValid_eq_true_iff.mpr
        ⟨coins, expected, payable, rfl, hhashes⟩⟩
  · rintro ⟨data, -, hvalid⟩
    cases data with
    | none => cases hvalid
    | some proposal =>
        obtain ⟨coins, expected, payable, -⟩ :=
          Utxo.WithdrawalConstructor.isValid_eq_true_iff.mp hvalid
        exact ⟨coins, proposal.feeRate, expected, payable⟩

/-- A session can sign a deposit exactly when its constructor accepts some data for it, under any
identifier. -/
theorem signs_iff (session : SigningSession) :
    session.Signs deposit ↔
      ∃ data, session.constructor.depositIdentifier data = id ∧
        session.constructor.isValid data deposit = .ok true := by
  cases session with
  | evm client => exact hash_signs deposit id client.getSignHash
  | ton client => exact hash_signs deposit id client.getSignHash
  | solana client => exact hash_signs deposit id client.getSignHash
  | zano client => exact zano_signs deposit id client
  | utxo c => exact utxo_signs deposit id c

end Constructors

end SigningSession

/-! ## The lookup -/

/-- The deposit behind an identifier: its row, or what the party fetches and inserts. -/
def Candidate (clients : Repository) (core : Core) (faults : Table.Faults) (t : Table)
    (id : DepositIdentifier) (deposit : Deposit) : Prop :=
  faults.get = false ∧
    (t.get id = some deposit ∨
      t.get id = none ∧ faults.insert = false ∧
        ∃ fetched, fetchDeposit clients core id = .ok fetched ∧
          deposit = { fetched with distributed := true })

variable {clients : Repository} {core : Core} {faults : Table.Faults} {t : Table}
  {id : DepositIdentifier} {deposit : Deposit}

theorem saveFetched_ok {fetched : Deposit} (hnew : t.get fetched.identifier = none) :
    (saveFetched faults t fetched).1 = .ok deposit ↔
      faults.insert = false ∧ deposit = { fetched with distributed := true } := by
  have hnot : fetched.identifier ∉ t.identifiers := Table.get_eq_none_iff.mp hnew
  cases hfault : faults.insert with
  | true => simp [saveFetched, Table.queryInsert, hfault]
  | false =>
      simp [saveFetched, Table.queryInsert, hfault, Table.insert, Table.insertRow, hnot, eq_comm]

theorem saveFetched_row {fetched : Deposit} (hnew : t.get fetched.identifier = none)
    (h : (saveFetched faults t fetched).1 = .ok deposit) :
    ∃ row, (saveFetched faults t fetched).2.get fetched.identifier = some row ∧
      row.withdrawalStatus = deposit.withdrawalStatus ∧
      row.withdrawalChainId = deposit.withdrawalChainId := by
  obtain ⟨hfault, hdeposit⟩ := (saveFetched_ok hnew).mp h
  have hnot : fetched.identifier ∉ t.identifiers := Table.get_eq_none_iff.mp hnew
  simp only [saveFetched]
  cases hinsert : t.queryInsert faults { fetched with distributed := true } with
  | ok inserted =>
      have hget := Table.get_insertRow (Table.queryInsert_ok hinsert) fetched.identifier
      rw [if_pos rfl] at hget
      exact ⟨_, hget, by rw [hdeposit], by rw [hdeposit]⟩
  | error e => simp [Table.queryInsert, hfault, Table.insert, Table.insertRow, hnot] at hinsert

/-- A lookup ends with a deposit exactly when it is the candidate. -/
theorem lookupDeposit_ok :
    (lookupDeposit clients core faults t id).1 = .ok deposit ↔
      Candidate clients core faults t id deposit := by
  simp only [lookupDeposit, Candidate, Table.queryGet]
  cases hfault : faults.get with
  | true => simp
  | false =>
      cases hget : t.get id with
      | some row => simp
      | none =>
          cases hfetch : fetchDeposit clients core id with
          | err e => simp [Outcome.wrap, Outcome.mapErr]
          | panic reason => simp [Outcome.wrap, Outcome.mapErr]
          | ok fetched =>
              obtain ⟨f⟩ := fetchDeposit_ok hfetch
              have hnew : t.get fetched.identifier = none := by rw [f.identifier_eq, hget]
              simpa [Outcome.wrap, Outcome.mapErr] using saveFetched_ok hnew

/-- After a lookup the table has a row of the identifier with the deposit's status and
withdrawal chain. -/
theorem lookupDeposit_row (h : (lookupDeposit clients core faults t id).1 = .ok deposit) :
    ∃ row, (lookupDeposit clients core faults t id).2.get id = some row ∧
      row.withdrawalStatus = deposit.withdrawalStatus ∧
      row.withdrawalChainId = deposit.withdrawalChainId := by
  obtain ⟨hfault, hrow | ⟨hnone, -, fetched, hfetch, -⟩⟩ := lookupDeposit_ok.mp h
  · refine ⟨deposit, ?_, rfl, rfl⟩
    simp [lookupDeposit, Table.queryGet, hfault, hrow]
  · obtain ⟨f⟩ := fetchDeposit_ok hfetch
    have hid := f.identifier_eq
    have hlookup : lookupDeposit clients core faults t id = saveFetched faults t fetched := by
      simp [lookupDeposit, Table.queryGet, hfault, hnone, hfetch, Outcome.wrap, Outcome.mapErr]
    rw [hlookup] at h ⊢
    rw [← hid]
    exact saveFetched_row (by rw [hid, hnone]) h

theorem verifyProposedData_ok {T : Type} {constructor : Constructor T} {data : T} :
    (verifyProposedData constructor clients core faults t data).1 = .ok () ↔
      ∃ deposit, Candidate clients core faults t (constructor.depositIdentifier data) deposit ∧
        deposit.withdrawalStatus = .pending ∧ constructor.isValid data deposit = .ok true := by
  simp only [verifyProposedData, acceptDeposit, Outcome.bind_eq_ok, lookupDeposit_ok,
    Outcome.check_eq_ok, Outcome.wrap_eq_ok]
  constructor
  · rintro ⟨deposit, hcandidate, _, hpending, valid, hvalid, rfl⟩
    exact ⟨deposit, hcandidate, hpending, hvalid⟩
  · rintro ⟨deposit, hcandidate, hpending, hvalid⟩
    exact ⟨deposit, hcandidate, (), hpending, true, hvalid, rfl⟩

theorem Candidate.unique {other : Deposit} (h : Candidate clients core faults t id deposit)
    (h' : Candidate clients core faults t id other) : deposit = other := by
  rw [← lookupDeposit_ok] at h h'
  rw [h] at h'
  exact Outcome.ok.inj h'

/-- The data a session accepts under an identifier is bound to the session's chain exactly when
the deposit behind the identifier is destined to it, not pending or one the session cannot
sign. -/
theorem accepted_bound_iff (session : SigningSession) (clients : Repository) (core : Core)
    (faults : Table.Faults) (t : Table) (id : DepositIdentifier) :
    (∀ data, session.constructor.depositIdentifier data = id →
      (verifyProposedData session.constructor clients core faults t data).1 = .ok () →
        ∃ row, (verifyProposedData session.constructor clients core faults t data).2.get id =
          some row ∧ row.withdrawalStatus = .pending ∧
            row.withdrawalChainId = session.chainId) ↔
      ∀ deposit, Candidate clients core faults t id deposit →
        deposit.withdrawalStatus = .pending → session.Signs deposit →
          deposit.withdrawalChainId = session.chainId := by
  constructor
  · intro hbound deposit hcandidate hpending hsigns
    obtain ⟨data, hid, hvalid⟩ := (SigningSession.signs_iff deposit id session).mp hsigns
    have haccepted : (verifyProposedData session.constructor clients core faults t data).1 =
        .ok () :=
      verifyProposedData_ok.mpr ⟨deposit, by rwa [hid], hpending, hvalid⟩
    obtain ⟨row, hrow, -, hchain⟩ := hbound data hid haccepted
    obtain ⟨row', hrow', -, hchain'⟩ := lookupDeposit_row (lookupDeposit_ok.mpr hcandidate)
    simp only [verifyProposedData, hid, hrow', Option.some.injEq] at hrow
    rw [← hchain', hrow, hchain]
  · intro hchains data hid haccepted
    obtain ⟨deposit, hcandidate, hpending, hvalid⟩ := verifyProposedData_ok.mp haccepted
    rw [hid] at hcandidate
    have hsigns := (SigningSession.signs_iff deposit id session).mpr ⟨data, hid, hvalid⟩
    obtain ⟨row, hrow, hstatus, hchain⟩ := lookupDeposit_row (lookupDeposit_ok.mpr hcandidate)
    refine ⟨row, ?_, hstatus.trans hpending,
      hchain.trans (hchains deposit hcandidate hpending hsigns)⟩
    simpa only [verifyProposedData, hid] using hrow

/-! ## A pending deposit and the session of chain `1` -/

def sampleSession : SigningSession :=
  .evm (evmDepositing (str "1") ⟨str "1", sampleReceiver, 5, [], 0⟩)

def sampleIdentifier : DepositIdentifier := ⟨hexPrefix ++ List.replicate 64 0x61, 0, str "1"⟩

def pendingFor (chainId : GoString) : Deposit where
  identifier := sampleIdentifier
  receiver := sampleReceiver
  withdrawalToken := defaultNativeTokenAddress
  withdrawalStatus := .pending
  withdrawalChainId := chainId
  withdrawalAmount := str "5"
  distributed := true

def tableOf (row : Deposit) : Table := ⟨[row], List.nodup_singleton _⟩

def proposalOf (deposit : Deposit) : Option HashProposalData :=
  match hashSigningData (evmDepositing (str "1") ⟨str "1", sampleReceiver, 5, [], 0⟩).getSignHash
    deposit with
  | .ok data => data
  | _ => none

/-- The session of chain `1` accepts a deposit destined to chain `2`. -/
theorem foreign_deposit_accepted :
    sampleSession.chainId = str "1" ∧
      (verifyProposedData sampleSession.constructor ⟨[]⟩ (coreTrading sampleToken) {}
        (tableOf (pendingFor (str "2"))) (proposalOf (pendingFor (str "2")))).1 = .ok () ∧
      sampleSession.constructor.depositIdentifier (proposalOf (pendingFor (str "2"))) =
        sampleIdentifier ∧
      ((tableOf (pendingFor (str "2"))).get sampleIdentifier).map Deposit.withdrawalChainId =
        some (str "2") := by
  refine ⟨rfl, by decide +kernel, by decide +kernel, by decide +kernel⟩

/-- For a deposit destined to the session's own chain the condition holds and the proposal is
accepted. -/
theorem accepted_bound_iff_home :
    (verifyProposedData sampleSession.constructor ⟨[]⟩ (coreTrading sampleToken) {}
        (tableOf (pendingFor (str "1"))) (proposalOf (pendingFor (str "1")))).1 = .ok () ∧
      ∃ row, (verifyProposedData sampleSession.constructor ⟨[]⟩ (coreTrading sampleToken) {}
        (tableOf (pendingFor (str "1"))) (proposalOf (pendingFor (str "1")))).2.get
          sampleIdentifier = some row ∧ row.withdrawalStatus = .pending ∧
            row.withdrawalChainId = sampleSession.chainId := by
  have haccepted : (verifyProposedData sampleSession.constructor ⟨[]⟩ (coreTrading sampleToken) {}
      (tableOf (pendingFor (str "1"))) (proposalOf (pendingFor (str "1")))).1 = .ok () := by
    decide +kernel
  refine ⟨haccepted, (accepted_bound_iff sampleSession ⟨[]⟩ (coreTrading sampleToken) {}
    (tableOf (pendingFor (str "1"))) sampleIdentifier).mpr ?_ _ (by decide +kernel) haccepted⟩
  intro deposit hcandidate _ _
  have hrow : Candidate ⟨[]⟩ (coreTrading sampleToken) {} (tableOf (pendingFor (str "1")))
      sampleIdentifier (pendingFor (str "1")) := ⟨rfl, .inl (by decide +kernel)⟩
  rw [hcandidate.unique hrow]
  rfl

end TssSvc.Session
