import TssSvc.Bridge.Consolidation
import TssSvc.Bridge.Totality
import TssSvc.Bridge.ZanoOwnership
import TssSvc.Session.Acceptor
import TssSvc.Session.ProposalBinding

/-!
# Which messages an acceptor survives

The two handlers run in a goroutine that recovers from nothing.  `Survives` says for each of the
seven kinds of proposals which values the verification comes back from: the messages that nest
further ones are dereferenced by three of the mechanisms without a check, and what a proposal
names is looked up, read from its chain and decoded.
-/

set_option autoImplicit false

namespace TssSvc.Session

open TssSvc.Db TssSvc.Bridge TssSvc.Broadcast

/-! ## Signature hashes -/

/-- A receiver that gets to be decoded is `0x` and hex digits. -/
def ReceiverDecodes (deposit : Deposit) : Prop :=
  ∀ chainId amount, Decimal.setString deposit.withdrawalChainId = some chainId →
    Decimal.setString deposit.withdrawalAmount = some amount →
      (deposit.withdrawalToken = defaultNativeTokenAddress ∨ isHexAddress deposit.receiver = true) →
        (hexutilDecode deposit.receiver).isSome = true

theorem evm_returns_getSignHash_iff {client : Evm.Client} {deposit : Deposit} :
    (client.getSignHash deposit).Returns ↔ ReceiverDecodes deposit := by
  unfold ReceiverDecodes Evm.Client.getSignHash Evm.Client.operation
  by_cases hnative : deposit.withdrawalToken = defaultNativeTokenAddress
  · simp only [hnative, if_true, Evm.newWithdrawNativeContent, Outcome.returns_bind,
      Outcome.returns_wrap, Outcome.returns_ofOption, Outcome.ofOption_eq_ok, returns_mustDecode,
      Outcome.pure_eq_ok, Outcome.returns_ok, implies_true, and_true, true_and, true_or,
      forall_const]
    exact ⟨fun h chainId amount hchain hamount => h chainId hchain amount hamount,
      fun h chainId hchain amount hamount => h chainId amount hchain hamount⟩
  · simp only [hnative, if_false, Evm.newWithdrawERC20Content, Outcome.returns_bind,
      Outcome.returns_wrap, Outcome.returns_ofOption, Outcome.ofOption_eq_ok,
      Outcome.returns_check, Outcome.check_eq_ok, returns_mustDecode, Outcome.pure_eq_ok,
      Outcome.returns_ok, implies_true, and_true, true_and, false_or, forall_const]
    exact ⟨fun h chainId amount hchain hamount => h chainId hchain amount hamount,
      fun h chainId hchain amount hamount => h chainId amount hchain hamount⟩

theorem ton_returns_getSignHash (client : Ton.Client) (deposit : Deposit) :
    (client.getSignHash deposit).Returns := by
  unfold Ton.Client.getSignHash
  split
  · simp [Ton.Client.getWithdrawalNativeHash, Ton.getNetworkCell, Ton.fillBytesToSize,
      Ton.Client.getAddressCell, Ton.Client.parseAmount]
  · simp [Ton.Client.getWithdrawalJettonHash, Ton.getNetworkCell, Ton.fillBytesToSize,
      Ton.Client.getAddressCell, Ton.Client.parseAmount]

theorem solana_returns_getSignHash (client : Solana.Client) (deposit : Deposit) :
    (client.getSignHash deposit).Returns := by
  have htoken : (Solana.Client.tokenBytes deposit.withdrawalToken).Returns := by
    unfold Solana.Client.tokenBytes
    split <;> simp
  simp [Solana.Client.getSignHash, Solana.Client.withdrawBuffer, htoken]

theorem returns_hashIsValid_iff {getSignHash : Deposit → Result Bytes}
    {data : Option HashProposalData} {deposit : Deposit} :
    (hashIsValid getSignHash data deposit).Returns ↔
      (data.isSome = true → (getSignHash deposit).Returns) := by
  cases data with
  | none => simp [hashIsValid, Outcome.ofOption]
  | some proposal => simp [hashIsValid, Outcome.ofOption]

/-! ## Zano emissions -/

/-- The outputs to the receiver that the loop gets to: it stops at the second one to anyone
else. -/
def reachedOutputs (deposit : Deposit) : Bool → List Zano.TxOutput → List Zano.TxOutput
  | _, [] => []
  | changeOutputChecked, output :: rest =>
      if output.address = deposit.receiver then
        output :: reachedOutputs deposit changeOutputChecked rest
      else if changeOutputChecked then []
      else reachedOutputs deposit true rest

theorem returns_mintedAmount_iff {deposit : Deposit} {outputs : List Zano.TxOutput} :
    ∀ {minted : Int} {changeOutputChecked : Bool},
      (mintedAmount deposit minted changeOutputChecked outputs).Returns ↔
        ∀ output ∈ reachedOutputs deposit changeOutputChecked outputs,
          output.assetId = deposit.withdrawalToken → output.amount.isSome = true := by
  induction outputs with
  | nil => simp [mintedAmount, reachedOutputs]
  | cons output rest ih =>
      intro minted changeOutputChecked
      rw [mintedAmount, reachedOutputs]
      by_cases hreceiver : output.address = deposit.receiver
      · rw [if_pos hreceiver, if_pos hreceiver, List.forall_mem_cons]
        by_cases hasset : output.assetId = deposit.withdrawalToken
        · simp only [hasset, if_true, Outcome.returns_bind, Outcome.returns_deref,
            Outcome.deref_eq_ok, forall_const, ih]
          refine and_congr_right fun hsome => ?_
          obtain ⟨amount, hamount⟩ := Option.isSome_iff_exists.mp hsome
          simp [hamount]
        · simp only [hasset, if_false, ih, false_implies, true_and]
      · rw [if_neg hreceiver, if_neg hreceiver]
        cases changeOutputChecked with
        | true => simp
        | false => simpa using ih

/-- What the daemon has to answer for the transaction of a proposal. -/
def EmissionReads (client : Zano.Client) (proposal : ZanoProposalData) (deposit : Deposit) : Prop :=
  ∀ details, client.decryptTxDetails (signingTx proposal) = .ok details →
    (∀ output ∈ reachedOutputs deposit false details.decodedOutputs,
      output.assetId = deposit.withdrawalToken → output.amount.isSome = true) ∧
    ∀ minted, mintedAmount deposit 0 false details.decodedOutputs = .ok minted →
      (Decimal.setString deposit.withdrawalAmount).isSome = true ∧
      (Decimal.setString deposit.withdrawalAmount = some minted →
        (hexutilDecode (str "0x" ++ details.verifiedTxId)).isSome = true)

theorem returns_zanoIsValid_iff {client : Zano.Client} {data : Option ZanoProposalData}
    {deposit : Deposit} :
    (zanoIsValid client data deposit).Returns ↔
      ∃ proposal, data = some proposal ∧ EmissionReads client proposal deposit := by
  cases data with
  | none => simp [zanoIsValid, Outcome.deref]
  | some proposal =>
      simp only [zanoIsValid, EmissionReads, Outcome.deref, Outcome.ok_bind, Outcome.returns_bind,
        Outcome.returns_wrap, Zano.Client.decryptTxDetails, returns_external, Outcome.wrap_eq_ok,
        returns_mintedAmount_iff, Zano.formSigningData, returns_mustDecode, Outcome.returns_check,
        Outcome.check_eq_ok, Outcome.pure_eq_ok, Outcome.returns_ok, implies_true, and_true,
        true_and, forall_const, Option.some.injEq, exists_eq_left']
      refine forall_congr' fun details => forall_congr' fun hdetails => and_congr_right fun _ =>
        forall_congr' fun minted => forall_congr' fun hminted => ?_
      cases Decimal.setString deposit.withdrawalAmount with
      | none => simp
      | some amount => simp [@eq_comm _ minted amount]

/-! ## UTXO withdrawals -/

theorem returns_findUsedInputs (hashString : Utxo.Hash → GoString) (tx : Utxo.MsgTx)
    (unspent : List Utxo.ListUnspentResult) : (Utxo.findUsedInputs hashString tx unspent).Returns :=
  Outcome.returns_mapM (fun _ => Outcome.returns_ofOption) tx.txIn

theorem returns_sigDataMatches (expected proposed : List Bytes) :
    (Utxo.WithdrawalConstructor.sigDataMatches expected proposed).Returns := by
  have hcompare : ∀ i proposed,
      (Utxo.WithdrawalConstructor.compareHashes i expected proposed).Returns := by
    induction expected with
    | nil => simp [Utxo.WithdrawalConstructor.compareHashes]
    | cons sigHash expected ih =>
        intro i proposed
        cases proposed with
        | nil => simp [Utxo.WithdrawalConstructor.compareHashes]
        | cons hash proposed =>
            rw [Utxo.WithdrawalConstructor.compareHashes]
            split
            · exact ih _ _
            · simp
  simp [Utxo.WithdrawalConstructor.sigDataMatches, hcompare]

section Utxo

variable {c : Utxo.WithdrawalConstructor}

theorem returns_payToAddr (lib : Utxo.ScriptLib) (addr : GoString) :
    (lib.payToAddr addr).Returns := by
  simp [Utxo.ScriptLib.payToAddr]

theorem returns_calculateSignatureHash (script : Bytes) (tx : Utxo.MsgTx) (idx : Nat) (amt : Int) :
    (c.calculateSignatureHash script tx idx amt).Returns := by
  simp [Utxo.WithdrawalConstructor.calculateSignatureHash]

theorem returns_signatureHashesFrom {data : Utxo.AuthoredTx} {slots : Nat} {scripts : List Bytes} :
    ∀ {i : Nat}, i + scripts.length ≤ data.prevInputValues.length → i + scripts.length ≤ slots →
      (c.signatureHashesFrom data slots i scripts).Returns := by
  induction scripts with
  | nil => simp [Utxo.WithdrawalConstructor.signatureHashesFrom]
  | cons script scripts ih =>
      intro i hvalues hslots
      rw [List.length_cons] at hvalues hslots
      have hrest := @ih (i + 1) (by omega) (by omega)
      simp only [Utxo.WithdrawalConstructor.signatureHashesFrom, Outcome.returns_bind,
        Outcome.returns_index, Outcome.returns_mapErr, returns_calculateSignatureHash, true_and]
      refine ⟨by omega, fun _ _ _ _ => ?_⟩
      rw [if_neg (by omega)]
      simp [hrest]

/-- The transaction the author makes has a script and a value for every input. -/
theorem returns_formSignatureHashes {data : Utxo.AuthoredTx} {taken : List Utxo.ListUnspentResult}
    (hspends : c.Spends taken data) : (c.formSignatureHashes data).Returns := by
  have hscripts := hspends.scripts.length_eq
  refine returns_signatureHashesFrom ?_ ?_
  · rw [hspends.values, List.length_map, hscripts, Nat.zero_add]
  · rw [← hspends.inputs.length_eq, hscripts, Nat.zero_add]

/-- The author puts the receiver's output first and the change, if any, behind it. -/
theorem returns_unsignedTx (libs : c.Libraries) (coins : List Utxo.ListUnspentResult) (rate : Int)
    (output : Utxo.TxOut) : (c.unsignedTx coins rate output).Returns := by
  simp only [Utxo.WithdrawalConstructor.unsignedTx, Outcome.returns_bind, Outcome.returns_wrap,
    Outcome.wrap_eq_ok]
  constructor
  · simp [Utxo.WithdrawalConstructor.newUnsignedTransaction, returns_payToAddr]
  · intro a hauthored
    obtain ⟨_, _, _, drafted⟩ := Utxo.WithdrawalConstructor.newUnsignedTransaction_ok libs hauthored
    obtain ⟨outs, index, hrun, -⟩ :=
      Utxo.WithdrawalConstructor.subtractFeeFromWithdrawal_exit c rate drafted.outputs
    rw [hrun]
    exact Outcome.returns_ok _

theorem returns_utxoIsValid_iff (libs : c.Libraries) {data : Option BitcoinProposalData}
    {deposit : Deposit} : (c.isValid data deposit).Returns ↔ data.isSome = true := by
  cases data with
  | none => simp [Utxo.WithdrawalConstructor.isValid, Outcome.deref]
  | some proposal =>
      simp only [Utxo.WithdrawalConstructor.isValid, Outcome.deref, Outcome.ok_bind,
        Outcome.returns_bind, Outcome.returns_wrap, returns_external, Outcome.returns_check,
        returns_findUsedInputs, Utxo.WithdrawalConstructor.receiverOutput,
        Outcome.returns_ofOption, returns_payToAddr, Outcome.pure_eq_ok, Outcome.returns_ok,
        returns_unsignedTx libs, returns_sigDataMatches, implies_true, and_true, true_and,
        Option.isSome_some, iff_true]
      intro _ _ _ _ _ _ _ _ _ _ expected hexpected _ _
      obtain ⟨taken, -, -, hspends⟩ := Utxo.WithdrawalConstructor.unsignedTx_spends libs hexpected
      exact returns_formSignatureHashes hspends

end Utxo

/-! ## Resharing proposals -/

section Consolidation

variable {m : Utxo.ConsensusMechanism}

theorem returns_consolidateOutputs (hcount : 1 ≤ m.params.outputsCount)
    (unspent : List Utxo.ListUnspentResult) : (m.consolidateOutputs unspent).Returns := by
  have hinputs : ∀ coins i total,
      (Utxo.consolidationInputs m.newHashFromStr i total coins).Returns := by
    intro coins
    induction coins with
    | nil => simp [Utxo.consolidationInputs]
    | cons u rest ih => simp [Utxo.consolidationInputs, ih]
  have hhashes : ∀ tx coins i,
      (Utxo.consolidationHashes m.helper.calculateSignatureHash tx i coins).Returns := by
    intro tx coins
    induction coins with
    | nil => simp [Utxo.consolidationHashes]
    | cons u rest ih => simp [Utxo.consolidationHashes, returns_calculateSignatureHash, ih]
  have hquotient : ∀ x, (Utxo.quotient x m.params.outputsCount).Returns := by
    intro x
    rw [Utxo.quotient, if_neg (by omega)]
    exact Outcome.returns_ok _
  simp only [Utxo.ConsensusMechanism.consolidateOutputs, Outcome.returns_bind, hinputs, hquotient,
    Outcome.returns_check, Outcome.returns_index, hhashes, Outcome.pure_eq_ok, Outcome.returns_ok,
    implies_true, and_true, true_and, List.length_map, List.length_replicate]
  intro _ _ _ _ _ _
  omega

theorem returns_verifyConsolidation_iff (hcount : 1 ≤ m.params.outputsCount)
    {data : Option BitcoinResharingProposalData} :
    (m.verifyProposedData data).Returns ↔ data.isSome = true := by
  cases data with
  | none => simp [Utxo.ConsensusMechanism.verifyProposedData, Outcome.deref]
  | some proposal =>
      simp [Utxo.ConsensusMechanism.verifyProposedData, Outcome.deref, returns_findUsedInputs,
        returns_consolidateOutputs hcount, returns_sigDataMatches]

end Consolidation

/-- A transfer that is validated is verified by the daemon under a hex id. -/
def TransferReads (c : Zano.OwnershipMechanism) (proposal : ZanoResharingProposalData) : Prop :=
  ∀ details info, c.decryptTxDetails proposal = .ok details → c.getAssetInfo details = .ok info →
    c.validateAssetInfo info = .ok () →
      (hexutilDecode (str "0x" ++ details.verifiedTxId)).isSome = true

theorem returns_verifyOwnership_iff {c : Zano.OwnershipMechanism}
    {data : Option ZanoResharingProposalData} :
    (c.verifyProposedData data).Returns ↔
      ∃ proposal, data = some proposal ∧ TransferReads c proposal := by
  have hdetails : ∀ proposal, (c.decryptTxDetails proposal).Returns := by
    simp [Zano.OwnershipMechanism.decryptTxDetails]
  have hinfo : ∀ details, (c.getAssetInfo details).Returns := by
    simp [Zano.OwnershipMechanism.getAssetInfo]
  cases data with
  | none => simp [Zano.OwnershipMechanism.verifyProposedData, Outcome.deref]
  | some proposal =>
      simp only [Zano.OwnershipMechanism.verifyProposedData, TransferReads, Outcome.deref,
        Outcome.ok_bind, Outcome.returns_bind, Outcome.returns_wrap, hdetails, Outcome.wrap_eq_ok,
        hinfo, Zano.OwnershipMechanism.returns_validateAssetInfo, Zano.formSigningData,
        returns_mustDecode, Outcome.returns_check, implies_true, and_true, true_and,
        Option.some.injEq, exists_eq_left']
      exact ⟨fun h details info hdetails hinfo => h details hdetails info hinfo (),
        fun h details hdetails info hinfo _ => h details info hdetails hinfo⟩

/-! ## The seven mechanisms -/

/-- What a party knows when it verifies a withdrawal. -/
structure Surroundings where
  clients : List ChainClient
  core : Core
  faults : Table.Faults
  table : Table

inductive ProposalMechanism where
  | signing (session : SigningSession) (world : Surroundings)
  | consolidation (mechanism : Utxo.ConsensusMechanism)
  | ownership (mechanism : Zano.OwnershipMechanism)

/-- What each session's validation needs of the data and of the deposit behind it. -/
def SigningSession.Validates (deposit : Deposit) : (session : SigningSession) → session.Data → Prop
  | .evm _, data => Option.isSome data = true → ReceiverDecodes deposit
  | .ton _, _ => True
  | .solana _, _ => True
  | .zano client, data => ∃ proposal, data = some proposal ∧ EmissionReads client proposal deposit
  | .utxo _, data => Option.isSome data = true

def SigningSession.Lawful : SigningSession → Prop
  | .utxo c => c.Libraries
  | _ => True

theorem returns_isValid_iff {session : SigningSession} (lawful : session.Lawful)
    {data : session.Data} {deposit : Deposit} :
    (session.constructor.isValid data deposit).Returns ↔ session.Validates deposit data := by
  cases session with
  | evm client =>
      exact returns_hashIsValid_iff.trans (forall_congr' fun _ => evm_returns_getSignHash_iff)
  | ton client =>
      exact returns_hashIsValid_iff.trans
        (iff_true_intro fun _ => ton_returns_getSignHash client deposit)
  | solana client =>
      exact returns_hashIsValid_iff.trans
        (iff_true_intro fun _ => solana_returns_getSignHash client deposit)
  | zano client => exact returns_zanoIsValid_iff
  | utxo c => exact returns_utxoIsValid_iff lawful

namespace Surroundings

variable (world : Surroundings) (id : DepositIdentifier)

/-- A deposit with no row is read by the client of its chain. -/
def Fetches : Prop :=
  world.faults.get = false → world.table.get id = none →
    ∀ cl ∈ world.clients, (repositoryOf world.clients).client id.chainId = .ok cl.toClient →
      cl.toClient.transactionHashValid id.txHash = true → cl.Reads id

/-- The deposit behind the identifier: its row, or what is fetched and inserted. -/
def Names (deposit : Deposit) : Prop :=
  Candidate (repositoryOf world.clients) world.core world.faults world.table id deposit

variable {world id}

theorem returns_lookupDeposit_iff (lawful : ∀ cl ∈ world.clients, cl.Lawful)
    (hn : IsInt64 id.txNonce) :
    (lookupDeposit (repositoryOf world.clients) world.core world.faults world.table id).1.Returns ↔
      world.Fetches id := by
  have hsave : ∀ fetched, (saveFetched world.faults world.table fetched).1.Returns := by
    intro fetched
    simp only [saveFetched]
    split <;> simp
  have hfetches := @returns_fetchDeposit_iff world.clients world.core id lawful hn
  simp only [lookupDeposit, Fetches, Table.queryGet]
  cases world.faults.get with
  | true => simp
  | false =>
      cases world.table.get id with
      | some row => simp
      | none =>
          simp only [Bool.false_eq_true, if_false, forall_const, ← hfetches]
          cases hfetch : fetchDeposit (repositoryOf world.clients) world.core id with
          | ok fetched => simp [Outcome.wrap, Outcome.mapErr, hsave]
          | err e => simp [Outcome.wrap, Outcome.mapErr]
          | panic reason => simp [Outcome.wrap, Outcome.mapErr]

end Surroundings

namespace ProposalMechanism

def Data : ProposalMechanism → Type
  | signing session _ => session.Data
  | consolidation _ => Option BitcoinResharingProposalData
  | ownership _ => Option ZanoResharingProposalData

def verifyProposedData : (m : ProposalMechanism) → m.Data → Result Unit
  | signing session world, data => (Session.verifyProposedData session.constructor
      (repositoryOf world.clients) world.core world.faults world.table data).1
  | consolidation mechanism, data => mechanism.verifyProposedData data
  | ownership mechanism, data => mechanism.verifyProposedData data

/-- What is assumed of the libraries, and of the parameters of a consolidation. -/
def Lawful : ProposalMechanism → Prop
  | signing session world => session.Lawful ∧ ∀ cl ∈ world.clients, cl.Lawful
  | consolidation mechanism => 1 ≤ mechanism.params.outputsCount
  | ownership _ => True

/-- The nonce of a deposit identifier is an `int64` on the wire. -/
def Typed : (m : ProposalMechanism) → m.Data → Prop
  | signing session _, data => IsInt64 (session.constructor.depositIdentifier data).txNonce
  | consolidation _, _ => True
  | ownership _, _ => True

/-- The values whose verification comes back. -/
def Survives : (m : ProposalMechanism) → m.Data → Prop
  | signing session world, data =>
      world.Fetches (session.constructor.depositIdentifier data) ∧
        ∀ deposit, world.Names (session.constructor.depositIdentifier data) deposit →
          deposit.withdrawalStatus = .pending → session.Validates deposit data
  | consolidation _, data => Option.isSome data = true
  | ownership mechanism, data => ∃ proposal, data = some proposal ∧ TransferReads mechanism proposal

theorem returns_verifyProposedData_iff {m : ProposalMechanism} (lawful : m.Lawful) {data : m.Data}
    (typed : m.Typed data) : (m.verifyProposedData data).Returns ↔ m.Survives data := by
  cases m with
  | signing session world =>
      simp only [verifyProposedData, Session.verifyProposedData, acceptDeposit, Survives,
        Outcome.returns_bind, Outcome.returns_check, Outcome.check_eq_ok, Outcome.returns_wrap,
        implies_true, and_true, true_and, forall_const, lookupDeposit_ok]
      refine and_congr (Surroundings.returns_lookupDeposit_iff lawful.2 typed) ?_
      refine forall_congr' fun deposit => forall_congr' fun _ => forall_congr' fun _ => ?_
      exact returns_isValid_iff lawful.1
  | consolidation mechanism => exact returns_verifyConsolidation_iff lawful
  | ownership mechanism => exact returns_verifyOwnership_iff

end ProposalMechanism

section Sample

/-- Messages with this value and these announced signers. -/
def carrying {T : Type} (value : Option T) (announced : List GoString) : Decoders Unit T where
  validAddress := fun _ => true
  broadcastData := fun _ => .ok []
  acceptanceData := fun _ => .ok true
  proposal := fun _ => .ok ⟨value, str "s", 0, []⟩
  signStart := fun _ => .ok ⟨some ⟨announced⟩, str "s", 0, []⟩

/-- A mechanism whose wallet and daemon are down. -/
def sampleOwnership : Zano.OwnershipMechanism where
  assetId := str "asset"
  ownerPubKey := str "owner"
  isEthKey := true
  transferAssetOwnership := fun _ _ _ => .error []
  txDetails := fun _ _ _ _ => .error []
  assetDescriptors := fun _ => .error []

/-- A wallet of twenty outputs. -/
def sampleConsolidating : ProposalMechanism :=
  .consolidation (Utxo.ConsensusMechanism.sampleMechanism.withWallet
    (Utxo.ConsensusMechanism.sampleWallet 20))

/-- The consolidation of these outputs. -/
def sampleConsolidationData : sampleConsolidating.Data :=
  some ⟨[3], Utxo.ConsensusMechanism.sampleHashes 20⟩

end Sample

end TssSvc.Session
