import TssSvc.Bridge.Evm
import TssSvc.Bridge.Solana
import TssSvc.Bridge.Ton
import TssSvc.Bridge.UtxoWithdrawal
import TssSvc.Bridge.Zano

/-!
# Withdrawal constructors

`internal/bridge/withdrawal`: how the five signing sessions form and validate proposal data.
A nil pointer to proposal data is `none`.
-/

set_option autoImplicit false

namespace TssSvc.Bridge

open TssSvc.Db TssSvc.Session

/-- `DepositIdentifier()`: the zero identifier when the data names none. -/
def identifierOf (depositId : Option DepositIdentifier) : DepositIdentifier :=
  depositId.getD ⟨[], 0, []⟩

/-! ## EVM, TON and Solana: one hash -/

section Hash

variable (getSignHash : Deposit → Result Bytes)

def hashSigningData (deposit : Deposit) : Result (Option HashProposalData) := do
  let sigHash ← (getSignHash deposit).wrap "failed to get signing hash"
  return some ⟨some deposit.identifier, sigHash⟩

def hashIsValid (data : Option HashProposalData) (deposit : Deposit) : Result Bool := do
  let proposal ← Outcome.ofOption (.new "invalid proposal data") data
  let sigHash ← (getSignHash deposit).wrap "failed to get signing hash"
  Outcome.check (proposal.sigData = sigHash) (.new "sig data does not match the expected one")
  return true

def hashConstructor : Constructor (Option HashProposalData) where
  depositIdentifier data := identifierOf (data.bind HashProposalData.depositId)
  formSigningData := hashSigningData getSignHash
  isValid := hashIsValid getSignHash

end Hash

def evmConstructor (client : Evm.Client) : Constructor (Option HashProposalData) :=
  hashConstructor client.getSignHash

def tonConstructor (client : Ton.Client) : Constructor (Option HashProposalData) :=
  hashConstructor client.getSignHash

def solanaConstructor (client : Solana.Client) : Constructor (Option HashProposalData) :=
  hashConstructor client.getSignHash

theorem hashIsValid_eq_ok {getSignHash : Deposit → Result Bytes} {data : Option HashProposalData}
    {deposit : Deposit} :
    hashIsValid getSignHash data deposit = .ok true ↔
      ∃ proposal, data = some proposal ∧ getSignHash deposit = .ok proposal.sigData := by
  simp only [hashIsValid, Outcome.bind_eq_ok, Outcome.ofOption_eq_ok, Outcome.wrap_eq_ok,
    Outcome.check_eq_ok, Outcome.pure_eq_ok, and_true]
  constructor
  · rintro ⟨proposal, hdata, hash, hhash, _, heq⟩
    exact ⟨proposal, hdata, heq ▸ hhash⟩
  · rintro ⟨proposal, hdata, hhash⟩
    exact ⟨proposal, hdata, proposal.sigData, hhash, (), rfl⟩

/-! ## Zano: an emission of the asset -/

def zanoSigningData (client : Zano.Client) (deposit : Deposit) :
    Result (Option ZanoProposalData) := do
  let tx ← (client.emitAssetUnsigned deposit).wrap "failed to form zano withdrawal data"
  let sigData ← Zano.formSigningData tx.txId
  return some {
    depositId := some deposit.identifier
    outputsAddresses := tx.dataForExternalSigning.outputsAddresses
    unsignedTx := tx.dataForExternalSigning.unsignedTx
    finalizedTx := tx.dataForExternalSigning.finalizedTx
    txSecretKey := tx.dataForExternalSigning.txSecretKey
    txId := tx.txId
    sigData := sigData }

/-- The loop over the decoded outputs: what the receiver gets of the asset, with at most one
output to anyone else. -/
def mintedAmount (deposit : Deposit) : Int → Bool → List Zano.TxOutput → Result Int
  | minted, _, [] => .ok minted
  | minted, changeOutputChecked, output :: rest =>
      if output.address = deposit.receiver then
        if output.assetId = deposit.withdrawalToken then do
          let amount ← Outcome.deref output.amount
          mintedAmount deposit (minted + amount) changeOutputChecked rest
        else mintedAmount deposit minted changeOutputChecked rest
      else if changeOutputChecked then .err (.new "more than one non-emit output found")
      else mintedAmount deposit minted true rest

def signingTx (proposal : ZanoProposalData) : Zano.DataForExternalSigning where
  outputsAddresses := proposal.outputsAddresses
  unsignedTx := proposal.unsignedTx
  finalizedTx := proposal.finalizedTx
  txSecretKey := proposal.txSecretKey

/-- An amount that does not parse is a nil `*big.Int`, on which `Cmp` panics. -/
def zanoIsValid (client : Zano.Client) (data : Option ZanoProposalData) (deposit : Deposit) :
    Result Bool := do
  let proposal ← Outcome.deref data
  let details ← (client.decryptTxDetails (signingTx proposal)).wrap "failed to decrypt tx details"
  let minted ← mintedAmount deposit 0 false details.decodedOutputs
  let expectedAmount ← Outcome.deref (Decimal.setString deposit.withdrawalAmount)
  Outcome.check (minted = expectedAmount) (.new "minted amount does not match the expected one")
  let sigData ← Zano.formSigningData details.verifiedTxId
  Outcome.check (proposal.sigData = sigData) (.new "sig data does not match the expected one")
  return true

def zanoConstructor (client : Zano.Client) : Constructor (Option ZanoProposalData) where
  depositIdentifier data := identifierOf (data.bind ZanoProposalData.depositId)
  formSigningData := zanoSigningData client
  isValid := zanoIsValid client

/-! ## UTXO: a transaction -/

def utxoConstructor (c : Utxo.WithdrawalConstructor) :
    Constructor (Option BitcoinProposalData) where
  depositIdentifier data := identifierOf (data.bind BitcoinProposalData.depositId)
  formSigningData := c.formSigningData
  isValid := c.isValid

end TssSvc.Bridge
