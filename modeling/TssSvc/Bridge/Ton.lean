import TssSvc.Bridge.TonDeposit

/-!
# The TON client

`internal/bridge/chain/ton`.  The withdrawal hashes are computed by get methods of the bridge
contract; the contract, the lite server and the address and cell library are fields of the
client.
-/

set_option autoImplicit false

namespace TssSvc.Bridge.Ton

open TssSvc.Db

def networkCellSizeBytes : Nat := 32

/-- The arguments both get methods take; addresses are as the library parsed them. -/
structure WithdrawalArgs where
  withdrawalAmount : Int
  receiver : Bytes
  txHash : Nat
  txNonce : Nat
  network : Bytes

structure Client where
  id : GoString
  keccak256 : Bytes → Bytes
  parseAddr : GoString → Except GoString Bytes
  getMasterchainInfo : Except GoString Bytes
  withdrawalNativeHash : Bytes → WithdrawalArgs → Except GoString Int
  withdrawalJettonHash : Bytes → WithdrawalArgs → Bool → Bytes → Except GoString Int
  listTransactions : Nat → Bytes → Except GoString (List Transaction)
  decoder : DepositDecoder

def fillBytesToSize (text : GoString) (size : Nat) : Result Bytes := do
  Outcome.check (text.length ≤ size) ⟨none, str "\"" ++ text ++ str "\" is longer than " ++
    Decimal.formatNat size ++ str " bytes"⟩
  return text ++ List.replicate (size - text.length) 0

def getNetworkCell (network : GoString) : Result Bytes :=
  (fillBytesToSize network networkCellSizeBytes).wrap "failed to fill bytes"

def txHashToBytes32 (keccak256 : Bytes → Bytes) (txHash : GoString) : Bytes :=
  hashBytesOrDigest keccak256 txHash

/-- `big.Int.SetBytes`. -/
def setBytes (bytes : Bytes) : Nat := Nat.ofDigits 256 (bytes.reverse.map UInt8.toNat)

namespace Client

def getAddressCell (c : Client) (addr : GoString) : Result Bytes :=
  (external (c.parseAddr addr)).wrap "failed to parse address"

def parseAmount (deposit : Deposit) : Result Int :=
  Outcome.ofOption (.new "failed to parse withdrawal amount")
    (Decimal.setString deposit.withdrawalAmount)

def withdrawalArgs (c : Client) (deposit : Deposit) (amount : Int) (receiver network : Bytes) :
    WithdrawalArgs where
  withdrawalAmount := amount
  receiver := receiver
  txHash := setBytes (txHashToBytes32 c.keccak256 deposit.identifier.txHash)
  txNonce := toUint64 deposit.identifier.txNonce
  network := network

def getWithdrawalNativeHash (c : Client) (deposit : Deposit) : Result Bytes := do
  let master ← (external c.getMasterchainInfo).wrap "failed to get the master chain info"
  let network ← (getNetworkCell deposit.withdrawalChainId).wrap "failed to get the network cell"
  let receiver ← (c.getAddressCell deposit.receiver).wrap "failed to get receiver address cell"
  let amount ← parseAmount deposit
  let res ← (external (c.withdrawalNativeHash master
    (c.withdrawalArgs deposit amount receiver network))).wrap "failed to get the native hash"
  return bigBytes res

def getWithdrawalJettonHash (c : Client) (deposit : Deposit) : Result Bytes := do
  let master ← (external c.getMasterchainInfo).wrap "failed to get the master chain info"
  let network ← (getNetworkCell deposit.withdrawalChainId).wrap "failed to get the network cell"
  let receiver ← (c.getAddressCell deposit.receiver).wrap "failed to get receiver cell"
  let token ← (c.getAddressCell deposit.withdrawalToken).wrap
    "failed to get withdrawal token address cell"
  let amount ← parseAmount deposit
  let res ← (external (c.withdrawalJettonHash master
    (c.withdrawalArgs deposit amount receiver network) deposit.isWrappedToken token)).wrap
      "failed to get the jetton hash"
  return bigBytes res

def getSignHash (c : Client) (deposit : Deposit) : Result Bytes :=
  if deposit.withdrawalToken = defaultNativeTokenAddress then
    (c.getWithdrawalNativeHash deposit).wrap "failed to get withdrawal native hash"
  else (c.getWithdrawalJettonHash deposit).wrap "failed to get withdrawal jetton hash"

def getTxByLtHash (c : Client) (lt : Nat) (txHash : GoString) : Result Transaction := do
  let hash ← mustDecode txHash
  let txs ← (external (c.listTransactions lt hash)).wrap "error getting deposit transaction"
  Outcome.ofOption Sentinel.errDepositNotFound.toErr txs.head?

def getDepositData (c : Client) (id : DepositIdentifier) : Result DepositData := do
  let tx ← (c.getTxByLtHash (toUint64 id.txNonce) id.txHash).wrap "failed to get tx"
  let data ← (c.decoder.parseDepositData tx).wrap "failed to parse deposit data"
  return { data with identifier := id }

def addressValid (c : Client) (addr : GoString) : Bool :=
  match c.parseAddr addr with
  | .ok _ => true
  | .error _ => false

def withdrawalAmountValid (amount : Int) : Bool := decide (0 < amount)

def toClient (c : Client) : Bridge.Client where
  type := .ton
  chainId := c.id
  getDepositData := c.getDepositData
  addressValid := c.addressValid
  transactionHashValid := defaultTransactionHashPattern
  withdrawalAmountValid := withdrawalAmountValid
  identifies := by
    intro id data h
    simp only [getDepositData, Outcome.bind_eq_ok, Outcome.pure_eq_ok, Outcome.ok.injEq] at h
    obtain ⟨_, _, _, _, rfl⟩ := h
    rfl

end Client

end TssSvc.Bridge.Ton
