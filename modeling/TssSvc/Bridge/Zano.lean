import TssSvc.Bridge.Chain

/-!
# The Zano client

`internal/bridge/chain/zano` and the wallet types of `pkg/zano` it reads.  The JSON decoder of
the memo is a field of the client.
-/

set_option autoImplicit false

namespace TssSvc.Bridge.Zano

open TssSvc.Db

def operationTypeAssetBurn : Nat := 4

structure AssetDescriptorOperation where
  operationType : Nat
  optAmount : Option Int
  optAssetId : Option GoString

/-- `body` is the hex text of a service entry. -/
structure ServiceEntry where
  body : GoString

structure Transaction where
  txHash : GoString
  height : Nat
  ado : Option AssetDescriptorOperation
  remoteAddresses : List GoString
  serviceEntries : List ServiceEntry

structure GetTxResponse where
  incoming : List Transaction
  outgoing : List Transaction
  pool : List Transaction

structure DepositMemo where
  address : GoString
  chainId : GoString
  referralId : Nat

structure DataForExternalSigning where
  finalizedTx : GoString
  outputsAddresses : List GoString
  txSecretKey : GoString
  unsignedTx : GoString

structure EmitAssetResponse where
  dataForExternalSigning : DataForExternalSigning
  txId : GoString

structure TxOutput where
  address : GoString
  amount : Option Int
  assetId : GoString

structure DecryptTxDetailsResponse where
  decodedOutputs : List TxOutput
  verifiedTxId : GoString

/-- `emitAsset` takes the asset, the receiver and the amount; `txDetails` the addresses, the
transaction blob, the transaction id and the secret key. -/
structure Client where
  id : GoString
  confirmations : Nat
  getTransactions : GoString → Except GoString GetTxResponse
  currentHeight : Except GoString Nat
  unmarshalMemo : Bytes → Except GoString DepositMemo
  emitAsset : GoString → GoString → Int → Except GoString EmitAssetResponse
  txDetails : List GoString → GoString → GoString → GoString →
    Except GoString DecryptTxDetailsResponse

/-- The burnt amount and asset if the operation is a valid burn (`IsValidAssetBurn`). -/
def assetBurn (ado : Option AssetDescriptorOperation) : Option (Int × GoString) := do
  let operation ← ado
  guard (operation.operationType = operationTypeAssetBurn)
  let amount ← operation.optAmount
  let assetId ← operation.optAssetId
  return (amount, assetId)

def formSigningData (txId : GoString) : Result Bytes := mustDecode (str "0x" ++ txId)

namespace Client

/-- `GetTransaction(txHash, true, false, false)`: only incoming transfers are searched. -/
def getTransaction (p : Client) (txHash : GoString) : Result (Option Transaction) := do
  let resp ← (external (p.getTransactions (trimHexPrefix txHash))).wrap "failed to get transaction"
  return resp.incoming.head?

/-- The difference is taken in `uint64`. -/
def validateConfirmations (p : Client) (txHeight : Nat) : Result Unit := do
  Outcome.check (txHeight ≠ 0) Sentinel.errTxPending.toErr
  let currentHeight ← (external p.currentHeight).wrap "failed to get current height"
  Outcome.check (p.confirmations ≤ toUint64 (currentHeight - txHeight))
    Sentinel.errTxNotConfirmed.toErr

def validateMemo (memo : DepositMemo) : Result Unit := do
  Outcome.check (memo.address ≠ []) (.new "address is empty")
  Outcome.check (memo.chainId ≠ []) (.new "chain id is empty")

def parseDepositMemo (p : Client) (entry : ServiceEntry) : Result DepositMemo := do
  let raw ← (Outcome.ofOption (.new "encoding/hex") (decodeString entry.body)).wrap
    "failed to decode hex body"
  let depositMemo ← (external (p.unmarshalMemo raw)).wrap "failed to unmarshal json data"
  (validateMemo depositMemo).mapErr fun e => Sentinel.errInvalidTransactionMemo.toErr.wrap e.text
  return depositMemo

def getDepositData (p : Client) (id : DepositIdentifier) : Result DepositData := do
  let found ← (p.getTransaction id.txHash).wrap "failed to get transaction"
  let transaction ← Outcome.ofOption Sentinel.errDepositNotFound.toErr found
  (p.validateConfirmations transaction.height).wrap "failed to validate confirmations"
  let (amount, assetId) ← Outcome.ofOption Sentinel.errDepositNotFound.toErr
    (assetBurn transaction.ado)
  Outcome.check (wrapInt64 (id.txNonce + 1) ≤ transaction.serviceEntries.length)
    Sentinel.errDepositNotFound.toErr
  let entry ← Outcome.index transaction.serviceEntries id.txNonce
  let depositMemo ← (p.parseDepositMemo entry).wrap "failed to parse destination data"
  return {
    identifier := id
    destinationChainId := depositMemo.chainId
    destinationAddress := depositMemo.address
    referralId := depositMemo.referralId
    sourceAddress := transaction.remoteAddresses.headD []
    depositAmount := amount
    tokenAddress := assetId
    block := wrapInt64 transaction.height }

/-- The expression `^[1-9A-HJ-NP-Za-km-z]{97}$`. -/
def addressValid (addr : GoString) : Bool := decide (addr.length = 97) && addr.all isBase58Char

def withdrawalAmountValid (amount : Int) : Bool := decide (0 < amount)

def emitAssetUnsigned (p : Client) (data : Deposit) : Result EmitAssetResponse := do
  let amount ← Outcome.ofOption (.new "failed to convert withdrawal amount")
    (Decimal.setString data.withdrawalAmount)
  external (p.emitAsset data.withdrawalToken data.receiver amount)

/-- The transaction id is left empty: the daemon takes the blob or the id. -/
def decryptTxDetails (p : Client) (data : DataForExternalSigning) :
    Result DecryptTxDetailsResponse :=
  external (p.txDetails data.outputsAddresses data.unsignedTx [] data.txSecretKey)

def toClient (p : Client) : Bridge.Client where
  type := .zano
  chainId := p.id
  getDepositData := p.getDepositData
  addressValid := addressValid
  transactionHashValid := defaultTransactionHashPattern
  withdrawalAmountValid := withdrawalAmountValid
  identifies := by
    intro id data h
    simp only [getDepositData, Outcome.bind_eq_ok, Outcome.pure_eq_ok, Outcome.ok.injEq] at h
    obtain ⟨_, _, _, _, _, _, _, _, _, _, _, _, _, _, rfl⟩ := h
    rfl

end Client

end TssSvc.Bridge.Zano
