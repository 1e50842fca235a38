import TssSvc.Bridge.Chain

/-!
# The EVM client

`internal/bridge/chain/evm`.  The node's answers, the contract ABI, `common.Address.Hex` and
Keccak-256 are fields of the client.
-/

set_option autoImplicit false

namespace TssSvc.Bridge.Evm

open TssSvc.Db

inductive EventType where
  | v1DepositedNative
  | v1DepositedERC20
  | v2DepositedNative
  | v2DepositedERC20
  deriving DecidableEq, Repr

structure Log where
  address : Bytes
  topics : List Bytes
  data : Bytes
  blockNumber : Nat

structure Receipt where
  txHash : Bytes
  status : Nat
  logs : List Log
  blockNumber : Nat

/-- `signed` is false when the node left the signature out; `sender` is what `types.Sender`
recovers. -/
structure RpcTx where
  hash : Bytes
  signed : Bool
  pending : Bool
  fromAddress : Option Bytes
  sender : Except GoString Bytes

structure Rpc where
  transactionByHash : Bytes → Except GoString (Option RpcTx)
  transactionReceipt : Bytes → Except GoString (Option Receipt)
  blockNumber : Except GoString Nat

/-- The unpacked body of a deposit event; the v1 events have no referral id and the native
ones no token. -/
structure EventBody where
  network : GoString
  receiver : GoString
  amount : Nat
  token : Bytes
  referralId : Nat

structure Client where
  id : GoString
  bridgeAddress : Bytes
  confirmations : Nat
  rpc : Rpc
  supportedEvents : Bytes → Option EventType
  unpack : EventType → Bytes → Option EventBody
  addressHex : Bytes → GoString
  keccak256 : Bytes → Bytes

namespace Client

/-- The sender the node reports, or the one recovered from the signature. -/
def senderOf (tx : RpcTx) : Result Bytes :=
  match tx.fromAddress with
  | some address => .ok address
  | none => (external tx.sender).wrap "failed to get transaction sender"

def getTransactionReceipt (p : Client) (txHash : Bytes) : Result (Receipt × Bytes) := do
  let raw ← (external (p.rpc.transactionByHash txHash)).wrap "failed to get transaction by hash"
  let tx ← Outcome.ofOption Sentinel.errTxNotFound.toErr raw
  Outcome.check tx.signed ((GoError.new "server returned transaction without signature").wrap
    (str "failed to get transaction by hash"))
  Outcome.check (tx.pending = false) Sentinel.errTxPending.toErr
  let sender ← senderOf tx
  let answer ← (external (p.rpc.transactionReceipt tx.hash)).wrap "failed to get tx receipt"
  let receipt ← Outcome.ofOption (.new "receipt is nil") answer
  return (receipt, sender)

theorem getTransactionReceipt_ok {p : Client} {hash sender : Bytes} {receipt : Receipt}
    (h : p.getTransactionReceipt hash = .ok (receipt, sender)) :
    ∃ tx, p.rpc.transactionByHash hash = .ok (some tx) ∧
      p.rpc.transactionReceipt tx.hash = .ok (some receipt) := by
  simp only [getTransactionReceipt, Outcome.bind_eq_ok, Outcome.wrap_eq_ok,
    Outcome.ofOption_eq_ok, Outcome.pure_eq_ok, Outcome.ok.injEq, external_eq_ok,
    Prod.mk.injEq] at h
  obtain ⟨_, htx, tx, rfl, _, -, _, -, _, -, _, hreceipt, _, rfl, rfl, -⟩ := h
  exact ⟨tx, htx, hreceipt⟩

def getDepositEventType (p : Client) (log : Log) : Option EventType :=
  log.topics.head?.bind p.supportedEvents

/-- The sum is taken in `uint64`. -/
def validateConfirmations (p : Client) (receipt : Receipt) : Result Unit := do
  let curHeight ← (external p.rpc.blockNumber).wrap "failed to get current block number"
  Outcome.check ((receipt.blockNumber + p.confirmations + (2 ^ 64 - 1)) % 2 ^ 64 ≤ curHeight)
    Sentinel.errTxNotConfirmed.toErr

def tokenAddress (p : Client) (eventType : EventType) (body : EventBody) : GoString :=
  match eventType with
  | .v1DepositedNative | .v2DepositedNative => defaultNativeTokenAddress
  | .v1DepositedERC20 | .v2DepositedERC20 => toLower (p.addressHex body.token)

def referralId (eventType : EventType) (body : EventBody) : Nat :=
  match eventType with
  | .v1DepositedNative | .v1DepositedERC20 => 0
  | .v2DepositedNative | .v2DepositedERC20 => body.referralId

def getDepositData (p : Client) (id : DepositIdentifier) : Result DepositData := do
  let (txReceipt, sender) ← (p.getTransactionReceipt (hexToHash id.txHash)).wrap
    "failed to get transaction receipt"
  Outcome.check (txReceipt.status = 1) Sentinel.errTxFailed.toErr
  Outcome.check (wrapInt64 (id.txNonce + 1) ≤ txReceipt.logs.length)
    Sentinel.errDepositNotFound.toErr
  let log ← Outcome.index txReceipt.logs id.txNonce
  Outcome.check (p.addressHex log.address = p.addressHex p.bridgeAddress)
    Sentinel.errUnsupportedContract.toErr
  let eventType ← Outcome.ofOption Sentinel.errDepositNotFound.toErr (p.getDepositEventType log)
  (p.validateConfirmations txReceipt).wrap "failed to validate confirmations"
  let eventBody ← Outcome.ofOption Sentinel.errFailedUnpackLogs.toErr (p.unpack eventType log.data)
  return {
    identifier := id
    destinationChainId := eventBody.network
    destinationAddress := eventBody.receiver
    tokenAddress := p.tokenAddress eventType eventBody
    depositAmount := eventBody.amount
    block := wrapInt64 log.blockNumber
    sourceAddress := p.addressHex sender
    referralId := referralId eventType eventBody }

def addressValid (addr : GoString) : Bool := isHexAddress addr

def withdrawalAmountValid (amount : Int) : Bool := decide (0 < amount)

def toClient (p : Client) : Bridge.Client where
  type := .evm
  chainId := p.id
  getDepositData := p.getDepositData
  addressValid := addressValid
  transactionHashValid := defaultTransactionHashPattern
  withdrawalAmountValid := withdrawalAmountValid
  identifies := by
    intro id data h
    simp only [getDepositData, Outcome.bind_eq_ok, Outcome.pure_eq_ok, Outcome.ok.injEq] at h
    obtain ⟨_, _, _, _, _, _, _, _, _, _, _, _, _, _, _, _, rfl⟩ := h
    rfl

end Client

/-! ## Signing data -/

def toBytes32 (arr : Bytes) : Bytes :=
  if 32 ≤ arr.length then arr.take 32 else List.replicate (32 - arr.length) 0 ++ arr

def intToBytes32 (value : Int) : Bytes := toBytes32 (bigBytes value)

def boolToBytes (b : Bool) : Bytes := if b then [1] else [0]

section Signing

variable (keccak256 : Bytes → Bytes)

def setSignaturePrefix (message : Bytes) : Bytes :=
  keccak256 (str "\x19Ethereum Signed Message:\n" ++ Decimal.formatNat message.length ++ message)

def txHashToBytes32 (txHash : GoString) : Bytes := hashBytesOrDigest keccak256 txHash

structure WithdrawNativeContent where
  amount : Bytes
  receiver : Bytes
  txHash : Bytes
  txNonce : Bytes
  chainId : Bytes

structure WithdrawERC20Content where
  destinationTokenAddress : Bytes
  amount : Bytes
  receiver : Bytes
  txHash : Bytes
  txNonce : Bytes
  chainId : Bytes
  isWrapped : Bytes

def newWithdrawNativeContent (data : Deposit) : Result WithdrawNativeContent := do
  let destinationChainId ← Outcome.ofOption (.new "invalid chain id")
    (Decimal.setString data.withdrawalChainId)
  let withdrawalAmount ← Outcome.ofOption (.new "invalid withdrawal amount")
    (Decimal.setString data.withdrawalAmount)
  let receiver ← mustDecode data.receiver
  return {
    amount := toBytes32 (bigBytes withdrawalAmount)
    receiver := receiver
    txHash := txHashToBytes32 keccak256 data.identifier.txHash
    txNonce := intToBytes32 data.identifier.txNonce
    chainId := toBytes32 (bigBytes destinationChainId) }

def newWithdrawERC20Content (data : Deposit) : Result WithdrawERC20Content := do
  let destinationChainId ← Outcome.ofOption (.new "invalid chain id")
    (Decimal.setString data.withdrawalChainId)
  let withdrawalAmount ← Outcome.ofOption (.new "invalid withdrawal amount")
    (Decimal.setString data.withdrawalAmount)
  Outcome.check (isHexAddress data.receiver) (.new "invalid destination address")
  let receiver ← mustDecode data.receiver
  return {
    amount := toBytes32 (bigBytes withdrawalAmount)
    receiver := receiver
    txHash := txHashToBytes32 keccak256 data.identifier.txHash
    txNonce := intToBytes32 data.identifier.txNonce
    chainId := toBytes32 (bigBytes destinationChainId)
    destinationTokenAddress := hexToAddress data.withdrawalToken
    isWrapped := boolToBytes data.isWrappedToken }

/-- The packed bytes that `CalculateHash` hashes. -/
def WithdrawNativeContent.preimage (w : WithdrawNativeContent) : Bytes :=
  w.amount ++ w.receiver ++ w.txHash ++ w.txNonce ++ w.chainId

def WithdrawERC20Content.preimage (w : WithdrawERC20Content) : Bytes :=
  w.destinationTokenAddress ++ w.amount ++ w.receiver ++ w.txHash ++ w.txNonce ++ w.chainId ++
    w.isWrapped

/-- `Operation`: a content of one of the two kinds. -/
inductive Operation where
  | native (content : WithdrawNativeContent)
  | erc20 (content : WithdrawERC20Content)

def Operation.preimage : Operation → Bytes
  | native content => content.preimage
  | erc20 content => content.preimage

def Operation.calculateHash (op : Operation) : Bytes := keccak256 op.preimage

end Signing

/-- The operation of `GetSignHash`. -/
def Client.operation (p : Client) (data : Deposit) : Result Operation :=
  if data.withdrawalToken = defaultNativeTokenAddress then do
    let content ← newWithdrawNativeContent p.keccak256 data
    return .native content
  else do
    let content ← newWithdrawERC20Content p.keccak256 data
    return .erc20 content

def Client.getSignHash (p : Client) (data : Deposit) : Result Bytes := do
  let operation ← (p.operation data).wrap "failed to create operation"
  return setSignaturePrefix p.keccak256 (operation.calculateHash p.keccak256)

/-- With a decimal chain id and amount and an accepted receiver, the only way to fail is a
receiver without the `0x` marker. -/
theorem Client.getSignHash_ok_iff (p : Client) {data : Deposit} {chainId amount : Int}
    (hchain : Decimal.setString data.withdrawalChainId = some chainId)
    (hamount : Decimal.setString data.withdrawalAmount = some amount)
    (hreceiver : isHexAddress data.receiver = true) :
    (∃ hash, p.getSignHash data = .ok hash) ↔ has0xPrefix data.receiver = true := by
  rw [← mustDecode_of_isHexAddress (ε := Err) hreceiver]
  by_cases hnative : data.withdrawalToken = defaultNativeTokenAddress
  · simp [getSignHash, operation, hnative, newWithdrawNativeContent, hchain, hamount]
  · simp [getSignHash, operation, hnative, newWithdrawERC20Content, hchain, hamount, hreceiver]

end TssSvc.Bridge.Evm
