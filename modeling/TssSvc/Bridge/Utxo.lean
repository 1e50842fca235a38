import Mathlib.Data.List.Infix
import TssSvc.Bridge.Chain
import TssSvc.Bridge.Encoding

/-!
# The UTXO client

`internal/bridge/chain/utxo/client` and the parts of the BTC and BCH helpers that read scripts.
The two helpers differ only in the script library behind them, which is a parameter.  Output
values are given in the smallest unit.
-/

set_option autoImplicit false

namespace TssSvc.Bridge.Utxo

open TssSvc.Db

/-! ## Scripts and addresses -/

/-- The functions of `txscript` and of the address package for the configured network. -/
structure ScriptLib where
  isPubKeyHash : Bytes → Bool
  extractPkScriptAddrs : Bytes → Except GoString (List GoString)
  isNullData : Bytes → Bool
  pushedData : Bytes → Except GoString (List Bytes)
  decodeAddress : GoString → Except GoString Bytes
  payToAddrScript : Bytes → Except GoString Bytes

namespace ScriptLib

def scriptSupported (lib : ScriptLib) (script : Bytes) : Bool :=
  script ≠ [] && lib.isPubKeyHash script

/-- An empty script has no addresses, and that is not an error. -/
def extractScriptAddresses (lib : ScriptLib) (script : Bytes) : Result (List GoString) :=
  if script = [] then .ok []
  else do
    let addresses ← (external (lib.extractPkScriptAddrs script)).wrap
      "failed to extract addresses from script pub key"
    Outcome.check (addresses ≠ []) (.new "no addresses found in script pub key")
    return addresses

def retrieveOpReturnData (lib : ScriptLib) (script : Bytes) : Result Bytes := do
  Outcome.check (lib.isNullData script) (.new "invalid script type, expected valid OP_RETURN")
  let data ← (external (lib.pushedData script)).wrap "failed to retrieve pushed data from script"
  Outcome.check (data.length = 1)
    (.new "expected exactly one pushed data item in OP_RETURN script")
  Outcome.index data 0

def addressValid (lib : ScriptLib) (addr : GoString) : Bool :=
  match lib.decodeAddress addr with
  | .ok _ => true
  | .error _ => false

def payToAddr (lib : ScriptLib) (addr : GoString) : Result Bytes := do
  let address ← (external (lib.decodeAddress addr)).wrap "failed to decode address"
  (external (lib.payToAddrScript address)).wrap "failed to create pay-to-address script"

end ScriptLib

/-! ## The node -/

structure Vin where
  txid : GoString
  vout : Nat

structure Vout where
  value : Int
  scriptHex : GoString

structure TxRawResult where
  txid : GoString
  blockHash : GoString
  confirmations : Nat
  vin : List Vin
  vout : List Vout

structure Rpc where
  getRawTransactionVerbose : GoString → Except GoString TxRawResult
  getBlockHeight : GoString → Except GoString Int

structure Client where
  id : GoString
  confirmations : Nat
  receivers : List GoString
  rpc : Rpc
  lib : ScriptLib
  keccak256 : Bytes → Bytes

def errTxNotFound : GoString := str "No such mempool or blockchain transaction"

def dustAmount : Int := 547

/-- An error of the script library becomes the sentinel with the library's text. -/
def invalidScript {α : Type} (x : Result α) : Result α :=
  x.mapErr fun e => Sentinel.errInvalidScriptPubKey.toErr.wrap e.text

@[simp] theorem invalidScript_eq_ok {α : Type} {x : Result α} {a : α} :
    invalidScript x = .ok a ↔ x = .ok a := by
  simp [invalidScript]

def scriptOf (out : Vout) : Result Bytes :=
  invalidScript (Outcome.ofOption (.new "encoding/hex") (decodeString out.scriptHex))

/-! ## Memos -/

structure DepositMemo where
  address : GoString
  chainId : GoString
  referralId : Nat
  deriving DecidableEq, Repr

def referralIdLength : Nat := 2

/-- `[lenChainId][chainId][referralId][addressEncodingType][destinationAddress]`. -/
def decodeDepositMemoV2 (keccak256 : Bytes → Bytes) (raw : Bytes) : Result DepositMemo := do
  Outcome.check (raw ≠ [])
    (Sentinel.errInvalidScriptPubKey.toErr.wrap (str "empty deposit memo"))
  let first ← Outcome.index raw 0
  let chainIdLength := first.toNat
  Outcome.check (1 + chainIdLength + referralIdLength + 1 < raw.length)
    (Sentinel.errInvalidScriptPubKey.toErr.wrap (str "invalid deposit memo length"))
  let chainIdEndIdx := 1 + chainIdLength
  let chainId := (raw.take chainIdEndIdx).drop 1
  let high ← Outcome.index raw chainIdEndIdx
  let low ← Outcome.index raw (chainIdEndIdx + 1 : Nat)
  let encodingTypeByte ← Outcome.index raw (chainIdEndIdx + referralIdLength : Nat)
  let encoder ← Outcome.ofOption
    (Sentinel.errInvalidScriptPubKey.toErr.wrap (str "unknown address encoding type"))
    (Encoding.getEncoder encodingTypeByte)
  let address ← encoder.encode keccak256 (raw.drop (chainIdEndIdx + referralIdLength + 1))
  return ⟨address, chainId, high.toNat * 256 + low.toNat⟩

def dstSeparator : UInt8 := 0x23

def dstZanoAddrLen : Nat := 71

/-- All parts but the last belong to the address, whose raw bytes may contain the separator. -/
def joinedParts (parts : List GoString) : GoString × GoString :=
  ([dstSeparator].intercalate parts.dropLast, parts.getLastD [])

def decodeDepositMemoV1 (raw : Bytes) : Result DepositMemo := do
  let parts := raw.splitOn dstSeparator
  Outcome.check (2 ≤ parts.length) (.new "invalid destination parameters")
  let (addr, chainId) := joinedParts parts
  Outcome.check (addr.length ≠ 0 ∧ chainId.length ≠ 0) (.new "invalid destination parameters")
  return ⟨if addr.length = dstZanoAddrLen then Base58.encode addr else addr, chainId, 0⟩

/-- The memo of an output: V2 if it decodes, V1 otherwise. -/
def decodeDepositMemo (keccak256 : Bytes → Bytes) (raw : Bytes) : Result DepositMemo :=
  match decodeDepositMemoV2 keccak256 raw with
  | .err _ => invalidScript (decodeDepositMemoV1 raw)
  | other => other

namespace Client

def decodeDepositMemoOutput (c : Client) (out : Vout) : Result DepositMemo := do
  let scriptRaw ← scriptOf out
  let raw ← invalidScript (c.lib.retrieveOpReturnData scriptRaw)
  decodeDepositMemo c.keccak256 raw

/-! ## Deposits -/

def decodeDepositOutput (c : Client) (out : Vout) : Result Int := do
  let scriptRaw ← scriptOf out
  Outcome.check (c.lib.scriptSupported scriptRaw)
    (Sentinel.errInvalidScriptPubKey.toErr.wrap (str "invalid deposit output script"))
  let addresses ← invalidScript (c.lib.extractScriptAddresses scriptRaw)
  Outcome.check (addresses.length = 1) (Sentinel.errInvalidScriptPubKey.toErr.wrap
    (str "expected exactly one address in deposit output"))
  let address ← Outcome.index addresses 0
  Outcome.check (address ∈ c.receivers) (Sentinel.errInvalidReceiverAddress.toErr.wrap
    (str "deposit output address is not a bridge address"))
  Outcome.check (out.value ≠ 0) Sentinel.errInvalidDepositedAmount.toErr
  return out.value

/-- `DepositDecoder.Decode`: the output at the nonce and the memo in the output after it. -/
def decode (c : Client) (tx : TxRawResult) (depositIdx : Int) : Result (Int × DepositMemo) := do
  Outcome.check (0 ≤ depositIdx)
    (Sentinel.errInvalidTransactionData.toErr.wrap (str "invalid deposit index"))
  let destinationOutputIdx := wrapInt64 (depositIdx + 1)
  Outcome.check (destinationOutputIdx < tx.vout.length) Sentinel.errDepositNotFound.toErr
  let depositOutput ← Outcome.index tx.vout depositIdx
  let amount ← (c.decodeDepositOutput depositOutput).wrap "failed to decode deposit output"
  let memoOutput ← Outcome.index tx.vout destinationOutputIdx
  let depositMemo ← (c.decodeDepositMemoOutput memoOutput).wrap
    "failed to decode destination output"
  return (amount, depositMemo)

def getTransaction (c : Client) (txHash : GoString) : Result TxRawResult :=
  match c.rpc.getRawTransactionVerbose (trimHexPrefix txHash) with
  | .ok tx => .ok tx
  | .error text =>
      if errTxNotFound <:+: text then .err Sentinel.errTxNotFound.toErr
      else .err (GoError.wrap (str "failed to get raw transaction") ⟨none, text⟩)

def parseSenderAddress (c : Client) (input : Vin) : Result GoString := do
  let prevTx ← (c.getTransaction input.txid).mapErr
    (GoError.wrap (str "failed to get previous transaction " ++ input.txid))
  Outcome.check (input.vout < prevTx.vout.length) (.new "sender vout not found")
  let output ← Outcome.index prevTx.vout input.vout
  let scriptRaw ← scriptOf output
  let addrs ← invalidScript (c.lib.extractScriptAddresses scriptRaw)
  Outcome.index addrs 0

def getDepositData (c : Client) (id : DepositIdentifier) : Result DepositData := do
  let tx ← (c.getTransaction id.txHash).wrap "failed to get transaction"
  Outcome.check (tx.blockHash ≠ []) Sentinel.errTxPending.toErr
  Outcome.check (c.confirmations ≤ tx.confirmations) Sentinel.errTxNotConfirmed.toErr
  let height ← (external (c.rpc.getBlockHeight tx.blockHash)).wrap "failed to get block"
  let (amount, memo) ← (c.decode tx id.txNonce).wrap "failed to decode deposit data"
  let input ← Outcome.index tx.vin 0
  let depositor ← (c.parseSenderAddress input).wrap "failed to get depositor"
  return {
    identifier := id
    destinationChainId := memo.chainId
    destinationAddress := memo.address
    sourceAddress := depositor
    depositAmount := amount
    referralId := memo.referralId
    tokenAddress := defaultNativeTokenAddress
    block := height }

def withdrawalAmountValid (amount : Int) : Bool := decide (dustAmount ≤ amount)

def toClient (c : Client) : Bridge.Client where
  type := .bitcoin
  chainId := c.id
  getDepositData := c.getDepositData
  addressValid := c.lib.addressValid
  transactionHashValid := defaultTransactionHashPattern
  withdrawalAmountValid := withdrawalAmountValid
  identifies := by
    intro id data h
    simp only [getDepositData, Outcome.bind_eq_ok, Outcome.pure_eq_ok, Outcome.ok.injEq] at h
    obtain ⟨_, _, _, _, _, _, _, _, _, _, _, _, _, _, rfl⟩ := h
    rfl

end Client

end TssSvc.Bridge.Utxo
