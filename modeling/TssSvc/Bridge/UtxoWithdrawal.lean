import TssSvc.Bridge.Utxo
import TssSvc.Session.Mechanism
import TssSvc.Session.Payload

/-!
# UTXO withdrawals

`internal/bridge/withdrawal/utxo.go`, with the parts of `utxo/utils` and of the BTC and BCH
helpers it calls.  Amounts are `int64` in the smallest unit: every sum and difference wraps.  The
wire format, the signature hashes, the size estimate, the hashes of `chainhash` with their text
form and `txauthor.NewUnsignedTransaction` are parameters; the last one as a function of the
outputs, the fee rate, the arranged unspent outputs its input source serves and the change script.
-/

set_option autoImplicit false

namespace TssSvc.Bridge.Utxo

open TssSvc.Db TssSvc.Session

/-- `types.OutPoint`, the key of the wallet's outputs: the id is a text. -/
structure OutPoint where
  txId : GoString
  index : UInt32
  deriving DecidableEq, Repr

/-- `chainhash.Hash`. -/
structure Hash where
  bytes : Bytes
  size : bytes.length = 32
  deriving DecidableEq, Repr

/-- `wire.OutPoint`, what an input spends. -/
structure WireOutPoint where
  hash : Hash
  index : UInt32
  deriving DecidableEq, Repr

/-- The outpoint under which the wallet is searched. -/
def WireOutPoint.text (hashString : Hash → GoString) (p : WireOutPoint) : OutPoint :=
  ⟨hashString p.hash, p.index⟩

structure TxIn where
  previousOutPoint : WireOutPoint
  signatureScript : Bytes
  sequence : UInt32
  deriving DecidableEq, Repr

def maxTxInSequenceNum : UInt32 := 0xffffffff

/-- `wire.NewTxIn` of a new outpoint, without a script. -/
def newTxIn (hash : Hash) (index : UInt32) : TxIn := ⟨⟨hash, index⟩, [], maxTxInSequenceNum⟩

structure TxOut where
  value : Int
  pkScript : Bytes
  deriving DecidableEq, Repr

structure MsgTx where
  version : Int32
  txIn : List TxIn
  txOut : List TxOut
  lockTime : UInt32
  deriving DecidableEq, Repr

structure AuthoredTx where
  tx : MsgTx
  prevScripts : List Bytes
  prevInputValues : List Int
  totalInput : Int
  changeIndex : Int
  deriving DecidableEq, Repr

structure ListUnspentResult where
  txId : GoString
  vout : UInt32
  amount : Int
  scriptPubKey : GoString
  deriving DecidableEq, Repr

def ListUnspentResult.outPoint (u : ListUnspentResult) : OutPoint := ⟨u.txId, u.vout⟩

structure WithdrawalConstructor where
  client : Client
  tssAddr : GoString
  listUnspent : Except GoString (List ListUnspentResult)
  estimateFeeOrDefault : Int
  newHashFromStr : GoString → Except GoString Hash
  hashString : Hash → GoString
  arrangeOutputs : List ListUnspentResult → List ListUnspentResult
  author : List TxOut → Int → List ListUnspentResult → Bytes → Except GoString AuthoredTx
  estimateFee : MsgTx → Int → Int
  calcSignatureHash : Bytes → MsgTx → Nat → Int → Except GoString Bytes
  serialize : MsgTx → Bytes
  deserialize : Bytes → Except GoString MsgTx

def defaultFeeRateBtcPerKvb : Int := 1000

def maxFeeRateBtcPerKvb : Int := 5000

def feeRateValid (fee : Int) : Bool :=
  decide (defaultFeeRateBtcPerKvb ≤ fee ∧ fee ≤ maxFeeRateBtcPerKvb)

/-- `MapUnspent` and a lookup: a later entry of one outpoint has replaced an earlier one. -/
def lookupUnspent (unspent : List ListUnspentResult) (outPoint : OutPoint) :
    Option ListUnspentResult :=
  unspent.reverse.find? fun u => decide (u.outPoint = outPoint)

def findUsedInputs (hashString : Hash → GoString) (tx : MsgTx)
    (unspent : List ListUnspentResult) : Result (List ListUnspentResult) :=
  tx.txIn.mapM fun txIn =>
    let outPoint := txIn.previousOutPoint.text hashString
    Outcome.ofOption
      ⟨none, str "input " ++ outPoint.txId ++ str ":" ++
        Decimal.formatNat outPoint.index.toNat ++ str " not found in unspent outputs"⟩
      (lookupUnspent unspent outPoint)

namespace WithdrawalConstructor

def newUnsignedTransaction (c : WithdrawalConstructor) (unspent : List ListUnspentResult)
    (feeRate : Int) (outputs : List TxOut) (changeAddr : GoString) : Result AuthoredTx := do
  let changeScript ← ((c.client.lib.payToAddr changeAddr).wrap
    "failed to create change address script").wrap "failed to create change source"
  (external (c.author outputs feeRate (c.arrangeOutputs unspent) changeScript)).wrap
    "failed to create unsigned transaction"

def calculateSignatureHash (c : WithdrawalConstructor) (scriptRaw : Bytes) (tx : MsgTx) (idx : Nat)
    (amt : Int) : Result Bytes := do
  Outcome.check (scriptRaw ≠ []) (.new "script cannot be empty")
  (external (c.calcSignatureHash scriptRaw tx idx amt)).wrap "failed to calculate signature hash"

/-- The hashes of the inputs from `i` on; `slots` is the length of the result slice. -/
def signatureHashesFrom (c : WithdrawalConstructor) (data : AuthoredTx) (slots : Nat) :
    Nat → List Bytes → Result (List Bytes)
  | i, [] => .ok (List.replicate (slots - i) [])
  | i, script :: scripts => do
      let amt ← Outcome.index data.prevInputValues i
      let sigHash ← (c.calculateSignatureHash script data.tx i amt).mapErr
        (GoError.wrap (str "failed to calculate signature hash for tx " ++ Decimal.formatNat i))
      if slots ≤ i then .panic .indexOutOfRange
      else do
        let others ← c.signatureHashesFrom data slots (i + 1) scripts
        return sigHash :: others

def formSignatureHashes (c : WithdrawalConstructor) (data : AuthoredTx) : Result (List Bytes) :=
  c.signatureHashesFrom data data.tx.txIn.length 0 data.prevScripts

def addValue (outs : List TxOut) (i : Nat) (delta : Int) : List TxOut :=
  outs.modify i fun out => { out with value := wrapInt64 (out.value + delta) }

/-- The script of the change address.  The source ignores the error here: the script was built
before with success. -/
def changeScript (c : WithdrawalConstructor) : Bytes :=
  match c.client.lib.payToAddr c.tssAddr with
  | .ok script => script
  | _ => []

def withChange (c : WithdrawalConstructor) (tx : MsgTx) : MsgTx :=
  { tx with txOut := tx.txOut ++ [⟨0, c.changeScript⟩] }

/-- The end of `subtractFeeFromWithdrawal`, for a transaction without change: a change output is
added when what is left over is worth one. -/
def chargeAlone (c : WithdrawalConstructor) (data : AuthoredTx) (feeRate fee : Int)
    (receiver : TxOut) : AuthoredTx :=
  let txWithChange := c.withChange data.tx
  let feeWithChange := c.estimateFee txWithChange feeRate
  let amountWithChange := wrapInt64 (receiver.value - feeWithChange)
  let change := wrapInt64 (wrapInt64 (data.totalInput - amountWithChange) - feeWithChange)
  if Client.withdrawalAmountValid amountWithChange = false then data
  else if Client.withdrawalAmountValid change = false then
    { data with tx := { data.tx with txOut := addValue data.tx.txOut 0 (-fee) } }
  else
    let charged := addValue txWithChange.txOut 0 (-feeWithChange)
    { data with
      tx := { txWithChange with txOut := charged.modify 1 fun out => { out with value := change } }
      changeIndex := 1 }

/-- The fee is charged to the receiver's output unless that would leave dust. -/
def subtractFeeFromWithdrawal (c : WithdrawalConstructor) (data : AuthoredTx) (feeRate : Int) :
    Result AuthoredTx := do
  let fee := c.estimateFee data.tx feeRate
  let receiver ← Outcome.index data.tx.txOut 0
  if Client.withdrawalAmountValid (wrapInt64 (receiver.value - fee)) = false then return data
  else if data.changeIndex ≠ -1 then do
    let _ ← Outcome.index data.tx.txOut data.changeIndex
    let charged := addValue data.tx.txOut 0 (-fee)
    return { data with
      tx := { data.tx with txOut := addValue charged data.changeIndex.toNat fee } }
  else return c.chargeAlone data feeRate fee receiver

def receiverOutput (c : WithdrawalConstructor) (deposit : Deposit) : Result TxOut := do
  let amount ← Outcome.ofOption (.new "failed to parse amount")
    (Decimal.setString deposit.withdrawalAmount)
  let receiverScript ← (c.client.lib.payToAddr deposit.receiver).wrap "failed to create script"
  return ⟨wrapInt64 amount, receiverScript⟩

def unsignedTx (c : WithdrawalConstructor) (coins : List ListUnspentResult) (feeRate : Int)
    (output : TxOut) : Result AuthoredTx := do
  let authored ← (c.newUnsignedTransaction coins feeRate [output] c.tssAddr).wrap
    "failed to create unsigned transaction"
  c.subtractFeeFromWithdrawal authored feeRate

/-- The first half of `FormSigningData`: the transaction that is proposed. -/
def formTransaction (c : WithdrawalConstructor) (deposit : Deposit) : Result AuthoredTx := do
  let output ← c.receiverOutput deposit
  let unspent ← (external c.listUnspent).wrap "failed to get available UTXOs"
  c.unsignedTx unspent c.estimateFeeOrDefault output

def formSigningData (c : WithdrawalConstructor) (deposit : Deposit) :
    Result (Option BitcoinProposalData) := do
  let data ← c.formTransaction deposit
  let sigHashes ← (c.formSignatureHashes data).wrap "failed to form signature hashes"
  return some ⟨some deposit.identifier, c.serialize data.tx, c.estimateFeeOrDefault, sigHashes⟩

def compareHashes (i : Nat) : List Bytes → List Bytes → Result Unit
  | sigHash :: expected, proposedHash :: proposed =>
      if proposedHash = sigHash then compareHashes (i + 1) expected proposed
      else .err ⟨none, str "signature hash mismatch at index " ++ Decimal.formatNat i⟩
  | _, _ => .ok ()

def sigDataMatches (expected proposed : List Bytes) : Result Unit := do
  Outcome.check (expected.length = proposed.length) (.new "signature hashes number mismatch")
  compareHashes 0 expected proposed

theorem compareHashes_eq_ok (expected : List Bytes) : ∀ (i : Nat) (proposed : List Bytes),
    expected.length = proposed.length →
    (compareHashes i expected proposed = .ok () ↔ expected = proposed) := by
  induction expected with
  | nil =>
      intro i proposed hlen
      cases proposed with
      | nil => simp [compareHashes]
      | cons hash rest => simp at hlen
  | cons sigHash expected ih =>
      intro i proposed hlen
      cases proposed with
      | nil => simp at hlen
      | cons hash rest =>
          simp only [List.length_cons, Nat.add_right_cancel_iff] at hlen
          simp only [compareHashes, List.cons.injEq]
          split
          · rename_i heq
            rw [ih (i + 1) rest hlen]
            simp [heq]
          · rename_i hne
            simp [Ne.symm hne]

theorem sigDataMatches_eq_ok {expected proposed : List Bytes} :
    sigDataMatches expected proposed = .ok () ↔ expected = proposed := by
  simp only [sigDataMatches, Outcome.bind_eq_ok, Outcome.check_eq_ok]
  constructor
  · rintro ⟨_, hlen, heq⟩
    exact (compareHashes_eq_ok expected 0 proposed hlen).mp heq
  · intro heq
    have hlen : expected.length = proposed.length := by rw [heq]
    exact ⟨(), hlen, (compareHashes_eq_ok expected 0 proposed hlen).mpr heq⟩

def isValid (c : WithdrawalConstructor) (data : Option BitcoinProposalData) (deposit : Deposit) :
    Result Bool := do
  let proposal ← Outcome.deref data
  let tx ← (external (c.deserialize proposal.serializedTx)).wrap "failed to deserialize transaction"
  Outcome.check (feeRateValid proposal.feeRate)
    ⟨none, str "invalid fee rate: " ++ Decimal.formatInt proposal.feeRate⟩
  let unspent ← (external c.listUnspent).wrap "failed to get available UTXOs"
  let usedInputs ← (findUsedInputs c.hashString tx unspent).wrap "failed to find tx used inputs"
  let output ← c.receiverOutput deposit
  let expected ← c.unsignedTx usedInputs proposal.feeRate output
  Outcome.check (c.serialize expected.tx = proposal.serializedTx)
    (.new "provided transaction does not match the expected one")
  let sigHashes ← (c.formSignatureHashes expected).wrap "failed to form signature hashes"
  sigDataMatches sigHashes proposal.sigData
  return true

end WithdrawalConstructor

end TssSvc.Bridge.Utxo
