import TssSvc.Bridge.Chain

/-!
# Deposits in TON transactions

`DepositDecoder` of `internal/bridge/chain/ton/deposit.go`.  The bridge contract reports a deposit
in an outgoing external message; the decoder takes the first such message under one of its two
operation codes.  Cells and addresses belong to `tonutils-go`, whose functions are fields of
`CellLib`, and the runes of a text to the standard library.
-/

set_option autoImplicit false

namespace TssSvc.Bridge.Ton

open TssSvc.Db

def depositNativeOpCode : GoString := str "0xe858a993"

def depositJettonOpCode : GoString := str "0x02ddcbe3"

def opCodeBitSize : Nat := 32

def amountBitSize : Nat := 257

def receiverBitSize : Nat := 1016

def referralBitSize : Nat := 16

def receiverCellId : Nat := 0

def networkCellId : Nat := 1

/-- `errParseExternalMessage.Error()`. -/
def errParseExternalMessage : String := "error parsing external out msg"

/-! ## What is read -/

/-- A cell, and a slice of one: the bits and references that are left. -/
structure Cell where
  bits : List Bool
  refs : List Cell

inductive MsgType where
  | internal
  | externalIn
  | externalOut
  deriving DecidableEq, Repr

structure Message where
  msgType : MsgType
  body : Cell

/-- A `tlb.Transaction`; `outMsgs` is what `IO.Out.ToSlice` returns. -/
structure Transaction where
  lt : Nat
  outMsgCount : Nat
  outMsgs : Except GoString (List Message)

/-- The readers of a slice, each with what it leaves, and the printed form of an address on the
test network or the main one. -/
structure CellLib where
  loadBigUInt : Nat → Cell → Except GoString (Nat × Cell)
  loadInt : Nat → Cell → Except GoString (Int × Cell)
  loadUInt : Nat → Cell → Except GoString (Nat × Cell)
  loadBoolBit : Cell → Except GoString (Bool × Cell)
  loadAddr : Cell → Except GoString (Bytes × Cell)
  loadSlice : Nat → Cell → Except GoString (Bytes × Cell)
  loadStringSnake : Cell → Except GoString GoString
  peekRef : Cell → Nat → Except GoString Cell
  addressString : Bool → Bytes → GoString

/-- The runes `range` gives of a string, `unicode.IsPrint` and `WriteRune`. -/
structure RuneLib where
  runes : GoString → List Nat
  isPrint : Nat → Bool
  writeRune : Nat → Bytes

/-! ## The decoder -/

/-- The content holds a sender and a token as they print, not as addresses. -/
structure DepositNativeContent where
  sender : GoString
  amount : Int
  receiver : GoString
  chainId : GoString
  referralId : Nat

structure DepositJettonContent extends DepositNativeContent where
  isWrapped : Bool
  tokenAddress : GoString

structure DepositDecoder where
  isTestnet : Bool
  cells : CellLib
  text : RuneLib

def parseMsgOpCode (lib : CellLib) (msg : Cell) : Result GoString := do
  let (op, _) ← (external (lib.loadBigUInt opCodeBitSize msg)).wrap
    "failed to load message opcode"
  return hexutilEncode (bigBytes op)

def cleanPrintable (lib : RuneLib) (s : GoString) : GoString :=
  ((lib.runes s).filter lib.isPrint).flatMap lib.writeRune

namespace DepositDecoder

def parseDepositJettonBody (dd : DepositDecoder) (body : Cell) :
    Result DepositJettonContent := do
  let (_, slice) ← (external (dd.cells.loadInt opCodeBitSize body)).wrap
    "failed to skip opCode bytes"
  let (sender, slice) ← (external (dd.cells.loadAddr slice)).wrap "error loading sender"
  let (amount, slice) ← (external (dd.cells.loadInt amountBitSize slice)).wrap
    "error loading amount"
  let (isWrapped, slice) ← (external (dd.cells.loadBoolBit slice)).wrap "error loading wrapped"
  -- the source gives the token's failure the text of the amount's
  let (tokenAddr, slice) ← (external (dd.cells.loadAddr slice)).wrap "error loading amount"
  let (referralId, _) ← (external (dd.cells.loadUInt referralBitSize slice)).wrap
    "error parsing referralId"
  let receiverCell ← (external (dd.cells.peekRef body receiverCellId)).wrap
    "error getting address"
  let (receiver, _) ← (external (dd.cells.loadSlice receiverBitSize receiverCell)).wrap
    "error parsing receiver"
  let networkCell ← (external (dd.cells.peekRef body networkCellId)).wrap "error getting network"
  let network ← (external (dd.cells.loadStringSnake networkCell)).wrap "error loading network"
  return {
    sender := dd.cells.addressString dd.isTestnet sender
    amount := amount
    receiver := cleanPrintable dd.text receiver
    chainId := cleanPrintable dd.text network
    isWrapped := isWrapped
    tokenAddress := dd.cells.addressString dd.isTestnet tokenAddr
    referralId := referralId % 2 ^ 16 }

def parseDepositNativeBody (dd : DepositDecoder) (body : Cell) :
    Result DepositNativeContent := do
  let (_, slice) ← (external (dd.cells.loadInt opCodeBitSize body)).wrap
    "failed to skip opCode bytes"
  let (sender, slice) ← (external (dd.cells.loadAddr slice)).wrap "error parsing sender address"
  let (amount, slice) ← (external (dd.cells.loadInt amountBitSize slice)).wrap
    "error parsing amount"
  let (referralId, _) ← (external (dd.cells.loadUInt referralBitSize slice)).wrap
    "error parsing referralId"
  let receiverCell ← (external (dd.cells.peekRef body receiverCellId)).wrap
    "error getting receiver ref"
  let (receiver, _) ← (external (dd.cells.loadSlice receiverBitSize receiverCell)).wrap
    "error parsing receiver address"
  let networkCell ← (external (dd.cells.peekRef body networkCellId)).wrap
    "error getting network ref"
  let network ← (external (dd.cells.loadStringSnake networkCell)).wrap "error parsing network"
  return {
    sender := dd.cells.addressString dd.isTestnet sender
    amount := amount
    receiver := cleanPrintable dd.text receiver
    chainId := cleanPrintable dd.text network
    referralId := referralId % 2 ^ 16 }

/-- The identifier is the zero value until `GetDepositData` sets it. -/
def formJettonDepositData (content : DepositJettonContent) (tx : Transaction) : DepositData where
  identifier := ⟨[], 0, []⟩
  block := wrapInt64 tx.lt
  sourceAddress := content.sender
  depositAmount := content.amount
  tokenAddress := content.tokenAddress
  destinationChainId := content.chainId
  destinationAddress := content.receiver
  referralId := content.referralId

def formNativeDepositData (content : DepositNativeContent) (tx : Transaction) : DepositData where
  identifier := ⟨[], 0, []⟩
  block := wrapInt64 tx.lt
  sourceAddress := content.sender
  depositAmount := content.amount
  tokenAddress := defaultNativeTokenAddress
  destinationAddress := content.receiver
  destinationChainId := content.chainId
  referralId := content.referralId

/-- The loop over the outgoing messages. -/
def parseMsgs (dd : DepositDecoder) (tx : Transaction) : List Message → Result DepositData
  | [] => .err Sentinel.errDepositNotFound.toErr
  | msg :: msgs =>
      if msg.msgType ≠ .externalOut then dd.parseMsgs tx msgs
      else do
        let opCode ← (parseMsgOpCode dd.cells msg.body).wrap errParseExternalMessage
        if opCode = depositNativeOpCode then do
          -- only the text of `ErrDepositNotFound` is wrapped around, not the error
          let content ← (dd.parseDepositNativeBody msg.body).wrap
            Sentinel.errDepositNotFound.text
          return formNativeDepositData content tx
        else if opCode = depositJettonOpCode then do
          let content ← (dd.parseDepositJettonBody msg.body).wrap
            Sentinel.errDepositNotFound.text
          return formJettonDepositData content tx
        else dd.parseMsgs tx msgs

def parseDepositData (dd : DepositDecoder) (tx : Transaction) : Result DepositData := do
  Outcome.check (tx.outMsgCount ≠ 0) Sentinel.errDepositNotFound.toErr
  let msgs ← (external tx.outMsgs).wrap "error getting IO out msgs"
  dd.parseMsgs tx msgs

/-! ## Which message is taken -/

variable {dd : DepositDecoder} {tx : Transaction} {data : DepositData}

/-- The decoder goes on to the next message. -/
def Skips (dd : DepositDecoder) (msg : Message) : Prop :=
  msg.msgType = .externalOut → ∃ opCode, parseMsgOpCode dd.cells msg.body = .ok opCode ∧
    opCode ≠ depositNativeOpCode ∧ opCode ≠ depositJettonOpCode

/-- The data are the content of a message under the operation code of a deposit. -/
inductive Reports (dd : DepositDecoder) (tx : Transaction) (msg : Message) :
    DepositData → Prop where
  | native {content : DepositNativeContent} (out : msg.msgType = .externalOut)
      (opCode : parseMsgOpCode dd.cells msg.body = .ok depositNativeOpCode)
      (parsed : dd.parseDepositNativeBody msg.body = .ok content) :
      Reports dd tx msg (formNativeDepositData content tx)
  | jetton {content : DepositJettonContent} (out : msg.msgType = .externalOut)
      (opCode : parseMsgOpCode dd.cells msg.body = .ok depositJettonOpCode)
      (parsed : dd.parseDepositJettonBody msg.body = .ok content) :
      Reports dd tx msg (formJettonDepositData content tx)

theorem opCodes_differ : depositJettonOpCode ≠ depositNativeOpCode := by decide

/-- One turn of the loop. -/
theorem parseMsgs_cons_eq_ok {msg : Message} {msgs : List Message} :
    dd.parseMsgs tx (msg :: msgs) = .ok data ↔
      dd.Reports tx msg data ∨ dd.Skips msg ∧ dd.parseMsgs tx msgs = .ok data := by
  rw [parseMsgs]
  constructor
  · intro h
    split_ifs at h with hout
    · exact .inr ⟨fun out => absurd out hout, h⟩
    · obtain ⟨opCode, hop, h⟩ := Outcome.bind_eq_ok.mp h
      rw [Outcome.wrap_eq_ok] at hop
      have out : msg.msgType = .externalOut := not_not.mp hout
      split_ifs at h with hnative hjetton
      · obtain ⟨content, hcontent, h⟩ := Outcome.bind_eq_ok.mp h
        cases h
        exact .inl (.native out (hnative ▸ hop) (Outcome.wrap_eq_ok.mp hcontent))
      · obtain ⟨content, hcontent, h⟩ := Outcome.bind_eq_ok.mp h
        cases h
        exact .inl (.jetton out (hjetton ▸ hop) (Outcome.wrap_eq_ok.mp hcontent))
      · exact .inr ⟨fun _ => ⟨opCode, hop, hnative, hjetton⟩, h⟩
  · rintro (hreports | ⟨hskips, h⟩)
    · cases hreports with
      | native out opCode parsed => simp [out, opCode, parsed, Outcome.wrap]
      | jetton out opCode parsed => simp [out, opCode, parsed, opCodes_differ, Outcome.wrap]
    · by_cases out : msg.msgType = .externalOut
      · obtain ⟨opCode, hop, hnative, hjetton⟩ := hskips out
        simp [out, hop, hnative, hjetton, h, Outcome.wrap]
      · simp [out, h]

theorem parseMsgs_eq_ok_iff {msgs : List Message} :
    dd.parseMsgs tx msgs = .ok data ↔
      ∃ before msg after, msgs = before ++ msg :: after ∧ (∀ m ∈ before, dd.Skips m) ∧
        dd.Reports tx msg data := by
  induction msgs with
  | nil => simp [parseMsgs]
  | cons msg msgs ih =>
      rw [parseMsgs_cons_eq_ok, ih]
      constructor
      · rintro (hreports | ⟨hskips, before, m, after, rfl, hbefore, hreports⟩)
        · exact ⟨[], msg, msgs, rfl, by simp, hreports⟩
        · have hall : ∀ m ∈ msg :: before, dd.Skips m :=
            List.forall_mem_cons.mpr ⟨hskips, hbefore⟩
          exact ⟨msg :: before, m, after, rfl, hall, hreports⟩
      · rintro ⟨before, m, after, heq, hbefore, hreports⟩
        cases before with
        | nil =>
            obtain ⟨rfl, rfl⟩ := List.cons.inj heq
            exact .inl hreports
        | cons m' before =>
            obtain ⟨rfl, rfl⟩ := List.cons.inj heq
            obtain ⟨hskips, hbefore⟩ := List.forall_mem_cons.mp hbefore
            exact .inr ⟨hskips, before, m, after, rfl, hbefore, hreports⟩

/-- The deposit of a transaction is its first message under the operation code of a deposit, and
every external message before that one has to have a readable operation code. -/
theorem parseDepositData_eq_ok_iff :
    dd.parseDepositData tx = .ok data ↔ tx.outMsgCount ≠ 0 ∧
      ∃ before msg after, tx.outMsgs = .ok (before ++ msg :: after) ∧
        (∀ m ∈ before, dd.Skips m) ∧ dd.Reports tx msg data := by
  simp only [parseDepositData, Outcome.bind_eq_ok, Outcome.check_eq_ok, Outcome.wrap_eq_ok,
    external_eq_ok, parseMsgs_eq_ok_iff]
  constructor
  · rintro ⟨-, hcount, -, hmsgs, before, msg, after, rfl, hbefore, hreports⟩
    exact ⟨hcount, before, msg, after, hmsgs, hbefore, hreports⟩
  · rintro ⟨hcount, before, msg, after, hmsgs, hbefore, hreports⟩
    exact ⟨(), hcount, _, hmsgs, before, msg, after, rfl, hbefore, hreports⟩

/-! ## Every transaction is decoded or refused -/

theorem returns_parseDepositJettonBody (body : Cell) :
    (dd.parseDepositJettonBody body).Returns := by
  simp [parseDepositJettonBody]

theorem returns_parseDepositNativeBody (body : Cell) :
    (dd.parseDepositNativeBody body).Returns := by
  simp [parseDepositNativeBody]

theorem returns_parseMsgs (msgs : List Message) : (dd.parseMsgs tx msgs).Returns := by
  induction msgs with
  | nil => simp [parseMsgs]
  | cons msg msgs ih =>
      rw [parseMsgs]
      split_ifs
      · exact ih
      · refine Outcome.returns_bind.mpr ⟨by simp [parseMsgOpCode], fun opCode _ => ?_⟩
        split_ifs
        · simp [returns_parseDepositNativeBody]
        · simp [returns_parseDepositJettonBody]
        · exact ih

theorem returns_parseDepositData (dd : DepositDecoder) (tx : Transaction) :
    (dd.parseDepositData tx).Returns := by
  simp [parseDepositData, returns_parseMsgs]

end DepositDecoder

end TssSvc.Bridge.Ton
