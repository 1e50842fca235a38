import TssSvc.Bridge.Chain
import TssSvc.Lib.Base58

/-!
# The Solana client

`internal/bridge/chain/solana`.  A transaction is given as its compiled instructions; the Borsh
decoder's answer for an instruction's data is part of it.
-/

set_option autoImplicit false

namespace TssSvc.Bridge.Solana

open TssSvc.Db

/-- The three deposit instructions; they differ in the position of their accounts. -/
inductive DepositKind where
  | native
  | spl
  | wrapped
  deriving DecidableEq, Repr

structure DepositParams where
  bridgeId : GoString
  amount : UInt64
  chainId : GoString
  address : GoString
  referralId : Nat
  deriving DecidableEq, Repr

inductive Impl where
  | deposit (kind : DepositKind) (params : DepositParams)
  | other

/-- An instruction of a message: what its program, its accounts and its data resolve to. -/
structure CompiledInstruction where
  programId : Except GoString Bytes
  accounts : Except GoString (List Bytes)
  decoded : Except GoString Impl

structure Instruction where
  impl : Impl
  accounts : List Bytes

/-- `metaFailed` is none when the node left the meta data out. -/
structure TransactionResult where
  metaFailed : Option Bool
  slot : Nat
  message : Except GoString (List CompiledInstruction)

structure Client where
  id : GoString
  programId : Bytes
  bridgeId : GoString
  getTransaction : Bytes → Except GoString TransactionResult
  sha256 : Bytes → Bytes

def signatureFromBase58 (s : GoString) : Option Bytes :=
  (Base58.decode s).filter fun raw => decide (raw.length = 64)

def publicKeyFromBase58 (s : GoString) : Option Bytes :=
  (Base58.decode s).filter fun raw => decide (raw.length = 32)

/-- `contract.DecodeInstructions`: the program's own instructions, in order. -/
def decodeInstructions (programId : Bytes) : List CompiledInstruction → Result (List Instruction)
  | [] => .ok []
  | ins :: rest => do
      let program ← external ins.programId
      if program = programId then
        let accounts ← external ins.accounts
        let impl ← external ins.decoded
        let others ← decodeInstructions programId rest
        return ⟨impl, accounts⟩ :: others
      else decodeInstructions programId rest

def DepositKind.senderAccount : DepositKind → Nat
  | native => 1
  | spl => 2
  | wrapped => 1

/-- `AccountMetaSlice.Get(i).PublicKey.String()`. -/
def accountString (accounts : List Bytes) (i : Nat) : Result GoString := do
  let key ← Outcome.deref accounts[i]?
  return Base58.encode key

def tokenAddress (kind : DepositKind) (accounts : List Bytes) : Result GoString :=
  match kind with
  | .native => .ok defaultNativeTokenAddress
  | .spl | .wrapped => accountString accounts 0

/-- The amount passes through `int64`. -/
def depositData (id : DepositIdentifier) (slot : Nat) (kind : DepositKind) (params : DepositParams)
    (accounts : List Bytes) : Result DepositData := do
  let sender ← accountString accounts kind.senderAccount
  let token ← tokenAddress kind accounts
  return {
    identifier := id
    block := wrapInt64 slot
    sourceAddress := sender
    depositAmount := wrapInt64 params.amount.toNat
    tokenAddress := token
    destinationAddress := params.address
    destinationChainId := params.chainId
    referralId := params.referralId }

namespace Client

/-- Every decoded instruction is one of the program, so the source's check of the program id
after the lookup never fails. -/
def instructionDeposit (p : Client) (id : DepositIdentifier) (slot : Nat) (instr : Instruction) :
    Result DepositData :=
  match instr.impl with
  | .deposit kind params => do
      Outcome.check (params.bridgeId = p.bridgeId) Sentinel.errInvalidBridgeId.toErr
      depositData id slot kind params instr.accounts
  | .other => .err Sentinel.errDepositNotFound.toErr

/-- The instruction at the nonce of a transaction the node returned. -/
def instructionAt (p : Client) (txNonce : Int) (out : TransactionResult) :
    Result Instruction := do
  let metaFailed ← Outcome.deref out.metaFailed
  Outcome.check (metaFailed = false) Sentinel.errTxFailed.toErr
  let message ← (external out.message).wrap "failed to decode transaction"
  let instructions ← (decodeInstructions p.programId message).wrap "failed to decode instructions"
  Outcome.check (¬(instructions.length ≤ txNonce ∨ txNonce < 0)) Sentinel.errInvalidTxNonce.toErr
  Outcome.index instructions txNonce

/-- `GetDepositData` before its switch: the slot and the instruction that the identifier names. -/
def locate (p : Client) (id : DepositIdentifier) : Result (Nat × Instruction) := do
  let signature ← (Outcome.ofOption (.new "invalid signature")
    (signatureFromBase58 id.txHash)).wrap "failed to parse tx signature"
  let out ← (external (p.getTransaction signature)).wrap "failed to get transaction"
  let instr ← p.instructionAt id.txNonce out
  return (out.slot, instr)

def getDepositData (p : Client) (id : DepositIdentifier) : Result DepositData := do
  let (slot, instr) ← p.locate id
  p.instructionDeposit id slot instr

def addressValid (addr : GoString) : Bool := (publicKeyFromBase58 addr).isSome

/-- Token amounts are `uint64`. -/
def withdrawalAmountValid (amount : Int) : Bool := decide (0 < amount ∧ amount < 2 ^ 64)

theorem instructionDeposit_identifier {p : Client} {id : DepositIdentifier} {slot : Nat}
    {instr : Instruction} {data : DepositData}
    (h : p.instructionDeposit id slot instr = .ok data) : data.identifier = id := by
  simp only [instructionDeposit] at h
  split at h
  · simp only [depositData, Outcome.bind_eq_ok, Outcome.pure_eq_ok, Outcome.ok.injEq] at h
    obtain ⟨_, _, _, _, _, _, rfl⟩ := h
    rfl
  · cases h

def toClient (p : Client) : Bridge.Client where
  type := .solana
  chainId := p.id
  getDepositData := p.getDepositData
  addressValid := addressValid
  transactionHashValid := solanaTransactionHashPattern
  withdrawalAmountValid := withdrawalAmountValid
  identifies := by
    intro id data h
    simp only [getDepositData, Outcome.bind_eq_ok] at h
    obtain ⟨_, _, hdeposit⟩ := h
    exact instructionDeposit_identifier hdeposit

end Client

/-! ## Signing data -/

/-- `binary.LittleEndian.PutUint64`. -/
def littleEndian64 (n : Nat) : Bytes :=
  (List.range 8).map fun i => UInt8.ofNat (n / 256 ^ i % 256)

/-- What the unique id is the digest of. -/
def uidInput (identifier : DepositIdentifier) : Bytes :=
  identifier.txHash ++ littleEndian64 (toUint64 identifier.txNonce)

namespace Client

/-- The token's bytes close the buffer of a token withdrawal. -/
def tokenBytes (withdrawalToken : GoString) : Result Bytes :=
  if withdrawalToken = defaultNativeTokenAddress then .ok []
  else Outcome.ofOption (.new "invalid public key") (publicKeyFromBase58 withdrawalToken)

/-- `buffer` of `GetSignHash` before the last hash. -/
def withdrawBuffer (p : Client) (data : Deposit) : Result Bytes := do
  let amount ← (Outcome.ofOption (.new "parsing error")
    (Decimal.parseUint64 data.withdrawalAmount)).wrap "failed to parse withdrawal amount"
  let receiver ← (Outcome.ofOption (.new "invalid public key")
    (publicKeyFromBase58 data.receiver)).wrap "failed to parse receiver address"
  let token ← tokenBytes data.withdrawalToken
  return str "withdraw" ++ p.bridgeId ++ littleEndian64 amount ++
    p.sha256 (uidInput data.identifier) ++ receiver ++ token

def getSignHash (p : Client) (data : Deposit) : Result Bytes := do
  let buffer ← p.withdrawBuffer data
  return p.sha256 buffer

def TokenWellFormed (token : GoString) : Prop :=
  token = defaultNativeTokenAddress ∨ (publicKeyFromBase58 token).isSome

instance (token : GoString) : Decidable (TokenWellFormed token) :=
  inferInstanceAs (Decidable (_ ∨ _))

/-- With an accepted receiver and a well-formed token, the only way to fail is an amount that
is not a `uint64`. -/
theorem getSignHash_ok_iff (p : Client) {data : Deposit} {amount : Int}
    (hamount : data.withdrawalAmount = Decimal.formatInt amount)
    (hreceiver : addressValid data.receiver = true)
    (htoken : TokenWellFormed data.withdrawalToken) :
    (∃ hash, p.getSignHash data = .ok hash) ↔ 0 ≤ amount ∧ amount < 2 ^ 64 := by
  obtain ⟨receiver, hkey⟩ := Option.isSome_iff_exists.mp hreceiver
  have htokenOk : ∃ bytes, tokenBytes data.withdrawalToken = .ok bytes := by
    by_cases hnative : data.withdrawalToken = defaultNativeTokenAddress
    · exact ⟨[], if_pos hnative⟩
    · obtain ⟨bytes, hbytes⟩ := Option.isSome_iff_exists.mp (htoken.resolve_left hnative)
      exact ⟨bytes, by simp [tokenBytes, hnative, hbytes]⟩
  obtain ⟨token, htoken⟩ := htokenOk
  simp only [getSignHash, withdrawBuffer, hamount, Decimal.parseUint64_formatInt, hkey, htoken]
  split
  · rename_i hrange
    simp
    exact hrange
  · rename_i hrange
    simp only [Outcome.bind_eq_ok, Outcome.wrap_eq_ok, Outcome.ofOption_eq_ok, reduceCtorEq,
      false_and, exists_false, false_iff]
    exact hrange

end Client

end TssSvc.Bridge.Solana
