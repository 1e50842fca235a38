import TssSvc.Db.Deposits
import TssSvc.Lib.Hex

/-!
# Chain clients

`internal/bridge/chain/types.go`, `internal/bridge/common.go`, the clients repository, and the
errors of `internal/core/errors.go`.

A `Client` value is one client together with what its node answers at the time of the call.
-/

set_option autoImplicit false

namespace TssSvc.Bridge

open TssSvc.Db

/-! ## Errors -/

/-- The package-level errors of `chain` and `core`. -/
inductive Sentinel where
  | errChainNotSupported
  | errTxPending
  | errTxFailed
  | errTxNotFound
  | errDepositNotFound
  | errTxNotConfirmed
  | errInvalidReceiverAddress
  | errInvalidBridgeId
  | errInvalidDepositedAmount
  | errInvalidScriptPubKey
  | errInvalidTxNonce
  | errFailedUnpackLogs
  | errUnsupportedEvent
  | errUnsupportedContract
  | errInvalidTransactionData
  | errInvalidTransactionMemo
  | errTokenPairNotFound
  | errTokenInfoNotFound
  | errTransactionAlreadySubmitted
  | errSourceTokenInfoNotFound
  | errDestinationTokenInfoNotFound
  | errReferralNotFound
  deriving DecidableEq, Repr

def Sentinel.text : Sentinel → String
  | errChainNotSupported => "chain not supported"
  | errTxPending => "transaction is pending"
  | errTxFailed => "transaction failed"
  | errTxNotFound => "transaction not found"
  | errDepositNotFound => "deposit not found"
  | errTxNotConfirmed => "transaction not confirmed"
  | errInvalidReceiverAddress => "invalid receiver address"
  | errInvalidBridgeId => "invalid bridge id"
  | errInvalidDepositedAmount => "invalid deposited amount"
  | errInvalidScriptPubKey => "invalid script pub key"
  | errInvalidTxNonce => "invalid tx nonce"
  | errFailedUnpackLogs => "failed to unpack logs"
  | errUnsupportedEvent => "unsupported event"
  | errUnsupportedContract => "unsupported contract"
  | errInvalidTransactionData => "invalid transaction data"
  | errInvalidTransactionMemo => "invalid memo"
  | errTokenPairNotFound => "token pair not found"
  | errTokenInfoNotFound => "token info not found"
  | errTransactionAlreadySubmitted => "transaction already submitted"
  | errSourceTokenInfoNotFound => "source token not found"
  | errDestinationTokenInfoNotFound => "destination token not found"
  | errReferralNotFound => "referral not found"

abbrev Err := GoError Sentinel

abbrev Result := Outcome Err

def Sentinel.toErr (s : Sentinel) : Err := ⟨some s, str s.text⟩

def external {α : Type} : Except GoString α → Result α
  | .ok value => .ok value
  | .error text => .err ⟨none, text⟩

@[simp] theorem external_eq_ok {α : Type} {x : Except GoString α} {a : α} :
    external x = .ok a ↔ x = .ok a := by
  cases x <;> simp [external]

@[simp] theorem returns_external {α : Type} {x : Except GoString α} : (external x).Returns := by
  cases x <;> simp [external]

def isPendingDepositError (e : Err) : Bool := e.is .errTxPending || e.is .errTxNotConfirmed

def isInvalidDepositError (e : Err) : Bool :=
  e.is .errChainNotSupported || e.is .errTxFailed || e.is .errTxNotFound ||
    e.is .errDepositNotFound || e.is .errInvalidReceiverAddress ||
    e.is .errInvalidDepositedAmount || e.is .errInvalidScriptPubKey || e.is .errInvalidTxNonce ||
    e.is .errFailedUnpackLogs || e.is .errUnsupportedEvent || e.is .errUnsupportedContract

/-- `core.IsInvalidDepositError`. -/
def coreIsInvalidDepositError (e : Err) : Bool :=
  e.is .errTokenPairNotFound || e.is .errTokenInfoNotFound ||
    e.is .errDestinationTokenInfoNotFound || e.is .errSourceTokenInfoNotFound ||
    e.is .errReferralNotFound

/-! ## Constants and patterns -/

def hexPrefix : GoString := str "0x"

def defaultNativeTokenAddress : GoString := str "0x0000000000000000000000000000000000000000"

/-- The expression `^0x[a-fA-F0-9]{64}$`. -/
def defaultTransactionHashPattern (s : GoString) : Bool :=
  decide (s.take 2 = hexPrefix) && decide ((s.drop 2).length = 64) && (s.drop 2).all isHexChar

def isBase58Char (b : UInt8) : Bool :=
  decide ((0x31 ≤ b ∧ b ≤ 0x39) ∨ (0x41 ≤ b ∧ b ≤ 0x48) ∨ (0x4A ≤ b ∧ b ≤ 0x4E) ∨
    (0x50 ≤ b ∧ b ≤ 0x5A) ∨ (0x61 ≤ b ∧ b ≤ 0x6B) ∨ (0x6D ≤ b ∧ b ≤ 0x7A))

/-- The expression `^[1-9A-HJ-NP-Za-km-z]{86,88}$`. -/
def solanaTransactionHashPattern (s : GoString) : Bool :=
  decide (86 ≤ s.length ∧ s.length ≤ 88) && s.all isBase58Char

def trimHexPrefix (s : GoString) : GoString := if s.take 2 = hexPrefix then s.drop 2 else s

def wrapInt64 (x : Int) : Int := (x + 2 ^ 63) % 2 ^ 64 - 2 ^ 63

theorem wrapInt64_range (x : Int) : -2 ^ 63 ≤ wrapInt64 x ∧ wrapInt64 x < 2 ^ 63 := by
  unfold wrapInt64
  omega

theorem wrapInt64_of_range {x : Int} (low : -2 ^ 63 ≤ x) (high : x < 2 ^ 63) : wrapInt64 x = x := by
  unfold wrapInt64
  omega

theorem wrapInt64_wrapInt64 (x : Int) : wrapInt64 (wrapInt64 x) = wrapInt64 x :=
  wrapInt64_of_range (wrapInt64_range x).1 (wrapInt64_range x).2

theorem wrapInt64_diff (x : Int) : ∃ k, wrapInt64 x = x + 2 ^ 64 * k :=
  ⟨-((x + 2 ^ 63) / 2 ^ 64), by unfold wrapInt64; omega⟩

/-- Only the last of a chain of wraps counts. -/
theorem wrapInt64_add_left (x y : Int) : wrapInt64 (wrapInt64 x + y) = wrapInt64 (x + y) := by
  unfold wrapInt64
  omega

theorem wrapInt64_sub_left (x y : Int) : wrapInt64 (wrapInt64 x - y) = wrapInt64 (x - y) := by
  unfold wrapInt64
  omega

theorem wrapInt64_sub_right (x y : Int) : wrapInt64 (x - wrapInt64 y) = wrapInt64 (x - y) := by
  unfold wrapInt64
  omega

/-- What is not below the range can only wrap downwards. -/
theorem wrapInt64_le {x : Int} (low : -2 ^ 63 ≤ x) : wrapInt64 x ≤ x := by
  unfold wrapInt64
  omega

def maxInt64 : Int := 2 ^ 63 - 1

def IsInt64 (x : Int) : Prop := -2 ^ 63 ≤ x ∧ x ≤ maxInt64

instance (x : Int) : Decidable (IsInt64 x) := inferInstanceAs (Decidable (_ ∧ _))

theorem wrapInt64_of_isInt64 {x : Int} (h : IsInt64 x) : wrapInt64 x = x :=
  wrapInt64_of_range h.1 (Int.lt_of_le_sub_one h.2)

theorem isInt64_wrapInt64 (x : Int) : IsInt64 (wrapInt64 x) :=
  ⟨(wrapInt64_range x).1, Int.le_sub_one_of_lt (wrapInt64_range x).2⟩

def toUint64 (x : Int) : Nat := (x % 2 ^ 64).toNat

/-- `big.Int.Bytes`: the big-endian bytes of the absolute value. -/
def bigBytes (x : Int) : Bytes := (Nat.digits 256 x.natAbs).reverse.map UInt8.ofNat

/-- The bytes of a 32-byte hex hash, and the digest of any other text. -/
def hashBytesOrDigest (keccak256 : Bytes → Bytes) (txHash : GoString) : Bytes :=
  match hexutilDecode txHash with
  | some hashBytes => if hashBytes.length = 32 then hashBytes else keccak256 txHash
  | none => keccak256 txHash

/-! ## Clients -/

inductive ChainType where
  | evm
  | zano
  | bitcoin
  | ton
  | solana
  | other
  deriving DecidableEq, Repr

structure Client where
  type : ChainType
  chainId : GoString
  getDepositData : DepositIdentifier → Result DepositData
  addressValid : GoString → Bool
  transactionHashValid : GoString → Bool
  withdrawalAmountValid : Int → Bool
  /-- Every client copies the identifier it was asked for. -/
  identifies : ∀ id data, getDepositData id = .ok data → data.identifier = id

structure Repository where
  clients : List Client

/-- `Repository.Client`: a later client of the same id has replaced the earlier one. -/
def Repository.client (r : Repository) (chainId : GoString) : Result Client :=
  .ofOption (Sentinel.errChainNotSupported.toErr)
    (r.clients.reverse.find? fun cl => decide (cl.chainId = chainId))

theorem Repository.client_ok {r : Repository} {chainId : GoString} {cl : Client}
    (h : r.client chainId = .ok cl) : cl ∈ r.clients ∧ cl.chainId = chainId := by
  have hfound := Outcome.ofOption_eq_ok.mp h
  have hid := List.find?_some hfound
  exact ⟨List.mem_reverse.mp (List.mem_of_find?_eq_some hfound), of_decide_eq_true hid⟩

/-- The clients of a repository are found by what they were made from. -/
theorem Repository.client_map {α : Type} (toClient : α → Client) (clients : List α)
    (chainId : GoString) :
    Repository.client ⟨clients.map toClient⟩ chainId =
      .ofOption Sentinel.errChainNotSupported.toErr
        ((clients.reverse.find? fun cl => decide ((toClient cl).chainId = chainId)).map
          toClient) := by
  simp only [Repository.client, ← List.map_reverse, List.find?_map]
  rfl

/-! ## Transaction hashes -/

theorem defaultTransactionHashPattern_iff {s : GoString} :
    defaultTransactionHashPattern s = true ↔
      ∃ digits, s = hexPrefix ++ digits ∧ digits.length = 64 ∧ digits.all isHexChar = true := by
  simp only [defaultTransactionHashPattern, Bool.and_eq_true, decide_eq_true_eq]
  constructor
  · rintro ⟨⟨hmarker, hlen⟩, hall⟩
    refine ⟨s.drop 2, ?_, hlen, hall⟩
    rw [← hmarker, List.take_append_drop]
  · rintro ⟨digits, rfl, hlen, hall⟩
    exact ⟨⟨rfl, hlen⟩, hall⟩

/-- The bytes of a valid hash determine it up to the case of its digits. -/
theorem toLower_eq_of_pattern {s : GoString} (h : defaultTransactionHashPattern s = true) :
    toLower s = hexPrefix ++ formatHex (hexToHash s) := by
  obtain ⟨digits, rfl, hlen, hall⟩ := defaultTransactionHashPattern_iff.mp h
  have hdecoded := hexDecode_snd digits (by omega) hall
  have hbytes := hexDecode_length digits hdecoded
  have hhash : hexToHash (hexPrefix ++ digits) = (hexDecode digits).1 := by
    have hdigits : digitsOf (hexPrefix ++ digits) = digits := rfl
    simp only [hexToHash, fromHex, hdigits, fitBytes]
    rw [if_neg (by omega), show (hexDecode digits).1.length - 32 = 0 by omega, List.drop_zero,
      show 32 - (hexDecode digits).1.length = 0 by omega]
    rfl
  rw [hhash, formatHex_hexDecode digits hdecoded]
  rfl

theorem toLower_trimHexPrefix {s : GoString} (h : defaultTransactionHashPattern s = true) :
    toLower s = hexPrefix ++ toLower (trimHexPrefix s) := by
  obtain ⟨digits, rfl, -, -⟩ := defaultTransactionHashPattern_iff.mp h
  rfl

end TssSvc.Bridge
