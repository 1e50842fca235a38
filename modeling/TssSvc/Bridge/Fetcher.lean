import TssSvc.Bridge.Chain

/-!
# Fetching a deposit

`internal/bridge/deposit/fetcher.go` and the queries of `internal/core/connector` it makes.
`fetchDeposit` is a function of one view of the world: what the chain nodes and the core answer
at the time of the call.
-/

set_option autoImplicit false

namespace TssSvc.Bridge

open TssSvc.Db

/-! ## The core connector -/

inductive Query (α : Type) where
  | found (value : α)
  | notFound
  | failed (text : GoString)

structure TokenInfo where
  address : GoString
  decimals : Nat
  chainId : GoString
  tokenId : Nat
  isWrapped : Bool
  minWithdrawalAmount : GoString
  commissionRate : GoString

/-- The core node's answers and the two helper functions of its `bridgetypes` package. -/
structure Core where
  referral : Nat → Query Unit
  tokenInfo : GoString → GoString → Query TokenInfo
  token : Nat → Query (List TokenInfo)
  transaction : GoString → GoString → Nat → Query Unit
  isDefaultReferralId : Nat → Bool
  getCommissionAmount : Int → GoString → Except Err Int

def Query.toResult {α : Type} (missing : Sentinel) (context : String) : Query α → Result α
  | found value => .ok value
  | notFound => .err missing.toErr
  | failed text => .err (GoError.wrap (str context) ⟨none, text⟩)

def Core.getReferralById (core : Core) (id : Nat) : Result Unit :=
  (core.referral id).toResult .errReferralNotFound "failed to get referral info"

def Core.getTokenInfo (core : Core) (chainId addr : GoString) : Result TokenInfo :=
  (core.tokenInfo chainId addr).toResult .errSourceTokenInfoNotFound "failed to get token info"

def Core.getToken (core : Core) (id : Nat) : Result (List TokenInfo) :=
  (core.token id).toResult .errTokenInfoNotFound "failed to get token info"

/-- `GetDepositInfo`: whether the core has the transaction, looked up by the exact strings. -/
def Core.getDepositInfo (core : Core) (identifier : DepositIdentifier) : Result Bool :=
  match core.transaction identifier.chainId identifier.txHash (toUint64 identifier.txNonce) with
  | .found _ => .ok true
  | .notFound => .ok false
  | .failed text => .err (GoError.wrap (str "failed to get token info") ⟨none, text⟩)

/-! ## Amounts -/

def mulTen : Nat → Int → Int
  | 0, result => result
  | n + 1, result => mulTen n (result * 10)

def divTen : Nat → Int → Int
  | 0, result => result
  | n + 1, result => divTen n (result / 10)

def transformAmount (amount : Int) (currentDecimals targetDecimals : Nat) : Int :=
  if currentDecimals = targetDecimals then amount
  else if currentDecimals < targetDecimals then mulTen (targetDecimals - currentDecimals) amount
  else divTen (currentDecimals - targetDecimals) amount

def getWithdrawalAmount (core : Core) (depositAmount : Int) (srcInfo dstInfo : TokenInfo) :
    Result (Int × Int) := do
  let withdrawalAmount := transformAmount depositAmount srcInfo.decimals dstInfo.decimals
  let commissionAmount ←
    (Outcome.ofExcept (core.getCommissionAmount withdrawalAmount dstInfo.commissionRate)).wrap
      "failed to get commission amount"
  let finalWithdrawalAmount := withdrawalAmount - commissionAmount
  let minWithdrawalAmount := (Decimal.setString dstInfo.minWithdrawalAmount).getD 0
  Outcome.check (minWithdrawalAmount ≤ finalWithdrawalAmount)
    (.new "withdrawal amount is less than minimum withdrawal amount")
  return (finalWithdrawalAmount, commissionAmount)

/-! ## Fetching -/

/-- The source token and the first entry of its token for the destination chain. -/
def getTokens (core : Core) (srcChainId srcTokenAddress dstChainId : GoString) :
    Result (TokenInfo × TokenInfo) := do
  let srcInfo ← (core.getTokenInfo srcChainId srcTokenAddress).wrap
    "failed to get source token info"
  let token ← (core.getToken srcInfo.tokenId).wrap "failed to get source token"
  let dstInfo ← Outcome.ofOption Sentinel.errDestinationTokenInfoNotFound.toErr
    (token.find? fun info => decide (info.chainId = dstChainId))
  return (srcInfo, dstInfo)

def checkReferral (core : Core) (referralId : Nat) : Result Unit :=
  if core.isDefaultReferralId referralId then .ok ()
  else (core.getReferralById referralId).wrap "failed to get referral info"

/-- The part of `FetchDeposit` after the deposit data has been read. -/
def completeDeposit (clients : Repository) (core : Core) (identifier : DepositIdentifier)
    (depositData : DepositData) : Result Deposit := do
  let dstClient ← (clients.client depositData.destinationChainId).wrap
    "error getting destination clients"
  Outcome.check (dstClient.addressValid depositData.destinationAddress)
    (Sentinel.errInvalidReceiverAddress.toErr.wrap depositData.destinationAddress)
  checkReferral core depositData.referralId
  let (srcInfo, dstInfo) ← (getTokens core identifier.chainId depositData.tokenAddress
    depositData.destinationChainId).wrap "failed to get token info"
  let (withdrawalAmount, commission) ←
    (getWithdrawalAmount core depositData.depositAmount srcInfo dstInfo).mapErr fun e =>
      Sentinel.errInvalidDepositedAmount.toErr.wrap e.text
  return depositData.toNewDeposit withdrawalAmount commission dstInfo.address dstInfo.isWrapped

def fetchDeposit (clients : Repository) (core : Core) (identifier : DepositIdentifier) :
    Result Deposit := do
  let sourceClient ← (clients.client identifier.chainId).wrap "error getting source clients"
  Outcome.check (sourceClient.transactionHashValid identifier.txHash)
    (.new "invalid transaction hash")
  let depositData ← (sourceClient.getDepositData identifier).wrap "failed to get deposit data"
  completeDeposit clients core identifier depositData

/-- What is known of a fetched deposit. -/
structure Fetched (clients : Repository) (core : Core) (identifier : DepositIdentifier)
    (deposit : Deposit) where
  source : Client
  data : DepositData
  dst : Client
  srcInfo : TokenInfo
  dstInfo : TokenInfo
  withdrawalAmount : Int
  commission : Int
  sourceFound : clients.client identifier.chainId = .ok source
  hashValid : source.transactionHashValid identifier.txHash = true
  dataRead : source.getDepositData identifier = .ok data
  dstFound : clients.client data.destinationChainId = .ok dst
  receiverValid : dst.addressValid data.destinationAddress = true
  tokensFound : getTokens core identifier.chainId data.tokenAddress data.destinationChainId =
    .ok (srcInfo, dstInfo)
  amountValid : getWithdrawalAmount core data.depositAmount srcInfo dstInfo =
    .ok (withdrawalAmount, commission)
  result : deposit =
    data.toNewDeposit withdrawalAmount commission dstInfo.address dstInfo.isWrapped

variable {clients : Repository} {core : Core} {identifier : DepositIdentifier} {deposit : Deposit}

theorem fetchDeposit_ok (h : fetchDeposit clients core identifier = .ok deposit) :
    Nonempty (Fetched clients core identifier deposit) := by
  simp only [fetchDeposit, completeDeposit, Outcome.bind_eq_ok, Outcome.wrap_eq_ok,
    Outcome.check_eq_ok, Outcome.mapErr_eq_ok, Outcome.pure_eq_ok, Outcome.ok.injEq] at h
  obtain ⟨source, hsource, _, hhash, data, hdata, dst, hdst, _, hreceiver, _, -,
    ⟨srcInfo, dstInfo⟩, htokens, ⟨amount, commission⟩, hamount, hresult⟩ := h
  exact ⟨⟨source, data, dst, srcInfo, dstInfo, amount, commission, hsource, hhash, hdata, hdst,
    hreceiver, htokens, hamount, hresult.symm⟩⟩

theorem Fetched.identifier_eq (f : Fetched clients core identifier deposit) :
    deposit.identifier = identifier := by
  rw [f.result]
  exact f.source.identifies _ _ f.dataRead

theorem Fetched.pending (f : Fetched clients core identifier deposit) :
    deposit.withdrawalStatus = .pending := by
  rw [f.result]
  rfl

end TssSvc.Bridge
