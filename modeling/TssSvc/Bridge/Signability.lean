import TssSvc.Bridge.Events
import TssSvc.Bridge.Solana

/-!
# Which fetched deposits can be signed

`FetchDeposit` admits a receiver with the destination client's `AddressValid` and never asks its
`WithdrawalAmountValid`.  `GetSignHash` reads both again with parsers of its own: on EVM chains
`hexutil.MustDecode`, which panics on the addresses without `0x` that `common.IsHexAddress`
accepts, and on Solana `strconv.ParseUint`.
-/

set_option autoImplicit false

namespace TssSvc.Bridge.Signability

open TssSvc.Db

variable {clients : Repository} {core : Core} {identifier : DepositIdentifier} {deposit : Deposit}

theorem receiver_valid (f : Fetched clients core identifier deposit) {dst : Client}
    (h : clients.client deposit.withdrawalChainId = .ok dst) :
    dst.addressValid deposit.receiver = true := by
  have hchain : deposit.withdrawalChainId = f.data.destinationChainId :=
    congrArg Deposit.withdrawalChainId f.result
  have hreceiver : deposit.receiver = f.data.destinationAddress :=
    congrArg Deposit.receiver f.result
  rw [hchain, f.dstFound] at h
  cases h
  rw [hreceiver]
  exact f.receiverValid

theorem withdrawalAmount_eq (f : Fetched clients core identifier deposit) :
    deposit.withdrawalAmount = Decimal.formatInt f.withdrawalAmount :=
  congrArg Deposit.withdrawalAmount f.result

/-- `GetSignHash` of a fetched deposit returns a hash exactly when, on an EVM chain, the
receiver carries the `0x` marker and, on Solana, the amount is a `uint64`. -/
theorem signable_iff (fetched : fetchDeposit clients core identifier = .ok deposit) :
    (∀ p : Evm.Client, clients.client deposit.withdrawalChainId = .ok p.toClient →
      (Decimal.setString p.id).isSome = true →
      ((∃ hash, p.getSignHash deposit = .ok hash) ↔ has0xPrefix deposit.receiver = true)) ∧
    ∀ p : Solana.Client, clients.client deposit.withdrawalChainId = .ok p.toClient →
      Solana.Client.TokenWellFormed deposit.withdrawalToken →
      ((∃ hash, p.getSignHash deposit = .ok hash) ↔
        ∃ amount, Decimal.setString deposit.withdrawalAmount = some amount ∧
          0 ≤ amount ∧ amount < 2 ^ 64) := by
  obtain ⟨f⟩ := fetchDeposit_ok fetched
  have hamount := withdrawalAmount_eq f
  have hparsed : Decimal.setString deposit.withdrawalAmount = some f.withdrawalAmount := by
    rw [hamount, Decimal.setString_formatInt]
  constructor
  · intro p hclient hdecimal
    obtain ⟨chainId, hchain⟩ := Option.isSome_iff_exists.mp hdecimal
    have hid : p.id = deposit.withdrawalChainId := (Repository.client_ok hclient).2
    rw [hid] at hchain
    exact p.getSignHash_ok_iff hchain hparsed (receiver_valid f hclient)
  · intro p hclient htoken
    rw [p.getSignHash_ok_iff hamount (receiver_valid f hclient) htoken, hparsed]
    simp

/-! ## Fixed deposits -/

def sampleSolana : Solana.Client := ⟨str "sol", [], str "bridge", fun _ => .error [], id⟩

def sampleClients (body : Evm.EventBody) : Repository :=
  ⟨[(evmDepositing (str "1") body).toClient,
    sampleSolana.toClient]⟩

def sampleIdentifier : DepositIdentifier := ⟨hexPrefix ++ List.replicate 64 0x61, 0, str "1"⟩

def evmBody (receiver : GoString) : Evm.EventBody := ⟨str "1", receiver, 5, [], 0⟩

def solanaBody (amount : Nat) : Evm.EventBody :=
  ⟨str "sol", List.replicate 32 0x31, amount, [], 0⟩

def solanaToken : TokenInfo := { sampleToken with chainId := str "sol" }

def unmarkedReceiver : GoString := sampleReceiver.drop 2

def fetchedRow (body : Evm.EventBody) : Deposit where
  identifier := sampleIdentifier
  depositor := some (str "0xa1")
  depositAmount := Decimal.formatInt body.amount
  depositToken := defaultNativeTokenAddress
  receiver := body.receiver
  withdrawalToken := defaultNativeTokenAddress
  depositBlock := 10
  commissionAmount := str "0"
  withdrawalStatus := .pending
  withdrawalChainId := body.network
  withdrawalAmount := Decimal.formatInt body.amount

/-- An admitted EVM deposit whose hash panics, and an admitted Solana deposit whose hash is an
error. -/
theorem admitted_unsignable :
    fetchDeposit (sampleClients (evmBody unmarkedReceiver)) (coreTrading sampleToken)
        sampleIdentifier = .ok (fetchedRow (evmBody unmarkedReceiver)) ∧
      (evmDepositing (str "1") (evmBody unmarkedReceiver)).getSignHash
        (fetchedRow (evmBody unmarkedReceiver)) = .panic .explicit ∧
      fetchDeposit (sampleClients (solanaBody (2 ^ 64))) (coreTrading solanaToken)
        sampleIdentifier = .ok (fetchedRow (solanaBody (2 ^ 64))) ∧
      sampleSolana.getSignHash (fetchedRow (solanaBody (2 ^ 64))) =
        .err ⟨none, str "failed to parse withdrawal amount: parsing error"⟩ := by
  refine ⟨by decide +kernel, by decide +kernel, by decide +kernel, by decide +kernel⟩

theorem signable_iff_marked_uint64 :
    (∃ hash, (evmDepositing (str "1") (evmBody sampleReceiver)).getSignHash
        (fetchedRow (evmBody sampleReceiver)) = .ok hash) ∧
      ∃ hash, sampleSolana.getSignHash (fetchedRow (solanaBody 5)) = .ok hash := by
  have hevm : fetchDeposit (sampleClients (evmBody sampleReceiver)) (coreTrading sampleToken)
      sampleIdentifier = .ok (fetchedRow (evmBody sampleReceiver)) := by decide +kernel
  have hsolana : fetchDeposit (sampleClients (solanaBody 5)) (coreTrading solanaToken)
      sampleIdentifier = .ok (fetchedRow (solanaBody 5)) := by decide +kernel
  constructor
  · exact ((signable_iff hevm).1 (evmDepositing (str "1") (evmBody sampleReceiver)) rfl
      (by decide)).mpr (by decide)
  · exact ((signable_iff hsolana).2 sampleSolana rfl (by decide)).mpr
      ⟨5, by decide, by decide, by decide⟩

end TssSvc.Bridge.Signability
