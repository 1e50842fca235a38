import TssSvc.Bridge.Events
import TssSvc.Bridge.Solana

/-!
# Amounts from the deposit to the row

An amount is read by the source client, scaled by a power of ten between the decimals of the two
tokens, split into a commission and the rest, and stored as text.  The Solana client puts the
`uint64` of the instruction through `int64` first.
-/

set_option autoImplicit false

namespace TssSvc.Bridge

open TssSvc.Db

/-! ## Scaling -/

theorem mulTen_eq (n : Nat) (x : Int) : mulTen n x = x * 10 ^ n := by
  induction n generalizing x with
  | zero => simp [mulTen]
  | succ n ih =>
      rw [mulTen, ih, pow_succ]
      ring

/-- Dividing step by step and rounding down each time is one division. -/
theorem divTen_eq (n : Nat) (x : Int) : divTen n x = x / 10 ^ n := by
  induction n generalizing x with
  | zero => simp [divTen]
  | succ n ih =>
      rw [divTen, ih, Int.ediv_ediv_of_nonneg (by norm_num), pow_succ, mul_comm]

/-- The amount in units of a token with `dst` decimals, rounded down. -/
def scaled (amount src dst : Nat) : Nat :=
  if src ≤ dst then amount * 10 ^ (dst - src) else amount / 10 ^ (src - dst)

theorem transformAmount_eq (amount src dst : Nat) :
    transformAmount amount src dst = scaled amount src dst := by
  unfold transformAmount scaled
  rcases lt_trichotomy src dst with hlt | rfl | hgt
  · rw [if_neg hlt.ne, if_pos hlt, if_pos hlt.le, mulTen_eq]
    push_cast
    rfl
  · simp
  · rw [if_neg hgt.ne', if_neg hgt.not_gt, if_neg (by omega), divTen_eq]
    push_cast
    rfl

/-! ## A fetched deposit -/

/-- What is assumed of `GetCommissionAmount`. -/
def Core.CommissionBounded (core : Core) : Prop :=
  ∀ x rate commission, 0 ≤ x → core.getCommissionAmount x rate = .ok commission →
    0 ≤ commission ∧ commission ≤ x

/-- The row stores `w` for the receiver and `c` for the commission, and together they are the
deposited amount in units of the destination token. -/
structure AmountsKept (amount : Nat) (srcInfo dstInfo : TokenInfo) (deposit : Deposit)
    (w c : Int) : Prop where
  withdrawal : deposit.withdrawalAmount = Decimal.formatInt w
  commission : deposit.commissionAmount = Decimal.formatInt c
  total : w + c = scaled amount srcInfo.decimals dstInfo.decimals
  commissionNonneg : 0 ≤ c
  withdrawalNonneg : 0 ≤ w
  minimum : ∀ least, Decimal.setString dstInfo.minWithdrawalAmount = some least → least ≤ w

theorem getWithdrawalAmount_ok {core : Core} {amount w c : Int} {srcInfo dstInfo : TokenInfo}
    (h : getWithdrawalAmount core amount srcInfo dstInfo = .ok (w, c)) :
    core.getCommissionAmount (transformAmount amount srcInfo.decimals dstInfo.decimals)
        dstInfo.commissionRate = .ok c ∧
      w = transformAmount amount srcInfo.decimals dstInfo.decimals - c ∧
      (Decimal.setString dstInfo.minWithdrawalAmount).getD 0 ≤ w := by
  simp only [getWithdrawalAmount, Outcome.bind_eq_ok, Outcome.wrap_eq_ok, Outcome.ofExcept_eq_ok,
    Outcome.check_eq_ok, Outcome.pure_eq_ok, Outcome.ok.injEq, Prod.mk.injEq] at h
  obtain ⟨commission, hcommission, _, hleast, rfl, rfl⟩ := h
  exact ⟨hcommission, rfl, hleast⟩

/-- Whatever client read the amount, a row made of it keeps it. -/
theorem Fetched.amountsKept {clients : Repository} {core : Core} {identifier : DepositIdentifier}
    {deposit : Deposit} (f : Fetched clients core identifier deposit)
    (bounded : core.CommissionBounded) {amount : Nat} (hamount : f.data.depositAmount = amount) :
    AmountsKept amount f.srcInfo f.dstInfo deposit f.withdrawalAmount f.commission := by
  obtain ⟨hcommission, hrest, hleast⟩ := getWithdrawalAmount_ok f.amountValid
  rw [hamount, transformAmount_eq] at hcommission hrest
  obtain ⟨hnonneg, hle⟩ := bounded _ _ _ (Int.natCast_nonneg _) hcommission
  refine ⟨congrArg Deposit.withdrawalAmount f.result, congrArg Deposit.commissionAmount f.result,
    by omega, hnonneg, by omega, ?_⟩
  intro least hparsed
  rw [hparsed] at hleast
  exact hleast

/-! ## Solana instructions -/

theorem wrapInt64_natCast_iff {n : Nat} (hn : n < 2 ^ 64) : wrapInt64 n = n ↔ n < 2 ^ 63 := by
  unfold wrapInt64
  omega

namespace Solana.Client

theorem instructionDeposit_amount {p : Client} {id : DepositIdentifier} {slot : Nat}
    {kind : DepositKind} {params : DepositParams} {accounts : List Bytes} {data : DepositData}
    (h : p.instructionDeposit id slot ⟨.deposit kind params, accounts⟩ = .ok data) :
    data.depositAmount = wrapInt64 params.amount.toNat := by
  simp only [instructionDeposit, depositData, Outcome.bind_eq_ok, Outcome.pure_eq_ok,
    Outcome.ok.injEq] at h
  obtain ⟨_, _, _, _, _, _, rfl⟩ := h
  rfl

end Solana.Client

/-- A Solana deposit of any `uint64` amount is reported as it is, and kept by every fetch,
exactly when it is below 2^63. -/
theorem solana_amounts_kept_iff (p : Solana.Client) (id : DepositIdentifier) (slot : Nat)
    (kind : Solana.DepositKind) (params : Solana.DepositParams) (accounts : List Bytes)
    (data : DepositData)
    (located : p.locate id = .ok (slot, ⟨.deposit kind params, accounts⟩))
    (read : p.getDepositData id = .ok data) :
    (data.depositAmount = params.amount.toNat ∧
      ∀ (clients : Repository) (core : Core) (deposit : Deposit), core.CommissionBounded →
        clients.client id.chainId = .ok p.toClient → fetchDeposit clients core id = .ok deposit →
        ∃ srcInfo dstInfo w c,
          getTokens core id.chainId data.tokenAddress data.destinationChainId =
            .ok (srcInfo, dstInfo) ∧
          AmountsKept params.amount.toNat srcInfo dstInfo deposit w c) ↔
      params.amount.toNat < 2 ^ 63 := by
  have hdata : data.depositAmount = wrapInt64 params.amount.toNat := by
    have hinstruction := read
    rw [Solana.Client.getDepositData, located] at hinstruction
    exact Solana.Client.instructionDeposit_amount hinstruction
  have hexact := wrapInt64_natCast_iff params.amount.toNat_lt
  constructor
  · rintro ⟨hreported, -⟩
    exact hexact.mp (hdata.symm.trans hreported)
  · intro hlt
    have hreported := hdata.trans (hexact.mpr hlt)
    refine ⟨hreported, ?_⟩
    intro clients core deposit bounded hclient hfetch
    obtain ⟨f⟩ := fetchDeposit_ok hfetch
    have hsource : f.source = p.toClient := by
      have hfound := f.sourceFound
      rw [hclient] at hfound
      exact (Outcome.ok.inj hfound).symm
    have hsame : f.data = data := by
      have hread := f.dataRead
      rw [hsource] at hread
      exact Outcome.ok.inj (hread.symm.trans read)
    refine ⟨f.srcInfo, f.dstInfo, f.withdrawalAmount, f.commission, ?_, ?_⟩
    · rw [← hsame]
      exact f.tokensFound
    · exact f.amountsKept bounded (hsame ▸ hreported)

section Sample

/-- A chain on which every transaction is one native deposit to an EVM chain. -/
def solanaDepositing (amount : UInt64) : Solana.Client where
  id := str "sol"
  programId := [1]
  bridgeId := str "bridge"
  getTransaction := fun _ => .ok ⟨some false, 7, .ok [⟨.ok [1], .ok [[2], [3]],
    .ok (.deposit .native ⟨str "bridge", amount, str "1", sampleReceiver, 0⟩)⟩]⟩
  sha256 := id

/-- The Base58 digits of 64 bytes. -/
def solanaSignature : GoString := List.replicate 87 0x7A

def solanaIdentifier : DepositIdentifier := ⟨solanaSignature, 0, str "sol"⟩

def lamportToken : TokenInfo :=
  ⟨defaultNativeTokenAddress, 9, str "sol", 7, false, str "0", []⟩

/-- The deposited token has 9 decimals, the withdrawn one 18 and a commission of one percent. -/
def coreScaling : Core where
  referral _ := .notFound
  tokenInfo _ _ := .found lamportToken
  token _ := .found [lamportToken, { sampleToken with minWithdrawalAmount := str "10" }]
  transaction _ _ _ := .notFound
  isDefaultReferralId id := decide (id = 0)
  getCommissionAmount x _ := .ok (x / 100)

theorem coreScaling_commissionBounded : coreScaling.CommissionBounded := by
  intro x rate commission hx h
  cases h
  omega

def scalingClients (amount : UInt64) : Repository :=
  ⟨[(solanaDepositing amount).toClient, (evmDepositing (str "1") ⟨[], [], 0, [], 0⟩).toClient]⟩

def solanaReading (amount : UInt64) : DepositData where
  identifier := solanaIdentifier
  block := 7
  sourceAddress := Base58.encode [3]
  depositAmount := wrapInt64 amount.toNat
  tokenAddress := defaultNativeTokenAddress
  referralId := 0
  destinationAddress := sampleReceiver
  destinationChainId := str "1"

def solanaParams (amount : UInt64) : Solana.DepositParams :=
  ⟨str "bridge", amount, str "1", sampleReceiver, 0⟩

theorem locate_solanaDepositing (amount : UInt64) :
    (solanaDepositing amount).locate solanaIdentifier =
      .ok (7, ⟨.deposit .native (solanaParams amount), [[2], [3]]⟩) := by
  have hsome : (Solana.signatureFromBase58 solanaSignature).isSome = true := by decide +kernel
  obtain ⟨raw, hraw⟩ := Option.isSome_iff_exists.mp hsome
  have htext : Solana.signatureFromBase58 solanaIdentifier.txHash = some raw := hraw
  rw [Solana.Client.locate, htext]
  rfl

theorem solana_amounts_kept_sample :
    ∃ deposit, fetchDeposit (scalingClients 5) coreScaling solanaIdentifier = .ok deposit ∧
      ∃ w c : Int, deposit.withdrawalAmount = Decimal.formatInt w ∧
        deposit.commissionAmount = Decimal.formatInt c ∧ w + c = 5000000000 := by
  have hfetch : fetchDeposit (scalingClients 5) coreScaling solanaIdentifier =
      .ok ((solanaReading 5).toNewDeposit 4950000000 50000000 defaultNativeTokenAddress false) := by
    decide +kernel
  obtain ⟨-, hkept⟩ := (solana_amounts_kept_iff (solanaDepositing 5) solanaIdentifier 7 .native
    (solanaParams 5) [[2], [3]] (solanaReading 5) (locate_solanaDepositing 5)
    (by decide +kernel)).mpr (by decide)
  obtain ⟨srcInfo, dstInfo, w, c, htokens, kept⟩ := hkept (scalingClients 5) coreScaling _
    coreScaling_commissionBounded rfl hfetch
  cases htokens
  exact ⟨_, hfetch, w, c, kept.withdrawal, kept.commission, kept.total⟩

/-- 2^63 lamports are reported as a negative amount. -/
theorem solana_amount_negative :
    (solanaDepositing 0x8000000000000000).locate solanaIdentifier =
        .ok (7, ⟨.deposit .native (solanaParams 0x8000000000000000), [[2], [3]]⟩) ∧
      (solanaDepositing 0x8000000000000000).getDepositData solanaIdentifier =
        .ok (solanaReading 0x8000000000000000) ∧
      (solanaReading 0x8000000000000000).depositAmount = -9223372036854775808 := by
  refine ⟨locate_solanaDepositing _, by decide +kernel, by decide +kernel⟩

end Sample

end TssSvc.Bridge
