import TssSvc.Bridge.Evm
import TssSvc.Bridge.Zano

/-!
# Confirmations in `uint64`

Both checks compare three unsigned numbers of two node calls.  The EVM check adds and takes one
off, the Zano check subtracts, and each is the intended inequality as long as the result does not
leave `uint64`.  A Zano node that lags behind the wallet leaves it.
-/

set_option autoImplicit false

namespace TssSvc.Bridge

/-! ## EVM -/

namespace Evm.Client

variable {p : Client} {receipt : Receipt} {curHeight : Nat}

theorem validateConfirmations_ok_iff (answer : p.rpc.blockNumber = .ok curHeight) :
    p.validateConfirmations receipt = .ok () ↔
      (receipt.blockNumber + p.confirmations + (2 ^ 64 - 1)) % 2 ^ 64 ≤ curHeight := by
  simp only [validateConfirmations, answer, external, Outcome.bind_eq_ok, Outcome.wrap_eq_ok,
    Outcome.check_eq_ok, Outcome.ok.injEq]
  constructor
  · rintro ⟨_, rfl, hdepth⟩
    exact hdepth
  · intro hdepth
    exact ⟨_, rfl, hdepth⟩

/-- The sum of height and confirmations, less one, is a `uint64`; where it is not, the check
still refuses a current height below what is left of the sum. -/
def SumFits (p : Client) (receipt : Receipt) (curHeight : Nat) : Prop :=
  (receipt.blockNumber + p.confirmations = 0 → curHeight = 2 ^ 64 - 1) ∧
    (2 ^ 64 < receipt.blockNumber + p.confirmations →
      curHeight + 2 ^ 64 + 1 < receipt.blockNumber + p.confirmations)

/-- The sum of two `uint64` less one, in `uint64`, in three ranges. -/
theorem wrapped_sum {h k : Nat} (hh : h < 2 ^ 64) (hk : k < 2 ^ 64) :
    (h + k = 0 → (h + k + (2 ^ 64 - 1)) % 2 ^ 64 = 2 ^ 64 - 1) ∧
      (0 < h + k → h + k ≤ 2 ^ 64 → (h + k + (2 ^ 64 - 1)) % 2 ^ 64 = h + k - 1) ∧
      (2 ^ 64 < h + k → (h + k + (2 ^ 64 - 1)) % 2 ^ 64 = h + k - 1 - 2 ^ 64) := by
  refine ⟨?_, ?_, ?_⟩ <;> omega

theorem depth_enforced_iff (hheight : receipt.blockNumber < 2 ^ 64)
    (hconfirmations : p.confirmations < 2 ^ 64) (hcurrent : curHeight < 2 ^ 64)
    (answer : p.rpc.blockNumber = .ok curHeight) :
    (p.validateConfirmations receipt = .ok () ↔
        receipt.blockNumber + p.confirmations ≤ curHeight + 1) ↔
      p.SumFits receipt curHeight := by
  rw [validateConfirmations_ok_iff answer]
  obtain ⟨hzero, hmiddle, hlarge⟩ := wrapped_sum hheight hconfirmations
  unfold SumFits
  by_cases hsum : receipt.blockNumber + p.confirmations = 0
  · rw [hzero hsum]
    omega
  by_cases hfits : receipt.blockNumber + p.confirmations ≤ 2 ^ 64
  · rw [hmiddle (by omega) hfits]
    omega
  · rw [hlarge (by omega)]
    omega

end Evm.Client

/-! ## Zano -/

namespace Zano.Client

variable {p : Client} {txHeight currentHeight : Nat}

theorem validateConfirmations_ok_iff (answer : p.currentHeight = .ok currentHeight) :
    p.validateConfirmations txHeight = .ok () ↔
      txHeight ≠ 0 ∧ p.confirmations ≤ toUint64 (currentHeight - txHeight) := by
  simp only [validateConfirmations, answer, external, Outcome.bind_eq_ok, Outcome.wrap_eq_ok,
    Outcome.check_eq_ok, Outcome.ok.injEq]
  constructor
  · rintro ⟨_, hmined, _, rfl, hdepth⟩
    exact ⟨hmined, hdepth⟩
  · rintro ⟨hmined, hdepth⟩
    exact ⟨(), hmined, _, rfl, hdepth⟩

theorem toUint64_sub_of_le {c h : Nat} (hc : c < 2 ^ 64) (hle : h ≤ c) :
    toUint64 ((c : Int) - h) = c - h := by
  unfold toUint64
  omega

theorem toUint64_sub_of_lt {c h : Nat} (hh : h < 2 ^ 64) (hlt : c < h) :
    toUint64 ((c : Int) - h) = c + 2 ^ 64 - h := by
  unfold toUint64
  omega

/-- The node is not behind the transaction, or so far behind that even the wrapped difference
is too small. -/
def DifferenceFits (p : Client) (txHeight currentHeight : Nat) : Prop :=
  txHeight = 0 ∨ txHeight ≤ currentHeight ∨ currentHeight + 2 ^ 64 < txHeight + p.confirmations

theorem depth_enforced_iff (hheight : txHeight < 2 ^ 64) (hcurrent : currentHeight < 2 ^ 64)
    (answer : p.currentHeight = .ok currentHeight) :
    (p.validateConfirmations txHeight = .ok () ↔
        txHeight ≠ 0 ∧ txHeight + p.confirmations ≤ currentHeight) ↔
      p.DifferenceFits txHeight currentHeight := by
  rw [validateConfirmations_ok_iff answer]
  unfold DifferenceFits
  rcases Nat.lt_or_ge currentHeight txHeight with hlags | hle
  · rw [toUint64_sub_of_lt hheight hlags]
    omega
  · rw [toUint64_sub_of_le hcurrent hle]
    omega

end Zano.Client

/-- For all `uint64` heights and confirmations, each check is its inequality over the natural
numbers exactly when its arithmetic fits. -/
theorem confirmations_enforced_iff (p : Evm.Client) (receipt : Evm.Receipt) (z : Zano.Client)
    (txHeight curHeight currentHeight : Nat)
    (hreceipt : receipt.blockNumber < 2 ^ 64) (hp : p.confirmations < 2 ^ 64)
    (hcur : curHeight < 2 ^ 64) (htx : txHeight < 2 ^ 64) (hcurrent : currentHeight < 2 ^ 64)
    (evmAnswer : p.rpc.blockNumber = .ok curHeight)
    (zanoAnswer : z.currentHeight = .ok currentHeight) :
    ((p.validateConfirmations receipt = .ok () ↔
          receipt.blockNumber + p.confirmations ≤ curHeight + 1) ∧
        (z.validateConfirmations txHeight = .ok () ↔
          txHeight ≠ 0 ∧ txHeight + z.confirmations ≤ currentHeight)) ↔
      p.SumFits receipt curHeight ∧ z.DifferenceFits txHeight currentHeight := by
  rw [Evm.Client.depth_enforced_iff hreceipt hp hcur evmAnswer,
    Zano.Client.depth_enforced_iff htx hcurrent zanoAnswer]

section Sample

def heightEvm (confirmations curHeight : Nat) : Evm.Client where
  id := str "1"
  bridgeAddress := []
  confirmations := confirmations
  rpc := ⟨fun _ => .ok none, fun _ => .ok none, .ok curHeight⟩
  supportedEvents := fun _ => none
  unpack := fun _ _ => none
  addressHex := id
  keccak256 := id

def heightZano (confirmations currentHeight : Nat) : Zano.Client where
  id := str "zano"
  confirmations := confirmations
  getTransactions := fun _ => .ok ⟨[], [], []⟩
  currentHeight := .ok currentHeight
  unmarshalMemo := fun _ => .error []
  emitAsset := fun _ _ _ => .error []
  txDetails := fun _ _ _ _ => .error []

theorem confirmations_enforced_sample :
    (heightEvm 6 105).SumFits ⟨[], 1, [], 100⟩ 105 ∧
      (heightZano 10 110).DifferenceFits 100 110 ∧
      (heightEvm 6 105).validateConfirmations ⟨[], 1, [], 100⟩ = .ok () ∧
      (heightZano 10 110).validateConfirmations 100 = .ok () := by
  have hsum : (heightEvm 6 105).SumFits ⟨[], 1, [], 100⟩ 105 :=
    ⟨by decide, by decide⟩
  have hdifference : (heightZano 10 110).DifferenceFits 100 110 := .inr (.inl (by omega))
  obtain ⟨hevm, hzano⟩ := (confirmations_enforced_iff (heightEvm 6 105) ⟨[], 1, [], 100⟩
    (heightZano 10 110) 100 105 110 (by decide) (by decide) (by decide) (by decide) (by decide)
    rfl rfl).mpr ⟨hsum, hdifference⟩
  exact ⟨hsum, hdifference, hevm.mpr (by decide), hzano.mpr (by decide)⟩

/-- A Zano node at height 100 confirms a transaction of height 101; an EVM transaction of
height 2 with 2^64 - 1 confirmations is confirmed at height 0. -/
theorem confirmations_wrap :
    (heightZano 10 100).validateConfirmations 101 = .ok () ∧ ¬ 101 + 10 ≤ 100 ∧
      (heightEvm (2 ^ 64 - 1) 0).validateConfirmations ⟨[], 1, [], 2⟩ = .ok () ∧
      ¬ 2 + (2 ^ 64 - 1) ≤ 0 + 1 := by
  refine ⟨(Zano.Client.validateConfirmations_ok_iff rfl).mpr (by decide), by decide,
    (Evm.Client.validateConfirmations_ok_iff rfl).mpr (by decide), by decide⟩

end Sample

end TssSvc.Bridge
