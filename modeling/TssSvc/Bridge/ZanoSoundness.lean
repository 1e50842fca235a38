import TssSvc.Bridge.Withdrawal

/-!
# What an accepted Zano withdrawal mints

The loop of `IsValid` sorts the decoded outputs by address before it looks at the asset: it adds
up what the receiver gets of the asset and lets one output to another address pass as the change.
What that output carries, what else goes to the receiver and which `TxId` the proposal records
are not looked at.
-/

set_option autoImplicit false

namespace TssSvc.Bridge.Zano

open TssSvc.Db TssSvc.Session

section Outputs

variable (deposit : Deposit)

/-- The outputs that carry the asset of the withdrawal. -/
def assetOutputs (outputs : List TxOutput) : List TxOutput :=
  outputs.filter fun output => output.assetId = deposit.withdrawalToken

def foreignOutputs (outputs : List TxOutput) : List TxOutput :=
  outputs.filter fun output => output.address ≠ deposit.receiver

/-- What the receiver gets besides the asset. -/
def sideOutputs (outputs : List TxOutput) : List TxOutput :=
  outputs.filter fun output =>
    output.address = deposit.receiver ∧ output.assetId ≠ deposit.withdrawalToken

def emittedOutputs (outputs : List TxOutput) : List TxOutput :=
  outputs.filter fun output =>
    output.address = deposit.receiver ∧ output.assetId = deposit.withdrawalToken

def amountOf (output : TxOutput) : Int := output.amount.getD 0

end Outputs

/-- What an accepted proposal should be, given the outputs the daemon decodes from it and the
transaction id it verifies: the asset goes to the receiver, as much of it as is withdrawn, at most
one output carries anything else, and the three records of the transaction agree. -/
structure Sound (proposal : ZanoProposalData) (deposit : Deposit)
    (details : DecryptTxDetailsResponse) : Prop where
  receiver : ∀ output ∈ assetOutputs deposit details.decodedOutputs,
    output.address = deposit.receiver
  minted : Decimal.setString deposit.withdrawalAmount =
    some ((assetOutputs deposit details.decodedOutputs).map amountOf).sum
  others : (details.decodedOutputs.filter fun output =>
    output.assetId ≠ deposit.withdrawalToken).length ≤ 1
  verified : formSigningData details.verifiedTxId = .ok proposal.sigData
  recorded : formSigningData proposal.txId = .ok proposal.sigData

/-- What `IsValid` leaves unchecked: the output taken for the change is of another asset, next to
it the receiver gets nothing else (and without it at most one output), and the recorded id is that
of the verified transaction. -/
structure ChangeOnly (proposal : ZanoProposalData) (deposit : Deposit)
    (details : DecryptTxDetailsResponse) : Prop where
  change : ∀ output ∈ foreignOutputs deposit details.decodedOutputs,
    output.assetId ≠ deposit.withdrawalToken
  alone : sideOutputs deposit details.decodedOutputs = [] ∨
    foreignOutputs deposit details.decodedOutputs = [] ∧
      (sideOutputs deposit details.decodedOutputs).length = 1
  txId : formSigningData proposal.txId = formSigningData details.verifiedTxId

/-! ## The loop -/

section Loop

variable {deposit : Deposit}

/-- The loop comes to an amount when no emitted output lacks one and not two outputs go to anyone
else; the amount is then what the receiver gets of the asset. -/
theorem mintedAmount_eq_ok {outputs : List TxOutput} {minted total : Int} {checked : Bool} :
    mintedAmount deposit minted checked outputs = .ok total ↔
      (∀ output ∈ emittedOutputs deposit outputs, output.amount.isSome) ∧
        total = minted + ((emittedOutputs deposit outputs).map amountOf).sum ∧
        (foreignOutputs deposit outputs).length + checked.toNat ≤ 1 := by
  induction outputs generalizing minted checked with
  | nil =>
      rw [mintedAmount, Outcome.ok.injEq, eq_comm]
      simp [emittedOutputs, foreignOutputs, checked.toNat_le]
  | cons output rest ih =>
      unfold mintedAmount
      split
      next receiver =>
        have hforeign : foreignOutputs deposit (output :: rest) = foreignOutputs deposit rest := by
          simp [foreignOutputs, receiver]
        split
        next asset =>
          have hemitted : emittedOutputs deposit (output :: rest) =
              output :: emittedOutputs deposit rest := by
            simp [emittedOutputs, receiver, asset]
          rw [hforeign, hemitted, List.forall_mem_cons, List.map_cons, List.sum_cons]
          cases hamount : output.amount with
          | none => simp [Outcome.deref]
          | some amount =>
              simp [Outcome.deref, ih, amountOf, hamount, Int.add_assoc]
        next asset =>
          have hemitted : emittedOutputs deposit (output :: rest) =
              emittedOutputs deposit rest := by
            simp [emittedOutputs, asset]
          rw [hforeign, hemitted, ih]
      next receiver =>
        have hemitted : emittedOutputs deposit (output :: rest) = emittedOutputs deposit rest := by
          simp [emittedOutputs, receiver]
        have hforeign : (foreignOutputs deposit (output :: rest)).length =
            (foreignOutputs deposit rest).length + 1 := by
          simp [foreignOutputs, receiver]
        rw [hemitted, hforeign]
        cases checked with
        | true =>
            simp only [if_true, reduceCtorEq, Bool.toNat_true, false_iff, not_and]
            omega
        | false => simp [ih]

/-- Every output of another asset is the receiver's or foreign. -/
theorem length_otherAsset (outputs : List TxOutput)
    (change : ∀ output ∈ foreignOutputs deposit outputs,
      output.assetId ≠ deposit.withdrawalToken) :
    (outputs.filter fun output => output.assetId ≠ deposit.withdrawalToken).length =
      (sideOutputs deposit outputs).length + (foreignOutputs deposit outputs).length := by
  induction outputs with
  | nil => rfl
  | cons output rest ih =>
      by_cases receiver : output.address = deposit.receiver
      · have hrest := ih (by simpa [foreignOutputs, receiver] using change)
        by_cases asset : output.assetId = deposit.withdrawalToken
        · simpa [sideOutputs, foreignOutputs, receiver, asset] using hrest
        · simp [sideOutputs, foreignOutputs, receiver, asset] at hrest ⊢
          omega
      · simp [foreignOutputs, receiver] at change
        have hrest := ih (by simpa [foreignOutputs] using change.2)
        simp [sideOutputs, foreignOutputs, receiver, change.1] at hrest ⊢
        omega

theorem emittedOutputs_eq {outputs : List TxOutput}
    (change : ∀ output ∈ foreignOutputs deposit outputs,
      output.assetId ≠ deposit.withdrawalToken) :
    emittedOutputs deposit outputs = assetOutputs deposit outputs := by
  apply List.filter_congr
  intro output hout
  by_cases receiver : output.address = deposit.receiver
  · simp [receiver]
  · have := change output (List.mem_filter.mpr ⟨hout, by simpa using receiver⟩)
    simp [receiver, this]

end Loop

/-! ## Soundness -/

/-- The outputs pay the withdrawal out: the receiver gets the amount of the asset, and at most one
output goes to anyone else. -/
structure Emits (deposit : Deposit) (outputs : List TxOutput) : Prop where
  known : ∀ output ∈ emittedOutputs deposit outputs, output.amount.isSome
  minted : Decimal.setString deposit.withdrawalAmount =
    some ((emittedOutputs deposit outputs).map amountOf).sum
  change : (foreignOutputs deposit outputs).length ≤ 1

/-- `IsValid` accepts exactly the data of a transaction that the daemon decodes to such outputs,
with the signing data of the verified id. -/
theorem zanoIsValid_eq_true_iff {client : Client} {proposal : ZanoProposalData}
    {deposit : Deposit} :
    zanoIsValid client (some proposal) deposit = .ok true ↔
      ∃ details, client.decryptTxDetails (signingTx proposal) = .ok details ∧
        Emits deposit details.decodedOutputs ∧
        formSigningData details.verifiedTxId = .ok proposal.sigData := by
  simp only [zanoIsValid, Outcome.bind_eq_ok, Outcome.deref_eq_ok, Outcome.wrap_eq_ok,
    Outcome.check_eq_ok, Outcome.pure_eq_ok, Option.some.injEq, and_true, mintedAmount_eq_ok,
    zero_add, Bool.toNat_false, add_zero]
  constructor
  · rintro ⟨_, rfl, details, hdetails, minted, ⟨hknown, rfl, hforeign⟩, amount, hamount, _, rfl,
      sigData, hsig, _, rfl⟩
    exact ⟨details, hdetails, ⟨hknown, hamount, hforeign⟩, hsig⟩
  · rintro ⟨details, hdetails, emits, hsig⟩
    exact ⟨proposal, rfl, details, hdetails, _, ⟨emits.known, rfl, emits.change⟩, _, emits.minted,
      (), rfl, _, hsig, (), rfl⟩

/-- An accepted proposal is sound exactly when the one thing it holds besides the emission is a
change of another asset and its recorded id is that of the verified transaction. -/
theorem zanoIsValid_sound_iff {client : Client} {proposal : ZanoProposalData} {deposit : Deposit}
    (valid : zanoIsValid client (some proposal) deposit = .ok true) :
    ∃ details, client.decryptTxDetails (signingTx proposal) = .ok details ∧
      (Sound proposal deposit details ↔ ChangeOnly proposal deposit details) := by
  obtain ⟨details, hdetails, emits, hsig⟩ := zanoIsValid_eq_true_iff.mp valid
  refine ⟨details, hdetails, fun sound => ?_, fun only => ?_⟩
  · have change : ∀ output ∈ foreignOutputs deposit details.decodedOutputs,
        output.assetId ≠ deposit.withdrawalToken := by
      intro output hout asset
      obtain ⟨hmem, foreign⟩ := List.mem_filter.mp hout
      exact of_decide_eq_true foreign
        (sound.receiver output (List.mem_filter.mpr ⟨hmem, by simpa using asset⟩))
    refine ⟨change, ?_, by rw [sound.recorded, hsig]⟩
    have hothers := sound.others
    rw [length_otherAsset _ change] at hothers
    cases hforeign : foreignOutputs deposit details.decodedOutputs with
    | nil =>
        rcases Nat.eq_zero_or_pos (sideOutputs deposit details.decodedOutputs).length with hnone | _
        · exact .inl (List.eq_nil_of_length_eq_zero hnone)
        · exact .inr ⟨rfl, by omega⟩
    | cons output rest =>
        rw [hforeign, List.length_cons] at hothers
        exact .inl (List.eq_nil_of_length_eq_zero (by omega))
  · refine ⟨?_, ?_, ?_, hsig, by rw [only.txId, hsig]⟩
    · intro output hout
      obtain ⟨hmem, asset⟩ := List.mem_filter.mp hout
      by_contra foreign
      exact only.change output (List.mem_filter.mpr ⟨hmem, by simpa using foreign⟩)
        (of_decide_eq_true asset)
    · rw [emits.minted, emittedOutputs_eq only.change]
    · rw [length_otherAsset _ only.change]
      rcases only.alone with hnone | ⟨hforeign, hone⟩
      · rw [hnone, List.length_nil, zero_add]
        exact emits.change
      · rw [hforeign, hone]
        exact le_refl 1

/-! ## An accepted over-emission -/

/-- A daemon that decodes the given outputs and verifies the transaction with id `aa`. -/
def sampleDaemon (outputs : List TxOutput) : Client where
  id := str "zano"
  confirmations := 1
  getTransactions := fun _ => .error []
  currentHeight := .error []
  unmarshalMemo := fun _ => .error []
  emitAsset := fun _ _ _ => .error []
  txDetails := fun _ _ _ _ => .ok ⟨outputs, str "aa"⟩

def sampleProposal (txId : GoString) : ZanoProposalData where
  depositId := none
  outputsAddresses := []
  unsignedTx := str "blob"
  finalizedTx := []
  txSecretKey := []
  txId := txId
  sigData := [0xaa]

def sampleEmission : Deposit :=
  { identifier := ⟨str "bb", 0, str "1"⟩
    receiver := str "receiver"
    withdrawalToken := str "token"
    withdrawalAmount := str "5" }

/-- The emission and its change. -/
def sampleOutputs : List TxOutput :=
  [⟨str "receiver", some 5, str "token"⟩, ⟨str "tss", some 3, str "zano"⟩]

theorem zanoIsValid_sound_sampleProposal :
    zanoIsValid (sampleDaemon sampleOutputs) (some (sampleProposal (str "aa"))) sampleEmission =
        .ok true ∧
      Sound (sampleProposal (str "aa")) sampleEmission ⟨sampleOutputs, str "aa"⟩ := by
  have valid : zanoIsValid (sampleDaemon sampleOutputs) (some (sampleProposal (str "aa")))
      sampleEmission = .ok true := by decide +kernel
  refine ⟨valid, ?_⟩
  obtain ⟨details, hdetails, hiff⟩ := zanoIsValid_sound_iff valid
  cases hdetails
  exact hiff.mpr ⟨by decide +kernel, by decide +kernel, rfl⟩

/-- The change goes to a stranger and is a thousand more of the token, and the receiver gets two
outputs of other assets. -/
def excessOutputs : List TxOutput :=
  [⟨str "receiver", some 5, str "token"⟩, ⟨str "receiver", some 7, str "zano"⟩,
    ⟨str "receiver", some 8, str "other"⟩, ⟨str "stranger", some 1000, str "token"⟩]

/-- Each part of `Sound` that is about the outputs or the recorded id fails. -/
theorem zanoIsValid_accepts_excessOutputs :
    zanoIsValid (sampleDaemon excessOutputs) (some (sampleProposal (str "ff"))) sampleEmission =
        .ok true ∧
      ((assetOutputs sampleEmission excessOutputs).map amountOf).sum = 1005 ∧
      (∃ output ∈ assetOutputs sampleEmission excessOutputs,
        output.address ≠ sampleEmission.receiver) ∧
      (excessOutputs.filter fun output =>
        output.assetId ≠ sampleEmission.withdrawalToken).length = 2 ∧
      formSigningData (str "ff") ≠ .ok (sampleProposal (str "ff")).sigData ∧
      ¬ Sound (sampleProposal (str "ff")) sampleEmission ⟨excessOutputs, str "aa"⟩ := by
  have foreign : ∃ output ∈ assetOutputs sampleEmission excessOutputs,
      output.address ≠ sampleEmission.receiver := by decide +kernel
  refine ⟨by decide +kernel, by decide +kernel, foreign, by decide +kernel, by decide +kernel, ?_⟩
  intro sound
  obtain ⟨output, hout, haddress⟩ := foreign
  exact haddress (sound.receiver output hout)

end TssSvc.Bridge.Zano
