import TssSvc.Bridge.Zano
import TssSvc.Session.Payload

/-!
# Transfer of the ownership of a Zano asset

`internal/tss/session/resharing/zano/consensus.go` with the types of `pkg/zano` it reads: after a
resharing the asset is handed over to the new key.  The wallet, the daemon and the decoding of
the transaction's base64 JSON text are fields of the mechanism.
-/

set_option autoImplicit false

namespace TssSvc.Bridge.Zano

open TssSvc.Session

def operationTypeTransferAssetOwnership : Nat := 3

structure AssetDescriptor where
  owner : GoString
  ownerEthPubKey : GoString
  deriving DecidableEq, Repr

structure AssetDescriptorBase where
  operationType : Nat
  optAssetId : Option GoString
  optDescriptor : Option AssetDescriptor
  deriving DecidableEq, Repr

def AssetDescriptorBase.isValidTransferAssetOwnershipOperation (a : AssetDescriptorBase) : Bool :=
  decide (a.operationType = operationTypeTransferAssetOwnership) && a.optAssetId.isSome &&
    a.optDescriptor.isSome

structure TransferAssetOwnershipResponse where
  dataForExternalSigning : DataForExternalSigning
  txId : GoString

/-- The fields of `DecryptTxDetailsResponse` that a transfer reads. -/
structure TransferDetails where
  txInJson : GoString
  verifiedTxId : GoString

/-- `assetDescriptors` are the asset descriptors among the extra entries of a decoded
transaction, in their order; `txDetails` is as in the client. -/
structure OwnershipMechanism where
  assetId : GoString
  ownerPubKey : GoString
  isEthKey : Bool
  transferAssetOwnership : GoString → GoString → Bool →
    Except GoString TransferAssetOwnershipResponse
  txDetails : List GoString → GoString → GoString → GoString → Except GoString TransferDetails
  assetDescriptors : GoString → Except GoString (List AssetDescriptorBase)

namespace OwnershipMechanism

def formProposalData (c : OwnershipMechanism) : Result ZanoResharingProposalData := do
  let tx ← (external (c.transferAssetOwnership c.assetId c.ownerPubKey c.isEthKey)).wrap
    "failed to form ownership unsigned transaction"
  let sigData ← formSigningData tx.txId
  return {
    assetId := c.assetId
    ownerEthPubKey := c.ownerPubKey
    outputsAddresses := tx.dataForExternalSigning.outputsAddresses
    unsignedTx := tx.dataForExternalSigning.unsignedTx
    finalizedTx := tx.dataForExternalSigning.finalizedTx
    txSecretKey := tx.dataForExternalSigning.txSecretKey
    txId := tx.txId
    sigData := sigData }

/-- `DecryptTxDetails`: the transaction id is left empty. -/
def decryptTxDetails (c : OwnershipMechanism) (proposal : ZanoResharingProposalData) :
    Result TransferDetails :=
  external (c.txDetails proposal.outputsAddresses proposal.unsignedTx [] proposal.txSecretKey)

/-- `GetAssetInfo`: the first asset descriptor of the transaction. -/
def getAssetInfo (c : OwnershipMechanism) (details : TransferDetails) :
    Result AssetDescriptorBase := do
  let descriptors ← external (c.assetDescriptors details.txInJson)
  Outcome.ofOption (.new "asset info not found") descriptors.head?

def proposedOwner (c : OwnershipMechanism) (descriptor : AssetDescriptor) : GoString :=
  if c.isEthKey then descriptor.ownerEthPubKey else descriptor.owner

def validateAssetInfo (c : OwnershipMechanism) (assetInfo : AssetDescriptorBase) : Result Unit := do
  Outcome.check assetInfo.isValidTransferAssetOwnershipOperation
    (.new "invalid transfer asset ownership operation")
  let assetId ← Outcome.deref assetInfo.optAssetId
  Outcome.check (assetId = c.assetId)
    ⟨none, str "asset id mismatch: expected " ++ c.assetId ++ str ", got " ++ assetId⟩
  let descriptor ← Outcome.deref assetInfo.optDescriptor
  Outcome.check (c.proposedOwner descriptor = c.ownerPubKey)
    ⟨none, str "new owner pub key mismatch: expected " ++ c.ownerPubKey ++ str ", got " ++
      c.proposedOwner descriptor⟩

def verifyProposedData (c : OwnershipMechanism) (data : Option ZanoResharingProposalData) :
    Result Unit := do
  let proposal ← Outcome.deref data
  let details ← (c.decryptTxDetails proposal).wrap "failed to decrypt tx details"
  let assetInfo ← (c.getAssetInfo details).wrap "failed to get asset info from tx details"
  (c.validateAssetInfo assetInfo).wrap "asset info validation failed"
  let sigData ← formSigningData details.verifiedTxId
  Outcome.check (proposal.sigData = sigData) (.new "sign data does not match the expected one")

/-- A valid operation has both optional parts, so neither is dereferenced in vain. -/
theorem returns_validateAssetInfo (c : OwnershipMechanism) (assetInfo : AssetDescriptorBase) :
    (c.validateAssetInfo assetInfo).Returns := by
  simp only [validateAssetInfo, Outcome.returns_bind, Outcome.returns_check, Outcome.check_eq_ok,
    Outcome.returns_deref, AssetDescriptorBase.isValidTransferAssetOwnershipOperation,
    Bool.and_eq_true, implies_true, and_true, true_and, forall_const]
  intro h
  exact ⟨h.1.2, fun _ _ _ => h.2⟩

/-- What an accepted transfer does: it hands the configured asset over to the configured key, and
the hash to sign is that of the transaction the daemon verified. -/
theorem verifyProposedData_ok {c : OwnershipMechanism} {proposal : ZanoResharingProposalData}
    (h : c.verifyProposedData (some proposal) = .ok ()) :
    ∃ details info descriptor, c.decryptTxDetails proposal = .ok details ∧
      c.getAssetInfo details = .ok info ∧
      info.operationType = operationTypeTransferAssetOwnership ∧
      info.optAssetId = some c.assetId ∧ info.optDescriptor = some descriptor ∧
      c.proposedOwner descriptor = c.ownerPubKey ∧
      formSigningData details.verifiedTxId = .ok proposal.sigData := by
  simp only [verifyProposedData, validateAssetInfo, Outcome.bind_eq_ok, Outcome.deref_eq_ok,
    Outcome.wrap_eq_ok, Outcome.check_eq_ok, Option.some.injEq,
    AssetDescriptorBase.isValidTransferAssetOwnershipOperation, Bool.and_eq_true,
    decide_eq_true_eq] at h
  obtain ⟨_, rfl, details, hdetails, info, hinfo, _, ⟨_, hvalid, assetId, hasset, _, rfl,
    descriptor, hdescriptor, howner⟩, sigData, hsig, rfl⟩ := h
  exact ⟨details, info, descriptor, hdetails, hinfo, hvalid.1.1, hasset, hdescriptor, howner, hsig⟩

end OwnershipMechanism

end TssSvc.Bridge.Zano
