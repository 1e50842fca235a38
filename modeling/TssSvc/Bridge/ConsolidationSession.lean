import TssSvc.Bridge.ConsolidationValue
import TssSvc.Bridge.UtxoInjection

/-!
# Consolidation sessions

A UTXO session that has no withdrawal to sign consolidates (`runConsolidationSession`), with the
mechanism of `resharing/utxo/consensus.go`, the same signing and distribution as for withdrawals,
and the finalizer of `resharing/utxo/finalizer.go`.

Whoever leads, a party that finishes has a transaction of its own making: it spends outputs that
the party's wallet listed, and everything but the fee goes to the party's own destination.
-/

set_option autoImplicit false

namespace TssSvc.Bridge.Utxo

open TssSvc.Broadcast TssSvc.Session
open TssSvc.Party (Signatures)
open CoinSource (Names)

/-- What `Finalize` returns, and the transaction it handed to the node. -/
structure Finalization where
  result : GoString
  handed : Option MsgTx
  deriving DecidableEq, Repr

namespace ConsensusMechanism

variable (m : ConsensusMechanism)

/-- `finalize` from the signed transaction on; the error of `LockOutputs` is ignored. -/
def deliver (sessionLeader : Bool) (txHash : MsgTx → GoString)
    (sendSignedTransaction : MsgTx → Except GoString GoString) (tx : MsgTx) :
    Result Finalization := do
  let result := hexPrefix ++ txHash tx
  if sessionLeader then
    let _ ← (external (sendSignedTransaction tx)).wrap
      "failed to broadcast finalized transaction"
    return ⟨result, some tx⟩
  else return ⟨result, none⟩

def finalize (lib : SignatureLib) (sigHashType : UInt8) (tssPub : Bytes) (sessionLeader : Bool)
    (txHash : MsgTx → GoString) (sendSignedTransaction : MsgTx → Except GoString GoString)
    (data : BitcoinResharingProposalData) (signatures : Signatures) : Result Finalization := do
  let tx ← (external (m.helper.deserialize data.serializedTx)).wrap
    "failed to deserialize transaction"
  let signed ← (injectSignatures lib sigHashType tssPub tx signatures).wrap
    "failed to inject signatures"
  deliver sessionLeader txHash sendSignedTransaction signed

/-! ## What the mechanism lets through -/

/-- The data of a consolidation of outputs that the wallet listed at some time. -/
def Agreed (seen : List ListUnspentResult → Prop) (data : BitcoinResharingProposalData) : Prop :=
  ∃ wallet used tx sigHashes, seen wallet ∧ (∀ u ∈ used, u ∈ wallet) ∧
    m.params.inputsThreshold ≤ used.length ∧ m.consolidateOutputs used = .ok (tx, sigHashes) ∧
    data = ⟨m.helper.serialize tx, sigHashes⟩

variable {m} {seen : List ListUnspentResult → Prop} {wallet : List ListUnspentResult}
  {data : BitcoinResharingProposalData}

theorem agreed_of_formProposalData (listed : seen wallet)
    (h : (m.withWallet wallet).formProposalData = .ok data) : m.Agreed seen data := by
  obtain ⟨unspent, tx, sigHashes, hunspent, hcount, hbuilt, rfl⟩ := formProposalData_ok h
  cases hunspent
  exact ⟨wallet, wallet, tx, sigHashes, listed, fun _ hu => hu, hcount, hbuilt, rfl⟩

theorem agreed_of_verifyProposedData (listed : seen wallet)
    (h : (m.withWallet wallet).verifyProposedData (some data) = .ok ()) : m.Agreed seen data := by
  simp only [verifyProposedData, Outcome.bind_eq_ok, Outcome.deref_eq_ok, Option.some.injEq,
    Outcome.wrap_eq_ok, external_eq_ok, Outcome.check_eq_ok] at h
  obtain ⟨_, rfl, tx, -, _, hcount, _, hunspent, used, hused, ⟨original, sigHashes⟩, hbuilt, _,
    hsame, hmatch⟩ := h
  cases hunspent
  have hfound := WithdrawalConstructor.findUsedInputs_ok.mp hused
  have hlisted : ∀ u ∈ used, u ∈ wallet := WithdrawalConstructor.mem_of_found (c := m.helper) hfound
  have hdata : data = ⟨m.helper.serialize original, sigHashes⟩ := by
    have hserialized : m.helper.serialize original = data.serializedTx := hsame
    have hhashes : sigHashes = data.sigData := WithdrawalConstructor.sigDataMatches_eq_ok.mp hmatch
    rw [hserialized, hhashes]
  refine ⟨wallet, used, original, sigHashes, listed, hlisted, ?_, hbuilt, hdata⟩
  rw [← hfound.length_eq]
  exact hcount

/-! ## The end of a session -/

/-- What is assumed of the wire format, of the arranger, of the fee and of the signature hashes.
Only a consolidation has to read back as itself. -/
structure Libraries (m : ConsensusMechanism) : Prop where
  reads : ∀ unspent tx sigHashes tx', m.consolidateOutputs unspent = .ok (tx, sigHashes) →
    m.params.inputsThreshold ≤ unspent.length →
      m.helper.deserialize (m.helper.serialize tx) = .ok tx' → tx' = tx
  arranges : ∀ coins, (m.helper.arrangeOutputs coins).Perm coins
  sizes : ∀ tx tx' rate, tx.txIn.length = tx'.txIn.length →
    tx.txOut.map TxOut.pkScript = tx'.txOut.map TxOut.pkScript →
      m.helper.estimateFee tx rate = m.helper.estimateFee tx' rate
  sigHashes : SigHashes m.helper

theorem hashesOf_of_consolidates {used : List ListUnspentResult} {tx : MsgTx}
    {sigHashes : List Bytes} (h : Consolidates m used tx sigHashes) :
    m.helper.HashesOf m.newHashFromStr used tx sigHashes := by
  refine ⟨h.hashes, fun i txIn hi => ?_⟩
  obtain ⟨u, hu, hspent, script, sigHash, hscript, hhash, hread⟩ := h.signed i txIn hi
  exact ⟨u, hu, script, sigHash, CoinSource.Spends.names hspent, hscript, hread, hhash⟩

theorem outPoints_of_unsigned {tx signed : MsgTx} (same : signed.unsigned = tx.unsigned) :
    signed.txIn.map TxIn.previousOutPoint = tx.txIn.map TxIn.previousOutPoint := by
  have hmap := congrArg (fun tx => tx.txIn.map TxIn.previousOutPoint) same
  simpa only [MsgTx.unsigned, List.map_map, Function.comp_def] using hmap

theorem txOut_of_unsigned {tx signed : MsgTx} (same : signed.unsigned = tx.unsigned) :
    signed.txOut = tx.txOut := by
  have hout := congrArg MsgTx.txOut same
  simpa only [MsgTx.unsigned] using hout

/-- The signed transaction of a consolidation: it spends `used` and nothing else, every input is
unlocked, the outputs all go to the destination, and no value is lost unless a sum overflows. -/
structure Moves (m : ConsensusMechanism) (ecdsaVerify : Bytes → Nat → Nat → Bool)
    (sigHashType : UInt8) (pk : Bytes) (used : List ListUnspentResult) (signed : MsgTx) : Prop where
  spends : ∃ spent, spent.Perm used ∧
    List.Forall₂ (Names m.newHashFromStr) spent (signed.txIn.map TxIn.previousOutPoint)
  unlocked : ∀ (i : Nat) (txIn : TxIn), signed.txIn[i]? = some txIn → ∃ u ∈ used, ∃ script,
    Names m.newHashFromStr u txIn.previousOutPoint ∧ decodeString u.scriptPubKey = some script ∧
      Unlocked m.helper ecdsaVerify sigHashType pk signed i script u.amount
  paid : ∀ out ∈ signed.txOut, out.pkScript = m.receiverScript
  value : IsInt64 ((used.map ListUnspentResult.amount).sum -
      m.helper.estimateFee signed (wrapInt64 m.params.feeRate)) →
    (signed.txOut.map TxOut.value).sum +
      m.helper.estimateFee signed (wrapInt64 m.params.feeRate) =
        (used.map ListUnspentResult.amount).sum

theorem Libraries.moves (libs : m.Libraries) {lib : SignatureLib} (lawful : lib.Lawful)
    (outputs : 1 ≤ m.params.outputsCount)
    {ecdsaVerify : Bytes → Nat → Nat → Bool} (curve : Curve ecdsaVerify)
    {used : List ListUnspentResult} {tx : MsgTx} {sigHashes : List Bytes}
    (built : m.consolidateOutputs used = .ok (tx, sigHashes)) {signatures : Signatures}
    (verified : Verified ecdsaVerify sigHashes signatures) (short : Short signatures)
    (sigHashType : UInt8) {pk : Bytes} (compressed : pk.length = 33) :
    ∃ signed, injectSignatures lib sigHashType pk tx signatures = .ok signed ∧
      Moves m ecdsaVerify sigHashType pk used signed := by
  obtain ⟨amount, share, remainder, others, h⟩ :=
    built_of_consolidateOutputs libs.arranges libs.sizes outputs built
  have hconsolidates := h.consolidates libs.arranges
  obtain ⟨signed, hsigned, hsame, hunlocked⟩ :=
    (hashesOf_of_consolidates hconsolidates).injectSignatures lawful libs.sigHashes curve verified
      short sigHashType compressed
  have hpoints := outPoints_of_unsigned hsame
  have houts := txOut_of_unsigned hsame
  have hfee : m.helper.estimateFee signed (wrapInt64 m.params.feeRate) =
      m.helper.estimateFee tx (wrapInt64 m.params.feeRate) := by
    refine libs.sizes _ _ _ ?_ (by rw [houts])
    simpa using congrArg List.length hpoints
  refine ⟨signed, hsigned, ?_, fun i txIn hi => ?_, fun out hout => ?_, fun fits => ?_⟩
  · obtain ⟨spent, hperm, hspent⟩ := hconsolidates.spends
    refine ⟨spent, hperm, ?_⟩
    rw [hpoints, List.forall₂_map_right_iff]
    exact hspent.imp fun _ _ => CoinSource.Spends.names
  · -- the input before it was signed has the same outpoint
    have hpoint : (tx.txIn.map TxIn.previousOutPoint)[i]? = some txIn.previousOutPoint := by
      rw [← hpoints, List.getElem?_map, hi]
      rfl
    rw [List.getElem?_map, Option.map_eq_some_iff] at hpoint
    obtain ⟨before, hbefore, hsamePoint⟩ := hpoint
    rw [← hsamePoint]
    exact hunlocked i before hbefore
  · rw [houts] at hout
    exact (hconsolidates.paid out hout).1
  · -- two `int64` that differ by a multiple of 2^64 are equal
    obtain ⟨k, hwrapped⟩ := h.wrapped
    have hint := h.int64
    rw [houts, h.sum_outputs, hfee]
    rw [hfee] at fits
    unfold IsInt64 maxInt64 at fits hint
    omega

end ConsensusMechanism

section Sample

open CoinSource Protocol SigningProtocol

local instance : HasHashString SignStartData := sampleStartHashable

local instance : HasHashString Signatures := sampleSignaturesHashable

local instance : HasHashString BitcoinResharingProposalData :=
  ⟨BitcoinResharingProposalData.serializedTx⟩

/-- Outputs of 1000 and 1000, less a fee of 100, in two parts. -/
def sampleMerged : MsgTx where
  version := txVersion
  txIn := [newTxIn (sampleHash 0xaa) 0, newTxIn (sampleHash 0xaa) 1]
  txOut := [⟨950, str "new"⟩, ⟨950, str "new"⟩]
  lockTime := 0

def sampleMerger : ConsensusMechanism where
  helper := { sampleConstructor with
    serialize := fun tx => if tx = sampleMerged then [1] else []
    deserialize := fun bytes => if bytes = [1] then .ok sampleMerged else .error (str "EOF") }
  newHashFromStr := sampleHashFromStr
  dstAddr := str "new"
  params := { defaultConsolidateOutputsParams with inputsThreshold := 2, outputsCount := 2 }

theorem sampleMerger_libraries : sampleMerger.Libraries where
  reads _ tx _ tx' _ _ h := by
    simp only [sampleMerger] at h
    split at h
    · rename_i htx
      cases h
      exact htx.symm
    · cases h
  arranges coins := List.Perm.refl coins
  sizes _ _ _ _ _ := rfl
  sigHashes := ⟨sampleConstructor_sigHashes.blind, sampleConstructor_sigHashes.short⟩

def sampleMergerData : BitcoinResharingProposalData := ⟨[1], [[0], [1]]⟩

def sampleMergerCheck (data : BitcoinResharingProposalData) : Fallible Unit :=
  if (sampleMerger.withWallet [sampleCoin 0, sampleCoin 1]).verifyProposedData (some data) = .ok ()
  then .ok () else .err (.new "proposal data is invalid")

theorem sampleMergerCheck_agreed {data : BitcoinResharingProposalData}
    (h : sampleMergerCheck data = .ok ()) : sampleMerger.Agreed sampleSeen data := by
  unfold sampleMergerCheck at h
  split at h
  · rename_i hvalid
    exact ConsensusMechanism.agreed_of_verifyProposedData rfl hvalid
  · cases h

abbrev sampleMergerSession : SigningProtocol Bytes BitcoinResharingProposalData :=
  sampleSigning sampleMergerData sampleSigned BitcoinResharingProposalData.sigData sampleCurve 1
    [[2], [1]]

end Sample

end TssSvc.Bridge.Utxo
