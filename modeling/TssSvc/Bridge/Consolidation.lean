import TssSvc.Bridge.UtxoCompleteness

/-!
# Consolidation of UTXO outputs

`internal/tss/session/resharing/utxo/consensus.go` with `utxo/utils/consolidation.go`: one
transaction that spends every unspent output of the wallet and splits the amount over
`OutputsCount` outputs.  An acceptor builds it again from the inputs it finds in the proposal.

The transaction has as many inputs as the wallet has outputs, or as the proposal has inputs:
`MaxInputsCount` is read nowhere, and a proposal may name one output several times.
-/

set_option autoImplicit false

namespace TssSvc.Bridge.Utxo

open TssSvc.Db TssSvc.Session CoinSource

def consolidationThreshold : Int := 20

structure ConsolidateOutputsParams where
  feeRate : Nat
  maxInputsCount : Int
  inputsThreshold : Int
  outputsCount : Int
  deriving DecidableEq, Repr

def defaultConsolidateOutputsParams : ConsolidateOutputsParams where
  feeRate := defaultFeeRateBtcPerKvb.toNat
  maxInputsCount := 50
  inputsThreshold := consolidationThreshold
  outputsCount := 5

/-- The client and the helper are those of the withdrawal constructor; the ids are parsed with
`chainhash` of btcd on both chains. -/
structure ConsensusMechanism where
  helper : WithdrawalConstructor
  newHashFromStr : GoString → Except GoString Hash
  dstAddr : GoString
  params : ConsolidateOutputsParams

def txVersion : Int32 := 1

/-- The loop over the arranged outputs: the inputs and their total in `int64`. -/
def consolidationInputs (newHashFromStr : GoString → Except GoString Hash) :
    Nat → Int → List ListUnspentResult → Result (List TxIn × Int)
  | _, totalAmount, [] => .ok ([], totalAmount)
  | i, totalAmount, u :: rest => do
      let hash ← (external (newHashFromStr u.txId)).mapErr
        (GoError.wrap (str "failed to parse tx hash for input " ++ Decimal.formatNat i))
      let (inputs, total) ←
        consolidationInputs newHashFromStr (i + 1) (wrapInt64 (totalAmount + u.amount)) rest
      return (newTxIn hash u.vout :: inputs, total)

/-- The loop over the inputs of the transaction, with the output each one spends. -/
def consolidationHashes (calculateSignatureHash : Bytes → MsgTx → Nat → Int → Result Bytes)
    (tx : MsgTx) : Nat → List ListUnspentResult → Result (List Bytes)
  | _, [] => .ok []
  | i, utxo :: rest => do
      let scriptDecoded ← (Outcome.ofOption (.new "encoding/hex")
        (decodeString utxo.scriptPubKey)).mapErr
          (GoError.wrap (str "failed to decode script for input " ++ Decimal.formatNat i))
      let sigHash ← (calculateSignatureHash scriptDecoded tx i utxo.amount).mapErr
        (GoError.wrap (str "failed to calculate signature hash for input " ++ Decimal.formatNat i))
      let others ← consolidationHashes calculateSignatureHash tx (i + 1) rest
      return sigHash :: others

/-- `x / y` and `x % y` of `int64`. -/
def quotient (x y : Int) : Result (Int × Int) :=
  if y = 0 then .panic .divideByZero else .ok (wrapInt64 (x.tdiv y), x.tmod y)

namespace ConsensusMechanism

/-- The script of the new address; the error is ignored, as it is checked once at the start. -/
def receiverScript (m : ConsensusMechanism) : Bytes :=
  match m.helper.client.lib.payToAddr m.dstAddr with
  | .ok script => script
  | _ => []

/-- Sorting is in place, so `unspent[i]` is `arranged[i]`. -/
def consolidateOutputs (m : ConsensusMechanism) (unspent : List ListUnspentResult) :
    Result (MsgTx × List Bytes) := do
  let arranged := m.helper.arrangeOutputs unspent
  let empty := List.replicate m.params.outputsCount.toNat (TxOut.mk 0 m.receiverScript)
  let (txIn, totalAmount) ← consolidationInputs m.newHashFromStr 0 0 arranged
  let fees := m.helper.estimateFee ⟨txVersion, txIn, empty, 0⟩ (wrapInt64 m.params.feeRate)
  let consolidationAmount := wrapInt64 (totalAmount - fees)
  let (amountPerOutput, remainder) ← quotient consolidationAmount m.params.outputsCount
  Outcome.check (Client.withdrawalAmountValid amountPerOutput)
    (.new "amount per output is too small")
  let outs := empty.map fun out => { out with value := amountPerOutput }
  let _ ← Outcome.index outs 0
  let tx := MsgTx.mk txVersion txIn
    (outs.modify 0 fun out => { out with value := wrapInt64 (out.value + remainder) }) 0
  let sigHashes ← consolidationHashes m.helper.calculateSignatureHash tx 0 arranged
  return (tx, sigHashes)

def formProposalData (m : ConsensusMechanism) : Result BitcoinResharingProposalData := do
  let unspent ← (external m.helper.listUnspent).wrap "failed to list unspent outputs"
  Outcome.check (m.params.inputsThreshold ≤ unspent.length)
    (.new "not enough unspent outputs to consolidate")
  let (tx, sigHashes) ← (m.consolidateOutputs unspent).wrap "failed to consolidate outputs"
  return ⟨m.helper.serialize tx, sigHashes⟩

def verifyProposedData (m : ConsensusMechanism) (data : Option BitcoinResharingProposalData) :
    Result Unit := do
  let proposal ← Outcome.deref data
  let tx ← (external (m.helper.deserialize proposal.serializedTx)).wrap
    "failed to deserialize transaction"
  Outcome.check (m.params.inputsThreshold ≤ tx.txIn.length)
    (.new "not enough inputs in the transaction to consolidate")
  let unspent ← (external m.helper.listUnspent).wrap "failed to list unspent outputs"
  let used ← (findUsedInputs m.helper.hashString tx unspent).wrap
    "failed to find used inputs in the transaction"
  let (originalTx, sigHashes) ← (m.consolidateOutputs used).wrap
    "failed to consolidate outputs from used inputs"
  Outcome.check (m.helper.serialize originalTx = proposal.serializedTx)
    (.new "provided transaction does not match the expected one")
  WithdrawalConstructor.sigDataMatches sigHashes proposal.sigData

/-! ## The transaction built -/

/-- The inputs spend the outputs in their order. -/
theorem consolidationInputs_ok {newHashFromStr : GoString → Except GoString Hash}
    {coins : List ListUnspentResult} {txIn : List TxIn} {total : Int} : ∀ {i : Nat} {amount : Int},
    consolidationInputs newHashFromStr i amount coins = .ok (txIn, total) →
      List.Forall₂ (Spends newHashFromStr) coins txIn := by
  induction coins generalizing txIn total with
  | nil =>
      intro i amount h
      cases h
      exact .nil
  | cons u rest ih =>
      intro i amount h
      simp only [consolidationInputs, Outcome.bind_eq_ok, Outcome.mapErr_eq_ok, external_eq_ok,
        Outcome.pure_eq_ok, Outcome.ok.injEq, Prod.mk.injEq] at h
      obtain ⟨hash, hhash, ⟨inputs, total'⟩, hrest, rfl, -⟩ := h
      exact .cons ⟨hash, hhash, rfl⟩ (ih hrest)

variable {m : ConsensusMechanism}

/-- The transaction spends the arranged outputs in their order. -/
theorem consolidateOutputs_txIn {unspent : List ListUnspentResult} {tx : MsgTx}
    {sigHashes : List Bytes} (h : m.consolidateOutputs unspent = .ok (tx, sigHashes)) :
    List.Forall₂ (Spends m.newHashFromStr) (m.helper.arrangeOutputs unspent) tx.txIn := by
  simp only [consolidateOutputs, Outcome.bind_eq_ok, Outcome.pure_eq_ok, Outcome.ok.injEq,
    Prod.mk.injEq] at h
  obtain ⟨⟨txIn, total⟩, hinputs, ⟨amount, remainder⟩, -, _, -, _, -, _, -, rfl, -⟩ := h
  exact consolidationInputs_ok hinputs

/-- From arranged outputs the same transaction is built again. -/
theorem consolidateOutputs_arranged (arranger : Arranger m.helper.arrangeOutputs)
    (unspent : List ListUnspentResult) :
    m.consolidateOutputs (m.helper.arrangeOutputs unspent) = m.consolidateOutputs unspent := by
  have hfixed := arranger.fixed _ (arranger.sorted unspent)
  simp only [consolidateOutputs, hfixed]

theorem formProposalData_ok {data : BitcoinResharingProposalData}
    (h : m.formProposalData = .ok data) :
    ∃ unspent tx sigHashes, m.helper.listUnspent = .ok unspent ∧
      m.params.inputsThreshold ≤ unspent.length ∧
      m.consolidateOutputs unspent = .ok (tx, sigHashes) ∧
      data = ⟨m.helper.serialize tx, sigHashes⟩ := by
  simp only [formProposalData, Outcome.bind_eq_ok, Outcome.wrap_eq_ok, external_eq_ok,
    Outcome.check_eq_ok, Outcome.pure_eq_ok, Outcome.ok.injEq] at h
  obtain ⟨unspent, hunspent, _, hcount, ⟨tx, sigHashes⟩, hbuilt, rfl⟩ := h
  exact ⟨unspent, tx, sigHashes, hunspent, hcount, hbuilt, rfl⟩

/-! ## Honest consolidations are accepted -/

/-- The mechanism at a party whose wallet lists these outputs. -/
def withWallet (m : ConsensusMechanism) (unspent : List ListUnspentResult) : ConsensusMechanism :=
  { m with helper := { m.helper with listUnspent := .ok unspent } }

/-- A formed consolidation spends the whole wallet, in the order of the arranger. -/
theorem formProposalData_withWallet {unspent : List ListUnspentResult}
    {data : BitcoinResharingProposalData}
    (hform : (m.withWallet unspent).formProposalData = .ok data) :
    ∃ tx sigHashes, m.params.inputsThreshold ≤ unspent.length ∧
      (m.withWallet unspent).consolidateOutputs unspent = .ok (tx, sigHashes) ∧
      List.Forall₂ (Spends m.newHashFromStr) (m.helper.arrangeOutputs unspent) tx.txIn ∧
      data = ⟨m.helper.serialize tx, sigHashes⟩ := by
  obtain ⟨_, tx, sigHashes, hunspent, hcount, hbuilt, rfl⟩ := formProposalData_ok hform
  cases hunspent
  exact ⟨tx, sigHashes, hcount, hbuilt, consolidateOutputs_txIn hbuilt, rfl⟩

/-- What one party forms, every party accepts whose wallet lists the same outputs, in any order
and among others, provided the transaction formed reads back as itself. -/
theorem verifyProposedData_of_formProposalData (arranger : Arranger m.helper.arrangeOutputs)
    (parses : Parses m.newHashFromStr m.helper.hashString)
    {unspent unspent' : List ListUnspentResult} {data : BitcoinResharingProposalData}
    (canonical : CanonicalIds m.helper.hashString unspent)
    (hform : (m.withWallet unspent).formProposalData = .ok data)
    (reads : ∀ tx sigHashes, (m.withWallet unspent).consolidateOutputs unspent =
      .ok (tx, sigHashes) → m.helper.deserialize (m.helper.serialize tx) = .ok tx)
    (hlisted : ∀ u ∈ unspent, Listed unspent' u) :
    (m.withWallet unspent').verifyProposedData (some data) = .ok () := by
  obtain ⟨tx, sigHashes, hcount, hbuilt, hspends, rfl⟩ := formProposalData_withWallet hform
  have hperm := arranger.perm unspent
  have hthreshold : m.params.inputsThreshold ≤ tx.txIn.length := by
    rw [← hspends.length_eq, hperm.length_eq]
    exact hcount
  have hfound : findUsedInputs m.helper.hashString tx unspent' =
      .ok (m.helper.arrangeOutputs unspent) :=
    findUsedInputs_listed parses hspends (fun u hu => canonical u (hperm.mem_iff.mp hu))
      fun u hu => hlisted u (hperm.mem_iff.mp hu)
  have hagain : (m.withWallet unspent').consolidateOutputs (m.helper.arrangeOutputs unspent) =
      .ok (tx, sigHashes) := by
    rw [← hbuilt]
    exact consolidateOutputs_arranged (m := m.withWallet unspent') arranger unspent
  simp only [verifyProposedData, Outcome.bind_eq_ok, Outcome.deref_eq_ok, Outcome.wrap_eq_ok,
    external_eq_ok, Outcome.check_eq_ok]
  exact ⟨_, rfl, tx, reads tx sigHashes hbuilt, (), hthreshold, unspent', rfl, _, hfound,
    (tx, sigHashes), hagain, (), rfl, WithdrawalConstructor.sigDataMatches_eq_ok.mpr rfl⟩

section Sample

def sampleLarge : ListUnspentResult :=
  { sampleCoin 0 with txId := sampleHashString (sampleHash 0xbb), amount := 2000 }

/-- Outputs of 2000 and 1000, less a fee of 100, in two parts. -/
def sampleJoined : MsgTx where
  version := txVersion
  txIn := [newTxIn (sampleHash 0xbb) 0, newTxIn (sampleHash 0xaa) 0]
  txOut := [⟨1450, str "new"⟩, ⟨1450, str "new"⟩]
  lockTime := 0

/-- Two outputs are made of two inputs at least. -/
def arrangingMechanism : ConsensusMechanism where
  helper := { WithdrawalConstructor.arrangingConstructor with
    serialize := fun tx => if tx = sampleJoined then [1] else []
    deserialize := fun bytes => if bytes = [1] then .ok sampleJoined else .error (str "EOF") }
  newHashFromStr := sampleHashFromStr
  dstAddr := str "new"
  params := { defaultConsolidateOutputsParams with inputsThreshold := 2, outputsCount := 2 }

theorem verifyProposedData_of_formProposalData_sample :
    (arrangingMechanism.withWallet [sampleCoin 0, sampleLarge]).formProposalData =
        .ok ⟨[1], [[0], [1]]⟩ ∧
      (arrangingMechanism.withWallet [sampleLarge, sampleCoin 1, sampleCoin 0]).verifyProposedData
        (some ⟨[1], [[0], [1]]⟩) = .ok () := by
  have hcanonical : CanonicalIds sampleHashString [sampleCoin 0, sampleLarge] := by
    intro u hu
    simp only [List.mem_cons, List.not_mem_nil, or_false] at hu
    rcases hu with rfl | rfl
    · exact ⟨sampleHash 0xaa, rfl⟩
    · exact ⟨sampleHash 0xbb, rfl⟩
  have hbuilt : (arrangingMechanism.withWallet [sampleCoin 0, sampleLarge]).consolidateOutputs
      [sampleCoin 0, sampleLarge] = .ok (sampleJoined, [[0], [1]]) := by
    decide +kernel
  have hform : (arrangingMechanism.withWallet [sampleCoin 0, sampleLarge]).formProposalData =
      .ok ⟨[1], [[0], [1]]⟩ := by
    decide +kernel
  refine ⟨hform, verifyProposedData_of_formProposalData (m := arrangingMechanism)
    insertLargestFirst_arranger sampleHashFromStr_sampleHashString hcanonical hform ?_ ?_⟩
  · intro tx sigHashes h
    cases hbuilt.symm.trans h
    decide +kernel
  · intro u hu
    simp only [List.mem_cons, List.not_mem_nil, or_false] at hu
    rcases hu with rfl | rfl
    · exact ⟨by decide +kernel, by decide +kernel⟩
    · exact ⟨by decide +kernel, by decide +kernel⟩

end Sample

/-! ## The bounds -/

/-- What a consolidation has to be, given the wallet: distinct unspent outputs, not fewer than
the threshold and not more than the agreed maximum. -/
structure Bounded (m : ConsensusMechanism) (unspent : List ListUnspentResult) (tx : MsgTx) :
    Prop where
  distinct : (tx.txIn.map TxIn.previousOutPoint).Nodup
  available : ∀ txIn ∈ tx.txIn, ∃ u ∈ unspent, Names m.newHashFromStr u txIn.previousOutPoint
  atLeast : m.params.inputsThreshold ≤ tx.txIn.length
  atMost : tx.txIn.length ≤ m.params.maxInputsCount

/-- The outpoints of the inputs are distinct if and only if those of the outputs spent are, as
their ids are parsed. -/
theorem nodup_outPoints {newHashFromStr : GoString → Except GoString Hash}
    {coins : List ListUnspentResult} {txIn : List TxIn}
    (h : List.Forall₂ (Spends newHashFromStr) coins txIn) :
    (txIn.map TxIn.previousOutPoint).Nodup ↔
      (coins.map fun u => (newHashFromStr u.txId, u.vout)).Nodup := by
  rw [← map_outPoint_of_spends h, ← List.nodup_map_iff (f := fun p : WireOutPoint =>
    ((.ok p.hash : Except GoString Hash), p.index)), List.map_map]
  · rfl
  · rintro ⟨hash, index⟩ ⟨hash', index'⟩ hsame
    simp only [Prod.mk.injEq, Except.ok.injEq] at hsame
    rw [hsame.1, hsame.2]

theorem formProposalData_bounded_iff (arranger : Arranger m.helper.arrangeOutputs)
    {unspent : List ListUnspentResult} {data : BitcoinResharingProposalData}
    (hform : (m.withWallet unspent).formProposalData = .ok data) :
    ∃ tx, data.serializedTx = m.helper.serialize tx ∧
      (Bounded m unspent tx ↔
        (unspent.map fun u => (m.newHashFromStr u.txId, u.vout)).Nodup ∧
          unspent.length ≤ m.params.maxInputsCount) := by
  obtain ⟨tx, sigHashes, hcount, -, hspends, rfl⟩ := formProposalData_withWallet hform
  have hperm := arranger.perm unspent
  have hlength : tx.txIn.length = unspent.length := by
    rw [← hspends.length_eq, hperm.length_eq]
  have hdistinct : (tx.txIn.map TxIn.previousOutPoint).Nodup ↔
      (unspent.map fun u => (m.newHashFromStr u.txId, u.vout)).Nodup :=
    (nodup_outPoints hspends).trans (hperm.map _).nodup_iff
  refine ⟨tx, rfl, ?_⟩
  constructor
  · intro h
    exact ⟨hdistinct.mp h.distinct, hlength ▸ h.atMost⟩
  · rintro ⟨hnodup, hmost⟩
    refine ⟨hdistinct.mpr hnodup, ?_, hlength ▸ hcount, hlength ▸ hmost⟩
    intro txIn htxIn
    obtain ⟨i, hi⟩ := List.mem_iff_getElem?.mp htxIn
    obtain ⟨u, hu, hinput⟩ := WithdrawalConstructor.getElem?_of_forall₂ hspends.flip hi
    exact ⟨u, hperm.mem_iff.mp (List.mem_of_getElem? hu), Spends.names hinput⟩

/-- Every input that was looked up spends an output of the wallet. -/
theorem findUsedInputs_available {newHashFromStr : GoString → Except GoString Hash}
    {hashString : Hash → GoString} (parses : Parses newHashFromStr hashString) {tx : MsgTx}
    {unspent used : List ListUnspentResult} (h : findUsedInputs hashString tx unspent = .ok used) :
    ∀ txIn ∈ tx.txIn, ∃ u ∈ unspent, Names newHashFromStr u txIn.previousOutPoint := by
  intro txIn htxIn
  obtain ⟨i, hi⟩ := List.mem_iff_getElem?.mp htxIn
  obtain ⟨u, -, hfound⟩ := WithdrawalConstructor.getElem?_of_forall₂
    (WithdrawalConstructor.findUsedInputs_ok.mp h) hi
  obtain ⟨hmem, hpoint⟩ := WithdrawalConstructor.lookupUnspent_eq_some hfound
  have hid : u.txId = hashString txIn.previousOutPoint.hash := congrArg OutPoint.txId hpoint
  exact ⟨u, hmem, hid ▸ parses _, congrArg OutPoint.index hpoint⟩

theorem verifyProposedData_bounded_iff (parses : Parses m.newHashFromStr m.helper.hashString)
    {unspent : List ListUnspentResult} {proposal : BitcoinResharingProposalData}
    (hverified : (m.withWallet unspent).verifyProposedData (some proposal) = .ok ()) :
    ∃ tx, m.helper.deserialize proposal.serializedTx = .ok tx ∧
      (Bounded m unspent tx ↔
        (tx.txIn.map TxIn.previousOutPoint).Nodup ∧
          tx.txIn.length ≤ m.params.maxInputsCount) := by
  simp only [verifyProposedData, Outcome.bind_eq_ok, Outcome.deref_eq_ok, Option.some.injEq,
    Outcome.wrap_eq_ok, external_eq_ok, Outcome.check_eq_ok] at hverified
  obtain ⟨_, rfl, tx, htx, _, hcount, _, hunspent, used, hused, -⟩ := hverified
  cases hunspent
  refine ⟨tx, htx, ?_⟩
  constructor
  · intro h
    exact ⟨h.distinct, h.atMost⟩
  · rintro ⟨hnodup, hmost⟩
    exact ⟨hnodup, findUsedInputs_available parses hused, hcount, hmost⟩

/-- A consolidation that is proposed is bounded exactly when the wallet has no outpoint twice and
not more outputs than the maximum, and one that is accepted exactly when its own inputs have
these properties. -/
theorem consolidation_bounded_iff (m : ConsensusMechanism)
    (arranger : Arranger m.helper.arrangeOutputs)
    (parses : Parses m.newHashFromStr m.helper.hashString) (unspent : List ListUnspentResult) :
    (∀ data, (m.withWallet unspent).formProposalData = .ok data →
      ∃ tx, data.serializedTx = m.helper.serialize tx ∧
        (Bounded m unspent tx ↔
          (unspent.map fun u => (m.newHashFromStr u.txId, u.vout)).Nodup ∧
            unspent.length ≤ m.params.maxInputsCount)) ∧
    (∀ proposal, (m.withWallet unspent).verifyProposedData (some proposal) = .ok () →
      ∃ tx, m.helper.deserialize proposal.serializedTx = .ok tx ∧
        (Bounded m unspent tx ↔
          (tx.txIn.map TxIn.previousOutPoint).Nodup ∧
            tx.txIn.length ≤ m.params.maxInputsCount)) :=
  ⟨fun _ hform => formProposalData_bounded_iff arranger hform,
    fun _ hverified => verifyProposedData_bounded_iff parses hverified⟩

/-! ## Fifty-one outputs, and one output twenty times

All outputs are of 1000 and the fee is 100. -/

section Sample

/-- The consolidation of the outputs with these indices. -/
def sampleConsolidation (vouts : List Nat) (amountPerOutput : Int) : MsgTx where
  version := txVersion
  txIn := vouts.map fun vout => newTxIn (sampleHash 0xaa) (UInt32.ofNat vout)
  txOut := List.replicate 5 ⟨amountPerOutput, str "new"⟩
  lockTime := 0

def manyInputs : MsgTx := sampleConsolidation (List.range 51) 10180

def repeatedInput : MsgTx := sampleConsolidation (List.replicate 20 0) 3980

def fewInputs : MsgTx := sampleConsolidation (List.range 20) 3980

def sampleMechanism : ConsensusMechanism where
  helper := { sampleConstructor with
    arrangeOutputs := insertLargestFirst
    serialize := fun tx =>
      if tx = manyInputs then [1] else if tx = repeatedInput then [2]
      else if tx = fewInputs then [3] else []
    deserialize := fun bytes =>
      if bytes = [1] then .ok manyInputs else if bytes = [2] then .ok repeatedInput
      else if bytes = [3] then .ok fewInputs else .error (str "EOF") }
  newHashFromStr := sampleHashFromStr
  dstAddr := str "new"
  params := defaultConsolidateOutputsParams

def sampleWallet (count : Nat) : List ListUnspentResult :=
  (List.range count).map fun vout => sampleCoin (UInt32.ofNat vout)

def sampleHashes (count : Nat) : List Bytes := (List.range count).map fun i => [UInt8.ofNat i]

theorem consolidation_bounded_sample :
    ∃ proposal tx, (sampleMechanism.withWallet (sampleWallet 20)).verifyProposedData
        (some proposal) = .ok () ∧
      sampleMechanism.helper.deserialize proposal.serializedTx = .ok tx ∧
      Bounded sampleMechanism (sampleWallet 20) tx := by
  have hverified : (sampleMechanism.withWallet (sampleWallet 20)).verifyProposedData
      (some ⟨[3], sampleHashes 20⟩) = .ok () := by decide +kernel
  obtain ⟨tx, htx, hiff⟩ := (consolidation_bounded_iff sampleMechanism insertLargestFirst_arranger
    sampleHashFromStr_sampleHashString (sampleWallet 20)).2 _ hverified
  refine ⟨_, tx, hverified, htx, hiff.mpr ?_⟩
  cases htx
  exact ⟨by decide +kernel, by decide +kernel⟩

theorem consolidation_unbounded :
    (sampleMechanism.withWallet (sampleWallet 51)).formProposalData =
        .ok ⟨[1], sampleHashes 51⟩ ∧
      (sampleMechanism.withWallet (sampleWallet 51)).verifyProposedData
        (some ⟨[1], sampleHashes 51⟩) = .ok () ∧
      ¬ Bounded sampleMechanism (sampleWallet 51) manyInputs ∧
      (sampleMechanism.withWallet (sampleWallet 51)).verifyProposedData
        (some ⟨[2], sampleHashes 20⟩) = .ok () ∧
      ¬ Bounded sampleMechanism (sampleWallet 51) repeatedInput := by
  refine ⟨by decide +kernel, by decide +kernel, ?_, by decide +kernel, ?_⟩
  · intro h
    exact absurd h.atMost (by decide +kernel)
  · intro h
    exact absurd h.distinct (by decide +kernel)

end Sample

end ConsensusMechanism

end TssSvc.Bridge.Utxo
