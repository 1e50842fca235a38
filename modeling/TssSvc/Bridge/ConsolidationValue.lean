import TssSvc.Bridge.Consolidation

/-!
# What a consolidation is worth

`consolidateOutputs` reads its inputs from the slice it was called with and the scripts from the
slice the arranger returns.  The arranger sorts in place and returns the slice it was given, so
both are the sorted outputs (`consolidateSlices_eq`).  The amounts are added in `int64`:
`consolidateOutputs_value` says what is built from any outputs, and that the value is conserved
exactly when the total less the fee fits.
-/

set_option autoImplicit false

namespace TssSvc.Bridge.Utxo

open CoinSource

/-! ## The two slices -/

/-- What an arranger leaves: the caller's slice after the call, and the slice it returns. -/
structure Slices where
  unspent : List ListUnspentResult
  arranged : List ListUnspentResult

/-- `sort.Sort` swaps the elements of `outs`, which is then returned. -/
def LargestFirstOutputArranger.arrangeOutputs
    (sort : List ListUnspentResult → List ListUnspentResult) (outs : List ListUnspentResult) :
    Slices :=
  ⟨sort outs, sort outs⟩

/-- The loop over the inputs, `turns` turns from `i` on. -/
def sliceInputs (newHashFromStr : GoString → Except GoString Hash)
    (unspent : List ListUnspentResult) : Nat → Nat → Int → Result (List TxIn × Int)
  | 0, _, totalAmount => .ok ([], totalAmount)
  | turns + 1, i, totalAmount => do
      let u ← Outcome.index unspent i
      let hash ← (external (newHashFromStr u.txId)).mapErr
        (GoError.wrap (str "failed to parse tx hash for input " ++ Decimal.formatNat i))
      let (inputs, total) ← sliceInputs newHashFromStr unspent turns (i + 1)
        (wrapInt64 (totalAmount + u.amount))
      return (newTxIn hash u.vout :: inputs, total)

/-- The loop over the signature hashes. -/
def sliceHashes (calculateSignatureHash : Bytes → MsgTx → Nat → Int → Result Bytes) (tx : MsgTx)
    (arranged : List ListUnspentResult) : Nat → Nat → Result (List Bytes)
  | 0, _ => .ok []
  | turns + 1, i => do
      let utxo ← Outcome.index arranged i
      let scriptDecoded ← (Outcome.ofOption (.new "encoding/hex")
        (decodeString utxo.scriptPubKey)).mapErr
          (GoError.wrap (str "failed to decode script for input " ++ Decimal.formatNat i))
      let sigHash ← (calculateSignatureHash scriptDecoded tx i utxo.amount).mapErr
        (GoError.wrap (str "failed to calculate signature hash for input " ++ Decimal.formatNat i))
      let others ← sliceHashes calculateSignatureHash tx arranged turns (i + 1)
      return sigHash :: others

theorem index_drop {coins rest : List ListUnspentResult} {i : Nat} {u : ListUnspentResult}
    (h : coins.drop i = u :: rest) :
    (Outcome.index coins i : Result ListUnspentResult) = .ok u ∧ coins.drop (i + 1) = rest := by
  have hi : i < coins.length := by
    by_contra hout
    rw [List.drop_of_length_le (Nat.le_of_not_lt hout)] at h
    cases h
  rw [List.drop_eq_getElem_cons hi] at h
  obtain ⟨rfl, hrest⟩ := List.cons.inj h
  exact ⟨Outcome.index_natCast (List.getElem?_eq_getElem hi), hrest⟩

theorem sliceInputs_eq (newHashFromStr : GoString → Except GoString Hash)
    (coins rest : List ListUnspentResult) : ∀ (i : Nat) (totalAmount : Int), coins.drop i = rest →
      sliceInputs newHashFromStr coins rest.length i totalAmount =
        consolidationInputs newHashFromStr i totalAmount rest := by
  induction rest with
  | nil => intro i totalAmount _; rfl
  | cons u rest ih =>
      intro i totalAmount h
      obtain ⟨hread, hrest⟩ := index_drop h
      rw [List.length_cons, sliceInputs, consolidationInputs, hread, Outcome.ok_bind,
        ih (i + 1) _ hrest]

theorem sliceHashes_eq (calculateSignatureHash : Bytes → MsgTx → Nat → Int → Result Bytes)
    (tx : MsgTx) (coins rest : List ListUnspentResult) : ∀ i : Nat, coins.drop i = rest →
      sliceHashes calculateSignatureHash tx coins rest.length i =
        consolidationHashes calculateSignatureHash tx i rest := by
  induction rest with
  | nil => intro i _; rfl
  | cons u rest ih =>
      intro i h
      obtain ⟨hread, hrest⟩ := index_drop h
      rw [List.length_cons, sliceHashes, consolidationHashes, hread, Outcome.ok_bind,
        ih (i + 1) hrest]

namespace ConsensusMechanism

/-- `consolidateOutputs` with the slices an arranger leaves. -/
def consolidateSlices (m : ConsensusMechanism) (slices : Slices) : Result (MsgTx × List Bytes) := do
  let empty := List.replicate m.params.outputsCount.toNat (TxOut.mk 0 m.receiverScript)
  let (txIn, totalAmount) ← sliceInputs m.newHashFromStr slices.unspent slices.arranged.length 0 0
  let fees := m.helper.estimateFee ⟨txVersion, txIn, empty, 0⟩ (wrapInt64 m.params.feeRate)
  let consolidationAmount := wrapInt64 (totalAmount - fees)
  let (amountPerOutput, remainder) ← quotient consolidationAmount m.params.outputsCount
  Outcome.check (Client.withdrawalAmountValid amountPerOutput)
    (.new "amount per output is too small")
  let outs := empty.map fun out => { out with value := amountPerOutput }
  let _ ← Outcome.index outs 0
  let tx := MsgTx.mk txVersion txIn
    (outs.modify 0 fun out => { out with value := wrapInt64 (out.value + remainder) }) 0
  let sigHashes ← sliceHashes m.helper.calculateSignatureHash tx slices.arranged txIn.length 0
  return (tx, sigHashes)

/-- With the arranger of the helpers the two slices are one. -/
theorem consolidateSlices_eq (m : ConsensusMechanism) (unspent : List ListUnspentResult) :
    m.consolidateSlices
        (LargestFirstOutputArranger.arrangeOutputs m.helper.arrangeOutputs unspent) =
      m.consolidateOutputs unspent := by
  simp only [consolidateSlices, consolidateOutputs, LargestFirstOutputArranger.arrangeOutputs]
  rw [sliceInputs_eq m.newHashFromStr _ _ 0 0 List.drop_zero]
  cases hinputs : consolidationInputs m.newHashFromStr 0 0 (m.helper.arrangeOutputs unspent) with
  | err e => rfl
  | panic reason => rfl
  | ok inputs =>
      obtain ⟨txIn, totalAmount⟩ := inputs
      have hcount : txIn.length = (m.helper.arrangeOutputs unspent).length :=
        (consolidationInputs_ok hinputs).length_eq.symm
      simp only [Outcome.ok_bind, hcount,
        sliceHashes_eq m.helper.calculateSignatureHash _ _ _ 0 List.drop_zero]

/-! ## The parts of the transaction -/

/-- The sum in `int64` is the total up to a multiple of 2^64. -/
theorem consolidationInputs_total {newHashFromStr : GoString → Except GoString Hash}
    {coins : List ListUnspentResult} {txIn : List TxIn} {total : Int} : ∀ {i : Nat} {amount : Int},
    consolidationInputs newHashFromStr i amount coins = .ok (txIn, total) →
      ∃ k, total = amount + (coins.map ListUnspentResult.amount).sum + 2 ^ 64 * k := by
  induction coins generalizing txIn total with
  | nil =>
      intro i amount h
      cases h
      exact ⟨0, by simp⟩
  | cons u rest ih =>
      intro i amount h
      simp only [consolidationInputs, Outcome.bind_eq_ok, Outcome.pure_eq_ok, Outcome.ok.injEq,
        Prod.mk.injEq] at h
      obtain ⟨_, -, ⟨inputs, total'⟩, hrest, -, rfl⟩ := h
      obtain ⟨k, htotal⟩ := ih hrest
      obtain ⟨k', hwrap⟩ := wrapInt64_diff (amount + u.amount)
      refine ⟨k + k', ?_⟩
      rw [List.map_cons, List.sum_cons]
      omega

/-- Hash `k` is that of the output at position `k`. -/
theorem consolidationHashes_ok
    {calculateSignatureHash : Bytes → MsgTx → Nat → Int → Result Bytes} {tx : MsgTx}
    {coins : List ListUnspentResult} {sigHashes : List Bytes} : ∀ {i : Nat},
    consolidationHashes calculateSignatureHash tx i coins = .ok sigHashes →
      sigHashes.length = coins.length ∧
        ∀ (k : Nat) (u : ListUnspentResult), coins[k]? = some u →
          ∃ script sigHash, decodeString u.scriptPubKey = some script ∧
            calculateSignatureHash script tx (i + k) u.amount = .ok sigHash ∧
            sigHashes[k]? = some sigHash := by
  induction coins generalizing sigHashes with
  | nil =>
      intro i h
      cases h
      refine ⟨rfl, ?_⟩
      intro k u hu
      cases hu
  | cons utxo rest ih =>
      intro i h
      simp only [consolidationHashes, Outcome.bind_eq_ok, Outcome.mapErr_eq_ok,
        Outcome.ofOption_eq_ok, Outcome.pure_eq_ok, Outcome.ok.injEq] at h
      obtain ⟨script, hscript, sigHash, hhash, others, hothers, rfl⟩ := h
      obtain ⟨hlength, hrest⟩ := ih hothers
      refine ⟨congrArg (· + 1) hlength, ?_⟩
      intro k u hu
      cases k with
      | zero =>
          cases hu
          exact ⟨script, sigHash, hscript, hhash, rfl⟩
      | succ k =>
          obtain ⟨script', sigHash', hscript', hhash', hread⟩ := hrest k u hu
          refine ⟨script', sigHash', hscript', ?_, hread⟩
          rw [Nat.add_comm k 1, ← Nat.add_assoc]
          exact hhash'

/-- A positive share of an `int64` and the remainder, as they are. -/
theorem quotient_ok {amount count share remainder : Int}
    (h : quotient amount count = .ok (share, remainder)) (hcount : 1 ≤ count)
    (hamount : IsInt64 amount) (positive : 0 < share) :
    share * count + remainder = amount ∧ 0 ≤ remainder ∧ share + remainder ≤ amount := by
  unfold quotient at h
  rw [if_neg (by omega), Outcome.ok.injEq, Prod.mk.injEq] at h
  obtain ⟨hshare, hremainder⟩ := h
  obtain ⟨hlow, hhigh⟩ := hamount
  rcases le_or_gt 0 amount with hnonneg | hnegative
  · have hdiv : 0 ≤ amount / count ∧ amount / count ≤ amount :=
      ⟨Int.ediv_nonneg hnonneg (by omega), Int.ediv_le_self count hnonneg⟩
    rw [Int.tdiv_eq_ediv_of_nonneg hnonneg, wrapInt64_of_isInt64 ⟨by omega, by omega⟩] at hshare
    rw [Int.tmod_eq_emod_of_nonneg hnonneg] at hremainder
    have hsplit : share * count + remainder = amount := by
      rw [← hshare, ← hremainder]
      exact Int.ediv_mul_add_emod amount count
    have hmod : 0 ≤ remainder := hremainder ▸ Int.emod_nonneg amount (by omega)
    have hle : share ≤ share * count := le_mul_of_one_le_right (le_of_lt positive) hcount
    exact ⟨hsplit, hmod, by omega⟩
  · -- a negative amount has no positive share
    have hdiv : 0 ≤ -amount / count ∧ -amount / count ≤ -amount :=
      ⟨Int.ediv_nonneg (by omega) (by omega), Int.ediv_le_self count (by omega)⟩
    have hneg : amount.tdiv count = -(-amount / count) := by
      rw [← Int.tdiv_eq_ediv_of_nonneg (by omega : 0 ≤ -amount), Int.neg_tdiv, neg_neg]
    unfold maxInt64 at hhigh
    rw [hneg, wrapInt64_of_isInt64 ⟨by omega, by unfold maxInt64; omega⟩] at hshare
    omega

/-- The outputs: the first takes the remainder, the others are equal. -/
theorem modify_replicate (count : Nat) (script : Bytes) (share first : Int) :
    ((List.replicate (count + 1) (TxOut.mk 0 script)).map
        fun out => { out with value := share }).modify 0 (fun out => { out with value := first }) =
      ⟨first, script⟩ :: List.replicate count ⟨share, script⟩ := by
  rw [List.map_replicate, List.replicate_succ]
  rfl

/-! ## The transaction as a whole -/

/-- What a consolidation of `unspent` is, whatever it is worth. -/
structure Consolidates (m : ConsensusMechanism) (unspent : List ListUnspentResult) (tx : MsgTx)
    (sigHashes : List Bytes) : Prop where
  spends : ∃ spent, spent.Perm unspent ∧ List.Forall₂ (Spends m.newHashFromStr) spent tx.txIn
  count : (tx.txOut.length : Int) = m.params.outputsCount
  paid : ∀ out ∈ tx.txOut,
    out.pkScript = m.receiverScript ∧ Client.withdrawalAmountValid out.value = true
  even : ∀ (i j : Nat) (out out' : TxOut), 0 < i → 0 < j → tx.txOut[i]? = some out →
    tx.txOut[j]? = some out' → out = out'
  hashes : sigHashes.length = tx.txIn.length
  signed : ∀ (i : Nat) (txIn : TxIn), tx.txIn[i]? = some txIn →
    ∃ u ∈ unspent, Spends m.newHashFromStr u txIn ∧ ∃ script sigHash,
      decodeString u.scriptPubKey = some script ∧
      m.helper.calculateSignatureHash script tx i u.amount = .ok sigHash ∧
      sigHashes[i]? = some sigHash

/-- The inversion of a call that succeeds. -/
theorem consolidateOutputs_ok {m : ConsensusMechanism} {unspent : List ListUnspentResult}
    {tx : MsgTx} {sigHashes : List Bytes} (hcount : 1 ≤ m.params.outputsCount)
    (h : m.consolidateOutputs unspent = .ok (tx, sigHashes)) :
    ∃ (totalAmount share remainder : Int) (others : Nat),
      consolidationInputs m.newHashFromStr 0 0 (m.helper.arrangeOutputs unspent) =
        .ok (tx.txIn, totalAmount) ∧
      (others : Int) + 1 = m.params.outputsCount ∧
      quotient (wrapInt64 (totalAmount - m.helper.estimateFee
          ⟨txVersion, tx.txIn, List.replicate (others + 1) ⟨0, m.receiverScript⟩, 0⟩
          (wrapInt64 m.params.feeRate))) m.params.outputsCount = .ok (share, remainder) ∧
      Client.withdrawalAmountValid share = true ∧
      tx.txOut = ⟨wrapInt64 (share + remainder), m.receiverScript⟩ ::
        List.replicate others ⟨share, m.receiverScript⟩ ∧
      consolidationHashes m.helper.calculateSignatureHash tx 0 (m.helper.arrangeOutputs unspent) =
        .ok sigHashes := by
  obtain ⟨others, hothers⟩ : ∃ others : Nat, m.params.outputsCount.toNat = others + 1 :=
    ⟨m.params.outputsCount.toNat - 1, by omega⟩
  simp only [consolidateOutputs, Outcome.bind_eq_ok, Outcome.check_eq_ok, Outcome.pure_eq_ok,
    Outcome.ok.injEq, Prod.mk.injEq, hothers] at h
  obtain ⟨⟨txIn, totalAmount⟩, hinputs, ⟨share, remainder⟩, hquotient, _, hvalid, _, -, hashes,
    hhashes, rfl, rfl⟩ := h
  refine ⟨totalAmount, share, remainder, others, hinputs, by omega, hquotient, hvalid, ?_, hhashes⟩
  exact modify_replicate others m.receiverScript share (wrapInt64 (share + remainder))

/-- The transaction of a call that succeeds: `amount` is distributed in shares, the first with
the remainder, and the wrapped sum behind it misses the total less the fee by a multiple
of 2^64. -/
structure Built (m : ConsensusMechanism) (unspent : List ListUnspentResult) (tx : MsgTx)
    (sigHashes : List Bytes) (amount share remainder : Int) (others : Nat) : Prop where
  inputs : List.Forall₂ (Spends m.newHashFromStr) (m.helper.arrangeOutputs unspent) tx.txIn
  outputs : tx.txOut = ⟨share + remainder, m.receiverScript⟩ ::
    List.replicate others ⟨share, m.receiverScript⟩
  count : (others : Int) + 1 = m.params.outputsCount
  shares : share * m.params.outputsCount + remainder = amount
  remains : 0 ≤ remainder
  notDust : Client.withdrawalAmountValid share = true
  int64 : IsInt64 amount
  wrapped : ∃ k, amount = (unspent.map ListUnspentResult.amount).sum -
    m.helper.estimateFee tx (wrapInt64 m.params.feeRate) + 2 ^ 64 * k
  hashes : consolidationHashes m.helper.calculateSignatureHash tx 0
    (m.helper.arrangeOutputs unspent) = .ok sigHashes

section Built

variable {m : ConsensusMechanism} {unspent : List ListUnspentResult} {tx : MsgTx}
  {sigHashes : List Bytes}

theorem built_of_consolidateOutputs
    (arranges : ∀ coins, (m.helper.arrangeOutputs coins).Perm coins)
    (sizes : ∀ tx tx' rate, tx.txIn.length = tx'.txIn.length →
      tx.txOut.map TxOut.pkScript = tx'.txOut.map TxOut.pkScript →
        m.helper.estimateFee tx rate = m.helper.estimateFee tx' rate)
    (hcount : 1 ≤ m.params.outputsCount)
    (h : m.consolidateOutputs unspent = .ok (tx, sigHashes)) :
    ∃ amount share remainder others,
      Built m unspent tx sigHashes amount share remainder others := by
  obtain ⟨totalAmount, share, remainder, others, hinputs, hothers, hquotient, hvalid, houts,
    hhashes⟩ := consolidateOutputs_ok hcount h
  -- the fee was estimated before the values were filled in
  have hfee : m.helper.estimateFee tx (wrapInt64 m.params.feeRate) = m.helper.estimateFee
      ⟨txVersion, tx.txIn, List.replicate (others + 1) ⟨0, m.receiverScript⟩, 0⟩
      (wrapInt64 m.params.feeRate) := by
    refine sizes _ _ _ rfl ?_
    rw [houts, List.map_cons, List.map_replicate, List.map_replicate, List.replicate_succ]
  rw [← hfee] at hquotient
  obtain ⟨k, htotal⟩ := consolidationInputs_total hinputs
  rw [zero_add, ((arranges unspent).map ListUnspentResult.amount).sum_eq] at htotal
  obtain ⟨k', hdiff⟩ := wrapInt64_diff
    (totalAmount - m.helper.estimateFee tx (wrapInt64 m.params.feeRate))
  have hint := isInt64_wrapInt64
    (totalAmount - m.helper.estimateFee tx (wrapInt64 m.params.feeRate))
  have hdust : dustAmount ≤ share := of_decide_eq_true hvalid
  have hpositive : 0 < share := lt_of_lt_of_le (by decide) hdust
  obtain ⟨hsplit, hremainder, hfirst⟩ := quotient_ok hquotient hcount hint hpositive
  have hexact : wrapInt64 (share + remainder) = share + remainder :=
    wrapInt64_of_isInt64 ⟨by omega, hfirst.trans hint.2⟩
  rw [hexact] at houts
  exact ⟨_, share, remainder, others, consolidationInputs_ok hinputs, houts, hothers, hsplit,
    hremainder, hvalid, hint, ⟨k + k', by omega⟩, hhashes⟩

variable {amount share remainder : Int} {others : Nat}
  (h : Built m unspent tx sigHashes amount share remainder others)

include h

theorem Built.sum_outputs : (tx.txOut.map TxOut.value).sum = amount := by
  rw [h.outputs, List.map_cons, List.map_replicate, List.sum_cons, List.sum_replicate, nsmul_eq_mul,
    ← h.shares, ← h.count]
  ring

theorem Built.consolidates (arranges : ∀ coins, (m.helper.arrangeOutputs coins).Perm coins) :
    Consolidates m unspent tx sigHashes := by
  have hperm := arranges unspent
  refine ⟨?_, ?_, ?_, ?_, ?_, ?_⟩
  · exact ⟨m.helper.arrangeOutputs unspent, hperm, h.inputs⟩
  · rw [h.outputs, List.length_cons, List.length_replicate]
    push_cast
    exact h.count
  · intro out hout
    have hdust : dustAmount ≤ share := of_decide_eq_true h.notDust
    rw [h.outputs, List.mem_cons, List.mem_replicate] at hout
    rcases hout with rfl | ⟨-, rfl⟩
    · exact ⟨rfl, decide_eq_true (hdust.trans (le_add_of_nonneg_right h.remains))⟩
    · exact ⟨rfl, h.notDust⟩
  · intro i j out out' hi hj hout hout'
    rw [h.outputs] at hout hout'
    obtain ⟨i, rfl⟩ := Nat.exists_eq_add_of_lt hi
    obtain ⟨j, rfl⟩ := Nat.exists_eq_add_of_lt hj
    rw [zero_add, List.getElem?_cons_succ] at hout hout'
    rw [(List.mem_replicate.mp (List.mem_of_getElem? hout)).2,
      (List.mem_replicate.mp (List.mem_of_getElem? hout')).2]
  · rw [(consolidationHashes_ok h.hashes).1, h.inputs.length_eq]
  · intro i txIn htxIn
    obtain ⟨u, hu, hspends⟩ := WithdrawalConstructor.getElem?_of_forall₂ h.inputs.flip htxIn
    obtain ⟨script, sigHash, hscript, hhash, hread⟩ := (consolidationHashes_ok h.hashes).2 i u hu
    rw [zero_add] at hhash
    exact ⟨u, hperm.mem_iff.mp (List.mem_of_getElem? hu), hspends, script, sigHash, hscript, hhash,
      hread⟩

end Built

/-- `consolidateOutputs` on any outputs: each is spent once, `OutputsCount` valid amounts go to the
destination, all but the first equal, and each input is signed for the output it spends.  Outputs
and fee add up to the inputs exactly when the inputs less the fee are an `int64`. -/
theorem consolidateOutputs_value (m : ConsensusMechanism)
    (arranges : ∀ coins, (m.helper.arrangeOutputs coins).Perm coins)
    (sizes : ∀ tx tx' rate, tx.txIn.length = tx'.txIn.length →
      tx.txOut.map TxOut.pkScript = tx'.txOut.map TxOut.pkScript →
        m.helper.estimateFee tx rate = m.helper.estimateFee tx' rate)
    (hcount : 1 ≤ m.params.outputsCount) (unspent : List ListUnspentResult) (tx : MsgTx)
    (sigHashes : List Bytes)
    (built : m.consolidateSlices
      (LargestFirstOutputArranger.arrangeOutputs m.helper.arrangeOutputs unspent) =
        .ok (tx, sigHashes)) :
    Consolidates m unspent tx sigHashes ∧
      ((tx.txOut.map TxOut.value).sum + m.helper.estimateFee tx (wrapInt64 m.params.feeRate) =
          (unspent.map ListUnspentResult.amount).sum ↔
        IsInt64 ((unspent.map ListUnspentResult.amount).sum -
          m.helper.estimateFee tx (wrapInt64 m.params.feeRate))) := by
  rw [consolidateSlices_eq] at built
  obtain ⟨amount, share, remainder, others, h⟩ :=
    built_of_consolidateOutputs arranges sizes hcount built
  refine ⟨h.consolidates arranges, ?_⟩
  rw [h.sum_outputs]
  constructor
  · intro hconserved
    rw [← hconserved, add_sub_cancel_right]
    exact h.int64
  · intro hfits
    -- two `int64` that differ by a multiple of 2^64 are equal
    obtain ⟨k, hwrapped⟩ := h.wrapped
    have hint := h.int64
    unfold IsInt64 maxInt64 at hfits hint
    omega

section Sample

/-- `txrules.FeeForSerializeSize` of a transaction with fewer than 253 inputs and outputs, all
inputs taken for P2PKH. -/
def sampleEstimateFee (tx : MsgTx) (rate : Int) : Int :=
  let size : Int := 10 + 149 * tx.txIn.length +
    ((tx.txOut.map TxOut.pkScript).map fun script => 9 + (script.length : Int)).sum
  let fee := (rate * size).tdiv 1000
  if fee = 0 ∧ 0 < rate then rate else if fee < 0 ∨ maxSatoshi < fee then maxSatoshi else fee

theorem sampleEstimateFee_sizes (tx tx' : MsgTx) (rate : Int)
    (inputs : tx.txIn.length = tx'.txIn.length)
    (scripts : tx.txOut.map TxOut.pkScript = tx'.txOut.map TxOut.pkScript) :
    sampleEstimateFee tx rate = sampleEstimateFee tx' rate := by
  unfold sampleEstimateFee
  rw [inputs, scripts]

def estimatingMechanism : ConsensusMechanism :=
  { sampleMechanism with
    helper := { sampleMechanism.helper with estimateFee := sampleEstimateFee } }

/-- A consolidation of these inputs into `first` and four times `share`. -/
def sampleOutcome (txIn : List TxIn) (first share : Int) : MsgTx × List Bytes :=
  (⟨txVersion, txIn, ⟨first, str "new"⟩ :: List.replicate 4 ⟨share, str "new"⟩, 0⟩,
    sampleHashes txIn.length)

def sampleLarger : ListUnspentResult := { sampleLarge with amount := 1004 }

def sampleInput (vout : UInt32) : TxIn := newTxIn (sampleHash 0xaa) vout

/-- Four outputs of together 4004 units make five of 667, the first with a remainder of 3, and a
fee of 666. -/
theorem consolidateOutputs_value_sample :
    ∃ tx sigHashes, estimatingMechanism.consolidateSlices
        (LargestFirstOutputArranger.arrangeOutputs estimatingMechanism.helper.arrangeOutputs
          [sampleCoin 0, sampleLarger, sampleCoin 1, sampleCoin 2]) = .ok (tx, sigHashes) ∧
      tx.txOut.map TxOut.value = [670, 667, 667, 667, 667] ∧
      (tx.txOut.map TxOut.value).sum + estimatingMechanism.helper.estimateFee tx
        (wrapInt64 estimatingMechanism.params.feeRate) = 4004 := by
  let outcome := sampleOutcome
    [newTxIn (sampleHash 0xbb) 0, sampleInput 0, sampleInput 1, sampleInput 2] 670 667
  have hbuilt : estimatingMechanism.consolidateSlices
      (LargestFirstOutputArranger.arrangeOutputs estimatingMechanism.helper.arrangeOutputs
        [sampleCoin 0, sampleLarger, sampleCoin 1, sampleCoin 2]) = .ok (outcome.1, outcome.2) := by
    decide +kernel
  have hvalue := (consolidateOutputs_value estimatingMechanism insertLargestFirst_arranger.perm
    sampleEstimateFee_sizes (by decide) _ _ _ hbuilt).2
  exact ⟨outcome.1, outcome.2, hbuilt, rfl, hvalue.mpr (by decide +kernel)⟩

/-- Five outputs of 2^62 units. -/
def sampleFortunes : List ListUnspentResult :=
  [0, 1, 2, 3, 4].map fun vout => { sampleCoin vout with amount := 4611686018427387904 }

/-- Their sum wraps to 2^62, and the other four fifths are left to nobody. -/
theorem consolidateOutputs_loses :
    ∃ tx sigHashes, estimatingMechanism.consolidateSlices
        (LargestFirstOutputArranger.arrangeOutputs estimatingMechanism.helper.arrangeOutputs
          sampleFortunes) = .ok (tx, sigHashes) ∧
      (tx.txOut.map TxOut.value).sum + estimatingMechanism.helper.estimateFee tx
        (wrapInt64 estimatingMechanism.params.feeRate) = 4611686018427387904 ∧
      (sampleFortunes.map ListUnspentResult.amount).sum = 23058430092136939520 := by
  let outcome := sampleOutcome ([0, 1, 2, 3, 4].map sampleInput) 922337203685477421
    922337203685477417
  have hbuilt : estimatingMechanism.consolidateSlices
      (LargestFirstOutputArranger.arrangeOutputs estimatingMechanism.helper.arrangeOutputs
        sampleFortunes) = .ok (outcome.1, outcome.2) := by decide +kernel
  exact ⟨outcome.1, outcome.2, hbuilt, by decide +kernel, by decide +kernel⟩

end Sample

end ConsensusMechanism

end TssSvc.Bridge.Utxo
