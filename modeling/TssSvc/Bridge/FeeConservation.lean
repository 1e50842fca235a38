import TssSvc.Bridge.UtxoWithdrawal

/-!
# Charging the network fee to the receiver

`subtractFeeFromWithdrawal` has five exits.  Two leave the transaction as it is, one moves the fee
from the receiver to the change, one takes it off the receiver and leaves it to the miner, and one
adds a change output.  On each of them the inputs cover the outputs and the fee of the
transaction that is returned, exactly when the receiver's amount less the fee is an `int64`: below
that the difference wraps to a large amount, which passes for a valid one.
-/

set_option autoImplicit false

namespace TssSvc.Bridge.Utxo

def maxSatoshi : Int := 21 * 10 ^ 14

namespace WithdrawalConstructor

variable {c : WithdrawalConstructor} {data final : AuthoredTx} {rate : Int} {output : TxOut}

def outputSum (tx : MsgTx) : Int := (tx.txOut.map TxOut.value).sum

theorem outputSum_cons {tx : MsgTx} {changes : List TxOut} (h : tx.txOut = output :: changes) :
    outputSum tx = output.value + (changes.map TxOut.value).sum := by
  rw [outputSum, h, List.map_cons, List.sum_cons]

/-- What is assumed of `EstimateFee`: an amount of money that depends on the number of inputs and
on the output scripts. -/
structure FeeEstimate (c : WithdrawalConstructor) : Prop where
  fees : ∀ tx rate, 0 ≤ c.estimateFee tx rate ∧ c.estimateFee tx rate ≤ maxSatoshi
  sizes : ∀ tx tx' rate, tx.txIn.length = tx'.txIn.length →
    tx.txOut.map TxOut.pkScript = tx'.txOut.map TxOut.pkScript →
      c.estimateFee tx rate = c.estimateFee tx' rate

/-- The receiver's output is the first, and the change output, if there is one, the second. -/
inductive Outputs (output : TxOut) (data : AuthoredTx) : List TxOut → Prop
  | alone (outs : data.tx.txOut = [output]) (index : data.changeIndex = -1) : Outputs output data []
  | change (change : TxOut) (outs : data.tx.txOut = [output, change])
      (index : data.changeIndex = 1) : Outputs output data [change]

theorem Outputs.outs_eq {changes : List TxOut} (h : Outputs output data changes) :
    data.tx.txOut = output :: changes := by
  cases h with
  | alone outs _ => exact outs
  | change change outs _ => exact outs

theorem Outputs.eq_nil_of_index {changes : List TxOut} (h : Outputs output data changes)
    (hindex : data.changeIndex = -1) : changes = [] := by
  cases h with
  | alone _ _ => rfl
  | change _ _ index => cases hindex.symm.trans index

/-- What `txauthor` leaves: the fee next to a change output, at least the fee without one.  All
amounts are `int64`. -/
structure Authored (c : WithdrawalConstructor) (data : AuthoredTx) (rate : Int) (output : TxOut)
    (changes : List TxOut) : Prop where
  outputs : Outputs output data changes
  amounts : IsInt64 data.totalInput ∧ ∀ out ∈ data.tx.txOut, IsInt64 out.value
  covered : outputSum data.tx ≤ data.totalInput
  feeLeft : c.estimateFee data.tx rate ≤ data.totalInput - outputSum data.tx
  feeExact : changes ≠ [] → data.totalInput - outputSum data.tx = c.estimateFee data.tx rate

theorem Authored.change_value {changes : List TxOut} (h : c.Authored data rate output changes)
    {change : TxOut} (hmem : change ∈ changes) :
    change.value + c.estimateFee data.tx rate = data.totalInput - output.value := by
  have hexact := h.feeExact (List.ne_nil_of_mem hmem)
  rw [outputSum_cons h.outputs.outs_eq] at hexact
  cases h.outputs with
  | alone _ _ => cases hmem
  | change only _ _ =>
      cases List.mem_singleton.mp hmem
      simp only [List.map_cons, List.map_nil, List.sum_cons, List.sum_nil] at hexact
      omega

theorem Authored.isInt64_output {changes : List TxOut} (h : c.Authored data rate output changes) :
    IsInt64 output.value :=
  h.amounts.2 output (by rw [h.outputs.outs_eq]; exact List.mem_cons_self)

/-! ## The exits -/

theorem changeScript_eq {script : Bytes} (h : c.client.lib.payToAddr c.tssAddr = .ok script) :
    c.changeScript = script := by
  rw [changeScript, h]

/-- The outputs and the change index after the call. -/
inductive FeeExit (c : WithdrawalConstructor) (data : AuthoredTx) (rate : Int) (output : TxOut) :
    List TxOut → List TxOut → Int → Prop
  | kept (changes : List TxOut)
      (dust : Client.withdrawalAmountValid
          (wrapInt64 (output.value - c.estimateFee data.tx rate)) = false ∨
        Client.withdrawalAmountValid
          (wrapInt64 (output.value - c.estimateFee (c.withChange data.tx) rate)) = false) :
      FeeExit c data rate output changes (output :: changes) data.changeIndex
  | moved (change : TxOut)
      (valid : Client.withdrawalAmountValid
        (wrapInt64 (output.value - c.estimateFee data.tx rate)) = true) :
      FeeExit c data rate output [change]
        [⟨wrapInt64 (output.value - c.estimateFee data.tx rate), output.pkScript⟩,
          ⟨wrapInt64 (change.value + c.estimateFee data.tx rate), change.pkScript⟩]
        data.changeIndex
  | taken
      (valid : Client.withdrawalAmountValid
        (wrapInt64 (output.value - c.estimateFee data.tx rate)) = true) :
      FeeExit c data rate output []
        [⟨wrapInt64 (output.value - c.estimateFee data.tx rate), output.pkScript⟩]
        data.changeIndex
  | added
      (valid : Client.withdrawalAmountValid
        (wrapInt64 (output.value - c.estimateFee data.tx rate)) = true)
      (notDust : Client.withdrawalAmountValid (wrapInt64 (data.totalInput - output.value)) = true) :
      FeeExit c data rate output []
        [⟨wrapInt64 (output.value - c.estimateFee (c.withChange data.tx) rate), output.pkScript⟩,
          ⟨wrapInt64 (data.totalInput - output.value), c.changeScript⟩] 1

theorem chargeAlone_exit (houts : data.tx.txOut = [output])
    (valid : Client.withdrawalAmountValid
      (wrapInt64 (output.value - c.estimateFee data.tx rate)) = true) :
    ∃ outs index,
      c.chargeAlone data rate (c.estimateFee data.tx rate) output =
          { data with tx := { data.tx with txOut := outs }, changeIndex := index } ∧
        FeeExit c data rate output [] outs index := by
  simp only [chargeAlone]
  split
  · rename_i hdust
    exact ⟨data.tx.txOut, data.changeIndex, rfl, houts ▸ .kept [] (.inr hdust)⟩
  split
  · refine ⟨_, _, rfl, ?_⟩
    have htaken : FeeExit c data rate output [] _ _ := .taken valid
    rw [sub_eq_add_neg] at htaken
    rw [houts]
    exact htaken
  · rename_i hchange
    refine ⟨_, _, rfl, ?_⟩
    -- the fee is taken off the total and given back
    have hrest (fee : Int) :
        wrapInt64 (wrapInt64 (data.totalInput - wrapInt64 (output.value - fee)) - fee) =
          wrapInt64 (data.totalInput - output.value) := by
      rw [wrapInt64_sub_left, show data.totalInput - wrapInt64 (output.value - fee) - fee =
        data.totalInput - fee - wrapInt64 (output.value - fee) by ring, wrapInt64_sub_right]
      congr 1
      ring
    simp only [hrest] at hchange ⊢
    have hadded : FeeExit c data rate output [] _ _ := .added valid (Bool.of_not_eq_false hchange)
    simp only [withChange, houts]
    simp only [sub_eq_add_neg output.value, withChange, houts] at hadded
    exact hadded

theorem subtractFeeFromWithdrawal_exit (c : WithdrawalConstructor) (rate : Int)
    {changes : List TxOut} (houtputs : Outputs output data changes) :
    ∃ outs index,
      c.subtractFeeFromWithdrawal data rate =
          .ok { data with tx := { data.tx with txOut := outs }, changeIndex := index } ∧
        FeeExit c data rate output changes outs index := by
  have hkept := houtputs.outs_eq
  have hreceiver : (Outcome.index data.tx.txOut 0 : Result TxOut) = .ok output := by
    rw [hkept]
    rfl
  by_cases hdust : Client.withdrawalAmountValid
      (wrapInt64 (output.value - c.estimateFee data.tx rate)) = false
  · refine ⟨data.tx.txOut, data.changeIndex, ?_, hkept ▸ .kept changes (.inl hdust)⟩
    simp only [subtractFeeFromWithdrawal, hreceiver, Outcome.ok_bind, Outcome.pure_eq_ok,
      if_pos hdust]
  have hvalid := Bool.of_not_eq_false hdust
  cases houtputs with
  | change change outs index =>
      have hsecond :
          (Outcome.index data.tx.txOut data.changeIndex : Result TxOut) = .ok change := by
        rw [outs, index]
        rfl
      have hmoved : FeeExit c data rate output [change] _ _ := .moved change hvalid
      refine ⟨_, _, ?_, hmoved⟩
      have hpresent : data.changeIndex ≠ -1 := by
        rw [index]
        decide
      simp only [subtractFeeFromWithdrawal, hreceiver, hsecond, Outcome.ok_bind,
        Outcome.pure_eq_ok, if_neg hdust, if_pos hpresent]
      simp only [outs, index, sub_eq_add_neg]
      rfl
  | alone outs index =>
      obtain ⟨outs', index', hcharged, hexit⟩ := chargeAlone_exit outs hvalid
      refine ⟨outs', index', ?_, hexit⟩
      simp only [subtractFeeFromWithdrawal, hreceiver, Outcome.ok_bind, Outcome.pure_eq_ok,
        if_neg hdust, if_neg (not_not.mpr index), hcharged]

/-! ## Conservation -/

/-- What the returned transaction keeps: the inputs, a receiver's output charged with nothing or
with the fee, and a change output that takes the rest. -/
structure Conserved (c : WithdrawalConstructor) (data : AuthoredTx) (rate : Int) (output : TxOut)
    (final : AuthoredTx) (first : TxOut) (rest : List TxOut) : Prop where
  inputs : final.tx.txIn = data.tx.txIn ∧ final.prevScripts = data.prevScripts ∧
    final.prevInputValues = data.prevInputValues ∧ final.totalInput = data.totalInput
  outputs : Outputs first final rest
  script : first.pkScript = output.pkScript
  receiver : first.value = output.value ∨
    first.value = output.value - c.estimateFee final.tx rate
  covered : outputSum final.tx ≤ data.totalInput
  minerFee : c.estimateFee final.tx rate ≤ data.totalInput - outputSum final.tx
  added : data.changeIndex = -1 → ∀ change ∈ rest, Client.withdrawalAmountValid change.value = true
  change : first.value = output.value - c.estimateFee final.tx rate →
    ∀ change ∈ rest, change.value = data.totalInput - output.value

theorem Conserved.receiver_le {first : TxOut} {rest : List TxOut}
    (h : c.Conserved data rate output final first rest) (estimate : c.FeeEstimate) :
    first.value ≤ output.value := by
  have hnonneg := (estimate.fees final.tx rate).1
  rcases h.receiver with hvalue | hvalue <;> omega

/-- Without a change output the inputs cover the withdrawal alone. -/
theorem Authored.output_le (authored : c.Authored data rate output []) :
    output.value ≤ data.totalInput := by
  have hcovered := authored.covered
  rw [outputSum_cons authored.outputs.outs_eq] at hcovered
  simpa using hcovered

theorem Authored.conserved {changes : List TxOut} (authored : c.Authored data rate output changes) :
    c.Conserved data rate output data output changes := by
  refine ⟨⟨rfl, rfl, rfl, rfl⟩, authored.outputs, rfl, .inl rfl, authored.covered,
    authored.feeLeft, ?_, ?_⟩
  · intro hindex change hmem
    rw [authored.outputs.eq_nil_of_index hindex] at hmem
    cases hmem
  · intro hcharged change hmem
    -- the receiver's value is the same charged or not, so the fee is zero
    have hvalue := authored.change_value hmem
    omega

/-- When the receiver pays the fee, the change is what the withdrawal leaves of the inputs. -/
theorem conserved_charged {outs rest : List TxOut} {index fee : Int} (nonneg : 0 ≤ fee)
    (hfinal : c.estimateFee { data.tx with txOut := outs } rate = fee)
    (houtputs : Outputs ⟨output.value - fee, output.pkScript⟩
      { data with tx := { data.tx with txOut := outs }, changeIndex := index } rest)
    (hsum : (rest.map TxOut.value).sum ≤ data.totalInput - output.value)
    (hchange : ∀ change ∈ rest, change.value = data.totalInput - output.value)
    (hadded : data.changeIndex = -1 →
      ∀ change ∈ rest, Client.withdrawalAmountValid change.value = true) :
    c.Conserved data rate output
      { data with tx := { data.tx with txOut := outs }, changeIndex := index }
      ⟨output.value - fee, output.pkScript⟩ rest := by
  have houts := outputSum_cons houtputs.outs_eq
  dsimp only at houts
  refine ⟨⟨rfl, rfl, rfl, rfl⟩, houtputs, rfl, .inr ?_, ?_, ?_, hadded, fun _ => hchange⟩
  · rw [hfinal]
  · rw [houts]
    omega
  · rw [houts, hfinal]
    omega

/-- A receiver that can pay the fee has a positive amount, and what it leaves of the inputs is
an `int64`. -/
theorem isInt64_rest {total amount fee : Int} (nonneg : 0 ≤ fee) (htotal : IsInt64 total)
    (fits : IsInt64 (amount - fee))
    (valid : Client.withdrawalAmountValid (wrapInt64 (amount - fee)) = true)
    (low : -2 ^ 63 ≤ total - amount) :
    dustAmount ≤ amount - fee ∧ IsInt64 (total - amount) := by
  rw [wrapInt64_of_isInt64 fits] at valid
  have hdust : dustAmount ≤ amount - fee := of_decide_eq_true valid
  refine ⟨hdust, low, ?_⟩
  have hhigh := htotal.2
  unfold dustAmount at hdust
  omega

theorem conserved_of_exit {changes outs : List TxOut} {index : Int} (estimate : c.FeeEstimate)
    (authored : c.Authored data rate output changes)
    (fits : IsInt64 (output.value - c.estimateFee data.tx rate))
    (hexit : FeeExit c data rate output changes outs index) :
    ∃ first rest, c.Conserved data rate output
      { data with tx := { data.tx with txOut := outs }, changeIndex := index } first rest := by
  have hkept := authored.outputs.outs_eq
  have hfee := (estimate.fees data.tx rate).1
  have htotal := authored.amounts.1
  cases hexit with
  | kept changes _ =>
      rw [← hkept]
      exact ⟨output, changes, authored.conserved⟩
  | moved change valid =>
      have hvalue := authored.change_value (List.mem_singleton_self change)
      have hchange : IsInt64 change.value := authored.amounts.2 change (by simp [hkept])
      have hlow := hchange.1
      obtain ⟨-, hrest⟩ := isInt64_rest hfee htotal fits valid (by omega)
      rw [wrapInt64_of_isInt64 fits, hvalue, wrapInt64_of_isInt64 hrest]
      cases authored.outputs with
      | change _ _ index =>
          refine ⟨_, _, conserved_charged hfee ?_ (.change _ rfl index) ?_ ?_ ?_⟩
          · exact estimate.sizes _ _ _ rfl (by simp [hkept])
          · simp
          · simp
          · intro hindex
            cases hindex.symm.trans index
  | taken valid =>
      have hle := authored.output_le
      rw [wrapInt64_of_isInt64 fits]
      cases authored.outputs with
      | alone _ index =>
          refine ⟨_, _, conserved_charged hfee ?_ (.alone rfl index) ?_ ?_ ?_⟩
          · exact estimate.sizes _ _ _ rfl (by simp [hkept])
          · simpa using hle
          · simp
          · simp
  | added valid notDust =>
      have hle := authored.output_le
      obtain ⟨hdust, hrest⟩ := isInt64_rest hfee htotal fits valid (by omega)
      obtain ⟨hnonneg, hmax⟩ := estimate.fees (c.withChange data.tx) rate
      have hcharged : IsInt64 (output.value - c.estimateFee (c.withChange data.tx) rate) := by
        have hhigh := authored.isInt64_output.2
        unfold dustAmount at hdust
        unfold maxSatoshi at hmax
        exact ⟨by omega, by omega⟩
      rw [wrapInt64_of_isInt64 hrest] at notDust ⊢
      rw [wrapInt64_of_isInt64 hcharged]
      refine ⟨_, _, conserved_charged hnonneg ?_ (.change _ rfl rfl) ?_ ?_ ?_⟩
      · exact estimate.sizes _ _ _ rfl (by simp [withChange, hkept])
      · simp
      · simp
      · simpa using fun _ => notDust

/-- Below the range the difference wraps to an amount no receiver is due. -/
theorem wrapInt64_below {amount fee : Int} (hamount : IsInt64 amount) (hfee : fee ≤ maxSatoshi)
    (below : amount - fee < -2 ^ 63) :
    wrapInt64 (amount - fee) = amount - fee + 2 ^ 64 ∧
      Client.withdrawalAmountValid (wrapInt64 (amount - fee)) = true := by
  have hlow := hamount.1
  have hwrap : wrapInt64 (amount - fee) = amount - fee + 2 ^ 64 := by
    unfold maxSatoshi at hfee
    unfold wrapInt64
    omega
  refine ⟨hwrap, decide_eq_true ?_⟩
  rw [hwrap]
  unfold maxSatoshi at hfee
  unfold dustAmount
  omega

theorem not_conserved_of_exit {changes outs : List TxOut} {index : Int} (estimate : c.FeeEstimate)
    (grows : ∀ tx rate, c.estimateFee tx rate ≤ c.estimateFee (c.withChange tx) rate)
    (authored : c.Authored data rate output changes)
    (below : output.value - c.estimateFee data.tx rate < -2 ^ 63)
    (hexit : FeeExit c data rate output changes outs index) {first : TxOut} {rest : List TxOut} :
    ¬c.Conserved data rate output
      { data with tx := { data.tx with txOut := outs }, changeIndex := index } first rest := by
  intro conserved
  have hamount := authored.isInt64_output
  have hmax := (estimate.fees data.tx rate).2
  have hmaxChange := (estimate.fees (c.withChange data.tx) rate).2
  have hgrows := grows data.tx rate
  obtain ⟨hwrap, hvalid⟩ := wrapInt64_below hamount hmax below
  obtain ⟨hwrapChange, hvalidChange⟩ := wrapInt64_below hamount hmaxChange (by omega)
  have hle := conserved.receiver_le estimate
  have houts := conserved.outputs.outs_eq
  dsimp only at houts
  unfold maxSatoshi at hmax hmaxChange
  cases hexit with
  | kept changes dust =>
      rcases dust with hdust | hdust
      · cases hvalid.symm.trans hdust
      · cases hvalidChange.symm.trans hdust
  | moved change _ =>
      obtain ⟨rfl, -⟩ := List.cons.inj houts
      dsimp only at hle
      omega
  | taken _ =>
      obtain ⟨rfl, -⟩ := List.cons.inj houts
      dsimp only at hle
      omega
  | added _ _ =>
      obtain ⟨rfl, -⟩ := List.cons.inj houts
      dsimp only at hle
      omega

/-- Charging the fee to the receiver of an authored transaction conserves its value exactly when
the receiver's amount less the fee is an `int64`. -/
theorem subtractFeeFromWithdrawal_conserves_iff (c : WithdrawalConstructor)
    (estimate : c.FeeEstimate)
    (grows : ∀ tx rate, c.estimateFee tx rate ≤ c.estimateFee (c.withChange tx) rate)
    (data : AuthoredTx) (rate : Int) (output : TxOut) (changes : List TxOut)
    (authored : c.Authored data rate output changes) :
    ∃ final, c.subtractFeeFromWithdrawal data rate = .ok final ∧
      ((∃ first rest, c.Conserved data rate output final first rest) ↔
        IsInt64 (output.value - c.estimateFee data.tx rate)) := by
  obtain ⟨outs, index, hrun, hexit⟩ := subtractFeeFromWithdrawal_exit c rate authored.outputs
  refine ⟨_, hrun, ?_⟩
  constructor
  · rintro ⟨first, rest, conserved⟩
    by_contra hwraps
    have hamount := authored.isInt64_output
    have hfee := (estimate.fees data.tx rate).1
    have hbelow : output.value - c.estimateFee data.tx rate < -2 ^ 63 := by
      unfold IsInt64 at hwraps hamount
      omega
    exact not_conserved_of_exit estimate grows authored hbelow hexit conserved
  · intro fits
    exact conserved_of_exit estimate authored fits hexit

section Sample

/-- 149 units for an input and 34 for an output, at any rate. -/
def feeConstructor : WithdrawalConstructor where
  client := ⟨str "btc", 1, [], ⟨fun _ => .error [], fun _ => .error []⟩,
    ⟨fun _ => true, fun _ => .ok [], fun _ => false, fun _ => .ok [], .ok, .ok⟩, id⟩
  tssAddr := str "tss"
  listUnspent := .ok []
  estimateFeeOrDefault := 1000
  newHashFromStr := fun _ => .error []
  hashString := fun _ => []
  arrangeOutputs := id
  author := fun _ _ _ _ => .error []
  estimateFee := fun tx _ => min maxSatoshi (10 + 149 * tx.txIn.length + 34 * tx.txOut.length)
  calcSignatureHash := fun _ _ _ _ => .ok []
  serialize := fun _ => []
  deserialize := fun _ => .error []

theorem feeConstructor_estimate : feeConstructor.FeeEstimate where
  fees := by
    intro tx rate
    simp only [feeConstructor, maxSatoshi]
    omega
  sizes := by
    intro tx tx' rate hinputs hscripts
    have houtputs := congrArg List.length hscripts
    simp only [List.length_map] at houtputs
    simp only [feeConstructor, hinputs, houtputs]

theorem feeConstructor_grows (tx : MsgTx) (rate : Int) :
    feeConstructor.estimateFee tx rate ≤
      feeConstructor.estimateFee (feeConstructor.withChange tx) rate := by
  simp only [feeConstructor, withChange, List.length_append, List.length_singleton]
  push_cast
  omega

/-- An input of 5547 pays 5000 to the receiver. -/
def changelessTx : AuthoredTx where
  tx := ⟨1, [newTxIn ⟨List.replicate 32 0xaa, rfl⟩ 0], [⟨5000, str "receiver"⟩], 0⟩
  prevScripts := []
  prevInputValues := [5547]
  totalInput := 5547
  changeIndex := -1

theorem subtractFeeFromWithdrawal_conserves_changeless :
    ∃ final first rest, feeConstructor.subtractFeeFromWithdrawal changelessTx 1000 = .ok final ∧
      final.tx.txOut = [⟨4773, str "receiver"⟩, ⟨547, str "tss"⟩] ∧
      feeConstructor.Conserved changelessTx 1000 ⟨5000, str "receiver"⟩ final first rest := by
  have authored : feeConstructor.Authored changelessTx 1000 ⟨5000, str "receiver"⟩ [] :=
    ⟨.alone rfl rfl, by decide, by decide, by decide, fun h => absurd rfl h⟩
  obtain ⟨final, hrun, hiff⟩ := subtractFeeFromWithdrawal_conserves_iff feeConstructor
    feeConstructor_estimate feeConstructor_grows changelessTx 1000 ⟨5000, str "receiver"⟩ []
    authored
  obtain ⟨first, rest, conserved⟩ := hiff.mpr (by decide)
  have hvalue : feeConstructor.subtractFeeFromWithdrawal changelessTx 1000 = .ok { changelessTx with
      tx := { changelessTx.tx with txOut := [⟨4773, str "receiver"⟩, ⟨547, str "tss"⟩] }
      changeIndex := 1 } := by decide
  exact ⟨final, first, rest, hrun, by cases hrun.symm.trans hvalue; rfl, conserved⟩

/-- A withdrawal of 5 - 2^63, which is what `Int64` makes of 2^63 + 5: no input is needed for it,
and the change is what it leaves of nothing. -/
def wrappedTx : AuthoredTx where
  tx := ⟨1, [], [⟨-9223372036854775803, str "receiver"⟩, ⟨9223372036854775725, str "tss"⟩], 0⟩
  prevScripts := []
  prevInputValues := []
  totalInput := 0
  changeIndex := 1

/-- The receiver is charged a fee of 78 and gets 2^63 - 73 for it. -/
theorem subtractFeeFromWithdrawal_wraps :
    feeConstructor.Authored wrappedTx 1000 ⟨-9223372036854775803, str "receiver"⟩
        [⟨9223372036854775725, str "tss"⟩] ∧
      ∃ final, feeConstructor.subtractFeeFromWithdrawal wrappedTx 1000 = .ok final ∧
        final.tx.txOut =
          [⟨9223372036854775735, str "receiver"⟩, ⟨9223372036854775803, str "tss"⟩] ∧
        feeConstructor.estimateFee final.tx 1000 = 78 ∧ outputSum final.tx = 18446744073709551538 ∧
        final.totalInput = 0 := by
  refine ⟨⟨.change _ rfl rfl, by decide, by decide, by decide, fun _ => by decide⟩, ?_⟩
  exact ⟨{ wrappedTx with
    tx := { wrappedTx.tx with
      txOut := [⟨9223372036854775735, str "receiver"⟩, ⟨9223372036854775803, str "tss"⟩] } },
    by decide +kernel, rfl, by decide, by decide, rfl⟩

end Sample

end WithdrawalConstructor

end TssSvc.Bridge.Utxo
