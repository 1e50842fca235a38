import Mathlib.Data.List.Dedup
import TssSvc.Bridge.CoinSource
import TssSvc.Bridge.FeeConservation

/-!
# What an accepted UTXO withdrawal is worth

`IsValid` builds the transaction again from the inputs it finds in the proposal and compares
bytes.  The rebuilt transaction pays the receiver and the change address and no more than its
inputs hold, but the inputs are those of the proposal, repetitions included, and the amount goes
through `Int64`.  An accepted transaction is sound exactly when its inputs are distinct and the
amount fits.

`txauthor.NewUnsignedTransaction` draws its inputs from `inputSource`; what else is assumed of
the libraries is in `Libraries`.
-/

set_option autoImplicit false

namespace TssSvc.Bridge.Utxo

open TssSvc.Db TssSvc.Session

/-! ## Successful calls of the input source -/

section Calls

variable {newHashFromStr : GoString → Except GoString Hash} {coins : List ListUnspentResult}

theorem follows_foldlM (targets : List Int) {taken : List ListUnspentResult} {s s' : InputSource}
    (h : CoinSource.Follows newHashFromStr coins taken s)
    (run : targets.foldlM (CoinSource.fetch newHashFromStr) s = .ok s') :
    ∃ taken', CoinSource.Follows newHashFromStr coins taken' s' := by
  induction targets generalizing s taken with
  | nil =>
      cases run
      exact ⟨taken, h⟩
  | cons target targets ih =>
      rw [List.foldlM_cons, Outcome.bind_eq_ok] at run
      obtain ⟨mid, hfetch, hrest⟩ := run
      obtain ⟨taken', hmid⟩ := h.fetch hfetch
      exact ih hmid hrest

/-- Calls for no positive amount take nothing. -/
theorem foldlM_inputSource (targets : List Int) (nonpos : ∀ target ∈ targets, target ≤ 0) :
    targets.foldlM (CoinSource.fetch newHashFromStr) (inputSource coins) =
      .ok (inputSource coins) := by
  induction targets with
  | nil => rfl
  | cons target targets ih =>
      rw [List.foldlM_cons, CoinSource.fetch_inputSource (nonpos target List.mem_cons_self),
        Outcome.ok_bind]
      exact ih fun later hlater => nonpos later (List.mem_cons_of_mem target hlater)

end Calls

/-! ## The libraries -/

namespace WithdrawalConstructor

/-- What is assumed of the libraries.  `chainhash` reads what it prints.  A transaction that is
built for a receiver reads back as itself and only if it has inputs: without them the count of the
inputs is the marker of a witness transaction.  Sorting permutes.  `NewUnsignedTransaction` takes
the inputs its source gives it until they cover the outputs and a fee, and appends at most one
change output. -/
structure Libraries (c : WithdrawalConstructor) : Prop extends c.FeeEstimate where
  parses : CoinSource.Parses c.newHashFromStr c.hashString
  reads : ∀ coins rate receiver output a tx, feeRateValid rate = true →
    c.client.lib.payToAddr receiver = .ok output.pkScript →
      c.unsignedTx coins rate output = .ok a → c.deserialize (c.serialize a.tx) = .ok tx →
        tx = a.tx ∧ tx.txIn ≠ []
  arranges : ∀ coins, (c.arrangeOutputs coins).Perm coins
  draws : ∀ outputs rate coins script a, c.author outputs rate coins script = .ok a →
    ∃ (targets : List Int) (s : InputSource),
      (∀ target ∈ targets, target ≤ (outputs.map TxOut.value).sum + maxSatoshi) ∧
      targets.foldlM (CoinSource.fetch c.newHashFromStr) (inputSource coins) = .ok s ∧
      a.tx.txIn = s.currentInputs ∧ a.prevScripts = s.currentScripts ∧
      a.prevInputValues = s.currentInputValues ∧ a.totalInput = s.currentTotal
  pays : ∀ outputs rate coins script a, c.author outputs rate coins script = .ok a →
    (a.tx.txOut = outputs ∧ a.changeIndex = -1) ∨
      ∃ change, IsInt64 change ∧ a.tx.txOut = outputs ++ [⟨change, script⟩] ∧
        a.changeIndex = outputs.length
  covers : ∀ outputs rate coins script a, c.author outputs rate coins script = .ok a →
    (a.tx.txOut.map TxOut.value).sum ≤ a.totalInput

variable {c : WithdrawalConstructor}

/-! ## The rebuilt transaction -/

/-- The inputs of the transaction and what is known of the outputs they spend. -/
structure Spends (c : WithdrawalConstructor) (taken : List ListUnspentResult) (a : AuthoredTx) :
    Prop where
  inputs : List.Forall₂ (CoinSource.Spends c.newHashFromStr) taken a.tx.txIn
  scripts : List.Forall₂ (fun u script => decodeString u.scriptPubKey = some script) taken
    a.prevScripts
  values : a.prevInputValues = taken.map ListUnspentResult.amount
  total : a.totalInput = wrapInt64 (taken.map ListUnspentResult.amount).sum

/-- What `NewUnsignedTransaction` makes of the outputs of the wallet. -/
structure Drafted (c : WithdrawalConstructor) (coins : List ListUnspentResult) (output : TxOut)
    (a : AuthoredTx) (taken rest : List ListUnspentResult) (changes : List TxOut) : Prop where
  perm : (taken ++ rest).Perm coins
  spends : c.Spends taken a
  script : c.client.lib.payToAddr c.tssAddr = .ok c.changeScript
  outputs : Outputs output a changes
  ours : ∀ change ∈ changes, change.pkScript = c.changeScript ∧ IsInt64 change.value
  covered : outputSum a.tx ≤ a.totalInput
  due : a.tx.txIn ≠ [] → -maxSatoshi < output.value

/-- One output to the receiver, at most one to the change script, and no more than the inputs. -/
structure Pays (script : Bytes) (atLeast atMost : Int) (changeScript : Bytes) (a : AuthoredTx) :
    Prop where
  outputs : ∃ value rest, a.tx.txOut = ⟨value, script⟩ :: rest ∧ atLeast ≤ value ∧ value ≤ atMost ∧
    (rest = [] ∨ ∃ change, rest = [⟨change, changeScript⟩])
  covered : outputSum a.tx ≤ a.totalInput

theorem Libraries.outputs (libs : c.Libraries) {rate : Int} {coins : List ListUnspentResult}
    {output : TxOut} {a : AuthoredTx}
    (h : c.author [output] rate coins c.changeScript = .ok a) :
    ∃ changes, Outputs output a changes ∧
      ∀ change ∈ changes, change.pkScript = c.changeScript ∧ IsInt64 change.value := by
  rcases libs.pays _ _ _ _ _ h with ⟨houts, hindex⟩ | ⟨change, hchange, houts, hindex⟩
  · exact ⟨[], .alone houts hindex, fun _ hmem => (by cases hmem)⟩
  · refine ⟨_, .change _ houts hindex, fun only hmem => ?_⟩
    rw [List.mem_singleton.mp hmem]
    exact ⟨rfl, hchange⟩

theorem newUnsignedTransaction_ok (libs : c.Libraries) {coins : List ListUnspentResult}
    {rate : Int} {output : TxOut} {a : AuthoredTx}
    (h : c.newUnsignedTransaction coins rate [output] c.tssAddr = .ok a) :
    ∃ taken rest changes, c.Drafted coins output a taken rest changes := by
  simp only [newUnsignedTransaction, Outcome.bind_eq_ok, Outcome.wrap_eq_ok, external_eq_ok] at h
  obtain ⟨changeScript, hscript, hauthor⟩ := h
  obtain rfl := changeScript_eq hscript
  obtain ⟨targets, s, hbound, hfetch, hinputs, hscripts, hvalues, htotal⟩ :=
    libs.draws _ _ _ _ _ hauthor
  obtain ⟨taken, hfollows⟩ := follows_foldlM targets (CoinSource.follows_inputSource _) hfetch
  obtain ⟨changes, houtputs, hours⟩ := libs.outputs hauthor
  refine ⟨taken, s.outputs, changes, ?_, ?_, hscript, houtputs, hours,
    libs.covers _ _ _ _ _ hauthor, ?_⟩
  · rw [← hfollows.split]
    exact libs.arranges coins
  · exact ⟨hinputs ▸ hfollows.inputs, hscripts ▸ hfollows.scripts, hvalues.trans hfollows.values,
      htotal.trans hfollows.total⟩
  · -- for a receiver that owes more than any fee nothing is drawn
    intro hspends
    by_contra hdue
    refine hspends ?_
    have hnonpos : ∀ target ∈ targets, target ≤ 0 := by
      intro target hmem
      have hle := hbound target hmem
      simp only [List.map_cons, List.map_nil, List.sum_cons, List.sum_nil] at hle
      omega
    rw [foldlM_inputSource targets hnonpos] at hfetch
    cases hfetch
    exact hinputs

/-- Charging the fee takes at most the fee of the final transaction from the receiver, and the
outputs stay within the inputs. -/
theorem Drafted.pays (libs : c.Libraries) {coins taken rest : List ListUnspentResult} {rate : Int}
    {output : TxOut} {a : AuthoredTx} {changes outs : List TxOut} {index : Int}
    (h : c.Drafted coins output a taken rest changes) (houtput : IsInt64 output.value)
    (hdue : -maxSatoshi < output.value) (hexit : FeeExit c a rate output changes outs index) :
    Pays output.pkScript (output.value - c.estimateFee { a.tx with txOut := outs } rate)
      output.value c.changeScript
      { a with tx := { a.tx with txOut := outs }, changeIndex := index } := by
  -- the fee is the same for outputs with the same scripts
  have hsame : ∀ outs' : List TxOut, outs.map TxOut.pkScript = outs'.map TxOut.pkScript →
      c.estimateFee { a.tx with txOut := outs } rate =
        c.estimateFee { a.tx with txOut := outs' } rate :=
    fun _ hscripts => libs.sizes _ _ _ rfl hscripts
  have hkept := h.outputs.outs_eq
  have hcovered := h.covered
  rw [outputSum_cons hkept] at hcovered
  have hfits : ∀ tx : MsgTx, wrapInt64 (output.value - c.estimateFee tx rate) =
      output.value - c.estimateFee tx rate := by
    intro tx
    obtain ⟨hnonneg, hmax⟩ := libs.fees tx rate
    have hhigh := houtput.2
    unfold maxSatoshi at hmax hdue
    exact wrapInt64_of_isInt64 ⟨by omega, by omega⟩
  cases hexit with
  | kept changes _ =>
      refine ⟨⟨output.value, changes, rfl, ?_, le_refl _, ?_⟩, ?_⟩
      · exact Int.sub_le_self _ (libs.fees _ _).1
      · cases h.outputs with
        | alone _ _ => exact .inl rfl
        | change change _ _ =>
            obtain ⟨hscript, -⟩ := h.ours change (List.mem_singleton_self change)
            exact .inr ⟨change.value, by rw [← hscript]⟩
      · rw [outputSum_cons rfl]
        exact hcovered
  | moved change _ =>
      obtain ⟨hscript, hlow, -⟩ := h.ours change (List.mem_singleton_self change)
      simp only [List.map_cons, List.map_nil, List.sum_cons, List.sum_nil] at hcovered
      have hnonneg := (libs.fees a.tx rate).1
      have hwrap : wrapInt64 (change.value + c.estimateFee a.tx rate) ≤
          change.value + c.estimateFee a.tx rate := wrapInt64_le (by omega)
      rw [hsame a.tx.txOut (by simp [hkept]), hfits]
      refine ⟨⟨_, _, rfl, le_refl _, by omega, .inr ⟨_, by rw [hscript]⟩⟩, ?_⟩
      simp only [outputSum, List.map_cons, List.map_nil, List.sum_cons, List.sum_nil]
      omega
  | taken _ =>
      simp only [List.map_nil, List.sum_nil] at hcovered
      have hnonneg := (libs.fees a.tx rate).1
      rw [hsame a.tx.txOut (by simp [hkept]), hfits]
      refine ⟨⟨_, _, rfl, le_refl _, by omega, .inl rfl⟩, ?_⟩
      simp only [outputSum, List.map_cons, List.map_nil, List.sum_cons, List.sum_nil]
      omega
  | added _ _ =>
      simp only [List.map_nil, List.sum_nil] at hcovered
      have hnonneg := (libs.fees (c.withChange a.tx) rate).1
      have hwrap : wrapInt64 (a.totalInput - output.value) ≤ a.totalInput - output.value :=
        wrapInt64_le (by omega)
      rw [hsame (c.withChange a.tx).txOut (by simp [withChange, hkept]), hfits]
      refine ⟨⟨_, _, rfl, le_refl _, by omega, .inr ⟨_, rfl⟩⟩, ?_⟩
      simp only [outputSum, List.map_cons, List.map_nil, List.sum_cons, List.sum_nil]
      omega

/-- The transaction `IsValid` rebuilds from the inputs it found: a draft with the fee charged. -/
theorem unsignedTx_ok (libs : c.Libraries) {coins : List ListUnspentResult} {rate : Int}
    {output : TxOut} {final : AuthoredTx} (h : c.unsignedTx coins rate output = .ok final) :
    ∃ a taken rest changes outs index, c.Drafted coins output a taken rest changes ∧
      FeeExit c a rate output changes outs index ∧
      final = { a with tx := { a.tx with txOut := outs }, changeIndex := index } := by
  simp only [unsignedTx, Outcome.bind_eq_ok, Outcome.wrap_eq_ok] at h
  obtain ⟨a, hauthored, hcharged⟩ := h
  obtain ⟨taken, rest, changes, drafted⟩ := newUnsignedTransaction_ok libs hauthored
  obtain ⟨outs, index, hrun, hexit⟩ := subtractFeeFromWithdrawal_exit c rate drafted.outputs
  exact ⟨a, taken, rest, changes, outs, index, drafted, hexit,
    (Outcome.ok.inj (hrun.symm.trans hcharged)).symm⟩

/-- It spends outputs it was given. -/
theorem unsignedTx_spends (libs : c.Libraries) {coins : List ListUnspentResult} {rate : Int}
    {output : TxOut} {final : AuthoredTx} (h : c.unsignedTx coins rate output = .ok final) :
    ∃ taken rest, (taken ++ rest).Perm coins ∧ c.Spends taken final := by
  obtain ⟨a, taken, rest, changes, outs, index, drafted, -, rfl⟩ := unsignedTx_ok libs h
  exact ⟨taken, rest, drafted.perm, drafted.spends.inputs, drafted.spends.scripts,
    drafted.spends.values, drafted.spends.total⟩

/-! ## Signature hashes -/

/-- `hashes` are the signature hashes of the inputs from `i` on, one a script. -/
theorem signatureHashesFrom_ok {data : AuthoredTx} {slots : Nat} {scripts : List Bytes}
    {hashes : List Bytes} {i : Nat} (hslots : slots = i + scripts.length)
    (h : c.signatureHashesFrom data slots i scripts = .ok hashes) :
    hashes.length = scripts.length ∧ ∀ (j : Nat) (script : Bytes), scripts[j]? = some script →
      ∃ amt hash, data.prevInputValues[i + j]? = some amt ∧ hashes[j]? = some hash ∧
        c.calculateSignatureHash script data.tx (i + j) amt = .ok hash := by
  induction scripts generalizing i hashes with
  | nil =>
      cases h
      refine ⟨by simp [hslots], fun j script hj => ?_⟩
      simp at hj
  | cons script scripts ih =>
      rw [List.length_cons] at hslots
      simp only [signatureHashesFrom, Outcome.bind_eq_ok, Outcome.mapErr_eq_ok] at h
      obtain ⟨amt, hamt, sigHash, hhash, h⟩ := h
      rw [if_neg (by omega)] at h
      simp only [Outcome.bind_eq_ok, Outcome.pure_eq_ok, Outcome.ok.injEq] at h
      obtain ⟨others, hothers, rfl⟩ := h
      obtain ⟨hlength, hrest⟩ := ih (by omega) hothers
      refine ⟨by simp [hlength], ?_⟩
      intro j s hj
      cases j with
      | zero =>
          rw [List.getElem?_cons_zero, Option.some.injEq] at hj
          subst hj
          have hvalue : data.prevInputValues[i]? = some amt := by
            simp only [Outcome.index, Int.natCast_nonneg, not_lt, if_neg, Int.toNat_natCast] at hamt
            cases hget : data.prevInputValues[i]? with
            | none => simp [hget] at hamt
            | some value =>
                simp only [hget] at hamt
                cases hamt
                rfl
          exact ⟨amt, sigHash, hvalue, rfl, hhash⟩
      | succ j =>
          rw [List.getElem?_cons_succ] at hj
          obtain ⟨amt', hash', hvalue, hget, hcalc⟩ := hrest j s hj
          rw [show i + 1 + j = i + (j + 1) by omega] at hvalue hcalc
          exact ⟨amt', hash', hvalue, by rwa [List.getElem?_cons_succ], hcalc⟩

/-- What stands at a position stands in relation to what stands there in the other list. -/
theorem getElem?_of_forall₂ {α β : Type} {R : α → β → Prop} {as : List α} {bs : List β}
    (h : List.Forall₂ R as bs) {i : Nat} {a : α} (ha : as[i]? = some a) :
    ∃ b, bs[i]? = some b ∧ R a b := by
  induction h generalizing i with
  | nil => cases ha
  | cons head _ ih =>
      cases i with
      | zero =>
          cases ha
          exact ⟨_, rfl, head⟩
      | succ i => exact ih ha

theorem formSignatureHashes_ok {data : AuthoredTx} {taken : List ListUnspentResult}
    (hspends : c.Spends taken data) {hashes : List Bytes}
    (h : c.formSignatureHashes data = .ok hashes) :
    hashes.length = taken.length ∧ ∀ (i : Nat) (u : ListUnspentResult), taken[i]? = some u →
      ∃ script hash, decodeString u.scriptPubKey = some script ∧ hashes[i]? = some hash ∧
        c.calculateSignatureHash script data.tx i u.amount = .ok hash := by
  have hcount := hspends.scripts.length_eq
  have hslots : data.tx.txIn.length = 0 + data.prevScripts.length := by
    rw [← hspends.inputs.length_eq, hcount, Nat.zero_add]
  obtain ⟨hlength, hall⟩ := signatureHashesFrom_ok hslots h
  refine ⟨hlength.trans hcount.symm, ?_⟩
  intro i u hu
  obtain ⟨script, hscript, hdecode⟩ := getElem?_of_forall₂ hspends.scripts hu
  obtain ⟨amt, hash, hvalue, hhash, hcalc⟩ := hall i script hscript
  rw [Nat.zero_add] at hvalue hcalc
  rw [hspends.values, List.getElem?_map, hu, Option.map_some, Option.some.injEq] at hvalue
  subst hvalue
  exact ⟨script, hash, hdecode, hhash, hcalc⟩

/-! ## Looking the inputs up -/

/-- The output that the wallet lists for what the input spends. -/
def Found (c : WithdrawalConstructor) (unspent : List ListUnspentResult) (txIn : TxIn)
    (u : ListUnspentResult) : Prop :=
  lookupUnspent unspent (txIn.previousOutPoint.text c.hashString) = some u

theorem lookupUnspent_eq_some {unspent : List ListUnspentResult} {outPoint : OutPoint}
    {u : ListUnspentResult} (h : lookupUnspent unspent outPoint = some u) :
    u ∈ unspent ∧ u.outPoint = outPoint := by
  unfold lookupUnspent at h
  have hfound := List.find?_some h
  exact ⟨List.mem_reverse.mp (List.mem_of_find?_eq_some h), of_decide_eq_true hfound⟩

/-- The outputs found go with the inputs one by one. -/
theorem findUsedInputs_ok {hashString : Hash → GoString} {tx : MsgTx}
    {unspent usedInputs : List ListUnspentResult} :
    findUsedInputs hashString tx unspent = .ok usedInputs ↔
      List.Forall₂ (fun (txIn : TxIn) u =>
        lookupUnspent unspent (txIn.previousOutPoint.text hashString) = some u) tx.txIn
        usedInputs := by
  unfold findUsedInputs
  generalize tx.txIn = txIn
  induction txIn generalizing usedInputs with
  | nil =>
      rw [List.mapM_nil, Outcome.pure_eq_ok, Outcome.ok.injEq, List.forall₂_nil_left_iff, eq_comm]
  | cons input txIn ih =>
      simp only [List.mapM_cons, Outcome.bind_eq_ok, Outcome.ofOption_eq_ok, Outcome.pure_eq_ok,
        Outcome.ok.injEq, List.forall₂_cons_left_iff, ih]
      constructor
      · rintro ⟨found, hfound, others, hothers, rfl⟩
        exact ⟨found, others, hfound, hothers, rfl⟩
      · rintro ⟨found, others, hfound, hothers, rfl⟩
        exact ⟨found, hfound, others, hothers, rfl⟩

theorem mem_of_findUsedInputs {hashString : Hash → GoString} {tx : MsgTx}
    {unspent usedInputs : List ListUnspentResult}
    (h : findUsedInputs hashString tx unspent = .ok usedInputs) {u : ListUnspentResult}
    (hu : u ∈ usedInputs) :
    ∃ txIn ∈ tx.txIn, lookupUnspent unspent (txIn.previousOutPoint.text hashString) = some u := by
  obtain ⟨i, hi⟩ := List.mem_iff_getElem?.mp hu
  obtain ⟨txIn, htxIn, hfound⟩ := getElem?_of_forall₂ (findUsedInputs_ok.mp h).flip hi
  exact ⟨txIn, List.mem_of_getElem? htxIn, hfound⟩

/-- An output that was found for some input is the one the wallet lists for every input that
spends it: the id it was found under is a printed hash, so parsing it gives that hash back. -/
theorem found_of_spends (parses : CoinSource.Parses c.newHashFromStr c.hashString)
    {tx : MsgTx} {unspent usedInputs : List ListUnspentResult}
    (h : findUsedInputs c.hashString tx unspent = .ok usedInputs) {u : ListUnspentResult}
    (hu : u ∈ usedInputs) {txIn : TxIn} (hspends : CoinSource.Spends c.newHashFromStr u txIn) :
    c.Found unspent txIn u := by
  obtain ⟨other, -, hfound⟩ := mem_of_findUsedInputs h hu
  have hpoint := (lookupUnspent_eq_some hfound).2
  obtain ⟨hhash, hindex⟩ := hspends.names
  have hid : u.txId = c.hashString other.previousOutPoint.hash := congrArg OutPoint.txId hpoint
  rw [hid, parses, Except.ok.injEq] at hhash
  have hvout : u.vout = other.previousOutPoint.index := congrArg OutPoint.index hpoint
  have hsame : txIn.previousOutPoint.text c.hashString =
      other.previousOutPoint.text c.hashString := by
    rw [WireOutPoint.text, WireOutPoint.text, ← hhash, ← hindex, hvout]
  rw [Found, hsame]
  exact hfound

/-! ## Sound withdrawals -/

def valueOf (c : WithdrawalConstructor) (unspent : List ListUnspentResult) (p : WireOutPoint) :
    Int :=
  (lookupUnspent unspent (p.text c.hashString)).elim 0 ListUnspentResult.amount

/-- What the transaction of a withdrawal has to be, given the acceptor's unspent outputs. -/
structure Sound (c : WithdrawalConstructor) (unspent : List ListUnspentResult)
    (proposal : BitcoinProposalData) (deposit : Deposit) (tx : MsgTx) : Prop where
  distinct : (tx.txIn.map TxIn.previousOutPoint).Nodup
  available : ∀ txIn ∈ tx.txIn, ∃ u ∈ unspent,
    u.outPoint = txIn.previousOutPoint.text c.hashString
  receiver : ∃ amount script out rest, Decimal.setString deposit.withdrawalAmount = some amount ∧
    c.client.lib.payToAddr deposit.receiver = .ok script ∧ tx.txOut = out :: rest ∧
    out.pkScript = script ∧ amount - c.estimateFee tx proposal.feeRate ≤ out.value ∧
    out.value ≤ amount
  change : tx.txOut.length ≤ 2 ∧
    ∀ out, tx.txOut[1]? = some out → c.client.lib.payToAddr c.tssAddr = .ok out.pkScript
  balanced : (tx.txOut.map TxOut.value).sum ≤
    ((tx.txIn.map TxIn.previousOutPoint).dedup.map (c.valueOf unspent)).sum
  hashes : proposal.sigData.length = tx.txIn.length ∧
    ∀ (i : Nat) (txIn : TxIn), tx.txIn[i]? = some txIn → ∃ u script hash,
      c.Found unspent txIn u ∧ decodeString u.scriptPubKey = some script ∧
      proposal.sigData[i]? = some hash ∧ c.calculateSignatureHash script tx i u.amount = .ok hash

/-- The wallet can pay the deposit from these outputs: at a valid rate they make a transaction to
the receiver that, written and read again, is found to spend them, and every input of it can be
hashed. -/
structure Payable (c : WithdrawalConstructor) (deposit : Deposit) (coins : List ListUnspentResult)
    (feeRate : Int) (expected : AuthoredTx) : Prop where
  rate : feeRateValid feeRate = true
  built : ∃ amount script, Decimal.setString deposit.withdrawalAmount = some amount ∧
    c.client.lib.payToAddr deposit.receiver = .ok script ∧
    c.unsignedTx coins feeRate ⟨wrapInt64 amount, script⟩ = .ok expected
  found : ∃ unspent tx, c.listUnspent = .ok unspent ∧
    c.deserialize (c.serialize expected.tx) = .ok tx ∧
    List.Forall₂ (c.Found unspent) tx.txIn coins
  hashed : ∃ sigHashes, c.formSignatureHashes expected = .ok sigHashes

/-- `IsValid` accepts exactly the data of a transaction with which the wallet can pay. -/
theorem isValid_eq_true_iff {proposal : BitcoinProposalData} {deposit : Deposit} :
    c.isValid (some proposal) deposit = .ok true ↔
      ∃ coins expected, c.Payable deposit coins proposal.feeRate expected ∧
        c.serialize expected.tx = proposal.serializedTx ∧
        c.formSignatureHashes expected = .ok proposal.sigData := by
  simp only [isValid, receiverOutput, Outcome.bind_eq_ok, Outcome.deref_eq_ok, Outcome.wrap_eq_ok,
    Outcome.check_eq_ok, Outcome.ofOption_eq_ok, Outcome.pure_eq_ok, external_eq_ok,
    Outcome.ok.injEq, Option.some.injEq, and_true, findUsedInputs_ok]
  constructor
  · rintro ⟨_, rfl, tx, htx, _, hrate, unspent, hunspent, usedInputs, hused, output,
      ⟨amount, hamount, script, hscript, rfl⟩, expected, hexpected, _, hserialized, sigHashes,
      hhashes, _, hmatch⟩
    rw [sigDataMatches_eq_ok.mp hmatch] at hhashes
    exact ⟨usedInputs, expected, ⟨hrate, ⟨amount, script, hamount, hscript, hexpected⟩,
      ⟨unspent, tx, hunspent, hserialized ▸ htx, hused⟩, _, hhashes⟩, hserialized, hhashes⟩
  · rintro ⟨coins, expected, payable, hserialized, hhashes⟩
    obtain ⟨amount, script, hamount, hscript, hexpected⟩ := payable.built
    obtain ⟨unspent, tx, hunspent, htx, hused⟩ := payable.found
    exact ⟨proposal, rfl, tx, hserialized ▸ htx, (), payable.rate, unspent, hunspent, coins, hused,
      _, ⟨amount, hamount, script, hscript, rfl⟩, expected, hexpected, (), hserialized, _, hhashes,
      (), sigDataMatches_eq_ok.mpr rfl⟩

/-- The parts of `Sound` that hold of every accepted transaction, with the value of the first
output as it is computed. -/
structure Rebuilt (c : WithdrawalConstructor) (unspent : List ListUnspentResult)
    (proposal : BitcoinProposalData) (tx : MsgTx) (taken : List ListUnspentResult) (amount : Int)
    (script : Bytes) : Prop where
  found : List.Forall₂ (c.Found unspent) tx.txIn taken
  receiver : ∃ out rest, tx.txOut = out :: rest ∧ out.pkScript = script ∧
    wrapInt64 amount - c.estimateFee tx proposal.feeRate ≤ out.value ∧ out.value ≤ wrapInt64 amount
  change : tx.txOut.length ≤ 2 ∧
    ∀ out, tx.txOut[1]? = some out → c.client.lib.payToAddr c.tssAddr = .ok out.pkScript
  covered : (tx.txOut.map TxOut.value).sum ≤ wrapInt64 (taken.map ListUnspentResult.amount).sum
  hashes : proposal.sigData.length = taken.length ∧
    ∀ (i : Nat) (u : ListUnspentResult), taken[i]? = some u → ∃ script hash,
      decodeString u.scriptPubKey = some script ∧ proposal.sigData[i]? = some hash ∧
      c.calculateSignatureHash script tx i u.amount = .ok hash

theorem rebuilt_of_isValid (libs : c.Libraries) {proposal : BitcoinProposalData}
    {deposit : Deposit} (h : c.isValid (some proposal) deposit = .ok true) :
    ∃ tx unspent taken amount script, c.deserialize proposal.serializedTx = .ok tx ∧
      c.listUnspent = .ok unspent ∧ Decimal.setString deposit.withdrawalAmount = some amount ∧
      c.client.lib.payToAddr deposit.receiver = .ok script ∧
      Rebuilt c unspent proposal tx taken amount script := by
  obtain ⟨usedInputs, expected, payable, hserialized, hhashes⟩ := isValid_eq_true_iff.mp h
  obtain ⟨amount, script, hamount, hscript, hexpected⟩ := payable.built
  obtain ⟨unspent, tx, hunspent, htx, hused⟩ := payable.found
  -- the bytes compared are those of the rebuilt transaction
  obtain ⟨rfl, hinputs⟩ := libs.reads _ _ _ _ _ _ payable.rate hscript hexpected htx
  rw [hserialized] at htx
  obtain ⟨a, taken, rest, changes, outs, index, drafted, hexit, rfl⟩ := unsignedTx_ok libs hexpected
  have hspends : c.Spends taken
      { a with tx := { a.tx with txOut := outs }, changeIndex := index } :=
    ⟨drafted.spends.inputs, drafted.spends.scripts, drafted.spends.values, drafted.spends.total⟩
  have hpays := drafted.pays libs (isInt64_wrapInt64 amount) (drafted.due hinputs) hexit
  refine ⟨_, unspent, taken, amount, script, htx, hunspent, hamount, hscript, ?_⟩
  obtain ⟨value, others, houts, hlow, hhigh, hothers⟩ := hpays.outputs
  refine ⟨?_, ⟨_, others, houts, rfl, hlow, hhigh⟩, ?_, ?_, formSignatureHashes_ok hspends hhashes⟩
  · refine (List.forall₂_iff_get.mpr ⟨hspends.inputs.length_eq, fun i hi hi' => ?_⟩).flip
    have hmem : taken.get ⟨i, hi⟩ ∈ usedInputs :=
      drafted.perm.subset (List.mem_append_left _ (List.get_mem taken ⟨i, hi⟩))
    exact found_of_spends libs.parses (findUsedInputs_ok.mpr hused) hmem
      ((List.forall₂_iff_get.mp hspends.inputs).2 i hi hi')
  · rw [houts]
    rcases hothers with rfl | ⟨change, rfl⟩
    · simp
    · refine ⟨by simp, fun out hout => ?_⟩
      simp only [List.getElem?_cons_succ, List.getElem?_cons_zero, Option.some.injEq] at hout
      rw [drafted.script, ← hout]
  · rw [← hspends.total]
    exact hpays.covered

/-- The sum over the inputs when no outpoint is repeated. -/
theorem sum_valueOf {unspent taken : List ListUnspentResult} {txIn : List TxIn}
    (found : List.Forall₂ (c.Found unspent) txIn taken) :
    ((txIn.map TxIn.previousOutPoint).map (c.valueOf unspent)).sum =
      (taken.map ListUnspentResult.amount).sum := by
  induction found with
  | nil => rfl
  | cons hfound _ ih =>
      rw [List.map_cons, List.map_cons, List.sum_cons, ih, List.map_cons, List.sum_cons, valueOf,
        hfound]
      rfl

theorem mem_of_found {unspent taken : List ListUnspentResult} {txIn : List TxIn}
    (found : List.Forall₂ (c.Found unspent) txIn taken) : ∀ u ∈ taken, u ∈ unspent := by
  intro u hu
  obtain ⟨i, hi⟩ := List.mem_iff_getElem?.mp hu
  obtain ⟨input, -, hfound⟩ := getElem?_of_forall₂ found.flip hi
  exact (lookupUnspent_eq_some hfound).1

/-- An accepted transaction is sound exactly when its inputs spend distinct outpoints and the
withdrawal amount fits in 64 bits. -/
theorem isValid_sound_iff (libs : c.Libraries)
    (amounts : ∀ unspent, c.listUnspent = .ok unspent → ∀ u ∈ unspent, 0 ≤ u.amount)
    {proposal : BitcoinProposalData} {deposit : Deposit}
    (valid : c.isValid (some proposal) deposit = .ok true) :
    ∃ tx unspent amount, c.deserialize proposal.serializedTx = .ok tx ∧
      c.listUnspent = .ok unspent ∧ Decimal.setString deposit.withdrawalAmount = some amount ∧
      (Sound c unspent proposal deposit tx ↔
        (tx.txIn.map TxIn.previousOutPoint).Nodup ∧ wrapInt64 amount = amount) := by
  obtain ⟨tx, unspent, taken, amount, script, htx, hunspent, hamount, hscript, rebuilt⟩ :=
    rebuilt_of_isValid libs valid
  refine ⟨tx, unspent, amount, htx, hunspent, hamount, ?_⟩
  obtain ⟨out, rest, houts, hpk, hlow, hhigh⟩ := rebuilt.receiver
  constructor
  · intro sound
    refine ⟨sound.distinct, ?_⟩
    -- amounts that differ by 2 ^ 64 are further apart than any fee
    obtain ⟨amount', script', out', rest', hamount', -, houts', -, hlow', hhigh'⟩ := sound.receiver
    cases hamount.symm.trans hamount'
    cases houts.symm.trans houts'
    obtain ⟨k, hk⟩ := wrapInt64_diff amount
    obtain ⟨hpos, hfee⟩ := libs.fees tx proposal.feeRate
    unfold maxSatoshi at hfee
    omega
  · rintro ⟨distinct, fits⟩
    rw [fits] at hlow hhigh
    refine ⟨distinct, ?_, ⟨amount, script, out, rest, hamount, hscript, houts, hpk, hlow, hhigh⟩,
      rebuilt.change, ?_, ?_⟩
    · intro txIn htxIn
      obtain ⟨i, hi⟩ := List.mem_iff_getElem?.mp htxIn
      obtain ⟨u, -, hfound⟩ := getElem?_of_forall₂ rebuilt.found hi
      exact ⟨u, lookupUnspent_eq_some hfound⟩
    · rw [distinct.dedup, sum_valueOf rebuilt.found]
      -- a sum of amounts can only wrap downwards
      have hnonneg : 0 ≤ (taken.map ListUnspentResult.amount).sum :=
        ShortestPrefix.total_nonneg ListUnspentResult.amount fun u hu =>
          amounts unspent hunspent u (mem_of_found rebuilt.found u hu)
      exact rebuilt.covered.trans (wrapInt64_le (by omega))
    · refine ⟨rebuilt.hashes.1.trans rebuilt.found.length_eq.symm, ?_⟩
      intro i txIn hi
      obtain ⟨u, hu, hfound⟩ := getElem?_of_forall₂ rebuilt.found hi
      obtain ⟨script, hash, hdecode, hget, hcalc⟩ := rebuilt.hashes.2 i u hu
      exact ⟨u, script, hash, hfound, hdecode, hget, hcalc⟩

end WithdrawalConstructor

/-! ## A repeated input is accepted

Two outputs of 1000 are unspent, and 1500 is to be withdrawn for a fee of 100. -/

section Sample

open CoinSource

def sampleScripts : ScriptLib where
  isPubKeyHash := fun _ => true
  extractPkScriptAddrs := fun _ => .ok []
  isNullData := fun _ => false
  pushedData := fun _ => .ok []
  decodeAddress := .ok
  payToAddrScript := .ok

/-- The transaction that pays the receiver 1400 from the outputs with these indices. -/
def sampleSpending (vouts : List UInt32) : MsgTx where
  version := 1
  txIn := vouts.map (newTxIn (sampleHash 0xaa))
  txOut := [⟨1400, str "receiver"⟩]
  lockTime := 0

/-- Takes inputs until they cover the outputs and a fee of 100, and makes no change. -/
def sampleAuthor (outputs : List TxOut) (coins : List ListUnspentResult) :
    Except GoString AuthoredTx :=
  match fetch sampleHashFromStr (inputSource coins) ((outputs.map TxOut.value).sum + 100) with
  | .ok s =>
      if s.currentTotal < (outputs.map TxOut.value).sum + 100 then
        .error (str "insufficient funds available to construct transaction")
      else .ok ⟨⟨1, s.currentInputs, outputs, 0⟩, s.currentScripts, s.currentInputValues,
        s.currentTotal, -1⟩
  | .err e => .error e.text
  | .panic _ => .error []

def sampleConstructor : WithdrawalConstructor where
  client := ⟨str "btc", 1, [], ⟨fun _ => .error [], fun _ => .error []⟩, sampleScripts, id⟩
  tssAddr := str "tss"
  listUnspent := .ok [sampleCoin 0, sampleCoin 1]
  estimateFeeOrDefault := 1000
  newHashFromStr := sampleHashFromStr
  hashString := sampleHashString
  arrangeOutputs := id
  author := fun outputs _ coins _ => sampleAuthor outputs coins
  estimateFee := fun _ _ => 100
  calcSignatureHash := fun _ _ idx _ => .ok [UInt8.ofNat idx]
  serialize := fun tx =>
    if tx = sampleSpending [0, 1] then [1] else if tx = sampleSpending [0, 0] then [2] else []
  deserialize := fun bytes =>
    if bytes = [1] then .ok (sampleSpending [0, 1])
    else if bytes = [2] then .ok (sampleSpending [0, 0]) else .error (str "EOF")

def sampleWithdrawal : Deposit :=
  { identifier := ⟨str "bb", 0, str "1"⟩
    receiver := str "receiver"
    withdrawalAmount := str "1500" }

theorem sampleAuthor_ok {outputs : List TxOut} {coins : List ListUnspentResult} {a : AuthoredTx} :
    sampleAuthor outputs coins = .ok a ↔ ∃ s,
      fetch sampleHashFromStr (inputSource coins) ((outputs.map TxOut.value).sum + 100) = .ok s ∧
        ¬s.currentTotal < (outputs.map TxOut.value).sum + 100 ∧
        a = ⟨⟨1, s.currentInputs, outputs, 0⟩, s.currentScripts, s.currentInputValues,
          s.currentTotal, -1⟩ := by
  unfold sampleAuthor
  cases fetch sampleHashFromStr (inputSource coins) ((outputs.map TxOut.value).sum + 100) with
  | err e => simp
  | panic reason => simp
  | ok s =>
      simp only [Outcome.ok.injEq, exists_eq_left']
      split
      · rename_i hlow
        simp [hlow]
      · rename_i hlow
        simp [hlow, eq_comm]

theorem sampleConstructor_libraries : sampleConstructor.Libraries where
  fees _ _ := (by decide : (0 : Int) ≤ 100 ∧ (100 : Int) ≤ maxSatoshi)
  sizes _ _ _ _ _ := rfl
  parses := sampleHashFromStr_sampleHashString
  reads := by
    intro coins rate receiver output a tx _ _ _ hread
    simp only [sampleConstructor] at hread
    by_cases hgood : a.tx = sampleSpending [0, 1]
    · rw [if_pos hgood] at hread
      cases hread
      exact ⟨hgood.symm, by decide⟩
    by_cases hbad : a.tx = sampleSpending [0, 0]
    · rw [if_neg hgood, if_pos hbad] at hread
      cases hread
      exact ⟨hbad.symm, by decide⟩
    · rw [if_neg hgood, if_neg hbad] at hread
      cases hread
  arranges coins := List.Perm.refl coins
  draws := by
    intro outputs rate coins script a h
    obtain ⟨s, hs, -, rfl⟩ := sampleAuthor_ok.mp h
    refine ⟨[(outputs.map TxOut.value).sum + 100], s, fun target hmem => ?_, ?_, rfl, rfl, rfl, rfl⟩
    · rw [List.mem_singleton.mp hmem]
      exact Int.add_le_add_left (by decide) _
    · rw [List.foldlM_cons]
      exact Outcome.bind_eq_ok.mpr ⟨s, hs, rfl⟩
  pays := by
    intro outputs rate coins script a h
    obtain ⟨s, -, -, rfl⟩ := sampleAuthor_ok.mp h
    exact .inl ⟨rfl, rfl⟩
  covers := by
    intro outputs rate coins script a h
    obtain ⟨s, -, henough, rfl⟩ := sampleAuthor_ok.mp h
    dsimp only
    omega

theorem sampleConstructor_amounts (unspent : List ListUnspentResult)
    (h : sampleConstructor.listUnspent = .ok unspent) : ∀ u ∈ unspent, 0 ≤ u.amount := by
  cases h
  decide

theorem isValid_sound_sampleSpending :
    ∃ tx unspent, sampleConstructor.isValid (some ⟨none, [1], 1000, [[0], [1]]⟩) sampleWithdrawal =
        .ok true ∧
      WithdrawalConstructor.Sound sampleConstructor unspent ⟨none, [1], 1000, [[0], [1]]⟩
        sampleWithdrawal tx := by
  have valid : sampleConstructor.isValid (some ⟨none, [1], 1000, [[0], [1]]⟩) sampleWithdrawal =
      .ok true := by
    decide +kernel
  obtain ⟨tx, unspent, amount, htx, -, hamount, hsound⟩ :=
    WithdrawalConstructor.isValid_sound_iff sampleConstructor_libraries sampleConstructor_amounts
      valid
  refine ⟨tx, unspent, valid, hsound.mpr ?_⟩
  have htx' : tx = sampleSpending [0, 1] := by
    simp only [sampleConstructor, if_true, Except.ok.injEq] at htx
    exact htx.symm
  have hamount' : amount = 1500 := by
    have hparsed : Decimal.setString sampleWithdrawal.withdrawalAmount = some 1500 := by
      decide +kernel
    cases hamount.symm.trans hparsed
    rfl
  rw [htx', hamount']
  decide +kernel

/-- The second proposal spends output 0 twice and pays out more than that output holds. -/
theorem isValid_accepts_repeated_input :
    sampleConstructor.Libraries ∧
      sampleConstructor.isValid (some ⟨none, [2], 1000, [[0], [1]]⟩) sampleWithdrawal = .ok true ∧
      sampleConstructor.deserialize [2] = .ok (sampleSpending [0, 0]) ∧
      ¬ ((sampleSpending [0, 0]).txIn.map TxIn.previousOutPoint).Nodup ∧
      ((sampleSpending [0, 0]).txOut.map TxOut.value).sum = 1400 ∧
      (((sampleSpending [0, 0]).txIn.map TxIn.previousOutPoint).dedup.map
        (sampleConstructor.valueOf [sampleCoin 0, sampleCoin 1])).sum = 1000 := by
  refine ⟨sampleConstructor_libraries, ?_, ?_, ?_, ?_, ?_⟩ <;> decide +kernel

end Sample

end TssSvc.Bridge.Utxo
