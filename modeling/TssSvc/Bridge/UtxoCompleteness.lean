import Mathlib.Data.List.Sort
import TssSvc.Bridge.UtxoSoundness

/-!
# Honest UTXO proposals are accepted

A proposer selects inputs from its whole wallet, largest first.  An acceptor looks the used
outputs up in its own wallet and selects again, from those alone.  They are a prefix of the
proposer's arranged outputs, in the same order, so they are arranged already; and an input source
over the prefix answers every call of `txauthor.NewUnsignedTransaction` as the source over the
whole list did.

The lookup compares the wallet's text of an id with the text of the hash that was parsed from the
proposer's, so it needs a wallet that prints ids as `chainhash` does (`CanonicalIds`).
-/

set_option autoImplicit false

namespace TssSvc.Bridge.Utxo

open TssSvc.Db TssSvc.Session CoinSource

/-! ## The fee rate -/

/-- `Client.EstimateFeeOrDefault` of the answer of the node. -/
def estimateFeeOrDefault : Except GoString Int → Int
  | .error _ => defaultFeeRateBtcPerKvb
  | .ok fee =>
      if fee < defaultFeeRateBtcPerKvb then defaultFeeRateBtcPerKvb
      else if maxFeeRateBtcPerKvb < fee then maxFeeRateBtcPerKvb
      else fee

theorem feeRateValid_estimateFeeOrDefault (answer : Except GoString Int) :
    feeRateValid (estimateFeeOrDefault answer) = true := by
  unfold estimateFeeOrDefault
  split
  · decide
  · split
    · decide
    · split
      · decide
      · rename_i hlow hhigh
        exact decide_eq_true ⟨not_lt.mp hlow, not_lt.mp hhigh⟩

/-! ## The order of the outputs -/

def LargestFirst (coins : List ListUnspentResult) : Prop :=
  coins.Pairwise fun u v => v.amount ≤ u.amount

/-- What is assumed of sorting: it sorts, and it leaves a sorted slice unchanged. -/
structure Arranger (arrangeOutputs : List ListUnspentResult → List ListUnspentResult) : Prop where
  perm : ∀ coins, (arrangeOutputs coins).Perm coins
  sorted : ∀ coins, LargestFirst (arrangeOutputs coins)
  fixed : ∀ coins, LargestFirst coins → arrangeOutputs coins = coins

/-- The outputs that were used from the front of an arranged list are arranged. -/
theorem Arranger.arrange_of_append
    {arrangeOutputs : List ListUnspentResult → List ListUnspentResult}
    (arranger : Arranger arrangeOutputs) {coins taken rest : List ListUnspentResult}
    (h : arrangeOutputs coins = taken ++ rest) : arrangeOutputs taken = taken := by
  have hsorted := arranger.sorted coins
  rw [h] at hsorted
  exact arranger.fixed taken (List.pairwise_append.mp hsorted).1

/-- Insertion by amount, one way to sort the outputs. -/
def insertLargestFirst (coins : List ListUnspentResult) : List ListUnspentResult :=
  coins.insertionSort fun u v => v.amount ≤ u.amount

theorem insertLargestFirst_arranger : Arranger insertLargestFirst := by
  let order : ListUnspentResult → ListUnspentResult → Prop := fun u v => v.amount ≤ u.amount
  have : Std.Total order := ⟨fun u v => le_total v.amount u.amount⟩
  have : IsTrans ListUnspentResult order := ⟨fun _ _ _ huv hvw => le_trans hvw huv⟩
  exact ⟨fun coins => List.perm_insertionSort order coins,
    fun coins => List.pairwise_insertionSort order coins,
    fun coins hsorted => List.Pairwise.insertionSort_eq hsorted⟩

/-! ## Looking the used outputs up -/

/-- The wallet has the entry, and no other one of its outpoint. -/
def Listed (unspent : List ListUnspentResult) (u : ListUnspentResult) : Prop :=
  u ∈ unspent ∧ ∀ v ∈ unspent, v.outPoint = u.outPoint → v = u

theorem Listed.lookupUnspent {unspent : List ListUnspentResult} {u : ListUnspentResult}
    (h : Listed unspent u) : lookupUnspent unspent u.outPoint = some u := by
  cases hfound : Utxo.lookupUnspent unspent u.outPoint with
  | none =>
      unfold Utxo.lookupUnspent at hfound
      have hnone := List.find?_eq_none.mp hfound u (List.mem_reverse.mpr h.1)
      exact absurd (decide_eq_true (rfl : u.outPoint = u.outPoint)) hnone
  | some v =>
      obtain ⟨hmem, hpoint⟩ := WithdrawalConstructor.lookupUnspent_eq_some hfound
      rw [h.2 v hmem hpoint]

/-- A transaction that spends listed outputs is found to use exactly these. -/
theorem findUsedInputs_listed {newHashFromStr : GoString → Except GoString Hash}
    {hashString : Hash → GoString} (parses : Parses newHashFromStr hashString)
    {unspent taken : List ListUnspentResult} {tx : MsgTx}
    (hspends : List.Forall₂ (CoinSource.Spends newHashFromStr) taken tx.txIn)
    (canonical : CanonicalIds hashString taken) (h : ∀ u ∈ taken, Listed unspent u) :
    findUsedInputs hashString tx unspent = .ok taken := by
  refine WithdrawalConstructor.findUsedInputs_ok.mpr ?_
  generalize tx.txIn = txIn at hspends
  induction hspends with
  | nil => exact .nil
  | cons head _ ih =>
      refine .cons ?_ (ih (fun u hu => canonical u (List.mem_cons_of_mem _ hu))
        fun u hu => h u (List.mem_cons_of_mem _ hu))
      rw [head.text parses (canonical _ List.mem_cons_self)]
      exact (h _ List.mem_cons_self).lookupUnspent

/-! ## The input source on a prefix -/

section Source

variable {newHashFromStr : GoString → Except GoString Hash} {target : Int}

/-- A call starts from the outputs it is given, not from those of the state. -/
theorem draw_outputs (coins outputs : List ListUnspentResult) : ∀ s : InputSource,
    draw newHashFromStr target coins { s with outputs := outputs } =
      draw newHashFromStr target coins s := by
  induction coins with
  | nil =>
      intro s
      rfl
  | cons out rest ih =>
      intro s
      simp only [draw]
      split
      · cases parse newHashFromStr out with
        | err e => rfl
        | panic reason => rfl
        | ok parsed => exact ih (append s out parsed.1 parsed.2)
      · rfl

theorem draw_suffix {s s' : InputSource} {coins : List ListUnspentResult}
    (h : draw newHashFromStr target coins s = (s', .ok ())) :
    ∃ used, coins = used ++ s'.outputs := by
  induction coins generalizing s with
  | nil =>
      cases h
      exact ⟨[], rfl⟩
  | cons out rest ih =>
      rcases draw_cons_eq_ok.mp h with ⟨-, txHash, pkScript, -, hrest⟩ | ⟨-, rfl⟩
      · obtain ⟨used, hused⟩ := ih hrest
        exact ⟨out :: used, by rw [List.cons_append, ← hused]⟩
      · exact ⟨[], rfl⟩

/-- A call that leaves the outputs of `tail` untouched does not depend on them. -/
theorem draw_untouched {s s' : InputSource} {coins tail kept : List ListUnspentResult}
    (h : draw newHashFromStr target (coins ++ tail) s = (s', .ok ()))
    (hkept : s'.outputs = kept ++ tail) :
    draw newHashFromStr target coins s = ({ s' with outputs := kept }, .ok ()) := by
  induction coins generalizing s with
  | nil =>
      rw [List.nil_append] at h
      obtain ⟨used, hused⟩ := draw_suffix h
      have hnil : kept = [] := by
        rw [hkept, ← List.append_assoc] at hused
        exact (List.append_eq_nil_iff.mp (List.self_eq_append_left.mp hused)).2
      subst hnil
      cases tail with
      | nil =>
          cases h
          rfl
      | cons out rest =>
          rcases draw_cons_eq_ok.mp h with ⟨-, txHash, pkScript, -, hrest⟩ | ⟨-, rfl⟩
          · -- an output of the tail was taken after all
            obtain ⟨more, hmore⟩ := draw_suffix hrest
            have hlen := congrArg List.length hmore
            simp only [hkept, List.nil_append, List.length_append, List.length_cons] at hlen
            omega
          · rfl
  | cons out rest ih =>
      rw [List.cons_append] at h
      rcases draw_cons_eq_ok.mp h with ⟨hlow, txHash, pkScript, hparsed, hrest⟩ | ⟨henough, rfl⟩
      · exact draw_cons_eq_ok.mpr (.inl ⟨hlow, txHash, pkScript, hparsed, ih hrest⟩)
      · have hcons : kept = out :: rest := by
          rw [← List.cons_append] at hkept
          exact (List.append_cancel_right hkept).symm
        exact draw_cons_eq_ok.mpr (.inr ⟨henough, by rw [hcons]⟩)

end Source

/-! ## The author of the transaction -/

/-- What `txauthor.NewUnsignedTransaction` does next. -/
inductive AuthorStep where
  | fetch (target : Int)
  | done (authored : AuthoredTx)
  | fail

/-- A successful run of the author against the source: what it does next is a function of the
answers so far. -/
inductive Authors (newHashFromStr : GoString → Except GoString Hash)
    (next : List Selection → AuthorStep) :
    List Selection → InputSource → InputSource → AuthoredTx → Prop
  | done {answers : List Selection} {s : InputSource} {a : AuthoredTx}
      (last : next answers = .done a) : Authors newHashFromStr next answers s s a
  | fetch {answers : List Selection} {s s' final : InputSource} {target : Int} {a : AuthoredTx}
      (asks : next answers = .fetch target) (fetched : fetch newHashFromStr s target = .ok s')
      (rest : Authors newHashFromStr next (answers ++ [selection s']) s' final a) :
      Authors newHashFromStr next answers s final a

section Authors

variable {newHashFromStr : GoString → Except GoString Hash} {next : List Selection → AuthorStep}
  {answers : List Selection} {s final : InputSource} {a : AuthoredTx}

theorem Authors.follows (h : Authors newHashFromStr next answers s final a)
    {coins taken : List ListUnspentResult} (hfollows : Follows newHashFromStr coins taken s) :
    ∃ taken', Follows newHashFromStr coins taken' final := by
  induction h generalizing taken with
  | done last => exact ⟨taken, hfollows⟩
  | fetch asks fetched rest ih =>
      obtain ⟨taken', hmid⟩ := hfollows.fetch fetched
      exact ih hmid

/-- What a run leaves over is at the end of what it started with. -/
theorem Authors.suffix (h : Authors newHashFromStr next answers s final a) :
    ∃ used, s.outputs = used ++ final.outputs := by
  induction h with
  | done last => exact ⟨[], rfl⟩
  | fetch asks fetched rest ih =>
      obtain ⟨used, hused⟩ := ih
      obtain ⟨taken, htaken⟩ := draw_suffix (fetch_eq_ok.mp fetched)
      exact ⟨taken ++ used, by rw [htaken, hused, List.append_assoc]⟩

/-- A run needs only the outputs it used. -/
theorem Authors.replay (h : Authors newHashFromStr next answers s final a)
    {used : List ListUnspentResult} (hused : s.outputs = used ++ final.outputs) :
    Authors newHashFromStr next answers { s with outputs := used } { final with outputs := [] }
      a := by
  induction h generalizing used with
  | done last =>
      have hnil : used = [] := List.self_eq_append_left.mp hused
      subst hnil
      exact .done last
  | @fetch answers s s' final target a asks fetched rest ih =>
      obtain ⟨later, hlater⟩ := rest.suffix
      have hdraw := fetch_eq_ok.mp fetched
      rw [hused] at hdraw
      have hsame : CoinSource.fetch newHashFromStr { s with outputs := used } target =
          .ok { s' with outputs := later } := by
        refine fetch_eq_ok.mpr ?_
        rw [draw_outputs]
        exact draw_untouched hdraw hlater
      exact .fetch asks hsame (ih hlater)

end Authors

namespace WithdrawalConstructor

variable {c : WithdrawalConstructor}

/-- What is assumed of `txauthor.NewUnsignedTransaction`: it is a function of the outputs, the fee
rate, the change script and what its input source returns, and it spends the inputs returned
last. -/
structure Authoring (c : WithdrawalConstructor)
    (next : List TxOut → Int → Bytes → List Selection → AuthorStep) : Prop where
  runs : ∀ outputs rate coins script a, c.author outputs rate coins script = .ok a ↔
    ∃ final, Authors c.newHashFromStr (next outputs rate script) [] (inputSource coins) final a
  spends : ∀ outputs rate coins script final a,
    Authors c.newHashFromStr (next outputs rate script) [] (inputSource coins) final a →
      a.tx.txIn = final.currentInputs

theorem chargeAlone_txIn (data : AuthoredTx) (rate fee : Int) (receiver : TxOut) :
    (c.chargeAlone data rate fee receiver).tx.txIn = data.tx.txIn := by
  unfold chargeAlone
  dsimp only
  split
  · rfl
  · split <;> rfl

theorem subtractFeeFromWithdrawal_txIn {data charged : AuthoredTx} {rate : Int}
    (h : c.subtractFeeFromWithdrawal data rate = .ok charged) :
    charged.tx.txIn = data.tx.txIn := by
  simp only [subtractFeeFromWithdrawal, Outcome.bind_eq_ok] at h
  obtain ⟨receiver, -, h⟩ := h
  split at h
  · cases h
    rfl
  split at h
  · simp only [Outcome.bind_eq_ok, Outcome.pure_eq_ok, Outcome.ok.injEq] at h
    obtain ⟨_, -, rfl⟩ := h
    rfl
  · cases h
    exact chargeAlone_txIn data rate _ receiver

/-- The outputs a transaction uses are the first ones of the arranged wallet, and from them alone
the same transaction is built. -/
theorem unsignedTx_used {next : List TxOut → Int → Bytes → List Selection → AuthorStep}
    (arranger : Arranger c.arrangeOutputs) (authoring : c.Authoring next)
    {coins : List ListUnspentResult} {rate : Int} {output : TxOut} {data : AuthoredTx}
    (h : c.unsignedTx coins rate output = .ok data) :
    ∃ taken, taken = (c.arrangeOutputs coins).take data.tx.txIn.length ∧
      List.Forall₂ (CoinSource.Spends c.newHashFromStr) taken data.tx.txIn ∧
      c.unsignedTx taken rate output = .ok data := by
  simp only [unsignedTx, newUnsignedTransaction, Outcome.bind_eq_ok, Outcome.wrap_eq_ok,
    external_eq_ok] at h
  obtain ⟨authored, ⟨changeScript, hscript, hauthor⟩, hcharged⟩ := h
  obtain ⟨final, hruns⟩ := (authoring.runs _ _ _ _ _).mp hauthor
  obtain ⟨taken, hfollows⟩ := hruns.follows (follows_inputSource _)
  have hinputs : data.tx.txIn = final.currentInputs := by
    rw [subtractFeeFromWithdrawal_txIn hcharged, authoring.spends _ _ _ _ _ _ hruns]
  refine ⟨taken, ?_, hinputs ▸ hfollows.inputs, ?_⟩
  · rw [hinputs, ← hfollows.inputs.length_eq, hfollows.split, List.take_left]
  · have hagain : c.author [output] rate (c.arrangeOutputs taken) changeScript = .ok authored := by
      rw [arranger.arrange_of_append hfollows.split]
      exact (authoring.runs _ _ _ _ _).mpr ⟨_, hruns.replay hfollows.split⟩
    simp only [unsignedTx, newUnsignedTransaction, hscript, hagain, external, Outcome.wrap,
      Outcome.mapErr, Outcome.ok_bind]
    exact hcharged

/-! ## Proposer and acceptor -/

/-- The constructor at a party whose wallet lists these outputs and whose node estimates this
fee. -/
def withWallet (c : WithdrawalConstructor) (unspent : List ListUnspentResult)
    (fee : Except GoString Int) : WithdrawalConstructor :=
  { c with listUnspent := .ok unspent, estimateFeeOrDefault := Utxo.estimateFeeOrDefault fee }

/-- The signature hashes do not depend on the wallet. -/
theorem formSignatureHashes_withWallet (unspent : List ListUnspentResult)
    (fee : Except GoString Int) (data : AuthoredTx) :
    (c.withWallet unspent fee).formSignatureHashes data = c.formSignatureHashes data := by
  unfold formSignatureHashes
  generalize 0 = i
  induction data.prevScripts generalizing i with
  | nil => rfl
  | cons script scripts ih =>
      simp only [signatureHashesFrom, ih]
      rfl

/-- What one party forms, every party accepts that lists the outputs used, provided the
transaction formed reads back as itself. -/
theorem isValid_of_formSigningData
    {next : List TxOut → Int → Bytes → List Selection → AuthorStep}
    (arranger : Arranger c.arrangeOutputs) (authoring : c.Authoring next)
    (parses : Parses c.newHashFromStr c.hashString)
    {unspent unspent' : List ListUnspentResult} {fee fee' : Except GoString Int}
    {deposit : Deposit} {proposal : BitcoinProposalData}
    (canonical : CanonicalIds c.hashString unspent)
    (hform : (c.withWallet unspent fee).formSigningData deposit = .ok (some proposal))
    (reads : ∀ data, (c.withWallet unspent fee).formTransaction deposit = .ok data →
      c.deserialize (c.serialize data.tx) = .ok data.tx)
    (hused : ∀ tx, c.deserialize proposal.serializedTx = .ok tx →
      ∀ u ∈ (c.arrangeOutputs unspent).take tx.txIn.length, Listed unspent' u) :
    (c.withWallet unspent' fee').isValid (some proposal) deposit = .ok true := by
  simp only [formSigningData, Outcome.bind_eq_ok, Outcome.wrap_eq_ok, Outcome.pure_eq_ok,
    Outcome.ok.injEq, Option.some.injEq] at hform
  obtain ⟨data, hdata, sigHashes, hhashes, rfl⟩ := hform
  have hread := reads data hdata
  simp only [formTransaction, Outcome.bind_eq_ok, Outcome.wrap_eq_ok, external_eq_ok] at hdata
  obtain ⟨output, houtput, _, hunspent, hdata⟩ := hdata
  cases hunspent
  rw [formSignatureHashes_withWallet] at hhashes
  obtain ⟨taken, htaken, hspends, hagain⟩ :=
    unsignedTx_used (c := c.withWallet unspent fee) arranger
      ⟨authoring.runs, authoring.spends⟩ hdata
  have htakenOf : ∀ u ∈ taken, u ∈ (c.arrangeOutputs unspent).take data.tx.txIn.length := by
    intro u hu
    rw [htaken] at hu
    exact hu
  have hcanonical : CanonicalIds c.hashString taken := fun u hu =>
    canonical u ((arranger.perm unspent).mem_iff.mp (List.mem_of_mem_take (htakenOf u hu)))
  have hfound := findUsedInputs_listed parses hspends hcanonical fun u hu =>
    hused data.tx hread u (htakenOf u hu)
  simp only [isValid, formSignatureHashes_withWallet, Outcome.bind_eq_ok, Outcome.deref_eq_ok,
    Outcome.wrap_eq_ok, external_eq_ok, Outcome.check_eq_ok, Outcome.pure_eq_ok, and_true]
  exact ⟨_, rfl, data.tx, hread, (), feeRateValid_estimateFeeOrDefault fee, unspent', rfl, taken,
    hfound, output, houtput, data, hagain, (), rfl, sigHashes, hhashes, (),
    sigDataMatches_eq_ok.mpr rfl⟩

section Sample

/-- `sampleAuthor` as a function of the answers. -/
def sampleNext (outputs : List TxOut) (_rate : Int) (_script : Bytes) :
    List Selection → AuthorStep
  | [] => .fetch ((outputs.map TxOut.value).sum + 100)
  | answer :: _ =>
      if answer.total < (outputs.map TxOut.value).sum + 100 then .fail
      else
        .done ⟨⟨1, answer.inputs, outputs, 0⟩, answer.scripts, answer.inputValues, answer.total, -1⟩

def arrangingConstructor : WithdrawalConstructor :=
  { sampleConstructor with arrangeOutputs := insertLargestFirst }

/-- A run of the sample author is one call of the source. -/
theorem authors_sampleNext {outputs : List TxOut} {rate : Int} {script : Bytes}
    {coins : List ListUnspentResult} {final : InputSource} {a : AuthoredTx} :
    Authors sampleHashFromStr (sampleNext outputs rate script) [] (inputSource coins) final a ↔
      fetch sampleHashFromStr (inputSource coins) ((outputs.map TxOut.value).sum + 100) =
          .ok final ∧
        ¬ final.currentTotal < (outputs.map TxOut.value).sum + 100 ∧
        a = ⟨⟨1, final.currentInputs, outputs, 0⟩, final.currentScripts,
          final.currentInputValues, final.currentTotal, -1⟩ := by
  constructor
  · intro h
    cases h with
    | done last => cases last
    | fetch asks fetched rest =>
        cases asks
        cases rest with
        | done last =>
            simp only [sampleNext, selection, List.nil_append] at last
            split at last
            · cases last
            · rename_i hcovered
              cases last
              exact ⟨fetched, hcovered, rfl⟩
        | fetch asks fetched rest =>
            simp only [sampleNext, List.nil_append] at asks
            split at asks <;> cases asks
  · rintro ⟨hfetched, hcovered, rfl⟩
    refine .fetch rfl hfetched (.done ?_)
    simp [sampleNext, selection, hcovered]

theorem arrangingConstructor_authoring : arrangingConstructor.Authoring sampleNext where
  runs := by
    intro outputs rate coins script a
    change sampleAuthor outputs coins = .ok a ↔ ∃ final, Authors sampleHashFromStr
      (sampleNext outputs rate script) [] (inputSource coins) final a
    simp only [authors_sampleNext, sampleAuthor_ok]
  spends := by
    intro outputs rate coins script final a h
    obtain ⟨-, -, rfl⟩ := authors_sampleNext.mp h
    rfl

/-- The outputs of the proposer and others, in another order. -/
def sampleOtherWallet : List ListUnspentResult := [sampleCoin 1, sampleCoin 2, sampleCoin 0]

theorem isValid_of_formSigningData_sample :
    ∃ proposal, (arrangingConstructor.withWallet [sampleCoin 0, sampleCoin 1]
        (.error [])).formSigningData sampleWithdrawal = .ok (some proposal) ∧
      (arrangingConstructor.withWallet sampleOtherWallet (.ok 2000)).isValid (some proposal)
        sampleWithdrawal = .ok true := by
  have hcanonical : CanonicalIds sampleHashString [sampleCoin 0, sampleCoin 1] := by
    intro u hu
    simp only [List.mem_cons, List.not_mem_nil, or_false] at hu
    rcases hu with rfl | rfl <;> exact ⟨sampleHash 0xaa, rfl⟩
  have hdata : (arrangingConstructor.withWallet [sampleCoin 0, sampleCoin 1]
      (.error [])).formTransaction sampleWithdrawal = .ok ⟨sampleSpending [0, 1],
        (List.range 2).map fun _ => (decodeString (sampleCoin 0).scriptPubKey).getD [],
        [1000, 1000], 2000, -1⟩ := by
    decide +kernel
  have hform : (arrangingConstructor.withWallet [sampleCoin 0, sampleCoin 1]
      (.error [])).formSigningData sampleWithdrawal =
        .ok (some ⟨some sampleWithdrawal.identifier, [1], 1000, [[0], [1]]⟩) := by
    decide +kernel
  refine ⟨_, hform, isValid_of_formSigningData insertLargestFirst_arranger
    arrangingConstructor_authoring sampleHashFromStr_sampleHashString hcanonical hform ?_ ?_⟩
  · intro data h
    cases hdata.symm.trans h
    decide +kernel
  · intro tx htx u hu
    have hmem : u ∈ [sampleCoin 0, sampleCoin 1] :=
      (insertLargestFirst_arranger.perm _).mem_iff.mp (List.mem_of_mem_take hu)
    simp only [List.mem_cons, List.not_mem_nil, or_false] at hmem
    rcases hmem with rfl | rfl
    · exact ⟨by decide +kernel, by decide +kernel⟩
    · exact ⟨by decide +kernel, by decide +kernel⟩

end Sample

end WithdrawalConstructor

end TssSvc.Bridge.Utxo
