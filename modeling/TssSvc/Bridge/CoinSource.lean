import TssSvc.Bridge.UtxoWithdrawal
import TssSvc.Lib.Hex
import TssSvc.Lib.ShortestPrefix

/-!
# The coin source over a history of calls

`inputSource` of the BTC and BCH helpers returns a function that keeps its accumulators between
calls.  Its total is the `int64` of `btcutil.Amount`.  Whatever is asked, what was taken is a
prefix of the list (`Follows`); `inputSource_minimal_iff`: each call yields the shortest prefix for
the largest target so far exactly when the total of that prefix fits.
-/

set_option autoImplicit false

namespace TssSvc.Bridge.Utxo

open TssSvc.ShortestPrefix

/-- The variables `inputSource` closes over. -/
structure InputSource where
  outputs : List ListUnspentResult
  currentTotal : Int
  currentInputs : List TxIn
  currentInputValues : List Int
  currentScripts : List Bytes

def inputSource (outputs : List ListUnspentResult) : InputSource := ⟨outputs, 0, [], [], []⟩

/-- What one call returns. -/
structure Selection where
  total : Int
  inputs : List TxIn
  inputValues : List Int
  scripts : List Bytes
  deriving DecidableEq, Repr

namespace CoinSource

section Source

variable (newHashFromStr : GoString → Except GoString Hash)

def parse (out : ListUnspentResult) : Result (Hash × Bytes) := do
  let txHash ← (external (newHashFromStr out.txId)).mapErr
    (GoError.wrap (str "failed to parse tx hash " ++ out.txId))
  let pkScript ← (Outcome.ofOption (.new "encoding/hex") (decodeString out.scriptPubKey)).wrap
    "failed to decode script pub key"
  return (txHash, pkScript)

def append (s : InputSource) (out : ListUnspentResult) (txHash : Hash) (pkScript : Bytes) :
    InputSource :=
  { s with
    currentTotal := wrapInt64 (s.currentTotal + out.amount)
    currentInputs := s.currentInputs ++ [newTxIn txHash out.vout]
    currentInputValues := s.currentInputValues ++ [out.amount]
    currentScripts := s.currentScripts ++ [pkScript] }

/-- The loop of the returned function; an output that does not parse stays at the front. -/
def draw (target : Int) : List ListUnspentResult → InputSource → InputSource × Result Unit
  | [], s => ({ s with outputs := [] }, .ok ())
  | out :: rest, s =>
      if s.currentTotal < target then
        match parse newHashFromStr out with
        | .ok (txHash, pkScript) => draw target rest (append s out txHash pkScript)
        | .err e => ({ s with outputs := out :: rest }, .err e)
        | .panic reason => ({ s with outputs := out :: rest }, .panic reason)
      else ({ s with outputs := out :: rest }, .ok ())

def selection (s : InputSource) : Selection :=
  ⟨s.currentTotal, s.currentInputs, s.currentInputValues, s.currentScripts⟩

def call (s : InputSource) (target : Int) : InputSource × Result Selection :=
  let (s, drawn) := draw newHashFromStr target s.outputs s
  (s, drawn >>= fun _ => .ok (selection s))

/-- The source after a call that succeeds. -/
def fetch (s : InputSource) (target : Int) : Result InputSource :=
  let (s, drawn) := draw newHashFromStr target s.outputs s
  drawn >>= fun _ => .ok s

/-- What the returned function answers to a history of calls. -/
def calls : InputSource → List Int → List (Result Selection)
  | _, [] => []
  | s, target :: targets =>
      let (s, answer) := call newHashFromStr s target
      answer :: calls s targets

end Source

/-- `chainhash.NewHashFromStr` of the two libraries. -/
structure HashLibraries where
  btcd : GoString → Except GoString Hash
  bchd : GoString → Except GoString Hash

end CoinSource

open CoinSource

def Btc.inputSource (lib : HashLibraries) (outputs : List ListUnspentResult) :
    List Int → List (Result Selection) :=
  calls lib.btcd (Utxo.inputSource outputs)

def Bch.inputSource (lib : HashLibraries) (outputs : List ListUnspentResult) :
    List Int → List (Result Selection) :=
  calls lib.bchd (Utxo.inputSource outputs)

namespace CoinSource

/-! ## Hashes and their texts -/

/-- What is assumed of `chainhash`: it reads what it prints. -/
def Parses (newHashFromStr : GoString → Except GoString Hash) (hashString : Hash → GoString) :
    Prop :=
  ∀ hash, newHashFromStr (hashString hash) = .ok hash

/-- What is assumed of the wallet's RPC: it prints ids as `chainhash` does, sixty-four digits in
lower case. -/
def CanonicalIds (hashString : Hash → GoString) (unspent : List ListUnspentResult) : Prop :=
  ∀ u ∈ unspent, ∃ hash, u.txId = hashString hash

/-- The outpoint is that of the output, under the hash its id is parsed to. -/
def Names (newHashFromStr : GoString → Except GoString Hash) (u : ListUnspentResult)
    (p : WireOutPoint) : Prop :=
  newHashFromStr u.txId = .ok p.hash ∧ u.vout = p.index

/-- `txIn` is the new input that spends the output. -/
def Spends (newHashFromStr : GoString → Except GoString Hash) (u : ListUnspentResult)
    (txIn : TxIn) : Prop :=
  ∃ txHash, newHashFromStr u.txId = .ok txHash ∧ txIn = newTxIn txHash u.vout

theorem Spends.names {newHashFromStr : GoString → Except GoString Hash} {u : ListUnspentResult}
    {txIn : TxIn} (h : Spends newHashFromStr u txIn) :
    Names newHashFromStr u txIn.previousOutPoint := by
  obtain ⟨txHash, hhash, rfl⟩ := h
  exact ⟨hhash, rfl⟩

/-- What a canonical output is spent under is printed as the wallet's own outpoint. -/
theorem Spends.text {newHashFromStr : GoString → Except GoString Hash}
    {hashString : Hash → GoString} (parses : Parses newHashFromStr hashString)
    {u : ListUnspentResult} {txIn : TxIn} (h : Spends newHashFromStr u txIn)
    (canonical : ∃ hash, u.txId = hashString hash) :
    txIn.previousOutPoint.text hashString = u.outPoint := by
  obtain ⟨txHash, hhash, rfl⟩ := h
  obtain ⟨hash, hid⟩ := canonical
  rw [hid, parses, Except.ok.injEq] at hhash
  subst hhash
  exact congrArg (OutPoint.mk · u.vout) hid.symm

/-! ## One call -/

def Parsable (newHashFromStr : GoString → Except GoString Hash) (u : ListUnspentResult) : Prop :=
  (∃ txHash, newHashFromStr u.txId = .ok txHash) ∧ (decodeString u.scriptPubKey).isSome

def totalOf (coins : List ListUnspentResult) : Int := total ListUnspentResult.amount coins

/-- The shortest prefix whose total reaches the target. -/
def shortestFor (target : Int) (coins : List ListUnspentResult) : List ListUnspentResult :=
  shortest ListUnspentResult.amount target coins

theorem totalOf_append (coins coins' : List ListUnspentResult) :
    totalOf (coins ++ coins') = totalOf coins + totalOf coins' :=
  total_append ListUnspentResult.amount coins coins'

theorem totalOf_cons (out : ListUnspentResult) (coins : List ListUnspentResult) :
    totalOf (out :: coins) = out.amount + totalOf coins :=
  total_cons ListUnspentResult.amount out coins

theorem totalOf_snoc (coins : List ListUnspentResult) (out : ListUnspentResult) :
    totalOf (coins ++ [out]) = totalOf coins + out.amount := by
  rw [totalOf_append]
  exact congrArg (totalOf coins + ·) (add_zero _)

theorem totalOf_shortestFor_nonneg {coins : List ListUnspentResult}
    (amounts : ∀ u ∈ coins, 0 ≤ u.amount) (target : Int) :
    0 ≤ totalOf (shortestFor target coins) :=
  total_nonneg ListUnspentResult.amount fun u hu =>
    amounts u ((shortest_isPrefix ListUnspentResult.amount coins target).subset hu)

/-- The accumulators are those of the outputs taken from the front. -/
structure Follows (newHashFromStr : GoString → Except GoString Hash)
    (coins taken : List ListUnspentResult) (s : InputSource) : Prop where
  split : coins = taken ++ s.outputs
  total : s.currentTotal = wrapInt64 (totalOf taken)
  inputs : List.Forall₂ (Spends newHashFromStr) taken s.currentInputs
  values : s.currentInputValues = taken.map ListUnspentResult.amount
  scripts : List.Forall₂ (fun u script => decodeString u.scriptPubKey = some script) taken
    s.currentScripts

section Calls

variable {newHashFromStr : GoString → Except GoString Hash} {coins taken : List ListUnspentResult}
  {s : InputSource}

theorem follows_inputSource (coins : List ListUnspentResult) :
    Follows newHashFromStr coins [] (Utxo.inputSource coins) :=
  ⟨rfl, rfl, .nil, rfl, .nil⟩

theorem parse_eq_ok {out : ListUnspentResult} {txHash : Hash} {pkScript : Bytes} :
    parse newHashFromStr out = .ok (txHash, pkScript) ↔
      newHashFromStr out.txId = .ok txHash ∧ decodeString out.scriptPubKey = some pkScript := by
  simp [parse, Outcome.bind_eq_ok]

/-- What a call that succeeds does at the first output: it takes it, or it has enough. -/
theorem draw_cons_eq_ok {target : Int} {s' : InputSource} {out : ListUnspentResult}
    {rest : List ListUnspentResult} :
    draw newHashFromStr target (out :: rest) s = (s', .ok ()) ↔
      (s.currentTotal < target ∧ ∃ txHash pkScript,
        parse newHashFromStr out = .ok (txHash, pkScript) ∧
          draw newHashFromStr target rest (append s out txHash pkScript) = (s', .ok ())) ∨
      (¬s.currentTotal < target ∧ s' = { s with outputs := out :: rest }) := by
  rw [draw]
  split
  · rename_i hlow
    cases hparsed : parse newHashFromStr out with
    | err e => simp [hlow]
    | panic reason => simp [hlow]
    | ok parsed => simp [hlow, Prod.ext_iff]
  · rename_i hlow
    simp [hlow, eq_comm]

theorem Parsable.exists_parse {out : ListUnspentResult} (parsable : Parsable newHashFromStr out) :
    ∃ txHash pkScript, parse newHashFromStr out = .ok (txHash, pkScript) := by
  obtain ⟨⟨txHash, hhash⟩, hscript⟩ := parsable
  obtain ⟨pkScript, hscript⟩ := Option.isSome_iff_exists.mp hscript
  exact ⟨txHash, pkScript, parse_eq_ok.mpr ⟨hhash, hscript⟩⟩

theorem Follows.append {out : ListUnspentResult} {rest : List ListUnspentResult} {txHash : Hash}
    {pkScript : Bytes} (h : Follows newHashFromStr coins taken { s with outputs := out :: rest })
    (parsed : parse newHashFromStr out = .ok (txHash, pkScript)) :
    Follows newHashFromStr coins (taken ++ [out])
      { CoinSource.append s out txHash pkScript with outputs := rest } := by
  obtain ⟨hhash, hscript⟩ := parse_eq_ok.mp parsed
  have htotal : s.currentTotal = wrapInt64 (totalOf taken) := h.total
  constructor
  · rw [List.append_assoc]
    exact h.split
  · rw [totalOf_snoc, ← wrapInt64_add_left, ← htotal]
    rfl
  · exact List.rel_append h.inputs (.cons ⟨txHash, hhash, rfl⟩ .nil)
  · rw [List.map_append]
    exact congrArg (· ++ [out.amount]) h.values
  · exact List.rel_append h.scripts (.cons hscript .nil)

theorem Follows.total_eq (h : Follows newHashFromStr coins taken s)
    (fits : IsInt64 (totalOf taken)) : s.currentTotal = totalOf taken := by
  rw [h.total, wrapInt64_of_isInt64 fits]

/-- Whatever the loop takes, it takes from the front. -/
theorem Follows.draw_ok {target : Int} {s' : InputSource} (rest : List ListUnspentResult)
    (h : Follows newHashFromStr coins taken { s with outputs := rest })
    (run : CoinSource.draw newHashFromStr target rest s = (s', .ok ())) :
    ∃ taken', Follows newHashFromStr coins taken' s' := by
  induction rest generalizing s taken with
  | nil =>
      cases run
      exact ⟨taken, h⟩
  | cons out rest ih =>
      rcases draw_cons_eq_ok.mp run with ⟨-, txHash, pkScript, hparsed, hrest⟩ | ⟨-, rfl⟩
      · exact ih (h.append hparsed) hrest
      · exact ⟨taken, h⟩

theorem fetch_eq_ok {target : Int} {s' : InputSource} :
    CoinSource.fetch newHashFromStr s target = .ok s' ↔
      CoinSource.draw newHashFromStr target s.outputs s = (s', .ok ()) := by
  unfold CoinSource.fetch
  cases hdraw : CoinSource.draw newHashFromStr target s.outputs s with
  | mk next drawn => cases drawn <;> simp

/-- A call that succeeds returns the accumulators. -/
theorem call_of_fetch {target : Int} {s' : InputSource}
    (h : CoinSource.fetch newHashFromStr s target = .ok s') :
    CoinSource.call newHashFromStr s target = (s', .ok (selection s')) := by
  rw [CoinSource.call, fetch_eq_ok.mp h]
  rfl

theorem Follows.fetch {target : Int} {s' : InputSource}
    (h : Follows newHashFromStr coins taken s)
    (run : CoinSource.fetch newHashFromStr s target = .ok s') :
    ∃ taken', Follows newHashFromStr coins taken' s' :=
  Follows.draw_ok s.outputs h (fetch_eq_ok.mp run)

/-- A source that is asked for no positive amount is not touched. -/
theorem fetch_inputSource {target : Int} (nonpos : target ≤ 0) :
    CoinSource.fetch newHashFromStr (Utxo.inputSource coins) target =
      .ok (Utxo.inputSource coins) := by
  refine fetch_eq_ok.mpr ?_
  cases coins with
  | nil => rfl
  | cons out rest => exact if_neg (not_lt.mpr nonpos)

/-- The loop takes the shortest prefix of what is left that makes up for the rest of the
target. -/
theorem Follows.draw {target : Int} (rest : List ListUnspentResult)
    (parsable : ∀ u ∈ rest, Parsable newHashFromStr u) (amounts : ∀ u ∈ rest, 0 ≤ u.amount) :
    ∀ (s : InputSource) (taken : List ListUnspentResult),
      Follows newHashFromStr coins taken { s with outputs := rest } → 0 ≤ totalOf taken →
      totalOf taken + totalOf (shortestFor (target - totalOf taken) rest) ≤ maxInt64 →
      ∃ s', CoinSource.draw newHashFromStr target rest s = (s', .ok ()) ∧
        Follows newHashFromStr coins (taken ++ shortestFor (target - totalOf taken) rest) s' := by
  induction rest with
  | nil =>
      intro s taken h _ _
      rw [shortestFor, shortest_nil, List.append_nil]
      exact ⟨_, rfl, h⟩
  | cons out rest ih =>
      intro s taken h positive fits
      have hrestNonneg := totalOf_shortestFor_nonneg amounts (target - totalOf taken)
      have hcurrent : s.currentTotal = totalOf taken := h.total_eq ⟨by omega, by omega⟩
      have hcons := shortest_cons ListUnspentResult.amount (target - totalOf taken) out rest
      rw [CoinSource.draw]
      by_cases hreached : totalOf taken < target
      · have hremaining : target - totalOf taken - out.amount =
            target - totalOf (taken ++ [out]) := by
          rw [totalOf_snoc]
          omega
        rw [if_neg (by omega), hremaining] at hcons
        rw [shortestFor, hcons, ← shortestFor] at fits ⊢
        have hsnoc := totalOf_snoc taken out
        have hout := amounts out List.mem_cons_self
        have hlater : ∀ u ∈ rest, 0 ≤ u.amount :=
          fun u hu => amounts u (List.mem_cons_of_mem out hu)
        have hrest := totalOf_shortestFor_nonneg hlater (target - totalOf (taken ++ [out]))
        rw [totalOf_cons] at fits
        obtain ⟨txHash, pkScript, hparsed⟩ := (parsable out List.mem_cons_self).exists_parse
        have hnext := h.append hparsed
        obtain ⟨s', hdraw, hfollows⟩ := ih (fun u hu => parsable u (List.mem_cons_of_mem out hu))
          hlater _ _ hnext (by omega) (by omega)
        refine ⟨s', ?_, ?_⟩
        · rw [if_pos (hcurrent ▸ hreached), hparsed]
          exact hdraw
        · rw [List.append_assoc] at hfollows
          exact hfollows
      · rw [if_pos (by omega)] at hcons
        rw [shortestFor, hcons, List.append_nil]
        exact ⟨_, if_neg (hcurrent ▸ hreached), h⟩

/-! ## A history of calls -/

theorem shortestFor_max (coins : List ListUnspentResult) (first next : Int) :
    shortestFor (max first next) coins = shortestFor first coins ++
      shortestFor (next - totalOf (shortestFor first coins))
        (coins.drop (shortestFor first coins).length) :=
  shortest_max ListUnspentResult.amount coins first next

theorem totalOf_shortestFor_mono (amounts : ∀ u ∈ coins, 0 ≤ u.amount) {first next : Int}
    (grows : first ≤ next) :
    totalOf (shortestFor first coins) ≤ totalOf (shortestFor next coins) := by
  have hmore := totalOf_shortestFor_nonneg
    (fun u hu => amounts u (List.mem_of_mem_drop hu) :
      ∀ u ∈ coins.drop (shortestFor first coins).length, 0 ≤ u.amount)
    (next - totalOf (shortestFor first coins))
  rw [← max_eq_right grows, shortestFor_max, totalOf_append]
  omega

/-- A call takes the source from the prefix for the largest target so far to that for the larger
of it and the new one. -/
theorem Follows.call (parsable : ∀ u ∈ coins, Parsable newHashFromStr u)
    (amounts : ∀ u ∈ coins, 0 ≤ u.amount) {largest target : Int}
    (h : Follows newHashFromStr coins (shortestFor largest coins) s)
    (fits : totalOf (shortestFor (max largest target) coins) ≤ maxInt64) :
    ∃ s', CoinSource.call newHashFromStr s target = (s', .ok (selection s')) ∧
      Follows newHashFromStr coins (shortestFor (max largest target) coins) s' := by
  have houtputs : s.outputs = coins.drop (shortestFor largest coins).length := by
    have hdrop := congrArg (List.drop (shortestFor largest coins).length) h.split
    rw [List.drop_left] at hdrop
    exact hdrop.symm
  have hin : ∀ u ∈ s.outputs, u ∈ coins := fun u hu => List.mem_of_mem_drop (houtputs ▸ hu)
  rw [shortestFor_max, ← houtputs] at fits ⊢
  rw [totalOf_append] at fits
  obtain ⟨s', hdraw, hfollows⟩ := Follows.draw s.outputs (fun u hu => parsable u (hin u hu))
    (fun u hu => amounts u (hin u hu)) s _ h (totalOf_shortestFor_nonneg amounts largest) fits
  refine ⟨s', ?_, hfollows⟩
  exact call_of_fetch (fetch_eq_ok.mpr hdraw)

theorem Follows.calls (parsable : ∀ u ∈ coins, Parsable newHashFromStr u)
    (amounts : ∀ u ∈ coins, 0 ≤ u.amount) (targets : List Int) :
    ∀ (s : InputSource) (largest greatest : Int) (k : Nat), k < targets.length →
      Follows newHashFromStr coins (shortestFor largest coins) s → largest ≤ greatest →
      (∀ t ∈ targets.take (k + 1), t ≤ greatest) →
      greatest = largest ∨ greatest ∈ targets.take (k + 1) →
      totalOf (shortestFor greatest coins) ≤ maxInt64 →
      ∃ s', (CoinSource.calls newHashFromStr s targets)[k]? = some (.ok (selection s')) ∧
        Follows newHashFromStr coins (shortestFor greatest coins) s' := by
  induction targets with
  | nil =>
      intro s largest greatest k hk
      cases hk
  | cons target targets ih =>
      intro s largest greatest k hk h hlargest hall hone fits
      have htarget : target ≤ greatest := hall target (List.mem_cons_self ..)
      have hfirst : totalOf (shortestFor (max largest target) coins) ≤ maxInt64 :=
        (totalOf_shortestFor_mono amounts (max_le hlargest htarget)).trans fits
      obtain ⟨mid, hcall, hmid⟩ := h.call parsable amounts hfirst
      rw [CoinSource.calls, hcall]
      cases k with
      | zero =>
          have hgreatest : max largest target = greatest := by
            rw [List.take_succ_cons, List.take_zero, List.mem_singleton] at hone
            omega
          exact ⟨mid, rfl, hgreatest ▸ hmid⟩
      | succ k =>
          rw [List.getElem?_cons_succ]
          rw [List.take_succ_cons] at hall hone
          refine ih mid (max largest target) greatest k (Nat.lt_of_succ_lt_succ hk) hmid
            (max_le hlargest htarget) (fun t ht => hall t (List.mem_cons_of_mem _ ht)) ?_ fits
          rcases hone with hsame | hmem
          · exact .inl (by omega)
          · rcases List.mem_cons.mp hmem with rfl | hlater
            · exact .inl (max_eq_right hlargest).symm
            · exact .inr hlater

/-! ## Totals stay in `int64` -/

theorem draw_total_le (newHashFromStr : GoString → Except GoString Hash) (target : Int)
    (rest : List ListUnspentResult) : ∀ s : InputSource, s.currentTotal ≤ maxInt64 →
      (CoinSource.draw newHashFromStr target rest s).1.currentTotal ≤ maxInt64 := by
  induction rest with
  | nil => exact fun s hs => hs
  | cons out rest ih =>
      intro s hs
      rw [CoinSource.draw]
      split
      · split
        · exact ih _ (isInt64_wrapInt64 _).2
        · exact hs
        · exact hs
      · exact hs

theorem calls_total_le (targets : List Int) : ∀ s : InputSource, s.currentTotal ≤ maxInt64 →
    ∀ r, .ok r ∈ CoinSource.calls newHashFromStr s targets → r.total ≤ maxInt64 := by
  induction targets with
  | nil =>
      intro s _ r hr
      cases hr
  | cons target targets ih =>
      intro s hs r hr
      have hnext := draw_total_le newHashFromStr target s.outputs s hs
      rcases List.mem_cons.mp hr with hanswer | hlater
      · simp only [eq_comm (a := Outcome.ok r), Outcome.bind_eq_ok, Outcome.ok.injEq] at hanswer
        obtain ⟨_, -, rfl⟩ := hanswer
        exact hnext
      · exact ih _ hnext r hlater

end Calls

/-! ## The two helpers -/

inductive Helper where
  | btc
  | bch
  deriving DecidableEq, Repr

def Helper.inputSource (lib : HashLibraries) : Helper → List ListUnspentResult →
    List Int → List (Result Selection)
  | btc => Btc.inputSource lib
  | bch => Bch.inputSource lib

def Helper.newHashFromStr (lib : HashLibraries) : Helper → GoString → Except GoString Hash
  | btc => lib.btcd
  | bch => lib.bchd

theorem Helper.inputSource_eq (lib : HashLibraries) (h : Helper) (coins : List ListUnspentResult) :
    h.inputSource lib coins = calls (h.newHashFromStr lib) (Utxo.inputSource coins) := by
  cases h <;> rfl

/-- The answer for the prefix `taken`: inputs, values and scripts go with it position by
position, the total is that of the values, and no outpoint is spent twice if none is listed
twice. -/
structure Yields (newHashFromStr : GoString → Except GoString Hash)
    (coins taken : List ListUnspentResult) (r : Selection) : Prop where
  total : r.total = r.inputValues.sum
  inputs : List.Forall₂ (Spends newHashFromStr) taken r.inputs
  values : r.inputValues = taken.map ListUnspentResult.amount
  scripts : List.Forall₂ (fun u script => decodeString u.scriptPubKey = some script) taken r.scripts
  distinct : (coins.map fun u => (newHashFromStr u.txId, u.vout)).Nodup → r.inputs.Nodup

theorem map_outPoint_of_spends {newHashFromStr : GoString → Except GoString Hash}
    {taken : List ListUnspentResult} {inputs : List TxIn}
    (h : List.Forall₂ (Spends newHashFromStr) taken inputs) :
    (inputs.map fun txIn =>
        ((.ok txIn.previousOutPoint.hash : Except GoString Hash), txIn.previousOutPoint.index)) =
      taken.map fun u => (newHashFromStr u.txId, u.vout) := by
  induction h with
  | nil => rfl
  | cons hspends _ ih =>
      obtain ⟨txHash, hhash, rfl⟩ := hspends
      rw [List.map_cons, List.map_cons, ih, hhash]
      rfl

theorem Follows.yields {newHashFromStr : GoString → Except GoString Hash}
    {coins taken : List ListUnspentResult} {s : InputSource}
    (h : Follows newHashFromStr coins taken s) (fits : IsInt64 (totalOf taken)) :
    Yields newHashFromStr coins taken (selection s) := by
  refine ⟨?_, h.inputs, h.values, h.scripts, ?_⟩
  · change s.currentTotal = s.currentInputValues.sum
    rw [h.values, h.total_eq fits]
    rfl
  · intro hnodup
    rw [h.split, List.map_append] at hnodup
    exact List.Nodup.of_map _ (map_outPoint_of_spends h.inputs ▸ hnodup.of_append_left)

/-- The `k`-th call (from zero) with the largest target `greatest` so far yields the shortest
prefix whose total reaches it, or the whole list, exactly when the total of that prefix is an
`int64`. -/
theorem inputSource_minimal_iff (lib : HashLibraries) (h : Helper)
    (coins : List ListUnspentResult) (targets : List Int) (k : Nat) (greatest : Int)
    (parsable : ∀ u ∈ coins, Parsable (h.newHashFromStr lib) u)
    (amounts : ∀ u ∈ coins, 0 ≤ u.amount) (called : k < targets.length)
    (largest : IsGreatest {t | t ∈ targets.take (k + 1)} greatest) :
    (∃ r, (h.inputSource lib coins targets)[k]? = some (.ok r) ∧
        Yields (h.newHashFromStr lib) coins (shortestFor greatest coins) r) ↔
      totalOf (shortestFor greatest coins) ≤ maxInt64 := by
  rw [Helper.inputSource_eq]
  constructor
  · rintro ⟨r, hanswer, hyields⟩
    have hzero : (Utxo.inputSource coins).currentTotal ≤ maxInt64 := (by decide : 0 ≤ maxInt64)
    have hle := calls_total_le targets _ hzero r (List.mem_of_getElem? hanswer)
    rw [hyields.total, hyields.values] at hle
    exact hle
  · intro fits
    -- before the first call nothing is taken, as for the target zero
    have hstart : shortestFor 0 coins = [] :=
      shortest_of_nonpos ListUnspentResult.amount (le_refl 0) coins
    have hzero : shortestFor (max 0 greatest) coins = shortestFor greatest coins := by
      rcases le_total greatest 0 with hle | hge
      · rw [max_eq_left hle, hstart]
        exact (shortest_of_nonpos ListUnspentResult.amount hle coins).symm
      · rw [max_eq_right hge]
    rw [← hzero] at fits ⊢
    obtain ⟨s', hanswer, hfollows⟩ := Follows.calls parsable amounts targets
      (Utxo.inputSource coins) 0 (max 0 greatest) k called (hstart ▸ follows_inputSource coins)
      (le_max_left _ _) (fun t ht => (largest.2 ht).trans (le_max_right _ _))
      (by
        rcases le_total greatest 0 with hle | hge
        · exact .inl (max_eq_left hle)
        · exact .inr ((max_eq_right hge).symm ▸ largest.1)) fits
    have hnonneg := totalOf_shortestFor_nonneg amounts (max 0 greatest)
    exact ⟨_, hanswer, hfollows.yields ⟨by omega, fits⟩⟩

section Sample

/-- `chainhash.NewHashFromStr`, the same in both libraries: the digits are padded to a full byte
and the bytes reversed. -/
def sampleHashFromStr (hash : GoString) : Except GoString Hash :=
  if 64 < hash.length then .error (str "max hash string length is 64 bytes")
  else
    match decodeString (if hash.length % 2 = 0 then hash else 0x30 :: hash) with
    | some bytes => .ok ⟨(fitBytes 32 bytes).reverse, by rw [List.length_reverse, length_fitBytes]⟩
    | none => .error (str "encoding/hex: invalid byte")

/-- `Hash.String`. -/
def sampleHashString (hash : Hash) : GoString := formatHex hash.bytes.reverse

theorem sampleHashFromStr_sampleHashString (hash : Hash) :
    sampleHashFromStr (sampleHashString hash) = .ok hash := by
  have hlength : (sampleHashString hash).length = 64 := by
    rw [sampleHashString, length_formatHex, List.length_reverse, hash.size]
  have hfit : fitBytes 32 hash.bytes.reverse = hash.bytes.reverse := by
    simp [fitBytes, hash.size]
  rw [sampleHashFromStr, hlength, if_neg (by decide), if_pos (by decide), sampleHashString,
    decodeString_formatHex]
  simp only [hfit, List.reverse_reverse]

def sampleLibraries : HashLibraries := ⟨sampleHashFromStr, sampleHashFromStr⟩

/-- The same byte 32 times. -/
def sampleHash (byte : UInt8) : Hash := ⟨List.replicate 32 byte, List.length_replicate⟩

def sampleTxId : GoString := sampleHashString (sampleHash 0xaa)

example :
    sampleTxId = str "aaaaaaaaaaaaaaaaaaaaaaaaaaaaaaaaaaaaaaaaaaaaaaaaaaaaaaaaaaaaaaaa" := by
  decide +kernel

/-- An output of 1000 to the hash of a key. -/
def sampleCoin (vout : UInt32) : ListUnspentResult :=
  ⟨sampleTxId, vout, 1000, str "76a914000102030405060708090a0b0c0d0e0f1011121388ac"⟩

theorem parsable_sample (vout : UInt32) (amount : Int) :
    Parsable sampleHashFromStr { sampleCoin vout with amount := amount } :=
  ⟨⟨_, sampleHashFromStr_sampleHashString (sampleHash 0xaa)⟩,
    (by decide +kernel : (decodeString (sampleCoin 0).scriptPubKey).isSome)⟩

/-- Two outputs of 1000: the third call asks for less than the second did. -/
theorem inputSource_minimal_sample :
    ∃ r, (Helper.bch.inputSource sampleLibraries [sampleCoin 0, sampleCoin 1]
        [500, 1500, 200])[2]? = some (.ok r) ∧
      Yields sampleHashFromStr [sampleCoin 0, sampleCoin 1] [sampleCoin 0, sampleCoin 1] r := by
  have hboth : shortestFor 1500 [sampleCoin 0, sampleCoin 1] = [sampleCoin 0, sampleCoin 1] := by
    decide
  have hgreatest : IsGreatest {t : Int | t ∈ [500, 1500, 200].take (2 + 1)} 1500 := by
    refine ⟨by simp, ?_⟩
    intro t ht
    simp only [List.take_succ_cons, List.take_zero, Set.mem_ofPred_eq, List.mem_cons,
      List.not_mem_nil, or_false] at ht
    omega
  have hcall := (inputSource_minimal_iff sampleLibraries .bch [sampleCoin 0, sampleCoin 1]
    [500, 1500, 200] 2 1500 ?_ (by decide) (by decide) hgreatest).mpr (by decide)
  · rw [hboth] at hcall
    exact hcall
  · intro u hu
    simp only [List.mem_cons, List.not_mem_nil, or_false] at hu
    rcases hu with rfl | rfl <;> exact parsable_sample _ _

/-- Three outputs of 2^62 units. -/
def sampleWhales : List ListUnspentResult :=
  [0, 1, 2].map fun vout => { sampleCoin vout with amount := 4611686018427387904 }

/-- Two of them reach the largest `int64`, but their total wraps and the third is taken too. -/
theorem inputSource_wraps :
    (shortestFor maxInt64 sampleWhales).length = 2 ∧
      ∀ h : Helper, ∃ r, h.inputSource sampleLibraries sampleWhales [maxInt64] = [.ok r] ∧
        r.inputs.length = 3 ∧ r.total = -4611686018427387904 ∧
        r.inputValues.sum = 13835058055282163712 := by
  refine ⟨by decide, ?_⟩
  intro h
  cases h
  · exact ⟨_, rfl, by decide, by decide, by decide⟩
  · exact ⟨_, rfl, by decide, by decide, by decide⟩

end Sample

end CoinSource

end TssSvc.Bridge.Utxo
