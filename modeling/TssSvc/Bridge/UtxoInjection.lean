import TssSvc.Bridge.UtxoCompleteness
import TssSvc.Lib.Der
import TssSvc.Session.Conclusion

/-!
# The signed transaction of a UTXO withdrawal

`InjectSignatures` of the BTC and BCH helpers and the part of the finalizer that calls it
(`internal/tss/session/signing/utxo/finalizer.go`).  `EncodeSignature` reads `R` and `S` into
scalars, which `btcec` writes in DER with the smaller of `s` and its negation; the script builder
pushes the signature and the key.  What is assumed of the two libraries is in
`SignatureLib.Lawful`.

`concluded_unlocked`: a party that finishes a session gets a transaction each input of which
carries a signature for its own hash, provided the leader distributed no `R` or `S` of more than 32
bytes: `tss.Verify` reads numbers of any length, `SetByteSlice` the first 32 bytes.
-/

set_option autoImplicit false

namespace TssSvc.Bridge.Utxo

open TssSvc.Broadcast TssSvc.Db TssSvc.Session
open TssSvc.Party (Signatures)
open CoinSource (Names)

/-! ## The source -/

/-- `SetByteSlice` of a `btcec.ModNScalar`, which is taken for the number it holds; the signature
of two scalars, serialized; and the script that `AddData` builds of some elements. -/
structure SignatureLib where
  setByteSlice : Bytes → Nat
  serialize : Nat → Nat → Bytes
  script : List Bytes → Except GoString Bytes

section Source

variable (lib : SignatureLib)

def encodeSignature (sig : Option SignatureData) (sigHashType : UInt8) : Bytes :=
  match sig with
  | none => []
  | some sig => lib.serialize (lib.setByteSlice sig.r) (lib.setByteSlice sig.s) ++ [sigHashType]

/-- The script of one input; `pk` is the compressed key. -/
def signatureScript (sigHashType : UInt8) (pk : Bytes) (sig : Option SignatureData) :
    Result Bytes :=
  external (lib.script [encodeSignature lib sig sigHashType, pk])

/-- The loop of `InjectSignatures` from the input `i` on. -/
def injectFrom (sigHashType : UInt8) (pk : Bytes) (i : Nat) :
    List TxIn → Signatures → Result (List TxIn)
  | txIn :: rest, sig :: signatures => do
      let sigScript ← (signatureScript lib sigHashType pk sig).mapErr
        (GoError.wrap (str "failed to create script for input " ++ Decimal.formatNat i))
      let others ← injectFrom sigHashType pk (i + 1) rest signatures
      return { txIn with signatureScript := sigScript } :: others
  | txIn, _ => .ok txIn

/-- The BTC and BCH helpers differ in the type of the signature hash. -/
def injectSignatures (sigHashType : UInt8) (pk : Bytes) (tx : MsgTx) (signatures : Signatures) :
    Result MsgTx := do
  Outcome.check (signatures.length = tx.txIn.length)
    (.new "signatures count does not match inputs count")
  let txIn ← injectFrom lib sigHashType pk 0 tx.txIn signatures
  return { tx with txIn := txIn }

/-- `SigHashAll`. -/
def btcInjectSignatures : Bytes → MsgTx → Signatures → Result MsgTx := injectSignatures lib 0x01

/-- `SigHashAll | SigHashForkID`. -/
def bchInjectSignatures : Bytes → MsgTx → Signatures → Result MsgTx := injectSignatures lib 0x41

/-- The transaction that `finalize` stores and the leader sends. -/
def WithdrawalConstructor.signedTx (c : WithdrawalConstructor) (sigHashType : UInt8) (pk : Bytes)
    (data : BitcoinProposalData) (signatures : Signatures) : Result MsgTx := do
  let tx ← (external (c.deserialize data.serializedTx)).wrap "failed to deserialize transaction"
  (injectSignatures lib sigHashType pk tx signatures).wrap "failed to inject signatures"

end Source

/-! ## What a node checks -/

/-- The order of the group of secp256k1. -/
def groupOrder : Nat := 0xFFFFFFFFFFFFFFFFFFFFFFFFFFFFFFFEBAAEDCE6AF48A03BBFD25E8CD0364141

/-- A push of 1 to 75 bytes and what follows it. -/
def readPush : Bytes → Option (Bytes × Bytes)
  | length :: rest =>
      if 0 < length ∧ length < 0x4c ∧ length.toNat ≤ rest.length then
        some (rest.take length.toNat, rest.drop length.toNat)
      else none
  | [] => none

/-- The two elements of the script that unlocks an output to the hash of a key. -/
def readPushes (script : Bytes) : Option (Bytes × Bytes) :=
  (readPush script).bind fun first =>
    (readPush first.2).bind fun second =>
      if second.2 = [] then some (first.1, second.1) else none

/-- The input `i` carries the key and a strict low-s signature of its own hash. -/
def Unlocked (c : WithdrawalConstructor) (ecdsaVerify : Bytes → Nat → Nat → Bool)
    (sigHashType : UInt8) (pk : Bytes) (tx : MsgTx) (i : Nat) (script : Bytes) (amount : Int) :
    Prop :=
  ∃ txIn der r s hash, tx.txIn[i]? = some txIn ∧
    readPushes txIn.signatureScript = some (der ++ [sigHashType], pk) ∧
    Der.decode der = some (r, s) ∧ s ≤ groupOrder / 2 ∧
    c.calculateSignatureHash script tx i amount = .ok hash ∧ ecdsaVerify hash r s = true

def MsgTx.unsigned (tx : MsgTx) : MsgTx :=
  { tx with txIn := tx.txIn.map fun txIn => { txIn with signatureScript := [] } }

/-- What is assumed of the libraries: a scalar of at most 32 bytes is read as it is, a signature is
written in strict DER with `s` in the lower half, and short elements are pushed by their length. -/
structure SignatureLib.Lawful (lib : SignatureLib) : Prop where
  reads : ∀ bytes, bytes.length ≤ 32 → bigEndian bytes < groupOrder →
    lib.setByteSlice bytes = bigEndian bytes
  writes : ∀ r s, r < groupOrder → s < groupOrder → ∃ low, (low = s ∨ low = groupOrder - s) ∧
    low ≤ groupOrder / 2 ∧ Der.decode (lib.serialize r s) = some (r, low) ∧
      (lib.serialize r s).length ≤ 72
  pushes : ∀ first second : Bytes, 2 ≤ first.length → first.length ≤ 75 → 2 ≤ second.length →
    second.length ≤ 75 → ∃ script, lib.script [first, second] = .ok script ∧
      readPushes script = some (first, second)

/-- What is assumed of the signature hashes: they do not cover the signature scripts and are not
longer than the order of the group. -/
structure SigHashes (c : WithdrawalConstructor) : Prop where
  blind : ∀ script (tx tx' : MsgTx) i amount, tx.unsigned = tx'.unsigned →
    c.calcSignatureHash script tx i amount = c.calcSignatureHash script tx' i amount
  short : ∀ script tx i amount hash, c.calcSignatureHash script tx i amount = .ok hash →
    hash.length ≤ 32

/-- What is assumed of the curve: the scalars are reduced, a signature stays one when `s` is
negated, and leading zeros of a hash do not matter. -/
structure Curve (ecdsaVerify : Bytes → Nat → Nat → Bool) : Prop where
  reduced : ∀ hash r s, ecdsaVerify hash r s = true → r < groupOrder ∧ s < groupOrder
  negated : ∀ hash r s, ecdsaVerify hash r s = true → ecdsaVerify hash r (groupOrder - s) = true
  leading : ∀ hash r s, hash.length ≤ 32 →
    ecdsaVerify (bigBytes (bigEndian hash)) r s = ecdsaVerify hash r s

/-! ## One signature -/

theorem length_of_decode {der : Bytes} {pair : Nat × Nat} (h : Der.decode der = some pair) :
    1 ≤ der.length := by
  cases der with
  | nil => cases h
  | cons _ _ => exact Nat.succ_pos _

variable {lib : SignatureLib}

/-- The signature a node reads from the script verifies like the one that was distributed. -/
theorem signatureScript_reads (lawful : lib.Lawful) {ecdsaVerify : Bytes → Nat → Nat → Bool}
    (curve : Curve ecdsaVerify) {sig : SignatureData}
    (short : sig.r.length ≤ 32 ∧ sig.s.length ≤ 32) {hash : Bytes} (fits : hash.length ≤ 32)
    (verified : Party.verify ecdsaVerify hash sig = true) (sigHashType : UInt8) {pk : Bytes}
    (compressed : pk.length = 33) :
    ∃ script der r s, signatureScript lib sigHashType pk (some sig) = .ok script ∧
      readPushes script = some (der ++ [sigHashType], pk) ∧ Der.decode der = some (r, s) ∧
      s ≤ groupOrder / 2 ∧ ecdsaVerify hash r s = true := by
  have hverified : ecdsaVerify hash (bigEndian sig.r) (bigEndian sig.s) = true :=
    (curve.leading hash _ _ fits).symm.trans verified
  obtain ⟨hr, hs⟩ := curve.reduced _ _ _ hverified
  obtain ⟨low, hlow, hhalf, hdecode, hlength⟩ := lawful.writes _ _ hr hs
  have hnonempty := length_of_decode hdecode
  obtain ⟨script, hscript, hread⟩ := lawful.pushes
    (lib.serialize (bigEndian sig.r) (bigEndian sig.s) ++ [sigHashType]) pk
    (by rw [List.length_append, List.length_singleton]; omega)
    (by rw [List.length_append, List.length_singleton]; omega) (by omega) (by omega)
  refine ⟨script, _, _, low, ?_, hread, hdecode, hhalf, ?_⟩
  · rw [signatureScript, encodeSignature, lawful.reads _ short.1 hr, lawful.reads _ short.2 hs,
      hscript]
    rfl
  · rcases hlow with rfl | rfl
    · exact hverified
    · exact curve.negated _ _ _ hverified

/-! ## All inputs -/

section Inject

variable {ecdsaVerify : Bytes → Nat → Nat → Bool} {pk : Bytes}

/-- No `R` or `S` is longer than a scalar. -/
def Short (signatures : Signatures) : Prop :=
  ∀ sig, some sig ∈ signatures → sig.r.length ≤ 32 ∧ sig.s.length ≤ 32

/-- The script reads as the key and a signature of the hash. -/
def Carries (ecdsaVerify : Bytes → Nat → Nat → Bool) (sigHashType : UInt8) (pk hash : Bytes)
    (script : Bytes) : Prop :=
  ∃ der r s, readPushes script = some (der ++ [sigHashType], pk) ∧ Der.decode der = some (r, s) ∧
    s ≤ groupOrder / 2 ∧ ecdsaVerify hash r s = true

/-- Every input keeps its outpoint and gets a script that carries a signature of its hash. -/
theorem injectFrom_ok (lawful : lib.Lawful) (curve : Curve ecdsaVerify)
    (compressed : pk.length = 33)
    {hashes : List Bytes} {signatures : Signatures} (fits : ∀ hash ∈ hashes, hash.length ≤ 32)
    (verified : Verified ecdsaVerify hashes signatures) (short : Short signatures)
    (sigHashType : UInt8) (i : Nat) {txIn : List TxIn} (count : signatures.length = txIn.length) :
    ∃ signed, injectFrom lib sigHashType pk i txIn signatures = .ok signed ∧
      List.Forall₂ (fun before after => ∃ script,
        after = { before with signatureScript := script }) txIn signed ∧
      List.Forall₂ (fun hash after => Carries ecdsaVerify sigHashType pk hash
        after.signatureScript) hashes signed := by
  induction verified generalizing i txIn with
  | nil =>
      cases txIn with
      | nil => exact ⟨[], rfl, .nil, .nil⟩
      | cons _ _ => cases count
  | cons head rest ih =>
      cases txIn with
      | nil => cases count
      | cons first others =>
          obtain ⟨sig, rfl, hverified⟩ := head
          obtain ⟨script, der, r, s, hscript, hread, hder, hlow, hvalid⟩ :=
            signatureScript_reads lawful curve (short sig List.mem_cons_self)
              (fits _ List.mem_cons_self) hverified sigHashType compressed
          obtain ⟨signed, hsigned, hkept, hcarried⟩ := ih
            (fun hash hmem => fits hash (List.mem_cons_of_mem _ hmem))
            (fun sig hmem => short sig (List.mem_cons_of_mem _ hmem)) (i + 1)
            (Nat.succ.inj count)
          refine ⟨{ first with signatureScript := script } :: signed, ?_, .cons ⟨script, rfl⟩ hkept,
            .cons ⟨der, r, s, hread, hder, hlow, hvalid⟩ hcarried⟩
          simp [injectFrom, hscript, hsigned, Outcome.mapErr]

theorem unsigned_of_kept {txIn signed : List TxIn}
    (kept : List.Forall₂ (fun before after => ∃ script,
      after = { before with signatureScript := script }) txIn signed) (tx : MsgTx)
    (same : tx.txIn = txIn) : ({ tx with txIn := signed } : MsgTx).unsigned = tx.unsigned := by
  have hmap : signed.map (fun i => { i with signatureScript := [] }) =
      txIn.map fun i => { i with signatureScript := [] } := by
    clear same
    induction kept with
    | nil => rfl
    | cons head _ ih =>
        obtain ⟨script, rfl⟩ := head
        simp only [List.map_cons, ih]
  simp only [MsgTx.unsigned, hmap, same]

end Inject

/-! ## The transaction of a session -/

namespace WithdrawalConstructor

/-- The data of a transaction that spends outputs the wallet listed at some time, with the hashes
of its inputs. -/
def Hashed (c : WithdrawalConstructor) (seen : List ListUnspentResult → Prop)
    (data : BitcoinProposalData) : Prop :=
  ∃ wallet authored taken, seen wallet ∧ (∀ u ∈ taken, u ∈ wallet) ∧ c.Spends taken authored ∧
    (∀ tx, c.deserialize data.serializedTx = .ok tx → tx = authored.tx) ∧
    c.formSignatureHashes authored = .ok data.sigData

variable {c : WithdrawalConstructor} {seen : List ListUnspentResult → Prop}
  {wallet : List ListUnspentResult} {fee : Except GoString Int}

/-- The assumptions do not mention the wallet and the fee rate. -/
theorem Libraries.withWallet (libs : c.Libraries) : (c.withWallet wallet fee).Libraries where
  toFeeEstimate := ⟨libs.fees, libs.sizes⟩
  parses := libs.parses
  reads := libs.reads
  arranges := libs.arranges
  draws := libs.draws
  pays := libs.pays
  covers := libs.covers

/-- A transaction that is built for a receiver from listed outputs, at a valid rate. -/
theorem hashed_of_unsignedTx (libs : c.Libraries) (listed : seen wallet)
    {coins : List ListUnspentResult} (hcoins : ∀ u ∈ coins, u ∈ wallet) {rate : Int}
    (hrate : feeRateValid rate = true) {output : TxOut} {authored : AuthoredTx}
    (hbuilt : (c.withWallet wallet fee).unsignedTx coins rate output = .ok authored)
    {receiver : GoString} (hscript : c.client.lib.payToAddr receiver = .ok output.pkScript)
    {data : BitcoinProposalData} (hserialized : c.serialize authored.tx = data.serializedTx)
    (hhashes : (c.withWallet wallet fee).formSignatureHashes authored = .ok data.sigData) :
    c.Hashed seen data := by
  have hlibs : (c.withWallet wallet fee).Libraries := libs.withWallet
  obtain ⟨taken, rest, hperm, hspends⟩ := unsignedTx_spends hlibs hbuilt
  rw [formSignatureHashes_withWallet] at hhashes
  refine ⟨wallet, authored, taken, listed, fun u hu => ?_,
    ⟨hspends.inputs, hspends.scripts, hspends.values, hspends.total⟩, fun tx hread => ?_, hhashes⟩
  · exact hcoins u (hperm.subset (List.mem_append_left rest hu))
  · rw [← hserialized] at hread
    exact (hlibs.reads _ _ _ _ _ _ hrate hscript hbuilt hread).1

/-- The check of an acceptor. -/
theorem hashed_of_isValid (libs : c.Libraries) (listed : seen wallet) {data : BitcoinProposalData}
    {deposit : Deposit} (h : (c.withWallet wallet fee).isValid (some data) deposit = .ok true) :
    c.Hashed seen data := by
  obtain ⟨coins, expected, payable, hserialized, hhashes⟩ := isValid_eq_true_iff.mp h
  obtain ⟨amount, script, -, hscript, hbuilt⟩ := payable.built
  obtain ⟨unspent, tx, hunspent, -, hfound⟩ := payable.found
  cases hunspent
  exact hashed_of_unsignedTx libs listed (mem_of_found hfound) payable.rate hbuilt hscript
    hserialized hhashes

/-- The data the leader forms. -/
theorem hashed_of_formSigningData (libs : c.Libraries) (listed : seen wallet)
    {data : BitcoinProposalData} {deposit : Deposit}
    (h : (c.withWallet wallet fee).formSigningData deposit = .ok (some data)) :
    c.Hashed seen data := by
  simp only [formSigningData, formTransaction, receiverOutput, Outcome.bind_eq_ok,
    Outcome.wrap_eq_ok, Outcome.ofOption_eq_ok, external_eq_ok, Outcome.pure_eq_ok,
    Outcome.ok.injEq, Option.some.injEq] at h
  obtain ⟨authored, ⟨output, ⟨amount, -, script, hscript, rfl⟩, unspent, hunspent, hbuilt⟩, hashes,
    hhashes, rfl⟩ := h
  cases hunspent
  exact hashed_of_unsignedTx libs listed (fun _ hu => hu) (feeRateValid_estimateFeeOrDefault fee)
    hbuilt hscript rfl hhashes

/-- What the mechanism of a party lets through, over an output list that its wallet gave at some
time: the data it forms as the leader, and the data it finds valid. -/
def Passed (c : WithdrawalConstructor) (seen : List ListUnspentResult → Prop)
    (data : BitcoinProposalData) : Prop :=
  ∃ wallet fee deposit, seen wallet ∧
    ((c.withWallet wallet fee).formSigningData deposit = .ok (some data) ∨
      (c.withWallet wallet fee).isValid (some data) deposit = .ok true)

theorem Passed.hashed {data : BitcoinProposalData} (passed : c.Passed seen data)
    (libs : c.Libraries) : c.Hashed seen data := by
  obtain ⟨wallet, fee, deposit, listed, hform | hvalid⟩ := passed
  · exact hashed_of_formSigningData libs listed hform
  · exact hashed_of_isValid libs listed hvalid

theorem calculateSignatureHash_ok {script : Bytes} {tx : MsgTx} {i : Nat} {amount : Int}
    {hash : Bytes} (h : c.calculateSignatureHash script tx i amount = .ok hash) :
    c.calcSignatureHash script tx i amount = .ok hash := by
  simp only [calculateSignatureHash, Outcome.bind_eq_ok, Outcome.wrap_eq_ok, external_eq_ok] at h
  obtain ⟨_, -, h⟩ := h
  exact h

theorem calculateSignatureHash_blind (sigHashes : SigHashes c) {script : Bytes} {tx tx' : MsgTx}
    (same : tx.unsigned = tx'.unsigned) (i : Nat) (amount : Int) :
    c.calculateSignatureHash script tx i amount = c.calculateSignatureHash script tx' i amount := by
  unfold calculateSignatureHash
  rw [sigHashes.blind script tx tx' i amount same]

variable {ecdsaVerify : Bytes → Nat → Nat → Bool} {signatures : Signatures} {tx : MsgTx}

/-- The hashes are those of the inputs in their order, each for the output it spends. -/
structure HashesOf (c : WithdrawalConstructor) (newHashFromStr : GoString → Except GoString Hash)
    (coins : List ListUnspentResult) (tx : MsgTx) (hashes : List Bytes) : Prop where
  count : hashes.length = tx.txIn.length
  calculated : ∀ (i : Nat) (txIn : TxIn), tx.txIn[i]? = some txIn →
    ∃ u ∈ coins, ∃ script hash, Names newHashFromStr u txIn.previousOutPoint ∧
      decodeString u.scriptPubKey = some script ∧ hashes[i]? = some hash ∧
      c.calculateSignatureHash script tx i u.amount = .ok hash

variable {coins : List ListUnspentResult} {newHashFromStr : GoString → Except GoString Hash}

theorem HashesOf.short {hashes : List Bytes} (h : c.HashesOf newHashFromStr coins tx hashes)
    (sigHashes : SigHashes c) : ∀ hash ∈ hashes, hash.length ≤ 32 := by
  intro hash hmem
  obtain ⟨i, hi⟩ := List.mem_iff_getElem?.mp hmem
  have hlt : i < tx.txIn.length := h.count ▸ (List.getElem?_eq_some_iff.mp hi).1
  obtain ⟨u, -, script, hash', -, -, hhash', hcalc⟩ :=
    h.calculated i tx.txIn[i] (List.getElem?_eq_getElem hlt)
  cases hi.symm.trans hhash'
  exact sigHashes.short _ _ _ _ _ (calculateSignatureHash_ok hcalc)

/-- With verified signatures every input of the transaction is unlocked. -/
theorem HashesOf.injectSignatures {hashes : List Bytes}
    (h : c.HashesOf newHashFromStr coins tx hashes)
    (lawful : lib.Lawful) (sigHashes : SigHashes c) (curve : Curve ecdsaVerify)
    (verified : Verified ecdsaVerify hashes signatures) (short : Short signatures)
    (sigHashType : UInt8) {pk : Bytes} (compressed : pk.length = 33) :
    ∃ signed, injectSignatures lib sigHashType pk tx signatures = .ok signed ∧
      signed.unsigned = tx.unsigned ∧
      ∀ (i : Nat) (txIn : TxIn), tx.txIn[i]? = some txIn → ∃ u ∈ coins, ∃ script,
        Names newHashFromStr u txIn.previousOutPoint ∧ decodeString u.scriptPubKey = some script ∧
        Unlocked c ecdsaVerify sigHashType pk signed i script u.amount := by
  have hlength : signatures.length = tx.txIn.length := by rw [verified.length_eq, h.count]
  obtain ⟨signed, hsigned, hkept, hcarried⟩ := injectFrom_ok lawful curve compressed
    (h.short sigHashes) verified short sigHashType 0 hlength
  have hunsigned := unsigned_of_kept hkept tx rfl
  refine ⟨{ tx with txIn := signed }, ?_, hunsigned, fun i txIn hi => ?_⟩
  · simp [Utxo.injectSignatures, hlength, hsigned]
  · obtain ⟨u, hu, script, hash, hout, hdecode, hhash, hcalc⟩ := h.calculated i txIn hi
    refine ⟨u, hu, script, hout, hdecode, ?_⟩
    obtain ⟨after, hafter, der, r, s, hread, hder, hlow, hvalid⟩ :=
      getElem?_of_forall₂ hcarried hhash
    rw [calculateSignatureHash_blind sigHashes hunsigned.symm] at hcalc
    exact ⟨after, der, r, s, hash, hafter, hread, hder, hlow, hcalc, hvalid⟩

theorem Hashed.hashesOf {data : BitcoinProposalData} (hashed : c.Hashed seen data)
    (read : c.deserialize data.serializedTx = .ok tx) :
    ∃ wallet, seen wallet ∧ c.HashesOf c.newHashFromStr wallet tx data.sigData := by
  obtain ⟨wallet, authored, taken, hseen, hlisted, hspends, hreads, hhashes⟩ := hashed
  obtain rfl := hreads tx read
  obtain ⟨hcount, hcalculated⟩ := formSignatureHashes_ok hspends hhashes
  refine ⟨wallet, hseen, hcount.trans hspends.inputs.length_eq, fun i txIn hi => ?_⟩
  obtain ⟨u, hu, hspent⟩ := getElem?_of_forall₂ hspends.inputs.flip hi
  obtain ⟨script, hash, hdecode, hhash, hcalc⟩ := hcalculated i u hu
  exact ⟨u, hlisted u (List.mem_of_getElem? hu), script, hash, CoinSource.Spends.names hspent,
    hdecode, hhash, hcalc⟩

/-- The signed transaction: every input is unlocked, for the output of the wallet it spends. -/
def Unlocks (c : WithdrawalConstructor) (ecdsaVerify : Bytes → Nat → Nat → Bool)
    (sigHashType : UInt8) (pk : Bytes) (wallet : List ListUnspentResult) (tx signed : MsgTx) :
    Prop :=
  signed.unsigned = tx.unsigned ∧
    ∀ (i : Nat) (txIn : TxIn), tx.txIn[i]? = some txIn → ∃ u ∈ wallet, ∃ script,
      Names c.newHashFromStr u txIn.previousOutPoint ∧ decodeString u.scriptPubKey = some script ∧
      Unlocked c ecdsaVerify sigHashType pk signed i script u.amount

/-- With verified signatures the finalizer gets the agreed transaction with every input
unlocked. -/
theorem Hashed.signedTx {data : BitcoinProposalData} (hashed : c.Hashed seen data)
    (lawful : lib.Lawful) (sigHashes : SigHashes c) (curve : Curve ecdsaVerify)
    (verified : Verified ecdsaVerify data.sigData signatures) (short : Short signatures)
    (sigHashType : UInt8) {pk : Bytes} (compressed : pk.length = 33)
    (read : c.deserialize data.serializedTx = .ok tx) :
    ∃ wallet signed, seen wallet ∧ c.signedTx lib sigHashType pk data signatures = .ok signed ∧
      c.Unlocks ecdsaVerify sigHashType pk wallet tx signed := by
  obtain ⟨wallet, hseen, hof⟩ := hashed.hashesOf read
  obtain ⟨signed, hsigned, hunsigned, hunlocked⟩ := hof.injectSignatures lawful sigHashes curve
    verified short sigHashType compressed
  refine ⟨wallet, signed, hseen, ?_, hunsigned, hunlocked⟩
  simp [WithdrawalConstructor.signedTx, read, external, hsigned]

end WithdrawalConstructor

open SigningProtocol in
/-- Whoever leads: a party that finishes a session holds signatures with which the finalizer gets
the agreed transaction, every input of it unlocked for an output that its wallet listed, unless a
distributed `R` or `S` is longer than 32 bytes. -/
theorem concluded_unlocked {D : Type} [HasHashString BitcoinProposalData]
    [HasHashString SignStartData] [HasHashString Signatures]
    {σ : SigningProtocol D BitcoinProposalData} (sigData : σ.hashes = BitcoinProposalData.sigData)
    {lib : SignatureLib} (lawful : lib.Lawful) {c : WithdrawalConstructor} (libs : c.Libraries)
    (sigHashes : SigHashes c) (curve : Curve σ.ecdsaVerify)
    {seen : List ListUnspentResult → Prop} {s : SessionWorld D BitcoinProposalData} {p : Address}
    (reached : σ.machine.Reachable (fun _ label => Judges p (c.Passed seen) label) s)
    {data : BitcoinProposalData} {signatures : Signatures}
    (concluded : Concluded s p data signatures) (short : Short signatures) (sigHashType : UInt8)
    {pk : Bytes} (compressed : pk.length = 33) {tx : MsgTx}
    (read : c.deserialize data.serializedTx = .ok tx) :
    ∃ wallet signed, seen wallet ∧ c.signedTx lib sigHashType pk data signatures = .ok signed ∧
      c.Unlocks σ.ecdsaVerify sigHashType pk wallet tx signed := by
  obtain ⟨⟨result, hpc, hagreed⟩, hverified, -⟩ := concluded.valid reached
  rw [sigData] at hverified
  have hpassed : c.Passed seen data := judged reached (hpc ▸ hagreed)
  exact (hpassed.hashed libs).signedTx lawful sigHashes curve hverified short sigHashType
    compressed read

/-! ## A session about two inputs -/

section Sample

open CoinSource Protocol SigningProtocol

local instance : HasHashString SignStartData := sampleStartHashable

local instance : HasHashString Signatures := sampleSignaturesHashable

local instance : HasHashString BitcoinProposalData := ⟨BitcoinProposalData.serializedTx⟩

/-- The lower of `s` and its negation. -/
def lowS (s : Nat) : Nat := if groupOrder / 2 < s then groupOrder - s else s

/-- The libraries as they are documented, the script builder for elements of 2 to 75 bytes. -/
def sampleSignatureLib : SignatureLib where
  setByteSlice bytes := bigEndian (bytes.take 32) % groupOrder
  serialize r s := Der.encode r (lowS s)
  script elements :=
    if ∀ data ∈ elements, 2 ≤ data.length ∧ data.length ≤ 75 then
      .ok (elements.flatMap fun data => UInt8.ofNat data.length :: data)
    else .error (str "element size")

theorem lowS_le (s : Nat) (reduced : s < groupOrder) : lowS s ≤ groupOrder / 2 := by
  have hodd : groupOrder % 2 = 1 := by decide
  unfold lowS
  split <;> omega

theorem readPush_cons {data : Bytes} (long : 2 ≤ data.length) (short : data.length ≤ 75)
    (rest : Bytes) :
    readPush (UInt8.ofNat data.length :: (data ++ rest)) = some (data, rest) := by
  have hbyte : (UInt8.ofNat data.length).toNat = data.length :=
    UInt8.toNat_ofNat_of_lt (Nat.lt_of_le_of_lt short (by decide))
  simp only [readPush]
  rw [if_pos]
  · rw [hbyte, List.take_left' rfl, List.drop_left' rfl]
  · refine ⟨?_, ?_, ?_⟩
    · rw [UInt8.lt_iff_toNat_lt, hbyte]
      exact Nat.lt_of_lt_of_le (by decide) long
    · rw [UInt8.lt_iff_toNat_lt, hbyte]
      exact Nat.lt_of_le_of_lt short (by decide)
    · rw [hbyte, List.length_append]
      omega

theorem sampleSignatureLib_lawful : sampleSignatureLib.Lawful where
  reads bytes short reduced := by
    simp only [sampleSignatureLib]
    rw [List.take_of_length_le short, Nat.mod_eq_of_lt reduced]
  writes r s hr hs := by
    have horder : groupOrder < 2 ^ 256 := by decide
    have hlow := lowS_le s hs
    have hr : r < 2 ^ 256 := by omega
    have hs : lowS s < 2 ^ 256 := by omega
    refine ⟨lowS s, ?_, hlow, Der.decode_encode hr hs, (Der.length_encode hr hs).2⟩
    unfold lowS
    split
    · exact .inr rfl
    · exact .inl rfl
  pushes first second hfirst hfirst' hsecond hsecond' := by
    refine ⟨_, if_pos ?_, ?_⟩
    · intro data hmem
      simp only [List.mem_cons, List.not_mem_nil, or_false] at hmem
      rcases hmem with rfl | rfl
      · exact ⟨hfirst, hfirst'⟩
      · exact ⟨hsecond, hsecond'⟩
    · have hread := readPush_cons hsecond hsecond' []
      simp only [List.flatMap_cons, List.flatMap_nil, List.cons_append, readPushes,
        readPush_cons hfirst hfirst', Option.bind_some, hread, if_true]

/-- `r` is one more than the hash, and `s` is 2 or its negation. -/
def sampleCurve (hash : Bytes) (r s : Nat) : Bool :=
  decide (r = bigEndian hash + 1 ∧ r < groupOrder ∧ (s = 2 ∨ s = groupOrder - 2))

theorem sampleCurve_curve : Curve sampleCurve := by
  have horder : 4 < groupOrder := by decide
  refine ⟨fun hash r s h => ?_, fun hash r s h => ?_, fun hash r s _ => ?_⟩
  · obtain ⟨-, hr, hs⟩ := of_decide_eq_true h
    exact ⟨hr, by omega⟩
  · obtain ⟨hsum, hr, hs⟩ := of_decide_eq_true h
    exact decide_eq_true ⟨hsum, hr, by omega⟩
  · have hsame : bigEndian (bigBytes (bigEndian hash)) = bigEndian hash :=
      (bigEndian_digits _).trans (Int.natAbs_natCast _)
    simp only [sampleCurve, hsame]

theorem sampleConstructor_sigHashes : SigHashes sampleConstructor := by
  refine ⟨fun _ _ _ _ _ _ => rfl, fun _ _ _ _ hash h => ?_⟩
  cases h
  simp

def sampleProposal : BitcoinProposalData := ⟨none, [1], 1000, [[0], [1]]⟩

/-- The second signature has the negated `s`. -/
def sampleSigned : Signatures :=
  [some ⟨[], [], [1], [2], []⟩, some ⟨[], [], [2], bigBytes (groupOrder - 2 : Nat), []⟩]

theorem sampleSigned_short : Short sampleSigned := by
  intro sig hmem
  simp only [sampleSigned, List.mem_cons, List.not_mem_nil, or_false, Option.some.injEq] at hmem
  rcases hmem with rfl | rfl <;> decide +kernel

/-- The wallet listed the two outputs whenever it was asked. -/
def sampleSeen (wallet : List ListUnspentResult) : Prop := wallet = [sampleCoin 0, sampleCoin 1]

def sampleCheck (data : BitcoinProposalData) : Fallible Unit :=
  if (sampleConstructor.withWallet [sampleCoin 0, sampleCoin 1] (.ok 1000)).isValid (some data)
      sampleWithdrawal = .ok true then .ok ()
  else .err (.new "proposal data is invalid")

abbrev sampleWithdrawalSession : SigningProtocol Bytes BitcoinProposalData :=
  sampleSigning sampleProposal sampleSigned BitcoinProposalData.sigData sampleCurve 1 [[2], [1]]

theorem sampleCheck_passed {data : BitcoinProposalData} (h : sampleCheck data = .ok ()) :
    sampleConstructor.Passed sampleSeen data := by
  unfold sampleCheck at h
  split at h
  · rename_i hvalid
    exact ⟨_, _, _, rfl, .inr hvalid⟩
  · cases h

theorem concluded_unlocked_pair :
    ∃ s signed, sampleWithdrawalSession.machine.Reachable
        (fun _ label => Judges [2] (sampleConstructor.Passed sampleSeen) label) s ∧
      Concluded s [2] sampleProposal sampleSigned ∧
      sampleConstructor.signedTx sampleSignatureLib 0x01 (List.replicate 33 2) sampleProposal
        sampleSigned = .ok signed ∧
      ∃ u ∈ [sampleCoin 0, sampleCoin 1], ∃ script,
        Names sampleHashFromStr u (newTxIn (sampleHash 0xaa) 1).previousOutPoint ∧
        Unlocked sampleConstructor sampleCurve 0x01 (List.replicate 33 2) signed 1 script
          u.amount := by
  have hrun : (sampleWithdrawalSession.machine.exec (fun _ _ => True)
      (sampleInitial sampleProposal 1) (honestSession sampleProposal sampleSigned sampleCheck)).map
        (fun s => concludes sampleProposal sampleSigned s [2]) = some true := by
    decide +kernel
  obtain ⟨s, hs, hconcludes⟩ := Option.map_eq_some_iff.mp hrun
  have hjudges := honestSession_judges (P := sampleConstructor.Passed sampleSeen) sampleProposal
    sampleSigned [2] (sampleCheck_passed (by decide +kernel)) fun data => sampleCheck_passed
  have reached : sampleWithdrawalSession.machine.Reachable
      (fun _ label => Judges [2] (sampleConstructor.Passed sampleSeen) label) s :=
    Machine.Reachable.exec_of_mem (.init rfl) (fun label hmem _ => hjudges label hmem) hs
  have hread : sampleConstructor.deserialize sampleProposal.serializedTx =
      .ok (sampleSpending [0, 1]) := by
    decide +kernel
  obtain ⟨_, signed, rfl, hsigned, -, hunlocked⟩ := concluded_unlocked rfl
    sampleSignatureLib_lawful sampleConstructor_libraries sampleConstructor_sigHashes
    sampleCurve_curve reached (concluded_of_concludes hconcludes) sampleSigned_short 0x01
    List.length_replicate hread
  obtain ⟨u, hu, script, hnames, -, h⟩ := hunlocked 1 (newTxIn (sampleHash 0xaa) 1) rfl
  exact ⟨s, signed, reached, concluded_of_concludes hconcludes, hsigned, u, hu, script, hnames, h⟩

/-- A zero in front of `R` leaves the number as it is and changes the scalar. -/
example :
    Party.verify sampleCurve [0] ⟨[], [], List.replicate 32 0 ++ [1], [2], []⟩ = true ∧
      sampleSignatureLib.setByteSlice (List.replicate 32 0 ++ [1]) = 0 := by
  decide +kernel

end Sample

end TssSvc.Bridge.Utxo
