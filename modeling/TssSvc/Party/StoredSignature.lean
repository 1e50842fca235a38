import TssSvc.Bridge.Ton
import TssSvc.Session.Payload

/-!
# From the distributed signature to the stored one

`SignatureData` holds a signature twice.  `tss.Verify` reads `R` and `S`; the finalizers of the
EVM, TON, Solana and Zano sessions write out `Signature` followed by `SignatureRecovery`.
`SignaturesDistributor` (`internal/tss/session/signing/distribution.go`) checks the former only,
so what is stored is what was verified exactly when the leader filled both copies alike.
-/

set_option autoImplicit false

namespace TssSvc.Party

open TssSvc.Bridge TssSvc.Bridge.Ton TssSvc.Session

/-- Of these calls only the texts of the errors matter. -/
abbrev Call := Outcome (GoError Empty)

/-- `tss.Signatures`: the elements are pointers. -/
abbrev Signatures := List (Option SignatureData)

/-! ## Distribution -/

section Distribution

-- `ecdsa.Verify` with the public key of the TSS
variable (ecdsaVerify : Bytes → Nat → Nat → Bool)

def verify (inputData : Bytes) (signature : SignatureData) : Bool :=
  ecdsaVerify (bigBytes (setBytes inputData)) (setBytes signature.r) (setBytes signature.s)

/-- The loop of `validateSignatures`. -/
def verifyEach : Signatures → List Bytes → Call Unit
  | [], _ => .ok ()
  | _ :: _, [] => .panic .indexOutOfRange
  | signature :: signatures, data :: sigData => do
      let signature ← Outcome.deref signature
      Outcome.check (verify ecdsaVerify data signature) (.new "got invalid signature")
      verifyEach signatures sigData

def validateSignatures (sigData : List Bytes) (signatures : Option Signatures) :
    Call Signatures := do
  let signatures ← Outcome.ofOption (.new "no signatures received") signatures
  Outcome.check (signatures.length = sigData.length)
    (.new "received signatures count does not match expected")
  verifyEach ecdsaVerify signatures sigData
  return signatures

/-- What `Run` finds: the distributor's own signatures and whether they were broadcast, or the
message of the distributor and whether `EnsureValid` agreed to it. -/
inductive Distribution where
  | distribute (signatures : Option Signatures) (broadcast : Bool)
  | cancelled (reason : GoString)
  | receive (value : Option Signatures) (ensured : Bool)

/-- `Run` followed by `WaitFor`. -/
def waitFor (sigData : List Bytes) : Distribution → Call Signatures
  | .distribute signatures broadcast => do
      let signatures ← Outcome.ofOption (.new "no signatures to distribute") signatures
      Outcome.check (broadcast = true) (.new "signatures was not correctly broadcast")
      (validateSignatures ecdsaVerify sigData (some signatures)).wrap
        "failed to validate signatures"
  | .cancelled reason => .err ⟨none, reason⟩
  | .receive value ensured => do
      Outcome.check (ensured = true) (.new "signatures message was not correctly distributed")
      (validateSignatures ecdsaVerify sigData value).wrap "failed to validate received signatures"

end Distribution

/-! ## Conversion -/

/-- `append(sig.Signature, sig.SignatureRecovery...)`. -/
def rawSig (sig : SignatureData) : Bytes := sig.signature ++ sig.signatureRecovery

def convertToEthSignature (sig : SignatureData) : Call GoString := do
  let recovery ← Outcome.index (rawSig sig) 64
  return hexutilEncode ((rawSig sig).set 64 (recovery + 27))

def convertToTonSignature (sig : SignatureData) : Call GoString :=
  .ok (hexutilEncode (rawSig sig))

def convertToSolanaSignature (sig : SignatureData) : Call GoString :=
  .ok (hexutilEncode (rawSig sig))

/-- `s[low:high]`. -/
def slice (s : GoString) (low high : Nat) : Call GoString :=
  if low ≤ high ∧ high ≤ s.length then .ok ((s.take high).drop low) else .panic .indexOutOfRange

/-- The redundant marker and the recovery byte are stripped. -/
def encodeSignature (sig : SignatureData) : Call GoString :=
  let encoded := hexutilEncode (rawSig sig)
  slice encoded 2 (encoded.length - 2)

inductive Finalizer where
  | evm
  | ton
  | solana
  | zano
  deriving DecidableEq, Repr

/-- The text stored as the signature of the deposit; for Zano, as the signature within the
transaction stored as its `TxData`. -/
def Finalizer.convert : Finalizer → SignatureData → Call GoString
  | evm => convertToEthSignature
  | ton => convertToTonSignature
  | solana => convertToSolanaSignature
  | zano => encodeSignature

/-- Zano signatures are stored without the marker. -/
def Finalizer.decode : Finalizer → GoString → Option Bytes
  | evm | ton | solana => hexutilDecode
  | zano => decodeString

/-- A byte after `r` and `s` that the conversion indexes, or strips. -/
def Finalizer.recoveryBytes : Finalizer → Nat
  | evm | zano => 1
  | ton | solana => 0

/-! ## What is stored -/

/-- The 32-byte big-endian encoding of a number. -/
def Encodes (bytes : Bytes) (value : Nat) : Prop := bytes.length = 32 ∧ setBytes bytes = value

/-- The first 64 bytes are `r` and `s`, as `tss.Verify` reads them. -/
def HoldsVerified (sig : SignatureData) (bytes : Bytes) : Prop :=
  Encodes (bytes.take 32) (setBytes sig.r) ∧ Encodes ((bytes.drop 32).take 32) (setBytes sig.s)

def StoresVerified (finalizer : Finalizer) (sig : SignatureData) : Prop :=
  ∃ text decoded, finalizer.convert sig = .ok text ∧ finalizer.decode text = some decoded ∧
    HoldsVerified sig decoded

/-- `Signature` and `SignatureRecovery` repeat `R` and `S`, with the recovery byte after them. -/
structure Repeats (finalizer : Finalizer) (sig : SignatureData) : Prop where
  copied : HoldsVerified sig (rawSig sig)
  recovery : 64 + finalizer.recoveryBytes ≤ (rawSig sig).length

instance (bytes : Bytes) (value : Nat) : Decidable (Encodes bytes value) := by
  unfold Encodes
  infer_instance

instance (sig : SignatureData) (bytes : Bytes) : Decidable (HoldsVerified sig bytes) := by
  unfold HoldsVerified
  infer_instance

theorem HoldsVerified.length {sig : SignatureData} {bytes : Bytes} (h : HoldsVerified sig bytes) :
    64 ≤ bytes.length := by
  have hs := h.2.1
  simp only [List.length_take, List.length_drop] at hs
  omega

/-- Only the first 64 bytes are looked at. -/
theorem holdsVerified_congr {sig : SignatureData} {bytes bytes' : Bytes}
    (h : bytes.take 64 = bytes'.take 64) : HoldsVerified sig bytes ↔ HoldsVerified sig bytes' := by
  have hr : bytes.take 32 = bytes'.take 32 := by
    simpa [List.take_take] using congrArg (List.take 32) h
  have hs : (bytes.drop 32).take 32 = (bytes'.drop 32).take 32 := by
    simpa [List.drop_take] using congrArg (List.drop 32) h
  rw [HoldsVerified, HoldsVerified, hr, hs]

theorem formatHex_append (a b : Bytes) : formatHex (a ++ b) = formatHex a ++ formatHex b :=
  List.flatMap_append

theorem encodeSignature_nil {sig : SignatureData} (h : rawSig sig = []) :
    encodeSignature sig = .panic .indexOutOfRange := by
  unfold encodeSignature
  rw [h]
  decide

theorem encodeSignature_concat {sig : SignatureData} {front : Bytes} {last : UInt8}
    (h : rawSig sig = front ++ [last]) : encodeSignature sig = .ok (formatHex front) := by
  have hlast : (formatHex [last]).length = 2 := rfl
  have hencoded : hexutilEncode (front ++ [last]) =
      str "0x" ++ formatHex front ++ formatHex [last] := by
    rw [hexutilEncode, formatHex_append, List.append_assoc]
  have hmarker : (str "0x").length = 2 := by decide
  have hlength : (str "0x" ++ formatHex front ++ formatHex [last]).length - 2 =
      (str "0x" ++ formatHex front).length := by
    simp only [List.length_append]
    omega
  unfold encodeSignature slice
  rw [h, hencoded]
  simp only [hlength]
  rw [if_pos (by simp only [List.length_append]; omega), List.take_left' rfl]
  rw [List.drop_left' hmarker]

/-! ## Each conversion -/

/-- TON and Solana store the bytes as they are. -/
theorem storesVerified_plain {finalizer : Finalizer} {sig : SignatureData}
    (hconvert : finalizer.convert sig = .ok (hexutilEncode (rawSig sig)))
    (hdecode : finalizer.decode = hexutilDecode) :
    StoresVerified finalizer sig ↔ HoldsVerified sig (rawSig sig) := by
  constructor
  · rintro ⟨text, decoded, htext, hdecoded, holds⟩
    cases hconvert.symm.trans htext
    rw [hdecode, hexutilDecode_hexutilEncode] at hdecoded
    cases hdecoded
    exact holds
  · intro holds
    exact ⟨_, rawSig sig, hconvert, by rw [hdecode, hexutilDecode_hexutilEncode], holds⟩

theorem convertToEthSignature_ok {sig : SignatureData} {text : GoString} :
    convertToEthSignature sig = .ok text ↔ ∃ recovery, (rawSig sig)[64]? = some recovery ∧
      text = hexutilEncode ((rawSig sig).set 64 (recovery + 27)) := by
  simp only [convertToEthSignature, Outcome.index, Outcome.bind_eq_ok, Outcome.pure_eq_ok]
  cases hrecovery : (rawSig sig)[64]? with
  | none => simp [hrecovery]
  | some recovery => simp [hrecovery, eq_comm]

theorem storesVerified_evm {sig : SignatureData} :
    StoresVerified .evm sig ↔ HoldsVerified sig (rawSig sig) ∧ 65 ≤ (rawSig sig).length := by
  have hsame (b : UInt8) : ((rawSig sig).set 64 b).take 64 = (rawSig sig).take 64 :=
    List.take_set_of_le (Nat.le_refl 64)
  constructor
  · rintro ⟨text, decoded, htext, hdecoded, holds⟩
    obtain ⟨recovery, hrecovery, rfl⟩ := convertToEthSignature_ok.mp htext
    simp only [Finalizer.decode, hexutilDecode_hexutilEncode, Option.some.injEq] at hdecoded
    subst hdecoded
    obtain ⟨hlt, -⟩ := List.getElem?_eq_some_iff.mp hrecovery
    exact ⟨(holdsVerified_congr (hsame _)).mp holds, hlt⟩
  · rintro ⟨holds, hlt⟩
    have hrecovery : (rawSig sig)[64]? = some (rawSig sig)[64] := List.getElem?_eq_getElem hlt
    exact ⟨_, _, convertToEthSignature_ok.mpr ⟨_, hrecovery, rfl⟩, hexutilDecode_hexutilEncode _,
      (holdsVerified_congr (hsame _)).mpr holds⟩

theorem storesVerified_zano {sig : SignatureData} :
    StoresVerified .zano sig ↔ HoldsVerified sig (rawSig sig) ∧ 65 ≤ (rawSig sig).length := by
  rcases List.eq_nil_or_concat' (rawSig sig) with hnil | ⟨front, last, hconcat⟩
  · constructor
    · rintro ⟨text, decoded, htext, -⟩
      rw [Finalizer.convert, encodeSignature_nil hnil] at htext
      cases htext
    · rintro ⟨-, hlength⟩
      simp [hnil] at hlength
  · have hconvert := encodeSignature_concat hconcat
    have hsame (h : 64 ≤ front.length) : front.take 64 = (rawSig sig).take 64 := by
      rw [hconcat, List.take_append_of_le_length h]
    have hlength : (rawSig sig).length = front.length + 1 := by rw [hconcat]; simp
    constructor
    · rintro ⟨text, decoded, htext, hdecoded, holds⟩
      cases hconvert.symm.trans htext
      simp only [Finalizer.decode, decodeString_formatHex, Option.some.injEq] at hdecoded
      subst hdecoded
      have hfront := holds.length
      exact ⟨(holdsVerified_congr (hsame hfront)).mp holds, by omega⟩
    · rintro ⟨holds, hlt⟩
      exact ⟨_, front, hconvert, decodeString_formatHex _,
        (holdsVerified_congr (hsame (by omega))).mpr holds⟩

theorem storesVerified_iff (finalizer : Finalizer) (sig : SignatureData) :
    StoresVerified finalizer sig ↔ Repeats finalizer sig := by
  have hsplit : Repeats finalizer sig ↔ HoldsVerified sig (rawSig sig) ∧
      64 + finalizer.recoveryBytes ≤ (rawSig sig).length :=
    ⟨fun h => ⟨h.copied, h.recovery⟩, fun h => ⟨h.1, h.2⟩⟩
  rw [hsplit]
  cases finalizer with
  | evm => exact storesVerified_evm
  | ton =>
      rw [storesVerified_plain rfl rfl]
      exact (and_iff_left_of_imp HoldsVerified.length).symm
  | solana =>
      rw [storesVerified_plain rfl rfl]
      exact (and_iff_left_of_imp HoldsVerified.length).symm
  | zano => exact storesVerified_zano

/-! ## Accepted signatures -/

section Accepted

variable {ecdsaVerify : Bytes → Nat → Nat → Bool}

theorem validateSignatures_singleton {hash : Bytes} {value : Option Signatures}
    {signatures : Signatures}
    (h : validateSignatures ecdsaVerify [hash] value = .ok signatures) :
    ∃ sig, signatures = [some sig] ∧ verify ecdsaVerify hash sig = true := by
  simp only [validateSignatures, Outcome.bind_eq_ok, Outcome.ofOption_eq_ok, Outcome.check_eq_ok,
    Outcome.pure_eq_ok, Outcome.ok.injEq] at h
  obtain ⟨_, -, _, hlength, _, hverified, rfl⟩ := h
  obtain ⟨signature, rfl⟩ := List.length_eq_one_iff.mp hlength
  simp only [verifyEach, Outcome.bind_eq_ok, Outcome.deref_eq_ok, Outcome.check_eq_ok] at hverified
  obtain ⟨sig, rfl, _, hsig, -⟩ := hverified
  exact ⟨sig, rfl, hsig⟩

theorem validated_of_waitFor {sigData : List Bytes} {distribution : Distribution}
    {signatures : Signatures} (h : waitFor ecdsaVerify sigData distribution = .ok signatures) :
    ∃ value, validateSignatures ecdsaVerify sigData value = .ok signatures := by
  cases distribution with
  | distribute own broadcast =>
      simp only [waitFor, Outcome.bind_eq_ok, Outcome.wrap_eq_ok] at h
      obtain ⟨own, -, _, -, h⟩ := h
      exact ⟨_, h⟩
  | cancelled reason => cases h
  | receive value ensured =>
      simp only [waitFor, Outcome.bind_eq_ok, Outcome.wrap_eq_ok] at h
      obtain ⟨_, -, h⟩ := h
      exact ⟨_, h⟩

/-- Whatever the distributor accepts for one hash is one verified signature, and a finalizer
stores it as verified exactly when the two copies in it agree. -/
theorem accepted_storesVerified_iff (finalizer : Finalizer) {hash : Bytes}
    {distribution : Distribution} {signatures : Signatures}
    (accepted : waitFor ecdsaVerify [hash] distribution = .ok signatures) :
    ∃ sig, signatures[0]? = some (some sig) ∧ verify ecdsaVerify hash sig = true ∧
      (StoresVerified finalizer sig ↔ Repeats finalizer sig) := by
  obtain ⟨value, validated⟩ := validated_of_waitFor accepted
  obtain ⟨sig, rfl, verified⟩ := validateSignatures_singleton validated
  exact ⟨sig, rfl, verified, storesVerified_iff finalizer sig⟩

end Accepted

/-! ## Copies that differ -/

def sampleVerify (hash : Bytes) (r s : Nat) : Bool := decide (hash = [7] ∧ r = 1 ∧ s = 2)

/-- The `R` and `S` that verify, with the given copy of them. -/
def sampleSignature (signature signatureRecovery : Bytes) : SignatureData :=
  ⟨signature, signatureRecovery, [1], [2], [7]⟩

theorem accepted_storesVerified_sampleSignature :
    let sig := sampleSignature (fitBytes 32 [1] ++ fitBytes 32 [2]) [0]
    waitFor sampleVerify [[7]] (.receive (some [some sig]) true) = .ok [some sig] ∧
      StoresVerified .evm sig ∧ StoresVerified .zano sig := by
  intro sig
  have accepted : waitFor sampleVerify [[7]] (.receive (some [some sig]) true) =
      .ok [some sig] := by decide +kernel
  obtain ⟨_, hevm, -, evm⟩ := accepted_storesVerified_iff .evm accepted
  obtain ⟨_, hzano, -, zano⟩ := accepted_storesVerified_iff .zano accepted
  cases hevm
  cases hzano
  have copied : HoldsVerified sig (rawSig sig) := by decide +kernel
  have length : 65 ≤ (rawSig sig).length := by decide +kernel
  exact ⟨accepted, evm.mpr ⟨copied, length⟩, zano.mpr ⟨copied, length⟩⟩

/-- A leader that leaves the copy out makes two of the finalizers panic and the other two store
nothing; one that fills it with other numbers has those stored. -/
theorem distributor_accepts_differing_copy :
    let bare := sampleSignature [] []
    let forged := sampleSignature (List.replicate 64 9) [0]
    waitFor sampleVerify [[7]] (.receive (some [some bare]) true) = .ok [some bare] ∧
      Finalizer.convert .evm bare = .panic .indexOutOfRange ∧
      Finalizer.convert .zano bare = .panic .indexOutOfRange ∧
      Finalizer.convert .ton bare = .ok (str "0x") ∧
      Finalizer.convert .solana bare = .ok (str "0x") ∧
      waitFor sampleVerify [[7]] (.receive (some [some forged]) true) = .ok [some forged] ∧
      ∀ finalizer, ¬ StoresVerified finalizer forged := by
  intro bare forged
  have differs : ¬ HoldsVerified forged (rawSig forged) := by decide +kernel
  refine ⟨by decide +kernel, by decide, by decide, by decide, by decide, by decide +kernel, ?_⟩
  intro finalizer stores
  exact differs ((storesVerified_iff finalizer forged).mp stores).copied

end TssSvc.Party
