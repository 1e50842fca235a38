import TssSvc.Broadcast.Message
import TssSvc.Db.Deposits
import TssSvc.Lib.Proto

/-!
# The payloads of the reliable broadcasts

The values of the three broadcasts of a session: proposal data of the withdrawal and
resharing mechanisms, `SignStartData`, and `tss.Signatures`.  All of them are hashed to the
hex of the SHA-256 of their deterministic protobuf bytes, and all three broadcasts sign
under the same session id.

`digest_eq_iff`: two such messages have one digest exactly when they agree on the session
id, the signatures and the sequence of populated wire fields of the value.
-/

set_option autoImplicit false

namespace TssSvc.Session

open TssSvc.Proto
open TssSvc.Broadcast
open TssSvc.Db

/-! ## Messages of `proto/p2p` and `proto/deposit` -/

/-- `EvmProposalData`, `TonProposalData` and `SolanaProposalData`. -/
structure HashProposalData where
  depositId : Option DepositIdentifier
  sigData : Bytes
  deriving DecidableEq, Repr

structure ZanoProposalData where
  depositId : Option DepositIdentifier
  outputsAddresses : List GoString
  unsignedTx : GoString
  finalizedTx : GoString
  txSecretKey : GoString
  txId : GoString
  sigData : Bytes
  deriving DecidableEq, Repr

structure BitcoinProposalData where
  depositId : Option DepositIdentifier
  serializedTx : Bytes
  feeRate : Int
  sigData : List Bytes
  deriving DecidableEq, Repr

structure BitcoinResharingProposalData where
  serializedTx : Bytes
  sigData : List Bytes
  deriving DecidableEq, Repr

structure ZanoResharingProposalData where
  assetId : GoString
  ownerEthPubKey : GoString
  outputsAddresses : List GoString
  unsignedTx : GoString
  finalizedTx : GoString
  txSecretKey : GoString
  txId : GoString
  sigData : Bytes
  deriving DecidableEq, Repr

structure SignStartData where
  parties : List GoString
  deriving DecidableEq, Repr

/-- `common.SignatureData` of tss-lib. -/
structure SignatureData where
  signature : Bytes
  signatureRecovery : Bytes
  r : Bytes
  s : Bytes
  m : Bytes
  deriving DecidableEq, Repr

/-! ## Marshalling -/

/-- The populated fields of a message in the order of their numbers, and the strings that
must be valid UTF-8. -/
structure Wire where
  fields : List Field
  text : List GoString
  deriving DecidableEq, Repr

instance : Append Wire := ⟨fun a b => ⟨a.fields ++ b.fields, a.text ++ b.text⟩⟩

def emptyWire : Wire := ⟨[], []⟩

/-- A `bytes` field; empty ones are not written. -/
def bytesField (number : Nat) (value : Bytes) : Wire :=
  ⟨if value = [] then [] else [.len number value], []⟩

def stringField (number : Nat) (value : GoString) : Wire :=
  ⟨if value = [] then [] else [.len number value], [value]⟩

/-- An `int64` field as the varint of its two's complement; zero is not written. -/
def int64Field (number : Nat) (value : Int) : Wire :=
  ⟨if value = 0 then [] else [.varint number (value % 2 ^ 64).toNat], []⟩

/-- A `repeated bytes` field: every element is written. -/
def repeatedBytes (number : Nat) (values : List Bytes) : Wire := ⟨values.map (.len number), []⟩

def repeatedStrings (number : Nat) (values : List GoString) : Wire :=
  ⟨values.map (.len number), values⟩

/-- `deposit.DepositIdentifier` has the fields of the database's identifier. -/
def depositIdentifierWire (id : DepositIdentifier) : Wire :=
  stringField 1 id.txHash ++ int64Field 2 id.txNonce ++ stringField 3 id.chainId

/-- The field `depositId`; a nil message is not written. -/
def depositIdField (number : Nat) : Option DepositIdentifier → Wire
  | none => emptyWire
  | some id =>
      ⟨[.len number (encodeAll (depositIdentifierWire id).fields)],
        (depositIdentifierWire id).text⟩

def HashProposalData.wire (d : HashProposalData) : Wire :=
  depositIdField 1 d.depositId ++ bytesField 2 d.sigData

def ZanoProposalData.wire (d : ZanoProposalData) : Wire :=
  depositIdField 1 d.depositId ++ repeatedStrings 2 d.outputsAddresses ++
    stringField 3 d.unsignedTx ++ stringField 4 d.finalizedTx ++ stringField 5 d.txSecretKey ++
    stringField 6 d.txId ++ bytesField 7 d.sigData

def BitcoinProposalData.wire (d : BitcoinProposalData) : Wire :=
  depositIdField 1 d.depositId ++ bytesField 2 d.serializedTx ++ int64Field 3 d.feeRate ++
    repeatedBytes 4 d.sigData

def BitcoinResharingProposalData.wire (d : BitcoinResharingProposalData) : Wire :=
  bytesField 1 d.serializedTx ++ repeatedBytes 2 d.sigData

def ZanoResharingProposalData.wire (d : ZanoResharingProposalData) : Wire :=
  stringField 1 d.assetId ++ stringField 2 d.ownerEthPubKey ++
    repeatedStrings 3 d.outputsAddresses ++ stringField 4 d.unsignedTx ++
    stringField 5 d.finalizedTx ++ stringField 6 d.txSecretKey ++ stringField 7 d.txId ++
    bytesField 8 d.sigData

def SignStartData.wire (d : SignStartData) : Wire := repeatedStrings 1 d.parties

def SignatureData.wire (d : SignatureData) : Wire :=
  bytesField 1 d.signature ++ bytesField 2 d.signatureRecovery ++ bytesField 3 d.r ++
    bytesField 4 d.s ++ bytesField 5 d.m

/-! ## Hash strings -/

/-- A value of one of the broadcasts.  Nil messages inside the Go wrappers are `none`. -/
inductive Payload where
  | evm (proposalData : Option HashProposalData)
  | ton (proposalData : Option HashProposalData)
  | solana (proposalData : Option HashProposalData)
  | zano (proposalData : Option ZanoProposalData)
  | utxo (proposalData : Option BitcoinProposalData)
  | utxoResharing (proposalData : Option BitcoinResharingProposalData)
  | zanoResharing (proposalData : Option ZanoResharingProposalData)
  | signStart (data : Option SignStartData)
  | signatures (data : List (Option SignatureData))
  deriving DecidableEq, Repr

inductive Channel where
  | proposal
  | signStart
  | signatureDistribution
  deriving DecidableEq, Repr

def Payload.channel : Payload → Channel
  | .signStart _ => .signStart
  | .signatures _ => .signatureDistribution
  | _ => .proposal

/-- What `HashString` hands to the marshaller; `none` where it returns early.
`Signatures.HashString` concatenates the bytes of its elements and skips nil ones. -/
def Payload.wire : Payload → Option Wire
  | .evm d | .ton d | .solana d => d.map HashProposalData.wire
  | .zano d => d.map ZanoProposalData.wire
  | .utxo d => d.map BitcoinProposalData.wire
  | .utxoResharing d => d.map BitcoinResharingProposalData.wire
  | .zanoResharing d => d.map ZanoResharingProposalData.wire
  | .signStart d => d.map SignStartData.wire
  | .signatures [] => none
  | .signatures (first :: rest) =>
      some ((first :: rest).foldr
        (fun sig acc => (sig.map SignatureData.wire).getD emptyWire ++ acc) emptyWire)

def Payload.fields (payload : Payload) : Option (List Field) :=
  payload.wire.bind fun w => if w.text.all validUtf8 then some w.fields else none

def Payload.hashString (c : Crypto) (payload : Payload) : GoString :=
  match payload.fields with
  | none => []
  | some fields => formatHex (c.sha256 (encodeAll fields))

/-- `HashString` of the payloads with the given SHA-256. -/
abbrev payloadHashable (c : Crypto) : HasHashString Payload := ⟨Payload.hashString c⟩

def signHash (c : Crypto) (m : RoundMessage Payload) : Bytes :=
  @RoundMessage.signHash Payload (payloadHashable c) c m

theorem hashString_eq_iff {c : Crypto} (free : c.CollisionFree) (digest : ∀ x, c.sha256 x ≠ [])
    (v w : Payload) : v.hashString c = w.hashString c ↔ v.fields = w.fields := by
  simp only [Payload.hashString]
  cases hv : v.fields with
  | none =>
      cases hw : w.fields with
      | none => simp
      | some gs =>
          have hne := mt (formatHex_eq_nil_iff _).mp (digest (encodeAll gs))
          simp [Ne.symm hne]
  | some fs =>
      cases hw : w.fields with
      | none =>
          have hne := mt (formatHex_eq_nil_iff _).mp (digest (encodeAll fs))
          simp [hne]
      | some gs =>
          constructor
          · intro heq
            rw [encodeAll_injective (free (formatHex_injective heq))]
          · intro heq
            rw [Option.some.inj heq]

/-- Two messages have one digest exactly when they agree on the session id, the signatures, on
whether the value is nil, and on the populated wire fields of the value: their numbers, wire
types and contents. -/
theorem digest_eq_iff {c : Crypto} (free : c.CollisionFree) (digest : ∀ x, c.sha256 x ≠ [])
    (m m' : RoundMessage Payload) :
    signHash c m = signHash c m' ↔
      m.sessionId = m'.sessionId ∧ m.signatures = m'.signatures ∧
        (m.value = none ↔ m'.value = none) ∧
        m.value.bind Payload.fields = m'.value.bind Payload.fields := by
  let _ := payloadHashable c
  constructor
  · intro heq
    obtain ⟨hsession, hvalue, hsigs⟩ := signHash_injective free heq
    refine ⟨hsession, hsigs, ?_⟩
    cases hv : m.value with
    | none =>
        cases hw : m'.value with
        | none => simp
        | some w => simp [hv, hw] at hvalue
    | some v =>
        cases hw : m'.value with
        | none => simp [hv, hw] at hvalue
        | some w =>
            rw [hv, hw, Option.map_some, Option.map_some] at hvalue
            have hfields := (hashString_eq_iff free digest v w).mp (Option.some.inj hvalue)
            exact ⟨by simp, hfields⟩
  · rintro ⟨hsession, hsigs, hnil, hfields⟩
    have hitems : m.signItems = m'.signItems := by
      simp only [RoundMessage.signItems, hsession, hsigs]
      cases hv : m.value with
      | none => rw [hnil.mp hv]
      | some v =>
          cases hw : m'.value with
          | none => simp [hnil.mpr hw] at hv
          | some w =>
              rw [hv, hw] at hfields
              have hhash : hashString v = hashString w :=
                (hashString_eq_iff free digest v w).mpr hfields
              simp only [Option.toList_some, List.map_cons, List.map_nil, hhash]
    simp only [signHash, RoundMessage.signHash, RoundMessage.signPreimage, hitems]

/-- A SHA-256 stand-in without collisions. -/
def taggedCrypto : Crypto where
  sha256 := fun bytes => 0 :: bytes
  sigToAddress := fun _ _ => none
  decodeAddress := some

theorem taggedCrypto_collisionFree : taggedCrypto.CollisionFree := by
  intro a b h
  exact (List.cons.inj h).2

/-- A sign-start message that names the party x and a signature distribution of the signature
x are the same bytes. -/
theorem digest_collision :
    Payload.channel (.signStart (some ⟨[str "x"]⟩)) ≠
        Payload.channel (.signatures [some ⟨str "x", [], [], [], []⟩]) ∧
      signHash taggedCrypto ⟨some (.signStart (some ⟨[str "x"]⟩)), str "session", 0, []⟩ =
        signHash taggedCrypto
          ⟨some (.signatures [some ⟨str "x", [], [], [], []⟩]), str "session", 0, []⟩ := by
  decide

theorem digest_eq_iff_signStart_evm :
    signHash taggedCrypto ⟨some (.signStart (some ⟨[str "x"]⟩)), str "session", 0, []⟩ ≠
      signHash taggedCrypto ⟨some (.evm (some ⟨none, str "x"⟩)), str "session", 0, []⟩ := by
  rw [Ne, digest_eq_iff taggedCrypto_collisionFree (fun _ => List.cons_ne_nil _ _)]
  decide

end TssSvc.Session
