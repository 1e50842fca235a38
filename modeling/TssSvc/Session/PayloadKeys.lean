import TssSvc.Bridge.Totality
import TssSvc.Session.Payload

/-!
# The keys of the values

`ReliableBroadcaster.values` is keyed by `HashString`, with the empty string for a nil value, and
the broadcast succeeds when there is one key.  The deterministic bytes of a proposal or of a
sign-start message give back all its fields.  Those of `tss.Signatures` are its elements one after
the other, without their number or their ends, and every value that cannot be hashed has the key
of nil.
-/

set_option autoImplicit false

namespace TssSvc.Session

open TssSvc.Proto
open TssSvc.Broadcast
open TssSvc.Db
open TssSvc.Bridge (IsInt64)

/-! ## Fields by their numbers -/

section Parts

@[simp] theorem Wire.fields_append (a b : Wire) : (a ++ b).fields = a.fields ++ b.fields := rfl

variable (number other : Nat)

@[simp] theorem contents_bytesField (value : Bytes) :
    contents number (bytesField other value).fields =
      if other = number ∧ value ≠ [] then [value] else [] := by
  by_cases h : value = [] <;> simp [bytesField, h, contents]

@[simp] theorem contents_stringField (value : GoString) :
    contents number (stringField other value).fields =
      if other = number ∧ value ≠ [] then [value] else [] := by
  by_cases h : value = [] <;> simp [stringField, h, contents]

@[simp] theorem contents_int64Field (value : Int) :
    contents number (int64Field other value).fields = [] := by
  by_cases h : value = 0 <;> simp [int64Field, h, contents]

@[simp] theorem contents_repeatedBytes (values : List Bytes) :
    contents number (repeatedBytes other values).fields = if other = number then values else [] :=
  contents_map_len number other values

@[simp] theorem contents_repeatedStrings (values : List GoString) :
    contents number (repeatedStrings other values).fields =
      if other = number then values else [] :=
  contents_map_len number other values

@[simp] theorem contents_depositIdField (id : Option DepositIdentifier) :
    contents number (depositIdField other id).fields =
      if other = number then id.toList.map (fun id => encodeAll (depositIdentifierWire id).fields)
      else [] := by
  cases id <;> simp [depositIdField, emptyWire, contents]

@[simp] theorem varints_bytesField (value : Bytes) :
    varints number (bytesField other value).fields = [] := by
  by_cases h : value = [] <;> simp [bytesField, h, varints]

@[simp] theorem varints_stringField (value : GoString) :
    varints number (stringField other value).fields = [] := by
  by_cases h : value = [] <;> simp [stringField, h, varints]

@[simp] theorem varints_int64Field (value : Int) :
    varints number (int64Field other value).fields =
      if other = number ∧ value ≠ 0 then [(value % 2 ^ 64).toNat] else [] := by
  by_cases h : value = 0 <;> simp [int64Field, h, varints]

@[simp] theorem varints_repeatedBytes (values : List Bytes) :
    varints number (repeatedBytes other values).fields = [] :=
  varints_map_len number other values

@[simp] theorem varints_depositIdField (id : Option DepositIdentifier) :
    varints number (depositIdField other id).fields = [] := by
  cases id <;> simp [depositIdField, emptyWire, varints]

end Parts

/-- A field that is left out when it is empty. -/
@[simp] theorem written_eq_iff {v w : Bytes} :
    (if v = [] then [] else [v]) = (if w = [] then [] else [w]) ↔ v = w := by
  by_cases hv : v = [] <;> by_cases hw : w = [] <;> simp [hv, hw]

theorem int64_eq_of_written {v w : Int} (hv : IsInt64 v) (hw : IsInt64 w)
    (h : (if v = 0 then [] else [(v % 2 ^ 64).toNat]) =
      if w = 0 then [] else [(w % 2 ^ 64).toNat]) : v = w := by
  simp only [IsInt64, Bridge.maxInt64] at hv hw
  by_cases hv0 : v = 0 <;> by_cases hw0 : w = 0
  · rw [hv0, hw0]
  · simp [hv0, hw0] at h
  · simp [hv0, hw0] at h
  · simp only [hv0, hw0, if_false, List.cons.injEq, and_true] at h
    omega

/-! ## The bytes give back the fields -/

section Injective

theorem depositIdentifierWire_injOn {id id' : DepositIdentifier} (typed : IsInt64 id.txNonce)
    (typed' : IsInt64 id'.txNonce)
    (h : (depositIdentifierWire id).fields = (depositIdentifierWire id').fields) : id = id' := by
  have read := fun number => congrArg (contents number) h
  have nonce := congrArg (varints 2) h
  obtain ⟨txHash, txNonce, chainId⟩ := id
  obtain ⟨txHash', txNonce', chainId'⟩ := id'
  rw [DepositIdentifier.mk.injEq]
  refine ⟨?_, int64_eq_of_written typed typed' ?_, ?_⟩
  · simpa [depositIdentifierWire] using read 1
  · simpa [depositIdentifierWire] using nonce
  · simpa [depositIdentifierWire] using read 3

def IdTyped (id : Option DepositIdentifier) : Prop := ∀ i ∈ id, IsInt64 i.txNonce

theorem depositId_eq_of_written {id id' : Option DepositIdentifier} (typed : IdTyped id)
    (typed' : IdTyped id')
    (h : id.toList.map (fun id => encodeAll (depositIdentifierWire id).fields) =
      id'.toList.map fun id => encodeAll (depositIdentifierWire id).fields) : id = id' := by
  cases id with
  | none =>
      cases id' with
      | none => rfl
      | some i' => simp at h
  | some i =>
      cases id' with
      | none => simp at h
      | some i' =>
          simp only [Option.toList_some, List.map_cons, List.map_nil, List.cons.injEq,
            and_true] at h
          rw [depositIdentifierWire_injOn (typed i rfl) (typed' i' rfl) (encodeAll_injective h)]

theorem HashProposalData.wire_injOn {d d' : HashProposalData} (typed : IdTyped d.depositId)
    (typed' : IdTyped d'.depositId) (h : d.wire.fields = d'.wire.fields) : d = d' := by
  have read := fun number => congrArg (contents number) h
  obtain ⟨depositId, sigData⟩ := d
  obtain ⟨depositId', sigData'⟩ := d'
  rw [HashProposalData.mk.injEq]
  refine ⟨depositId_eq_of_written typed typed' ?_, ?_⟩
  · simpa [HashProposalData.wire] using read 1
  · simpa [HashProposalData.wire] using read 2

theorem ZanoProposalData.wire_injOn {d d' : ZanoProposalData} (typed : IdTyped d.depositId)
    (typed' : IdTyped d'.depositId) (h : d.wire.fields = d'.wire.fields) : d = d' := by
  have read := fun number => congrArg (contents number) h
  obtain ⟨depositId, outputs, unsigned, finalized, secret, txId, sigData⟩ := d
  obtain ⟨depositId', outputs', unsigned', finalized', secret', txId', sigData'⟩ := d'
  rw [ZanoProposalData.mk.injEq]
  refine ⟨depositId_eq_of_written typed typed' ?_, ?_, ?_, ?_, ?_, ?_, ?_⟩
  · simpa [ZanoProposalData.wire] using read 1
  · simpa [ZanoProposalData.wire] using read 2
  · simpa [ZanoProposalData.wire] using read 3
  · simpa [ZanoProposalData.wire] using read 4
  · simpa [ZanoProposalData.wire] using read 5
  · simpa [ZanoProposalData.wire] using read 6
  · simpa [ZanoProposalData.wire] using read 7

theorem BitcoinProposalData.wire_injOn {d d' : BitcoinProposalData} (typed : IdTyped d.depositId)
    (typed' : IdTyped d'.depositId) (fee : IsInt64 d.feeRate) (fee' : IsInt64 d'.feeRate)
    (h : d.wire.fields = d'.wire.fields) : d = d' := by
  have read := fun number => congrArg (contents number) h
  have rate := congrArg (varints 3) h
  obtain ⟨depositId, serializedTx, feeRate, sigData⟩ := d
  obtain ⟨depositId', serializedTx', feeRate', sigData'⟩ := d'
  rw [BitcoinProposalData.mk.injEq]
  refine ⟨depositId_eq_of_written typed typed' ?_, ?_, int64_eq_of_written fee fee' ?_, ?_⟩
  · simpa [BitcoinProposalData.wire] using read 1
  · simpa [BitcoinProposalData.wire] using read 2
  · simpa [BitcoinProposalData.wire] using rate
  · simpa [BitcoinProposalData.wire] using read 4

theorem BitcoinResharingProposalData.wire_injective {d d' : BitcoinResharingProposalData}
    (h : d.wire.fields = d'.wire.fields) : d = d' := by
  have read := fun number => congrArg (contents number) h
  obtain ⟨serializedTx, sigData⟩ := d
  obtain ⟨serializedTx', sigData'⟩ := d'
  rw [BitcoinResharingProposalData.mk.injEq]
  refine ⟨?_, ?_⟩
  · simpa [BitcoinResharingProposalData.wire] using read 1
  · simpa [BitcoinResharingProposalData.wire] using read 2

theorem ZanoResharingProposalData.wire_injective {d d' : ZanoResharingProposalData}
    (h : d.wire.fields = d'.wire.fields) : d = d' := by
  have read := fun number => congrArg (contents number) h
  obtain ⟨asset, owner, outputs, unsigned, finalized, secret, txId, sigData⟩ := d
  obtain ⟨asset', owner', outputs', unsigned', finalized', secret', txId', sigData'⟩ := d'
  rw [ZanoResharingProposalData.mk.injEq]
  refine ⟨?_, ?_, ?_, ?_, ?_, ?_, ?_, ?_⟩
  · simpa [ZanoResharingProposalData.wire] using read 1
  · simpa [ZanoResharingProposalData.wire] using read 2
  · simpa [ZanoResharingProposalData.wire] using read 3
  · simpa [ZanoResharingProposalData.wire] using read 4
  · simpa [ZanoResharingProposalData.wire] using read 5
  · simpa [ZanoResharingProposalData.wire] using read 6
  · simpa [ZanoResharingProposalData.wire] using read 7
  · simpa [ZanoResharingProposalData.wire] using read 8

theorem SignStartData.wire_injective {d d' : SignStartData}
    (h : d.wire.fields = d'.wire.fields) : d = d' := by
  obtain ⟨parties⟩ := d
  obtain ⟨parties'⟩ := d'
  rw [SignStartData.mk.injEq]
  simpa [SignStartData.wire] using congrArg (contents 1) h

theorem SignatureData.wire_injective {d d' : SignatureData}
    (h : d.wire.fields = d'.wire.fields) : d = d' := by
  have read := fun number => congrArg (contents number) h
  obtain ⟨signature, recovery, r, s, m⟩ := d
  obtain ⟨signature', recovery', r', s', m'⟩ := d'
  rw [SignatureData.mk.injEq]
  refine ⟨?_, ?_, ?_, ?_, ?_⟩
  · simpa [SignatureData.wire] using read 1
  · simpa [SignatureData.wire] using read 2
  · simpa [SignatureData.wire] using read 3
  · simpa [SignatureData.wire] using read 4
  · simpa [SignatureData.wire] using read 5

end Injective

/-! ## Signatures -/

section Signatures

def signatureFields : Option SignatureData → List Field
  | none => []
  | some d => d.wire.fields

theorem fields_signatures {data : List (Option SignatureData)} (h : data ≠ []) :
    (Payload.signatures data).fields = some (data.flatMap signatureFields) := by
  have written : ∀ rest : List (Option SignatureData), rest.foldr
      (fun sig acc => (sig.map SignatureData.wire).getD emptyWire ++ acc) emptyWire =
        ⟨rest.flatMap signatureFields, []⟩ := by
    intro rest
    induction rest with
    | nil => rfl
    | cons sig rest ih =>
        rw [List.foldr_cons, ih]
        cases sig <;> rfl
  cases data with
  | nil => exact absurd rfl h
  | cons first rest =>
      simp only [Payload.fields, Payload.wire, written, Option.bind_some, List.all_nil, if_true]

/-- The element is there and its field `signature` is not empty. -/
def Signed : Option SignatureData → Prop
  | none => False
  | some d => d.signature ≠ []

theorem elements_of_signed {data : List (Option SignatureData)}
    (signed : ∀ sig ∈ data, Signed sig) :
    ∃ ds : List SignatureData, data = ds.map some ∧ ∀ d ∈ ds, d.signature ≠ [] := by
  induction data with
  | nil => exact ⟨[], rfl, fun _ h => by cases h⟩
  | cons sig data ih =>
      obtain ⟨ds, rfl, hds⟩ := ih fun sig h => signed sig (List.mem_cons_of_mem _ h)
      have first := signed sig List.mem_cons_self
      cases sig with
      | none => exact first.elim
      | some d => exact ⟨d :: ds, rfl, List.forall_mem_cons.mpr ⟨first, hds⟩⟩

/-- The field `signature` is the first of an element. -/
def opensElement : Field → Bool
  | .len 1 _ => true
  | _ => false

def SignatureData.rest (d : SignatureData) : List Field :=
  (bytesField 2 d.signatureRecovery ++ bytesField 3 d.r ++ bytesField 4 d.s ++
    bytesField 5 d.m).fields

theorem fields_wire_of_signed {d : SignatureData} (signed : d.signature ≠ []) :
    d.wire.fields = .len 1 d.signature :: d.rest := by
  simp [SignatureData.wire, SignatureData.rest, bytesField, signed]

theorem opensElement_rest {d : SignatureData} {field : Field} (h : field ∈ d.rest) :
    opensElement field = false := by
  have later : ∀ number value, number ≠ 1 → field ∈ (bytesField number value).fields →
      opensElement field = false := by
    intro number value hnumber hfield
    simp only [bytesField] at hfield
    split at hfield
    · cases hfield
    · rw [List.mem_singleton.mp hfield]
      simp [opensElement, hnumber]
  simp only [SignatureData.rest, Wire.fields_append, List.mem_append] at h
  rcases h with ((h | h) | h) | h
  · exact later 2 _ (by decide) h
  · exact later 3 _ (by decide) h
  · exact later 4 _ (by decide) h
  · exact later 5 _ (by decide) h

/-- Up to the next element. -/
theorem takeWhile_elements {ds : List SignatureData} (signed : ∀ d ∈ ds, d.signature ≠ [])
    (d : SignatureData) :
    (d.rest ++ ds.flatMap fun d => d.wire.fields).takeWhile (fun field => !opensElement field) =
      d.rest := by
  rw [List.takeWhile_append_of_pos (fun field h => by simp [opensElement_rest h])]
  cases ds with
  | nil => simp
  | cons e ds =>
      rw [List.flatMap_cons, fields_wire_of_signed (signed e List.mem_cons_self)]
      simp [opensElement]

/-- The induction is on the first list; the fields up to the next `signature` are one element. -/
theorem flatMap_fields_injOn : ∀ {ds es : List SignatureData},
    (∀ d ∈ ds, d.signature ≠ []) → (∀ e ∈ es, e.signature ≠ []) →
      (ds.flatMap fun d => d.wire.fields) = (es.flatMap fun d => d.wire.fields) → ds = es := by
  intro ds
  induction ds with
  | nil =>
      intro es _ signed' h
      cases es with
      | nil => rfl
      | cons e es =>
          rw [List.flatMap_cons, fields_wire_of_signed (signed' e List.mem_cons_self)] at h
          cases h
  | cons d ds ih =>
      intro es signed signed' h
      obtain ⟨first, tail⟩ := List.forall_mem_cons.mp signed
      cases es with
      | nil =>
          rw [List.flatMap_cons, fields_wire_of_signed first] at h
          cases h
      | cons e es =>
          obtain ⟨first', tail'⟩ := List.forall_mem_cons.mp signed'
          have opened := fields_wire_of_signed first
          have opened' := fields_wire_of_signed first'
          rw [List.flatMap_cons, List.flatMap_cons, opened, opened'] at h
          obtain ⟨hsignature, hrest⟩ := List.cons.inj h
          have hfields : d.rest = e.rest := by
            rw [← takeWhile_elements tail d, ← takeWhile_elements tail' e]
            exact congrArg _ hrest
          have hd : d = e := by
            apply SignatureData.wire_injective
            rw [opened, opened', hsignature, hfields]
          rw [hfields] at hrest
          rw [hd, ih tail tail' (List.append_cancel_left hrest)]

theorem flatMap_signatureFields_injOn {data data' : List (Option SignatureData)}
    (signed : ∀ sig ∈ data, Signed sig) (signed' : ∀ sig ∈ data', Signed sig)
    (h : data.flatMap signatureFields = data'.flatMap signatureFields) : data = data' := by
  obtain ⟨ds, rfl, hds⟩ := elements_of_signed signed
  obtain ⟨es, rfl, hes⟩ := elements_of_signed signed'
  rw [List.flatMap_map, List.flatMap_map] at h
  rw [flatMap_fields_injOn hds hes h]

end Signatures

/-! ## Keys -/

inductive Kind where
  | evm
  | ton
  | solana
  | zano
  | utxo
  | utxoResharing
  | zanoResharing
  | signStart
  | signatures
  deriving DecidableEq, Repr

def Payload.kind : Payload → Kind
  | .evm _ => .evm
  | .ton _ => .ton
  | .solana _ => .solana
  | .zano _ => .zano
  | .utxo _ => .utxo
  | .utxoResharing _ => .utxoResharing
  | .zanoResharing _ => .zanoResharing
  | .signStart _ => .signStart
  | .signatures _ => .signatures

/-- The wrapper without its message. -/
def Kind.blank : Kind → Payload
  | .evm => .evm none
  | .ton => .ton none
  | .solana => .solana none
  | .zano => .zano none
  | .utxo => .utxo none
  | .utxoResharing => .utxoResharing none
  | .zanoResharing => .zanoResharing none
  | .signStart => .signStart none
  | .signatures => .signatures []

/-- The nonce and the fee rate are of type `int64`. -/
def Payload.Typed : Payload → Prop
  | .evm d | .ton d | .solana d => ∀ x ∈ d, IdTyped x.depositId
  | .zano d => ∀ x ∈ d, IdTyped x.depositId
  | .utxo d => ∀ x ∈ d, IdTyped x.depositId ∧ IsInt64 x.feeRate
  | .utxoResharing _ | .zanoResharing _ | .signStart _ | .signatures _ => True

/-- What a broadcaster of one payload type can hold: nil, or a value of that type. -/
def Held (kind : Kind) (v : Option Payload) : Prop := ∀ p ∈ v, p.kind = kind ∧ p.Typed

/-- What the receiving code reads: everything but the field `m` of a signature. -/
def Payload.read : Payload → Payload
  | .signatures data => .signatures (data.map (Option.map fun d => { d with m := [] }))
  | p => p

/-- The message is there and all its strings are valid UTF-8. -/
def Payload.Marshals (p : Payload) : Prop :=
  ∃ w, p.wire = some w ∧ w.text.all validUtf8 = true

/-- A proposal or a sign-start message that marshals. -/
def Identifying (v : Option Payload) : Prop :=
  ∃ p, v = some p ∧ p.kind ≠ .signatures ∧ p.Marshals

section Keys

variable {c : Crypto} {p p' : Payload} {fields : List Field}

theorem exists_fields_iff : (∃ fields, p.fields = some fields) ↔ p.Marshals := by
  unfold Payload.fields Payload.Marshals
  cases p.wire with
  | none => simp
  | some w => simp

theorem fields_eq_none_iff : p.fields = none ↔ ¬ p.Marshals := by
  rw [← exists_fields_iff]
  cases p.fields <;> simp

theorem wire_of_fields (h : p.fields = some fields) : ∃ w, p.wire = some w ∧ w.fields = fields := by
  obtain ⟨w, hw, hfields⟩ := Option.bind_eq_some_iff.mp h
  obtain ⟨-, hfields⟩ := Option.ite_none_right_eq_some.mp hfields
  exact ⟨w, hw, Option.some.inj hfields⟩

/-- Two wrappers of messages whose fields are the same. -/
theorem message_eq {α : Type} {wire : α → Wire} {d d' : Option α}
    (inj : ∀ x ∈ d, ∀ x' ∈ d', (wire x).fields = (wire x').fields → x = x')
    (h : ∃ w, d.map wire = some w ∧ w.fields = fields)
    (h' : ∃ w, d'.map wire = some w ∧ w.fields = fields) : d = d' := by
  obtain ⟨w, hw, hfields⟩ := h
  obtain ⟨w', hw', hfields'⟩ := h'
  obtain ⟨x, rfl, rfl⟩ := Option.map_eq_some_iff.mp hw
  obtain ⟨x', rfl, rfl⟩ := Option.map_eq_some_iff.mp hw'
  rw [inj x rfl x' rfl (hfields.trans hfields'.symm)]

theorem payload_eq_of_fields (same : p.kind = p'.kind) (proposal : p.kind ≠ .signatures)
    (typed : p.Typed) (typed' : p'.Typed) (h : p.fields = some fields)
    (h' : p'.fields = some fields) : p = p' := by
  have hw := wire_of_fields h
  have hw' := wire_of_fields h'
  cases p with
  | evm d =>
      cases p' with
      | evm d' => rw [message_eq
          (fun x hx x' hx' => HashProposalData.wire_injOn (typed x hx) (typed' x' hx')) hw hw']
      | _ => cases same
  | ton d =>
      cases p' with
      | ton d' => rw [message_eq
          (fun x hx x' hx' => HashProposalData.wire_injOn (typed x hx) (typed' x' hx')) hw hw']
      | _ => cases same
  | solana d =>
      cases p' with
      | solana d' => rw [message_eq
          (fun x hx x' hx' => HashProposalData.wire_injOn (typed x hx) (typed' x' hx')) hw hw']
      | _ => cases same
  | zano d =>
      cases p' with
      | zano d' => rw [message_eq
          (fun x hx x' hx' => ZanoProposalData.wire_injOn (typed x hx) (typed' x' hx')) hw hw']
      | _ => cases same
  | utxo d =>
      cases p' with
      | utxo d' => rw [message_eq (fun x hx x' hx' => BitcoinProposalData.wire_injOn
          (typed x hx).1 (typed' x' hx').1 (typed x hx).2 (typed' x' hx').2) hw hw']
      | _ => cases same
  | utxoResharing d =>
      cases p' with
      | utxoResharing d' => rw [message_eq
          (fun _ _ _ _ => BitcoinResharingProposalData.wire_injective) hw hw']
      | _ => cases same
  | zanoResharing d =>
      cases p' with
      | zanoResharing d' => rw [message_eq
          (fun _ _ _ _ => ZanoResharingProposalData.wire_injective) hw hw']
      | _ => cases same
  | signStart d =>
      cases p' with
      | signStart d' => rw [message_eq (fun _ _ _ _ => SignStartData.wire_injective) hw hw']
      | _ => cases same
  | signatures data => exact absurd rfl proposal

/-- The key of a value in the broadcast of the payloads. -/
def payloadKey (c : Crypto) (v : Option Payload) : GoString := @valueKey _ (payloadHashable c) v

theorem payloadKey_eq_iff (free : c.CollisionFree) (digest : ∀ x, c.sha256 x ≠ [])
    (v w : Option Payload) :
    payloadKey c v = payloadKey c w ↔ v.bind Payload.fields = w.bind Payload.fields := by
  -- nil has the key and the fields of a list without signatures
  have hashed : ∀ u : Option Payload, payloadKey c u =
      (u.getD (.signatures [])).hashString c ∧
        u.bind Payload.fields = (u.getD (.signatures [])).fields := by
    intro u
    cases u <;> exact ⟨rfl, rfl⟩
  rw [(hashed v).1, (hashed w).1, (hashed v).2, (hashed w).2]
  exact hashString_eq_iff free digest _ _

theorem blank_held (kind : Kind) : Held kind (some kind.blank) := by
  rintro p ⟨⟩
  cases kind <;> simp [Kind.blank, Payload.kind, Payload.Typed]

theorem blank_fields (kind : Kind) : kind.blank.fields = none := by
  cases kind <;> rfl

def emptySignature : SignatureData := ⟨[], [], [], [], []⟩

/-- An empty element more is another value with the same fields. -/
theorem fields_signatures_append_empty {data : List (Option SignatureData)} (h : data ≠ []) :
    (Payload.signatures (data ++ [some emptySignature])).fields =
      (Payload.signatures data).fields := by
  have nothing : signatureFields (some emptySignature) = [] := rfl
  rw [fields_signatures h, fields_signatures (by simp), List.flatMap_append]
  simp [nothing]

theorem identifying_of_identified (free : c.CollisionFree) (digest : ∀ x, c.sha256 x ≠ [])
    {kind : Kind} {v : Option Payload} (held : Held kind v)
    (identified : ∀ w, Held kind w → payloadKey c v = payloadKey c w →
      v.map Payload.read = w.map Payload.read) : Identifying v := by
  simp only [payloadKey_eq_iff free digest] at identified
  cases v with
  | none => simpa using identified (some kind.blank) (blank_held kind) (blank_fields kind).symm
  | some p =>
      by_cases marshals : p.Marshals
      · refine ⟨p, rfl, fun hkind => ?_, marshals⟩
        cases p with
        | signatures data =>
            have hdata : data ≠ [] := by
              rintro rfl
              obtain ⟨w, hw, -⟩ := marshals
              cases hw
            have longer := identified (some (.signatures (data ++ [some emptySignature])))
              (by
                rintro q ⟨⟩
                exact ⟨(held _ rfl).1, trivial⟩)
              (fields_signatures_append_empty hdata).symm
            simp only [Option.map_some, Payload.read, Option.some.injEq,
              Payload.signatures.injEq] at longer
            simpa using congrArg List.length longer
        | _ => cases hkind
      · have hnil := identified none (by rintro q ⟨⟩) (fields_eq_none_iff.mpr marshals)
        cases hnil

theorem identified_of_identifying (free : c.CollisionFree) (digest : ∀ x, c.sha256 x ≠ [])
    {kind : Kind} {v w : Option Payload} (held : Held kind v) (held' : Held kind w)
    (identifying : Identifying v) (same : payloadKey c v = payloadKey c w) : v = w := by
  obtain ⟨p, rfl, proposal, marshals⟩ := identifying
  obtain ⟨fields, hfields⟩ := exists_fields_iff.mpr marshals
  rw [payloadKey_eq_iff free digest, Option.bind_some, hfields] at same
  obtain ⟨q, rfl, hq⟩ := Option.bind_eq_some_iff.mp same.symm
  obtain ⟨hkind, typed⟩ := held p rfl
  obtain ⟨hkind', typed'⟩ := held' q rfl
  rw [payload_eq_of_fields (hkind.trans hkind'.symm) proposal typed typed' hfields hq]

/-- The key of a value identifies it, among all that its broadcaster can hold, exactly when it is
a proposal or a sign-start message that marshals.  Lists of signatures are identified among those
in which every element has a signature. -/
theorem key_identifies_iff (free : c.CollisionFree) (digest : ∀ x, c.sha256 x ≠ []) :
    (∀ (kind : Kind) (v : Option Payload), Held kind v →
      ((∀ w, Held kind w → payloadKey c v = payloadKey c w →
        v.map Payload.read = w.map Payload.read) ↔ Identifying v)) ∧
      ∀ data data' : List (Option SignatureData), (∀ sig ∈ data, Signed sig) →
        (∀ sig ∈ data', Signed sig) →
          payloadKey c (some (.signatures data)) = payloadKey c (some (.signatures data')) →
            data = data' := by
  refine ⟨fun kind v held => ⟨identifying_of_identified free digest held, ?_⟩, ?_⟩
  · intro identifying w held' same
    rw [identified_of_identifying free digest held held' identifying same]
  · intro data data' signed signed' same
    rw [payloadKey_eq_iff free digest, Option.bind_some, Option.bind_some] at same
    by_cases hdata : data = []
    · by_cases hdata' : data' = []
      · rw [hdata, hdata']
      · rw [hdata, fields_signatures hdata'] at same
        cases same
    · by_cases hdata' : data' = []
      · rw [hdata', fields_signatures hdata] at same
        cases same
      · rw [fields_signatures hdata, fields_signatures hdata'] at same
        exact flatMap_signatureFields_injOn signed signed' (Option.some.inj same)

end Keys

def evmProposal : Payload := .evm (some ⟨some ⟨str "0xab", 1, str "80002"⟩, [1, 2]⟩)

theorem evmProposal_held : Held .evm (some evmProposal) := by
  rintro p ⟨⟩
  refine ⟨rfl, ?_⟩
  rintro d ⟨⟩ id ⟨⟩
  exact (by decide : IsInt64 1)

theorem key_identifies_evmProposal :
    Identifying (some evmProposal) ∧
      ∀ w, Held .evm w → payloadKey taggedCrypto (some evmProposal) = payloadKey taggedCrypto w →
        (some evmProposal).map Payload.read = w.map Payload.read := by
  have identifying : Identifying (some evmProposal) :=
    ⟨evmProposal, rfl, by decide, _, rfl, by decide⟩
  refine ⟨identifying, ?_⟩
  exact ((key_identifies_iff taggedCrypto_collisionFree fun _ => List.cons_ne_nil _ _).1 .evm
    (some evmProposal) evmProposal_held).mpr identifying

/-- Under one key: nil, a wrapper without its message and a message that does not marshal; one
signature and its two halves; and a list with an empty element more. -/
theorem key_collides :
    (payloadKey taggedCrypto none = payloadKey taggedCrypto (some (.evm none)) ∧
      (none : Option Payload).map Payload.read ≠ (some (.evm none)).map Payload.read) ∧
    (payloadKey taggedCrypto none =
        payloadKey taggedCrypto (some (.evm (some ⟨some ⟨[0xFF], 0, []⟩, []⟩))) ∧
      (none : Option Payload).map Payload.read ≠
        (some (.evm (some ⟨some ⟨[0xFF], 0, []⟩, []⟩))).map Payload.read) ∧
    (payloadKey taggedCrypto (some (.signatures [some ⟨[1], [], [2], [], []⟩])) =
        payloadKey taggedCrypto
          (some (.signatures [some ⟨[1], [], [], [], []⟩, some ⟨[], [], [2], [], []⟩])) ∧
      (some (.signatures [some ⟨[1], [], [2], [], []⟩])).map Payload.read ≠
        (some (.signatures [some ⟨[1], [], [], [], []⟩, some ⟨[], [], [2], [], []⟩])).map
          Payload.read) ∧
    payloadKey taggedCrypto (some (.signatures [some ⟨[1], [], [2], [], []⟩])) =
        payloadKey taggedCrypto
          (some (.signatures [some emptySignature, some ⟨[1], [], [2], [], []⟩])) ∧
      (some (.signatures [some ⟨[1], [], [2], [], []⟩])).map Payload.read ≠
        (some (.signatures [some emptySignature, some ⟨[1], [], [2], [], []⟩])).map
          Payload.read := by
  decide

end TssSvc.Session
