import TssSvc.Bridge.Encoding
import TssSvc.Bridge.ZanoOwnership

/-!
# The asset operations in the extra of a Zano transaction

`pkg/zano/types/tx_details.go`: the extra entries of a decoded transaction and the search of
`GetAssetInfo`, which ends at the first asset descriptor.  `VerifyProposedData` of an ownership
transfer validates what the search returns, so it says nothing about a second operation.  The
decoders of `encoding/base64` and `encoding/json` are the fields of `JsonReader`.
-/

set_option autoImplicit false

namespace TssSvc.Bridge.Zano

open TssSvc.Session

def extraFieldAssetDescriptorBase : GoString := str "asset_descriptor_base"

def extraEntryAssetDescriptor : GoString := str "asset_descriptor"

/-- The dynamic type of `ExtraEntry.Value`. -/
inductive ExtraValue where
  | assetDescriptorBase (descriptor : AssetDescriptorBase)
  | other

structure ExtraEntry where
  type : GoString
  value : ExtraValue

/-- `V` are the values of decoded JSON; `rawItems` are the objects in `AGGREGATED.extra`. -/
structure JsonReader (V : Type) where
  decodeString : GoString → Except GoString Bytes
  rawItems : Bytes → Except GoString (List (List (GoString × V)))
  marshal : V → Except GoString Bytes
  unmarshalDescriptor : Bytes → Except GoString AssetDescriptorBase

def wrapText {α : Type} (message : String) (x : Except GoString α) : Except GoString α :=
  x.mapError fun text => str message ++ str ": " ++ text

@[simp] theorem wrapText_eq_ok {α : Type} {message : String} {x : Except GoString α} {a : α} :
    wrapText message x = .ok a ↔ x = .ok a := by
  cases x <;> simp [wrapText, Except.mapError]

namespace JsonReader

variable {V : Type} (j : JsonReader V)

def assetDescriptor (value : V) : Except GoString AssetDescriptorBase := do
  let rawJson ← wrapText "failed to marshal asset descriptor raw JSON" (j.marshal value)
  wrapText "failed to unmarshal asset descriptor" (j.unmarshalDescriptor rawJson)

/-- The loop of `TxExtra.UnmarshalJSON`. -/
def unmarshalJSON : List (List (GoString × V)) → List ExtraEntry → Except GoString (List ExtraEntry)
  | [], e => .ok e
  | item :: rest, e =>
      match item.lookup extraFieldAssetDescriptorBase with
      | none => unmarshalJSON rest e
      | some value => do
          let assetDescriptor ← j.assetDescriptor value
          unmarshalJSON rest
            (e ++ [⟨extraEntryAssetDescriptor, .assetDescriptorBase assetDescriptor⟩])

def txExtra (txInJson : GoString) : Except GoString (List ExtraEntry) := do
  let rawJsonTx ← wrapText "failed to decode base64 transaction" (j.decodeString txInJson)
  let rawItems ← wrapText "failed to unmarshal transaction" (j.rawItems rawJsonTx)
  wrapText "failed to unmarshal transaction" (j.unmarshalJSON rawItems [])

/-- The loop of `GetAssetInfo`. -/
def findAssetInfo : List ExtraEntry → Except GoString AssetDescriptorBase
  | [] => .error (str "asset info not found")
  | extra :: rest =>
      if extra.type = extraEntryAssetDescriptor then
        match extra.value with
        | .assetDescriptorBase assetDescriptor => .ok assetDescriptor
        | .other => .error (str "failed to cast asset descriptor")
      else findAssetInfo rest

def getAssetInfo (txInJson : GoString) : Except GoString AssetDescriptorBase := do
  let txExtra ← j.txExtra txInJson
  findAssetInfo txExtra

/-- `ops` are the asset descriptor operations in the extra of the transaction, in their order. -/
def Contains (txInJson : GoString) (ops : List AssetDescriptorBase) : Prop :=
  ∃ rawJsonTx items, j.decodeString txInJson = .ok rawJsonTx ∧ j.rawItems rawJsonTx = .ok items ∧
    List.Forall₂ (fun value op => j.assetDescriptor value = .ok op)
      (items.filterMap (List.lookup extraFieldAssetDescriptorBase)) ops

/-- What the ownership mechanism takes from a transaction. -/
def assetDescriptors (txInJson : GoString) : Except GoString (List AssetDescriptorBase) := do
  let txExtra ← j.txExtra txInJson
  return txExtra.filterMap fun extra =>
    match extra.value with
    | .assetDescriptorBase assetDescriptor => some assetDescriptor
    | .other => none

/-! ## The entries are the operations -/

def entryOf (op : AssetDescriptorBase) : ExtraEntry :=
  ⟨extraEntryAssetDescriptor, .assetDescriptorBase op⟩

theorem bind_eq_ok {α β : Type} {x : Except GoString α} {f : α → Except GoString β} {b : β} :
    x >>= f = .ok b ↔ ∃ a, x = .ok a ∧ f a = .ok b := by
  cases x <;> simp [bind, Except.bind]

theorem unmarshalJSON_eq_ok (items : List (List (GoString × V))) :
    ∀ e extra : List ExtraEntry, j.unmarshalJSON items e = .ok extra ↔
      ∃ ops, List.Forall₂ (fun value op => j.assetDescriptor value = .ok op)
        (items.filterMap (List.lookup extraFieldAssetDescriptorBase)) ops ∧
          extra = e ++ ops.map entryOf := by
  induction items with
  | nil =>
      intro e extra
      simp [unmarshalJSON, eq_comm]
  | cons item rest ih =>
      intro e extra
      rw [unmarshalJSON]
      cases hfield : item.lookup extraFieldAssetDescriptorBase with
      | none => rw [List.filterMap_cons_none hfield, ← ih]
      | some value =>
          rw [List.filterMap_cons_some hfield, bind_eq_ok]
          constructor
          · rintro ⟨op, hop, hrest⟩
            obtain ⟨ops, hops, rfl⟩ := (ih _ _).mp hrest
            refine ⟨op :: ops, .cons hop hops, ?_⟩
            rw [List.map_cons, List.append_assoc]
            rfl
          · rintro ⟨ops, hops, rfl⟩
            cases hops with
            | cons hop hops =>
                refine ⟨_, hop, (ih _ _).mpr ⟨_, hops, ?_⟩⟩
                rw [List.map_cons, List.append_assoc]
                rfl

theorem txExtra_eq_ok {txInJson : GoString} {extra : List ExtraEntry} :
    j.txExtra txInJson = .ok extra ↔ ∃ ops, j.Contains txInJson ops ∧ extra = ops.map entryOf := by
  simp only [txExtra, bind_eq_ok, wrapText_eq_ok, unmarshalJSON_eq_ok, List.nil_append, Contains]
  constructor
  · rintro ⟨rawJsonTx, hraw, items, hitems, ops, hops, rfl⟩
    exact ⟨ops, ⟨rawJsonTx, items, hraw, hitems, hops⟩, rfl⟩
  · rintro ⟨ops, ⟨rawJsonTx, items, hraw, hitems, hops⟩, rfl⟩
    exact ⟨rawJsonTx, hraw, items, hitems, ops, hops, rfl⟩

theorem filterMap_entryOf (ops : List AssetDescriptorBase) :
    (ops.map entryOf).filterMap (fun extra =>
      match extra.value with
      | .assetDescriptorBase assetDescriptor => some assetDescriptor
      | .other => none) = ops := by
  rw [List.filterMap_map]
  exact List.filterMap_some

theorem assetDescriptors_eq_ok {txInJson : GoString} {ops : List AssetDescriptorBase} :
    j.assetDescriptors txInJson = .ok ops ↔ j.Contains txInJson ops := by
  simp only [assetDescriptors, bind_eq_ok, txExtra_eq_ok]
  constructor
  · rintro ⟨_, ⟨ops', hops, rfl⟩, hreturn⟩
    rw [filterMap_entryOf] at hreturn
    cases hreturn
    exact hops
  · intro hops
    refine ⟨_, ⟨ops, hops, rfl⟩, ?_⟩
    rw [filterMap_entryOf]
    rfl

/-- The search over the entries is the first operation. -/
theorem getAssetInfo_eq (txInJson : GoString) :
    external (j.getAssetInfo txInJson) = (do
      let ops ← external (j.assetDescriptors txInJson)
      Outcome.ofOption (.new "asset info not found") ops.head? : Result AssetDescriptorBase) := by
  cases hextra : j.txExtra txInJson with
  | error text =>
      simp only [getAssetInfo, assetDescriptors, hextra]
      rfl
  | ok extra =>
      obtain ⟨ops, -, rfl⟩ := j.txExtra_eq_ok.mp hextra
      have hdescriptors : j.assetDescriptors txInJson = .ok ops := by
        rw [assetDescriptors, hextra]
        exact congrArg Except.ok (filterMap_entryOf ops)
      simp only [getAssetInfo, hextra, hdescriptors]
      cases ops <;> rfl

end JsonReader

/-! ## What an accepted transfer leaves unchecked -/

namespace OwnershipMechanism

/-- The mechanism with the decoders of the package. -/
def reading {V : Type} (c : OwnershipMechanism) (j : JsonReader V) : OwnershipMechanism :=
  { c with assetDescriptors := j.assetDescriptors }

theorem getAssetInfo_reading {V : Type} (c : OwnershipMechanism) (j : JsonReader V)
    (details : TransferDetails) :
    (c.reading j).getAssetInfo details = external (j.getAssetInfo details.txInJson) :=
  (j.getAssetInfo_eq details.txInJson).symm

/-- The operation hands the configured asset over to the configured key. -/
def Transfers (c : OwnershipMechanism) (op : AssetDescriptorBase) : Prop :=
  op.operationType = operationTypeTransferAssetOwnership ∧ op.optAssetId = some c.assetId ∧
    op.optDescriptor.map c.proposedOwner = some c.ownerPubKey

instance (c : OwnershipMechanism) (op : AssetDescriptorBase) : Decidable (c.Transfers op) :=
  inferInstanceAs (Decidable (_ ∧ _ ∧ _))

theorem validateAssetInfo_eq_ok {c : OwnershipMechanism} {op : AssetDescriptorBase} :
    c.validateAssetInfo op = .ok () ↔ c.Transfers op := by
  simp only [validateAssetInfo, Outcome.bind_eq_ok, Outcome.check_eq_ok, Outcome.deref_eq_ok,
    AssetDescriptorBase.isValidTransferAssetOwnershipOperation, Bool.and_eq_true,
    decide_eq_true_eq, Transfers, Option.map_eq_some_iff]
  constructor
  · rintro ⟨_, ⟨⟨htype, -⟩, -⟩, _, hasset, _, rfl, descriptor, hdescriptor, howner⟩
    exact ⟨htype, hasset, descriptor, hdescriptor, howner⟩
  · rintro ⟨htype, hasset, descriptor, hdescriptor, howner⟩
    refine ⟨(), ⟨⟨htype, ?_⟩, ?_⟩, c.assetId, hasset, (), rfl, descriptor, hdescriptor, howner⟩
    · rw [hasset]
      rfl
    · rw [hdescriptor]
      rfl

/-- A proposal is accepted for its first operation and its signing data. -/
theorem verifyProposedData_reading_eq_ok {V : Type} {c : OwnershipMechanism} {j : JsonReader V}
    {proposal : ZanoResharingProposalData} {details : TransferDetails}
    {ops : List AssetDescriptorBase} (reported : c.decryptTxDetails proposal = .ok details)
    (decoded : j.Contains details.txInJson ops) :
    (c.reading j).verifyProposedData (some proposal) = .ok () ↔
      (∃ first, ops.head? = some first ∧ c.Transfers first) ∧
        formSigningData details.verifiedTxId = .ok proposal.sigData := by
  have hdetails : (c.reading j).decryptTxDetails proposal = .ok details := reported
  have hops : (c.reading j).assetDescriptors details.txInJson = .ok ops :=
    j.assetDescriptors_eq_ok.mpr decoded
  have hvalid : ∀ op, (c.reading j).validateAssetInfo op = .ok () ↔ c.Transfers op :=
    fun op => validateAssetInfo_eq_ok
  simp only [verifyProposedData, getAssetInfo, Outcome.bind_eq_ok, Outcome.deref_eq_ok,
    Outcome.wrap_eq_ok, Outcome.check_eq_ok, Option.some.injEq, external_eq_ok,
    Outcome.ofOption_eq_ok]
  constructor
  · rintro ⟨_, rfl, details', hdetails', first, ⟨ops', hops', hfirst⟩, _, hchecked, sigData,
      hsig, rfl⟩
    cases hdetails.symm.trans hdetails'
    cases hops.symm.trans hops'
    exact ⟨⟨first, hfirst, (hvalid first).mp hchecked⟩, hsig⟩
  · rintro ⟨⟨first, hfirst, htransfers⟩, hsig⟩
    exact ⟨proposal, rfl, details, hdetails, first, ⟨ops, hops, hfirst⟩, (),
      (hvalid first).mpr htransfers, proposal.sigData, hsig, rfl⟩

/-- For every proposal and every extra `ops` the daemon reports: acceptance means that all
operations are transfers of the asset to the key exactly when those after the first are, or the
proposal fails on the first one or on its signing data. -/
theorem transfersOnly_iff {V : Type} (c : OwnershipMechanism) (j : JsonReader V)
    (proposal : ZanoResharingProposalData) (details : TransferDetails)
    (ops : List AssetDescriptorBase) (reported : c.decryptTxDetails proposal = .ok details)
    (decoded : j.Contains details.txInJson ops) :
    ((c.reading j).verifyProposedData (some proposal) = .ok () → ∀ op ∈ ops, c.Transfers op) ↔
      (∀ op ∈ ops.tail, c.Transfers op) ∨ (∀ op ∈ ops.head?, ¬c.Transfers op) ∨
        formSigningData details.verifiedTxId ≠ .ok proposal.sigData := by
  rw [verifyProposedData_reading_eq_ok reported decoded]
  cases ops with
  | nil => simp
  | cons first rest =>
      by_cases hfirst : c.Transfers first
      · by_cases hsig : formSigningData details.verifiedTxId = .ok proposal.sigData
        · simp [hfirst, hsig]
        · simp [hsig]
      · simp [hfirst]

section Sample

/-- The JSON text of a transaction with the operations `values` in its extra. -/
def sampleJson (values : List GoString) : Bytes :=
  let items := values.map fun value =>
    str "\x7b\"asset_descriptor_base\":" ++ value ++ str "\x7d"
  str "\x7b\"AGGREGATED\":\x7b\"extra\":[" ++ (items.intersperse (str ",")).flatten ++
    str "]\x7d\x7d"

/-- The text the daemon reports for it. -/
def sampleText (values : List GoString) : GoString :=
  Encoding.base64Encode Encoding.base64Alphabet (sampleJson values)

def sampleTransfer : GoString :=
  str "\x7b\"operation_type\":3,\"opt_asset_id\":\"aa\"," ++
    str "\"opt_descriptor\":\x7b\"owner_eth_pub_key\":\"02\"\x7d\x7d"

/-- A burn of another asset. -/
def sampleBurn : GoString := str "\x7b\"operation_type\":4,\"opt_asset_id\":\"bb\"\x7d"

/-- The decoders on the transaction of the operations `values`. -/
def sampleReader (values : List GoString) : JsonReader GoString where
  decodeString := fun text =>
    if text = sampleText values then .ok (sampleJson values)
    else .error (str "illegal base64 data at input byte 0")
  rawItems := fun raw =>
    if raw = sampleJson values then
      .ok (values.map fun value => [(extraFieldAssetDescriptorBase, value)])
    else .error (str "unexpected end of JSON input")
  marshal := .ok
  unmarshalDescriptor := fun raw =>
    if raw = sampleTransfer then .ok ⟨3, some (str "aa"), some ⟨[], str "02"⟩⟩
    else if raw = sampleBurn then .ok ⟨4, some (str "bb"), none⟩
    else .error (str "unexpected end of JSON input")

/-- The mechanism for the asset `aa` and the key `02`, with a daemon that reports a transaction
of the operations `values`. -/
def sampleMechanism (values : List GoString) : OwnershipMechanism where
  assetId := str "aa"
  ownerPubKey := str "02"
  isEthKey := true
  transferAssetOwnership := fun _ _ _ => .error (str "not a leader")
  txDetails := fun _ _ _ _ => .ok ⟨sampleText values, str "ff"⟩
  assetDescriptors := (sampleReader values).assetDescriptors

def sampleResharing : ZanoResharingProposalData where
  assetId := str "aa"
  ownerEthPubKey := str "02"
  outputsAddresses := []
  unsignedTx := []
  finalizedTx := []
  txSecretKey := []
  txId := str "ff"
  sigData := [0xff]

theorem decryptTxDetails_sample (values : List GoString) :
    (sampleMechanism values).decryptTxDetails sampleResharing =
      .ok ⟨sampleText values, str "ff"⟩ := rfl

theorem contains_sample {values : List GoString} {ops : List AssetDescriptorBase}
    (h : List.Forall₂ (fun value op => (sampleReader values).assetDescriptor value = .ok op)
      values ops) : (sampleReader values).Contains (sampleText values) ops := by
  have hfields : (values.map fun value => [(extraFieldAssetDescriptorBase, value)]).filterMap
      (List.lookup extraFieldAssetDescriptorBase) = values := by
    rw [List.filterMap_map]
    have hfield : List.lookup extraFieldAssetDescriptorBase ∘
        (fun value => [(extraFieldAssetDescriptorBase, value)]) = (some : GoString → _) :=
      funext fun _ => List.lookup_cons_self
    rw [hfield, List.filterMap_some]
  refine ⟨sampleJson values, _, if_pos rfl, if_pos rfl, ?_⟩
  rw [hfields]
  exact h

theorem assetDescriptor_sampleTransfer (values : List GoString) :
    (sampleReader values).assetDescriptor sampleTransfer =
      .ok ⟨3, some (str "aa"), some ⟨[], str "02"⟩⟩ := rfl

theorem transfers_sampleTransfer (values : List GoString) :
    (sampleMechanism values).Transfers ⟨3, some (str "aa"), some ⟨[], str "02"⟩⟩ :=
  ⟨rfl, rfl, rfl⟩

theorem formSigningData_sample : formSigningData (str "ff") = .ok sampleResharing.sigData := by
  decide +kernel

theorem transfersOnly_sample :
    ((sampleMechanism [sampleTransfer]).reading (sampleReader [sampleTransfer])).verifyProposedData
        (some sampleResharing) = .ok () ∧
      (sampleMechanism [sampleTransfer]).Transfers ⟨3, some (str "aa"), some ⟨[], str "02"⟩⟩ := by
  have hcontains := contains_sample (.cons (assetDescriptor_sampleTransfer [sampleTransfer]) .nil)
  have haccepted := (verifyProposedData_reading_eq_ok
    (decryptTxDetails_sample [sampleTransfer]) hcontains).mpr
      ⟨⟨_, rfl, transfers_sampleTransfer _⟩, formSigningData_sample⟩
  have hrest : ∀ op ∈ ([⟨3, some (str "aa"), some ⟨[], str "02"⟩⟩] : List AssetDescriptorBase).tail,
      (sampleMechanism [sampleTransfer]).Transfers op := by
    intro op hop
    cases hop
  have honly := (transfersOnly_iff (sampleMechanism [sampleTransfer])
    (sampleReader [sampleTransfer]) sampleResharing _ _ (decryptTxDetails_sample _)
    hcontains).mpr (.inl hrest)
  exact ⟨haccepted, honly haccepted _ List.mem_cons_self⟩

/-- The transfer comes first, and the burn of another asset rides along. -/
theorem verifyProposedData_accepts_burn :
    ∃ ops, (sampleReader [sampleTransfer, sampleBurn]).Contains
        (sampleText [sampleTransfer, sampleBurn]) ops ∧
      ((sampleMechanism [sampleTransfer, sampleBurn]).reading
        (sampleReader [sampleTransfer, sampleBurn])).verifyProposedData
          (some sampleResharing) = .ok () ∧
      ∃ op ∈ ops, op.operationType = operationTypeAssetBurn ∧ op.optAssetId = some (str "bb") ∧
        ¬(sampleMechanism [sampleTransfer, sampleBurn]).Transfers op := by
  have hburn : (sampleReader [sampleTransfer, sampleBurn]).assetDescriptor sampleBurn =
      .ok ⟨4, some (str "bb"), none⟩ := by decide +kernel
  have hcontains := contains_sample
    (.cons (assetDescriptor_sampleTransfer [sampleTransfer, sampleBurn]) (.cons hburn .nil))
  have haccepted := (verifyProposedData_reading_eq_ok (decryptTxDetails_sample _) hcontains).mpr
    ⟨⟨_, rfl, transfers_sampleTransfer _⟩, formSigningData_sample⟩
  refine ⟨_, hcontains, haccepted, _, List.mem_cons_of_mem _ List.mem_cons_self, rfl, rfl, ?_⟩
  rintro ⟨htype, -⟩
  cases htype

end Sample

end OwnershipMechanism

end TssSvc.Bridge.Zano
