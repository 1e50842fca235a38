import TssSvc.Bridge.Events
import TssSvc.Bridge.Solana
import TssSvc.Bridge.Ton

/-!
# Two views of a chain

What a client reads of one deposit at two times.  `Extends` is the growth of its node's view:
what was final in the earlier view, that is, confirmed by the client's own check, reads the same
in the later one; the rest may change.  For each client: the same deposit is read in both views
(`sameDeposit`), and a deposit that the later view reads fails in the earlier view with none of
the errors that mark it invalid exactly when it is `Settled` there
(`avoids_getDepositData_iff`).
-/

set_option autoImplicit false

namespace TssSvc.Bridge

open TssSvc.Db

/-! ## Errors that mark a deposit -/

/-- The errors of `chain.IsInvalidDepositError`, and with `withCore` those of
`core.IsInvalidDepositError`. -/
def Marks (withCore : Bool) (s : Sentinel) : Prop :=
  isInvalidDepositError s.toErr = true ∨
    withCore = true ∧ coreIsInvalidDepositError s.toErr = true

instance (withCore : Bool) (s : Sentinel) : Decidable (Marks withCore s) :=
  inferInstanceAs (Decidable (_ ∨ _))

theorem within_marks_iff {withCore : Bool} {e : Err} :
    e.Within (Marks withCore) ↔
      isInvalidDepositError e = true ∨ withCore = true ∧ coreIsInvalidDepositError e = true := by
  obtain ⟨sentinel, text⟩ := e
  cases sentinel with
  | none => simp [isInvalidDepositError, coreIsInvalidDepositError, GoError.is]
  | some s => exact GoError.within_some

@[simp] theorem within_toErr {kinds : Sentinel → Prop} {s : Sentinel} :
    s.toErr.Within kinds ↔ kinds s := GoError.within_some

theorem not_marks_errTxPending (withCore : Bool) : ¬Marks withCore .errTxPending := by
  cases withCore <;> decide

theorem not_marks_errTxNotConfirmed (withCore : Bool) : ¬Marks withCore .errTxNotConfirmed := by
  cases withCore <;> decide

@[simp] theorem avoids_external {α : Type} {kinds : Sentinel → Prop} {x : Except GoString α} :
    (external x).Avoids (GoError.Within kinds) := by
  cases x <;> simp [external]

/-- The parts of the data that the rest of `FetchDeposit` reads. -/
structure SameDeposit (a b : DepositData) : Prop where
  destinationChainId : a.destinationChainId = b.destinationChainId
  destinationAddress : a.destinationAddress = b.destinationAddress
  tokenAddress : a.tokenAddress = b.tokenAddress
  depositAmount : a.depositAmount = b.depositAmount
  referralId : a.referralId = b.referralId

/-! ## EVM -/

namespace Evm.Client

structure Extends (p p' : Client) : Prop where
  id : p'.id = p.id
  bridgeAddress : p'.bridgeAddress = p.bridgeAddress
  supportedEvents : p'.supportedEvents = p.supportedEvents
  unpack : p'.unpack = p.unpack
  addressHex : p'.addressHex = p.addressHex
  final : ∀ hash tx receipt, p.rpc.transactionByHash hash = .ok (some tx) →
    p.rpc.transactionReceipt tx.hash = .ok (some receipt) →
    p.validateConfirmations receipt = .ok () →
    ∀ tx' receipt', p'.rpc.transactionByHash hash = .ok (some tx') →
      p'.rpc.transactionReceipt tx'.hash = .ok (some receipt') → receipt' = receipt

/-- The receipt passes the checks that come before the confirmations are counted. -/
structure Shows (p : Client) (receipt : Receipt) (txNonce : Int) : Prop where
  succeeded : receipt.status = 1
  guarded : wrapInt64 (txNonce + 1) ≤ receipt.logs.length
  event : ∀ log, (Outcome.index receipt.logs txNonce : Result Log) = .ok log →
    p.addressHex log.address = p.addressHex p.bridgeAddress ∧
      (p.getDepositEventType log).isSome = true

/-- The node has the transaction, and its receipt is confirmed or shows the deposit. -/
structure Settled (p : Client) (identifier : DepositIdentifier) : Prop where
  known : p.rpc.transactionByHash (hexToHash identifier.txHash) ≠ .ok none
  shown : ∀ receipt sender,
    p.getTransactionReceipt (hexToHash identifier.txHash) = .ok (receipt, sender) →
      p.validateConfirmations receipt = .ok () ∨ p.Shows receipt identifier.txNonce

/-- What a read deposit was read from. -/
structure Read (p : Client) (identifier : DepositIdentifier) (data : DepositData) where
  receipt : Receipt
  sender : Bytes
  log : Log
  eventType : EventType
  body : EventBody
  receiptRead : p.getTransactionReceipt (hexToHash identifier.txHash) = .ok (receipt, sender)
  succeeded : receipt.status = 1
  guarded : wrapInt64 (identifier.txNonce + 1) ≤ receipt.logs.length
  logRead : (Outcome.index receipt.logs identifier.txNonce : Result Log) = .ok log
  supported : p.addressHex log.address = p.addressHex p.bridgeAddress
  typed : p.getDepositEventType log = some eventType
  confirmed : p.validateConfirmations receipt = .ok ()
  unpacked : p.unpack eventType log.data = some body
  destinationChainId : data.destinationChainId = body.network
  destinationAddress : data.destinationAddress = body.receiver
  tokenAddress : data.tokenAddress = p.tokenAddress eventType body
  depositAmount : data.depositAmount = body.amount
  referralId : data.referralId = Client.referralId eventType body

theorem getDepositData_ok {p : Client} {identifier : DepositIdentifier} {data : DepositData}
    (h : p.getDepositData identifier = .ok data) : Nonempty (Read p identifier data) := by
  simp only [getDepositData, Outcome.bind_eq_ok, Outcome.wrap_eq_ok, Outcome.check_eq_ok,
    Outcome.ofOption_eq_ok, Outcome.pure_eq_ok, Outcome.ok.injEq] at h
  obtain ⟨⟨receipt, sender⟩, hreceipt, _, hstatus, _, hguard, log, hlog, _, hsupported, eventType,
    htype, _, hconfirmed, body, hbody, rfl⟩ := h
  exact ⟨⟨receipt, sender, log, eventType, body, hreceipt, hstatus, hguard, hlog, hsupported, htype,
    hconfirmed, hbody, rfl, rfl, rfl, rfl, rfl⟩⟩

variable {p p' : Client} {identifier : DepositIdentifier} {data data' : DepositData}

/-- A confirmed receipt is the one the later view reads. -/
theorem Extends.receipt_eq (ext : p.Extends p') {hash sender sender' : Bytes}
    {receipt receipt' : Receipt} (h : p.getTransactionReceipt hash = .ok (receipt, sender))
    (confirmed : p.validateConfirmations receipt = .ok ())
    (h' : p'.getTransactionReceipt hash = .ok (receipt', sender')) : receipt' = receipt := by
  obtain ⟨tx, htx, hreceipt⟩ := getTransactionReceipt_ok h
  obtain ⟨tx', htx', hreceipt'⟩ := getTransactionReceipt_ok h'
  exact ext.final _ tx receipt htx hreceipt confirmed tx' receipt' htx' hreceipt'

theorem Extends.getDepositEventType (ext : p.Extends p') (log : Log) :
    p'.getDepositEventType log = p.getDepositEventType log := by
  unfold Client.getDepositEventType
  rw [ext.supportedEvents]

theorem Extends.sameDeposit (ext : p.Extends p') (h : p.getDepositData identifier = .ok data)
    (h' : p'.getDepositData identifier = .ok data') : SameDeposit data data' := by
  obtain ⟨r⟩ := getDepositData_ok h
  obtain ⟨r'⟩ := getDepositData_ok h'
  have hreceipt := ext.receipt_eq r.receiptRead r.confirmed r'.receiptRead
  have hlog : r'.log = r.log := by
    have hread := r'.logRead
    rw [hreceipt, r.logRead] at hread
    exact (Outcome.ok.inj hread).symm
  have htype : r'.eventType = r.eventType := by
    have htyped := r'.typed
    rw [ext.getDepositEventType, hlog, r.typed] at htyped
    exact (Option.some.inj htyped).symm
  have hbody : r'.body = r.body := by
    have hunpacked := r'.unpacked
    rw [ext.unpack, hlog, htype, r.unpacked] at hunpacked
    exact (Option.some.inj hunpacked).symm
  constructor
  · rw [r.destinationChainId, r'.destinationChainId, hbody]
  · rw [r.destinationAddress, r'.destinationAddress, hbody]
  · rw [r.tokenAddress, r'.tokenAddress, hbody, htype]
    unfold Client.tokenAddress
    rw [ext.addressHex]
  · rw [r.depositAmount, r'.depositAmount, hbody]
  · rw [r.referralId, r'.referralId, hbody, htype]

theorem avoids_getTransactionReceipt_iff {hash : Bytes} {withCore : Bool} :
    (p.getTransactionReceipt hash).Avoids (GoError.Within (Marks withCore)) ↔
      p.rpc.transactionByHash hash ≠ .ok none := by
  have hsender : ∀ tx, (senderOf tx).Avoids (GoError.Within (Marks withCore)) := by
    intro tx
    unfold senderOf
    split <;> simp
  have hmarks : Marks withCore .errTxNotFound := .inl (by decide)
  simp only [getTransactionReceipt, Outcome.avoids_bind, Outcome.avoids_wrap, avoids_external,
    Outcome.wrap_eq_ok, external_eq_ok, Outcome.avoids_ofOption, Outcome.avoids_check,
    GoError.within_wrap, GoError.not_within_new, within_toErr, not_marks_errTxPending, hsender,
    Outcome.pure_eq_ok, Outcome.avoids_ok, not_false_eq_true, or_true, true_and, and_true,
    implies_true, hmarks, not_true_eq_false, or_false]
  constructor
  · intro h hnone
    exact absurd (h none hnone) (by simp)
  · intro hknown raw hraw
    cases raw with
    | none => exact absurd hraw hknown
    | some tx => rfl

theorem avoids_validateConfirmations (p : Client) (receipt : Receipt) (withCore : Bool) :
    (p.validateConfirmations receipt).Avoids (GoError.Within (Marks withCore)) := by
  simp [validateConfirmations, Outcome.avoids_bind, not_marks_errTxNotConfirmed]

/-- A receipt that the later view reads a deposit from shows it. -/
theorem Extends.shows (ext : p.Extends p') (r' : Read p' identifier data') :
    p.Shows r'.receipt identifier.txNonce := by
  refine ⟨r'.succeeded, r'.guarded, fun log hlog => ?_⟩
  obtain rfl := Outcome.ok.inj (r'.logRead.symm.trans hlog)
  have hsupported := r'.supported
  rw [ext.addressHex, ext.bridgeAddress] at hsupported
  refine ⟨hsupported, ?_⟩
  rw [← ext.getDepositEventType, r'.typed]
  rfl

theorem settled_of_avoids {withCore : Bool}
    (h : (p.getDepositData identifier).Avoids (GoError.Within (Marks withCore))) :
    p.Settled identifier := by
  have hmarks : ∀ s ∈ [Sentinel.errTxFailed, .errDepositNotFound, .errUnsupportedContract],
      s.toErr.Within (Marks withCore) := by
    intro s hs
    rw [within_toErr]
    exact .inl (by revert s; decide)
  obtain ⟨hreceipt, hrest⟩ := Outcome.avoids_bind.mp h
  refine ⟨avoids_getTransactionReceipt_iff.mp (Outcome.avoids_wrap.mp hreceipt), ?_⟩
  intro receipt sender hread
  have hchecks := hrest (receipt, sender) (Outcome.wrap_eq_ok.mpr hread)
  simp only [Outcome.avoids_bind, Outcome.avoids_check, Outcome.check_eq_ok,
    Outcome.avoids_ofOption, hmarks, List.mem_cons, true_or, or_true, not_true_eq_false,
    or_false, forall_const, Outcome.avoids_index, true_and] at hchecks
  obtain ⟨hstatus, hchecks⟩ := hchecks
  obtain ⟨hguard, hevent⟩ := hchecks hstatus
  refine .inr ⟨hstatus, hguard, fun log hlog => ?_⟩
  obtain ⟨haddress, htyped⟩ := hevent hguard log hlog
  exact ⟨haddress, (htyped haddress).1⟩

theorem Extends.avoids_of_settled (ext : p.Extends p')
    (h' : p'.getDepositData identifier = .ok data') (settled : p.Settled identifier)
    {withCore : Bool} :
    (p.getDepositData identifier).Avoids (GoError.Within (Marks withCore)) := by
  obtain ⟨r'⟩ := getDepositData_ok h'
  refine Outcome.avoids_bind.mpr ⟨?_, fun found hread => ?_⟩
  · exact Outcome.avoids_wrap.mpr (avoids_getTransactionReceipt_iff.mpr settled.known)
  obtain ⟨receipt, sender⟩ := found
  have hread := Outcome.wrap_eq_ok.mp hread
  have hshows : p.Shows receipt identifier.txNonce := by
    rcases settled.shown receipt sender hread with hconfirmed | hshows
    · rw [← ext.receipt_eq hread hconfirmed r'.receiptRead]
      exact ext.shows r'
    · exact hshows
  refine Outcome.avoids_bind.mpr ⟨Outcome.avoids_check.mpr (.inl hshows.succeeded), fun _ _ => ?_⟩
  refine Outcome.avoids_bind.mpr ⟨Outcome.avoids_check.mpr (.inl hshows.guarded), fun _ _ => ?_⟩
  refine Outcome.avoids_bind.mpr ⟨Outcome.avoids_index, fun log hlog => ?_⟩
  obtain ⟨haddress, hevent⟩ := hshows.event log hlog
  refine Outcome.avoids_bind.mpr ⟨Outcome.avoids_check.mpr (.inl haddress), fun _ _ => ?_⟩
  refine Outcome.avoids_bind.mpr ⟨Outcome.avoids_ofOption.mpr (.inl hevent),
    fun eventType htype => ?_⟩
  refine Outcome.avoids_bind.mpr ⟨?_, fun _ hconfirmed => ?_⟩
  · exact Outcome.avoids_wrap.mpr (p.avoids_validateConfirmations receipt withCore)
  -- a confirmed receipt is the one the later view unpacked
  have hreceipt := ext.receipt_eq hread (Outcome.wrap_eq_ok.mp hconfirmed) r'.receiptRead
  have hlog' := r'.logRead
  rw [hreceipt, hlog] at hlog'
  obtain rfl := Outcome.ok.inj hlog'
  have htyped := r'.typed
  rw [ext.getDepositEventType, Outcome.ofOption_eq_ok.mp htype] at htyped
  obtain rfl := Option.some.inj htyped
  have hunpacked := r'.unpacked
  rw [ext.unpack] at hunpacked
  simp [Outcome.avoids_bind, hunpacked]

/-- For a deposit that the later view reads. -/
theorem Extends.avoids_getDepositData_iff (ext : p.Extends p')
    (h' : p'.getDepositData identifier = .ok data') {withCore : Bool} :
    (p.getDepositData identifier).Avoids (GoError.Within (Marks withCore)) ↔
      p.Settled identifier :=
  ⟨settled_of_avoids, fun settled => ext.avoids_of_settled h' settled⟩

end Evm.Client

/-! ## Zano -/

namespace Zano.Client

structure Extends (p p' : Client) : Prop where
  id : p'.id = p.id
  unmarshalMemo : p'.unmarshalMemo = p.unmarshalMemo
  final : ∀ txHash tx, p.getTransaction txHash = .ok (some tx) →
    p.validateConfirmations tx.height = .ok () →
    ∀ tx', p'.getTransaction txHash = .ok (some tx') → tx' = tx

/-- The wallet lists the transaction. -/
def Settled (p : Client) (identifier : DepositIdentifier) : Prop :=
  p.getTransaction identifier.txHash ≠ .ok none

structure Read (p : Client) (identifier : DepositIdentifier) (data : DepositData) where
  transaction : Transaction
  amount : Int
  assetId : GoString
  entry : ServiceEntry
  memo : DepositMemo
  found : p.getTransaction identifier.txHash = .ok (some transaction)
  confirmed : p.validateConfirmations transaction.height = .ok ()
  burnt : assetBurn transaction.ado = some (amount, assetId)
  guarded : wrapInt64 (identifier.txNonce + 1) ≤ transaction.serviceEntries.length
  entryRead : (Outcome.index transaction.serviceEntries identifier.txNonce : Result ServiceEntry) =
    .ok entry
  memoRead : p.parseDepositMemo entry = .ok memo
  destinationChainId : data.destinationChainId = memo.chainId
  destinationAddress : data.destinationAddress = memo.address
  tokenAddress : data.tokenAddress = assetId
  depositAmount : data.depositAmount = amount
  referralId : data.referralId = memo.referralId

theorem getDepositData_ok {p : Client} {identifier : DepositIdentifier} {data : DepositData}
    (h : p.getDepositData identifier = .ok data) : Nonempty (Read p identifier data) := by
  simp only [getDepositData, Outcome.bind_eq_ok, Outcome.wrap_eq_ok, Outcome.check_eq_ok,
    Outcome.ofOption_eq_ok, Outcome.pure_eq_ok, Outcome.ok.injEq] at h
  obtain ⟨_, hfound, transaction, rfl, _, hconfirmed, ⟨amount, assetId⟩, hburnt, _, hguard, entry,
    hentry, memo, hmemo, rfl⟩ := h
  exact ⟨⟨transaction, amount, assetId, entry, memo, hfound, hconfirmed, hburnt, hguard, hentry,
    hmemo, rfl, rfl, rfl, rfl, rfl⟩⟩

variable {p p' : Client} {identifier : DepositIdentifier} {data data' : DepositData}

theorem Extends.parseDepositMemo (ext : p.Extends p') (entry : ServiceEntry) :
    p'.parseDepositMemo entry = p.parseDepositMemo entry := by
  unfold Client.parseDepositMemo
  rw [ext.unmarshalMemo]

theorem Extends.sameDeposit (ext : p.Extends p') (h : p.getDepositData identifier = .ok data)
    (h' : p'.getDepositData identifier = .ok data') : SameDeposit data data' := by
  obtain ⟨r⟩ := getDepositData_ok h
  obtain ⟨r'⟩ := getDepositData_ok h'
  have htx := ext.final _ _ r.found r.confirmed _ r'.found
  have hburnt := r'.burnt
  rw [htx, r.burnt] at hburnt
  obtain ⟨hamount, hasset⟩ := Prod.mk.inj (Option.some.inj hburnt)
  have hentry : r'.entry = r.entry := by
    have hread := r'.entryRead
    rw [htx, r.entryRead] at hread
    exact (Outcome.ok.inj hread).symm
  have hmemo : r'.memo = r.memo := by
    have hread := r'.memoRead
    rw [ext.parseDepositMemo, hentry, r.memoRead] at hread
    exact (Outcome.ok.inj hread).symm
  constructor
  · rw [r.destinationChainId, r'.destinationChainId, hmemo]
  · rw [r.destinationAddress, r'.destinationAddress, hmemo]
  · rw [r.tokenAddress, r'.tokenAddress, hasset]
  · rw [r.depositAmount, r'.depositAmount, hamount]
  · rw [r.referralId, r'.referralId, hmemo]

theorem avoids_validateConfirmations (p : Client) (txHeight : Nat) (withCore : Bool) :
    (p.validateConfirmations txHeight).Avoids (GoError.Within (Marks withCore)) := by
  simp [validateConfirmations, Outcome.avoids_bind, not_marks_errTxPending,
    not_marks_errTxNotConfirmed]

/-- For a deposit that the later view reads. -/
theorem Extends.avoids_getDepositData_iff (ext : p.Extends p')
    (h' : p'.getDepositData identifier = .ok data') {withCore : Bool} :
    (p.getDepositData identifier).Avoids (GoError.Within (Marks withCore)) ↔
      p.Settled identifier := by
  obtain ⟨r'⟩ := getDepositData_ok h'
  constructor
  · intro h hnone
    have hmissing := (Outcome.avoids_bind.mp h).2 none (Outcome.wrap_eq_ok.mpr hnone)
    have hmarks : Marks withCore .errDepositNotFound := .inl (by decide)
    simp [Outcome.avoids_bind, hmarks] at hmissing
  · intro settled
    refine Outcome.avoids_bind.mpr ⟨by simp [getTransaction, Outcome.avoids_bind],
      fun found hfound => ?_⟩
    cases found with
    | none => exact absurd (Outcome.wrap_eq_ok.mp hfound) settled
    | some transaction =>
        refine Outcome.avoids_bind.mpr ⟨by simp, fun _ htx => ?_⟩
        obtain rfl := Option.some.inj (Outcome.ofOption_eq_ok.mp htx)
        refine Outcome.avoids_bind.mpr ⟨?_, fun _ hconfirmed => ?_⟩
        · exact Outcome.avoids_wrap.mpr (p.avoids_validateConfirmations _ withCore)
        -- every later check is one that the later view passed on the same transaction
        obtain rfl := ext.final _ _ (Outcome.wrap_eq_ok.mp hfound)
          (Outcome.wrap_eq_ok.mp hconfirmed) _ r'.found
        have hmemo := r'.memoRead
        rw [ext.parseDepositMemo] at hmemo
        simp [Outcome.avoids_bind, r'.burnt, r'.guarded, r'.entryRead, hmemo]

end Zano.Client

/-! ## UTXO -/

namespace Utxo.Client

/-- A transaction id stands for the inputs and outputs it is the digest of. -/
structure Extends (c c' : Client) : Prop where
  id : c'.id = c.id
  receivers : c'.receivers = c.receivers
  lib : c'.lib = c.lib
  keccak256 : c'.keccak256 = c.keccak256
  final : ∀ txid tx tx', c.rpc.getRawTransactionVerbose txid = .ok tx →
    c'.rpc.getRawTransactionVerbose txid = .ok tx' → tx'.vin = tx.vin ∧ tx'.vout = tx.vout

/-- The node does not deny the transaction. -/
def Known (c : Client) (txHash : GoString) : Prop :=
  ∀ text, c.rpc.getRawTransactionVerbose (trimHexPrefix txHash) = .error text →
    ¬errTxNotFound <:+: text

/-- The node has the transaction and, when its depositor is looked up, the one its first input
spends. -/
structure Settled (c : Client) (identifier : DepositIdentifier) : Prop where
  known : c.Known identifier.txHash
  previous : ∀ tx height input, c.getTransaction identifier.txHash = .ok tx →
    tx.blockHash ≠ [] → c.confirmations ≤ tx.confirmations →
    c.rpc.getBlockHeight tx.blockHash = .ok height → tx.vin.head? = some input →
      c.Known input.txid

structure Read (c : Client) (identifier : DepositIdentifier) (data : DepositData) where
  tx : TxRawResult
  amount : Int
  memo : DepositMemo
  input : Vin
  depositor : GoString
  found : c.getTransaction identifier.txHash = .ok tx
  decoded : c.decode tx identifier.txNonce = .ok (amount, memo)
  inputRead : (Outcome.index tx.vin 0 : Result Vin) = .ok input
  depositorRead : c.parseSenderAddress input = .ok depositor
  destinationChainId : data.destinationChainId = memo.chainId
  destinationAddress : data.destinationAddress = memo.address
  tokenAddress : data.tokenAddress = defaultNativeTokenAddress
  depositAmount : data.depositAmount = amount
  referralId : data.referralId = memo.referralId

theorem getDepositData_ok {c : Client} {identifier : DepositIdentifier} {data : DepositData}
    (h : c.getDepositData identifier = .ok data) : Nonempty (Read c identifier data) := by
  simp only [getDepositData, Outcome.bind_eq_ok, Outcome.wrap_eq_ok, Outcome.check_eq_ok,
    Outcome.pure_eq_ok, Outcome.ok.injEq] at h
  obtain ⟨tx, hfound, _, -, _, -, height, -, ⟨amount, memo⟩, hdecoded, input, hinput, depositor,
    hdepositor, rfl⟩ := h
  exact ⟨⟨tx, amount, memo, input, depositor, hfound, hdecoded, hinput, hdepositor, rfl, rfl, rfl,
    rfl, rfl⟩⟩

theorem getTransaction_eq_ok {c : Client} {txHash : GoString} {tx : TxRawResult} :
    c.getTransaction txHash = .ok tx ↔
      c.rpc.getRawTransactionVerbose (trimHexPrefix txHash) = .ok tx := by
  unfold getTransaction
  cases c.rpc.getRawTransactionVerbose (trimHexPrefix txHash) with
  | ok found => simp
  | error text =>
      by_cases hmissing : errTxNotFound <:+: text
      · simp [hmissing]
      · simp [hmissing]

theorem avoids_getTransaction_iff {c : Client} {txHash : GoString} (withCore : Bool) :
    (c.getTransaction txHash).Avoids (GoError.Within (Marks withCore)) ↔ c.Known txHash := by
  have hmarks : Marks withCore .errTxNotFound := .inl (by decide)
  unfold getTransaction Known
  cases c.rpc.getRawTransactionVerbose (trimHexPrefix txHash) with
  | ok found => simp
  | error text =>
      by_cases hmissing : errTxNotFound <:+: text
      · simp [hmissing, hmarks]
      · simp [hmissing]

variable {c c' : Client} {identifier : DepositIdentifier} {data data' : DepositData}

theorem Extends.same_outputs (ext : c.Extends c') {txHash : GoString} {tx tx' : TxRawResult}
    (h : c.getTransaction txHash = .ok tx) (h' : c'.getTransaction txHash = .ok tx') :
    tx'.vin = tx.vin ∧ tx'.vout = tx.vout :=
  ext.final _ tx tx' (getTransaction_eq_ok.mp h) (getTransaction_eq_ok.mp h')

theorem Extends.decode (ext : c.Extends c') {tx tx' : TxRawResult} (hvout : tx'.vout = tx.vout)
    (depositIdx : Int) : c'.decode tx' depositIdx = c.decode tx depositIdx := by
  unfold Client.decode decodeDepositOutput decodeDepositMemoOutput
  rw [hvout, ext.lib, ext.receivers, ext.keccak256]

theorem Extends.sameDeposit (ext : c.Extends c') (h : c.getDepositData identifier = .ok data)
    (h' : c'.getDepositData identifier = .ok data') : SameDeposit data data' := by
  obtain ⟨r⟩ := getDepositData_ok h
  obtain ⟨r'⟩ := getDepositData_ok h'
  obtain ⟨-, hvout⟩ := ext.same_outputs r.found r'.found
  have hdecoded := r'.decoded
  rw [ext.decode hvout, r.decoded] at hdecoded
  obtain ⟨hamount, hmemo⟩ := Prod.mk.inj (Outcome.ok.inj hdecoded)
  constructor
  · rw [r.destinationChainId, r'.destinationChainId, hmemo]
  · rw [r.destinationAddress, r'.destinationAddress, hmemo]
  · rw [r.tokenAddress, r'.tokenAddress]
  · rw [r.depositAmount, r'.depositAmount, hamount]
  · rw [r.referralId, r'.referralId, hmemo]

/-- The depositor is read from the same output of the previous transaction. -/
theorem Extends.avoids_parseSenderAddress_iff (ext : c.Extends c') {input : Vin}
    {depositor : GoString} (h' : c'.parseSenderAddress input = .ok depositor) {withCore : Bool} :
    (c.parseSenderAddress input).Avoids (GoError.Within (Marks withCore)) ↔
      c.Known input.txid := by
  simp only [parseSenderAddress, Outcome.bind_eq_ok, Outcome.mapErr_eq_ok,
    Outcome.check_eq_ok] at h'
  obtain ⟨prevTx', hprev', _, -, output, houtput', script, hscript', addresses, haddresses',
    -⟩ := h'
  rw [← avoids_getTransaction_iff withCore]
  constructor
  · intro h
    have hprevious := (Outcome.avoids_bind.mp h).1
    rwa [Outcome.avoids_mapErr] at hprevious
  · intro hprevious
    refine Outcome.avoids_bind.mpr ⟨Outcome.avoids_mapErr.mpr hprevious, fun prevTx hprev => ?_⟩
    obtain ⟨-, hvout⟩ := ext.same_outputs (Outcome.mapErr_eq_ok.mp hprev) hprev'
    rw [hvout] at houtput'
    rw [ext.lib] at haddresses'
    simp [Outcome.avoids_bind, houtput', hscript', haddresses']

/-- For a deposit that the later view reads. -/
theorem Extends.avoids_getDepositData_iff (ext : c.Extends c')
    (h' : c'.getDepositData identifier = .ok data') {withCore : Bool} :
    (c.getDepositData identifier).Avoids (GoError.Within (Marks withCore)) ↔
      c.Settled identifier := by
  obtain ⟨r'⟩ := getDepositData_ok h'
  -- what the later view read of the transaction holds of it in the earlier view
  have hsame : ∀ tx, c.getTransaction identifier.txHash = .ok tx →
      c.decode tx identifier.txNonce = .ok (r'.amount, r'.memo) ∧
        (Outcome.index tx.vin 0 : Result Vin) = .ok r'.input ∧ tx.vin.head? = some r'.input := by
    intro tx htx
    obtain ⟨hvin, hvout⟩ := ext.same_outputs htx r'.found
    have hdecoded := r'.decoded
    rw [ext.decode hvout] at hdecoded
    have hinput := r'.inputRead
    rw [hvin] at hinput
    refine ⟨hdecoded, hinput, ?_⟩
    rw [List.head?_eq_getElem?]
    exact (Outcome.index_eq_ok.mp hinput).2
  constructor
  · intro h
    obtain ⟨hfirst, hrest⟩ := Outcome.avoids_bind.mp h
    refine ⟨(avoids_getTransaction_iff withCore).mp (Outcome.avoids_wrap.mp hfirst), ?_⟩
    intro tx height input htx hblock hconfirmed hheight hhead
    obtain ⟨hdecoded, hinput, hhead'⟩ := hsame tx htx
    obtain rfl := Option.some.inj (hhead'.symm.trans hhead)
    have hchecks := hrest tx (Outcome.wrap_eq_ok.mpr htx)
    simpa [Outcome.avoids_bind, hblock, hconfirmed, hheight, hdecoded, hinput,
      ext.avoids_parseSenderAddress_iff r'.depositorRead] using hchecks
  · intro settled
    refine Outcome.avoids_bind.mpr ⟨?_, fun tx htx => ?_⟩
    · exact Outcome.avoids_wrap.mpr ((avoids_getTransaction_iff withCore).mpr settled.known)
    have hfound := Outcome.wrap_eq_ok.mp htx
    obtain ⟨hdecoded, hinput, hhead⟩ := hsame tx hfound
    refine Outcome.avoids_bind.mpr ⟨by simp [not_marks_errTxPending], fun _ hblock => ?_⟩
    refine Outcome.avoids_bind.mpr ⟨by simp [not_marks_errTxNotConfirmed], fun _ hconfirmed => ?_⟩
    refine Outcome.avoids_bind.mpr ⟨by simp, fun height hheight => ?_⟩
    have hprevious := settled.previous tx height r'.input hfound (Outcome.check_eq_ok.mp hblock)
      (Outcome.check_eq_ok.mp hconfirmed)
      (external_eq_ok.mp (Outcome.wrap_eq_ok.mp hheight)) hhead
    simp [Outcome.avoids_bind, hdecoded, hinput,
      (ext.avoids_parseSenderAddress_iff r'.depositorRead).mpr hprevious]

end Utxo.Client

/-! ## TON -/

namespace Ton.Client

structure Extends (c c' : Client) : Prop where
  id : c'.id = c.id
  parseAddr : c'.parseAddr = c.parseAddr
  decoder : c'.decoder = c.decoder
  final : ∀ lt txHash tx tx', c.getTxByLtHash lt txHash = .ok tx →
    c'.getTxByLtHash lt txHash = .ok tx' → tx' = tx

/-- The lite server lists a transaction under the time and the hash. -/
def Settled (c : Client) (identifier : DepositIdentifier) : Prop :=
  ∀ hash, hexutilDecode identifier.txHash = some hash →
    c.listTransactions (toUint64 identifier.txNonce) hash ≠ .ok []

variable {c c' : Client} {identifier : DepositIdentifier} {data data' : DepositData}

theorem getDepositData_ok (h : c.getDepositData identifier = .ok data) :
    ∃ tx parsed, c.getTxByLtHash (toUint64 identifier.txNonce) identifier.txHash = .ok tx ∧
      c.decoder.parseDepositData tx = .ok parsed ∧ SameDeposit data parsed := by
  simp only [getDepositData, Outcome.bind_eq_ok, Outcome.wrap_eq_ok, Outcome.pure_eq_ok,
    Outcome.ok.injEq] at h
  obtain ⟨tx, htx, parsed, hparsed, rfl⟩ := h
  exact ⟨tx, parsed, htx, hparsed, ⟨rfl, rfl, rfl, rfl, rfl⟩⟩

theorem Extends.sameDeposit (ext : c.Extends c') (h : c.getDepositData identifier = .ok data)
    (h' : c'.getDepositData identifier = .ok data') : SameDeposit data data' := by
  obtain ⟨tx, parsed, htx, hparsed, same⟩ := getDepositData_ok h
  obtain ⟨tx', parsed', htx', hparsed', same'⟩ := getDepositData_ok h'
  obtain rfl := ext.final _ _ _ _ htx htx'
  rw [ext.decoder, hparsed] at hparsed'
  cases hparsed'
  exact ⟨same.1.trans same'.1.symm, same.2.trans same'.2.symm, same.3.trans same'.3.symm,
    same.4.trans same'.4.symm, same.5.trans same'.5.symm⟩

theorem avoids_getTxByLtHash_iff {withCore : Bool} :
    (c.getTxByLtHash (toUint64 identifier.txNonce) identifier.txHash).Avoids
      (GoError.Within (Marks withCore)) ↔ c.Settled identifier := by
  have hmarks : Marks withCore .errDepositNotFound := .inl (by decide)
  unfold Settled getTxByLtHash mustDecode
  cases hexutilDecode identifier.txHash with
  | none => simp
  | some hash =>
      simp only [Outcome.ok_bind, Outcome.avoids_bind, Outcome.avoids_wrap, avoids_external,
        Outcome.wrap_eq_ok, external_eq_ok, Outcome.avoids_ofOption, within_toErr, hmarks,
        not_true_eq_false, or_false, true_and, Option.some.injEq, forall_eq',
        List.isSome_head?]
      constructor
      · intro h hnil
        exact h [] hnil rfl
      · intro h txs htxs hnil
        exact h (hnil ▸ htxs)

/-- For a deposit that the later view reads. -/
theorem Extends.avoids_getDepositData_iff (ext : c.Extends c')
    (h' : c'.getDepositData identifier = .ok data') {withCore : Bool} :
    (c.getDepositData identifier).Avoids (GoError.Within (Marks withCore)) ↔
      c.Settled identifier := by
  obtain ⟨tx', parsed', htx', hparsed', -⟩ := getDepositData_ok h'
  rw [ext.decoder] at hparsed'
  rw [← avoids_getTxByLtHash_iff]
  constructor
  · intro h
    exact Outcome.avoids_wrap.mp (Outcome.avoids_bind.mp h).1
  · intro hfirst
    refine Outcome.avoids_bind.mpr ⟨Outcome.avoids_wrap.mpr hfirst, fun tx htx => ?_⟩
    obtain rfl := ext.final _ _ _ _ (Outcome.wrap_eq_ok.mp htx) htx'
    simp [Outcome.avoids_bind, hparsed']

end Ton.Client

/-! ## Solana -/

namespace Solana.Client

/-- The node is asked for finalized transactions only. -/
structure Extends (p p' : Client) : Prop where
  id : p'.id = p.id
  programId : p'.programId = p.programId
  bridgeId : p'.bridgeId = p.bridgeId
  final : ∀ signature out out', p.getTransaction signature = .ok out →
    p'.getTransaction signature = .ok out' → out' = out

variable {p p' : Client} {identifier : DepositIdentifier} {data data' : DepositData}

theorem Extends.instructionAt (ext : p.Extends p') (txNonce : Int) (out : TransactionResult) :
    p'.instructionAt txNonce out = p.instructionAt txNonce out := by
  unfold Client.instructionAt
  rw [ext.programId]

theorem Extends.instructionDeposit (ext : p.Extends p') (slot : Nat) (instr : Instruction) :
    p'.instructionDeposit identifier slot instr = p.instructionDeposit identifier slot instr := by
  unfold Client.instructionDeposit
  rw [ext.bridgeId]

theorem getDepositData_ok (h : p.getDepositData identifier = .ok data) :
    ∃ signature out instr, signatureFromBase58 identifier.txHash = some signature ∧
      p.getTransaction signature = .ok out ∧ p.instructionAt identifier.txNonce out = .ok instr ∧
      p.instructionDeposit identifier out.slot instr = .ok data := by
  simp only [getDepositData, locate, Outcome.bind_eq_ok, Outcome.wrap_eq_ok,
    Outcome.ofOption_eq_ok, external_eq_ok, Outcome.pure_eq_ok, Outcome.ok.injEq] at h
  obtain ⟨_, ⟨signature, hsignature, out, hout, instr, hinstr, rfl⟩, hdeposit⟩ := h
  exact ⟨signature, out, instr, hsignature, hout, hinstr, hdeposit⟩

theorem Extends.same_data (ext : p.Extends p') (h : p.getDepositData identifier = .ok data)
    (h' : p'.getDepositData identifier = .ok data') : data = data' := by
  obtain ⟨signature, out, instr, hsignature, hout, hinstr, hdeposit⟩ := getDepositData_ok h
  obtain ⟨signature', out', instr', hsignature', hout', hinstr', hdeposit'⟩ := getDepositData_ok h'
  cases hsignature.symm.trans hsignature'
  obtain rfl := ext.final _ _ _ hout hout'
  rw [ext.instructionAt, hinstr] at hinstr'
  cases hinstr'
  rw [ext.instructionDeposit, hdeposit] at hdeposit'
  exact Outcome.ok.inj hdeposit'

theorem Extends.avoids_getDepositData (ext : p.Extends p')
    (h' : p'.getDepositData identifier = .ok data') (withCore : Bool) :
    (p.getDepositData identifier).Avoids (GoError.Within (Marks withCore)) := by
  obtain ⟨signature', out', instr', hsignature', hout', hinstr', hdeposit'⟩ := getDepositData_ok h'
  rw [ext.instructionAt] at hinstr'
  rw [ext.instructionDeposit] at hdeposit'
  rw [getDepositData, locate, bind_assoc]
  refine Outcome.avoids_bind.mpr ⟨by simp, fun signature hsignature => ?_⟩
  simp only [Outcome.wrap_eq_ok, Outcome.ofOption_eq_ok] at hsignature
  cases hsignature.symm.trans hsignature'
  rw [bind_assoc]
  refine Outcome.avoids_bind.mpr ⟨by simp, fun out hout => ?_⟩
  simp only [Outcome.wrap_eq_ok, external_eq_ok] at hout
  obtain rfl := ext.final _ _ _ hout hout'
  rw [hinstr']
  exact Outcome.avoids_of_eq_ok hdeposit'

end Solana.Client

end TssSvc.Bridge
