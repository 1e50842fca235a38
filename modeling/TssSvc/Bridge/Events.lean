import TssSvc.Bridge.Evm
import TssSvc.Bridge.Fetcher
import TssSvc.Bridge.Utxo
import TssSvc.Bridge.Zano

/-!
# Deposit events

What an identifier stands for on its chain: a log of a receipt, an output of a transaction, the
burn operation of a transaction.  Two identifiers of one event are aliases: they differ in the
case of the hash digits only, or, on Zano, in the index of the memo entry.
-/

set_option autoImplicit false

namespace TssSvc.Bridge

open TssSvc.Db

/-- The chains whose transaction hashes are `0x` and hex digits for the client and its node. -/
def ChainType.hexHashes : ChainType → Bool
  | evm | bitcoin | zano => true
  | ton | solana | other => false

inductive BridgeClient where
  | evm (client : Evm.Client)
  | utxo (client : Utxo.Client)
  | zano (client : Zano.Client)
  | other (client : Client) (foreign : client.type.hexHashes = false)

def BridgeClient.toClient : BridgeClient → Client
  | evm client => client.toClient
  | utxo client => client.toClient
  | zano client => client.toClient
  | other client _ => client

/-- What the nodes and the core answer at one time. -/
structure View where
  clients : List BridgeClient
  core : Core

namespace View

def repository (v : View) : Repository := ⟨v.clients.map BridgeClient.toClient⟩

def client (v : View) (chainId : GoString) : Option BridgeClient :=
  v.clients.reverse.find? fun cl => decide (cl.toClient.chainId = chainId)

theorem repository_client (v : View) (chainId : GoString) :
    v.repository.client chainId =
      .ofOption Sentinel.errChainNotSupported.toErr
        ((v.client chainId).map BridgeClient.toClient) :=
  Repository.client_map _ _ _

end View

/-- The position of a deposit on its chain. -/
inductive DepositEvent where
  | log (chainId : GoString) (txHash : Bytes) (index : Int)
  | output (chainId : GoString) (txid : GoString) (index : Int)
  | burn (chainId : GoString) (txHash : GoString)
  deriving DecidableEq, Repr

def BridgeClient.depositEvent (cl : BridgeClient) (id : DepositIdentifier) : Option DepositEvent :=
  match cl with
  | evm p =>
      match p.getDepositData id, p.getTransactionReceipt (hexToHash id.txHash) with
      | .ok _, .ok (receipt, _) => some (.log id.chainId receipt.txHash id.txNonce)
      | _, _ => none
  | utxo c =>
      match c.getDepositData id, c.getTransaction id.txHash with
      | .ok _, .ok tx => some (.output id.chainId tx.txid id.txNonce)
      | _, _ => none
  | zano p =>
      match p.getDepositData id, p.getTransaction id.txHash with
      | .ok _, .ok (some tx) => some (.burn id.chainId tx.txHash)
      | _, _ => none
  | other _ _ => none

def View.depositEvent (v : View) (id : DepositIdentifier) : Option DepositEvent :=
  (v.client id.chainId).bind fun cl => cl.depositEvent id

/-- The node finds a transaction under its own hash only, in either case of the digits. -/
def BridgeClient.Honest : BridgeClient → Prop
  | evm p =>
      (∀ hash tx, p.rpc.transactionByHash hash = .ok (some tx) → tx.hash = hash) ∧
        ∀ hash receipt, p.rpc.transactionReceipt hash = .ok (some receipt) → receipt.txHash = hash
  | utxo c => ∀ hash tx, c.rpc.getRawTransactionVerbose hash = .ok tx → tx.txid = toLower hash
  | zano p => ∀ hash resp, p.getTransactions hash = .ok resp →
      ∀ tx ∈ resp.incoming, tx.txHash = toLower hash
  | other _ _ => True

/-! ## Reading an event back -/

theorem evm_receipt_txHash {p : Evm.Client} (honest : (BridgeClient.evm p).Honest) {hash : Bytes}
    {receipt : Evm.Receipt} {sender : Bytes}
    (h : p.getTransactionReceipt hash = .ok (receipt, sender)) : receipt.txHash = hash := by
  obtain ⟨tx, htx, hreceipt⟩ := Evm.Client.getTransactionReceipt_ok h
  rw [honest.2 _ _ hreceipt, honest.1 _ _ htx]

theorem utxo_txid {c : Utxo.Client} (honest : (BridgeClient.utxo c).Honest) {hash : GoString}
    {tx : Utxo.TxRawResult} (h : c.getTransaction hash = .ok tx) :
    tx.txid = toLower (trimHexPrefix hash) := by
  simp only [Utxo.Client.getTransaction] at h
  split at h
  · rename_i found hfound
    cases h
    exact honest _ _ hfound
  · split at h <;> cases h

theorem zano_txHash {p : Zano.Client} (honest : (BridgeClient.zano p).Honest) {hash : GoString}
    {tx : Zano.Transaction} (h : p.getTransaction hash = .ok (some tx)) :
    tx.txHash = toLower (trimHexPrefix hash) := by
  simp only [Zano.Client.getTransaction, Outcome.bind_eq_ok, Outcome.wrap_eq_ok, external_eq_ok,
    Outcome.pure_eq_ok, Outcome.ok.injEq] at h
  obtain ⟨resp, hresp, hhead⟩ := h
  exact honest _ _ hresp tx (List.mem_of_mem_head? hhead)

theorem depositEvent_eq {cl : BridgeClient} {id : DepositIdentifier} {event : DepositEvent}
    (honest : cl.Honest) (h : cl.depositEvent id = some event) :
    (∃ p, cl = .evm p ∧ event = .log id.chainId (hexToHash id.txHash) id.txNonce) ∨
      (∃ c, cl = .utxo c ∧
        event = .output id.chainId (toLower (trimHexPrefix id.txHash)) id.txNonce) ∨
      ∃ p, cl = .zano p ∧ event = .burn id.chainId (toLower (trimHexPrefix id.txHash)) := by
  cases cl with
  | evm p =>
      simp only [BridgeClient.depositEvent] at h
      split at h
      · rename_i receipt _ hreceipt
        rw [evm_receipt_txHash honest hreceipt] at h
        exact .inl ⟨p, rfl, (Option.some.inj h).symm⟩
      · cases h
  | utxo c =>
      simp only [BridgeClient.depositEvent] at h
      split at h
      · rename_i tx _ htx
        rw [utxo_txid honest htx] at h
        exact .inr (.inl ⟨c, rfl, (Option.some.inj h).symm⟩)
      · cases h
  | zano p =>
      simp only [BridgeClient.depositEvent] at h
      split at h
      · rename_i tx _ htx
        rw [zano_txHash honest htx] at h
        exact .inr (.inr ⟨p, rfl, (Option.some.inj h).symm⟩)
      · cases h
  | other client foreign => cases h

/-- Equal hashes up to case, on one chain, and equal indices unless the chain has none. -/
def Alias (indexed : GoString → Bool) (a b : DepositIdentifier) : Prop :=
  a.chainId = b.chainId ∧ toLower a.txHash = toLower b.txHash ∧
    (a.txNonce = b.txNonce ∨ indexed a.chainId = false)

instance (indexed : GoString → Bool) (a b : DepositIdentifier) : Decidable (Alias indexed a b) :=
  inferInstanceAs (Decidable (_ ∧ _ ∧ _))

theorem Alias.symm {indexed : GoString → Bool} {a b : DepositIdentifier}
    (h : Alias indexed a b) : Alias indexed b a := by
  obtain ⟨hchain, hhash, hnonce⟩ := h
  refine ⟨hchain.symm, hhash.symm, ?_⟩
  rw [← hchain]
  exact hnonce.imp Eq.symm id

theorem alias_of_depositEvent {cl cl' : BridgeClient} {a b : DepositIdentifier}
    {event : DepositEvent} {indexed : GoString → Bool} (honest : cl.Honest) (honest' : cl'.Honest)
    (valid : defaultTransactionHashPattern a.txHash = true)
    (valid' : defaultTransactionHashPattern b.txHash = true)
    (burns : ∀ p, cl = .zano p → indexed a.chainId = false)
    (h : cl.depositEvent a = some event) (h' : cl'.depositEvent b = some event) :
    Alias indexed a b := by
  rcases depositEvent_eq honest h with ⟨p, -, rfl⟩ | ⟨c, -, rfl⟩ | ⟨p, hcl, rfl⟩
  · rcases depositEvent_eq honest' h' with ⟨p', -, heq⟩ | ⟨c', -, heq⟩ | ⟨p', -, heq⟩
    · injection heq with hchain hhash hindex
      refine ⟨hchain, ?_, .inl hindex⟩
      rw [toLower_eq_of_pattern valid, toLower_eq_of_pattern valid', hhash]
    · cases heq
    · cases heq
  · rcases depositEvent_eq honest' h' with ⟨p', -, heq⟩ | ⟨c', -, heq⟩ | ⟨p', -, heq⟩
    · cases heq
    · injection heq with hchain hhash hindex
      refine ⟨hchain, ?_, .inl hindex⟩
      rw [toLower_trimHexPrefix valid, toLower_trimHexPrefix valid', hhash]
    · cases heq
  · rcases depositEvent_eq honest' h' with ⟨p', -, heq⟩ | ⟨c', -, heq⟩ | ⟨p', -, heq⟩
    · cases heq
    · cases heq
    · injection heq with hchain hhash
      refine ⟨hchain, ?_, .inr (burns p hcl)⟩
      rw [toLower_trimHexPrefix valid, toLower_trimHexPrefix valid', hhash]

/-! ## A small world -/

def sampleToken : TokenInfo :=
  ⟨defaultNativeTokenAddress, 18, str "1", 7, false, str "0", []⟩

/-- The core knows one token, has no transaction and takes no commission. -/
def coreTrading (token : TokenInfo) : Core where
  referral _ := .notFound
  tokenInfo _ _ := .found token
  token _ := .found [token]
  transaction _ _ _ := .notFound
  isDefaultReferralId id := decide (id = 0)
  getCommissionAmount _ _ := .ok 0

def sampleReceiver : GoString := str "0x52908400098527886e0f7030069857d2e4169ee7"

def sampleLog : Evm.Log := ⟨[0xB1], [[0xE1]], [], 10⟩

/-- A chain on which every transaction succeeded and emitted the same deposit twice. -/
def evmDepositing (id : GoString) (body : Evm.EventBody) : Evm.Client where
  id := id
  bridgeAddress := [0xB1]
  confirmations := 1
  rpc := {
    transactionByHash := fun hash => .ok (some ⟨hash, true, false, some [0xA1], .error []⟩)
    transactionReceipt := fun hash => .ok (some ⟨hash, 1, [sampleLog, sampleLog], 10⟩)
    blockNumber := .ok 10 }
  supportedEvents _ := some .v1DepositedNative
  unpack _ _ := some body
  addressHex bytes := hexPrefix ++ formatHex bytes
  keccak256 bytes := bytes

theorem evmDepositing_honest (id : GoString) (body : Evm.EventBody) :
    (BridgeClient.evm (evmDepositing id body)).Honest := by
  constructor
  · intro hash tx h
    cases h
    rfl
  · intro hash receipt h
    cases h
    rfl

end TssSvc.Bridge
