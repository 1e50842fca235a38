import TssSvc.Lib.Words
import TssSvc.Bridge.Signability

/-!
# What a withdrawal's sign hash binds

The bytes that `GetSignHash` hashes, for the EVM and the Solana client, and what two fetched
deposits with the same bytes have in common.  Every field has a fixed width, so the bytes give
the fields back.  Only the amount of an EVM withdrawal can be more than its field: `ToBytes32`
keeps the first 32 bytes of a longer number, and the amount is unbounded once the decimals have
been scaled.
-/

set_option autoImplicit false

namespace TssSvc.Bridge

open TssSvc.Db

/-- A non-negative `int64`. -/
def NonceFits (nonce : Int) : Prop := 0 ≤ nonce ∧ nonce < 2 ^ 63

/-! ## Words of an EVM operation -/

namespace Evm

theorem length_toBytes32 (arr : Bytes) : (toBytes32 arr).length = 32 := by
  unfold toBytes32
  split
  · rename_i h
    simp [h]
  · rename_i h
    simp only [List.length_append, List.length_replicate]
    omega

theorem bigEndian_bigBytes (x : Int) : bigEndian (bigBytes x) = x.natAbs := bigEndian_digits _

/-- The word of a number denotes it exactly when it is one of 256 bits. -/
theorem bigEndian_word_iff (x : Int) :
    (bigEndian (toBytes32 (bigBytes x)) : Int) = x ↔ 0 ≤ x ∧ x < 2 ^ 256 := by
  have hlt := bigEndian_lt (toBytes32 (bigBytes x))
  rw [length_toBytes32] at hlt
  constructor
  · intro h
    omega
  · rintro ⟨hlow, hhigh⟩
    have hlength : (bigBytes x).length ≤ 32 := by
      unfold bigBytes
      rw [List.length_map, List.length_reverse, Nat.digits_length_le_iff (by decide)]
      omega
    have hword : bigEndian (toBytes32 (bigBytes x)) = x.natAbs := by
      rw [← bigEndian_bigBytes x]
      unfold toBytes32
      split
      · rw [List.take_of_length_le hlength]
      · exact bigEndian_zeros _ _
    omega

theorem word_inj {x y : Int} (hx : 0 ≤ x ∧ x < 2 ^ 256) (hy : 0 ≤ y ∧ y < 2 ^ 256)
    (h : toBytes32 (bigBytes x) = toBytes32 (bigBytes y)) : x = y := by
  rw [← (bigEndian_word_iff x).mpr hx, ← (bigEndian_word_iff y).mpr hy, h]

theorem boolToBytes_injective : Function.Injective boolToBytes := by decide

end Evm

theorem length_hexToAddress (s : GoString) : (hexToAddress s).length = 20 := length_fitBytes 20 _

theorem length_of_isHexAddress {s : GoString} {bytes : Bytes} (h : isHexAddress s = true)
    (hdecode : hexutilDecode s = some bytes) : bytes.length = 20 := by
  simp only [isHexAddress, Bool.and_eq_true, decide_eq_true_eq] at h
  unfold hexutilDecode at hdecode
  split at hdecode
  · rename_i hmarked
    unfold decodeString at hdecode
    split at hdecode
    · rename_i hvalid
      have hlength := hexDecode_length (s.drop 2) hvalid
      cases hdecode
      simp only [digitsOf, hmarked, if_true] at h
      omega
    · cases hdecode
  · cases hdecode

/-! ## Transaction hashes -/

/-- The bytes of a text that is a 32-byte hash in hex. -/
def realHash (txHash : GoString) : Option Bytes :=
  (hexutilDecode txHash).filter fun hashBytes => decide (hashBytes.length = 32)

theorem hashBytesOrDigest_eq (keccak256 : Bytes → Bytes) (txHash : GoString) :
    hashBytesOrDigest keccak256 txHash = (realHash txHash).getD (keccak256 txHash) := by
  unfold hashBytesOrDigest realHash
  cases hexutilDecode txHash with
  | none => rfl
  | some hashBytes =>
      by_cases hlength : hashBytes.length = 32
      · simp [Option.filter, hlength]
      · simp [Option.filter, hlength]

/-- The digests of the texts are 32 bytes long, different for different texts, and none of them
is one of the hashes that the texts hold. -/
structure DigestsApart (keccak256 : Bytes → Bytes) (texts : Set GoString) : Prop where
  length : ∀ m, (keccak256 m).length = 32
  collisionFree : Set.InjOn keccak256 texts
  disjoint : ∀ t ∈ texts, ∀ t' ∈ texts, ∀ hashBytes, realHash t' = some hashBytes →
    keccak256 t ≠ hashBytes

/-- The same 32 bytes, or the same text that is no 32-byte hash. -/
def SameTxHash (t t' : GoString) : Prop :=
  realHash t = realHash t' ∧ (realHash t = none → t = t')

namespace DigestsApart

variable {keccak256 : Bytes → Bytes} {texts : Set GoString} (apart : DigestsApart keccak256 texts)
include apart

theorem length_hashBytesOrDigest (txHash : GoString) :
    (hashBytesOrDigest keccak256 txHash).length = 32 := by
  rw [hashBytesOrDigest_eq]
  cases hreal : realHash txHash with
  | none => exact apart.length txHash
  | some hashBytes =>
      obtain ⟨-, hlength⟩ := Option.filter_eq_some_iff.mp hreal
      exact of_decide_eq_true hlength

theorem sameTxHash {t t' : GoString} (ht : t ∈ texts) (ht' : t' ∈ texts)
    (h : hashBytesOrDigest keccak256 t = hashBytesOrDigest keccak256 t') : SameTxHash t t' := by
  rw [hashBytesOrDigest_eq, hashBytesOrDigest_eq] at h
  cases hreal : realHash t with
  | none =>
      cases hreal' : realHash t' with
      | none =>
          rw [hreal, hreal'] at h
          exact ⟨hreal.trans hreal'.symm, fun _ => apart.collisionFree ht ht' h⟩
      | some hashBytes =>
          rw [hreal, hreal'] at h
          exact absurd h (apart.disjoint t ht t' ht' hashBytes hreal')
  | some hashBytes =>
      cases hreal' : realHash t' with
      | none =>
          rw [hreal, hreal'] at h
          exact absurd h.symm (apart.disjoint t' ht' t ht hashBytes hreal)
      | some hashBytes' =>
          rw [hreal, hreal'] at h
          obtain rfl : hashBytes = hashBytes' := h
          exact ⟨hreal.trans hreal'.symm, fun hnone => absurd (hreal.symm.trans hnone) (by simp)⟩

end DigestsApart

/-! ## The EVM operations -/

namespace Evm

def Operation.amount : Operation → Bytes
  | native content => content.amount
  | erc20 content => content.amount

theorem mustDecode_eq_ok {s : GoString} {bytes : Bytes} :
    (mustDecode s : Result Bytes) = .ok bytes ↔ hexutilDecode s = some bytes := by
  unfold mustDecode
  cases hexutilDecode s <;> simp

/-- What the deposit puts into the words that both kinds have. -/
structure Words (p : Client) (data : Deposit) (amount receiver txHash txNonce chainId : Bytes) :
    Prop where
  amount : ∃ value, Decimal.setString data.withdrawalAmount = some value ∧
    amount = toBytes32 (bigBytes value)
  receiver : hexutilDecode data.receiver = some receiver
  txHash : txHash = txHashToBytes32 p.keccak256 data.identifier.txHash
  txNonce : txNonce = intToBytes32 data.identifier.txNonce
  chainId : ∃ value, chainId = toBytes32 (bigBytes value)

/-- What an operation was made of. -/
inductive Built (p : Client) (data : Deposit) : Operation → Prop
  | native (content : WithdrawNativeContent)
      (kind : data.withdrawalToken = defaultNativeTokenAddress)
      (words : Words p data content.amount content.receiver content.txHash content.txNonce
        content.chainId) : Built p data (.native content)
  | erc20 (content : WithdrawERC20Content)
      (kind : data.withdrawalToken ≠ defaultNativeTokenAddress)
      (words : Words p data content.amount content.receiver content.txHash content.txNonce
        content.chainId)
      (token : content.destinationTokenAddress = hexToAddress data.withdrawalToken)
      (wrapped : content.isWrapped = boolToBytes data.isWrappedToken) :
      Built p data (.erc20 content)

theorem Client.operation_ok {p : Client} {data : Deposit} {op : Operation}
    (h : p.operation data = .ok op) : Built p data op := by
  unfold operation at h
  split at h
  · rename_i hnative
    simp only [newWithdrawNativeContent, Outcome.bind_eq_ok, Outcome.ofOption_eq_ok,
      mustDecode_eq_ok, Outcome.pure_eq_ok, Outcome.ok.injEq] at h
    obtain ⟨content, ⟨chainId, hchain, value, hvalue, receiver, hreceiver, rfl⟩, rfl⟩ := h
    exact .native _ hnative ⟨⟨value, hvalue, rfl⟩, hreceiver, rfl, rfl, chainId, rfl⟩
  · rename_i htoken
    simp only [newWithdrawERC20Content, Outcome.bind_eq_ok, Outcome.ofOption_eq_ok,
      Outcome.check_eq_ok, mustDecode_eq_ok, Outcome.pure_eq_ok, Outcome.ok.injEq] at h
    obtain ⟨content, ⟨chainId, hchain, value, hvalue, _, _, receiver, hreceiver, rfl⟩, rfl⟩ := h
    exact .erc20 _ htoken ⟨⟨value, hvalue, rfl⟩, hreceiver, rfl, rfl, chainId, rfl⟩ rfl rfl

/-! ## Two operations with the same bytes -/

/-- The amount is a number of 256 bits. -/
def AmountFits (data : Deposit) : Prop :=
  ∃ value : Int, Decimal.setString data.withdrawalAmount = some value ∧ 0 ≤ value ∧
    value < 2 ^ 256

/-- The amount word of the operation denotes the amount of the deposit. -/
def AmountRead (data : Deposit) (op : Operation) : Prop :=
  Decimal.setString data.withdrawalAmount = some (bigEndian op.amount : Int)

/-- The two deposits ask for the same withdrawal. -/
structure SameWithdrawal (d d' : Deposit) : Prop where
  kind : d.withdrawalToken = defaultNativeTokenAddress ↔
    d'.withdrawalToken = defaultNativeTokenAddress
  amount : d.withdrawalAmount = d'.withdrawalAmount
  receiver : hexutilDecode d.receiver = hexutilDecode d'.receiver
  txHash : SameTxHash d.identifier.txHash d'.identifier.txHash
  txNonce : d.identifier.txNonce = d'.identifier.txNonce
  chainId : d.withdrawalChainId = d'.withdrawalChainId
  token : d.withdrawalToken ≠ defaultNativeTokenAddress →
    hexToAddress d.withdrawalToken = hexToAddress d'.withdrawalToken ∧
      d.isWrappedToken = d'.isWrappedToken

theorem Built.amountRead_iff {p : Client} {data : Deposit} {op : Operation}
    (built : Built p data op) : AmountRead data op ↔ AmountFits data := by
  have hword : ∃ value, Decimal.setString data.withdrawalAmount = some value ∧
      op.amount = toBytes32 (bigBytes value) := by
    cases built with
    | native _ _ words => exact words.amount
    | erc20 _ _ words _ _ => exact words.amount
  obtain ⟨value, hvalue, hword⟩ := hword
  unfold AmountRead AmountFits
  rw [hword, hvalue]
  simp only [Option.some.injEq, exists_eq_left']
  rw [eq_comm, bigEndian_word_iff]

/-- What `FetchDeposit` gives for a destination on the chain of `p`. -/
structure Admitted (p : Client) (data : Deposit) : Prop where
  chainId : data.withdrawalChainId = p.id
  receiver : isHexAddress data.receiver = true
  amount : ∃ value, data.withdrawalAmount = Decimal.formatInt value

theorem Admitted.of_fetched {clients : Repository} {core : Core} {identifier : DepositIdentifier}
    {p : Client} {data : Deposit} (fetched : fetchDeposit clients core identifier = .ok data)
    (hclient : clients.client data.withdrawalChainId = .ok p.toClient) : Admitted p data := by
  obtain ⟨f⟩ := fetchDeposit_ok fetched
  exact ⟨(Repository.client_ok hclient).2.symm, Signability.receiver_valid f hclient,
    _, Signability.withdrawalAmount_eq f⟩

theorem Admitted.amount_inj {p p' : Client} {d d' : Deposit} (admitted : Admitted p d)
    (admitted' : Admitted p' d') {value : Int}
    (h : Decimal.setString d.withdrawalAmount = some value)
    (h' : Decimal.setString d'.withdrawalAmount = some value) :
    d.withdrawalAmount = d'.withdrawalAmount := by
  obtain ⟨x, hx⟩ := admitted.amount
  obtain ⟨x', hx'⟩ := admitted'.amount
  rw [hx, Decimal.setString_formatInt] at h
  rw [hx', Decimal.setString_formatInt] at h'
  cases h
  cases h'
  rw [hx, hx']

section Pair

variable {p : Client} {texts : Set GoString} (apart : DigestsApart p.keccak256 texts)
  {d d' : Deposit} (admitted : Admitted p d) (admitted' : Admitted p d')
  {amount receiver txHash txNonce chainId : Bytes}
  {amount' receiver' txHash' txNonce' chainId' : Bytes}
include apart admitted

theorem Words.lengths (words : Words p d amount receiver txHash txNonce chainId) :
    amount.length = 32 ∧ receiver.length = 20 ∧ txHash.length = 32 ∧ txNonce.length = 32 ∧
      chainId.length = 32 := by
  obtain ⟨⟨value, -, rfl⟩, hdecode, rfl, rfl, chain, rfl⟩ := words
  exact ⟨length_toBytes32 _, length_of_isHexAddress admitted.receiver hdecode,
    apart.length_hashBytesOrDigest _, length_toBytes32 _, length_toBytes32 _⟩

theorem Built.length_preimage {op : Operation} (built : Built p d op) :
    op.preimage.length =
      if d.withdrawalToken = defaultNativeTokenAddress then 148 else 169 := by
  cases built with
  | native content kind words =>
      obtain ⟨ha, hr, ht, hn, hc⟩ := words.lengths apart admitted
      simp [Operation.preimage, WithdrawNativeContent.preimage, ha, hr, ht, hn, hc, kind]
  | erc20 content kind words token wrapped =>
      obtain ⟨ha, hr, ht, hn, hc⟩ := words.lengths apart admitted
      have hwrapped : content.isWrapped.length = 1 := by
        rw [wrapped]
        unfold boolToBytes
        split <;> rfl
      simp [Operation.preimage, WithdrawERC20Content.preimage, ha, hr, ht, hn, hc, kind, token,
        length_hexToAddress, hwrapped]

include admitted'

/-- The five words are taken off the end one by one. -/
theorem Words.append_inj (words : Words p d amount receiver txHash txNonce chainId)
    (words' : Words p d' amount' receiver' txHash' txNonce' chainId') (front front' : Bytes)
    (h : front ++ amount ++ receiver ++ txHash ++ txNonce ++ chainId =
      front' ++ amount' ++ receiver' ++ txHash' ++ txNonce' ++ chainId') :
    front = front' ∧ amount = amount' ∧ receiver = receiver' ∧ txHash = txHash' ∧
      txNonce = txNonce' := by
  obtain ⟨ha, hr, ht, hn, hc⟩ := words.lengths apart admitted
  obtain ⟨ha', hr', ht', hn', hc'⟩ := words'.lengths apart admitted'
  obtain ⟨h, -⟩ := List.append_inj' h (hc.trans hc'.symm)
  obtain ⟨h, hnonce⟩ := List.append_inj' h (hn.trans hn'.symm)
  obtain ⟨h, hhash⟩ := List.append_inj' h (ht.trans ht'.symm)
  obtain ⟨h, hreceiver⟩ := List.append_inj' h (hr.trans hr'.symm)
  obtain ⟨hfront, hamount⟩ := List.append_inj' h (ha.trans ha'.symm)
  exact ⟨hfront, hamount, hreceiver, hhash, hnonce⟩

variable (fits : AmountFits d) (fits' : AmountFits d')
  (nonce : NonceFits d.identifier.txNonce) (nonce' : NonceFits d'.identifier.txNonce)
  (ht : d.identifier.txHash ∈ texts) (ht' : d'.identifier.txHash ∈ texts)
include fits fits' nonce nonce' ht ht'

/-- Deposits with the same words, of the same kind and token. -/
theorem Words.sameWithdrawal (words : Words p d amount receiver txHash txNonce chainId)
    (words' : Words p d' amount receiver txHash txNonce chainId')
    (kind : d.withdrawalToken = defaultNativeTokenAddress ↔
      d'.withdrawalToken = defaultNativeTokenAddress)
    (token : d.withdrawalToken ≠ defaultNativeTokenAddress →
      hexToAddress d.withdrawalToken = hexToAddress d'.withdrawalToken ∧
        d.isWrappedToken = d'.isWrappedToken) : SameWithdrawal d d' where
  kind := kind
  amount := by
    obtain ⟨value, hvalue, rfl⟩ := words.amount
    obtain ⟨value', hvalue', hword⟩ := words'.amount
    obtain ⟨_, hread, hrange⟩ := fits
    obtain ⟨_, hread', hrange'⟩ := fits'
    cases hvalue.symm.trans hread
    cases hvalue'.symm.trans hread'
    obtain rfl := word_inj hrange hrange' hword
    exact admitted.amount_inj admitted' hvalue hvalue'
  receiver := words.receiver.trans words'.receiver.symm
  txHash := apart.sameTxHash ht ht' (words.txHash.symm.trans words'.txHash)
  txNonce := by
    obtain ⟨hlow, hhigh⟩ := nonce
    obtain ⟨hlow', hhigh'⟩ := nonce'
    exact word_inj ⟨hlow, by omega⟩ ⟨hlow', by omega⟩ (words.txNonce.symm.trans words'.txNonce)
  chainId := admitted.chainId.trans admitted'.chainId.symm
  token := token

theorem Built.sameWithdrawal {op op' : Operation} (built : Built p d op)
    (built' : Built p d' op') (h : op.preimage = op'.preimage) : SameWithdrawal d d' := by
  have hlength : op.preimage.length = op'.preimage.length := congrArg List.length h
  rw [built.length_preimage apart admitted, built'.length_preimage apart admitted'] at hlength
  cases built with
  | native content kind words =>
      cases built' with
      | erc20 content' kind' words' _ _ => simp [kind, kind'] at hlength
      | native content' kind' words' =>
          obtain ⟨-, hamount, hreceiver, hhash, hnonce⟩ :=
            words.append_inj apart admitted admitted' words' [] [] h
          rw [← hamount, ← hreceiver, ← hhash, ← hnonce] at words'
          exact words.sameWithdrawal apart admitted admitted' fits fits' nonce nonce' ht ht' words'
            (iff_of_true kind kind') fun hne => absurd kind hne
  | erc20 content kind words token wrapped =>
      cases built' with
      | native content' kind' words' => simp [kind, kind'] at hlength
      | erc20 content' kind' words' token' wrapped' =>
          obtain ⟨h, hwrapped⟩ := List.append_inj' h (by
            rw [wrapped, wrapped']
            cases d.isWrappedToken <;> cases d'.isWrappedToken <;> rfl)
          obtain ⟨htoken, hamount, hreceiver, hhash, hnonce⟩ :=
            words.append_inj apart admitted admitted' words' _ _ h
          rw [← hamount, ← hreceiver, ← hhash, ← hnonce] at words'
          refine words.sameWithdrawal apart admitted admitted' fits fits' nonce nonce' ht ht' words'
            (iff_of_false kind kind') fun _ => ⟨?_, ?_⟩
          · rw [← token, htoken, token']
          · exact boolToBytes_injective (wrapped.symm.trans (hwrapped.trans wrapped'))

end Pair

end Evm

/-! ## The Solana buffer -/

namespace Solana

theorem length_littleEndian64 (n : Nat) : (littleEndian64 n).length = 8 := by
  simp [littleEndian64]

theorem littleEndian64_inj {n m : Nat} (hn : n < 2 ^ 64) (hm : m < 2 ^ 64)
    (h : littleEndian64 n = littleEndian64 m) : n = m := by
  have hword := congrArg littleEndian h
  unfold littleEndian64 at hword
  rw [littleEndian_range, littleEndian_range] at hword
  omega

theorem uidInput_inj {id id' : DepositIdentifier} (nonce : NonceFits id.txNonce)
    (nonce' : NonceFits id'.txNonce) (h : uidInput id = uidInput id') :
    id.txHash = id'.txHash ∧ id.txNonce = id'.txNonce := by
  unfold NonceFits at nonce nonce'
  obtain ⟨hhash, hword⟩ := List.append_inj' h (by rw [length_littleEndian64, length_littleEndian64])
  have hnonce := littleEndian64_inj (by unfold toUint64; omega) (by unfold toUint64; omega) hword
  unfold toUint64 at hnonce
  exact ⟨hhash, by omega⟩

theorem publicKeyFromBase58_length {s : GoString} {key : Bytes}
    (h : publicKeyFromBase58 s = some key) : key.length = 32 :=
  of_decide_eq_true (Option.filter_eq_some_iff.mp h).2

theorem publicKeyFromBase58_inj {s s' : GoString} {key : Bytes}
    (h : publicKeyFromBase58 s = some key) (h' : publicKeyFromBase58 s' = some key) : s = s' :=
  Base58.decode_inj (Option.filter_eq_some_iff.mp h).1 (Option.filter_eq_some_iff.mp h').1

/-- The bytes of the token tell the token, native or not. -/
theorem Client.tokenBytes_inj {token token' : GoString} {bytes : Bytes}
    (h : tokenBytes token = .ok bytes) (h' : tokenBytes token' = .ok bytes) : token = token' := by
  unfold tokenBytes at h h'
  split at h
  · rename_i hnative
    cases h
    split at h'
    · rename_i hnative'
      rw [hnative, hnative']
    · have hlength := publicKeyFromBase58_length (Outcome.ofOption_eq_ok.mp h')
      cases hlength
  · have hkey := Outcome.ofOption_eq_ok.mp h
    split at h'
    · cases h'
      have hlength := publicKeyFromBase58_length hkey
      cases hlength
    · exact publicKeyFromBase58_inj hkey (Outcome.ofOption_eq_ok.mp h')

/-- The two deposits ask for the same withdrawal. -/
structure SameWithdrawal (d d' : Deposit) : Prop where
  kind : d.withdrawalToken = defaultNativeTokenAddress ↔
    d'.withdrawalToken = defaultNativeTokenAddress
  amount : d.withdrawalAmount = d'.withdrawalAmount
  txHash : d.identifier.txHash = d'.identifier.txHash
  txNonce : d.identifier.txNonce = d'.identifier.txNonce
  receiver : d.receiver = d'.receiver
  token : d.withdrawalToken = d'.withdrawalToken

/-- What the buffer is made of. -/
structure Buffered (p : Client) (data : Deposit) (buffer : Bytes) where
  amount : Nat
  receiver : Bytes
  token : Bytes
  amountRead : Decimal.parseUint64 data.withdrawalAmount = some amount
  receiverRead : publicKeyFromBase58 data.receiver = some receiver
  tokenRead : Client.tokenBytes data.withdrawalToken = .ok token
  result : buffer = str "withdraw" ++ p.bridgeId ++ littleEndian64 amount ++
    p.sha256 (uidInput data.identifier) ++ receiver ++ token

theorem Client.withdrawBuffer_ok {p : Client} {data : Deposit} {buffer : Bytes}
    (h : p.withdrawBuffer data = .ok buffer) : Nonempty (Buffered p data buffer) := by
  simp only [withdrawBuffer, Outcome.bind_eq_ok, Outcome.wrap_eq_ok, Outcome.ofOption_eq_ok,
    Outcome.pure_eq_ok, Outcome.ok.injEq] at h
  obtain ⟨amount, hamount, receiver, hreceiver, token, htoken, hresult⟩ := h
  exact ⟨⟨amount, receiver, token, hamount, hreceiver, htoken, hresult.symm⟩⟩

/-- The parts of fixed width are taken off the front; what is left is the token. -/
theorem Buffered.parts {p : Client} {d d' : Deposit} {buffer : Bytes}
    (hlength : ∀ m, (p.sha256 m).length = 32) (b : Buffered p d buffer)
    (b' : Buffered p d' buffer) :
    littleEndian64 b.amount = littleEndian64 b'.amount ∧
      p.sha256 (uidInput d.identifier) = p.sha256 (uidInput d'.identifier) ∧
      b.receiver = b'.receiver ∧ b.token = b'.token := by
  have h := b.result.symm.trans b'.result
  simp only [List.append_assoc] at h
  have hfront := List.append_cancel_left (List.append_cancel_left h)
  obtain ⟨hamount, hrest⟩ := List.append_inj hfront
    (by rw [length_littleEndian64, length_littleEndian64])
  obtain ⟨huid, hrest⟩ := List.append_inj hrest (by rw [hlength, hlength])
  obtain ⟨hreceiver, htoken⟩ := List.append_inj hrest (by
    rw [publicKeyFromBase58_length b.receiverRead, publicKeyFromBase58_length b'.receiverRead])
  exact ⟨hamount, huid, hreceiver, htoken⟩

/-- Deposits with one buffer ask for the same withdrawal. -/
theorem Buffered.sameWithdrawal {p : Client} {d d' : Deposit} {buffer : Bytes}
    (hlength : ∀ m, (p.sha256 m).length = 32)
    (collisionFree : Set.InjOn p.sha256 {uidInput d.identifier, uidInput d'.identifier})
    {value value' : Int} (hvalue : d.withdrawalAmount = Decimal.formatInt value)
    (hvalue' : d'.withdrawalAmount = Decimal.formatInt value')
    (nonce : NonceFits d.identifier.txNonce) (nonce' : NonceFits d'.identifier.txNonce)
    (b : Buffered p d buffer) (b' : Buffered p d' buffer) : SameWithdrawal d d' := by
  obtain ⟨hamount, huid, hreceiver, htoken⟩ := b.parts hlength b'
  obtain ⟨hhash, hnonce⟩ := uidInput_inj nonce nonce' (collisionFree (by simp) (by simp) huid)
  have hreceiverEq : d.receiver = d'.receiver :=
    publicKeyFromBase58_inj b.receiverRead (hreceiver ▸ b'.receiverRead)
  have htokenEq : d.withdrawalToken = d'.withdrawalToken :=
    Client.tokenBytes_inj b.tokenRead (htoken ▸ b'.tokenRead)
  have hread := b.amountRead
  have hread' := b'.amountRead
  rw [hvalue, Decimal.parseUint64_formatInt_eq_some] at hread
  rw [hvalue', Decimal.parseUint64_formatInt_eq_some] at hread'
  have hword := littleEndian64_inj hread.2 hread'.2 hamount
  refine ⟨by rw [htokenEq], ?_, hhash, hnonce, hreceiverEq, htokenEq⟩
  rw [hvalue, hvalue', hread.1, hread'.1, hword]

end Solana

/-! ## Fetched deposits -/

/-- For two fetched deposits with the same destination client: on an EVM chain the amount words
denote the amounts, and equal bytes are one withdrawal, exactly when both amounts have 256 bits;
on Solana equal buffers are one withdrawal. -/
theorem signHashes_bind_iff {clients clients' : Repository} {core core' : Core}
    {identifier identifier' : DepositIdentifier} {d d' : Deposit}
    (fetched : fetchDeposit clients core identifier = .ok d)
    (fetched' : fetchDeposit clients' core' identifier' = .ok d')
    (nonce : NonceFits d.identifier.txNonce) (nonce' : NonceFits d'.identifier.txNonce) :
    (∀ p : Evm.Client, clients.client d.withdrawalChainId = .ok p.toClient →
      clients'.client d'.withdrawalChainId = .ok p.toClient →
      DigestsApart p.keccak256 {d.identifier.txHash, d'.identifier.txHash} →
      ∀ op op', p.operation d = .ok op → p.operation d' = .ok op' →
        (Evm.AmountRead d op ∧ Evm.AmountRead d' op' ∧
            (op.preimage = op'.preimage → Evm.SameWithdrawal d d') ↔
          Evm.AmountFits d ∧ Evm.AmountFits d')) ∧
    ∀ p : Solana.Client, clients.client d.withdrawalChainId = .ok p.toClient →
      clients'.client d'.withdrawalChainId = .ok p.toClient →
      (∀ m, (p.sha256 m).length = 32) →
      Set.InjOn p.sha256 {Solana.uidInput d.identifier, Solana.uidInput d'.identifier} →
      ∀ buffer, p.withdrawBuffer d = .ok buffer → p.withdrawBuffer d' = .ok buffer →
        Solana.SameWithdrawal d d' := by
  constructor
  · intro p hclient hclient' apart op op' hop hop'
    have admitted := Evm.Admitted.of_fetched fetched hclient
    have admitted' := Evm.Admitted.of_fetched fetched' hclient'
    have built := Evm.Client.operation_ok hop
    have built' := Evm.Client.operation_ok hop'
    constructor
    · rintro ⟨hread, hread', -⟩
      exact ⟨built.amountRead_iff.mp hread, built'.amountRead_iff.mp hread'⟩
    · rintro ⟨fits, fits'⟩
      refine ⟨built.amountRead_iff.mpr fits, built'.amountRead_iff.mpr fits', fun h => ?_⟩
      exact built.sameWithdrawal apart admitted admitted' fits fits' nonce nonce' (by simp)
        (by simp) built' h
  · intro p _ _ hlength collisionFree buffer hbuffer hbuffer'
    obtain ⟨f⟩ := fetchDeposit_ok fetched
    obtain ⟨f'⟩ := fetchDeposit_ok fetched'
    obtain ⟨b⟩ := Solana.Client.withdrawBuffer_ok hbuffer
    obtain ⟨b'⟩ := Solana.Client.withdrawBuffer_ok hbuffer'
    exact b.sameWithdrawal hlength collisionFree (Signability.withdrawalAmount_eq f)
      (Signability.withdrawalAmount_eq f') nonce nonce' b'

section Sample

/-- The last 32 bytes stand for a digest. -/
def bindingEvm : Evm.Client :=
  { evmDepositing (str "1") ⟨[], [], 0, [], 0⟩ with keccak256 := fitBytes 32 }

def bindingSolana : Solana.Client := { Signability.sampleSolana with sha256 := fitBytes 32 }

/-- The deposited token has 17 decimals, the withdrawn one 18. -/
def coreTenfold (dstChainId : GoString) : Core where
  referral _ := .notFound
  tokenInfo _ _ := .found { sampleToken with decimals := 17 }
  token _ := .found [{ sampleToken with chainId := dstChainId }]
  transaction _ _ _ := .notFound
  isDefaultReferralId id := decide (id = 0)
  getCommissionAmount _ _ := .ok 0

/-- Two source chains on which one transaction hash is a deposit. -/
def twinClients (dstChainId receiver : GoString) (amount amount' : Nat) : Repository :=
  ⟨[bindingEvm.toClient, bindingSolana.toClient,
    (evmDepositing (str "2") ⟨dstChainId, receiver, amount, [], 0⟩).toClient,
    (evmDepositing (str "3") ⟨dstChainId, receiver, amount', [], 0⟩).toClient]⟩

def twinIdentifier (chainId : GoString) : DepositIdentifier :=
  { Signability.sampleIdentifier with chainId := chainId }

def twinDeposit (chainId dstChainId receiver : GoString) (amount : Nat) : Deposit :=
  { Signability.fetchedRow ⟨dstChainId, receiver, amount, [], 0⟩ with
    identifier := twinIdentifier chainId
    withdrawalAmount := Decimal.formatInt (amount * 10 : Int) }

def twinOperation (amount : Nat) : Evm.Operation :=
  .native ⟨Evm.toBytes32 (bigBytes (amount * 10)), hexToAddress sampleReceiver,
    List.replicate 32 0xAA, Evm.intToBytes32 0, Evm.toBytes32 (bigBytes 1)⟩

def solanaReceiver : GoString := List.replicate 32 0x31

theorem digestsApart_twin : DigestsApart bindingEvm.keccak256
    {(twinIdentifier (str "2")).txHash, (twinIdentifier (str "3")).txHash} := by
  have htext : (twinIdentifier (str "3")).txHash = (twinIdentifier (str "2")).txHash := rfl
  rw [htext, Set.pair_eq_singleton]
  refine ⟨length_fitBytes 32, Set.injOn_singleton _ _, ?_⟩
  intro t ht t' ht' hashBytes hreal
  rw [Set.mem_singleton_iff.mp ht'] at hreal
  rw [Set.mem_singleton_iff.mp ht]
  have hbytes : realHash (twinIdentifier (str "2")).txHash = some (List.replicate 32 0xAA) := by
    decide +kernel
  cases hreal.symm.trans hbytes
  decide +kernel

/-- Both deposits of `amount` tokens make this operation. -/
theorem operation_twin (chainId : GoString) (amount : Nat) :
    bindingEvm.operation (twinDeposit chainId (str "1") sampleReceiver amount) =
      .ok (twinOperation amount) := by
  have hamount : Decimal.setString
      (twinDeposit chainId (str "1") sampleReceiver amount).withdrawalAmount =
        some (amount * 10 : Int) := by
    simp only [twinDeposit, Decimal.setString_formatInt]
  have hreceiver : mustDecode sampleReceiver = (.ok (hexToAddress sampleReceiver) : Result Bytes) :=
    Evm.mustDecode_eq_ok.mpr (by decide +kernel)
  have hchain : Decimal.setString (str "1") = some 1 := by decide
  have hhash : Evm.txHashToBytes32 bindingEvm.keccak256 Signability.sampleIdentifier.txHash =
      List.replicate 32 0xAA := by decide +kernel
  have hkind : (twinDeposit chainId (str "1") sampleReceiver amount).withdrawalToken =
      defaultNativeTokenAddress := rfl
  unfold Evm.Client.operation Evm.newWithdrawNativeContent
  rw [if_pos hkind, hamount]
  simp only [twinDeposit, Signability.fetchedRow, twinIdentifier, hchain, hreceiver, hhash]
  rfl

theorem signHashes_bind_sample :
    (twinOperation 5).preimage ≠ (twinOperation 6).preimage ∧
      ∀ buffer,
        bindingSolana.withdrawBuffer (twinDeposit (str "2") (str "sol") solanaReceiver 5) =
          .ok buffer →
        bindingSolana.withdrawBuffer (twinDeposit (str "3") (str "sol") solanaReceiver 6) ≠
          .ok buffer := by
  have nonce : NonceFits 0 := by
    unfold NonceFits
    omega
  constructor
  · have hfetch : fetchDeposit (twinClients (str "1") sampleReceiver 5 6) (coreTenfold (str "1"))
        (twinIdentifier (str "2")) = .ok (twinDeposit (str "2") (str "1") sampleReceiver 5) := by
      decide +kernel
    have hfetch' : fetchDeposit (twinClients (str "1") sampleReceiver 5 6) (coreTenfold (str "1"))
        (twinIdentifier (str "3")) = .ok (twinDeposit (str "3") (str "1") sampleReceiver 6) := by
      decide +kernel
    obtain ⟨-, -, hbind⟩ := ((signHashes_bind_iff hfetch hfetch' nonce nonce).1 bindingEvm rfl rfl
      digestsApart_twin _ _ (operation_twin _ 5) (operation_twin _ 6)).mpr
      ⟨⟨50, by decide, by decide, by decide⟩, ⟨60, by decide, by decide, by decide⟩⟩
    intro hpreimage
    exact absurd (hbind hpreimage).amount (by decide)
  · have hfetch : fetchDeposit (twinClients (str "sol") solanaReceiver 5 6)
        (coreTenfold (str "sol")) (twinIdentifier (str "2")) =
          .ok (twinDeposit (str "2") (str "sol") solanaReceiver 5) := by decide +kernel
    have hfetch' : fetchDeposit (twinClients (str "sol") solanaReceiver 5 6)
        (coreTenfold (str "sol")) (twinIdentifier (str "3")) =
          .ok (twinDeposit (str "3") (str "sol") solanaReceiver 6) := by decide +kernel
    have hcollision : Set.InjOn bindingSolana.sha256 {Solana.uidInput (twinIdentifier (str "2")),
        Solana.uidInput (twinIdentifier (str "3"))} := by
      have hinput : Solana.uidInput (twinIdentifier (str "3")) =
          Solana.uidInput (twinIdentifier (str "2")) := rfl
      rw [hinput, Set.pair_eq_singleton]
      exact Set.injOn_singleton _ _
    intro buffer hbuffer hbuffer'
    have hsame := (signHashes_bind_iff hfetch hfetch' nonce nonce).2 bindingSolana rfl rfl
      (length_fitBytes 32) hcollision buffer hbuffer hbuffer'
    exact absurd hsame.amount (by decide)

/-- Deposits of 2^255 and 2^255 + 1 tokens withdraw ten times as many units: numbers of 33 bytes
that differ in the last.  The operations are the same, and the word denotes neither amount. -/
theorem signHashes_amount_cut :
    fetchDeposit (twinClients (str "1") sampleReceiver (2 ^ 255) (2 ^ 255 + 1))
        (coreTenfold (str "1")) (twinIdentifier (str "2")) =
      .ok (twinDeposit (str "2") (str "1") sampleReceiver (2 ^ 255)) ∧
    fetchDeposit (twinClients (str "1") sampleReceiver (2 ^ 255) (2 ^ 255 + 1))
        (coreTenfold (str "1")) (twinIdentifier (str "3")) =
      .ok (twinDeposit (str "3") (str "1") sampleReceiver (2 ^ 255 + 1)) ∧
    bindingEvm.operation (twinDeposit (str "2") (str "1") sampleReceiver (2 ^ 255)) =
      .ok (twinOperation (2 ^ 255)) ∧
    bindingEvm.operation (twinDeposit (str "3") (str "1") sampleReceiver (2 ^ 255 + 1)) =
      .ok (twinOperation (2 ^ 255 + 1)) ∧
    (twinOperation (2 ^ 255)).preimage = (twinOperation (2 ^ 255 + 1)).preimage ∧
    (twinDeposit (str "2") (str "1") sampleReceiver (2 ^ 255)).withdrawalAmount ≠
      (twinDeposit (str "3") (str "1") sampleReceiver (2 ^ 255 + 1)).withdrawalAmount ∧
    bigEndian (twinOperation (2 ^ 255)).amount = 10 * 2 ^ 247 := by
  refine ⟨by decide +kernel, by decide +kernel, operation_twin _ _, operation_twin _ _,
    by decide +kernel, by decide +kernel, by decide +kernel⟩

end Sample

end TssSvc.Bridge
