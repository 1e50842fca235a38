import TssSvc.Bridge.Amounts
import TssSvc.Bridge.Ton

/-!
# When reading a deposit comes back

The nonce of an identifier is any `int64`, and each client guards the index it makes of it in
its own way.  `Reads` says for each client which nonces and transactions it survives:
`getDepositData` returns data or an error exactly then.
-/

set_option autoImplicit false

namespace TssSvc.Bridge

open TssSvc.Db

/-! ## Guards in `int64` -/

/-- What holds of every Go slice. -/
def IsSlice {α : Type} (xs : List α) : Prop := (xs.length : Int) ≤ maxInt64

instance {α : Type} (xs : List α) : Decidable (IsSlice xs) := inferInstanceAs (Decidable (_ ≤ _))

theorem wrapInt64_succ_maxInt64 : wrapInt64 (maxInt64 + 1) = -2 ^ 63 := by decide

/-- The guard `len(xs) < n + 1` of the EVM and Zano clients: a negative nonce passes it, and so
does the largest one, for which the sum wraps. -/
theorem guarded_index {α : Type} {n : Int} {xs : List α} (hn : IsInt64 n) (hxs : IsSlice xs) :
    (wrapInt64 (n + 1) ≤ xs.length → 0 ≤ n ∧ n < xs.length) ↔ 0 ≤ n ∧ n < maxInt64 := by
  by_cases hmax : n = maxInt64
  · subst hmax
    rw [wrapInt64_succ_maxInt64]
    have hlen : (0 : Int) ≤ xs.length := Int.natCast_nonneg _
    unfold IsSlice at hxs
    constructor
    · intro h
      have := h (by omega)
      omega
    · intro h
      omega
  · have hlt : n < maxInt64 := lt_of_le_of_ne hn.2 hmax
    have hsucc : IsInt64 (n + 1) := by
      unfold IsInt64 at *
      omega
    rw [wrapInt64_of_isInt64 hsucc]
    have hlen : (0 : Int) ≤ xs.length := Int.natCast_nonneg _
    constructor
    · intro h
      refine ⟨?_, hlt⟩
      by_contra hneg
      exact hneg (h (by omega)).1
    · intro h hle
      omega

/-! ## EVM -/

namespace Evm.Client

theorem returns_getTransactionReceipt (p : Client) (hash : Bytes) :
    (p.getTransactionReceipt hash).Returns := by
  have hsender : ∀ tx, (senderOf tx).Returns := by
    intro tx
    unfold senderOf
    split <;> simp
  simp [getTransactionReceipt, hsender]

/-- The receipts of the node are lists of logs. -/
def Lawful (p : Client) : Prop :=
  ∀ hash receipt sender, p.getTransactionReceipt hash = .ok (receipt, sender) →
    IsSlice receipt.logs

/-- A successful transaction is only read at a nonce from 0 to the one before the largest. -/
def Reads (p : Client) (id : DepositIdentifier) : Prop :=
  ∀ receipt sender, p.getTransactionReceipt (hexToHash id.txHash) = .ok (receipt, sender) →
    receipt.status = 1 → 0 ≤ id.txNonce ∧ id.txNonce < maxInt64

theorem returns_getDepositData_iff {p : Client} (lawful : p.Lawful) {id : DepositIdentifier}
    (hn : IsInt64 id.txNonce) : (p.getDepositData id).Returns ↔ p.Reads id := by
  simp only [getDepositData, Reads, Outcome.returns_bind, Outcome.returns_wrap,
    Outcome.wrap_eq_ok, returns_getTransactionReceipt, true_and, Prod.forall]
  refine forall_congr' fun receipt => forall_congr' fun sender => forall_congr' fun hreceipt => ?_
  simp only [Outcome.returns_check, true_and, Outcome.check_eq_ok, forall_const,
    Outcome.returns_index, Outcome.returns_ofOption, validateConfirmations, Outcome.returns_bind,
    Outcome.returns_wrap, returns_external, Outcome.pure_eq_ok, Outcome.returns_ok, implies_true,
    and_true]
  exact forall_congr' fun _ => guarded_index hn (lawful _ _ _ hreceipt)

end Evm.Client

/-! ## Zano -/

namespace Zano.Client

theorem returns_getTransaction (p : Client) (txHash : GoString) :
    (p.getTransaction txHash).Returns := by
  simp [getTransaction]

theorem returns_validateConfirmations (p : Client) (txHeight : Nat) :
    (p.validateConfirmations txHeight).Returns := by
  simp [validateConfirmations]

theorem returns_parseDepositMemo (p : Client) (entry : ServiceEntry) :
    (p.parseDepositMemo entry).Returns := by
  simp [parseDepositMemo, validateMemo]

def Lawful (p : Client) : Prop :=
  ∀ txHash transaction, p.getTransaction txHash = .ok (some transaction) →
    IsSlice transaction.serviceEntries

/-- A confirmed burn is only read at a nonce from 0 to the one before the largest. -/
def Reads (p : Client) (id : DepositIdentifier) : Prop :=
  ∀ transaction, p.getTransaction id.txHash = .ok (some transaction) →
    p.validateConfirmations transaction.height = .ok () → (assetBurn transaction.ado).isSome →
      0 ≤ id.txNonce ∧ id.txNonce < maxInt64

theorem returns_getDepositData_iff {p : Client} (lawful : p.Lawful) {id : DepositIdentifier}
    (hn : IsInt64 id.txNonce) : (p.getDepositData id).Returns ↔ p.Reads id := by
  simp only [getDepositData, Reads, Outcome.returns_bind, Outcome.returns_wrap,
    Outcome.wrap_eq_ok, returns_getTransaction, true_and, Outcome.returns_ofOption,
    Outcome.ofOption_eq_ok, returns_validateConfirmations, Outcome.returns_check,
    Outcome.check_eq_ok, Outcome.returns_index, returns_parseDepositMemo, Outcome.pure_eq_ok,
    Outcome.returns_ok, implies_true, and_true, forall_const, Prod.forall]
  constructor
  · intro h transaction hfound hconfirmed hburn
    obtain ⟨⟨amount, assetId⟩, hburn⟩ := Option.isSome_iff_exists.mp hburn
    exact (guarded_index hn (lawful _ _ hfound)).mp
      (h _ hfound _ rfl () hconfirmed amount assetId hburn)
  · rintro h _ hfound transaction rfl _ hconfirmed amount assetId hburn
    exact (guarded_index hn (lawful _ _ hfound)).mpr
      (h transaction hfound hconfirmed (by rw [hburn]; rfl))

end Zano.Client

/-! ## Solana -/

namespace Solana

theorem returns_decodeInstructions (programId : Bytes) (message : List CompiledInstruction) :
    (decodeInstructions programId message).Returns := by
  induction message with
  | nil => simp [decodeInstructions]
  | cons ins rest ih =>
      simp only [decodeInstructions, Outcome.returns_bind, returns_external, true_and]
      intro program _
      split
      · simp [ih]
      · exact ih

theorem returns_accountString {accounts : List Bytes} {i : Nat} :
    (accountString accounts i).Returns ↔ i < accounts.length := by
  simp [accountString]

/-- The sender's account comes after the mint's. -/
theorem returns_depositData {id : DepositIdentifier} {slot : Nat} {kind : DepositKind}
    {params : DepositParams} {accounts : List Bytes} :
    (depositData id slot kind params accounts).Returns ↔ kind.senderAccount < accounts.length := by
  simp only [depositData, Outcome.returns_bind, returns_accountString, Outcome.pure_eq_ok,
    Outcome.returns_ok, implies_true, and_true]
  constructor
  · exact fun h => h.1
  · refine fun h => ⟨h, fun _ _ => ?_⟩
    cases kind with
    | native => simp [tokenAddress]
    | spl => exact returns_accountString.mpr (lt_trans (by decide) h)
    | wrapped => exact returns_accountString.mpr (lt_trans (by decide) h)

namespace Client

/-- An instruction with the accounts its kind of deposit reads, if it is a deposit of the
bridge. -/
def Complete (p : Client) (instr : Instruction) : Prop :=
  ∀ kind params, instr.impl = .deposit kind params → params.bridgeId = p.bridgeId →
    kind.senderAccount < instr.accounts.length

theorem returns_instructionDeposit {p : Client} {id : DepositIdentifier} {slot : Nat}
    {instr : Instruction} : (p.instructionDeposit id slot instr).Returns ↔ p.Complete instr := by
  unfold instructionDeposit Complete
  cases instr.impl with
  | deposit kind params => simp [returns_depositData]
  | other => simp

/-- The answer of the node has meta data, and if the transaction did not fail, the instruction at
the nonce is complete. -/
def Reads (p : Client) (id : DepositIdentifier) : Prop :=
  ∀ signature out, signatureFromBase58 id.txHash = some signature →
    p.getTransaction signature = .ok out →
      out.metaFailed.isSome ∧ (out.metaFailed = some false →
        ∀ message instructions, out.message = .ok message →
          decodeInstructions p.programId message = .ok instructions →
            ∀ instr, 0 ≤ id.txNonce → instructions[id.txNonce.toNat]? = some instr →
              p.Complete instr)

theorem returns_getDepositData_iff {p : Client} {id : DepositIdentifier} :
    (p.getDepositData id).Returns ↔ p.Reads id := by
  simp only [getDepositData, locate, instructionAt, bind_assoc, pure_bind, Reads,
    Outcome.returns_bind, Outcome.returns_wrap,
    Outcome.wrap_eq_ok, Outcome.returns_ofOption, Outcome.ofOption_eq_ok, returns_external,
    external_eq_ok, Outcome.returns_deref, Outcome.deref_eq_ok, Outcome.returns_check,
    Outcome.check_eq_ok, returns_decodeInstructions, Outcome.returns_index, Outcome.index_eq_ok,
    returns_instructionDeposit, true_and, forall_const]
  constructor
  · intro h signature out hsignature hout
    obtain ⟨hmeta, hrest⟩ := h signature hsignature out hout
    refine ⟨hmeta, fun hok message instructions hmessage hdecoded instr hnonneg hget => ?_⟩
    have hlen := (List.getElem?_eq_some_iff.mp hget).1
    exact (hrest false hok rfl message hmessage instructions hdecoded (by omega)).2 instr
      ⟨hnonneg, hget⟩
  · intro h signature hsignature out hout
    obtain ⟨hmeta, hrest⟩ := h signature out hsignature hout
    refine ⟨hmeta, ?_⟩
    rintro failed hfailed rfl message hmessage instructions hdecoded hguard
    refine ⟨by omega, fun instr hget => ?_⟩
    exact hrest hfailed message instructions hmessage hdecoded instr hget.1 hget.2

end Client

end Solana

/-! ## UTXO -/

namespace Utxo

section Memos

variable {keccak256 : Bytes → Bytes}

theorem returns_encode {ε : Type} (hkeccak : ∀ bytes, (keccak256 bytes).length = 32) (raw : Bytes)
    (encoder : Encoding.EncodingType) :
    (encoder.encode keccak256 raw : Outcome ε GoString).Returns := by
  obtain ⟨text, htext⟩ := Encoding.exists_encode (ε := ε) hkeccak raw encoder
  rw [htext]
  exact Outcome.returns_ok text

theorem returns_decodeDepositMemoV2 (hkeccak : ∀ bytes, (keccak256 bytes).length = 32)
    (raw : Bytes) : (decodeDepositMemoV2 keccak256 raw).Returns := by
  simp only [decodeDepositMemoV2, Outcome.returns_bind, Outcome.returns_check,
    Outcome.check_eq_ok, Outcome.returns_index, Outcome.returns_ofOption, returns_encode hkeccak,
    Outcome.pure_eq_ok, Outcome.returns_ok, implies_true, and_true, true_and, forall_const]
  intro hraw
  have hpos := List.length_pos_iff.mpr hraw
  refine ⟨by omega, fun first _ hlong => ⟨by omega, fun _ _ => ⟨?_, fun _ _ => ?_⟩⟩⟩
  all_goals
    unfold referralIdLength at *
    omega

theorem returns_decodeDepositMemo (hkeccak : ∀ bytes, (keccak256 bytes).length = 32)
    (raw : Bytes) : (decodeDepositMemo keccak256 raw).Returns := by
  unfold decodeDepositMemo
  split
  · simp [invalidScript, decodeDepositMemoV1]
  · exact returns_decodeDepositMemoV2 hkeccak raw

end Memos

theorem returns_scriptOf (out : Vout) : (scriptOf out).Returns := by
  simp [scriptOf, invalidScript]

theorem ScriptLib.returns_extractScriptAddresses (lib : ScriptLib) (script : Bytes) :
    (lib.extractScriptAddresses script).Returns := by
  unfold extractScriptAddresses
  split <;> simp

theorem ScriptLib.returns_retrieveOpReturnData (lib : ScriptLib) (script : Bytes) :
    (lib.retrieveOpReturnData script).Returns := by
  simp only [retrieveOpReturnData, Outcome.returns_bind, Outcome.returns_check,
    Outcome.returns_wrap, returns_external, Outcome.check_eq_ok, Outcome.returns_index, true_and,
    forall_const]
  intro _ data _ hlen
  omega

/-- The first address of a script is missing when the script is empty. -/
theorem ScriptLib.extractScriptAddresses_index (lib : ScriptLib) (script : Bytes) :
    (∀ addrs, lib.extractScriptAddresses script = .ok addrs →
      (Outcome.index addrs 0 : Result GoString).Returns) ↔ script ≠ [] := by
  unfold extractScriptAddresses
  by_cases hempty : script = []
  · simp [hempty]
  · simp only [hempty, if_false, Outcome.bind_eq_ok, Outcome.wrap_eq_ok, external_eq_ok,
      Outcome.check_eq_ok, Outcome.pure_eq_ok, Outcome.ok.injEq, Outcome.returns_index, ne_eq,
      not_false_eq_true, iff_true]
    rintro addrs ⟨_, -, _, hsome, rfl⟩
    have hpos := List.length_pos_iff.mpr hsome
    omega

namespace Client

/-- The outputs of a transaction are a slice and a Keccak-256 digest has 32 bytes. -/
structure Lawful (c : Client) : Prop where
  slice : ∀ txHash tx, c.getTransaction txHash = .ok tx → IsSlice tx.vout
  digest : ∀ bytes, (c.keccak256 bytes).length = 32

theorem returns_getTransaction (c : Client) (txHash : GoString) :
    (c.getTransaction txHash).Returns := by
  unfold getTransaction
  split
  · simp
  · split <;> simp

theorem returns_decodeDepositOutput (c : Client) (out : Vout) :
    (c.decodeDepositOutput out).Returns := by
  simp only [decodeDepositOutput, invalidScript, Outcome.returns_bind, returns_scriptOf,
    Outcome.returns_check, Outcome.returns_mapErr, ScriptLib.returns_extractScriptAddresses,
    Outcome.check_eq_ok, Outcome.returns_index, Outcome.pure_eq_ok, Outcome.returns_ok,
    implies_true, and_true, true_and, forall_const]
  intro _ _ _ addresses _ hlen
  omega

theorem returns_decodeDepositMemoOutput {c : Client} (lawful : c.Lawful) (out : Vout) :
    (c.decodeDepositMemoOutput out).Returns := by
  simp [decodeDepositMemoOutput, invalidScript, returns_scriptOf,
    ScriptLib.returns_retrieveOpReturnData, returns_decodeDepositMemo lawful.digest]

/-- The guard checks the sign of the nonce, but for the largest one the index of the memo output
wraps below the number of outputs. -/
theorem returns_decode_iff {c : Client} (lawful : c.Lawful) {tx : TxRawResult} {n : Int}
    (hn : IsInt64 n) (hvout : IsSlice tx.vout) : (c.decode tx n).Returns ↔ n ≠ maxInt64 := by
  simp only [decode, Outcome.returns_bind, Outcome.returns_check, Outcome.check_eq_ok,
    Outcome.returns_index, Outcome.returns_wrap, returns_decodeDepositOutput,
    returns_decodeDepositMemoOutput lawful, Outcome.pure_eq_ok, Outcome.returns_ok, implies_true,
    and_true, true_and, forall_const]
  by_cases hmax : n = maxInt64
  · subst hmax
    rw [wrapInt64_succ_maxInt64]
    simp only [ne_eq, not_true_eq_false, iff_false]
    intro h
    have hinside := (h (by decide) (by omega)).1.2
    unfold IsSlice at hvout
    omega
  · have hsucc : IsInt64 (n + 1) := by
      unfold IsInt64 at *
      omega
    rw [wrapInt64_of_isInt64 hsucc]
    simp only [ne_eq, hmax, not_false_eq_true, iff_true]
    intro hnonneg hlt
    exact ⟨⟨hnonneg, by omega⟩, fun _ _ _ _ => ⟨by omega, hlt⟩⟩

/-- The output an input spends, if the node has it, has a script. -/
def SenderReads (c : Client) (input : Vin) : Prop :=
  ∀ prevTx out, c.getTransaction input.txid = .ok prevTx → prevTx.vout[input.vout]? = some out →
    decodeString out.scriptHex ≠ some []

theorem returns_parseSenderAddress_iff {c : Client} {input : Vin} :
    (c.parseSenderAddress input).Returns ↔ c.SenderReads input := by
  simp only [parseSenderAddress, SenderReads, invalidScript, scriptOf, Outcome.returns_bind,
    Outcome.returns_mapErr, returns_getTransaction, Outcome.mapErr_eq_ok, Outcome.returns_check,
    Outcome.check_eq_ok, Outcome.index_eq_ok, Outcome.returns_ofOption, Outcome.ofOption_eq_ok,
    ScriptLib.returns_extractScriptAddresses, ScriptLib.extractScriptAddresses_index, true_and,
    forall_const, Int.toNat_natCast]
  constructor
  · intro h prevTx out hprev hout hempty
    have hlen := (List.getElem?_eq_some_iff.mp hout).1
    exact (h prevTx hprev hlen).2 out ⟨Int.natCast_nonneg _, hout⟩ [] hempty rfl
  · intro h prevTx hprev hlen
    refine ⟨by simp [hlen], fun out hout script hscript => ?_⟩
    rintro rfl
    exact h prevTx out hprev hout.2 hscript

/-- A transaction in a confirmed block is not read at the largest nonce, and if it has a deposit
at the nonce, it has an input and the output that input spends has a script. -/
def Reads (c : Client) (id : DepositIdentifier) : Prop :=
  ∀ tx height, c.getTransaction id.txHash = .ok tx → tx.blockHash ≠ [] →
    c.confirmations ≤ tx.confirmations → c.rpc.getBlockHeight tx.blockHash = .ok height →
      id.txNonce ≠ maxInt64 ∧ ∀ deposit, c.decode tx id.txNonce = .ok deposit →
        ∃ input, tx.vin.head? = some input ∧ c.SenderReads input

theorem returns_getDepositData_iff {c : Client} (lawful : c.Lawful) {id : DepositIdentifier}
    (hn : IsInt64 id.txNonce) : (c.getDepositData id).Returns ↔ c.Reads id := by
  simp only [getDepositData, Reads, Outcome.returns_bind, Outcome.returns_wrap,
    returns_getTransaction, Outcome.wrap_eq_ok, Outcome.returns_check, Outcome.check_eq_ok,
    returns_external, external_eq_ok, Outcome.returns_index, Outcome.index_eq_ok,
    returns_parseSenderAddress_iff, Outcome.pure_eq_ok, Outcome.returns_ok, implies_true,
    and_true, true_and, forall_const, le_refl, Int.toNat_zero, ← List.head?_eq_getElem?]
  constructor
  · intro h tx height htx hblock hconfirmed hheight
    obtain ⟨hdecode, hrest⟩ := h tx htx hblock hconfirmed height hheight
    refine ⟨(returns_decode_iff lawful hn (lawful.slice _ _ htx)).mp hdecode, ?_⟩
    intro deposit hdeposit
    obtain ⟨hvin, hsender⟩ := hrest deposit hdeposit
    cases hhead : tx.vin.head? with
    | none =>
        rw [List.head?_eq_none_iff] at hhead
        simp [hhead] at hvin
    | some input => exact ⟨input, rfl, hsender input hhead⟩
  · intro h tx htx hblock hconfirmed height hheight
    obtain ⟨hmax, hrest⟩ := h tx height htx hblock hconfirmed hheight
    refine ⟨(returns_decode_iff lawful hn (lawful.slice _ _ htx)).mpr hmax, ?_⟩
    intro deposit hdeposit
    obtain ⟨input, hhead, hsender⟩ := hrest deposit hdeposit
    have hpos : 0 < tx.vin.length := by
      cases hvin : tx.vin with
      | nil => simp [hvin] at hhead
      | cons _ _ => simp
    refine ⟨by omega, fun other hother => ?_⟩
    rw [hhead] at hother
    cases hother
    exact hsender

end Client

end Utxo

/-! ## TON -/

/-- The hash is decoded before the lite server is asked. -/
theorem Ton.Client.returns_getDepositData_iff {c : Ton.Client} {id : DepositIdentifier} :
    (c.getDepositData id).Returns ↔ (hexutilDecode id.txHash).isSome = true := by
  simp [getDepositData, getTxByLtHash, DepositDecoder.returns_parseDepositData]

/-! ## Fetching -/

/-- The clients the repository is made of. -/
inductive ChainClient where
  | evm (client : Evm.Client)
  | zano (client : Zano.Client)
  | solana (client : Solana.Client)
  | utxo (client : Utxo.Client)
  | ton (client : Ton.Client)

namespace ChainClient

def toClient : ChainClient → Client
  | evm client => client.toClient
  | zano client => client.toClient
  | solana client => client.toClient
  | utxo client => client.toClient
  | ton client => client.toClient

def Lawful : ChainClient → Prop
  | evm client => client.Lawful
  | zano client => client.Lawful
  | solana _ => True
  | utxo client => client.Lawful
  | ton _ => True

def Reads (id : DepositIdentifier) : ChainClient → Prop
  | evm client => client.Reads id
  | zano client => client.Reads id
  | solana client => client.Reads id
  | utxo client => client.Reads id
  | ton _ => (hexutilDecode id.txHash).isSome

theorem returns_getDepositData_iff {cl : ChainClient} (lawful : cl.Lawful)
    {id : DepositIdentifier} (hn : IsInt64 id.txNonce) :
    (cl.toClient.getDepositData id).Returns ↔ cl.Reads id := by
  cases cl with
  | evm client => exact Evm.Client.returns_getDepositData_iff lawful hn
  | zano client => exact Zano.Client.returns_getDepositData_iff lawful hn
  | solana client => exact Solana.Client.returns_getDepositData_iff
  | utxo client => exact Utxo.Client.returns_getDepositData_iff lawful hn
  | ton client => exact Ton.Client.returns_getDepositData_iff

end ChainClient

def repositoryOf (clients : List ChainClient) : Repository := ⟨clients.map ChainClient.toClient⟩

/-- The client of a chain is one of the clients. -/
theorem repositoryOf_client {clients : List ChainClient} {chainId : GoString} {client : Client}
    (h : (repositoryOf clients).client chainId = .ok client) :
    ∃ cl ∈ clients, client = cl.toClient := by
  obtain ⟨hmem, -⟩ := Repository.client_ok h
  obtain ⟨cl, hcl, rfl⟩ := List.mem_map.mp hmem
  exact ⟨cl, hcl, rfl⟩

@[simp] theorem Query.returns_toResult {α : Type} {missing : Sentinel} {context : String}
    (q : Query α) : (q.toResult missing context).Returns := by
  cases q <;> simp [toResult]

/-- Fetching a deposit comes back exactly when its client reads it, if there is one and the hash
is valid for it. -/
theorem returns_fetchDeposit_iff {clients : List ChainClient} {core : Core}
    {id : DepositIdentifier} (lawful : ∀ cl ∈ clients, cl.Lawful) (hn : IsInt64 id.txNonce) :
    (fetchDeposit (repositoryOf clients) core id).Returns ↔
      ∀ cl ∈ clients, (repositoryOf clients).client id.chainId = .ok cl.toClient →
        cl.toClient.transactionHashValid id.txHash = true → cl.Reads id := by
  have hreferral : ∀ referralId, (checkReferral core referralId).Returns := by
    intro referralId
    unfold checkReferral
    split <;> simp [Core.getReferralById]
  have hclient : ∀ chainId, ((repositoryOf clients).client chainId).Returns := by
    simp [Repository.client]
  simp only [fetchDeposit, completeDeposit, getTokens, getWithdrawalAmount, Core.getTokenInfo,
    Core.getToken, Outcome.returns_bind, Outcome.returns_wrap, hclient, Outcome.wrap_eq_ok,
    Outcome.returns_check, Outcome.check_eq_ok, hreferral, Query.returns_toResult,
    Outcome.returns_ofOption, Outcome.returns_mapErr, Outcome.returns_ofExcept, Outcome.pure_eq_ok,
    Outcome.returns_ok, implies_true, and_true, true_and, forall_const]
  constructor
  · intro h cl hcl hfound hvalid
    exact (ChainClient.returns_getDepositData_iff (lawful cl hcl) hn).mp (h _ hfound hvalid)
  · intro h client hfound hvalid
    obtain ⟨cl, hcl, rfl⟩ := repositoryOf_client hfound
    exact (ChainClient.returns_getDepositData_iff (lawful cl hcl) hn).mpr (h cl hcl hfound hvalid)

/-! ## The four decoders -/

section Sample

def depositingEvm : Evm.Client := evmDepositing (str "1") ⟨str "1", sampleReceiver, 5, [], 0⟩

theorem depositingEvm_lawful : depositingEvm.Lawful := by
  intro hash receipt sender h
  cases h
  exact (by decide : IsSlice [sampleLog, sampleLog])

def burnMemo : GoString := str "\x7b\"dst_add\":\"receiver\",\"dst_net_id\":\"1\"\x7d"

/-- A chain on which every transaction burns 10 of an asset under one memo. -/
def depositingZano : Zano.Client where
  id := str "zano"
  confirmations := 1
  getTransactions := fun hash => .ok ⟨[⟨hash, 5, some ⟨Zano.operationTypeAssetBurn, some 10,
    some (str "asset")⟩, [str "sender"], [⟨formatHex burnMemo⟩]⟩], [], []⟩
  currentHeight := .ok 10
  unmarshalMemo := fun raw =>
    if raw = burnMemo then .ok ⟨str "receiver", str "1", 0⟩
    else .error (str "unexpected end of JSON input")
  emitAsset := fun _ _ _ => .error []
  txDetails := fun _ _ _ _ => .error []

theorem depositingZano_lawful : depositingZano.Lawful := by
  intro txHash transaction h
  cases h
  exact (by decide : IsSlice [(⟨formatHex burnMemo⟩ : Zano.ServiceEntry)])

namespace Utxo

/-- `OP_DUP OP_HASH160 <hash> OP_EQUALVERIFY OP_CHECKSIG`. -/
def payToPubKeyHash (hash : Bytes) : Bytes := [0x76, 0xA9, 0x14] ++ hash ++ [0x88, 0xAC]

def pubKeyHash (script : Bytes) : Option Bytes :=
  let hash := (script.drop 3).take 20
  if hash.length = 20 ∧ script = payToPubKeyHash hash then some hash else none

/-- `OP_RETURN` and a push, with `OP_PUSHDATA1` where it is needed. -/
def opReturn (data : Bytes) : Bytes :=
  if data.length ≤ 75 then [0x6A, UInt8.ofNat data.length] ++ data
  else [0x6A, 0x4C, UInt8.ofNat data.length] ++ data

/-- What such a script pushes. -/
def opReturnPushes (script : Bytes) : Option (List Bytes) :=
  if script = [0x6A] then some []
  else if script.take 2 = [0x6A, 0x4C] ∧ script[2]? = some (UInt8.ofNat (script.length - 3)) ∧
      script.length - 3 ≤ 80 then some [script.drop 3]
  else if script.head? = some 0x6A ∧ script[1]? = some (UInt8.ofNat (script.length - 2)) ∧
      script.length - 2 ≤ 75 then some [script.drop 2]
  else none

/-- `txscript` on the scripts of the samples; an address is written as the digits of its hash. -/
def standardScripts : ScriptLib where
  isPubKeyHash script := (pubKeyHash script).isSome
  extractPkScriptAddrs script := .ok ((pubKeyHash script).toList.map formatHex)
  isNullData script := (opReturnPushes script).isSome
  pushedData script := .ok ((opReturnPushes script).getD [])
  decodeAddress text :=
    match decodeString text with
    | some hash =>
        if hash.length = 20 then .ok hash
        else .error (str "decoded address is of unknown format")
    | none => .error (str "decoded address is of unknown format")
  payToAddrScript hash := .ok (payToPubKeyHash hash)

def bridgeHash : Bytes := List.replicate 20 0xB1

def depositVouts : List Vout :=
  [⟨10, formatHex (payToPubKeyHash bridgeHash)⟩, ⟨0, formatHex (opReturn (str "receiver#1"))⟩]

def spentTxid : GoString := formatHex (List.replicate 32 0xAA)

/-- A chain on which every transaction is a deposit of 10 that spends the output with this script
of one other transaction. -/
def utxoDepositing (spent : Bytes) : Client where
  id := str "btc"
  confirmations := 1
  receivers := [formatHex bridgeHash]
  rpc := {
    getRawTransactionVerbose := fun hash =>
      if hash = spentTxid then .ok ⟨hash, str "block", 1, [], [⟨10, formatHex spent⟩]⟩
      else .ok ⟨hash, str "block", 1, [⟨spentTxid, 0⟩], depositVouts⟩
    getBlockHeight := fun _ => .ok 1 }
  lib := standardScripts
  keccak256 := fun _ => List.replicate 32 0

theorem utxoDepositing_lawful (spent : Bytes) : (utxoDepositing spent).Lawful where
  slice := by
    intro txHash tx h
    unfold Client.getTransaction utxoDepositing at h
    by_cases hspent : trimHexPrefix txHash = spentTxid
    · simp only [hspent, if_true] at h
      cases h
      exact (by decide : ((1 : Nat) : Int) ≤ maxInt64)
    · simp only [hspent, if_false] at h
      cases h
      exact (by decide : IsSlice depositVouts)
  digest := fun _ => rfl

/-- The depositor is paid by the hash of a key, as the bridge is. -/
def payingUtxo : Client := utxoDepositing (payToPubKeyHash (List.replicate 20 0x5E))

theorem payingUtxo_reads : payingUtxo.Reads ⟨str "0xbb", 0, str "btc"⟩ := by
  intro tx height htx _ _ _
  cases htx
  refine ⟨by decide, fun deposit _ => ⟨⟨spentTxid, 0⟩, rfl, ?_⟩⟩
  intro prevTx out hprev hout
  cases hprev
  cases hout
  decide

/-- The output the deposit spends has an empty script. -/
def depositingUtxo : Client := utxoDepositing []

end Utxo

end Sample

end TssSvc.Bridge
