import TssSvc.Bridge.Signability
import TssSvc.Bridge.Totality
import TssSvc.Bridge.Views

/-!
# Verdicts that stay

A deposit whose fetching fails with one of the errors of `IsInvalidDepositError` is stored as
invalid, and nothing looks at it again.  For a deposit that a later view of the chains and the
core fetches, `unmarked_iff_settled` says when the earlier view did not mark it: when the source
node had its transaction (and, on a UTXO chain, the one it spends) and, for the EVM client, which
looks at a receipt before it counts confirmations, when the receipt was final or showed the
deposit.
-/

set_option autoImplicit false

namespace TssSvc.Bridge

open TssSvc.Db

/-! ## Clients and core -/

namespace ChainClient

inductive Extends : ChainClient → ChainClient → Prop
  | evm {p p' : Evm.Client} (h : p.Extends p') : Extends (.evm p) (.evm p')
  | zano {p p' : Zano.Client} (h : p.Extends p') : Extends (.zano p) (.zano p')
  | solana {p p' : Solana.Client} (h : p.Extends p') : Extends (.solana p) (.solana p')
  | utxo {c c' : Utxo.Client} (h : c.Extends c') : Extends (.utxo c) (.utxo c')
  | ton {c c' : Ton.Client} (h : c.Extends c') : Extends (.ton c) (.ton c')

def Settled (identifier : DepositIdentifier) : ChainClient → Prop
  | evm p => p.Settled identifier
  | zano p => p.Settled identifier
  | solana _ => True
  | utxo c => c.Settled identifier
  | ton c => c.Settled identifier

variable {cl cl' : ChainClient} {identifier : DepositIdentifier} {data data' : DepositData}

theorem Extends.chainId (ext : cl.Extends cl') : cl'.toClient.chainId = cl.toClient.chainId := by
  cases ext with
  | evm h => exact h.id
  | zano h => exact h.id
  | solana h => exact h.id
  | utxo h => exact h.id
  | ton h => exact h.id

/-- Addresses are checked without the node. -/
theorem Extends.addressValid (ext : cl.Extends cl') :
    cl'.toClient.addressValid = cl.toClient.addressValid := by
  cases ext with
  | evm _ => rfl
  | zano _ => rfl
  | solana _ => rfl
  | utxo h => exact congrArg Utxo.ScriptLib.addressValid h.lib
  | ton h =>
      funext addr
      simp only [toClient, Ton.Client.toClient, Ton.Client.addressValid, h.parseAddr]

theorem Extends.sameDeposit (ext : cl.Extends cl')
    (read : cl.toClient.getDepositData identifier = .ok data)
    (read' : cl'.toClient.getDepositData identifier = .ok data') : SameDeposit data data' := by
  cases ext with
  | evm h => exact h.sameDeposit read read'
  | zano h => exact h.sameDeposit read read'
  | solana h =>
      obtain rfl := h.same_data read read'
      exact ⟨rfl, rfl, rfl, rfl, rfl⟩
  | utxo h => exact h.sameDeposit read read'
  | ton h => exact h.sameDeposit read read'

theorem Extends.transactionHashValid (ext : cl.Extends cl') :
    cl'.toClient.transactionHashValid = cl.toClient.transactionHashValid := by
  cases ext <;> rfl

/-- A deposit that the later view reads was marked in the earlier one unless it was settled. -/
theorem Extends.avoids_getDepositData_iff (ext : cl.Extends cl')
    (read' : cl'.toClient.getDepositData identifier = .ok data') {withCore : Bool} :
    (cl.toClient.getDepositData identifier).Avoids (GoError.Within (Marks withCore)) ↔
      cl.Settled identifier := by
  cases ext with
  | evm h => exact h.avoids_getDepositData_iff read'
  | zano h => exact h.avoids_getDepositData_iff read'
  | solana h => exact iff_of_true (h.avoids_getDepositData read' withCore) trivial
  | utxo h => exact h.avoids_getDepositData_iff read'
  | ton h => exact h.avoids_getDepositData_iff read'

end ChainClient

def clientOf (clients : List ChainClient) (chainId : GoString) : Option ChainClient :=
  clients.reverse.find? fun cl => decide (cl.toClient.chainId = chainId)

theorem client_repositoryOf (clients : List ChainClient) (chainId : GoString) :
    (repositoryOf clients).client chainId =
      .ofOption Sentinel.errChainNotSupported.toErr
        ((clientOf clients chainId).map ChainClient.toClient) :=
  Repository.client_map _ _ _

/-- What the second of two related lists has first, the first has as well. -/
theorem find?_of_forall₂ {α β : Type} {R : α → β → Prop} {f : α → Bool} {g : β → Bool}
    (hkey : ∀ a b, R a b → g b = f a) {as : List α} {bs : List β} (h : List.Forall₂ R as bs)
    {b : β} (hfound : bs.find? g = some b) : ∃ a, as.find? f = some a ∧ R a b := by
  induction h with
  | nil => cases hfound
  | @cons a b' as bs hhead htail ih =>
      rw [List.find?_cons, hkey a b' hhead] at hfound
      rw [List.find?_cons]
      cases hf : f a with
      | true =>
          rw [hf] at hfound
          obtain rfl := Option.some.inj hfound
          exact ⟨a, rfl, hhead⟩
      | false =>
          rw [hf] at hfound
          exact ih hfound

/-- The client of a chain in the later view has grown from the one in the earlier view. -/
theorem client_of_extends {earlier later : List ChainClient}
    (ext : List.Forall₂ ChainClient.Extends earlier later) {chainId : GoString} {client' : Client}
    (h : (repositoryOf later).client chainId = .ok client') :
    ∃ cl cl', clientOf earlier chainId = some cl ∧
      (repositoryOf earlier).client chainId = .ok cl.toClient ∧ client' = cl'.toClient ∧
        cl.Extends cl' := by
  rw [client_repositoryOf, Outcome.ofOption_eq_ok, Option.map_eq_some_iff] at h
  obtain ⟨cl', hfound, rfl⟩ := h
  obtain ⟨cl, hcl, hext⟩ := find?_of_forall₂
    (f := fun cl : ChainClient => decide (cl.toClient.chainId = chainId))
    (fun a b hab => by rw [hab.chainId]) (List.rel_reverse ext) hfound
  refine ⟨cl, cl', hcl, ?_, rfl, hext⟩
  rw [client_repositoryOf, clientOf, hcl]
  rfl

/-- Found answers stay, and a token is given to more chains. -/
structure Core.Extends (core core' : Core) : Prop where
  tokenInfo : ∀ chainId addr info info', core.tokenInfo chainId addr = .found info →
    core'.tokenInfo chainId addr = .found info' → info' = info
  token : ∀ id infos infos', core.token id = .found infos → core'.token id = .found infos' →
    infos <+: infos'
  getCommissionAmount : core'.getCommissionAmount = core.getCommissionAmount

/-- The core denies neither the referral of the deposit nor, when it is asked for them, its
tokens. -/
structure Core.Knows (core : Core) (srcChainId : GoString) (data : DepositData) : Prop where
  referral : core.isDefaultReferralId data.referralId = true ∨
    core.referral data.referralId ≠ .notFound
  tokenInfo : checkReferral core data.referralId = .ok () →
    core.tokenInfo srcChainId data.tokenAddress ≠ .notFound
  token : checkReferral core data.referralId = .ok () →
    ∀ info, core.tokenInfo srcChainId data.tokenAddress = .found info →
      core.token info.tokenId ≠ .notFound
  destination : checkReferral core data.referralId = .ok () →
    ∀ info infos, core.tokenInfo srcChainId data.tokenAddress = .found info →
      core.token info.tokenId = .found infos → ∃ dst ∈ infos, dst.chainId = data.destinationChainId

theorem Query.avoids_toResult {α : Type} {missing : Sentinel} {context : String} {q : Query α}
    {kinds : Sentinel → Prop} :
    (q.toResult missing context).Avoids (GoError.Within kinds) ↔
      q ≠ .notFound ∨ ¬kinds missing := by
  cases q <;> simp [toResult]

@[simp] theorem Query.toResult_eq_ok {α : Type} {missing : Sentinel} {context : String}
    {q : Query α} {value : α} : q.toResult missing context = .ok value ↔ q = .found value := by
  cases q <;> simp [toResult]

section Core

variable {core core' : Core} {srcChainId : GoString} {data data' : DepositData} {withCore : Bool}

theorem getTokens_ok {tokenAddress dstChainId : GoString} {srcInfo dstInfo : TokenInfo}
    (h : getTokens core srcChainId tokenAddress dstChainId = .ok (srcInfo, dstInfo)) :
    core.tokenInfo srcChainId tokenAddress = .found srcInfo ∧
      ∃ infos, core.token srcInfo.tokenId = .found infos ∧
        infos.find? (fun info => decide (info.chainId = dstChainId)) = some dstInfo := by
  simp only [getTokens, Outcome.bind_eq_ok, Outcome.wrap_eq_ok, Core.getTokenInfo, Core.getToken,
    Query.toResult_eq_ok, Outcome.ofOption_eq_ok, Outcome.pure_eq_ok, Outcome.ok.injEq,
    Prod.mk.injEq] at h
  obtain ⟨_, hinfo, infos, htoken, _, hfind, rfl, rfl⟩ := h
  exact ⟨hinfo, infos, htoken, hfind⟩

/-- The first entry for a chain stays the first when others are added behind it. -/
theorem Core.Extends.getTokens_eq (ext : core.Extends core') {tokenAddress dstChainId : GoString}
    {srcInfo dstInfo srcInfo' dstInfo' : TokenInfo}
    (h : getTokens core srcChainId tokenAddress dstChainId = .ok (srcInfo, dstInfo))
    (h' : getTokens core' srcChainId tokenAddress dstChainId = .ok (srcInfo', dstInfo')) :
    srcInfo' = srcInfo ∧ dstInfo' = dstInfo := by
  obtain ⟨hinfo, infos, htoken, hfind⟩ := getTokens_ok h
  obtain ⟨hinfo', infos', htoken', hfind'⟩ := getTokens_ok h'
  obtain rfl := ext.tokenInfo _ _ _ _ hinfo hinfo'
  obtain ⟨added, rfl⟩ := ext.token _ _ _ htoken htoken'
  rw [List.find?_append, hfind, Option.some_or] at hfind'
  exact ⟨rfl, (Option.some.inj hfind').symm⟩

theorem Core.Extends.getWithdrawalAmount_eq (ext : core.Extends core') (depositAmount : Int)
    (srcInfo dstInfo : TokenInfo) :
    getWithdrawalAmount core' depositAmount srcInfo dstInfo =
      getWithdrawalAmount core depositAmount srcInfo dstInfo := by
  unfold getWithdrawalAmount
  rw [ext.getCommissionAmount]

theorem marks_core_iff {s : Sentinel}
    (h : s ∈ [Sentinel.errReferralNotFound, .errSourceTokenInfoNotFound, .errTokenInfoNotFound,
      .errDestinationTokenInfoNotFound]) : Marks withCore s ↔ withCore = true := by
  revert s
  cases withCore <;> decide

theorem avoids_checkReferral_iff {referralId : Nat} :
    (checkReferral core referralId).Avoids (GoError.Within (Marks withCore)) ↔
      (withCore = true →
        core.isDefaultReferralId referralId = true ∨ core.referral referralId ≠ .notFound) := by
  unfold checkReferral
  split
  · rename_i hdefault
    simp [hdefault]
  · rename_i hdefault
    rw [Outcome.avoids_wrap, Core.getReferralById, Query.avoids_toResult,
      marks_core_iff (by decide)]
    cases withCore <;> simp [hdefault]

theorem avoids_getTokens_iff {tokenAddress dstChainId : GoString} :
    (getTokens core srcChainId tokenAddress dstChainId).Avoids (GoError.Within (Marks withCore)) ↔
      (withCore = true → core.tokenInfo srcChainId tokenAddress ≠ .notFound ∧
        ∀ info, core.tokenInfo srcChainId tokenAddress = .found info →
          core.token info.tokenId ≠ .notFound ∧
            ∀ infos, core.token info.tokenId = .found infos →
              ∃ dst ∈ infos, dst.chainId = dstChainId) := by
  simp only [getTokens, Outcome.avoids_bind, Outcome.avoids_wrap, Outcome.wrap_eq_ok,
    Core.getTokenInfo, Core.getToken, Query.toResult_eq_ok, Query.avoids_toResult,
    Outcome.avoids_ofOption, within_toErr, List.find?_isSome, decide_eq_true_eq,
    Outcome.pure_eq_ok, Outcome.avoids_ok, implies_true, and_true]
  rw [marks_core_iff (by decide), marks_core_iff (by decide), marks_core_iff (by decide)]
  cases withCore <;> simp

/-- The tokens are asked for after the referral. -/
theorem avoids_core_iff :
    (checkReferral core data.referralId).Avoids (GoError.Within (Marks withCore)) ∧
        (checkReferral core data.referralId = .ok () →
          (getTokens core srcChainId data.tokenAddress data.destinationChainId).Avoids
            (GoError.Within (Marks withCore))) ↔
      (withCore = true → core.Knows srcChainId data) := by
  rw [avoids_checkReferral_iff, avoids_getTokens_iff]
  constructor
  · rintro ⟨hreferral, htokens⟩ hcore
    refine ⟨hreferral hcore, fun hok => ?_, fun hok info hinfo => ?_,
      fun hok info infos hinfo hinfos => ?_⟩
    · exact (htokens hok hcore).1
    · exact ((htokens hok hcore).2 info hinfo).1
    · exact ((htokens hok hcore).2 info hinfo).2 infos hinfos
  · intro knows
    refine ⟨fun hcore => (knows hcore).referral, fun hok hcore => ?_⟩
    refine ⟨(knows hcore).tokenInfo hok, fun info hinfo => ?_⟩
    exact ⟨(knows hcore).token hok info hinfo,
      fun infos => (knows hcore).destination hok info infos hinfo⟩

end Core

/-! ## Fetching -/

theorem avoids_fetchDeposit_iff {clients : Repository} {core : Core}
    {identifier : DepositIdentifier} {source : Client} {bad : Sentinel → Prop}
    (hsource : clients.client identifier.chainId = .ok source)
    (hvalid : source.transactionHashValid identifier.txHash = true) :
    (fetchDeposit clients core identifier).Avoids (GoError.Within bad) ↔
      (source.getDepositData identifier).Avoids (GoError.Within bad) ∧
        ∀ data, source.getDepositData identifier = .ok data →
          (completeDeposit clients core identifier data).Avoids (GoError.Within bad) := by
  simp [fetchDeposit, hsource, hvalid, Outcome.avoids_bind, Outcome.avoids_wrap,
    Outcome.avoids_check]

section Views

variable {earlier later : List ChainClient} {core core' : Core} {identifier : DepositIdentifier}
  (ext : List.Forall₂ ChainClient.Extends earlier later) (coreExt : core.Extends core')
include ext coreExt

/-- For data that the later view made a deposit of. -/
theorem avoids_completeDeposit_iff {deposit : Deposit} {data : DepositData}
    (f : Fetched (repositoryOf later) core' identifier deposit) (same : SameDeposit data f.data)
    (withCore : Bool) :
    (completeDeposit (repositoryOf earlier) core identifier data).Avoids
      (GoError.Within (Marks withCore)) ↔
        (withCore = true → core.Knows identifier.chainId data) := by
  obtain ⟨dst, dst', -, hfound, hdst', hext⟩ := client_of_extends ext f.dstFound
  rw [← same.destinationChainId] at hfound
  have hreceiver := f.receiverValid
  rw [hdst', hext.addressValid, ← same.destinationAddress] at hreceiver
  have hamount : ∀ srcInfo dstInfo, getTokens core identifier.chainId data.tokenAddress
      data.destinationChainId = .ok (srcInfo, dstInfo) →
        getWithdrawalAmount core data.depositAmount srcInfo dstInfo =
          .ok (f.withdrawalAmount, f.commission) := by
    intro srcInfo dstInfo htokens
    have htokens' := f.tokensFound
    rw [← same.tokenAddress, ← same.destinationChainId] at htokens'
    obtain ⟨hsrc, hdst⟩ := coreExt.getTokens_eq htokens htokens'
    rw [← hsrc, ← hdst, same.depositAmount, ← coreExt.getWithdrawalAmount_eq]
    exact f.amountValid
  have hclient : ((repositoryOf earlier).client data.destinationChainId).wrap
      "error getting destination clients" = .ok dst.toClient := Outcome.wrap_eq_ok.mpr hfound
  rw [← avoids_core_iff]
  constructor
  · intro h
    have hchecked := (Outcome.avoids_bind.mp h).2 _ hclient
    have hrest := (Outcome.avoids_bind.mp hchecked).2 () (Outcome.check_eq_ok.mpr hreceiver)
    obtain ⟨hreferral, hrest⟩ := Outcome.avoids_bind.mp hrest
    exact ⟨hreferral, fun hok => Outcome.avoids_wrap.mp (Outcome.avoids_bind.mp (hrest () hok)).1⟩
  · rintro ⟨hreferral, htokens⟩
    refine Outcome.avoids_bind.mpr ⟨Outcome.avoids_of_eq_ok hclient, fun dstClient hdstClient => ?_⟩
    obtain rfl := Outcome.ok.inj (hclient.symm.trans hdstClient)
    refine Outcome.avoids_bind.mpr ⟨Outcome.avoids_check.mpr (.inl hreceiver), fun _ _ => ?_⟩
    refine Outcome.avoids_bind.mpr ⟨hreferral, fun _ hok => ?_⟩
    refine Outcome.avoids_bind.mpr ⟨Outcome.avoids_wrap.mpr (htokens hok), fun infos hinfos => ?_⟩
    simp [hamount infos.1 infos.2 (Outcome.wrap_eq_ok.mp hinfos), Outcome.mapErr]

/-- A deposit that the later view fetches was not marked invalid in the earlier one exactly when
its transaction was settled there and, if the errors of the core count, the core knew it. -/
theorem unmarked_iff_settled (withCore : Bool) {deposit : Deposit}
    (fetched : fetchDeposit (repositoryOf later) core' identifier = .ok deposit) :
    (∀ e, fetchDeposit (repositoryOf earlier) core identifier = .err e →
      ¬(isInvalidDepositError e = true ∨
        withCore = true ∧ coreIsInvalidDepositError e = true)) ↔
      (∀ cl, clientOf earlier identifier.chainId = some cl → cl.Settled identifier) ∧
        (withCore = true → ∀ cl data, clientOf earlier identifier.chainId = some cl →
          cl.toClient.getDepositData identifier = .ok data →
            core.Knows identifier.chainId data) := by
  obtain ⟨f⟩ := fetchDeposit_ok fetched
  obtain ⟨cl, cl', hcl, hsource, hsource', hext⟩ := client_of_extends ext f.sourceFound
  have hread' := f.dataRead
  have hvalid := f.hashValid
  rw [hsource'] at hread' hvalid
  rw [hext.transactionHashValid] at hvalid
  have havoids : (∀ e, fetchDeposit (repositoryOf earlier) core identifier = .err e →
      ¬(isInvalidDepositError e = true ∨
        withCore = true ∧ coreIsInvalidDepositError e = true)) ↔
      (fetchDeposit (repositoryOf earlier) core identifier).Avoids
        (GoError.Within (Marks withCore)) := by
    simp only [← within_marks_iff]
    rfl
  rw [havoids, avoids_fetchDeposit_iff hsource hvalid, hext.avoids_getDepositData_iff hread']
  simp only [hcl, Option.some.injEq, forall_eq']
  refine and_congr_right fun _ => ?_
  constructor
  · rintro h hcore _ data rfl hdata
    exact (avoids_completeDeposit_iff ext coreExt f (hext.sameDeposit hdata hread') withCore).mp
      (h data hdata) hcore
  · intro h data hdata
    exact (avoids_completeDeposit_iff ext coreExt f (hext.sameDeposit hdata hread') withCore).mpr
      fun hcore => h hcore cl data rfl hdata

end Views

section Sample

open Signability

def minedEvm : Evm.Client := evmDepositing (str "1") (evmBody sampleReceiver)

/-- The same chain before its block 10. -/
def confirmingEvm : Evm.Client :=
  { minedEvm with rpc := { minedEvm.rpc with blockNumber := .ok 9 } }

/-- The same chain seen by a node that has not heard of any transaction. -/
def laggingEvm : Evm.Client :=
  { minedEvm with rpc := { minedEvm.rpc with transactionByHash := fun _ => .ok none } }

theorem confirmingEvm_extends :
    List.Forall₂ ChainClient.Extends [.evm confirmingEvm] [.evm minedEvm] := by
  refine .cons (.evm ⟨rfl, rfl, rfl, rfl, rfl, ?_⟩) .nil
  intro hash tx receipt htx hreceipt _ tx' receipt' htx' hreceipt'
  cases htx
  cases hreceipt
  cases htx'
  cases hreceipt'
  rfl

theorem laggingEvm_extends :
    List.Forall₂ ChainClient.Extends [.evm laggingEvm] [.evm minedEvm] := by
  refine .cons (.evm ⟨rfl, rfl, rfl, rfl, rfl, ?_⟩) .nil
  intro hash tx receipt htx
  cases htx

theorem coreTrading_extends (token : TokenInfo) :
    (coreTrading token).Extends (coreTrading token) := by
  refine ⟨?_, ?_, rfl⟩
  · intro chainId addr info info' hinfo hinfo'
    exact Query.found.inj (hinfo'.symm.trans hinfo)
  · intro id infos infos' hinfos hinfos'
    rw [Query.found.inj (hinfos'.symm.trans hinfos)]

theorem fetch_minedEvm : fetchDeposit (repositoryOf [.evm minedEvm]) (coreTrading sampleToken)
    sampleIdentifier = .ok (fetchedRow (evmBody sampleReceiver)) := by decide +kernel

/-- A deposit that waits for its confirmations is not marked. -/
theorem unmarked_confirming :
    ∃ e, fetchDeposit (repositoryOf [.evm confirmingEvm]) (coreTrading sampleToken)
      sampleIdentifier = .err e ∧ isInvalidDepositError e = false := by
  have hfailed : fetchDeposit (repositoryOf [.evm confirmingEvm]) (coreTrading sampleToken)
      sampleIdentifier = .err ⟨some .errTxNotConfirmed, str ("failed to get deposit data: " ++
        "failed to validate confirmations: transaction not confirmed")⟩ := by decide +kernel
  refine ⟨_, hfailed, ?_⟩
  have hunmarked := (unmarked_iff_settled confirmingEvm_extends
    (coreTrading_extends sampleToken) false fetch_minedEvm).mpr ⟨?_, fun h => (nomatch h)⟩ _ hfailed
  · exact Bool.eq_false_iff.mpr (not_or.mp hunmarked).1
  · intro cl hcl
    have hfound : clientOf [.evm confirmingEvm] sampleIdentifier.chainId =
        some (.evm confirmingEvm) := rfl
    obtain rfl := Option.some.inj (hfound.symm.trans hcl)
    refine ⟨fun h => (nomatch h), fun receipt sender hread => .inr ?_⟩
    cases hread
    exact ⟨rfl, by decide, fun log hlog => by cases hlog; exact ⟨rfl, rfl⟩⟩

/-- The node does not know the transaction yet: the deposit is marked invalid, and a later view
fetches it. -/
theorem marked_while_unknown :
    List.Forall₂ ChainClient.Extends [.evm laggingEvm] [.evm minedEvm] ∧
      (coreTrading sampleToken).Extends (coreTrading sampleToken) ∧
      fetchDeposit (repositoryOf [.evm laggingEvm]) (coreTrading sampleToken) sampleIdentifier =
        .err ⟨some .errTxNotFound, str ("failed to get deposit data: " ++
          "failed to get transaction receipt: transaction not found")⟩ ∧
      isInvalidDepositError ⟨some .errTxNotFound, str ("failed to get deposit data: " ++
        "failed to get transaction receipt: transaction not found")⟩ = true ∧
      fetchDeposit (repositoryOf [.evm minedEvm]) (coreTrading sampleToken) sampleIdentifier =
        .ok (fetchedRow (evmBody sampleReceiver)) := by
  refine ⟨laggingEvm_extends, coreTrading_extends sampleToken, by decide +kernel, by decide,
    fetch_minedEvm⟩

end Sample

end TssSvc.Bridge
