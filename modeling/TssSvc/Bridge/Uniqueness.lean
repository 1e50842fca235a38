import TssSvc.Bridge.Admission

/-!
# One row per deposit event

The runs of the three entry points of one party over an empty table.  Each call carries its own
view of the nodes and the core, and the database faults it meets; the views agree on the
configured chains only.

The unique constraint compares identifiers byte by byte.  It keeps one row per event in the runs
in which no call is made with an alias of an admitted identifier, and not in general.
-/

set_option autoImplicit false

namespace TssSvc.Bridge.Uniqueness

open TssSvc.Db TssSvc.Session

structure Setup where
  chains : List (GoString × ChainType)
  deriving DecidableEq

def Setup.typeOf (setup : Setup) (chainId : GoString) : Option ChainType :=
  (setup.chains.reverse.find? fun chain => decide (chain.1 = chainId)).map Prod.snd

/-- The index is part of the event on every chain but Zano, where it picks a memo entry. -/
def Setup.indexed (setup : Setup) (chainId : GoString) : Bool :=
  decide (setup.typeOf chainId ≠ some .zano)

/-- The view has a client for each configured chain, and no other. -/
def Setup.Configures (setup : Setup) (v : View) : Prop :=
  v.clients.map (fun cl => (cl.toClient.chainId, cl.toClient.type)) = setup.chains

instance (setup : Setup) (v : View) : Decidable (setup.Configures v) :=
  inferInstanceAs (Decidable (_ = _))

/-- `deferred` are the identifiers of INVALID rows a goroutine has yet to insert. -/
structure State where
  table : Table
  deferred : List DepositIdentifier

inductive Label where
  | submitWithdrawal (v : View) (faults : Table.Faults) (identifier : Option DepositIdentifier)
  | distribution (v : View) (faults : Table.Faults) (id : DepositIdentifier)
  | verifyProposedData (v : View) (faults : Table.Faults) (id : DepositIdentifier)
      (isValid : Deposit → Result Bool)
  | insertDeferred (faults : Table.Faults) (id : DepositIdentifier)

/-- The constructor of a session, as far as one proposal for `id` is concerned. -/
def proposalFor (id : DepositIdentifier) (isValid : Deposit → Result Bool) : Constructor Unit where
  depositIdentifier _ := id
  formSigningData _ := .ok ()
  isValid _ := isValid

def step (setup : Setup) (s : State) : Label → Option State
  | .submitWithdrawal v faults identifier =>
      if setup.Configures v then
        let call := submitWithdrawal v.repository v.core faults s.table identifier
        some ⟨call.table, s.deferred ++ call.deferred⟩
      else none
  | .distribution v faults id =>
      if setup.Configures v then
        some { s with table := acceptDistributed v.repository v.core faults s.table id }
      else none
  | .verifyProposedData v faults id isValid =>
      if setup.Configures v then
        some { s with
          table := (verifyProposedData (proposalFor id isValid) v.repository v.core faults
            s.table ()).2 }
      else none
  | .insertDeferred faults id =>
      if id ∈ s.deferred then
        match s.table.queryInsert faults (invalidRow id) with
        | .ok inserted => some ⟨inserted, s.deferred.erase id⟩
        | .error _ => some { s with deferred := s.deferred.erase id }
      else none

def machine (setup : Setup) : Machine State Label where
  init s := s = ⟨Table.empty, []⟩
  step := step setup

def Label.identifier : Label → Option DepositIdentifier
  | .submitWithdrawal _ _ identifier => identifier
  | .distribution _ _ id => some id
  | .verifyProposedData _ _ id _ => some id
  | .insertDeferred _ id => some id

def admitted (t : Table) : List Deposit :=
  t.rows.filter fun row => decide (row.withdrawalStatus ≠ .invalid)

def NoAlias (setup : Setup) (t : Table) (id : DepositIdentifier) : Prop :=
  ∀ row ∈ admitted t, row.identifier ≠ id → ¬Alias setup.indexed row.identifier id

instance (setup : Setup) (t : Table) (id : DepositIdentifier) : Decidable (NoAlias setup t id) :=
  inferInstanceAs (Decidable (∀ row ∈ admitted t, _))

/-- The condition on a step: the call's identifier is no alias of an admitted one. -/
def Distinct (setup : Setup) (s : State) (label : Label) : Prop :=
  ∀ id ∈ label.identifier, NoAlias setup s.table id

instance (setup : Setup) (s : State) (label : Label) : Decidable (Distinct setup s label) :=
  match h : label.identifier with
  | none => .isTrue (by simp [Distinct, h])
  | some id => decidable_of_iff (NoAlias setup s.table id) (by simp [Distinct, h])

/-! ## What a step can do -/

/-- A step leaves the table, inserts an INVALID row or inserts what it fetched in its view. -/
theorem step_admits {setup : Setup} {s s' : State} {label : Label}
    (h : step setup s label = some s') :
    s'.table = s.table ∨
      ∃ id ∈ label.identifier, s.table.insert (invalidRow id) = .ok s'.table ∨
        ∃ v, setup.Configures v ∧ Admits v.repository v.core id s.table s'.table := by
  cases label with
  | submitWithdrawal v faults identifier =>
      simp only [step] at h
      split at h
      · rename_i hv
        cases h
        cases identifier with
        | none => exact .inl rfl
        | some id => exact .inr ⟨id, rfl, .inr ⟨v, hv, submitWithdrawal_admits id⟩⟩
      · cases h
  | distribution v faults id =>
      simp only [step] at h
      split at h
      · rename_i hv
        cases h
        exact .inr ⟨id, rfl, .inr ⟨v, hv, acceptDistributed_admits id⟩⟩
      · cases h
  | verifyProposedData v faults id isValid =>
      simp only [step] at h
      split at h
      · rename_i hv
        cases h
        exact .inr ⟨id, rfl, .inr ⟨v, hv, lookupDeposit_admits id⟩⟩
      · cases h
  | insertDeferred faults id =>
      simp only [step] at h
      split at h
      · split at h
        · rename_i inserted hinserted
          cases h
          exact .inr ⟨id, rfl, .inl (Table.queryInsert_ok hinserted)⟩
        · cases h
          exact .inl rfl
      · cases h

/-- The row a step adds, if it adds one: INVALID, or admitted under a hash its client accepts. -/
inductive Grows (setup : Setup) (label : Label) (t t' : Table) : Prop
  | unchanged (same : t'.rows = t.rows)
  | invalid {row : Deposit} (rows : t'.rows = t.rows ++ [row])
      (status : row.withdrawalStatus = .invalid)
  | admitted {row : Deposit} {cl : BridgeClient} (rows : t'.rows = t.rows ++ [row])
      (named : row.identifier ∈ label.identifier)
      (type : setup.typeOf row.identifier.chainId = some cl.toClient.type)
      (valid : cl.toClient.transactionHashValid row.identifier.txHash = true)

theorem Setup.typeOf_client {setup : Setup} {v : View} (hv : setup.Configures v)
    {chainId : GoString} {cl : BridgeClient} (h : v.client chainId = some cl) :
    setup.typeOf chainId = some cl.toClient.type := by
  have hchains : setup.chains = v.clients.map _ := hv.symm
  have hfind : v.clients.reverse.find? ((fun chain : GoString × ChainType =>
      decide (chain.1 = chainId)) ∘ fun cl => (cl.toClient.chainId, cl.toClient.type)) =
        some cl := h
  rw [Setup.typeOf, hchains, ← List.map_reverse, List.find?_map, hfind]
  rfl

theorem step_grows {setup : Setup} {s s' : State} {label : Label}
    (h : step setup s label = some s') : Grows setup label s.table s'.table := by
  rcases step_admits h with hsame | ⟨id, hid, hinvalid | ⟨v, hv, hadmits⟩⟩
  · exact .unchanged (by rw [hsame])
  · exact .invalid (Table.insertRow_eq_ok_iff.mp hinvalid).2 rfl
  · generalize s'.table = t' at hadmits
    cases hadmits with
    | unchanged => exact .unchanged rfl
    | invalid inserted => exact .invalid (Table.insertRow_eq_ok_iff.mp inserted).2 rfl
    | @fetched _ deposit distributed found inserted =>
        obtain ⟨fetched⟩ := fetchDeposit_ok found
        have hidentifier := fetched.identifier_eq
        have hfound := fetched.sourceFound
        rw [View.repository_client, Outcome.ofOption_eq_ok, Option.map_eq_some_iff] at hfound
        obtain ⟨cl, hcl, hsource⟩ := hfound
        have htype := Setup.typeOf_client hv hcl
        have hvalid : cl.toClient.transactionHashValid id.txHash = true := by
          rw [hsource]
          exact fetched.hashValid
        rw [← hidentifier] at hid htype hvalid
        exact .admitted (Table.insertRow_eq_ok_iff.mp inserted).2 hid htype hvalid

/-! ## The invariant -/

/-- Admitted hashes are well formed, and no two admitted rows are aliases. -/
structure Inv (setup : Setup) (t : Table) : Prop where
  valid : ∀ row ∈ admitted t, ∀ type ∈ setup.typeOf row.identifier.chainId,
    type.hexHashes = true → defaultTransactionHashPattern row.identifier.txHash = true
  distinct : ∀ row ∈ admitted t, ∀ row' ∈ admitted t, row.identifier ≠ row'.identifier →
    ¬Alias setup.indexed row.identifier row'.identifier

theorem transactionHashValid_of_hexHashes {cl : BridgeClient}
    (h : cl.toClient.type.hexHashes = true) :
    cl.toClient.transactionHashValid = defaultTransactionHashPattern := by
  cases cl with
  | evm client => rfl
  | utxo client => rfl
  | zano client => rfl
  | other client foreign =>
      rw [BridgeClient.toClient, foreign] at h
      cases h

theorem mem_admitted_append {t t' : Table} {row r : Deposit} (rows : t'.rows = t.rows ++ [row])
    (h : r ∈ admitted t') : r ∈ admitted t ∨ r = row ∧ row.withdrawalStatus ≠ .invalid := by
  simp only [admitted, rows, List.filter_append, List.mem_append] at h
  rcases h with h | h
  · exact .inl h
  · simp only [List.mem_filter, List.mem_singleton, decide_eq_true_eq] at h
    obtain ⟨rfl, hstatus⟩ := h
    exact .inr ⟨rfl, hstatus⟩

theorem Inv.grows {setup : Setup} {s : State} {label : Label} {t' : Table}
    (inv : Inv setup s.table) (meets : Distinct setup s label)
    (grows : Grows setup label s.table t') : Inv setup t' := by
  cases grows with
  | unchanged same =>
      have hadmitted : admitted t' = admitted s.table := by rw [admitted, same, admitted]
      exact ⟨hadmitted ▸ inv.valid, hadmitted ▸ inv.distinct⟩
  | invalid rows status =>
      have hadmitted : ∀ r ∈ admitted t', r ∈ admitted s.table := by
        intro r hr
        exact (mem_admitted_append rows hr).resolve_right fun h => h.2 status
      refine ⟨fun r hr => inv.valid r (hadmitted r hr), ?_⟩
      intro r hr r' hr'
      exact inv.distinct r (hadmitted r hr) r' (hadmitted r' hr')
  | @admitted row cl rows named type valid =>
      have hnew := meets row.identifier named
      constructor
      · intro r hr ty hty hhex
        rcases mem_admitted_append rows hr with hold | ⟨rfl, -⟩
        · exact inv.valid r hold ty hty hhex
        · rw [type] at hty
          cases hty
          rw [← transactionHashValid_of_hexHashes hhex]
          exact valid
      · intro r hr r' hr' hne
        rcases mem_admitted_append rows hr with hold | ⟨rfl, -⟩
        · rcases mem_admitted_append rows hr' with hold' | ⟨rfl, -⟩
          · exact inv.distinct r hold r' hold' hne
          · exact hnew r hold hne
        · rcases mem_admitted_append rows hr' with hold' | ⟨rfl, -⟩
          · intro halias
            exact hnew r' hold' hne.symm halias.symm
          · exact absurd rfl hne

theorem inv_reachable {setup : Setup} {s : State}
    (reached : (machine setup).Reachable (Distinct setup) s) : Inv setup s.table := by
  apply reached.invariant
  · intro s0 hinit
    rw [show s0 = ⟨Table.empty, []⟩ from hinit]
    exact ⟨fun r hr => absurd hr (List.not_mem_nil), fun r hr => absurd hr (List.not_mem_nil)⟩
  · intro s0 label s1 _ inv meets taken
    exact inv.grows meets (step_grows taken)

def HonestView (v : View) : Prop := ∀ cl ∈ v.clients, cl.Honest

theorem View.depositEvent_client {v : View} (honest : HonestView v) {id : DepositIdentifier}
    {event : DepositEvent} (h : v.depositEvent id = some event) :
    ∃ cl, v.client id.chainId = some cl ∧ cl.Honest ∧ cl.depositEvent id = some event := by
  obtain ⟨cl, hcl, hevent⟩ := Option.bind_eq_some_iff.mp h
  have hmem := List.mem_reverse.mp (List.mem_of_find?_eq_some hcl)
  exact ⟨cl, hcl, honest cl hmem, hevent⟩

theorem hexHashes_of_depositEvent {cl : BridgeClient} {id : DepositIdentifier}
    {event : DepositEvent}
    (h : cl.depositEvent id = some event) : cl.toClient.type.hexHashes = true := by
  cases cl with
  | evm client => rfl
  | utxo client => rfl
  | zano client => rfl
  | other client foreign => cases h

/-- In the runs without aliases no two admitted rows stand for one event, whatever honest views
the two identifiers are resolved in. -/
theorem one_row_per_event {setup : Setup} {s : State}
    (reached : (machine setup).Reachable (Distinct setup) s) {row row' : Deposit}
    (mem : row ∈ s.table.rows) (mem' : row' ∈ s.table.rows) (ne : row ≠ row')
    (status : row.withdrawalStatus ≠ .invalid) (status' : row'.withdrawalStatus ≠ .invalid)
    {v v' : View} (configured : setup.Configures v) (configured' : setup.Configures v')
    (honest : HonestView v) (honest' : HonestView v') {event : DepositEvent}
    (resolved : v.depositEvent row.identifier = some event) :
    v'.depositEvent row'.identifier ≠ some event := by
  intro resolved'
  have inv := inv_reachable reached
  have hrow : row ∈ admitted s.table := List.mem_filter.mpr ⟨mem, by simpa using status⟩
  have hrow' : row' ∈ admitted s.table := List.mem_filter.mpr ⟨mem', by simpa using status'⟩
  have hids : row.identifier ≠ row'.identifier := by
    intro heq
    exact ne (List.inj_on_of_nodup_map s.table.unique mem mem' heq)
  obtain ⟨cl, hcl, hhonest, hevent⟩ := View.depositEvent_client honest resolved
  obtain ⟨cl', hcl', hhonest', hevent'⟩ := View.depositEvent_client honest' resolved'
  have htype := Setup.typeOf_client configured hcl
  have htype' := Setup.typeOf_client configured' hcl'
  apply inv.distinct row hrow row' hrow' hids
  apply alias_of_depositEvent hhonest hhonest'
    (inv.valid row hrow _ htype (hexHashes_of_depositEvent hevent))
    (inv.valid row' hrow' _ htype' (hexHashes_of_depositEvent hevent')) ?_ hevent hevent'
  intro p hzano
  rw [hzano] at htype
  rw [Setup.indexed, htype]
  rfl

/-! ## A chain, two logs of one transaction, and two spellings of its hash -/

def sampleEvm : Evm.Client := evmDepositing (str "1") ⟨str "1", sampleReceiver, 5, [], 0⟩

def sampleView : View := ⟨[.evm sampleEvm], coreTrading sampleToken⟩

def sampleSetup : Setup := ⟨[(str "1", .evm)]⟩

theorem sampleView_honest : HonestView sampleView := by
  intro cl hcl
  rw [sampleView, List.mem_singleton] at hcl
  rw [hcl]
  exact evmDepositing_honest _ _

def sampleHash (digit : UInt8) : GoString := hexPrefix ++ List.replicate 64 digit

def sampleId (digit : UInt8) (nonce : Int) : DepositIdentifier := ⟨sampleHash digit, nonce, str "1"⟩

def sampleRow (id : DepositIdentifier) : Deposit where
  identifier := id
  depositor := some (str "0xa1")
  depositAmount := str "5"
  depositToken := defaultNativeTokenAddress
  receiver := sampleReceiver
  withdrawalToken := defaultNativeTokenAddress
  depositBlock := 10
  commissionAmount := str "0"
  withdrawalStatus := .pending
  withdrawalChainId := str "1"
  withdrawalAmount := str "5"

def submit (id : DepositIdentifier) : Label := .submitWithdrawal sampleView {} (some id)

/-- Submitting one log under two spellings of the hash gives two pending rows. -/
theorem aliases_admitted_twice :
    ∃ s, (machine sampleSetup).Reaches s ∧
      ∃ row ∈ s.table.rows, ∃ row' ∈ s.table.rows, row ≠ row' ∧
        row.withdrawalStatus = .pending ∧ row'.withdrawalStatus = .pending ∧
        sampleSetup.Configures sampleView ∧ HonestView sampleView ∧
        ∃ event, sampleView.depositEvent row.identifier = some event ∧
          sampleView.depositEvent row'.identifier = some event := by
  have hrun : ((machine sampleSetup).exec (fun _ _ => True) ⟨Table.empty, []⟩
      [submit (sampleId 0x61 0), submit (sampleId 0x41 0)]).map (fun s => s.table.rows) =
        some [sampleRow (sampleId 0x61 0), sampleRow (sampleId 0x41 0)] := by decide +kernel
  obtain ⟨s, hs, hrows⟩ := Option.map_eq_some_iff.mp hrun
  refine ⟨s, (Machine.Reachable.init rfl).exec hs, sampleRow (sampleId 0x61 0), ?_,
    sampleRow (sampleId 0x41 0), ?_, by decide, rfl, rfl, by decide, sampleView_honest,
    .log (str "1") (List.replicate 32 0xAA) 0, by decide +kernel, by decide +kernel⟩
  · rw [hrows]
    simp
  · rw [hrows]
    simp

/-- The two logs of one transaction are two rows with different events. -/
theorem one_row_per_event_twoLogs :
    ∃ s, (machine sampleSetup).Reachable (Distinct sampleSetup) s ∧
      s.table.rows = [sampleRow (sampleId 0x61 0), sampleRow (sampleId 0x61 1)] ∧
      sampleView.depositEvent (sampleId 0x61 1) ≠
        some (.log (str "1") (List.replicate 32 0xAA) 0) := by
  have hrun : ((machine sampleSetup).exec (Distinct sampleSetup) ⟨Table.empty, []⟩
      [submit (sampleId 0x61 0), submit (sampleId 0x61 1)]).map (fun s => s.table.rows) =
        some [sampleRow (sampleId 0x61 0), sampleRow (sampleId 0x61 1)] := by decide +kernel
  obtain ⟨s, hs, hrows⟩ := Option.map_eq_some_iff.mp hrun
  have hinit : (machine sampleSetup).Reachable (Distinct sampleSetup) ⟨Table.empty, []⟩ := .init rfl
  have hreached := hinit.exec hs
  refine ⟨s, hreached, hrows, ?_⟩
  have hmem : sampleRow (sampleId 0x61 0) ∈ s.table.rows := by simp [hrows]
  have hmem' : sampleRow (sampleId 0x61 1) ∈ s.table.rows := by simp [hrows]
  have hresolved : sampleView.depositEvent (sampleRow (sampleId 0x61 0)).identifier =
      some (.log (str "1") (List.replicate 32 0xAA) 0) := by decide +kernel
  exact one_row_per_event hreached hmem hmem' (by decide) (by decide) (by decide)
    (show sampleSetup.Configures sampleView by decide)
    (show sampleSetup.Configures sampleView by decide)
    sampleView_honest sampleView_honest hresolved

end TssSvc.Bridge.Uniqueness
