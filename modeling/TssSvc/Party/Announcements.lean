import TssSvc.Bridge.Totality
import TssSvc.Party.SubmittedEvents

/-!
# Announced deposits in the tables of the parties

The core announces every deposit it takes by an event, in the same order to all parties, and
`run` (`internal/core/subscriber/main.go`) brings each event that can be read into the table.  The
first event of a deposit decides its row, and two parties whose rows for it were open agree on
what they record, although each walks the attributes in its own order.
-/

set_option autoImplicit false

namespace TssSvc.Party

open TssSvc.Db TssSvc.Bridge

/-! ## The event of a submitted deposit -/

/-- `strconv.FormatBool`. -/
def formatBool : Bool → GoString
  | true => str "true"
  | false => str "false"

theorem parseBool_formatBool (b : Bool) : parseBool (formatBool b) = some b := by
  cases b <;> decide

/-- The text of a field of a transaction in the core's event. -/
def eventText (tx : Transaction) : Attribute → GoString
  | .depositTxHash => tx.depositTxHash
  | .depositNonce => Decimal.formatInt tx.depositTxIndex
  | .depositChainId => tx.depositChainId
  | .depositAmount => tx.depositAmount
  | .depositToken => tx.depositToken
  | .depositBlock => Decimal.formatInt tx.depositBlock
  | .withdrawalAmount => tx.withdrawalAmount
  | .depositor => tx.depositor
  | .receiver => tx.receiver
  | .withdrawalChainId => tx.withdrawalChainId
  | .withdrawalTxHash => tx.withdrawalTxHash
  | .withdrawalToken => tx.withdrawalToken
  | .signature => tx.signature
  | .isWrapped => formatBool tx.isWrapped
  | .commissionAmount => tx.commissionAmount

/-- The map has the fields of the transaction, and of this event nothing else. -/
structure EventNames.Announces (names : EventNames) (attributes : List (GoString × List GoString))
    (tx : Transaction) : Prop where
  distinct : (attributes.map Prod.fst).Nodup
  shown : ∀ field, ∃ rest, (names.eventKey field, eventText tx field :: rest) ∈ attributes
  only : ∀ entry ∈ attributes, (splitKey entry.1).1 = names.depositSubmitted →
    ∃ field, entry.1 = names.eventKey field

/-- What is left of a deposit in its event. -/
def received (d : Deposit) : Deposit :=
  { d with
    depositor := some (stringOrEmpty d.depositor)
    withdrawalTxHash := nonEmpty (stringOrEmpty d.withdrawalTxHash)
    signature := nonEmpty (stringOrEmpty d.signature)
    referralId := 0
    txData := none
    withdrawalStatus := .unspecified
    submitted := true
    distributed := false }

theorem parseInt64_toUint64 {x : Int} (range : IsInt64 x) :
    Decimal.parseInt64 (Decimal.formatInt (toUint64 x)) = if 0 ≤ x then some x else none := by
  obtain ⟨hlow, hhigh⟩ := range
  unfold maxInt64 at hhigh
  rw [Decimal.parseInt64, Decimal.setString_formatInt, Option.bind_some]
  unfold toUint64
  by_cases hneg : 0 ≤ x
  · have hsame : ((x % 2 ^ 64).toNat : Int) = x := by omega
    rw [hsame, if_pos ⟨hlow, by omega⟩, if_pos hneg]
  · rw [if_neg hneg, if_neg]
    omega

namespace EventNames

variable {names : EventNames} {attributes order : List (GoString × List GoString)}
  {tx : Transaction} {d : Deposit}

theorem Announces.texts (h : names.Announces attributes tx) :
    names.texts attributes = fun field => some (eventText tx field) := by
  funext field
  exact (texts_eq_some_iff h.distinct).mpr (h.shown field)

theorem Announces.perm (h : names.Announces attributes tx) (perm : order.Perm attributes) :
    names.Announces order tx where
  distinct := (perm.map Prod.fst).nodup_iff.mpr h.distinct
  shown field := by
    obtain ⟨rest, hmem⟩ := h.shown field
    exact ⟨rest, perm.mem_iff.mpr hmem⟩
  only entry hmem := h.only entry (perm.mem_iff.mp hmem)

/-- Two entries of one key are one entry. -/
theorem Announces.entry_eq (h : names.Announces attributes tx) {entry : GoString × List GoString}
    (mem : entry ∈ attributes) (own : (splitKey entry.1).1 = names.depositSubmitted) :
    ∃ field rest, entry = (names.eventKey field, eventText tx field :: rest) := by
  obtain ⟨field, hkey⟩ := h.only entry mem own
  obtain ⟨rest, hshown⟩ := h.shown field
  have heq := List.inj_on_of_nodup_map h.distinct mem hshown hkey
  exact ⟨field, rest, heq⟩

theorem Announces.admits_iff (h : names.Announces attributes tx) :
    (∀ entry ∈ attributes, names.Admits entry) ↔
      ∀ field : Attribute, field.Reads (eventText tx field) := by
  constructor
  · intro hadmits field
    obtain ⟨rest, hmem⟩ := h.shown field
    have hown : (splitKey (names.eventKey field)).1 = names.depositSubmitted := by
      rw [splitKey_eventKey]
    obtain ⟨field', text, rest', heq, hreads⟩ := hadmits _ hmem hown
    obtain ⟨hkey, hvalues⟩ := Prod.mk.inj heq
    cases eventKey_injective hkey
    rwa [(List.cons.inj hvalues).1]
  · intro hreads entry hmem hown
    obtain ⟨field, rest, rfl⟩ := h.entry_eq hmem hown
    exact ⟨field, _, rest, rfl, hreads field⟩

theorem Attribute.returns_assign (text : GoString) (deposit : Deposit) (field : Attribute) :
    (field.assign text deposit).Returns := by
  cases field <;> simp [Attribute.assign]

theorem Announces.returns_readEntry (h : names.Announces attributes tx)
    {entry : GoString × List GoString} (mem : entry ∈ attributes) (deposit : Deposit) :
    (names.readEntry deposit entry).Returns := by
  by_cases hown : (splitKey entry.1).1 = names.depositSubmitted
  · obtain ⟨field, rest, rfl⟩ := h.entry_eq mem hown
    rw [readEntry_eventKey]
    exact Attribute.returns_assign _ _ field
  · rw [readEntry, if_neg hown]
    exact Outcome.returns_ok deposit

theorem returns_readEntries
    (returns : ∀ entry ∈ order, ∀ deposit, (names.readEntry deposit entry).Returns)
    (deposit : Deposit) : (names.readEntries order deposit).Returns := by
  induction order generalizing deposit with
  | nil => exact Outcome.returns_ok deposit
  | cons entry rest ih =>
      rw [readEntries, Outcome.returns_bind]
      refine ⟨returns entry List.mem_cons_self deposit, fun next _ => ih ?_ next⟩
      exact fun entry' hmem => returns entry' (List.mem_cons_of_mem _ hmem)

theorem Announces.returns (h : names.Announces attributes tx) :
    (names.parseSubmittedDeposit attributes).Returns :=
  returns_readEntries (fun _ hmem => h.returns_readEntry hmem) _

theorem reads_eventText (nonce : IsInt64 d.identifier.txNonce) (block : IsInt64 d.depositBlock) :
    (∀ field : Attribute, field.Reads (eventText d.toTransaction field)) ↔
      0 ≤ d.identifier.txNonce ∧ 0 ≤ d.depositBlock := by
  have hnonce := parseInt64_toUint64 nonce
  have hblock := parseInt64_toUint64 block
  constructor
  · intro hreads
    have hn : (Decimal.parseInt64 (Decimal.formatInt (toUint64 d.identifier.txNonce))).isSome :=
      hreads .depositNonce
    have hb : (Decimal.parseInt64 (Decimal.formatInt (toUint64 d.depositBlock))).isSome :=
      hreads .depositBlock
    rw [hnonce] at hn
    rw [hblock] at hb
    constructor
    · by_contra hneg
      simp [hneg] at hn
    · by_contra hneg
      simp [hneg] at hb
  · rintro ⟨hn, hb⟩ field
    rw [if_pos hn] at hnonce
    rw [if_pos hb] at hblock
    cases field with
    | depositNonce => exact Option.isSome_iff_exists.mpr ⟨_, hnonce⟩
    | depositBlock => exact Option.isSome_iff_exists.mpr ⟨_, hblock⟩
    | isWrapped => exact Option.isSome_iff_exists.mpr ⟨_, parseBool_formatBool _⟩
    | _ => trivial

theorem assembled_eventText (nonce : IsInt64 d.identifier.txNonce)
    (block : IsInt64 d.depositBlock) (nonceSign : 0 ≤ d.identifier.txNonce)
    (blockSign : 0 ≤ d.depositBlock) :
    assembled (fun field => some (eventText d.toTransaction field)) = received d := by
  have hnonce := parseInt64_toUint64 nonce
  have hblock := parseInt64_toUint64 block
  rw [if_pos nonceSign] at hnonce
  rw [if_pos blockSign] at hblock
  simp [assembled, received, eventText, Deposit.toTransaction, hnonce, hblock,
    parseBool_formatBool]

/-- A party that hears of a submitted deposit reads what was submitted; it reads nothing, without
a panic, exactly when the nonce or the block is below zero. -/
theorem announcement_read (announced : names.Announces attributes d.toTransaction)
    (perm : order.Perm attributes) (nonce : IsInt64 d.identifier.txNonce)
    (block : IsInt64 d.depositBlock) :
    (0 ≤ d.identifier.txNonce ∧ 0 ≤ d.depositBlock ∧
        names.parseSubmittedDeposit order = .ok (received d)) ∨
      ((d.identifier.txNonce < 0 ∨ d.depositBlock < 0) ∧
        ∃ error, names.parseSubmittedDeposit order = .err error) := by
  have announced' := announced.perm perm
  have hread (deposit : Deposit) : names.parseSubmittedDeposit order = .ok deposit ↔
      (0 ≤ d.identifier.txNonce ∧ 0 ≤ d.depositBlock) ∧
        assembled (fun field => some (eventText d.toTransaction field)) = deposit := by
    rw [parseSubmittedDeposit_eq_ok_iff announced'.distinct, announced'.admits_iff,
      reads_eventText nonce block, announced'.texts]
  by_cases hsigns : 0 ≤ d.identifier.txNonce ∧ 0 ≤ d.depositBlock
  · refine .inl ⟨hsigns.1, hsigns.2, (hread _).mpr ⟨hsigns, ?_⟩⟩
    exact assembled_eventText nonce block hsigns.1 hsigns.2
  · refine .inr ⟨by omega, ?_⟩
    cases hparse : names.parseSubmittedDeposit order with
    | ok deposit => exact absurd ((hread deposit).mp hparse).1 hsigns
    | err error => exact ⟨error, rfl⟩
    | panic reason => exact absurd hparse (announced'.returns reason)

/-! ## The table -/

end EventNames

/-- The columns an event sets in a row that is open, or a row that it adds. -/
def recorded (event : Deposit) : Option Deposit → Deposit
  | none =>
      { event with
        receiver := toLower event.receiver
        depositToken := toLower event.depositToken
        withdrawalToken := toLower event.withdrawalToken
        withdrawalStatus := .processed
        submitted := true
        distributed := true }
  | some row =>
      if row.withdrawalStatus = .pending ∨ row.withdrawalStatus = .processing then
        { row with
          withdrawalTxHash := event.withdrawalTxHash
          signature := event.signature
          submitted := true
          withdrawalStatus := .processed }
      else row

/-- The body of `run` after the event is read, with a database that answers. -/
def recordEvent (t : Table) (event : Deposit) : Table :=
  match t.get event.identifier with
  | none => inserted t (t.insertProcessedDeposit event)
  | some existing =>
      match existing.withdrawalStatus with
      | .processed => t
      | .processing | .pending =>
          t.updateWithdrawalDetails existing.identifier event.withdrawalTxHash event.signature
      | _ => t

/-- The events one after another: one that cannot be read is logged, and a panic is the end of the
process. -/
def EventNames.handleEvents (names : EventNames) :
    List (List (GoString × List GoString)) → Table → Outcome Empty Table
  | [], t => .ok t
  | attributes :: rest, t =>
      match names.parseSubmittedDeposit attributes with
      | .ok event => names.handleEvents rest (recordEvent t event)
      | .err _ => names.handleEvents rest t
      | .panic reason => .panic reason

/-- What `run` does is what the party's subscriber does in at most two steps. -/
theorem recordEvent_leads (kinds : GoString → Option SessionKind) {s : State}
    (idle : s.control.subscriber = .idle) (event : Deposit) :
    (machine kinds).Leads (fun _ _ => True) s ⟨recordEvent s.table event, s.control⟩ := by
  obtain ⟨t, chains, orphans, subscriber, signed⟩ := s
  subst idle
  have hrun {s s' : State} (labels : List Label)
      (taken : (machine kinds).exec (fun _ _ => True) s labels = some s') :
      (machine kinds).Leads (fun _ _ => True) s s' :=
    Machine.Leads.refl.exec taken
  cases hfound : t.get event.identifier with
  | none =>
      apply hrun [.subscriber (.get event), .subscriber (.write true)]
      simp [Machine.exec, machine, step, move, subscriberStep, recordEvent, hfound, TableOp.apply]
  | some row =>
      obtain ⟨-, hrow⟩ := Table.get_eq_some_iff.mp hfound
      cases hstatus : row.withdrawalStatus with
      | pending =>
          apply hrun [.subscriber (.get event), .subscriber (.write true)]
          simp [Machine.exec, machine, step, move, subscriberStep, recordEvent, hfound, hstatus,
            TableOp.apply, hrow]
      | processing =>
          apply hrun [.subscriber (.get event), .subscriber (.write true)]
          simp [Machine.exec, machine, step, move, subscriberStep, recordEvent, hfound, hstatus,
            TableOp.apply, hrow]
      | _ =>
          apply hrun [.subscriber (.get event)]
          simp [Machine.exec, machine, step, move, subscriberStep, recordEvent, hfound, hstatus,
            TableOp.apply]

theorem get_recordEvent (t : Table) (event : Deposit) (id : DepositIdentifier) :
    (recordEvent t event).get id =
      if event.identifier = id then some (recorded event (t.get id)) else t.get id := by
  rw [recordEvent]
  cases hfound : t.get event.identifier with
  | none =>
      simp only
      cases hinsert : t.insertProcessedDeposit event with
      | error e =>
          have hnew := Table.get_eq_none_iff.mp hfound
          simp [Table.insertProcessedDeposit, Table.insertRow, hnew] at hinsert
      | ok next =>
          rw [inserted, Table.get_insertRow hinsert]
          by_cases hid : event.identifier = id
          · subst hid
            simp [recorded, hfound]
          · simp [hid]
  | some row =>
      obtain ⟨-, hrow⟩ := Table.get_eq_some_iff.mp hfound
      have hclosed
          (closed : ¬(row.withdrawalStatus = .pending ∨ row.withdrawalStatus = .processing)) :
          t.get id =
            if event.identifier = id then some (recorded event (t.get id)) else t.get id := by
        by_cases hid : event.identifier = id
        · subst hid
          rw [if_pos rfl, hfound, recorded, if_neg closed]
        · rw [if_neg hid]
      have hopen (isOpen : row.withdrawalStatus = .pending ∨ row.withdrawalStatus = .processing) :
          (t.updateWithdrawalDetails row.identifier event.withdrawalTxHash event.signature).get id =
            if event.identifier = id then some (recorded event (t.get id)) else t.get id := by
        rw [Table.updateWithdrawalDetails, Table.get_update, hrow]
        by_cases hid : event.identifier = id
        · subst hid
          rw [if_pos rfl, if_pos rfl, hfound, recorded, if_pos isOpen]
          rfl
        · rw [if_neg (Ne.symm hid), if_neg hid]
      simp only
      cases hstatus : row.withdrawalStatus with
      | pending => exact hopen (.inl hstatus)
      | processing => exact hopen (.inr hstatus)
      | _ => exact hclosed (by simp [hstatus])

/-- A row that the first event of the deposit decided stays as it is. -/
theorem recorded_recorded (event later : Deposit) (row : Option Deposit) :
    recorded later (some (recorded event row)) = recorded event row := by
  cases row with
  | none => simp [recorded]
  | some row =>
      by_cases isOpen : row.withdrawalStatus = .pending ∨ row.withdrawalStatus = .processing
      · simp [recorded, isOpen]
      · simp [recorded, isOpen]

theorem get_foldl_recordEvent (events : List Deposit) (t : Table) (id : DepositIdentifier) :
    (events.foldl recordEvent t).get id =
      match events.find? fun event => event.identifier = id with
      | none => t.get id
      | some event => some (recorded event (t.get id)) := by
  induction events generalizing t with
  | nil => rfl
  | cons event rest ih =>
      rw [List.foldl_cons, ih, List.find?_cons, get_recordEvent]
      by_cases hid : event.identifier = id
      · simp only [hid, if_pos, decide_true]
        cases rest.find? fun event => decide (event.identifier = id) with
        | none => rfl
        | some later => simp only [recorded_recorded]
      · simp [hid]

namespace EventNames

variable {names : EventNames}

variable (names) in
def readEvent (attributes : List (GoString × List GoString)) : Option Deposit :=
  match names.parseSubmittedDeposit attributes with
  | .ok event => some event
  | _ => none

theorem readEvent_eq_some_iff {attributes : List (GoString × List GoString)} {event : Deposit} :
    names.readEvent attributes = some event ↔
      names.parseSubmittedDeposit attributes = .ok event := by
  rw [readEvent]
  cases names.parseSubmittedDeposit attributes <;> simp

theorem readEvent_perm {attributes order : List (GoString × List GoString)}
    (perm : order.Perm attributes) (distinct : (attributes.map Prod.fst).Nodup) :
    names.readEvent order = names.readEvent attributes := by
  apply Option.ext
  intro event
  rw [readEvent_eq_some_iff, readEvent_eq_some_iff, parseSubmittedDeposit_perm perm distinct]

/-- The deposits read off the events, one after another. -/
theorem handleEvents_eq_ok {log : List (List (GoString × List GoString))} {t t' : Table}
    (run : names.handleEvents log t = .ok t') :
    t' = (log.filterMap names.readEvent).foldl recordEvent t := by
  induction log generalizing t with
  | nil => exact (Outcome.ok.inj run).symm
  | cons attributes rest ih =>
      rw [handleEvents] at run
      rw [List.filterMap_cons, readEvent]
      cases hparse : names.parseSubmittedDeposit attributes with
      | ok event =>
          rw [hparse] at run
          exact ih run
      | err error =>
          rw [hparse] at run
          exact ih run
      | panic reason => simp [hparse] at run

/-- Handling a log is a run of the party in which only the subscriber moves. -/
theorem handleEvents_leads (kinds : GoString → Option SessionKind)
    {log : List (List (GoString × List GoString))} {s : State} {t' : Table}
    (idle : s.control.subscriber = .idle) (run : names.handleEvents log s.table = .ok t') :
    (machine kinds).Leads (fun _ _ => True) s ⟨t', s.control⟩ := by
  rw [handleEvents_eq_ok run]
  clear run
  induction log.filterMap names.readEvent generalizing s with
  | nil => exact .refl
  | cons event rest ih =>
      have hfirst := recordEvent_leads kinds idle event
      have hrest := @ih ⟨recordEvent s.table event, s.control⟩ idle
      exact hfirst.trans hrest

theorem handleEvents_isOk {log : List (List (GoString × List GoString))}
    (returns : ∀ attributes ∈ log, (names.parseSubmittedDeposit attributes).Returns) (t : Table) :
    ∃ t', names.handleEvents log t = .ok t' := by
  induction log generalizing t with
  | nil => exact ⟨t, rfl⟩
  | cons attributes rest ih =>
      have hrest := ih fun later hmem => returns later (List.mem_cons_of_mem _ hmem)
      rw [handleEvents]
      cases hparse : names.parseSubmittedDeposit attributes with
      | ok event => exact hrest (recordEvent t event)
      | err error => exact hrest t
      | panic reason => exact absurd hparse (returns attributes List.mem_cons_self reason)

/-- Each party reads the same deposits off a log. -/
theorem filterMap_readEvent {log orders : List (List (GoString × List GoString))}
    (distinct : ∀ attributes ∈ log, (attributes.map Prod.fst).Nodup)
    (walked : List.Forall₂ List.Perm orders log) :
    orders.filterMap names.readEvent = log.filterMap names.readEvent := by
  induction walked with
  | nil => rfl
  | cons perm rest ih =>
      have hrest := ih fun later hmem => distinct later (List.mem_cons_of_mem _ hmem)
      rw [List.filterMap_cons, List.filterMap_cons,
        readEvent_perm perm (distinct _ List.mem_cons_self), hrest]

/-- The row of a deposit after the events of a log, whichever others come before and after and
whichever order each map of attributes is walked in. -/
theorem announced_row {before after orders : List (List (GoString × List GoString))}
    {attributes : List (GoString × List GoString)} {d : Deposit} {t t' : Table}
    (distinct : ∀ attributes' ∈ before ++ attributes :: after, (attributes'.map Prod.fst).Nodup)
    (walked : List.Forall₂ List.Perm orders (before ++ attributes :: after))
    (run : names.handleEvents orders t = .ok t')
    (announced : names.Announces attributes d.toTransaction)
    (nonce : IsInt64 d.identifier.txNonce ∧ 0 ≤ d.identifier.txNonce)
    (block : IsInt64 d.depositBlock ∧ 0 ≤ d.depositBlock)
    (first : ∀ earlier ∈ before, ∀ event, names.parseSubmittedDeposit earlier = .ok event →
      event.identifier ≠ d.identifier) :
    t'.get d.identifier = some (recorded (received d) (t.get d.identifier)) := by
  have hread : names.parseSubmittedDeposit attributes = .ok (received d) := by
    rw [parseSubmittedDeposit_eq_ok_iff announced.distinct, announced.admits_iff,
      reads_eventText nonce.1 block.1, announced.texts]
    exact ⟨⟨nonce.2, block.2⟩, assembled_eventText nonce.1 block.1 nonce.2 block.2⟩
  have hearlier : (before.filterMap names.readEvent).find?
      (fun event => event.identifier = d.identifier) = none := by
    rw [List.find?_eq_none]
    intro event hmem
    obtain ⟨earlier, hlog, hevent⟩ := List.mem_filterMap.mp hmem
    simpa using first earlier hlog event (readEvent_eq_some_iff.mp hevent)
  rw [handleEvents_eq_ok run, filterMap_readEvent distinct walked, get_foldl_recordEvent,
    List.filterMap_append, List.find?_append, hearlier,
    List.filterMap_cons_some (readEvent_eq_some_iff.mpr hread), Option.none_or, List.find?_cons]
  simp [received]

/-- The event with every attribute in the order of the keys. -/
theorem announces_all (names : EventNames) (tx : Transaction) :
    names.Announces (Attribute.all.map fun field => (names.eventKey field, [eventText tx field]))
      tx where
  distinct := by
    rw [List.map_map]
    exact (show Attribute.all.Nodup by decide).map eventKey_injective
  shown field := ⟨[], List.mem_map_of_mem field.mem_all⟩
  only entry hmem _ := by
    obtain ⟨field, -, rfl⟩ := List.mem_map.mp hmem
    exact ⟨field, rfl⟩

end EventNames

def sampleDeposit : Deposit where
  identifier := ⟨str "0xab", 3, str "80002"⟩
  depositor := none
  depositAmount := str "1000"
  receiver := str "0xCD"
  withdrawalChainId := str "0"
  withdrawalTxHash := some (str "0xef")
  depositBlock := 12
  withdrawalStatus := .processed
  isWrappedToken := true
  signature := some []
  referralId := 5

def sampleEvent (d : Deposit) : List (GoString × List GoString) :=
  Attribute.all.map fun field => (sampleNames.eventKey field, [eventText d.toTransaction field])

/-- A deposit of nonce three is read from the last attribute to the first, and one of nonce minus
one is not. -/
theorem announcement_read_reversed :
    sampleNames.parseSubmittedDeposit (sampleEvent sampleDeposit).reverse =
        .ok (received sampleDeposit) ∧
      ∃ error, sampleNames.parseSubmittedDeposit (sampleEvent
        { sampleDeposit with identifier := ⟨str "0xab", -1, str "80002"⟩ }) = .err error := by
  constructor
  · rcases EventNames.announcement_read (sampleNames.announces_all sampleDeposit.toTransaction)
      (List.reverse_perm _) (by decide) (by decide) with h | h
    · exact h.2.2
    · exact absurd h.1 (by decide)
  · rcases EventNames.announcement_read (sampleNames.announces_all _) (List.Perm.refl _)
      (d := { sampleDeposit with identifier := ⟨str "0xab", -1, str "80002"⟩ })
      (by decide) (by decide) with h | h
    · exact absurd h.1 (by decide)
    · exact h.2

/-- The deposit's event comes second and is walked from its end; its depositor, which was not
known, is an empty text at the other party, and its empty signature is none. -/
theorem announced_row_second :
    ∃ t', sampleNames.handleEvents [sampleAttributes, (sampleEvent sampleDeposit).reverse]
        Table.empty = .ok t' ∧
      t'.get sampleDeposit.identifier = some { sampleDeposit with
        depositor := some [], receiver := str "0xcd", signature := none, referralId := 0,
        submitted := true, distributed := true } := by
  have hannounced := sampleNames.announces_all sampleDeposit.toTransaction
  have hfirst : sampleNames.parseSubmittedDeposit sampleAttributes =
      .ok { identifier := ⟨[], 7, []⟩, submitted := true } := rfl
  have hreturns : ∀ attributes ∈ [sampleAttributes, (sampleEvent sampleDeposit).reverse],
      (sampleNames.parseSubmittedDeposit attributes).Returns := by
    intro attributes hmem
    rcases List.mem_cons.mp hmem with rfl | hmem
    · rw [hfirst]
      exact Outcome.returns_ok _
    · cases List.mem_singleton.mp hmem
      exact (hannounced.perm (List.reverse_perm _)).returns
  obtain ⟨t', hrun⟩ := EventNames.handleEvents_isOk hreturns Table.empty
  have hdistinct : ∀ attributes ∈ [sampleAttributes] ++ sampleEvent sampleDeposit :: [],
      (attributes.map Prod.fst).Nodup := by
    intro attributes hmem
    rcases List.mem_cons.mp hmem with rfl | hmem
    · decide
    · cases List.mem_singleton.mp hmem
      exact hannounced.distinct
  have hwalked : List.Forall₂ List.Perm [sampleAttributes, (sampleEvent sampleDeposit).reverse]
      ([sampleAttributes] ++ sampleEvent sampleDeposit :: []) :=
    .cons (.refl _) (.cons (List.reverse_perm _) .nil)
  have hearlier : ∀ earlier ∈ [sampleAttributes], ∀ event,
      sampleNames.parseSubmittedDeposit earlier = .ok event →
        event.identifier ≠ sampleDeposit.identifier := by
    intro earlier hmem event hevent
    cases List.mem_singleton.mp hmem
    cases Outcome.ok.inj (hfirst.symm.trans hevent)
    decide
  exact ⟨t', hrun, EventNames.announced_row hdistinct hwalked hrun hannounced (by decide)
    (by decide) hearlier⟩

end TssSvc.Party
