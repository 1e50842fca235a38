import Mathlib.Logic.Function.Basic
import TssSvc.Party.Submission

/-!
# Deposits read off the core's events

Every party hears of a submitted deposit by an event of the core, a map from keys to field
values, and `parseSubmittedDeposit` (`internal/core/subscriber/main.go`) walks it in the order the
runtime picks.  The texts of the event type and of the attribute keys are the core's.

The deposit read does not depend on the order.  What a party submits is what another one reads,
but for the referral and the transaction data, which the event does not carry; a nonce or a block
below zero is submitted as an unsigned number that is not read back.
-/

set_option autoImplicit false

namespace TssSvc.Party

open TssSvc.Db TssSvc.Bridge

/-- The attribute keys `parseSubmittedDeposit` knows. -/
inductive Attribute where
  | depositTxHash
  | depositNonce
  | depositChainId
  | depositAmount
  | depositToken
  | depositBlock
  | withdrawalAmount
  | depositor
  | receiver
  | withdrawalChainId
  | withdrawalTxHash
  | withdrawalToken
  | signature
  | isWrapped
  | commissionAmount
  deriving DecidableEq, Repr

namespace Attribute

def all : List Attribute :=
  [depositTxHash, depositNonce, depositChainId, depositAmount, depositToken, depositBlock,
    withdrawalAmount, depositor, receiver, withdrawalChainId, withdrawalTxHash, withdrawalToken,
    signature, isWrapped, commissionAmount]

theorem mem_all (field : Attribute) : field ∈ all := by
  cases field <;> decide

end Attribute

def dot : UInt8 := 0x2E

/-- `EventType_DEPOSIT_SUBMITTED.String()` and the `AttributeKey` constants: the cases of a
`switch` are different constants, and the name of an enumeration has no dot. -/
structure EventNames where
  depositSubmitted : GoString
  key : Attribute → GoString
  undotted : dot ∉ depositSubmitted
  distinct : Function.Injective key

/-- `parts[0]` and `parts[1]` of `strings.SplitN(keys, ".", 2)`. -/
def splitKey (keys : GoString) : GoString × Option GoString :=
  (keys.takeWhile (· ≠ dot), (keys.dropWhile (· ≠ dot)).tail?)

/-- `strconv.ParseBool`; `none` is an error. -/
def parseBool (s : GoString) : Option Bool :=
  if s ∈ [str "1", str "t", str "T", str "true", str "TRUE", str "True"] then some true
  else if s ∈ [str "0", str "f", str "F", str "false", str "FALSE", str "False"] then some false
  else none

def nonEmpty (s : GoString) : Option GoString := if s = [] then none else some s

/-- The `switch` of `parseSubmittedDeposit` with `attribute[0]` as `text`. -/
def Attribute.assign (text : GoString) (deposit : Deposit) : Attribute → Result Deposit
  | depositTxHash =>
      .ok { deposit with identifier := { deposit.identifier with txHash := text } }
  | depositNonce => do
      let n ← (Outcome.ofOption (.new "parsing error") (Decimal.parseInt64 text)).wrap
        "failed to parse deposit nonce"
      return { deposit with identifier := { deposit.identifier with txNonce := n } }
  | depositChainId =>
      .ok { deposit with identifier := { deposit.identifier with chainId := text } }
  | depositAmount => .ok { deposit with depositAmount := text }
  | depositToken => .ok { deposit with depositToken := text }
  | depositBlock => do
      let b ← (Outcome.ofOption (.new "parsing error") (Decimal.parseInt64 text)).wrap
        "failed to parse deposit block"
      return { deposit with depositBlock := b }
  | withdrawalAmount => .ok { deposit with withdrawalAmount := text }
  | depositor => .ok { deposit with depositor := some text }
  | receiver => .ok { deposit with receiver := text }
  | withdrawalChainId => .ok { deposit with withdrawalChainId := text }
  | withdrawalTxHash =>
      .ok (if text = [] then deposit else { deposit with withdrawalTxHash := some text })
  | withdrawalToken => .ok { deposit with withdrawalToken := text }
  | signature => .ok (if text = [] then deposit else { deposit with signature := some text })
  | isWrapped => do
      let isWrapped ← (Outcome.ofOption (.new "parsing error") (parseBool text)).wrap
        "failed to parse isWrapped attribute"
      return { deposit with isWrappedToken := isWrapped }
  | commissionAmount => .ok { deposit with commissionAmount := text }

namespace EventNames

variable (names : EventNames)

def fieldOf (text : GoString) : Option Attribute :=
  Attribute.all.find? fun field => names.key field = text

/-- One entry of the map: other event types are skipped. -/
def readEntry (deposit : Deposit) (entry : GoString × List GoString) : Result Deposit :=
  if (splitKey entry.1).1 = names.depositSubmitted then
    match (splitKey entry.1).2 with
    | none => .panic .indexOutOfRange
    | some text =>
        match names.fieldOf text with
        | none => Outcome.wrap "failed to parse attribute"
            (.err ⟨none, str "unknown attribute key: " ++ text⟩)
        | some field => do
            let value ← Outcome.index entry.2 0
            field.assign value deposit
  else .ok deposit

def readEntries : List (GoString × List GoString) → Deposit → Result Deposit
  | [], deposit => .ok deposit
  | entry :: rest, deposit => do
      let next ← names.readEntry deposit entry
      readEntries rest next

/-- `attributes` are the entries of the map in the order they are walked. -/
def parseSubmittedDeposit (attributes : List (GoString × List GoString)) : Result Deposit :=
  names.readEntries attributes { identifier := ⟨[], 0, []⟩, submitted := true }

/-! ## What is read -/

def eventKey (field : Attribute) : GoString :=
  names.depositSubmitted ++ dot :: names.key field

variable {names}

theorem fieldOf_eq_some_iff {text : GoString} {field : Attribute} :
    names.fieldOf text = some field ↔ names.key field = text := by
  constructor
  · intro h
    simpa using List.find?_some h
  · rintro rfl
    cases hfind : names.fieldOf (names.key field) with
    | none =>
        have hnone := List.find?_eq_none.mp hfind field field.mem_all
        simp at hnone
    | some found =>
        have hfound := List.find?_some hfind
        rw [names.distinct (of_decide_eq_true hfound)]

theorem eventKey_injective : Function.Injective names.eventKey := by
  intro a b h
  simp only [eventKey, List.append_cancel_left_eq, List.cons.injEq, true_and] at h
  exact names.distinct h

theorem splitKey_append_dot {first : GoString} (undotted : dot ∉ first) (rest : GoString) :
    splitKey (first ++ dot :: rest) = (first, some rest) := by
  have hfirst : ∀ b ∈ first, decide (b ≠ dot) = true := by
    intro b hb
    rw [decide_eq_true_eq]
    rintro rfl
    exact undotted hb
  rw [splitKey, List.takeWhile_append_of_pos hfirst, List.dropWhile_append_of_pos hfirst]
  simp

theorem splitKey_eventKey (field : Attribute) :
    splitKey (names.eventKey field) =
      (names.depositSubmitted, some (names.key field)) :=
  splitKey_append_dot names.undotted _

theorem eq_of_splitKey {keys first rest : GoString} (h : splitKey keys = (first, some rest)) :
    keys = first ++ dot :: rest := by
  obtain ⟨hfirst, hrest⟩ := Prod.mk.inj h
  have hwhole : keys.takeWhile (· ≠ dot) ++ keys.dropWhile (· ≠ dot) = keys :=
    List.takeWhile_append_dropWhile
  cases hdrop : keys.dropWhile (· ≠ dot) with
  | nil =>
      rw [hdrop] at hrest
      cases hrest
  | cons b after =>
      have hdot : b = dot := by
        have hhead := List.head?_dropWhile_not (fun b => decide (b ≠ dot)) keys
        rw [hdrop] at hhead
        simpa using hhead
      rw [hdrop] at hrest hwhole
      rw [← hwhole, hfirst, hdot, Option.some.inj hrest]

end EventNames

/-- The texts an attribute takes. -/
def Attribute.Reads (text : GoString) : Attribute → Prop
  | depositNonce | depositBlock => (Decimal.parseInt64 text).isSome
  | isWrapped => (parseBool text).isSome
  | _ => True

/-- The deposit whose attributes have the given texts. -/
def assembled (texts : Attribute → Option GoString) : Deposit where
  identifier :=
    { txHash := (texts .depositTxHash).getD []
      txNonce := ((texts .depositNonce).bind Decimal.parseInt64).getD 0
      chainId := (texts .depositChainId).getD [] }
  depositor := texts .depositor
  depositAmount := (texts .depositAmount).getD []
  depositToken := (texts .depositToken).getD []
  receiver := (texts .receiver).getD []
  withdrawalToken := (texts .withdrawalToken).getD []
  depositBlock := ((texts .depositBlock).bind Decimal.parseInt64).getD 0
  commissionAmount := (texts .commissionAmount).getD []
  withdrawalTxHash := (texts .withdrawalTxHash).bind nonEmpty
  withdrawalChainId := (texts .withdrawalChainId).getD []
  withdrawalAmount := (texts .withdrawalAmount).getD []
  isWrappedToken := ((texts .isWrapped).bind parseBool).getD false
  signature := (texts .signature).bind nonEmpty
  submitted := true

/-- A branch of the `switch` sets the field of its attribute and no other one. -/
theorem Attribute.assign_assembled {field : Attribute} {text : GoString}
    {texts : Attribute → Option GoString} (unset : texts field = none) {deposit : Deposit} :
    field.assign text (assembled texts) = .ok deposit ↔
      field.Reads text ∧
        assembled (Function.update texts field (some text)) = deposit := by
  cases field with
  | depositNonce =>
      cases hparse : Decimal.parseInt64 text <;>
        simp [assign, Reads, assembled, Function.update, hparse]
  | depositBlock =>
      cases hparse : Decimal.parseInt64 text <;>
        simp [assign, Reads, assembled, Function.update, hparse]
  | isWrapped =>
      cases hparse : parseBool text <;>
        simp [assign, Reads, assembled, Function.update, hparse]
  | withdrawalTxHash =>
      by_cases hempty : text = [] <;>
        simp [assign, Reads, assembled, Function.update, nonEmpty, unset, hempty]
  | signature =>
      by_cases hempty : text = [] <;>
        simp [assign, Reads, assembled, Function.update, nonEmpty, unset, hempty]
  | _ => simp [assign, Reads, assembled, Function.update]

namespace EventNames

variable {names : EventNames} {order : List (GoString × List GoString)}

/-! ## Every order -/

variable (names) in
/-- An entry of another event, or one of a known attribute with a first value that it takes. -/
def Admits (entry : GoString × List GoString) : Prop :=
  (splitKey entry.1).1 = names.depositSubmitted →
    ∃ field text rest, entry = (names.eventKey field, text :: rest) ∧ field.Reads text

variable (names) in
/-- The text an entry has for an attribute. -/
def textIn (entry : GoString × List GoString) (field : Attribute) : Option GoString :=
  if entry.1 = names.eventKey field then entry.2.head? else none

variable (names) in
def texts : List (GoString × List GoString) → Attribute → Option GoString
  | [], _ => none
  | entry :: rest, field => (names.textIn entry field).or (texts rest field)

theorem textIn_eventKey (text : GoString) (rest : List GoString) (field : Attribute) :
    names.textIn (names.eventKey field, text :: rest) =
      Function.update (fun _ => none) field (some text) := by
  funext other
  by_cases hother : other = field
  · subst hother
    simp [textIn]
  · simp [textIn, Function.update_of_ne hother, eventKey_injective.eq_iff, Ne.symm hother]

theorem textIn_of_foreign {entry : GoString × List GoString}
    (foreign : (splitKey entry.1).1 ≠ names.depositSubmitted) (field : Attribute) :
    names.textIn entry field = none := by
  rw [textIn, if_neg]
  intro hkey
  rw [hkey, splitKey_eventKey] at foreign
  exact foreign rfl

theorem or_textIn {set : Attribute → Option GoString} {field : Attribute}
    (unset : set field = none) (text : GoString) (rest : List GoString) :
    (fun other => (set other).or (names.textIn (names.eventKey field, text :: rest) other)) =
      Function.update set field (some text) := by
  funext other
  rw [textIn_eventKey]
  by_cases hother : other = field
  · subst hother
    simp [unset]
  · simp [Function.update_of_ne hother]

theorem readEntry_eventKey (deposit : Deposit) (field : Attribute) (text : GoString)
    (rest : List GoString) :
    names.readEntry deposit (names.eventKey field, text :: rest) = field.assign text deposit := by
  have hindex : (Outcome.index (text :: rest) 0 : Result GoString) = .ok text :=
    Outcome.index_natCast rfl
  simp only [readEntry, splitKey_eventKey, if_pos, fieldOf_eq_some_iff.mpr rfl, hindex,
    Outcome.ok_bind]

/-- An entry of the event that is read has a known key and a value. -/
theorem eq_eventKey_of_readEntry {deposit next : Deposit} {entry : GoString × List GoString}
    (own : (splitKey entry.1).1 = names.depositSubmitted)
    (read : names.readEntry deposit entry = .ok next) :
    ∃ field text rest, entry = (names.eventKey field, text :: rest) := by
  rw [readEntry, if_pos own] at read
  cases hrest : (splitKey entry.1).2 with
  | none => simp [hrest] at read
  | some key =>
      simp only [hrest] at read
      cases hfield : names.fieldOf key with
      | none => simp [hfield, Outcome.wrap, Outcome.mapErr] at read
      | some field =>
          have hkey : entry.1 = names.eventKey field := by
            rw [eventKey, fieldOf_eq_some_iff.mp hfield]
            exact eq_of_splitKey (Prod.ext own hrest)
          rw [hfield] at read
          obtain ⟨text, hindex, -⟩ := Outcome.bind_eq_ok.mp read
          obtain ⟨-, hget⟩ := Outcome.index_eq_ok.mp hindex
          cases hvalues : entry.2 with
          | nil => simp [hvalues] at hget
          | cons first rest => exact ⟨field, first, rest, Prod.ext hkey hvalues⟩

theorem readEntry_assembled {set : Attribute → Option GoString}
    {entry : GoString × List GoString} {deposit : Deposit}
    (unset : ∀ field, names.eventKey field = entry.1 → set field = none) :
    names.readEntry (assembled set) entry = .ok deposit ↔
      names.Admits entry ∧
        assembled (fun field => (set field).or (names.textIn entry field)) = deposit := by
  by_cases hown : (splitKey entry.1).1 = names.depositSubmitted
  · constructor
    · intro h
      obtain ⟨field, text, rest, rfl⟩ := eq_eventKey_of_readEntry hown h
      rw [readEntry_eventKey, Attribute.assign_assembled (unset field rfl)] at h
      rw [or_textIn (unset field rfl)]
      exact ⟨fun _ => ⟨field, text, rest, rfl, h.1⟩, h.2⟩
    · rintro ⟨hadmits, rfl⟩
      obtain ⟨field, text, rest, rfl, hreads⟩ := hadmits hown
      rw [readEntry_eventKey, or_textIn (unset field rfl)]
      exact (Attribute.assign_assembled (unset field rfl)).mpr ⟨hreads, rfl⟩
  · have hsame : (fun field => (set field).or (names.textIn entry field)) = set := by
      funext field
      rw [textIn_of_foreign hown, Option.or_none]
    rw [readEntry, if_neg hown, hsame]
    simp [Admits, hown]

/-- The walk from a deposit in which no field of a later entry is set. -/
theorem readEntries_assembled {set : Attribute → Option GoString} {deposit : Deposit}
    (distinct : (order.map Prod.fst).Nodup)
    (unset : ∀ field, names.eventKey field ∈ order.map Prod.fst → set field = none) :
    names.readEntries order (assembled set) = .ok deposit ↔
      (∀ entry ∈ order, names.Admits entry) ∧
        assembled (fun field => (set field).or (names.texts order field)) = deposit := by
  induction order generalizing set with
  | nil => simp [readEntries, texts]
  | cons entry rest ih =>
      rw [List.map_cons, List.nodup_cons] at distinct
      have hunset : ∀ field, names.eventKey field = entry.1 → set field = none := by
        intro field hkey
        exact unset field (hkey ▸ List.mem_cons_self)
      -- what the first entry sets is not set again
      have hlater : ∀ field, names.eventKey field ∈ rest.map Prod.fst →
          (set field).or (names.textIn entry field) = none := by
        intro field hmem
        have hkey : entry.1 ≠ names.eventKey field := by
          rintro heq
          exact distinct.1 (heq ▸ hmem)
        rw [unset field (List.mem_cons_of_mem _ hmem), textIn, if_neg hkey, Option.or_none]
      rw [readEntries, Outcome.bind_eq_ok]
      simp only [readEntry_assembled hunset, List.forall_mem_cons, texts]
      constructor
      · rintro ⟨next, ⟨hadmits, rfl⟩, hrest⟩
        obtain ⟨hall, rfl⟩ := (ih distinct.2 hlater).mp hrest
        simp only [Option.or_assoc, and_true]
        exact ⟨hadmits, hall⟩
      · rintro ⟨⟨hadmits, hall⟩, rfl⟩
        refine ⟨_, ⟨hadmits, rfl⟩, (ih distinct.2 hlater).mpr ⟨hall, ?_⟩⟩
        simp only [Option.or_assoc]

theorem texts_eq_some_iff (distinct : (order.map Prod.fst).Nodup) {field : Attribute}
    {text : GoString} :
    names.texts order field = some text ↔
      ∃ rest, (names.eventKey field, text :: rest) ∈ order := by
  induction order generalizing text with
  | nil => simp [texts]
  | cons entry others ih =>
      rw [List.map_cons, List.nodup_cons] at distinct
      rw [texts, textIn]
      by_cases hkey : entry.1 = names.eventKey field
      · have hothers : names.texts others field = none := by
          rw [Option.eq_none_iff_forall_ne_some]
          intro found htext
          obtain ⟨rest, hmem⟩ := (ih distinct.2).mp htext
          exact distinct.1 (hkey ▸ List.mem_map_of_mem hmem)
        rw [if_pos hkey, hothers, Option.or_none, List.head?_eq_some_iff]
        constructor
        · rintro ⟨rest, hvalues⟩
          exact ⟨rest, List.mem_cons.mpr (.inl (Prod.ext hkey hvalues).symm)⟩
        · rintro ⟨rest, hmem⟩
          rcases List.mem_cons.mp hmem with rfl | hmem
          · exact ⟨rest, rfl⟩
          · exact absurd (hkey ▸ List.mem_map_of_mem hmem) distinct.1
      · rw [if_neg hkey, Option.none_or, ih distinct.2]
        refine exists_congr fun rest => ?_
        rw [List.mem_cons, or_iff_right]
        rintro rfl
        exact hkey rfl

theorem texts_perm {attributes : List (GoString × List GoString)} (perm : order.Perm attributes)
    (distinct : (attributes.map Prod.fst).Nodup) : names.texts order = names.texts attributes := by
  funext field
  apply Option.ext
  intro text
  rw [texts_eq_some_iff ((perm.map Prod.fst).nodup_iff.mpr distinct), texts_eq_some_iff distinct]
  simp only [perm.mem_iff]

theorem parseSubmittedDeposit_eq_ok_iff (distinct : (order.map Prod.fst).Nodup)
    {deposit : Deposit} :
    names.parseSubmittedDeposit order = .ok deposit ↔
      (∀ entry ∈ order, names.Admits entry) ∧ assembled (names.texts order) = deposit := by
  have hwalk : names.readEntries order (assembled fun _ => none) = .ok deposit ↔ _ :=
    readEntries_assembled distinct fun _ _ => rfl
  simp only [Option.none_or] at hwalk
  exact hwalk

theorem parseSubmittedDeposit_perm {attributes : List (GoString × List GoString)}
    (perm : order.Perm attributes) (distinct : (attributes.map Prod.fst).Nodup)
    {deposit : Deposit} :
    names.parseSubmittedDeposit order = .ok deposit ↔
      names.parseSubmittedDeposit attributes = .ok deposit := by
  rw [parseSubmittedDeposit_eq_ok_iff ((perm.map Prod.fst).nodup_iff.mpr distinct),
    parseSubmittedDeposit_eq_ok_iff distinct, texts_perm perm distinct]
  simp only [perm.mem_iff]

/-- A map of attributes is read in every order or in none, and always as the same deposit: each
field is what its attribute says, whichever entries of other events there are. -/
theorem parse_in_every_order {attributes order : List (GoString × List GoString)}
    (distinct : (attributes.map Prod.fst).Nodup) (perm : order.Perm attributes)
    (deposit : Deposit) :
    names.parseSubmittedDeposit order = .ok deposit ↔
      (∀ entry ∈ attributes, names.Admits entry) ∧
        assembled (names.texts attributes) = deposit :=
  (parseSubmittedDeposit_perm perm distinct).trans (parseSubmittedDeposit_eq_ok_iff distinct)

end EventNames

def sampleKey : Attribute → GoString
  | .depositTxHash => str "deposit_tx_hash"
  | .depositNonce => str "deposit_nonce"
  | .depositChainId => str "deposit_chain_id"
  | .depositAmount => str "deposit_amount"
  | .depositToken => str "deposit_token"
  | .depositBlock => str "deposit_block"
  | .withdrawalAmount => str "withdrawal_amount"
  | .depositor => str "depositor"
  | .receiver => str "receiver"
  | .withdrawalChainId => str "withdrawal_chain_id"
  | .withdrawalTxHash => str "withdrawal_tx_hash"
  | .withdrawalToken => str "withdrawal_token"
  | .signature => str "signature"
  | .isWrapped => str "is_wrapped"
  | .commissionAmount => str "commission_amount"

def sampleNames : EventNames where
  depositSubmitted := str "DEPOSIT_SUBMITTED"
  key := sampleKey
  undotted := by decide
  distinct := by
    have hkeys : (Attribute.all.map sampleKey).Nodup := by decide +kernel
    intro a b h
    exact List.inj_on_of_nodup_map hkeys a.mem_all b.mem_all h

def sampleAttributes : List (GoString × List GoString) :=
  [(str "tx.height", [str "12"]), (str "DEPOSIT_SUBMITTED.deposit_nonce", [str "7"])]

/-- A nonce beside an attribute of another event, walked from the end. -/
theorem parse_in_every_order_nonce :
    sampleNames.parseSubmittedDeposit sampleAttributes.reverse =
      .ok { identifier := ⟨[], 7, []⟩, submitted := true } := by
  have hdistinct : (sampleAttributes.map Prod.fst).Nodup := by decide
  refine (EventNames.parse_in_every_order hdistinct (List.reverse_perm _) _).mpr ⟨?_, by decide⟩
  intro entry hmem
  rcases List.mem_cons.mp hmem with rfl | hmem
  · intro hown
    exact absurd hown (by decide)
  · have hreads : (Decimal.parseInt64 (str "7")).isSome := by decide
    cases List.mem_singleton.mp hmem
    exact fun _ => ⟨.depositNonce, str "7", [], by decide, hreads⟩

end TssSvc.Party
