import TssSvc.Db.Selector
import TssSvc.Party.Reports
import TssSvc.Party.Rows

/-!
# Submission to the core

`runSubmitter` (`internal/core/subscriber/main.go`) takes the oldest processed row that is not yet
submitted, hands it to `SubmitDeposits` (`internal/core/connector/submit_tx.go`) and marks it.  It
runs beside the writers of the table, one query or call a step.

`sent` records the rows handed over and `confirmed` the deposits the core took, said it had, or
emitted the event of; no step reads them.
-/

set_option autoImplicit false

namespace TssSvc.Db

open TssSvc.Bridge

/-- `bridgetypes.Transaction`. -/
structure Transaction where
  depositTxHash : GoString
  depositTxIndex : Nat
  depositChainId : GoString
  withdrawalTxHash : GoString
  depositor : GoString
  depositAmount : GoString
  withdrawalAmount : GoString
  commissionAmount : GoString
  depositToken : GoString
  receiver : GoString
  withdrawalToken : GoString
  withdrawalChainId : GoString
  depositBlock : Nat
  signature : GoString
  isWrapped : Bool
  referralId : Nat
  txData : GoString
  deriving DecidableEq, Repr

def stringOrEmpty (s : Option GoString) : GoString := s.getD []

def Deposit.toTransaction (d : Deposit) : Transaction where
  depositTxHash := d.identifier.txHash
  depositTxIndex := toUint64 d.identifier.txNonce
  depositChainId := d.identifier.chainId
  withdrawalTxHash := stringOrEmpty d.withdrawalTxHash
  depositor := stringOrEmpty d.depositor
  depositAmount := d.depositAmount
  withdrawalAmount := d.withdrawalAmount
  commissionAmount := d.commissionAmount
  depositToken := d.depositToken
  receiver := d.receiver
  withdrawalToken := d.withdrawalToken
  withdrawalChainId := d.withdrawalChainId
  depositBlock := toUint64 d.depositBlock
  signature := stringOrEmpty d.signature
  isWrapped := d.isWrappedToken
  referralId := d.referralId
  txData := stringOrEmpty d.txData

end TssSvc.Db

namespace TssSvc.Party

open TssSvc.Db TssSvc.Bridge

/-! ## The submitter -/

/-- `alreadySubmitted` is the text of the core's own error; `submitMsgs` is the transaction. -/
def submitDeposits (alreadySubmitted : GoString)
    (submitMsgs : List Transaction → Except GoString Unit) (depositTxs : List Transaction) :
    Result Unit :=
  if depositTxs = [] then .ok ()
  else
    match submitMsgs depositTxs with
    | .ok () => .ok ()
    | .error text =>
        if alreadySubmitted <:+: text then .err Sentinel.errTransactionAlreadySubmitted.toErr
        else .err (GoError.wrap (str "failed to submit deposits") ⟨none, text⟩)

/-- The core has the deposit, by this call or an earlier one. -/
def known : Result Unit → Bool
  | .ok _ => true
  | .err e => e.is .errTransactionAlreadySubmitted
  | .panic _ => false

inductive SubmitterPc where
  | idle
  | submitting (pendingDeposit : Deposit)
  | marking (id : DepositIdentifier)
  deriving DecidableEq, Repr

structure Submitter where
  pc : SubmitterPc
  sent : List Deposit
  deriving DecidableEq, Repr

inductive SubmitterLabel where
  | poll (fails : Bool)
  | submit (reply : Except GoString Unit)
  | mark (fails : Bool)

/-- One step of `runSubmitter`: the row it marks, the deposit the core confirms, and the submitter
after it. -/
structure SubmitterMove where
  marked : Option DepositIdentifier := none
  confirmed : List DepositIdentifier := []
  next : Submitter

def Submitter.move (alreadySubmitted : GoString) (t : Table) (s : Submitter) :
    SubmitterLabel → Option SubmitterMove
  | .poll fails =>
      match s.pc, t.getWithSelector .unsubmitted with
      | .idle, some row => some { next := if fails then s else { s with pc := .submitting row } }
      | .idle, none => some { next := s }
      | _, _ => none
  | .submit reply =>
      match s.pc with
      | .submitting deposit =>
          let sent := s.sent ++ [deposit]
          if known (submitDeposits alreadySubmitted (fun _ => reply) [deposit.toTransaction]) then
            some {
              confirmed := [deposit.identifier]
              next := ⟨.marking deposit.identifier, sent⟩ }
          else some { next := ⟨.idle, sent⟩ }
      | _ => none
  | .mark fails =>
      match s.pc with
      | .marking id =>
          some { marked := if fails then none else some id, next := { s with pc := .idle } }
      | _ => none

/-- All that a step of the submitter can be. -/
inductive Submitter.Moves (t : Table) (s : Submitter) : SubmitterMove → Prop
  | waits (pc : s.pc = .idle) : Moves t s { next := s }
  | takes {row : Deposit} (pc : s.pc = .idle) (found : t.getWithSelector .unsubmitted = some row) :
      Moves t s { next := { s with pc := .submitting row } }
  | refused {deposit : Deposit} (pc : s.pc = .submitting deposit) :
      Moves t s { next := ⟨.idle, s.sent ++ [deposit]⟩ }
  | confirmed {deposit : Deposit} (pc : s.pc = .submitting deposit) :
      Moves t s {
        confirmed := [deposit.identifier]
        next := ⟨.marking deposit.identifier, s.sent ++ [deposit]⟩ }
  | unmarked {id : DepositIdentifier} (pc : s.pc = .marking id) :
      Moves t s { next := { s with pc := .idle } }
  | marked {id : DepositIdentifier} (pc : s.pc = .marking id) :
      Moves t s { marked := some id, next := { s with pc := .idle } }

theorem Submitter.moves {alreadySubmitted : GoString} {t : Table} {s : Submitter}
    {label : SubmitterLabel} {m : SubmitterMove} (h : s.move alreadySubmitted t label = some m) :
    s.Moves t m := by
  cases label with
  | poll fails =>
      simp only [Submitter.move] at h
      split at h
      · rename_i row hpc hfound
        cases h
        cases fails with
        | false => exact .takes hpc hfound
        | true => exact .waits hpc
      · rename_i hpc _
        cases h
        exact .waits hpc
      · cases h
  | submit reply =>
      simp only [Submitter.move] at h
      split at h
      · rename_i deposit hpc
        split at h <;> cases h
        · exact .confirmed hpc
        · exact .refused hpc
      · cases h
  | mark fails =>
      simp only [Submitter.move] at h
      split at h
      · rename_i id hpc
        cases h
        cases fails with
        | false => exact .marked hpc
        | true => exact .unmarked hpc
      · cases h

/-! ## Beside the writers -/

structure Submitting where
  party : State
  submitter : Submitter
  confirmed : List DepositIdentifier

inductive SubmittingLabel where
  | party (label : Label)
  | submitter (label : SubmitterLabel)

/-- The deposit whose event the core emits. -/
def emitted : Label → List DepositIdentifier
  | .subscriber (.get event) => [event.identifier]
  | _ => []

def Submitter.restarted (s : Submitter) : Label → Submitter
  | .restart _ => { s with pc := .idle }
  | _ => s

theorem Submitter.restarted_cases (s : Submitter) (label : Label) :
    s.restarted label = { s with pc := .idle } ∨ s.restarted label = s := by
  cases label with
  | restart sessions => exact .inl rfl
  | session chainId label => exact .inr rfl
  | orphan orphan label => exact .inr rfl
  | subscriber label => exact .inr rfl
  | admission row => exact .inr rfl
  | setDistributed id => exact .inr rfl
  | setSubmitted id => exact .inr rfl

/-- The mark of the party's machine is the submitter's. -/
def isMark : Label → Bool
  | .setSubmitted _ => true
  | _ => false

def State.marked (s : State) : Option DepositIdentifier → State
  | none => s
  | some id => ⟨(TableOp.setSubmitted id).apply s.table, s.control⟩

section Machine

variable (kinds : GoString → Option SessionKind) (alreadySubmitted : GoString)

def submittingStep (s : Submitting) : SubmittingLabel → Option Submitting
  | .party label =>
      if isMark label then none
      else (step kinds s.party label).map fun party =>
        ⟨party, s.submitter.restarted label, s.confirmed ++ emitted label⟩
  | .submitter label =>
      (s.submitter.move alreadySubmitted s.party.table label).map fun m =>
        ⟨s.party.marked m.marked, m.next, s.confirmed ++ m.confirmed⟩

def submitting : Machine Submitting SubmittingLabel where
  init s := (machine kinds).init s.party ∧ s.submitter = ⟨.idle, []⟩ ∧ s.confirmed = []
  step := submittingStep kinds alreadySubmitted

end Machine

variable {kinds : GoString → Option SessionKind} {alreadySubmitted : GoString}
  {s s' : Submitting} {label : SubmittingLabel}

theorem submittingStep_party {label : Label}
    (taken : (submitting kinds alreadySubmitted).step s (.party label) = some s') :
    isMark label = false ∧ ∃ party, step kinds s.party label = some party ∧
      s' = ⟨party, s.submitter.restarted label, s.confirmed ++ emitted label⟩ := by
  simp only [submitting, submittingStep] at taken
  split at taken
  · cases taken
  · rename_i hmark
    obtain ⟨party, hparty, rfl⟩ := Option.map_eq_some_iff.mp taken
    exact ⟨Bool.eq_false_iff.mpr hmark, party, hparty, rfl⟩

theorem submittingStep_submitter {label : SubmitterLabel}
    (taken : (submitting kinds alreadySubmitted).step s (.submitter label) = some s') :
    ∃ m, s.submitter.Moves s.party.table m ∧
      s' = ⟨s.party.marked m.marked, m.next, s.confirmed ++ m.confirmed⟩ := by
  obtain ⟨m, hm, rfl⟩ := Option.map_eq_some_iff.mp taken
  exact ⟨m, Submitter.moves hm, rfl⟩

theorem leads_marked (party : State) (id : Option DepositIdentifier) :
    (machine kinds).Leads (fun _ _ => True) party (party.marked id) := by
  cases id with
  | none => exact .refl
  | some id =>
      have taken :
          (machine kinds).step party (.setSubmitted id) = some (party.marked (some id)) := rfl
      exact .step .refl trivial taken

/-- The party of a run is a run of its writers. -/
theorem submitting_party {allowed : Submitting → SubmittingLabel → Prop}
    (run : (submitting kinds alreadySubmitted).Leads allowed s s') :
    (machine kinds).Leads (fun _ _ => True) s.party s'.party := by
  induction run with
  | refl => exact .refl
  | @step mid s' label before meets taken ih =>
      cases label with
      | party label =>
          obtain ⟨-, party, hparty, rfl⟩ := submittingStep_party taken
          exact .step ih trivial hparty
      | submitter label =>
          obtain ⟨m, -, rfl⟩ := submittingStep_submitter taken
          exact ih.trans (leads_marked mid.party m.marked)

/-! ## Who marks a row as submitted -/

def IsSubmitted (t : Table) (id : DepositIdentifier) : Prop := Flagged Deposit.submitted t id

namespace TableOp

/-- The row a query marks as submitted. -/
def submits : TableOp → Option DepositIdentifier
  | insertProcessed row => some row.identifier
  | updateDetails id _ _ _ => some id
  | setSubmitted id => some id
  | keep | insert _ | markProcessing _ | markFailed _ | updateProcessed _ | setDistributed _ => none

theorem submitted_onRow {op : TableOp} {row : Deposit} (h : (op.onRow row).submitted = true) :
    row.submitted = true ∨ op.submits = some row.identifier := by
  rw [onRow] at h
  split at h
  · rename_i htarget
    cases op with
    | updateDetails id known hash signature => exact .inr htarget
    | setSubmitted id => exact .inr htarget
    | markProcessing id => exact .inl h
    | markFailed id => exact .inl h
    | updateProcessed data => exact .inl h
    | setDistributed id => exact .inl h
    | keep => exact .inl h
    | insert new => exact .inl h
    | insertProcessed new => exact .inl h
  · exact .inl h

/-- No query takes the mark away. -/
theorem submitted_onRow_of_submitted (op : TableOp) {row : Deposit} (h : row.submitted = true) :
    (op.onRow row).submitted = true := by
  rw [onRow]
  split
  · cases op with
    | updateDetails id known hash signature => rfl
    | setSubmitted id => rfl
    | markProcessing id => exact h
    | markFailed id => exact h
    | updateProcessed data => exact h
    | setDistributed id => exact h
    | keep => exact h
    | insert new => exact h
    | insertProcessed new => exact h
  · exact h

theorem submitted_newRow {op : TableOp} {row : Deposit} (new : op.newRow = some row)
    (h : row.submitted = true) : op.submits = some row.identifier := by
  cases op with
  | insert row =>
      cases new
      cases h
  | insertProcessed row =>
      cases new
      rfl
  | keep => cases new
  | markProcessing id => cases new
  | markFailed id => cases new
  | updateProcessed data => cases new
  | updateDetails id known hash signature => cases new
  | setDistributed id => cases new
  | setSubmitted id => cases new

end TableOp

theorem IsSubmitted.apply {t : Table} {id : DepositIdentifier} (h : IsSubmitted t id)
    (op : TableOp) : IsSubmitted (op.apply t) id :=
  Flagged.apply h fun _ hsubmitted => op.submitted_onRow_of_submitted hsubmitted

theorem isSubmitted_apply {t : Table} {id : DepositIdentifier} {op : TableOp}
    (h : IsSubmitted (op.apply t) id) : IsSubmitted t id ∨ op.submits = some id :=
  flagged_apply (fun id => op.submits = some id) (fun _ hrow => TableOp.submitted_onRow hrow)
    (fun _ hnew hrow => TableOp.submitted_newRow hnew hrow) h

theorem SessionUpdate.submits {op : TableOp} (h : SessionUpdate op) : op.submits = none := by
  cases h <;> rfl

theorem SessionQuery.submits {label : SessionLabel} {op : TableOp} (h : SessionQuery label op) :
    op.submits = none := by
  cases h with
  | update label updates => exact updates.submits
  | insert isValid pending => rfl

/-- The event a subscriber holds between its read and its write. -/
def SubscriberPc.event : SubscriberPc → Option Deposit
  | .idle => none
  | .inserting event => some event
  | .updating event _ => some event

theorem subscriberStep_submits {t : Table} {pc next : SubscriberPc} {label : SubscriberLabel}
    {op : TableOp} {id : DepositIdentifier} (h : subscriberStep t pc label = some (op, next))
    (submits : op.submits = some id) : ∃ event, pc.event = some event ∧ event.identifier = id := by
  unfold subscriberStep at h
  split at h
  · split at h
    · cases h
      cases submits
    · split at h <;> cases h <;> cases submits
  · rename_i event ok
    cases h
    refine ⟨event, rfl, ?_⟩
    split at submits
    · exact Option.some.inj submits
    · cases submits
  · rename_i event read ok
    cases h
    refine ⟨event, rfl, ?_⟩
    split at submits
    · exact Option.some.inj submits
    · cases submits
  · cases h

theorem subscriberStep_event {t : Table} {pc next : SubscriberPc} {label : SubscriberLabel}
    {op : TableOp} {event : Deposit} (h : subscriberStep t pc label = some (op, next))
    (held : next.event = some event) : label = .get event := by
  unfold subscriberStep at h
  split at h
  · split at h
    · cases h
      rw [Option.some.inj held]
    · split at h <;> cases h
      · rw [Option.some.inj held]
      · rw [Option.some.inj held]
      · cases held
  · cases h
    cases held
  · cases h
    cases held
  · cases h

/-- Only the subscriber and the submitter mark rows. -/
theorem move_submits {kinds : GoString → Option SessionKind} {s : State} {label : Label}
    {op : TableOp} {control : Control} {id : DepositIdentifier}
    (h : move kinds s label = some (op, control)) (submits : op.submits = some id) :
    label = .setSubmitted id ∨
      ∃ event, s.control.subscriber.event = some event ∧ event.identifier = id := by
  cases label with
  | session chainId label =>
      obtain ⟨kind, -, hmove⟩ := Option.bind_eq_some_iff.mp h
      obtain ⟨m, hm, heq⟩ := Option.map_eq_some_iff.mp hmove
      cases heq
      rw [(sessionMove_query hm).submits] at submits
      cases submits
  | orphan orphan label =>
      simp only [move, Option.ite_none_right_eq_some] at h
      obtain ⟨⟨op, next⟩, hstep, heq⟩ := Option.map_eq_some_iff.mp h.2
      cases heq
      rw [(finalizerStep_query hstep).submits] at submits
      cases submits
  | subscriber label =>
      obtain ⟨⟨op, next⟩, hstep, heq⟩ := Option.map_eq_some_iff.mp h
      cases heq
      exact .inr (subscriberStep_submits hstep submits)
  | admission row =>
      simp only [move, Option.ite_none_right_eq_some] at h
      cases h.2
      cases submits
  | setDistributed id =>
      cases h
      cases submits
  | setSubmitted id =>
      cases h
      cases submits
      exact .inl rfl
  | restart sessions =>
      cases h
      cases submits

theorem move_event {kinds : GoString → Option SessionKind} {s : State} {label : Label}
    {op : TableOp} {control : Control} {event : Deposit}
    (h : move kinds s label = some (op, control)) (held : control.subscriber.event = some event) :
    s.control.subscriber.event = some event ∨ event.identifier ∈ emitted label := by
  cases label with
  | session chainId label =>
      obtain ⟨kind, -, hmove⟩ := Option.bind_eq_some_iff.mp h
      obtain ⟨m, hm, heq⟩ := Option.map_eq_some_iff.mp hmove
      cases heq
      exact .inl held
  | orphan orphan label =>
      simp only [move, Option.ite_none_right_eq_some] at h
      obtain ⟨⟨op, next⟩, hstep, heq⟩ := Option.map_eq_some_iff.mp h.2
      cases heq
      exact .inl held
  | subscriber label =>
      obtain ⟨⟨op, next⟩, hstep, heq⟩ := Option.map_eq_some_iff.mp h
      cases heq
      rw [subscriberStep_event hstep held]
      exact .inr (List.mem_singleton.mpr rfl)
  | admission row =>
      simp only [move, Option.ite_none_right_eq_some] at h
      cases h.2
      exact .inl held
  | setDistributed id =>
      cases h
      exact .inl held
  | setSubmitted id =>
      cases h
      exact .inl held
  | restart sessions =>
      cases h
      cases held

/-! ## Confirmation -/

/-- What the history of confirmations covers. -/
structure Confirms (s : Submitting) : Prop where
  rows : ∀ id, IsSubmitted s.party.table id → id ∈ s.confirmed
  event : ∀ event, s.party.control.subscriber.event = some event → event.identifier ∈ s.confirmed
  marking : ∀ id, s.submitter.pc = .marking id → id ∈ s.confirmed

theorem confirms_init (start : (submitting kinds alreadySubmitted).init s) : Confirms s := by
  obtain ⟨⟨htable, -, -, hsubscriber, -⟩, hsubmitter, -⟩ := start
  refine ⟨?_, ?_, ?_⟩
  · rintro id ⟨row, hrow, -⟩
    rw [htable] at hrow
    cases hrow
  · intro event hevent
    rw [hsubscriber] at hevent
    cases hevent
  · intro id hpc
    rw [hsubmitter] at hpc
    cases hpc

theorem Confirms.party {label : Label} {party : State} (h : Confirms s)
    (hmark : isMark label = false)
    (taken : step kinds s.party label = some party) :
    Confirms ⟨party, s.submitter.restarted label, s.confirmed ++ emitted label⟩ := by
  obtain ⟨op, hmove, htable⟩ := step_eq_some taken
  refine ⟨?_, ?_, ?_⟩
  · intro id hsubmitted
    rw [htable] at hsubmitted
    rcases isSubmitted_apply hsubmitted with hbefore | hsubmits
    · exact List.mem_append_left _ (h.rows id hbefore)
    · rcases move_submits hmove hsubmits with rfl | ⟨event, hevent, rfl⟩
      · cases hmark
      · exact List.mem_append_left _ (h.event event hevent)
  · intro event hevent
    rcases move_event hmove hevent with hbefore | hemitted
    · exact List.mem_append_left _ (h.event event hbefore)
    · exact List.mem_append_right _ hemitted
  · intro id hpc
    rcases s.submitter.restarted_cases label with hidle | hsame
    · rw [hidle] at hpc
      cases hpc
    · rw [hsame] at hpc
      exact List.mem_append_left _ (h.marking id hpc)

theorem Confirms.submitter {m : SubmitterMove} (h : Confirms s)
    (moved : s.submitter.Moves s.party.table m) :
    Confirms ⟨s.party.marked m.marked, m.next, s.confirmed ++ m.confirmed⟩ := by
  have hquiet : ∀ confirmed next, (∀ id, next.pc = .marking id → id ∈ s.confirmed ++ confirmed) →
      Confirms ⟨s.party, next, s.confirmed ++ confirmed⟩ := by
    intro confirmed next hnext
    exact ⟨fun id hid => List.mem_append_left _ (h.rows id hid),
      fun event hevent => List.mem_append_left _ (h.event event hevent), hnext⟩
  cases moved with
  | waits pc =>
      apply hquiet
      intro id hid
      rw [pc] at hid
      cases hid
  | takes pc found =>
      apply hquiet
      intro id hid
      cases hid
  | refused pc =>
      apply hquiet
      intro id hid
      cases hid
  | confirmed pc =>
      apply hquiet
      intro id hid
      cases hid
      exact List.mem_append_right _ (List.mem_singleton.mpr rfl)
  | unmarked pc =>
      apply hquiet
      intro id hid
      cases hid
  | @marked target pc =>
      rw [List.append_nil]
      refine ⟨?_, h.event, fun id hid => by cases hid⟩
      intro id hid
      rcases isSubmitted_apply hid with hbefore | hsubmits
      · exact h.rows id hbefore
      · cases hsubmits
        exact h.marking target pc

theorem Confirms.step (h : Confirms s)
    (taken : (submitting kinds alreadySubmitted).step s label = some s') : Confirms s' := by
  cases label with
  | party label =>
      obtain ⟨hmark, party, hparty, rfl⟩ := submittingStep_party taken
      exact h.party hmark hparty
  | submitter label =>
      obtain ⟨m, hm, rfl⟩ := submittingStep_submitter taken
      exact h.submitter hm

/-- Undisturbed updates of the party's own goroutines; the submitter writes no status. -/
def UndisturbedBeside (kinds : GoString → Option SessionKind) (s : Submitting) :
    SubmittingLabel → Prop
  | .party label => Undisturbed kinds s.party label
  | .submitter _ => True

instance (s : Submitting) (label : SubmittingLabel) :
    Decidable (UndisturbedBeside kinds s label) :=
  match label with
  | .party label => inferInstanceAs (Decidable (Undisturbed kinds s.party label))
  | .submitter _ => inferInstanceAs (Decidable True)

theorem undisturbed_party (run : (submitting kinds alreadySubmitted).Leads
    (UndisturbedBeside kinds) s s') :
    (machine kinds).Leads (Undisturbed kinds) s.party s'.party := by
  induction run with
  | refl => exact .refl
  | @step mid s' label before meets taken ih =>
      cases label with
      | party label =>
          obtain ⟨-, party, hparty, rfl⟩ := submittingStep_party taken
          exact .step ih meets hparty
      | submitter label =>
          obtain ⟨m, -, rfl⟩ := submittingStep_submitter taken
          cases m.marked with
          | none => exact ih
          | some id =>
              have hquiet : Undisturbed kinds mid.party (.setSubmitted id) := by
                intro w hw
                cases hw
              exact .step ih hquiet rfl

/-- While no update is disturbed, a processed deposit waits for the submitter until the core has
confirmed it. -/
theorem processed_waits (kinds : GoString → Option SessionKind) (alreadySubmitted : GoString)
    {s s' : Submitting} (reached : (submitting kinds alreadySubmitted).Reaches s)
    (run : (submitting kinds alreadySubmitted).Leads (UndisturbedBeside kinds) s s')
    {id : DepositIdentifier} (held : s.party.table.statusOf id = some .processed) :
    ∃ row, s'.party.table.get id = some row ∧ row.withdrawalStatus = .processed ∧
      (DepositsSelector.unsubmitted.selects row = true ∨ id ∈ s'.confirmed) := by
  have hconfirms : Confirms s := by
    apply reached.invariant (P := Confirms)
    · exact fun s start => confirms_init start
    · exact fun s label s' _ h _ taken => h.step taken
  have hconfirms' : Confirms s' := by
    apply run.invariant (P := Confirms) _ hconfirms
    exact fun s label s' h _ taken => h.step taken
  have hstatus : s'.party.table.statusOf id = some .processed := by
    apply (undisturbed_party run).invariant
      (P := fun party => party.table.statusOf id = some .processed) _ held
    intro party label party' hparty meets taken
    exact step_keeps_final (by decide) hparty meets taken
  obtain ⟨row, hrow, hprocessed⟩ := Option.map_eq_some_iff.mp hstatus
  refine ⟨row, hrow, hprocessed, ?_⟩
  cases hsubmitted : row.submitted with
  | true => exact .inr (hconfirms'.rows id ⟨row, hrow, hsubmitted⟩)
  | false => exact .inl (DepositsSelector.selects_unsubmitted.mpr ⟨hprocessed, hsubmitted⟩)

/-- The submitter before the first deposit, and the labels of a party that has processed it. -/
def freshSubmitting : Submitting := ⟨fresh, ⟨.idle, []⟩, []⟩

theorem freshSubmitting_init : (submitting kinds alreadySubmitted).init freshSubmitting :=
  ⟨fresh_init kinds, rfl, rfl⟩

def processedLabels : List SubmittingLabel := leaderProcesses.map .party

/-- The core cannot be reached. -/
def attempt : List SubmittingLabel :=
  [.submitter (.poll false), .submitter (.submit (.error (str "unavailable")))]

theorem processed_waits_unconfirmed :
    ∃ s s', (submitting utxoOnly (str "already")).Reaches s ∧
      (submitting utxoOnly (str "already")).Leads (UndisturbedBeside utxoOnly) s s' ∧
      s.party.table.statusOf sampleId = some .processed ∧ s'.submitter.sent.length = 1 ∧
      ∃ row, s'.party.table.get sampleId = some row ∧
        DepositsSelector.unsubmitted.selects row = true := by
  have hrun : (((submitting utxoOnly (str "already")).exec (fun _ _ => True) freshSubmitting
      processedLabels).bind fun s => ((submitting utxoOnly (str "already")).exec
        (UndisturbedBeside utxoOnly) s attempt).map fun s' =>
        (s.party.table.statusOf sampleId, s'.submitter.sent.length, s'.confirmed)) =
      some (some .processed, 1, []) := by
    decide +kernel
  obtain ⟨s, hs, hrest⟩ := Option.bind_eq_some_iff.mp hrun
  obtain ⟨s', hs', hseen⟩ := Option.map_eq_some_iff.mp hrest
  obtain ⟨hstatus, hseen⟩ := Prod.mk.inj hseen
  obtain ⟨hsent, hconfirmed⟩ := Prod.mk.inj hseen
  have hreached : (submitting utxoOnly (str "already")).Reaches s :=
    (Machine.Reachable.init freshSubmitting_init).exec hs
  have hleads := Machine.Leads.refl.exec hs'
  obtain ⟨row, hrow, -, hwaits⟩ := processed_waits utxoOnly (str "already") hreached hleads hstatus
  refine ⟨s, s', hreached, hleads, hstatus, hsent, row, hrow, hwaits.resolve_right ?_⟩
  rw [hconfirmed]
  exact List.not_mem_nil

end TssSvc.Party
