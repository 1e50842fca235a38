import TssSvc.Lib.Outbox
import TssSvc.Party.Submission

/-!
# The order of submissions

What the submitter hands to the core along a run.  A deposit can be handed over several times, with
a retry after every failure, but never after its mark.  The submitter works through the waiting rows
from the oldest on and does not skip one.
-/

set_option autoImplicit false

namespace TssSvc.Party

open TssSvc.Db TssSvc.Bridge

variable {kinds : GoString → Option SessionKind} {alreadySubmitted : GoString}
  {s s' : Submitting} {label : SubmittingLabel}

/-! ## What is handed over -/

def Submitter.Holds (s : Submitter) (id : DepositIdentifier) : Prop :=
  ∃ deposit, s.pc = .submitting deposit ∧ deposit.identifier = id

/-- A row as it was selected, of which the table still has the fixed columns. -/
def Selected (t : Table) (deposit : Deposit) : Prop :=
  DepositsSelector.unsubmitted.selects deposit = true ∧
    ∃ row, t.get deposit.identifier = some row ∧ fixedColumns row = fixedColumns deposit

theorem Selected.keeps {t t' : Table} {deposit : Deposit} (h : Selected t deposit)
    (keeps : Keeps t t') : Selected t' deposit := by
  obtain ⟨hselects, row, hrow, hfixed⟩ := h
  obtain ⟨row', hrow', hfixed'⟩ := keeps _ row hrow
  exact ⟨hselects, row', hrow', hfixed'.trans hfixed⟩

/-- Every row handed over, or about to be, was selected. -/
structure SentOk (s : Submitting) : Prop where
  sent : ∀ deposit ∈ s.submitter.sent, Selected s.party.table deposit
  held : ∀ deposit, s.submitter.pc = .submitting deposit → Selected s.party.table deposit

theorem SentOk.step (h : SentOk s)
    (taken : (submitting kinds alreadySubmitted).step s label = some s') : SentOk s' := by
  have hkeeps : Keeps s.party.table s'.party.table := by
    have hrun : (submitting kinds alreadySubmitted).Leads (fun _ _ => True) s s' :=
      .step .refl trivial taken
    exact leads_keeps (submitting_party hrun)
  have hsent : ∀ deposit ∈ s.submitter.sent, Selected s'.party.table deposit :=
    fun deposit hmem => (h.sent deposit hmem).keeps hkeeps
  cases label with
  | party label =>
      obtain ⟨-, party, -, rfl⟩ := submittingStep_party taken
      rcases s.submitter.restarted_cases label with hidle | hsame
      · rw [hidle]
        exact ⟨hsent, fun deposit hpc => by cases hpc⟩
      · rw [hsame]
        exact ⟨hsent, fun deposit hpc => (h.held deposit hpc).keeps hkeeps⟩
  | submitter label =>
      obtain ⟨m, hm, rfl⟩ := submittingStep_submitter taken
      have hadd : ∀ deposit, s.submitter.pc = .submitting deposit →
          ∀ d ∈ s.submitter.sent ++ [deposit], Selected (s.party.marked m.marked).table d := by
        intro deposit hpc d hd
        rcases List.mem_append.mp hd with hold | hnew
        · exact hsent d hold
        · rw [List.mem_singleton.mp hnew]
          exact (h.held deposit hpc).keeps hkeeps
      cases hm with
      | waits pc => exact ⟨hsent, fun deposit hpc => (h.held deposit hpc).keeps hkeeps⟩
      | @takes row pc found =>
          refine ⟨hsent, fun deposit hpc => ?_⟩
          cases hpc
          obtain ⟨hget, hselects⟩ := Table.get_of_getWithSelector found
          exact ⟨hselects, row, hget, rfl⟩
      | refused pc => exact ⟨hadd _ pc, fun deposit hpc => by cases hpc⟩
      | confirmed pc => exact ⟨hadd _ pc, fun deposit hpc => by cases hpc⟩
      | unmarked pc => exact ⟨hsent, fun deposit hpc => by cases hpc⟩
      | marked pc => exact ⟨hsent, fun deposit hpc => by cases hpc⟩

theorem reaches_sentOk (reached : (submitting kinds alreadySubmitted).Reaches s) : SentOk s := by
  apply reached.invariant (P := SentOk)
  · rintro s ⟨-, hsubmitter, -⟩
    refine ⟨?_, ?_⟩
    · rw [hsubmitter]
      intro deposit hmem
      cases hmem
    · rw [hsubmitter]
      intro deposit hpc
      cases hpc
  · exact fun s label s' _ h _ taken => h.step taken

def Submitter.sentFor (s : Submitter) (id : DepositIdentifier) : List Deposit :=
  s.sent.filter fun deposit => deposit.identifier = id

/-- The deposit is marked, not in hand, and was handed over as often as given. -/
structure Finished (id : DepositIdentifier) (sent : List Deposit) (s : Submitting) : Prop where
  submitted : IsSubmitted s.party.table id
  notHeld : ¬s.submitter.Holds id
  sentFor : s.submitter.sentFor id = sent

theorem not_holds_idle {sent : List Deposit} {id : DepositIdentifier} :
    ¬(Submitter.mk .idle sent).Holds id := by
  rintro ⟨deposit, hpc, -⟩
  cases hpc

theorem not_holds_marking {sent : List Deposit} {id target : DepositIdentifier} :
    ¬(Submitter.mk (.marking target) sent).Holds id := by
  rintro ⟨deposit, hpc, -⟩
  cases hpc

theorem sentFor_concat {sub : Submitter} {deposit : Deposit} {id : DepositIdentifier}
    (pc : sub.pc = .submitting deposit) (notHeld : ¬sub.Holds id) (next : SubmitterPc) :
    (Submitter.mk next (sub.sent ++ [deposit])).sentFor id = sub.sentFor id := by
  have hother : deposit.identifier ≠ id := fun hid => notHeld ⟨deposit, pc, hid⟩
  simp [Submitter.sentFor, hother]

theorem Finished.step {id : DepositIdentifier} {sent : List Deposit} (h : Finished id sent s)
    (taken : (submitting kinds alreadySubmitted).step s label = some s') : Finished id sent s' := by
  obtain ⟨hsubmitted, hheld, hsent⟩ := h
  cases label with
  | party label =>
      obtain ⟨-, party, hparty, rfl⟩ := submittingStep_party taken
      obtain ⟨op, -, htable⟩ := step_eq_some hparty
      have hmarked : IsSubmitted party.table id := by
        rw [htable]
        exact hsubmitted.apply op
      rcases s.submitter.restarted_cases label with hidle | hsame
      · rw [hidle]
        exact ⟨hmarked, not_holds_idle, hsent⟩
      · rw [hsame]
        exact ⟨hmarked, hheld, hsent⟩
  | submitter label =>
      obtain ⟨m, hm, rfl⟩ := submittingStep_submitter taken
      cases hm with
      | waits pc => exact ⟨hsubmitted, hheld, hsent⟩
      | @takes row pc found =>
          refine ⟨hsubmitted, ?_, hsent⟩
          rintro ⟨deposit, hpc, hid⟩
          cases hpc
          -- a marked row is not selected
          obtain ⟨hget, hselects⟩ := Table.get_of_getWithSelector found
          obtain ⟨marked, hmarked, htrue⟩ := hsubmitted
          rw [hid, hmarked] at hget
          cases hget
          rw [(DepositsSelector.selects_unsubmitted.mp hselects).2] at htrue
          cases htrue
      | refused pc =>
          exact ⟨hsubmitted, not_holds_idle, (sentFor_concat pc hheld _).trans hsent⟩
      | confirmed pc =>
          exact ⟨hsubmitted, not_holds_marking, (sentFor_concat pc hheld _).trans hsent⟩
      | unmarked pc => exact ⟨hsubmitted, not_holds_idle, hsent⟩
      | marked pc => exact ⟨hsubmitted.apply _, not_holds_idle, hsent⟩

/-- A transaction without the fields that are written after the insert. -/
def Transaction.fixedFields (tx : Transaction) : Transaction :=
  { tx with withdrawalTxHash := [], signature := [], txData := [] }

theorem fixedFields_toTransaction {d d' : Deposit} (h : fixedColumns d = fixedColumns d') :
    Transaction.fixedFields d.toTransaction = Transaction.fixedFields d'.toTransaction := by
  have hfields : ∀ d : Deposit, Transaction.fixedFields d.toTransaction =
      Transaction.fixedFields (fixedColumns d).toTransaction := fun _ => rfl
  rw [hfields d, hfields d', h]

/-- Whatever the writers do and however often the party starts again: all transactions handed to the
core for one deposit say the same about it, each was built from a processed row that was not marked,
and after the mark there is none. -/
theorem handed_over (kinds : GoString → Option SessionKind) (alreadySubmitted : GoString)
    {s : Submitting} (reached : (submitting kinds alreadySubmitted).Reaches s) :
    (∀ deposit ∈ s.submitter.sent, ∀ deposit' ∈ s.submitter.sent,
      deposit.identifier = deposit'.identifier →
        Transaction.fixedFields deposit.toTransaction =
          Transaction.fixedFields deposit'.toTransaction) ∧
    (∀ deposit ∈ s.submitter.sent,
      deposit.withdrawalStatus = .processed ∧ deposit.submitted = false) ∧
    ∀ id, IsSubmitted s.party.table id → ¬s.submitter.Holds id →
      ∀ s', (submitting kinds alreadySubmitted).Leads (fun _ _ => True) s s' →
        s'.submitter.sentFor id = s.submitter.sentFor id := by
  have hok := reaches_sentOk reached
  refine ⟨?_, ?_, ?_⟩
  · intro deposit hmem deposit' hmem' hid
    obtain ⟨-, row, hrow, hfixed⟩ := hok.sent deposit hmem
    obtain ⟨-, row', hrow', hfixed'⟩ := hok.sent deposit' hmem'
    rw [hid, hrow'] at hrow
    cases hrow
    exact fixedFields_toTransaction (hfixed.symm.trans hfixed')
  · intro deposit hmem
    exact DepositsSelector.selects_unsubmitted.mp (hok.sent deposit hmem).1
  · intro id hsubmitted hheld s' run
    have hfinished : Finished id (s.submitter.sentFor id) s' := by
      apply run.invariant (P := Finished id (s.submitter.sentFor id)) _ ⟨hsubmitted, hheld, rfl⟩
      exact fun s label s' h _ taken => h.step taken
    exact hfinished.sentFor

def accepted : List SubmittingLabel :=
  [.submitter (.poll false), .submitter (.submit (.ok ())), .submitter (.mark false)]

theorem handed_over_twice :
    ∃ s s', (submitting utxoOnly (str "already")).Reaches s ∧
      (submitting utxoOnly (str "already")).Leads (fun _ _ => True) s s' ∧
      (s.submitter.sentFor sampleId).length = 2 ∧
      s'.submitter.sentFor sampleId = s.submitter.sentFor sampleId := by
  have hrun : (((submitting utxoOnly (str "already")).exec (fun _ _ => True) freshSubmitting
      (processedLabels ++ attempt ++ accepted)).bind fun s =>
        ((submitting utxoOnly (str "already")).exec (fun _ _ => True) s
          [.party (.restart fun _ => 7), .submitter (.poll false)]).map fun _ =>
        ((s.submitter.sentFor sampleId).length, s.submitter.pc,
          (s.party.table.get sampleId).map Deposit.submitted)) = some (2, .idle, some true) := by
    decide +kernel
  obtain ⟨s, hs, hrest⟩ := Option.bind_eq_some_iff.mp hrun
  obtain ⟨s', hs', hseen⟩ := Option.map_eq_some_iff.mp hrest
  obtain ⟨hcount, hseen⟩ := Prod.mk.inj hseen
  obtain ⟨hpc, hsubmitted⟩ := Prod.mk.inj hseen
  have hreached : (submitting utxoOnly (str "already")).Reaches s :=
    (Machine.Reachable.init freshSubmitting_init).exec hs
  have hleads : (submitting utxoOnly (str "already")).Leads (fun _ _ => True) s s' :=
    Machine.Leads.refl.exec hs'
  have hheld : ¬s.submitter.Holds sampleId := by
    rintro ⟨deposit, hholds, -⟩
    rw [hpc] at hholds
    cases hholds
  exact ⟨s, s', hreached, hleads, hcount, (handed_over utxoOnly (str "already") hreached).2.2
    sampleId (Option.map_eq_some_iff.mp hsubmitted) hheld s' hleads⟩

/-! ## The submitter alone -/

def settle (row : Deposit) : Deposit := { row with submitted := true }

theorem selects_settle (row : Deposit) :
    DepositsSelector.unsubmitted.selects (settle row) = false := by
  simp [settle, DepositsSelector.selects, DepositsSelector.unsubmitted]

/-- The rows the submitter is to hand over, oldest first. -/
def waiting (rows : List Deposit) : List Deposit :=
  rows.filter DepositsSelector.unsubmitted.selects

/-- The rows after the first `n` of them are marked. -/
def marks (rows : List Deposit) (n : Nat) : List Deposit :=
  Outbox.settleFirst DepositsSelector.unsubmitted.selects settle rows n

def alone (_ : Submitting) : SubmittingLabel → Prop
  | .party _ => False
  | .submitter _ => True

section Alone

variable {t : Table} {rows : List Deposit} {n : Nat}

theorem getWithSelector_marks (h : t.rows = marks rows n) :
    t.getWithSelector .unsubmitted = (waiting rows)[n]? := by
  rw [Table.getWithSelector, h]
  exact Outbox.find?_settleFirst selects_settle rows n

theorem rows_setSubmitted {row : Deposit} (h : t.rows = marks rows n)
    (next : (waiting rows)[n]? = some row) :
    ((TableOp.setSubmitted row.identifier).apply t).rows = marks rows (n + 1) := by
  rw [← getWithSelector_marks h] at next
  calc ((TableOp.setSubmitted row.identifier).apply t).rows
      = Outbox.turn DepositsSelector.unsubmitted.selects settle true t.rows :=
        Outbox.map_eq_turn t.unique next
    _ = marks rows (n + 1) := by
        rw [h]
        exact Outbox.turn_settleFirst selects_settle rows n

/-- `n` rows are marked; the rows at `positions` were handed over, in this order. -/
structure InOrder (rows before : List Deposit) (n : Nat) (positions : List Nat) (s : Submitting) :
    Prop where
  table : s.party.table.rows = marks rows n
  sent : s.submitter.sent = before ++ positions.filterMap fun k => (waiting rows)[k]?
  sorted : positions.Pairwise (· ≤ ·)
  covers : ∀ k < n, k ∈ positions
  within : ∀ k ∈ positions, k ≤ n ∧ k < (waiting rows).length
  held : ∀ deposit, s.submitter.pc = .submitting deposit → (waiting rows)[n]? = some deposit
  toMark : ∀ id, s.submitter.pc = .marking id → n ∈ positions ∧
    ∃ deposit, (waiting rows)[n]? = some deposit ∧ deposit.identifier = id

theorem InOrder.concat {before : List Deposit} {positions : List Nat} {deposit : Deposit}
    (h : InOrder rows before n positions s) (pc : s.submitter.pc = .submitting deposit)
    {next : SubmitterPc} (hnext : next = .idle ∨ next = .marking deposit.identifier)
    (confirmed : List DepositIdentifier) :
    InOrder rows before n (positions ++ [n])
      ⟨s.party, ⟨next, s.submitter.sent ++ [deposit]⟩, confirmed⟩ := by
  have hdeposit := h.held deposit pc
  refine ⟨h.table, ?_, ?_, ?_, ?_, ?_, ?_⟩
  · simp [h.sent, hdeposit]
  · refine List.pairwise_append.mpr ⟨h.sorted, List.pairwise_singleton _ _, ?_⟩
    intro k hk m hm
    rw [List.mem_singleton.mp hm]
    exact (h.within k hk).1
  · intro k hk
    exact List.mem_append_left _ (h.covers k hk)
  · intro k hk
    rcases List.mem_append.mp hk with hold | hnew
    · exact h.within k hold
    · rw [List.mem_singleton.mp hnew]
      exact ⟨le_refl n, (List.getElem?_eq_some_iff.mp hdeposit).1⟩
  · intro other hpc
    rcases hnext with rfl | rfl <;> cases hpc
  · intro id hpc
    rcases hnext with rfl | rfl <;> cases hpc
    exact ⟨List.mem_append_right _ (List.mem_singleton.mpr rfl), deposit, hdeposit, rfl⟩

theorem InOrder.step {before : List Deposit} {positions : List Nat} {label : SubmitterLabel}
    (h : InOrder rows before n positions s)
    (taken : (submitting kinds alreadySubmitted).step s (.submitter label) = some s') :
    ∃ n positions, InOrder rows before n positions s' := by
  obtain ⟨m, hm, rfl⟩ := submittingStep_submitter taken
  cases hm with
  | waits pc =>
      exact ⟨n, positions, h.table, h.sent, h.sorted, h.covers, h.within, h.held, h.toMark⟩
  | @takes row pc found =>
      refine ⟨n, positions, h.table, h.sent, h.sorted, h.covers, h.within, ?_, ?_⟩
      · intro deposit hpc
        cases hpc
        rw [← getWithSelector_marks h.table]
        exact found
      · intro id hpc
        cases hpc
  | refused pc => exact ⟨n, positions ++ [n], h.concat pc (.inl rfl) _⟩
  | confirmed pc => exact ⟨n, positions ++ [n], h.concat pc (.inr rfl) _⟩
  | unmarked pc =>
      refine ⟨n, positions, h.table, h.sent, h.sorted, h.covers, h.within, ?_, ?_⟩
      · intro deposit hpc
        cases hpc
      · intro id hpc
        cases hpc
  | marked pc =>
      obtain ⟨hn, deposit, hdeposit, rfl⟩ := h.toMark _ pc
      refine ⟨n + 1, positions, rows_setSubmitted h.table hdeposit, h.sent, h.sorted, ?_, ?_,
        ?_, ?_⟩
      · intro k hk
        rcases Nat.lt_succ_iff_lt_or_eq.mp hk with hlt | rfl
        · exact h.covers k hlt
        · exact hn
      · intro k hk
        obtain ⟨hle, hlt⟩ := h.within k hk
        exact ⟨Nat.le_succ_of_le hle, hlt⟩
      · intro deposit hpc
        cases hpc
      · intro id hpc
        cases hpc

/-- One turn in which nothing fails. -/
theorem turn_leads (hidle : s.submitter.pc = .idle) {row : Deposit}
    (found : s.party.table.getWithSelector .unsubmitted = some row) :
    (submitting kinds alreadySubmitted).Leads alone s
      ⟨s.party.marked (some row.identifier), ⟨.idle, s.submitter.sent ++ [row]⟩,
        s.confirmed ++ [row.identifier]⟩ := by
  have hpoll : (submitting kinds alreadySubmitted).step s (.submitter (.poll false)) =
      some ⟨s.party, ⟨.submitting row, s.submitter.sent⟩, s.confirmed⟩ := by
    simp [submitting, submittingStep, Submitter.move, hidle, found, State.marked]
  have hsubmit : (submitting kinds alreadySubmitted).step
      ⟨s.party, ⟨.submitting row, s.submitter.sent⟩, s.confirmed⟩
      (.submitter (.submit (.ok ()))) = some ⟨s.party,
        ⟨.marking row.identifier, s.submitter.sent ++ [row]⟩, s.confirmed ++ [row.identifier]⟩ := by
    simp [submitting, submittingStep, Submitter.move, submitDeposits, known, State.marked]
  have hmark : (submitting kinds alreadySubmitted).step ⟨s.party,
      ⟨.marking row.identifier, s.submitter.sent ++ [row]⟩, s.confirmed ++ [row.identifier]⟩
      (.submitter (.mark false)) = some ⟨s.party.marked (some row.identifier),
        ⟨.idle, s.submitter.sent ++ [row]⟩, s.confirmed ++ [row.identifier]⟩ := by
    simp [submitting, submittingStep, Submitter.move]
  have hmeets : ∀ s label, alone s (.submitter label) := fun _ _ => trivial
  exact .step (.step (.step .refl (hmeets _ _) hpoll) (hmeets _ _) hsubmit) (hmeets _ _) hmark

theorem turns_lead (hidle : s.submitter.pc = .idle) :
    ∀ n ≤ (waiting s.party.table.rows).length, ∃ s',
      (submitting kinds alreadySubmitted).Leads alone s s' ∧ s'.submitter.pc = .idle ∧
        s'.party.table.rows = marks s.party.table.rows n ∧
        s'.submitter.sent = s.submitter.sent ++ (waiting s.party.table.rows).take n := by
  intro n
  induction n with
  | zero =>
      intro _
      refine ⟨s, .refl, hidle, ?_, ?_⟩
      · exact (Outbox.settleFirst_zero _ _ _).symm
      · simp
  | succ n ih =>
      intro hn
      obtain ⟨mid, hmid, hpc, htable, hsent⟩ := ih (by omega)
      have hnext : (waiting s.party.table.rows)[n]? =
          some (waiting s.party.table.rows)[n] := List.getElem?_eq_getElem hn
      have hfound := getWithSelector_marks htable
      rw [hnext] at hfound
      refine ⟨_, hmid.trans (turn_leads hpc hfound), rfl, rows_setSubmitted htable hnext, ?_⟩
      rw [hsent, List.append_assoc, List.take_succ_eq_append_getElem hn]

/-- The submitter alone, whatever fails: it marks the waiting rows from the oldest on, and hands a
row over only when all older ones are marked, so a row the core refuses holds up all later ones.
It can always go on until no row waits. -/
theorem submitted_in_order (kinds : GoString → Option SessionKind) (alreadySubmitted : GoString)
    {s : Submitting} (idle : s.submitter.pc = .idle) :
    (∀ s', (submitting kinds alreadySubmitted).Leads alone s s' → ∃ n, ∃ positions : List Nat,
      s'.party.table.rows = marks s.party.table.rows n ∧
      s'.submitter.sent = s.submitter.sent ++
        positions.filterMap (fun k => (waiting s.party.table.rows)[k]?) ∧
      positions.Pairwise (· ≤ ·) ∧ (∀ k < n, k ∈ positions) ∧
      ∀ k ∈ positions, k ≤ n ∧ k < (waiting s.party.table.rows).length) ∧
    ∃ s', (submitting kinds alreadySubmitted).Leads alone s s' ∧
      s'.party.table.getWithSelector .unsubmitted = none ∧
      s'.submitter.sent = s.submitter.sent ++ waiting s.party.table.rows := by
  constructor
  · intro s' run
    have hstart : InOrder s.party.table.rows s.submitter.sent 0 [] s := by
      refine ⟨(Outbox.settleFirst_zero _ _ _).symm, by simp, List.Pairwise.nil, ?_, ?_, ?_, ?_⟩
      · intro k hk
        exact absurd hk (Nat.not_lt_zero k)
      · intro k hk
        cases hk
      · intro deposit hpc
        rw [idle] at hpc
        cases hpc
      · intro id hpc
        rw [idle] at hpc
        cases hpc
    have hinvariant :
        ∃ n positions, InOrder s.party.table.rows s.submitter.sent n positions s' := by
      apply run.invariant
        (P := fun mid => ∃ n positions, InOrder s.party.table.rows s.submitter.sent n positions mid)
        _ ⟨0, [], hstart⟩
      rintro mid label mid' ⟨n, positions, h⟩ meets taken
      cases label with
      | party label => exact meets.elim
      | submitter label => exact h.step taken
    obtain ⟨n, positions, h⟩ := hinvariant
    exact ⟨n, positions, h.table, h.sent, h.sorted, h.covers, h.within⟩
  · obtain ⟨s', run, -, htable, hsent⟩ := turns_lead idle _ (le_refl _)
    refine ⟨s', run, ?_, ?_⟩
    · rw [getWithSelector_marks htable]
      exact List.getElem?_eq_none (le_refl _)
    · rw [hsent, List.take_length]

theorem submitted_in_order_processed :
    ∃ s s', s.submitter.pc = .idle ∧ (waiting s.party.table.rows).length = 1 ∧
      (submitting utxoOnly (str "already")).Leads alone s s' ∧
      s'.party.table.getWithSelector .unsubmitted = none ∧
      s'.submitter.sent = s.submitter.sent ++ waiting s.party.table.rows := by
  have hrun : ((submitting utxoOnly (str "already")).exec (fun _ _ => True) freshSubmitting
      processedLabels).map (fun s => (s.submitter.pc, (waiting s.party.table.rows).length)) =
      some (.idle, 1) := by
    decide +kernel
  obtain ⟨s, -, hseen⟩ := Option.map_eq_some_iff.mp hrun
  obtain ⟨hpc, hlength⟩ := Prod.mk.inj hseen
  obtain ⟨s', run, hnone, hsent⟩ := (submitted_in_order utxoOnly (str "already") hpc).2
  exact ⟨s, s', hpc, hlength, run, hnone, hsent⟩

end Alone

end TssSvc.Party
