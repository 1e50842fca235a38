import TssSvc.Party.Writers

/-!
# Final withdrawal statuses

`FinalWithdrawalStatuses` are the statuses after which nothing should happen to a deposit: the
websocket closes on them and the submitter forwards the processed ones.  No query protects them.
Each writer decides to update after a read of its own, or after an earlier write, and the update
does not look again.  They are kept along every run in which each update finds the row in the
status its writer takes it to have.
-/

set_option autoImplicit false

namespace TssSvc.Party

open TssSvc.Db

/-! ## What one query does to a status -/

/-- Inserts never touch a row that is there. -/
theorem get_inserted {t : Table} {row found : Deposit} {id : DepositIdentifier}
    (h : t.get id = some found) : (inserted t (t.insertRow row)).get id = some found := by
  cases hins : t.insertRow row with
  | error e => exact h
  | ok next =>
      obtain ⟨hnew, -⟩ := Table.insertRow_eq_ok_iff.mp hins
      simp only [inserted, Table.get_insertRow hins]
      split
      · rename_i hid
        rw [hid] at hnew
        rw [Table.get_eq_none_iff.mpr hnew] at h
        cases h
      · exact h

theorem statusOf_inserted {t : Table} {row : Deposit} {id : DepositIdentifier}
    {status : WithdrawalStatus} (held : t.statusOf id = some status) :
    (inserted t (t.insertRow row)).statusOf id = some status := by
  obtain ⟨found, hfound, hstatus⟩ := Option.map_eq_some_iff.mp held
  rw [Table.statusOf, get_inserted hfound, Option.map_some, hstatus]

/-- The status a query leaves in a row that had the given one. -/
def TableOp.statusAfter (op : TableOp) (id : DepositIdentifier) (status : WithdrawalStatus) :
    WithdrawalStatus :=
  match op.statusWrite with
  | some w => if id = w.id then w.written else status
  | none => status

theorem TableOp.statusOf_apply (op : TableOp) {t : Table} {id : DepositIdentifier}
    {status : WithdrawalStatus} (held : t.statusOf id = some status) :
    (op.apply t).statusOf id = some (op.statusAfter id status) := by
  cases op with
  | keep => exact held
  | insert row => exact statusOf_inserted held
  | insertProcessed row => exact statusOf_inserted held
  | markProcessing target =>
      refine Table.statusOf_update_writes ?_ held ?_ <;> exact fun _ => rfl
  | markFailed target =>
      refine Table.statusOf_update_writes ?_ held ?_ <;> exact fun _ => rfl
  | updateProcessed data =>
      refine Table.statusOf_update_writes ?_ held ?_ <;> exact fun _ => rfl
  | updateDetails target known hash signature =>
      refine Table.statusOf_update_writes ?_ held ?_ <;> exact fun _ => rfl
  | setDistributed target =>
      refine Table.statusOf_update_keeps ?_ held ?_ <;> exact fun _ => rfl
  | setSubmitted target =>
      refine Table.statusOf_update_keeps ?_ held ?_ <;> exact fun _ => rfl

theorem step_eq_some {kinds : GoString → Option SessionKind} {s s' : State} {label : Label}
    (h : step kinds s label = some s') :
    ∃ op, move kinds s label = some (op, s'.control) ∧ s'.table = op.apply s.table := by
  obtain ⟨⟨op, control⟩, hmove, rfl⟩ := Option.map_eq_some_iff.mp h
  exact ⟨op, hmove, rfl⟩

/-! ## Undisturbed runs -/

/-- The row is in the status its writer takes it to have, or already in the one it writes. -/
def StatusWrite.Undisturbed (w : StatusWrite) (t : Table) : Prop :=
  ∀ status ∈ t.statusOf w.id, status = w.known.toStatus ∨ status = w.written

instance (w : StatusWrite) (t : Table) : Decidable (w.Undisturbed t) :=
  inferInstanceAs (Decidable (∀ status ∈ t.statusOf w.id, _))

def statusWriteOf (kinds : GoString → Option SessionKind) (s : State) (label : Label) :
    Option StatusWrite :=
  (move kinds s label).bind fun m => m.1.statusWrite

def Undisturbed (kinds : GoString → Option SessionKind) (s : State) (label : Label) : Prop :=
  ∀ w ∈ statusWriteOf kinds s label, w.Undisturbed s.table

instance (kinds : GoString → Option SessionKind) (s : State) (label : Label) :
    Decidable (Undisturbed kinds s label) :=
  inferInstanceAs (Decidable (∀ w ∈ statusWriteOf kinds s label, _))

theorem OpenStatus.toStatus_not_final (status : OpenStatus) :
    status.toStatus ∉ finalWithdrawalStatuses := by
  cases status <;> decide

/-- No writer takes a row to be final, so an undisturbed update leaves a final one alone. -/
theorem StatusWrite.Undisturbed.keeps_final {w : StatusWrite} {t : Table}
    (h : w.Undisturbed t) {status : WithdrawalStatus} (held : t.statusOf w.id = some status)
    (final : status ∈ finalWithdrawalStatuses) : w.written = status := by
  rcases h status held with hknown | hwritten
  · rw [hknown] at final
    exact absurd final w.known.toStatus_not_final
  · exact hwritten.symm

theorem step_keeps_final {kinds : GoString → Option SessionKind} {s s' : State} {label : Label}
    {id : DepositIdentifier} {status : WithdrawalStatus}
    (final : status ∈ finalWithdrawalStatuses) (held : s.table.statusOf id = some status)
    (meets : Undisturbed kinds s label) (taken : step kinds s label = some s') :
    s'.table.statusOf id = some status := by
  obtain ⟨op, hmove, htable⟩ := step_eq_some taken
  rw [htable, op.statusOf_apply held]
  congr 1
  simp only [TableOp.statusAfter]
  split
  · rename_i w hw
    split
    · rename_i hid
      have hmeets : w.Undisturbed s.table := by
        apply meets
        simp only [statusWriteOf, hmove, Option.bind_some]
        exact hw
      rw [hid] at held
      exact hmeets.keeps_final held final
    · rfl
  · rfl

/-- Along every run of undisturbed updates, from whatever state, a final status stays. -/
theorem final_status_stays (kinds : GoString → Option SessionKind) {s s' : State}
    (run : (machine kinds).Leads (Undisturbed kinds) s s') {id : DepositIdentifier}
    {status : WithdrawalStatus} (final : status ∈ finalWithdrawalStatuses)
    (held : s.table.statusOf id = some status) : s'.table.statusOf id = some status := by
  apply run.invariant (P := fun s => s.table.statusOf id = some status)
  · intro s label s' held meets taken
    exact step_keeps_final final held meets taken
  · exact held

/-! ## A leader whose transaction is not sent -/

def fresh : State := ⟨Table.empty, ⟨fun _ => ⟨.idle, 0⟩, [], .idle, []⟩⟩

theorem fresh_init (kinds : GoString → Option SessionKind) : (machine kinds).init fresh :=
  ⟨rfl, fun _ => rfl, rfl, rfl, rfl⟩

def utxoOnly (chainId : GoString) : Option SessionKind :=
  if chainId = str "0" then some .utxo else none

def sampleId : DepositIdentifier := ⟨str "0xaa", 0, str "1"⟩

def samplePending : Deposit where
  identifier := sampleId
  withdrawalStatus := .pending
  withdrawalChainId := str "0"
  distributed := true

/-- The leader of a session proposes the deposit, signs and stores the transaction. -/
def leaderProcesses : List Label :=
  .admission samplePending ::
    [.formProposal, .consensus (some true), .markProcessing true, .runSignParty,
      .signResult .signature, .distribution true,
      .finalizer (.update ⟨sampleId, none, some (str "0xbb"), some (str "tx")⟩ true)].map
      (Label.session (str "0"))

def sendFails : List Label :=
  [.finalizer (.send false), .finalizeResult, .markFailed true].map (Label.session (str "0"))

/-- The compensating update overwrites what the session's own finalizer wrote. -/
theorem processed_overwritten_by_failed :
    ∃ s s', (machine utxoOnly).Reaches s ∧ (machine utxoOnly).Leads (fun _ _ => True) s s' ∧
      s.table.statusOf sampleId = some .processed ∧
      s'.table.statusOf sampleId = some .failed := by
  have hrun : (((machine utxoOnly).exec (fun _ _ => True) fresh leaderProcesses).bind fun s =>
      ((machine utxoOnly).exec (fun _ _ => True) s sendFails).map fun s' =>
        (s.table.statusOf sampleId, s'.table.statusOf sampleId)) =
      some (some .processed, some .failed) := by
    decide +kernel
  obtain ⟨s, hs, hrest⟩ := Option.bind_eq_some_iff.mp hrun
  obtain ⟨s', hs', hstatus⟩ := Option.map_eq_some_iff.mp hrest
  obtain ⟨hprocessed, hfailed⟩ := Prod.mk.inj hstatus
  exact ⟨s, s', (Machine.Reachable.init (fresh_init _)).exec hs, Machine.Leads.refl.exec hs',
    hprocessed, hfailed⟩

/-- The node takes the transaction, and the core reports it. -/
def sendSucceeds : List Label :=
  [.session (str "0") (.finalizer (.send true)), .session (str "0") .finalizeResult,
    .subscriber (.get samplePending), .setSubmitted sampleId, .restart fun _ => 7]

theorem final_status_stays_sent :
    ∃ s s', (machine utxoOnly).Leads (Undisturbed utxoOnly) s s' ∧
      s.table.statusOf sampleId = some .processed ∧
      s'.table.statusOf sampleId = some .processed := by
  have hrun : (((machine utxoOnly).exec (Undisturbed utxoOnly) fresh leaderProcesses).bind fun s =>
      ((machine utxoOnly).exec (Undisturbed utxoOnly) s sendSucceeds).map fun _ =>
        s.table.statusOf sampleId) = some (some .processed) := by
    decide +kernel
  obtain ⟨s, hs, hrest⟩ := Option.bind_eq_some_iff.mp hrun
  obtain ⟨s', hs', hprocessed⟩ := Option.map_eq_some_iff.mp hrest
  have hleads : (machine utxoOnly).Leads (Undisturbed utxoOnly) s s' := Machine.Leads.refl.exec hs'
  exact ⟨s, s', hleads, hprocessed, final_status_stays utxoOnly hleads (by decide) hprocessed⟩

end TssSvc.Party
