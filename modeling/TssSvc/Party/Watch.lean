import Mathlib.Data.List.Chain
import TssSvc.Party.Reports

/-!
# The websocket of a deposit

`CheckWithdrawalWs` reads the row, upgrades the connection and hands the row to
`watchWithdrawalStatus` (`internal/api/http/api_ws.go`), which reports the status, polls the table
and reports each change.  It runs beside the writers of the table, one of its reads or writes a
step.

As long as the updates are undisturbed a status only moves forward, and three messages are all
there can be.
-/

set_option autoImplicit false

namespace TssSvc.Party

open TssSvc.Db TssSvc.Bridge

/-! ## The handler -/

inductive CloseCode where
  | closeNormalClosure
  | closeGoingAway
  | closeInternalServerErr
  deriving DecidableEq, Repr

inductive Frame where
  | text (response : CheckWithdrawalResponse)
  | close (code : CloseCode) (reason : GoString)
  deriving DecidableEq, Repr

def normalClose : Frame := .close .closeNormalClosure []

def goingAway : Frame := .close .closeGoingAway (str "Server shutting down")

def internalError : Frame := .close .closeInternalServerErr (str "Internal server error")

inductive WatchPc where
  /-- The row is read, the connection is not yet upgraded. -/
  | upgrading (withdrawal : Deposit)
  | polling (prevStatus : WithdrawalStatus)
  | returned
  | panicked
  deriving DecidableEq, Repr

/-- `written` are the frames handed to the connection. -/
structure Watch where
  id : DepositIdentifier
  pc : WatchPc
  written : List Frame
  deriving DecidableEq, Repr

inductive WatchLabel where
  | upgrade (fails writeFails : Bool)
  | connClosed
  | ctxDone
  | tick (getFails writeFails : Bool)

/-- A status is written; a final one is the last. -/
def Watch.report (w : Watch) (withdrawal : Deposit) : Watch :=
  let rawMsg := Frame.text (toStatusResponse withdrawal)
  if withdrawal.withdrawalStatus ∈ finalWithdrawalStatuses then
    { w with pc := .returned, written := w.written ++ [rawMsg, normalClose] }
  else { w with pc := .polling withdrawal.withdrawalStatus, written := w.written ++ [rawMsg] }

def Watch.closeWith (w : Watch) (frames : List Frame) : Watch :=
  { w with pc := .returned, written := w.written ++ frames }

def Watch.poll (w : Watch) (prevStatus : WithdrawalStatus) (writeFails : Bool) :
    Option Deposit → Watch
  | none => { w with pc := .panicked }
  | some withdrawal =>
      if withdrawal.withdrawalStatus = prevStatus then w
      else if writeFails then w.closeWith [internalError]
      else w.report withdrawal

def Watch.step (t : Table) (w : Watch) : WatchLabel → Option Watch
  | .upgrade fails writeFails =>
      match w.pc with
      | .upgrading withdrawal =>
          some (if fails || writeFails then w.closeWith [] else w.report withdrawal)
      | _ => none
  | .connClosed =>
      match w.pc with
      | .polling _ => some (w.closeWith [])
      | _ => none
  | .ctxDone =>
      match w.pc with
      | .polling _ => some (w.closeWith [goingAway])
      | _ => none
  | .tick getFails writeFails =>
      match w.pc with
      | .polling prevStatus =>
          some (if getFails then w.closeWith [internalError]
            else w.poll prevStatus writeFails (t.get w.id))
      | _ => none

/-! ## Beside the writers -/

structure Watched where
  party : State
  watch : Watch

inductive WatchedLabel where
  | party (label : Label)
  | watch (label : WatchLabel)

def watchedStep (kinds : GoString → Option SessionKind) (s : Watched) :
    WatchedLabel → Option Watched
  | .party label => (step kinds s.party label).map fun party => { s with party := party }
  | .watch label => (s.watch.step s.party.table label).map fun watch => { s with watch := watch }

/-- A watch starts at any time, with a row the table has then. -/
def watched (kinds : GoString → Option SessionKind) : Machine Watched WatchedLabel where
  init s := ∃ row, s.party.table.get row.identifier = some row ∧
    s.watch = ⟨row.identifier, .upgrading row, []⟩
  step := watchedStep kinds

/-- What `CheckWithdrawalWs` finds is watched. -/
theorem watched_of_checkWithdrawalWs (kinds : GoString → Option SessionKind) {party : State}
    {clients : Repository} {faults : Table.Faults} {chainId txHash txNonce : GoString}
    {row : Deposit}
    (h : checkWithdrawalWs clients faults party.table chainId txHash txNonce = .ok row) :
    (watched kinds).init ⟨party, ⟨row.identifier, .upgrading row, []⟩⟩ :=
  ⟨row, get_of_checkWithdrawalWs h, rfl⟩

def Frame.response : Frame → Option CheckWithdrawalResponse
  | .text response => some response
  | .close _ _ => none

def reported (written : List Frame) : List WithdrawalStatus :=
  (written.filterMap Frame.response).map CheckWithdrawalResponse.withdrawalStatus

/-- The frames of a watch: responses, each with a status that `moves` from the one before and
only the last with a final one, and then at most one close frame. -/
structure Framed (moves : WithdrawalStatus → WithdrawalStatus → Prop) (written : List Frame)
    (closing : Option Frame) : Prop where
  frames : written = (written.filterMap Frame.response).map Frame.text ++ closing.toList
  changes : (reported written).IsChain moves
  open_before : ∀ status ∈ (reported written).dropLast, status ∉ finalWithdrawalStatuses
  normal_iff : closing = some normalClose ↔
    ∃ status ∈ (reported written).getLast?, status ∈ finalWithdrawalStatuses

/-! ## One step of a watch -/

section Handler

variable {moves : WithdrawalStatus → WithdrawalStatus → Prop} {written : List Frame} {row : Deposit}
  {t : Table} {w w' : Watch}

@[simp] theorem reported_append (written more : List Frame) :
    reported (written ++ more) = reported written ++ reported more := by
  simp [reported]

@[simp] theorem reported_text (row : Deposit) :
    reported [.text (toStatusResponse row)] = [row.withdrawalStatus] := by
  simp [reported, Frame.response]

@[simp] theorem reported_close (code : CloseCode) (reason : GoString) :
    reported [.close code reason] = [] := rfl

/-- Responses only, none of them final. -/
structure Open (moves : WithdrawalStatus → WithdrawalStatus → Prop) (written : List Frame) :
    Prop where
  frames : written = (written.filterMap Frame.response).map Frame.text
  changes : (reported written).IsChain moves
  nonfinal : ∀ status ∈ reported written, status ∉ finalWithdrawalStatuses

theorem Open.nil : Open moves [] := ⟨rfl, .nil, by simp [reported]⟩

theorem Open.no_final (h : Open moves written) :
    ¬∃ status ∈ (reported written).getLast?, status ∈ finalWithdrawalStatuses := by
  rintro ⟨status, hlast, hfinal⟩
  exact h.nonfinal status (List.mem_of_getLast? hlast) hfinal

theorem Open.framed (h : Open moves written) : Framed moves written none where
  frames := by
    rw [Option.toList_none, List.append_nil]
    exact h.frames
  changes := h.changes
  open_before status hstatus := h.nonfinal status (List.dropLast_subset _ hstatus)
  normal_iff := by simpa using h.no_final

theorem Open.changes_text (h : Open moves written)
    (next : ∀ status ∈ (reported written).getLast?, moves status row.withdrawalStatus) :
    (reported (written ++ [.text (toStatusResponse row)])).IsChain moves := by
  rw [reported_append, reported_text]
  apply h.changes.append (.singleton _)
  intro status hstatus next' hnext
  cases hnext
  exact next status hstatus

theorem Open.text (h : Open moves written)
    (next : ∀ status ∈ (reported written).getLast?, moves status row.withdrawalStatus)
    (running : row.withdrawalStatus ∉ finalWithdrawalStatuses) :
    Open moves (written ++ [.text (toStatusResponse row)]) where
  frames := by
    conv_lhs => rw [h.frames]
    simp [Frame.response]
  changes := h.changes_text next
  nonfinal := by
    intro status hstatus
    rw [reported_append, reported_text] at hstatus
    rcases List.mem_append.mp hstatus with hold | hnew
    · exact h.nonfinal status hold
    · rw [List.mem_singleton.mp hnew]
      exact running

theorem reported_last (written : List Frame) (row : Deposit) :
    reported (written ++ [.text (toStatusResponse row), normalClose]) =
      reported written ++ [row.withdrawalStatus] := by
  simp [reported, Frame.response, normalClose]

theorem Open.final (h : Open moves written)
    (next : ∀ status ∈ (reported written).getLast?, moves status row.withdrawalStatus)
    (final : row.withdrawalStatus ∈ finalWithdrawalStatuses) :
    Framed moves (written ++ [.text (toStatusResponse row), normalClose]) (some normalClose) where
  frames := by
    conv_lhs => rw [h.frames]
    simp [Frame.response, normalClose]
  changes := by
    have hchanges := h.changes_text next
    rw [reported_append, reported_text] at hchanges
    rw [reported_last]
    exact hchanges
  open_before := by
    rw [reported_last, List.dropLast_concat]
    exact h.nonfinal
  normal_iff := by
    rw [reported_last, List.getLast?_concat]
    exact ⟨fun _ => ⟨_, rfl, final⟩, fun _ => rfl⟩

theorem Open.close (h : Open moves written) {code : CloseCode} (reason : GoString)
    (abnormal : code ≠ .closeNormalClosure) :
    Framed moves (written ++ [.close code reason]) (some (.close code reason)) where
  frames := by
    conv_lhs => rw [h.frames]
    simp [Frame.response]
  changes := by simpa using h.changes
  open_before := by
    intro status hstatus
    rw [reported_append, reported_close, List.append_nil] at hstatus
    exact h.nonfinal status (List.dropLast_subset _ hstatus)
  normal_iff := by
    rw [reported_append, reported_close, List.append_nil]
    simp only [h.no_final, iff_false, Option.some.injEq, normalClose, Frame.close.injEq]
    exact fun hsame => abnormal hsame.1

/-- The row is there, and its status is the known one or one it moves to. -/
def Near (moves : WithdrawalStatus → WithdrawalStatus → Prop) (t : Table) (id : DepositIdentifier)
    (known : WithdrawalStatus) : Prop :=
  ∃ status, t.statusOf id = some status ∧ (status = known ∨ moves known status)

/-- Between two steps of the handler. -/
def Watch.Sound (moves : WithdrawalStatus → WithdrawalStatus → Prop) (t : Table) (w : Watch) :
    Prop :=
  match w.pc with
  | .upgrading withdrawal => w.written = [] ∧ Near moves t w.id withdrawal.withdrawalStatus
  | .polling prevStatus => Open moves w.written ∧
      (reported w.written).getLast? = some prevStatus ∧ Near moves t w.id prevStatus
  | .returned => ∃ closing, Framed moves w.written closing
  | .panicked => False

theorem Watch.Sound.framed (sound : w.Sound moves t) :
    w.pc ≠ .panicked ∧ ∃ closing, Framed moves w.written closing := by
  rw [Watch.Sound] at sound
  split at sound
  · rename_i hpc
    refine ⟨by simp [hpc], none, ?_⟩
    rw [sound.1]
    exact Open.nil.framed
  · rename_i hpc
    exact ⟨by simp [hpc], none, sound.1.framed⟩
  · rename_i hpc
    exact ⟨by simp [hpc], sound⟩
  · exact sound.elim

theorem Watch.sound_returned {written : List Frame} {closing : Option Frame}
    (id : DepositIdentifier) (framed : Framed moves written closing) :
    (Watch.mk id .returned written).Sound moves t :=
  ⟨closing, framed⟩

/-- A report of what the table has, or had when the handler was called. -/
theorem Watch.sound_report (written : Open moves w.written)
    (next : ∀ status ∈ (reported w.written).getLast?, moves status row.withdrawalStatus)
    (near : Near moves t w.id row.withdrawalStatus) : (w.report row).Sound moves t := by
  rw [Watch.report]
  split
  · rename_i hfinal
    exact sound_returned w.id (written.final next hfinal)
  · rename_i hrunning
    refine ⟨written.text next hrunning, ?_, near⟩
    rw [reported_append, reported_text, List.getLast?_concat]

theorem Watch.sound_poll {prevStatus : WithdrawalStatus} (writeFails : Bool)
    (pc : w.pc = .polling prevStatus) (sound : w.Sound moves t) :
    (w.poll prevStatus writeFails (t.get w.id)).Sound moves t := by
  have hsound := sound
  simp only [Watch.Sound, pc] at hsound
  obtain ⟨hwritten, hlast, status, hstatus, hnear⟩ := hsound
  obtain ⟨row, hrow, rfl⟩ := Option.map_eq_some_iff.mp hstatus
  rw [hrow, Watch.poll]
  split
  · exact sound
  · rename_i hchanged
    split
    · exact sound_returned w.id (hwritten.close _ (by decide))
    · apply sound_report hwritten
      · intro last hmem
        rw [hlast] at hmem
        cases hmem
        exact hnear.resolve_left hchanged
      · exact ⟨_, hstatus, .inl rfl⟩

theorem Watch.sound_step {label : WatchLabel} (sound : w.Sound moves t)
    (taken : w.step t label = some w') : w'.Sound moves t := by
  have hsound := sound
  cases hpc : w.pc with
  | upgrading withdrawal =>
      simp only [Watch.Sound, hpc] at hsound
      obtain ⟨hwritten, hnear⟩ := hsound
      cases label with
      | upgrade fails writeFails =>
          simp only [Watch.step, hpc, Option.some.injEq] at taken
          rw [← taken]
          split
          · apply sound_returned w.id
            rw [hwritten]
            exact Open.nil.framed
          · have hopen : Open moves w.written := by
              rw [hwritten]
              exact .nil
            apply sound_report hopen _ hnear
            rw [hwritten]
            intro status hstatus
            cases hstatus
      | connClosed => simp [Watch.step, hpc] at taken
      | ctxDone => simp [Watch.step, hpc] at taken
      | tick getFails writeFails => simp [Watch.step, hpc] at taken
  | polling prevStatus =>
      simp only [Watch.Sound, hpc] at hsound
      obtain ⟨hwritten, -, -⟩ := hsound
      cases label with
      | upgrade fails writeFails => simp [Watch.step, hpc] at taken
      | connClosed =>
          simp only [Watch.step, hpc, Option.some.injEq] at taken
          rw [← taken]
          apply sound_returned w.id
          rw [List.append_nil]
          exact hwritten.framed
      | ctxDone =>
          simp only [Watch.step, hpc, Option.some.injEq] at taken
          rw [← taken]
          exact sound_returned w.id (hwritten.close _ (by decide))
      | tick getFails writeFails =>
          simp only [Watch.step, hpc, Option.some.injEq] at taken
          rw [← taken]
          split
          · exact sound_returned w.id (hwritten.close _ (by decide))
          · exact sound_poll writeFails hpc sound
  | returned => cases label <;> simp [Watch.step, hpc] at taken
  | panicked => cases label <;> simp [Watch.step, hpc] at taken

end Handler

/-! ## Whole runs -/

section Runs

variable {kinds : GoString → Option SessionKind} {allowed : State → Label → Prop}
  {moves : WithdrawalStatus → WithdrawalStatus → Prop}

/-- A watch may take every step. -/
def besides (allowed : State → Label → Prop) (s : Watched) : WatchedLabel → Prop
  | .party label => allowed s.party label
  | .watch _ => True

instance [∀ s label, Decidable (allowed s label)] (s : Watched) (label : WatchedLabel) :
    Decidable (besides allowed s label) :=
  match label with
  | .party label => inferInstanceAs (Decidable (allowed s.party label))
  | .watch _ => inferInstanceAs (Decidable True)

/-- The writers keep a watch sound if what they do to a status are moves. -/
theorem watched_sound
    (advance : ∀ s label s', allowed s label → step kinds s label = some s' →
      ∀ id known, Near moves s.table id known → Near moves s'.table id known)
    {s : Watched} (reached : (watched kinds).Reachable (besides allowed) s) :
    s.watch.Sound moves s.party.table := by
  induction reached with
  | init start =>
      obtain ⟨row, hrow, hwatch⟩ := start
      rw [hwatch]
      exact ⟨rfl, row.withdrawalStatus, by rw [Table.statusOf, hrow, Option.map_some], .inl rfl⟩
  | @step s s' label before meets taken sound =>
      cases label with
      | party label =>
          obtain ⟨party, hparty, rfl⟩ := Option.map_eq_some_iff.mp taken
          have hadvance := advance _ _ _ meets hparty s.watch.id
          simp only [Watch.Sound] at sound ⊢
          split at sound
          · exact ⟨sound.1, hadvance _ sound.2⟩
          · exact ⟨sound.1, sound.2.1, hadvance _ sound.2.2⟩
          · exact sound
          · exact sound
      | watch label =>
          obtain ⟨watch, hwatch, rfl⟩ := Option.map_eq_some_iff.mp taken
          exact Watch.sound_step sound hwatch

theorem step_near {s s' : State} {label : Label} (taken : step kinds s label = some s')
    {id : DepositIdentifier} {status : WithdrawalStatus}
    (held : s.table.statusOf id = some status) :
    ∃ op, move kinds s label = some (op, s'.control) ∧
      s'.table.statusOf id = some (op.statusAfter id status) := by
  obtain ⟨op, hmove, htable⟩ := step_eq_some taken
  rw [htable]
  exact ⟨op, hmove, op.statusOf_apply held⟩

/-- How far a withdrawal is. -/
def stage : WithdrawalStatus → Nat
  | .unspecified | .pending => 0
  | .processing => 1
  | .processed | .failed | .invalid => 2

theorem stage_le (status : WithdrawalStatus) : stage status ≤ 2 := by
  cases status <;> decide

theorem TableOp.stage_lt {op : TableOp} {w : StatusWrite} (h : op.statusWrite = some w) :
    stage w.known.toStatus < stage w.written := by
  cases op with
  | updateDetails id known hash signature =>
      cases h
      cases known <;> simp [stage, OpenStatus.toStatus]
  | markProcessing id =>
      cases h
      simp [stage, OpenStatus.toStatus]
  | markFailed id =>
      cases h
      simp [stage, OpenStatus.toStatus]
  | updateProcessed data =>
      cases h
      simp [stage, OpenStatus.toStatus]
  | keep => cases h
  | insert row => cases h
  | insertProcessed row => cases h
  | setDistributed id => cases h
  | setSubmitted id => cases h

/-- An undisturbed query leaves a status or takes it forward. -/
theorem statusAfter_forward {t : Table} {op : TableOp} {id : DepositIdentifier}
    {status : WithdrawalStatus} (held : t.statusOf id = some status)
    (undisturbed : ∀ w ∈ op.statusWrite, w.Undisturbed t) :
    op.statusAfter id status = status ∨ stage status < stage (op.statusAfter id status) := by
  rw [TableOp.statusAfter]
  split
  · rename_i w hw
    split
    · rename_i hid
      rw [hid] at held
      rcases undisturbed w hw status held with hknown | hwritten
      · right
        rw [hknown]
        exact TableOp.stage_lt hw
      · left
        exact hwritten.symm
    · exact .inl rfl
  · exact .inl rfl

theorem near_of_undisturbed {s s' : State} {label : Label} (meets : Undisturbed kinds s label)
    (taken : step kinds s label = some s') {id : DepositIdentifier} {known : WithdrawalStatus}
    (near : Near (fun a b => stage a < stage b) s.table id known) :
    Near (fun a b => stage a < stage b) s'.table id known := by
  obtain ⟨status, hstatus, hnear⟩ := near
  obtain ⟨op, hmove, hafter⟩ := step_near taken hstatus
  refine ⟨_, hafter, ?_⟩
  have hundisturbed : ∀ w ∈ op.statusWrite, w.Undisturbed s.table := fun w hw =>
    meets w (by simpa [statusWriteOf, hmove] using hw)
  rcases statusAfter_forward hstatus hundisturbed with hsame | hlater
  · rw [hsame]
    exact hnear
  · right
    rcases hnear with rfl | hmoved
    · exact hlater
    · exact hmoved.trans hlater

theorem near_of_step {s s' : State} {label : Label} (taken : step kinds s label = some s')
    {id : DepositIdentifier} {known : WithdrawalStatus} (near : Near (· ≠ ·) s.table id known) :
    Near (· ≠ ·) s'.table id known := by
  obtain ⟨status, hstatus, -⟩ := near
  obtain ⟨op, -, hafter⟩ := step_near taken hstatus
  refine ⟨_, hafter, ?_⟩
  rcases eq_or_ne (op.statusAfter id status) known with hsame | hother
  · exact .inl hsame
  · exact .inr hother.symm

theorem length_le_of_stages {statuses : List WithdrawalStatus}
    (rising : statuses.IsChain fun a b => stage a < stage b) : statuses.length ≤ 3 := by
  have hsorted : (statuses.map stage).Pairwise (· < ·) := by
    rw [← List.isChain_iff_pairwise, List.isChain_map]
    exact rising
  have hsubset : statuses.map stage ⊆ [0, 1, 2] := by
    intro n hn
    obtain ⟨status, -, rfl⟩ := List.mem_map.mp hn
    have := stage_le status
    simp only [List.mem_cons, List.not_mem_nil, or_false]
    omega
  have hdistinct : (statuses.map stage).Nodup := hsorted.imp fun h => Nat.ne_of_lt h
  simpa using (List.subperm_of_subset hdistinct hsubset).length_le

/-- The handler never finds its row missing, and what it writes is well formed at any time, whatever
the writers of the table do meanwhile.  While their updates are undisturbed each response is further
than the one before, and there are at most three. -/
theorem watch_frames (kinds : GoString → Option SessionKind) :
    (∀ s, (watched kinds).Reaches s →
      s.watch.pc ≠ .panicked ∧ ∃ closing, Framed (· ≠ ·) s.watch.written closing) ∧
    ∀ s, (watched kinds).Reachable (besides (Undisturbed kinds)) s →
      (reported s.watch.written).Pairwise (fun a b => stage a < stage b) ∧
        (reported s.watch.written).length ≤ 3 := by
  constructor
  · intro s reached
    have hbesides : (watched kinds).Reachable (besides fun _ _ => True) s := by
      apply reached.mono
      intro s label _
      cases label <;> trivial
    apply Watch.Sound.framed (watched_sound _ hbesides)
    intro s label s' _ taken id known near
    exact near_of_step taken near
  · intro s reached
    have hsound : s.watch.Sound (fun a b => stage a < stage b) s.party.table :=
      watched_sound
        (fun s label s' meets taken id known near => near_of_undisturbed meets taken near) reached
    obtain ⟨-, closing, hframed⟩ := hsound.framed
    refine ⟨?_, length_le_of_stages hframed.changes⟩
    have htrans : IsTrans WithdrawalStatus fun a b => stage a < stage b :=
      ⟨fun _ _ _ => Nat.lt_trans⟩
    exact List.isChain_iff_pairwise.mp hframed.changes

/-- The table of a party that has the sample deposit, and a watch of it. -/
def sampleWatched : Watched :=
  ⟨⟨inserted Table.empty (Table.empty.insert samplePending), fresh.control⟩,
    ⟨sampleId, .upgrading samplePending, []⟩⟩

/-- The client sees the deposit of the leader's session through. -/
def watchedProcessing : List WatchedLabel :=
  [.watch (.upgrade false false), .watch (.tick false false)] ++
    (leaderProcesses.tail.take 3).map .party ++ [.watch (.tick false false)] ++
    (leaderProcesses.drop 4).map .party ++ [.watch (.tick false false)]

theorem watch_frames_three :
    ∃ s, (watched utxoOnly).Reachable (besides (Undisturbed utxoOnly)) s ∧
      reported s.watch.written = [.pending, .processing, .processed] ∧
      s.watch.written.getLast? = some normalClose ∧ (reported s.watch.written).length ≤ 3 := by
  have hfound : checkWithdrawalWs sampleClients {} sampleWatched.party.table sampleId.chainId
      sampleId.txHash (str "0") = .ok samplePending := by
    decide +kernel
  have hinit : (watched utxoOnly).init sampleWatched := watched_of_checkWithdrawalWs utxoOnly hfound
  have hrun : ((watched utxoOnly).exec (besides (Undisturbed utxoOnly)) sampleWatched
      watchedProcessing).map (fun s => (reported s.watch.written, s.watch.written.getLast?)) =
      some ([.pending, .processing, .processed], some normalClose) := by
    decide +kernel
  obtain ⟨s, hs, hseen⟩ := Machine.exists_reachable hinit hrun
  obtain ⟨hreported, hlast⟩ := Prod.mk.inj hseen
  exact ⟨s, hs, hreported, hlast, ((watch_frames utxoOnly).2 s hs).2⟩

end Runs

end TssSvc.Party
