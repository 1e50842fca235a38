import TssSvc.Lib.Outcome
import TssSvc.Party.Writers

/-!
# One run of a signing session

`runSession` of the EVM, TON, Solana and Zano sessions and `runSigningSession` of the UTXO
session as functions of what their calls return.  Each sets the deposit to PROCESSING and defers
an update to FAILED that reads the variable `err`.  Whether a `return` assigns that variable
depends on how the function declares its result, and the Zano copy does not name it.

`runSession_settled_iff` says when the deposit is PROCESSED or FAILED at the return,
`runSession_moves` that the steps of `Writers` follow these functions.
-/

set_option autoImplicit false

namespace TssSvc.Party

open TssSvc.Db

abbrev SessionError := GoError Empty

/-! ## What the calls return -/

/-- Whether `SignParty.WaitFor` returned a signature, and whether the context was done before the
next round. -/
structure Round where
  signed : Bool
  cancelled : Bool
  deriving DecidableEq, Repr

/-- The update of a finalizer that `Finalize` has stopped waiting for: made before the deferred
update, between it and the return, or not before the return. -/
inductive Unfinished where
  | written (data : ProcessedDepositData)
  | late (data : ProcessedDepositData)
  | later
  deriving DecidableEq, Repr

/-- `unsent`: the row is updated and sending the transaction fails. -/
inductive Finalization where
  | failed (error : SessionError)
  | processed (data : ProcessedDepositData)
  | unsent (data : ProcessedDepositData) (error : SessionError)
  | timedOut (reason : SessionError) (finalizer : Unfinished)
  deriving DecidableEq, Repr

/-- The consensus result with data to sign; `signRounds` is the number of its hashes. -/
structure Agreed where
  id : DepositIdentifier
  signer : Bool
  signRounds : Nat
  deriving DecidableEq, Repr

/-- `markProcessing` is the error of the first status update, `markFailed` whether the deferred
one succeeds. -/
structure Calls where
  consensus : Except SessionError (Option Agreed)
  markProcessing : Option SessionError
  round : Nat → Round
  distribution : Option SessionError
  finalization : Finalization
  markFailed : Bool

/-! ## The functions -/

/-- The value a `return` hands back, the variable `err` the deferred function then reads, the
table, and an update still to come. -/
structure Exit where
  returned : Option SessionError
  err : Option SessionError
  table : Table
  late : Option ProcessedDepositData

/-- `return value` where `err` holds the given error: a named result is that variable. -/
def Exit.leave (named : Bool) (err value : Option SessionError) (t : Table)
    (late : Option ProcessedDepositData) : Exit :=
  ⟨value, if named then value else err, t, late⟩

def storeProcessed (t : Table) (id : DepositIdentifier) (data : ProcessedDepositData) : Table :=
  t.updateProcessed { data with identifier := id }

structure Finalized where
  error : Option SessionError
  table : Table
  late : Option ProcessedDepositData

/-- `Finalizer.Finalize`. -/
def finalize (t : Table) (id : DepositIdentifier) : Finalization → Finalized
  | .failed e => ⟨some (e.wrap (str "failed to finalize withdrawal")), t, none⟩
  | .processed data => ⟨none, storeProcessed t id data, none⟩
  | .unsent data e =>
      ⟨some (e.wrap (str "failed to finalize withdrawal")), storeProcessed t id data, none⟩
  | .timedOut reason (.written data) =>
      ⟨some (reason.wrap (str "finalization timed out")), storeProcessed t id data, none⟩
  | .timedOut reason (.late data) =>
      ⟨some (reason.wrap (str "finalization timed out")), t, some data⟩
  | .timedOut reason .later => ⟨some (reason.wrap (str "finalization timed out")), t, none⟩

/-- The distribution and finalization phases; both assign `err`. -/
def afterSigning (named : Bool) (calls : Calls) (id : DepositIdentifier) (t : Table) : Exit :=
  match calls.distribution with
  | some e =>
      .leave named (some e)
        (some (e.wrap (str "signature distribution phase error occurred"))) t none
  | none =>
      let finalized := finalize t id calls.finalization
      match finalized.error with
      | some e =>
          .leave named (some e) (some (e.wrap (str "finalizer phase error occurred")))
            finalized.table finalized.late
      | none => .leave named none none finalized.table finalized.late

/-- The phases of a session that signs one hash.  `err` is nil when they start. -/
def signOnce (named : Bool) (calls : Calls) (agreed : Agreed) (t : Table) : Exit :=
  if agreed.signer && !(calls.round 0).signed then
    .leave named none (some (.new "signing phase error occurred")) t none
  else afterSigning named calls agreed.id t

inductive Signing where
  | signed
  | failed (round : Nat)
  | cancelled
  deriving DecidableEq, Repr

/-- The loop over the hashes from `idx` on; there is no delay after the last one. -/
def signLoop (round : Nat → Round) (idx : Nat) : Nat → Signing
  | 0 => .signed
  | remaining + 1 =>
      if !(round idx).signed then .failed (idx + 1)
      else if remaining = 0 then .signed
      else if (round idx).cancelled then .cancelled
      else signLoop round (idx + 1) remaining

def signRound (calls : Calls) (agreed : Agreed) (t : Table) : Exit :=
  if agreed.signer then
    match signLoop calls.round 0 agreed.signRounds with
    | .signed => afterSigning true calls agreed.id t
    | .failed round =>
        .leave true none (some ⟨none, str "signing phase error occurred for round " ++
          Decimal.formatNat round⟩) t none
    | .cancelled => .leave true none none t none
  else afterSigning true calls agreed.id t

/-- The value returned and the table then. -/
structure Returned where
  error : Option SessionError
  table : Table

/-- The compensating update, then the finalizer that comes after it. -/
def Exit.deferred (exit : Exit) (calls : Calls) (id : DepositIdentifier) : Returned :=
  let compensated :=
    if exit.err.isSome && calls.markFailed then exit.table.updateStatus id .failed else exit.table
  match exit.late with
  | some data => ⟨exit.returned, storeProcessed compensated id data⟩
  | none => ⟨exit.returned, compensated⟩

def sessionWith (consensusError : String) (phases : Calls → Agreed → Table → Exit) (calls : Calls)
    (t : Table) : Returned :=
  match calls.consensus with
  | .error e => ⟨some (e.wrap (str consensusError)), t⟩
  | .ok none => ⟨none, t⟩
  | .ok (some agreed) =>
      match calls.markProcessing with
      | some e => ⟨some (e.wrap (str "failed to update deposit status")), t⟩
      | none =>
          (phases calls agreed (t.updateStatus agreed.id .processing)).deferred calls agreed.id

def evmRunSession : Calls → Table → Returned :=
  sessionWith "consensus phase error occurred" (signOnce true)

def tonRunSession : Calls → Table → Returned :=
  sessionWith "consensus phase error occurred" (signOnce true)

def solanaRunSession : Calls → Table → Returned :=
  sessionWith "consensus phase error occurred" (signOnce true)

/-- The result is unnamed. -/
def zanoRunSession : Calls → Table → Returned :=
  sessionWith "failed to run consensus phase" (signOnce false)

def utxoRunSigningSession : Calls → Table → Returned :=
  sessionWith "consensus phase error occurred" signRound

def runSession : SessionKind → Calls → Table → Returned
  | .evm => evmRunSession
  | .ton => tonRunSession
  | .solana => solanaRunSession
  | .zano => zanoRunSession
  | .utxo => utxoRunSigningSession

/-! ## The status at the return -/

structure Settled (id : DepositIdentifier) (r : Returned) : Prop where
  failed : r.error ≠ none → r.table.statusOf id = some .failed
  processed : r.error = none → r.table.statusOf id = some .processed

/-- The context is done between two rounds, all of them signed so far. -/
def CancelledBetween (round : Nat → Round) (signRounds : Nat) : Prop :=
  ∃ k, k + 1 < signRounds ∧ (round k).cancelled = true ∧ ∀ j ≤ k, (round j).signed = true

/-- Every round is signed and none of the delays is cut short. -/
def AllSigned (round : Nat → Round) (signRounds : Nat) : Prop :=
  ∀ k < signRounds, (round k).signed = true ∧ (k + 1 < signRounds → (round k).cancelled = false)

def SessionKind.rounds (kind : SessionKind) (agreed : Agreed) : Nat :=
  match kind with
  | .utxo => agreed.signRounds
  | .evm | .ton | .solana | .zano => 1

/-- The runs in which the deferred update does its work: a Zano signer gets its signature, a UTXO
signer is not cancelled between rounds, and no finalizer slips its update in after it. -/
structure Compensated (kind : SessionKind) (calls : Calls) (agreed : Agreed) : Prop where
  signed : kind = .zano → agreed.signer = true → (calls.round 0).signed = true
  uninterrupted : agreed.signer = true → ¬ CancelledBetween calls.round (kind.rounds agreed)
  punctual : (agreed.signer = true → AllSigned calls.round (kind.rounds agreed)) →
    calls.distribution = none → ∀ reason data, calls.finalization ≠ .timedOut reason (.late data)

section Status

variable {t : Table} {id : DepositIdentifier} {status : WithdrawalStatus}

theorem statusOf_updateStatus (held : t.statusOf id = some status) (written : WithdrawalStatus) :
    (t.updateStatus id written).statusOf id = some written := by
  obtain ⟨row, hrow, -⟩ := Option.map_eq_some_iff.mp held
  rw [Table.updateStatus, Table.statusOf_update, if_pos rfl, hrow]
  rfl

theorem statusOf_storeProcessed (held : t.statusOf id = some status)
    (data : ProcessedDepositData) : (storeProcessed t id data).statusOf id = some .processed := by
  obtain ⟨row, hrow, -⟩ := Option.map_eq_some_iff.mp held
  rw [storeProcessed, Table.updateProcessed, Table.statusOf_update, if_pos rfl, hrow]
  rfl

end Status

section Exits

variable {calls : Calls} {id : DepositIdentifier} {exit : Exit}

/-- The variable and the value returned agree, and nil is returned only with the row processed. -/
structure Exit.Tidy (exit : Exit) (id : DepositIdentifier) : Prop where
  agrees : exit.err = none ↔ exit.returned = none
  held : ∃ status, exit.table.statusOf id = some status
  stored : exit.returned = none → exit.table.statusOf id = some .processed
  late : exit.late ≠ none → exit.returned ≠ none

/-- Then only an update after the deferred one can go wrong. -/
theorem Exit.Tidy.settled_iff (tidy : exit.Tidy id) (hfail : calls.markFailed = true) :
    Settled id (exit.deferred calls id) ↔ exit.late = none := by
  obtain ⟨status, held⟩ := tidy.held
  have compensated : ∃ status', (if exit.err.isSome && calls.markFailed then
      exit.table.updateStatus id .failed else exit.table).statusOf id = some status' := by
    split
    · exact ⟨_, statusOf_updateStatus held _⟩
    · exact ⟨_, held⟩
  constructor
  · intro settled
    by_contra hlate
    obtain ⟨data, hdata⟩ := Option.ne_none_iff_exists'.mp hlate
    obtain ⟨_, hcompensated⟩ := compensated
    have hfailed := settled.failed (by simpa [Exit.deferred, hdata] using tidy.late hlate)
    simp only [Exit.deferred, hdata] at hfailed
    rw [statusOf_storeProcessed hcompensated] at hfailed
    cases hfailed
  · intro hlate
    refine ⟨fun herror => ?_, fun herror => ?_⟩
    · simp only [Exit.deferred, hlate] at herror ⊢
      obtain ⟨e, he⟩ := Option.ne_none_iff_exists'.mp (mt tidy.agrees.mp herror)
      rw [he, hfail]
      exact statusOf_updateStatus held _
    · simp only [Exit.deferred, hlate] at herror ⊢
      rw [tidy.agrees.mpr herror]
      exact tidy.stored herror

/-- A return that leaves `err` nil leaves the row as it is. -/
theorem Exit.not_settled (herr : exit.err = none) (hlate : exit.late = none)
    (held : exit.table.statusOf id = some .processing) :
    ¬ Settled id (exit.deferred calls id) := by
  have hstatus : (exit.deferred calls id).table.statusOf id = some .processing := by
    simpa [Exit.deferred, herr, hlate] using held
  intro settled
  by_cases herror : (exit.deferred calls id).error = none
  · cases hstatus.symm.trans (settled.processed herror)
  · cases hstatus.symm.trans (settled.failed herror)

variable {t : Table} {status : WithdrawalStatus} (held : t.statusOf id = some status)

include held

theorem finalize_spec (finalization : Finalization) :
    (∃ status, (finalize t id finalization).table.statusOf id = some status) ∧
      ((finalize t id finalization).error = none →
        (finalize t id finalization).table.statusOf id = some .processed) ∧
      ((finalize t id finalization).late ≠ none → (finalize t id finalization).error ≠ none) := by
  have stored := statusOf_storeProcessed held
  cases finalization with
  | failed e => exact ⟨⟨_, held⟩, nofun, fun h => absurd rfl h⟩
  | processed data => exact ⟨⟨_, stored data⟩, fun _ => stored data, fun h => absurd rfl h⟩
  | unsent data e => exact ⟨⟨_, stored data⟩, nofun, fun h => absurd rfl h⟩
  | timedOut reason finalizer =>
      cases finalizer with
      | written data => exact ⟨⟨_, stored data⟩, nofun, fun h => absurd rfl h⟩
      | late data => exact ⟨⟨_, held⟩, nofun, fun _ => nofun⟩
      | later => exact ⟨⟨_, held⟩, nofun, fun h => absurd rfl h⟩

/-- Both later phases assign `err`, so a named result makes no difference there. -/
theorem afterSigning_tidy (named : Bool) : (afterSigning named calls id t).Tidy id := by
  unfold afterSigning
  split
  next e hdistribution =>
    refine ⟨?_, ⟨_, held⟩, nofun, fun _ => nofun⟩
    cases named <;> simp [Exit.leave]
  next hdistribution =>
    obtain ⟨hheld, hstored, hlate⟩ := finalize_spec held calls.finalization
    cases herror : (finalize t id calls.finalization).error with
    | some e =>
        simp only [herror]
        refine ⟨?_, hheld, nofun, fun _ => nofun⟩
        cases named <;> simp [Exit.leave]
    | none =>
        simp only [herror]
        refine ⟨?_, hheld, fun _ => hstored herror, fun h => absurd herror (hlate h)⟩
        cases named <;> simp [Exit.leave]

omit held in
theorem finalize_late_iff (finalization : Finalization) :
    (finalize t id finalization).late = none ↔
      ∀ reason data, finalization ≠ .timedOut reason (.late data) := by
  cases finalization with
  | timedOut reason finalizer => cases finalizer <;> simp [finalize]
  | _ => simp [finalize]

omit held in
theorem afterSigning_late_iff (named : Bool) :
    (afterSigning named calls id t).late = none ↔ (calls.distribution = none →
      ∀ reason data, calls.finalization ≠ .timedOut reason (.late data)) := by
  unfold afterSigning
  split
  next e hdistribution => simp [Exit.leave, hdistribution]
  next hdistribution =>
    have hlate : (finalize t id calls.finalization).late = none ↔ _ := finalize_late_iff _
    cases herror : (finalize t id calls.finalization).error <;>
      simpa [Exit.leave, hdistribution, herror] using hlate

theorem afterSigning_settled_iff (named : Bool) (hfail : calls.markFailed = true) :
    Settled id ((afterSigning named calls id t).deferred calls id) ↔ (calls.distribution = none →
      ∀ reason data, calls.finalization ≠ .timedOut reason (.late data)) := by
  rw [(afterSigning_tidy held named).settled_iff hfail, afterSigning_late_iff]

/-- With a named result the deferred function sees every error. -/
theorem leave_named_settled (hfail : calls.markFailed = true) (e : SessionError) :
    Settled id ((Exit.leave true none (some e) t none).deferred calls id) := by
  have tidy : (Exit.leave true none (some e) t none).Tidy id :=
    ⟨by simp [Exit.leave], ⟨_, held⟩, nofun, fun h => absurd rfl h⟩
  exact (tidy.settled_iff hfail).mpr rfl

end Exits

/-! ## Signing rounds -/

section Rounds

variable (round : Nat → Round)

theorem signLoop_signed_iff (idx remaining : Nat) :
    signLoop round idx remaining = .signed ↔ ∀ k, idx ≤ k → k < idx + remaining →
      (round k).signed = true ∧ (k + 1 < idx + remaining → (round k).cancelled = false) := by
  induction remaining generalizing idx with
  | zero =>
      refine ⟨fun _ k hle hlt => ?_, fun _ => rfl⟩
      omega
  | succ remaining ih =>
      unfold signLoop
      split
      next hsigned =>
        refine ⟨nofun, fun h => ?_⟩
        simp [(h idx (by omega) (by omega)).1] at hsigned
      next hsigned =>
        simp only [Bool.not_eq_true', Bool.not_eq_false] at hsigned
        split
        next hlast =>
          refine ⟨fun _ k hle hlt => ?_, fun _ => rfl⟩
          obtain rfl : k = idx := by omega
          exact ⟨hsigned, by omega⟩
        next hmore =>
          split
          next hcancelled =>
            refine ⟨nofun, fun h => ?_⟩
            simp [(h idx (by omega) (by omega)).2 (by omega)] at hcancelled
          next hcancelled =>
            rw [ih]
            refine ⟨fun h k hle hlt => ?_, fun h k hle hlt => ?_⟩
            · by_cases hk : k = idx
              · subst hk
                exact ⟨hsigned, fun _ => by simpa using hcancelled⟩
              · obtain ⟨hsigned, hnext⟩ := h k (by omega) (by omega)
                exact ⟨hsigned, fun hlt' => hnext (by omega)⟩
            · obtain ⟨hsigned, hnext⟩ := h k (by omega) (by omega)
              exact ⟨hsigned, fun hlt' => hnext (by omega)⟩

theorem signLoop_cancelled_iff (idx remaining : Nat) :
    signLoop round idx remaining = .cancelled ↔ ∃ k, idx ≤ k ∧ k + 1 < idx + remaining ∧
      (round k).cancelled = true ∧ ∀ j, idx ≤ j → j ≤ k → (round j).signed = true := by
  induction remaining generalizing idx with
  | zero =>
      refine ⟨nofun, fun ⟨k, hle, hlt, _⟩ => ?_⟩
      omega
  | succ remaining ih =>
      unfold signLoop
      split
      next hsigned =>
        refine ⟨nofun, fun ⟨k, hle, _, _, hall⟩ => ?_⟩
        simp [hall idx (by omega) hle] at hsigned
      next hsigned =>
        simp only [Bool.not_eq_true', Bool.not_eq_false] at hsigned
        split
        next hlast =>
          refine ⟨nofun, fun ⟨k, hle, hlt, _⟩ => ?_⟩
          omega
        next hmore =>
          split
          next hcancelled =>
            refine ⟨fun _ => ⟨idx, by omega, by omega, hcancelled, fun j hle hlt => ?_⟩,
              fun _ => rfl⟩
            obtain rfl : j = idx := by omega
            exact hsigned
          next hcancelled =>
            rw [ih]
            constructor
            · rintro ⟨k, hle, hlt, hk, hall⟩
              refine ⟨k, by omega, by omega, hk, fun j hle' hlt' => ?_⟩
              by_cases hj : j = idx
              · exact hj ▸ hsigned
              · exact hall j (by omega) hlt'
            · rintro ⟨k, hle, hlt, hk, hall⟩
              -- the first delay was not cut short
              have hne : k ≠ idx := fun h => hcancelled (h ▸ hk)
              exact ⟨k, by omega, by omega, hk, fun j hle' hlt' => hall j (by omega) hlt'⟩

theorem signLoop_eq_signed (signRounds : Nat) :
    signLoop round 0 signRounds = .signed ↔ AllSigned round signRounds := by
  rw [signLoop_signed_iff]
  simp [AllSigned]

theorem signLoop_eq_cancelled (signRounds : Nat) :
    signLoop round 0 signRounds = .cancelled ↔ CancelledBetween round signRounds := by
  rw [signLoop_cancelled_iff]
  simp [CancelledBetween]

theorem allSigned_one : AllSigned round 1 ↔ (round 0).signed = true := by
  simp [AllSigned]

theorem not_cancelledBetween_one : ¬ CancelledBetween round 1 := by
  rintro ⟨k, hlt, -⟩
  omega

end Rounds

/-! ## The settled runs -/

section Runs

variable {calls : Calls} {agreed : Agreed} {t : Table}
  (hfail : calls.markFailed = true) (held : t.statusOf agreed.id = some .processing)

include hfail held

theorem signOnce_settled_iff (named : Bool) :
    Settled agreed.id ((signOnce named calls agreed t).deferred calls agreed.id) ↔
      (named = false → agreed.signer = true → (calls.round 0).signed = true) ∧
      ((agreed.signer = true → (calls.round 0).signed = true) → calls.distribution = none →
        ∀ reason data, calls.finalization ≠ .timedOut reason (.late data)) := by
  unfold signOnce
  split
  next hunsigned =>
    simp only [Bool.and_eq_true, Bool.not_eq_true'] at hunsigned
    cases named with
    | true => simp [leave_named_settled held hfail, hunsigned]
    | false =>
        have unsettled : ¬ Settled agreed.id ((Exit.leave false none
            (some (.new "signing phase error occurred")) t none).deferred calls agreed.id) :=
          Exit.not_settled rfl rfl held
        simp [unsettled, hunsigned]
  next hsigned =>
    have hsigned' : agreed.signer = true → (calls.round 0).signed = true := by
      intro hsigner
      simpa [hsigner] using hsigned
    rw [afterSigning_settled_iff held named hfail]
    exact ⟨fun h => ⟨fun _ => hsigned', fun _ => h⟩, fun h => h.2 hsigned'⟩

theorem signRound_settled_iff :
    Settled agreed.id ((signRound calls agreed t).deferred calls agreed.id) ↔
      (agreed.signer = true → ¬ CancelledBetween calls.round agreed.signRounds) ∧
      ((agreed.signer = true → AllSigned calls.round agreed.signRounds) →
        calls.distribution = none →
          ∀ reason data, calls.finalization ≠ .timedOut reason (.late data)) := by
  unfold signRound
  split
  next hsigner =>
    simp only [hsigner, true_implies]
    rw [← signLoop_eq_signed, ← signLoop_eq_cancelled]
    cases hloop : signLoop calls.round 0 agreed.signRounds with
    | signed => simp [afterSigning_settled_iff held true hfail]
    | failed n => simp [leave_named_settled held hfail]
    | cancelled =>
        have unsettled : ¬ Settled agreed.id
            ((Exit.leave true none none t none).deferred calls agreed.id) :=
          Exit.not_settled rfl rfl held
        simp [unsettled]
  next hsigner =>
    simp [hsigner, afterSigning_settled_iff held true hfail]

end Runs

theorem runSession_of_agreed (kind : SessionKind) {calls : Calls} {agreed : Agreed} (t : Table)
    (hconsensus : calls.consensus = .ok (some agreed)) (hmark : calls.markProcessing = none) :
    runSession kind calls t =
      (match kind with
        | .utxo => signRound calls agreed (t.updateStatus agreed.id .processing)
        | .zano => signOnce false calls agreed (t.updateStatus agreed.id .processing)
        | .evm | .ton | .solana =>
            signOnce true calls agreed (t.updateStatus agreed.id .processing)).deferred
        calls agreed.id := by
  cases kind <;>
    simp [runSession, evmRunSession, tonRunSession, solanaRunSession, zanoRunSession,
      utxoRunSigningSession, sessionWith, hconsensus, hmark]

/-- Without data to sign, or with the first update refused, nothing is written. -/
theorem runSession_untouched (kind : SessionKind) {calls : Calls} (t : Table)
    (h : (∀ agreed, calls.consensus ≠ .ok (some agreed)) ∨ calls.markProcessing ≠ none) :
    (runSession kind calls t).table = t := by
  have untouched (text : String) (phases : Calls → Agreed → Table → Exit) :
      (sessionWith text phases calls t).table = t := by
    unfold sessionWith
    split
    next => rfl
    next => rfl
    next agreed hconsensus =>
      split
      next => rfl
      next hmark =>
        rcases h with h | h
        · exact absurd hconsensus (h agreed)
        · exact absurd hmark h
  cases kind <;> exact untouched _ _

/-- The status at the return fits the value returned exactly in the runs that are compensated. -/
theorem runSession_settled_iff (kind : SessionKind) {calls : Calls} {agreed : Agreed} {t : Table}
    {status : WithdrawalStatus} (hconsensus : calls.consensus = .ok (some agreed))
    (held : t.statusOf agreed.id = some status) (hmark : calls.markProcessing = none)
    (hfail : calls.markFailed = true) :
    Settled agreed.id (runSession kind calls t) ↔ Compensated kind calls agreed := by
  have hprocessing := statusOf_updateStatus held .processing
  have hsplit : Compensated kind calls agreed ↔ (kind = .zano → agreed.signer = true →
      (calls.round 0).signed = true) ∧ (agreed.signer = true →
        ¬ CancelledBetween calls.round (kind.rounds agreed)) ∧
      ((agreed.signer = true → AllSigned calls.round (kind.rounds agreed)) →
        calls.distribution = none →
          ∀ reason data, calls.finalization ≠ .timedOut reason (.late data)) :=
    ⟨fun h => ⟨h.signed, h.uninterrupted, h.punctual⟩, fun h => ⟨h.1, h.2.1, h.2.2⟩⟩
  rw [runSession_of_agreed kind t hconsensus hmark, hsplit]
  cases kind with
  | utxo => simp [signRound_settled_iff hfail hprocessing, SessionKind.rounds]
  | zano =>
      simp [signOnce_settled_iff hfail hprocessing, SessionKind.rounds, allSigned_one,
        not_cancelledBetween_one]
  | evm | ton | solana =>
      simp [signOnce_settled_iff hfail hprocessing, SessionKind.rounds, allSigned_one,
        not_cancelledBetween_one]

/-! ## The steps of the party -/

/-- Steps of one session, with nothing between them. -/
inductive Moves (kind : SessionKind) (chainId : GoString) :
    Table → ChainState → Table → ChainState → Prop where
  | refl (t : Table) (cs : ChainState) : Moves kind chainId t cs t cs
  | step {t t' : Table} {cs cs' : ChainState} (label : SessionLabel) (move : SessionMove)
      (taken : sessionMove kind chainId t cs label = some move)
      (rest : Moves kind chainId (move.op.apply t) move.next t' cs') :
      Moves kind chainId t cs t' cs'

/-- Only these finalizers send anything, and an update after the return is not the session's. -/
def Finalization.Possible (kind : SessionKind) : Finalization → Prop
  | .unsent _ _ => kind.sends = true
  | .timedOut _ (.late _) => False
  | _ => True

section Moves

variable {kind : SessionKind} {chainId : GoString} {calls : Calls} {cs : ChainState}
  {id : DepositIdentifier}

theorem moves_failing (t : Table) :
    Moves kind chainId t (cs.goto (.failing id))
      (if calls.markFailed then t.updateStatus id .failed else t) cs.finish := by
  refine .step (.markFailed calls.markFailed) _ rfl ?_
  cases calls.markFailed <;> exact .refl _ _

theorem moves_update {t t' : Table} {cs' : ChainState} (data : ProcessedDepositData)
    (leader : Bool)
    (rest : Moves kind chainId (storeProcessed t id data)
      (cs.goto (.finalizing id (if leader && kind.sends then .sending else .done false))) t' cs') :
    Moves kind chainId t (cs.goto (.finalizing id .updating)) t' cs' := by
  refine .step (.finalizer (.update { data with identifier := id } leader))
    { op := .updateProcessed { data with identifier := id }
      next := cs.goto (.finalizing id (if leader && kind.sends then .sending else .done false)) }
    ?_ rest
  simp [sessionMove, finalizerStep, ChainState.goto]

theorem moves_finalize (possible : calls.finalization.Possible kind) (t : Table) :
    Moves kind chainId t (cs.goto (.finalizing id .updating))
      (if (finalize t id calls.finalization).error.isSome && calls.markFailed then
        (finalize t id calls.finalization).table.updateStatus id .failed
      else (finalize t id calls.finalization).table) cs.finish := by
  cases hfinal : calls.finalization with
  | failed e =>
      exact .step (.finalizer .fail) _ rfl (.step .finalizeResult _ rfl (moves_failing t))
  | processed data =>
      exact moves_update data false (.step .finalizeResult _ rfl (.refl _ _))
  | unsent data e =>
      simp only [hfinal, Finalization.Possible] at possible
      apply moves_update data true
      rw [possible]
      exact .step (.finalizer (.send false)) _ rfl
        (.step .finalizeResult _ rfl (moves_failing _))
  | timedOut reason finalizer =>
      cases finalizer with
      | written data =>
          exact moves_update data false (.step .finalizeTimeout _ rfl (moves_failing _))
      | late data => simp [hfinal, Finalization.Possible] at possible
      | later => exact .step .finalizeTimeout _ rfl (moves_failing t)

theorem Finalization.Possible.late_eq_none {t : Table} {finalization : Finalization}
    (possible : finalization.Possible kind) : (finalize t id finalization).late = none := by
  apply (finalize_late_iff finalization).mpr
  rintro reason data rfl
  exact possible

theorem afterSigning_deferred (named : Bool) (possible : calls.finalization.Possible kind)
    (hdistribution : calls.distribution = none) (t : Table) :
    ((afterSigning named calls id t).deferred calls id).table =
      if (finalize t id calls.finalization).error.isSome && calls.markFailed then
        (finalize t id calls.finalization).table.updateStatus id .failed
      else (finalize t id calls.finalization).table := by
  have hlate : (finalize t id calls.finalization).late = none := possible.late_eq_none
  simp only [afterSigning, hdistribution]
  cases herror : (finalize t id calls.finalization).error <;> cases named <;>
    simp [Exit.deferred, Exit.leave, hlate]

theorem moves_afterSigning (named : Bool) (possible : calls.finalization.Possible kind)
    (t : Table) :
    Moves kind chainId t (cs.goto (.distributing id))
      ((afterSigning named calls id t).deferred calls id).table cs.finish := by
  cases hdistribution : calls.distribution with
  | some e =>
      refine .step (.distribution false) _ rfl ?_
      simp only [afterSigning, hdistribution]
      cases named <;> exact moves_failing t
  | none =>
      refine .step (.distribution true) _ rfl ?_
      rw [afterSigning_deferred named possible hdistribution]
      exact moves_finalize possible t

theorem Moves.trans {t t' t'' : Table} {cs cs' cs'' : ChainState}
    (first : Moves kind chainId t cs t' cs') (second : Moves kind chainId t' cs' t'' cs'') :
    Moves kind chainId t cs t'' cs'' := by
  induction first with
  | refl => exact second
  | step label move taken _ ih => exact .step label move taken (ih second)

/-- Where the signing loop leaves the session. -/
def Signing.leads (cs : ChainState) (id : DepositIdentifier) : Signing → ChainState
  | signed => cs.goto (.distributing id)
  | failed _ => cs.goto (.failing id)
  | cancelled => cs.finish

theorem moves_signLoop (t : Table) (idx remaining : Nat) (hpos : 0 < remaining) :
    Moves .utxo chainId t (cs.goto (.signing id)) t
      ((signLoop calls.round idx remaining).leads cs id) := by
  induction remaining generalizing idx with
  | zero => omega
  | succ remaining ih =>
      refine .step .runSignParty _ rfl ?_
      unfold signLoop
      split
      next => exact .step (.signResult .failed) _ rfl (.refl _ _)
      next =>
        split
        next => exact .step (.signResult .signature) _ rfl (.refl _ _)
        next hmore =>
          split
          next => exact .step (.signResult .cancelled) _ rfl (.refl _ _)
          next => exact .step (.signResult .nextRound) _ rfl (ih (idx + 1) (by omega))

theorem moves_signRound {agreed : Agreed} (possible : calls.finalization.Possible .utxo)
    (hpos : 0 < agreed.signRounds) (t : Table) :
    Moves .utxo chainId t
      (cs.goto (if agreed.signer then .signing agreed.id else .distributing agreed.id))
      ((signRound calls agreed t).deferred calls agreed.id).table cs.finish := by
  unfold signRound
  split
  next hsigner =>
    have hloop : Moves .utxo chainId t (cs.goto (.signing agreed.id)) t
        ((signLoop calls.round 0 agreed.signRounds).leads cs agreed.id) :=
      moves_signLoop t 0 agreed.signRounds hpos
    refine Moves.trans hloop ?_
    cases signLoop calls.round 0 agreed.signRounds with
    | signed => exact moves_afterSigning true possible t
    | failed n => exact moves_failing t
    | cancelled => exact .refl _ _
  next hsigner => exact moves_afterSigning true possible t

theorem moves_signOnce {agreed : Agreed}
    (possible : calls.finalization.Possible kind) (t : Table) :
    Moves kind chainId t
      (cs.goto (if agreed.signer then .signing agreed.id else .distributing agreed.id))
      ((signOnce (kind ≠ .zano) calls agreed t).deferred calls agreed.id).table cs.finish := by
  unfold signOnce
  by_cases hsigner : agreed.signer = true
  · rw [if_pos hsigner]
    refine .step .runSignParty _ rfl ?_
    by_cases hsigned : (calls.round 0).signed = true
    · rw [if_neg (by simp [hsigned])]
      exact .step (.signResult .signature) _ rfl (moves_afterSigning _ possible t)
    · rw [if_pos (by simp [hsigner, hsigned])]
      refine .step (.signResult .failed) _ rfl ?_
      by_cases hzano : kind = .zano
      · simp only [hzano]
        exact .refl _ _
      · have hnamed : decide (kind ≠ .zano) = true := by simpa using hzano
        rw [if_neg hzano, hnamed]
        exact moves_failing t
  · rw [if_neg hsigner, if_neg (by simp [hsigner])]
    exact moves_afterSigning _ possible t

/-- In the party nothing else needs to step in between. -/
theorem Moves.leads {kinds : GoString → Option SessionKind} (hkind : kinds chainId = some kind)
    {t t' : Table} {cs cs' : ChainState} (moves : Moves kind chainId t cs t' cs') {s₀ s : State}
    (before : (machine kinds).Leads (fun _ _ => True) s₀ s) (table : s.table = t)
    (chain : s.control.chains chainId = cs) :
    ∃ s', (machine kinds).Leads (fun _ _ => True) s₀ s' ∧ s'.table = t' ∧
      s'.control.chains chainId = cs' := by
  induction moves generalizing s with
  | refl t cs => exact ⟨s, before, table, chain⟩
  | step label move taken _ ih =>
      subst table chain
      obtain ⟨s', hstep, htable, hchain⟩ : ∃ s', (machine kinds).step s (.session chainId label) =
          some s' ∧ s'.table = move.op.apply s.table ∧ s'.control.chains chainId = move.next := by
        simp [machine, Party.step, Party.move, hkind, taken]
      exact ih (.step before trivial hstep) htable hchain

/-- The session steps of `Writers` reach what the function returns with. -/
theorem runSession_moves (proposed : cs.pc = .proposed id)
    (hagreed : ∀ agreed, calls.consensus = .ok (some agreed) →
      agreed.id = id ∧ 0 < agreed.signRounds)
    (possible : calls.finalization.Possible kind) (t : Table) :
    Moves kind chainId t cs (runSession kind calls t).table cs.finish := by
  have agreeing (outcome : Option Bool) {t' : Table} (rest : Moves kind chainId t
      (outcome.elim cs.finish fun signer => cs.goto (.agreed id signer)) t' cs.finish) :
      Moves kind chainId t cs t' cs.finish := by
    refine .step (.consensus outcome)
      ⟨.keep, outcome.elim cs.finish fun signer => cs.goto (.agreed id signer), [], []⟩ ?_ rest
    cases outcome <;> simp [sessionMove, proposed]
  cases hconsensus : calls.consensus with
  | error e =>
      rw [runSession_untouched kind t (.inl (by simp [hconsensus]))]
      exact agreeing none (.refl _ _)
  | ok result =>
      cases result with
      | none =>
          rw [runSession_untouched kind t (.inl (by simp [hconsensus]))]
          exact agreeing none (.refl _ _)
      | some agreed =>
          obtain ⟨rfl, hpos⟩ := hagreed agreed hconsensus
          apply agreeing (some agreed.signer)
          cases hmark : calls.markProcessing with
          | some e =>
              rw [runSession_untouched kind t (.inr (by simp [hmark]))]
              exact .step (.markProcessing false) _ rfl (.refl _ _)
          | none =>
              rw [runSession_of_agreed kind t hconsensus hmark]
              refine .step (.markProcessing true) _ rfl ?_
              cases kind with
              | utxo => exact moves_signRound possible hpos _
              | zano => exact moves_signOnce possible _
              | evm | ton | solana => exact moves_signOnce possible _

end Moves

/-! ## Runs that leave the deposit behind -/

def heldId : DepositIdentifier := ⟨str "0xcc", 0, str "1"⟩

def heldTable : Table :=
  ⟨[{ identifier := heldId, withdrawalStatus := .pending }], List.nodup_singleton _⟩

/-- A signer of two hashes; everything but the given rounds and finalization goes well. -/
def sampleCalls (round : Nat → Round) (finalization : Finalization) : Calls where
  consensus := .ok (some ⟨heldId, true, 2⟩)
  markProcessing := none
  round := round
  distribution := none
  finalization := finalization
  markFailed := true

def sampleProcessed : Finalization := .processed ⟨heldId, none, none, none⟩

theorem runSession_settled_sampleCalls :
    Settled heldId (runSession .zano (sampleCalls (fun _ => ⟨true, false⟩) sampleProcessed)
        heldTable) ∧
      Settled heldId (runSession .utxo (sampleCalls (fun _ => ⟨true, false⟩) sampleProcessed)
        heldTable) := by
  have held : heldTable.statusOf heldId = some .pending := by decide
  have agreed : (sampleCalls (fun _ => ⟨true, false⟩) sampleProcessed).consensus =
      .ok (some ⟨heldId, true, 2⟩) := rfl
  refine ⟨(runSession_settled_iff .zano agreed held rfl rfl).mpr ?_,
    (runSession_settled_iff .utxo agreed held rfl rfl).mpr ?_⟩
  · exact ⟨fun _ _ => rfl, fun _ ⟨_, _, h, _⟩ => (nomatch h), fun _ _ _ _ => nofun⟩
  · exact ⟨fun _ _ => rfl, fun _ ⟨_, _, h, _⟩ => (nomatch h), fun _ _ _ _ => nofun⟩

/-- A Zano signer without a signature returns an error and leaves PROCESSING; a UTXO signer that
is cancelled between its rounds returns nil and leaves PROCESSING; an EVM finalizer that times
out can store its signature after the compensating update. -/
theorem runSession_leaves_processing :
    let unsigned := runSession .zano (sampleCalls (fun _ => ⟨false, false⟩) sampleProcessed)
      heldTable
    let cancelled := runSession .utxo (sampleCalls (fun _ => ⟨true, true⟩) sampleProcessed)
      heldTable
    let late := runSession .evm (sampleCalls (fun _ => ⟨true, false⟩)
      (.timedOut (.new "context deadline exceeded") (.late ⟨heldId, none, none, none⟩))) heldTable
    (unsigned.error.isSome = true ∧ unsigned.table.statusOf heldId = some .processing) ∧
      (cancelled.error = none ∧ cancelled.table.statusOf heldId = some .processing) ∧
      (late.error.isSome = true ∧ late.table.statusOf heldId = some .processed) := by
  decide +kernel

end TssSvc.Party
