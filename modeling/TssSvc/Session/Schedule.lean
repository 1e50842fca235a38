import TssSvc.Bridge.Chain
import TssSvc.Party.RunSession

/-!
# When the sessions start

`internal/tss/session/common.go`, `boundaries.go` and the part of the signing sessions' `Run`
loops that moves the session identifier and the next start time.  A session adds a fixed period
to the start time when it starts; a UTXO session adds more when its consensus has agreed on a
transaction of several inputs, and a party that does not agree with the others does not.

Times are nanoseconds since the epoch.  The number of inputs is bounded by the size of a message,
far below what overflows a `time.Duration`.
-/

set_option autoImplicit false

namespace TssSvc.Schedule

open TssSvc.Bridge TssSvc.Party

/-! ## Boundaries -/

def millisecond : Int := 1000000

def second : Int := 1000 * millisecond

def boundaryProposalAcceptance : Int := 5 * second

def boundaryConsensus : Int := boundaryProposalAcceptance + 10 * second

def boundarySign : Int := 13 * second

def boundarySignatureDistribution : Int := 5 * second

def boundaryFinalize : Int := 7 * second

def boundarySigningSession : Int :=
  boundaryConsensus + boundarySign + boundarySignatureDistribution + boundaryFinalize

def boundaryBitcoinSignRoundDelay : Int := 500 * millisecond

/-! ## Identifiers -/

def underscore : UInt8 := 0x5F

def getConcreteSigningSessionIdentifier (chainId : GoString) (sessionId : Int) : GoString :=
  str "SIGN" ++ underscore :: (chainId ++ underscore :: Decimal.formatInt sessionId)

def getSessionId (sessionIdentifier : GoString) : Go Int :=
  match (List.splitOn underscore sessionIdentifier)[2]? with
  | some text => .ok ((Decimal.parseInt64 text).getD 0)
  | none => .error .indexOutOfRange

def incrementSessionIdentifier (id : GoString) : GoString :=
  match List.splitOn underscore id with
  | [first, chainId, text] =>
      match Decimal.parseInt64 text with
      | some val =>
          first ++ underscore :: (chainId ++ underscore ::
            Decimal.formatInt (wrapInt64 (val + 1)))
      | none => id
  | _ => id

/-- `Id` is an `int64`. -/
structure SigningParams where
  id : Int
  startTime : Int
  threshold : Int
  chainId : GoString
  inRange : wrapInt64 id = id

/-! ## One session after the other -/

/-- The fields of a session that outlive its components. -/
structure Session where
  sessionId : GoString
  nextSessionStartTime : Int
  nextSessionStartTimeConstant : Bool
  deriving DecidableEq, Repr

def newSession (params : SigningParams) : Session where
  sessionId := getConcreteSigningSessionIdentifier params.chainId params.id
  nextSessionStartTime := params.startTime
  nextSessionStartTimeConstant := true

/-- The time has come; only the UTXO session has the flag. -/
def Session.start (kind : SessionKind) (s : Session) : Session :=
  { s with
    nextSessionStartTime := s.nextSessionStartTime + boundarySigningSession
    nextSessionStartTimeConstant :=
      if kind = .utxo then false else s.nextSessionStartTimeConstant }

/-- One signing phase is included in the period. -/
def additionalDelay (inputsToSign : Nat) : Int :=
  if inputsToSign ≤ 1 then 0
  else ((inputsToSign : Int) - 1) * (boundarySign + boundaryBitcoinSignRoundDelay)

def Session.updateNextSessionStartTime (inputsToSign : Nat) (s : Session) : Session :=
  { s with
    nextSessionStartTime := s.nextSessionStartTime + additionalDelay inputsToSign
    nextSessionStartTimeConstant := true }

def Session.incrementSessionId (s : Session) : Session :=
  { s with sessionId := incrementSessionIdentifier s.sessionId }

/-- A run of `runSession`, of `runSigningSession` or of `runConsolidationSession`: the last two
update the next start time as soon as the consensus has data. -/
def Session.run (kind : SessionKind) (calls : Calls) (s : Session) : Session :=
  match kind, calls.consensus with
  | .utxo, .ok (some agreed) =>
      ((s.start kind).updateNextSessionStartTime agreed.signRounds).incrementSessionId
  | _, _ => (s.start kind).incrementSessionId

/-- The session after the first runs. -/
def Session.after (kind : SessionKind) (s : Session) (calls : Nat → Calls) : Nat → Session
  | 0 => s
  | count + 1 => (s.after kind calls count).run kind (calls count)

/-- What the session adds to the period. -/
def delayOf (kind : SessionKind) (calls : Calls) : Int :=
  match kind, calls.consensus with
  | .utxo, .ok (some agreed) => additionalDelay agreed.signRounds
  | _, _ => 0

theorem run_nextSessionStartTime (kind : SessionKind) (calls : Calls) (s : Session) :
    (s.run kind calls).nextSessionStartTime =
      s.nextSessionStartTime + boundarySigningSession + delayOf kind calls := by
  unfold Session.run delayOf
  split
  · rfl
  · simp [Session.start, Session.incrementSessionId]

theorem run_sessionId (kind : SessionKind) (calls : Calls) (s : Session) :
    (s.run kind calls).sessionId = incrementSessionIdentifier s.sessionId := by
  unfold Session.run
  split <;> rfl

theorem additionalDelay_nonneg (inputsToSign : Nat) : 0 ≤ additionalDelay inputsToSign := by
  unfold additionalDelay
  split
  · omega
  · apply Int.mul_nonneg
    · omega
    · decide

theorem additionalDelay_eq_zero_iff (inputsToSign : Nat) :
    additionalDelay inputsToSign = 0 ↔ inputsToSign ≤ 1 := by
  have hround : boundarySign + boundaryBitcoinSignRoundDelay = 13500000000 := by decide
  unfold additionalDelay
  rw [hround]
  split <;> omega

/-! ## Parties side by side -/

section Parties

variable {ι : Type} (kind : SessionKind) (s : Session) (calls : ι → Nat → Calls)

/-- The party's consensus has data in the session with this number. -/
def Accepts (p : ι) (j : Nat) : Prop := ∃ agreed, (calls p j).consensus = .ok (some agreed)

/-- The parties that accept a proposal in the same session accept the same one. -/
def SameProposals (inputs : Nat → Nat) : Prop :=
  ∀ p j agreed, (calls p j).consensus = .ok (some agreed) → agreed.signRounds = inputs j

theorem after_sessionId (p q : ι) (j : Nat) :
    (s.after kind (calls p) j).sessionId = (s.after kind (calls q) j).sessionId := by
  induction j with
  | zero => rfl
  | succ j ih => rw [Session.after, Session.after, run_sessionId, run_sessionId, ih]

/-- The start times agree after every session exactly when every session adds the same. -/
theorem after_nextSessionStartTime_iff (p q : ι) (count : Nat) :
    (∀ j ≤ count, (s.after kind (calls p) j).nextSessionStartTime =
      (s.after kind (calls q) j).nextSessionStartTime) ↔
      ∀ j < count, delayOf kind (calls p j) = delayOf kind (calls q j) := by
  induction count with
  | zero =>
      refine ⟨fun _ j hj => absurd hj (Nat.not_lt_zero j), fun _ j hj => ?_⟩
      obtain rfl := Nat.le_zero.mp hj
      rfl
  | succ count ih =>
      have hlast := run_nextSessionStartTime kind (calls p count) (s.after kind (calls p) count)
      have hlast' := run_nextSessionStartTime kind (calls q count) (s.after kind (calls q) count)
      constructor
      · intro h j hj
        by_cases hcount : j = count
        · subst hcount
          have hnow := h j (by omega)
          have hnext := h (j + 1) (by omega)
          rw [Session.after, Session.after] at hnext
          omega
        · exact ih.mp (fun i hi => h i (by omega)) j (by omega)
      · intro h j hj
        have hbefore := ih.mpr fun i hi => h i (by omega)
        by_cases hcount : j = count + 1
        · subst hcount
          have hnow := hbefore count (Nat.le_refl _)
          have hdelay := h count (by omega)
          rw [Session.after, Session.after]
          omega
        · exact hbefore j (by omega)

variable {calls}

theorem delayOf_utxo {inputs : Nat → Nat} (same : SameProposals calls inputs) (p : ι) (j : Nat) :
    (Accepts calls p j → delayOf .utxo (calls p j) = additionalDelay (inputs j)) ∧
      (¬ Accepts calls p j → delayOf .utxo (calls p j) = 0) := by
  constructor
  · rintro ⟨agreed, hagreed⟩
    simp only [delayOf, hagreed]
    rw [same p j agreed hagreed]
  · intro rejects
    unfold delayOf
    split
    next agreed _ hagreed => exact absurd ⟨agreed, hagreed⟩ rejects
    next => rfl

theorem delayOf_eq_zero (hkind : kind ≠ .utxo) (c : Calls) : delayOf kind c = 0 := by
  unfold delayOf
  split
  · exact absurd rfl hkind
  · rfl

/-- A session adds the same everywhere exactly when it is about one input, or all parties or none
have data. -/
theorem delays_agree_iff {inputs : Nat → Nat} (same : SameProposals calls inputs) (j : Nat) :
    (∀ p q, delayOf .utxo (calls p j) = delayOf .utxo (calls q j)) ↔
      (1 < inputs j → (∀ p, Accepts calls p j) ∨ ∀ p, ¬ Accepts calls p j) := by
  have hdelay (r : ι) := delayOf_utxo same r j
  constructor
  · intro h several
    have hpositive : additionalDelay (inputs j) ≠ 0 := by
      rw [Ne, additionalDelay_eq_zero_iff]
      omega
    by_cases hsome : ∃ p, Accepts calls p j
    · left
      intro q
      by_contra rejects
      obtain ⟨p, accepts⟩ := hsome
      have hequal := h p q
      rw [(hdelay p).1 accepts, (hdelay q).2 rejects] at hequal
      exact hpositive hequal
    · right
      intro p accepts
      exact hsome ⟨p, accepts⟩
  · intro h p q
    by_cases several : 1 < inputs j
    · rcases h several with all | none
      · rw [(hdelay p).1 (all p), (hdelay q).1 (all q)]
      · rw [(hdelay p).2 (none p), (hdelay q).2 (none q)]
    · have hzero := (additionalDelay_eq_zero_iff (inputs j)).mpr (by omega)
      have hnone (r : ι) : delayOf .utxo (calls r j) = 0 := by
        by_cases accepts : Accepts calls r j
        · rw [(hdelay r).1 accepts, hzero]
        · exact (hdelay r).2 accepts
      rw [hnone p, hnone q]

/-- Parties that start alike keep the same schedule exactly when, in each UTXO session about
several inputs, either all of them or none gets to the update of the next start time. -/
theorem same_schedule_iff (params : SigningParams) {inputs : Nat → Nat}
    (same : SameProposals calls inputs) (count : Nat) :
    (∀ j ≤ count, ∀ p q,
      ((newSession params).after kind (calls p) j).sessionId =
          ((newSession params).after kind (calls q) j).sessionId ∧
        ((newSession params).after kind (calls p) j).nextSessionStartTime =
          ((newSession params).after kind (calls q) j).nextSessionStartTime) ↔
      (kind = .utxo → ∀ j < count, 1 < inputs j →
        (∀ p, Accepts calls p j) ∨ ∀ p, ¬ Accepts calls p j) := by
  have hdelays : (∀ j ≤ count, ∀ p q,
      ((newSession params).after kind (calls p) j).sessionId =
          ((newSession params).after kind (calls q) j).sessionId ∧
        ((newSession params).after kind (calls p) j).nextSessionStartTime =
          ((newSession params).after kind (calls q) j).nextSessionStartTime) ↔
      ∀ j < count, ∀ p q, delayOf kind (calls p j) = delayOf kind (calls q j) := by
    constructor
    · intro h j hj p q
      exact (after_nextSessionStartTime_iff kind _ calls p q count).mp
        (fun j hj => (h j hj p q).2) j hj
    · intro h j hj p q
      exact ⟨after_sessionId kind _ calls p q j,
        (after_nextSessionStartTime_iff kind _ calls p q count).mpr
          (fun j hj => h j hj p q) j hj⟩
  rw [hdelays]
  by_cases hkind : kind = .utxo
  · subst hkind
    simp only [delays_agree_iff same, forall_const]
  · constructor
    · intro _ h
      exact absurd h hkind
    · intro _ j _ p q
      rw [delayOf_eq_zero kind hkind, delayOf_eq_zero kind hkind]

end Parties

/-! ## A party that falls behind -/

def sampleParams : SigningParams where
  id := 1
  startTime := 1000 * second
  threshold := 1
  chainId := str "btc"
  inRange := by decide

/-- A signer whose consensus always ends as given. -/
def consensusCalls (consensus : Except SessionError (Option Agreed)) : Calls where
  consensus := consensus
  markProcessing := none
  round := fun _ => ⟨true, false⟩
  distribution := none
  finalization := .processed ⟨heldId, none, none, none⟩
  markFailed := true

/-- Two parties, of which the first always agrees on a transaction of two inputs. -/
def sampleParties (second : Except SessionError (Option Agreed)) (first : Bool) (_ : Nat) : Calls :=
  consensusCalls (if first then .ok (some ⟨heldId, true, 2⟩) else second)

theorem same_schedule_sampleParties :
    SameProposals (sampleParties (.ok (some ⟨heldId, false, 2⟩))) (fun _ => 2) ∧
      ∀ j ≤ 9, ∀ p q, ((newSession sampleParams).after .utxo
            (sampleParties (.ok (some ⟨heldId, false, 2⟩)) p) j).sessionId =
          ((newSession sampleParams).after .utxo
            (sampleParties (.ok (some ⟨heldId, false, 2⟩)) q) j).sessionId ∧
        ((newSession sampleParams).after .utxo
            (sampleParties (.ok (some ⟨heldId, false, 2⟩)) p) j).nextSessionStartTime =
          ((newSession sampleParams).after .utxo
            (sampleParties (.ok (some ⟨heldId, false, 2⟩)) q) j).nextSessionStartTime := by
  have hboth : ∀ p j, ∃ signer, (sampleParties (.ok (some ⟨heldId, false, 2⟩)) p j).consensus =
      .ok (some ⟨heldId, signer, 2⟩) := by
    intro first j
    cases first with
    | true => exact ⟨true, rfl⟩
    | false => exact ⟨false, rfl⟩
  have same : SameProposals (sampleParties (.ok (some ⟨heldId, false, 2⟩))) fun _ => 2 := by
    intro p j agreed hagreed
    obtain ⟨signer, hsigner⟩ := hboth p j
    cases hsigner.symm.trans hagreed
    rfl
  refine ⟨same, (same_schedule_iff .utxo sampleParams same 9).mpr ?_⟩
  intro _ j _ _
  left
  intro p
  obtain ⟨signer, hsigner⟩ := hboth p j
  exact ⟨_, hsigner⟩

/-- What an acceptor's consensus ends with when the mechanism refuses the proposal. -/
def rejection : SessionError :=
  ((GoError.new "proposal data is invalid").wrap (str "failed to verify proposed data")).wrap
    (str "failed to handle proposal message")

/-- The second party rejects every proposal, and its schedule is 13.5 seconds further ahead of the
other's with each session. -/
theorem schedules_diverge_sampleParties :
    SameProposals (sampleParties (.error rejection)) (fun _ => 2) ∧
      ∀ j ≤ 9, ((newSession sampleParams).after .utxo
          (sampleParties (.error rejection) true) j).nextSessionStartTime =
        ((newSession sampleParams).after .utxo
          (sampleParties (.error rejection) false) j).nextSessionStartTime +
            j * (13500 * millisecond) := by
  constructor
  · intro first j agreed hagreed
    cases first with
    | true =>
        cases hagreed
        rfl
    | false => cases hagreed
  · decide +kernel

end TssSvc.Schedule
