import TssSvc.Party.StoredSignature
import TssSvc.Session.Accord

/-!
# A signing session among all parties

`runSession` at every honest party: the consensus, the signing phase and `SignaturesDistributor`
(`internal/tss/session/signing/distribution.go`) with its reliable broadcast, the third one of the
session.  The leader proposes and distributes.  What the signing phase leaves at a signer is the
label's choice.

A state is a state of `Protocol.machine` and, for each party, the phases after the consensus.
`consensus_reachable` and `distributions_reachable`: in a run in which no honest signature is
forged or shown in another broadcast, both parts run as their own machines do.
-/

set_option autoImplicit false

namespace TssSvc.Session

open TssSvc.Broadcast
open TssSvc.Party (Call Signatures verifyEach validateSignatures waitFor)

/-! ## The state -/

/-- One session.  `hashes` are the hashes to sign for the data and `ecdsaVerify` is the check with
the public key of the TSS. -/
structure SigningProtocol (D T : Type) extends Protocol D T where
  hashes : T → List Bytes
  ecdsaVerify : Bytes → Nat → Nat → Bool
  signatures : Bytes → Fallible (RoundMessage Signatures)

/-- Where `runSession` is.  `distributing` is `Run` of the distributor, `sending` and `checking` are
the calls of its broadcaster, `finished` is what `WaitFor` returns. -/
inductive Stage (T : Type) where
  | agreeing
  | signing (data : T)
  | distributing (data : T) (own : Option Signatures)
  | sending (data : T) (own : Signatures)
  | checking (data : T) (m : RoundMessage Signatures)
  | finished (data : T) (signatures : Call Signatures)
  | stopped
  | panicked

structure Phases (T : Type) where
  distribution : Option (Node Signatures) := none
  stage : Stage T := .agreeing

structure SessionWorld (D T : Type) where
  consensus : World D T
  phases : Address → Phases T

inductive SessionAction (D T : Type) where
  | consensus (action : Action D T)
  | proceeds (updated : Bool)
  | signed (signatures : Option Signatures)
  | distributes
  | receives (request : SubmitRequest D)
  | takes (msg : ReliableBroadcastMsg Signatures)
  | returns
  | cancelled (reason : GoString)

variable {D T : Type}

def SessionWorld.distributions (s : SessionWorld D T) : Net Signatures :=
  fun p => (s.phases p).distribution

def Stage.inCall : Stage T → Bool
  | sending _ _ | checking _ _ => true
  | _ => false

/-! ## One step -/

/-- `runSession` when the consensus has returned; `updated` is whether the status update succeeds.
Only the signers sign. -/
def proceed (updated : Bool) (result : ConsensusResult T) : Stage T :=
  match result.err, result.sigData with
  | some _, _ => .stopped
  -- no data to sign in the current session
  | none, none => .stopped
  | none, some data =>
      if updated then
        if result.signers.isSome then .signing data else .distributing data none
      else .stopped

theorem proceed_cases (updated : Bool) (result : ConsensusResult T) :
    proceed updated result = .stopped ∨ ∃ data, result.Agreed data ∧
      (proceed updated result = .signing data ∨
        proceed updated result = .distributing data none) := by
  unfold proceed
  split
  · exact .inl rfl
  · exact .inl rfl
  · rename_i data herr hdata
    split
    · refine .inr ⟨data, ⟨herr, hdata⟩, ?_⟩
      split
      · exact .inl rfl
      · exact .inr rfl
    · exact .inl rfl

/-- Where `SignaturesDistributor.Receive` puts a message. -/
inductive Routed where
  | broadcaster (msg : ReliableBroadcastMsg Signatures)
  | initSig (msg : ReliableBroadcastMsg Signatures)

namespace SigningProtocol

/-- `SignaturesDistributor.Receive`; `accepted` is `initSigAccepted`. -/
def receive (σ : SigningProtocol D T) (accepted : Bool) (request : Option (SubmitRequest D)) :
    Fallible Routed := do
  let request ← Outcome.ofOption (.new "nil request") request
  Outcome.check (request.sessionId = σ.setup.sessionId)
    ⟨none, str "session id mismatch: expected '" ++ σ.setup.sessionId ++ str "', got '" ++
      request.sessionId ++ str "'"⟩
  Outcome.check (request.type = .signatureDistribution) (.new "invalid request type")
  let sender ← (addressFromString σ.decoders request.sender).wrap "failed to parse sender address"
  let raw ← (σ.decoders.broadcastData request.data).wrap
    "failed to unmarshal reliable broadcast data"
  let m ← (σ.signatures raw).wrap "failed to decode round message"
  if m.round = 0 then do
    Outcome.check (sender = σ.setup.origin)
      ⟨none, str "sender " ++ sender ++ str " is not distributor"⟩
    Outcome.check (accepted = false) (.new "invalid message, signature already accepted")
    return .initSig ⟨m, sender⟩
  else return .broadcaster ⟨m, sender⟩

/-- Only the distributor's messages reach `initSigChan`. -/
theorem receive_initSig {σ : SigningProtocol D T} {accepted : Bool}
    {request : Option (SubmitRequest D)}
    {msg : ReliableBroadcastMsg Signatures} (h : σ.receive accepted request = .ok (.initSig msg)) :
    msg.sender = σ.setup.origin := by
  simp only [receive, Outcome.bind_eq_ok, Outcome.ofOption_eq_ok, Outcome.check_eq_ok] at h
  obtain ⟨request, -, _, -, _, -, sender, -, raw, -, m, -, h⟩ := h
  split at h
  · simp only [Outcome.bind_eq_ok, Outcome.check_eq_ok, Outcome.pure_eq_ok, Outcome.ok.injEq] at h
    obtain ⟨_, hsender, _, -, h⟩ := h
    cases h
    exact hsender
  · cases h

variable [HasHashString Signatures]

/-- The phases of the party `p` after a step of its own; the leader distributes, the others
receive. -/
def phase (σ : SigningProtocol D T) (s : SessionWorld D T) (p : Address) :
    SessionAction D T → Option (Phases T)
  | .consensus _ => none
  | .proceeds updated =>
      match (s.phases p).stage, (s.consensus p).pc with
      | .agreeing, .ended result => some { s.phases p with stage := proceed updated result }
      | _, _ => none
  | .signed signatures =>
      match (s.phases p).stage, signatures with
      | .signing _, none => some { s.phases p with stage := .stopped }
      | .signing data, some own => some { s.phases p with stage := .distributing data (some own) }
      | _, _ => none
  | .distributes =>
      match (s.phases p).stage with
      | .distributing data none =>
          if p = σ.setup.origin then
            some { s.phases p with
              stage := .finished data
                (waitFor σ.ecdsaVerify (σ.hashes data) (.distribute none false)) }
          else none
      | .distributing data (some own) =>
          (σ.setup.step s.distributions (.broadcast p (some own))).map fun net =>
            ⟨net p, .sending data own⟩
      | _ => none
  | .receives request =>
      match (s.phases p).stage, σ.receive false (some request) with
      | .distributing data _, .ok (.initSig msg) =>
          (σ.setup.step s.distributions (.ensureValid p msg)).map fun net =>
            ⟨net p, .checking data msg.msg⟩
      | _, _ => none
  | .takes msg =>
      (s.phases p).distribution.bind fun node =>
        if (s.phases p).stage.inCall ∧ σ.setup.Arrives s.distributions p node msg then
          some { s.phases p with distribution := some (σ.setup.takeMsg node msg) }
        else none
  | .returns =>
      (s.phases p).distribution.bind fun node =>
        match (s.phases p).stage, node.verdict with
        | .sending data own, some valid =>
            some { s.phases p with
              stage := .finished data
                (waitFor σ.ecdsaVerify (σ.hashes data) (.distribute (some own) valid)) }
        | .checking data m, some valid =>
            some { s.phases p with
              stage := .finished data
                (waitFor σ.ecdsaVerify (σ.hashes data) (.receive m.value valid)) }
        | .sending _ _, none => some { s.phases p with stage := .panicked }
        | .checking _ _, none => some { s.phases p with stage := .panicked }
        | _, _ => none
  | .cancelled reason =>
      match (s.phases p).stage with
      | .distributing data _ =>
          if p = σ.setup.origin then none
          else
            some { s.phases p with
              stage := .finished data
                (waitFor σ.ecdsaVerify (σ.hashes data) (.cancelled reason)) }
      | _ => none

/-! ## What a step after the consensus does -/

variable {σ : SigningProtocol D T} {s s' : SessionWorld D T} {p : Address}
  {action : SessionAction D T} {next : Phases T}

/-- The steps after the consensus. -/
inductive Phased (σ : SigningProtocol D T) (s : SessionWorld D T) (p : Address) :
    SessionAction D T → Phases T → Prop
  | stops {action : SessionAction D T} {stage : Stage T}
      (quiet : stage = .stopped ∨ stage = .panicked) :
      Phased σ s p action { s.phases p with stage := stage }
  | agrees {updated : Bool} {result : ConsensusResult T} {data : T}
      {stage : Stage T} (ended : (s.consensus p).pc = .ended result) (agreed : result.Agreed data)
      (goes : stage = .signing data ∨ stage = .distributing data none) :
      Phased σ s p (.proceeds updated) { s.phases p with stage := stage }
  | signs {data : T} {own : Signatures} (was : (s.phases p).stage = .signing data) :
      Phased σ s p (.signed (some own)) { s.phases p with stage := .distributing data (some own) }
  | distributes {data : T} {own : Signatures} {net : Net Signatures}
      (was : (s.phases p).stage = .distributing data (some own))
      (taken : σ.setup.step s.distributions (.broadcast p (some own)) = some net) :
      Phased σ s p .distributes ⟨net p, .sending data own⟩
  | checks {request : SubmitRequest D} {data : T} {own : Option Signatures}
      {m : RoundMessage Signatures} {net : Net Signatures}
      (was : (s.phases p).stage = .distributing data own)
      (taken : σ.setup.step s.distributions (.ensureValid p ⟨m, σ.setup.origin⟩) = some net) :
      Phased σ s p (.receives request) ⟨net p, .checking data m⟩
  | takes {msg : ReliableBroadcastMsg Signatures} {node : Node Signatures}
      (present : (s.phases p).distribution = some node) (inCall : (s.phases p).stage.inCall = true)
      (arrives : σ.setup.Arrives s.distributions p node msg) :
      Phased σ s p (.takes msg)
        { s.phases p with distribution := some (σ.setup.takeMsg node msg) }
  | sent {data : T} {own : Signatures} {valid : Bool}
      (was : (s.phases p).stage = .sending data own) :
      Phased σ s p .returns
        { s.phases p with
          stage := .finished data
            (waitFor σ.ecdsaVerify (σ.hashes data) (.distribute (some own) valid)) }
  | checked {data : T} {m : RoundMessage Signatures} {node : Node Signatures} {valid : Bool}
      (present : (s.phases p).distribution = some node)
      (was : (s.phases p).stage = .checking data m) (verdict : node.verdict = some valid) :
      Phased σ s p .returns
        { s.phases p with
          stage := .finished data
            (waitFor σ.ecdsaVerify (σ.hashes data) (.receive m.value valid)) }
  | fails {action : SessionAction D T} {data : T} {own : Option Signatures}
      {distribution : Party.Distribution} (was : (s.phases p).stage = .distributing data own)
      (failed : ∀ signatures, waitFor σ.ecdsaVerify (σ.hashes data) distribution ≠ .ok signatures) :
      Phased σ s p action
        { s.phases p with
          stage := .finished data (waitFor σ.ecdsaVerify (σ.hashes data) distribution) }

theorem phased_of_phase (h : σ.phase s p action = some next) : σ.Phased s p action next := by
  cases action with
  | consensus action => cases h
  | proceeds updated =>
      simp only [phase] at h
      split at h
      · rename_i result hstage hpc
        cases h
        rcases proceed_cases updated result with hstops | ⟨data, hagreed, hgoes⟩
        · exact .stops (.inl hstops)
        · exact .agrees hpc hagreed hgoes
      · cases h
  | signed signatures =>
      simp only [phase] at h
      split at h
      · cases h
        exact .stops (.inl rfl)
      · rename_i data own was
        cases h
        exact .signs was
      · cases h
  | distributes =>
      simp only [phase] at h
      split at h
      · rename_i data was
        split at h
        · cases h
          exact .fails was fun signatures hok => by cases hok
        · cases h
      · rename_i data own was
        obtain ⟨net, hnet, rfl⟩ := Option.map_eq_some_iff.mp h
        exact .distributes was hnet
      · cases h
  | receives request =>
      simp only [phase] at h
      split at h
      · rename_i data own msg was hreceived
        obtain ⟨net, hnet, rfl⟩ := Option.map_eq_some_iff.mp h
        obtain ⟨m, sender⟩ := msg
        cases receive_initSig hreceived
        exact .checks was hnet
      · cases h
  | takes msg =>
      obtain ⟨node, hnode, h⟩ := Option.bind_eq_some_iff.mp h
      split at h
      · rename_i hguard
        cases h
        exact .takes hnode hguard.1 hguard.2
      · cases h
  | returns =>
      obtain ⟨node, hnode, h⟩ := Option.bind_eq_some_iff.mp h
      split at h
      · rename_i data own valid was hverdict
        cases h
        exact .sent was
      · rename_i data m valid was hverdict
        cases h
        exact .checked hnode was hverdict
      · cases h
        exact .stops (.inr rfl)
      · cases h
        exact .stops (.inr rfl)
      · cases h
  | cancelled reason =>
      simp only [phase] at h
      split at h
      · rename_i data own was
        split at h
        · cases h
        · cases h
          exact .fails was fun signatures hok => by cases hok
      · cases h

/-! ## The session -/

variable [HasHashString T] [HasHashString SignStartData] [DecidableEq T]

def step (σ : SigningProtocol D T) (s : SessionWorld D T) :
    Address × SessionAction D T → Option (SessionWorld D T)
  | (p, .consensus action) =>
      (σ.move s.consensus p action).map fun next =>
        { s with consensus := Function.update s.consensus p next }
  | (p, action) =>
      (σ.phase s p action).map fun next => { s with phases := Function.update s.phases p next }

def machine (σ : SigningProtocol D T) :
    Machine (SessionWorld D T) (Address × SessionAction D T) where
  init := fun s => s = ⟨σ.initial, fun _ => {}⟩
  step := σ.step

/-- Honest signatures were made in the broadcast in which they are shown. -/
def Unforged (σ : SigningProtocol D T) (s : SessionWorld D T) : Address × SessionAction D T → Prop
  | (p, .consensus action) => σ.toProtocol.Unforged s.consensus (p, action)
  | (_, .takes msg) => σ.setup.Unforged s.distributions msg.msg
  | _ => True

instance (σ : SigningProtocol D T) (s : SessionWorld D T) (label : Address × SessionAction D T) :
    Decidable (σ.Unforged s label) :=
  match label with
  | (p, .consensus action) => inferInstanceAs (Decidable (σ.toProtocol.Unforged _ (p, action)))
  | (_, .takes msg) => inferInstanceAs (Decidable (σ.setup.Unforged s.distributions msg.msg))
  | (_, .proceeds _) | (_, .signed _) | (_, .distributes) | (_, .receives _) | (_, .returns)
  | (_, .cancelled _) => isTrue trivial

/-- A step is one of the consensus or one after it. -/
theorem step_cases {label : Address × SessionAction D T} (h : σ.machine.step s label = some s') :
    (∃ action next, label.2 = .consensus action ∧
      σ.move s.consensus label.1 action = some next ∧
      s' = { s with consensus := Function.update s.consensus label.1 next }) ∨
    ∃ next, σ.Phased s label.1 label.2 next ∧
      s' = { s with phases := Function.update s.phases label.1 next } := by
  obtain ⟨p, action⟩ := label
  cases action with
  | consensus action =>
      obtain ⟨next, hnext, rfl⟩ := Option.map_eq_some_iff.mp h
      exact .inl ⟨action, next, rfl, hnext, rfl⟩
  | _ =>
      obtain ⟨next, hnext, rfl⟩ := Option.map_eq_some_iff.mp h
      exact .inr ⟨next, phased_of_phase hnext, rfl⟩

/-! ## The parts run as their own machines -/

theorem consensus_reachable (reached : σ.machine.Reachable σ.Unforged s) :
    σ.toProtocol.machine.Reachable σ.toProtocol.Unforged s.consensus := by
  refine reached.image (fun s start => ?_) fun s label s' meets taken => ?_
  · cases start
    rfl
  · obtain ⟨p, act⟩ := label
    rcases step_cases taken with ⟨action, next, rfl, hnext, rfl⟩ | ⟨next, -, rfl⟩
    · refine .inr ⟨(p, action), meets, ?_⟩
      exact Option.map_eq_some_iff.mpr ⟨next, hnext, rfl⟩
    · exact .inl rfl

omit [HasHashString T] [HasHashString SignStartData] [HasHashString Signatures] [DecidableEq T] in
theorem distributions_update (s : SessionWorld D T) (p : Address) (next : Phases T) :
    SessionWorld.distributions { s with phases := Function.update s.phases p next } =
      Function.update s.distributions p next.distribution := by
  funext q
  by_cases hq : q = p
  · subst hq
    simp [SessionWorld.distributions]
  · simp [SessionWorld.distributions, hq]

omit [DecidableEq T] in
theorem Phased.distributions (h : σ.Phased s p action next) (unforged : σ.Unforged s (p, action)) :
    next.distribution = s.distributions p ∨ ∃ label,
      σ.setup.step s.distributions label =
        some (Function.update s.distributions p next.distribution) := by
  cases h with
  | distributes _ taken => exact .inr ⟨_, (Setup.step_broadcast taken).2.2 ▸ taken⟩
  | checks _ taken => exact .inr ⟨_, (Setup.step_ensureValid taken).2.2 ▸ taken⟩
  | takes present _ arrives => exact .inr ⟨_, Setup.step_take present arrives unforged⟩
  | _ => exact .inl rfl

theorem distributions_reachable (reached : σ.machine.Reachable σ.Unforged s) :
    (σ.setup.machine Signatures).Reaches s.distributions := by
  refine reached.image (fun s start => ?_) fun s label s' meets taken => ?_
  · cases start
    rfl
  · obtain ⟨p, act⟩ := label
    rcases step_cases taken with ⟨action, next, rfl, hnext, rfl⟩ | ⟨next, hphased, rfl⟩
    · exact .inl rfl
    · rcases hphased.distributions meets with hsame | ⟨label', hlabel⟩
      · refine .inl ((distributions_update s p next).trans ?_)
        rw [hsame]
        exact Function.update_eq_self p s.distributions
      · rw [distributions_update]
        exact .inr ⟨label', trivial, hlabel⟩

/-! ## The invariant -/

section Invariant

/-- The consensus of the party ended on the data. -/
def Ended (s : SessionWorld D T) (p : Address) (data : T) : Prop :=
  ∃ result, (s.consensus p).pc = .ended result ∧ result.Agreed data

/-- The leader has distributed these signatures, or a receiver was given them by a broadcast that
it found valid. -/
def Given (σ : SigningProtocol D T) (p : Address) (distribution : Option (Node Signatures))
    (signatures : Signatures) : Prop :=
  p = σ.setup.origin ∧ Broadcasts distribution (some signatures) ∨
    p ≠ σ.setup.origin ∧ ∃ m, σ.setup.Checked distribution m ∧ m.value = some signatures

def StageOk (σ : SigningProtocol D T) (s : SessionWorld D T) (p : Address)
    (distribution : Option (Node Signatures)) : Stage T → Prop
  | .agreeing | .stopped | .panicked => True
  | .signing data | .distributing data _ => Ended s p data
  | .sending data own =>
      Ended s p data ∧ p = σ.setup.origin ∧ Broadcasts distribution (some own)
  | .checking data m => Ended s p data ∧ p ≠ σ.setup.origin ∧ σ.setup.Checks distribution m
  | .finished data returned => Ended s p data ∧ ∀ signatures, returned = .ok signatures →
      validateSignatures σ.ecdsaVerify (σ.hashes data) (some signatures) = .ok signatures ∧
        σ.Given p distribution signatures

def Ok (σ : SigningProtocol D T) (s : SessionWorld D T) (p : Address) : Prop :=
  σ.StageOk s p (s.phases p).distribution (s.phases p).stage

omit [HasHashString T] [HasHashString SignStartData] [HasHashString Signatures] [DecidableEq T]

theorem validateSignatures_value {ecdsaVerify : Bytes → Nat → Nat → Bool} {hashes : List Bytes}
    {value : Option Signatures} {signatures : Signatures}
    (h : validateSignatures ecdsaVerify hashes value = .ok signatures) :
    value = some signatures := by
  simp only [validateSignatures, Outcome.bind_eq_ok, Outcome.ofOption_eq_ok, Outcome.check_eq_ok,
    Outcome.pure_eq_ok, Outcome.ok.injEq] at h
  obtain ⟨_, hvalue, _, -, _, -, rfl⟩ := h
  exact hvalue

theorem waitFor_distribute {ecdsaVerify : Bytes → Nat → Nat → Bool} {hashes : List Bytes}
    {own signatures : Signatures} {valid : Bool}
    (h : waitFor ecdsaVerify hashes (.distribute (some own) valid) = .ok signatures) :
    own = signatures ∧
      validateSignatures ecdsaVerify hashes (some signatures) = .ok signatures := by
  simp only [waitFor, Outcome.bind_eq_ok, Outcome.ofOption_eq_ok, Outcome.wrap_eq_ok] at h
  obtain ⟨_, hown, _, -, hvalid⟩ := h
  cases hown
  cases validateSignatures_value hvalid
  exact ⟨rfl, hvalid⟩

theorem waitFor_receive {ecdsaVerify : Bytes → Nat → Nat → Bool} {hashes : List Bytes}
    {value : Option Signatures} {signatures : Signatures} {valid : Bool}
    (h : waitFor ecdsaVerify hashes (.receive value valid) = .ok signatures) :
    valid = true ∧ value = some signatures ∧
      validateSignatures ecdsaVerify hashes (some signatures) = .ok signatures := by
  simp only [waitFor, Outcome.bind_eq_ok, Outcome.check_eq_ok, Outcome.wrap_eq_ok] at h
  obtain ⟨_, hensured, hvalid⟩ := h
  cases validateSignatures_value hvalid
  exact ⟨hensured, rfl, hvalid⟩

/-- The invariant of a party depends on its own consensus only. -/
theorem StageOk.congr {distribution : Option (Node Signatures)} {stage : Stage T}
    (same : (s'.consensus p).pc = (s.consensus p).pc) (h : σ.StageOk s p distribution stage) :
    σ.StageOk s' p distribution stage := by
  have hended : ∀ data, Ended s p data → Ended s' p data := by
    rintro data ⟨result, hpc, hagreed⟩
    exact ⟨result, same.trans hpc, hagreed⟩
  cases stage with
  | agreeing | stopped | panicked => trivial
  | signing data | distributing data own => exact hended data h
  | sending data own => exact ⟨hended data h.1, h.2⟩
  | checking data m => exact ⟨hended data h.1, h.2⟩
  | finished data returned => exact ⟨hended data h.1, h.2⟩

variable [HasHashString T] [HasHashString SignStartData] [HasHashString Signatures] [DecidableEq T]

omit [HasHashString Signatures] in
/-- A consensus that has ended takes no step. -/
theorem move_ended {π : Protocol D T} {w : World D T} {result : ConsensusResult T}
    (ended : (w p).pc = .ended result) (action : Action D T) : π.move w p action = none := by
  cases action with
  | form formed => simp [Protocol.move, ended]
  | takeProposal msg => cases h : (w p).proposal <;> simp [Protocol.move, ended, h, Pc.inProposal]
  | proposalReturns verify send => cases h : (w p).proposal <;> simp [Protocol.move, ended, h]
  | receive request =>
      simp only [Protocol.move]
      split
      · simp [Protocol.deliver, ended]
      · rfl
  | boundary walked rand => simp [Protocol.move, ended]
  | takeStart msg => cases h : (w p).start <;> simp [Protocol.move, ended, h, Pc.inStart]
  | startReturns => cases h : (w p).start <;> simp [Protocol.move, ended, h]
  | cancelled err => simp [Protocol.move, ended, cancel]

omit [HasHashString Signatures] in
/-- While the party is still in the consensus nothing is claimed of its later phases. -/
theorem StageOk.consensus_moved {next : Member D T} {act : Action D T}
    {distribution : Option (Node Signatures)} {stage : Stage T}
    (moved : σ.move s.consensus p act = some next) (h : σ.StageOk s p distribution stage) :
    σ.StageOk s' p distribution stage := by
  have hnever : ∀ data, ¬Ended s p data := by
    rintro data ⟨result, hpc, -⟩
    rw [move_ended hpc] at moved
    cases moved
  cases stage with
  | agreeing | stopped | panicked => trivial
  | signing data | distributing data own => exact absurd h (hnever data)
  | sending data own | checking data m | finished data returned => exact absurd h.1 (hnever data)

omit [HasHashString T] [HasHashString SignStartData] [DecidableEq T] in
theorem Ok.phased (ok : σ.Ok s p) (h : σ.Phased s p action next) :
    σ.StageOk s p next.distribution next.stage := by
  unfold Ok at ok
  cases h with
  | stops quiet => rcases quiet with rfl | rfl <;> trivial
  | agrees ended agreed goes => rcases goes with rfl | rfl <;> exact ⟨_, ended, agreed⟩
  | signs was =>
      rw [was] at ok
      exact ok
  | distributes was taken =>
      rw [was] at ok
      obtain ⟨⟨horigin, -⟩, hentered, -⟩ := Setup.step_broadcast taken
      exact ⟨ok, horigin, hentered ▸ Setup.broadcasts_enterBroadcast _ _⟩
  | checks was taken =>
      rw [was] at ok
      obtain ⟨hother, hentered, -⟩ := Setup.step_ensureValid taken
      exact ⟨ok, hother, _, hentered, rfl⟩
  | takes present inCall arrives =>
      cases hstage : (s.phases p).stage with
      | sending data own =>
          rw [hstage] at ok
          exact ⟨ok.1, ok.2.1, Setup.broadcasts_takeMsg ok.2.2 present⟩
      | checking data m =>
          rw [hstage] at ok
          exact ⟨ok.1, ok.2.1, ok.2.2.takeMsg present⟩
      | _ =>
          rw [hstage] at inCall
          cases inCall
  | sent was =>
      rw [was] at ok
      refine ⟨ok.1, fun signatures hok => ?_⟩
      obtain ⟨rfl, hvalid⟩ := waitFor_distribute hok
      exact ⟨hvalid, .inl ok.2⟩
  | checked present was verdict =>
      rw [was] at ok
      refine ⟨ok.1, fun signatures hok => ?_⟩
      obtain ⟨rfl, hvalue, hvalid⟩ := waitFor_receive hok
      exact ⟨hvalid, .inr ⟨ok.2.1, _, ok.2.2.checked present verdict, hvalue⟩⟩
  | fails was failed =>
      rw [was] at ok
      exact ⟨ok, fun signatures hok => absurd hok (failed signatures)⟩

theorem ok_of_reachable {allowed : SessionWorld D T → Address × SessionAction D T → Prop}
    (reached : σ.machine.Reachable allowed s) (q : Address) : σ.Ok s q := by
  induction reached with
  | init start =>
      cases start
      trivial
  | step before meets taken ih =>
      rename_i s s' label
      obtain ⟨p, act⟩ := label
      rcases step_cases taken with ⟨action, next, rfl, hnext, rfl⟩ | ⟨next, hphased, rfl⟩
      · by_cases hq : q = p
        · subst hq
          exact ih.consensus_moved hnext
        · exact ih.congr (by simp [hq])
      · by_cases hq : q = p
        · subst hq
          unfold Ok
          simp only [Function.update_self]
          exact (ih.phased hphased).congr rfl
        · unfold Ok at ih ⊢
          simp only [Function.update_of_ne hq]
          exact ih.congr rfl

end Invariant

end SigningProtocol

end TssSvc.Session
