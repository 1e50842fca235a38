import TssSvc.Broadcast.Calls
import TssSvc.Session.Acceptor

/-!
# The consensus of a session among all parties

`propose` and `accept` of `internal/tss/session/consensus` at every honest party, with the two
reliable broadcasts inside them.  A step is one party's: a call returns, a message is taken from a
channel, a boundary passes.  Messages of malicious parties are the labels' choice, but an honest
sender is authenticated.

`Unforged` is the condition on a run: a signature that verifies for an honest signer was made by it
in the broadcast in which it is shown.  It excludes forged signatures and those of the other
broadcast, which signs under the same session id.  In such a run each of the two broadcasts is a run
of `Setup.machine`.
-/

set_option autoImplicit false

namespace TssSvc.Session

open TssSvc.Broadcast

/-! ## The state -/

/-- Where a party is: the proposer in `propose`, the others in `accept`.  An acceptor has accepted
a proposal when `handled.sigData` is set. -/
inductive Pc (D T : Type) where
  | idle
  | proposing (data : Option T)
  | collecting (data : T) (msgs : List (ConsensusMsg D))
  | starting (result : ConsensusResult T)
  | accepting (handled : Handled Empty T)
  | checkingProposal (data : D)
  | checkingStart (handled : Handled Empty T) (data : D)
  | ended (result : ConsensusResult T)
  | panicked

/-- One honest party.  `handled` is what `handleProposalMsg` left behind. -/
structure Member (D T : Type) where
  proposal : Option (Node T) := none
  start : Option (Node SignStartData) := none
  pc : Pc D T
  handled : Option (Handled Empty T) := none

abbrev World (D T : Type) := Address → Member D T

/-- One session: the group and the keys of its broadcasts, whose origin is the proposer, and the
other parties as each party has configured them. -/
structure Protocol (D T : Type) where
  setup : Setup
  decoders : Decoders D T
  parties : Address → List Party

inductive Action (D T : Type) where
  | form (formed : Fallible (Option T))
  | takeProposal (msg : ReliableBroadcastMsg T)
  | proposalReturns (verify : T → Fallible Unit) (send : Except GoString Unit)
  | receive (request : SubmitRequest D)
  | boundary (walked : Acceptances) (rand : Nat → UInt64)
  | takeStart (msg : ReliableBroadcastMsg SignStartData)
  | startReturns
  | cancelled (err : GoError Empty)

variable {D T : Type}

def World.proposals (w : World D T) : Net T := fun p => (w p).proposal

def World.starts (w : World D T) : Net SignStartData := fun p => (w p).start

/-- The party `a` has sent its answer to the proposal. -/
def World.Answered (w : World D T) (a : Address) (accepted : Bool) : Prop :=
  (w a).handled.bind Handled.acceptance = some accepted

instance (w : World D T) (a : Address) (accepted : Bool) : Decidable (w.Answered a accepted) :=
  inferInstanceAs (Decidable (_ = _))

namespace Pc

def inProposal : Pc D T → Bool
  | proposing _ | checkingProposal _ => true
  | _ => false

def inStart : Pc D T → Bool
  | starting _ | checkingStart _ _ => true
  | _ => false

end Pc

/-! ## One step -/

/-- `propose` when the broadcast of the proposal has returned. -/
def proposed : Option T → Option Bool → Pc D T
  | _, none => .panicked
  | _, some false => .ended { err := some (.new "proposal data broadcast failure") }
  -- nothing to sign for this session
  | none, some true => .ended {}
  | some data, some true => .collecting data []

/-- `accept` when `handleProposalMsg` has returned. -/
def answered (returned : Fallible Unit) (handled : Handled Empty T) : Pc D T :=
  match returned with
  | .panic _ => .panicked
  | .err e => .ended { err := some (e.wrap (str "failed to handle proposal message")) }
  | .ok _ =>
      if handled.sigData.isSome then .accepting handled else .ended { err := handled.err }

/-- `accept` when `handleSignStartMsg` has returned. -/
def started (handled : Handled Empty T) : Option (Fallible (Option (List Party))) → Pc D T
  | none => .panicked
  | some (.panic _) => .panicked
  | some (.ok signers) =>
      .ended { sigData := handled.sigData, signers := signers, err := handled.err }
  | some (.err e) =>
      .ended
        { sigData := handled.sigData
          err := some (e.wrap (str "failed to handle sign start message")) }

/-- `propose` when the broadcast of the sign-start message has returned. -/
def announced (result : ConsensusResult T) : Option Bool → Pc D T
  | none => .panicked
  | some true => .ended result
  | some false => .ended { result with err := some (.new "sign start message broadcast failure") }

def cancel (err : GoError Empty) : Pc D T → Option (Pc D T)
  | .collecting data _ => some (.ended { sigData := some data, err := some err })
  | .accepting handled => some (.ended { sigData := handled.sigData, err := some err })
  | _ => none

/-- The round message a request carries. -/
def roundMessage {V : Type} (d : Decoders D T) (decode : Bytes → Fallible (RoundMessage V))
    (data : D) : Option (RoundMessage V) :=
  match d.broadcastData data with
  | .ok raw =>
      match decode raw with
      | .ok m => some m
      | _ => none
  | _ => none

theorem roundMessage_eq_some {V : Type} {d : Decoders D T}
    {decode : Bytes → Fallible (RoundMessage V)} {data : D} {m : RoundMessage V} :
    roundMessage d decode data = some m ↔ ∃ raw, d.broadcastData data = .ok raw ∧
      decode raw = .ok m := by
  unfold roundMessage
  cases hraw : d.broadcastData data with
  | ok raw => cases hm : decode raw <;> simp [hm]
  | err _ => simp
  | panic _ => simp

namespace Protocol

def consensus (π : Protocol D T) (p : Address) : Consensus :=
  ⟨π.parties p, p, π.setup.origin, π.setup.sessionId, π.setup.threshold⟩

/-- The choice of signers after the messages taken so far. -/
def select (π : Protocol D T) (p : Address) (data : T) (msgs : List (ConsensusMsg D))
    (walked : Acceptances) (rand : Nat → UInt64) : Option (ConsensusResult T) :=
  (π.consensus p).selectSigners π.decoders
    ⟨.ok (some data), true, none, msgs, fun _ => walked, rand, true⟩ data

/-- An acceptance in the name of an honest party is its answer. -/
def Genuine (π : Protocol D T) (w : World D T) (msg : ConsensusMsg D) : Prop :=
  π.setup.honest msg.sender = true → msg.type = .acceptance →
    ∀ accepted, π.decoders.acceptanceData msg.data = .ok accepted →
      w.Answered msg.sender accepted

instance (π : Protocol D T) (w : World D T) (msg : ConsensusMsg D) : Decidable (π.Genuine w msg) :=
  inferInstanceAs (Decidable (_ → _ → ∀ _ : Bool, _ → _))

variable [HasHashString T] [HasHashString SignStartData] [DecidableEq T]

/-- A message taken from `msgs`.  `Receive` has let only members through, and the round messages
in it are of round 0. -/
def deliver (π : Protocol D T) (w : World D T) (p : Address) (msg : ConsensusMsg D) :
    Option (Member D T) :=
  match (w p).pc with
  | .collecting data msgs =>
      if π.Genuine w msg then some { w p with pc := .collecting data (msgs ++ [msg]) } else none
  | .accepting handled =>
      if msg.sender ≠ π.setup.origin then some (w p)
      else
        match msg.type with
        | .proposal =>
            if handled.sigData.isSome then some (w p)
            else
              (roundMessage π.decoders π.decoders.proposal msg.data).bind fun m =>
                (π.setup.step w.proposals (.ensureValid p ⟨m, msg.sender⟩)).map fun net =>
                  { w p with pc := .checkingProposal msg.data, proposal := net p }
        | .signStart =>
            if handled.sigData.isNone then some (w p)
            else
              (roundMessage π.decoders π.decoders.signStart msg.data).bind fun m =>
                (π.setup.step w.starts (.ensureValid p ⟨m, msg.sender⟩)).map fun net =>
                  { w p with pc := .checkingStart handled msg.data, start := net p }
        | _ => some (w p)
  | _ => none

/-- The next state of the party `p`. -/
def move (π : Protocol D T) (w : World D T) (p : Address) : Action D T → Option (Member D T)
  | .form formed =>
      match (w p).pc, formed with
      | .idle, .panic _ => some { w p with pc := .panicked }
      | .idle, .err e =>
          some { w p with
            pc := .ended { err := some (e.wrap (str "failed to form proposal data")) } }
      | .idle, .ok data =>
          (π.setup.step w.proposals (.broadcast p data)).map fun net =>
            { w p with pc := .proposing data, proposal := net p }
      | _, _ => none
  | .takeProposal msg =>
      (w p).proposal.bind fun node =>
        if (w p).pc.inProposal ∧ π.setup.Arrives w.proposals p node msg then
          some { w p with proposal := some (π.setup.takeMsg node msg) }
        else none
  | .proposalReturns verify send =>
      (w p).proposal.bind fun node =>
        match (w p).pc with
        | .proposing data => some { w p with pc := proposed data node.verdict }
        | .checkingProposal data =>
            match node.verdict with
            | none => some { w p with pc := .panicked }
            | some valid =>
                let result := handleProposalMsg π.decoders verify send data valid
                some { w p with pc := answered result.1 result.2, handled := some result.2 }
        | _ => none
  | .receive request =>
      match (π.consensus p).receive π.decoders (some request) with
      | .ok (.msgs msg) => π.deliver w p msg
      | _ => none
  | .boundary walked rand =>
      match (w p).pc with
      | .collecting data msgs =>
          if walked.Perm (msgs.foldl (collect π.decoders) []) then
            match π.select p data msgs walked rand with
            | none => some { w p with pc := .panicked }
            | some result =>
                if result.signStart.isNone then some { w p with pc := .ended result }
                else
                  (π.setup.step w.starts (.broadcast p result.signStart)).map fun net =>
                    { w p with pc := .starting result, start := net p }
          else none
      | _ => none
  | .takeStart msg =>
      (w p).start.bind fun node =>
        if (w p).pc.inStart ∧ π.setup.Arrives w.starts p node msg then
          some { w p with start := some (π.setup.takeMsg node msg) }
        else none
  | .startReturns =>
      (w p).start.bind fun node =>
        match (w p).pc with
        | .starting result => some { w p with pc := announced result node.verdict }
        | .checkingStart handled data =>
            match node.verdict with
            | none => some { w p with pc := .panicked }
            | some valid =>
                some { w p with
                  pc := started handled ((π.consensus p).handleSignStartMsg π.decoders data valid) }
        | _ => none
  | .cancelled err => (cancel err (w p).pc).map fun pc => { w p with pc := pc }

def initial (π : Protocol D T) : World D T := fun p =>
  { pc := if p = π.setup.origin then .idle else .accepting {} }

def machine (π : Protocol D T) : Machine (World D T) (Address × Action D T) where
  init := fun w => w = π.initial
  step := fun w label => (π.move w label.1 label.2).map (Function.update w label.1)

/-- Honest signatures were made in the broadcast in which they are shown. -/
def Unforged (π : Protocol D T) (w : World D T) : Address × Action D T → Prop
  | (_, .takeProposal msg) => π.setup.Unforged w.proposals msg.msg
  | (_, .takeStart msg) => π.setup.Unforged w.starts msg.msg
  | _ => True

instance (π : Protocol D T) (w : World D T) (label : Address × Action D T) :
    Decidable (π.Unforged w label) :=
  match label with
  | (_, .takeProposal msg) => inferInstanceAs (Decidable (π.setup.Unforged w.proposals msg.msg))
  | (_, .takeStart msg) => inferInstanceAs (Decidable (π.setup.Unforged w.starts msg.msg))
  | (_, .form _) | (_, .proposalReturns _ _) | (_, .receive _) | (_, .boundary _ _)
  | (_, .startReturns) | (_, .cancelled _) => isTrue trivial

/-! ## What a step does -/

end Protocol

/-- The session goes on with the data: the consensus ended on them without an error. -/
def ConsensusResult.Agreed (result : ConsensusResult T) (data : T) : Prop :=
  result.err = none ∧ result.sigData = some data

/-- The call has panicked or the session does not go on. -/
def Pc.Quiet : Pc D T → Prop
  | .panicked => True
  | .ended result => ∀ data, ¬result.Agreed data
  | _ => False

theorem quiet_of_err {result : ConsensusResult T} (h : result.err ≠ none) :
    (Pc.ended result : Pc D T).Quiet :=
  fun _ agreed => h agreed.1

theorem Consensus.selectSigners_err {c : Consensus} {d : Decoders D T} {run : ProposerRun D T}
    {data : T} {result : ConsensusResult T} (h : c.selectSigners d run data = some result)
    (unset : result.signStart = none) : result.err ≠ none := by
  simp only [selectSigners] at h
  split at h
  · cases h
    simp
  · obtain ⟨signers, -, rfl⟩ := Option.map_eq_some_iff.mp h
    cases unset

namespace Protocol

variable [HasHashString T] [HasHashString SignStartData] [DecidableEq T]
  {π : Protocol D T} {w : World D T} {p : Address} {action : Action D T} {next : Member D T}

/-- The steps of one party.  The ways to give up are one case. -/
inductive Moved (π : Protocol D T) (w : World D T) (p : Address) :
    Action D T → Member D T → Prop
  | stops {action : Action D T} {pc : Pc D T} (quiet : pc.Quiet) :
      Moved π w p action { w p with pc := pc }
  | ignores {action : Action D T} : Moved π w p action (w p)
  | proposes {data : Option T} {net : Net T}
      (taken : π.setup.step w.proposals (.broadcast p data) = some net) :
      Moved π w p (.form (.ok data)) { w p with pc := .proposing data, proposal := net p }
  | takesProposal {msg : ReliableBroadcastMsg T} {node : Node T}
      (present : (w p).proposal = some node) (inCall : (w p).pc.inProposal = true)
      (arrives : π.setup.Arrives w.proposals p node msg) :
      Moved π w p (.takeProposal msg) { w p with proposal := some (π.setup.takeMsg node msg) }
  | collects {action : Action D T} {data : T} (was : (w p).pc = .proposing (some data)) :
      Moved π w p action { w p with pc := .collecting data [] }
  | handles {verify : T → Fallible Unit} {send : Except GoString Unit} {data : D} {node : Node T}
      {valid : Bool} (present : (w p).proposal = some node)
      (was : (w p).pc = .checkingProposal data) (verdict : node.verdict = some valid) :
      Moved π w p (.proposalReturns verify send)
        { w p with
          pc := answered (handleProposalMsg π.decoders verify send data valid).1
            (handleProposalMsg π.decoders verify send data valid).2
          handled := some (handleProposalMsg π.decoders verify send data valid).2 }
  | hears {request : SubmitRequest D} {msg : ConsensusMsg D} {data : T}
      {msgs : List (ConsensusMsg D)}
      (received : (π.consensus p).receive π.decoders (some request) = .ok (.msgs msg))
      (was : (w p).pc = .collecting data msgs) (genuine : π.Genuine w msg) :
      Moved π w p (.receive request) { w p with pc := .collecting data (msgs ++ [msg]) }
  | checksProposal {request : SubmitRequest D} {data : D} {handled : Handled Empty T}
      {m : RoundMessage T} {net : Net T} (was : (w p).pc = .accepting handled)
      (unset : handled.sigData = none)
      (decoded : roundMessage π.decoders π.decoders.proposal data = some m)
      (taken : π.setup.step w.proposals (.ensureValid p ⟨m, π.setup.origin⟩) = some net) :
      Moved π w p (.receive request) { w p with pc := .checkingProposal data, proposal := net p }
  | checksStart {request : SubmitRequest D} {data : D} {handled : Handled Empty T}
      {m : RoundMessage SignStartData} {net : Net SignStartData}
      (was : (w p).pc = .accepting handled) (set : handled.sigData ≠ none)
      (decoded : roundMessage π.decoders π.decoders.signStart data = some m)
      (taken : π.setup.step w.starts (.ensureValid p ⟨m, π.setup.origin⟩) = some net) :
      Moved π w p (.receive request) { w p with pc := .checkingStart handled data, start := net p }
  | selects {walked : Acceptances} {rand : Nat → UInt64} {data : T} {msgs : List (ConsensusMsg D)}
      {result : ConsensusResult T} {net : Net SignStartData}
      (was : (w p).pc = .collecting data msgs)
      (walk : walked.Perm (msgs.foldl (collect π.decoders) []))
      (selected : π.select p data msgs walked rand = some result) (set : result.signStart ≠ none)
      (taken : π.setup.step w.starts (.broadcast p result.signStart) = some net) :
      Moved π w p (.boundary walked rand) { w p with pc := .starting result, start := net p }
  | takesStart {msg : ReliableBroadcastMsg SignStartData} {node : Node SignStartData}
      (present : (w p).start = some node) (inCall : (w p).pc.inStart = true)
      (arrives : π.setup.Arrives w.starts p node msg) :
      Moved π w p (.takeStart msg) { w p with start := some (π.setup.takeMsg node msg) }
  | announces {action : Action D T} {result : ConsensusResult T} {err : Option (GoError Empty)}
      (was : (w p).pc = .starting result) :
      Moved π w p action { w p with pc := .ended { result with err := err } }
  | handlesStart {handled : Handled Empty T} {data : D} {node : Node SignStartData} {valid : Bool}
      (present : (w p).start = some node) (was : (w p).pc = .checkingStart handled data)
      (verdict : node.verdict = some valid) :
      Moved π w p .startReturns
        { w p with
          pc := started handled ((π.consensus p).handleSignStartMsg π.decoders data valid) }

theorem moved_deliver {msg : ConsensusMsg D} {request : SubmitRequest D}
    (received : (π.consensus p).receive π.decoders (some request) = .ok (.msgs msg))
    (h : π.deliver w p msg = some next) : π.Moved w p (.receive request) next := by
  unfold deliver at h
  split at h
  · rename_i data msgs was
    split at h
    · rename_i genuine
      cases h
      exact .hears received was genuine
    · cases h
  · rename_i handled was
    split at h
    · cases h
      exact .ignores
    · rename_i hsender
      have hsender := not_not.mp hsender
      split at h
      · split at h
        · cases h
          exact .ignores
        · rename_i hset
          obtain ⟨m, hm, h⟩ := Option.bind_eq_some_iff.mp h
          obtain ⟨net, hnet, rfl⟩ := Option.map_eq_some_iff.mp h
          rw [hsender] at hnet
          exact .checksProposal was (by simpa using hset) hm hnet
      · split at h
        · cases h
          exact .ignores
        · rename_i hset
          obtain ⟨m, hm, h⟩ := Option.bind_eq_some_iff.mp h
          obtain ⟨net, hnet, rfl⟩ := Option.map_eq_some_iff.mp h
          rw [hsender] at hnet
          exact .checksStart was (by simpa using hset) hm hnet
      · cases h
        exact .ignores
  · cases h

theorem moved_of_move (h : π.move w p action = some next) : π.Moved w p action next := by
  cases action with
  | form formed =>
      simp only [move] at h
      split at h
      · cases h
        exact .stops trivial
      · cases h
        exact .stops (quiet_of_err (by simp))
      · obtain ⟨net, hnet, rfl⟩ := Option.map_eq_some_iff.mp h
        exact .proposes hnet
      · cases h
  | takeProposal msg =>
      obtain ⟨node, hnode, h⟩ := Option.bind_eq_some_iff.mp h
      split at h
      · rename_i hguard
        cases h
        exact .takesProposal hnode hguard.1 hguard.2
      · cases h
  | proposalReturns verify send =>
      obtain ⟨node, hnode, h⟩ := Option.bind_eq_some_iff.mp h
      split at h
      · rename_i data was
        cases h
        unfold proposed
        split
        · exact .stops trivial
        · exact .stops (quiet_of_err (by simp))
        · exact .stops fun data agreed => by cases agreed.2
        · exact .collects was
      · rename_i data was
        split at h
        · cases h
          exact .stops trivial
        · rename_i valid hverdict
          cases h
          exact .handles hnode was hverdict
      · cases h
  | receive request =>
      simp only [move] at h
      split at h
      · rename_i msg hmsg
        exact moved_deliver hmsg h
      · cases h
  | boundary walked rand =>
      simp only [move] at h
      split at h
      · rename_i data msgs was
        split at h
        · rename_i walk
          split at h
          · cases h
            exact .stops trivial
          · rename_i result hselect
            split at h
            · rename_i hnone
              cases h
              exact .stops
                (quiet_of_err (Consensus.selectSigners_err hselect (by simpa using hnone)))
            · rename_i hset
              obtain ⟨net, hnet, rfl⟩ := Option.map_eq_some_iff.mp h
              exact .selects was walk hselect (by simpa using hset) hnet
        · cases h
      · cases h
  | takeStart msg =>
      obtain ⟨node, hnode, h⟩ := Option.bind_eq_some_iff.mp h
      split at h
      · rename_i hguard
        cases h
        exact .takesStart hnode hguard.1 hguard.2
      · cases h
  | startReturns =>
      obtain ⟨node, hnode, h⟩ := Option.bind_eq_some_iff.mp h
      split at h
      · rename_i result was
        cases h
        unfold announced
        split
        · exact .stops trivial
        · exact .announces was
        · exact .announces was
      · rename_i handled data was
        split at h
        · cases h
          exact .stops trivial
        · rename_i valid hverdict
          cases h
          exact .handlesStart hnode was hverdict
      · cases h
  | cancelled err =>
      obtain ⟨pc, hpc, rfl⟩ := Option.map_eq_some_iff.mp h
      unfold cancel at hpc
      split at hpc
      · cases hpc
        exact .stops (quiet_of_err (by simp))
      · cases hpc
        exact .stops (quiet_of_err (by simp))
      · cases hpc

/-! ## The two broadcasts are runs of their machine -/

end Protocol

section Update

variable (w : World D T) (p : Address) (next : Member D T)

theorem World.proposals_update :
    World.proposals (Function.update w p next) = Function.update w.proposals p next.proposal := by
  funext q
  by_cases hq : q = p
  · subst hq
    simp [World.proposals]
  · simp [World.proposals, hq]

theorem World.starts_update :
    World.starts (Function.update w p next) = Function.update w.starts p next.start := by
  funext q
  by_cases hq : q = p
  · subst hq
    simp [World.starts]
  · simp [World.starts, hq]

variable {w p next}

theorem World.proposals_update_of_eq (same : next.proposal = (w p).proposal) :
    World.proposals (Function.update w p next) = w.proposals := by
  rw [World.proposals_update, same]
  exact Function.update_eq_self p w.proposals

theorem World.starts_update_of_eq (same : next.start = (w p).start) :
    World.starts (Function.update w p next) = w.starts := by
  rw [World.starts_update, same]
  exact Function.update_eq_self p w.starts

end Update

namespace Protocol

variable [HasHashString T] [HasHashString SignStartData] [DecidableEq T]
  {π : Protocol D T} {w : World D T} {p : Address} {action : Action D T} {next : Member D T}

theorem Moved.proposals (h : π.Moved w p action next) (unforged : π.Unforged w (p, action)) :
    next.proposal = (w p).proposal ∨ ∃ label,
      π.setup.step w.proposals label = some (Function.update w.proposals p next.proposal) := by
  cases h with
  | proposes taken => exact .inr ⟨_, (Setup.step_broadcast taken).2.2 ▸ taken⟩
  | checksProposal _ _ _ taken => exact .inr ⟨_, (Setup.step_ensureValid taken).2.2 ▸ taken⟩
  | takesProposal present _ arrives => exact .inr ⟨_, Setup.step_take present arrives unforged⟩
  | _ => exact .inl rfl

theorem Moved.starts (h : π.Moved w p action next) (unforged : π.Unforged w (p, action)) :
    next.start = (w p).start ∨ ∃ label,
      π.setup.step w.starts label = some (Function.update w.starts p next.start) := by
  cases h with
  | selects _ _ _ _ taken => exact .inr ⟨_, (Setup.step_broadcast taken).2.2 ▸ taken⟩
  | checksStart _ _ _ taken => exact .inr ⟨_, (Setup.step_ensureValid taken).2.2 ▸ taken⟩
  | takesStart present _ arrives => exact .inr ⟨_, Setup.step_take present arrives unforged⟩
  | _ => exact .inl rfl

theorem moved_of_step {w' : World D T} {label : Address × Action D T}
    (taken : π.machine.step w label = some w') :
    ∃ next, w' = Function.update w label.1 next ∧ π.Moved w label.1 label.2 next := by
  obtain ⟨next, hnext, rfl⟩ := Option.map_eq_some_iff.mp taken
  exact ⟨next, rfl, moved_of_move hnext⟩

theorem proposals_reachable (reached : π.machine.Reachable π.Unforged w) :
    (π.setup.machine T).Reaches w.proposals := by
  refine reached.image (fun s start => ?_) fun s label s' meets taken => ?_
  · cases start
    rfl
  · obtain ⟨next, rfl, moved⟩ := moved_of_step taken
    rcases moved.proposals meets with hsame | ⟨label', hlabel⟩
    · exact .inl (World.proposals_update_of_eq hsame)
    · rw [World.proposals_update]
      exact .inr ⟨label', trivial, hlabel⟩

theorem starts_reachable (reached : π.machine.Reachable π.Unforged w) :
    (π.setup.machine SignStartData).Reaches w.starts := by
  refine reached.image (fun s start => ?_) fun s label s' meets taken => ?_
  · cases start
    rfl
  · obtain ⟨next, rfl, moved⟩ := moved_of_step taken
    rcases moved.starts meets with hsame | ⟨label', hlabel⟩
    · exact .inl (World.starts_update_of_eq hsame)
    · rw [World.starts_update]
      exact .inr ⟨label', trivial, hlabel⟩

end Protocol

end TssSvc.Session
