import Mathlib.Logic.Function.Basic
import TssSvc.Lib.Machine
import TssSvc.Party.Writers

/-!
# Requests, locks and channels

`internal/p2p/session_manager.go` with the `Receive` methods and the control flow of the signing
sessions behind it.  `SessionManager.Receive` holds the manager's lock for reading until the
session has taken the request, the session holds its own for reading until the request is in its
channel, and a send into a full channel waits.  Finding the channel (`deliver`) and the send are two
steps: `isSignSession` and `ended` are read without a lock that their writers take.  `onIdChange`
needs the manager's lock for writing;
a session needs its own when it builds its components, and a UTXO session at three more places.

A writer that waits keeps new readers out.  A request that is refused before it gets to a channel,
whatever the session does, has no label.  A send into a closed channel panics: the server
recovers, the manager's lock is released by a deferred call and the session's is not.
-/

set_option autoImplicit false

namespace TssSvc.P2p

open TssSvc.Party (SessionKind)

/-! ## Channels -/

/-- The channels of a consensus: `msgs` and those of its two reliable broadcasters. -/
inductive Part where
  | msgs
  | proposal
  | signStart
  deriving DecidableEq, Repr

/-- A UTXO session has a second consensus, for consolidations. -/
inductive Chan where
  | consensus (consolidation : Bool) (part : Part)
  | sign
  | signatures
  | initSig
  deriving DecidableEq, Repr

def Chan.capacity : Chan → Nat
  | consensus _ .msgs => 100
  | consensus _ .proposal | consensus _ .signStart => 200
  | sign => 100
  | signatures => 200
  | initSig => 1

/-- The reliable broadcasts of a session. -/
inductive Relay where
  | proposal
  | signStart
  | signatures
  deriving DecidableEq, Repr

def Relay.chan (consolidation : Bool) : Relay → Chan
  | proposal => .consensus consolidation .proposal
  | signStart => .consensus consolidation .signStart
  | signatures => .signatures

/-! ## Sessions -/

/-- Where the goroutine of a session is. -/
inductive Pc where
  | waiting
  /-- UTXO: the lock for the new start time. -/
  | starting
  /-- UTXO: before `isSignSession` is stored. -/
  | choosing
  /-- The proposer forms its data. -/
  | forming
  /-- The receiving loop of `accept` or `propose`. -/
  | listening
  /-- `EnsureValid` before its own send. -/
  | injecting (relay : Relay)
  /-- `startRounds`. -/
  | relaying (relay : Relay)
  /-- UTXO: the lock of `updateNextSessionStartTime`. -/
  | updating
  | signing
  /-- The result is there and `SignParty.msgs` closed. -/
  | closing
  /-- The context was done first. -/
  | stopped
  | signed
  /-- UTXO: the lock for the next `SignParty`. -/
  | renewing
  | delaying
  /-- `SignaturesDistributor.receive` before the message of the distributor. -/
  | awaiting
  | finalizing
  /-- `runSession` has returned. -/
  | ended
  /-- `onIdChange` waits for the lock. -/
  | changing
  /-- The identifier is new, the components are old. -/
  | stale
  /-- The lock for the new components. -/
  | building
  deriving DecidableEq, Repr

/-- These wait for the session's own lock. -/
def Pc.wantsLock : Pc → Bool
  | starting | updating | renewing | building => true
  | _ => false

/-- `buffered` counts the messages in each channel; `leaked` says that a reader of the session's
lock has gone without releasing it. -/
structure SessionState where
  pc : Pc
  leader : Bool
  consolidating : Bool
  buffered : Chan → Nat
  signClosed : Bool
  signEnded : Bool
  initSigAccepted : Bool
  leaked : Bool

/-- The components at the top of the loop; the old ones are dropped. -/
def SessionState.build (st : SessionState) (leader : Bool) : SessionState where
  pc := .waiting
  leader := leader
  consolidating := st.consolidating
  buffered := fun _ => 0
  signClosed := false
  signEnded := false
  initSigAccepted := false
  leaked := st.leaked

/-- The channel a loop is receiving from. -/
def SessionState.looping (st : SessionState) : Option Chan :=
  match st.pc with
  | .listening => some (.consensus st.consolidating .msgs)
  | .relaying relay => some (relay.chan st.consolidating)
  | .signing => some .sign
  | _ => none

/-- The channel that is being received from: also the rest of a closed one, and the one message of
the distributor. -/
def SessionState.reading (st : SessionState) : Option Chan :=
  match st.pc with
  | .closing => some .sign
  | .awaiting => some .initSig
  | _ => st.looping

/-- Where the control of a session can go next by itself. -/
def follows (kind : SessionKind) (leader : Bool) : Pc → Pc → Bool
  | .waiting, .starting => kind = .utxo
  | .waiting, .forming => kind ≠ .utxo && leader
  | .waiting, .listening => kind ≠ .utxo && !leader
  | .starting, .choosing => true
  | .forming, .relaying .proposal => true
  | .forming, .ended => true
  | .listening, .relaying .signStart => leader
  | .listening, .injecting .proposal => !leader
  | .listening, .injecting .signStart => !leader
  | .listening, .ended => true
  | .injecting relay, .relaying relay' => relay = relay'
  | .relaying .proposal, .listening => true
  | .relaying .signStart, .updating => kind = .utxo
  | .relaying .signStart, .signing => kind ≠ .utxo
  | .relaying .signStart, .awaiting => kind ≠ .utxo && !leader
  | .relaying .signatures, .finalizing => true
  | .relaying _, .ended => true
  | .updating, .signing => true
  | .updating, .signed => true
  | .updating, .ended => true
  | .updating, .awaiting => !leader
  | .signing, .closing => true
  | .signing, .stopped => true
  | .closing, .signed => true
  | .stopped, .ended => true
  | .signed, .renewing => kind = .utxo
  | .signed, .relaying .signatures => leader
  | .signed, .awaiting => !leader
  | .signed, .ended => true
  | .renewing, .delaying => true
  | .delaying, .signing => true
  | .delaying, .ended => true
  | .awaiting, .ended => true
  | .finalizing, .ended => true
  | .ended, .changing => true
  | .stale, .building => true
  | _, _ => false

/-- The effects of such a move: the own message of `EnsureValid`, `close(p.msgs)`, `ended`, and the
next `SignParty`. -/
def SessionState.advance (st : SessionState) (pc : Pc) : SessionState :=
  match st.pc with
  | .injecting relay =>
      { st with
        pc := pc
        buffered := Function.update st.buffered (relay.chan st.consolidating)
          (st.buffered (relay.chan st.consolidating) + 1) }
  | .signing => { st with pc := pc, signClosed := decide (pc = .closing) }
  | .closing | .stopped => { st with pc := pc, signEnded := true }
  | .renewing =>
      { st with
        pc := pc
        buffered := Function.update st.buffered .sign 0
        signClosed := false
        signEnded := false }
  | _ => { st with pc := pc }

def SessionState.hasRoom (st : SessionState) (ch : Chan) : Bool :=
  decide (st.buffered ch < ch.capacity)

/-- The own message of `EnsureValid` waits for room like any other. -/
def SessionState.ready (st : SessionState) : Bool :=
  match st.pc with
  | .injecting relay => st.hasRoom (relay.chan st.consolidating)
  | _ => true

/-! ## Requests -/

/-- A request as its type and round sort it: for a part of the consensus, `RT_SIGN`, and
`RT_SIGNATURE_DISTRIBUTION` of a later round or of the distributor's first. -/
inductive Request where
  | consensus (part : Part)
  | sign
  | signatures
  | initSig
  deriving DecidableEq, Repr

/-- The channels it can get to, depending on the session. -/
def Request.channels : Request → List Chan
  | consensus part => [.consensus false part, .consensus true part]
  | sign => [.sign]
  | signatures => [.signatures]
  | initSig => [.initSig]

/-- The channel of a request; `none` is an error or a message that is dropped.  `SignParty` does
not compare session identifiers. -/
def SessionState.target (st : SessionState) : Request → Option Chan
  | .consensus part => if st.pc = .stale then none else some (.consensus st.consolidating part)
  | .sign => if st.signEnded then none else some .sign
  | .signatures => if st.pc = .stale then none else some .signatures
  | .initSig => if st.pc = .stale ∨ st.initSigAccepted = true then none else some .initSig

/-- A `Receive` call before it has the session's lock, and before or in its send. -/
inductive Stage where
  | entering (request : Request)
  | sending (ch : Chan)
  deriving DecidableEq, Repr

variable {ι : Type} [DecidableEq ι]

/-- A call in progress holds the manager's lock for reading. -/
structure Call (ι : Type) where
  chain : ι
  stage : Stage
  deriving DecidableEq, Repr

def Stage.mayReach (stage : Stage) (ch : Chan) : Bool :=
  match stage with
  | entering request => ch ∈ request.channels
  | sending ch' => ch' = ch

/-! ## The node -/

structure Node (ι : Type) where
  sessions : ι → SessionState
  calls : List (Call ι)
  /-- The sessions whose `onIdChange` waits for the manager's lock. -/
  writers : List ι

inductive Label (ι : Type) where
  | enter (i : ι) (request : Request)
  | deliver (call : Call ι)
  | send (call : Call ι)
  | consume (i : ι)
  | take (i : ι)
  | advance (i : ι) (pc : Pc)
  | choose (i : ι) (consolidating : Bool)
  | changeId (i : ι)
  | build (i : ι) (leader : Bool)

/-- The session's lock has no reader. -/
def Node.lockFree (s : Node ι) (i : ι) : Bool :=
  !(s.sessions i).leaked && s.calls.all fun call =>
    match call.stage with
    | .entering _ => true
    | .sending _ => call.chain ≠ i

def Node.set (s : Node ι) (i : ι) (st : SessionState) : Node ι :=
  { s with sessions := Function.update s.sessions i st }

def Node.finish (s : Node ι) (call : Call ι) : Node ι := { s with calls := s.calls.erase call }

def SessionState.put (st : SessionState) (ch : Chan) : SessionState :=
  { st with buffered := Function.update st.buffered ch (st.buffered ch + 1) }

def SessionState.get (st : SessionState) (ch : Chan) : SessionState :=
  { st with buffered := Function.update st.buffered ch (st.buffered ch - 1) }

/-- The call has the session's lock and has found its channel. -/
def Node.route (s : Node ι) (call : Call ι) (ch : Chan) : Node ι :=
  { s with calls := s.calls.erase call ++ [⟨call.chain, .sending ch⟩] }

/-- The send of a call: into a closed channel it panics, and the session's lock stays held. -/
def Node.send (s : Node ι) (call : Call ι) (ch : Chan) : Option (Node ι) :=
  let st := s.sessions call.chain
  if ch = .sign ∧ st.signClosed = true then
    some ((s.finish call).set call.chain { st with leaked := true })
  else if st.hasRoom ch then some ((s.finish call).set call.chain (st.put ch))
  else none

def step (kinds : ι → SessionKind) (s : Node ι) : Label ι → Option (Node ι)
  | .enter i request =>
      if s.writers = [] then some { s with calls := s.calls ++ [⟨i, .entering request⟩] } else none
  | .deliver call =>
      match call.stage with
      | .entering request =>
          if call ∈ s.calls ∧ (s.sessions call.chain).pc.wantsLock = false then
            match (s.sessions call.chain).target request with
            | none => some (s.finish call)
            | some ch => some (s.route call ch)
          else none
      | .sending _ => none
  | .send call =>
      match call.stage with
      | .entering _ => none
      | .sending ch => if call ∈ s.calls then s.send call ch else none
  | .consume i =>
      match (s.sessions i).looping with
      | none => none
      | some ch =>
          if 0 < (s.sessions i).buffered ch then some (s.set i ((s.sessions i).get ch)) else none
  | .take i =>
      if (s.sessions i).pc = .awaiting ∧ 0 < (s.sessions i).buffered .initSig then
        some (s.set i { (s.sessions i).get .initSig with
          pc := .injecting .signatures
          initSigAccepted := true })
      else none
  | .advance i pc =>
      if follows (kinds i) (s.sessions i).leader (s.sessions i).pc pc = true ∧
          (s.sessions i).ready = true ∧
          ((s.sessions i).pc.wantsLock = true → s.lockFree i = true) then
        some { s.set i ((s.sessions i).advance pc) with
          writers := if pc = .changing then s.writers ++ [i] else s.writers }
      else none
  | .choose i consolidating =>
      if (s.sessions i).pc = .choosing then
        some (s.set i { s.sessions i with
          pc := if (s.sessions i).leader then .forming else .listening
          consolidating := consolidating })
      else none
  | .changeId i =>
      if (s.sessions i).pc = .changing ∧ s.calls = [] then
        some { s.set i { s.sessions i with pc := .stale } with writers := s.writers.erase i }
      else none
  | .build i leader =>
      if (s.sessions i).pc = .building ∧ s.lockFree i = true then
        some (s.set i ((s.sessions i).build leader))
      else none

def freshSession (leader : Bool) : SessionState where
  pc := .waiting
  leader := leader
  consolidating := false
  buffered := fun _ => 0
  signClosed := false
  signEnded := false
  initSigAccepted := false
  leaked := false

/-- The sessions have built their components and wait for their first start. -/
def machine (kinds : ι → SessionKind) : Machine (Node ι) (Label ι) where
  init s := (∀ i, ∃ leader, s.sessions i = freshSession leader) ∧ s.calls = [] ∧ s.writers = []
  step := step kinds

end TssSvc.P2p
