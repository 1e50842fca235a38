import TssSvc.Lib.Decimal
import TssSvc.Lib.Outcome
import TssSvc.Session.Payload
import TssSvc.Tss.PartyIndex

/-!
# The consensus on what to sign and who signs

`internal/tss/session/consensus`: how requests reach the consensus, the proposer's collection
of acceptances and its choice of signers, and what an acceptor makes of the sign-start message.

The libraries that decode requests are the fields of `Decoders`.  The two broadcasts, the
messages that arrive before the acceptance boundary, the order in which Go walks a map and the
random source are inputs of `propose`.
-/

set_option autoImplicit false

namespace TssSvc.Session

open TssSvc.Broadcast

abbrev Fallible (α : Type) := Outcome (GoError Empty) α

/-! ## Requests -/

inductive RequestType where
  | keygen
  | sign
  | proposal
  | acceptance
  | signStart
  | depositDistribution
  | signatureDistribution
  | unrecognized (number : Int)
  deriving DecidableEq, Repr

def RequestType.string : RequestType → GoString
  | keygen => str "RT_KEYGEN"
  | sign => str "RT_SIGN"
  | proposal => str "RT_PROPOSAL"
  | acceptance => str "RT_ACCEPTANCE"
  | signStart => str "RT_SIGN_START"
  | depositDistribution => str "RT_DEPOSIT_DISTRIBUTION"
  | signatureDistribution => str "RT_SIGNATURE_DISTRIBUTION"
  | unrecognized number => Decimal.formatInt number

structure SubmitRequest (D : Type) where
  sender : GoString
  sessionId : GoString
  type : RequestType
  data : D

/-- `bech32.DecodeAndConvert` as a check, `UnmarshalTo` for the two messages a request can
carry, and `DecodeRoundMessage` for the two broadcasts. -/
structure Decoders (D T : Type) where
  validAddress : GoString → Bool
  broadcastData : D → Fallible Bytes
  acceptanceData : D → Fallible Bool
  proposal : Bytes → Fallible (RoundMessage T)
  signStart : Bytes → Fallible (RoundMessage SignStartData)

variable {D T : Type}

def addressFromString (d : Decoders D T) (s : GoString) : Fallible Address :=
  if d.validAddress s then .ok s else .err (.new "invalid address")

/-! ## The consensus of one party -/

/-- `p2p.Party`; the identifier of the zero value is nil. -/
structure Party where
  coreAddress : Address
  identifier : Option Tss.Ref
  deriving DecidableEq, Repr

structure ConsensusMsg (D : Type) where
  sender : Address
  type : RequestType
  data : D

structure Consensus where
  parties : List Party
  self : Address
  proposer : Address
  sessionId : GoString
  threshold : Int

/-- `c.parties[addr]`: `New` fills the map in the order of the list. -/
def Consensus.party (c : Consensus) (addr : Address) : Option Party :=
  c.parties.reverse.find? fun p => decide (p.coreAddress = addr)

/-- Where `Receive` hands a request on to. -/
inductive Delivery (D T : Type) where
  | msgs (msg : ConsensusMsg D)
  | proposal (msg : ReliableBroadcastMsg T)
  | signStart (msg : ReliableBroadcastMsg SignStartData)

def Consensus.receive (d : Decoders D T) (c : Consensus) (request : Option (SubmitRequest D)) :
    Fallible (Delivery D T) := do
  let request ← Outcome.ofOption (.new "nil request") request
  Outcome.check (request.sessionId = c.sessionId)
    ⟨none, str "session id mismatch: expected '" ++ c.sessionId ++ str "', got '" ++
      request.sessionId ++ str "'"⟩
  let sender ← (addressFromString d request.sender).wrap "failed to parse sender address"
  Outcome.check (c.party sender).isSome ⟨none, str "unknown sender '" ++ sender ++ str "'"⟩
  let msg : ConsensusMsg D := ⟨sender, request.type, request.data⟩
  match request.type with
  | .proposal => do
      let raw ← (d.broadcastData request.data).wrap "failed to unmarshal reliable broadcast data"
      let roundMsg ← (d.proposal raw).wrap "failed to decode round message"
      return if roundMsg.round = 0 then .msgs msg else .proposal ⟨roundMsg, sender⟩
  | .signStart => do
      let raw ← (d.broadcastData request.data).wrap "failed to unmarshal reliable broadcast data"
      let roundMsg ← (d.signStart raw).wrap "failed to decode round message"
      return if roundMsg.round = 0 then .msgs msg else .signStart ⟨roundMsg, sender⟩
  | .acceptance => return .msgs msg
  | _ => .err ⟨none, str "unsupported request type " ++ request.type.string ++ str " from '" ++
      sender ++ str "')"⟩

/-- Whatever `Receive` puts into `msgs` comes from one of the other parties. -/
theorem Consensus.receive_msgs_sender {d : Decoders D T} {c : Consensus}
    {request : Option (SubmitRequest D)} {msg : ConsensusMsg D}
    (h : c.receive d request = .ok (.msgs msg)) : (c.party msg.sender).isSome := by
  simp only [receive, Outcome.bind_eq_ok, Outcome.ofOption_eq_ok, Outcome.check_eq_ok] at h
  obtain ⟨request, -, _, -, sender, -, _, hknown, h⟩ := h
  have hsender : msg.sender = sender := by
    split at h
    · simp only [Outcome.bind_eq_ok, Outcome.pure_eq_ok, Outcome.ok.injEq] at h
      obtain ⟨_, -, _, -, h⟩ := h
      split at h <;> cases h
      rfl
    · simp only [Outcome.bind_eq_ok, Outcome.pure_eq_ok, Outcome.ok.injEq] at h
      obtain ⟨_, -, _, -, h⟩ := h
      split at h <;> cases h
      rfl
    · cases h
      rfl
    · cases h
  rw [hsender]
  exact hknown

/-! ## The proposer -/

/-- `Acceptances`: the first acceptance of each sender. -/
abbrev Acceptances := List (Address × Bool)

def Acceptances.senders (a : Acceptances) : List Address := a.map Prod.fst

/-- The `Acceptors` loop over the entries in the order they are walked. -/
def Acceptances.acceptors (a : Acceptances) : List Address :=
  (a.filter Prod.snd).map Prod.fst

/-- One message of the collecting loop of `propose`. -/
def collect (d : Decoders D T) (acceptances : Acceptances) (msg : ConsensusMsg D) : Acceptances :=
  if msg.type ≠ .acceptance then acceptances
  else if msg.sender ∈ acceptances.senders then acceptances
  else
    match d.acceptanceData msg.data with
    | .ok accepted => acceptances ++ [(msg.sender, accepted)]
    | _ => acceptances

/-- The loop of `getSignersSet`: `n` removals from the `i`-th random number on.  The index
modulo the length of an empty list is a division by zero, `none`. -/
def removeSigners (rand : Nat → UInt64) : Nat → Nat → List Address → Option (List Address)
  | 0, _, signers => some signers
  | n + 1, i, signers =>
      if signers.length = 0 then none
      else removeSigners rand n (i + 1) (signers.eraseIdx ((rand i).toNat % signers.length))

def getSignersSet (signers : List Address) (threshold : Int) (rand : Nat → UInt64) :
    Option (List Address) :=
  let signersToRemove : Int := signers.length - threshold
  if signersToRemove ≤ 0 then some signers else removeSigners rand signersToRemove.toNat 0 signers

/-- What happens around one `propose`: the formed data, the results of the two broadcasts, the
error of the session's context if it ends before the boundary, the messages taken from `msgs`
until then, the walk over the map and the random source. -/
structure ProposerRun (D T : Type) where
  formed : Fallible (Option T)
  proposalBroadcast : Bool
  ended : Option (GoError Empty)
  msgs : List (ConsensusMsg D)
  walk : Acceptances → Acceptances
  rand : Nat → UInt64
  signStartBroadcast : Bool

/-- `c.result`, with the sign-start message that was broadcast. -/
structure ConsensusResult (T : Type) where
  sigData : Option T := none
  signers : Option (List Party) := none
  err : Option (GoError Empty) := none
  signStart : Option SignStartData := none

def ProposerRun.possibleSigners (d : Decoders D T) (run : ProposerRun D T) : List Address :=
  (run.walk (run.msgs.foldl (collect d) [])).acceptors

/-- `propose` from the acceptance boundary on. -/
def Consensus.selectSigners (d : Decoders D T) (c : Consensus) (run : ProposerRun D T) (data : T) :
    Option (ConsensusResult T) :=
  let possibleSigners := run.possibleSigners d
  let signersCount : Int := possibleSigners.length + 1
  if signersCount ≤ c.threshold then
    some { sigData := some data, err := some (.new "not enough parties accepted the proposal") }
  else
    (getSignersSet possibleSigners c.threshold run.rand).map fun signers =>
      { sigData := some data
        signers := some (signers.map fun a => (c.party a).getD ⟨[], none⟩)
        err := if run.signStartBroadcast then none
          else some (.new "sign start message broadcast failure")
        signStart := some ⟨signers ++ [c.self]⟩ }

/-- `none` is a panic. -/
def Consensus.propose (d : Decoders D T) (c : Consensus) (run : ProposerRun D T) :
    Option (ConsensusResult T) :=
  match run.formed with
  | .panic _ => none
  | .err e => some { err := some (e.wrap (str "failed to form proposal data")) }
  | .ok signingData =>
      if run.proposalBroadcast then
        match signingData, run.ended with
        -- nothing to sign for this session
        | none, _ => some {}
        | some data, some e => some { sigData := some data, err := some e }
        | some data, none => c.selectSigners d run data
      else some { err := some (.new "proposal data broadcast failure") }

/-! ## The acceptor -/

/-- The loop of `handleSignStartMsg`: `seen` is `distinctParties`. -/
def Consensus.selectParties (d : Decoders D T) (c : Consensus) :
    List GoString → List GoString → Bool → List Party → Fallible (Bool × List Party)
  | [], _, selfPresent, signingParties => .ok (selfPresent, signingParties)
  | participant :: rest, seen, selfPresent, signingParties => do
      Outcome.check (participant ∉ seen)
        ⟨none, str "duplicate party '" ++ participant ++ str "' in sign start message"⟩
      let seen := participant :: seen
      if participant = c.self then c.selectParties d rest seen true signingParties
      else do
        let addr ← (addressFromString d participant).mapErr
          (GoError.wrap (str "failed to parse party address '" ++ participant ++ str "'"))
        let party ← Outcome.ofOption
          ⟨none, str "party '" ++ addr ++ str "' is not present in consensus"⟩ (c.party addr)
        c.selectParties d rest seen selfPresent (signingParties ++ [party])

/-- The signers an acceptor reads off the agreed message.  `none` is the panic of `make` with
capacity -1 on an empty list. -/
def Consensus.signersOf (d : Decoders D T) (c : Consensus) (start : SignStartData) :
    Option (Fallible (Option (List Party))) :=
  if start.parties = [] then none
  else some do
    let (selfPresent, signingParties) ← c.selectParties d start.parties [] false []
    return if selfPresent then some signingParties else none

/-- `handleSignStartMsg` with the result of `EnsureValid`. -/
def Consensus.handleSignStartMsg (d : Decoders D T) (c : Consensus) (data : D) (valid : Bool) :
    Option (Fallible (Option (List Party))) :=
  let decoded : Fallible SignStartData := do
    let raw ← (d.broadcastData data).wrap "failed to unmarshal proposal data"
    let roundMsg ← (d.signStart raw).wrap "failed to decode round message"
    Outcome.check valid (.new "proposal msg was not delivered reliable")
    Outcome.ofOption (.new "nil data in sign start message") roundMsg.value
  match decoded with
  | .ok start => c.signersOf d start
  | .err e => some (.err e)
  | .panic reason => some (.panic reason)

end TssSvc.Session
