import TssSvc.Lib.Machine
import TssSvc.Session.Payload

/-!
# The goroutines of a tss party

`SignParty` and `KeygenParty` (`internal/tss/signer.go`, `keygener.go`) run the same goroutines
over the same channels and differ in the result of the tss library only.  `Run` starts three:
`party.Start`, `receiveMsgs` and `receiveUpdates`.  `WaitFor` waits for the three and sets `ended`;
`Receive`, called by the server at any time, reads `ended` and then sends into `msgs`.

Between the read and the send a call holds nothing: it is in `calls`, where a full channel keeps
it too.  A label is one action of one goroutine, so a run is an interleaving.  The messages the
library puts into `out` change nothing here.
-/

set_option autoImplicit false

namespace TssSvc.Tss.Channel

open TssSvc.Session (SignatureData)

def msgsCapacity : Nat := 100

structure PartyMsg where
  sender : GoString
  wireMsg : Bytes
  isBroadcast : Bool
  deriving DecidableEq, Repr

structure PartyState (M R : Type) where
  started : Bool
  ctxDone : Bool
  /-- The channel `end` has room for one result, and a result that is in it stays when it is
  closed. -/
  endResult : Option R
  endClosed : Bool
  msgs : List M
  closed : Bool
  startDone : Bool
  receiveMsgsDone : Bool
  receiveUpdatesDone : Bool
  ended : Bool
  result : Option R
  /-- The messages of the `Receive` calls that have read `ended` and not sent yet. -/
  calls : List M
  /-- What was passed to `UpdateFromBytes`, what `Receive` returned on at once, and what it sent
  into the closed channel. -/
  updates : List M
  dropped : List M
  panicked : List M

inductive Label (M R : Type) where
  | run
  | cancel
  | startReturns
  | startFails
  | produce (value : R)
  | stopReceiveMsgs
  | takeMsg
  | stopReceiveUpdates
  | takeResult
  | waitFor
  | check (msg : M)
  | send (call : Nat)
  deriving DecidableEq, Repr

section Steps

variable {M R : Type}

def newParty : PartyState M R where
  started := false
  ctxDone := false
  endResult := none
  endClosed := false
  msgs := []
  closed := false
  startDone := false
  receiveMsgsDone := false
  receiveUpdatesDone := false
  ended := false
  result := none
  calls := []
  updates := []
  dropped := []
  panicked := []

namespace PartyState

/-- One turn of the loop of `receiveMsgs`.  A message from outside the signing set is skipped. -/
def takeMsg (known : M → Bool) (s : PartyState M R) : Option (PartyState M R) :=
  match s.msgs with
  | msg :: rest =>
      some { s with msgs := rest, updates := if known msg then s.updates ++ [msg] else s.updates }
  | [] => if s.closed then some { s with receiveMsgsDone := true } else none

/-- `receiveUpdates` at the end of the protocol: it closes `msgs` and returns. -/
def takeResult (s : PartyState M R) : Option (PartyState M R) :=
  match s.endResult with
  | some value =>
      some { s with endResult := none, closed := true, result := some value,
                    receiveUpdatesDone := true }
  | none =>
      if s.endClosed then some { s with closed := true, result := none, receiveUpdatesDone := true }
      else none

/-- The first half of `Receive`. -/
def check (s : PartyState M R) (msg : M) : PartyState M R :=
  if s.ended then { s with dropped := s.dropped ++ [msg] }
  else { s with calls := s.calls ++ [msg] }

/-- The second half of `Receive`. -/
def send (s : PartyState M R) (call : Nat) : Option (PartyState M R) :=
  match s.calls[call]? with
  | none => none
  | some msg =>
      if s.closed then
        some { s with calls := s.calls.eraseIdx call, panicked := s.panicked ++ [msg] }
      else if s.msgs.length < msgsCapacity then
        some { s with calls := s.calls.eraseIdx call, msgs := s.msgs ++ [msg] }
      else none

end PartyState

open PartyState in
def step (known : M → Bool) (s : PartyState M R) : Label M R → Option (PartyState M R)
  | .run => if s.started then none else some { s with started := true }
  | .cancel => some { s with ctxDone := true }
  | .startReturns =>
      if s.started && !s.startDone then some { s with startDone := true } else none
  | .startFails =>
      if s.started && !s.startDone then some { s with startDone := true, endClosed := true }
      else none
  | .produce value =>
      if s.started && s.endResult.isNone && !s.endClosed then
        some { s with endResult := some value }
      else none
  | .stopReceiveMsgs =>
      if s.started && !s.receiveMsgsDone && s.ctxDone then some { s with receiveMsgsDone := true }
      else none
  | .takeMsg => if s.started && !s.receiveMsgsDone then takeMsg known s else none
  | .stopReceiveUpdates =>
      if s.started && !s.receiveUpdatesDone && s.ctxDone then
        some { s with receiveUpdatesDone := true }
      else none
  | .takeResult => if s.started && !s.receiveUpdatesDone then takeResult s else none
  | .waitFor =>
      if s.startDone && s.receiveMsgsDone && s.receiveUpdatesDone then some { s with ended := true }
      else none
  | .check msg => some (check s msg)
  | .send call => send s call

def partyMachine (known : M → Bool) : Machine (PartyState M R) (Label M R) where
  init s := s = newParty
  step := step known

end Steps

/-- A `SignParty` with the given parties. -/
def signParty (parties : List GoString) : Machine (PartyState PartyMsg SignatureData)
    (Label PartyMsg SignatureData) :=
  partyMachine fun msg => parties.contains msg.sender

/-- A `KeygenParty` with the given parties, over any type of key shares. -/
def keygenParty (LocalPartySaveData : Type) (parties : List GoString) :
    Machine (PartyState PartyMsg LocalPartySaveData) (Label PartyMsg LocalPartySaveData) :=
  partyMachine fun msg => parties.contains msg.sender

/-! ## What a step does -/

section Inversion

variable {M R : Type} {known : M → Bool} {s s' : PartyState M R}

/-- The messages a party has seen, wherever they are. -/
def PartyState.held (s : PartyState M R) : List M :=
  s.calls ++ s.msgs ++ s.updates ++ s.dropped ++ s.panicked

theorem PartyState.mem_held {msg : M} : msg ∈ s.held ↔
    msg ∈ s.calls ∨ msg ∈ s.msgs ∨ msg ∈ s.updates ∨ msg ∈ s.dropped ∨ msg ∈ s.panicked := by
  simp only [held, List.mem_append, or_assoc]

/-- The steps by what they do to the channel: the other fields that `Receive` reads or writes
stay as they are. -/
inductive Stepped (s s' : PartyState M R) : Label M R → Prop
  | inner {label : Label M R} (closed : s'.closed = s.closed) (calls : s'.calls = s.calls)
      (panicked : s'.panicked = s.panicked) (held : ∀ msg ∈ s'.held, msg ∈ s.held)
      (started : label = .run ∨ s'.started = s.started)
      (updating : s.receiveUpdatesDone = true → s'.receiveUpdatesDone = true) : Stepped s s' label
  | closes (calls : s'.calls = s.calls) (panicked : s'.panicked = s.panicked)
      (held : s'.held = s.held) (started : s'.started = s.started)
      (done : s'.receiveUpdatesDone = true) : Stepped s s' .takeResult
  | returned {msg : M} (ended : s.ended = true)
      (after : s' = { s with dropped := s.dropped ++ [msg] }) : Stepped s s' (.check msg)
  | entered {msg : M} (running : s.ended = false)
      (after : s' = { s with calls := s.calls ++ [msg] }) : Stepped s s' (.check msg)
  | sent {call : Nat} {msg : M} (pending : msg ∈ s.calls) (isOpen : s.closed = false)
      (after : s' = { s with calls := s.calls.eraseIdx call, msgs := s.msgs ++ [msg] }) :
      Stepped s s' (.send call)
  | panics {call : Nat} {msg : M} (pending : msg ∈ s.calls) (isClosed : s.closed = true)
      (after : s' = { s with calls := s.calls.eraseIdx call, panicked := s.panicked ++ [msg] }) :
      Stepped s s' (.send call)

theorem stepped_of_takeMsg (taken : s.takeMsg known = some s') :
    Stepped s s' .takeMsg := by
  unfold PartyState.takeMsg at taken
  split at taken
  · rename_i msg rest hmsgs
    cases taken
    refine .inner rfl rfl rfl (fun other hother => ?_) (.inr rfl) id
    simp only [PartyState.mem_held, hmsgs, List.mem_cons] at hother ⊢
    by_cases hknown : known msg = true
    · simp only [hknown, if_true, List.mem_append, List.mem_singleton] at hother
      grind
    · simp only [hknown] at hother
      grind
  · split at taken
    · cases taken
      exact .inner rfl rfl rfl (fun _ => id) (.inr rfl) id
    · cases taken

theorem stepped_of_takeResult (taken : s.takeResult = some s') :
    Stepped s s' .takeResult := by
  unfold PartyState.takeResult at taken
  split at taken
  · cases taken
    exact .closes rfl rfl rfl rfl rfl
  · obtain ⟨-, taken⟩ := Option.ite_none_right_eq_some.mp taken
    cases taken
    exact .closes rfl rfl rfl rfl rfl

theorem stepped_of_send {call : Nat} (taken : s.send call = some s') :
    Stepped s s' (.send call) := by
  unfold PartyState.send at taken
  split at taken
  · cases taken
  · rename_i msg hmsg
    have pending : msg ∈ s.calls := List.mem_of_getElem? hmsg
    split at taken
    · rename_i isClosed
      exact .panics pending isClosed (Option.some.inj taken).symm
    · rename_i isOpen
      split at taken
      · exact .sent pending (Bool.eq_false_of_not_eq_true isOpen) (Option.some.inj taken).symm
      · cases taken

theorem stepped_of_check (s : PartyState M R) (msg : M) :
    Stepped s (s.check msg) (.check msg) := by
  unfold PartyState.check
  split
  · rename_i ended
    exact .returned ended rfl
  · rename_i running
    exact .entered (Bool.eq_false_of_not_eq_true running) rfl

theorem stepped_of_step {label : Label M R} (taken : step known s label = some s') :
    Stepped s s' label := by
  cases label with
  | takeMsg => exact stepped_of_takeMsg (Option.ite_none_right_eq_some.mp taken).2
  | takeResult => exact stepped_of_takeResult (Option.ite_none_right_eq_some.mp taken).2
  | send call => exact stepped_of_send taken
  | check msg =>
      cases taken
      exact stepped_of_check s msg
  | cancel =>
      cases taken
      exact .inner rfl rfl rfl (fun _ => id) (.inr rfl) id
  | run =>
      obtain ⟨-, taken⟩ := Option.ite_none_left_eq_some.mp taken
      cases taken
      exact .inner rfl rfl rfl (fun _ => id) (.inl rfl) id
  | stopReceiveUpdates =>
      obtain ⟨-, taken⟩ := Option.ite_none_right_eq_some.mp taken
      cases taken
      exact .inner rfl rfl rfl (fun _ => id) (.inr rfl) fun _ => rfl
  | startReturns | startFails | produce value | stopReceiveMsgs | waitFor =>
      obtain ⟨-, taken⟩ := Option.ite_none_right_eq_some.mp taken
      cases taken
      exact .inner rfl rfl rfl (fun _ => id) (.inr rfl) id

/-- Only a check brings a message in. -/
theorem Stepped.mem_held {label : Label M R} (stepped : Stepped s s' label)
    (inner : ∀ msg, label ≠ .check msg) {msg : M} (hmsg : msg ∈ s'.held) : msg ∈ s.held := by
  cases stepped with
  | inner closed calls panicked held started updating => exact held msg hmsg
  | closes calls panicked held started done => exact held ▸ hmsg
  | returned ended after => exact absurd rfl (inner _)
  | entered running after => exact absurd rfl (inner _)
  | sent pending isOpen after | panics pending isClosed after =>
      subst after
      simp only [PartyState.mem_held, List.mem_append, List.mem_singleton] at hmsg ⊢
      have rest : ∀ call, msg ∈ s.calls.eraseIdx call → msg ∈ s.calls :=
        fun _ => List.mem_of_mem_eraseIdx
      grind

theorem mem_held_check {msg other : M} (hother : other ∈ (s.check msg).held) :
    other = msg ∨ other ∈ s.held := by
  unfold PartyState.check at hother
  split at hother
  all_goals
    simp only [PartyState.mem_held, List.mem_append, List.mem_singleton] at hother ⊢
    grind

theorem Stepped.started {label : Label M R} (stepped : Stepped s s' label) :
    label = .run ∨ s'.started = s.started := by
  cases stepped with
  | inner closed calls panicked held started updating => exact started
  | closes calls panicked held started done => exact .inr started
  | returned ended after | entered running after | sent pending isOpen after
  | panics pending isClosed after =>
      subst after
      exact .inr rfl

theorem Stepped.receiveUpdatesDone {label : Label M R} (stepped : Stepped s s' label)
    (before : s.receiveUpdatesDone = true) : s'.receiveUpdatesDone = true := by
  cases stepped with
  | inner closed calls panicked held started updating => exact updating before
  | closes calls panicked held started done => exact done
  | returned ended after | entered running after | sent pending isOpen after
  | panics pending isClosed after =>
      subst after
      exact before

end Inversion

/-! ## Sends into the closed channel -/

section Sends

variable {M R : Type} {known : M → Bool}

/-- No call is between its check and its send when the channel is closed, and none makes its check
between the closing and the store of `ended`. -/
def Quiet (s : PartyState M R) : Label M R → Prop
  | .takeResult => s.calls = []
  | .check _ => s.closed = true → s.ended = true
  | _ => True

instance Quiet.decidable [DecidableEq M] (s : PartyState M R) :
    ∀ label, Decidable (Quiet s label)
  | .takeResult => inferInstanceAs (Decidable (s.calls = []))
  | .check _ => inferInstanceAs (Decidable (s.closed = true → s.ended = true))
  | .run | .cancel | .startReturns | .startFails | .produce _ | .stopReceiveMsgs | .takeMsg
  | .stopReceiveUpdates | .waitFor | .send _ => inferInstanceAs (Decidable True)

structure NoLateSend (s : PartyState M R) : Prop where
  calls : s.closed = true → s.calls = []
  panicked : s.panicked = []

theorem noLateSend_step {s s' : PartyState M R} {label : Label M R} (inv : NoLateSend s)
    (quiet : Quiet s label) (taken : step known s label = some s') : NoLateSend s' := by
  cases stepped_of_step taken with
  | inner closed calls panicked held started updating =>
      exact ⟨fun h => calls ▸ inv.calls (closed ▸ h), panicked ▸ inv.panicked⟩
  | closes calls panicked held started done =>
      have idle : s.calls = [] := quiet
      exact ⟨fun _ => calls ▸ idle, panicked ▸ inv.panicked⟩
  | returned ended after =>
      subst after
      exact ⟨inv.calls, inv.panicked⟩
  | entered running after =>
      -- the check is before the closing: after it `ended` is already set
      subst after
      refine ⟨fun isClosed => ?_, inv.panicked⟩
      rw [quiet isClosed] at running
      cases running
  | sent pending isOpen after =>
      subst after
      refine ⟨fun isClosed => ?_, inv.panicked⟩
      rw [show s.closed = true from isClosed] at isOpen
      cases isOpen
  | panics pending isClosed after =>
      rw [inv.calls isClosed] at pending
      cases pending

theorem reachable_noLateSend {s : PartyState M R}
    (reached : (partyMachine known).Reachable Quiet s) : NoLateSend s :=
  reached.invariant (fun _ start => start ▸ ⟨fun _ => rfl, rfl⟩)
    fun _ _ _ _ inv quiet taken => noLateSend_step inv quiet taken

end Sends

/-- In every run whose steps are `Quiet`, of a signing as of a key generation, no call sends into
the closed channel. -/
theorem receive_sends_only_before_close (parties : List GoString) (LocalPartySaveData : Type) :
    (∀ s, (signParty parties).Reachable Quiet s → s.panicked = []) ∧
      ∀ s, (keygenParty LocalPartySaveData parties).Reachable Quiet s → s.panicked = [] :=
  ⟨fun _ reached => (reachable_noLateSend reached).panicked,
    fun _ reached => (reachable_noLateSend reached).panicked⟩

section Runs

variable {R : Type}

def peerMsg : PartyMsg := ⟨str "peer", [1], true⟩

/-- The party runs to its result. -/
def finishing (value : R) : List (Label PartyMsg R) :=
  [.startReturns, .produce value]

/-- The message is taken before the end, a second one comes after `ended` is set. -/
def quietRun (value : R) : List (Label PartyMsg R) :=
  [.check peerMsg, .run, .send 0, .takeMsg] ++ finishing value ++
    [.takeResult, .takeMsg, .waitFor, .check peerMsg]

/-- The channel is closed between the check of a call and its send. -/
def overtakenRun (value : R) : List (Label PartyMsg R) :=
  .run :: finishing value ++ [.check peerMsg, .takeResult, .send 0]

/-- A call makes its check after the closing, when `receiveMsgs` has not returned yet. -/
def lateRun (value : R) : List (Label PartyMsg R) :=
  .run :: finishing value ++ [.takeResult, .check peerMsg, .send 0]

def sampleSignature : SignatureData := ⟨[7], [], [], [], []⟩

end Runs

theorem receive_sends_only_before_close_quietRun :
    ∃ s, (signParty [str "peer"]).Reachable Quiet s ∧ s.updates = [peerMsg] ∧
      s.dropped = [peerMsg] ∧ s.result = some sampleSignature ∧ s.panicked = [] := by
  have run : ((signParty [str "peer"]).exec Quiet newParty (quietRun sampleSignature)).map
      (fun s => (s.updates, s.dropped, s.result)) =
        some ([peerMsg], [peerMsg], some sampleSignature) := by
    decide +kernel
  obtain ⟨s, reached, hs⟩ := Machine.exists_reachable rfl run
  simp only [Prod.mk.injEq] at hs
  exact ⟨s, reached, hs.1, hs.2.1, hs.2.2,
    (receive_sends_only_before_close [str "peer"] Unit).1 s reached⟩

/-- Both races, in a signing and in a key generation. -/
theorem receive_sends_after_close :
    (∃ s, (signParty [str "peer"]).Reaches s ∧ s.panicked = [peerMsg]) ∧
      (∃ s, (signParty [str "peer"]).Reaches s ∧ s.receiveMsgsDone = false ∧
        s.panicked = [peerMsg]) ∧
      ∃ s, (keygenParty Unit [str "peer"]).Reaches s ∧ s.panicked = [peerMsg] := by
  have overtaken : ((signParty [str "peer"]).exec (fun _ _ => True) newParty
      (overtakenRun sampleSignature)).map PartyState.panicked = some [peerMsg] := by
    decide +kernel
  have late : ((signParty [str "peer"]).exec (fun _ _ => True) newParty
      (lateRun sampleSignature)).map (fun s => (s.receiveMsgsDone, s.panicked)) =
        some (false, [peerMsg]) := by
    decide +kernel
  have keygen : ((keygenParty Unit [str "peer"]).exec (fun _ _ => True) newParty
      (overtakenRun ())).map PartyState.panicked = some [peerMsg] := by
    decide +kernel
  obtain ⟨t, reached, seen⟩ := Machine.exists_reachable rfl late
  simp only [Prod.mk.injEq] at seen
  exact ⟨Machine.exists_reachable rfl overtaken, ⟨t, reached, seen⟩,
    Machine.exists_reachable rfl keygen⟩

end TssSvc.Tss.Channel
