import TssSvc.Broadcast.Message

/-!
# The reliable broadcaster

`ReliableBroadcaster` of `internal/p2p/broadcast/reliable.go`: the state of one party and
the functions that change it.  `handleMsg` is the body of the receive loop of
`startRounds`; it returns the round message handed to `broadcastMsg`, if any.

`validateSignatures_eq_true_iff` says which chains are accepted, `handleMsg_handled` what
one received message can do to the state.
-/

set_option autoImplicit false

namespace TssSvc.Broadcast

def maxMaliciousParties (partiesCount threshold : Int) : Int := partiesCount - (threshold + 1)

/-- `values` is a map from hash strings, `receivedMsgs` the pairs of sender and round that
are set to true; its inner maps exist for `parties` only. -/
structure ReliableBroadcaster (T : Type) where
  sessionId : GoString
  parties : List Address
  self : Account
  relayRounds : Int
  originMsgSender : Address
  receivedMsgs : List (Address × Int)
  values : List (GoString × Option T)
  finalSigChainReached : Bool

variable {T : Type}

def newReliable (T : Type) (sessionId : GoString) (parties : List Address) (self : Account)
    (maxMaliciousParties : Int) : ReliableBroadcaster T where
  sessionId := sessionId
  parties := parties
  self := self
  relayRounds := maxMaliciousParties + 1
  originMsgSender := []
  receivedMsgs := []
  values := []
  finalSigChainReached := false

namespace ReliableBroadcaster

def partiesMap (b : ReliableBroadcaster T) : List Address := b.self.cosmosAddress :: b.parties

def keys (b : ReliableBroadcaster T) : List GoString := b.values.map Prod.fst

variable [HasHashString T]

def addToValuesSet (b : ReliableBroadcaster T) (value : Option T) : ReliableBroadcaster T :=
  if valueKey value ∈ b.keys then b
  else { b with values := b.values ++ [(valueKey value, value)] }

/-- The loop of `validateSignatures` over `slices.Backward(roundMsg.Signatures)`. -/
def checkBackward (c : Crypto) (b : ReliableBroadcaster T) (tempMsg : RoundMessage T)
    (senderChecked : List Address) (selfSigned : Bool) : List Signature → Go (Bool × Bool)
  | [] => .ok (true, selfSigned)
  | signature :: earlier =>
      if signature.signer ∉ b.partiesMap then .ok (false, selfSigned)
      else if signature.signer ∈ senderChecked then .ok (false, selfSigned)
      else
        let tempMsg := { tempMsg with signatures := tempMsg.signatures.dropLast }
        match tempMsg.signatureValid c signature with
        | .error p => .error p
        | .ok false => .ok (false, selfSigned)
        | .ok true =>
            checkBackward c b tempMsg (signature.signer :: senderChecked)
              (selfSigned || decide (signature.signer = b.self.cosmosAddress)) earlier

/-- Results `valid, selfSigned`.  A chain of length zero announced as round -1 passes the
length check, and `Signatures[0]` then panics. -/
def validateSignatures (c : Crypto) (b : ReliableBroadcaster T) (msg : ReliableBroadcastMsg T) :
    Go (Bool × Bool) :=
  if (msg.msg.signatures.length : Int) ≠ msg.msg.round + 1 then .ok (false, false)
  else
    match msg.msg.signatures.head?, msg.msg.signatures.getLast? with
    | some first, some last =>
        if first.signer ≠ b.originMsgSender then .ok (false, false)
        else if last.signer ≠ msg.sender then .ok (false, false)
        else b.checkBackward c msg.msg [] false msg.msg.signatures.reverse
    | _, _ => .error .indexOutOfRange

def relayed (b : ReliableBroadcaster T) (m : RoundMessage T) (sig : Bytes) : RoundMessage T :=
  { m with
    round := m.round + 1
    signatures := m.signatures ++ [⟨b.self.cosmosAddress, sig⟩] }

/-- Raises the final flag on a chain with enough signatures. -/
def noteChain (b : ReliableBroadcaster T) (signaturesCount : Int) : ReliableBroadcaster T :=
  if signaturesCount ≥ b.relayRounds then { b with finalSigChainReached := true } else b

def processMsg (c : Crypto) (b : ReliableBroadcaster T) (msg : ReliableBroadcastMsg T) :
    Go (ReliableBroadcaster T × Option (RoundMessage T)) :=
  match b.validateSignatures c msg with
  | .error p => .error p
  | .ok (false, _) => .ok (b, none)
  | .ok (true, selfSigned) =>
      -- our own acknowledgment counts unless it is in the chain
      let signaturesCount : Int := msg.msg.signatures.length + if selfSigned then 0 else 1
      let b := (b.addToValuesSet msg.msg.value).noteChain signaturesCount
      if selfSigned then .ok (b, none)
      -- the last round message is not broadcast
      else if msg.msg.round + 1 = b.relayRounds then .ok (b, none)
      else
        match b.self.sign (msg.msg.signHash c) with
        | none => .ok (b, none)
        | some sig => .ok (b, some (b.relayed msg.msg sig))

/-- One iteration of the loop of `startRounds` that takes a message from the channel. -/
def handleMsg (c : Crypto) (b : ReliableBroadcaster T) (msg : ReliableBroadcastMsg T) :
    Go (ReliableBroadcaster T × Option (RoundMessage T)) :=
  if msg.msg.sessionId ≠ b.sessionId then .ok (b, none)
  else if msg.msg.round > b.relayRounds then .ok (b, none)
  else if (msg.sender, msg.msg.round) ∈ b.receivedMsgs then .ok (b, none)
  else if msg.sender ∉ b.parties then .error .nilMapAssignment
  else
    processMsg c { b with receivedMsgs := (msg.sender, msg.msg.round) :: b.receivedMsgs } msg

def decideValid (b : ReliableBroadcaster T) : Bool :=
  if b.values.length = 0 ∨ b.values.length > 1 then false else b.finalSigChainReached

def asOrigin (b : ReliableBroadcaster T) (value : Option T) : ReliableBroadcaster T :=
  { b.addToValuesSet value with originMsgSender := b.self.cosmosAddress }

/-- `Broadcast` up to `startRounds`.  There is no message when the signing fails;
`Broadcast` then returns false at once. -/
def startBroadcast (c : Crypto) (b : ReliableBroadcaster T) (value : Option T) :
    ReliableBroadcaster T × Option (RoundMessage T) :=
  let b := b.asOrigin value
  let roundMsg : RoundMessage T := ⟨value, b.sessionId, 0, []⟩
  match b.self.sign (roundMsg.signHash c) with
  | none => (b, none)
  | some sig =>
      (if b.relayRounds = 1 then { b with finalSigChainReached := true } else b,
        some { roundMsg with signatures := [⟨b.self.cosmosAddress, sig⟩] })

/-- `EnsureValid` up to `startRounds`; the message itself goes to the channel. -/
def startEnsureValid (b : ReliableBroadcaster T) (msg : ReliableBroadcastMsg T) :
    ReliableBroadcaster T :=
  { b with originMsgSender := msg.sender }

/-- `startRounds` on the messages it takes from the channel before the deadline, with the
messages it broadcasts. -/
def startRounds (c : Crypto) (b : ReliableBroadcaster T) :
    List (ReliableBroadcastMsg T) → Go (ReliableBroadcaster T × List (RoundMessage T))
  | [] => .ok (b, [])
  | msg :: rest => do
      let (b, out) ← b.handleMsg c msg
      let (b, sent) ← b.startRounds c rest
      return (b, out.toList ++ sent)

/-- `Broadcast`: the result and the messages broadcast. -/
def broadcast (c : Crypto) (b : ReliableBroadcaster T) (value : Option T)
    (taken : List (ReliableBroadcastMsg T)) : Go (Bool × List (RoundMessage T)) :=
  match b.startBroadcast c value with
  | (_, none) => .ok (false, [])
  | (b, some roundMsg) => do
      let (b, sent) ← b.startRounds c taken
      return (b.decideValid, roundMsg :: sent)

/-- `EnsureValid`: the result and the messages broadcast.  The messages taken include
`msg` itself unless the deadline passes first. -/
def ensureValid (c : Crypto) (b : ReliableBroadcaster T) (msg : ReliableBroadcastMsg T)
    (taken : List (ReliableBroadcastMsg T)) : Go (Bool × List (RoundMessage T)) := do
  let (b, sent) ← (b.startEnsureValid msg).startRounds c taken
  return (b.decideValid, sent)

/-! ## The set of values -/

theorem mem_keys_addToValuesSet {b : ReliableBroadcaster T} {value : Option T} {key : GoString} :
    key ∈ (b.addToValuesSet value).keys ↔ key ∈ b.keys ∨ key = valueKey value := by
  unfold addToValuesSet
  split
  · rename_i hmem
    constructor
    · exact .inl
    · rintro (h | rfl)
      · exact h
      · exact hmem
  · simp [keys]

theorem nodup_keys_addToValuesSet {b : ReliableBroadcaster T} (value : Option T)
    (h : b.keys.Nodup) : (b.addToValuesSet value).keys.Nodup := by
  unfold addToValuesSet
  split
  · exact h
  · rename_i hnew
    simp only [keys, List.map_append, List.map_cons, List.map_nil, List.nodup_append]
    refine ⟨h, List.nodup_singleton _, ?_⟩
    intro key hkey other hother
    rw [List.mem_singleton] at hother
    rintro rfl
    exact hnew (hother ▸ hkey)

/-- Every entry of `values` is stored under its own key. -/
def ValuesKeyed (b : ReliableBroadcaster T) : Prop := ∀ entry ∈ b.values, entry.1 = valueKey entry.2

theorem valuesKeyed_addToValuesSet {b : ReliableBroadcaster T} (value : Option T)
    (h : b.ValuesKeyed) : (b.addToValuesSet value).ValuesKeyed := by
  unfold addToValuesSet
  split
  · exact h
  · intro entry hentry
    rcases List.mem_append.mp hentry with hold | hnew
    · exact h entry hold
    · rw [List.mem_singleton.mp hnew]

section Frame

variable (b : ReliableBroadcaster T) (value : Option T)

@[simp] theorem addToValuesSet_sessionId : (b.addToValuesSet value).sessionId = b.sessionId := by
  unfold addToValuesSet; split <;> rfl

@[simp] theorem addToValuesSet_parties : (b.addToValuesSet value).parties = b.parties := by
  unfold addToValuesSet; split <;> rfl

@[simp] theorem addToValuesSet_self : (b.addToValuesSet value).self = b.self := by
  unfold addToValuesSet; split <;> rfl

@[simp] theorem addToValuesSet_relayRounds :
    (b.addToValuesSet value).relayRounds = b.relayRounds := by
  unfold addToValuesSet; split <;> rfl

@[simp] theorem addToValuesSet_originMsgSender :
    (b.addToValuesSet value).originMsgSender = b.originMsgSender := by
  unfold addToValuesSet; split <;> rfl

@[simp] theorem addToValuesSet_receivedMsgs :
    (b.addToValuesSet value).receivedMsgs = b.receivedMsgs := by
  unfold addToValuesSet; split <;> rfl

@[simp] theorem addToValuesSet_finalSigChainReached :
    (b.addToValuesSet value).finalSigChainReached = b.finalSigChainReached := by
  unfold addToValuesSet; split <;> rfl

end Frame

omit [HasHashString T] in
/-- The verdict is true exactly when one value is left and a final chain was seen. -/
theorem decideValid_eq_true_iff (b : ReliableBroadcaster T) :
    b.decideValid = true ↔ b.keys.length = 1 ∧ b.finalSigChainReached = true := by
  unfold decideValid keys
  rw [List.length_map]
  split <;> simp <;> omega

/-! ## Accepted chains -/

/-- What `validateSignatures` requires of a message. -/
structure ChainValid (c : Crypto) (b : ReliableBroadcaster T) (msg : ReliableBroadcastMsg T) :
    Prop where
  length : (msg.msg.signatures.length : Int) = msg.msg.round + 1
  first : msg.msg.signatures.head?.map Signature.signer = some b.originMsgSender
  last : msg.msg.signatures.getLast?.map Signature.signer = some msg.sender
  member : ∀ sig ∈ msg.msg.signatures, sig.signer ∈ b.partiesMap
  distinct : (msg.msg.signatures.map Signature.signer).Nodup
  signed : ∀ link ∈ msg.msg.links, link.1.Verifies c link.2

instance (c : Crypto) (b : ReliableBroadcaster T) (msg : ReliableBroadcastMsg T) :
    Decidable (b.ChainValid c msg) :=
  decidable_of_iff
    ((msg.msg.signatures.length : Int) = msg.msg.round + 1 ∧
      msg.msg.signatures.head?.map Signature.signer = some b.originMsgSender ∧
      msg.msg.signatures.getLast?.map Signature.signer = some msg.sender ∧
      (∀ sig ∈ msg.msg.signatures, sig.signer ∈ b.partiesMap) ∧
      (msg.msg.signatures.map Signature.signer).Nodup ∧
      ∀ link ∈ msg.msg.links, link.1.Verifies c link.2)
    ⟨fun ⟨h₁, h₂, h₃, h₄, h₅, h₆⟩ => ⟨h₁, h₂, h₃, h₄, h₅, h₆⟩,
      fun ⟨h₁, h₂, h₃, h₄, h₅, h₆⟩ => ⟨h₁, h₂, h₃, h₄, h₅, h₆⟩⟩

/-- The first signature is the origin's, over the bare value. -/
theorem ChainValid.first_link {c : Crypto} {b : ReliableBroadcaster T}
    {msg : ReliableBroadcastMsg T} (valid : b.ChainValid c msg) :
    ∃ sig ∈ msg.msg.signatures, sig.signer = b.originMsgSender ∧
      ({ msg.msg with signatures := [] }, sig) ∈ msg.msg.links := by
  have hfirst := valid.first
  cases hsigs : msg.msg.signatures with
  | nil => simp [hsigs] at hfirst
  | cons sig rest =>
      rw [hsigs, List.head?_cons, Option.map_some, Option.some.injEq] at hfirst
      exact ⟨sig, List.mem_cons_self, hfirst, mem_links.mpr ⟨[], rest, hsigs, rfl⟩⟩

def SelfSigned (b : ReliableBroadcaster T) (m : RoundMessage T) : Prop :=
  b.self.cosmosAddress ∈ m.signatures.map Signature.signer

instance (b : ReliableBroadcaster T) (m : RoundMessage T) : Decidable (b.SelfSigned m) :=
  inferInstanceAs (Decidable (_ ∈ _))

/-- The loop reads the chain from its end; `rest` is what is left of it, reversed. -/
theorem checkBackward_eq_true_iff (c : Crypto) (b : ReliableBroadcaster T) (m : RoundMessage T)
    (senderChecked : List Address) (selfSigned result : Bool) (rest : List Signature) :
    b.checkBackward c { m with signatures := rest.reverse } senderChecked selfSigned rest =
        .ok (true, result) ↔
      (∀ sig ∈ rest, sig.signer ∈ b.partiesMap) ∧ (rest.map Signature.signer).Nodup ∧
        (∀ sig ∈ rest, sig.signer ∉ senderChecked) ∧
        (∀ link ∈ ({ m with signatures := rest.reverse } : RoundMessage T).links,
          link.1.Verifies c link.2) ∧
        result = (selfSigned || decide (b.self.cosmosAddress ∈ rest.map Signature.signer)) := by
  induction rest generalizing senderChecked selfSigned with
  | nil => simp [checkBackward, RoundMessage.links, RoundMessage.linksFrom, eq_comm]
  | cons sig rest ih =>
      simp only [checkBackward, List.reverse_cons, List.dropLast_concat]
      by_cases hmember : sig.signer ∈ b.partiesMap
      swap
      · simp [hmember]
      by_cases hseen : sig.signer ∈ senderChecked
      · simp [hseen]
      rw [if_neg (not_not.mpr hmember), if_neg hseen, links_snoc, List.forall_mem_append,
        List.forall_mem_singleton]
      have hverifies := signatureValid_eq_true_iff c { m with signatures := rest.reverse } sig
      by_cases hok : ({ m with signatures := rest.reverse } : RoundMessage T).Verifies c sig
      swap
      · -- the signature does not verify: the loop ends with false or panics
        have hbad := mt hverifies.mp hok
        constructor
        · intro h
          split at h <;> simp_all
        · rintro ⟨-, -, -, ⟨-, hlast⟩, -⟩
          exact absurd hlast hok
      rw [hverifies.mpr hok]
      simp only [ih, forall_eq_or_imp, List.map_cons, List.nodup_cons, List.mem_cons, not_or,
        Bool.or_assoc, Bool.decide_or]
      constructor
      · rintro ⟨hmem, hnodup, hfresh, hlinks, rfl⟩
        refine ⟨⟨hmember, hmem⟩, ⟨?_, hnodup⟩, ⟨hseen, fun s hs => (hfresh s hs).2⟩,
          ⟨hlinks, hok⟩, ?_⟩
        · intro hdup
          obtain ⟨s, hs, heq⟩ := List.mem_map.mp hdup
          exact (hfresh s hs).1 heq
        · rw [decide_eq_decide.mpr (eq_comm (a := sig.signer))]
      · rintro ⟨⟨-, hmem⟩, ⟨hnotin, hnodup⟩, ⟨-, hfresh⟩, ⟨hlinks, -⟩, rfl⟩
        refine ⟨hmem, hnodup, fun s hs => ⟨?_, hfresh s hs⟩, hlinks, ?_⟩
        · intro heq
          exact hnotin (heq ▸ List.mem_map_of_mem hs)
        · rw [decide_eq_decide.mpr (eq_comm (a := sig.signer))]

theorem validateSignatures_eq_true_iff (c : Crypto) (b : ReliableBroadcaster T)
    (msg : ReliableBroadcastMsg T) (selfSigned : Bool) :
    b.validateSignatures c msg = .ok (true, selfSigned) ↔
      b.ChainValid c msg ∧ selfSigned = decide (b.SelfSigned msg.msg) := by
  have hloop := checkBackward_eq_true_iff c b msg.msg [] false selfSigned msg.msg.signatures.reverse
  simp only [List.reverse_reverse, List.mem_reverse, List.map_reverse, List.nodup_reverse,
    List.not_mem_nil, not_false_eq_true, implies_true, true_and, Bool.false_or] at hloop
  unfold validateSignatures
  -- a check that fails is a field of `ChainValid` that does
  by_cases hlength : (msg.msg.signatures.length : Int) = msg.msg.round + 1
  swap
  · rw [if_pos hlength]
    exact iff_of_false (by simp) fun h => hlength h.1.length
  rw [if_neg (not_not.mpr hlength)]
  cases hhead : msg.msg.signatures.head? with
  | none => exact iff_of_false (by simp) fun h => by simpa [hhead] using h.1.first
  | some first =>
      cases hlast : msg.msg.signatures.getLast? with
      | none => exact iff_of_false (by simp) fun h => by simpa [hlast] using h.1.last
      | some last =>
          by_cases hfirst : first.signer = b.originMsgSender
          swap
          · simp only [ne_eq, hfirst, not_false_eq_true, if_true]
            exact iff_of_false (by simp) fun h => hfirst (by simpa [hhead] using h.1.first)
          by_cases hsender : last.signer = msg.sender
          swap
          · simp only [ne_eq, hfirst, hsender, not_true_eq_false, not_false_eq_true, if_true,
              if_false]
            exact iff_of_false (by simp) fun h => hsender (by simpa [hlast] using h.1.last)
          simp only [ne_eq, hfirst, hsender, not_true_eq_false, if_false, hloop]
          constructor
          · rintro ⟨hmember, hdistinct, hsigned, hself⟩
            exact ⟨⟨hlength, by simp [hhead, hfirst], by simp [hlast, hsender], hmember, hdistinct,
              hsigned⟩, hself⟩
          · rintro ⟨valid, hself⟩
            exact ⟨valid.member, valid.distinct, valid.signed, hself⟩

/-! ## One received message -/

/-- The message passes the session, round and duplicate filters of `startRounds`. -/
structure Fresh (b : ReliableBroadcaster T) (msg : ReliableBroadcastMsg T) : Prop where
  session : msg.msg.sessionId = b.sessionId
  inRounds : msg.msg.round ≤ b.relayRounds
  notReceived : (msg.sender, msg.msg.round) ∉ b.receivedMsgs

instance (b : ReliableBroadcaster T) (msg : ReliableBroadcastMsg T) : Decidable (b.Fresh msg) :=
  decidable_of_iff
    (msg.msg.sessionId = b.sessionId ∧ msg.msg.round ≤ b.relayRounds ∧
      (msg.sender, msg.msg.round) ∉ b.receivedMsgs)
    ⟨fun ⟨h₁, h₂, h₃⟩ => ⟨h₁, h₂, h₃⟩, fun ⟨h₁, h₂, h₃⟩ => ⟨h₁, h₂, h₃⟩⟩

def marked (b : ReliableBroadcaster T) (msg : ReliableBroadcastMsg T) : ReliableBroadcaster T :=
  { b with receivedMsgs := (msg.sender, msg.msg.round) :: b.receivedMsgs }

/-- The signatures counted for the final chain, with our own acknowledgment. -/
def signaturesCount (b : ReliableBroadcaster T) (m : RoundMessage T) : Int :=
  m.signatures.length + if b.SelfSigned m then 0 else 1

def accepted (b : ReliableBroadcaster T) (msg : ReliableBroadcastMsg T) : ReliableBroadcaster T :=
  { (b.marked msg).addToValuesSet msg.msg.value with
    finalSigChainReached :=
      b.finalSigChainReached || decide (b.relayRounds ≤ b.signaturesCount msg.msg) }

def relay (c : Crypto) (b : ReliableBroadcaster T) (m : RoundMessage T) : Option (RoundMessage T) :=
  if b.SelfSigned m ∨ m.round + 1 = b.relayRounds then none
  else (b.self.sign (m.signHash c)).map (b.relayed m)

inductive Handled (c : Crypto) (b : ReliableBroadcaster T) (msg : ReliableBroadcastMsg T) :
    ReliableBroadcaster T → Option (RoundMessage T) → Prop
  | dropped (stale : ¬ b.Fresh msg) : Handled c b msg b none
  | rejected (fresh : b.Fresh msg) (invalid : ¬ b.ChainValid c msg) :
      Handled c b msg (b.marked msg) none
  | accepted (fresh : b.Fresh msg) (valid : b.ChainValid c msg) :
      Handled c b msg (b.accepted msg) (b.relay c msg.msg)

theorem noteChain_addToValuesSet_marked (b : ReliableBroadcaster T)
    (msg : ReliableBroadcastMsg T) :
    ((b.marked msg).addToValuesSet msg.msg.value).noteChain (b.signaturesCount msg.msg) =
      b.accepted msg := by
  have hrounds : ((b.marked msg).addToValuesSet msg.msg.value).relayRounds = b.relayRounds :=
    addToValuesSet_relayRounds _ _
  have hfinal : ((b.marked msg).addToValuesSet msg.msg.value).finalSigChainReached =
      b.finalSigChainReached := addToValuesSet_finalSigChainReached _ _
  unfold noteChain accepted
  by_cases hcount : b.relayRounds ≤ b.signaturesCount msg.msg
  · rw [if_pos (by rw [hrounds]; exact hcount), decide_eq_true hcount, Bool.or_true]
  · rw [if_neg (by rw [hrounds]; exact hcount), decide_eq_false hcount, Bool.or_false, ← hfinal]

@[simp] theorem accepted_relayRounds (b : ReliableBroadcaster T) (msg : ReliableBroadcastMsg T) :
    (b.accepted msg).relayRounds = b.relayRounds := by simp [accepted, marked]

@[simp] theorem accepted_self (b : ReliableBroadcaster T) (msg : ReliableBroadcastMsg T) :
    (b.accepted msg).self = b.self := by simp [accepted, marked]

theorem processMsg_valid {c : Crypto} {b : ReliableBroadcaster T} {msg : ReliableBroadcastMsg T}
    (valid : b.ChainValid c msg) :
    processMsg c (b.marked msg) msg = .ok (b.accepted msg, b.relay c msg.msg) := by
  have hvalidate : (b.marked msg).validateSignatures c msg =
      .ok (true, decide (b.SelfSigned msg.msg)) :=
    (validateSignatures_eq_true_iff c _ msg _).mpr ⟨⟨valid.1, valid.2, valid.3, valid.4, valid.5,
      valid.6⟩, rfl⟩
  have hstate := noteChain_addToValuesSet_marked b msg
  unfold signaturesCount at hstate
  unfold processMsg relay
  simp only [hvalidate, decide_eq_true_eq, hstate, accepted_relayRounds, accepted_self]
  by_cases hsigned : b.SelfSigned msg.msg
  · simp [hsigned]
  by_cases hround : msg.msg.round + 1 = b.relayRounds
  · simp [hsigned, hround]
  simp only [hsigned, hround, or_self, if_false]
  cases b.self.sign (msg.msg.signHash c) <;> simp [relayed]

theorem processMsg_invalid {c : Crypto} {b : ReliableBroadcaster T}
    {msg : ReliableBroadcastMsg T} {result : ReliableBroadcaster T × Option (RoundMessage T)}
    (invalid : ¬ b.ChainValid c msg) (run : processMsg c b msg = .ok result) :
    result = (b, none) := by
  unfold processMsg at run
  cases hvalidate : b.validateSignatures c msg with
  | error p =>
      rw [hvalidate] at run
      cases run
  | ok verdict =>
      obtain ⟨signaturesValid, selfSigned⟩ := verdict
      cases signaturesValid with
      | true => exact absurd ((validateSignatures_eq_true_iff c b msg _).mp hvalidate).1 invalid
      | false =>
          rw [hvalidate] at run
          cases run
          rfl

theorem handleMsg_handled {c : Crypto} {b b' : ReliableBroadcaster T}
    {msg : ReliableBroadcastMsg T} {out : Option (RoundMessage T)}
    (run : b.handleMsg c msg = .ok (b', out)) : Handled c b msg b' out := by
  unfold handleMsg at run
  by_cases hsession : msg.msg.sessionId = b.sessionId
  swap
  · rw [if_pos hsession] at run
    cases run
    exact .dropped fun fresh => hsession fresh.session
  rw [if_neg (not_not.mpr hsession)] at run
  by_cases hround : msg.msg.round > b.relayRounds
  · rw [if_pos hround] at run
    cases run
    exact .dropped fun fresh => absurd fresh.inRounds (by omega)
  rw [if_neg hround] at run
  by_cases hreceived : (msg.sender, msg.msg.round) ∈ b.receivedMsgs
  · rw [if_pos hreceived] at run
    cases run
    exact .dropped fun fresh => fresh.notReceived hreceived
  rw [if_neg hreceived] at run
  have fresh : b.Fresh msg := ⟨hsession, by omega, hreceived⟩
  by_cases hparty : msg.sender ∈ b.parties
  swap
  · rw [if_pos hparty] at run
    cases run
  rw [if_neg (not_not.mpr hparty)] at run
  by_cases valid : b.ChainValid c msg
  · cases (processMsg_valid valid).symm.trans run
    exact .accepted fresh valid
  · have hinvalid : ¬ (b.marked msg).ChainValid c msg := fun h =>
      valid ⟨h.1, h.2, h.3, h.4, h.5, h.6⟩
    cases processMsg_invalid hinvalid run
    exact .rejected fresh valid

theorem handleMsg_accepted {c : Crypto} {b : ReliableBroadcaster T} {msg : ReliableBroadcastMsg T}
    (fresh : b.Fresh msg) (hparty : msg.sender ∈ b.parties) (valid : b.ChainValid c msg) :
    b.handleMsg c msg = .ok (b.accepted msg, b.relay c msg.msg) := by
  unfold handleMsg
  rw [if_neg (not_not.mpr fresh.session), if_neg (not_lt.mpr fresh.inRounds),
    if_neg fresh.notReceived, if_neg (not_not.mpr hparty)]
  exact processMsg_valid valid

section Accepted

variable (b : ReliableBroadcaster T) (msg : ReliableBroadcastMsg T)

@[simp] theorem accepted_sessionId : (b.accepted msg).sessionId = b.sessionId := by
  simp [accepted, marked]

@[simp] theorem accepted_parties : (b.accepted msg).parties = b.parties := by
  simp [accepted, marked]

@[simp] theorem accepted_originMsgSender :
    (b.accepted msg).originMsgSender = b.originMsgSender := by
  simp [accepted, marked]

@[simp] theorem accepted_receivedMsgs :
    (b.accepted msg).receivedMsgs = (msg.sender, msg.msg.round) :: b.receivedMsgs := by
  simp [accepted, marked]

theorem mem_keys_accepted {key : GoString} :
    key ∈ (b.accepted msg).keys ↔ key ∈ b.keys ∨ key = valueKey msg.msg.value :=
  mem_keys_addToValuesSet (b := b.marked msg)

theorem accepted_final : (b.accepted msg).finalSigChainReached = true ↔
    b.finalSigChainReached = true ∨ b.relayRounds ≤ b.signaturesCount msg.msg := by
  simp [accepted]

end Accepted

/-- The fields that no message changes. -/
structure SameParty (b b' : ReliableBroadcaster T) : Prop where
  sessionId : b'.sessionId = b.sessionId
  parties : b'.parties = b.parties
  self : b'.self = b.self
  relayRounds : b'.relayRounds = b.relayRounds
  originMsgSender : b'.originMsgSender = b.originMsgSender

omit [HasHashString T] in
theorem SameParty.partiesMap {b b' : ReliableBroadcaster T} (h : SameParty b b') :
    b'.partiesMap = b.partiesMap := by
  unfold ReliableBroadcaster.partiesMap
  rw [h.self, h.parties]

section Step

variable {c : Crypto} {b b' : ReliableBroadcaster T} {msg : ReliableBroadcastMsg T}
  {out : Option (RoundMessage T)}

theorem Handled.sameParty (h : Handled c b msg b' out) : SameParty b b' := by
  cases h with
  | dropped _ => exact ⟨rfl, rfl, rfl, rfl, rfl⟩
  | rejected _ _ => exact ⟨rfl, rfl, rfl, rfl, rfl⟩
  | accepted _ _ => constructor <;> simp

theorem Handled.keys_subset (h : Handled c b msg b' out) : b.keys ⊆ b'.keys := by
  intro key hkey
  cases h with
  | dropped _ => exact hkey
  | rejected _ _ => exact hkey
  | accepted _ _ => exact (mem_keys_accepted b msg).mpr (.inl hkey)

theorem Handled.final_mono (h : Handled c b msg b' out) (hfinal : b.finalSigChainReached = true) :
    b'.finalSigChainReached = true := by
  cases h with
  | dropped _ => exact hfinal
  | rejected _ _ => exact hfinal
  | accepted _ _ => exact (accepted_final b msg).mpr (.inl hfinal)

theorem Handled.received_subset (h : Handled c b msg b' out) :
    b.receivedMsgs ⊆ b'.receivedMsgs := by
  intro entry hentry
  cases h with
  | dropped _ => exact hentry
  | rejected _ _ => exact List.mem_cons_of_mem _ hentry
  | accepted _ _ =>
      rw [accepted_receivedMsgs]
      exact List.mem_cons_of_mem _ hentry

/-- Only the sender and round of the message itself are newly marked. -/
theorem Handled.received_new (h : Handled c b msg b' out) {entry : Address × Int}
    (hnew : entry ∈ b'.receivedMsgs) (hold : entry ∉ b.receivedMsgs) :
    entry = (msg.sender, msg.msg.round) := by
  cases h with
  | dropped _ => exact absurd hnew hold
  | rejected _ _ => exact (List.mem_cons.mp hnew).resolve_right hold
  | accepted _ _ =>
      rw [accepted_receivedMsgs] at hnew
      exact (List.mem_cons.mp hnew).resolve_right hold

theorem Handled.nodup_keys (h : Handled c b msg b' out) (hnodup : b.keys.Nodup) :
    b'.keys.Nodup := by
  cases h with
  | dropped _ => exact hnodup
  | rejected _ _ => exact hnodup
  | accepted _ _ => exact nodup_keys_addToValuesSet (b := b.marked msg) msg.msg.value hnodup

theorem Handled.valuesKeyed (h : Handled c b msg b' out) (hkeyed : b.ValuesKeyed) :
    b'.ValuesKeyed := by
  cases h with
  | dropped _ => exact hkeyed
  | rejected _ _ => exact hkeyed
  | accepted _ _ => exact valuesKeyed_addToValuesSet (b := b.marked msg) msg.msg.value hkeyed

theorem Handled.eq_accepted (h : Handled c b msg b' out) (fresh : b.Fresh msg)
    (valid : b.ChainValid c msg) : b' = b.accepted msg ∧ out = b.relay c msg.msg := by
  cases h with
  | dropped stale => exact absurd fresh stale
  | rejected _ invalid => exact absurd valid invalid
  | accepted _ _ => exact ⟨rfl, rfl⟩

end Step

/-! ## Panics -/

theorem checkBackward_ok (c : Crypto) (b : ReliableBroadcaster T)
    (decodable : ∀ a ∈ b.partiesMap, (c.decodeAddress a).isSome) (m : RoundMessage T)
    (senderChecked : List Address) (selfSigned : Bool) (rest : List Signature) :
    ∃ result, b.checkBackward c m senderChecked selfSigned rest = .ok result := by
  induction rest generalizing m senderChecked selfSigned with
  | nil => exact ⟨_, rfl⟩
  | cons sig rest ih =>
      unfold checkBackward
      by_cases hmember : sig.signer ∈ b.partiesMap
      swap
      · exact ⟨_, if_pos hmember⟩
      rw [if_neg (not_not.mpr hmember)]
      by_cases hseen : sig.signer ∈ senderChecked
      · exact ⟨_, if_pos hseen⟩
      rw [if_neg hseen]
      obtain ⟨address, haddress⟩ := Option.isSome_iff_exists.mp (decodable _ hmember)
      simp only [RoundMessage.signatureValid, haddress]
      cases c.sigToAddress _ sig.value with
      | none => exact ⟨_, rfl⟩
      | some recovered =>
          by_cases heq : recovered = address
          · simp only [heq, decide_true]
            exact ih _ _ _
          · simp only [heq, decide_false]
            exact ⟨_, rfl⟩

theorem validateSignatures_ok {c : Crypto} {b : ReliableBroadcaster T}
    {msg : ReliableBroadcastMsg T} (decodable : ∀ a ∈ b.partiesMap, (c.decodeAddress a).isSome)
    (hchain : ¬ (msg.msg.round = -1 ∧ msg.msg.signatures = [])) :
    ∃ verdict, b.validateSignatures c msg = .ok verdict := by
  unfold validateSignatures
  split
  · exact ⟨_, rfl⟩
  rename_i hlength
  cases hsigs : msg.msg.signatures with
  | nil =>
      rw [hsigs] at hlength hchain
      simp only [List.length_nil, Nat.cast_zero, ne_eq, not_not] at hlength
      exact absurd ⟨by omega, rfl⟩ hchain
  | cons first rest =>
      obtain ⟨last, hlast⟩ : ∃ last, (first :: rest).getLast? = some last :=
        ⟨_, List.getLast?_eq_some_getLast (List.cons_ne_nil first rest)⟩
      simp only [List.head?_cons, hlast]
      split
      · exact ⟨_, rfl⟩
      split
      · exact ⟨_, rfl⟩
      exact checkBackward_ok c b decodable _ _ _ _

/-- With decodable party addresses, the receive loop panics only on an empty chain that
claims round -1. -/
theorem handleMsg_ok {c : Crypto} {b : ReliableBroadcaster T} {msg : ReliableBroadcastMsg T}
    (decodable : ∀ a ∈ b.partiesMap, (c.decodeAddress a).isSome) (hparty : msg.sender ∈ b.parties)
    (hchain : ¬ (msg.msg.round = -1 ∧ msg.msg.signatures = [])) :
    ∃ result, b.handleMsg c msg = .ok result := by
  have hvalidate : ∃ verdict, (b.marked msg).validateSignatures c msg = .ok verdict :=
    validateSignatures_ok decodable hchain
  obtain ⟨⟨signaturesValid, selfSigned⟩, hverdict⟩ := hvalidate
  unfold handleMsg
  split
  · exact ⟨_, rfl⟩
  split
  · exact ⟨_, rfl⟩
  split
  · exact ⟨_, rfl⟩
  unfold marked at hverdict
  unfold processMsg
  rw [hverdict]
  cases signaturesValid with
  | false => exact ⟨_, rfl⟩
  | true =>
      dsimp only
      repeat' split
      all_goals exact ⟨_, rfl⟩

/-- An empty chain that claims round -1 stops the party. -/
theorem handleMsg_emptyChain {c : Crypto} {b : ReliableBroadcaster T}
    {msg : ReliableBroadcastMsg T} (fresh : b.Fresh msg) (hparty : msg.sender ∈ b.parties)
    (hround : msg.msg.round = -1) (hsigs : msg.msg.signatures = []) :
    b.handleMsg c msg = .error .indexOutOfRange := by
  unfold handleMsg
  rw [if_neg (not_not.mpr fresh.session), if_neg (not_lt.mpr fresh.inRounds),
    if_neg fresh.notReceived, if_neg (not_not.mpr hparty)]
  simp [processMsg, validateSignatures, hround, hsigs]

end ReliableBroadcaster

end TssSvc.Broadcast
