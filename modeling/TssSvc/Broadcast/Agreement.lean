import TssSvc.Broadcast.Relay

/-!
# Agreement on the delivered value

The callers of `EnsureValid` go on with the value of the round-0 message they passed in,
while the verdict is computed from the messages that pass the filters of `startRounds`.
A party that took its own round-0 message and found it valid relays its value to all
others, so two such parties agree.  A party whose round-0 message was dropped may decide on
relays of another value, and uses the dropped one.
-/

set_option autoImplicit false

namespace TssSvc.Broadcast

namespace Setup

variable {T : Type} [HasHashString T] [DecidableEq T] {s : Setup} {net : Net T}
  {allowed : Net T → Label T → Prop}

/-- A message of round 1 relays the round-0 message the party was called with. -/
theorem sent_round_one (reached : (s.machine T).Reachable allowed net) {p : Address}
    {node : Node T} (hnode : net p = some node) {msg : ReliableBroadcastMsg T}
    (hentry : node.entry = .ensureValid msg) :
    ∀ m ∈ node.sent, m.round = 1 → m.value = msg.msg.value := by
  refine node_invariant (P := fun _ _ node => ∀ msg, node.entry = .ensureValid msg →
      ∀ m ∈ node.sent, m.round = 1 → m.value = msg.msg.value)
    (fun _ _ _ _ _ _ h => h) ?_ ?_ ?_ reached p node hnode msg hentry
  · intro net value node _ _ began msg hentry
    cases began <;> cases hentry
  · intro net p msg _ _ _ _ _ _ msg _ m hm
    cases hm
  · intro net p node msg node' _ ih _ present deliverable took msg' hentry m hm hround
    cases took with
    | panicked _ _ => exact ih p node present msg' hentry m hm hround
    | handled b out run =>
        rcases List.mem_append.mp hm with hold | hnew
        · exact ih p node present msg' hentry m hold hround
        · cases ReliableBroadcaster.handleMsg_handled run with
          | dropped _ => cases hnew
          | rejected _ _ => cases hnew
          | accepted _ _ =>
              rw [Option.mem_toList] at hnew
              obtain ⟨-, -, sig, -, rfl⟩ := relay_eq_some hnew
              have hzero : msg.msg.round = 0 := by
                simp only [ReliableBroadcaster.relayed] at hround
                omega
              cases (deliverable.routed hzero).symm.trans hentry
              rfl

structure EntryValid (s : Setup) (msg : ReliableBroadcastMsg T) : Prop where
  session : msg.msg.sessionId = s.sessionId
  chain : s.Chain s.origin msg.msg

/-- The value of the round-0 message is held and has been relayed. -/
def Relayed (node : Node T) (msg : ReliableBroadcastMsg T) : Prop :=
  valueKey msg.msg.value ∈ node.broadcaster.keys ∧
    ∃ m ∈ node.sent, m.round = 1 ∧ m.value = msg.msg.value

omit [DecidableEq T] in
theorem Chain.signers_of_round_zero {sender : Address} {m : RoundMessage T}
    (h : s.Chain sender m) (hround : m.round = 0) :
    m.signatures.map Signature.signer = [s.origin] := by
  have hlength := h.length
  have hfirst := h.first
  obtain ⟨sig, hsig⟩ := List.length_eq_one_iff.mp (show m.signatures.length = 1 by omega)
  simpa [hsig] using hfirst

/-- Once the round-0 message is marked as received, its value has been relayed. -/
theorem entry_relayed (keys : s.KeysWork) (rounds : 2 ≤ s.relayRounds)
    (reached : (s.machine T).Reachable allowed net) {p : Address} {node : Node T}
    (hnode : net p = some node) {msg : ReliableBroadcastMsg T}
    (hentry : node.entry = .ensureValid msg) (hvalid : s.EntryValid msg)
    (hreceived : (s.origin, 0) ∈ node.broadcaster.receivedMsgs) : Relayed node msg := by
  refine node_invariant (P := fun _ _ node => ∀ msg, node.entry = .ensureValid msg →
      s.EntryValid msg → (s.origin, 0) ∈ node.broadcaster.receivedMsgs → Relayed node msg)
    (fun _ _ _ _ _ _ h => h) ?_ ?_ ?_ reached p node hnode msg hentry hvalid hreceived
  · intro net value node _ _ began msg hentry
    cases began <;> cases hentry
  · intro net p msg _ _ _ _ _ _ msg _ _ hreceived
    cases hreceived
  · intro net p node msg node' before ih _ present deliverable took msg' hentry hvalid hreceived
    have hwf := wellFormed before present
    have hconf := hwf.configured
    cases took with
    | panicked _ _ => exact ih p node present msg' hentry hvalid hreceived
    | handled b out run =>
        have handled := ReliableBroadcaster.handleMsg_handled run
        by_cases hold : (s.origin, 0) ∈ node.broadcaster.receivedMsgs
        · obtain ⟨hkey, m, hm, hrest⟩ := ih p node present msg' hentry hvalid hold
          exact ⟨handled.keys_subset hkey, m, List.mem_append_left _ hm, hrest⟩
        · -- the round-0 message is taken now
          obtain ⟨hsender, hround⟩ := Prod.mk.inj (handled.received_new hreceived hold)
          cases (deliverable.routed hround.symm).symm.trans hentry
          have hvalid' : node.broadcaster.ChainValid s.crypto msg :=
            (hconf.chainValid_iff hwf.member).mpr (hsender ▸ hvalid.chain)
          cases handled with
          | dropped _ => exact absurd hreceived hold
          | rejected _ invalid => exact absurd hvalid' invalid
          | accepted _ _ =>
              have hacceptor : p ≠ s.origin := by
                have hok := hwf.entry
                rw [show node.entry = .ensureValid msg from hentry] at hok
                exact hok.1
              have hself : ¬ node.broadcaster.SelfSigned msg.msg := by
                rw [hconf.selfSigned_iff, hvalid.chain.signers_of_round_zero hround.symm,
                  List.mem_singleton]
                exact hacceptor
              obtain ⟨sig, hrelay⟩ := relay_eq_relayed keys hwf.honest hconf hself (by omega)
              refine ⟨(ReliableBroadcaster.mem_keys_accepted _ _).mpr (.inr rfl),
                node.broadcaster.relayed msg.msg sig, List.mem_append_right _ ?_, ?_, rfl⟩
              · rw [hrelay]
                exact List.mem_singleton_self _
              · simp only [ReliableBroadcaster.relayed]
                omega

theorem entry_received (rounds : 2 ≤ s.relayRounds) (reached : (s.machine T).Reachable allowed net)
    {p : Address} {node : Node T} (hnode : net p = some node) (hrunning : node.status = .running)
    {msg : ReliableBroadcastMsg T} (hentry : node.entry = .ensureValid msg)
    (hvalid : s.EntryValid msg) (htaken : msg ∈ node.taken) :
    (s.origin, 0) ∈ node.broadcaster.receivedMsgs := by
  refine node_invariant (P := fun _ _ node => node.status = .running → ∀ msg,
      node.entry = .ensureValid msg → s.EntryValid msg → msg ∈ node.taken →
        (s.origin, 0) ∈ node.broadcaster.receivedMsgs)
    (fun _ _ _ _ _ _ h => h) ?_ ?_ ?_ reached p node hnode hrunning msg hentry hvalid htaken
  · intro net value node _ _ began _ msg hentry
    cases began <;> cases hentry
  · intro net p msg _ _ _ _ _ _ _ msg _ _ htaken
    cases htaken
  · intro net p node msg node' before ih _ present _ took hrunning msg' hentry hvalid htaken
    have hwf := wellFormed before present
    have hconf := hwf.configured
    cases took with
    | panicked _ _ => cases hrunning
    | handled b out run =>
        have handled := ReliableBroadcaster.handleMsg_handled run
        rcases List.mem_append.mp htaken with hold | hnew
        · exact handled.received_subset (ih p node present hrunning msg' hentry hvalid hold)
        · obtain rfl := List.mem_singleton.mp hnew
          have hok := hwf.entry
          rw [show node.entry = .ensureValid msg' from hentry] at hok
          obtain ⟨-, hsender, hround⟩ := hok
          have hmark : (s.origin, 0) = (msg'.sender, msg'.msg.round) := by rw [hsender, hround]
          rw [hmark]
          cases handled with
          | dropped stale =>
              by_contra hnot
              refine stale ⟨hvalid.session.trans hconf.sessionId.symm, ?_, hnot⟩
              rw [hround, hconf.relayRounds]
              omega
          | rejected _ _ => exact List.mem_cons_self
          | accepted _ _ =>
              rw [ReliableBroadcaster.accepted_receivedMsgs]
              exact List.mem_cons_self

/-- The party took its own round-0 message before the deadline, and it was valid. -/
structure HeldEntry (s : Setup) (node : Node T) (msg : ReliableBroadcastMsg T) : Prop where
  taken : msg ∈ node.taken
  valid : s.EntryValid msg

/-- Two acceptors that return true and hold their own round-0 messages hold values of one key, as
soon as one of them has processed what the other broadcast. -/
theorem valueKey_eq_of_delivered (keys : s.KeysWork) (rounds : 2 ≤ s.relayRounds)
    (reached : (s.machine T).Reachable allowed net) {p q : Address} {nodeP nodeQ : Node T}
    (hp : net p = some nodeP) (hq : net q = some nodeQ) {mP mQ : ReliableBroadcastMsg T}
    (entryP : nodeP.entry = .ensureValid mP) (entryQ : nodeQ.entry = .ensureValid mQ)
    (delivered : ∀ m ∈ nodeP.sent, (⟨m, p⟩ : ReliableBroadcastMsg T) ∈ nodeQ.taken)
    (verdictP : nodeP.verdict = some true) (verdictQ : nodeQ.verdict = some true)
    (heldP : s.HeldEntry nodeP mP) (heldQ : s.HeldEntry nodeQ mQ) :
    valueKey mP.msg.value = valueKey mQ.msg.value := by
  obtain ⟨runningP, -⟩ := Node.verdict_eq_true verdictP
  obtain ⟨runningQ, validQ⟩ := Node.verdict_eq_true verdictQ
  have ownP := entry_relayed keys rounds reached hp entryP heldP.valid
    (entry_received rounds reached hp runningP entryP heldP.valid heldP.taken)
  have ownQ := entry_relayed keys rounds reached hq entryQ heldQ.valid
    (entry_received rounds reached hq runningQ entryQ heldQ.valid heldQ.taken)
  -- p's value reaches q with p's round-1 message
  obtain ⟨-, m, hm, hround, hvalue⟩ := ownP
  have honestP := (wellFormed reached hp).honest
  have hreceived := taken_received keys reached hq runningQ (delivered m hm) honestP
    (by rw [hround]; omega)
  obtain ⟨m', hm', hround', hkey, -⟩ := received_accepted keys reached hq honestP hreceived
  rw [Net.sent_of_some hp] at hm'
  rw [sent_round_one reached hp entryP m' hm' (hround'.trans hround)] at hkey
  -- q is left with one key
  have hone := ((ReliableBroadcaster.decideValid_eq_true_iff _).mp validQ).1
  obtain ⟨key, hsingle⟩ := List.length_eq_one_iff.mp hone
  rw [hsingle, List.mem_singleton] at hkey
  have hkeyQ := ownQ.1
  rw [hsingle, List.mem_singleton] at hkeyQ
  exact hkey.trans hkeyQ.symm

/-- Such acceptors use the same value.  Nil and a value with the empty hash string have one key, so
the two must not meet. -/
theorem delivered_value_agreement (keys : s.KeysWork) (rounds : 2 ≤ s.relayRounds)
    (reached : (s.machine T).Reaches net) {p q : Address} {nodeP nodeQ : Node T}
    (hp : net p = some nodeP) (hq : net q = some nodeQ) {mP mQ : ReliableBroadcastMsg T}
    (entryP : nodeP.entry = .ensureValid mP) (entryQ : nodeQ.entry = .ensureValid mQ)
    (delivered : ∀ m ∈ nodeP.sent, (⟨m, p⟩ : ReliableBroadcastMsg T) ∈ nodeQ.taken)
    (verdictP : nodeP.verdict = some true) (verdictQ : nodeQ.verdict = some true)
    (heldP : s.HeldEntry nodeP mP) (heldQ : s.HeldEntry nodeQ mQ)
    (nilP : mP.msg.value = none → mQ.msg.value.map hashString ≠ some [])
    (nilQ : mQ.msg.value = none → mP.msg.value.map hashString ≠ some []) :
    mP.msg.value.map hashString = mQ.msg.value.map hashString := by
  have hsame := valueKey_eq_of_delivered keys rounds reached hp hq entryP entryQ delivered verdictP
    verdictQ heldP heldQ
  cases hP : mP.msg.value <;> cases hQ : mQ.msg.value <;> simp_all [valueKey]

def properEntry : ReliableBroadcastMsg SamplePayload := ⟨sampleChain (some ⟨str "b"⟩) [3], [3]⟩

/-- Parties 1 and 2 both take the message of the origin 3, and the relay of the other. -/
def agreementRun : List (Label SamplePayload) :=
  [.ensureValid [1] properEntry, .ensureValid [2] properEntry, .take [1] properEntry,
    .take [2] properEntry, .take [1] ⟨sampleChain (some ⟨str "b"⟩) [3, 2], [2]⟩,
    .take [2] ⟨sampleChain (some ⟨str "b"⟩) [3, 1], [1]⟩]

theorem properEntry_valid : (sampleSetup [1, 2, 3] [1, 2] 1 3).EntryValid properEntry :=
  ⟨rfl, ⟨rfl, rfl, rfl, by decide, by decide, by decide⟩⟩

theorem delivered_value_agreement_agreementRun :
    ∃ net nodeP nodeQ mP mQ,
      Machine.Reaches ((sampleSetup [1, 2, 3] [1, 2] 1 3).machine SamplePayload) net ∧
      net [1] = some nodeP ∧ net [2] = some nodeQ ∧
      nodeP.entry = .ensureValid mP ∧ nodeQ.entry = .ensureValid mQ ∧
      nodeP.verdict = some true ∧ nodeQ.verdict = some true ∧
      mP.msg.value.map hashString = mQ.msg.value.map hashString := by
  have hrun : ((sampleRun (sampleSetup [1, 2, 3] [1, 2] 1 3) (fun _ _ => True)
      agreementRun).bind fun net =>
      (net [1]).bind fun nodeP => (net [2]).map fun nodeQ =>
        decide (nodeP.entry = .ensureValid properEntry ∧
          nodeQ.entry = .ensureValid properEntry ∧
          properEntry ∈ nodeP.taken ∧ properEntry ∈ nodeQ.taken ∧
          (∀ m ∈ nodeP.sent, (⟨m, [1]⟩ : ReliableBroadcastMsg SamplePayload) ∈ nodeQ.taken) ∧
          nodeP.verdict = some true ∧ nodeQ.verdict = some true)) = some true := by decide
  obtain ⟨net, hnet, hrun⟩ := Option.bind_eq_some_iff.mp hrun
  obtain ⟨nodeP, hp, hrun⟩ := Option.bind_eq_some_iff.mp hrun
  obtain ⟨nodeQ, hq, hrun⟩ := Option.map_eq_some_iff.mp hrun
  obtain ⟨entryP, entryQ, takenP, takenQ, toQ, verdictP, verdictQ⟩ := of_decide_eq_true hrun
  have reached := sampleRun_reaches hnet
  have hagree := delivered_value_agreement (s := sampleSetup [1, 2, 3] [1, 2] 1 3)
    (sampleSetup_keysWork _ _ _ _) (by decide) reached hp hq entryP entryQ toQ verdictP verdictQ
    ⟨takenP, properEntry_valid⟩ ⟨takenQ, properEntry_valid⟩ (by decide) (by decide)
  exact ⟨net, nodeP, nodeQ, _, _, reached, hp, hq, entryP, entryQ, verdictP, verdictQ, hagree⟩

/-- Party 3, the origin, sends party 1 a round-0 message with a foreign session id and party 2
a valid one of another value.  Party 1 decides on the relay of party 2. -/
def foreignEntry : ReliableBroadcastMsg SamplePayload :=
  ⟨{ sampleChain (some ⟨str "a"⟩) [3] with sessionId := str "other" }, [3]⟩

def disagreementRun : List (Label SamplePayload) :=
  [.ensureValid [1] foreignEntry, .ensureValid [2] properEntry, .take [1] foreignEntry,
    .take [2] properEntry, .take [1] ⟨sampleChain (some ⟨str "b"⟩) [3, 2], [2]⟩]

theorem delivered_value_disagreement :
    ∃ net nodeP nodeQ,
      Machine.Reaches ((sampleSetup [1, 2, 3] [1, 2] 1 3).machine SamplePayload) net ∧
      (sampleSetup [1, 2, 3] [1, 2] 1 3).relayRounds = 2 ∧
      net [1] = some nodeP ∧ net [2] = some nodeQ ∧
      nodeP.entry = .ensureValid foreignEntry ∧ nodeQ.entry = .ensureValid properEntry ∧
      (∀ m ∈ nodeP.sent, (⟨m, [1]⟩ : ReliableBroadcastMsg SamplePayload) ∈ nodeQ.taken) ∧
      (∀ m ∈ nodeQ.sent, (⟨m, [2]⟩ : ReliableBroadcastMsg SamplePayload) ∈ nodeP.taken) ∧
      nodeP.verdict = some true ∧ nodeQ.verdict = some true ∧
      foreignEntry.msg.value.map hashString ≠ properEntry.msg.value.map hashString := by
  have hrun : ((sampleRun (sampleSetup [1, 2, 3] [1, 2] 1 3) (fun _ _ => True)
      disagreementRun).bind fun net =>
      (net [1]).bind fun nodeP => (net [2]).map fun nodeQ =>
        decide (nodeP.entry = .ensureValid foreignEntry ∧
          nodeQ.entry = .ensureValid properEntry ∧
          (∀ m ∈ nodeP.sent, (⟨m, [1]⟩ : ReliableBroadcastMsg SamplePayload) ∈ nodeQ.taken) ∧
          (∀ m ∈ nodeQ.sent, (⟨m, [2]⟩ : ReliableBroadcastMsg SamplePayload) ∈ nodeP.taken) ∧
          nodeP.verdict = some true ∧ nodeQ.verdict = some true)) = some true := by decide
  obtain ⟨net, hnet, hrun⟩ := Option.bind_eq_some_iff.mp hrun
  obtain ⟨nodeP, hp, hrun⟩ := Option.bind_eq_some_iff.mp hrun
  obtain ⟨nodeQ, hq, hrun⟩ := Option.map_eq_some_iff.mp hrun
  obtain ⟨entryP, entryQ, toQ, toP, verdictP, verdictQ⟩ := of_decide_eq_true hrun
  exact ⟨net, nodeP, nodeQ, sampleRun_reaches hnet, by decide, hp, hq, entryP, entryQ, toQ, toP,
    verdictP, verdictQ, by decide⟩

end Setup

end TssSvc.Broadcast
