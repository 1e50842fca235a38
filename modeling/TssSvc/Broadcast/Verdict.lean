import Mathlib.Data.List.Perm.Subperm
import TssSvc.Broadcast.Relay

/-!
# Agreement on the verdict

The argument is that of Dolev and Strong: a chain with as many signatures as there are
relay rounds has an honest signer, and an honest signer has shown its prefix of the chain to
everybody.  It carries the value sets over to all parties.

The code departs from the protocol at two points, and the verdicts can differ there.  A
complete chain is not relayed any further, so it can be shown to a single party and raise
the final flag at that party only.  Of two messages with one sender and one round only the
first is processed, although an honest party may relay two values in the same round.
-/

set_option autoImplicit false

namespace TssSvc.Broadcast

namespace Setup

variable {T : Type} [HasHashString T] {s : Setup}

def malicious (s : Setup) : List Address := s.group.filter fun a => !s.honest a

/-- What a message taken must avoid: it is not the empty chain of round -1, it does not bring
a complete chain from a malicious sender to a party that has seen none, and it does not
repeat the round of an honest sender with a value that is not held. -/
structure OrderlyTake (s : Setup) (node : Node T) (msg : ReliableBroadcastMsg T) : Prop where
  nonempty : ¬ (msg.msg.round = -1 ∧ msg.msg.signatures = [])
  complete : s.honest msg.sender = false → node.broadcaster.Fresh msg →
    node.broadcaster.ChainValid s.crypto msg → s.relayRounds ≤ msg.msg.signatures.length →
      node.broadcaster.finalSigChainReached = true
  repeated : s.honest msg.sender = true →
    (msg.sender, msg.msg.round) ∈ node.broadcaster.receivedMsgs →
      valueKey msg.msg.value ∈ node.broadcaster.keys

instance (node : Node T) (msg : ReliableBroadcastMsg T) : Decidable (s.OrderlyTake node msg) :=
  decidable_of_iff
    (¬ (msg.msg.round = -1 ∧ msg.msg.signatures = []) ∧
      (s.honest msg.sender = false → node.broadcaster.Fresh msg →
        node.broadcaster.ChainValid s.crypto msg → s.relayRounds ≤ msg.msg.signatures.length →
          node.broadcaster.finalSigChainReached = true) ∧
      (s.honest msg.sender = true →
        (msg.sender, msg.msg.round) ∈ node.broadcaster.receivedMsgs →
          valueKey msg.msg.value ∈ node.broadcaster.keys))
    ⟨fun ⟨h₁, h₂, h₃⟩ => ⟨h₁, h₂, h₃⟩, fun ⟨h₁, h₂, h₃⟩ => ⟨h₁, h₂, h₃⟩⟩

def Orderly (s : Setup) (net : Net T) : Label T → Prop
  | .take p msg => ∀ node ∈ net p, s.OrderlyTake node msg
  | _ => True

instance (net : Net T) : (label : Label T) → Decidable (s.Orderly net label)
  | .take p msg => inferInstanceAs (Decidable (∀ node ∈ net p, s.OrderlyTake node msg))
  | .broadcast _ _ => isTrue trivial
  | .ensureValid _ _ => isTrue trivial

/-! ## Chains without honest signers are short -/

theorem Chain.length_le_malicious {sender : Address} {m : RoundMessage T} (chain : s.Chain sender m)
    (none_honest : ∀ sig ∈ m.signatures, s.honest sig.signer = false) :
    m.signatures.length ≤ s.malicious.length := by
  have hsubset : m.signatures.map Signature.signer ⊆ s.malicious := by
    intro a ha
    obtain ⟨sig, hsig, rfl⟩ := List.mem_map.mp ha
    exact List.mem_filter.mpr ⟨chain.member sig hsig, by rw [none_honest sig hsig]; rfl⟩
  have hle := (chain.distinct.subperm hsubset).length_le
  rwa [List.length_map] at hle

variable [DecidableEq T] {net : Net T} {allowed : Net T → Label T → Prop}

/-- An honest signer of an accepted chain has broadcast the value in a round that the others
process. -/
theorem honest_signer_sent (keys : s.KeysWork) (free : s.crypto.CollisionFree)
    (reached : (s.machine T).Reachable allowed net) {sender : Address} {m : RoundMessage T}
    (chain : s.Chain sender m) (session : m.sessionId = s.sessionId)
    (unforged : s.Unforged net m) (hround : m.round ≤ s.relayRounds) {sig : Signature}
    (hsig : sig ∈ m.signatures) (honest : s.honest sig.signer = true) :
    ∃ m' ∈ net.sent sig.signer, valueKey m'.value = valueKey m.value ∧
      m'.round ≤ s.relayRounds := by
  obtain ⟨part, hlink⟩ := exists_link_of_mem hsig
  obtain ⟨m', hm', hhash⟩ := unforged session _ hlink honest (chain.signed _ hlink)
  obtain ⟨pre, post, hsplit, rfl⟩ := mem_links.mp hlink
  obtain ⟨-, hvalue, hsigs⟩ := signHash_injective free hhash
  obtain ⟨node, -, hok⟩ := sentOk_of_mem_sent keys reached hm'
  refine ⟨m', hm', ?_, ?_⟩
  · exact valueKey_eq_of_map_eq hvalue
  · -- the signer's message is as long as its prefix of the chain
    have hlen := hok.chain.length_unsigned
    rw [hsigs] at hlen
    dsimp only at hlen
    have htotal := chain.length
    rw [hsplit, List.length_append, List.length_cons] at htotal
    push_cast at htotal
    omega

/-! ## Values and final flags are backed by honest broadcasts -/

/-- Every value and the final flag of the node go back to a message that an honest party
broadcast in a round the others process. -/
structure Backed (s : Setup) (net : Net T) (node : Node T) : Prop where
  key : ∀ key ∈ node.broadcaster.keys, ∃ h, ∃ m ∈ net.sent h,
    valueKey m.value = key ∧ m.round ≤ s.relayRounds
  final : node.broadcaster.finalSigChainReached = true → ∃ h, ∃ m ∈ net.sent h,
    m.round ≤ s.relayRounds ∧ s.relayRounds ≤ m.round + 1

omit [DecidableEq T] in
theorem Backed.mono {net net' : Net T} {node : Node T} (h : s.Backed net node)
    (hsub : ∀ a, net.sent a ⊆ net'.sent a) : s.Backed net' node where
  key := by
    intro key hkey
    obtain ⟨a, m, hm, hrest⟩ := h.key key hkey
    exact ⟨a, m, hsub a hm, hrest⟩
  final := by
    intro hfinal
    obtain ⟨a, m, hm, hrest⟩ := h.final hfinal
    exact ⟨a, m, hsub a hm, hrest⟩

/-- The value of an accepted chain has been broadcast by an honest signer, or the chain is short
and we relay it. -/
theorem accepted_key_sent (keys : s.KeysWork) (free : s.crypto.CollisionFree)
    (bound : (s.malicious.length : Int) ≤ s.relayRounds - 1)
    (reached : (s.machine T).Reachable allowed net) {p : Address} {node : Node T}
    (present : net p = some node) {msg : ReliableBroadcastMsg T}
    (deliverable : s.Deliverable net p node msg) (fresh : node.broadcaster.Fresh msg)
    (valid : node.broadcaster.ChainValid s.crypto msg) {net' : Net T}
    (hsub : ∀ a, net.sent a ⊆ net'.sent a)
    (hrelay : ∀ m ∈ node.broadcaster.relay s.crypto msg.msg, m ∈ net'.sent p) :
    ∃ h, ∃ m ∈ net'.sent h, valueKey m.value = valueKey msg.msg.value ∧
      m.round ≤ s.relayRounds := by
  have hwf := wellFormed reached present
  have hconf := hwf.configured
  have hchain := (hconf.chainValid_iff hwf.member).mp valid
  have hlength := hchain.length
  by_cases hsigner : ∃ sig ∈ msg.msg.signatures, s.honest sig.signer = true
  · obtain ⟨sig, hsig, honest⟩ := hsigner
    obtain ⟨m, hm, hkey, hle⟩ := honest_signer_sent keys free reached hchain
      (fresh.session.trans hconf.sessionId) deliverable.unforged
      (fresh.inRounds.trans_eq hconf.relayRounds) hsig honest
    exact ⟨sig.signer, m, hsub _ hm, hkey, hle⟩
  · have hnone : ∀ sig ∈ msg.msg.signatures, s.honest sig.signer = false := by
      intro sig hsig
      by_contra honest
      exact hsigner ⟨sig, hsig, by simpa using honest⟩
    have hshort := hchain.length_le_malicious hnone
    have hself : ¬ node.broadcaster.SelfSigned msg.msg := by
      rw [hconf.selfSigned_iff]
      intro hmem
      obtain ⟨sig, hsig, rfl⟩ := List.mem_map.mp hmem
      exact hsigner ⟨sig, hsig, hwf.honest⟩
    obtain ⟨sig, hsome⟩ := relay_eq_relayed keys hwf.honest hconf hself (by omega)
    refine ⟨p, _, hrelay _ hsome, rfl, ?_⟩
    simp only [ReliableBroadcaster.relayed]
    omega

/-- The step lemma: a message accepted in an orderly way leaves the node backed. -/
theorem backed_accepted (keys : s.KeysWork) (free : s.crypto.CollisionFree)
    (bound : (s.malicious.length : Int) ≤ s.relayRounds - 1)
    (reached : (s.machine T).Reachable allowed net) {p : Address} {node : Node T}
    (present : net p = some node) {msg : ReliableBroadcastMsg T}
    (deliverable : s.Deliverable net p node msg) (orderly : s.OrderlyTake node msg)
    (backed : s.Backed net node) (fresh : node.broadcaster.Fresh msg)
    (valid : node.broadcaster.ChainValid s.crypto msg) {net' : Net T} {node' : Node T}
    (hsub : ∀ a, net.sent a ⊆ net'.sent a)
    (hrelay : ∀ m ∈ node.broadcaster.relay s.crypto msg.msg, m ∈ net'.sent p)
    (hnode' : node'.broadcaster = node.broadcaster.accepted msg) : s.Backed net' node' := by
  have hwf := wellFormed reached present
  have hconf := hwf.configured
  have hlength := valid.length
  have hround : msg.msg.round ≤ s.relayRounds := fresh.inRounds.trans_eq hconf.relayRounds
  have hbacked := backed.mono hsub
  constructor
  · intro key hkey
    rw [hnode'] at hkey
    rcases (ReliableBroadcaster.mem_keys_accepted _ _).mp hkey with hold | rfl
    · exact hbacked.key key hold
    · exact accepted_key_sent keys free bound reached present deliverable fresh valid hsub hrelay
  · intro hfinal
    rw [hnode'] at hfinal
    rcases (ReliableBroadcaster.accepted_final _ _).mp hfinal with hold | hcount
    · exact hbacked.final hold
    rw [hconf.relayRounds] at hcount
    by_cases hcomplete : s.relayRounds ≤ msg.msg.signatures.length
    · cases honest : s.honest msg.sender with
      | false => exact hbacked.final (orderly.complete honest fresh valid hcomplete)
      | true =>
          exact ⟨msg.sender, msg.msg, hsub _ (deliverable.authentic honest), hround, by omega⟩
    · -- our own signature completes the chain, and we relay it
      unfold ReliableBroadcaster.signaturesCount at hcount
      have hself : ¬ node.broadcaster.SelfSigned msg.msg := by
        intro hself
        rw [if_pos hself] at hcount
        omega
      rw [if_neg hself] at hcount
      obtain ⟨sig, hsome⟩ := relay_eq_relayed keys hwf.honest hconf hself (by omega)
      refine ⟨p, _, hrelay _ hsome, ?_, ?_⟩ <;>
        simp only [ReliableBroadcaster.relayed] <;> omega

theorem backed (keys : s.KeysWork) (free : s.crypto.CollisionFree)
    (bound : (s.malicious.length : Int) ≤ s.relayRounds - 1)
    (reached : (s.machine T).Reachable s.Orderly net) {p : Address} {node : Node T}
    (hnode : net p = some node) : s.Backed net node := by
  refine node_invariant (P := fun net _ node => s.Backed net node) ?_ ?_ ?_ ?_ reached p node hnode
  · intro net label net' stepped p node h
    exact h.mono stepped.sent_subset
  · intro net value node _ idle began
    have hrounds : (1 : Int) ≤ s.relayRounds := by omega
    cases began with
    | failed hnone =>
        obtain ⟨sig, hsign, -⟩ := keys s.origin idle.2.1 ((s.originMsg value).signHash s.crypto)
        cases hnone.symm.trans hsign
    | signed sig _ =>
        constructor
        · intro key hkey
          refine ⟨s.origin, { s.originMsg value with signatures := [⟨s.origin, sig⟩] }, ?_,
            (List.mem_singleton.mp hkey).symm, ?_⟩
          · rw [Net.sent_of_some (Net.set_self _ _ _)]
            exact List.mem_singleton_self _
          · exact le_trans (show (0 : Int) ≤ 1 by omega) hrounds
        · intro hfinal
          have hone : s.relayRounds = 1 := of_decide_eq_true hfinal
          refine ⟨s.origin, { s.originMsg value with signatures := [⟨s.origin, sig⟩] }, ?_, ?_, ?_⟩
          · rw [Net.sent_of_some (Net.set_self _ _ _)]
            exact List.mem_singleton_self _
          · simp only [originMsg]
            omega
          · simp only [originMsg]
            omega
  · intro net p msg _ _ _ _ _ _
    constructor
    · intro key hkey
      cases hkey
    · intro hfinal
      cases hfinal
  · intro net p node msg node' before ih orderly present deliverable took
    have hbacked := ih p node present
    have stepped : s.Stepped net (.take p msg) (net.set p (s.takeMsg node msg)) :=
      .take p node msg present deliverable
    have hsub := stepped.sent_subset
    rw [← took.eq_takeMsg] at hsub
    have hmono := hbacked.mono hsub
    cases took with
    | panicked _ _ => exact ⟨hmono.key, hmono.final⟩
    | handled b out run =>
        cases ReliableBroadcaster.handleMsg_handled run with
        | dropped _ => exact ⟨hmono.key, hmono.final⟩
        | rejected _ _ => exact ⟨hmono.key, hmono.final⟩
        | accepted fresh valid =>
            refine backed_accepted keys free bound before present deliverable
              (orderly node present) hbacked fresh valid hsub ?_ rfl
            intro m hm
            rw [Net.sent_of_some (Net.set_self _ _ _)]
            exact List.mem_append_right _ (Option.mem_toList.mpr hm)

/-! ## Delivery -/

/-- In an orderly run every party is inside its call: keys sign, and no message makes the
receive loop panic. -/
theorem running (keys : s.KeysWork)
    (decodable : ∀ a ∈ s.group, (s.crypto.decodeAddress a).isSome)
    (reached : (s.machine T).Reachable s.Orderly net) {p : Address} {node : Node T}
    (hnode : net p = some node) : node.status = .running := by
  refine running_of_nonempty keys decodable ?_ reached hnode
  intro net p node msg _ orderly present _
  exact (orderly node present).nonempty

/-- The value of every message of an honest sender that was taken is held. -/
theorem taken_key (keys : s.KeysWork) (reached : (s.machine T).Reachable s.Orderly net)
    {q : Address} {node : Node T} (hnode : net q = some node) (hrunning : node.status = .running)
    {msg : ReliableBroadcastMsg T} (htaken : msg ∈ node.taken) (honest : s.honest msg.sender = true)
    (hround : msg.msg.round ≤ s.relayRounds) :
    valueKey msg.msg.value ∈ node.broadcaster.keys := by
  refine taken_invariant (fun b msg => valueKey msg.msg.value ∈ b.keys) keys
    (fun _ _ _ _ _ handled h => handled.keys_subset h) ?_ reached hnode hrunning htaken honest
    hround
  intro net p node msg snode b out before orderly present honest hround hok handled
  have hwf := wellFormed before present
  have hconf := hwf.configured
  by_cases hrepeated : (msg.sender, msg.msg.round) ∈ node.broadcaster.receivedMsgs
  · exact handled.keys_subset ((orderly node present).repeated honest hrepeated)
  · have fresh : node.broadcaster.Fresh msg :=
      ⟨hok.session.trans hconf.sessionId.symm, hround.trans_eq hconf.relayRounds.symm, hrepeated⟩
    have valid := (hconf.chainValid_iff hwf.member).mpr hok.chain
    obtain ⟨rfl, -⟩ := handled.eq_accepted fresh valid
    exact (ReliableBroadcaster.mem_keys_accepted _ _).mpr (.inr rfl)

def DeliveredTo (s : Setup) (net : Net T) (q : Address) (node : Node T) : Prop :=
  ∀ p ∈ s.group, p ≠ q → ∀ m ∈ net.sent p, (⟨m, p⟩ : ReliableBroadcastMsg T) ∈ node.taken

instance (net : Net T) (q : Address) (node : Node T) : Decidable (s.DeliveredTo net q node) :=
  inferInstanceAs (Decidable (∀ p ∈ s.group, p ≠ q → ∀ m ∈ net.sent p, _ ∈ node.taken))

/-- What any honest party broadcast has its effect on a party that was delivered everything. -/
theorem sent_effect (keys : s.KeysWork) (rounds : 1 ≤ s.relayRounds)
    (reached : (s.machine T).Reachable s.Orderly net) {q : Address} {node : Node T}
    (hnode : net q = some node) (hrunning : node.status = .running)
    (delivered : s.DeliveredTo net q node) {p : Address} {m : RoundMessage T} (hm : m ∈ net.sent p)
    (hround : m.round ≤ s.relayRounds) :
    valueKey m.value ∈ node.broadcaster.keys ∧
      (s.relayRounds ≤ m.round + 1 → node.broadcaster.finalSigChainReached = true) := by
  obtain ⟨pnode, hpnode, hok⟩ := sentOk_of_mem_sent keys reached hm
  by_cases hp : p = q
  · subst hp
    cases hnode.symm.trans hpnode
    exact ⟨hok.key, hok.final rounds⟩
  · have hwf := wellFormed reached hpnode
    have honest := hwf.honest
    have htaken := delivered p hwf.member hp m hm
    refine ⟨taken_key keys reached hnode hrunning htaken honest hround, ?_⟩
    have hreceived := taken_received keys reached hnode hrunning htaken honest hround
    obtain ⟨-, -, -, -, hfinal⟩ := received_accepted keys reached hnode honest hreceived
    exact hfinal

/-- With at most `relayRounds - 1` malicious parties, in an orderly run in which every message
of an honest party is processed by the other honest ones, all honest parties that entered
return the same boolean. -/
theorem verdict_agreement (keys : s.KeysWork) (free : s.crypto.CollisionFree)
    (decodable : ∀ a ∈ s.group, (s.crypto.decodeAddress a).isSome)
    (bound : (s.malicious.length : Int) ≤ s.relayRounds - 1)
    (reached : (s.machine T).Reachable s.Orderly net)
    (delivered : ∀ q node, net q = some node → s.DeliveredTo net q node) {p q : Address}
    {nodeP nodeQ : Node T} (hp : net p = some nodeP) (hq : net q = some nodeQ) :
    ∃ verdict, nodeP.verdict = some verdict ∧ nodeQ.verdict = some verdict := by
  have rounds : 1 ≤ s.relayRounds := by omega
  have transfer : ∀ {a b : Address} {nodeA nodeB : Node T}, net a = some nodeA →
      net b = some nodeB → nodeA.broadcaster.keys ⊆ nodeB.broadcaster.keys ∧
        (nodeA.broadcaster.finalSigChainReached = true →
          nodeB.broadcaster.finalSigChainReached = true) := by
    intro a b nodeA nodeB ha hb
    have hbacked := backed keys free bound reached ha
    have hrunning := running keys decodable reached hb
    constructor
    · intro key hkey
      obtain ⟨h, m, hm, rfl, hround⟩ := hbacked.key key hkey
      exact (sent_effect keys rounds reached hb hrunning (delivered b nodeB hb) hm hround).1
    · intro hfinal
      obtain ⟨h, m, hm, hround, hcomplete⟩ := hbacked.final hfinal
      exact (sent_effect keys rounds reached hb hrunning (delivered b nodeB hb) hm hround).2
        hcomplete
  have hlength : nodeP.broadcaster.keys.length = nodeQ.broadcaster.keys.length :=
    le_antisymm
      ((wellFormed reached hp).nodup.subperm (transfer hp hq).1).length_le
      ((wellFormed reached hq).nodup.subperm (transfer hq hp).1).length_le
  have hvalid : nodeP.broadcaster.decideValid = true ↔ nodeQ.broadcaster.decideValid = true := by
    rw [ReliableBroadcaster.decideValid_eq_true_iff, ReliableBroadcaster.decideValid_eq_true_iff,
      hlength, and_congr_right_iff]
    exact fun _ => ⟨(transfer hp hq).2, (transfer hq hp).2⟩
  refine ⟨nodeP.broadcaster.decideValid, ?_, ?_⟩
  · simp [Node.verdict, running keys decodable reached hp]
  · simp [Node.verdict, running keys decodable reached hq, Bool.eq_iff_iff.mpr hvalid]

/-- The origin 1 and party 2 are honest, party 3 is not; 3 shows its complete chain to 2 only
after 2 has completed one itself. -/
def orderlyRun : List (Label SamplePayload) :=
  let v : Option SamplePayload := some ⟨str "v"⟩
  [.broadcast [1] v, .ensureValid [2] ⟨sampleChain v [1], [1]⟩,
    .take [2] ⟨sampleChain v [1], [1]⟩, .take [1] ⟨sampleChain v [1, 2], [2]⟩,
    .take [2] ⟨sampleChain v [1, 3], [3]⟩]

theorem verdict_agreement_orderlyRun :
    ∃ net node1 node2 verdict,
      Machine.Reachable ((sampleSetup [1, 2, 3] [1, 2] 1 1).machine SamplePayload)
        (sampleSetup [1, 2, 3] [1, 2] 1 1).Orderly net ∧
      net [1] = some node1 ∧ net [2] = some node2 ∧
      node1.verdict = some verdict ∧ node2.verdict = some verdict := by
  have hrun : ((sampleRun (sampleSetup [1, 2, 3] [1, 2] 1 1)
      (sampleSetup [1, 2, 3] [1, 2] 1 1).Orderly orderlyRun).bind fun net =>
        (net [1]).bind fun node1 => (net [2]).map fun node2 =>
          decide ((sampleSetup [1, 2, 3] [1, 2] 1 1).DeliveredTo net [1] node1 ∧
            (sampleSetup [1, 2, 3] [1, 2] 1 1).DeliveredTo net [2] node2)) = some true := by
    decide +kernel
  obtain ⟨net, hnet, hrun⟩ := Option.bind_eq_some_iff.mp hrun
  obtain ⟨node1, h1, hrun⟩ := Option.bind_eq_some_iff.mp hrun
  obtain ⟨node2, h2, hrun⟩ := Option.map_eq_some_iff.mp hrun
  obtain ⟨to1, to2⟩ := of_decide_eq_true hrun
  have reached := sampleRun_reaches hnet
  have delivered : ∀ q node, net q = some node →
      (sampleSetup [1, 2, 3] [1, 2] 1 1).DeliveredTo net q node := by
    intro q node hq
    have honest : q ∈ [[1], [2]] := of_decide_eq_true (wellFormed reached hq).honest
    simp only [List.mem_cons, List.not_mem_nil, or_false] at honest
    rcases honest with rfl | rfl
    · cases h1.symm.trans hq
      exact to1
    · cases h2.symm.trans hq
      exact to2
  obtain ⟨verdict, hv1, hv2⟩ := verdict_agreement (s := sampleSetup [1, 2, 3] [1, 2] 1 1)
    (sampleSetup_keysWork _ _ _ _) sampleCrypto_collisionFree (by decide) (by decide) reached
    delivered h1 h2
  exact ⟨net, node1, node2, verdict, reached, h1, h2, hv1, hv2⟩

/-- Parties 4 and 5 are honest; the origin 1 and the parties 2 and 3 are not.  All messages of 4
and 5 are exchanged, and the complete chain of 1, 4, 2 and 3 is shown to 5 only. -/
def loneChainRun : List (Label SamplePayload) :=
  let v : Option SamplePayload := some ⟨str "v"⟩
  [.ensureValid [4] ⟨sampleChain v [1], [1]⟩, .ensureValid [5] ⟨sampleChain v [1], [1]⟩,
    .take [4] ⟨sampleChain v [1], [1]⟩, .take [5] ⟨sampleChain v [1], [1]⟩,
    .take [5] ⟨sampleChain v [1, 4], [4]⟩, .take [4] ⟨sampleChain v [1, 5], [5]⟩,
    .take [4] ⟨sampleChain v [1, 4, 5], [5]⟩, .take [5] ⟨sampleChain v [1, 5, 4], [4]⟩,
    .take [5] ⟨sampleChain v [1, 4, 2, 3], [3]⟩]

theorem verdict_disagreement :
    ∃ net node4 node5,
      Machine.Reaches ((sampleSetup [1, 2, 3, 4, 5] [4, 5] 1 1).machine SamplePayload) net ∧
      (sampleSetup [1, 2, 3, 4, 5] [4, 5] 1 1).relayRounds = 4 ∧
      (sampleSetup [1, 2, 3, 4, 5] [4, 5] 1 1).malicious.length = 3 ∧
      net [4] = some node4 ∧ net [5] = some node5 ∧
      (sampleSetup [1, 2, 3, 4, 5] [4, 5] 1 1).DeliveredTo net [4] node4 ∧
      (sampleSetup [1, 2, 3, 4, 5] [4, 5] 1 1).DeliveredTo net [5] node5 ∧
      node4.verdict = some false ∧ node5.verdict = some true := by
  have hrun : ((sampleRun (sampleSetup [1, 2, 3, 4, 5] [4, 5] 1 1) (fun _ _ => True)
      loneChainRun).bind fun net =>
      (net [4]).bind fun node4 => (net [5]).map fun node5 =>
        decide ((sampleSetup [1, 2, 3, 4, 5] [4, 5] 1 1).DeliveredTo net [4] node4 ∧
          (sampleSetup [1, 2, 3, 4, 5] [4, 5] 1 1).DeliveredTo net [5] node5 ∧
          node4.verdict = some false ∧ node5.verdict = some true)) = some true := by
    decide +kernel
  obtain ⟨net, hnet, hrun⟩ := Option.bind_eq_some_iff.mp hrun
  obtain ⟨node4, h4, hrun⟩ := Option.bind_eq_some_iff.mp hrun
  obtain ⟨node5, h5, hrun⟩ := Option.map_eq_some_iff.mp hrun
  obtain ⟨to4, to5, verdict4, verdict5⟩ := of_decide_eq_true hrun
  exact ⟨net, node4, node5, sampleRun_reaches hnet, by decide, by decide, h4, h5, to4, to5,
    verdict4, verdict5⟩

end Setup

end TssSvc.Broadcast
