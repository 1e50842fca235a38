import TssSvc.Broadcast.Network

/-!
# What honest parties broadcast

With keys that work, every message an honest party broadcasts carries a valid chain that
ends in its own signature, and every other honest party that takes it accepts it, unless it
has already accepted a message of that sender and round.
-/

set_option autoImplicit false

namespace TssSvc.Broadcast

namespace Setup

variable {T : Type} [HasHashString T] {s : Setup}

/-- A valid chain of this broadcast that ends with the sender's signature. -/
structure Chain (s : Setup) (sender : Address) (m : RoundMessage T) : Prop where
  length : (m.signatures.length : Int) = m.round + 1
  first : m.signatures.head?.map Signature.signer = some s.origin
  last : m.signatures.getLast?.map Signature.signer = some sender
  member : ∀ sig ∈ m.signatures, sig.signer ∈ s.group
  distinct : (m.signatures.map Signature.signer).Nodup
  signed : ∀ link ∈ m.links, link.1.Verifies s.crypto link.2

omit [HasHashString T] in
theorem Configured.mem_partiesMap {p : Address} {b : ReliableBroadcaster T}
    (h : s.Configured p b) (hp : p ∈ s.group) {a : Address} : a ∈ b.partiesMap ↔ a ∈ s.group := by
  unfold ReliableBroadcaster.partiesMap
  rw [h.self, s.named, h.parties, others, List.mem_cons, List.mem_filter, decide_eq_true_eq]
  constructor
  · rintro (rfl | ⟨ha, -⟩)
    · exact hp
    · exact ha
  · intro ha
    by_cases heq : a = p
    · exact .inl heq
    · exact .inr ⟨ha, heq⟩

theorem Configured.chainValid_iff {p : Address} {b : ReliableBroadcaster T}
    (h : s.Configured p b) (hp : p ∈ s.group) {msg : ReliableBroadcastMsg T} :
    b.ChainValid s.crypto msg ↔ s.Chain msg.sender msg.msg := by
  constructor
  · intro valid
    exact ⟨valid.length, h.originMsgSender ▸ valid.first, valid.last,
      fun sig hsig => (h.mem_partiesMap hp).mp (valid.member sig hsig), valid.distinct,
      valid.signed⟩
  · intro chain
    exact ⟨chain.length, h.originMsgSender.symm ▸ chain.first, chain.last,
      fun sig hsig => (h.mem_partiesMap hp).mpr (chain.member sig hsig), chain.distinct,
      chain.signed⟩

omit [HasHashString T] in
theorem Configured.selfSigned_iff {p : Address} {b : ReliableBroadcaster T}
    (h : s.Configured p b) {m : RoundMessage T} :
    b.SelfSigned m ↔ p ∈ m.signatures.map Signature.signer := by
  unfold ReliableBroadcaster.SelfSigned
  rw [h.self, s.named]

theorem Chain.ne_nil {sender : Address} {m : RoundMessage T} (h : s.Chain sender m) :
    m.signatures ≠ [] := by
  intro hnil
  have hfirst := h.first
  simp [hnil] at hfirst

theorem Chain.length_unsigned {sender : Address} {m : RoundMessage T} (h : s.Chain sender m) :
    (m.unsigned.signatures.length : Int) = m.round := by
  have hlength := h.length
  have hpos := List.length_pos_iff.mpr h.ne_nil
  simp only [RoundMessage.unsigned, List.length_dropLast]
  omega

/-- The signatures of a chain do not depend on the round number they travel under. -/
theorem signed_of_round {c : Crypto} {m : RoundMessage T} (round : Int)
    (h : ∀ link ∈ m.links, link.1.Verifies c link.2) :
    ∀ link ∈ ({ m with round := round } : RoundMessage T).links, link.1.Verifies c link.2 := by
  intro link hlink
  obtain ⟨pre, post, hsplit, hpart⟩ := mem_links.mp hlink
  have hold := h ({ m with signatures := pre }, link.2) (mem_links.mpr ⟨pre, post, hsplit, rfl⟩)
  have hhash : link.1.signHash c = ({ m with signatures := pre } : RoundMessage T).signHash c := by
    rw [hpart]
    exact signHash_congr c rfl rfl rfl
  unfold RoundMessage.Verifies at hold ⊢
  rw [hhash]
  exact hold

/-- The next party's signature makes the chain one longer. -/
theorem Chain.snoc {sender p : Address} {m : RoundMessage T} {sig : Bytes}
    (h : s.Chain sender m) (hp : p ∈ s.group) (hnew : p ∉ m.signatures.map Signature.signer)
    (hsig : m.Verifies s.crypto ⟨p, sig⟩) :
    s.Chain p { m with round := m.round + 1, signatures := m.signatures ++ [⟨p, sig⟩] } where
  length := by
    have hlength := h.length
    simp only [List.length_append, List.length_singleton, Nat.cast_add, Nat.cast_one]
    omega
  first := by
    rw [List.head?_append_of_ne_nil _ h.ne_nil]
    exact h.first
  last := by simp
  member := by
    intro sig' hsig'
    rcases List.mem_append.mp hsig' with hold | hlast
    · exact h.member sig' hold
    · rw [List.mem_singleton.mp hlast]
      exact hp
  distinct := by
    rw [List.map_append, List.nodup_append]
    refine ⟨h.distinct, List.nodup_singleton _, ?_⟩
    rintro a ha b hb rfl
    obtain rfl : a = p := by simpa using hb
    exact hnew ha
  signed := by
    intro link hlink
    rw [links_snoc { m with round := m.round + 1 }] at hlink
    rcases List.mem_append.mp hlink with hold | hlast
    · exact signed_of_round (m.round + 1) h.signed link hold
    · -- the round number is not signed
      rw [List.mem_singleton.mp hlast]
      exact hsig

/-! ## Messages sent -/

theorem KeysWork.verifies (keys : s.KeysWork) {a : Address} (ha : s.honest a = true) {sig : Bytes}
    {m : RoundMessage T} (hsign : (s.account a).sign (m.signHash s.crypto) = some sig) :
    m.Verifies s.crypto ⟨a, sig⟩ := by
  obtain ⟨sig', hsign', hdecode, hrecover⟩ := keys a ha (m.signHash s.crypto)
  cases hsign.symm.trans hsign'
  exact ⟨hdecode, hrecover⟩

/-- The message of `Broadcast` is a chain of one signature. -/
theorem KeysWork.originMsg_chain (keys : s.KeysWork) (honest : s.honest s.origin = true)
    (hmember : s.origin ∈ s.group) {value : Option T} {sig : Bytes}
    (hsign : (s.account s.origin).sign ((s.originMsg value).signHash s.crypto) = some sig) :
    s.Chain s.origin { s.originMsg value with signatures := [⟨s.origin, sig⟩] } := by
  refine ⟨rfl, rfl, rfl, ?_, List.nodup_singleton _, ?_⟩
  · intro sig' hsig'
    rw [List.mem_singleton.mp hsig']
    exact hmember
  · intro link hlink
    rw [List.mem_singleton.mp hlink]
    exact keys.verifies (m := s.originMsg value) honest hsign

structure SentOk (s : Setup) (p : Address) (node : Node T) (m : RoundMessage T) : Prop where
  session : m.sessionId = s.sessionId
  chain : s.Chain p m
  key : valueKey m.value ∈ node.broadcaster.keys
  final : 1 ≤ s.relayRounds → s.relayRounds ≤ m.round + 1 →
    node.broadcaster.finalSigChainReached = true

theorem SentOk.handled {p : Address} {node : Node T} {m : RoundMessage T} (h : s.SentOk p node m)
    {msg : ReliableBroadcastMsg T} {b : ReliableBroadcaster T} {out : Option (RoundMessage T)}
    (handled : node.broadcaster.Handled s.crypto msg b out) (taken : List (ReliableBroadcastMsg T))
    (sent : List (RoundMessage T)) :
    s.SentOk p { node with broadcaster := b, taken := taken, sent := sent } m :=
  ⟨h.session, h.chain, handled.keys_subset h.key,
    fun hpos hround => handled.final_mono (h.final hpos hround)⟩

/-- A message is relayed with one more signature, unless it carries ours already or it is of
the last round. -/
theorem relay_eq_some {c : Crypto} {b : ReliableBroadcaster T} {m m' : RoundMessage T}
    (h : b.relay c m = some m') :
    ¬ b.SelfSigned m ∧ m.round + 1 ≠ b.relayRounds ∧
      ∃ sig, b.self.sign (m.signHash c) = some sig ∧ m' = b.relayed m sig := by
  unfold ReliableBroadcaster.relay at h
  split at h
  · cases h
  · rename_i hnot
    obtain ⟨hself, hround⟩ := not_or.mp hnot
    obtain ⟨sig, hsig, rfl⟩ := Option.map_eq_some_iff.mp h
    exact ⟨hself, hround, sig, hsig, rfl⟩

/-- What a party relays of a valid chain is a valid chain that ends with its signature. -/
theorem KeysWork.relay_chain (keys : s.KeysWork) {p sender : Address} (honest : s.honest p = true)
    (hmember : p ∈ s.group) {b : ReliableBroadcaster T} (hconf : s.Configured p b)
    {m m' : RoundMessage T} (chain : s.Chain sender m) (h : b.relay s.crypto m = some m') :
    s.Chain p m' := by
  obtain ⟨hself, -, sig, hsign, rfl⟩ := relay_eq_some h
  rw [hconf.self] at hsign
  unfold ReliableBroadcaster.relayed
  rw [hconf.self, s.named]
  exact chain.snoc hmember (mt hconf.selfSigned_iff.mpr hself) (keys.verifies honest hsign)

/-- An accepted message that is neither ours nor of the last round is relayed. -/
theorem relay_eq_relayed (keys : s.KeysWork) {p : Address} (honest : s.honest p = true)
    {b : ReliableBroadcaster T} (hconf : s.Configured p b) {m : RoundMessage T}
    (hself : ¬ b.SelfSigned m) (hround : m.round + 1 ≠ s.relayRounds) :
    ∃ sig, b.relay s.crypto m = some (b.relayed m sig) := by
  obtain ⟨sig, hsign, -⟩ := keys p honest (m.signHash s.crypto)
  refine ⟨sig, ?_⟩
  unfold ReliableBroadcaster.relay
  rw [if_neg (not_or.mpr ⟨hself, by rwa [hconf.relayRounds]⟩), hconf.self, hsign, Option.map_some]

variable [DecidableEq T] {net : Net T} {allowed : Net T → Label T → Prop}

theorem sentOk (keys : s.KeysWork) (reached : (s.machine T).Reachable allowed net) {p : Address}
    {node : Node T} (hnode : net p = some node) : ∀ m ∈ node.sent, s.SentOk p node m := by
  refine node_invariant (P := fun _ p node => ∀ m ∈ node.sent, s.SentOk p node m)
    (fun _ _ _ _ _ _ h => h) ?_ ?_ ?_ reached p node hnode
  · intro net value node _ idle began m hm
    cases began with
    | failed _ => cases hm
    | signed sig hsign =>
        rw [List.mem_singleton.mp hm]
        refine ⟨rfl, keys.originMsg_chain idle.2.1 idle.1 hsign, List.mem_singleton_self _, ?_⟩
        intro hpos hround
        exact decide_eq_true (le_antisymm hround hpos)
  · intro net p msg _ _ _ _ _ _ m hm
    cases hm
  · intro net p node msg node' before ih _ present _ took
    have hwf := wellFormed before present
    have hconf := hwf.configured
    cases took with
    | panicked _ _ =>
        intro m hm
        exact ⟨(ih p node present m hm).1, (ih p node present m hm).2, (ih p node present m hm).3,
          (ih p node present m hm).4⟩
    | handled b out run =>
        have handled := ReliableBroadcaster.handleMsg_handled run
        intro m hm
        rcases List.mem_append.mp hm with hold | hnew
        · exact (ih p node present m hold).handled handled _ _
        · cases handled with
          | dropped _ => cases hnew
          | rejected _ _ => cases hnew
          | accepted fresh valid =>
              rw [Option.mem_toList] at hnew
              have hchain := (hconf.chainValid_iff hwf.member).mp valid
              have hnewChain := keys.relay_chain hwf.honest hwf.member hconf hchain hnew
              obtain ⟨hself, -, sig, -, rfl⟩ := relay_eq_some hnew
              refine ⟨fresh.session.trans hconf.sessionId, hnewChain,
                (ReliableBroadcaster.mem_keys_accepted _ _).mpr (.inr rfl), ?_⟩
              intro _ hround
              refine (ReliableBroadcaster.accepted_final _ _).mpr (.inr ?_)
              have hlength := hchain.length
              unfold ReliableBroadcaster.signaturesCount
              rw [if_neg hself, hconf.relayRounds]
              simp only [ReliableBroadcaster.relayed] at hround
              omega

theorem sentOk_of_mem_sent (keys : s.KeysWork) (reached : (s.machine T).Reachable allowed net)
    {p : Address} {m : RoundMessage T} (hm : m ∈ net.sent p) :
    ∃ node, net p = some node ∧ s.SentOk p node m := by
  cases hnode : net p with
  | none => simp [Net.sent, hnode] at hm
  | some node =>
      rw [Net.sent_of_some hnode] at hm
      exact ⟨node, rfl, sentOk keys reached hnode m hm⟩

/-! ## Messages taken -/

/-- Every honest sender and round marked as received stands for a message of that sender
that was accepted. -/
theorem received_accepted (keys : s.KeysWork) (reached : (s.machine T).Reachable allowed net)
    {q : Address} {node : Node T} (hnode : net q = some node) {sender : Address} {round : Int}
    (honest : s.honest sender = true)
    (hreceived : (sender, round) ∈ node.broadcaster.receivedMsgs) :
    ∃ m ∈ net.sent sender, m.round = round ∧ valueKey m.value ∈ node.broadcaster.keys ∧
      (s.relayRounds ≤ round + 1 → node.broadcaster.finalSigChainReached = true) := by
  refine node_invariant (P := fun net _ node => ∀ sender round, s.honest sender = true →
      (sender, round) ∈ node.broadcaster.receivedMsgs →
        ∃ m ∈ net.sent sender, m.round = round ∧ valueKey m.value ∈ node.broadcaster.keys ∧
          (s.relayRounds ≤ round + 1 → node.broadcaster.finalSigChainReached = true))
    ?_ ?_ ?_ ?_ reached q node hnode sender round honest hreceived
  · intro net label net' stepped p node h sender round honest hreceived
    obtain ⟨m, hm, hrest⟩ := h sender round honest hreceived
    exact ⟨m, stepped.sent_subset sender hm, hrest⟩
  · intro net value node _ _ began sender round _ hreceived
    cases began <;> cases hreceived
  · intro net p msg _ _ _ _ _ _ sender round _ hreceived
    cases hreceived
  · intro net p node msg node' before ih _ present deliverable took sender round honest hreceived
    have hwf := wellFormed before present
    have hconf := hwf.configured
    have stepped : s.Stepped net (.take p msg) (net.set p (s.takeMsg node msg)) :=
      .take p node msg present deliverable
    have hsub := stepped.sent_subset
    rw [← took.eq_takeMsg] at hsub
    cases took with
    | panicked _ _ =>
        obtain ⟨m, hm, hrest⟩ := ih p node present sender round honest hreceived
        exact ⟨m, hsub sender hm, hrest⟩
    | handled b out run =>
        have handled := ReliableBroadcaster.handleMsg_handled run
        by_cases hold : (sender, round) ∈ node.broadcaster.receivedMsgs
        · obtain ⟨m, hm, hround, hkey, hfinal⟩ := ih p node present sender round honest hold
          exact ⟨m, hsub sender hm, hround, handled.keys_subset hkey,
            fun h => handled.final_mono (hfinal h)⟩
        · -- the message just taken: an honest sender's chain is valid, so it was accepted
          obtain ⟨rfl, rfl⟩ := Prod.mk.inj (handled.received_new hreceived hold)
          have hsent := deliverable.authentic honest
          obtain ⟨snode, -, hok⟩ := sentOk_of_mem_sent keys before hsent
          refine ⟨msg.msg, hsub _ hsent, rfl, ?_⟩
          cases handled with
          | dropped _ => exact absurd hreceived hold
          | rejected _ invalid =>
              exact absurd ((hconf.chainValid_iff hwf.member).mpr hok.chain) invalid
          | accepted _ _ =>
              refine ⟨(ReliableBroadcaster.mem_keys_accepted _ _).mpr (.inr rfl), fun hround => ?_⟩
              refine (ReliableBroadcaster.accepted_final _ _).mpr (.inr ?_)
              have hlength := hok.chain.length
              unfold ReliableBroadcaster.signaturesCount
              rw [hconf.relayRounds]
              split <;> omega

/-- What handling a message of an honest sender establishes, and handling others keeps, holds of
every such message that a running party took. -/
theorem taken_invariant (Q : ReliableBroadcaster T → ReliableBroadcastMsg T → Prop)
    (keys : s.KeysWork)
    (kept : ∀ (b : ReliableBroadcaster T) msg b' out m,
      b.Handled s.crypto msg b' out → Q b m → Q b' m)
    (established : ∀ net p node msg snode b out, (s.machine T).Reachable allowed net →
      allowed net (.take p msg) → net p = some node → s.honest msg.sender = true →
      msg.msg.round ≤ s.relayRounds → s.SentOk msg.sender snode msg.msg →
      node.broadcaster.Handled s.crypto msg b out → Q b msg)
    (reached : (s.machine T).Reachable allowed net) {q : Address} {node : Node T}
    (hnode : net q = some node) (hrunning : node.status = .running)
    {msg : ReliableBroadcastMsg T} (htaken : msg ∈ node.taken) (honest : s.honest msg.sender = true)
    (hround : msg.msg.round ≤ s.relayRounds) : Q node.broadcaster msg := by
  refine node_invariant (P := fun _ _ node => node.status = .running → ∀ msg ∈ node.taken,
      s.honest msg.sender = true → msg.msg.round ≤ s.relayRounds → Q node.broadcaster msg)
    (fun _ _ _ _ _ _ h => h) ?_ ?_ ?_ reached q node hnode hrunning msg htaken honest hround
  · intro net value node _ _ began _ msg hmsg
    cases began <;> cases hmsg
  · intro net p msg _ _ _ _ _ _ _ msg hmsg
    cases hmsg
  · intro net p node msg node' before ih hallowed present deliverable took hrunning msg' hmsg'
      honest hround
    cases took with
    | panicked _ _ => cases hrunning
    | handled b out run =>
        have handled := ReliableBroadcaster.handleMsg_handled run
        rcases List.mem_append.mp hmsg' with hold | hnew
        · exact kept _ _ _ _ _ handled (ih p node present hrunning msg' hold honest hround)
        · obtain rfl := List.mem_singleton.mp hnew
          obtain ⟨snode, -, hok⟩ := sentOk_of_mem_sent keys before (deliverable.authentic honest)
          exact established net p node msg' snode b out before hallowed present honest hround hok
            handled

/-- A running party has marked every message of an honest sender it took. -/
theorem taken_received (keys : s.KeysWork) (reached : (s.machine T).Reachable allowed net)
    {q : Address} {node : Node T} (hnode : net q = some node) (hrunning : node.status = .running)
    {msg : ReliableBroadcastMsg T} (htaken : msg ∈ node.taken) (honest : s.honest msg.sender = true)
    (hround : msg.msg.round ≤ s.relayRounds) :
    (msg.sender, msg.msg.round) ∈ node.broadcaster.receivedMsgs := by
  refine taken_invariant (fun b msg => (msg.sender, msg.msg.round) ∈ b.receivedMsgs) keys
    (fun _ _ _ _ _ handled h => handled.received_subset h) ?_ reached hnode hrunning htaken honest
    hround
  intro net p node msg snode b out before _ present _ hround hok handled
  have hconf := (wellFormed before present).configured
  cases handled with
  | dropped stale =>
      by_contra hnot
      exact stale ⟨hok.session.trans hconf.sessionId.symm, hround.trans_eq hconf.relayRounds.symm,
        hnot⟩
  | rejected _ _ => exact List.mem_cons_self
  | accepted _ _ =>
      rw [ReliableBroadcaster.accepted_receivedMsgs]
      exact List.mem_cons_self

/-- As long as no empty chain of round -1 is taken, every party is inside its call: keys
sign, and no message makes the receive loop panic. -/
theorem running_of_nonempty (keys : s.KeysWork)
    (decodable : ∀ a ∈ s.group, (s.crypto.decodeAddress a).isSome)
    (nonempty : ∀ net p node msg, (s.machine T).Reachable allowed net →
      allowed net (.take p msg) → net p = some node → s.Deliverable net p node msg →
      ¬ (msg.msg.round = -1 ∧ msg.msg.signatures = []))
    (reached : (s.machine T).Reachable allowed net) {p : Address} {node : Node T}
    (hnode : net p = some node) : node.status = .running := by
  refine node_invariant (P := fun _ _ node => node.status = .running)
    (fun _ _ _ _ _ _ h => h) ?_ ?_ ?_ reached p node hnode
  · intro net value node _ idle began
    cases began with
    | signed _ _ => rfl
    | failed hnone =>
        obtain ⟨sig, hsign, -⟩ := keys s.origin idle.2.1 ((s.originMsg value).signHash s.crypto)
        cases hnone.symm.trans hsign
  · intro net p msg _ _ _ _ _ _
    rfl
  · intro net p node msg node' before ih meets present deliverable took
    cases took with
    | handled _ _ _ => exact ih p node present
    | panicked e error =>
        have hwf := wellFormed before present
        have hconf := hwf.configured
        have hparty : msg.sender ∈ node.broadcaster.parties := by
          rw [hconf.parties]
          exact deliverable.sender
        have hok : ∃ result, node.broadcaster.handleMsg s.crypto msg = .ok result :=
          ReliableBroadcaster.handleMsg_ok
            (fun a ha => decodable a ((hconf.mem_partiesMap hwf.member).mp ha)) hparty
            (nonempty net p node msg before meets present deliverable)
        obtain ⟨result, hok⟩ := hok
        cases error.symm.trans hok

end Setup

end TssSvc.Broadcast
