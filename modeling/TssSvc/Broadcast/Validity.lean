import TssSvc.Broadcast.Network

/-!
# Validity for an honest origin

Every chain an honest party accepts starts with a signature of the origin over the bare
value.  An honest origin makes one such signature, so no other value enters the value set
of any honest party, whoever relays and however long the chain is.
-/

set_option autoImplicit false

namespace TssSvc.Broadcast

namespace Setup

variable {T : Type} [HasHashString T] [DecidableEq T] {s : Setup} {net : Net T}

/-- The origin sends its value under its own signature and nothing else: every chain it
accepts carries its signature, and such chains are not relayed. -/
theorem origin_sent (reached : (s.machine T).Reaches net) {node : Node T} {v : Option T}
    (hnode : net s.origin = some node) (hentry : node.entry = .broadcast v) :
    ∀ m ∈ node.sent, m.value = v ∧ m.sessionId = s.sessionId ∧ m.unsigned.signatures = [] := by
  refine node_invariant (P := fun _ p node => p = s.origin → ∀ v, node.entry = .broadcast v →
      ∀ m ∈ node.sent, m.value = v ∧ m.sessionId = s.sessionId ∧ m.unsigned.signatures = [])
    (fun _ _ _ _ _ _ h => h) ?_ ?_ ?_ reached _ node hnode rfl v hentry
  · intro net value node _ _ began _ v hentry m hm
    cases began with
    | signed sig _ =>
        cases hentry
        rw [List.mem_singleton.mp hm]
        exact ⟨rfl, rfl, rfl⟩
    | failed _ => cases hm
  · intro net p msg _ _ _ _ _ _ _ v hentry
    cases hentry
  · intro net p node msg node' before ih _ present _ took horigin v hentry m hm
    have hconf := (wellFormed before present).configured
    cases took with
    | panicked _ _ => exact ih p node present horigin v hentry m hm
    | handled b out run =>
        rcases List.mem_append.mp hm with hold | hnew
        · exact ih p node present horigin v hentry m hold
        · exfalso
          cases ReliableBroadcaster.handleMsg_handled run with
          | dropped _ => cases hnew
          | rejected _ _ => cases hnew
          | accepted _ valid =>
              obtain ⟨sig, hsig, hsigner, -⟩ := valid.first_link
              have hself : node.broadcaster.SelfSigned msg.msg := by
                unfold ReliableBroadcaster.SelfSigned
                rw [hconf.self, s.named, horigin, ← hconf.originMsgSender, ← hsigner]
                exact List.mem_map_of_mem hsig
              simp [ReliableBroadcaster.relay, hself] at hnew

/-- An accepted chain carries the value the honest origin sent. -/
theorem accepted_key (free : s.crypto.CollisionFree) (reached : (s.machine T).Reaches net)
    {onode : Node T} {v : Option T} (horigin : net s.origin = some onode)
    (hentry : onode.entry = .broadcast v) {b : ReliableBroadcaster T} {p : Address}
    (hconf : s.Configured p b) {msg : ReliableBroadcastMsg T} (unforged : s.Unforged net msg.msg)
    (fresh : b.Fresh msg) (valid : b.ChainValid s.crypto msg) :
    valueKey msg.msg.value = valueKey v := by
  obtain ⟨sig, -, hsigner, hlink⟩ := valid.first_link
  rw [hconf.originMsgSender] at hsigner
  have hhonest : s.honest sig.signer = true := by
    rw [hsigner]
    exact (wellFormed reached horigin).honest
  obtain ⟨m, hm, hhash⟩ := unforged (fresh.session.trans hconf.sessionId) _ hlink hhonest
    (valid.signed _ hlink)
  rw [hsigner, Net.sent_of_some horigin] at hm
  have hvalue := (origin_sent reached horigin hentry m hm).1
  have hmap := (signHash_injective free hhash).2.1
  exact (valueKey_eq_of_map_eq hmap).symm.trans (congrArg valueKey hvalue)

theorem origin_entry (reached : (s.machine T).Reaches net) {onode : Node T}
    (horigin : net s.origin = some onode) : ∃ v, onode.entry = .broadcast v := by
  have hentry := (wellFormed reached horigin).entry
  cases hkind : onode.entry with
  | broadcast v => exact ⟨v, rfl⟩
  | ensureValid msg =>
      rw [hkind] at hentry
      exact absurd rfl hentry.1

/-- While the origin is honest, a party is in the broadcast only after the origin, and it
holds no value but the origin's. -/
theorem keys_of_honest_origin (free : s.crypto.CollisionFree) (honest : s.honest s.origin = true)
    (reached : (s.machine T).Reaches net) {p : Address} {node : Node T}
    (hnode : net p = some node) :
    ∃ onode v, net s.origin = some onode ∧ onode.entry = .broadcast v ∧
      ∀ key ∈ node.broadcaster.keys, key = valueKey v := by
  refine node_invariant (P := fun net _ node => ∃ onode v, net s.origin = some onode ∧
      onode.entry = .broadcast v ∧ ∀ key ∈ node.broadcaster.keys, key = valueKey v)
    ?_ ?_ ?_ ?_ reached p node hnode
  · rintro net label net' stepped p node ⟨onode, v, horigin, hentry, hkeys⟩
    obtain ⟨onode', horigin', hentry', -, -⟩ := stepped.persists horigin
    exact ⟨onode', v, horigin', hentry'.trans hentry, hkeys⟩
  · intro net value node _ _ began
    refine ⟨node, value, Net.set_self _ _ _, ?_, ?_⟩
    · cases began <;> rfl
    · intro key hkey
      cases began <;> exact List.mem_singleton.mp hkey
  · intro net p msg before idle acceptor sender _ authentic
    have hsent : msg.msg ∈ net.sent s.origin := sender ▸ authentic (sender ▸ honest)
    cases horigin : net s.origin with
    | none => simp [Net.sent, horigin] at hsent
    | some onode =>
        obtain ⟨v, hentry⟩ := origin_entry before horigin
        refine ⟨onode, v, (Net.set_ne net _ acceptor.symm).trans horigin, hentry, ?_⟩
        intro key hkey
        cases hkey
  · intro net p node msg node' before ih _ present deliverable took
    obtain ⟨onode, v, horigin, hentry, hkeys⟩ := ih p node present
    have hconf := (wellFormed before present).configured
    have hpersists : ∃ onode', net.set p node' s.origin = some onode' ∧
        onode'.entry = .broadcast v := by
      by_cases hp : s.origin = p
      · subst hp
        cases present.symm.trans horigin
        refine ⟨node', Net.set_self _ _ _, ?_⟩
        rw [took.eq_takeMsg, takeMsg_entry, hentry]
      · exact ⟨onode, (Net.set_ne net _ hp).trans horigin, hentry⟩
    obtain ⟨onode', horigin', hentry'⟩ := hpersists
    refine ⟨onode', v, horigin', hentry', ?_⟩
    cases took with
    | panicked _ _ => exact hkeys
    | handled b out run =>
        cases ReliableBroadcaster.handleMsg_handled run with
        | dropped _ => exact hkeys
        | rejected _ _ => exact hkeys
        | accepted fresh valid =>
            intro key hkey
            rcases (ReliableBroadcaster.mem_keys_accepted _ _).mp hkey with hold | rfl
            · exact hkeys key hold
            · exact accepted_key free before horigin hentry hconf deliverable.unforged fresh valid

/-- The message an acceptor was called with was sent by the honest origin. -/
theorem entry_sent (honest : s.honest s.origin = true) (reached : (s.machine T).Reaches net)
    {p : Address} {node : Node T} (hnode : net p = some node) {msg : ReliableBroadcastMsg T}
    (hentry : node.entry = .ensureValid msg) : msg.msg ∈ net.sent s.origin := by
  refine node_invariant (P := fun net _ node => ∀ msg, node.entry = .ensureValid msg →
    msg.msg ∈ net.sent s.origin) ?_ ?_ ?_ ?_ reached p node hnode msg hentry
  · intro net label net' stepped p node h msg hentry
    exact stepped.sent_subset _ (h msg hentry)
  · intro net value node _ _ began msg hentry
    cases began <;> cases hentry
  · intro net p msg before idle acceptor sender _ authentic msg' hentry
    cases hentry
    have hsent : msg.msg ∈ net.sent s.origin := sender ▸ authentic (sender ▸ honest)
    simpa only [Net.sent, Net.set_ne net _ acceptor.symm] using hsent
  · intro net p node msg node' _ ih _ present deliverable took msg' hentry
    have stepped : s.Stepped net (.take p msg) (net.set p (s.takeMsg node msg)) :=
      .take p node msg present deliverable
    rw [took.eq_takeMsg, takeMsg_entry] at hentry
    rw [took.eq_takeMsg]
    exact stepped.sent_subset _ (ih p node present msg' hentry)

/-- With an honest origin that broadcasts `v`, the value set of every party that takes part
holds no key but that of `v`, and a party that returns true has accepted `v`. -/
theorem honest_origin_validity (free : s.crypto.CollisionFree)
    (reached : (s.machine T).Reaches net) {onode : Node T} {v : Option T}
    (horigin : net s.origin = some onode) (hbroadcast : onode.entry = .broadcast v) {p : Address}
    {node : Node T} (hnode : net p = some node) :
    (∀ key ∈ node.broadcaster.keys, key = valueKey v) ∧
      (node.verdict = some true →
        node.broadcaster.keys = [valueKey v] ∧
          ∀ msg, node.entry = .ensureValid msg → msg.msg.value = v) := by
  have honest := (wellFormed reached horigin).honest
  have hkeys : ∀ key ∈ node.broadcaster.keys, key = valueKey v := by
    obtain ⟨onode', v', horigin', hentry', hkeys⟩ := keys_of_honest_origin free honest reached hnode
    cases horigin.symm.trans horigin'
    cases hbroadcast.symm.trans hentry'
    exact hkeys
  refine ⟨hkeys, fun hverdict => ⟨?_, fun msg hentry => ?_⟩⟩
  · have hvalid := (Node.verdict_eq_true hverdict).2
    have hone := ((ReliableBroadcaster.decideValid_eq_true_iff _).mp hvalid).1
    obtain ⟨key, hsingle⟩ := List.length_eq_one_iff.mp hone
    rw [hsingle, hkeys key (by rw [hsingle]; exact List.mem_singleton_self key)]
  · have hsent := entry_sent honest reached hnode hentry
    rw [Net.sent_of_some horigin] at hsent
    exact (origin_sent reached horigin hbroadcast _ hsent).1

/-- Parties 1 and 2 are honest and 3 is not; 1 broadcasts, 2 takes its message and a relay
of it by 3. -/
def validityRun : List (Label SamplePayload) :=
  [.broadcast [1] (some ⟨str "v"⟩),
    .ensureValid [2] ⟨sampleChain (some ⟨str "v"⟩) [1], [1]⟩,
    .take [2] ⟨sampleChain (some ⟨str "v"⟩) [1], [1]⟩,
    .take [2] ⟨sampleChain (some ⟨str "v"⟩) [1, 3], [3]⟩]

theorem honest_origin_validity_validityRun :
    ∃ net onode node,
      (Machine.Reaches ((sampleSetup [1, 2, 3] [1, 2] 1 1).machine SamplePayload) net) ∧
      net [1] = some onode ∧ onode.entry = .broadcast (some ⟨str "v"⟩) ∧ net [2] = some node ∧
      node.verdict = some true ∧ node.broadcaster.keys = [str "v"] := by
  have hrun : ((sampleRun (sampleSetup [1, 2, 3] [1, 2] 1 1) (fun _ _ => True)
      validityRun).bind fun net =>
      (net [1]).bind fun onode => (net [2]).map fun node => (onode.entry, node.verdict)) =
        some (.broadcast (some ⟨str "v"⟩), some true) := by decide
  obtain ⟨net, hnet, hrun⟩ := Option.bind_eq_some_iff.mp hrun
  obtain ⟨onode, horigin, hrun⟩ := Option.bind_eq_some_iff.mp hrun
  obtain ⟨node, hnode, hrun⟩ := Option.map_eq_some_iff.mp hrun
  obtain ⟨hentry, hverdict⟩ := Prod.mk.inj hrun
  have reached := sampleRun_reaches hnet
  have hvalid := honest_origin_validity (s := sampleSetup [1, 2, 3] [1, 2] 1 1)
    sampleCrypto_collisionFree reached horigin hentry hnode
  exact ⟨net, onode, node, reached, horigin, hentry, hnode, hverdict, (hvalid.2 hverdict).1⟩

end Setup

end TssSvc.Broadcast
