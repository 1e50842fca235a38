import TssSvc.Broadcast.Relay
import TssSvc.Broadcast.Survival

/-!
# What an honest party sends

Whatever sequence of messages an honest party takes, each message it sends carries a valid
chain that ends with its own signature.  `honest_messages_iff` says when its round is one that
the other honest parties still take.  `startRounds` drops a message from round `relayRounds + 1`
on, and `processMsg` stops relaying at exactly one round: the message it would send with round
`relayRounds`.  A chain that arrives with round `relayRounds` passes the first check, misses the
second, and is sent on with a round that every receiver drops.
-/

set_option autoImplicit false

namespace TssSvc.Broadcast

namespace ReliableBroadcaster

variable {T : Type} [HasHashString T]

/-- The messages `startRounds` hands to `broadcastMsg` on the messages taken; those sent before
a panic are sent. -/
def relays (c : Crypto) (b : ReliableBroadcaster T) :
    List (ReliableBroadcastMsg T) → List (RoundMessage T)
  | [] => []
  | msg :: rest =>
      match b.handleMsg c msg with
      | .error _ => []
      | .ok (b, out) => out.toList ++ b.relays c rest

theorem relays_of_startRounds {c : Crypto} {b b' : ReliableBroadcaster T}
    {taken : List (ReliableBroadcastMsg T)} {sent : List (RoundMessage T)}
    (run : b.startRounds c taken = .ok (b', sent)) : b.relays c taken = sent := by
  induction taken generalizing b sent with
  | nil =>
      cases run
      rfl
  | cons msg taken ih =>
      simp only [startRounds, bind, Except.bind, pure, Except.pure] at run
      unfold relays
      cases hstep : b.handleMsg c msg with
      | error e => simp [hstep] at run
      | ok result =>
          rw [hstep] at run
          dsimp only at run ⊢
          cases hrest : result.1.startRounds c taken with
          | error e => simp [hrest] at run
          | ok final =>
              rw [hrest] at run
              cases run
              rw [ih hrest]

/-- `startRounds` lets the message through, and `validateSignatures` accepts its chain. -/
def Accepts (c : Crypto) (b : ReliableBroadcaster T) (msg : ReliableBroadcastMsg T) : Prop :=
  b.Fresh msg ∧ ∃ selfSigned, b.validateSignatures c msg = .ok (true, selfSigned)

theorem accepts_iff {c : Crypto} {b : ReliableBroadcaster T} {msg : ReliableBroadcastMsg T} :
    b.Accepts c msg ↔ b.Fresh msg ∧ b.ChainValid c msg := by
  unfold Accepts
  simp only [validateSignatures_eq_true_iff, exists_and_left, exists_eq, and_true]

/-- After messages that the loop survives, a message that is the first of its sender and round
comes with round `relayRounds` and a valid chain that we have not signed. -/
structure Overlong (c : Crypto) (b : ReliableBroadcaster T)
    (earlier : List (ReliableBroadcastMsg T)) (msg : ReliableBroadcastMsg T) : Prop where
  survived : ∀ before m after, earlier = before ++ m :: after → ¬ b.Harmful before m
  first : ∀ m ∈ earlier, m.msg.sessionId = b.sessionId → m.sender = msg.sender →
    m.msg.round ≠ msg.msg.round
  fresh : b.Fresh msg
  valid : b.ChainValid c msg
  unsigned : ¬ b.SelfSigned msg.msg
  round : msg.msg.round = b.relayRounds

theorem overlong_nil {c : Crypto} {b : ReliableBroadcaster T} {msg : ReliableBroadcastMsg T} :
    b.Overlong c [] msg ↔ b.Fresh msg ∧ b.ChainValid c msg ∧ ¬ b.SelfSigned msg.msg ∧
      msg.msg.round = b.relayRounds := by
  constructor
  · intro h
    exact ⟨h.fresh, h.valid, h.unsigned, h.round⟩
  · rintro ⟨fresh, valid, hunsigned, hround⟩
    refine ⟨fun before m after h => ?_, fun m hm => (nomatch hm), fresh, valid, hunsigned, hround⟩
    simp at h

theorem ChainValid.sender_mem_parties {c : Crypto} {b : ReliableBroadcaster T}
    {msg : ReliableBroadcastMsg T} (valid : b.ChainValid c msg)
    (hunsigned : ¬ b.SelfSigned msg.msg) : msg.sender ∈ b.parties := by
  obtain ⟨sig, hlast, hsender⟩ := Option.map_eq_some_iff.mp valid.last
  have hmem : sig ∈ msg.msg.signatures := List.mem_of_getLast? hlast
  have hparty := valid.member sig hmem
  rcases List.mem_cons.mp hparty with hself | hparty
  · exact absurd (List.mem_map.mpr ⟨sig, hmem, hself⟩) hunsigned
  · rwa [hsender] at hparty

omit [HasHashString T] in
theorem SameParty.selfSigned_iff {b b' : ReliableBroadcaster T} (same : SameParty b b')
    (m : RoundMessage T) : b'.SelfSigned m ↔ b.SelfSigned m := by
  unfold SelfSigned
  rw [same.self]

theorem SameParty.chainValid_iff {c : Crypto} {b b' : ReliableBroadcaster T}
    (same : SameParty b b') (msg : ReliableBroadcastMsg T) :
    b'.ChainValid c msg ↔ b.ChainValid c msg := by
  constructor
  · intro h
    exact ⟨h.length, same.originMsgSender ▸ h.first, h.last, same.partiesMap ▸ h.member, h.distinct,
      h.signed⟩
  · intro h
    exact ⟨h.length, same.originMsgSender.symm ▸ h.first, h.last, same.partiesMap.symm ▸ h.member,
      h.distinct, h.signed⟩

theorem overlong_handled_iff {c : Crypto} {b b' : ReliableBroadcaster T}
    {msg msg' : ReliableBroadcastMsg T} {out : Option (RoundMessage T)}
    (handled : Handled c b msg b' out) (harmless : ¬ b.Harmful [] msg)
    (earlier : List (ReliableBroadcastMsg T)) :
    b'.Overlong c earlier msg' ↔ b.Overlong c (msg :: earlier) msg' := by
  have same := handled.sameParty
  constructor
  · intro h
    obtain ⟨fresh, hfirst⟩ := (unseen_handled_iff handled earlier).mp ⟨h.fresh, h.first⟩
    refine ⟨forall_split_cons.mpr ⟨harmless, fun before m after hsplit hharm => ?_⟩, hfirst, fresh,
      (same.chainValid_iff msg').mp h.valid, mt (same.selfSigned_iff _).mpr h.unsigned,
      h.round.trans same.relayRounds⟩
    exact h.survived before m after hsplit ((harmful_handled_iff handled before).mpr hharm)
  · intro h
    obtain ⟨fresh, hfirst⟩ := (unseen_handled_iff handled earlier).mpr ⟨h.fresh, h.first⟩
    have hsurvived := (forall_split_cons.mp h.survived).2
    refine ⟨fun before m after hsplit hharm => ?_, hfirst, fresh,
      (same.chainValid_iff msg').mpr h.valid, mt (same.selfSigned_iff _).mp h.unsigned,
      h.round.trans same.relayRounds.symm⟩
    exact hsurvived before m after hsplit ((harmful_handled_iff handled before).mp hharm)

end ReliableBroadcaster

namespace Setup

variable {T : Type} [HasHashString T] {s : Setup}

/-- A message of the party `p` as every honest party of the broadcast takes it. -/
structure HonestMsg (s : Setup) (p : Address) (m : RoundMessage T) : Prop where
  session : m.sessionId = s.sessionId
  nonneg : 0 ≤ m.round
  bounded : m.round < s.relayRounds
  chain : s.Chain p m
  accepted : ∀ q b, s.Configured q b → q ∈ s.group → q ≠ p → (p, m.round) ∉ b.receivedMsgs →
    b.Accepts s.crypto ⟨m, p⟩

theorem Chain.round_nonneg {sender : Address} {m : RoundMessage T} (h : s.Chain sender m) :
    0 ≤ m.round := by
  have hlength := h.length
  have hpos := List.length_pos_iff.mpr h.ne_nil
  omega

/-- A chain of this session is what the others take exactly when its round is a relay round. -/
theorem Chain.honestMsg_iff {p : Address} {m : RoundMessage T} (h : s.Chain p m)
    (hsession : m.sessionId = s.sessionId) : s.HonestMsg p m ↔ m.round < s.relayRounds := by
  refine ⟨HonestMsg.bounded, fun hbounded => ⟨hsession, h.round_nonneg, hbounded, h, ?_⟩⟩
  intro q b hconf hq _ hnew
  refine ReliableBroadcaster.accepts_iff.mpr ⟨⟨?_, ?_, hnew⟩, (hconf.chainValid_iff hq).mpr h⟩
  · exact hsession.trans hconf.sessionId.symm
  · exact hbounded.le.trans_eq hconf.relayRounds.symm

section Party

variable {p : Address} (keys : s.KeysWork) (honest : s.honest p = true) (hmember : p ∈ s.group)
include keys honest hmember

/-- The step lemma: what one handled message makes the party send is taken by the others
unless the message is overlong. -/
theorem handled_honest_iff {b b' : ReliableBroadcaster T} (hconf : s.Configured p b)
    {msg : ReliableBroadcastMsg T} {out : Option (RoundMessage T)}
    (handled : b.Handled s.crypto msg b' out) :
    (∀ m ∈ out.toList, s.HonestMsg p m) ↔ ¬ b.Overlong s.crypto [] msg := by
  rw [ReliableBroadcaster.overlong_nil]
  cases handled with
  | dropped stale => exact iff_of_true (fun m hm => (nomatch hm)) fun h => stale h.1
  | rejected _ invalid => exact iff_of_true (fun m hm => (nomatch hm)) fun h => invalid h.2.1
  | accepted fresh valid =>
      have hchain := (hconf.chainValid_iff hmember).mp valid
      have hrounds := hconf.relayRounds
      have hinRounds := fresh.inRounds
      simp only [Option.mem_toList]
      constructor
      · intro h hover
        obtain ⟨-, -, hself, hround⟩ := hover
        obtain ⟨sig, hrelay⟩ :=
          relay_eq_relayed keys honest hconf hself (by rw [hround, hrounds]; omega)
        have hbounded := (h _ hrelay).bounded
        simp only [ReliableBroadcaster.relayed] at hbounded
        omega
      · intro hover m hm
        have hnewChain := keys.relay_chain honest hmember hconf hchain hm
        obtain ⟨hself, hlast, sig, -, rfl⟩ := relay_eq_some hm
        refine (hnewChain.honestMsg_iff (fresh.session.trans hconf.sessionId)).mpr ?_
        have hround : msg.msg.round ≠ b.relayRounds := fun h => hover ⟨fresh, valid, hself, h⟩
        simp only [ReliableBroadcaster.relayed]
        omega

/-- The run lemma, by induction on the messages taken. -/
theorem relays_honest_iff (decodable : ∀ a ∈ s.group, (s.crypto.decodeAddress a).isSome)
    {b : ReliableBroadcaster T} (hconf : s.Configured p b)
    (taken : List (ReliableBroadcastMsg T)) :
    (∀ m ∈ b.relays s.crypto taken, s.HonestMsg p m) ↔
      ∀ earlier msg later, taken = earlier ++ msg :: later →
        ¬ b.Overlong s.crypto earlier msg := by
  induction taken generalizing b with
  | nil =>
      refine iff_of_true (fun m hm => (nomatch hm)) fun earlier msg later h => ?_
      simp at h
  | cons msg taken ih =>
      have hsurvives := ReliableBroadcaster.handleMsg_survives_iff (c := s.crypto)
        (fun a ha => decodable a ((hconf.mem_partiesMap hmember).mp ha)) msg
      rw [forall_split_cons]
      unfold ReliableBroadcaster.relays
      cases hrun : b.handleMsg s.crypto msg with
      | error e =>
          -- nothing is sent from here on, and nothing that follows is reached
          have hharm : b.Harmful [] msg := by
            by_contra hnot
            obtain ⟨result, hok⟩ := hsurvives.mpr hnot
            cases hrun.symm.trans hok
          refine iff_of_true (fun m hm => (nomatch hm)) ⟨?_, ?_⟩
          · intro hover
            have hparty := hover.valid.sender_mem_parties hover.unsigned
            cases (ReliableBroadcaster.handleMsg_accepted hover.fresh hparty hover.valid).symm.trans
              hrun
          · intro earlier msg' later _ hover
            exact (forall_split_cons.mp hover.survived).1 hharm
      | ok result =>
          obtain ⟨b', out⟩ := result
          have handled := ReliableBroadcaster.handleMsg_handled hrun
          have harmless := hsurvives.mp ⟨_, hrun⟩
          have hrest := ih (hconf.of_sameParty handled.sameParty)
          simp only [ReliableBroadcaster.overlong_handled_iff handled harmless] at hrest
          rw [← hrest, ← handled_honest_iff keys honest hmember hconf handled]
          exact List.forall_mem_append

end Party

/-- The call's entry names the origin of the broadcast. -/
def Originates (s : Setup) (p : Address) : Entry T → Prop
  | .broadcast _ => p = s.origin
  | .ensureValid msg => msg.sender = s.origin

/-- The messages the party `p` sends in its call; none after it has failed to sign. -/
def messages (s : Setup) (p : Address) (entry : Entry T) (taken : List (ReliableBroadcastMsg T)) :
    List (RoundMessage T) :=
  match (s.enter p entry).status with
  | .running =>
      (s.enter p entry).sent ++ (s.enter p entry).broadcaster.relays s.crypto taken
  | _ => (s.enter p entry).sent

theorem messages_of_call {p : Address} {entry : Entry T} {taken : List (ReliableBroadcastMsg T)}
    {result : Bool} {sent : List (RoundMessage T)}
    (h : s.call p entry taken = .ok (result, sent)) : s.messages p entry taken = sent := by
  cases entry with
  | ensureValid msg =>
      simp only [call, ReliableBroadcaster.ensureValid, bind, Except.bind, pure, Except.pure] at h
      cases hrun : ((s.fresh T p).startEnsureValid msg).startRounds s.crypto taken with
      | error e => simp [hrun] at h
      | ok final =>
          rw [hrun] at h
          cases h
          exact ReliableBroadcaster.relays_of_startRounds hrun
  | broadcast value =>
      simp only [call, ReliableBroadcaster.broadcast, bind, Except.bind, pure, Except.pure] at h
      simp only [messages, enter, enterBroadcast]
      cases hstart : (s.fresh T p).startBroadcast s.crypto value with
      | mk b out =>
          rw [hstart] at h
          cases out with
          | none =>
              cases h
              rfl
          | some roundMsg =>
              dsimp only at h ⊢
              cases hrun : b.startRounds s.crypto taken with
              | error e => simp [hrun] at h
              | ok final =>
                  rw [hrun] at h
                  cases h
                  rw [ReliableBroadcaster.relays_of_startRounds hrun]
                  rfl

theorem Originates.configured {p : Address} {entry : Entry T}
    (h : s.Originates p entry) : s.Configured p (s.enter p entry).broadcaster := by
  cases entry with
  | ensureValid msg => exact ⟨rfl, rfl, rfl, rfl, h⟩
  | broadcast value =>
      have began : s.Began p value (s.enter p (.broadcast value)) := began_enterBroadcast p value
      generalize s.enter p (.broadcast value) = node at began
      cases began with
      | signed sig _ => exact ⟨rfl, rfl, rfl, rfl, h⟩
      | failed _ => exact ⟨rfl, rfl, rfl, rfl, h⟩

/-- Every message an honest party sends is one the other honest parties take, for every
sequence of messages, exactly when the broadcast has a relay round for the origin's own message
and no overlong chain is taken. -/
theorem honest_messages_iff (keys : s.KeysWork)
    (decodable : ∀ a ∈ s.group, (s.crypto.decodeAddress a).isSome) {p : Address}
    (honest : s.honest p = true) (hmember : p ∈ s.group) (entry : Entry T)
    (horigin : s.Originates p entry) (taken : List (ReliableBroadcastMsg T)) :
    (∀ m ∈ s.messages p entry taken, s.HonestMsg p m) ↔
      (∀ value, entry = .broadcast value → 1 ≤ s.relayRounds) ∧
        ∀ earlier msg later, taken = earlier ++ msg :: later →
          ¬ (s.enter p entry).broadcaster.Overlong s.crypto earlier msg := by
  rw [← relays_honest_iff keys honest hmember decodable horigin.configured taken]
  cases entry with
  | ensureValid msg => simp [messages, enter, enterEnsureValid]
  | broadcast value =>
      have began : s.Began p value (s.enter p (.broadcast value)) := began_enterBroadcast p value
      unfold messages
      generalize s.enter p (.broadcast value) = node at began
      obtain rfl : p = s.origin := horigin
      cases began with
      | failed hnone =>
          obtain ⟨sig, hsign, -⟩ := keys s.origin honest ((s.originMsg value).signHash s.crypto)
          cases hnone.symm.trans hsign
      | signed sig hsign =>
          have hown := (keys.originMsg_chain honest hmember hsign).honestMsg_iff rfl
          have hround : s.HonestMsg s.origin
              { s.originMsg value with signatures := [⟨s.origin, sig⟩] } ↔ 1 ≤ s.relayRounds :=
            hown.trans Int.lt_iff_add_one_le
          simp only [List.singleton_append, List.forall_mem_cons, hround, Entry.broadcast.injEq,
            forall_eq']

end Setup

section Sample

/-- Four parties, of which one may be malicious: two relay rounds.  Party 4 is. -/
def sampleRing : Setup := sampleSetup [1, 2, 3, 4] [1, 2, 3] 2 1

def sampleProposal : ReliableBroadcastMsg SamplePayload := ⟨sampleChain none [1], [1]⟩

theorem honest_messages_sample :
    sampleRing.messages [2] (.ensureValid sampleProposal) [sampleProposal] =
        [sampleChain none [1, 2]] ∧
      sampleRing.HonestMsg [2] (sampleChain none [1, 2]) := by
  have hsent : sampleRing.messages [2] (.ensureValid sampleProposal) [sampleProposal] =
      [sampleChain none [1, 2]] := by rfl
  refine ⟨hsent, ?_⟩
  have honest := (Setup.honest_messages_iff (s := sampleRing) (sampleSetup_keysWork _ _ _ _)
    (by decide) (p := [2]) (by decide) (by decide) (.ensureValid sampleProposal) rfl
    [sampleProposal]).mpr ?_
  · exact honest _ (hsent ▸ List.mem_singleton_self _)
  · refine ⟨fun value h => (nomatch h), ?_⟩
    rw [forall_split_cons]
    refine ⟨fun hover => absurd hover.round (by decide), fun earlier msg later h => ?_⟩
    simp at h

/-- Party 4 signs the chain that the honest party 3 relayed in round 1 and sends it to party 2.
Party 2 sends it on with round 3, and party 3 drops that message. -/
theorem overlong_chain_relayed :
    sampleRing.relayRounds = 2 ∧
      sampleChain none [1, 3, 4, 2] ∈ sampleRing.messages [2] (.ensureValid sampleProposal)
        [sampleProposal, ⟨sampleChain none [1, 3], [3]⟩, ⟨sampleChain none [1, 3, 4], [4]⟩] ∧
      (sampleChain none [1, 3, 4, 2]).round = 3 ∧
      (sampleRing.enter [3] (.ensureValid sampleProposal)).broadcaster.handleMsg sampleCrypto
          ⟨sampleChain none [1, 3, 4, 2], [2]⟩ =
        .ok ((sampleRing.enter [3] (.ensureValid sampleProposal)).broadcaster, none) := by
  refine ⟨by decide, ?_, by decide, by rfl⟩
  have hsent : sampleRing.messages [2] (.ensureValid sampleProposal)
      [sampleProposal, ⟨sampleChain none [1, 3], [3]⟩, ⟨sampleChain none [1, 3, 4], [4]⟩] =
        [sampleChain none [1, 2], sampleChain none [1, 3, 4, 2]] := by rfl
  rw [hsent]
  exact List.mem_cons_of_mem _ (List.mem_singleton_self _)

end Sample

end TssSvc.Broadcast
