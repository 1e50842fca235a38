import TssSvc.Broadcast.Network

/-!
# Which messages the receive loop survives

The receive loop of `startRounds` runs without recovery: a message that makes it panic stops
the node.  `startRounds_survives_iff` says for every sequence of messages whether it does.
There are two kinds of such messages.  A chain without signatures that claims round -1 passes
the length check of `validateSignatures`, which then reads `Signatures[0]`.  A message from
the party itself passes `Receive`, whose `partiesMap` has the party, while `receivedMsgs` has
no map for it.
-/

set_option autoImplicit false

namespace TssSvc.Broadcast

/-- What holds of every element and the elements before it, read off the head and the tail. -/
theorem forall_split_cons {α : Type} {P : List α → α → Prop} {x : α} {xs : List α} :
    (∀ earlier y later, x :: xs = earlier ++ y :: later → P earlier y) ↔
      P [] x ∧ ∀ earlier y later, xs = earlier ++ y :: later → P (x :: earlier) y := by
  constructor
  · intro h
    refine ⟨h [] x xs rfl, fun earlier y later hsplit => h (x :: earlier) y later ?_⟩
    rw [hsplit, List.cons_append]
  · rintro ⟨hhead, htail⟩ earlier y later hsplit
    cases earlier with
    | nil =>
        obtain ⟨rfl, -⟩ := List.cons.inj hsplit
        exact hhead
    | cons first earlier =>
        obtain ⟨rfl, hrest⟩ := List.cons.inj hsplit
        exact htail earlier y later hrest

namespace ReliableBroadcaster

variable {T : Type}

/-- The check of `Receive` before the message goes to the channel. -/
def receive (b : ReliableBroadcaster T) (msg : ReliableBroadcastMsg T) : Except GoString Unit :=
  if msg.sender ∈ b.partiesMap then .ok () else .error (str "party is not in the group")

/-- The message is the first of its sender and round in this session, and it comes from
outside `parties` or is an empty chain of round -1. -/
structure Harmful (b : ReliableBroadcaster T) (earlier : List (ReliableBroadcastMsg T))
    (msg : ReliableBroadcastMsg T) : Prop where
  fresh : b.Fresh msg
  first : ∀ m ∈ earlier, m.msg.sessionId = b.sessionId → m.sender = msg.sender →
    m.msg.round ≠ msg.msg.round
  harm : msg.sender ∉ b.parties ∨ msg.msg.round = -1 ∧ msg.msg.signatures = []

theorem harmful_nil {b : ReliableBroadcaster T} {msg : ReliableBroadcastMsg T} :
    b.Harmful [] msg ↔ b.Fresh msg ∧
      (msg.sender ∉ b.parties ∨ msg.msg.round = -1 ∧ msg.msg.signatures = []) := by
  constructor
  · intro h
    exact ⟨h.fresh, h.harm⟩
  · rintro ⟨fresh, harm⟩
    exact ⟨fresh, fun m hm => (nomatch hm), harm⟩

variable [HasHashString T]

theorem handleMsg_stale {c : Crypto} {b : ReliableBroadcaster T} {msg : ReliableBroadcastMsg T}
    (stale : ¬ b.Fresh msg) : b.handleMsg c msg = .ok (b, none) := by
  unfold handleMsg
  by_cases hsession : msg.msg.sessionId = b.sessionId
  swap
  · rw [if_pos hsession]
  rw [if_neg (not_not.mpr hsession)]
  by_cases hround : msg.msg.round > b.relayRounds
  · rw [if_pos hround]
  rw [if_neg hround]
  by_cases hreceived : (msg.sender, msg.msg.round) ∈ b.receivedMsgs
  · rw [if_pos hreceived]
  · exact absurd ⟨hsession, not_lt.mp hround, hreceived⟩ stale

theorem handleMsg_stranger {c : Crypto} {b : ReliableBroadcaster T}
    {msg : ReliableBroadcastMsg T} (fresh : b.Fresh msg) (hparty : msg.sender ∉ b.parties) :
    b.handleMsg c msg = .error .nilMapAssignment := by
  unfold handleMsg
  rw [if_neg (not_not.mpr fresh.session), if_neg (not_lt.mpr fresh.inRounds),
    if_neg fresh.notReceived, if_pos hparty]

/-- The step lemma: one message is survived unless it is harmful. -/
theorem handleMsg_survives_iff {c : Crypto} {b : ReliableBroadcaster T}
    (decodable : ∀ a ∈ b.partiesMap, (c.decodeAddress a).isSome) (msg : ReliableBroadcastMsg T) :
    (∃ result, b.handleMsg c msg = .ok result) ↔ ¬ b.Harmful [] msg := by
  rw [harmful_nil]
  by_cases fresh : b.Fresh msg
  swap
  · exact ⟨fun _ h => fresh h.1, fun _ => ⟨_, handleMsg_stale fresh⟩⟩
  by_cases hparty : msg.sender ∈ b.parties
  swap
  · rw [handleMsg_stranger fresh hparty]
    refine ⟨fun ⟨_, h⟩ => (nomatch h), fun h => absurd ⟨fresh, .inl hparty⟩ h⟩
  by_cases hempty : msg.msg.round = -1 ∧ msg.msg.signatures = []
  · rw [handleMsg_emptyChain fresh hparty hempty.1 hempty.2]
    refine ⟨fun ⟨_, h⟩ => (nomatch h), fun h => absurd ⟨fresh, .inr hempty⟩ h⟩
  · refine ⟨fun _ h => ?_, fun _ => handleMsg_ok decodable hparty hempty⟩
    rcases h.2 with hstranger | hchain
    · exact hstranger hparty
    · exact hempty hchain

/-- What is fresh after a message was fresh before it, and is not of its sender and round. -/
theorem fresh_handled_iff {c : Crypto} {b b' : ReliableBroadcaster T}
    {msg msg' : ReliableBroadcastMsg T} {out : Option (RoundMessage T)}
    (handled : Handled c b msg b' out) :
    b'.Fresh msg' ↔ b.Fresh msg' ∧
      (msg.msg.sessionId = b.sessionId → msg.sender = msg'.sender →
        msg.msg.round ≠ msg'.msg.round) := by
  have same := handled.sameParty
  constructor
  · intro h
    refine ⟨⟨h.session.trans same.sessionId, h.inRounds.trans_eq same.relayRounds,
      fun hold => h.notReceived (handled.received_subset hold)⟩, ?_⟩
    intro hsession hsender hround
    have hmarked : (msg.sender, msg.msg.round) ∈ b'.receivedMsgs := by
      cases handled with
      | dropped stale =>
          by_contra hnot
          refine stale ⟨hsession, ?_, hnot⟩
          rw [hround]
          exact h.inRounds
      | rejected _ _ => exact List.mem_cons_self
      | accepted _ _ =>
          rw [accepted_receivedMsgs]
          exact List.mem_cons_self
    rw [hsender, hround] at hmarked
    exact h.notReceived hmarked
  · rintro ⟨fresh, hfirst⟩
    refine ⟨fresh.session.trans same.sessionId.symm, fresh.inRounds.trans_eq same.relayRounds.symm,
      ?_⟩
    intro hreceived
    have hpair := handled.received_new hreceived fresh.notReceived
    obtain ⟨hsender, hround⟩ := Prod.mk.inj hpair
    cases handled with
    | dropped _ => exact fresh.notReceived hreceived
    | rejected fresh' _ => exact hfirst fresh'.session hsender.symm hround.symm
    | accepted fresh' _ => exact hfirst fresh'.session hsender.symm hround.symm

/-- A message that was handled joins the earlier ones. -/
theorem unseen_handled_iff {c : Crypto} {b b' : ReliableBroadcaster T}
    {msg msg' : ReliableBroadcastMsg T} {out : Option (RoundMessage T)}
    (handled : Handled c b msg b' out) (earlier : List (ReliableBroadcastMsg T)) :
    (b'.Fresh msg' ∧ ∀ m ∈ earlier, m.msg.sessionId = b'.sessionId → m.sender = msg'.sender →
        m.msg.round ≠ msg'.msg.round) ↔
      b.Fresh msg' ∧ ∀ m ∈ msg :: earlier, m.msg.sessionId = b.sessionId →
        m.sender = msg'.sender → m.msg.round ≠ msg'.msg.round := by
  rw [fresh_handled_iff handled, handled.sameParty.sessionId, List.forall_mem_cons, and_assoc]

theorem harmful_handled_iff {c : Crypto} {b b' : ReliableBroadcaster T}
    {msg msg' : ReliableBroadcastMsg T} {out : Option (RoundMessage T)}
    (handled : Handled c b msg b' out) (earlier : List (ReliableBroadcastMsg T)) :
    b'.Harmful earlier msg' ↔ b.Harmful (msg :: earlier) msg' := by
  have hparties := handled.sameParty.parties
  constructor
  · intro h
    obtain ⟨fresh, hfirst⟩ := (unseen_handled_iff handled earlier).mp ⟨h.fresh, h.first⟩
    exact ⟨fresh, hfirst, hparties ▸ h.harm⟩
  · intro h
    obtain ⟨fresh, hfirst⟩ := (unseen_handled_iff handled earlier).mpr ⟨h.fresh, h.first⟩
    exact ⟨fresh, hfirst, hparties.symm ▸ h.harm⟩

/-- The receive loop survives a sequence of messages exactly when none of them is harmful
after those before it. -/
theorem startRounds_survives_iff (c : Crypto) (b : ReliableBroadcaster T)
    (decodable : ∀ a ∈ b.partiesMap, (c.decodeAddress a).isSome)
    (taken : List (ReliableBroadcastMsg T)) :
    (∃ result, b.startRounds c taken = .ok result) ↔
      ∀ earlier msg later, taken = earlier ++ msg :: later → ¬ b.Harmful earlier msg := by
  induction taken generalizing b with
  | nil =>
      refine ⟨fun _ earlier msg later h => ?_, fun _ => ⟨_, rfl⟩⟩
      simp at h
  | cons msg taken ih =>
      have hstep := handleMsg_survives_iff decodable msg
      rw [forall_split_cons, ← hstep]
      cases hrun : b.handleMsg c msg with
      | error e =>
          refine ⟨fun ⟨result, hok⟩ => ?_, fun ⟨⟨result, hok⟩, _⟩ => (nomatch hok)⟩
          simp [startRounds, hrun, bind, Except.bind] at hok
      | ok result =>
          obtain ⟨b', out⟩ := result
          have handled := handleMsg_handled hrun
          have hcons : (∃ result, b.startRounds c (msg :: taken) = .ok result) ↔
              ∃ result, b'.startRounds c taken = .ok result := by
            simp only [startRounds, hrun, bind, Except.bind, pure, Except.pure]
            cases b'.startRounds c taken <;> simp
          rw [hcons, ih b' (handled.sameParty.partiesMap ▸ decodable)]
          simp only [harmful_handled_iff handled, Except.ok.injEq, exists_eq', true_and]

end ReliableBroadcaster

section Sample

/-- The broadcaster of party 2 in `EnsureValid` on a message of party 1. -/
def sampleReceiver : ReliableBroadcaster SamplePayload :=
  ((sampleSetup [1, 2, 3] [1, 2, 3] 1 1).fresh SamplePayload [2]).startEnsureValid
    ⟨sampleChain none [1], [1]⟩

theorem startRounds_survives_sampleReceiver :
    ∃ result, sampleReceiver.startRounds sampleCrypto [⟨sampleChain none [1], [1]⟩] =
      .ok result := by
  refine (ReliableBroadcaster.startRounds_survives_iff sampleCrypto sampleReceiver (by decide)
    [⟨sampleChain none [1], [1]⟩]).mpr ?_
  intro earlier msg later hsplit hharm
  have hmsg : msg = ⟨sampleChain none [1], [1]⟩ := by
    cases earlier with
    | nil => exact (List.cons.inj hsplit).1.symm
    | cons _ earlier =>
        have hrest := (List.cons.inj hsplit).2
        simp at hrest
  subst hmsg
  rcases hharm.harm with hstranger | ⟨hround, -⟩
  · exact hstranger (by decide)
  · exact absurd hround (by decide)

/-- Party 3 sends an empty chain of round -1, and party 2 a message to itself; `Receive` lets
both through. -/
theorem startRounds_panics :
    sampleReceiver.receive ⟨⟨none, str "session", -1, []⟩, [3]⟩ = .ok () ∧
      sampleReceiver.startRounds sampleCrypto [⟨⟨none, str "session", -1, []⟩, [3]⟩] =
        .error .indexOutOfRange ∧
      sampleReceiver.receive ⟨⟨none, str "session", 1, []⟩, [2]⟩ = .ok () ∧
      sampleReceiver.startRounds sampleCrypto [⟨⟨none, str "session", 1, []⟩, [2]⟩] =
        .error .nilMapAssignment := by
  refine ⟨by rfl, by rfl, by rfl, by rfl⟩

end Sample

end TssSvc.Broadcast
