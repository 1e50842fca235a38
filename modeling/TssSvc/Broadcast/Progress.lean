import TssSvc.Broadcast.Validity
import TssSvc.Broadcast.Verdict

/-!
# A broadcast among honest parties

When all parties are honest and everything is delivered, the broadcast should succeed: a
chain grows by one signature each round until it has `relayRounds` of them.

The chain can stop growing.  A party relays several chains in one round and the others
process only the first of them, which may be one they have signed already and do not extend.
With four or more relay rounds this can happen to all parties at once, and then all of them
return false.  The broadcast succeeds in the runs in which a chain that is not extended is
never the last one of its round.
-/

set_option autoImplicit false

namespace TssSvc.Broadcast

namespace Setup

variable {T : Type} [HasHashString T] {s : Setup}

omit [HasHashString T] in
/-- Some party has broadcast a message of the round. -/
def SentIn (s : Setup) (net : Net T) (round : Int) : Prop :=
  ∃ r ∈ s.group, ∃ m ∈ net.sent r, m.round = round

/-- The acceptor `q` has yet to process a message that `r` has broadcast in the round. -/
def Awaits (s : Setup) (net : Net T) (q r : Address) (round : Int) : Prop :=
  q ≠ s.origin ∧ q ≠ r ∧ (∃ m ∈ net.sent r, m.round = round) ∧
    ∀ node ∈ net q, (r, round) ∉ node.broadcaster.receivedMsgs

def Awaited (s : Setup) (net : Net T) (round : Int) : Prop :=
  ∃ q ∈ s.group, ∃ r ∈ s.group, s.Awaits net q r round

/-- What the take of a chain that is not extended must find: a chain of the next round, or
another message of this round that is yet to be processed. -/
def Extended (s : Setup) (net : Net T) (p : Address) (msg : ReliableBroadcastMsg T) : Prop :=
  s.SentIn net (msg.msg.round + 1) ∨
    ∃ q ∈ s.group, ∃ r ∈ s.group, (q, r) ≠ (p, msg.sender) ∧ s.Awaits net q r msg.msg.round

/-- The step condition: an acceptor that processes a chain with its own signature, of a round
after which chains still have to grow, leaves another way on. -/
def Prolonged (s : Setup) (net : Net T) : Label T → Prop
  | .take p msg => ∀ node ∈ net p, p ≠ s.origin → node.broadcaster.Fresh msg →
      node.broadcaster.SelfSigned msg.msg → msg.msg.round + 2 ≤ s.relayRounds →
        s.Extended net p msg
  | _ => True

instance (net : Net T) (round : Int) : Decidable (s.SentIn net round) :=
  inferInstanceAs (Decidable (∃ r ∈ s.group, ∃ m ∈ net.sent r, m.round = round))

instance (net : Net T) (q r : Address) (round : Int) : Decidable (s.Awaits net q r round) :=
  inferInstanceAs (Decidable (_ ∧ _ ∧ (∃ m ∈ net.sent r, m.round = round) ∧
    ∀ node ∈ net q, (r, round) ∉ node.broadcaster.receivedMsgs))

instance (net : Net T) (p : Address) (msg : ReliableBroadcastMsg T) :
    Decidable (s.Extended net p msg) :=
  inferInstanceAs (Decidable (_ ∨ ∃ q ∈ s.group, ∃ r ∈ s.group, _ ∧ s.Awaits net q r _))

instance (net : Net T) : (label : Label T) → Decidable (s.Prolonged net label)
  | .take p msg => inferInstanceAs (Decidable (∀ node ∈ net p, p ≠ s.origin →
      node.broadcaster.Fresh msg → node.broadcaster.SelfSigned msg.msg → _ → s.Extended net p msg))
  | .broadcast _ _ => isTrue trivial
  | .ensureValid _ _ => isTrue trivial

/-! ## What is sent and what is awaited -/

section Steps

variable {net net' : Net T} {label : Label T} {round : Int}

theorem SentIn.mono (h : s.SentIn net round) (stepped : s.Stepped net label net') :
    s.SentIn net' round := by
  obtain ⟨r, hr, m, hm, hround⟩ := h
  exact ⟨r, hr, m, stepped.sent_subset r hm, hround⟩

/-- A message stays awaited while its acceptor's marks do not change. -/
theorem Awaits.mono {q r : Address} (h : s.Awaits net q r round)
    (stepped : s.Stepped net label net')
    (unmarked : ∀ node' ∈ net' q, (r, round) ∉ node'.broadcaster.receivedMsgs) :
    s.Awaits net' q r round := by
  obtain ⟨acceptor, other, ⟨m, hm, hround⟩, -⟩ := h
  exact ⟨acceptor, other, ⟨m, stepped.sent_subset r hm, hround⟩, unmarked⟩

/-- A step that marks one message leaves the others awaited. -/
theorem Awaits.of_marked {p q r : Address} {node node' : Node T} {entry : Address × Int}
    (h : s.Awaits net q r round) (stepped : s.Stepped net label (net.set p node'))
    (present : net p = some node)
    (hmarks : node'.broadcaster.receivedMsgs = entry :: node.broadcaster.receivedMsgs)
    (hne : (q, r, round) ≠ (p, entry)) : s.Awaits (net.set p node') q r round := by
  refine h.mono stepped ?_
  intro node'' hnode'' hreceived
  by_cases hq : q = p
  · subst hq
    rw [Net.set_self, Option.mem_some_iff] at hnode''
    subst hnode''
    rw [hmarks] at hreceived
    rcases List.mem_cons.mp hreceived with hnew | hold
    · exact hne (hnew ▸ rfl)
    · exact h.2.2.2 node present hold
  · rw [Net.set_ne net _ hq] at hnode''
    exact h.2.2.2 node'' hnode'' hreceived

/-- A step that marks nothing keeps what is awaited. -/
theorem Awaited.mono (h : s.Awaited net round) (stepped : s.Stepped net label net')
    (marks : ∀ q node', net' q = some node' → ∀ entry ∈ node'.broadcaster.receivedMsgs,
      ∃ node, net q = some node ∧ entry ∈ node.broadcaster.receivedMsgs) :
    s.Awaited net' round := by
  obtain ⟨q, hq, r, hr, hawaits⟩ := h
  refine ⟨q, hq, r, hr, hawaits.mono stepped ?_⟩
  intro node' hnode' hreceived
  obtain ⟨node, hnode, hold⟩ := marks q node' hnode' _ hreceived
  exact hawaits.2.2.2 node hnode hold

omit [HasHashString T] in
theorem marks_set {p : Address} {node' : Node T}
    (hmarks : ∀ entry ∈ node'.broadcaster.receivedMsgs,
      ∃ node, net p = some node ∧ entry ∈ node.broadcaster.receivedMsgs) :
    ∀ q node'', net.set p node' q = some node'' → ∀ entry ∈ node''.broadcaster.receivedMsgs,
      ∃ node, net q = some node ∧ entry ∈ node.broadcaster.receivedMsgs := by
  intro q node'' hnode''
  by_cases hq : q = p
  · subst hq
    rw [Net.set_self, Option.some.injEq] at hnode''
    subst hnode''
    exact hmarks
  · rw [Net.set_ne net _ hq] at hnode''
    exact fun entry hentry => ⟨node'', hnode'', hentry⟩

omit [HasHashString T] in
theorem SentIn.of_set {p : Address} {node' : Node T} (h : s.SentIn (net.set p node') round) :
    s.SentIn net round ∨ p ∈ s.group ∧ ∃ m ∈ node'.sent, m.round = round := by
  obtain ⟨r, hr, m, hm, hround⟩ := h
  by_cases hrp : r = p
  · subst hrp
    rw [Net.sent_of_some (Net.set_self _ _ _)] at hm
    exact .inr ⟨hr, m, hm, hround⟩
  · rw [Net.sent, Net.set_ne net _ hrp] at hm
    exact .inl ⟨r, hr, m, hm, hround⟩

/-- A chain of one or two signatures is signed by the origin and its sender only. -/
theorem Chain.signer_of_round_le_one {sender : Address} {m : RoundMessage T}
    (h : s.Chain sender m) (hround : m.round ≤ 1) {a : Address}
    (ha : a ∈ m.signatures.map Signature.signer) : a = s.origin ∨ a = sender := by
  have hlength := h.length
  have hfirst := h.first
  have hlast := h.last
  match hsigs : m.signatures with
  | [] =>
      rw [hsigs] at ha
      cases ha
  | [x] =>
      simp only [hsigs, List.head?_cons, Option.map_some, Option.some.injEq] at hfirst
      simp only [hsigs, List.map_cons, List.map_nil, List.mem_singleton] at ha
      exact .inl (ha.trans hfirst)
  | [x, y] =>
      simp only [hsigs, List.head?_cons, Option.map_some, Option.some.injEq] at hfirst
      simp only [hsigs, List.getLast?_cons_cons, List.getLast?_singleton, Option.map_some,
        Option.some.injEq] at hlast
      simp only [hsigs, List.map_cons, List.map_nil, List.mem_cons, List.not_mem_nil,
        or_false] at ha
      rcases ha with rfl | rfl
      · exact .inl hfirst
      · exact .inr hlast
  | x :: y :: z :: rest =>
      simp only [hsigs, List.length_cons] at hlength
      omega

end Steps

/-! ## Chains grow -/

section Honest

variable [DecidableEq T] {net : Net T} {allowed : Net T → Label T → Prop}

omit [HasHashString T] [DecidableEq T] in
theorem exists_other (nodup : s.group.Nodup) {a b : Address} (hsize : 3 ≤ s.group.length) :
    ∃ q ∈ s.group, q ≠ a ∧ q ≠ b := by
  by_contra hnone
  push Not at hnone
  have hsubset : s.group ⊆ [a, b] := by
    intro q hq
    by_cases hqa : q = a
    · simp [hqa]
    · simp [hnone q hq hqa]
  have hle := (nodup.subperm hsubset).length_le
  simp only [List.length_cons, List.length_nil] at hle
  omega

/-- In a group of honest parties every message taken is one its sender broadcast. -/
theorem Deliverable.sentOk (keys : s.KeysWork) (honest : ∀ a ∈ s.group, s.honest a = true)
    (reached : (s.machine T).Reachable allowed net) {p : Address} {node : Node T}
    {msg : ReliableBroadcastMsg T} (deliverable : s.Deliverable net p node msg) :
    msg.sender ∈ s.group ∧ msg.msg ∈ net.sent msg.sender ∧
      ∃ snode, net msg.sender = some snode ∧ s.SentOk msg.sender snode msg.msg := by
  have hmember : msg.sender ∈ s.group := (List.mem_filter.mp deliverable.sender).1
  have hsent := deliverable.authentic (honest _ hmember)
  exact ⟨hmember, hsent, sentOk_of_mem_sent keys reached hsent⟩

/-- The first message a party sends in a round is awaited by any other acceptor. -/
theorem awaited_of_first (keys : s.KeysWork) (reached : (s.machine T).Reachable allowed net)
    {p q : Address} {node' : Node T} {round : Int} (honest : s.honest p = true)
    (hp : p ∈ s.group) (hq : q ∈ s.group) (acceptor : q ≠ s.origin) (other : q ≠ p)
    (first : ¬ s.SentIn net round) (hsent : ∃ m ∈ node'.sent, m.round = round) :
    s.Awaited (net.set p node') round := by
  obtain ⟨m, hm, hround⟩ := hsent
  refine ⟨q, hq, p, hp, acceptor, other, ⟨m, ?_, hround⟩, ?_⟩
  · rwa [Net.sent_of_some (Net.set_self _ _ _)]
  · rw [Net.set_ne net _ other]
    intro node hnode hreceived
    obtain ⟨m, hm, hround, -⟩ := received_accepted keys reached hnode honest hreceived
    exact first ⟨p, hp, m, hm, hround⟩

/-- The step lemma for a message that is processed. -/
theorem sentIn_succ_or_awaited_take (keys : s.KeysWork) (nodup : s.group.Nodup)
    (hsize : 3 ≤ s.group.length) (reached : (s.machine T).Reachable s.Prolonged net)
    {p : Address} {node node' : Node T} {msg : ReliableBroadcastMsg T}
    (present : net p = some node) (prolonged : s.Prolonged net (.take p msg))
    (fresh : node.broadcaster.Fresh msg)
    (stepped : s.Stepped net (.take p msg) (net.set p node'))
    (hmarks : node'.broadcaster.receivedMsgs =
      (msg.sender, msg.msg.round) :: node.broadcaster.receivedMsgs)
    (hsent : node'.sent = node.sent ++ (node.broadcaster.relay s.crypto msg.msg).toList)
    {k : Int} (hk : k + 2 ≤ s.relayRounds)
    (ih : s.SentIn net k → s.SentIn net (k + 1) ∨ s.Awaited net k)
    (hsentK : s.SentIn (net.set p node') k) :
    s.SentIn (net.set p node') (k + 1) ∨ s.Awaited (net.set p node') k := by
  have hwf := wellFormed reached present
  have hconf := hwf.configured
  by_cases hbefore : s.SentIn net k
  · rcases ih hbefore with hnext | ⟨q, hq, r, hr, hawaits⟩
    · exact .inl (hnext.mono stepped)
    by_cases hsame : (q, r, k) = (p, msg.sender, msg.msg.round)
    swap
    · exact .inr ⟨q, hq, r, hr, hawaits.of_marked stepped present hmarks hsame⟩
    obtain ⟨rfl, rfl, rfl⟩ : q = p ∧ r = msg.sender ∧ k = msg.msg.round := by simpa using hsame
    by_cases hself : node.broadcaster.SelfSigned msg.msg
    · rcases prolonged node present hawaits.1 fresh hself hk with hnext | hother
      · exact .inl (hnext.mono stepped)
      · obtain ⟨q', hq', r', hr', hne, hawaits'⟩ := hother
        refine .inr ⟨q', hq', r', hr', hawaits'.of_marked stepped present hmarks ?_⟩
        intro heq
        exact hne (by simpa using heq)
    · -- our own signature extends the chain
      obtain ⟨sig, hrelay⟩ := relay_eq_relayed keys hwf.honest hconf hself (by omega)
      refine .inl ⟨q, hq, node.broadcaster.relayed msg.msg sig, ?_, rfl⟩
      rw [Net.sent_of_some (Net.set_self _ _ _), hsent, hrelay]
      simp
  · -- the first message of round `k` is the one just relayed
    obtain ⟨hp, hnew⟩ := hsentK.of_set.resolve_left hbefore
    obtain ⟨q, hq, horigin, hother⟩ := exists_other (a := s.origin) (b := p) nodup hsize
    exact .inr (awaited_of_first keys reached hwf.honest hp hq horigin hother hbefore hnew)

/-- While a message of round `k` has been broadcast, a message of the next round has been or
a message of round `k` is awaited. -/
theorem sentIn_succ_or_awaited (keys : s.KeysWork) (honest : ∀ a ∈ s.group, s.honest a = true)
    (nodup : s.group.Nodup) (hsize : 3 ≤ s.group.length)
    (reached : (s.machine T).Reachable s.Prolonged net) {k : Int} (hk : k + 2 ≤ s.relayRounds) :
    s.SentIn net k → s.SentIn net (k + 1) ∨ s.Awaited net k := by
  refine Machine.Reachable.invariant
    (P := fun net => s.SentIn net k → s.SentIn net (k + 1) ∨ s.Awaited net k) ?_ ?_ reached
  · rintro net rfl ⟨r, -, m, hm, -⟩
    cases hm
  · intro net label net' before ih meets taken hsentK
    have stepped := stepped_of_step taken
    have kept : (∀ q node', net' q = some node' → ∀ entry ∈ node'.broadcaster.receivedMsgs,
        ∃ node, net q = some node ∧ entry ∈ node.broadcaster.receivedMsgs) → s.SentIn net k →
          s.SentIn net' (k + 1) ∨ s.Awaited net' k := by
      intro marks hbefore
      rcases ih hbefore with hnext | hawaited
      · exact .inl (hnext.mono stepped)
      · exact .inr (hawaited.mono stepped marks)
    cases stepped_of_step taken with
    | broadcast value idle =>
        by_cases hbefore : s.SentIn net k
        · refine kept (marks_set ?_) hbefore
          have began := began_enterBroadcast (s := s) s.origin value
          generalize s.enterBroadcast s.origin value = node at began
          cases began <;> exact fun entry hentry => nomatch hentry
        · obtain ⟨hp, hnew⟩ := hsentK.of_set.resolve_left hbefore
          obtain ⟨q, hq, horigin, -⟩ := exists_other (a := s.origin) (b := s.origin) nodup hsize
          exact .inr (awaited_of_first keys before idle.2.1 hp hq horigin horigin hbefore hnew)
    | ensureValid p msg idle acceptor sender round authentic =>
        refine kept (marks_set fun entry hentry => nomatch hentry) ?_
        rcases hsentK.of_set with hbefore | ⟨-, m, hm, -⟩
        · exact hbefore
        · cases hm
    | take p node msg present deliverable =>
        have hwf := wellFormed before present
        obtain ⟨-, -, snode, -, hok⟩ := deliverable.sentOk keys honest before
        have valid := (hwf.configured.chainValid_iff hwf.member).mpr hok.chain
        have took := took_takeMsg (s := s) node msg
        generalize s.takeMsg node msg = node' at took stepped hsentK kept ⊢
        have unchanged : node'.broadcaster.receivedMsgs = node.broadcaster.receivedMsgs →
            node'.sent = node.sent → s.SentIn (net.set p node') (k + 1) ∨
              s.Awaited (net.set p node') k := by
          intro hmarks hsame
          refine kept (marks_set fun entry hentry => ⟨node, present, hmarks ▸ hentry⟩) ?_
          rcases hsentK.of_set with hbefore | ⟨hp, m, hm, hround⟩
          · exact hbefore
          · exact ⟨p, hp, m, by rwa [Net.sent_of_some present, ← hsame], hround⟩
        cases took with
        | panicked _ _ => exact unchanged rfl rfl
        | handled b out run =>
            cases ReliableBroadcaster.handleMsg_handled run with
            | dropped _ => exact unchanged rfl (List.append_nil _)
            | rejected _ invalid => exact absurd valid invalid
            | accepted fresh _ =>
                exact sentIn_succ_or_awaited_take keys nodup hsize before present meets fresh
                  stepped (ReliableBroadcaster.accepted_receivedMsgs _ _) rfl hk ih hsentK

/-! ## Everybody holds the origin's value -/

theorem origin_entry_of_sent (reached : (s.machine T).Reachable allowed net)
    {m : RoundMessage T} (hm : m ∈ net.sent s.origin) :
    ∃ onode v, net s.origin = some onode ∧ onode.entry = .broadcast v := by
  cases horigin : net s.origin with
  | none => simp [Net.sent, horigin] at hm
  | some onode =>
      obtain ⟨v, hentry⟩ := origin_entry (reached.mono fun _ _ _ => trivial) horigin
      exact ⟨onode, v, rfl, hentry⟩

/-- The node holds and has relayed nothing but the value `v`. -/
structure Carries (v : Option T) (node : Node T) : Prop where
  keys : ∀ key ∈ node.broadcaster.keys, key = valueKey v
  sent : ∀ m ∈ node.sent, m.value = v

omit [DecidableEq T] in
theorem Carries.took {v : Option T} {node node' : Node T} {msg : ReliableBroadcastMsg T}
    (h : Carries v node) (took : s.Took node msg node') (hvalue : msg.msg.value = v) :
    Carries v node' := by
  cases took with
  | panicked _ _ => exact ⟨h.keys, h.sent⟩
  | handled b out run =>
      cases ReliableBroadcaster.handleMsg_handled run with
      | dropped _ => exact ⟨h.keys, by simpa using h.sent⟩
      | rejected _ _ => exact ⟨h.keys, by simpa using h.sent⟩
      | accepted _ _ =>
          constructor
          · intro key hkey
            rcases (ReliableBroadcaster.mem_keys_accepted _ _).mp hkey with hold | rfl
            · exact h.keys key hold
            · rw [hvalue]
          · intro m hm
            rcases List.mem_append.mp hm with hold | hnew
            · exact h.sent m hold
            · obtain ⟨-, -, sig, -, rfl⟩ := relay_eq_some (Option.mem_toList.mp hnew)
              exact hvalue

theorem carries_origin_value (honest : ∀ a ∈ s.group, s.honest a = true)
    (horigin : s.origin ∈ s.group) (reached : (s.machine T).Reachable allowed net) {p : Address}
    {node : Node T} (hnode : net p = some node) :
    ∃ onode v, net s.origin = some onode ∧ onode.entry = .broadcast v ∧ Carries v node := by
  refine node_invariant (P := fun net _ node => ∃ onode v, net s.origin = some onode ∧
      onode.entry = .broadcast v ∧ Carries v node) ?_ ?_ ?_ ?_ reached p node hnode
  · rintro net label net' stepped p node ⟨onode, v, hpresent, hentry, hcarries⟩
    obtain ⟨onode', hpresent', hentry', -, -⟩ := stepped.persists hpresent
    exact ⟨onode', v, hpresent', hentry'.trans hentry, hcarries⟩
  · intro net value node _ _ began
    refine ⟨node, value, Net.set_self _ _ _, ?_, ?_⟩
    · cases began <;> rfl
    · cases began with
      | signed sig _ =>
          refine ⟨fun key hkey => List.mem_singleton.mp hkey, fun m hm => ?_⟩
          rw [List.mem_singleton.mp hm]
          rfl
      | failed _ => exact ⟨fun key hkey => List.mem_singleton.mp hkey, fun m hm => nomatch hm⟩
  · intro net p msg before idle acceptor sender _ authentic
    have hsent : msg.msg ∈ net.sent s.origin := sender ▸ authentic (sender ▸ honest _ horigin)
    obtain ⟨onode, v, hpresent, hentry⟩ := origin_entry_of_sent before hsent
    exact ⟨onode, v, (Net.set_ne net _ acceptor.symm).trans hpresent, hentry,
      ⟨fun key hkey => (nomatch hkey), fun m hm => (nomatch hm)⟩⟩
  · intro net p node msg node' before ih _ present deliverable took
    obtain ⟨onode, v, hpresent, hentry, hcarries⟩ := ih p node present
    have stepped : s.Stepped net (.take p msg) (net.set p (s.takeMsg node msg)) :=
      .take p node msg present deliverable
    rw [← took.eq_takeMsg] at stepped
    obtain ⟨onode', hpresent', hentry', -, -⟩ := stepped.persists hpresent
    refine ⟨onode', v, hpresent', hentry'.trans hentry, hcarries.took took ?_⟩
    -- the sender carries the same value, so the message taken does
    have hmember : msg.sender ∈ s.group := (List.mem_filter.mp deliverable.sender).1
    have hsent := deliverable.authentic (honest _ hmember)
    cases hsender : net msg.sender with
    | none => simp [Net.sent, hsender] at hsent
    | some snode =>
        obtain ⟨onode'', v', hpresent'', hentry'', hcarries'⟩ := ih _ snode hsender
        cases hpresent.symm.trans hpresent''
        cases hentry.symm.trans hentry''
        rw [Net.sent_of_some hsender] at hsent
        exact hcarries'.sent _ hsent

/-! ## The broadcast succeeds -/

theorem origin_sent_first (keys : s.KeysWork) (reached : (s.machine T).Reachable allowed net)
    {onode : Node T} (hpresent : net s.origin = some onode) : ∃ m ∈ onode.sent, m.round = 0 := by
  refine node_invariant (P := fun _ p node => p = s.origin → ∃ m ∈ node.sent, m.round = 0)
    (fun _ _ _ _ _ _ h => h) ?_ ?_ ?_ reached _ onode hpresent rfl
  · intro net value node _ idle began _
    cases began with
    | signed sig _ => exact ⟨_, List.mem_singleton_self _, rfl⟩
    | failed hnone =>
        obtain ⟨sig, hsign, -⟩ := keys s.origin idle.2.1 ((s.originMsg value).signHash s.crypto)
        cases hnone.symm.trans hsign
  · intro net p msg _ _ acceptor _ _ _ horigin
    exact absurd horigin acceptor
  · intro net p node msg node' _ ih _ present _ took horigin
    obtain ⟨m, hm, hround⟩ := ih p node present horigin
    rw [took.eq_takeMsg]
    exact ⟨m, takeMsg_sent_subset _ _ hm, hround⟩

theorem running_of_honest (keys : s.KeysWork) (honest : ∀ a ∈ s.group, s.honest a = true)
    (reached : (s.machine T).Reachable allowed net) {p : Address} {node : Node T}
    (hnode : net p = some node) : node.status = .running := by
  refine running_of_nonempty keys ?_ ?_ reached hnode
  · intro a ha
    obtain ⟨-, -, hdecodes, -⟩ := keys a (honest a ha) []
    exact hdecodes
  · rintro net p node msg before _ _ deliverable ⟨-, hempty⟩
    obtain ⟨-, -, snode, -, hok⟩ := deliverable.sentOk keys honest before
    exact hok.chain.ne_nil hempty

/-- Nothing that was broadcast is awaited once everything has been delivered. -/
theorem not_awaited (keys : s.KeysWork) (honest : ∀ a ∈ s.group, s.honest a = true)
    (reached : (s.machine T).Reachable allowed net)
    (entered : ∀ p ∈ s.group, (net p).isSome = true)
    (delivered : ∀ q node, net q = some node → s.DeliveredTo net q node) {k : Int}
    (hk : k ≤ s.relayRounds) : ¬ s.Awaited net k := by
  rintro ⟨q, hq, r, hr, -, hother, ⟨m, hm, rfl⟩, unmarked⟩
  obtain ⟨node, hnode⟩ := Option.isSome_iff_exists.mp (entered q hq)
  have htaken := delivered q node hnode r hr hother.symm m hm
  exact unmarked node hnode (taken_received keys reached hnode
    (running_of_honest keys honest reached hnode) htaken (honest r hr) hk)

/-- With everything delivered, chains reach every round. -/
theorem sentIn_all (keys : s.KeysWork) (honest : ∀ a ∈ s.group, s.honest a = true)
    (nodup : s.group.Nodup) (horigin : s.origin ∈ s.group) (threshold : 1 ≤ s.threshold)
    (reached : (s.machine T).Reachable s.Prolonged net)
    (entered : ∀ p ∈ s.group, (net p).isSome = true)
    (delivered : ∀ q node, net q = some node → s.DeliveredTo net q node) (k : Nat)
    (hk : (k : Int) + 1 ≤ s.relayRounds) : s.SentIn net k := by
  induction k with
  | zero =>
      obtain ⟨onode, hpresent⟩ := Option.isSome_iff_exists.mp (entered _ horigin)
      obtain ⟨m, hm, hround⟩ := origin_sent_first keys reached hpresent
      exact ⟨s.origin, horigin, m, by rwa [Net.sent_of_some hpresent], hround⟩
  | succ k ih =>
      have hsize : 3 ≤ s.group.length := by
        unfold relayRounds maxMalicious maxMaliciousParties at hk
        omega
      have hsent := ih (by omega)
      push_cast at hk ⊢
      rcases sentIn_succ_or_awaited keys honest nodup hsize reached (by omega) hsent with
        hnext | hawaited
      · exact hnext
      · exact absurd hawaited
          (not_awaited keys honest reached entered delivered (by omega))

theorem call_of_verdict (reached : (s.machine T).Reachable allowed net) {p : Address}
    {node : Node T} (hnode : net p = some node) {verdict : Bool}
    (hverdict : node.verdict = some verdict) :
    ∃ sent, s.call p node.entry node.taken = .ok (verdict, sent) := by
  have hcall := call_eq_verdict reached hnode
  cases hresult : s.call p node.entry node.taken with
  | error e => simp [hresult, hverdict] at hcall
  | ok result =>
      simp only [hresult, hverdict, Option.some.injEq] at hcall
      exact ⟨result.2, by rw [hcall.1]⟩

/-- In a group of honest parties, in a run that never uses up the last chain of a round, once
every broadcast message has been processed by all others, `Broadcast` returns true at the
origin and `EnsureValid` at every other party. -/
theorem broadcast_succeeds (keys : s.KeysWork) (honest : ∀ a ∈ s.group, s.honest a = true)
    (nodup : s.group.Nodup) (horigin : s.origin ∈ s.group) (threshold : 1 ≤ s.threshold)
    (below : s.threshold < s.group.length) (reached : (s.machine T).Reachable s.Prolonged net)
    (entered : ∀ p ∈ s.group, (net p).isSome = true)
    (delivered : ∀ q node, net q = some node → s.DeliveredTo net q node) {p : Address}
    {node : Node T} (hnode : net p = some node) :
    ∃ sent, s.call p node.entry node.taken = .ok (true, sent) := by
  have hrounds : 1 ≤ s.relayRounds := by
    unfold relayRounds maxMalicious maxMaliciousParties
    omega
  have hrunning := running_of_honest keys honest reached hnode
  obtain ⟨r, hr, m, hm, hround⟩ := sentIn_all keys honest nodup horigin threshold reached entered
    delivered (s.relayRounds - 1).toNat (by omega)
  have hlast : s.relayRounds = m.round + 1 := by omega
  -- the complete chain raises the final flag everywhere
  have hcomplete : (∃ key, key ∈ node.broadcaster.keys) ∧
      node.broadcaster.finalSigChainReached = true := by
    by_cases hpr : r = p
    · subst hpr
      rw [Net.sent_of_some hnode] at hm
      have hok := sentOk keys reached hnode m hm
      exact ⟨⟨_, hok.key⟩, hok.final hrounds hlast.le⟩
    · have htaken := delivered p node hnode r hr hpr m hm
      have hinRounds : m.round ≤ s.relayRounds := by omega
      have hreceived := taken_received keys reached hnode hrunning htaken (honest r hr) hinRounds
      obtain ⟨m', -, -, hkey, hfinal⟩ :=
        received_accepted keys reached hnode (honest r hr) hreceived
      exact ⟨⟨_, hkey⟩, hfinal hlast.le⟩
  obtain ⟨⟨key, hkey⟩, hfinal⟩ := hcomplete
  obtain ⟨onode, v, -, -, hcarries⟩ := carries_origin_value honest horigin reached hnode
  have hsingle : node.broadcaster.keys.length = 1 := by
    have hsubset : node.broadcaster.keys ⊆ [valueKey v] := by
      intro key hkey
      exact List.mem_singleton.mpr (hcarries.keys key hkey)
    have hle := ((wellFormed reached hnode).nodup.subperm hsubset).length_le
    have hpos := List.length_pos_of_mem hkey
    simp only [List.length_singleton] at hle
    omega
  have hverdict : node.verdict = some true := by
    simp [Node.verdict, hrunning,
      (ReliableBroadcaster.decideValid_eq_true_iff node.broadcaster).mpr ⟨hsingle, hfinal⟩]
  exact call_of_verdict reached hnode hverdict

/-- With at most three relay rounds every run of honest parties meets the condition: the
chains that still have to grow carry no signature but the origin's and the sender's. -/
theorem prolonged_of_relayRounds_le_three (keys : s.KeysWork)
    (honest : ∀ a ∈ s.group, s.honest a = true) (rounds : s.relayRounds ≤ 3)
    (reached : (s.machine T).Reaches net) : (s.machine T).Reachable s.Prolonged net := by
  induction reached with
  | init start => exact .init start
  | @step net net' label before _ taken ih =>
      refine .step ih ?_ taken
      cases stepped_of_step taken with
      | broadcast _ _ => trivial
      | ensureValid _ _ _ _ _ _ _ => trivial
      | take p node msg present deliverable =>
          intro node' present' acceptor _ hself hround
          cases present.symm.trans present'
          have hconf := (wellFormed before present).configured
          obtain ⟨-, -, snode, -, hok⟩ := deliverable.sentOk keys honest before
          have hsender : p ≠ msg.sender := by
            rintro rfl
            simpa using (List.mem_filter.mp deliverable.sender).2
          rcases hok.chain.signer_of_round_le_one (by omega) (hconf.selfSigned_iff.mp hself) with
            horigin | hlast
          · exact absurd horigin acceptor
          · exact absurd hlast hsender

end Honest

/-! ## Runs of five honest parties

The origin 1 and the acceptors 2 to 5, with four relay rounds. -/

def fiveHonest : Setup := sampleSetup [1, 2, 3, 4, 5] [1, 2, 3, 4, 5] 1 1

def acceptorsBut (p : UInt8) : List UInt8 := [2, 3, 4, 5].filter fun a => a ≠ p

/-- The party takes the chains with these signers, each from its last signer. -/
def takes (p : UInt8) (chains : List (List UInt8)) : List (Label SamplePayload) :=
  chains.map fun chain => .take [p] ⟨sampleChain (some ⟨str "v"⟩) chain, [chain.getLastD 0]⟩

def firstChains : List (Label SamplePayload) :=
  [.broadcast [1] (some ⟨str "v"⟩)] ++
    ([2, 3, 4, 5].flatMap fun p =>
      .ensureValid [p] ⟨sampleChain (some ⟨str "v"⟩) [1], [1]⟩ :: takes p [[1]]) ++
    [1, 2, 3, 4, 5].flatMap fun p => takes p ((acceptorsBut p).map fun r => [1, r])

/-- Every party takes all chains of three signatures.  Those in `ownFirst` take the ones with
their own signature first. -/
def secondChains (ownFirst : List UInt8) : List (Label SamplePayload) :=
  [1, 2, 3, 4, 5].flatMap fun p => (acceptorsBut p).flatMap fun r =>
    let chains := (acceptorsBut r).map fun q => [1, q, r]
    let own := chains.filter fun chain => p ∈ chain
    let foreign := chains.filter fun chain => p ∉ chain
    takes p (if p ∈ ownFirst then own ++ foreign else foreign ++ own)

/-- The chains of four signatures that 3, 4 and 5 have made from the first foreign chain of
each sender. -/
def thirdChains : List (Label SamplePayload) :=
  [1, 2, 3, 4, 5].flatMap fun p => ([3, 4, 5].filter fun a => a ≠ p).flatMap fun last =>
    takes p ((acceptorsBut last).map fun r =>
      [1, ((acceptorsBut r).filter fun a => a ≠ last).headD 0, r, last])

def Settled (s : Setup) (net : Net SamplePayload) : Prop :=
  ∀ q ∈ s.group, ∃ node ∈ net q, s.DeliveredTo net q node ∧ node.taken.Nodup

instance (net : Net SamplePayload) : Decidable (s.Settled net) :=
  inferInstanceAs (Decidable (∀ q ∈ s.group, ∃ node ∈ net q, _))

theorem Settled.entered {net : Net SamplePayload} (h : s.Settled net) :
    ∀ p ∈ s.group, (net p).isSome = true := by
  intro p hp
  obtain ⟨node, hnode, -⟩ := h p hp
  exact Option.isSome_of_mem hnode

theorem Settled.delivered {net : Net SamplePayload} (h : s.Settled net)
    {allowed : Net SamplePayload → Label SamplePayload → Prop}
    (reached : (s.machine SamplePayload).Reachable allowed net) :
    ∀ q node, net q = some node → s.DeliveredTo net q node := by
  intro q node hnode
  obtain ⟨node', hnode', hdelivered, -⟩ := h q (wellFormed reached hnode).member
  cases hnode.symm.trans hnode'
  exact hdelivered

theorem broadcast_succeeds_fiveHonest :
    ∃ net, Machine.Reachable (fiveHonest.machine SamplePayload) fiveHonest.Prolonged net ∧
      fiveHonest.Settled net ∧
      ∀ p node, net p = some node →
        ∃ sent, fiveHonest.call p node.entry node.taken = .ok (true, sent) := by
  have hrun : ((sampleRun fiveHonest fiveHonest.Prolonged
      (firstChains ++ secondChains [2] ++ thirdChains)).map fun net =>
        decide (fiveHonest.Settled net)) = some true := by
    decide +kernel
  obtain ⟨net, hnet, hsettled⟩ := Option.map_eq_some_iff.mp hrun
  have settled := of_decide_eq_true hsettled
  have reached := sampleRun_reaches hnet
  refine ⟨net, reached, settled, ?_⟩
  intro p node hnode
  exact broadcast_succeeds (s := fiveHonest) (sampleSetup_keysWork _ _ _ _) (by decide) (by decide)
    (by decide) (by decide) (by decide) reached settled.entered (settled.delivered reached) hnode

/-- All acceptors take a chain with their own signature first from every sender. -/
theorem broadcast_stalls_fiveHonest :
    ∃ net, Machine.Reaches (fiveHonest.machine SamplePayload) net ∧
      (∀ a ∈ fiveHonest.group, fiveHonest.honest a = true) ∧
      1 ≤ fiveHonest.threshold ∧ fiveHonest.threshold < fiveHonest.group.length ∧
      fiveHonest.Settled net ∧
      ∀ p ∈ fiveHonest.group, ∃ node ∈ net p, node.verdict = some false ∧
        ∃ sent, fiveHonest.call p node.entry node.taken = .ok (false, sent) := by
  have hrun : ((sampleRun fiveHonest (fun _ _ => True)
      (firstChains ++ secondChains [2, 3, 4, 5])).map fun net =>
        decide (fiveHonest.Settled net ∧
          ∀ p ∈ fiveHonest.group, ∃ node ∈ net p, node.verdict = some false)) = some true := by
    decide +kernel
  obtain ⟨net, hnet, hresult⟩ := Option.map_eq_some_iff.mp hrun
  obtain ⟨settled, hverdicts⟩ := of_decide_eq_true hresult
  have reached := sampleRun_reaches hnet
  refine ⟨net, reached, by decide, by decide, by decide, settled, ?_⟩
  intro p hp
  obtain ⟨node, hnode, hverdict⟩ := hverdicts p hp
  refine ⟨node, hnode, hverdict, ?_⟩
  exact call_of_verdict reached hnode hverdict

end Setup

end TssSvc.Broadcast
