import TssSvc.Lib.Machine
import TssSvc.Broadcast.Reliable

/-!
# One broadcast among honest and malicious parties

The machine of one reliable broadcast.  Honest parties run the code of
`ReliableBroadcaster`; the messages of malicious parties are the labels' choice.  A label
may hand a party any message subject to three conditions:

* the sender is authenticated: a message of an honest sender was broadcast by it;
* honest signatures are not forged: a signature that verifies for an honest signer over a
  message of this session was made by that signer for a message it broadcast;
* the routing of `Consensus.Receive` and `SignaturesDistributor.Receive`: a round-0 message
  reaches the broadcaster only as the argument of `EnsureValid`, and that message comes from
  the proposer (the distributor).
-/

set_option autoImplicit false

namespace TssSvc.Broadcast

structure Setup where
  crypto : Crypto
  sessionId : GoString
  group : List Address
  threshold : Int
  account : Address → Account
  honest : Address → Bool
  origin : Address
  named : ∀ a, (account a).cosmosAddress = a

namespace Setup

variable (s : Setup)

def maxMalicious : Int := maxMaliciousParties s.group.length s.threshold

def relayRounds : Int := s.maxMalicious + 1

/-- The `parties` of the party `p`: the group without itself. -/
def others (p : Address) : List Address := s.group.filter fun a => decide (a ≠ p)

def fresh (T : Type) (p : Address) : ReliableBroadcaster T :=
  newReliable T s.sessionId (s.others p) (s.account p) s.maxMalicious

/-- An honest party's key signs, and its signatures verify for its address. -/
def KeysWork : Prop :=
  ∀ a, s.honest a = true → ∀ digest, ∃ sig, (s.account a).sign digest = some sig ∧
    (s.crypto.decodeAddress a).isSome ∧ s.crypto.sigToAddress digest sig = s.crypto.decodeAddress a

end Setup

inductive Entry (T : Type) where
  | broadcast (value : Option T)
  | ensureValid (msg : ReliableBroadcastMsg T)
  deriving DecidableEq

inductive Status where
  | running
  | signFailed
  | panicked
  deriving DecidableEq

/-- One honest party inside its call: the messages taken from the channel so far and the
messages broadcast so far. -/
structure Node (T : Type) where
  entry : Entry T
  broadcaster : ReliableBroadcaster T
  taken : List (ReliableBroadcastMsg T)
  sent : List (RoundMessage T)
  status : Status

/-- What the call returns if the deadline passes now; `none` after a panic. -/
def Node.verdict {T : Type} (node : Node T) : Option Bool :=
  match node.status with
  | .running => some node.broadcaster.decideValid
  | .signFailed => some false
  | .panicked => none

theorem Node.verdict_eq_true {T : Type} {node : Node T} (h : node.verdict = some true) :
    node.status = .running ∧ node.broadcaster.decideValid = true := by
  unfold Node.verdict at h
  split at h <;> simp_all

abbrev Net (T : Type) := Address → Option (Node T)

variable {T : Type}

def Net.set (net : Net T) (p : Address) (node : Node T) : Net T :=
  fun q => if q = p then some node else net q

def Net.sent (net : Net T) (p : Address) : List (RoundMessage T) :=
  match net p with
  | none => []
  | some node => node.sent

namespace Net

@[simp] theorem set_self (net : Net T) (p : Address) (node : Node T) :
    net.set p node p = some node := by
  simp [Net.set]

theorem set_ne (net : Net T) {p q : Address} (node : Node T) (h : q ≠ p) :
    net.set p node q = net q := by
  simp [Net.set, h]

theorem sent_of_some {net : Net T} {p : Address} {node : Node T} (h : net p = some node) :
    net.sent p = node.sent := by
  simp [Net.sent, h]

end Net

inductive Label (T : Type) where
  | broadcast (p : Address) (value : Option T)
  | ensureValid (p : Address) (msg : ReliableBroadcastMsg T)
  | take (p : Address) (msg : ReliableBroadcastMsg T)
  deriving DecidableEq

/-- The message without its last signature: what the last signer signed. -/
def RoundMessage.unsigned (m : RoundMessage T) : RoundMessage T :=
  { m with signatures := m.signatures.dropLast }

namespace Setup

variable (s : Setup)

def Authentic (net : Net T) (msg : ReliableBroadcastMsg T) : Prop :=
  s.honest msg.sender = true → msg.msg ∈ net.sent msg.sender

variable [HasHashString T]

def Unforged (net : Net T) (m : RoundMessage T) : Prop :=
  m.sessionId = s.sessionId → ∀ link ∈ m.links, s.honest link.2.signer = true →
    link.1.Verifies s.crypto link.2 →
      ∃ m' ∈ net.sent link.2.signer, m'.unsigned.signHash s.crypto = link.1.signHash s.crypto

def enterBroadcast (p : Address) (value : Option T) : Node T :=
  match (s.fresh T p).startBroadcast s.crypto value with
  | (b, none) => ⟨.broadcast value, b, [], [], .signFailed⟩
  | (b, some roundMsg) => ⟨.broadcast value, b, [], [roundMsg], .running⟩

def enterEnsureValid (p : Address) (msg : ReliableBroadcastMsg T) : Node T :=
  ⟨.ensureValid msg, (s.fresh T p).startEnsureValid msg, [], [], .running⟩

def takeMsg (node : Node T) (msg : ReliableBroadcastMsg T) : Node T :=
  match node.broadcaster.handleMsg s.crypto msg with
  | .error _ => { node with taken := node.taken ++ [msg], status := .panicked }
  | .ok (b, out) =>
      { node with broadcaster := b, taken := node.taken ++ [msg], sent := node.sent ++ out.toList }

section Take

variable {s}

theorem takeMsg_entry (node : Node T) (msg : ReliableBroadcastMsg T) :
    (s.takeMsg node msg).entry = node.entry := by
  unfold takeMsg
  split <;> rfl

theorem takeMsg_taken (node : Node T) (msg : ReliableBroadcastMsg T) :
    (s.takeMsg node msg).taken = node.taken ++ [msg] := by
  unfold takeMsg
  split <;> rfl

theorem takeMsg_sent_subset (node : Node T) (msg : ReliableBroadcastMsg T) :
    node.sent ⊆ (s.takeMsg node msg).sent := by
  unfold takeMsg
  split
  · exact fun _ h => h
  · exact List.subset_append_left _ _

end Take

def Idle (net : Net T) (p : Address) : Prop :=
  p ∈ s.group ∧ s.honest p = true ∧ (net p).isNone = true

structure Deliverable (net : Net T) (p : Address) (node : Node T) (msg : ReliableBroadcastMsg T) :
    Prop where
  running : node.status = .running
  sender : msg.sender ∈ s.others p
  authentic : s.Authentic net msg
  unforged : s.Unforged net msg.msg
  routed : msg.msg.round = 0 → node.entry = .ensureValid msg

variable [DecidableEq T]

instance (net : Net T) (msg : ReliableBroadcastMsg T) : Decidable (s.Authentic net msg) :=
  inferInstanceAs (Decidable (_ → _))

instance (net : Net T) (m : RoundMessage T) : Decidable (s.Unforged net m) :=
  inferInstanceAs (Decidable (_ → ∀ link ∈ m.links, _ → _ → ∃ m' ∈ _, _))

instance (net : Net T) (p : Address) : Decidable (s.Idle net p) :=
  inferInstanceAs (Decidable (_ ∧ _ ∧ _))

instance (net : Net T) (p : Address) (node : Node T) (msg : ReliableBroadcastMsg T) :
    Decidable (s.Deliverable net p node msg) :=
  decidable_of_iff
    (node.status = .running ∧ msg.sender ∈ s.others p ∧ s.Authentic net msg ∧
      s.Unforged net msg.msg ∧ (msg.msg.round = 0 → node.entry = .ensureValid msg))
    ⟨fun ⟨h₁, h₂, h₃, h₄, h₅⟩ => ⟨h₁, h₂, h₃, h₄, h₅⟩,
      fun ⟨h₁, h₂, h₃, h₄, h₅⟩ => ⟨h₁, h₂, h₃, h₄, h₅⟩⟩

def step (net : Net T) : Label T → Option (Net T)
  | .broadcast p value =>
      if s.Idle net p ∧ p = s.origin then some (net.set p (s.enterBroadcast p value)) else none
  | .ensureValid p msg =>
      if s.Idle net p ∧ p ≠ s.origin ∧ msg.sender = s.origin ∧ msg.msg.round = 0 ∧
          s.Authentic net msg then
        some (net.set p (s.enterEnsureValid p msg))
      else none
  | .take p msg =>
      match net p with
      | none => none
      | some node =>
          if s.Deliverable net p node msg then some (net.set p (s.takeMsg node msg)) else none

def machine (T : Type) [HasHashString T] [DecidableEq T] : Machine (Net T) (Label T) where
  init := fun net => net = fun _ => none
  step := s.step

/-! ## What a step does -/

variable {s} {net net' : Net T}

/-- The three kinds of steps with their guards. -/
inductive Stepped (s : Setup) (net : Net T) : Label T → Net T → Prop
  | broadcast (value : Option T) (idle : s.Idle net s.origin) :
      Stepped s net (.broadcast s.origin value) (net.set s.origin (s.enterBroadcast s.origin value))
  | ensureValid (p : Address) (msg : ReliableBroadcastMsg T) (idle : s.Idle net p)
      (acceptor : p ≠ s.origin) (sender : msg.sender = s.origin) (round : msg.msg.round = 0)
      (authentic : s.Authentic net msg) :
      Stepped s net (.ensureValid p msg) (net.set p (s.enterEnsureValid p msg))
  | take (p : Address) (node : Node T) (msg : ReliableBroadcastMsg T) (present : net p = some node)
      (deliverable : s.Deliverable net p node msg) :
      Stepped s net (.take p msg) (net.set p (s.takeMsg node msg))

theorem stepped_of_step {label : Label T} (h : s.step net label = some net') :
    s.Stepped net label net' := by
  cases label with
  | broadcast p value =>
      simp only [step] at h
      split at h
      · rename_i hguard
        obtain ⟨idle, rfl⟩ := hguard
        cases h
        exact .broadcast value idle
      · cases h
  | ensureValid p msg =>
      simp only [step] at h
      split at h
      · rename_i hguard
        obtain ⟨idle, acceptor, sender, round, authentic⟩ := hguard
        cases h
        exact .ensureValid p msg idle acceptor sender round authentic
      · cases h
  | take p msg =>
      simp only [step] at h
      cases hnode : net p with
      | none => simp [hnode] at h
      | some node =>
          simp only [hnode] at h
          split at h
          · rename_i deliverable
            cases h
            exact .take p node msg hnode deliverable
          · cases h

omit [DecidableEq T] in
/-- A party that has entered stays with its entry, and what it sent stays sent. -/
theorem Stepped.persists {label : Label T} (h : s.Stepped net label net') {a : Address}
    {node : Node T} (hnode : net a = some node) :
    ∃ node', net' a = some node' ∧ node'.entry = node.entry ∧ node.sent ⊆ node'.sent ∧
      node.taken ⊆ node'.taken := by
  have unmoved : ∀ p moved, a ≠ p → net' = net.set p moved →
      ∃ node', net' a = some node' ∧ node'.entry = node.entry ∧ node.sent ⊆ node'.sent ∧
        node.taken ⊆ node'.taken := by
    intro p moved hne hset
    exact ⟨node, by rw [hset, Net.set_ne net moved hne, hnode], rfl, fun _ h => h, fun _ h => h⟩
  have notIdle : ∀ p, s.Idle net p → a ≠ p := by
    rintro p idle rfl
    have hidle := idle.2.2
    rw [hnode] at hidle
    cases hidle
  cases h with
  | broadcast value idle => exact unmoved _ _ (notIdle _ idle) rfl
  | ensureValid p msg idle _ _ _ _ => exact unmoved _ _ (notIdle _ idle) rfl
  | take p node' msg present _ =>
      by_cases hne : a = p
      · subst hne
        cases hnode.symm.trans present
        refine ⟨_, Net.set_self _ _ _, takeMsg_entry _ _, takeMsg_sent_subset _ _, ?_⟩
        rw [takeMsg_taken]
        exact List.subset_append_left _ _
      · exact unmoved _ _ hne rfl

omit [DecidableEq T] in
theorem Stepped.sent_subset {label : Label T} (h : s.Stepped net label net') (a : Address) :
    net.sent a ⊆ net'.sent a := by
  cases hnode : net a with
  | none => simp [Net.sent, hnode]
  | some node =>
      obtain ⟨node', hnode', -, hsent, -⟩ := h.persists hnode
      rw [Net.sent_of_some hnode, Net.sent_of_some hnode']
      exact hsent

/-- What a message taken by a running node does to it. -/
inductive Took (s : Setup) (node : Node T) (msg : ReliableBroadcastMsg T) : Node T → Prop
  | handled (b : ReliableBroadcaster T) (out : Option (RoundMessage T))
      (run : node.broadcaster.handleMsg s.crypto msg = .ok (b, out)) :
      Took s node msg { node with
        broadcaster := b, taken := node.taken ++ [msg], sent := node.sent ++ out.toList }
  | panicked (p : Panic) (error : node.broadcaster.handleMsg s.crypto msg = .error p) :
      Took s node msg { node with taken := node.taken ++ [msg], status := .panicked }

omit [DecidableEq T] in
theorem took_takeMsg (node : Node T) (msg : ReliableBroadcastMsg T) :
    s.Took node msg (s.takeMsg node msg) := by
  unfold takeMsg
  cases hrun : node.broadcaster.handleMsg s.crypto msg with
  | error p => exact .panicked p hrun
  | ok result => exact .handled _ _ hrun

def originBroadcaster (s : Setup) (p : Address) (value : Option T) : ReliableBroadcaster T :=
  { s.fresh T p with originMsgSender := p, values := [(valueKey value, value)] }

def originMsg (s : Setup) (value : Option T) : RoundMessage T := ⟨value, s.sessionId, 0, []⟩

/-- The node of the origin after `Broadcast` has signed and sent, or failed to sign. -/
inductive Began (s : Setup) (p : Address) (value : Option T) : Node T → Prop
  | signed (sig : Bytes)
      (h : (s.account p).sign ((s.originMsg value).signHash s.crypto) = some sig) :
      Began s p value ⟨.broadcast value,
        { s.originBroadcaster p value with finalSigChainReached := decide (s.relayRounds = 1) }, [],
        [{ s.originMsg value with signatures := [⟨p, sig⟩] }], .running⟩
  | failed (h : (s.account p).sign ((s.originMsg value).signHash s.crypto) = none) :
      Began s p value ⟨.broadcast value, s.originBroadcaster p value, [], [], .signFailed⟩

omit [DecidableEq T] in
theorem began_enterBroadcast (p : Address) (value : Option T) :
    s.Began p value (s.enterBroadcast p value) := by
  have hadd : (s.fresh T p).addToValuesSet value =
      { s.fresh T p with values := [(valueKey value, value)] } := by
    simp [ReliableBroadcaster.addToValuesSet, ReliableBroadcaster.keys, fresh, newReliable]
  have hstate : (s.fresh T p).asOrigin value = s.originBroadcaster p value := by
    unfold ReliableBroadcaster.asOrigin originBroadcaster
    rw [hadd]
    simp [fresh, newReliable, s.named]
  have hname : (s.originBroadcaster p value).self.cosmosAddress = p := s.named p
  have hrounds : (s.originBroadcaster p value).relayRounds = s.relayRounds := rfl
  unfold enterBroadcast ReliableBroadcaster.startBroadcast
  simp only [hstate, hname, hrounds]
  cases hsign : (s.account p).sign ((s.originMsg value).signHash s.crypto) with
  | none =>
      have hnone : (s.originBroadcaster p value).self.sign
          ((⟨value, (s.originBroadcaster p value).sessionId, 0, []⟩ : RoundMessage T).signHash
            s.crypto) = none := hsign
      rw [hnone]
      exact .failed hsign
  | some sig =>
      have hsome : (s.originBroadcaster p value).self.sign
          ((⟨value, (s.originBroadcaster p value).sessionId, 0, []⟩ : RoundMessage T).signHash
            s.crypto) = some sig := hsign
      rw [hsome]
      have hsigned : s.Began p value _ := .signed sig hsign
      by_cases hone : s.relayRounds = 1
      · rw [decide_eq_true hone] at hsigned
        simp only [if_pos hone]
        exact hsigned
      · rw [decide_eq_false hone] at hsigned
        simp only [if_neg hone]
        exact hsigned

omit [DecidableEq T] in
theorem Took.eq_takeMsg {node node' : Node T} {msg : ReliableBroadcastMsg T}
    (h : s.Took node msg node') : node' = s.takeMsg node msg := by
  cases h with
  | handled b out run => simp [takeMsg, run]
  | panicked p error => simp [takeMsg, error]

omit [DecidableEq T] in
theorem Began.eq_enterBroadcast {p : Address} {value : Option T} {node : Node T}
    (h : s.Began p value node) : node = s.enterBroadcast p value := by
  have hfun := began_enterBroadcast (s := s) p value
  generalize s.enterBroadcast p value = entered at hfun
  cases h with
  | signed sig hsig =>
      cases hfun with
      | signed sig' hsig' =>
          cases hsig.symm.trans hsig'
          rfl
      | failed hnone => cases hsig.symm.trans hnone
  | failed hnone =>
      cases hfun with
      | signed sig hsig => cases hnone.symm.trans hsig
      | failed _ => rfl

/-- The invariant rule for the nodes of a network: `P` may speak about the whole network
around a node. -/
theorem node_invariant {allowed : Net T → Label T → Prop} {P : Net T → Address → Node T → Prop}
    (grows : ∀ net label net', s.Stepped net label net' → ∀ p node, P net p node → P net' p node)
    (onBroadcast : ∀ net value node, (s.machine T).Reachable allowed net →
      s.Idle net s.origin → s.Began s.origin value node →
      P (net.set s.origin node) s.origin node)
    (onEnsureValid : ∀ net p msg, (s.machine T).Reachable allowed net → s.Idle net p →
      p ≠ s.origin → msg.sender = s.origin → msg.msg.round = 0 → s.Authentic net msg →
      P (net.set p (s.enterEnsureValid p msg)) p (s.enterEnsureValid p msg))
    (onTake : ∀ net p node msg node', (s.machine T).Reachable allowed net →
      (∀ q node, net q = some node → P net q node) → allowed net (.take p msg) →
      net p = some node → s.Deliverable net p node msg → s.Took node msg node' →
      P (net.set p node') p node')
    (reached : (s.machine T).Reachable allowed net) :
    ∀ p node, net p = some node → P net p node := by
  refine Machine.Reachable.invariant (P := fun net => ∀ p node, net p = some node → P net p node)
    ?_ ?_ reached
  · rintro net rfl p node h
    cases h
  · intro net label net' before ih meets taken
    have stepped := stepped_of_step taken
    -- a node is either the one that moved or as it was before
    have unmoved : ∀ q moved, net' = net.set q moved → P net' q moved →
        ∀ p node, net' p = some node → P net' p node := by
      intro q moved hset hmoved p node hnode
      by_cases hp : p = q
      · subst hp
        rw [hset, Net.set_self] at hnode
        cases hnode
        exact hmoved
      · have hold : net p = some node := by rwa [hset, Net.set_ne net moved hp] at hnode
        exact grows net label net' stepped p node (ih p node hold)
    cases stepped with
    | broadcast value idle =>
        exact unmoved _ _ rfl (onBroadcast net value _ before idle (began_enterBroadcast _ _))
    | ensureValid p msg idle acceptor sender round authentic =>
        exact unmoved _ _ rfl
          (onEnsureValid net p msg before idle acceptor sender round authentic)
    | take p node msg present deliverable =>
        exact unmoved _ _ rfl
          (onTake net p node msg _ before ih meets present deliverable (took_takeMsg _ _))

/-! ## The nodes of a run -/

/-- The broadcaster belongs to party `p` of this broadcast. -/
structure Configured (s : Setup) (p : Address) (b : ReliableBroadcaster T) : Prop where
  sessionId : b.sessionId = s.sessionId
  parties : b.parties = s.others p
  self : b.self = s.account p
  relayRounds : b.relayRounds = s.relayRounds
  originMsgSender : b.originMsgSender = s.origin

omit [HasHashString T] [DecidableEq T] in
theorem Configured.of_sameParty {p : Address} {b b' : ReliableBroadcaster T}
    (h : s.Configured p b) (same : b.SameParty b') : s.Configured p b' :=
  ⟨same.sessionId.trans h.sessionId, same.parties.trans h.parties, same.self.trans h.self,
    same.relayRounds.trans h.relayRounds, same.originMsgSender.trans h.originMsgSender⟩

/-- Who called what: the origin broadcasts, the others check a round-0 message of it. -/
def EntryOk (s : Setup) (p : Address) : Entry T → Prop
  | .broadcast _ => p = s.origin
  | .ensureValid msg => p ≠ s.origin ∧ msg.sender = s.origin ∧ msg.msg.round = 0

structure WellFormed (s : Setup) (p : Address) (node : Node T) : Prop where
  member : p ∈ s.group
  honest : s.honest p = true
  entry : s.EntryOk p node.entry
  configured : s.Configured p node.broadcaster
  nodup : node.broadcaster.keys.Nodup
  keyed : node.broadcaster.ValuesKeyed

theorem wellFormed {allowed : Net T → Label T → Prop}
    (reached : (s.machine T).Reachable allowed net) {p : Address} {node : Node T}
    (hnode : net p = some node) : s.WellFormed p node := by
  refine node_invariant (P := fun _ p node => s.WellFormed p node)
    (fun _ _ _ _ _ _ h => h) ?_ ?_ ?_ reached p node hnode
  · intro net value node _ idle began
    have hmem := idle.1
    have hhonest := idle.2.1
    cases began with
    | signed sig _ =>
        exact ⟨hmem, hhonest, rfl, ⟨rfl, rfl, rfl, rfl, rfl⟩, List.nodup_singleton _,
          fun entry hentry => by rw [List.mem_singleton.mp hentry]⟩
    | failed _ =>
        exact ⟨hmem, hhonest, rfl, ⟨rfl, rfl, rfl, rfl, rfl⟩, List.nodup_singleton _,
          fun entry hentry => by rw [List.mem_singleton.mp hentry]⟩
  · intro net p msg _ idle acceptor sender round _
    exact ⟨idle.1, idle.2.1, ⟨acceptor, sender, round⟩, ⟨rfl, rfl, rfl, rfl, sender⟩,
      List.nodup_nil, fun entry hentry => by cases hentry⟩
  · intro net p node msg node' _ ih _ present _ took
    have h := ih p node present
    cases took with
    | handled b out run =>
        have handled := ReliableBroadcaster.handleMsg_handled run
        exact ⟨h.member, h.honest, h.entry, h.configured.of_sameParty handled.sameParty,
          handled.nodup_keys h.nodup, handled.valuesKeyed h.keyed⟩
    | panicked _ _ => exact ⟨h.member, h.honest, h.entry, h.configured, h.nodup, h.keyed⟩

/-! ## The nodes run the source functions -/

def call (s : Setup) (p : Address) :
    Entry T → List (ReliableBroadcastMsg T) → Go (Bool × List (RoundMessage T))
  | .broadcast value, taken => (s.fresh T p).broadcast s.crypto value taken
  | .ensureValid msg, taken => (s.fresh T p).ensureValid s.crypto msg taken

def enter (s : Setup) (p : Address) : Entry T → Node T
  | .broadcast value => s.enterBroadcast p value
  | .ensureValid msg => s.enterEnsureValid p msg

omit [DecidableEq T] in
theorem foldl_takeMsg_panicked (taken : List (ReliableBroadcastMsg T)) (node : Node T)
    (h : node.status = .panicked) : (taken.foldl s.takeMsg node).status = .panicked := by
  induction taken generalizing node with
  | nil => exact h
  | cons msg taken ih =>
      apply ih
      unfold takeMsg
      split
      · rfl
      · exact h

omit [DecidableEq T] in
/-- Taking messages one by one is `startRounds` on all of them. -/
theorem foldl_takeMsg (taken : List (ReliableBroadcastMsg T)) (node : Node T) :
    match node.broadcaster.startRounds s.crypto taken with
    | .ok (b, sent) => taken.foldl s.takeMsg node =
        { node with broadcaster := b, taken := node.taken ++ taken, sent := node.sent ++ sent }
    | .error _ => (taken.foldl s.takeMsg node).status = .panicked := by
  induction taken generalizing node with
  | nil => simp [ReliableBroadcaster.startRounds]
  | cons msg taken ih =>
      have hrest := ih (s.takeMsg node msg)
      simp only [ReliableBroadcaster.startRounds, List.foldl_cons, bind, Except.bind, pure,
        Except.pure]
      cases hrun : node.broadcaster.handleMsg s.crypto msg with
      | error p =>
          exact foldl_takeMsg_panicked _ _ (by simp [takeMsg, hrun])
      | ok result =>
          have hmoved : s.takeMsg node msg = { node with
              broadcaster := result.1, taken := node.taken ++ [msg],
              sent := node.sent ++ result.2.toList } := by
            simp [takeMsg, hrun]
          rw [hmoved] at hrest ⊢
          dsimp only at hrest ⊢
          cases hrounds : result.1.startRounds s.crypto taken with
          | error p =>
              rw [hrounds] at hrest
              exact hrest
          | ok final =>
              rw [hrounds] at hrest
              simp only [hrest, List.append_assoc, List.cons_append, List.nil_append]

/-- A node is its entry followed by the messages it took. -/
theorem node_eq_foldl {allowed : Net T → Label T → Prop}
    (reached : (s.machine T).Reachable allowed net) {p : Address} {node : Node T}
    (hnode : net p = some node) :
    node = node.taken.foldl s.takeMsg (s.enter p node.entry) ∧
      ((s.enter p node.entry).status = .signFailed → node.taken = []) := by
  refine node_invariant (P := fun _ p node =>
    node = node.taken.foldl s.takeMsg (s.enter p node.entry) ∧
      ((s.enter p node.entry).status = .signFailed → node.taken = [])) (fun _ _ _ _ _ _ h => h)
    ?_ ?_ ?_ reached p node hnode
  · intro net value node _ _ began
    have heq := began.eq_enterBroadcast
    cases began with
    | signed sig _ => exact ⟨heq, fun _ => rfl⟩
    | failed _ => exact ⟨heq, fun _ => rfl⟩
  · intro net p msg _ _ _ _ _ _
    exact ⟨rfl, fun _ => rfl⟩
  · intro net p node msg node' _ ih _ present deliverable took
    obtain ⟨hfold, hfailed⟩ := ih p node present
    rw [took.eq_takeMsg, takeMsg_taken, takeMsg_entry, List.foldl_append, ← hfold]
    refine ⟨rfl, fun hstatus => ?_⟩
    -- a call that failed to sign has returned: it takes nothing
    rw [hfailed hstatus] at hfold
    have hrunning := deliverable.running
    rw [hfold] at hrunning
    exact absurd (hstatus.symm.trans hrunning) (by decide)

/-- The verdict of a node is the result of its call on the messages it took; the call
panics exactly when the node has. -/
theorem call_eq_verdict {allowed : Net T → Label T → Prop}
    (reached : (s.machine T).Reachable allowed net) {p : Address} {node : Node T}
    (hnode : net p = some node) :
    match s.call p node.entry node.taken with
    | .ok (result, sent) => node.verdict = some result ∧ node.sent = sent
    | .error _ => node.verdict = none := by
  obtain ⟨hfold, hfailed⟩ := node_eq_foldl reached hnode
  have hrounds := foldl_takeMsg (s := s) node.taken (s.enter p node.entry)
  rw [← hfold] at hrounds
  cases hkind : node.entry with
  | ensureValid msg =>
      rw [hkind] at hrounds
      simp only [enter, enterEnsureValid] at hrounds
      simp only [call, ReliableBroadcaster.ensureValid, bind, Except.bind, pure, Except.pure]
      cases hstart : ((s.fresh T p).startEnsureValid msg).startRounds s.crypto node.taken with
      | error e =>
          rw [hstart] at hrounds
          simp [Node.verdict, hrounds]
      | ok result =>
          rw [hstart] at hrounds
          rw [hrounds]
          simp [Node.verdict]
  | broadcast value =>
      rw [hkind] at hrounds
      simp only [enter, enterBroadcast] at hrounds
      simp only [call, ReliableBroadcaster.broadcast, bind, Except.bind, pure, Except.pure]
      cases hstart : (s.fresh T p).startBroadcast s.crypto value with
      | mk b out =>
          rw [hstart] at hrounds
          cases out with
          | none =>
              have htaken : node.taken = [] :=
                hfailed (by simp [hkind, enter, enterBroadcast, hstart])
              rw [htaken] at hrounds
              simp only [ReliableBroadcaster.startRounds] at hrounds
              rw [hrounds]
              simp [Node.verdict]
          | some roundMsg =>
              dsimp only at hrounds ⊢
              cases hloop : b.startRounds s.crypto node.taken with
              | error e =>
                  rw [hloop] at hrounds
                  simp [Node.verdict, hrounds]
              | ok result =>
                  rw [hloop] at hrounds
                  rw [hrounds]
                  simp [Node.verdict]

end Setup

/-! ## A small instance

Addresses of one byte, the identity as hash, and the signer's byte in front of the digest as
signature. -/

structure SamplePayload where
  text : GoString
  deriving DecidableEq

instance : HasHashString SamplePayload := ⟨SamplePayload.text⟩

def sampleCrypto : Crypto where
  sha256 := id
  sigToAddress := fun digest sig =>
    match sig with
    | [] => none
    | a :: signed => if signed = digest then some [a] else none
  decodeAddress := some

def sampleSetup (group honest : List UInt8) (threshold : Int) (origin : UInt8) : Setup where
  crypto := sampleCrypto
  sessionId := str "session"
  group := group.map fun a => [a]
  threshold := threshold
  account := fun a => ⟨a, fun digest => some (a.headD 0 :: digest)⟩
  honest := fun a => decide (a ∈ honest.map fun b => [b])
  origin := [origin]
  named := fun _ => rfl

theorem sampleCrypto_collisionFree : sampleCrypto.CollisionFree := Function.injective_id

theorem sampleSetup_keysWork (group honest : List UInt8) (threshold : Int) (origin : UInt8) :
    (sampleSetup group honest threshold origin).KeysWork := by
  intro a ha digest
  obtain ⟨b, -, rfl⟩ := List.mem_map.mp (of_decide_eq_true ha)
  exact ⟨b :: digest, rfl, rfl, by simp [sampleSetup, sampleCrypto]⟩

/-- The message `m` as signed and sent on by the party `a`. -/
def sampleSigned (a : UInt8) (m : RoundMessage SamplePayload) (round : Int) :
    RoundMessage SamplePayload :=
  { m with round := round, signatures := m.signatures ++ [⟨[a], a :: m.signHash sampleCrypto⟩] }

def sampleChain (value : Option SamplePayload) (signers : List UInt8) :
    RoundMessage SamplePayload :=
  signers.foldl (fun m a => sampleSigned a m m.signatures.length) ⟨value, str "session", 0, []⟩

def sampleRun (s : Setup) (allowed : Net SamplePayload → Label SamplePayload → Prop)
    [∀ net label, Decidable (allowed net label)] (labels : List (Label SamplePayload)) :
    Option (Net SamplePayload) :=
  (s.machine SamplePayload).exec allowed (fun _ => none) labels

theorem sampleRun_reaches {s : Setup} {allowed : Net SamplePayload → Label SamplePayload → Prop}
    [∀ net label, Decidable (allowed net label)] {labels : List (Label SamplePayload)}
    {net : Net SamplePayload} (h : sampleRun s allowed labels = some net) :
    (s.machine SamplePayload).Reachable allowed net :=
  Machine.Reachable.exec (.init rfl) h

end TssSvc.Broadcast
