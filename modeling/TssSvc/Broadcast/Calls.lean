import TssSvc.Broadcast.Agreement
import TssSvc.Broadcast.Validity

/-!
# A broadcast inside another protocol

A phase of a session runs a broadcaster at every party: the origin calls `Broadcast`, the others
`EnsureValid` with the origin's message.  Here is what such a call says about the value, for the
phases that hold the nodes of a broadcast in their own state.
-/

set_option autoImplicit false

namespace TssSvc.Broadcast

/-! ## Calls -/

section Calls

variable {V : Type} {node? : Option (Node V)} {node : Node V}

/-- The call of the broadcaster with its own value. -/
def Broadcasts (node? : Option (Node V)) (value : Option V) : Prop :=
  ∃ node, node? = some node ∧ node.entry = .broadcast value

theorem Broadcasts.unique {v v' : Option V} (h : Broadcasts node? v) (h' : Broadcasts node? v') :
    v = v' := by
  obtain ⟨node, hnode, hentry⟩ := h
  obtain ⟨node', hnode', hentry'⟩ := h'
  cases hnode.symm.trans hnode'
  cases hentry.symm.trans hentry'
  rfl

namespace Setup

variable {s : Setup}

/-- The call of the broadcaster with the origin's message. -/
def Checks (s : Setup) (node? : Option (Node V)) (m : RoundMessage V) : Prop :=
  ∃ node, node? = some node ∧ node.entry = .ensureValid ⟨m, s.origin⟩

/-- The call has returned true. -/
def Checked (s : Setup) (node? : Option (Node V)) (m : RoundMessage V) : Prop :=
  ∃ node, node? = some node ∧ node.entry = .ensureValid ⟨m, s.origin⟩ ∧ node.verdict = some true

theorem Checks.checked {m : RoundMessage V} (h : s.Checks node? m) (present : node? = some node)
    (verdict : node.verdict = some true) : s.Checked node? m := by
  obtain ⟨node', hnode', hentry⟩ := h
  cases present.symm.trans hnode'
  exact ⟨node, present, hentry, verdict⟩

variable [HasHashString V] {msg : ReliableBroadcastMsg V}

theorem Checks.takeMsg {m : RoundMessage V} (h : s.Checks node? m) (present : node? = some node) :
    s.Checks (some (s.takeMsg node msg)) m := by
  obtain ⟨node', hnode', hentry⟩ := h
  cases present.symm.trans hnode'
  exact ⟨_, rfl, (takeMsg_entry _ _).trans hentry⟩

theorem broadcasts_takeMsg {value : Option V} (h : Broadcasts node? value)
    (present : node? = some node) : Broadcasts (some (s.takeMsg node msg)) value := by
  obtain ⟨node', hnode', hentry⟩ := h
  cases present.symm.trans hnode'
  exact ⟨_, rfl, (takeMsg_entry _ _).trans hentry⟩

theorem broadcasts_enterBroadcast (p : Address) (value : Option V) :
    Broadcasts (some (s.enterBroadcast p value)) value := by
  refine ⟨_, rfl, ?_⟩
  have hbegan := began_enterBroadcast (s := s) p value
  generalize s.enterBroadcast p value = entered at hbegan
  cases hbegan <;> rfl

end Setup

end Calls

/-! ## Steps of one party -/

section Steps

variable {V : Type} {net net' : Net V} {p : Address}

theorem Net.set_eq_update (net : Net V) (p : Address) (node : Node V) :
    net.set p node = Function.update net p (some node) := by
  funext q
  by_cases hq : q = p
  · subst hq
    simp
  · simp [Net.set_ne net node hq, hq]

namespace Setup

variable {s : Setup}

/-- `Deliverable` without the condition on the signatures. -/
structure Arrives (s : Setup) (net : Net V) (p : Address) (node : Node V)
    (msg : ReliableBroadcastMsg V) : Prop where
  running : node.status = .running
  sender : msg.sender ∈ s.others p
  authentic : s.Authentic net msg
  routed : msg.msg.round = 0 → node.entry = .ensureValid msg

instance [DecidableEq V] (net : Net V) (p : Address) (node : Node V)
    (msg : ReliableBroadcastMsg V) : Decidable (s.Arrives net p node msg) :=
  decidable_of_iff
    (node.status = .running ∧ msg.sender ∈ s.others p ∧ s.Authentic net msg ∧
      (msg.msg.round = 0 → node.entry = .ensureValid msg))
    ⟨fun h => ⟨h.1, h.2.1, h.2.2.1, h.2.2.2⟩,
      fun h => ⟨h.running, h.sender, h.authentic, h.routed⟩⟩

variable [HasHashString V] [DecidableEq V]

/-- A call changes the party that makes it. -/
theorem step_broadcast {value : Option V} (h : s.step net (.broadcast p value) = some net') :
    (p = s.origin ∧ net p = none) ∧ net' p = some (s.enterBroadcast p value) ∧
      net' = Function.update net p (net' p) := by
  cases stepped_of_step h with
  | broadcast _ idle =>
      exact ⟨⟨rfl, Option.isNone_iff_eq_none.mp idle.2.2⟩, Net.set_self _ _ _,
        by rw [Net.set_self, Net.set_eq_update]⟩

theorem step_ensureValid {msg : ReliableBroadcastMsg V}
    (h : s.step net (.ensureValid p msg) = some net') :
    p ≠ s.origin ∧ net' p = some (s.enterEnsureValid p msg) ∧
      net' = Function.update net p (net' p) := by
  cases stepped_of_step h with
  | ensureValid _ _ idle acceptor _ _ _ =>
      exact ⟨acceptor, Net.set_self _ _ _, by rw [Net.set_self, Net.set_eq_update]⟩

theorem step_take {node : Node V} {msg : ReliableBroadcastMsg V} (present : net p = some node)
    (arrives : s.Arrives net p node msg) (unforged : s.Unforged net msg.msg) :
    s.step net (.take p msg) = some (Function.update net p (some (s.takeMsg node msg))) := by
  have deliverable : s.Deliverable net p node msg :=
    ⟨arrives.running, arrives.sender, arrives.authentic, unforged, arrives.routed⟩
  simp only [step, present]
  rw [if_pos deliverable, Net.set_eq_update]

end Setup

end Steps

/-! ## The value -/

namespace Setup

variable {V : Type} [HasHashString V] [DecidableEq V] {s : Setup} {net : Net V} {p q : Address}
  {m m' : RoundMessage V}

theorem Checked.member {allowed : Net V → Label V → Prop}
    (reached : (s.machine V).Reachable allowed net) (h : s.Checked (net q) m) : q ∈ s.group := by
  obtain ⟨node, hnode, -, -⟩ := h
  exact (wellFormed reached hnode).member

/-- The message an acceptor was called with carries the value the honest origin broadcast. -/
theorem Checked.broadcasts (honest : s.honest s.origin = true)
    (reached : (s.machine V).Reaches net) (h : s.Checked (net q) m) :
    Broadcasts (net s.origin) m.value := by
  obtain ⟨node, hnode, hentry, -⟩ := h
  have hsent := entry_sent honest reached hnode hentry
  cases horigin : net s.origin with
  | none => simp [Net.sent, horigin] at hsent
  | some onode =>
      rw [Net.sent_of_some horigin] at hsent
      have hwell := (wellFormed reached horigin).entry
      cases hbroadcast : onode.entry with
      | broadcast value =>
          exact ⟨onode, rfl, (origin_sent reached horigin hbroadcast _ hsent).1 ▸ hbroadcast⟩
      | ensureValid msg =>
          rw [hbroadcast] at hwell
          exact absurd rfl hwell.1

/-- Both parties took the round-0 message they were called with, a valid one, and `q` took what `p`
broadcast. -/
structure Exchanged (s : Setup) (net : Net V) (p q : Address) : Prop where
  held : ∀ a, a = p ∨ a = q → ∀ node msg, net a = some node → node.entry = .ensureValid msg →
    s.HeldEntry node msg
  delivered : ∀ node, net q = some node → ∀ m ∈ net.sent p,
    (⟨m, p⟩ : ReliableBroadcastMsg V) ∈ node.taken

/-- Two calls that returned true after such an exchange were made with one value. -/
theorem Exchanged.valueKey_eq (exchanged : s.Exchanged net p q) (keys : s.KeysWork)
    (rounds : 2 ≤ s.relayRounds) (reached : (s.machine V).Reaches net) (hp : s.Checked (net p) m)
    (hq : s.Checked (net q) m') : valueKey m.value = valueKey m'.value := by
  obtain ⟨nodeP, hnodeP, entryP, verdictP⟩ := hp
  obtain ⟨nodeQ, hnodeQ, entryQ, verdictQ⟩ := hq
  refine valueKey_eq_of_delivered keys rounds reached hnodeP hnodeQ entryP entryQ
    (fun sent hsent => ?_) verdictP verdictQ (exchanged.held p (.inl rfl) nodeP _ hnodeP entryP)
    (exchanged.held q (.inr rfl) nodeQ _ hnodeQ entryQ)
  exact exchanged.delivered nodeQ hnodeQ sent ((Net.sent_of_some hnodeP).symm ▸ hsent)

end Setup

end TssSvc.Broadcast
