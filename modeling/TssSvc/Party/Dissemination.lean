import TssSvc.Party.Distributor

/-!
# No distributed deposit is lost silently

A proposer only takes up deposits whose row is marked as distributed.  The mark is set without
waiting for the other parties, but it has a reason: the deposit was announced to all of them, or the
party learned it from the core, a proposal or a corrupted distributor.  An announced deposit is in
every honest party's table, on its way there, or that party has dropped it.
-/

set_option autoImplicit false

namespace TssSvc.Distributor

open TssSvc.Db TssSvc.Bridge TssSvc.Party
open TssSvc.Broadcast (Address)
open TssSvc.Session (SubmitRequest Fallible)

/-! ## Who sets the mark -/

/-- The row a query marks as distributed. -/
def distributes : TableOp → Option DepositIdentifier
  | .insert row => if row.distributed then some row.identifier else none
  | .insertProcessed row => some row.identifier
  | .setDistributed id => some id
  | .keep | .markProcessing _ | .markFailed _ | .updateProcessed _ | .updateDetails _ _ _ _
  | .setSubmitted _ => none

theorem distributed_onRow {op : TableOp} {row : Deposit} (h : (op.onRow row).distributed = true) :
    row.distributed = true ∨ distributes op = some row.identifier := by
  rw [TableOp.onRow] at h
  split at h
  · rename_i htarget
    cases op with
    | setDistributed id => exact .inr htarget
    | updateDetails id known hash signature => exact .inl h
    | setSubmitted id => exact .inl h
    | markProcessing id => exact .inl h
    | markFailed id => exact .inl h
    | updateProcessed data => exact .inl h
    | keep => exact .inl h
    | insert new => exact .inl h
    | insertProcessed new => exact .inl h
  · exact .inl h

theorem distributed_newRow {op : TableOp} {row : Deposit} (new : op.newRow = some row)
    (h : row.distributed = true) : distributes op = some row.identifier := by
  cases op with
  | insert inserted =>
      cases new
      exact if_pos h
  | insertProcessed inserted =>
      cases new
      rfl
  | keep => cases new
  | markProcessing id => cases new
  | markFailed id => cases new
  | updateProcessed data => cases new
  | updateDetails id known hash signature => cases new
  | setDistributed id => cases new
  | setSubmitted id => cases new

abbrev IsDistributed (t : Table) (id : DepositIdentifier) : Prop := Flagged Deposit.distributed t id

theorem isDistributed_apply {t : Table} {op : TableOp} {id : DepositIdentifier}
    (h : IsDistributed (op.apply t) id) : IsDistributed t id ∨ distributes op = some id :=
  flagged_apply (fun id => distributes op = some id) (fun _ hrow => distributed_onRow hrow)
    (fun _ hnew hrow => distributed_newRow hnew hrow) h

theorem subscriberStep_distributes {t : Table} {pc next : SubscriberPc} {label : SubscriberLabel}
    {op : TableOp} {id : DepositIdentifier} (h : subscriberStep t pc label = some (op, next))
    (sets : distributes op = some id) : op.submits = some id := by
  unfold subscriberStep at h
  split at h
  · split at h
    · cases h
      cases sets
    · split at h <;> cases h <;> cases sets
  · cases h
    split at sets
    · rename_i hok
      rw [if_pos hok]
      exact sets
    · cases sets
  · cases h
    split at sets <;> cases sets
  · cases h

theorem sessionUpdate_distributes {op : TableOp} (h : SessionUpdate op) :
    distributes op = none := by
  cases h <;> rfl

theorem sessionQuery_distributes {label : SessionLabel} {op : TableOp} {id : DepositIdentifier}
    (h : SessionQuery label op) (chainId : GoString) (sets : distributes op = some id) :
    id ∈ learned (.session chainId label) := by
  cases h with
  | update label updates =>
      rw [sessionUpdate_distributes updates] at sets
      cases sets
  | insert isValid pending =>
      cases sets
      exact List.mem_singleton.mpr rfl

/-- Of the writers, the sessions mark a proposed deposit and the subscriber the one of an event. -/
theorem move_distributes {kinds : GoString → Option SessionKind} {s : State} {label : Label}
    {op : TableOp} {control : Control} {id : DepositIdentifier}
    (h : move kinds s label = some (op, control)) (plain : isDistribution label = false)
    (sets : distributes op = some id) :
    id ∈ learned label ∨
      ∃ event, s.control.subscriber.event = some event ∧ event.identifier = id := by
  cases label with
  | session chainId label =>
      obtain ⟨kind, -, hmove⟩ := Option.bind_eq_some_iff.mp h
      obtain ⟨m, hm, heq⟩ := Option.map_eq_some_iff.mp hmove
      cases heq
      exact .inl (sessionQuery_distributes (sessionMove_query hm) chainId sets)
  | orphan orphan label =>
      simp only [move, Option.ite_none_right_eq_some] at h
      obtain ⟨⟨op, next⟩, hstep, heq⟩ := Option.map_eq_some_iff.mp h.2
      cases heq
      rw [sessionUpdate_distributes (finalizerStep_query hstep)] at sets
      cases sets
  | subscriber label =>
      obtain ⟨⟨op, next⟩, hstep, heq⟩ := Option.map_eq_some_iff.mp h
      cases heq
      exact .inr (subscriberStep_submits hstep (subscriberStep_distributes hstep sets))
  | admission row =>
      simp only [move, Option.ite_none_right_eq_some] at h
      cases h.2
      have hrow : row.distributed = false := plain
      simp [distributes, hrow] at sets
  | setDistributed id => cases plain
  | setSubmitted id =>
      cases h
      cases sets
  | restart sessions =>
      cases h
      cases sets

/-! ## One party -/

section Node

variable {kinds : GoString → Option SessionKind} {n : Node} {label : NodeLabel} {m : NodeMove}
  {id : DepositIdentifier}

/-- All that a step of one party can be. -/
inductive Node.Moves (kinds : GoString → Option SessionKind) (n : Node) : NodeMove → Prop
  | writes {label : Label} {party : State} (plain : isDistribution label = false)
      (taken : step kinds n.party label = some party) :
      Moves kinds n { next := { n with party := party }, foreign := learned label }
  | restarts {party : State} {sessions : GoString → Nat}
      (taken : step kinds n.party (.restart sessions) = some party) :
      Moves kinds n { next := ⟨party, none, [], none⟩, dropped := n.msgs ++ n.accepting.toList }
  | waits : Moves kinds n { next := n }
  | announces {row : Deposit} (found : n.party.table.getWithSelector .undistributed = some row) :
      Moves kinds n {
        next := { n with distributing := some row.identifier }
        announced := [row.identifier] }
  | unmarked : Moves kinds n { next := { n with distributing := none } }
  | marks {id : DepositIdentifier} (announced : n.distributing = some id) :
      Moves kinds n { next := { n with
        party := ⟨(TableOp.setDistributed id).apply n.party.table, n.party.control⟩
        distributing := none } }
  | ignores {id : DepositIdentifier} {msgs : List DepositIdentifier} (head : n.msgs = id :: msgs) :
      Moves kinds n { next := { n with msgs := msgs }, dropped := [id] }
  | knows {id : DepositIdentifier} {msgs : List DepositIdentifier} (head : n.msgs = id :: msgs)
      (idle : n.accepting = none) (present : (n.party.table.get id).isSome = true) :
      Moves kinds n { next := { n with msgs := msgs, accepting := none } }
  | accepts {id : DepositIdentifier} {msgs : List DepositIdentifier} (head : n.msgs = id :: msgs)
      (idle : n.accepting = none) :
      Moves kinds n { next := { n with msgs := msgs, accepting := some id } }
  | inserts {id : DepositIdentifier} {row : Deposit} (accepted : n.accepting = some id)
      (same : row.identifier = id) :
      Moves kinds n { next := { n with
        party := ⟨(TableOp.insert row).apply n.party.table, n.party.control⟩
        accepting := none } }
  | fails {id : DepositIdentifier} (accepted : n.accepting = some id) :
      Moves kinds n { next := { n with accepting := none }, dropped := [id] }

theorem distributedRow_identifier {clients : Repository} {core : Core} {row : Deposit}
    (h : distributedRow clients core id = some row) : row.identifier = id := by
  unfold distributedRow at h
  split at h
  · rename_i deposit hfetch
    obtain ⟨fetched⟩ := fetchDeposit_ok hfetch
    cases h
    exact fetched.identifier_eq
  · cases h
  · split at h
    · cases h
    · split at h
      · cases h
        rfl
      · cases h

theorem Node.moves (h : n.move kinds label = some m) : n.Moves kinds m := by
  cases label with
  | party label =>
      simp only [Node.move] at h
      split at h
      · cases h
      · rename_i hplain
        obtain ⟨party, hparty, rfl⟩ := Option.map_eq_some_iff.mp h
        cases label with
        | restart sessions => exact .restarts hparty
        | session chainId label => exact .writes (Bool.eq_false_iff.mpr hplain) hparty
        | orphan orphan label => exact .writes (Bool.eq_false_iff.mpr hplain) hparty
        | subscriber label => exact .writes (Bool.eq_false_iff.mpr hplain) hparty
        | admission row => exact .writes (Bool.eq_false_iff.mpr hplain) hparty
        | setDistributed id => exact .writes (Bool.eq_false_iff.mpr hplain) hparty
        | setSubmitted id => exact .writes (Bool.eq_false_iff.mpr hplain) hparty
  | distribute getFails =>
      simp only [Node.move] at h
      split at h
      · rename_i row _ hfound
        split at h <;> cases h
        · exact .waits
        · exact .announces hfound
      · cases h
        exact .waits
      · cases h
  | mark fails =>
      obtain ⟨id, hid, rfl⟩ := Option.map_eq_some_iff.mp h
      cases fails with
      | false => exact .marks hid
      | true => exact .unmarked
  | take getFails =>
      simp only [Node.move] at h
      split at h
      · rename_i id msgs hidle hhead
        split at h
        · cases h
          exact .ignores hhead
        · cases h
          split
          · rename_i hpresent
            exact .knows hhead hidle hpresent
          · exact .accepts hhead hidle
      · cases h
  | insert clients core insertFails =>
      obtain ⟨id, hid, rfl⟩ := Option.map_eq_some_iff.mp h
      split
      · rename_i row hrow
        exact .inserts hid (distributedRow_identifier hrow)
      · exact .fails hid

/-- The deposit is in the table or on its way there. -/
def Node.Has (n : Node) (id : DepositIdentifier) : Prop :=
  (n.party.table.get id).isSome = true ∨ id ∈ n.msgs ∨ n.accepting = some id

theorem isSome_get_apply {t : Table} (op : TableOp) (present : (t.get id).isSome = true) :
    ((op.apply t).get id).isSome = true := by
  obtain ⟨row, hrow⟩ := Option.isSome_iff_exists.mp present
  rw [op.get_apply_of_some hrow]
  rfl

theorem isSome_get_step {s s' : State} {label : Label} (taken : step kinds s label = some s')
    (present : (s.table.get id).isSome = true) : (s'.table.get id).isSome = true := by
  obtain ⟨op, -, htable⟩ := step_eq_some taken
  rw [htable]
  exact isSome_get_apply op present

theorem isSome_get_insert (t : Table) (row : Deposit) :
    (((TableOp.insert row).apply t).get row.identifier).isSome = true := by
  cases hbefore : t.get row.identifier with
  | some before => exact isSome_get_apply _ (by rw [hbefore]; rfl)
  | none =>
      rw [TableOp.get_apply_of_none _ hbefore]
      simp [TableOp.newRow]

/-- What a party has it keeps, or it drops it. -/
theorem Node.Moves.has (moved : n.Moves kinds m) (h : n.Has id) :
    m.next.Has id ∨ id ∈ m.dropped := by
  cases moved with
  | writes plain taken =>
      rcases h with hrow | hmsg | haccepting
      · exact .inl (.inl (isSome_get_step taken hrow))
      · exact .inl (.inr (.inl hmsg))
      · exact .inl (.inr (.inr haccepting))
  | restarts taken =>
      rcases h with hrow | hmsg | haccepting
      · exact .inl (.inl (isSome_get_step taken hrow))
      · exact .inr (List.mem_append_left _ hmsg)
      · right
        rw [haccepting]
        exact List.mem_append_right _ (List.mem_singleton.mpr rfl)
  | waits => exact .inl h
  | announces found => exact .inl h
  | unmarked => exact .inl h
  | marks announced =>
      rcases h with hrow | hrest
      · exact .inl (.inl (isSome_get_apply _ hrow))
      · exact .inl (.inr hrest)
  | ignores head =>
      rcases h with hrow | hmsg | haccepting
      · exact .inl (.inl hrow)
      · rw [head] at hmsg
        rcases List.mem_cons.mp hmsg with rfl | hrest
        · exact .inr (List.mem_singleton.mpr rfl)
        · exact .inl (.inr (.inl hrest))
      · exact .inl (.inr (.inr haccepting))
  | knows head idle present =>
      rcases h with hrow | hmsg | haccepting
      · exact .inl (.inl hrow)
      · rw [head] at hmsg
        rcases List.mem_cons.mp hmsg with rfl | hrest
        · exact .inl (.inl present)
        · exact .inl (.inr (.inl hrest))
      · rw [idle] at haccepting
        cases haccepting
  | accepts head idle =>
      rcases h with hrow | hmsg | haccepting
      · exact .inl (.inl hrow)
      · rw [head] at hmsg
        rcases List.mem_cons.mp hmsg with rfl | hrest
        · exact .inl (.inr (.inr rfl))
        · exact .inl (.inr (.inl hrest))
      · rw [idle] at haccepting
        cases haccepting
  | inserts accepted same =>
      rcases h with hrow | hmsg | haccepting
      · exact .inl (.inl (isSome_get_apply _ hrow))
      · exact .inl (.inr (.inl hmsg))
      · rw [accepted] at haccepting
        cases haccepting
        rw [← same]
        exact .inl (.inl (isSome_get_insert _ _))
  | fails accepted =>
      rcases h with hrow | hmsg | haccepting
      · exact .inl (.inl hrow)
      · exact .inl (.inr (.inl hmsg))
      · rw [accepted] at haccepting
        cases haccepting
        exact .inr (List.mem_singleton.mpr rfl)

/-- A party announces what is in its table. -/
theorem Node.Moves.has_announced (moved : n.Moves kinds m) (h : id ∈ m.announced) :
    m.next.Has id := by
  cases moved with
  | announces found =>
      rw [List.mem_singleton.mp h]
      obtain ⟨hget, -⟩ := Table.get_of_getWithSelector found
      exact .inl (by rw [hget]; rfl)
  | writes plain taken => cases h
  | restarts taken => cases h
  | waits => cases h
  | unmarked => cases h
  | marks announced => cases h
  | ignores head => cases h
  | knows head idle present => cases h
  | accepts head idle => cases h
  | inserts accepted same => cases h
  | fails accepted => cases h

/-- All that a party treats as distributed has a known origin. -/
structure NodeOk (origin : DepositIdentifier → Prop) (n : Node) : Prop where
  rows : ∀ id, IsDistributed n.party.table id → origin id
  event : ∀ event, n.party.control.subscriber.event = some event → origin event.identifier
  distributing : ∀ id, n.distributing = some id → origin id
  msgs : ∀ id ∈ n.msgs, origin id
  accepting : ∀ id, n.accepting = some id → origin id

variable {origin origin' : DepositIdentifier → Prop}

theorem NodeOk.mono (h : NodeOk origin n) (imp : ∀ id, origin id → origin' id) :
    NodeOk origin' n where
  rows id hid := imp id (h.rows id hid)
  event event hevent := imp _ (h.event event hevent)
  distributing id hid := imp id (h.distributing id hid)
  msgs id hid := imp id (h.msgs id hid)
  accepting id hid := imp id (h.accepting id hid)

theorem mem_learned_of_emitted {label : Label} (h : id ∈ emitted label) : id ∈ learned label := by
  cases label with
  | session chainId label => cases h
  | subscriber label => exact h
  | orphan orphan label => cases h
  | admission row => cases h
  | setDistributed id => cases h
  | setSubmitted id => cases h
  | restart sessions => cases h

theorem NodeOk.writes {label : Label} {party : State} (h : NodeOk origin n)
    (plain : isDistribution label = false) (taken : step kinds n.party label = some party)
    (imp : ∀ id, origin id → origin' id) (new : ∀ id ∈ learned label, origin' id) :
    (∀ id, IsDistributed party.table id → origin' id) ∧
      ∀ event, party.control.subscriber.event = some event → origin' event.identifier := by
  obtain ⟨op, hmove, htable⟩ := step_eq_some taken
  refine ⟨?_, ?_⟩
  · intro id hid
    rw [htable] at hid
    rcases isDistributed_apply hid with hbefore | hsets
    · exact imp id (h.rows id hbefore)
    · rcases move_distributes hmove plain hsets with hlearned | ⟨event, hevent, rfl⟩
      · exact new id hlearned
      · exact imp _ (h.event event hevent)
  · intro event hevent
    rcases move_event hmove hevent with hbefore | hemitted
    · exact imp _ (h.event event hbefore)
    · exact new _ (mem_learned_of_emitted hemitted)

theorem NodeOk.inserts {t : Table} {row : Deposit} (h : ∀ id, IsDistributed t id → origin id)
    (same : origin row.identifier) :
    ∀ id, IsDistributed ((TableOp.insert row).apply t) id → origin id := by
  intro id hid
  rcases isDistributed_apply hid with hbefore | hsets
  · exact h id hbefore
  · simp only [distributes, Option.ite_none_right_eq_some, Option.some.injEq] at hsets
    rw [← hsets.2]
    exact same

theorem NodeOk.moves (h : NodeOk origin n) (moved : n.Moves kinds m)
    (imp : ∀ id, origin id → origin' id) (announced : ∀ id ∈ m.announced, origin' id)
    (foreign : ∀ id ∈ m.foreign, origin' id) : NodeOk origin' m.next := by
  have hbefore := h.mono imp
  cases moved with
  | writes plain taken =>
      obtain ⟨hrows, hevent⟩ := h.writes plain taken imp foreign
      exact ⟨hrows, hevent, hbefore.distributing, hbefore.msgs, hbefore.accepting⟩
  | restarts taken =>
      obtain ⟨hrows, hevent⟩ := h.writes rfl taken imp fun id hid => by cases hid
      exact ⟨hrows, hevent, fun _ hid => (by cases hid), fun _ hid => (by cases hid),
        fun _ hid => (by cases hid)⟩
  | waits => exact hbefore
  | announces found =>
      refine ⟨hbefore.rows, hbefore.event, ?_, hbefore.msgs, hbefore.accepting⟩
      intro id hid
      cases hid
      exact announced _ (List.mem_singleton.mpr rfl)
  | unmarked =>
      exact ⟨hbefore.rows, hbefore.event, fun _ hid => (by cases hid), hbefore.msgs,
        hbefore.accepting⟩
  | @marks target hannounced =>
      refine ⟨?_, hbefore.event, fun _ hid => (by cases hid), hbefore.msgs, hbefore.accepting⟩
      intro id hid
      rcases isDistributed_apply hid with hrow | hsets
      · exact hbefore.rows id hrow
      · cases hsets
        exact hbefore.distributing _ hannounced
  | ignores head =>
      refine ⟨hbefore.rows, hbefore.event, hbefore.distributing, ?_, hbefore.accepting⟩
      intro id hid
      exact hbefore.msgs id (by rw [head]; exact List.mem_cons_of_mem _ hid)
  | knows head idle present =>
      refine ⟨hbefore.rows, hbefore.event, hbefore.distributing, ?_, fun _ hid => by cases hid⟩
      intro id hid
      exact hbefore.msgs id (by rw [head]; exact List.mem_cons_of_mem _ hid)
  | accepts head idle =>
      refine ⟨hbefore.rows, hbefore.event, hbefore.distributing, ?_, ?_⟩
      · intro id hid
        exact hbefore.msgs id (by rw [head]; exact List.mem_cons_of_mem _ hid)
      · intro id hid
        cases hid
        exact hbefore.msgs _ (by rw [head]; exact List.mem_cons_self)
  | inserts accepted same =>
      refine ⟨NodeOk.inserts hbefore.rows ?_, hbefore.event, hbefore.distributing, hbefore.msgs,
        fun _ hid => by cases hid⟩
      rw [same]
      exact hbefore.accepting _ accepted
  | fails accepted =>
      exact ⟨hbefore.rows, hbefore.event, hbefore.distributing, hbefore.msgs,
        fun _ hid => by cases hid⟩

theorem put_eq_some {n' : Node} (h : n.put id = some n') :
    n' = { n with msgs := n.msgs ++ [id] } := by
  simp only [Node.put, Option.ite_none_right_eq_some, Option.some.injEq] at h
  exact h.2.symm

theorem Node.has_put {n' : Node} (h : n.put id = some n') :
    n'.Has id ∧ ∀ other, n.Has other → n'.Has other := by
  rw [put_eq_some h]
  refine ⟨.inr (.inl (List.mem_append_right _ (List.mem_singleton.mpr rfl))), ?_⟩
  rintro other (hrow | hmsg | haccepting)
  · exact .inl hrow
  · exact .inr (.inl (List.mem_append_left _ hmsg))
  · exact .inr (.inr haccepting)

theorem NodeOk.put {n' : Node} (h : NodeOk origin n) (put : n.put id = some n')
    (hid : origin id) : NodeOk origin n' := by
  rw [put_eq_some put]
  refine ⟨h.rows, h.event, h.distributing, ?_, h.accepting⟩
  intro other hother
  rcases List.mem_append.mp hother with hold | hnew
  · exact h.msgs other hold
  · rw [List.mem_singleton.mp hnew]
    exact hid

end Node

/-! ## The network -/

section Network

variable {setup : Setup} {net net' : Network} {self : Address} {id : DepositIdentifier}

def Network.Origin (net : Network) (self : Address) (id : DepositIdentifier) : Prop :=
  id ∈ net.announced ∨ (self, id) ∈ net.foreign

/-- The party has the deposit, or it is on its way there, or the party has dropped it. -/
def Network.Accounted (net : Network) (self : Address) (id : DepositIdentifier) : Prop :=
  (net.nodes self).Has id ∨ (∃ e ∈ net.flying, e.receiver = self ∧ e.id = id) ∨
    (self, id) ∈ net.dropped

structure NetworkOk (setup : Setup) (net : Network) : Prop where
  nodes : ∀ self, NodeOk (net.Origin self) (net.nodes self)
  flying : ∀ e ∈ net.flying, e.id ∈ net.announced ∧ e.sender ∈ setup.distributors e.receiver
  accounted : ∀ id ∈ net.announced, ∀ self ∈ setup.group, net.Accounted self id

theorem networkOk_init (start : (network setup).init net) : NetworkOk setup net := by
  obtain ⟨hnodes, hflying, hannounced, -, -⟩ := start
  refine ⟨?_, ?_, ?_⟩
  · intro self
    obtain ⟨⟨htable, -, -, hsubscriber, -⟩, hdistributing, hmsgs, haccepting⟩ := hnodes self
    refine ⟨?_, ?_, ?_, ?_, ?_⟩
    · rintro id ⟨row, hrow, -⟩
      rw [htable] at hrow
      cases hrow
    · intro event hevent
      rw [hsubscriber] at hevent
      cases hevent
    · intro id hid
      rw [hdistributing] at hid
      cases hid
    · intro id hid
      rw [hmsgs] at hid
      cases hid
    · intro id hid
      rw [haccepting] at hid
      cases hid
  · rw [hflying]
    intro e he
    cases he
  · rw [hannounced]
    intro id hid
    cases hid

theorem mem_distributors {other : Address} :
    other ∈ setup.distributors self ↔ other ∈ setup.group ∧ other ≠ self := by
  simp [Setup.distributors]

theorem NetworkOk.moved {m : NodeMove} (h : NetworkOk setup net) (member : self ∈ setup.group)
    (moves : (net.nodes self).Moves (setup.kinds self) m) :
    NetworkOk setup (net.moved setup self m) := by
  have horigin : ∀ j id, net.Origin j id → (net.moved setup self m).Origin j id := by
    intro j id hid
    exact hid.imp (List.mem_append_left _) (List.mem_append_left _)
  refine ⟨?_, ?_, ?_⟩
  · intro j
    by_cases hj : j = self
    · subst hj
      simp only [Network.moved, Function.update_self]
      apply (h.nodes j).moves moves (horigin j)
      · exact fun id hid => .inl (List.mem_append_right _ hid)
      · exact fun id hid => .inr (List.mem_append_right _ (List.mem_map_of_mem hid))
    · simp only [Network.moved, Function.update_of_ne hj]
      exact (h.nodes j).mono (horigin j)
  · intro e he
    rcases List.mem_append.mp he with hold | hnew
    · exact (h.flying e hold).imp_left (List.mem_append_left _)
    · obtain ⟨id, hid, hmem⟩ := List.mem_flatMap.mp hnew
      obtain ⟨receiver, hreceiver, rfl⟩ := List.mem_map.mp hmem
      refine ⟨List.mem_append_right _ hid, mem_distributors.mpr ⟨member, ?_⟩⟩
      exact (mem_distributors.mp hreceiver).2.symm
  · intro id hid j hj
    by_cases hself : j = self
    · subst hself
      rcases List.mem_append.mp hid with hold | hnew
      · rcases h.accounted id hold j hj with hhas | ⟨e, he, hreceiver⟩ | hdropped
        · rcases moves.has hhas with hnext | hdropped
          · left
            simpa only [Network.moved, Function.update_self] using hnext
          · exact .inr (.inr (List.mem_append_right _ (List.mem_map_of_mem hdropped)))
        · exact .inr (.inl ⟨e, List.mem_append_left _ he, hreceiver⟩)
        · exact .inr (.inr (List.mem_append_left _ hdropped))
      · left
        simpa only [Network.moved, Function.update_self] using moves.has_announced hnew
    · rcases List.mem_append.mp hid with hold | hnew
      · rcases h.accounted id hold j hj with hhas | ⟨e, he, hreceiver⟩ | hdropped
        · left
          simpa only [Network.moved, Function.update_of_ne hself] using hhas
        · exact .inr (.inl ⟨e, List.mem_append_left _ he, hreceiver⟩)
        · exact .inr (.inr (List.mem_append_left _ hdropped))
      · -- one send to each of the others
        have hlisted : j ∈ setup.distributors self := mem_distributors.mpr ⟨hj, hself⟩
        exact .inr (.inl ⟨⟨self, j, id⟩, List.mem_append_right _ (List.mem_flatMap.mpr
          ⟨id, hnew, List.mem_map_of_mem hlisted⟩), rfl, rfl⟩)

theorem NetworkOk.put {receiver : Address} {n' : Node} (h : NetworkOk setup net)
    (put : (net.nodes receiver).put id = some n') {flying : List Envelope}
    {foreign : List (Address × DepositIdentifier)}
    (new : id ∈ net.announced ∨ (receiver, id) ∈ foreign)
    (grows : ∀ entry ∈ net.foreign, entry ∈ foreign) (sub : ∀ e ∈ flying, e ∈ net.flying)
    (arrived : ∀ e ∈ net.flying, e ∈ flying ∨ e.receiver = receiver ∧ e.id = id) :
    NetworkOk setup { net with
      nodes := Function.update net.nodes receiver n', flying := flying, foreign := foreign } := by
  obtain ⟨hhas, hkeeps⟩ := Node.has_put put
  have horigin : ∀ j id, net.Origin j id → id ∈ net.announced ∨ (j, id) ∈ foreign :=
    fun j id hid => hid.imp_right (grows _)
  refine ⟨?_, fun e he => h.flying e (sub e he), ?_⟩
  · intro j
    by_cases hj : j = receiver
    · subst hj
      simp only [Function.update_self]
      exact ((h.nodes j).mono (horigin j)).put put new
    · simp only [Function.update_of_ne hj]
      exact (h.nodes j).mono (horigin j)
  · intro other hother j hj
    have hnode : (net.nodes j).Has other → (Function.update net.nodes receiver n' j).Has other := by
      by_cases hreceiver : j = receiver
      · subst hreceiver
        rw [Function.update_self]
        exact hkeeps other
      · rw [Function.update_of_ne hreceiver]
        exact fun hold => hold
    rcases h.accounted other hother j hj with hold | ⟨e, he, rfl, rfl⟩ | hdropped
    · exact .inl (hnode hold)
    · rcases arrived e he with hstill | ⟨hreceiver, hid⟩
      · exact .inr (.inl ⟨e, hstill, rfl, rfl⟩)
      · left
        show (Function.update net.nodes receiver n' e.receiver).Has e.id
        rw [hreceiver, hid, Function.update_self]
        exact hhas
    · exact .inr (.inr hdropped)

theorem mem_erase_or {e e' : Envelope} {flying : List Envelope} (h : e' ∈ flying) :
    e' ∈ flying.erase e ∨ e' = e := by
  by_cases hsame : e' = e
  · exact .inr hsame
  · exact .inl ((List.mem_erase_of_ne hsame).mpr h)

theorem NetworkOk.lost {e : Envelope} (h : NetworkOk setup net) :
    NetworkOk setup { net with
      flying := net.flying.erase e, dropped := net.dropped ++ [(e.receiver, e.id)] } := by
  refine ⟨h.nodes, fun e' he' => h.flying e' (List.mem_of_mem_erase he'), ?_⟩
  intro id hid j hj
  rcases h.accounted id hid j hj with hhas | ⟨e', he', rfl, rfl⟩ | hdropped
  · exact .inl hhas
  · rcases mem_erase_or (e := e) he' with hstill | rfl
    · exact .inr (.inl ⟨e', hstill, rfl, rfl⟩)
    · exact .inr (.inr (List.mem_append_right _ (List.mem_singleton.mpr rfl)))
  · exact .inr (.inr (List.mem_append_left _ hdropped))

theorem receive_distributionRequest_ok {validAddress : GoString → Bool}
    {distributors : List Address} {id' : DepositIdentifier}
    (h : receive validAddress distributors (some (distributionRequest self id)) = .ok id') :
    id' = id := by
  simp only [receive, distributionRequest, Outcome.bind_eq_ok, Outcome.ofOption_eq_ok,
    Outcome.wrap_eq_ok] at h
  obtain ⟨_, hrequest, _, hdata, -, -, -, -, -, -, _, hunmarshal, hid⟩ := h
  cases hrequest
  cases hdata
  cases hunmarshal
  exact (Option.some.inj hid).symm

theorem NetworkOk.step {label : NetworkLabel} (h : NetworkOk setup net)
    (taken : (network setup).step net label = some net') : NetworkOk setup net' := by
  cases label with
  | node self label =>
      simp only [network, networkStep, Option.ite_none_right_eq_some] at taken
      obtain ⟨m, hm, rfl⟩ := Option.map_eq_some_iff.mp taken.2
      exact h.moved taken.1.1 (Node.moves hm)
  | deliver e =>
      simp only [network, networkStep, Option.ite_none_right_eq_some] at taken
      obtain ⟨he, taken⟩ := taken
      split at taken
      · rename_i id hid
        cases receive_distributionRequest_ok hid
        obtain ⟨n, hput, rfl⟩ := Option.map_eq_some_iff.mp taken
        apply h.put hput (.inl (h.flying e he).1) (fun _ hentry => hentry)
        · exact fun e' he' => List.mem_of_mem_erase he'
        · intro e' he'
          apply (mem_erase_or he').imp_right
          rintro rfl
          exact ⟨rfl, rfl⟩
      · cases taken
        exact h.lost
  | lose e =>
      simp only [network, networkStep, Option.ite_none_right_eq_some, Option.some.injEq] at taken
      obtain ⟨-, rfl⟩ := taken
      exact h.lost
  | submit receiver request =>
      simp only [network, networkStep, Option.ite_none_right_eq_some] at taken
      obtain ⟨-, taken⟩ := taken
      split at taken
      · rename_i id hid
        obtain ⟨n, hput, rfl⟩ := Option.map_eq_some_iff.mp taken
        apply h.put hput (.inr (List.mem_append_right _ (List.mem_singleton.mpr rfl)))
        · exact fun _ hentry => List.mem_append_left _ hentry
        · exact fun _ he => he
        · exact fun _ he => .inl he
      · cases taken
        exact h

theorem reaches_networkOk (reached : (network setup).Reaches net) : NetworkOk setup net := by
  apply reached.invariant (P := NetworkOk setup)
  · exact fun net start => networkOk_init start
  · exact fun net label net' _ h _ taken => h.step taken

/-- A deposit one party has marked as distributed is in every other party's table, in its channel,
in its acceptor's hands or in flight, or that party has dropped it; unless the first learned of it
from the core, a proposal or a corrupted distributor.  No request in flight will be refused. -/
theorem distributed_accounted (setup : Setup) {net : Network}
    (reached : (network setup).Reaches net) :
    (∀ self id, IsDistributed (net.nodes self).party.table id →
      (self, id) ∈ net.foreign ∨ ∀ other ∈ setup.group, net.Accounted other id) ∧
    ∀ e ∈ net.flying, receive setup.validAddress (setup.distributors e.receiver)
      (some (distributionRequest e.sender e.id)) = .ok e.id := by
  have hok := reaches_networkOk reached
  constructor
  · intro self id hmarked
    rcases (hok.nodes self).rows id hmarked with hannounced | hforeign
    · exact .inr fun other hother => hok.accounted id hannounced other hother
    · exact .inl hforeign
  · intro e he
    have hsender := (hok.flying e he).2
    exact receive_distributionRequest (setup.valid _ (mem_distributors.mp hsender).1) hsender e.id

/-- Two parties, and a deposit the API of the first admits. -/
def pair : Setup where
  group := [str "a", str "b"]
  corrupted := fun _ => false
  validAddress := fun _ => true
  kinds := fun _ => utxoOnly
  valid := fun _ _ => rfl

def quietNetwork : Network := ⟨fun _ => ⟨fresh, none, [], none⟩, [], [], [], []⟩

theorem quietNetwork_init : (network pair).init quietNetwork :=
  ⟨fun _ => ⟨fresh_init _, rfl, rfl, rfl⟩, rfl, rfl, rfl, rfl⟩

def emptyCore : Core where
  referral := fun _ => .notFound
  tokenInfo := fun _ _ => .notFound
  token := fun _ => .notFound
  transaction := fun _ _ _ => .notFound
  isDefaultReferralId := fun _ => true
  getCommissionAmount := fun _ _ => .ok 0

/-- The chain node of the second party does not have the deposit: its row there is INVALID. -/
def distributing : List NetworkLabel :=
  [.node (str "a") (.party (.admission { samplePending with distributed := false })),
    .node (str "a") (.distribute false), .node (str "a") (.mark false),
    .deliver ⟨str "a", str "b", sampleId⟩, .node (str "b") (.take false),
    .node (str "b") (.insert sampleClients emptyCore false)]

theorem distributed_accounted_pair :
    ∃ net, (network pair).Reaches net ∧
      IsDistributed (net.nodes (str "a")).party.table sampleId ∧ net.flying = [] ∧
      (∀ other ∈ pair.group, net.Accounted other sampleId) ∧
      ((net.nodes (str "b")).party.table.statusOf sampleId) = some .invalid := by
  have hrun : ((network pair).exec (fun _ _ => True) quietNetwork distributing).map (fun net =>
      (((net.nodes (str "a")).party.table.get sampleId).map Deposit.distributed,
        net.flying.isEmpty, net.foreign.isEmpty,
        (net.nodes (str "b")).party.table.statusOf sampleId)) =
      some (some true, true, true, some .invalid) := by
    decide +kernel
  obtain ⟨net, hnet, hseen⟩ := Option.map_eq_some_iff.mp hrun
  simp only [Prod.mk.injEq, List.isEmpty_iff] at hseen
  obtain ⟨hmarked, hflying, hforeign, hstatus⟩ := hseen
  have hreached : (network pair).Reaches net :=
    (Machine.Reachable.init quietNetwork_init).exec hnet
  have hdistributed := Option.map_eq_some_iff.mp hmarked
  refine ⟨net, hreached, hdistributed, hflying, ?_, hstatus⟩
  apply ((distributed_accounted pair hreached).1 (str "a") sampleId hdistributed).resolve_left
  rw [hforeign]
  exact List.not_mem_nil

end Network

end TssSvc.Distributor
