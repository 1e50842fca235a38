import TssSvc.Session.Protocol

/-!
# What the parties of a session agree on

`outcome_of_honest_proposer`: with an honest proposer, whatever the other parties send, all honest
parties whose consensus ends on data have the proposer's data and its choice of signers, and every
honest party among these has verified that data.

`acceptors_agree`: with any proposer, two acceptors that took the round-0 messages of both
broadcasts and whose relays met agree on the data and on the announced signers.
-/

set_option autoImplicit false

namespace TssSvc.Session

open TssSvc.Broadcast

variable {D T : Type}

/-! ## The handlers -/

section Handlers

variable {d : Decoders D T}

/-- The data `handleProposalMsg` keeps is the value of a message that was delivered; it is kept
exactly when the answer is positive. -/
theorem handleProposalMsg_kept {verify : T → Fallible Unit} {send : Except GoString Unit} {data : D}
    {valid : Bool} {m : RoundMessage T} (decoded : roundMessage d d.proposal data = some m)
    (kept : (handleProposalMsg d verify send data valid).2.sigData.isSome ∨
      (handleProposalMsg d verify send data valid).2.acceptance = some true) :
    valid = true ∧ ∃ v, m.value = some v ∧
      (handleProposalMsg d verify send data valid).2.sigData = some v := by
  obtain ⟨raw, hraw, hm⟩ := roundMessage_eq_some.mp decoded
  have hdecoded : (decodeProposal d data valid : Fallible (Option T)) =
      if valid then .ok m.value else .err (.new "proposal msg was not delivered reliable") := by
    simp only [decodeProposal, hraw, hm, Outcome.mapErr, Outcome.wrap, Outcome.ok_bind,
      Outcome.check]
    cases valid <;> rfl
  unfold handleProposalMsg at kept ⊢
  rw [hdecoded] at kept ⊢
  cases valid with
  | false => simp at kept
  | true =>
      refine ⟨rfl, ?_⟩
      cases hvalue : m.value with
      | none => simp [hvalue] at kept
      | some v =>
          refine ⟨v, rfl, ?_⟩
          simp only [hvalue, if_true, answer] at kept ⊢
          cases haccepts : accepts ((verify v).wrap "failed to verify proposed data") with
          | true => rfl
          | false => simp [haccepts] at kept

theorem handleSignStartMsg_valid {c : Consensus} {data : D} {valid : Bool}
    {signers : Option (List Party)} (h : c.handleSignStartMsg d data valid = some (.ok signers)) :
    valid = true := by
  cases valid with
  | true => rfl
  | false =>
      simp only [Consensus.handleSignStartMsg] at h
      split at h
      · rename_i hdecoded
        simp [Outcome.check] at hdecoded
      · cases h
      · cases h

/-- The announcement that was read: it is not empty and `selectParties` lets it through. -/
theorem handleSignStartMsg_read {c : Consensus} {data : D} {valid : Bool}
    {signers : Option (List Party)} (h : c.handleSignStartMsg d data valid = some (.ok signers)) :
    ∃ raw m start present parties, d.broadcastData data = .ok raw ∧ d.signStart raw = .ok m ∧
      m.value = some start ∧ start.parties ≠ [] ∧
      c.selectParties d start.parties [] false [] = .ok (present, parties) := by
  simp only [Consensus.handleSignStartMsg] at h
  split at h
  · rename_i start hdecoded
    simp only [Outcome.bind_eq_ok, Outcome.wrap_eq_ok, Outcome.ofOption_eq_ok] at hdecoded
    obtain ⟨raw, hraw, m, hm, _, -, hvalue⟩ := hdecoded
    unfold Consensus.signersOf at h
    split at h
    · cases h
    · rename_i hnonempty
      simp only [Option.some.injEq, Outcome.bind_eq_ok] at h
      obtain ⟨⟨present, parties⟩, hselected, -⟩ := h
      refine ⟨raw, m, start, present, parties, hraw, hm, hvalue, ?_, hselected⟩
      intro hnil
      simp [hnil] at hnonempty
  · cases h
  · cases h

end Handlers

namespace Protocol

/-! ## The invariant -/

section Invariant

/-- The acceptor has verified the proposer's data. -/
def Holds (π : Protocol D T) (l : Member D T) (handled : Handled Empty T) : Prop :=
  l.handled = some handled ∧ ∃ v m, handled.sigData = some v ∧ m.value = some v ∧
    π.setup.Checked l.proposal m

/-- The acceptor has read its signers off the proposer's message. -/
def Obtained (π : Protocol D T) (p : Address) (l : Member D T)
    (result : ConsensusResult T) : Prop :=
  ∃ handled data m, π.Holds l handled ∧ result.sigData = handled.sigData ∧
    roundMessage π.decoders π.decoders.signStart data = some m ∧ π.setup.Checked l.start m ∧
    (π.consensus p).handleSignStartMsg π.decoders data true = some (.ok result.signers)

def AcceptorAt (π : Protocol D T) (p : Address) (l : Member D T) : Pc D T → Prop
  | .accepting handled => handled.sigData = none ∧ l.handled = none ∨ π.Holds l handled
  | .checkingProposal data => l.handled = none ∧ ∃ m,
      roundMessage π.decoders π.decoders.proposal data = some m ∧ π.setup.Checks l.proposal m
  | .checkingStart handled data => π.Holds l handled ∧ ∃ m,
      roundMessage π.decoders π.decoders.signStart data = some m ∧ π.setup.Checks l.start m
  | .ended result => ∀ data, result.Agreed data → π.Obtained p l result
  | .panicked => True
  | .idle | .proposing _ | .collecting _ _ | .starting _ => False

structure AcceptorOk (π : Protocol D T) (p : Address) (l : Member D T) : Prop where
  place : π.AcceptorAt p l l.pc
  answers : ∀ handled, l.handled = some handled → handled.acceptance = some true →
    π.Holds l handled

/-- The proposer has announced itself and `threshold` parties that accepted its data. -/
structure Announces (π : Protocol D T) (w : World D T) (proposal : Option (Node T))
    (start : Option (Node SignStartData)) (result : ConsensusResult T) (data : T)
    (selected : List Address) : Prop where
  sigData : result.sigData = some data
  signers : result.signers =
    some (selected.map fun a => ((π.consensus π.setup.origin).party a).getD ⟨[], none⟩)
  proposed : Broadcasts proposal (some data)
  started : Broadcasts start (some ⟨selected ++ [π.setup.origin]⟩)
  length : (selected.length : Int) = π.setup.threshold
  nodup : selected.Nodup
  known : ∀ a ∈ selected, ((π.consensus π.setup.origin).party a).isSome
  accepted : ∀ a ∈ selected, π.setup.honest a = true → w.Answered a true

def ProposerAt (π : Protocol D T) (w : World D T) (l : Member D T) : Pc D T → Prop
  | .idle => True
  | .proposing data => Broadcasts l.proposal data
  | .collecting data msgs => Broadcasts l.proposal (some data) ∧ ∀ msg ∈ msgs,
      ((π.consensus π.setup.origin).party msg.sender).isSome ∧ π.Genuine w msg
  | .starting result => ∃ data selected, π.Announces w l.proposal l.start result data selected
  | .ended result => ∀ data, result.Agreed data →
      ∃ data selected, π.Announces w l.proposal l.start result data selected
  | .panicked => True
  | .accepting _ | .checkingProposal _ | .checkingStart _ _ => False

structure ProposerOk (π : Protocol D T) (w : World D T) (l : Member D T) : Prop where
  place : π.ProposerAt w l l.pc
  announced : l.start ≠ none →
    ∃ result data selected, π.Announces w l.proposal l.start result data selected

structure WorldOk (π : Protocol D T) (w : World D T) : Prop where
  acceptor : ∀ p, p ≠ π.setup.origin → π.AcceptorOk p (w p)
  proposer : π.ProposerOk w (w π.setup.origin)

end Invariant

/-! ## Every step keeps it -/

section Steps

variable [HasHashString T] [HasHashString SignStartData] [DecidableEq T]
  {π : Protocol D T} {w : World D T} {p : Address} {action : Action D T} {next : Member D T}

theorem AcceptorOk.moved (ok : π.AcceptorOk p (w p)) (other : p ≠ π.setup.origin)
    (h : π.Moved w p action next) : π.AcceptorOk p next := by
  obtain ⟨place, answers⟩ := ok
  cases h with
  | ignores => exact ⟨place, answers⟩
  | @stops _ pc quiet =>
      refine ⟨?_, answers⟩
      cases pc with
      | panicked => trivial
      | ended result => exact fun data agreed => absurd agreed (quiet data)
      | _ => exact quiet.elim
  | proposes taken => exact absurd (Setup.step_broadcast taken).1.1 other
  | takesProposal present inCall _ =>
      cases hpc : (w p).pc with
      | checkingProposal data =>
          rw [hpc] at place
          obtain ⟨hnone, m, hm, hchecks⟩ := place
          refine ⟨?_, fun handled hhandled => ?_⟩
          · show π.AcceptorAt p _ (w p).pc
            rw [hpc]
            exact ⟨hnone, m, hm, hchecks.takeMsg present⟩
          · cases hnone.symm.trans hhandled
      | proposing data =>
          rw [hpc] at place
          exact place.elim
      | _ => simp [hpc, Pc.inProposal] at inCall
  | collects was =>
      rw [was] at place
      exact place.elim
  | @handles verify send data node valid present was verdict =>
      rw [was] at place
      obtain ⟨-, m, hm, hchecks⟩ := place
      have hkept : ∀ l : Member D T, l.proposal = (w p).proposal →
          l.handled = some (handleProposalMsg π.decoders verify send data valid).2 →
          ((handleProposalMsg π.decoders verify send data valid).2.sigData.isSome ∨
            (handleProposalMsg π.decoders verify send data valid).2.acceptance = some true) →
          π.Holds l (handleProposalMsg π.decoders verify send data valid).2 := by
        intro l hproposal hhandled hkept
        obtain ⟨rfl, v, hvalue, hdata⟩ := handleProposalMsg_kept hm hkept
        exact ⟨hhandled, v, m, hdata, hvalue, hproposal ▸ hchecks.checked present verdict⟩
      refine ⟨?_, fun handled hhandled haccepted => ?_⟩
      · show π.AcceptorAt p _ (answered _ _)
        unfold answered
        split
        · trivial
        · exact fun data agreed => by cases agreed.1
        · split
          · rename_i hset
            exact .inr (hkept _ rfl rfl (.inl hset))
          · exact fun data agreed => by cases agreed.2
      · cases hhandled
        exact hkept _ rfl rfl (.inr haccepted)
  | hears _ was _ =>
      rw [was] at place
      exact place.elim
  | @checksProposal _ data handled m net was unset decoded taken =>
      rw [was] at place
      rcases place with ⟨-, hnone⟩ | ⟨-, v, -, hset, -⟩
      · refine ⟨⟨hnone, m, decoded, _, (Setup.step_ensureValid taken).2.1, rfl⟩,
          fun h hhandled => ?_⟩
        cases hnone.symm.trans hhandled
      · cases unset.symm.trans hset
  | @checksStart _ data handled m net was set decoded taken =>
      rw [was] at place
      rcases place with ⟨hunset, -⟩ | hholds
      · exact absurd hunset set
      · exact ⟨⟨hholds, m, decoded, _, (Setup.step_ensureValid taken).2.1, rfl⟩, answers⟩
  | selects was _ _ _ _ =>
      rw [was] at place
      exact place.elim
  | takesStart present inCall _ =>
      cases hpc : (w p).pc with
      | checkingStart handled data =>
          rw [hpc] at place
          obtain ⟨hholds, m, hm, hchecks⟩ := place
          refine ⟨?_, answers⟩
          show π.AcceptorAt p _ (w p).pc
          rw [hpc]
          exact ⟨hholds, m, hm, hchecks.takeMsg present⟩
      | starting result =>
          rw [hpc] at place
          exact place.elim
      | _ => simp [hpc, Pc.inStart] at inCall
  | announces was =>
      rw [was] at place
      exact place.elim
  | @handlesStart handled data node valid present was verdict =>
      rw [was] at place
      obtain ⟨hholds, m, hm, hchecks⟩ := place
      refine ⟨?_, answers⟩
      show π.AcceptorAt p _ (started _ _)
      unfold started
      split
      · trivial
      · trivial
      · rename_i result hresult
        intro _ _
        cases handleSignStartMsg_valid hresult
        exact ⟨handled, data, m, hholds, rfl, hm, hchecks.checked present verdict, hresult⟩
      · exact fun data agreed => by cases agreed.1

/-- What was answered stays answered. -/
theorem WorldOk.answered_moved (ok : π.WorldOk w) (h : π.Moved w p action next) {a : Address}
    {accepted : Bool} (given : w.Answered a accepted) :
    World.Answered (Function.update w p next) a accepted := by
  by_cases ha : a = p
  · subst ha
    have hkept : next.handled = (w a).handled := by
      cases h with
      | handles _ was _ =>
          by_cases hself : a = π.setup.origin
          · have hplace := (hself ▸ ok.proposer).place
            rw [was] at hplace
            exact hplace.elim
          · have hplace := (ok.acceptor a hself).place
            rw [was] at hplace
            rw [World.Answered, hplace.1] at given
            cases given
      | _ => rfl
    rw [World.Answered, Function.update_self, hkept]
    exact given
  · rw [World.Answered, Function.update_of_ne ha]
    exact given

section Grows

variable {w w' : World D T} {l : Member D T}

omit [HasHashString T] [HasHashString SignStartData] [DecidableEq T]

theorem Announces.mono {proposal : Option (Node T)} {start : Option (Node SignStartData)}
    {result : ConsensusResult T} {data : T} {selected : List Address}
    (h : π.Announces w proposal start result data selected)
    (grows : ∀ a accepted, w.Answered a accepted → w'.Answered a accepted) :
    π.Announces w' proposal start result data selected :=
  { h with accepted := fun a ha honest => grows a true (h.accepted a ha honest) }

theorem ProposerOk.mono (ok : π.ProposerOk w l)
    (grows : ∀ a accepted, w.Answered a accepted → w'.Answered a accepted) :
    π.ProposerOk w' l := by
  refine ⟨?_, fun hstart => ?_⟩
  · have hplace := ok.place
    cases hpc : l.pc with
    | collecting data msgs =>
        rw [hpc] at hplace
        refine ⟨hplace.1, fun msg hmsg => ⟨(hplace.2 msg hmsg).1, ?_⟩⟩
        intro honest htype accepted hdata
        exact grows _ _ ((hplace.2 msg hmsg).2 honest htype accepted hdata)
    | starting result =>
        rw [hpc] at hplace
        obtain ⟨data, selected, h⟩ := hplace
        exact ⟨data, selected, h.mono grows⟩
    | ended result =>
        rw [hpc] at hplace
        intro data agreed
        obtain ⟨data, selected, h⟩ := hplace data agreed
        exact ⟨data, selected, h.mono grows⟩
    | _ =>
        rw [hpc] at hplace
        exact hplace
  · obtain ⟨result, data, selected, h⟩ := ok.announced hstart
    exact ⟨result, data, selected, h.mono grows⟩

end Grows

omit [HasHashString T] [HasHashString SignStartData] [DecidableEq T] in
/-- The proposer's choice: `threshold` parties, each with an acceptance among the messages. -/
theorem select_eq_some {data : T} {msgs : List (ConsensusMsg D)} {walked : Acceptances}
    {rand : Nat → UInt64} {result : ConsensusResult T}
    (walk : walked.Perm (msgs.foldl (collect π.decoders) []))
    (h : π.select p data msgs walked rand = some result) (set : result.signStart ≠ none) :
    ∃ selected : List Address, result.sigData = some data ∧
      result.signers = some (selected.map fun a => ((π.consensus p).party a).getD ⟨[], none⟩) ∧
      result.signStart = some ⟨selected ++ [p]⟩ ∧
      (selected.length : Int) = π.setup.threshold ∧ selected.Nodup ∧
      ∀ a ∈ selected, ∃ msg ∈ msgs, msg.sender = a ∧ msg.type = .acceptance ∧
        π.decoders.acceptanceData msg.data = .ok true := by
  have collected : Collected π.decoders msgs walked := (collected_foldl π.decoders msgs).perm walk
  simp only [select, Consensus.selectSigners] at h
  split at h
  · cases h
    exact absurd rfl set
  · rename_i hcount
    obtain ⟨selected, hselected, rfl⟩ := Option.map_eq_some_iff.mp h
    have henough : π.setup.threshold < (walked.acceptors.length : Int) + 1 := by
      simpa [ProposerRun.possibleSigners, consensus] using hcount
    obtain ⟨hsub, hlength⟩ := getSignersSet_eq_some henough hselected
    exact ⟨selected, rfl, rfl, rfl, hlength, collected.nodup_acceptors.sublist hsub,
      fun a ha => collected.accepted (hsub.subset ha)⟩

theorem ProposerOk.moved (ok : π.ProposerOk w (w π.setup.origin))
    (h : π.Moved w π.setup.origin action next) : π.ProposerOk w next := by
  obtain ⟨place, announced⟩ := ok
  cases h with
  | ignores => exact ⟨place, announced⟩
  | @stops _ pc quiet =>
      refine ⟨?_, announced⟩
      cases pc with
      | panicked => trivial
      | ended result => exact fun data agreed => absurd agreed (quiet data)
      | _ => exact quiet.elim
  | proposes taken =>
      obtain ⟨⟨-, hidle⟩, hentered, -⟩ := Setup.step_broadcast taken
      refine ⟨?_, fun hstart => ?_⟩
      · exact hentered ▸ Setup.broadcasts_enterBroadcast _ _
      · -- the signers are announced after the proposal
        obtain ⟨_, _, _, hannounces⟩ := announced hstart
        obtain ⟨node, hnode, -⟩ := hannounces.proposed
        cases hidle.symm.trans hnode
  | takesProposal present inCall _ =>
      refine ⟨?_, fun hstart => ?_⟩
      · show π.ProposerAt w _ (w π.setup.origin).pc
        cases hpc : (w π.setup.origin).pc with
        | proposing data =>
            rw [hpc] at place
            exact Setup.broadcasts_takeMsg place present
        | checkingProposal data =>
            rw [hpc] at place
            exact place.elim
        | _ => simp [hpc, Pc.inProposal] at inCall
      · obtain ⟨result, data, selected, hannounces⟩ := announced hstart
        exact ⟨result, data, selected,
          { hannounces with proposed := Setup.broadcasts_takeMsg hannounces.proposed present }⟩
  | collects was =>
      rw [was] at place
      refine ⟨⟨place, fun msg hmsg => ?_⟩, announced⟩
      cases hmsg
  | handles _ was _ =>
      rw [was] at place
      exact place.elim
  | hears received was genuine =>
      rw [was] at place
      refine ⟨⟨place.1, fun msg hmsg => ?_⟩, announced⟩
      rcases List.mem_append.mp hmsg with hold | hnew
      · exact place.2 msg hold
      · cases List.mem_singleton.mp hnew
        exact ⟨Consensus.receive_msgs_sender received, genuine⟩
  | checksProposal was _ _ _ =>
      rw [was] at place
      exact place.elim
  | checksStart was _ _ _ =>
      rw [was] at place
      exact place.elim
  | @selects walked rand data msgs result net was walk selected set taken =>
      rw [was] at place
      obtain ⟨chosen, hdata, hsigners, hstart, hlength, hnodup, hbacked⟩ :=
        select_eq_some walk selected set
      have hannounces : π.Announces w (w π.setup.origin).proposal (net π.setup.origin) result data
          chosen := by
        refine ⟨hdata, hsigners, place.1, ?_, hlength, hnodup, ?_, ?_⟩
        · rw [← hstart]
          exact (Setup.step_broadcast taken).2.1 ▸ Setup.broadcasts_enterBroadcast _ _
        · intro a ha
          obtain ⟨msg, hmsg, rfl, -, -⟩ := hbacked a ha
          exact (place.2 msg hmsg).1
        · intro a ha honest
          obtain ⟨msg, hmsg, rfl, htype, haccepted⟩ := hbacked a ha
          exact (place.2 msg hmsg).2 honest htype true haccepted
      exact ⟨⟨data, chosen, hannounces⟩, fun _ => ⟨result, data, chosen, hannounces⟩⟩
  | takesStart present inCall _ =>
      refine ⟨?_, fun _ => ?_⟩
      · show π.ProposerAt w _ (w π.setup.origin).pc
        cases hpc : (w π.setup.origin).pc with
        | starting result =>
            rw [hpc] at place
            obtain ⟨data, selected, hannounces⟩ := place
            exact ⟨data, selected,
              { hannounces with started := Setup.broadcasts_takeMsg hannounces.started present }⟩
        | checkingStart handled data =>
            rw [hpc] at place
            exact place.elim
        | _ => simp [hpc, Pc.inStart] at inCall
      · obtain ⟨result, data, selected, hannounces⟩ := announced (by simp [present])
        exact ⟨result, data, selected,
          { hannounces with started := Setup.broadcasts_takeMsg hannounces.started present }⟩
  | announces was =>
      rw [was] at place
      obtain ⟨data, selected, hannounces⟩ := place
      exact ⟨fun _ _ => ⟨data, selected, { hannounces with }⟩, announced⟩
  | handlesStart _ was _ =>
      rw [was] at place
      exact place.elim

theorem WorldOk.moved (ok : π.WorldOk w) (h : π.Moved w p action next) :
    π.WorldOk (Function.update w p next) := by
  have grows : ∀ a accepted, w.Answered a accepted →
      World.Answered (Function.update w p next) a accepted :=
    fun _ _ => ok.answered_moved h
  refine ⟨fun q hq => ?_, ?_⟩
  · by_cases hqp : q = p
    · subst hqp
      rw [Function.update_self]
      exact (ok.acceptor q hq).moved hq h
    · rw [Function.update_of_ne hqp]
      exact ok.acceptor q hq
  · by_cases horigin : π.setup.origin = p
    · subst horigin
      rw [Function.update_self]
      exact (ok.proposer.moved h).mono grows
    · rw [Function.update_of_ne horigin]
      exact ok.proposer.mono grows

theorem worldOk (reached : π.machine.Reachable π.Unforged w) : π.WorldOk w := by
  induction reached with
  | init start =>
      cases start
      refine ⟨fun q hq => ⟨?_, fun handled hhandled => ?_⟩, ?_, fun hstart => absurd rfl hstart⟩
      · simp [initial, hq, AcceptorAt]
      · cases hhandled
      · simp [initial, ProposerAt]
  | step before meets taken ih =>
      obtain ⟨next, rfl, moved⟩ := moved_of_step taken
      exact ih.moved moved

end Steps

/-! ## An honest proposer -/

/-- Every member has configured the group. -/
structure Consistent (π : Protocol D T) (g : Group) (heap : Address → Tss.Heap) : Prop where
  members : ∀ a ∈ π.setup.group, a ∈ g.members
  view : ∀ a ∈ g.members, g.View π.decoders a (π.consensus a) (heap a)

section Results

variable [HasHashString T] [HasHashString SignStartData] [DecidableEq T]
  {π : Protocol D T} {w : World D T} {g : Group} {heap : Address → Tss.Heap}

/-- The keys of the signers' party identifiers in order. -/
def keysOf (g : Group) (start : List Address) : List Nat :=
  (start.map g.partyKey).insertionSort (· ≤ ·)

omit [HasHashString T] [HasHashString SignStartData] [DecidableEq T]

section Announced

variable {proposal : Option (Node T)} {start : Option (Node SignStartData)}
  {result : ConsensusResult T} {data : T} {selected : List Address}

theorem Announces.unique {result' : ConsensusResult T} {data' : T} {selected' : List Address}
    (h : π.Announces w proposal start result data selected)
    (h' : π.Announces w proposal start result' data' selected') :
    data' = data ∧ selected' = selected := by
  have hdata := h.proposed.unique h'.proposed
  have hstart := h.started.unique h'.started
  simp only [Option.some.injEq, SignStartData.mk.injEq] at hdata hstart
  exact ⟨hdata.symm, (List.append_cancel_right hstart).symm⟩

theorem Announces.others (h : π.Announces w proposal start result data selected)
    (view : g.View π.decoders π.setup.origin (π.consensus π.setup.origin) (heap π.setup.origin)) :
    ∀ a ∈ selected, a ∈ g.members ∧ a ≠ π.setup.origin :=
  fun a ha => view.party_isSome_iff.mp (h.known a ha)

theorem Announces.nodup_all (h : π.Announces w proposal start result data selected)
    (view : g.View π.decoders π.setup.origin (π.consensus π.setup.origin) (heap π.setup.origin)) :
    (selected ++ [π.setup.origin]).Nodup := by
  rw [List.nodup_append]
  refine ⟨h.nodup, List.nodup_singleton _, fun a ha b hb hab => ?_⟩
  rw [List.mem_singleton] at hb
  exact (h.others view a ha).2 (hab.trans hb)

/-- What the proposer itself obtains. -/
theorem Announces.obtains (h : π.Announces w proposal start result data selected)
    (view : g.View π.decoders π.setup.origin (π.consensus π.setup.origin) (heap π.setup.origin)) :
    g.Obtains π.setup.origin (heap π.setup.origin) (selected ++ [π.setup.origin])
      (keysOf g (selected ++ [π.setup.origin])) result.signers := by
  have hothers := h.others view
  obtain ⟨haddresses, hmems⟩ := view.map_party hothers
  rw [h.signers]
  refine ⟨List.mem_append_right _ (List.mem_singleton_self _), ?_, view.sortedKeys_eq hmems ?_⟩
  · rw [haddresses, List.filter_append, List.filter_cons_of_neg (by simp), List.filter_nil,
      List.append_nil, List.filter_eq_self.mpr]
    intro a ha
    simpa using (hothers a ha).2
  · rw [haddresses]
    exact (List.perm_append_singleton _ _).symm

end Announced

variable [HasHashString T] [DecidableEq T] in
/-- What an acceptor has verified is the honest proposer's data. -/
theorem Holds.data_eq (honest : π.setup.honest π.setup.origin = true)
    (reached : (π.setup.machine T).Reaches w.proposals) {data : T}
    (proposed : Broadcasts (w π.setup.origin).proposal (some data)) {a : Address}
    {handled : Handled Empty T} (h : π.Holds (w a) handled) : handled.sigData = some data := by
  obtain ⟨-, v, m, hdata, hvalue, hchecked⟩ := h
  have hnet : π.setup.Checked (w.proposals a) m := hchecked
  rw [hdata, ← hvalue, (hnet.broadcasts honest reached).unique proposed]

variable [HasHashString SignStartData] in
theorem Obtained.member {q : Address} {result : ConsensusResult T}
    (reached : (π.setup.machine SignStartData).Reaches w.starts) (h : π.Obtained q (w q) result) :
    q ∈ π.setup.group := by
  obtain ⟨_, _, m, -, -, -, hchecked, -⟩ := h
  have hnet : π.setup.Checked (w.starts q) m := hchecked
  exact hnet.member reached

/-- The announcement behind what an acceptor obtained. -/
theorem Obtained.announcement {q : Address} (view : g.View π.decoders q (π.consensus q) (heap q))
    {result : ConsensusResult T} (h : π.Obtained q (w q) result) :
    ∃ m start, π.setup.Checked (w.starts q) m ∧ m.value = some ⟨start⟩ ∧ start.Nodup ∧
      (∀ a ∈ start, a ∈ g.members) ∧
      g.Obtains q (heap q) start (keysOf g start) result.signers := by
  obtain ⟨_, data, m, -, -, decoded, hchecked, hsigners⟩ := h
  obtain ⟨raw, hraw, hm⟩ := roundMessage_eq_some.mp decoded
  obtain ⟨raw', m', ⟨start⟩, _, _, hraw', hm', hvalue, hnonempty, hselected⟩ :=
    handleSignStartMsg_read hsigners
  cases hraw.symm.trans hraw'
  cases hm.symm.trans hm'
  obtain ⟨hthrough, -, -⟩ := selectParties_letThrough hselected
  have hmembers : ∀ a ∈ start, a ∈ g.members := by
    intro a ha
    rcases hthrough.known a ha with rfl | hknown
    · exact view.member
    · exact (view.party_isSome_iff.mp hknown).1
  obtain ⟨obtained, hhandle, hobtains⟩ :=
    view.obtains hnonempty hthrough.distinct hmembers hraw hm hvalue
  rw [hsigners] at hhandle
  cases hhandle
  exact ⟨m, start, hchecked, hvalue, hthrough.distinct, hmembers, hobtains⟩

theorem WorldOk.obtained (ok : π.WorldOk w) {q : Address} (hq : q ≠ π.setup.origin)
    {result : ConsensusResult T} (ended : (w q).pc = .ended result) {data : T}
    (agreed : result.Agreed data) : π.Obtained q (w q) result := by
  have hplace := (ok.acceptor q hq).place
  rw [ended] at hplace
  exact hplace data agreed

theorem WorldOk.announces (ok : π.WorldOk w) {result : ConsensusResult T}
    (ended : (w π.setup.origin).pc = .ended result) {data : T} (agreed : result.Agreed data) :
    ∃ data selected, π.Announces w (w π.setup.origin).proposal (w π.setup.origin).start result data
      selected := by
  have hplace := ok.proposer.place
  rw [ended] at hplace
  exact hplace data agreed

variable [HasHashString T] [HasHashString SignStartData] [DecidableEq T]

theorem announces_of_agreed (honest : π.setup.honest π.setup.origin = true)
    (reached : π.machine.Reachable π.Unforged w) {q : Address} {result : ConsensusResult T}
    (ended : (w q).pc = .ended result) {data : T} (agreed : result.Agreed data) :
    ∃ result data selected, π.Announces w (w π.setup.origin).proposal (w π.setup.origin).start
      result data selected := by
  have ok := worldOk reached
  by_cases hq : q = π.setup.origin
  · subst hq
    exact ⟨result, ok.announces ended agreed⟩
  · obtain ⟨_, _, m, -, -, -, hchecked, -⟩ := ok.obtained hq ended agreed
    have hnet : π.setup.Checked (w.starts q) m := hchecked
    refine ok.proposer.announced fun hnone => ?_
    obtain ⟨node, hnode, -⟩ := hnet.broadcasts honest (starts_reachable reached)
    cases hnone.symm.trans hnode

/-- The data agreed on are those the honest proposer broadcast. -/
theorem proposed_of_agreed (honest : π.setup.honest π.setup.origin = true)
    (reached : π.machine.Reachable π.Unforged w) {q : Address} {result : ConsensusResult T}
    (ended : (w q).pc = .ended result) {data : T} (agreed : result.Agreed data) :
    Broadcasts (w π.setup.origin).proposal (some data) := by
  have ok := worldOk reached
  by_cases hq : q = π.setup.origin
  · subst hq
    obtain ⟨data', _, hannounces⟩ := ok.announces ended agreed
    cases agreed.2.symm.trans hannounces.sigData
    exact hannounces.proposed
  · obtain ⟨_, data', _, hannounces⟩ := announces_of_agreed honest reached ended agreed
    obtain ⟨handled, _, _, hholds, hdata, -, -, -⟩ := ok.obtained hq ended agreed
    rw [hholds.data_eq honest (proposals_reachable reached) hannounces.proposed] at hdata
    cases agreed.2.symm.trans hdata
    exact hannounces.proposed

/-- All honest parties that agreed have the data the proposer formed and the `threshold` parties it
selected, with itself: those among them sign, the others do not.  Each honest one of the selected
has verified the data. -/
theorem outcome_of_honest_proposer (consistent : π.Consistent g heap)
    (honest : π.setup.honest π.setup.origin = true) (reached : π.machine.Reachable π.Unforged w) :
    ∃ outcome : Option (T × List Address), ∀ q result agreed, (w q).pc = .ended result →
      result.Agreed agreed → ∃ data selected, outcome = some (data, selected) ∧
        agreed = data ∧ (selected.length : Int) = π.setup.threshold ∧
        (selected ++ [π.setup.origin]).Nodup ∧ (∀ a ∈ selected, a ∈ g.members) ∧
        g.Obtains q (heap q) (selected ++ [π.setup.origin])
          (keysOf g (selected ++ [π.setup.origin])) result.signers ∧
        ∀ a ∈ selected, π.setup.honest a = true →
          ∃ handled, (w a).handled = some handled ∧ handled.sigData = some data := by
  by_cases hannounced : ∃ result data selected, π.Announces w (w π.setup.origin).proposal
      (w π.setup.origin).start result data selected
  case neg =>
    exact ⟨none, fun q result agreed hpc hagreed =>
      absurd (announces_of_agreed honest reached hpc hagreed) hannounced⟩
  have ok := worldOk reached
  have hstarts := starts_reachable reached
  obtain ⟨_, data, selected, hannounces⟩ := hannounced
  have hview : g.View π.decoders π.setup.origin (π.consensus π.setup.origin)
      (heap π.setup.origin) := by
    obtain ⟨node, hnode, -⟩ := hannounces.started
    exact consistent.view _ (consistent.members _ (Setup.wellFormed hstarts hnode).member)
  have hothers := hannounces.others hview
  refine ⟨some (data, selected), fun q result agreed hpc hagreed => ⟨data, selected, rfl, ?_,
    hannounces.length, hannounces.nodup_all hview, fun a ha => (hothers a ha).1, ?_, ?_⟩⟩
  · have hproposed := proposed_of_agreed honest reached hpc hagreed
    exact Option.some.inj (hproposed.unique hannounces.proposed)
  · by_cases hq : q = π.setup.origin
    · subst hq
      obtain ⟨_, _, hown⟩ := ok.announces hpc hagreed
      obtain ⟨rfl, rfl⟩ := hannounces.unique hown
      exact hown.obtains hview
    · have hown := ok.obtained hq hpc hagreed
      have hmember := consistent.members q (hown.member hstarts)
      obtain ⟨m, start, hchecked, hvalue, -, -, hobtains⟩ :=
        hown.announcement (consistent.view q hmember)
      -- the announcement an acceptor read is the proposer's
      cases hvalue.symm.trans ((hchecked.broadcasts honest hstarts).unique hannounces.started)
      exact hobtains
  · intro a ha hhonest
    obtain ⟨handled, hhandled, haccepted⟩ :=
      Option.bind_eq_some_iff.mp (hannounces.accepted a ha hhonest)
    have hholds := (ok.acceptor a (hothers a ha).2).answers handled hhandled haccepted
    exact ⟨handled, hhandled,
      hholds.data_eq honest (proposals_reachable reached) hannounces.proposed⟩

/-! ## Any proposer -/

/-- Whoever proposes: two acceptors that agreed, and whose relays of the proposal met, have data
with one hash. -/
theorem hashString_of_agreed (keys : π.setup.KeysWork) (rounds : 2 ≤ π.setup.relayRounds)
    (reached : π.machine.Reachable π.Unforged w) {p q : Address} (hp : p ≠ π.setup.origin)
    (hq : q ≠ π.setup.origin) {resultP resultQ : ConsensusResult T}
    (endedP : (w p).pc = .ended resultP) (endedQ : (w q).pc = .ended resultQ) {dataP dataQ : T}
    (agreedP : resultP.Agreed dataP) (agreedQ : resultQ.Agreed dataQ)
    (proposals : π.setup.Exchanged w.proposals p q) : hashString dataP = hashString dataQ := by
  have ok := worldOk reached
  obtain ⟨_, _, _, ⟨-, vP, proposalP, hvP, hproposalP, hcheckedP⟩, hresultP, -⟩ :=
    ok.obtained hp endedP agreedP
  obtain ⟨_, _, _, ⟨-, vQ, proposalQ, hvQ, hproposalQ, hcheckedQ⟩, hresultQ, -⟩ :=
    ok.obtained hq endedQ agreedQ
  have hkey := proposals.valueKey_eq keys rounds (proposals_reachable reached) hcheckedP hcheckedQ
  rw [hproposalP, hproposalQ] at hkey
  cases agreedP.2.symm.trans (hresultP.trans hvP)
  cases agreedQ.2.symm.trans (hresultQ.trans hvQ)
  exact hkey

/-- Whoever proposes: two acceptors that agreed, and whose relays met in both broadcasts, have data
with one hash and the same announced signers. -/
theorem acceptors_agree (consistent : π.Consistent g heap) (keys : π.setup.KeysWork)
    (rounds : 2 ≤ π.setup.relayRounds)
    (hashed : ∀ a b : SignStartData, (∀ x ∈ a.parties, x ∈ g.members) →
      (∀ x ∈ b.parties, x ∈ g.members) → hashString a = hashString b → a = b)
    (reached : π.machine.Reachable π.Unforged w) {p q : Address} (hp : p ≠ π.setup.origin)
    (hq : q ≠ π.setup.origin) {resultP resultQ : ConsensusResult T}
    (endedP : (w p).pc = .ended resultP) (endedQ : (w q).pc = .ended resultQ) {dataP dataQ : T}
    (agreedP : resultP.Agreed dataP) (agreedQ : resultQ.Agreed dataQ)
    (proposals : π.setup.Exchanged w.proposals p q) (starts : π.setup.Exchanged w.starts p q) :
    hashString dataP = hashString dataQ ∧ ∃ start, start.Nodup ∧ (∀ a ∈ start, a ∈ g.members) ∧
      g.Obtains p (heap p) start (keysOf g start) resultP.signers ∧
      g.Obtains q (heap q) start (keysOf g start) resultQ.signers := by
  have ok := worldOk reached
  have hstarts := starts_reachable reached
  have hview : ∀ a result, π.Obtained a (w a) result →
      g.View π.decoders a (π.consensus a) (heap a) :=
    fun a result h => consistent.view a (consistent.members a (h.member hstarts))
  have hownP := ok.obtained hp endedP agreedP
  have hownQ := ok.obtained hq endedQ agreedQ
  obtain ⟨mP, startP, checkedP, valueP, nodupP, membersP, obtainsP⟩ :=
    hownP.announcement (hview p _ hownP)
  obtain ⟨mQ, startQ, checkedQ, valueQ, nodupQ, membersQ, obtainsQ⟩ :=
    hownQ.announcement (hview q _ hownQ)
  refine ⟨hashString_of_agreed keys rounds reached hp hq endedP endedQ agreedP agreedQ
    proposals, ?_⟩
  have hkey := starts.valueKey_eq keys rounds hstarts checkedP checkedQ
  rw [valueP, valueQ] at hkey
  cases hashed _ _ membersP membersQ hkey
  exact ⟨startP, nodupP, membersP, obtainsP, obtainsQ⟩

end Results

/-! ## A session of three parties

Parties 1 and 2 are honest and 3 is not; the threshold is 1.  A request's data are its bytes. -/

section Sample

/-- `HashString` without SHA-256 and hex. -/
abbrev sampleStartHashable : HasHashString SignStartData :=
  ⟨fun d => Proto.encodeAll d.wire.fields⟩

local instance : HasHashString SignStartData := sampleStartHashable

def sampleMessage {V : Type} [HasHashString V] (value : V) (signers : List UInt8) :
    RoundMessage V :=
  signers.foldl
    (fun m a =>
      { m with
        round := m.signatures.length
        signatures := m.signatures ++ [⟨[a], a :: m.signHash sampleCrypto⟩] })
    ⟨some value, str "session", 0, []⟩

def sampleParties (p : Address) : List Party :=
  [⟨[1], some 0⟩, ⟨[2], some 1⟩, ⟨[3], some 2⟩].filter fun party => decide (party.coreAddress ≠ p)

/-- The only proposal is `v`; `announced` is the only announcement. -/
def sampleProtocol {T : Type} [HasHashString T] (v : T) (origin : UInt8)
    (announced : List GoString) : Protocol Bytes T where
  setup := sampleSetup [1, 2, 3] [1, 2] 1 origin
  decoders :=
    { validAddress := fun _ => true
      broadcastData := .ok
      acceptanceData := fun data => .ok (data = [1])
      proposal := fun _ => .ok (sampleMessage v [origin])
      signStart := fun _ => .ok (sampleMessage (⟨announced⟩ : SignStartData) [origin]) }
  parties := sampleParties

def sampleHeap : Tss.Heap := [⟨1, -1⟩, ⟨2, -1⟩, ⟨3, -1⟩]

theorem sampleProtocol_consistent {T : Type} [HasHashString T] (v : T) (origin : UInt8)
    (announced : List GoString) :
    (sampleProtocol v origin announced).Consistent sampleGroup fun _ => sampleHeap := by
  refine ⟨fun a ha => ha, fun a ha => ?_⟩
  have hparties : ∀ party ∈ sampleParties a, ∃ ref, party.identifier = some ref ∧
      ref < sampleHeap.length ∧
        Tss.keyOf sampleHeap ref = sampleGroup.partyKey party.coreAddress := by
    intro party hparty
    have hlisted := List.mem_of_mem_filter hparty
    simp only [List.mem_cons, List.not_mem_nil, or_false] at hlisted
    rcases hlisted with rfl | rfl | rfl
    · exact ⟨0, rfl, by decide, rfl⟩
    · exact ⟨1, rfl, by decide, rfl⟩
    · exact ⟨2, rfl, by decide, rfl⟩
  have hothers : ((sampleParties a).map Party.coreAddress).Perm (sampleGroup.members.erase a) := by
    simp only [sampleGroup, List.mem_cons, List.not_mem_nil, or_false] at ha
    rcases ha with rfl | rfl | rfl <;> decide
  exact ⟨ha, rfl, hothers, hparties, fun _ _ => rfl⟩

def sampleRequest {T : Type} (sender : Address) (type : RequestType) (data : Bytes) :
    Action Bytes T :=
  .receive ⟨sender, str "session", type, data⟩

def sampleData : SamplePayload := ⟨str "v"⟩

def sampleVerify (data : SamplePayload) : Fallible Unit :=
  if data = sampleData then .ok () else .err (.new "unknown deposit")

/-- Party 1 proposes, party 2 accepts, and both start to sign. -/
def honestRun {T : Type} [HasHashString T] (v : T) (verify : T → Fallible Unit) :
    List (Address × Action Bytes T) :=
  let start : SignStartData := ⟨[[2], [1]]⟩
  [([1], .form (.ok (some v))),
    ([2], sampleRequest [1] .proposal []),
    ([2], .takeProposal ⟨sampleMessage v [1], [1]⟩),
    ([1], .takeProposal ⟨sampleMessage v [1, 2], [2]⟩),
    ([2], .proposalReturns verify (.ok ())),
    ([1], .proposalReturns verify (.ok ())),
    ([1], sampleRequest [2] .acceptance [1]),
    ([1], .boundary [([2], true)] fun _ => 0),
    ([2], sampleRequest [1] .signStart []),
    ([2], .takeStart ⟨sampleMessage start [1], [1]⟩),
    ([1], .takeStart ⟨sampleMessage start [1, 2], [2]⟩),
    ([2], .startReturns),
    ([1], .startReturns)]

def result (w : World Bytes SamplePayload) (p : Address) : Option (ConsensusResult SamplePayload) :=
  match (w p).pc with
  | .ended result => some result
  | _ => none

theorem ended_of_result {w : World Bytes SamplePayload} {p : Address}
    {r : ConsensusResult SamplePayload} (h : result w p = some r) : (w p).pc = .ended r := by
  unfold result at h
  split at h
  · rename_i hpc
    cases h
    exact hpc
  · cases h

theorem outcome_of_honest_proposer_pair :
    ∃ w resultP resultQ data,
      (sampleProtocol sampleData 1 [[2], [1]]).machine.Reachable
        (sampleProtocol sampleData 1 [[2], [1]]).Unforged w ∧
      (w [1]).pc = .ended resultP ∧ (w [2]).pc = .ended resultQ ∧
      resultP.Agreed data ∧ resultQ.Agreed data ∧
      ∃ handled, (w [2]).handled = some handled ∧ handled.sigData = some data := by
  have hrun : (((sampleProtocol sampleData 1 [[2], [1]]).machine.exec
      (sampleProtocol sampleData 1 [[2], [1]]).Unforged
      (sampleProtocol sampleData 1 [[2], [1]]).initial
      (honestRun sampleData sampleVerify)).bind fun w =>
        (result w [1]).bind fun resultP => (result w [2]).map fun resultQ =>
          decide ((resultP.err.isNone ∧ resultP.sigData = some sampleData) ∧
            (resultQ.err.isNone ∧ resultQ.sigData = some sampleData) ∧
            resultQ.signers = some [⟨[1], some 0⟩])) = some true := by
    decide +kernel
  obtain ⟨w, hw, hrun⟩ := Option.bind_eq_some_iff.mp hrun
  obtain ⟨resultP, hp, hrun⟩ := Option.bind_eq_some_iff.mp hrun
  obtain ⟨resultQ, hq, hrun⟩ := Option.map_eq_some_iff.mp hrun
  obtain ⟨⟨herrP, hdataP⟩, ⟨herrQ, hdataQ⟩, hsigners⟩ := of_decide_eq_true hrun
  have agreedP : resultP.Agreed _ := ⟨Option.isNone_iff_eq_none.mp herrP, hdataP⟩
  have agreedQ : resultQ.Agreed _ := ⟨Option.isNone_iff_eq_none.mp herrQ, hdataQ⟩
  have reached : (sampleProtocol sampleData 1 [[2], [1]]).machine.Reachable
      (sampleProtocol sampleData 1 [[2], [1]]).Unforged w := Machine.Reachable.exec (.init rfl) hw
  obtain ⟨outcome, hall⟩ := outcome_of_honest_proposer
    (sampleProtocol_consistent sampleData 1 [[2], [1]]) (by decide) reached
  obtain ⟨data, selected, -, rfl, -, -, -, hobtains, hverified⟩ :=
    hall [2] _ _ (ended_of_result hq) agreedQ
  rw [hsigners] at hobtains
  have hselected : [2] ∈ selected := by
    rcases List.mem_append.mp hobtains.1 with h | h
    · exact h
    · exact absurd h (by decide)
  exact ⟨w, resultP, resultQ, _, reached, ended_of_result hp, ended_of_result hq, agreedP, agreedQ,
    hverified [2] hselected (by decide)⟩

/-- Party 3 proposes and announces parties 1 and 2, which relay its messages to each other. -/
def foreignRun {T : Type} [HasHashString T] (v : T) (verify : T → Fallible Unit) :
    List (Address × Action Bytes T) :=
  let start : SignStartData := ⟨[[1], [2]]⟩
  [([1], sampleRequest [3] .proposal []), ([2], sampleRequest [3] .proposal []),
    ([1], .takeProposal ⟨sampleMessage v [3], [3]⟩),
    ([2], .takeProposal ⟨sampleMessage v [3], [3]⟩),
    ([1], .takeProposal ⟨sampleMessage v [3, 2], [2]⟩),
    ([2], .takeProposal ⟨sampleMessage v [3, 1], [1]⟩),
    ([1], .proposalReturns verify (.ok ())), ([2], .proposalReturns verify (.ok ())),
    ([1], sampleRequest [3] .signStart []), ([2], sampleRequest [3] .signStart []),
    ([1], .takeStart ⟨sampleMessage start [3], [3]⟩),
    ([2], .takeStart ⟨sampleMessage start [3], [3]⟩),
    ([1], .takeStart ⟨sampleMessage start [3, 2], [2]⟩),
    ([2], .takeStart ⟨sampleMessage start [3, 1], [1]⟩),
    ([1], .startReturns), ([2], .startReturns)]

/-- Both nodes were called with the message and took it, and the second took what the first sent. -/
def Met {V : Type} (entry : ReliableBroadcastMsg V) (p : Address) (nodeP nodeQ : Node V) : Prop :=
  nodeP.entry = .ensureValid entry ∧ nodeQ.entry = .ensureValid entry ∧ entry ∈ nodeP.taken ∧
    entry ∈ nodeQ.taken ∧ ∀ m ∈ nodeP.sent, (⟨m, p⟩ : ReliableBroadcastMsg V) ∈ nodeQ.taken

instance {V : Type} [DecidableEq V] (entry : ReliableBroadcastMsg V) (p : Address)
    (nodeP nodeQ : Node V) : Decidable (Met entry p nodeP nodeQ) :=
  inferInstanceAs (Decidable (_ ∧ _ ∧ _ ∧ _ ∧ ∀ m ∈ nodeP.sent, _))

theorem Met.exchanged {V : Type} [HasHashString V] {s : Setup} {net : Net V} {p q : Address}
    {nodeP nodeQ : Node V} {entry : ReliableBroadcastMsg V} (h : Met entry p nodeP nodeQ)
    (hp : net p = some nodeP) (hq : net q = some nodeQ) (valid : s.EntryValid entry) :
    s.Exchanged net p q := by
  obtain ⟨entryP, entryQ, takenP, takenQ, delivered⟩ := h
  constructor
  · rintro a (rfl | rfl) node msg hnode hentry
    · cases hp.symm.trans hnode
      cases entryP.symm.trans hentry
      exact ⟨takenP, valid⟩
    · cases hq.symm.trans hnode
      cases entryQ.symm.trans hentry
      exact ⟨takenQ, valid⟩
  · intro node hnode m hm
    cases hq.symm.trans hnode
    rw [Net.sent_of_some hp] at hm
    exact delivered m hm

theorem acceptors_agree_foreign :
    ∃ w resultP resultQ dataP dataQ,
      (sampleProtocol sampleData 3 [[1], [2]]).machine.Reachable
        (sampleProtocol sampleData 3 [[1], [2]]).Unforged w ∧
      (w [1]).pc = .ended resultP ∧ (w [2]).pc = .ended resultQ ∧
      resultP.Agreed dataP ∧ resultQ.Agreed dataQ ∧ hashString dataP = hashString dataQ := by
  have hrun : (((sampleProtocol sampleData 3 [[1], [2]]).machine.exec
      (sampleProtocol sampleData 3 [[1], [2]]).Unforged
      (sampleProtocol sampleData 3 [[1], [2]]).initial
      (foreignRun sampleData sampleVerify)).bind fun w =>
        (result w [1]).bind fun resultP => (result w [2]).bind fun resultQ =>
        (w.proposals [1]).bind fun proposalP => (w.proposals [2]).bind fun proposalQ =>
        (w.starts [1]).bind fun startP => (w.starts [2]).map fun startQ =>
          decide ((resultP.err.isNone ∧ resultP.sigData = some sampleData) ∧
            (resultQ.err.isNone ∧ resultQ.sigData = some sampleData) ∧
            Met ⟨sampleMessage sampleData [3], [3]⟩ [1] proposalP proposalQ ∧
            Met ⟨sampleMessage ⟨[[1], [2]]⟩ [3], [3]⟩ [1] startP startQ)) = some true := by
    decide +kernel
  obtain ⟨w, hw, hrun⟩ := Option.bind_eq_some_iff.mp hrun
  obtain ⟨resultP, hp, hrun⟩ := Option.bind_eq_some_iff.mp hrun
  obtain ⟨resultQ, hq, hrun⟩ := Option.bind_eq_some_iff.mp hrun
  obtain ⟨proposalP, hproposalP, hrun⟩ := Option.bind_eq_some_iff.mp hrun
  obtain ⟨proposalQ, hproposalQ, hrun⟩ := Option.bind_eq_some_iff.mp hrun
  obtain ⟨startP, hstartP, hrun⟩ := Option.bind_eq_some_iff.mp hrun
  obtain ⟨startQ, hstartQ, hrun⟩ := Option.map_eq_some_iff.mp hrun
  obtain ⟨⟨herrP, hdataP⟩, ⟨herrQ, hdataQ⟩, metProposal, metStart⟩ := of_decide_eq_true hrun
  have agreedP : resultP.Agreed _ := ⟨Option.isNone_iff_eq_none.mp herrP, hdataP⟩
  have agreedQ : resultQ.Agreed _ := ⟨Option.isNone_iff_eq_none.mp herrQ, hdataQ⟩
  have reached : (sampleProtocol sampleData 3 [[1], [2]]).machine.Reachable
      (sampleProtocol sampleData 3 [[1], [2]]).Unforged w := Machine.Reachable.exec (.init rfl) hw
  have hashed : ∀ a b : SignStartData, hashString a = hashString b → a = b := by
    intro a b h
    have hfields := Proto.encodeAll_injective h
    have hlen : Function.Injective (Proto.Field.len 1) := fun _ _ heq => (Proto.Field.len.inj heq).2
    have hparties : a.parties = b.parties := hlen.list_map hfields
    cases a
    cases b
    cases hparties
    rfl
  obtain ⟨hdata, -⟩ := acceptors_agree
    (sampleProtocol_consistent sampleData 3 [[1], [2]]) (sampleSetup_keysWork _ _ _ _) (by decide)
    (fun a b _ _ => hashed a b) reached (by decide) (by decide) (ended_of_result hp)
    (ended_of_result hq) agreedP agreedQ
    (metProposal.exchanged hproposalP hproposalQ
      ⟨rfl, ⟨rfl, rfl, rfl, by decide, by decide, by decide⟩⟩)
    (metStart.exchanged hstartP hstartQ ⟨rfl, ⟨rfl, rfl, rfl, by decide, by decide, by decide⟩⟩)
  exact ⟨w, resultP, resultQ, _, _, reached, ended_of_result hp, ended_of_result hq, agreedP,
    agreedQ, hdata⟩

end Sample

end Protocol

end TssSvc.Session
