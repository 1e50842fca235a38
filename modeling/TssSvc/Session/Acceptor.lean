import TssSvc.Session.SignerSet

/-!
# The acceptor

`internal/tss/session/consensus/acceptor.go`: what an acceptor makes of the proposal and of the
sign-start message of a proposer that need not be honest.

`handleSignStartMsg` lets through every list of distinct members: it compares their number with
nothing and does not look for the proposer.
-/

set_option autoImplicit false

namespace TssSvc.Session

open TssSvc.Broadcast

variable {D T : Type}

/-! ## The proposal -/

section Proposal

variable {κ : Type}

/-- An error with no package-level value behind it. -/
def widen (e : GoError Empty) : GoError κ := ⟨none, e.text⟩

/-- What `handleProposalMsg` leaves behind: `c.result.sigData`, the acceptance it sends to the
proposer and, when sending fails, `c.result.err`. -/
structure Handled (κ T : Type) where
  sigData : Option T := none
  acceptance : Option Bool := none
  err : Option (GoError κ) := none

def decodeProposal (d : Decoders D T) (data : D) (valid : Bool) :
    Outcome (GoError κ) (Option T) := do
  let raw ← ((d.broadcastData data).mapErr widen).wrap "failed to unmarshal proposal data"
  let roundMsg ← ((d.proposal raw).mapErr widen).wrap "failed to decode round message"
  Outcome.check valid (.new "proposal msg was not delivered reliable")
  return roundMsg.value

def accepts (verified : Outcome (GoError κ) Unit) : Bool :=
  match verified with
  | .ok _ => true
  | _ => false

/-- The deferred call sends the acceptance whatever `verify` comes to. -/
def answer (verified : Outcome (GoError κ) Unit) (send : Except GoString Unit) (value : T) :
    Handled κ T where
  sigData := if accepts verified then some value else none
  acceptance := some (accepts verified)
  err := match send with
    | .ok _ => none
    | .error text => some (GoError.wrap (str "failed to send proposal acceptance") ⟨none, text⟩)

/-- `handleProposalMsg` with the result of `EnsureValid` and of sending the acceptance; nothing
is verified or sent for the nil value. -/
def handleProposalMsg (d : Decoders D T) (verify : T → Outcome (GoError κ) Unit)
    (send : Except GoString Unit) (data : D) (valid : Bool) :
    Outcome (GoError κ) Unit × Handled κ T :=
  match decodeProposal d data valid with
  | .err e => (.err e, {})
  | .panic reason => (.panic reason, {})
  | .ok none => (.ok (), {})
  | .ok (some value) =>
      let verified := (verify value).wrap "failed to verify proposed data"
      (verified, answer verified send value)

/-- A message that decodes and was delivered is survived exactly when the verification of its
value is. -/
theorem returns_handleProposalMsg_iff {d : Decoders D T} {verify : T → Outcome (GoError κ) Unit}
    {send : Except GoString Unit} {data : D} {raw : Bytes} {roundMsg : RoundMessage T}
    (hraw : d.broadcastData data = .ok raw) (hround : d.proposal raw = .ok roundMsg) :
    (handleProposalMsg d verify send data true).1.Returns ↔
      ∀ value, roundMsg.value = some value → (verify value).Returns := by
  have hdecoded : (decodeProposal d data true : Outcome (GoError κ) (Option T)) =
      .ok roundMsg.value := by
    simp [decodeProposal, hraw, hround, Outcome.mapErr, Outcome.wrap, Outcome.check]
  unfold handleProposalMsg
  rw [hdecoded]
  cases roundMsg.value with
  | none => simp
  | some value => simp

end Proposal

/-! ## The announced signers -/

section SignStart

variable {d : Decoders D T} {c : Consensus}

/-- What the loop has seen of a list it let through. -/
structure LetThrough (c : Consensus) (announced seen : List GoString) : Prop where
  distinct : announced.Nodup
  fresh : ∀ a ∈ announced, a ∉ seen
  known : ∀ a ∈ announced, a = c.self ∨ (c.party a).isSome

theorem LetThrough.cons {a : GoString} {announced seen : List GoString}
    (hfresh : a ∉ seen) (hknown : a = c.self ∨ (c.party a).isSome)
    (h : LetThrough c announced (a :: seen)) : LetThrough c (a :: announced) seen where
  distinct := by
    refine List.nodup_cons.mpr ⟨fun hmem => ?_, h.distinct⟩
    exact h.fresh a hmem List.mem_cons_self
  fresh := by
    intro b hb
    rcases List.mem_cons.mp hb with rfl | hb
    · exact hfresh
    · exact fun hseen => h.fresh b hb (List.mem_cons_of_mem _ hseen)
  known := by
    intro b hb
    rcases List.mem_cons.mp hb with rfl | hb
    · exact hknown
    · exact h.known b hb

/-- A list the loop let through has one selected party for each address but the own one. -/
theorem selectParties_letThrough {announced seen : List GoString} {selfPresent present : Bool}
    {signing parties : List Party}
    (h : c.selectParties d announced seen selfPresent signing = .ok (present, parties)) :
    LetThrough c announced seen ∧ present = (selfPresent || decide (c.self ∈ announced)) ∧
      parties.length =
        signing.length + (announced.filter fun a => decide (a ≠ c.self)).length := by
  induction announced generalizing seen selfPresent signing with
  | nil =>
      cases h
      refine ⟨⟨List.nodup_nil, ?_, ?_⟩, by simp, by simp⟩
      · intro a ha
        cases ha
      · intro a ha
        cases ha
  | cons a announced ih =>
      rw [Consensus.selectParties] at h
      simp only [Outcome.bind_eq_ok, Outcome.check_eq_ok] at h
      obtain ⟨_, hfresh, h⟩ := h
      split at h
      · rename_i hself
        obtain ⟨hthrough, hpresent, hcount⟩ := ih h
        refine ⟨hthrough.cons hfresh (.inl hself), ?_, ?_⟩
        · simp [hpresent, hself]
        · rw [List.filter_cons_of_neg (by simp [hself])]
          exact hcount
      · rename_i hother
        simp only [Outcome.bind_eq_ok, Outcome.mapErr_eq_ok, Outcome.ofOption_eq_ok] at h
        obtain ⟨addr, haddr, party, hparty, h⟩ := h
        obtain ⟨hthrough, hpresent, hcount⟩ := ih h
        have heq : addr = a := by
          unfold addressFromString at haddr
          split at haddr <;> cases haddr
          rfl
        subst heq
        refine ⟨hthrough.cons hfresh (.inr (by rw [hparty]; rfl)), ?_, ?_⟩
        · simp [hpresent, Ne.symm hother]
        · rw [List.length_append, List.length_singleton] at hcount
          rw [List.filter_cons_of_pos (by simp [hother]), List.length_cons]
          omega

/-- The message behind a result of `handleSignStartMsg`. -/
theorem handleSignStartMsg_signers {data : D} {valid : Bool} {signers : List Party}
    (h : c.handleSignStartMsg d data valid = some (.ok (some signers))) :
    ∃ raw roundMsg start, d.broadcastData data = .ok raw ∧ d.signStart raw = .ok roundMsg ∧
      roundMsg.value = some start ∧
      c.selectParties d start.parties [] false [] = .ok (true, signers) := by
  simp only [Consensus.handleSignStartMsg] at h
  split at h
  · rename_i start hdecoded
    simp only [Outcome.bind_eq_ok, Outcome.wrap_eq_ok, Outcome.ofOption_eq_ok] at hdecoded
    obtain ⟨raw, hraw, roundMsg, hround, _, -, hvalue⟩ := hdecoded
    refine ⟨raw, roundMsg, start, hraw, hround, hvalue, ?_⟩
    unfold Consensus.signersOf at h
    split at h
    · cases h
    · simp only [Option.some.injEq, Outcome.bind_eq_ok, Outcome.pure_eq_ok,
        Outcome.ok.injEq] at h
      obtain ⟨⟨present, parties⟩, hselected, hresult⟩ := h
      cases present with
      | false => cases hresult
      | true =>
          cases hresult
          exact hselected
  · cases h
  · cases h

/-- A message that decodes and was delivered is survived unless it announces nobody. -/
theorem returns_handleSignStartMsg_iff {data : D} {raw : Bytes}
    {roundMsg : RoundMessage SignStartData} (hraw : d.broadcastData data = .ok raw)
    (hround : d.signStart raw = .ok roundMsg) :
    (∃ result, c.handleSignStartMsg d data true = some result ∧ result.Returns) ↔
      ∀ start, roundMsg.value = some start → start.parties ≠ [] := by
  have hselect : ∀ announced seen selfPresent signing,
      (c.selectParties d announced seen selfPresent signing).Returns := by
    intro announced
    induction announced with
    | nil => simp [Consensus.selectParties]
    | cons a announced ih =>
        intro seen selfPresent signing
        simp only [Consensus.selectParties, Outcome.returns_bind, Outcome.returns_check, true_and]
        intro _ _
        split
        · exact ih _ _ _
        · simp only [Outcome.returns_bind, Outcome.returns_mapErr, Outcome.returns_ofOption, ih,
            implies_true, and_true]
          unfold addressFromString
          split <;> simp
  cases hvalue : roundMsg.value with
  | none =>
      simp [Consensus.handleSignStartMsg, hraw, hround, hvalue, Outcome.wrap, Outcome.mapErr,
        Outcome.check, Outcome.ofOption]
  | some start =>
      simp only [Consensus.handleSignStartMsg, hraw, hround, hvalue, Outcome.wrap, Outcome.mapErr,
        Outcome.check, Outcome.ofOption, Outcome.ok_bind, if_true, Consensus.signersOf]
      by_cases hempty : start.parties = []
      · simp [hempty]
      · simp [hempty, hselect]

/-- The signers a session has to start with: `threshold + 1` distinct members, the acceptor and
the proposer among them, of which the acceptor keeps the others. -/
structure WellFormed (g : Group) (c : Consensus) (announced : List GoString)
    (signers : List Party) : Prop where
  count : (announced.length : Int) = c.threshold + 1
  distinct : announced.Nodup
  members : ∀ a ∈ announced, a ∈ g.members
  self : c.self ∈ announced
  proposer : c.proposer ∈ announced
  others : (signers.length : Int) = c.threshold

/-- The signers an acceptor takes are well formed exactly when the proposer announced
`threshold + 1` of them and itself among them. -/
theorem signers_wellFormed_iff {g : Group} {p : Address} {heap : Tss.Heap}
    (view : g.View d p c heap) {data : D} {valid : Bool} {signers : List Party}
    (h : c.handleSignStartMsg d data valid = some (.ok (some signers))) :
    ∃ raw roundMsg start, d.broadcastData data = .ok raw ∧ d.signStart raw = .ok roundMsg ∧
      roundMsg.value = some start ∧
      (WellFormed g c start.parties signers ↔
        (start.parties.length : Int) = c.threshold + 1 ∧ c.proposer ∈ start.parties) := by
  obtain ⟨raw, roundMsg, start, hraw, hround, hvalue, hselected⟩ := handleSignStartMsg_signers h
  refine ⟨raw, roundMsg, start, hraw, hround, hvalue, ?_⟩
  obtain ⟨hthrough, hpresent, hcount⟩ := selectParties_letThrough hselected
  have hself : c.self ∈ start.parties := by simpa using hpresent
  have hothers : signers.length + 1 = start.parties.length := by
    have hlength := (perm_cons_filter_ne hthrough.distinct hself).length_eq
    rw [List.length_cons] at hlength
    rw [hcount, List.length_nil, Nat.zero_add, hlength]
  constructor
  · intro hformed
    exact ⟨hformed.count, hformed.proposer⟩
  · rintro ⟨hannounced, hproposer⟩
    refine ⟨hannounced, hthrough.distinct, ?_, hself, hproposer, by omega⟩
    intro a ha
    rcases hthrough.known a ha with hown | hparty
    · rw [hown, view.self]
      exact view.member
    · exact (view.party_isSome_iff.mp hparty).1

end SignStart

section SampleSignStart

/-- A proposer that announces these signers. -/
def announcing (announced : List GoString) : Decoders Bool Unit :=
  { sampleDecoders with signStart := fun _ => .ok ⟨some ⟨announced⟩, str "s", 0, []⟩ }

/-- Party 2 in a session of parties 1, 2 and 3 with threshold 1 that party 1 proposes. -/
def sampleAcceptor : Consensus := ⟨[⟨[1], some 0⟩, ⟨[3], some 1⟩], [2], [1], str "s", 1⟩

theorem sampleAcceptor_view (announced : List GoString) :
    sampleGroup.View (announcing announced) [2] sampleAcceptor [⟨1, -1⟩, ⟨3, -1⟩] := by
  refine ⟨by decide, rfl, by decide, ?_, fun _ _ => rfl⟩
  intro party hparty
  simp only [sampleAcceptor, List.mem_cons, List.not_mem_nil, or_false] at hparty
  rcases hparty with rfl | rfl
  · exact ⟨0, rfl, by decide, by decide⟩
  · exact ⟨1, rfl, by decide, by decide⟩

theorem signers_wellFormed_sampleAcceptor :
    ∃ signers, sampleAcceptor.handleSignStartMsg (announcing [[2], [1]]) true true =
        some (.ok (some signers)) ∧ WellFormed sampleGroup sampleAcceptor [[2], [1]] signers := by
  have hhandled : sampleAcceptor.handleSignStartMsg (announcing [[2], [1]]) true true =
      some (.ok (some [⟨[1], some 0⟩])) := rfl
  obtain ⟨raw, roundMsg, start, hraw, hround, hvalue, hiff⟩ :=
    signers_wellFormed_iff (sampleAcceptor_view [[2], [1]]) hhandled
  cases hraw
  cases hround
  cases hvalue
  exact ⟨_, hhandled, hiff.mpr ⟨by decide, by decide⟩⟩

/-- A set of the acceptor alone, one without the proposer and one of all three parties. -/
theorem signers_malformed :
    sampleAcceptor.handleSignStartMsg (announcing [[2]]) true true = some (.ok (some [])) ∧
      ¬ WellFormed sampleGroup sampleAcceptor [[2]] [] ∧
    sampleAcceptor.handleSignStartMsg (announcing [[2], [3]]) true true =
        some (.ok (some [⟨[3], some 1⟩])) ∧
      ¬ WellFormed sampleGroup sampleAcceptor [[2], [3]] [⟨[3], some 1⟩] ∧
    sampleAcceptor.handleSignStartMsg (announcing [[1], [2], [3]]) true true =
        some (.ok (some [⟨[1], some 0⟩, ⟨[3], some 1⟩])) ∧
      ¬ WellFormed sampleGroup sampleAcceptor [[1], [2], [3]] [⟨[1], some 0⟩, ⟨[3], some 1⟩] := by
  refine ⟨rfl, ?_, rfl, ?_, rfl, ?_⟩
  · intro h
    exact absurd h.proposer (by decide)
  · intro h
    exact absurd h.proposer (by decide)
  · intro h
    exact absurd h.count (by decide)

end SampleSignStart

end TssSvc.Session
