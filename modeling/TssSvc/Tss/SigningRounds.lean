import Mathlib.Data.Fintype.Basic
import TssSvc.Tss.PartyChannel

/-!
# The rounds of a UTXO signing

`runSigningSession` of `internal/tss/session/signing/utxo/session.go`, with the loop of the
consolidation, which is the same: one `SignParty` for each input, one after the other.  After a
round a signer replaces its party under the session's lock and waits a fixed delay, and every
round of every signer has the session's id.  `Receive` hands an `RT_SIGN` request to the party
that is there, holding the lock for reading until the party has taken it.

The number of the input in a message is not on the wire and no step reads it: it records the party
that emitted the message.
-/

set_option autoImplicit false

namespace TssSvc.Tss.Rounds

open TssSvc.Tss.Channel

structure RoundMsg (ι : Type) where
  sender : ι
  input : Nat
  deriving DecidableEq, Repr

structure Signer (ι R : Type) where
  input : Nat
  signingParty : PartyState (RoundMsg ι) R

structure State (ι R : Type) where
  signers : ι → Signer ι R
  inFlight : List (ι × RoundMsg ι)

namespace State

variable {ι R : Type}

def input (s : State ι R) (p : ι) : Nat := (s.signers p).input

def party (s : State ι R) (p : ι) : PartyState (RoundMsg ι) R := (s.signers p).signingParty

variable [DecidableEq ι]

def setParty (s : State ι R) (p : ι) (party : PartyState (RoundMsg ι) R) : State ι R :=
  { s with signers := Function.update s.signers p ⟨s.input p, party⟩ }

/-- The next input, with a new party. -/
def renew (s : State ι R) (p : ι) : State ι R :=
  { s with signers := Function.update s.signers p ⟨s.input p + 1, newParty⟩ }

end State

inductive Label (ι R : Type) where
  /-- An action of a goroutine of the signer's party. -/
  | act (p : ι) (label : Channel.Label (RoundMsg ι) R)
  /-- `receiveUpdates` sends a message of the library from `p` to `q`. -/
  | emit (p q : ι)
  | deliver (k : Nat)
  | renew (p : ι)
  deriving DecidableEq

section Machine

variable {ι R : Type} [DecidableEq ι]

def isCheck : Channel.Label (RoundMsg ι) R → Bool
  | .check _ => true
  | _ => false

/-- The signer has its signature, another input is left, and the session's lock is free: no call
is in `Receive`, and none has left the lock behind by a panic. -/
def canRenew (rounds : Nat) (signer : Signer ι R) : Bool :=
  signer.signingParty.ended && signer.signingParty.result.isSome &&
    signer.signingParty.calls.isEmpty && signer.signingParty.panicked.isEmpty &&
    decide (signer.input + 1 < rounds)

/-- The parties of the signers have each other's addresses, so that none is an outsider. -/
def step (rounds : Nat) (s : State ι R) : Label ι R → Option (State ι R)
  | .act p label =>
      if isCheck label then none
      else (Channel.step (fun _ => true) (s.party p) label).map (s.setParty p)
  | .emit p q =>
      if (s.party p).started && !(s.party p).receiveUpdatesDone && p ≠ q then
        some { s with inFlight := s.inFlight ++ [(q, ⟨p, s.input p⟩)] }
      else none
  | .deliver k =>
      match s.inFlight[k]? with
      | none => none
      | some (q, msg) =>
          some { s.setParty q ((s.party q).check msg) with inFlight := s.inFlight.eraseIdx k }
  | .renew p => if canRenew rounds (s.signers p) then some (s.renew p) else none

def start : State ι R := ⟨fun _ => ⟨0, newParty⟩, []⟩

def machine (ι R : Type) [DecidableEq ι] (rounds : Nat) : Machine (State ι R) (Label ι R) where
  init s := s = start
  step := step rounds

end Machine

/-! ## Isolation -/

section Isolation

variable {ι R : Type}

/-- What a signer's party has processed is for its own input, and what it has turned away or left
behind is for no later one. -/
structure Isolated (s : State ι R) : Prop where
  processed : ∀ q, ∀ msg ∈ (s.party q).updates, msg.input = s.input q
  discarded : ∀ q, ∀ msg ∈ (s.party q).dropped ++ (s.party q).panicked, msg.input ≤ s.input q
  leftover : ∀ q, (s.party q).ended = true → ∀ msg ∈ (s.party q).msgs, msg.input ≤ s.input q

/-- A signer starts an input only when all others have got to it, and takes the next only when all
others have sent their last message for this one and no message is on its way to it. -/
def Paced (s : State ι R) : Label ι R → Prop
  | .act p .run => ∀ q, s.input p ≤ s.input q
  | .renew q =>
      (∀ p, p ≠ q → s.input q < s.input p ∨
        s.input p = s.input q ∧ (s.party p).receiveUpdatesDone = true) ∧
      ∀ sent ∈ s.inFlight, sent.1 ≠ q
  | _ => True

instance Paced.decidable [DecidableEq ι] [Fintype ι] (s : State ι R) :
    ∀ label, Decidable (Paced s label)
  | .act p .run => inferInstanceAs (Decidable (∀ q, s.input p ≤ s.input q))
  | .renew q => inferInstanceAs (Decidable ((∀ p, p ≠ q → s.input q < s.input p ∨
        s.input p = s.input q ∧ (s.party p).receiveUpdatesDone = true) ∧
      ∀ sent ∈ s.inFlight, sent.1 ≠ q))
  | .act _ .cancel | .act _ .startReturns | .act _ .startFails | .act _ (.produce _)
  | .act _ .stopReceiveMsgs | .act _ .takeMsg | .act _ .stopReceiveUpdates | .act _ .takeResult
  | .act _ .waitFor | .act _ (.check _) | .act _ (.send _) | .emit _ _ | .deliver _ =>
      inferInstanceAs (Decidable True)

/-- The signers are at most one input apart, and one that is behind sends nothing more. -/
structure Lockstep (s : State ι R) : Prop where
  behind : ∀ p q, s.input p < s.input q →
    s.input q = s.input p + 1 ∧ (s.party p).receiveUpdatesDone = true
  begun : ∀ p q, (s.party p).started = true → s.input p ≤ s.input q
  flight : ∀ sent ∈ s.inFlight, sent.2.input = s.input sent.1
  held : ∀ q, ∀ msg ∈ (s.party q).held, msg.input = s.input q

theorem lockstep_start : Lockstep (start : State ι R) where
  behind _ _ h := absurd h (lt_irrefl 0)
  begun _ _ _ := le_rfl
  flight _ h := by cases h
  held _ _ h := by cases h

theorem Lockstep.isolated {s : State ι R} (inv : Lockstep s) : Isolated s where
  processed q msg h := inv.held q msg (PartyState.mem_held.mpr (.inr (.inr (.inl h))))
  discarded q msg h := by
    have seen : msg ∈ (s.party q).held := by
      rcases List.mem_append.mp h with h | h
      · exact PartyState.mem_held.mpr (.inr (.inr (.inr (.inl h))))
      · exact PartyState.mem_held.mpr (.inr (.inr (.inr (.inr h))))
    exact (inv.held q msg seen).le
  leftover q _ msg h := (inv.held q msg (PartyState.mem_held.mpr (.inr (.inl h)))).le

variable [DecidableEq ι] {s : State ι R}

@[simp] theorem input_setParty (p q : ι) (party : PartyState (RoundMsg ι) R) :
    (s.setParty p party).input q = s.input q := by
  by_cases h : q = p
  · subst h
    simp [State.input, State.setParty]
  · simp [State.input, State.setParty, h]

theorem party_setParty (p q : ι) (party : PartyState (RoundMsg ι) R) :
    (s.setParty p party).party q = if q = p then party else s.party q := by
  by_cases h : q = p
  · subst h
    simp [State.party, State.setParty]
  · simp [State.party, State.setParty, h]

theorem input_renew (p q : ι) :
    (s.renew p).input q = if q = p then s.input p + 1 else s.input q := by
  by_cases h : q = p
  · subst h
    simp [State.input, State.renew]
  · simp [State.input, State.renew, h]

theorem party_renew (p q : ι) :
    (s.renew p).party q = if q = p then newParty else s.party q := by
  by_cases h : q = p
  · subst h
    simp [State.party, State.renew]
  · simp [State.party, State.renew, h]

omit [DecidableEq ι] in
/-- A signer that still emits has all others at its input. -/
theorem Lockstep.emits {p : ι} (inv : Lockstep s) (started : (s.party p).started = true)
    (running : (s.party p).receiveUpdatesDone = false) (q : ι) : s.input p = s.input q := by
  rcases Nat.lt_or_eq_of_le (inv.begun p q started) with ahead | same
  · rw [(inv.behind p q ahead).2] at running
    cases running
  · exact same

theorem Lockstep.setParty {p : ι} {party : PartyState (RoundMsg ι) R} (inv : Lockstep s)
    (started : party.started = true → ∀ q, s.input p ≤ s.input q)
    (done : (s.party p).receiveUpdatesDone = true → party.receiveUpdatesDone = true)
    (held : ∀ msg ∈ party.held, msg.input = s.input p) : Lockstep (s.setParty p party) where
  behind r q h := by
    simp only [input_setParty, party_setParty] at h ⊢
    obtain ⟨next, finished⟩ := inv.behind r q h
    refine ⟨next, ?_⟩
    split
    · rename_i hr
      exact done (hr ▸ finished)
    · exact finished
  begun r q h := by
    simp only [input_setParty, party_setParty] at h ⊢
    split at h
    · rename_i hr
      exact hr ▸ started h q
    · exact inv.begun r q h
  flight sent h := by
    rw [input_setParty]
    exact inv.flight sent h
  held q msg h := by
    simp only [input_setParty, party_setParty] at h ⊢
    split at h
    · rename_i hq
      exact hq ▸ held msg h
    · exact inv.held q msg h

theorem Lockstep.act {p : ι} {label : Channel.Label (RoundMsg ι) R}
    {party : PartyState (RoundMsg ι) R} (inv : Lockstep s) (paced : Paced s (.act p label))
    (inner : ∀ msg, label ≠ .check msg)
    (taken : Channel.step (fun _ => true) (s.party p) label = some party) :
    Lockstep (s.setParty p party) := by
  have stepped := stepped_of_step taken
  refine inv.setParty (fun started q => ?_) stepped.receiveUpdatesDone
    fun msg h => inv.held p msg (stepped.mem_held inner h)
  rcases stepped.started with rfl | same
  · exact paced q
  · exact inv.begun p q (same ▸ started)

theorem Lockstep.deliver {k : Nat} {q : ι} {msg : RoundMsg ι} (inv : Lockstep s)
    (found : s.inFlight[k]? = some (q, msg)) :
    Lockstep { s.setParty q ((s.party q).check msg) with inFlight := s.inFlight.eraseIdx k } := by
  have stepped := stepped_of_check (s.party q) msg
  have arrived : msg.input = s.input q := inv.flight _ (List.mem_of_getElem? found)
  have started : ((s.party q).check msg).started = (s.party q).started := by
    rcases stepped.started with h | h
    · cases h
    · exact h
  have next : Lockstep (s.setParty q ((s.party q).check msg)) := by
    refine inv.setParty (fun h r => inv.begun q r (started ▸ h)) stepped.receiveUpdatesDone
      fun other h => ?_
    rcases mem_held_check h with rfl | h
    · exact arrived
    · exact inv.held q other h
  exact ⟨next.behind, next.begun, fun sent h => next.flight sent (List.mem_of_mem_eraseIdx h),
    next.held⟩

/-- The others are at the same input and done with it, or at the next. -/
theorem Lockstep.renew {p : ι} (inv : Lockstep s) (paced : Paced s (.renew p)) :
    Lockstep (s.renew p) where
  behind r q h := by
    simp only [input_renew, party_renew] at h ⊢
    by_cases hr : r = p
    · subst hr
      simp only [if_true] at h ⊢
      by_cases hq : q = r
      · simp [hq] at h
      · simp only [hq, if_false] at h
        have := (inv.behind r q (by omega)).1
        omega
    · simp only [hr, if_false] at h ⊢
      by_cases hq : q = p
      · subst hq
        simp only [if_true] at h ⊢
        rcases paced.1 r hr with ahead | ⟨same, done⟩
        · omega
        · exact ⟨by omega, done⟩
      · simp only [hq, if_false] at h ⊢
        exact inv.behind r q h
  begun r q h := by
    simp only [input_renew, party_renew] at h ⊢
    by_cases hr : r = p
    · simp [hr, newParty] at h
    · simp only [hr, if_false] at h ⊢
      have := inv.begun r q h
      split
      · rename_i hq
        subst hq
        omega
      · exact this
  flight sent h := by
    rw [input_renew, if_neg (paced.2 sent h)]
    exact inv.flight sent h
  held q msg h := by
    simp only [input_renew, party_renew] at h ⊢
    by_cases hq : q = p
    · simp [hq, newParty, PartyState.held] at h
    · simp only [hq, if_false] at h ⊢
      exact inv.held q msg h

theorem lockstep_step {rounds : Nat} {s' : State ι R} {label : Label ι R} (inv : Lockstep s)
    (paced : Paced s label) (taken : step rounds s label = some s') : Lockstep s' := by
  cases label with
  | act p label =>
      obtain ⟨inner, taken⟩ := Option.ite_none_left_eq_some.mp taken
      obtain ⟨party, hparty, rfl⟩ := Option.map_eq_some_iff.mp taken
      refine inv.act paced (fun msg h => inner ?_) hparty
      rw [h]
      rfl
  | emit p q =>
      obtain ⟨guard, taken⟩ := Option.ite_none_right_eq_some.mp taken
      cases taken
      simp only [Bool.and_eq_true, Bool.not_eq_true', decide_eq_true_eq] at guard
      refine ⟨inv.behind, inv.begun, fun sent h => ?_, inv.held⟩
      rcases List.mem_append.mp h with h | h
      · exact inv.flight sent h
      · cases List.mem_singleton.mp h
        exact inv.emits guard.1.1 guard.1.2 q
  | deliver k =>
      simp only [step] at taken
      split at taken
      · cases taken
      · rename_i q msg found
        cases taken
        exact inv.deliver found
  | renew p =>
      obtain ⟨-, taken⟩ := Option.ite_none_right_eq_some.mp taken
      cases taken
      exact inv.renew paced

/-- In every run whose steps are `Paced`, with any number of inputs and any set of signers, the
rounds are isolated in every state. -/
theorem rounds_isolated {rounds : Nat} (reached : (machine ι R rounds).Reachable Paced s) :
    Isolated s := by
  have inv : Lockstep s :=
    reached.invariant (fun _ begin => begin ▸ lockstep_start)
      fun _ _ _ _ inv paced taken => lockstep_step inv paced taken
  exact inv.isolated

end Isolation

/-! ## Two signers -/

section TwoSigners

def fast : Bool := false

def slow : Bool := true

/-- The party of `p` gets its result and is waited for. -/
def finishing (p : Bool) : List (Label Bool Unit) :=
  [.act p .startReturns, .act p (.produce ()), .act p .takeResult, .act p .takeMsg,
    .act p .waitFor]

/-- The message in flight at `k` is for `p`, and its party takes it. -/
def receiving (p : Bool) (k : Nat) : List (Label Bool Unit) :=
  [.deliver k, .act p (.send 0), .act p .takeMsg]

/-- Both signers start and send; the message of the slow one arrives. -/
def opening : List (Label Bool Unit) :=
  [.act fast .run, .act slow .run, .emit fast slow, .emit slow fast] ++ receiving fast 1

/-- Each signer waits for the other. -/
def pacedRounds : List (Label Bool Unit) :=
  opening ++ receiving slow 0 ++ finishing fast ++ finishing slow ++
    [.renew fast, .renew slow] ++ opening ++ receiving slow 0

/-- The fast signer is done with its input and sends for the next one, with a message of the
first input still on its way. -/
def ahead : List (Label Bool Unit) :=
  opening ++ finishing fast ++ [.renew fast, .act fast .run, .emit fast slow]

theorem rounds_isolated_pacedRounds :
    ∃ s, (machine Bool Unit 2).Reachable Paced s ∧ s.input slow = 1 ∧
      (s.party slow).updates = [⟨fast, 1⟩] ∧ Isolated s := by
  have run : ((machine Bool Unit 2).exec Paced start pacedRounds).map
      (fun s => (s.input slow, (s.party slow).updates)) = some (1, [⟨fast, 1⟩]) := by
    decide +kernel
  obtain ⟨s, reached, hs⟩ := Machine.exists_reachable rfl run
  simp only [Prod.mk.injEq] at hs
  exact ⟨s, reached, hs.1, hs.2, rounds_isolated reached⟩

/-- The slow signer, still at its first input, passes a message for the next one to
`UpdateFromBytes`; or it has just ended that input and turns the message away. -/
theorem rounds_mixed :
    (∃ s, (machine Bool Unit 2).Reaches s ∧ s.input slow = 0 ∧
        (s.party slow).updates = [⟨fast, 1⟩]) ∧
      ∃ s, (machine Bool Unit 2).Reaches s ∧ s.input slow = 0 ∧
        (s.party slow).updates = [⟨fast, 0⟩] ∧ (s.party slow).dropped = [⟨fast, 1⟩] := by
  have processed : ((machine Bool Unit 2).exec (fun _ _ => True) start
      (ahead ++ receiving slow 1)).map (fun s => (s.input slow, (s.party slow).updates)) =
        some (0, [⟨fast, 1⟩]) := by
    decide +kernel
  have dropped : ((machine Bool Unit 2).exec (fun _ _ => True) start
      (ahead ++ receiving slow 0 ++ finishing slow ++ [.deliver 0])).map
        (fun s => (s.input slow, (s.party slow).updates, (s.party slow).dropped)) =
          some (0, [⟨fast, 0⟩], [⟨fast, 1⟩]) := by
    decide +kernel
  obtain ⟨s, reached, mixed⟩ := Machine.exists_reachable rfl processed
  obtain ⟨t, reached', lost⟩ := Machine.exists_reachable rfl dropped
  simp only [Prod.mk.injEq] at mixed lost
  exact ⟨⟨s, reached, mixed⟩, ⟨t, reached', lost⟩⟩

end TwoSigners

end TssSvc.Tss.Rounds
