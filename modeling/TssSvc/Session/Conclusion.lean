import TssSvc.Session.PayloadKeys
import TssSvc.Session.Signing

/-!
# What a signing session concludes

`concluded_judged`: whoever leads, a party that finishes has verified the data itself, or formed
them, and holds signatures that verify for them.

`concluded_of_honest_leader`: with an honest leader all that finish hold the same data and the same
signatures.

`concluded_agree`: with any leader, two receivers that finish and whose relays met hold data with
one hash and the same signatures.  `HashString` runs the encodings of the signatures together, so
this needs that no two lists of verified signatures have one encoding
(`eq_of_signatureFields_eq`).
-/

set_option autoImplicit false

namespace TssSvc.Session

open TssSvc.Broadcast TssSvc.Proto
open TssSvc.Party (Call Signatures verifyEach validateSignatures)

variable {D T : Type}

/-! ## What a party lets into a session -/

/-- The mechanism forms the data, or verifies them, in this step. -/
def Action.Admits : Action D T → T → Prop
  | .form (.ok (some formed)), data => formed = data
  | .proposalReturns verify _, data => verify data = .ok ()
  | _, _ => False

/-- The data a party works on. -/
def Pc.Data : Pc D T → T → Prop
  | .proposing formed, data => formed = some data
  | .collecting formed _, data => formed = data
  | .starting result, data => result.sigData = some data
  | .accepting handled, data | .checkingStart handled _, data => handled.sigData = some data
  | .ended result, data => result.Agreed data
  | .idle, _ | .checkingProposal _, _ | .panicked, _ => False

theorem Pc.Quiet.data {pc : Pc D T} (quiet : pc.Quiet) {data : T} (h : pc.Data data) : False := by
  cases pc with
  | ended result => exact quiet data h
  | panicked => exact h
  | _ => exact quiet

theorem handleProposalMsg_verified {d : Decoders D T} {verify : T → Fallible Unit}
    {send : Except GoString Unit} {raw : D} {valid : Bool} {data : T}
    (h : (handleProposalMsg d verify send raw valid).2.sigData = some data) :
    verify data = .ok () := by
  unfold handleProposalMsg at h
  split at h
  · cases h
  · cases h
  · cases h
  · simp only [answer] at h
    split at h
    · rename_i haccepts
      cases h
      cases hverify : verify data with
      | ok _ => rfl
      | err e => simp [hverify, accepts] at haccepts
      | panic reason => simp [hverify, accepts] at haccepts
    · cases h

theorem answered_data {returned : Fallible Unit} {handled : Handled Empty T} {data : T}
    (h : (answered returned handled : Pc D T).Data data) : handled.sigData = some data := by
  unfold answered at h
  split at h
  · exact h.elim
  · cases h.1
  · split at h
    · exact h
    · cases h.2

theorem started_data {handled : Handled Empty T}
    {returned : Option (Fallible (Option (List Party)))} {data : T}
    (h : (started handled returned : Pc D T).Data data) : handled.sigData = some data := by
  unfold started at h
  split at h
  · exact h.elim
  · exact h.elim
  · exact h.2
  · exact h.2

namespace Protocol

variable [HasHashString T] [HasHashString SignStartData] [DecidableEq T] {π : Protocol D T}
  {w : World D T} {p : Address} {action : Action D T} {next : Member D T}

/-- Data come into a party's session by its mechanism only. -/
theorem Moved.data (h : π.Moved w p action next) {data : T} (worked : next.pc.Data data) :
    (w p).pc.Data data ∨ action.Admits data := by
  cases h with
  | stops quiet => exact (quiet.data worked).elim
  | ignores | takesProposal | takesStart => exact .inl worked
  | proposes taken =>
      cases worked
      exact .inr rfl
  | collects was =>
      cases worked
      exact .inl (was ▸ rfl)
  | handles present was verdict => exact .inr (handleProposalMsg_verified (answered_data worked))
  | hears received was genuine =>
      cases worked
      exact .inl (was ▸ rfl)
  | checksProposal => exact worked.elim
  | checksStart was _ _ _ => exact .inl (was ▸ worked)
  | selects was walk selected set taken =>
      obtain ⟨_, hdata, -⟩ := select_eq_some walk selected set
      rw [was]
      exact .inl (Option.some.inj (hdata.symm.trans worked))
  | announces was => exact .inl (was ▸ worked.2)
  | handlesStart present was verdict => exact .inl (was ▸ started_data worked)

end Protocol

/-! ## Verified signatures -/

/-- One signature for each hash. -/
def Verified (ecdsaVerify : Bytes → Nat → Nat → Bool) (hashes : List Bytes)
    (signatures : Signatures) : Prop :=
  List.Forall₂ (fun signature hash => ∃ sig, signature = some sig ∧
    Party.verify ecdsaVerify hash sig = true) signatures hashes

section Verified

variable {ecdsaVerify : Bytes → Nat → Nat → Bool}

theorem verifyEach_verified {signatures : Signatures} {hashes : List Bytes}
    (length : signatures.length = hashes.length)
    (h : verifyEach ecdsaVerify signatures hashes = .ok ()) :
    Verified ecdsaVerify hashes signatures := by
  induction signatures generalizing hashes with
  | nil =>
      cases List.length_eq_zero_iff.mp length.symm
      exact .nil
  | cons signature signatures ih =>
      cases hashes with
      | nil => cases length
      | cons hash hashes =>
          simp only [verifyEach, Outcome.bind_eq_ok, Outcome.deref_eq_ok, Outcome.check_eq_ok] at h
          obtain ⟨sig, hsig, _, hverified, hrest⟩ := h
          exact .cons ⟨sig, hsig, hverified⟩ (ih (Nat.succ.inj length) hrest)

theorem verified_of_validateSignatures {signatures : Signatures} {hashes : List Bytes}
    (h : validateSignatures ecdsaVerify hashes (some signatures) = .ok signatures) :
    Verified ecdsaVerify hashes signatures := by
  simp only [validateSignatures, Outcome.bind_eq_ok, Outcome.ofOption_eq_ok, Outcome.check_eq_ok,
    Outcome.pure_eq_ok, Outcome.ok.injEq] at h
  obtain ⟨_, -, _, hlength, _, heach, rfl⟩ := h
  exact verifyEach_verified hlength heach

/-! ### Their encodings -/

/-- The list begins with the field. -/
def Begins (number : Nat) (fields : List Field) : Prop :=
  ∃ content rest, fields = .len number content :: rest

theorem not_begins_nil (number : Nat) : ¬Begins number [] := by
  rintro ⟨_, _, h⟩
  cases h

theorem begins_bytesField {number other : Nat} {value : Bytes} {rest : List Field}
    (different : number ≠ other) (h : Begins number ((bytesField other value).fields ++ rest)) :
    value = [] ∧ Begins number rest := by
  by_cases hvalue : value = []
  · rw [hvalue] at h
    exact ⟨hvalue, h⟩
  · obtain ⟨_, _, h⟩ := h
    simp only [bytesField, if_neg hvalue, List.cons_append, List.cons.injEq, Field.len.injEq] at h
    exact absurd h.1.1.symm different

/-- A field that may be left out is read off what follows. -/
theorem bytesField_append {number : Nat} {value value' : Bytes} {rest rest' : List Field}
    (ends : ¬Begins number rest) (ends' : ¬Begins number rest')
    (h : (bytesField number value).fields ++ rest = (bytesField number value').fields ++ rest') :
    value = value' ∧ rest = rest' := by
  by_cases hvalue : value = []
  · by_cases hvalue' : value' = []
    · rw [hvalue, hvalue'] at h
      exact ⟨hvalue.trans hvalue'.symm, h⟩
    · simp only [bytesField, if_pos hvalue, if_neg hvalue', List.nil_append, List.cons_append] at h
      exact absurd ⟨_, _, h⟩ ends
  · by_cases hvalue' : value' = []
    · simp only [bytesField, if_neg hvalue, if_pos hvalue', List.nil_append, List.cons_append] at h
      exact absurd ⟨_, _, h.symm⟩ ends'
    · simp only [bytesField, if_neg hvalue, if_neg hvalue', List.cons_append, List.nil_append,
        List.cons.injEq, Field.len.injEq] at h
      exact ⟨h.1.2, h.2⟩

/-- `R` and `S` are there. -/
def Complete (sig : SignatureData) : Prop := sig.r ≠ [] ∧ sig.s ≠ []

theorem wire_fields_append (sig : SignatureData) (rest : List Field) :
    sig.wire.fields ++ rest = (bytesField 1 sig.signature).fields ++
      ((bytesField 2 sig.signatureRecovery).fields ++ ((bytesField 3 sig.r).fields ++
        ((bytesField 4 sig.s).fields ++ ((bytesField 5 sig.m).fields ++ rest)))) := by
  have hfields : sig.wire.fields = (bytesField 1 sig.signature).fields ++
      (bytesField 2 sig.signatureRecovery).fields ++ (bytesField 3 sig.r).fields ++
        (bytesField 4 sig.s).fields ++ (bytesField 5 sig.m).fields := rfl
  rw [hfields]
  simp only [List.append_assoc]

/-- An encoded signature begins with one of its first three fields. -/
theorem not_begins_wire {sig : SignatureData} (complete : Complete sig) {number : Nat}
    (late : 4 ≤ number) (rest : List Field) : ¬Begins number (sig.wire.fields ++ rest) := by
  intro h
  rw [wire_fields_append] at h
  have h := (begins_bytesField (by omega) h).2
  have h := (begins_bytesField (by omega) h).2
  exact complete.1 (begins_bytesField (by omega) h).1

theorem wire_append {sig sig' : SignatureData} (complete : Complete sig) (complete' : Complete sig')
    {rest rest' : List Field} (ends : ∀ number, 4 ≤ number → ¬Begins number rest)
    (ends' : ∀ number, 4 ≤ number → ¬Begins number rest')
    (h : sig.wire.fields ++ rest = sig'.wire.fields ++ rest') : sig = sig' ∧ rest = rest' := by
  have before : ∀ (d : SignatureData) (rest : List Field), Complete d → ∀ number < 3,
      ¬Begins number ((bytesField 3 d.r).fields ++
        ((bytesField 4 d.s).fields ++ ((bytesField 5 d.m).fields ++ rest))) :=
    fun d rest complete number small hb => complete.1 (begins_bytesField (by omega) hb).1
  have second : ∀ (d : SignatureData) (rest : List Field), Complete d → ¬Begins 3
      ((bytesField 4 d.s).fields ++ ((bytesField 5 d.m).fields ++ rest)) :=
    fun d rest complete hb => complete.2 (begins_bytesField (by omega) hb).1
  have first : ∀ (d : SignatureData) (rest : List Field), Complete d → ¬Begins 1
      ((bytesField 2 d.signatureRecovery).fields ++ ((bytesField 3 d.r).fields ++
        ((bytesField 4 d.s).fields ++ ((bytesField 5 d.m).fields ++ rest)))) :=
    fun d rest complete hb =>
      before d rest complete 1 (by omega) (begins_bytesField (by omega) hb).2
  have last : ∀ (d : SignatureData) {rest : List Field}, (∀ number, 4 ≤ number →
      ¬Begins number rest) → ¬Begins 4 ((bytesField 5 d.m).fields ++ rest) :=
    fun d rest ends hb => ends 4 (by omega) (begins_bytesField (by omega) hb).2
  rw [wire_fields_append, wire_fields_append] at h
  obtain ⟨hsignature, h⟩ := bytesField_append (first _ _ complete) (first _ _ complete') h
  obtain ⟨hrecovery, h⟩ := bytesField_append (before _ _ complete 2 (by omega))
    (before _ _ complete' 2 (by omega)) h
  obtain ⟨hr, h⟩ := bytesField_append (second _ _ complete) (second _ _ complete') h
  obtain ⟨hs, h⟩ := bytesField_append (last _ ends) (last _ ends') h
  obtain ⟨hm, h⟩ := bytesField_append (ends 5 (by omega)) (ends' 5 (by omega)) h
  refine ⟨?_, h⟩
  cases sig
  cases sig'
  simp_all

def EachComplete (signatures : Signatures) : Prop :=
  ∀ signature ∈ signatures, ∃ sig, signature = some sig ∧ Complete sig

theorem EachComplete.not_begins {signatures : Signatures} (each : EachComplete signatures)
    (number : Nat) (late : 4 ≤ number) : ¬Begins number (signatures.flatMap signatureFields) := by
  cases signatures with
  | nil => exact not_begins_nil number
  | cons signature rest =>
      obtain ⟨sig, rfl, complete⟩ := each _ List.mem_cons_self
      exact not_begins_wire complete late _

theorem EachComplete.cons_fields_ne {sig : SignatureData} (complete : Complete sig)
    (rest : Signatures) : (some sig :: rest).flatMap signatureFields ≠ [] := by
  intro hnil
  have hfields : sig.wire.fields ++ rest.flatMap signatureFields = [] := hnil
  rw [wire_fields_append] at hfields
  simp [bytesField, complete.1] at hfields

/-- Lists of signatures with one encoding are equal when no `R` or `S` is missing. -/
theorem eq_of_signatureFields_eq {signatures signatures' : Signatures}
    (each : EachComplete signatures) (each' : EachComplete signatures')
    (h : signatures.flatMap signatureFields = signatures'.flatMap signatureFields) :
    signatures = signatures' := by
  induction signatures generalizing signatures' with
  | nil =>
      cases signatures' with
      | nil => rfl
      | cons signature rest =>
          obtain ⟨sig, rfl, complete⟩ := each' _ List.mem_cons_self
          exact absurd h.symm (EachComplete.cons_fields_ne complete rest)
  | cons signature rest ih =>
      obtain ⟨sig, rfl, complete⟩ := each _ List.mem_cons_self
      have heach : EachComplete rest := fun x hx => each x (List.mem_cons_of_mem _ hx)
      cases signatures' with
      | nil => exact absurd h (EachComplete.cons_fields_ne complete rest)
      | cons signature' rest' =>
          obtain ⟨sig', rfl, complete'⟩ := each' _ List.mem_cons_self
          have heach' : EachComplete rest' := fun x hx => each' x (List.mem_cons_of_mem _ hx)
          obtain ⟨rfl, hrest⟩ := wire_append complete complete' heach.not_begins heach'.not_begins h
          rw [ih heach heach' hrest]

/-- `ecdsa.Verify` refuses a zero `R` or `S`. -/
theorem Verified.eachComplete {hashes : List Bytes} {signatures : Signatures}
    (nonzero : ∀ hash r s, ecdsaVerify hash r s = true → r ≠ 0 ∧ s ≠ 0)
    (h : Verified ecdsaVerify hashes signatures) : EachComplete signatures := by
  induction h with
  | nil =>
      intro signature hmem
      cases hmem
  | cons head _ ih =>
      intro signature hmem
      rcases List.mem_cons.mp hmem with rfl | hmem
      · obtain ⟨sig, hsig, hverified⟩ := head
        obtain ⟨hr, hs⟩ := nonzero _ _ _ hverified
        refine ⟨sig, hsig, fun hnil => hr ?_, fun hnil => hs ?_⟩
        · rw [hnil]
          rfl
        · rw [hnil]
          rfl
      · exact ih signature hmem

/-- For verified signatures `HashString` tells the lists apart. -/
theorem Verified.eq_of_hashString {c : Crypto} (free : c.CollisionFree)
    (digest : ∀ x, c.sha256 x ≠ []) {hashes hashes' : List Bytes}
    {signatures signatures' : Signatures}
    (nonzero : ∀ hash r s, ecdsaVerify hash r s = true → r ≠ 0 ∧ s ≠ 0)
    (h : Verified ecdsaVerify hashes signatures) (h' : Verified ecdsaVerify hashes' signatures')
    (same : (Payload.signatures signatures).hashString c =
      (Payload.signatures signatures').hashString c) : signatures = signatures' := by
  have hfields := (hashString_eq_iff free digest _ _).mp same
  by_cases hnil : signatures = []
  · by_cases hnil' : signatures' = []
    · rw [hnil, hnil']
    · rw [hnil, fields_signatures hnil'] at hfields
      cases hfields
  · by_cases hnil' : signatures' = []
    · rw [hnil', fields_signatures hnil] at hfields
      cases hfields
    · rw [fields_signatures hnil, fields_signatures hnil'] at hfields
      exact eq_of_signatureFields_eq (h.eachComplete nonzero) (h'.eachComplete nonzero)
        (Option.some.inj hfields)

end Verified

/-! ## The end of a session -/

namespace SigningProtocol

/-- `WaitFor` of the distributor has returned the signatures. -/
def Concluded (s : SessionWorld D T) (p : Address) (data : T) (signatures : Signatures) : Prop :=
  (s.phases p).stage = .finished data (.ok signatures)

/-- The mechanism of the party `p` lets only such data through. -/
def Judges (p : Address) (P : T → Prop) : Address × SessionAction D T → Prop
  | (q, .consensus action) => q = p → ∀ data, action.Admits data → P data
  | _ => True

section Results

variable [HasHashString T] [HasHashString SignStartData] [HasHashString Signatures] [DecidableEq T]
  {σ : SigningProtocol D T} {s : SessionWorld D T} {p q : Address} {data dataP dataQ : T}
  {signatures signaturesP signaturesQ : Signatures}

theorem judged {P : T → Prop} (reached : σ.machine.Reachable (fun _ label => Judges p P label) s)
    {data : T} (worked : (s.consensus p).pc.Data data) : P data := by
  induction reached generalizing data with
  | init start =>
      cases start
      simp only [Protocol.initial] at worked
      split at worked
      · exact worked.elim
      · cases worked
  | step before meets taken ih =>
      rename_i s s' label
      obtain ⟨a, act⟩ := label
      rcases step_cases taken with ⟨action, next, rfl, hnext, rfl⟩ | ⟨next, -, rfl⟩
      · by_cases hp : p = a
        · subst hp
          simp only [Function.update_self] at worked
          rcases (Protocol.moved_of_move hnext).data worked with hold | hadmits
          · exact ih hold
          · exact meets rfl data hadmits
        · simp only [Function.update_of_ne hp] at worked
          exact ih worked
      · exact ih worked

theorem Concluded.valid {allowed : SessionWorld D T → Address × SessionAction D T → Prop}
    (reached : σ.machine.Reachable allowed s) (h : Concluded s p data signatures) :
    Ended s p data ∧ Verified σ.ecdsaVerify (σ.hashes data) signatures ∧
      σ.Given p (s.distributions p) signatures := by
  have ok := ok_of_reachable reached p
  unfold Ok at ok
  rw [h] at ok
  obtain ⟨hended, hall⟩ := ok
  obtain ⟨hvalid, hgiven⟩ := hall signatures rfl
  exact ⟨hended, verified_of_validateSignatures hvalid, hgiven⟩

/-- Whoever leads, and whatever the mechanisms of the others do: a party that finishes has data
that its own mechanism let through, and signatures that verify for all their hashes. -/
theorem concluded_judged {P : T → Prop}
    (reached : σ.machine.Reachable (fun _ label => Judges p P label) s)
    (concluded : Concluded s p data signatures) :
    P data ∧ Verified σ.ecdsaVerify (σ.hashes data) signatures := by
  obtain ⟨⟨result, hpc, hagreed⟩, hverified, -⟩ := concluded.valid reached
  exact ⟨judged reached (hpc ▸ hagreed), hverified⟩

/-- What a party concludes with is what the honest leader proposed and distributed. -/
theorem Concluded.of_leader (honest : σ.setup.honest σ.setup.origin = true)
    (reached : σ.machine.Reachable σ.Unforged s) (h : Concluded s p data signatures) :
    Broadcasts (s.consensus σ.setup.origin).proposal (some data) ∧
      Broadcasts (s.distributions σ.setup.origin) (some signatures) := by
  obtain ⟨⟨result, hpc, hagreed⟩, -, hgiven⟩ := h.valid reached
  refine ⟨Protocol.proposed_of_agreed honest (consensus_reachable reached) hpc hagreed, ?_⟩
  rcases hgiven with ⟨rfl, hbroadcasts⟩ | ⟨-, m, hchecked, hvalue⟩
  · exact hbroadcasts
  · exact hvalue ▸ hchecked.broadcasts honest (distributions_reachable reached)

/-- With an honest leader all parties that finish have the same data and the same signatures. -/
theorem concluded_of_honest_leader (honest : σ.setup.honest σ.setup.origin = true)
    (reached : σ.machine.Reachable σ.Unforged s) (concludedP : Concluded s p dataP signaturesP)
    (concludedQ : Concluded s q dataQ signaturesQ) :
    dataP = dataQ ∧ signaturesP = signaturesQ ∧
      Verified σ.ecdsaVerify (σ.hashes dataP) signaturesP := by
  obtain ⟨hdataP, hsignaturesP⟩ := concludedP.of_leader honest reached
  obtain ⟨hdataQ, hsignaturesQ⟩ := concludedQ.of_leader honest reached
  exact ⟨Option.some.inj (hdataP.unique hdataQ), Option.some.inj (hsignaturesP.unique hsignaturesQ),
    (concludedP.valid reached).2.1⟩

/-- Whoever leads: two receivers that finish, and whose relays of the proposal and of the
signatures met, have data with one hash and the same signatures. -/
theorem concluded_agree {c : Crypto} (free : c.CollisionFree) (digest : ∀ x, c.sha256 x ≠ [])
    (hashed : ∀ signatures : Signatures,
      hashString signatures = (Payload.signatures signatures).hashString c)
    (nonzero : ∀ hash r s, σ.ecdsaVerify hash r s = true → r ≠ 0 ∧ s ≠ 0)
    (keys : σ.setup.KeysWork) (rounds : 2 ≤ σ.setup.relayRounds)
    (reached : σ.machine.Reachable σ.Unforged s) (hp : p ≠ σ.setup.origin)
    (hq : q ≠ σ.setup.origin) (concludedP : Concluded s p dataP signaturesP)
    (concludedQ : Concluded s q dataQ signaturesQ)
    (proposals : σ.setup.Exchanged s.consensus.proposals p q)
    (distributions : σ.setup.Exchanged s.distributions p q) :
    hashString dataP = hashString dataQ ∧ signaturesP = signaturesQ := by
  obtain ⟨⟨resultP, endedP, agreedP⟩, verifiedP, givenP⟩ := concludedP.valid reached
  obtain ⟨⟨resultQ, endedQ, agreedQ⟩, verifiedQ, givenQ⟩ := concludedQ.valid reached
  refine ⟨Protocol.hashString_of_agreed keys rounds (consensus_reachable reached) hp hq endedP
    endedQ agreedP agreedQ proposals, ?_⟩
  obtain ⟨-, mP, checkedP, valueP⟩ := givenP.resolve_left fun h => hp h.1
  obtain ⟨-, mQ, checkedQ, valueQ⟩ := givenQ.resolve_left fun h => hq h.1
  have hkey := distributions.valueKey_eq keys rounds (distributions_reachable reached) checkedP
    checkedQ
  rw [valueP, valueQ] at hkey
  refine verifiedP.eq_of_hashString free digest nonzero verifiedQ ?_
  rw [← hashed, ← hashed]
  exact hkey

end Results

/-! ## Sessions of three parties

Those of `Protocol.honestRun` and `Protocol.foreignRun`, signed and distributed. -/

section Sample

open Protocol

local instance : HasHashString SignStartData := sampleStartHashable

abbrev sampleSignaturesHashable : HasHashString Signatures :=
  ⟨fun signatures => (Payload.signatures signatures).hashString taggedCrypto⟩

local instance : HasHashString Signatures := sampleSignaturesHashable

section Sessions

variable {T : Type} [HasHashString T] (v : T) (signatures : Signatures)

/-- The data are `v`, and the leader distributes `signatures`. -/
def sampleSigning (hashes : T → List Bytes) (ecdsaVerify : Bytes → Nat → Nat → Bool)
    (origin : UInt8) (announced : List GoString) : SigningProtocol Bytes T where
  toProtocol := sampleProtocol v origin announced
  hashes := hashes
  ecdsaVerify := ecdsaVerify
  signatures := fun _ => .ok (sampleMessage signatures [origin])

def sampleInitial (origin : UInt8) : SessionWorld Bytes T :=
  ⟨(sampleProtocol v origin []).initial, fun _ => {}⟩

def distributed (p : Address) (origin : UInt8) (signers : List UInt8) (sender : Address) :
    Address × SessionAction Bytes T :=
  (p, .takes ⟨sampleMessage signatures (origin :: signers), sender⟩)

def honestSession (verify : T → Fallible Unit) : List (Address × SessionAction Bytes T) :=
  (honestRun v verify).map (fun label => (label.1, .consensus label.2)) ++
    [([1], .proceeds true), ([2], .proceeds true), ([1], .signed (some signatures)),
      ([2], .signed (some signatures)), ([1], .distributes),
      ([2], .receives ⟨[1], str "session", .signatureDistribution, []⟩),
      distributed signatures [2] 1 [] [1], distributed signatures [1] 1 [2] [2], ([2], .returns),
      ([1], .returns)]

/-- Party 3 leads; parties 1 and 2 relay its signatures to each other. -/
def foreignSession (verify : T → Fallible Unit) : List (Address × SessionAction Bytes T) :=
  let request : SubmitRequest Bytes := ⟨[3], str "session", .signatureDistribution, []⟩
  (foreignRun v verify).map (fun label => (label.1, .consensus label.2)) ++
    [([1], .proceeds true), ([2], .proceeds true), ([1], .signed (some signatures)),
      ([2], .signed (some signatures)), ([1], .receives request), ([2], .receives request),
      distributed signatures [1] 3 [] [3], distributed signatures [2] 3 [] [3],
      distributed signatures [1] 3 [2] [2], distributed signatures [2] 3 [1] [1],
      ([1], .returns), ([2], .returns)]

theorem honestSession_judges (p : Address) {P : T → Prop} {verify : T → Fallible Unit}
    (formed : P v) (sound : ∀ data, verify data = .ok () → P data) :
    ∀ label ∈ honestSession v signatures verify, Judges p P label := by
  have hadmits : ∀ label ∈ honestRun v verify, ∀ data, label.2.Admits data → P data := by
    intro label hmem data h
    simp only [honestRun, List.mem_cons, List.not_mem_nil, or_false] at hmem
    rcases hmem with rfl | rfl | rfl | rfl | rfl | rfl | rfl | rfl | rfl | rfl | rfl | rfl | rfl
    · cases h
      exact formed
    all_goals first
      | exact h.elim
      | exact sound data h
  intro label hmem
  rcases List.mem_append.mp hmem with hconsensus | hrest
  · obtain ⟨consensus, hlabel, rfl⟩ := List.mem_map.mp hconsensus
    exact fun _ => hadmits consensus hlabel
  · simp only [distributed, List.mem_cons, List.not_mem_nil, or_false] at hrest
    rcases hrest with rfl | rfl | rfl | rfl | rfl | rfl | rfl | rfl | rfl | rfl <;> trivial

def concludes [DecidableEq T] (s : SessionWorld Bytes T) (p : Address) : Bool :=
  match (s.phases p).stage with
  | .finished data (.ok held) => decide (data = v ∧ held = signatures)
  | _ => false

variable {v signatures} in
omit [HasHashString T] in
theorem concluded_of_concludes [DecidableEq T] {s : SessionWorld Bytes T} {p : Address}
    (h : concludes v signatures s p = true) : Concluded s p v signatures := by
  unfold concludes at h
  split at h
  · rename_i hstage
    obtain ⟨rfl, rfl⟩ := of_decide_eq_true h
    exact hstage
  · cases h

end Sessions

def sampleSignatures : Signatures :=
  [some (Party.sampleSignature (fitBytes 32 [1] ++ fitBytes 32 [2]) [0])]

/-- The session of the parties 1 and 2, or 1, 2 and 3, about `sampleData`. -/
abbrev sampleSession (origin : UInt8) (announced : List GoString) :
    SigningProtocol Bytes SamplePayload :=
  sampleSigning sampleData sampleSignatures (fun _ => [[7]]) Party.sampleVerify origin announced

theorem honestSession_concludes :
    ∃ s, (sampleSession 1 [[2], [1]]).machine.exec (sampleSession 1 [[2], [1]]).Unforged
        (sampleInitial sampleData 1) (honestSession sampleData sampleSignatures sampleVerify) =
          some s ∧
      Concluded s [1] sampleData sampleSignatures ∧
      Concluded s [2] sampleData sampleSignatures := by
  have hrun : ((sampleSession 1 [[2], [1]]).machine.exec (sampleSession 1 [[2], [1]]).Unforged
      (sampleInitial sampleData 1) (honestSession sampleData sampleSignatures sampleVerify)).map
        (fun s => concludes sampleData sampleSignatures s [1] &&
          concludes sampleData sampleSignatures s [2]) = some true := by
    decide +kernel
  obtain ⟨s, hs, hboth⟩ := Option.map_eq_some_iff.mp hrun
  rw [Bool.and_eq_true] at hboth
  exact ⟨s, hs, concluded_of_concludes hboth.1, concluded_of_concludes hboth.2⟩

theorem concluded_of_honest_leader_pair :
    ∃ s, (sampleSession 1 [[2], [1]]).machine.Reachable (sampleSession 1 [[2], [1]]).Unforged s ∧
      ∃ dataP dataQ signaturesP signaturesQ, Concluded s [1] dataP signaturesP ∧
        Concluded s [2] dataQ signaturesQ ∧ dataP = dataQ ∧ signaturesP = signaturesQ := by
  obtain ⟨s, hs, concludedP, concludedQ⟩ := honestSession_concludes
  have reached : (sampleSession 1 [[2], [1]]).machine.Reachable
      (sampleSession 1 [[2], [1]]).Unforged s := Machine.Reachable.exec (.init rfl) hs
  obtain ⟨hdata, hsignatures, -⟩ :=
    concluded_of_honest_leader (by decide) reached concludedP concludedQ
  exact ⟨s, reached, _, _, _, _, concludedP, concludedQ, hdata, hsignatures⟩

theorem concluded_judged_honest :
    ∃ s, (sampleSession 1 [[2], [1]]).machine.Reachable
        (fun _ label => Judges [2] (fun data => data = sampleData) label) s ∧
      ∃ data signatures, Concluded s [2] data signatures ∧ data = sampleData ∧
        Verified Party.sampleVerify [[7]] signatures := by
  obtain ⟨s, hs, -, concluded⟩ := honestSession_concludes
  have hverify : ∀ data, sampleVerify data = .ok () → data = sampleData := by
    intro data h
    unfold sampleVerify at h
    split at h
    · assumption
    · cases h
  have hjudges := honestSession_judges (P := fun data => data = sampleData) sampleData
    sampleSignatures [2] rfl hverify
  have reached : (sampleSession 1 [[2], [1]]).machine.Reachable
      (fun _ label => Judges [2] (fun data => data = sampleData) label) s :=
    Machine.Reachable.exec_of_mem (.init rfl) (fun label hmem _ => hjudges label hmem) hs
  obtain ⟨hdata, hverified⟩ := concluded_judged reached concluded
  exact ⟨s, reached, _, _, concluded, hdata, hverified⟩

theorem concluded_agree_foreign :
    ∃ s, (sampleSession 3 [[1], [2]]).machine.Reachable (sampleSession 3 [[1], [2]]).Unforged s ∧
      ∃ dataP dataQ signaturesP signaturesQ, Concluded s [1] dataP signaturesP ∧
        Concluded s [2] dataQ signaturesQ ∧ hashString dataP = hashString dataQ ∧
        signaturesP = signaturesQ := by
  have hrun : (((sampleSession 3 [[1], [2]]).machine.exec (sampleSession 3 [[1], [2]]).Unforged
      (sampleInitial sampleData 3)
      (foreignSession sampleData sampleSignatures sampleVerify)).bind fun s =>
        (s.consensus.proposals [1]).bind fun proposalP =>
        (s.consensus.proposals [2]).bind fun proposalQ =>
        (s.distributions [1]).bind fun nodeP => (s.distributions [2]).map fun nodeQ =>
          decide (concludes sampleData sampleSignatures s [1] = true ∧
            concludes sampleData sampleSignatures s [2] = true ∧
            Met ⟨sampleMessage sampleData [3], [3]⟩ [1] proposalP proposalQ ∧
            Met ⟨sampleMessage sampleSignatures [3], [3]⟩ [1] nodeP nodeQ)) = some true := by
    decide +kernel
  obtain ⟨s, hs, hrun⟩ := Option.bind_eq_some_iff.mp hrun
  obtain ⟨proposalP, hproposalP, hrun⟩ := Option.bind_eq_some_iff.mp hrun
  obtain ⟨proposalQ, hproposalQ, hrun⟩ := Option.bind_eq_some_iff.mp hrun
  obtain ⟨nodeP, hnodeP, hrun⟩ := Option.bind_eq_some_iff.mp hrun
  obtain ⟨nodeQ, hnodeQ, hrun⟩ := Option.map_eq_some_iff.mp hrun
  obtain ⟨hp, hq, metProposal, metSignatures⟩ := of_decide_eq_true hrun
  have reached : (sampleSession 3 [[1], [2]]).machine.Reachable
      (sampleSession 3 [[1], [2]]).Unforged s := Machine.Reachable.exec (.init rfl) hs
  have nonzero : ∀ hash r s, Party.sampleVerify hash r s = true → r ≠ 0 ∧ s ≠ 0 := by
    intro hash r s h
    obtain ⟨-, rfl, rfl⟩ := of_decide_eq_true h
    decide
  obtain ⟨hdata, hsignatures⟩ := concluded_agree
    taggedCrypto_collisionFree (fun x => List.cons_ne_nil 0 x) (fun _ => rfl) nonzero
    (sampleSetup_keysWork _ _ _ _) (by decide) reached (by decide) (by decide)
    (concluded_of_concludes hp) (concluded_of_concludes hq)
    (metProposal.exchanged hproposalP hproposalQ
      ⟨rfl, ⟨rfl, rfl, rfl, by decide, by decide, by decide⟩⟩)
    (metSignatures.exchanged hnodeP hnodeQ
      ⟨rfl, ⟨rfl, rfl, rfl, by decide +kernel, by decide +kernel, by decide +kernel⟩⟩)
  exact ⟨s, reached, _, _, _, _, concluded_of_concludes hp, concluded_of_concludes hq, hdata,
    hsignatures⟩

end Sample

end SigningProtocol

end TssSvc.Session
