import TssSvc.Lib.Quorum
import TssSvc.Party.Final

/-!
# One signing session per deposit and chain

A party moves the row of a deposit out of `PENDING` before it signs and nothing moves it back,
so the sessions of one chain take it up in one session at most.  Two sessions that produce
signatures have an honest signer in common.
-/

set_option autoImplicit false

namespace TssSvc.Party

open TssSvc.Db

/-! ## Rows that have left `PENDING` -/

def Left (t : Table) (id : DepositIdentifier) : Prop :=
  ∃ status, t.statusOf id = some status ∧ status ≠ .pending

theorem TableOp.written_ne_pending {op : TableOp} {w : StatusWrite}
    (h : op.statusWrite = some w) : w.written ≠ .pending := by
  cases op <;> cases h <;> nofun

theorem Left.apply {t : Table} {id : DepositIdentifier} (h : Left t id) (op : TableOp) :
    Left (op.apply t) id := by
  obtain ⟨status, held, hne⟩ := h
  refine ⟨_, op.statusOf_apply held, ?_⟩
  simp only [TableOp.statusAfter]
  split
  · rename_i w hw
    split
    · exact TableOp.written_ne_pending hw
    · exact hne
  · exact hne

theorem Left.isSome {t : Table} {id : DepositIdentifier} (h : Left t id) :
    (t.statusOf id).isSome := by
  obtain ⟨status, held, -⟩ := h
  rw [held]
  rfl

theorem isSome_apply {t : Table} {id : DepositIdentifier} (h : (t.statusOf id).isSome)
    (op : TableOp) : ((op.apply t).statusOf id).isSome := by
  obtain ⟨status, held⟩ := Option.isSome_iff_exists.mp h
  rw [op.statusOf_apply held]
  rfl

theorem left_markProcessing {t : Table} {id : DepositIdentifier} (h : (t.statusOf id).isSome) :
    Left ((TableOp.markProcessing id).apply t) id := by
  obtain ⟨status, held⟩ := Option.isSome_iff_exists.mp h
  refine ⟨_, TableOp.statusOf_apply _ held, ?_⟩
  simp [TableOp.statusAfter, TableOp.statusWrite]

/-- Whether the row is inserted or refused, it is there afterwards. -/
theorem isSome_insert (t : Table) (row : Deposit) :
    (((TableOp.insert row).apply t).statusOf row.identifier).isSome := by
  simp only [TableOp.apply, Table.insert]
  cases hins : t.insertRow { row with
      withdrawalTxHash := none, signature := none, txData := none, submitted := false } with
  | ok next => simp [inserted, Table.statusOf, Table.get_insertRow hins]
  | error e =>
      simp only [inserted, Table.statusOf, Option.isSome_map]
      rw [Option.isSome_iff_ne_none]
      intro hnone
      simp [Table.insertRow, Table.get_eq_none_iff.mp hnone] at hins

/-! ## The invariant of one party -/

def Unsigned (signed : List SignRun) (chainId : GoString) (id : DepositIdentifier) : Prop :=
  ∀ run ∈ signed, run.chainId = chainId → run.id ≠ id

/-- Sessions of the chain have signed the deposit in the given session only. -/
def SignedOnlyIn (signed : List SignRun) (chainId : GoString) (id : DepositIdentifier)
    (session : Nat) : Prop :=
  ∀ run ∈ signed, run.chainId = chainId → run.id = id → run.session = session

/-- What a session relies on where it stands. -/
def ChainOk (signed : List SignRun) (t : Table) (chainId : GoString) (cs : ChainState) : Prop :=
  match cs.pc with
  | .verifying id => Unsigned signed chainId id
  | .proposed id | .agreed id _ => (t.statusOf id).isSome ∧ Unsigned signed chainId id
  | .signing id | .running id => Left t id ∧ SignedOnlyIn signed chainId id cs.session
  | .idle | .distributing _ | .finalizing _ _ | .failing _ => True

structure SigningOk (s : State) : Prop where
  left : ∀ run ∈ s.control.signed, Left s.table run.id
  chain : ∀ chainId, ChainOk s.control.signed s.table chainId (s.control.chains chainId)
  once : ∀ run ∈ s.control.signed, SignedOnlyIn s.control.signed run.chainId run.id run.session

theorem Unsigned.signedOnlyIn {signed : List SignRun} {chainId : GoString}
    {id : DepositIdentifier} (h : Unsigned signed chainId id) (session : Nat) :
    SignedOnlyIn signed chainId id session := by
  intro run hrun hchain hid
  exact absurd hid (h run hrun hchain)

/-- A deposit whose row is missing or pending has not been signed. -/
theorem unsigned_of_not_left {signed : List SignRun} {t : Table} {id : DepositIdentifier}
    (left : ∀ run ∈ signed, Left t run.id) (h : ¬ Left t id) (chainId : GoString) :
    Unsigned signed chainId id := by
  intro run hrun _ hid
  rw [← hid] at h
  exact h (left run hrun)

theorem not_left_of_get_none {t : Table} {id : DepositIdentifier} (h : t.get id = none) :
    ¬ Left t id := by
  intro hleft
  have hsome := hleft.isSome
  simp [Table.statusOf, h] at hsome

theorem not_left_of_pending {t : Table} {id : DepositIdentifier}
    (h : t.statusOf id = some .pending) : ¬ Left t id := by
  rintro ⟨status, held, hne⟩
  rw [h, Option.some.injEq] at held
  exact hne held.symm

theorem nextPending_statusOf {t : Table} {chainId : GoString} {row : Deposit}
    (h : t.nextPending chainId = some row) : t.statusOf row.identifier = some .pending := by
  have hmatch := List.find?_some h
  have hget : t.get row.identifier = some row :=
    Table.get_eq_some_iff.mpr ⟨List.mem_of_find?_eq_some h, rfl⟩
  simp only [Table.statusOf, hget, Option.map_some]
  exact congrArg some (of_decide_eq_true hmatch).2.1

/-- A session relies on nothing that the steps of others take away. -/
theorem ChainOk.frame {signed new : List SignRun} {t : Table} {chainId : GoString}
    {cs : ChainState} (h : ChainOk signed t chainId cs) (op : TableOp)
    (foreign : ∀ run ∈ new, run.chainId ≠ chainId) :
    ChainOk (signed ++ new) (op.apply t) chainId cs := by
  have hunsigned : ∀ id, Unsigned signed chainId id → Unsigned (signed ++ new) chainId id := by
    intro id hid run hrun hchain
    rcases List.mem_append.mp hrun with hold | hnew
    · exact hid run hold hchain
    · exact absurd hchain (foreign run hnew)
  have honly : ∀ id k, SignedOnlyIn signed chainId id k →
      SignedOnlyIn (signed ++ new) chainId id k := by
    intro id k hid run hrun hchain
    rcases List.mem_append.mp hrun with hold | hnew
    · exact hid run hold hchain
    · exact absurd hchain (foreign run hnew)
  obtain ⟨pc, session⟩ := cs
  cases pc with
  | verifying id => exact hunsigned id h
  | proposed id => exact ⟨isSome_apply h.1 op, hunsigned id h.2⟩
  | agreed id signer => exact ⟨isSome_apply h.1 op, hunsigned id h.2⟩
  | signing id => exact ⟨h.1.apply op, honly id session h.2⟩
  | running id => exact ⟨h.1.apply op, honly id session h.2⟩
  | idle => exact trivial
  | distributing id => exact trivial
  | finalizing id finalizer => exact trivial
  | failing id => exact trivial

/-- What a step of the chain's own session establishes: it runs `SignParty` on a deposit that has
left `PENDING` and that no other session has signed. -/
structure MoveOk (signed : List SignRun) (t : Table) (chainId : GoString) (cs : ChainState)
    (m : SessionMove) : Prop where
  next : ChainOk (signed ++ m.ran.map fun id => ⟨chainId, cs.session, id⟩) (m.op.apply t) chainId
    m.next
  ran : ∀ id ∈ m.ran, Left t id ∧ SignedOnlyIn signed chainId id cs.session

section SessionMove

variable {signed : List SignRun} {t : Table} {chainId : GoString} {cs : ChainState}

theorem MoveOk.quiet {op : TableOp} {next : ChainState} {orphaned : List Orphan}
    (h : ChainOk signed (op.apply t) chainId next) :
    MoveOk signed t chainId cs { op := op, next := next, orphaned := orphaned } := by
  refine ⟨?_, ?_⟩
  · simpa using h
  · intro id hid
    cases hid

theorem MoveOk.finish {op : TableOp} : MoveOk signed t chainId cs { op := op, next := cs.finish } :=
  .quiet trivial

theorem signedRound_ok {kind : SessionKind} {id : DepositIdentifier} {result : SignResult}
    {m : SessionMove} (left : Left t id) (only : SignedOnlyIn signed chainId id cs.session)
    (h : signedRound kind cs id result = some m) : MoveOk signed t chainId cs m := by
  cases result with
  | signature =>
      cases h
      exact .quiet trivial
  | nextRound =>
      simp only [signedRound, Option.ite_none_right_eq_some, Option.some.injEq] at h
      obtain ⟨-, rfl⟩ := h
      exact .quiet ⟨left, only⟩
  | cancelled =>
      simp only [signedRound, Option.ite_none_right_eq_some, Option.some.injEq] at h
      obtain ⟨-, rfl⟩ := h
      exact .finish
  | failed =>
      cases h
      apply MoveOk.quiet
      split <;> exact trivial

/-- A pending deposit can be taken up. -/
theorem chainOk_proposed {id : DepositIdentifier} (left : ∀ run ∈ signed, Left t run.id)
    (pending : t.statusOf id = some .pending) :
    ChainOk signed t chainId (cs.goto (.proposed id)) := by
  refine ⟨?_, unsigned_of_not_left left (not_left_of_pending pending) chainId⟩
  rw [pending]
  rfl

section Labels

variable {kind : SessionKind} {m : SessionMove}

theorem formProposal_ok (left : ∀ run ∈ signed, Left t run.id)
    (h : sessionMove kind chainId t cs .formProposal = some m) : MoveOk signed t chainId cs m := by
  simp only [sessionMove] at h
  split at h
  · rename_i row _ hpending
    cases h
    exact .quiet (chainOk_proposed left (nextPending_statusOf hpending))
  · cases h

theorem verifyGet_ok {id : DepositIdentifier} {isValid : Bool}
    (left : ∀ run ∈ signed, Left t run.id)
    (h : sessionMove kind chainId t cs (.verifyGet id isValid) = some m) :
    MoveOk signed t chainId cs m := by
  simp only [sessionMove] at h
  split at h
  · rename_i hnone
    cases h
    exact .quiet (unsigned_of_not_left left (not_left_of_get_none hnone) chainId)
  · rename_i row _ hrow
    cases h
    apply MoveOk.quiet
    split
    · rename_i hpending
      apply chainOk_proposed left
      rw [Table.statusOf, hrow, Option.map_some, hpending.1]
    · exact trivial
  · cases h

theorem verifyInsert_ok {fetched : Option Deposit} {faulted isValid : Bool}
    (chain : ChainOk signed t chainId cs)
    (h : sessionMove kind chainId t cs (.verifyInsert fetched faulted isValid) = some m) :
    MoveOk signed t chainId cs m := by
  obtain ⟨pc, session⟩ := cs
  simp only [sessionMove] at h
  split at h
  · cases h
    exact .finish
  · rename_i id deposit
    split at h
    · rename_i hdeposit
      obtain ⟨hid, -⟩ := hdeposit
      split at h
      · cases h
        exact .finish
      · cases h
        apply MoveOk.quiet
        split
        · refine ⟨?_, chain⟩
          rw [← hid]
          exact isSome_insert t { deposit with distributed := true }
        · exact trivial
    · cases h
  · cases h

theorem markProcessing_ok {ok : Bool} (chain : ChainOk signed t chainId cs)
    (h : sessionMove kind chainId t cs (.markProcessing ok) = some m) :
    MoveOk signed t chainId cs m := by
  obtain ⟨pc, session⟩ := cs
  simp only [sessionMove] at h
  split at h
  · split at h
    · cases h
      apply MoveOk.quiet
      split
      · exact ⟨left_markProcessing chain.1, chain.2.signedOnlyIn _⟩
      · exact trivial
    · cases h
      exact .finish
  · cases h

theorem runSignParty_ok (chain : ChainOk signed t chainId cs)
    (h : sessionMove kind chainId t cs .runSignParty = some m) : MoveOk signed t chainId cs m := by
  obtain ⟨pc, session⟩ := cs
  simp only [sessionMove] at h
  split at h
  · rename_i id
    cases h
    refine ⟨⟨chain.1, ?_⟩, ?_⟩
    · intro run hrun hchain hid
      rcases List.mem_append.mp hrun with hold | hnew
      · exact chain.2 run hold hchain hid
      · rw [List.map_singleton, List.mem_singleton] at hnew
        rw [hnew]
        rfl
    · intro id' hid'
      rw [List.mem_singleton] at hid'
      rw [hid']
      exact chain
  · cases h

end Labels

theorem sessionMove_ok {kind : SessionKind} {label : SessionLabel} {m : SessionMove}
    (left : ∀ run ∈ signed, Left t run.id) (chain : ChainOk signed t chainId cs)
    (h : sessionMove kind chainId t cs label = some m) : MoveOk signed t chainId cs m := by
  cases label with
  | formProposal => exact formProposal_ok left h
  | verifyGet id isValid => exact verifyGet_ok left h
  | verifyInsert fetched faulted isValid => exact verifyInsert_ok chain h
  | markProcessing ok => exact markProcessing_ok chain h
  | runSignParty => exact runSignParty_ok chain h
  | skip =>
      simp only [sessionMove, Option.ite_none_right_eq_some, Option.some.injEq] at h
      obtain ⟨-, rfl⟩ := h
      exact .finish
  | consensus outcome =>
      obtain ⟨pc, session⟩ := cs
      simp only [sessionMove] at h
      split at h
      · cases h
        exact .finish
      · cases h
        exact .quiet chain
      · cases h
  | signResult result =>
      obtain ⟨pc, session⟩ := cs
      simp only [sessionMove] at h
      split at h
      · exact signedRound_ok chain.1 chain.2 h
      · cases h
  | distribution ok =>
      simp only [sessionMove] at h
      split at h
      · cases h
        apply MoveOk.quiet
        cases ok <;> exact trivial
      · cases h
  | finalizer label =>
      simp only [sessionMove] at h
      split at h
      · obtain ⟨step, -, rfl⟩ := Option.map_eq_some_iff.mp h
        exact .quiet trivial
      · cases h
  | finalizeResult =>
      simp only [sessionMove] at h
      split at h
      · cases h
        apply MoveOk.quiet
        split <;> exact trivial
      · cases h
  | finalizeTimeout =>
      simp only [sessionMove] at h
      split at h
      · cases h
        exact .quiet trivial
      · cases h
  | markFailed ok =>
      simp only [sessionMove] at h
      split at h
      · cases h
        exact .finish
      · cases h

end SessionMove

theorem SigningOk.other {s : State} (h : SigningOk s) (op : TableOp) {control : Control}
    (chains : ∀ chainId, control.chains chainId = s.control.chains chainId ∨
      (control.chains chainId).pc = .idle)
    (signed : control.signed = s.control.signed) : SigningOk ⟨op.apply s.table, control⟩ := by
  refine ⟨?_, ?_, ?_⟩
  · intro run hrun
    rw [signed] at hrun
    exact (h.left run hrun).apply op
  · intro chainId
    simp only [signed]
    rcases chains chainId with hsame | hidle
    · rw [hsame]
      have hnone : ∀ run ∈ ([] : List SignRun), run.chainId ≠ chainId := by
        intro run hrun
        cases hrun
      have hframe := (h.chain chainId).frame op hnone
      simpa using hframe
    · simp only [ChainOk, hidle]
  · simp only [signed]
    exact h.once

theorem SigningOk.session {s : State} (h : SigningOk s) {kind : SessionKind}
    {chainId : GoString} {label : SessionLabel} {m : SessionMove} {control : Control}
    (moved : sessionMove kind chainId s.table (s.control.chains chainId) label = some m)
    (chains : control.chains = Function.update s.control.chains chainId m.next)
    (signed : control.signed = s.control.signed ++
      m.ran.map fun id => ⟨chainId, (s.control.chains chainId).session, id⟩) :
    SigningOk ⟨m.op.apply s.table, control⟩ := by
  obtain ⟨hnext, hran⟩ := sessionMove_ok h.left (h.chain chainId) moved
  -- a new run agrees with the runs before it and with the other new ones
  have hnew : ∀ id ∈ m.ran, SignedOnlyIn control.signed chainId id
      (s.control.chains chainId).session := by
    intro id hid run hrun hchain hrunId
    rw [signed] at hrun
    rcases List.mem_append.mp hrun with hold | hadded
    · exact (hran id hid).2 run hold hchain hrunId
    · obtain ⟨_, -, rfl⟩ := List.mem_map.mp hadded
      rfl
  refine ⟨?_, ?_, ?_⟩
  · intro run hrun
    simp only [signed] at hrun
    rcases List.mem_append.mp hrun with hold | hadded
    · exact (h.left run hold).apply m.op
    · obtain ⟨id, hid, rfl⟩ := List.mem_map.mp hadded
      exact (hran id hid).1.apply m.op
  · intro other
    simp only [signed, chains]
    by_cases hother : other = chainId
    · subst hother
      rw [Function.update_self]
      exact hnext
    · rw [Function.update_of_ne hother]
      apply (h.chain other).frame m.op
      intro run hrun hchain
      obtain ⟨id, -, rfl⟩ := List.mem_map.mp hrun
      exact hother hchain.symm
  · intro run hrun
    have hrun' := hrun
    simp only [signed] at hrun'
    rcases List.mem_append.mp hrun' with hold | hadded
    · intro run' hmem hchain hid
      simp only [signed] at hmem
      rcases List.mem_append.mp hmem with hold' | hadded'
      · exact h.once run hold run' hold' hchain hid
      · obtain ⟨id, hran', rfl⟩ := List.mem_map.mp hadded'
        exact ((hran id hran').2 run hold hchain.symm hid.symm).symm
    · obtain ⟨id, hid, rfl⟩ := List.mem_map.mp hadded
      exact hnew id hid

theorem step_signingOk {kinds : GoString → Option SessionKind} {s s' : State} {label : Label}
    (h : SigningOk s) (taken : step kinds s label = some s') : SigningOk s' := by
  obtain ⟨⟨op, control⟩, hmove, rfl⟩ := Option.map_eq_some_iff.mp taken
  cases label with
  | session chainId label =>
      obtain ⟨kind, -, hmoved⟩ := Option.bind_eq_some_iff.mp hmove
      obtain ⟨m, hm, heq⟩ := Option.map_eq_some_iff.mp hmoved
      cases heq
      exact h.session hm rfl rfl
  | orphan orphan label =>
      simp only [move, Option.ite_none_right_eq_some] at hmove
      obtain ⟨step, -, heq⟩ := Option.map_eq_some_iff.mp hmove.2
      cases heq
      exact h.other _ (fun _ => Or.inl rfl) rfl
  | subscriber label =>
      obtain ⟨step, -, heq⟩ := Option.map_eq_some_iff.mp hmove
      cases heq
      exact h.other _ (fun _ => Or.inl rfl) rfl
  | admission row =>
      simp only [move, Option.ite_none_right_eq_some, Option.some.injEq] at hmove
      obtain ⟨-, heq⟩ := hmove
      cases heq
      exact h.other _ (fun _ => Or.inl rfl) rfl
  | setDistributed id =>
      cases hmove
      exact h.other _ (fun _ => Or.inl rfl) rfl
  | setSubmitted id =>
      cases hmove
      exact h.other _ (fun _ => Or.inl rfl) rfl
  | restart sessions =>
      cases hmove
      exact h.other _ (fun _ => Or.inr rfl) rfl

theorem reaches_signingOk {kinds : GoString → Option SessionKind} {s : State}
    (reached : (machine kinds).Reaches s) : SigningOk s := by
  apply reached.invariant
  · intro s start
    obtain ⟨-, hidle, -, -, hsigned⟩ := start
    refine ⟨?_, ?_, ?_⟩
    · simp [hsigned]
    · intro chainId
      simp only [ChainOk, hidle]
    · simp [hsigned]
  · intro s label s' _ hok _ taken
    exact step_signingOk hok taken

/-! ## The network -/

/-- The parties of the group, the malicious ones among them, and each party's chain sessions. -/
structure Network (P : Type) where
  parties : Finset P
  malicious : Finset P
  threshold : Nat
  kinds : P → GoString → Option SessionKind

section Network

variable {P : Type} [DecidableEq P] (net : Network P)

/-- Every party with its own table, in any interleaving.  What the malicious ones send is part of
the labels of the others, whose outcomes are free; their own states are not looked at. -/
def Network.machine : Machine (P → State) (P × Label) :=
  Machine.product fun p => Party.machine (net.kinds p)

/-- `threshold + 1` parties of the group ran `SignParty` on the session's data; malicious ones
can always have. -/
def Network.Produced (s : P → State) (run : SignRun) : Prop :=
  ∃ signers ⊆ net.parties, net.threshold + 1 ≤ signers.card ∧
    ∀ p ∈ signers, p ∈ net.malicious ∨ run ∈ (s p).control.signed

/-- No two sessions of a chain produce a signature for one deposit. -/
theorem one_session_signs (quorum : net.parties.card + net.malicious.card < 2 * (net.threshold + 1))
    {s : P → State} (reached : net.machine.Reaches s) {chainId : GoString}
    {id : DepositIdentifier} {session session' : Nat}
    (first : net.Produced s ⟨chainId, session, id⟩)
    (second : net.Produced s ⟨chainId, session', id⟩) : session = session' := by
  obtain ⟨A, hA, hcardA, hsignedA⟩ := first
  obtain ⟨B, hB, hcardB, hsignedB⟩ := second
  obtain ⟨p, hpA, hpB, hhonest⟩ : ∃ p ∈ A, p ∈ B ∧ p ∉ net.malicious :=
    Quorum.exists_correct_mem_inter hA hB (by omega)
  have hrun := (hsignedA p hpA).resolve_left hhonest
  have hrun' := (hsignedB p hpB).resolve_left hhonest
  have hok := reaches_signingOk (Machine.Reaches.component reached p)
  exact hok.once _ hrun' _ hrun rfl rfl

end Network

/-! ## A leader and an acceptor sign -/

def twoParties : Network (Fin 2) where
  parties := Finset.univ
  malicious := ∅
  threshold := 1
  kinds := fun _ => utxoOnly

/-- The acceptor fetches the deposit the leader proposes; the leader restarts and skips a session
afterwards. -/
def bothSign : List (Fin 2 × Label) :=
  [(0, .admission samplePending), (0, .session (str "0") .formProposal),
    (1, .session (str "0") (.verifyGet sampleId true)),
    (1, .session (str "0") (.verifyInsert (some samplePending) false true)),
    (0, .session (str "0") (.consensus (some true))),
    (1, .session (str "0") (.consensus (some true))),
    (1, .session (str "0") (.markProcessing true)),
    (0, .session (str "0") (.markProcessing true)),
    (0, .session (str "0") .runSignParty), (1, .session (str "0") .runSignParty),
    (0, .restart fun _ => 1), (0, .session (str "0") .skip)]

theorem one_session_signs_twoParties :
    ∃ s, twoParties.machine.Reaches s ∧ twoParties.Produced s ⟨str "0", 0, sampleId⟩ ∧
      ∀ session, twoParties.Produced s ⟨str "0", session, sampleId⟩ → session = 0 := by
  have hrun : (twoParties.machine.exec (fun _ _ => True) (fun _ => fresh) bothSign).map
      (fun s => ((s 0).control.signed, (s 1).control.signed)) =
      some ([⟨str "0", 0, sampleId⟩], [⟨str "0", 0, sampleId⟩]) := by
    decide +kernel
  obtain ⟨s, hs, hsigned⟩ := Option.map_eq_some_iff.mp hrun
  obtain ⟨hleader, hacceptor⟩ := Prod.mk.inj hsigned
  have hreached : twoParties.machine.Reaches s :=
    (Machine.Reachable.init fun _ => fresh_init _).exec hs
  have hproduced : twoParties.Produced s ⟨str "0", 0, sampleId⟩ := by
    refine ⟨Finset.univ, Finset.Subset.refl _, by decide, ?_⟩
    intro p _
    right
    match p with
    | 0 => simp [hleader]
    | 1 => simp [hacceptor]
  refine ⟨s, hreached, hproduced, ?_⟩
  intro session hother
  exact one_session_signs twoParties (by decide) hreached hother hproduced

end TssSvc.Party
