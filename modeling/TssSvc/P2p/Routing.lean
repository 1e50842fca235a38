import TssSvc.P2p.Wedge

/-!
# The consensus a request is handed to

A UTXO session has two consensus parties and runs one of them.  Which one it runs is stored when
the start time has passed (`choose`), and `Receive` reads the same flag from the moment the parties
are built on: until then it has the value of the session before.  The store takes no lock, so it can
also come between the read of a call and its send.
-/

set_option autoImplicit false

namespace TssSvc.P2p

open TssSvc.Party (SessionKind)

/-- The session has stored which consensus it runs. -/
def Pc.chosen : Pc → Bool
  | waiting | starting | choosing => false
  | _ => true

def Part.all : List Part := [.msgs, .proposal, .signStart]

theorem mem_partAll (part : Part) : part ∈ Part.all := by
  cases part <;> decide

section Routing

variable {ι : Type} [DecidableEq ι] {kinds : ι → SessionKind} {s s' : Node ι}

/-- Nothing has come into the consensus that the flag of the session names, and no call is about
to send to it. -/
def Untouched (s : Node ι) (i : ι) : Prop :=
  ∀ part ∈ Part.all,
    (s.sessions i).buffered (.consensus (s.sessions i).consolidating part) = 0 ∧
      (⟨i, .sending (.consensus (s.sessions i).consolidating part)⟩ : Call ι) ∉ s.calls

instance Untouched.decidable (s : Node ι) (i : ι) : Decidable (Untouched s i) :=
  inferInstanceAs (Decidable (∀ part ∈ Part.all, _ = _ ∧ _ ∉ _))

/-- A session changes the flag only when no request has been handed over under the old one. -/
def Settled (s : Node ι) : Label ι → Prop
  | .choose i consolidating => consolidating = (s.sessions i).consolidating ∨ Untouched s i
  | _ => True

instance Settled.decidable (s : Node ι) : ∀ label, Decidable (Settled s label)
  | .choose i consolidating => inferInstanceAs
      (Decidable (consolidating = (s.sessions i).consolidating ∨ Untouched s i))
  | .enter _ _ | .deliver _ | .send _ | .consume _ | .take _ | .advance _ _ | .changeId _
  | .build _ _ => inferInstanceAs (Decidable True)

/-- The step leaves the session with its components. -/
def staysIn (i : ι) : Label ι → Bool
  | .build j _ => decide (j ≠ i)
  | _ => true

/-- The call has been handed to the party behind the channel: it goes on to its send, and the send
puts the request there. -/
structure Handed (kinds : ι → SessionKind) (s s' : Node ι) (call : Call ι) (ch : Chan) : Prop where
  calls : s'.calls = s.calls.erase call ++ [⟨call.chain, .sending ch⟩]
  puts : ∀ t t', step kinds t (.send ⟨call.chain, .sending ch⟩) = some t' →
    t'.sessions call.chain = (t.sessions call.chain).put ch

/-! ## What a delivered request leaves behind -/

/-- Until the session chooses, a request stays on its way to the consensus it was handed to, or in
the channel of it. -/
structure Routed (consolidating : Bool) (part : Part) (i : ι) (s : Node ι) : Prop where
  flag : (s.sessions i).consolidating = consolidating
  kept : (s.sessions i).pc.chosen = false →
    0 < (s.sessions i).buffered (.consensus consolidating part) ∨
      (⟨i, .sending (.consensus consolidating part)⟩ : Call ι) ∈ s.calls

theorem put_buffered_pos (st : SessionState) (ch : Chan) : 0 < (st.put ch).buffered ch := by
  simp [SessionState.put]

theorem buffered_put_le (st : SessionState) (ch ch' : Chan) :
    st.buffered ch' ≤ (st.put ch).buffered ch' := by
  by_cases hch : ch' = ch
  · simp [SessionState.put, hch]
  · simp [SessionState.put, Function.update_of_ne hch]

/-- The channels of a consensus are not closed. -/
theorem put_of_send {i : ι} {consolidating : Bool} {part : Part}
    (taken : step kinds s (.send ⟨i, .sending (.consensus consolidating part)⟩) = some s') :
    s'.sessions i = (s.sessions i).put (.consensus consolidating part) := by
  cases stepped_of_step taken with
  | sent _ _ here room => exact Function.update_self i _ s.sessions

theorem handed_of_deliver {i : ι} {part : Part} (built : (s.sessions i).pc ≠ .stale)
    (taken : step kinds s (.deliver ⟨i, .entering (.consensus part)⟩) = some s') :
    Handed kinds s s' ⟨i, .entering (.consensus part)⟩
        (.consensus (s.sessions i).consolidating part) ∧
      Routed (s.sessions i).consolidating part i s' := by
  have htarget : (s.sessions i).target (.consensus part) =
      some (.consensus (s.sessions i).consolidating part) := if_neg built
  simp only [step, htarget] at taken
  obtain ⟨-, taken⟩ := Option.ite_none_right_eq_some.mp taken
  cases taken
  refine ⟨⟨rfl, fun _ _ => put_of_send⟩, rfl, fun _ => .inr ?_⟩
  exact List.mem_append_right _ (List.mem_singleton.mpr rfl)

theorem chosen_of_looping {st : SessionState} {ch : Chan} (loops : st.looping = some ch) :
    st.pc.chosen = true := by
  unfold SessionState.looping at loops
  split at loops
  · rename_i hpc
    rw [hpc]
    rfl
  · rename_i hpc
    rw [hpc]
    rfl
  · rename_i hpc
    rw [hpc]
    rfl
  · cases loops

/-- A session that has chosen gets to its next choice through its next components only. -/
theorem chosen_of_follows {kind : SessionKind} {leader : Bool} {pc pc' : Pc}
    (next : follows kind leader pc pc' = true) (chosen : pc.chosen = true) :
    pc'.chosen = true := by
  cases pc' with
  | waiting | starting | choosing =>
      cases pc with
      | waiting | starting | choosing => cases chosen
      | relaying relay => cases relay <;> cases next
      | _ => cases next
  | _ => rfl

theorem buffered_advance_unchosen {st : SessionState} (h : st.pc.chosen = false) (pc : Pc) :
    (st.advance pc).buffered = st.buffered := by
  cases hpc : st.pc with
  | waiting | starting | choosing => simp only [SessionState.advance, hpc]
  | _ =>
      rw [hpc] at h
      cases h

variable {consolidating : Bool} {part : Part} {i : ι}

/-- A session moves, with the calls as they are: its flag stays and, if it has still to choose, it
had before and nothing is taken out of its channels. -/
theorem Routed.update (routed : Routed consolidating part i s) {j : ι} {st : SessionState}
    (hcalls : s'.calls = s.calls) (hsessions : s'.sessions = Function.update s.sessions j st)
    (flag : st.consolidating = (s.sessions j).consolidating)
    (early : st.pc.chosen = false → (s.sessions j).pc.chosen = false ∧
      ∀ ch, (s.sessions j).buffered ch ≤ st.buffered ch) :
    Routed consolidating part i s' := by
  by_cases hi : i = j
  · subst hi
    refine ⟨?_, fun hchosen => ?_⟩
    · rw [hsessions, Function.update_self, flag]
      exact routed.flag
    · rw [hsessions, Function.update_self] at hchosen ⊢
      obtain ⟨before, kept⟩ := early hchosen
      rw [hcalls]
      exact (routed.kept before).imp_left fun hpos => lt_of_lt_of_le hpos (kept _)
  · refine ⟨?_, fun hchosen => ?_⟩
    · rw [hsessions, Function.update_of_ne hi]
      exact routed.flag
    · rw [hsessions, Function.update_of_ne hi] at hchosen ⊢
      rw [hcalls]
      exact routed.kept hchosen

omit [DecidableEq ι] in
/-- Calls come and go; the one that carries the request is still there. -/
theorem Routed.recalled (routed : Routed consolidating part i s)
    (hsessions : s'.sessions = s.sessions)
    (stays : (⟨i, .sending (.consensus consolidating part)⟩ : Call ι) ∈ s.calls →
      (⟨i, .sending (.consensus consolidating part)⟩ : Call ι) ∈ s'.calls) :
    Routed consolidating part i s' := by
  refine ⟨?_, ?_⟩
  · rw [hsessions]
    exact routed.flag
  · rw [hsessions]
    exact fun early => (routed.kept early).imp_right stays

/-- The send of the request itself puts it into the channel. -/
theorem Routed.sent (routed : Routed consolidating part i s) (j : ι) (ch : Chan) :
    Routed consolidating part i
      ((s.finish ⟨j, .sending ch⟩).set j ((s.sessions j).put ch)) := by
  by_cases hown : (⟨i, .sending (.consensus consolidating part)⟩ : Call ι) = ⟨j, .sending ch⟩
  · cases hown
    have hput : ((s.finish ⟨i, .sending (.consensus consolidating part)⟩).set i
        ((s.sessions i).put (.consensus consolidating part))).sessions i =
          (s.sessions i).put (.consensus consolidating part) :=
      Function.update_self i _ s.sessions
    refine ⟨?_, fun _ => .inl ?_⟩
    · rw [hput]
      exact routed.flag
    · rw [hput]
      exact put_buffered_pos _ _
  · have hstays : Routed consolidating part i (s.finish ⟨j, .sending ch⟩) :=
      routed.recalled rfl (List.mem_erase_of_ne hown).mpr
    exact hstays.update (j := j) rfl rfl rfl fun early => ⟨early, buffered_put_le _ _⟩

omit [DecidableEq ι] in
theorem Routed.choose (routed : Routed consolidating part i s) {choice : Bool}
    (chooses : (s.sessions i).pc = .choosing)
    (settled : choice = (s.sessions i).consolidating ∨ Untouched s i) :
    choice = (s.sessions i).consolidating := by
  rcases settled with same | untouched
  · exact same
  · obtain ⟨hempty, habsent⟩ := untouched part (mem_partAll part)
    rw [routed.flag] at hempty habsent
    rcases routed.kept (by rw [chooses]; rfl) with hpos | hcall
    · omega
    · exact absurd hcall habsent

theorem Routed.step {label : Label ι} (routed : Routed consolidating part i s)
    (settled : Settled s label) (stays : staysIn i label = true)
    (taken : step kinds s label = some s') : Routed consolidating part i s' := by
  cases stepped_of_step taken with
  | enter _ request free => exact routed.recalled rfl (List.mem_append_left _)
  | refused call request here stage free refused =>
      refine routed.recalled rfl (List.mem_erase_of_ne ?_).mpr
      rintro rfl
      cases stage
  | routed call request ch here stage target =>
      refine routed.recalled rfl fun hcall =>
        List.mem_append_left _ ((List.mem_erase_of_ne ?_).mpr hcall)
      rintro rfl
      cases stage
  | sent j ch here room => exact routed.sent j ch
  | panicked j here closed =>
      have hstays : Routed consolidating part i (s.finish ⟨j, .sending .sign⟩) := by
        refine routed.recalled rfl (List.mem_erase_of_ne fun hsame => ?_).mpr
        cases hsame
      exact hstays.update (j := j) rfl rfl rfl fun early => ⟨early, fun _ => le_rfl⟩
  | consume j ch loops some =>
      -- what is taken out is taken out by the running consensus
      refine routed.update rfl rfl rfl fun early => ?_
      have hchosen : (s.sessions j).pc.chosen = false := early
      rw [chosen_of_looping loops] at hchosen
      cases hchosen
  | take j awaits => exact routed.update rfl rfl rfl fun early => by cases early
  | advance j pc next ready =>
      refine routed.update rfl rfl (advance_consolidating _ _) fun early => ?_
      rw [advance_pc] at early
      have before : (s.sessions j).pc.chosen = false := by
        by_contra h
        rw [chosen_of_follows next (Bool.eq_true_of_not_eq_false h)] at early
        cases early
      exact ⟨before, fun _ => le_of_eq (by rw [buffered_advance_unchosen before])⟩
  | choose j choice chooses =>
      have early : (if (s.sessions j).leader then Pc.forming else .listening).chosen = true := by
        split <;> rfl
      by_cases hj : j = i
      · subst hj
        refine routed.update rfl rfl (routed.choose chooses settled) fun hchosen => ?_
        rw [early] at hchosen
        cases hchosen
      · have hsame : (s.set j { s.sessions j with
            pc := if (s.sessions j).leader then .forming else .listening
            consolidating := choice }).sessions i = s.sessions i :=
          Function.update_of_ne (Ne.symm hj) _ _
        exact ⟨hsame ▸ routed.flag, hsame ▸ routed.kept⟩
  | changeId j changes alone =>
      exact routed.update (j := j) rfl rfl rfl fun early => by cases early
  | build j leader builds =>
      have hsame : (s.set j ((s.sessions j).build leader)).sessions i = s.sessions i :=
        Function.update_of_ne (Ne.symm (of_decide_eq_true stays)) _ _
      exact ⟨hsame ▸ routed.flag, hsame ▸ routed.kept⟩

/-- In every run in which a flag is changed only before the first request is handed over: a request
received in a session, whenever it came, was handed to the consensus that the session runs. -/
theorem request_reaches_running_consensus {i : ι} {part : Part} {t : Node ι}
    (built : (s.sessions i).pc ≠ .stale)
    (taken : step kinds s (.deliver ⟨i, .entering (.consensus part)⟩) = some s')
    (later : (machine kinds).Leads (fun s label => Settled s label ∧ staysIn i label = true) s' t) :
    Handed kinds s s' ⟨i, .entering (.consensus part)⟩
      (.consensus (t.sessions i).consolidating part) := by
  obtain ⟨handed, routed⟩ := handed_of_deliver built taken
  have still : Routed (s.sessions i).consolidating part i t :=
    later.invariant (P := Routed (s.sessions i).consolidating part i)
      (fun _ _ _ routed meets taken => routed.step meets.1 meets.2 taken) routed
  rw [still.flag]
  exact handed

end Routing

/-! ## One UTXO session -/

section Alone

def utxoOnly : Unit → SessionKind := fun _ => .utxo

def aloneNode : Node Unit := ⟨fun _ => freshSession false, [], []⟩

def proposalCall : Call Unit := ⟨(), .entering (.consensus .msgs)⟩

theorem aloneNode_init : (machine utxoOnly).init aloneNode := ⟨fun _ => ⟨false, rfl⟩, rfl, rfl⟩

/-- The send of the proposal to the consensus of the flag. -/
def sending (flag : Bool) : Label Unit := .send ⟨(), .sending (.consensus flag .msgs)⟩

/-- The start time passes and the session looks at the wallet. -/
def starting (consolidating : Bool) : List (Label Unit) :=
  [.advance () .starting, .advance () .choosing, .choose () consolidating]

/-- A consolidation without result, and the components of the session after it. -/
def afterConsolidation : List (Label Unit) :=
  starting true ++ [.advance () .ended, .advance () .changing, .changeId (),
    .advance () .building, .build () false]

/-- A proposal comes in before the start. -/
def proposed (before : List (Label Unit)) : Option (Node Unit) :=
  (machine utxoOnly).exec Settled aloneNode (before ++ [.enter () (.consensus .msgs)])

theorem request_reaches_running_consensus_aloneNode :
    ∃ s s' t : Node Unit, (machine utxoOnly).Reachable Settled s ∧
      step utxoOnly s (.deliver proposalCall) = some s' ∧
      (machine utxoOnly).Leads (fun s label => Settled s label ∧ staysIn () label = true) s' t ∧
      (t.sessions ()).pc = .listening ∧
      Handed utxoOnly s s' proposalCall (.consensus (t.sessions ()).consolidating .msgs) := by
  have run : ((proposed []).bind fun s => (step utxoOnly s (.deliver proposalCall)).bind fun s' =>
      ((machine utxoOnly).exec (fun s label => Settled s label ∧ staysIn () label = true) s'
        (sending false :: starting false)).map fun t => ((s.sessions ()).pc, (t.sessions ()).pc)) =
        some (.waiting, .listening) := by
    decide +kernel
  obtain ⟨s, hs, run⟩ := Option.bind_eq_some_iff.mp run
  obtain ⟨s', hs', run⟩ := Option.bind_eq_some_iff.mp run
  obtain ⟨t, ht, hpc⟩ := Option.map_eq_some_iff.mp run
  simp only [Prod.mk.injEq] at hpc
  have later := Machine.Leads.refl.exec ht
  have built : (s.sessions ()).pc ≠ .stale := by
    rw [hpc.1]
    decide
  exact ⟨s, s', t, Machine.Reachable.exec (.init aloneNode_init) hs, hs', later, hpc.2,
    request_reaches_running_consensus built hs' later⟩

/-- In some run a request is handed to the consensus of the flag and the session then runs the
other one. -/
def Misrouted (flag : Bool) : Prop :=
  ∃ s s' t : Node Unit, (machine utxoOnly).Reaches s ∧ (s.sessions ()).pc = .waiting ∧
    step utxoOnly s (.deliver proposalCall) = some s' ∧
    (machine utxoOnly).Leads (fun _ label => staysIn () label = true) s' t ∧
    (t.sessions ()).pc = .listening ∧ (t.sessions ()).consolidating = !flag ∧
    Handed utxoOnly s s' proposalCall (.consensus flag .msgs) ∧
    ¬ Handed utxoOnly s s' proposalCall (.consensus (!flag) .msgs)

theorem misrouted_of_run {before : List (Label Unit)} {flag : Bool}
    (run : ((proposed before).bind fun s =>
      (step utxoOnly s (.deliver proposalCall)).bind fun s' =>
        ((machine utxoOnly).exec (fun _ label => staysIn () label = true) s'
          (sending flag :: starting !flag)).map fun t =>
            ((s.sessions ()).pc, (s.sessions ()).consolidating, (t.sessions ()).pc,
              (t.sessions ()).consolidating)) =
      some (.waiting, flag, .listening, !flag)) : Misrouted flag := by
  obtain ⟨s, hs, run⟩ := Option.bind_eq_some_iff.mp run
  obtain ⟨s', hs', run⟩ := Option.bind_eq_some_iff.mp run
  obtain ⟨t, ht, seen⟩ := Option.map_eq_some_iff.mp run
  simp only [Prod.mk.injEq] at seen
  obtain ⟨hpc, hflag, hlistening, hruns⟩ := seen
  have reached : (machine utxoOnly).Reaches s :=
    (Machine.Reachable.exec (.init aloneNode_init) hs).mono fun _ _ _ => trivial
  have built : (s.sessions ()).pc ≠ .stale := by
    rw [hpc]
    decide
  have handed :
      Handed utxoOnly s s' proposalCall (.consensus (s.sessions ()).consolidating .msgs) :=
    (handed_of_deliver built hs').1
  rw [hflag] at handed
  refine ⟨s, s', t, reached, hpc, hs', Machine.Leads.refl.exec ht, hlistening, hruns, handed, ?_⟩
  intro other
  have hsame := List.append_cancel_left (handed.calls.symm.trans other.calls)
  cases flag <;> cases hsame

/-- Both ways: before the first consolidation, and before the signing after one. -/
theorem request_misses_running_consensus : Misrouted false ∧ Misrouted true :=
  ⟨@misrouted_of_run [] false (by decide +kernel),
    @misrouted_of_run afterConsolidation true (by decide +kernel)⟩

end Alone

end TssSvc.P2p
