import TssSvc.P2p.SessionManager

/-!
# Calls that never return

A call that waits for room in a channel nobody will receive from again in its session keeps the
manager's lock, `onIdChange` then waits for ever and keeps every other request out.  Nothing in
`Receive` prevents it (`receive_wedges`).  It does not happen while the requests under way fit into
the channels no loop is receiving from (`not_abandoned_of_accommodates`).
-/

set_option autoImplicit false

namespace TssSvc.P2p

open TssSvc.Party (SessionKind)

variable {ι : Type} [DecidableEq ι] {kinds : ι → SessionKind} {s s' : Node ι}

/-! ## What a step does -/

/-- The steps read backwards. -/
inductive Stepped (kinds : ι → SessionKind) (s : Node ι) : Label ι → Node ι → Prop where
  | enter (i : ι) (request : Request) (free : s.writers = []) :
      Stepped kinds s (.enter i request) { s with calls := s.calls ++ [⟨i, .entering request⟩] }
  | refused (call : Call ι) (request : Request) (here : call ∈ s.calls)
      (stage : call.stage = .entering request) (free : (s.sessions call.chain).pc.wantsLock = false)
      (refused : (s.sessions call.chain).target request = none) :
      Stepped kinds s (.deliver call) (s.finish call)
  | routed (call : Call ι) (request : Request) (ch : Chan) (here : call ∈ s.calls)
      (stage : call.stage = .entering request)
      (target : (s.sessions call.chain).target request = some ch) :
      Stepped kinds s (.deliver call) (s.route call ch)
  | sent (i : ι) (ch : Chan) (here : ⟨i, .sending ch⟩ ∈ s.calls)
      (room : (s.sessions i).buffered ch < ch.capacity) :
      Stepped kinds s (.send ⟨i, .sending ch⟩)
        ((s.finish ⟨i, .sending ch⟩).set i ((s.sessions i).put ch))
  | panicked (i : ι) (here : ⟨i, .sending .sign⟩ ∈ s.calls)
      (closed : (s.sessions i).signClosed = true) :
      Stepped kinds s (.send ⟨i, .sending .sign⟩)
        ((s.finish ⟨i, .sending .sign⟩).set i { s.sessions i with leaked := true })
  | consume (i : ι) (ch : Chan) (loops : (s.sessions i).looping = some ch)
      (some : 0 < (s.sessions i).buffered ch) :
      Stepped kinds s (.consume i) (s.set i ((s.sessions i).get ch))
  | take (i : ι) (awaits : (s.sessions i).pc = .awaiting) :
      Stepped kinds s (.take i) (s.set i { (s.sessions i).get .initSig with
        pc := .injecting .signatures
        initSigAccepted := true })
  | advance (i : ι) (pc : Pc)
      (next : follows (kinds i) (s.sessions i).leader (s.sessions i).pc pc = true)
      (ready : (s.sessions i).ready = true) :
      Stepped kinds s (.advance i pc) { s.set i ((s.sessions i).advance pc) with
        writers := if pc = .changing then s.writers ++ [i] else s.writers }
  | choose (i : ι) (consolidating : Bool) (chooses : (s.sessions i).pc = .choosing) :
      Stepped kinds s (.choose i consolidating) (s.set i { s.sessions i with
        pc := if (s.sessions i).leader then .forming else .listening
        consolidating := consolidating })
  | changeId (i : ι) (changes : (s.sessions i).pc = .changing) (alone : s.calls = []) :
      Stepped kinds s (.changeId i) { s.set i { s.sessions i with pc := .stale } with
        writers := s.writers.erase i }
  | build (i : ι) (leader : Bool) (builds : (s.sessions i).pc = .building) :
      Stepped kinds s (.build i leader) (s.set i ((s.sessions i).build leader))

theorem target_eq_some {st : SessionState} {request : Request} {ch : Chan}
    (h : st.target request = some ch) :
    ch ∈ request.channels ∧ (ch = .sign → st.signEnded = false) := by
  cases request with
  | consensus part =>
      simp only [SessionState.target] at h
      split at h <;> cases h
      refine ⟨?_, nofun⟩
      cases st.consolidating <;> simp [Request.channels]
  | sign =>
      simp only [SessionState.target] at h
      split at h <;> cases h
      rename_i hended
      exact ⟨List.mem_singleton.mpr rfl, fun _ => Bool.eq_false_of_not_eq_true hended⟩
  | signatures =>
      simp only [SessionState.target] at h
      split at h <;> cases h
      exact ⟨List.mem_singleton.mpr rfl, nofun⟩
  | initSig =>
      simp only [SessionState.target] at h
      split at h <;> cases h
      exact ⟨List.mem_singleton.mpr rfl, nofun⟩

theorem stepped_of_send {i : ι} {ch : Chan} (here : ⟨i, .sending ch⟩ ∈ s.calls)
    (taken : s.send ⟨i, .sending ch⟩ ch = some s') :
    Stepped kinds s (.send ⟨i, .sending ch⟩) s' := by
  simp only [Node.send] at taken
  split at taken
  · rename_i hclosed
    obtain ⟨rfl, hclosed⟩ := hclosed
    cases taken
    exact .panicked i here hclosed
  · split at taken
    · rename_i hroom
      cases taken
      exact .sent i ch here (of_decide_eq_true hroom)
    · cases taken

theorem stepped_of_deliver {i : ι} {request : Request}
    (taken : step kinds s (.deliver ⟨i, .entering request⟩) = some s') :
    Stepped kinds s (.deliver ⟨i, .entering request⟩) s' := by
  obtain ⟨hopen, taken⟩ := Option.ite_none_right_eq_some.mp taken
  cases htarget : (s.sessions i).target request with
  | none =>
      simp only [htarget] at taken
      cases taken
      exact .refused ⟨i, .entering request⟩ request hopen.1 rfl hopen.2 htarget
  | some ch =>
      simp only [htarget] at taken
      cases taken
      exact .routed ⟨i, .entering request⟩ request ch hopen.1 rfl htarget

theorem stepped_of_step {label : Label ι} (taken : step kinds s label = some s') :
    Stepped kinds s label s' := by
  cases label with
  | enter i request =>
      obtain ⟨free, taken⟩ := Option.ite_none_right_eq_some.mp taken
      cases taken
      exact .enter i request free
  | deliver call =>
      obtain ⟨i, stage⟩ := call
      cases stage with
      | sending ch => cases taken
      | entering request => exact stepped_of_deliver taken
  | send call =>
      obtain ⟨i, stage⟩ := call
      cases stage with
      | entering request => cases taken
      | sending ch =>
          obtain ⟨here, taken⟩ := Option.ite_none_right_eq_some.mp taken
          exact stepped_of_send here taken
  | consume i =>
      simp only [step] at taken
      split at taken
      · cases taken
      · rename_i ch hloops
        split at taken
        · cases taken
          exact .consume i ch hloops ‹_›
        · cases taken
  | take i =>
      obtain ⟨hopen, taken⟩ := Option.ite_none_right_eq_some.mp taken
      cases taken
      exact .take i hopen.1
  | advance i pc =>
      obtain ⟨hopen, taken⟩ := Option.ite_none_right_eq_some.mp taken
      cases taken
      exact .advance i pc hopen.1 hopen.2.1
  | choose i consolidating =>
      obtain ⟨chooses, taken⟩ := Option.ite_none_right_eq_some.mp taken
      cases taken
      exact .choose i consolidating chooses
  | changeId i =>
      obtain ⟨hopen, taken⟩ := Option.ite_none_right_eq_some.mp taken
      cases taken
      exact .changeId i hopen.1 hopen.2
  | build i leader =>
      obtain ⟨hopen, taken⟩ := Option.ite_none_right_eq_some.mp taken
      cases taken
      exact .build i leader hopen.1

/-! ## What is under way -/

/-- The calls that can still get to a channel of a session. -/
def Node.underWay (s : Node ι) (i : ι) (ch : Chan) : Nat :=
  s.calls.countP fun call => decide (call.chain = i) && call.stage.mayReach ch

def Node.Fits (s : Node ι) (i : ι) (ch : Chan) : Prop :=
  (s.sessions i).buffered ch + s.underWay i ch ≤ ch.capacity

theorem underWay_finish {call : Call ι} (here : call ∈ s.calls) (i : ι) (ch : Chan) :
    s.underWay i ch = (s.finish call).underWay i ch +
      if decide (call.chain = i) && call.stage.mayReach ch then 1 else 0 := by
  unfold Node.underWay Node.finish
  rw [(List.perm_cons_erase here).countP_eq, List.countP_cons]

theorem underWay_pos {call : Call ι} {ch : Chan} (here : call ∈ s.calls)
    (reaches : call.stage.mayReach ch = true) : 0 < s.underWay call.chain ch :=
  List.countP_pos_iff.mpr ⟨call, here, by simp [reaches]⟩

/-- The requests fit: one comes in only if every channel it can get to is received from by its loop
or has room for it and for those before it; a loop ends only if what is under way fits into its
channel; and no signing request is under way when `SignParty` closes its channel, or comes in
before it has set `ended`. -/
def Accommodates (s : Node ι) : Label ι → Prop
  | .enter i request =>
      (∀ ch ∈ request.channels, (s.sessions i).looping = some ch ∨
        (s.sessions i).buffered ch + s.underWay i ch < ch.capacity) ∧
      (request = .sign → (s.sessions i).signClosed = true → (s.sessions i).signEnded = true)
  | .advance i pc =>
      (∀ ch ∈ (s.sessions i).looping, s.Fits i ch) ∧ (pc = .closing → s.underWay i .sign = 0)
  | _ => True

structure Inv (s : Node ι) : Prop where
  bounded : ∀ i ch, (s.sessions i).buffered ch ≤ ch.capacity
  fits : ∀ i ch, (s.sessions i).looping ≠ some ch → s.Fits i ch
  closed : ∀ i, (s.sessions i).signClosed = true →
    (⟨i, .sending .sign⟩ : Call ι) ∉ s.calls ∧
      ((s.sessions i).signEnded = false → s.underWay i .sign = 0)
  held : ∀ i, (s.sessions i).leaked = false

theorem underWay_finish_le (call : Call ι) (i : ι) (ch : Chan) :
    (s.finish call).underWay i ch ≤ s.underWay i ch :=
  List.Sublist.countP_le List.erase_sublist

/-! ## The invariant -/

theorem Inv.finish (inv : Inv s) (call : Call ι) : Inv (s.finish call) where
  bounded := inv.bounded
  fits i ch idle := le_trans (Nat.add_le_add_left (underWay_finish_le call i ch) _)
    (inv.fits i ch idle)
  closed i hclosed := by
    obtain ⟨absent, none⟩ := inv.closed i hclosed
    refine ⟨fun here => absent (List.mem_of_mem_erase here), fun running => ?_⟩
    have := underWay_finish_le (s := s) call i .sign
    have := none running
    omega
  held := inv.held

/-- Steps of one session with the calls as they are. -/
theorem Inv.update (inv : Inv s) {i : ι} {st : SessionState} (hcalls : s'.calls = s.calls)
    (hsessions : s'.sessions = Function.update s.sessions i st)
    (bounded : ∀ ch, st.buffered ch ≤ ch.capacity)
    (fits : ∀ ch, st.looping ≠ some ch → st.buffered ch + s.underWay i ch ≤ ch.capacity)
    (closed : st.signClosed = true → (⟨i, .sending .sign⟩ : Call ι) ∉ s.calls ∧
      (st.signEnded = false → s.underWay i .sign = 0))
    (held : st.leaked = false) : Inv s' := by
  have hunderWay (j : ι) (ch : Chan) : s'.underWay j ch = s.underWay j ch := by
    rw [Node.underWay, hcalls, Node.underWay]
  refine ⟨fun j ch => ?_, fun j ch idle => ?_, fun j hclosed => ?_, fun j => ?_⟩
  · by_cases hj : j = i
    · subst hj
      simpa only [hsessions, Function.update_self] using bounded ch
    · simpa only [hsessions, Function.update_of_ne hj] using inv.bounded j ch
  · unfold Node.Fits
    rw [hunderWay]
    by_cases hj : j = i
    · subst hj
      simp only [hsessions, Function.update_self] at idle ⊢
      exact fits ch idle
    · simp only [hsessions, Function.update_of_ne hj] at idle ⊢
      exact inv.fits j ch idle
  · rw [hcalls, hunderWay]
    by_cases hj : j = i
    · subst hj
      simp only [hsessions, Function.update_self] at hclosed ⊢
      exact closed hclosed
    · simp only [hsessions, Function.update_of_ne hj] at hclosed ⊢
      exact inv.closed j hclosed
  · by_cases hj : j = i
    · subst hj
      simpa only [hsessions, Function.update_self] using held
    · simpa only [hsessions, Function.update_of_ne hj] using inv.held j

theorem Inv.enter (inv : Inv s) {i : ι} {request : Request}
    (meets : Accommodates s (.enter i request)) :
    Inv { s with calls := s.calls ++ [⟨i, .entering request⟩] } := by
  have hunderWay (j : ι) (ch : Chan) :
      Node.underWay { s with calls := s.calls ++ [⟨i, .entering request⟩] } j ch =
        s.underWay j ch + if i = j ∧ ch ∈ request.channels then 1 else 0 := by
    simp [Node.underWay, List.countP_append, List.countP_cons, Stage.mayReach]
  obtain ⟨room, unclosed⟩ := meets
  refine ⟨inv.bounded, fun j ch idle => ?_, fun j hclosed => ?_, inv.held⟩
  · unfold Node.Fits
    rw [hunderWay]
    have hfits := inv.fits j ch idle
    unfold Node.Fits at hfits
    split
    · rename_i hreaches
      obtain ⟨rfl, hmem⟩ := hreaches
      rcases room ch hmem with hloops | hroom
      · exact absurd hloops idle
      · dsimp only
        omega
    · exact hfits
  · obtain ⟨absent, none⟩ := inv.closed j hclosed
    refine ⟨by simpa using absent, fun running => ?_⟩
    rw [hunderWay, none running]
    split
    · rename_i hreaches
      obtain ⟨rfl, hmem⟩ := hreaches
      -- only `RT_SIGN` gets to the channel of `SignParty`
      have hsign : request = .sign := by
        cases request <;> simp [Request.channels] at hmem ⊢
      rw [unclosed hsign hclosed] at running
      cases running
    · rfl

theorem Inv.sent (inv : Inv s) {i : ι} {ch : Chan} (here : ⟨i, .sending ch⟩ ∈ s.calls)
    (room : (s.sessions i).buffered ch < ch.capacity) :
    Inv ((s.finish ⟨i, .sending ch⟩).set i ((s.sessions i).put ch)) := by
  refine (inv.finish ⟨i, .sending ch⟩).update rfl rfl (fun ch' => ?_) ?_ ?_ ?_
  · by_cases hch : ch' = ch
    · subst hch
      simpa [SessionState.put] using room
    · simpa [SessionState.put, Function.update_of_ne hch] using inv.bounded i ch'
  · intro ch' idle
    have hfits := inv.fits i ch' idle
    have hcount := underWay_finish here i ch'
    unfold Node.Fits at hfits
    by_cases hch : ch' = ch
    · subst hch
      simp only [decide_true, Bool.true_and, Stage.mayReach, if_true] at hcount
      simp only [SessionState.put, Function.update_self]
      omega
    · simp only [SessionState.put, Function.update_of_ne hch]
      omega
  · exact (inv.finish ⟨i, .sending ch⟩).closed i
  · exact inv.held i

theorem underWay_route (call : Call ι) (ch : Chan) (i : ι) (ch' : Chan) :
    (s.route call ch).underWay i ch' =
      (s.finish call).underWay i ch' + if call.chain = i ∧ ch = ch' then 1 else 0 := by
  simp [Node.route, Node.finish, Node.underWay, List.countP_append, List.countP_cons,
    Stage.mayReach]

/-- A call that has found its channel can still get to that one only. -/
theorem underWay_route_le {call : Call ι} (here : call ∈ s.calls) {ch : Chan}
    (reaches : call.stage.mayReach ch = true) (i : ι) (ch' : Chan) :
    (s.route call ch).underWay i ch' ≤ s.underWay i ch' := by
  have hcount := underWay_finish here i ch'
  rw [underWay_route]
  split
  · rename_i hsame
    obtain ⟨hi, rfl⟩ := hsame
    simp only [hi, decide_true, Bool.true_and, reaches, if_true] at hcount
    omega
  · omega

theorem Inv.routed (inv : Inv s) {call : Call ι} {request : Request} {ch : Chan}
    (here : call ∈ s.calls) (stage : call.stage = .entering request)
    (target : (s.sessions call.chain).target request = some ch) : Inv (s.route call ch) := by
  obtain ⟨hmem, running⟩ := target_eq_some target
  have reaches : call.stage.mayReach ch = true := by
    rw [stage]
    exact decide_eq_true hmem
  have hunderWay := underWay_route_le here reaches
  refine ⟨inv.bounded, fun j ch' idle => ?_, fun j hclosed => ?_, inv.held⟩
  · exact le_trans (Nat.add_le_add_left (hunderWay j ch') _) (inv.fits j ch' idle)
  · obtain ⟨absent, none⟩ := inv.closed j hclosed
    refine ⟨fun hcall => ?_, fun unended => ?_⟩
    · rcases List.mem_append.mp hcall with hcall | hcall
      · exact absent (List.mem_of_mem_erase hcall)
      · -- the channel was closed and `ended` not set: no signing request was under way
        cases List.mem_singleton.mp hcall
        have hpos := underWay_pos here reaches
        have hnone := none (running rfl)
        omega
    · have hle := hunderWay j .sign
      have hnone := none unended
      omega

theorem buffered_advance_le (st : SessionState) (pc : Pc) (ch : Chan)
    (h : ∀ relay, st.pc = .injecting relay → ch ≠ relay.chan st.consolidating) :
    (st.advance pc).buffered ch ≤ st.buffered ch := by
  unfold SessionState.advance
  split
  · rename_i relay hpc
    simp [Function.update_of_ne (h relay hpc)]
  · exact le_rfl
  · exact le_rfl
  · exact le_rfl
  · dsimp only
    by_cases hch : ch = .sign
    · simp [hch]
    · simp [Function.update_of_ne hch]
  · exact le_rfl

theorem buffered_advance_bounded {st : SessionState}
    (bounded : ∀ ch, st.buffered ch ≤ ch.capacity) (ready : st.ready = true) (pc : Pc) (ch : Chan) :
    (st.advance pc).buffered ch ≤ ch.capacity := by
  by_cases hown : ∃ relay, st.pc = .injecting relay ∧ ch = relay.chan st.consolidating
  · obtain ⟨relay, hpc, rfl⟩ := hown
    simp only [SessionState.ready, hpc, SessionState.hasRoom, decide_eq_true_eq] at ready
    simpa [SessionState.advance, hpc] using ready
  · refine le_trans (buffered_advance_le st pc ch fun relay hpc hch => hown ⟨relay, hpc, hch⟩) ?_
    exact bounded ch

@[simp] theorem advance_pc (st : SessionState) (pc : Pc) : (st.advance pc).pc = pc := by
  unfold SessionState.advance
  split <;> rfl

@[simp] theorem advance_consolidating (st : SessionState) (pc : Pc) :
    (st.advance pc).consolidating = st.consolidating := by
  unfold SessionState.advance
  split <;> rfl

@[simp] theorem advance_leaked (st : SessionState) (pc : Pc) :
    (st.advance pc).leaked = st.leaked := by
  unfold SessionState.advance
  split <;> rfl

theorem advance_signClosed {st : SessionState} {pc : Pc}
    (h : (st.advance pc).signClosed = true) :
    pc = .closing ∨ st.signClosed = true ∧
      ((st.advance pc).signEnded = false → st.signEnded = false) := by
  unfold SessionState.advance at h ⊢
  split at h
  · exact .inr ⟨h, id⟩
  · exact .inl (of_decide_eq_true h)
  · exact .inr ⟨h, nofun⟩
  · exact .inr ⟨h, nofun⟩
  · cases h
  · exact .inr ⟨h, id⟩

theorem follows_injecting {kind : SessionKind} {leader : Bool} {relay : Relay} {pc : Pc}
    (next : follows kind leader (.injecting relay) pc = true) : pc = .relaying relay := by
  cases pc with
  | relaying relay' => rw [of_decide_eq_true next]
  | _ => cases next

theorem Inv.advance (inv : Inv s) {i : ι} {pc : Pc} (meets : Accommodates s (.advance i pc))
    (next : follows (kinds i) (s.sessions i).leader (s.sessions i).pc pc = true)
    (ready : (s.sessions i).ready = true) :
    Inv { s.set i ((s.sessions i).advance pc) with
      writers := if pc = .changing then s.writers ++ [i] else s.writers } := by
  obtain ⟨leaves, closes⟩ := meets
  refine inv.update rfl rfl (fun ch => ?_) (fun ch idle => ?_) (fun hclosed => ?_) ?_
  · exact buffered_advance_bounded (inv.bounded i) ready pc ch
  · have hfits : s.Fits i ch := by
      by_cases hloops : (s.sessions i).looping = some ch
      · exact leaves ch hloops
      · exact inv.fits i ch hloops
    have hle := buffered_advance_le (s.sessions i) pc ch (by
      -- the own message of `EnsureValid` goes to the loop that starts
      rintro relay hpc rfl
      rw [hpc] at next
      apply idle
      simp [SessionState.looping, follows_injecting next])
    unfold Node.Fits at hfits
    omega
  · rcases advance_signClosed hclosed with rfl | ⟨hbefore, hended⟩
    · have hnone := closes rfl
      refine ⟨fun here => ?_, fun _ => hnone⟩
      have hpos : 0 < s.underWay i .sign := underWay_pos here rfl
      omega
    · obtain ⟨absent, none⟩ := inv.closed i hbefore
      exact ⟨absent, fun running => none (hended running)⟩
  · rw [advance_leaked]
    exact inv.held i

theorem buffered_get_le (st : SessionState) (ch ch' : Chan) :
    (st.get ch).buffered ch' ≤ st.buffered ch' := by
  by_cases hch : ch' = ch
  · simp [SessionState.get, hch]
  · simp [SessionState.get, Function.update_of_ne hch]

theorem Inv.preserved (inv : Inv s) {label : Label ι} (meets : Accommodates s label)
    (stepped : Stepped kinds s label s') : Inv s' := by
  cases stepped with
  | enter i request free => exact inv.enter meets
  | refused call request here stage free refused => exact inv.finish call
  | routed call request ch here stage target => exact inv.routed here stage target
  | sent i ch here room => exact inv.sent here room
  | panicked i here closed => exact absurd here (inv.closed i closed).1
  | consume i ch loops some =>
      refine inv.update rfl rfl
        (fun ch' => le_trans (buffered_get_le _ _ _) (inv.bounded i ch')) (fun ch' idle => ?_)
        (inv.closed i) (inv.held i)
      have hch : ch' ≠ ch := by
        rintro rfl
        exact idle loops
      simp only [SessionState.get, Function.update_of_ne hch]
      exact inv.fits i ch' idle
  | take i awaits =>
      refine inv.update rfl rfl
        (fun ch => le_trans (buffered_get_le _ _ _) (inv.bounded i ch)) (fun ch _ => ?_)
        (inv.closed i) (inv.held i)
      have hfits := inv.fits i ch (by simp [SessionState.looping, awaits])
      exact le_trans (Nat.add_le_add_right (buffered_get_le _ _ _) _) hfits
  | advance i pc next ready => exact inv.advance meets next ready
  | choose i consolidating chooses =>
      refine inv.update rfl rfl (inv.bounded i) (fun ch _ => ?_) (inv.closed i) (inv.held i)
      exact inv.fits i ch (by simp [SessionState.looping, chooses])
  | changeId i changes alone =>
      refine inv.update rfl rfl (inv.bounded i) (fun ch _ => ?_) (inv.closed i) (inv.held i)
      exact inv.fits i ch (by simp [SessionState.looping, changes])
  | build i leader builds =>
      refine inv.update rfl rfl (fun _ => Nat.zero_le _) (fun ch _ => ?_) nofun (inv.held i)
      have hfits := inv.fits i ch (by simp [SessionState.looping, builds])
      exact le_trans (Nat.add_le_add_right (Nat.zero_le _) _) hfits

theorem inv_reachable (reached : (machine kinds).Reachable Accommodates s) : Inv s := by
  apply reached.invariant
  · rintro s ⟨fresh, hcalls, -⟩
    have hstate (i : ι) : (s.sessions i).buffered = (fun _ => 0) ∧
        (s.sessions i).signClosed = false ∧ (s.sessions i).leaked = false := by
      obtain ⟨leader, hfresh⟩ := fresh i
      rw [hfresh]
      exact ⟨rfl, rfl, rfl⟩
    refine ⟨fun i ch => ?_, fun i ch _ => ?_, fun i hclosed => ?_, fun i => (hstate i).2.2⟩
    · simp [(hstate i).1]
    · simp [Node.Fits, Node.underWay, hcalls, (hstate i).1]
    · rw [(hstate i).2.1] at hclosed
      cases hclosed
  · intro s label s' _ inv meets taken
    exact inv.preserved meets (stepped_of_step taken)

/-! ## Blocked calls -/

/-- A call of the session waits in a send into a full channel, with both locks in its hands. -/
def Node.Blocked (s : Node ι) (i : ι) (ch : Chan) : Prop :=
  (⟨i, .sending ch⟩ : Call ι) ∈ s.calls ∧ ch.capacity ≤ (s.sessions i).buffered ch

def Label.builds (i : ι) : Label ι → Prop
  | .build j _ => j = i
  | _ => False

/-- Nothing receives from the channel before the session builds its next components. -/
def Abandoned (kinds : ι → SessionKind) (s : Node ι) (i : ι) (ch : Chan) : Prop :=
  ∀ s', (machine kinds).Leads (fun _ label => ¬ label.builds i) s s' →
    (s'.sessions i).reading ≠ some ch

theorem reading_of_looping {st : SessionState} {ch : Chan} (h : st.looping = some ch) :
    st.reading = some ch := by
  unfold SessionState.reading
  split
  · rename_i hpc
    simp [SessionState.looping, hpc] at h
  · rename_i hpc
    simp [SessionState.looping, hpc] at h
  · exact h

theorem Inv.looping_of_blocked (inv : Inv s) {i : ι} {ch : Chan} (blocked : s.Blocked i ch) :
    (s.sessions i).looping = some ch := by
  by_contra idle
  have hfits := inv.fits i ch idle
  have hpos : 0 < s.underWay i ch := underWay_pos blocked.1 (by simp [Stage.mayReach])
  have hfull := blocked.2
  unfold Node.Fits at hfits
  omega

/-! ## Calls come to an end -/

/-- Steps of the calls in progress and of the sessions, with no further request. -/
abbrev Settles (kinds : ι → SessionKind) : Node ι → Node ι → Prop :=
  (machine kinds).Leads fun s label => Accommodates s label ∧ ∀ i request, label ≠ .enter i request

def Stage.weight : Stage → Nat
  | entering _ => 2
  | sending _ => 1

def Node.weight (s : Node ι) : Nat := (s.calls.map fun call => call.stage.weight).sum

theorem weight_finish {call : Call ι} (here : call ∈ s.calls) :
    s.weight = call.stage.weight + (s.finish call).weight := by
  unfold Node.weight Node.finish
  rw [((List.perm_cons_erase here).map _).sum_eq, List.map_cons, List.sum_cons]

/-- A state the calls settle to, closer to the end of all of them. -/
structure Closer (kinds : ι → SessionKind) (s s' : Node ι) : Prop where
  settles : Settles kinds s s'
  inv : Inv s'
  lighter : s'.weight < s.weight
  changing : ∀ i, (s.sessions i).pc = .changing → (s'.sessions i).pc = .changing

theorem settles_step (label : Label ι) (inv : Inv s) (meets : Accommodates s label)
    (quiet : ∀ i request, label ≠ .enter i request) (taken : step kinds s label = some s') :
    Settles kinds s s' ∧ Inv s' :=
  ⟨.step .refl ⟨meets, quiet⟩ taken, inv.preserved meets (stepped_of_step taken)⟩

theorem pc_set (i : ι) (st : SessionState) (h : st.pc = (s.sessions i).pc) (j : ι) :
    ((s.set i st).sessions j).pc = (s.sessions j).pc := by
  by_cases hj : j = i
  · subst hj
    simpa [Node.set] using h
  · simp [Node.set, hj]

theorem Inv.opened (inv : Inv s) {i : ι} {ch : Chan}
    (here : (⟨i, .sending ch⟩ : Call ι) ∈ s.calls) :
    ¬ (ch = .sign ∧ (s.sessions i).signClosed = true) := by
  rintro ⟨rfl, closed⟩
  exact (inv.closed i closed).1 here

section Progress

variable (kinds)

/-- A send with room for it returns. -/
theorem Inv.closer_of_room (inv : Inv s) {i : ι} {ch : Chan}
    (here : (⟨i, .sending ch⟩ : Call ι) ∈ s.calls)
    (room : (s.sessions i).buffered ch < ch.capacity) : ∃ s', Closer kinds s s' := by
  have taken : step kinds s (.send ⟨i, .sending ch⟩) =
      some ((s.finish ⟨i, .sending ch⟩).set i ((s.sessions i).put ch)) := by
    simp [step, here, Node.send, inv.opened here, SessionState.hasRoom, room]
  obtain ⟨settles, inv'⟩ := settles_step (.send ⟨i, .sending ch⟩) inv trivial nofun taken
  refine ⟨_, settles, inv', ?_, fun j changing => ?_⟩
  · have hweight := weight_finish here
    simp only [Stage.weight] at hweight
    change (s.finish ⟨i, .sending ch⟩).weight < s.weight
    omega
  · exact (pc_set i ((s.sessions i).put ch) rfl j).trans changing

/-- One into a full channel does so once the loop has received a message. -/
theorem Inv.closer_of_sending (inv : Inv s) {i : ι} {ch : Chan}
    (here : (⟨i, .sending ch⟩ : Call ι) ∈ s.calls) : ∃ s', Closer kinds s s' := by
  by_cases room : (s.sessions i).buffered ch < ch.capacity
  · exact inv.closer_of_room kinds here room
  · have loops := inv.looping_of_blocked ⟨here, by omega⟩
    have hcapacity : 0 < ch.capacity := by
      cases ch with
      | consensus consolidation part => cases part <;> exact Nat.succ_pos _
      | _ => exact Nat.succ_pos _
    have taken : step kinds s (.consume i) = some (s.set i ((s.sessions i).get ch)) := by
      simp only [step, loops]
      rw [if_pos (by omega)]
    obtain ⟨settles, inv'⟩ := settles_step (.consume i) inv trivial nofun taken
    have room' : ((s.set i ((s.sessions i).get ch)).sessions i).buffered ch < ch.capacity := by
      have := inv.bounded i ch
      simp only [Node.set, Function.update_self, SessionState.get]
      omega
    obtain ⟨s', closer⟩ := inv'.closer_of_room kinds here room'
    refine ⟨s', settles.trans closer.settles, closer.inv, closer.lighter, fun j changing => ?_⟩
    exact closer.changing j ((pc_set i ((s.sessions i).get ch) rfl j).trans changing)

theorem Inv.closer_of_entering (inv : Inv s) {i : ι} {request : Request}
    (here : (⟨i, .entering request⟩ : Call ι) ∈ s.calls)
    (free : (s.sessions i).pc.wantsLock = false) : ∃ s', Closer kinds s s' := by
  have hweight := weight_finish here
  simp only [Stage.weight] at hweight
  suffices hstep : ∃ s', step kinds s (.deliver ⟨i, .entering request⟩) = some s' ∧
      s'.weight < s.weight ∧ ∀ j, (s'.sessions j).pc = (s.sessions j).pc by
    obtain ⟨s', taken, lighter, hpc⟩ := hstep
    obtain ⟨settles, inv'⟩ :=
      settles_step (.deliver ⟨i, .entering request⟩) inv trivial nofun taken
    exact ⟨s', settles, inv', lighter, fun j changing => (hpc j).trans changing⟩
  simp only [step, here, free, and_self, if_true]
  cases htarget : (s.sessions i).target request with
  | none =>
      refine ⟨_, rfl, ?_, fun _ => rfl⟩
      omega
  | some ch =>
      refine ⟨_, rfl, ?_, fun _ => rfl⟩
      have hroute : (s.route ⟨i, .entering request⟩ ch).weight =
          (s.finish ⟨i, .entering request⟩).weight + 1 := by
        simp [Node.route, Node.finish, Node.weight, Stage.weight]
      omega

/-- A session that waits for its own lock gets it when no call is in a send. -/
theorem Inv.unlocks (inv : Inv s) {i : ι} (wants : (s.sessions i).pc.wantsLock = true)
    (idle : ∀ call ∈ s.calls, ∃ request, call.stage = .entering request) :
    ∃ s', Settles kinds s s' ∧ Inv s' ∧ s'.calls = s.calls ∧
      (s'.sessions i).pc.wantsLock = false ∧
      ∀ j, j ≠ i → (s'.sessions j).pc = (s.sessions j).pc := by
  have lockFree : s.lockFree i = true := by
    simp only [Node.lockFree, inv.held i, Bool.not_false, Bool.true_and, List.all_eq_true]
    intro call hmem
    obtain ⟨request, hstage⟩ := idle call hmem
    rw [hstage]
  have advances (pc : Pc)
      (next : follows (kinds i) (s.sessions i).leader (s.sessions i).pc pc = true)
      (hfree : pc.wantsLock = false) (hclosing : pc ≠ .closing) : ∃ s', Settles kinds s s' ∧
      Inv s' ∧ s'.calls = s.calls ∧ (s'.sessions i).pc.wantsLock = false ∧
      ∀ j, j ≠ i → (s'.sessions j).pc = (s.sessions j).pc := by
    have hpc : (s.sessions i).looping = none ∧ (s.sessions i).ready = true := by
      unfold SessionState.looping SessionState.ready
      cases h : (s.sessions i).pc <;> simp [h, Pc.wantsLock] at wants ⊢
    have meets : Accommodates s (.advance i pc) := by
      refine ⟨fun ch hch => ?_, fun h => absurd h hclosing⟩
      rw [hpc.1] at hch
      cases hch
    have taken : step kinds s (.advance i pc) = some _ := if_pos ⟨next, hpc.2, fun _ => lockFree⟩
    obtain ⟨settles, inv'⟩ := settles_step (.advance i pc) inv meets nofun taken
    refine ⟨_, settles, inv', rfl, ?_, fun j hj => ?_⟩
    · simpa [Node.set] using hfree
    · simp [Node.set, hj]
  cases hpc : (s.sessions i).pc with
  | starting => exact advances .choosing (by rw [hpc]; rfl) rfl nofun
  | updating => exact advances .signing (by rw [hpc]; rfl) rfl nofun
  | renewing => exact advances .delaying (by rw [hpc]; rfl) rfl nofun
  | building =>
      have taken : step kinds s (.build i false) = some _ := if_pos ⟨hpc, lockFree⟩
      obtain ⟨settles, inv'⟩ := settles_step (.build i false) inv trivial nofun taken
      refine ⟨_, settles, inv', rfl, ?_, fun j hj => ?_⟩
      · simp [Node.set, SessionState.build, Pc.wantsLock]
      · simp [Node.set, hj]
  | _ => simp [hpc, Pc.wantsLock] at wants

theorem Inv.closer (inv : Inv s) (busy : s.calls ≠ []) : ∃ s', Closer kinds s s' := by
  by_cases hsending : ∃ i ch, (⟨i, .sending ch⟩ : Call ι) ∈ s.calls
  · obtain ⟨i, ch, here⟩ := hsending
    exact inv.closer_of_sending kinds here
  · have idle : ∀ call ∈ s.calls, ∃ request, call.stage = .entering request := by
      rintro ⟨i, stage⟩ hmem
      cases stage with
      | entering request => exact ⟨request, rfl⟩
      | sending ch => exact absurd ⟨i, ch, hmem⟩ hsending
    obtain ⟨⟨i, stage⟩, hmem⟩ := List.exists_mem_of_ne_nil _ busy
    obtain ⟨request, hstage⟩ := idle _ hmem
    dsimp only at hstage
    subst hstage
    cases hwants : (s.sessions i).pc.wantsLock with
    | false => exact inv.closer_of_entering kinds hmem hwants
    | true =>
        obtain ⟨mid, settles, inv', hcalls, hfree, hothers⟩ :=
          inv.unlocks kinds hwants idle
        obtain ⟨s', closer⟩ := inv'.closer_of_entering kinds (hcalls ▸ hmem) hfree
        refine ⟨s', settles.trans closer.settles, closer.inv, ?_, fun j changing => ?_⟩
        · have hweight : mid.weight = s.weight := by rw [Node.weight, hcalls, Node.weight]
          have := closer.lighter
          omega
        · apply closer.changing
          rw [hothers j ?_]
          · exact changing
          · rintro rfl
            rw [changing] at hwants
            cases hwants

/-- The calls in progress return, and `onIdChange` gets its lock. -/
theorem Inv.changes (inv : Inv s) {i : ι} (changing : (s.sessions i).pc = .changing) :
    ∃ s', Settles kinds s s' ∧ (s'.sessions i).pc = .stale := by
  induction hweight : s.weight using Nat.strongRecOn generalizing s with
  | ind weight ih =>
      by_cases busy : s.calls = []
      · have taken : step kinds s (.changeId i) = some _ := if_pos ⟨changing, busy⟩
        refine ⟨_, (settles_step (.changeId i) inv trivial nofun taken).1, ?_⟩
        simp [Node.set]
      · obtain ⟨mid, closer⟩ := inv.closer kinds busy
        obtain ⟨s', settles, stale⟩ := ih mid.weight (hweight ▸ closer.lighter) closer.inv
          (closer.changing i changing) rfl
        exact ⟨s', closer.settles.trans settles, stale⟩

end Progress

/-- As long as the requests fit, no call waits on a channel that has been given up, and a session
that has ended gets to change its identifier. -/
theorem not_abandoned_of_accommodates (reached : (machine kinds).Reachable Accommodates s) :
    (∀ i ch, s.Blocked i ch → ¬ Abandoned kinds s i ch) ∧
      ∀ i, (s.sessions i).pc = .ended → ∃ s', Settles kinds s s' ∧ (s'.sessions i).pc = .stale := by
  have inv := inv_reachable reached
  refine ⟨fun i ch blocked abandoned => ?_, fun i ended => ?_⟩
  · exact abandoned s .refl (reading_of_looping (inv.looping_of_blocked blocked))
  · have hidle : (s.sessions i).looping = none ∧ (s.sessions i).ready = true := by
      simp [SessionState.looping, SessionState.ready, ended]
    have meets : Accommodates s (.advance i .changing) := by
      refine ⟨fun ch hch => ?_, nofun⟩
      rw [hidle.1] at hch
      cases hch
    have taken : step kinds s (.advance i .changing) = some _ :=
      if_pos ⟨by rw [ended]; rfl, hidle.2, fun wants => by rw [ended] at wants; cases wants⟩
    obtain ⟨settles, inv'⟩ := settles_step (.advance i .changing) inv meets nofun taken
    obtain ⟨s', settles', stale⟩ := inv'.changes kinds (i := i) (by simp [Node.set])
    exact ⟨s', settles.trans settles', stale⟩

/-! ## A wedged node -/

/-- A call waits in a send after the end of its session. -/
structure Stuck (s : Node ι) (i : ι) (ch : Chan) : Prop where
  blocked : s.Blocked i ch
  opened : ¬ (ch = .sign ∧ (s.sessions i).signClosed = true)
  finished : (s.sessions i).pc = .ended ∨ (s.sessions i).pc = .changing

section Stuck

variable {i : ι} {ch : Chan}

/-- A step of one session that is not over leaves the stuck one alone. -/
theorem Stuck.set (stuck : Stuck s i ch) {j : ι} {st : SessionState} (hcalls : s'.calls = s.calls)
    (hsessions : s'.sessions = Function.update s.sessions j st)
    (same : j = i → st.buffered ch = (s.sessions i).buffered ch ∧
      st.signClosed = (s.sessions i).signClosed ∧ (st.pc = .ended ∨ st.pc = .changing)) :
    Stuck s' i ch := by
  by_cases hj : j = i
  · obtain ⟨hbuffered, hclosed, hover⟩ := same hj
    subst hj
    refine ⟨⟨hcalls ▸ stuck.blocked.1, ?_⟩, ?_, ?_⟩
    · simpa only [hsessions, Function.update_self, hbuffered] using stuck.blocked.2
    · simpa only [hsessions, Function.update_self, hclosed] using stuck.opened
    · simpa only [hsessions, Function.update_self] using hover
  · have hsame : s'.sessions i = s.sessions i := by
      rw [hsessions, Function.update_of_ne (Ne.symm hj)]
    exact ⟨⟨hcalls ▸ stuck.blocked.1, hsame ▸ stuck.blocked.2⟩, hsame ▸ stuck.opened,
      hsame ▸ stuck.finished⟩

theorem Stuck.other (stuck : Stuck s i ch) {j : ι} {st : SessionState} (hcalls : s'.calls = s.calls)
    (hsessions : s'.sessions = Function.update s.sessions j st)
    (hended : (s.sessions j).pc ≠ .ended) (hchanging : (s.sessions j).pc ≠ .changing) :
    Stuck s' i ch := by
  refine stuck.set hcalls hsessions fun hj => ?_
  subst hj
  rcases stuck.finished with h | h
  · exact absurd h hended
  · exact absurd h hchanging

theorem Stuck.finish (stuck : Stuck s i ch) {call : Call ι} (other : call ≠ ⟨i, .sending ch⟩) :
    Stuck (s.finish call) i ch :=
  ⟨⟨(List.mem_erase_of_ne (Ne.symm other)).mpr stuck.blocked.1, stuck.blocked.2⟩, stuck.opened,
    stuck.finished⟩

omit [DecidableEq ι] in
theorem Stuck.not_stale (stuck : Stuck s i ch) : (s.sessions i).pc ≠ .stale := by
  rcases stuck.finished with h | h <;> simp [h]

omit [DecidableEq ι] in
theorem Stuck.looping (stuck : Stuck s i ch) : (s.sessions i).looping = none := by
  rcases stuck.finished with h | h <;> simp [SessionState.looping, h]

omit [DecidableEq ι] in
theorem Stuck.reading (stuck : Stuck s i ch) : (s.sessions i).reading = none := by
  rcases stuck.finished with h | h <;> simp [SessionState.reading, SessionState.looping, h]

theorem Stuck.preserved (stuck : Stuck s i ch) {label : Label ι}
    (stepped : Stepped kinds s label s') : Stuck s' i ch := by
  have here := stuck.blocked.1
  have full := stuck.blocked.2
  cases stepped with
  | enter j request free =>
      exact ⟨⟨List.mem_append_left _ here, full⟩, stuck.opened, stuck.finished⟩
  | refused call request hcall stage free refused =>
      apply stuck.finish
      rintro rfl
      cases stage
  | routed call request ch' hcall stage target =>
      have hcall : call ≠ ⟨i, .sending ch⟩ := by
        rintro rfl
        cases stage
      refine ⟨⟨List.mem_append_left _ ?_, full⟩, stuck.opened, stuck.finished⟩
      exact (List.mem_erase_of_ne (Ne.symm hcall)).mpr here
  | sent j ch' hcall room =>
      have hother : j = i → ch' ≠ ch := by
        rintro rfl rfl
        omega
      have hcall : (⟨j, .sending ch'⟩ : Call ι) ≠ ⟨i, .sending ch⟩ := by
        intro hsame
        cases hsame
        exact hother rfl rfl
      refine (stuck.finish hcall).set rfl rfl fun hj => ?_
      subst hj
      refine ⟨?_, rfl, stuck.finished⟩
      exact Function.update_of_ne (Ne.symm (hother rfl)) _ _
  | panicked j hcall closed =>
      have hcall : (⟨j, .sending .sign⟩ : Call ι) ≠ ⟨i, .sending ch⟩ := by
        intro hsame
        cases hsame
        exact stuck.opened ⟨rfl, closed⟩
      refine (stuck.finish hcall).set rfl rfl fun hj => ?_
      subst hj
      exact ⟨rfl, rfl, stuck.finished⟩
  | consume j ch' loops some =>
      refine stuck.set rfl rfl fun hj => ?_
      subst hj
      rw [stuck.looping] at loops
      cases loops
  | take j awaits => exact stuck.other rfl rfl (by simp [awaits]) (by simp [awaits])
  | advance j pc next ready =>
      refine stuck.set rfl rfl fun hj => ?_
      subst hj
      rcases stuck.finished with h | h
      · rw [h] at next
        obtain rfl : pc = .changing := by cases pc <;> first | rfl | cases next
        simp [SessionState.advance, h]
      · rw [h] at next
        cases pc <;> cases next
  | choose j consolidating chooses =>
      exact stuck.other rfl rfl (by simp [chooses]) (by simp [chooses])
  | changeId j changes alone =>
      rw [alone] at here
      cases here
  | build j leader builds => exact stuck.other rfl rfl (by simp [builds]) (by simp [builds])

/-- The manager's lock is never free again, and the session never changes its identifier. -/
theorem Stuck.forever {allowed : Node ι → Label ι → Prop} (stuck : Stuck s i ch)
    (run : (machine kinds).Leads allowed s s') : Stuck s' i ch :=
  run.invariant (P := fun s => Stuck s i ch)
    (fun _ _ _ stuck _ taken => stuck.preserved (stepped_of_step taken)) stuck

end Stuck

/-! ## Runs -/

instance decidableFits (s : Node ι) (i : ι) (ch : Chan) : Decidable (s.Fits i ch) :=
  inferInstanceAs (Decidable (_ ≤ _))

instance decidableAccommodates (s : Node ι) : (label : Label ι) → Decidable (Accommodates s label)
  | .enter i request => inferInstanceAs (Decidable
      ((∀ ch ∈ request.channels, (s.sessions i).looping = some ch ∨
        (s.sessions i).buffered ch + s.underWay i ch < ch.capacity) ∧ (_ → _ → _)))
  | .advance i _ => inferInstanceAs (Decidable
      ((∀ ch ∈ (s.sessions i).looping, s.Fits i ch) ∧ (_ → _)))
  | .deliver _ | .send _ | .consume _ | .take _ | .choose _ _ | .changeId _ | .build _ _ =>
      isTrue trivial

def sampleNode : Node Bool := ⟨fun _ => freshSession false, [], []⟩

theorem initial_sampleNode : (machine fun _ : Bool => .evm).init sampleNode :=
  ⟨fun _ => ⟨false, rfl⟩, rfl, rfl⟩

/-- A request to a session that gets to its channel. -/
def requested (i : Bool) (request : Request) : List (Label Bool) :=
  [.enter i request, .deliver ⟨i, .entering request⟩]

/-- A number of requests to a session, each of which goes through, and one more. -/
def requests (count : Nat) (i : Bool) (request : Request) (ch : Chan) : List (Label Bool) :=
  (List.replicate count (requested i request ++ [.send ⟨i, .sending ch⟩])).flatten ++
    requested i request

/-- One session receives a message more than its channel holds while its loop runs, and the
other's ends. -/
def sampleRun : List (Label Bool) :=
  .advance false .listening :: requests 100 false (.consensus .msgs) (.consensus false .msgs) ++
    [.advance true .listening, .advance true .ended]

theorem not_abandoned_sampleRun :
    ∃ s, (machine fun _ : Bool => .evm).Reachable Accommodates s ∧
      s.Blocked false (.consensus false .msgs) ∧
      ¬ Abandoned (fun _ => .evm) s false (.consensus false .msgs) ∧
      ∃ s', Settles (fun _ => .evm) s s' ∧ (s'.sessions true).pc = .stale := by
  have hrun : ((machine fun _ : Bool => .evm).exec Accommodates sampleNode sampleRun).map
      (fun s => (s.calls, (s.sessions false).buffered (.consensus false .msgs),
        (s.sessions true).pc)) =
      some ([⟨false, .sending (.consensus false .msgs)⟩], 100, .ended) := by decide +kernel
  obtain ⟨s, hs, heq⟩ := Option.map_eq_some_iff.mp hrun
  simp only [Prod.mk.injEq] at heq
  obtain ⟨hcalls, hbuffered, ended⟩ := heq
  have reached : (machine fun _ : Bool => .evm).Reachable Accommodates s :=
    Machine.Reachable.exec (.init initial_sampleNode) hs
  have blocked : s.Blocked false (.consensus false .msgs) :=
    ⟨by simp [hcalls], by simp [hbuffered, Chan.capacity]⟩
  obtain ⟨attended, changes⟩ := not_abandoned_of_accommodates reached
  exact ⟨s, reached, blocked, attended _ _ blocked, changes true ended⟩

/-- A hundred and one `RT_SIGN` requests for a session that then has nothing to sign: the last of
them keeps the lock for ever. -/
theorem receive_wedges :
    ∃ s, (machine fun _ : Bool => .evm).Reaches s ∧ s.Blocked false .sign ∧
      Abandoned (fun _ => .evm) s false .sign ∧
      (s.sessions false).pc = .ended ∧
      ∀ s', (machine fun _ : Bool => .evm).Leads (fun _ _ => True) s s' →
        s'.calls ≠ [] ∧ (s'.sessions false).pc ≠ .stale := by
  have hrun : ((machine fun _ : Bool => .evm).exec (fun _ _ => True) sampleNode
      (requests 100 false .sign .sign ++ [.advance false .listening, .advance false .ended])).map
      (fun s => (s.calls, (s.sessions false).buffered .sign, (s.sessions false).signClosed,
        (s.sessions false).pc)) =
      some ([⟨false, .sending .sign⟩], 100, false, .ended) := by decide +kernel
  obtain ⟨s, hs, heq⟩ := Option.map_eq_some_iff.mp hrun
  simp only [Prod.mk.injEq] at heq
  obtain ⟨hcalls, hbuffered, hclosed, ended⟩ := heq
  have reached : (machine fun _ : Bool => .evm).Reaches s :=
    Machine.Reachable.exec (.init initial_sampleNode) hs
  have stuck : Stuck s false .sign :=
    ⟨⟨by simp [hcalls], by simp [hbuffered, Chan.capacity]⟩, by simp [hclosed], .inl ended⟩
  refine ⟨s, reached, stuck.blocked, fun s' run => ?_, ended, fun s' run => ⟨?_, ?_⟩⟩
  · rw [(stuck.forever run).reading]
    nofun
  · exact List.ne_nil_of_mem (stuck.forever run).blocked.1
  · exact (stuck.forever run).not_stale

end TssSvc.P2p
