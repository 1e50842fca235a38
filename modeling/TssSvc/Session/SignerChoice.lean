import Mathlib.Data.List.InsertIdx
import Mathlib.Logic.Equiv.Basic
import TssSvc.Session.SignerSet

/-!
# What the choice of signers depends on

`getSignersSet` removes candidates by their position, with positions that the session id alone
determines.  The candidates come from `Acceptors`, which walks a Go map, so their order is not
determined by anything.  `selected_eq_iff` says when the selected set does not depend on it:
when nobody or everybody who acknowledged is selected.
-/

set_option autoImplicit false

namespace TssSvc.Session

open TssSvc.Broadcast

variable {D T : Type}

/-! ## Removal by position -/

/-- Renaming the candidates renames those that are left. -/
theorem removeSigners_map (f : Address → Address) (rand : Nat → UInt64) (n : Nat) :
    ∀ (i : Nat) (signers : List Address), removeSigners rand n i (signers.map f) =
      (removeSigners rand n i signers).map (List.map f) := by
  induction n with
  | zero => intro i signers; rfl
  | succ n ih =>
      intro i signers
      rw [removeSigners, removeSigners, List.length_map]
      split
      · rfl
      · rw [List.eraseIdx_map, ih]

theorem removeSigners_isSome (rand : Nat → UInt64) (n : Nat) :
    ∀ (i : Nat) (signers : List Address),
      (removeSigners rand n i signers).isSome ↔ n ≤ signers.length := by
  induction n with
  | zero => intro i signers; simp [removeSigners]
  | succ n ih =>
      intro i signers
      rw [removeSigners]
      split
      · rename_i hempty
        simp [hempty]
      · rename_i hsome
        rw [ih, List.length_eraseIdx_of_lt (Nat.mod_lt _ (Nat.pos_of_ne_zero hsome))]
        omega

theorem getSignersSet_map (f : Address → Address) (signers : List Address) (threshold : Int)
    (rand : Nat → UInt64) :
    getSignersSet (signers.map f) threshold rand =
      (getSignersSet signers threshold rand).map (List.map f) := by
  simp only [getSignersSet, List.length_map]
  split
  · rfl
  · exact removeSigners_map f rand _ 0 signers

/-! ## The choice from a list of candidates -/

/-- The set `propose` selects from the candidates in the order they come; the inner `none` is
"not enough parties", the outer one a panic. -/
def signersChoice (threshold : Int) (rand : Nat → UInt64) (possibleSigners : List Address) :
    Option (Option (Finset Address)) :=
  if (possibleSigners.length : Int) + 1 ≤ threshold then some none
  else (getSignersSet possibleSigners threshold rand).map fun signers => some signers.toFinset

section Choice

variable {threshold : Int} (rand : Nat → UInt64) {l l' : List Address}

theorem signersChoice_few (few : (l.length : Int) < threshold) :
    signersChoice threshold rand l = some none := if_pos (by omega)

theorem signersChoice_exactly (exactly : (l.length : Int) = threshold) :
    signersChoice threshold rand l = some (some l.toFinset) := by
  rw [signersChoice, if_neg (by omega)]
  simp only [getSignersSet]
  rw [if_pos (by omega)]
  rfl

/-- From enough candidates, `threshold` of them are taken. -/
theorem signersChoice_enough (positive : 0 < threshold) (enough : threshold ≤ l.length) :
    ∃ chosen, getSignersSet l threshold rand = some chosen ∧ chosen.Sublist l ∧
      (chosen.length : Int) = threshold ∧
      signersChoice threshold rand l = some (some chosen.toFinset) := by
  have hsome : ∃ chosen, getSignersSet l threshold rand = some chosen := by
    simp only [getSignersSet]
    split
    · exact ⟨l, rfl⟩
    · exact Option.isSome_iff_exists.mp ((removeSigners_isSome rand _ 0 l).mpr (by omega))
  obtain ⟨chosen, hchosen⟩ := hsome
  obtain ⟨hsub, hlength⟩ := getSignersSet_eq_some (by omega) hchosen
  refine ⟨chosen, hchosen, hsub, hlength, ?_⟩
  rw [signersChoice, if_neg (by omega), hchosen]
  rfl

/-- Nobody is selected below a positive threshold, and a negative one makes the loop divide by
zero. -/
theorem signersChoice_nonpositive (nonpositive : threshold ≤ 0) :
    signersChoice threshold rand l = if threshold = 0 then some (some ∅) else none := by
  have hremove : getSignersSet l threshold rand = if threshold = 0 then some [] else none := by
    simp only [getSignersSet]
    by_cases hzero : threshold = 0
    · rw [if_pos hzero]
      split
      · rename_i hnone
        rw [List.length_eq_zero_iff.mp (by omega : l.length = 0)]
      · obtain ⟨chosen, hchosen⟩ := Option.isSome_iff_exists.mp
          ((removeSigners_isSome rand ((l.length : Int) - threshold).toNat 0 l).mpr (by omega))
        have hlength := (removeSigners_eq_some hchosen).2
        rw [hchosen, List.length_eq_zero_iff.mp (by omega : chosen.length = 0)]
    · rw [if_neg hzero, if_neg (by omega), ← Option.not_isSome_iff_eq_none, removeSigners_isSome]
      omega
  rw [signersChoice, if_neg (by omega), hremove]
  split <;> rfl

theorem perm_map_swap (nodup : l.Nodup) {x y : Address} (hx : x ∈ l) (hy : y ∈ l) :
    (l.map (Equiv.swap x y)).Perm l := by
  rw [List.perm_ext_iff_of_nodup (nodup.map (Equiv.swap x y).injective) nodup]
  have hstays : ∀ a ∈ l, Equiv.swap x y a ∈ l := by
    intro a ha
    rw [Equiv.swap_apply_def]
    split_ifs
    · exact hy
    · exact hx
    · exact ha
  intro a
  constructor
  · intro ha
    obtain ⟨b, hb, rfl⟩ := List.mem_map.mp ha
    exact hstays b hb
  · intro ha
    exact List.mem_map.mpr ⟨_, hstays a ha, Equiv.swap_apply_self x y a⟩

/-- With more candidates than needed, another order of the same candidates gives another set:
one that is selected and one that is not trade places. -/
theorem exists_other_choice (positive : 0 < threshold) (nodup : l.Nodup)
    (many : threshold < l.length) :
    ∃ other : List Address, other.Perm l ∧
      signersChoice threshold rand other ≠ signersChoice threshold rand l := by
  obtain ⟨chosen, hchosen, hsub, hlength, hchoice⟩ :=
    signersChoice_enough rand positive (le_of_lt many)
  obtain ⟨x, hx⟩ := List.exists_mem_of_length_pos (by omega : 0 < chosen.length)
  obtain ⟨y, hy, hleft⟩ : ∃ y ∈ l, y ∉ chosen := by
    by_contra hnone
    push Not at hnone
    have hle := (nodup.subperm hnone).length_le
    omega
  refine ⟨l.map (Equiv.swap x y), perm_map_swap nodup (hsub.subset hx) hy, ?_⟩
  have hother : signersChoice threshold rand (l.map (Equiv.swap x y)) =
      some (some (chosen.map (Equiv.swap x y)).toFinset) := by
    rw [signersChoice, List.length_map, if_neg (by omega), getSignersSet_map, hchosen]
    rfl
  intro heq
  rw [hother, hchoice, Option.some.injEq, Option.some.injEq] at heq
  have hy' : y ∈ (chosen.map (Equiv.swap x y)).toFinset :=
    List.mem_toFinset.mpr (List.mem_map.mpr ⟨x, hx, Equiv.swap_apply_left x y⟩)
  rw [heq, List.mem_toFinset] at hy'
  exact hleft hy'

theorem length_le_of_choice_const (positive : 0 < threshold) (nodup : l.Nodup)
    (const : ∀ a : List Address, a.Perm l →
      signersChoice threshold rand a = signersChoice threshold rand l) :
    (l.length : Int) ≤ threshold := by
  by_contra hmany
  obtain ⟨other, hperm, hdiffers⟩ := exists_other_choice rand positive nodup (not_le.mp hmany)
  exact hdiffers (const other hperm)

/-- When every order of the candidates `l` and every order of `l'` lead to one set. -/
theorem signersChoice_eq_iff (nodup : l.Nodup) (nodup' : l'.Nodup) :
    (∀ a b : List Address, a.Perm l → b.Perm l' →
        signersChoice threshold rand a = signersChoice threshold rand b) ↔
      threshold ≤ 0 ∨ ((l.length : Int) < threshold ∧ (l'.length : Int) < threshold) ∨
        (l.toFinset = l'.toFinset ∧ (l.length : Int) = threshold) := by
  constructor
  · intro hall
    by_cases hpositive : threshold ≤ 0
    · exact .inl hpositive
    have positive : 0 < threshold := not_le.mp hpositive
    have heq := hall l l' (List.Perm.refl _) (List.Perm.refl _)
    have hlength := length_le_of_choice_const rand positive nodup fun a ha =>
      (hall a l' ha (List.Perm.refl _)).trans heq.symm
    have hlength' := length_le_of_choice_const rand positive nodup' fun b hb =>
      (hall l b (List.Perm.refl _) hb).symm.trans heq
    refine .inr ?_
    rcases hlength.lt_or_eq with hfew | hexactly
    · rcases hlength'.lt_or_eq with hfew' | hexactly'
      · exact .inl ⟨hfew, hfew'⟩
      · rw [signersChoice_few rand hfew, signersChoice_exactly rand hexactly'] at heq
        cases heq
    · rcases hlength'.lt_or_eq with hfew' | hexactly'
      · rw [signersChoice_few rand hfew', signersChoice_exactly rand hexactly] at heq
        cases heq
      · rw [signersChoice_exactly rand hexactly, signersChoice_exactly rand hexactly',
          Option.some.injEq, Option.some.injEq] at heq
        exact .inr ⟨heq, hexactly⟩
  · rintro (hnonpositive | ⟨hfew, hfew'⟩ | ⟨hsame, hexactly⟩) a b ha hb
    · rw [signersChoice_nonpositive rand hnonpositive, signersChoice_nonpositive rand hnonpositive]
    · rw [signersChoice_few rand (by rw [ha.length_eq]; exact hfew),
        signersChoice_few rand (by rw [hb.length_eq]; exact hfew')]
    · have hperm : l.Perm l' := List.perm_of_nodup_nodup_toFinset_eq nodup nodup' hsame
      rw [signersChoice_exactly rand (by rw [ha.length_eq]; exact hexactly),
        signersChoice_exactly rand (by rw [hb.length_eq, ← hperm.length_eq]; exact hexactly),
        List.toFinset_eq_of_perm _ _ (ha.trans (hperm.trans hb.symm))]

end Choice

/-! ## Who acknowledged -/

/-- What a message answers to the proposal, if it is an answer that can be read. -/
def ConsensusMsg.answer (d : Decoders D T) (msg : ConsensusMsg D) : Option Bool :=
  if msg.type = .acceptance then
    match d.acceptanceData msg.data with
    | .ok accepted => some accepted
    | _ => none
  else none

def firstAnswer (d : Decoders D T) (msgs : List (ConsensusMsg D)) (party : Address) : Option Bool :=
  msgs.findSome? fun msg => if msg.sender = party then msg.answer d else none

/-- The parties whose first answer is an ACK. -/
def acknowledged (d : Decoders D T) (msgs : List (ConsensusMsg D)) : Finset Address :=
  (msgs.map ConsensusMsg.sender).toFinset.filter fun party => firstAnswer d msgs party = some true

section Acknowledged

variable {d : Decoders D T}

theorem mem_acknowledged {msgs : List (ConsensusMsg D)} {party : Address} :
    party ∈ acknowledged d msgs ↔ firstAnswer d msgs party = some true := by
  rw [acknowledged, Finset.mem_filter, List.mem_toFinset]
  constructor
  · exact fun h => h.2
  · intro h
    obtain ⟨msg, hmsg, hanswer⟩ := List.exists_of_findSome?_eq_some h
    split at hanswer
    · rename_i hsender
      exact ⟨List.mem_map.mpr ⟨msg, hmsg, hsender⟩, h⟩
    · cases hanswer

theorem collect_eq (acceptances : Acceptances) (msg : ConsensusMsg D) :
    collect d acceptances msg =
      match msg.answer d with
      | some accepted =>
          if msg.sender ∈ acceptances.senders then acceptances
          else acceptances ++ [(msg.sender, accepted)]
      | none => acceptances := by
  unfold collect ConsensusMsg.answer
  by_cases htype : msg.type = .acceptance
  · rw [if_neg (not_not.mpr htype), if_pos htype]
    cases d.acceptanceData msg.data with
    | ok accepted => rfl
    | err e => exact ite_self _
    | panic reason => exact ite_self _
  · rw [if_pos htype, if_neg htype]

/-- The map holds the first answer of every party. -/
theorem mem_collected (msgs : List (ConsensusMsg D)) : ∀ (party : Address) (accepted : Bool),
    (party, accepted) ∈ msgs.foldl (collect d) [] ↔ firstAnswer d msgs party = some accepted := by
  induction msgs using List.reverseRecOn with
  | nil => intro party accepted; simp [firstAnswer]
  | append_singleton msgs msg ih =>
      intro party accepted
      have hsenders : ∀ p : Address, p ∈ Acceptances.senders (msgs.foldl (collect d) []) ↔
          ∃ answer, firstAnswer d msgs p = some answer := by
        intro p
        simp only [Acceptances.senders, List.mem_map, Prod.exists, exists_and_right,
          exists_eq_right]
        exact exists_congr fun answer => ih p answer
      have hnext : firstAnswer d (msgs ++ [msg]) party =
          (firstAnswer d msgs party).or (if msg.sender = party then msg.answer d else none) := by
        rw [firstAnswer, List.findSome?_append]
        simp [firstAnswer]
      rw [List.foldl_append, List.foldl_cons, List.foldl_nil, collect_eq, hnext]
      cases hanswer : msg.answer d with
      | none => simp [ih]
      | some answer =>
          dsimp only
          by_cases hsender : msg.sender = party
          · rw [if_pos hsender, hsender]
            cases hfirst : firstAnswer d msgs party with
            | some first =>
                rw [if_pos ((hsenders party).mpr ⟨first, hfirst⟩), ih, hfirst, Option.some_or]
            | none =>
                have hnew : ¬ ∃ answer, firstAnswer d msgs party = some answer := by simp [hfirst]
                rw [if_neg (mt (hsenders party).mp hnew), List.mem_append, ih, hfirst]
                simp [eq_comm]
          · rw [if_neg hsender, Option.or_none]
            split
            · exact ih party accepted
            · rw [List.mem_append, ih party accepted, List.mem_singleton, Prod.mk.injEq]
              exact or_iff_left fun h => hsender h.1.symm

theorem toFinset_acceptors (msgs : List (ConsensusMsg D)) :
    (Acceptances.acceptors (msgs.foldl (collect d) [])).toFinset = acknowledged d msgs := by
  ext party
  rw [List.mem_toFinset, mem_acknowledged, ← mem_collected]
  simp only [Acceptances.acceptors, List.mem_map, List.mem_filter, Prod.exists, exists_and_right,
    exists_eq_right]

theorem length_acceptors (msgs : List (ConsensusMsg D)) :
    (Acceptances.acceptors (msgs.foldl (collect d) [])).length = (acknowledged d msgs).card := by
  rw [← toFinset_acceptors, List.toFinset_card_of_nodup (collected_foldl d msgs).nodup_acceptors]

end Acknowledged

/-! ## Runs of the proposer -/

/-- A run that gets to the acceptance boundary with the messages `msgs`: the map is walked in
some order, and the generator is seeded with the session id. -/
structure Consensus.HonestRun (c : Consensus) (deterministicRandSource : GoString → Nat → UInt64)
    (msgs : List (ConsensusMsg D)) (run : ProposerRun D T) : Prop where
  formed : ∃ data, run.formed = .ok (some data)
  proposed : run.proposalBroadcast = true
  lasted : run.ended = none
  taken : run.msgs = msgs
  walked : ∀ a, (run.walk a).Perm a
  seeded : run.rand = deterministicRandSource c.sessionId

/-- The addresses of `c.result.signers`; the outer `none` is a panic. -/
def Consensus.selected (d : Decoders D T) (c : Consensus) (run : ProposerRun D T) :
    Option (Option (Finset Address)) :=
  (c.propose d run).map fun result =>
    result.signers.map fun signers => (signers.map Party.coreAddress).toFinset

section Runs

variable {d : Decoders D T} {c : Consensus} {source : GoString → Nat → UInt64}
  {msgs : List (ConsensusMsg D)}

theorem Consensus.HonestRun.possibleSigners_perm {run : ProposerRun D T}
    (honest : c.HonestRun source msgs run) :
    (run.possibleSigners d).Perm (Acceptances.acceptors (msgs.foldl (collect d) [])) := by
  rw [ProposerRun.possibleSigners, honest.taken]
  exact ((honest.walked _).filter _).map _

/-- A known sender's entry of `c.parties` is its own. -/
theorem Consensus.coreAddress_party {a : Address} (known : (c.party a).isSome) :
    ((c.party a).getD ⟨[], none⟩).coreAddress = a := by
  obtain ⟨party, hparty⟩ := Option.isSome_iff_exists.mp known
  rw [hparty, Option.getD_some]
  exact (Group.View.party_eq_some hparty).2

theorem Consensus.HonestRun.selected_eq {run : ProposerRun D T}
    (honest : c.HonestRun source msgs run)
    (received : ∀ msg ∈ msgs, ∃ request, c.receive d request = .ok (.msgs msg)) :
    c.selected d run =
      signersChoice c.threshold (source c.sessionId) (run.possibleSigners d) := by
  obtain ⟨data, hformed⟩ := honest.formed
  have hknown : ∀ a ∈ run.possibleSigners d, (c.party a).isSome := by
    intro a ha
    obtain ⟨msg, hmsg, rfl, -, -⟩ :=
      (collected_foldl d msgs).accepted (honest.possibleSigners_perm.mem_iff.mp ha)
    obtain ⟨request, hreceive⟩ := received msg hmsg
    exact receive_msgs_sender hreceive
  simp only [selected, propose, hformed, honest.proposed, honest.lasted, if_true, selectSigners,
    honest.seeded, signersChoice]
  by_cases hfew : ((run.possibleSigners d).length : Int) + 1 ≤ c.threshold
  · rw [if_pos hfew, if_pos hfew]
    rfl
  · rw [if_neg hfew, if_neg hfew, Option.map_map]
    cases hchosen : getSignersSet (run.possibleSigners d) c.threshold (source c.sessionId) with
    | none => rfl
    | some chosen =>
        have hsub := (getSignersSet_eq_some (by omega) hchosen).1
        have hsame : (chosen.map fun a => (c.party a).getD ⟨[], none⟩).map Party.coreAddress =
            chosen := by
          rw [List.map_map]
          conv_rhs => rw [← List.map_id chosen]
          exact List.map_congr_left fun a ha => coreAddress_party (hknown a (hsub.subset ha))
        simp only [Option.map_some, Function.comp_apply, hsame]

/-- Every order of the acceptors is that of some walk over the map. -/
theorem Consensus.exists_honestRun (source : GoString → Nat → UInt64) (data : T)
    (order : List Address)
    (perm : order.Perm (Acceptances.acceptors (msgs.foldl (collect d) []))) :
    ∃ run : ProposerRun D T, c.HonestRun source msgs run ∧ run.possibleSigners d = order := by
  let walk : Acceptances → Acceptances := fun a =>
    if a = msgs.foldl (collect d) [] then
      order.map (fun party => (party, true)) ++ a.filter fun entry => !entry.2
    else a
  have hwalk : ∀ a, (walk a).Perm a := by
    intro a
    simp only [walk]
    split
    · rename_i ha
      have htrue : (a.acceptors.map fun party => (party, true)) = a.filter Prod.snd := by
        rw [Acceptances.acceptors, List.map_map]
        conv_rhs => rw [← List.map_id (a.filter Prod.snd)]
        refine List.map_congr_left fun entry hentry => ?_
        exact Prod.ext rfl (List.mem_filter.mp hentry).2.symm
      have hfirst := perm.map fun party => (party, true)
      rw [← ha, htrue] at hfirst
      exact (hfirst.append_right _).trans (List.filter_append_perm Prod.snd a)
    · exact List.Perm.refl a
  refine ⟨⟨.ok (some data), true, none, msgs, walk, source c.sessionId, true⟩,
    ⟨⟨data, rfl⟩, rfl, rfl, rfl, hwalk, rfl⟩, ?_⟩
  simp only [ProposerRun.possibleSigners, walk, if_true, Acceptances.acceptors, List.filter_append,
    List.filter_filter, List.map_append, List.filter_map]
  simp [Function.comp_def]

/-- Two runs of one proposer with messages `msgs` and `msgs'` select the same set under every
walk over the map exactly when the threshold is not positive, when too few parties acknowledged
in both, or when the same parties did and there are `threshold` of them. -/
theorem selected_eq_iff [Nonempty T] (deterministicRandSource : GoString → Nat → UInt64)
    (d : Decoders D T) (c : Consensus) (msgs msgs' : List (ConsensusMsg D))
    (received : ∀ msg ∈ msgs ++ msgs', ∃ request, c.receive d request = .ok (.msgs msg)) :
    (∀ run run' : ProposerRun D T, c.HonestRun deterministicRandSource msgs run →
        c.HonestRun deterministicRandSource msgs' run' → c.selected d run = c.selected d run') ↔
      c.threshold ≤ 0 ∨
        (((acknowledged d msgs).card : Int) < c.threshold ∧
          ((acknowledged d msgs').card : Int) < c.threshold) ∨
        (acknowledged d msgs = acknowledged d msgs' ∧
          ((acknowledged d msgs).card : Int) = c.threshold) := by
  obtain ⟨data⟩ := ‹Nonempty T›
  have hleft : ∀ msg ∈ msgs, ∃ request, c.receive d request = .ok (.msgs msg) :=
    fun msg hmsg => received msg (List.mem_append_left _ hmsg)
  have hright : ∀ msg ∈ msgs', ∃ request, c.receive d request = .ok (.msgs msg) :=
    fun msg hmsg => received msg (List.mem_append_right _ hmsg)
  rw [← length_acceptors, ← length_acceptors, ← toFinset_acceptors, ← toFinset_acceptors,
    ← signersChoice_eq_iff (deterministicRandSource c.sessionId)
      (collected_foldl d msgs).nodup_acceptors (collected_foldl d msgs').nodup_acceptors]
  constructor
  · intro hruns a b ha hb
    obtain ⟨run, honest, rfl⟩ := Consensus.exists_honestRun (c := c)
      deterministicRandSource data a ha
    obtain ⟨run', honest', rfl⟩ := Consensus.exists_honestRun (c := c)
      deterministicRandSource data b hb
    rw [← honest.selected_eq hleft, ← honest'.selected_eq hright]
    exact hruns run run' honest honest'
  · intro hchoices run run' honest honest'
    rw [honest.selected_eq hleft, honest'.selected_eq hright]
    exact hchoices _ _ honest.possibleSigners_perm honest'.possibleSigners_perm

end Runs

section Sample

theorem sampleProposer_receives {msg : ConsensusMsg Bool} (sender : msg.sender ∈ [[2], [3]])
    (type : msg.type = .acceptance) :
    ∃ request, sampleProposer.receive sampleDecoders request = .ok (.msgs msg) := by
  obtain ⟨address, _, accepted⟩ := msg
  obtain rfl := type
  refine ⟨some ⟨address, str "s", .acceptance, accepted⟩, ?_⟩
  simp only [List.mem_cons, List.not_mem_nil, or_false] at sender
  rcases sender with rfl | rfl <;> rfl

/-- One of the two others acknowledges, and one is needed: the generator is not asked. -/
theorem selected_eq_iff_sampleProposal :
    acknowledged sampleDecoders sampleProposal.msgs = {[2]} ∧
      ∀ run run' : ProposerRun Bool Unit,
        sampleProposer.HonestRun (fun _ _ => 7) sampleProposal.msgs run →
        sampleProposer.HonestRun (fun _ _ => 7) sampleProposal.msgs.reverse run' →
          sampleProposer.selected sampleDecoders run =
            sampleProposer.selected sampleDecoders run' := by
  have hleft : acknowledged sampleDecoders sampleProposal.msgs = {[2]} := by decide
  have hright : acknowledged sampleDecoders sampleProposal.msgs.reverse = {[2]} := by decide
  refine ⟨hleft, (selected_eq_iff (fun _ _ => 7) sampleDecoders sampleProposer
    sampleProposal.msgs sampleProposal.msgs.reverse ?_).mpr (.inr (.inr ⟨?_, ?_⟩))⟩
  · intro msg hmsg
    simp only [sampleProposal, List.reverse_cons, List.reverse_nil, List.nil_append,
      List.cons_append, List.mem_cons, List.not_mem_nil, or_false] at hmsg
    rcases hmsg with rfl | rfl | rfl | rfl <;> exact sampleProposer_receives (by decide) rfl
  · rw [hleft, hright]
  · rw [hleft]
    rfl

theorem signersChoice_pair (rand : Nat → UInt64) (x y : Address) :
    signersChoice 1 rand [x, y] =
      if (rand 0).toNat % 2 = 0 then some (some {y}) else some (some {x}) := by
  have hone : getSignersSet [x, y] 1 rand = some ([x, y].eraseIdx ((rand 0).toNat % 2)) := rfl
  rw [signersChoice, if_neg (by simp), hone]
  rcases Nat.mod_two_eq_zero_or_one (rand 0).toNat with heven | hodd
  · rw [heven]
    rfl
  · rw [hodd]
    rfl

/-- Both others acknowledge. -/
def twoAcks : List (ConsensusMsg Bool) := [⟨[2], .acceptance, true⟩, ⟨[3], .acceptance, true⟩]

def twoAcksRun (source : GoString → Nat → UInt64) (walk : Acceptances → Acceptances) :
    ProposerRun Bool Unit :=
  ⟨.ok (some ()), true, none, twoAcks, walk, source sampleProposer.sessionId, true⟩

/-- One of the two is needed, and whatever the generator draws, the other walk over the map
selects the other party. -/
theorem selected_twoAcks_differs :
    ∃ walk walk' : Acceptances → Acceptances, ∀ source : GoString → Nat → UInt64,
      sampleProposer.HonestRun source twoAcks (twoAcksRun source walk) ∧
      sampleProposer.HonestRun source twoAcks (twoAcksRun source walk') ∧
      sampleProposer.selected sampleDecoders (twoAcksRun source walk) ≠
        sampleProposer.selected sampleDecoders (twoAcksRun source walk') := by
  refine ⟨id, List.reverse, fun source => ?_⟩
  have hid : sampleProposer.HonestRun source twoAcks (twoAcksRun source id) :=
    ⟨⟨(), rfl⟩, rfl, rfl, rfl, List.Perm.refl, rfl⟩
  have hreverse : sampleProposer.HonestRun source twoAcks (twoAcksRun source List.reverse) :=
    ⟨⟨(), rfl⟩, rfl, rfl, rfl, List.reverse_perm, rfl⟩
  have received : ∀ msg ∈ twoAcks,
      ∃ request, sampleProposer.receive sampleDecoders request = .ok (.msgs msg) := by
    intro msg hmsg
    simp only [twoAcks, List.mem_cons, List.not_mem_nil, or_false] at hmsg
    rcases hmsg with rfl | rfl <;> exact sampleProposer_receives (by decide) rfl
  refine ⟨hid, hreverse, ?_⟩
  rw [hid.selected_eq received, hreverse.selected_eq received]
  have hforth := signersChoice_pair (source sampleProposer.sessionId) [2] [3]
  have hback := signersChoice_pair (source sampleProposer.sessionId) [3] [2]
  rcases Nat.mod_two_eq_zero_or_one (source sampleProposer.sessionId 0).toNat with heven | hodd
  · rw [if_pos heven] at hforth hback
    exact fun heq => absurd (hforth.symm.trans (heq.trans hback)) (by decide)
  · rw [if_neg (by omega)] at hforth hback
    exact fun heq => absurd (hforth.symm.trans (heq.trans hback)) (by decide)

end Sample

end TssSvc.Session
