import TssSvc.Tss.PartyIndex

/-!
# When signings keep their indices

The index of a party in a signing is its rank among the signers' keys.  The indices of all
signings stay right exactly as long as a party that takes part in several of them has the same
rank in each, whatever else the sessions do.
-/

set_option autoImplicit false

namespace TssSvc.Tss

open TssSvc.Rank

/-! ## The heap -/

section Heap

variable {heap : Heap} {ref : Ref}

theorem keyOf_modify_index (target : Ref) (i : Int) :
    keyOf (heap.modify target fun id => { id with index := i }) ref = keyOf heap ref := by
  simp only [keyOf, List.getElem?_modify]
  cases heap[ref]? with
  | none => rfl
  | some id =>
      simp only [Option.map_eq_map, Option.map_some, Option.elim_some]
      split <;> rfl

@[simp]
theorem keyOf_assignIndexes (i : Nat) (refs : List Ref) :
    keyOf (assignIndexes heap i refs) ref = keyOf heap ref := by
  induction refs generalizing heap i with
  | nil => rfl
  | cons target rest ih => rw [assignIndexes, ih, keyOf_modify_index]

@[simp]
theorem length_assignIndexes (i : Nat) (refs : List Ref) :
    (assignIndexes heap i refs).length = heap.length := by
  induction refs generalizing heap i with
  | nil => rfl
  | cons target rest ih => rw [assignIndexes, ih, List.length_modify]

theorem indexOf_assignIndexes_of_notMem (i : Nat) {refs : List Ref} (h : ref ∉ refs) :
    indexOf (assignIndexes heap i refs) ref = indexOf heap ref := by
  induction refs generalizing heap i with
  | nil => rfl
  | cons target rest ih =>
      rw [List.mem_cons, not_or] at h
      rw [assignIndexes, ih (i + 1) h.2]
      simp [indexOf, Ne.symm h.1]

theorem indexOf_assignIndexes {refs : List Ref} (nodup : refs.Nodup)
    (bound : ∀ ref ∈ refs, ref < heap.length) (start : Nat) {j : Nat} (h : refs[j]? = some ref) :
    indexOf (assignIndexes heap start refs) ref = some (start + j : Nat) := by
  induction refs generalizing heap start j with
  | nil => simp at h
  | cons target rest ih =>
      rw [List.nodup_cons] at nodup
      rw [assignIndexes]
      cases j with
      | zero =>
          rw [List.getElem?_cons_zero, Option.some.injEq] at h
          subst h
          rw [indexOf_assignIndexes_of_notMem _ nodup.1]
          have hlt : target < heap.length := bound target List.mem_cons_self
          simp [indexOf, hlt]
      | succ j =>
          rw [List.getElem?_cons_succ] at h
          have hbound : ∀ ref ∈ rest,
              ref < (heap.modify target fun id => { id with index := start }).length := by
            intro ref hmem
            rw [List.length_modify]
            exact bound ref (List.mem_cons_of_mem _ hmem)
          rw [ih nodup.2 hbound (start + 1) h]
          congr 2
          omega

end Heap

section Library

variable {lib : TssLib} (lawful : lib.Lawful) {heap : Heap} {key : Nat} {ref : Ref}

include lawful

theorem newPartyID_ref : (lib.newPartyID heap key).1 = heap.length := by
  obtain ⟨index, hnew⟩ := lawful.allocates heap key
  rw [hnew]

theorem length_newPartyID : (lib.newPartyID heap key).2.length = heap.length + 1 := by
  obtain ⟨index, hnew⟩ := lawful.allocates heap key
  simp [hnew]

theorem keyOf_newPartyID (h : ref < heap.length) :
    keyOf (lib.newPartyID heap key).2 ref = keyOf heap ref := by
  obtain ⟨index, hnew⟩ := lawful.allocates heap key
  simp [keyOf, hnew, List.getElem?_append_left h]

theorem indexOf_newPartyID (h : ref < heap.length) :
    indexOf (lib.newPartyID heap key).2 ref = indexOf heap ref := by
  obtain ⟨index, hnew⟩ := lawful.allocates heap key
  simp [indexOf, hnew, List.getElem?_append_left h]

theorem keyOf_newPartyID_self (heap : Heap) (key : Nat) :
    keyOf (lib.newPartyID heap key).2 heap.length = key := by
  obtain ⟨index, hnew⟩ := lawful.allocates heap key
  simp [keyOf, hnew]

theorem keyOf_sortPartyIDs (ids : List Ref) :
    keyOf (lib.sortPartyIDs heap ids).2 ref = keyOf heap ref := by
  rw [lawful.numbers, keyOf_assignIndexes]

theorem length_sortPartyIDs (ids : List Ref) :
    (lib.sortPartyIDs heap ids).2.length = heap.length := by
  rw [lawful.numbers, length_assignIndexes]

end Library

/-! ## Sorting -/

/-- The list is sorted by key and holds the keys once each. -/
structure SortedBy (heap : Heap) (keys : List Nat) (refs : List Ref) : Prop where
  keys : (refs.map (keyOf heap)).Perm keys
  sorted : (refs.map (keyOf heap)).Pairwise (· < ·)
  bound : ∀ ref ∈ refs, ref < heap.length

namespace SortedBy

variable {heap : Heap} {keys : List Nat} {refs : List Ref}

theorem nodup (h : SortedBy heap keys refs) : refs.Nodup :=
  List.Nodup.of_map _ (h.sorted.imp ne_of_lt)

theorem rank_eq (h : SortedBy heap keys refs) {i : Nat} {ref : Ref} (hi : refs[i]? = some ref) :
    rank keys (keyOf heap ref) = i := by
  rw [← rank_perm h.keys]
  apply rank_eq_of_getElem? h.sorted
  simp [hi]

/-- Later allocations and sorts do not touch the keys. -/
theorem of_keys {heap' : Heap} (h : SortedBy heap keys refs)
    (same : ∀ ref < heap.length, keyOf heap' ref = keyOf heap ref)
    (grows : heap.length ≤ heap'.length) : SortedBy heap' keys refs := by
  have hmap : refs.map (keyOf heap') = refs.map (keyOf heap) :=
    List.map_congr_left fun ref hmem => same ref (h.bound ref hmem)
  exact ⟨hmap ▸ h.keys, hmap ▸ h.sorted, fun ref hmem => (h.bound ref hmem).trans_le grows⟩

theorem findByKey_eq {lib : TssLib} (lawful : lib.Lawful) (h : SortedBy heap keys refs) {key : Nat}
    (hkey : key ∈ keys) :
    ∃ (i : Nat) (ref : Ref), refs[i]? = some ref ∧ keyOf heap ref = key ∧
      lib.findByKey heap refs key = some ref := by
  obtain ⟨ref, hmem, hkeyOf, hfound⟩ := lawful.finds heap refs key (h.keys.mem_iff.mpr hkey)
  obtain ⟨i, hi⟩ := List.mem_iff_getElem?.mp hmem
  exact ⟨i, ref, hi, hkeyOf, hfound⟩

end SortedBy

section Sorted

variable {lib : TssLib} (lawful : lib.Lawful)

include lawful

theorem sortPartyIDs_sorted {heap : Heap} {ids : List Ref}
    (nodup : (ids.map (keyOf heap)).Nodup) (bound : ∀ ref ∈ ids, ref < heap.length) :
    SortedBy heap (ids.map (keyOf heap)) (lib.sortPartyIDs heap ids).1 := by
  have hperm := lawful.permutes heap ids
  refine ⟨hperm.map _, ?_, ?_⟩
  · apply pairwise_lt_of_sorted (lawful.ordered heap ids)
    exact (hperm.map _).nodup_iff.mpr nodup
  · intro ref hmem
    exact bound ref (hperm.mem_iff.mp hmem)

/-- `WithParties` sorts the own key and the keys of the parties, whether or not they differ. -/
theorem map_keyOf_withParties {heap : Heap} {self : Nat} {parties : List Party}
    (layout : ∀ p ∈ parties, p.identifier < heap.length ∧
      keyOf heap p.identifier = p.coreAddress) :
    ((withParties lib self heap parties).1.sortedPartyIds.map
        (keyOf (withParties lib self heap parties).2)).Pairwise (· ≤ ·) ∧
      ((withParties lib self heap parties).1.sortedPartyIds.map
        (keyOf (withParties lib self heap parties).2)).Perm
          (self :: parties.map Party.coreAddress) := by
  have hkeys : ∀ heap ids, keyOf (lib.sortPartyIDs heap ids).2 = keyOf heap :=
    fun heap ids => funext fun ref => keyOf_sortPartyIDs lawful ids
  simp only [withParties, hkeys]
  refine ⟨lawful.ordered _ _, ?_⟩
  refine ((lawful.permutes _ _).map _).trans (List.Perm.of_eq ?_)
  rw [List.map_cons, newPartyID_ref lawful, keyOf_newPartyID_self lawful, List.map_map]
  congr 1
  apply List.map_congr_left
  intro p hp
  obtain ⟨hlt, hkey⟩ := layout p hp
  rw [Function.comp_apply, keyOf_newPartyID lawful hlt, hkey]

end Sorted

/-! ## One sort among the signings -/

variable {setup : Setup}

/-- The configured identifiers are where they were allocated. -/
def Layout (setup : Setup) (heap : Heap) : Prop :=
  ∀ p ∈ setup.configured, p.identifier < heap.length ∧ keyOf heap p.identifier = p.coreAddress

def Indexed (heap : Heap) (p : SignParty) : Prop :=
  ∀ (i : Nat) (ref : Ref), p.sortedPartyIds[i]? = some ref → indexOf heap ref = some (i : Int)

/-- A party that takes part in both signings has the same rank in both. -/
def SameRanks (setup : Setup) (signers : List Nat) (p : SignParty) : Prop :=
  ∀ key ∈ signers, key ∈ p.parties →
    rank (setup.self :: signers) key = rank (setup.self :: p.parties) key

instance (signers : List Nat) (p : SignParty) : Decidable (SameRanks setup signers p) :=
  inferInstanceAs (Decidable (∀ key ∈ signers, _))

/-- What `WithParties` establishes and the sorts of others may break is `indexed` alone. -/
structure SignPartyOk (setup : Setup) (heap : Heap) (p : SignParty) : Prop where
  sorted : SortedBy heap (setup.self :: p.parties) p.sortedPartyIds
  shared : ∀ q ∈ setup.configured, q.coreAddress ∈ p.parties → q.identifier ∈ p.sortedPartyIds
  indexed : Indexed heap p

theorem map_coreAddress_configured : setup.configured.map Party.coreAddress = setup.parties := by
  apply List.ext_getElem?
  intro i
  simp [Setup.configured, Function.comp_def]

theorem coreAddress_ne_self {q : Party} (h : q ∈ setup.configured) :
    q.coreAddress ≠ setup.self := by
  have hmem : q.coreAddress ∈ setup.parties := by
    rw [← map_coreAddress_configured]
    exact List.mem_map_of_mem h
  intro heq
  rw [heq] at hmem
  exact (List.nodup_cons.mp setup.distinct).1 hmem

theorem eq_of_coreAddress_eq {p q : Party} (hp : p ∈ setup.configured) (hq : q ∈ setup.configured)
    (h : p.coreAddress = q.coreAddress) : p = q := by
  have hnodup : (setup.configured.map Party.coreAddress).Nodup := by
    rw [map_coreAddress_configured]
    exact (List.nodup_cons.mp setup.distinct).2
  exact List.inj_on_of_nodup_map hnodup hp hq h

theorem Setup.Selects.nodup_keys {signers : List Party} (h : setup.Selects signers) :
    (setup.self :: signers.map Party.coreAddress).Nodup := by
  rw [List.nodup_cons]
  constructor
  · intro hmem
    obtain ⟨q, hq, heq⟩ := List.mem_map.mp hmem
    exact coreAddress_ne_self (h.2 q hq) heq
  · apply h.1.map_on
    intro p hp q hq heq
    exact eq_of_coreAddress_eq (h.2 p hp) (h.2 q hq) heq

theorem Setup.selects_configured : setup.Selects setup.configured := by
  refine ⟨?_, fun _ hp => hp⟩
  apply List.Nodup.of_map Party.coreAddress
  rw [map_coreAddress_configured]
  exact (List.nodup_cons.mp setup.distinct).2

section Renumbering

/-- The heap after the own identifier is allocated and the list sorted. -/
def sortedHeap (lib : TssLib) (setup : Setup) (heap : Heap) (ids : List Ref) : Heap :=
  (lib.sortPartyIDs (lib.newPartyID heap setup.self).2 ids).2

def sortedIds (lib : TssLib) (setup : Setup) (heap : Heap) (ids : List Ref) : List Ref :=
  (lib.sortPartyIDs (lib.newPartyID heap setup.self).2 ids).1

variable {lib : TssLib} (lawful : lib.Lawful) {heap : Heap} {signers : List Party} {ids : List Ref}

include lawful

theorem keyOf_sortedHeap {ref : Ref} :
    keyOf (sortedHeap lib setup heap ids) ref = keyOf (lib.newPartyID heap setup.self).2 ref :=
  keyOf_sortPartyIDs lawful ids

theorem length_sortedHeap : (sortedHeap lib setup heap ids).length = heap.length + 1 := by
  rw [sortedHeap, length_sortPartyIDs lawful, length_newPartyID lawful]

theorem Layout.sort (layout : Layout setup heap) :
    Layout setup (sortedHeap lib setup heap ids) := by
  intro p hp
  obtain ⟨hlt, hkey⟩ := layout p hp
  rw [length_sortedHeap lawful, keyOf_sortedHeap lawful, keyOf_newPartyID lawful hlt]
  exact ⟨Nat.lt_succ_of_lt hlt, hkey⟩

theorem sortedBy_sortedIds (layout : Layout setup heap) (selects : setup.Selects signers)
    (perm : ids.Perm (heap.length :: signers.map Party.identifier)) :
    SortedBy (lib.newPartyID heap setup.self).2 (setup.self :: signers.map Party.coreAddress)
      (sortedIds lib setup heap ids) := by
  have hkeys : (ids.map (keyOf (lib.newPartyID heap setup.self).2)).Perm
      (setup.self :: signers.map Party.coreAddress) := by
    apply (perm.map _).trans
    have hself : keyOf (lib.newPartyID heap setup.self).2 heap.length = setup.self :=
      keyOf_newPartyID_self lawful heap setup.self
    have hrest : (signers.map Party.identifier).map (keyOf (lib.newPartyID heap setup.self).2) =
        signers.map Party.coreAddress := by
      rw [List.map_map]
      apply List.map_congr_left
      intro q hq
      obtain ⟨hlt, hkey⟩ := layout q (selects.2 q hq)
      rw [Function.comp_apply, keyOf_newPartyID lawful hlt, hkey]
    rw [List.map_cons, hself, hrest]
  have hbound : ∀ ref ∈ ids, ref < (lib.newPartyID heap setup.self).2.length := by
    intro ref hmem
    rw [length_newPartyID lawful]
    rcases List.mem_cons.mp (perm.mem_iff.mp hmem) with rfl | hsigner
    · exact Nat.lt_succ_self _
    · obtain ⟨q, hq, rfl⟩ := List.mem_map.mp hsigner
      exact Nat.lt_succ_of_lt (layout q (selects.2 q hq)).1
  have hsorted := sortPartyIDs_sorted lawful (hkeys.nodup_iff.mpr selects.nodup_keys) hbound
  exact ⟨hsorted.keys.trans hkeys, hsorted.sorted, hsorted.bound⟩

/-- A sort gives every identifier it holds the rank of its key. -/
theorem indexOf_sortedHeap (layout : Layout setup heap) (selects : setup.Selects signers)
    (perm : ids.Perm (heap.length :: signers.map Party.identifier)) {ref : Ref}
    (hmem : ref ∈ ids) :
    indexOf (sortedHeap lib setup heap ids) ref =
      some (rank (setup.self :: signers.map Party.coreAddress)
        (keyOf (lib.newPartyID heap setup.self).2 ref) : Int) := by
  have hsorted := sortedBy_sortedIds lawful layout selects perm
  have hin : ref ∈ sortedIds lib setup heap ids :=
    (lawful.permutes _ ids).mem_iff.mpr hmem
  obtain ⟨j, hj⟩ := List.mem_iff_getElem?.mp hin
  rw [hsorted.rank_eq hj]
  have hindex := indexOf_assignIndexes hsorted.nodup hsorted.bound 0 hj
  rw [Nat.zero_add, sortedIds, ← lawful.numbers] at hindex
  exact hindex

theorem indexOf_sortedHeap_of_notMem {ref : Ref} (hlt : ref < heap.length) (hmem : ref ∉ ids) :
    indexOf (sortedHeap lib setup heap ids) ref = indexOf heap ref := by
  have hout : ref ∉ sortedIds lib setup heap ids := by
    intro hin
    exact hmem ((lawful.permutes _ ids).mem_iff.mp hin)
  have hnew : indexOf (lib.newPartyID heap setup.self).2 ref = indexOf heap ref :=
    indexOf_newPartyID lawful hlt
  rw [← hnew, sortedHeap, lawful.numbers]
  exact indexOf_assignIndexes_of_notMem 0 hout

/-- A signing keeps its indices under a sort exactly when the ranks agree. -/
theorem SignPartyOk.indexed_sort_iff {p : SignParty} (h : SignPartyOk setup heap p)
    (layout : Layout setup heap) (selects : setup.Selects signers)
    (perm : ids.Perm (heap.length :: signers.map Party.identifier)) :
    Indexed (sortedHeap lib setup heap ids) p ↔
      SameRanks setup (signers.map Party.coreAddress) p := by
  constructor
  · intro hindexed key hkey hparty
    obtain ⟨q, hq, rfl⟩ := List.mem_map.mp hkey
    have hconfigured := selects.2 q hq
    obtain ⟨hlt, hkeyOf⟩ := layout q hconfigured
    have hids : q.identifier ∈ ids :=
      perm.mem_iff.mpr (List.mem_cons_of_mem _ (List.mem_map_of_mem hq))
    obtain ⟨i, hi⟩ := List.mem_iff_getElem?.mp (h.shared q hconfigured hparty)
    have hsort := indexOf_sortedHeap lawful layout selects perm hids
    rw [hindexed i _ hi, keyOf_newPartyID lawful hlt, hkeyOf, Option.some.injEq,
      Int.natCast_inj] at hsort
    have hrank := h.sorted.rank_eq hi
    rw [hkeyOf] at hrank
    rw [hrank, hsort]
  · intro hsame i ref hi
    have hlt : ref < heap.length := h.sorted.bound ref (List.mem_of_getElem? hi)
    by_cases hmem : ref ∈ ids
    · -- the own identifier is new, so an old one in the list is a signer's
      have hsigner : ref ∈ signers.map Party.identifier := by
        rcases List.mem_cons.mp (perm.mem_iff.mp hmem) with hself | hsigner
        · exact absurd hself (Nat.ne_of_lt hlt)
        · exact hsigner
      obtain ⟨q, hq, rfl⟩ := List.mem_map.mp hsigner
      have hconfigured := selects.2 q hq
      obtain ⟨-, hkeyOf⟩ := layout q hconfigured
      have hparty : q.coreAddress ∈ p.parties := by
        have hin := h.sorted.keys.mem_iff.mp
          (List.mem_map_of_mem (f := keyOf heap) (List.mem_of_getElem? hi))
        rw [hkeyOf] at hin
        exact (List.mem_cons.mp hin).resolve_left (coreAddress_ne_self hconfigured)
      have hrank := h.sorted.rank_eq hi
      rw [indexOf_sortedHeap lawful layout selects perm hmem, keyOf_newPartyID lawful hlt]
      rw [hkeyOf] at hrank ⊢
      rw [hsame q.coreAddress (List.mem_map_of_mem hq) hparty, hrank]
    · rw [indexOf_sortedHeap_of_notMem lawful hlt hmem]
      exact h.indexed i ref hi

theorem SignPartyOk.sort {p : SignParty} (h : SignPartyOk setup heap p)
    (indexed : Indexed (sortedHeap lib setup heap ids) p) :
    SignPartyOk setup (sortedHeap lib setup heap ids) p := by
  refine ⟨h.sorted.of_keys ?_ ?_, h.shared, indexed⟩
  · intro ref hlt
    rw [keyOf_sortedHeap lawful, keyOf_newPartyID lawful hlt]
  · rw [length_sortedHeap lawful]
    omega

theorem withParties_perm (self : Nat) (heap : Heap) (signers : List Party) :
    ((lib.newPartyID heap self).1 :: signers.map Party.identifier).Perm
      (heap.length :: signers.map Party.identifier) := by
  rw [newPartyID_ref lawful]

theorem withParties_ok (layout : Layout setup heap) (selects : setup.Selects signers) :
    SignPartyOk setup (withParties lib setup.self heap signers).2
      (withParties lib setup.self heap signers).1 := by
  have hsorted := sortedBy_sortedIds lawful layout selects
    (withParties_perm lawful setup.self heap signers)
  refine ⟨hsorted.of_keys ?_ ?_, ?_, ?_⟩
  · intro ref _
    exact keyOf_sortPartyIDs lawful _
  · exact (length_sortPartyIDs lawful _).ge
  · intro q hq hparty
    obtain ⟨q', hq', heq⟩ := List.mem_map.mp hparty
    rw [eq_of_coreAddress_eq (selects.2 q' hq') hq heq] at hq'
    apply (lawful.permutes _ _).mem_iff.mpr
    exact List.mem_cons_of_mem _ (List.mem_map_of_mem hq')
  · intro i ref hi
    have hindex := indexOf_assignIndexes hsorted.nodup hsorted.bound 0 hi
    rw [Nat.zero_add, sortedIds, ← lawful.numbers] at hindex
    exact hindex

end Renumbering

/-! ## Runs -/

/-- Every sort meets `SameRanks` with the signings that are set up. -/
def Compatible (s : State setup) : Label setup → Prop
  | .newSession => ∀ session, ∀ p ∈ s.signing session, SameRanks setup setup.parties p
  | .withParties _ signers =>
      ∀ session, ∀ p ∈ s.signing session, SameRanks setup (signers.map Party.coreAddress) p
  | .run _ | .receiveMsg _ _ | .waitFor _ => True

instance (s : State setup) (label : Label setup) : Decidable (Compatible s label) := by
  cases label <;> simp only [Compatible] <;> infer_instance

structure IndicesOk (s : State setup) : Prop where
  layout : Layout setup s.heap
  signing : ∀ session p, s.signing session = some p → SignPartyOk setup s.heap p

section Runs

variable {lib : TssLib} (lawful : lib.Lawful)

include lawful

theorem sortAllParties_perm (heap : Heap) :
    (setup.configured.map Party.identifier ++ [(lib.newPartyID heap setup.self).1]).Perm
      (heap.length :: setup.configured.map Party.identifier) := by
  rw [newPartyID_ref lawful]
  exact List.perm_append_comm

/-- A compatible sort keeps the signings that are set up. -/
theorem IndicesOk.sort {s : State setup} (h : IndicesOk s) {signers : List Party} {ids : List Ref}
    (selects : setup.Selects signers)
    (perm : ids.Perm (s.heap.length :: signers.map Party.identifier))
    (same : ∀ session, ∀ p ∈ s.signing session,
      SameRanks setup (signers.map Party.coreAddress) p) :
    IndicesOk { s with heap := sortedHeap lib setup s.heap ids } := by
  refine ⟨h.layout.sort lawful, ?_⟩
  intro session p hp
  have hok := h.signing session p hp
  apply hok.sort lawful
  exact (hok.indexed_sort_iff lawful h.layout selects perm).mpr (same session p hp)

omit lawful in
theorem IndicesOk.set {s : State setup} (h : IndicesOk s) (session : Fin setup.sessions)
    {next : Option SignParty} (hnext : ∀ p ∈ next, SignPartyOk setup s.heap p) :
    IndicesOk { s with signing := Function.update s.signing session next } := by
  refine ⟨h.layout, ?_⟩
  intro other p hp
  by_cases hother : other = session
  · subst hother
    simp only [Function.update_self] at hp
    exact hnext p hp
  · simp only [Function.update_of_ne hother] at hp
    exact h.signing other p hp

theorem step_indicesOk {s s' : State setup} {label : Label setup} (h : IndicesOk s)
    (meets : Compatible s label) (taken : step lib s label = some s') : IndicesOk s' := by
  cases label with
  | newSession =>
      cases taken
      apply h.sort lawful setup.selects_configured (sortAllParties_perm lawful s.heap)
      rw [map_coreAddress_configured]
      exact meets
  | withParties session signers =>
      simp only [step] at taken
      split at taken
      · split at taken
        · rename_i hselects
          cases taken
          apply (h.sort lawful hselects (withParties_perm lawful setup.self s.heap signers)
            meets).set session
          intro p hp
          cases hp
          exact withParties_ok lawful h.layout hselects
        · cases taken
      · cases taken
  | run session =>
      simp only [step] at taken
      split at taken
      · rename_i p hsession
        split at taken
        · cases taken
        · cases taken
          apply h.set session
          intro q hq
          cases hq
          obtain ⟨hsorted, hshared, hindexed⟩ := h.signing session p hsession
          exact ⟨hsorted, hshared, hindexed⟩
      · cases taken
  | receiveMsg session sender =>
      simp only [step] at taken
      split at taken
      · split at taken
        · cases taken
          exact h
        · cases taken
      · cases taken
  | waitFor session =>
      simp only [step] at taken
      split at taken
      · split at taken
        · cases taken
          apply h.set session
          intro q hq
          cases hq
        · cases taken
      · cases taken

omit lawful in
theorem layout_init : Layout setup setup.heap := by
  intro p hp
  obtain ⟨i, hi⟩ := List.mem_iff_getElem?.mp hp
  simp only [Setup.configured, List.getElem?_mapIdx, Option.map_eq_some_iff] at hi
  obtain ⟨key, hkey, rfl⟩ := hi
  have hlt : i < setup.parties.length := (List.getElem?_eq_some_iff.mp hkey).1
  exact ⟨by simpa [Setup.heap] using hlt, by simp [keyOf, Setup.heap, hkey]⟩

theorem reachable_indicesOk {s : State setup}
    (reached : (machine setup lib).Reachable Compatible s) : IndicesOk s := by
  apply reached.invariant
  · intro s hinit
    cases hinit
    exact ⟨layout_init, fun _ _ hp => by cases hp⟩
  · intro s label s' _ hok meets taken
    exact step_indicesOk lawful hok meets taken

/-- In a signing whose entries carry their positions, messages are filed under the sender's. -/
theorem SignPartyOk.slotOf_eq {heap : Heap} {p : SignParty} (h : SignPartyOk setup heap p)
    {sender : Nat} (hsender : sender ∈ p.parties) :
    ∃ (i : Nat) (ref : Ref), p.sortedPartyIds[i]? = some ref ∧ keyOf heap ref = sender ∧
      slotOf lib heap p sender = some (i : Int) := by
  obtain ⟨i, ref, hi, hkey, hfound⟩ := h.sorted.findByKey_eq lawful (List.mem_cons_of_mem _ hsender)
  refine ⟨i, ref, hi, hkey, ?_⟩
  rw [slotOf, if_pos hsender, hfound, Option.bind_some]
  exact h.indexed i ref hi

/-- In every run of compatible sorts, the entries of a signing that is set up, running or about to,
carry their positions, and messages are filed under the sender's own. -/
theorem signing_indices_kept {s : State setup}
    (reached : (machine setup lib).Reachable Compatible s) {session : Fin setup.sessions}
    {p : SignParty} (hp : s.signing session = some p) :
    (∀ (i : Nat) (ref : Ref), p.sortedPartyIds[i]? = some ref →
      indexOf s.heap ref = some (i : Int)) ∧
    ∀ sender ∈ p.parties, ∃ (i : Nat) (ref : Ref), p.sortedPartyIds[i]? = some ref ∧
      keyOf s.heap ref = sender ∧ slotOf lib s.heap p sender = some (i : Int) := by
  have hok := (reachable_indicesOk lawful reached).signing session p hp
  exact ⟨hok.indexed, fun sender hsender => hok.slotOf_eq lawful hsender⟩

end Runs

/-! ## Two chain sessions of one party -/

/-- tss-lib as it is documented, with identifiers sorted by insertion. -/
def sampleLib : TssLib where
  newPartyID heap key := (heap.length, heap ++ [⟨key, -1⟩])
  sortPartyIDs heap ids :=
    let sorted := ids.insertionSort fun a b => keyOf heap a ≤ keyOf heap b
    (sorted, assignIndexes heap 0 sorted)
  findByKey heap sorted key := sorted.find? fun ref => decide (keyOf heap ref = key)

theorem sampleLib_lawful : sampleLib.Lawful where
  allocates heap key := ⟨-1, rfl⟩
  permutes heap ids := List.perm_insertionSort _ ids
  ordered heap ids := by
    have htotal : Std.Total fun a b => keyOf heap a ≤ keyOf heap b :=
      ⟨fun a b => Nat.le_total _ _⟩
    have htrans : IsTrans Ref fun a b => keyOf heap a ≤ keyOf heap b :=
      ⟨fun _ _ _ => Nat.le_trans⟩
    rw [List.pairwise_map]
    exact List.pairwise_insertionSort _ ids
  numbers heap ids := rfl
  finds heap sorted key hkey := by
    obtain ⟨ref, hmem, rfl⟩ := List.mem_map.mp hkey
    cases hfound : sampleLib.findByKey heap sorted (keyOf heap ref) with
    | none =>
        have hnone := List.find?_eq_none.mp hfound ref hmem
        simp at hnone
    | some found =>
        have hmatch := List.find?_some hfound
        exact ⟨found, List.mem_of_find?_eq_some hfound, of_decide_eq_true hmatch, rfl⟩

/-- The party with key 2 runs two chain sessions with the parties 1 and 3. -/
def twoChains : Setup where
  self := 2
  parties := [1, 3]
  distinct := by decide
  sessions := 2

def firstChain : Fin twoChains.sessions := ⟨0, by decide⟩

def secondChain : Fin twoChains.sessions := ⟨1, by decide⟩

def twoChains.start : State twoChains := ⟨twoChains.heap, fun _ => none⟩

def secondJoins (signers : List Party) : List (Label twoChains) :=
  [.withParties firstChain [⟨1, 0⟩, ⟨3, 1⟩], .run firstChain, .withParties secondChain signers]

/-- A signing with party 3 alone gives it index 1, which in the running one is the own slot. -/
theorem running_signing_renumbered :
    ∃ s p, (machine twoChains sampleLib).Reaches s ∧ s.signing firstChain = some p ∧
      p.running = true ∧
      p.sortedPartyIds[2]? = some 1 ∧ keyOf s.heap 1 = 3 ∧ indexOf s.heap 1 = some 1 ∧
      slotOf sampleLib s.heap p 3 = some 1 := by
  have hrun : (((machine twoChains sampleLib).exec (fun _ _ => True) twoChains.start
      (secondJoins [⟨3, 1⟩])).bind fun s => (s.signing firstChain).map fun p =>
        (p.running, p.sortedPartyIds[2]?, keyOf s.heap 1, indexOf s.heap 1,
          slotOf sampleLib s.heap p 3)) =
      some (true, some 1, 3, some 1, some 1) := by
    decide +kernel
  obtain ⟨s, hs, hrest⟩ := Option.bind_eq_some_iff.mp hrun
  obtain ⟨p, hp, hvalues⟩ := Option.map_eq_some_iff.mp hrest
  simp only [Prod.mk.injEq] at hvalues
  exact ⟨s, p, (Machine.Reachable.init rfl).exec hs, hp, hvalues⟩

/-- A signing with party 1 alone leaves it at index 0. -/
theorem signing_indices_kept_twoChains :
    ∃ s p, (machine twoChains sampleLib).Reachable Compatible s ∧
      s.signing firstChain = some p ∧ p.running = true ∧
      (s.signing secondChain).isSome ∧ (∀ (i : Nat) (ref : Ref), p.sortedPartyIds[i]? = some ref →
        indexOf s.heap ref = some (i : Int)) := by
  have hrun : (((machine twoChains sampleLib).exec Compatible twoChains.start
      (secondJoins [⟨1, 0⟩])).bind fun s => (s.signing firstChain).map fun p =>
        (p.running, (s.signing secondChain).isSome)) = some (true, true) := by
    decide +kernel
  obtain ⟨s, hs, hrest⟩ := Option.bind_eq_some_iff.mp hrun
  obtain ⟨p, hp, hvalues⟩ := Option.map_eq_some_iff.mp hrest
  simp only [Prod.mk.injEq] at hvalues
  have hinit : (machine twoChains sampleLib).Reachable Compatible twoChains.start := .init rfl
  have hreached := hinit.exec hs
  exact ⟨s, p, hreached, hp, hvalues.1, hvalues.2,
    (signing_indices_kept sampleLib_lawful hreached hp).1⟩

end TssSvc.Tss
