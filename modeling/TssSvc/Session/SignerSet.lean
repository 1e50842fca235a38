import TssSvc.Session.Consensus
import TssSvc.Tss.SigningIndices

/-!
# The signers of a session

With an honest proposer, the proposer and the acceptors come to the same set of signers: the
proposer selects `threshold` of the parties that accepted, every selected party finds the others
and the proposer, and all of them sort the same party identifiers.
-/

set_option autoImplicit false

namespace TssSvc.Session

open TssSvc.Broadcast

variable {D T : Type}

/-! ## Collecting acceptances -/

section Collect

variable {d : Decoders D T}

/-- What the proposer knows after some messages: one entry a sender, each backed by a message. -/
structure Collected (d : Decoders D T) (msgs : List (ConsensusMsg D)) (a : Acceptances) : Prop where
  nodup : a.senders.Nodup
  backed : ∀ entry ∈ a, ∃ msg ∈ msgs, msg.sender = entry.1 ∧ msg.type = .acceptance ∧
    d.acceptanceData msg.data = .ok entry.2

theorem Collected.collect {msgs : List (ConsensusMsg D)} {a : Acceptances}
    (h : Collected d msgs a) (msg : ConsensusMsg D) :
    Collected d (msgs ++ [msg]) (collect d a msg) := by
  have hkept : Collected d (msgs ++ [msg]) a := by
    refine ⟨h.nodup, ?_⟩
    intro entry hentry
    obtain ⟨m, hm, hrest⟩ := h.backed entry hentry
    exact ⟨m, List.mem_append_left _ hm, hrest⟩
  unfold Session.collect
  by_cases htype : msg.type = .acceptance
  swap
  · rw [if_pos htype]
    exact hkept
  rw [if_neg (not_not.mpr htype)]
  by_cases hseen : msg.sender ∈ a.senders
  · rw [if_pos hseen]
    exact hkept
  rw [if_neg hseen]
  cases hdata : d.acceptanceData msg.data with
  | err _ => exact hkept
  | panic _ => exact hkept
  | ok accepted =>
      constructor
      · simp only [Acceptances.senders, List.map_append, List.map_cons, List.map_nil]
        rw [List.nodup_append]
        refine ⟨h.nodup, List.nodup_singleton _, ?_⟩
        intro x hx y hy hxy
        rw [List.mem_singleton] at hy
        exact hseen (hy ▸ hxy ▸ hx)
      · intro entry hentry
        rcases List.mem_append.mp hentry with hold | hnew
        · exact hkept.backed entry hold
        · rw [List.mem_singleton.mp hnew]
          exact ⟨msg, List.mem_append_right _ (List.mem_singleton_self _), rfl, htype, hdata⟩

theorem collected_foldl (d : Decoders D T) (msgs : List (ConsensusMsg D)) :
    Collected d msgs (msgs.foldl (collect d) []) := by
  induction msgs using List.reverseRecOn with
  | nil => exact ⟨List.nodup_nil, fun _ hentry => (nomatch hentry)⟩
  | append_singleton msgs msg ih =>
      rw [List.foldl_append]
      exact ih.collect msg

theorem Collected.perm {msgs : List (ConsensusMsg D)} {a b : Acceptances}
    (h : Collected d msgs a) (perm : b.Perm a) : Collected d msgs b :=
  ⟨(perm.map Prod.fst).nodup_iff.mpr h.nodup, fun entry hentry =>
    h.backed entry (perm.mem_iff.mp hentry)⟩

theorem Collected.nodup_acceptors {msgs : List (ConsensusMsg D)} {a : Acceptances}
    (h : Collected d msgs a) : a.acceptors.Nodup :=
  h.nodup.sublist (List.filter_sublist.map _)

theorem Collected.accepted {msgs : List (ConsensusMsg D)} {a : Acceptances}
    (h : Collected d msgs a) {sender : Address} (hmem : sender ∈ a.acceptors) :
    ∃ msg ∈ msgs, msg.sender = sender ∧ msg.type = .acceptance ∧
      d.acceptanceData msg.data = .ok true := by
  obtain ⟨entry, hentry, rfl⟩ := List.mem_map.mp hmem
  obtain ⟨hin, htrue⟩ := List.mem_filter.mp hentry
  obtain ⟨msg, hmsg, hsender, htype, hdata⟩ := h.backed entry hin
  rw [htrue] at hdata
  exact ⟨msg, hmsg, hsender, htype, hdata⟩

end Collect

/-! ## Choosing signers -/

theorem removeSigners_eq_some {rand : Nat → UInt64} {n i : Nat} {signers chosen : List Address}
    (h : removeSigners rand n i signers = some chosen) :
    chosen.Sublist signers ∧ chosen.length + n = signers.length := by
  induction n generalizing i signers with
  | zero =>
      cases h
      exact ⟨List.Sublist.refl _, rfl⟩
  | succ n ih =>
      rw [removeSigners] at h
      split at h
      · cases h
      · rename_i hne
        obtain ⟨hsub, hlength⟩ := ih h
        refine ⟨hsub.trans (List.eraseIdx_sublist _ _), ?_⟩
        rw [List.length_eraseIdx_of_lt (Nat.mod_lt _ (Nat.pos_of_ne_zero hne))] at hlength
        omega

/-- With enough candidates the set has exactly `threshold` members. -/
theorem getSignersSet_eq_some {signers chosen : List Address} {threshold : Int}
    {rand : Nat → UInt64} (enough : threshold < (signers.length : Int) + 1)
    (h : getSignersSet signers threshold rand = some chosen) :
    chosen.Sublist signers ∧ (chosen.length : Int) = threshold := by
  simp only [getSignersSet] at h
  split at h
  · cases h
    exact ⟨List.Sublist.refl _, by omega⟩
  · obtain ⟨hsub, hlength⟩ := removeSigners_eq_some h
    exact ⟨hsub, by omega⟩

/-- The only way to a result without an error on data to sign. -/
theorem Consensus.propose_eq_some {d : Decoders D T} {c : Consensus} {run : ProposerRun D T}
    {result : ConsensusResult T} (h : c.propose d run = some result) (noError : result.err = none)
    {data : T} (hdata : result.sigData = some data) :
    ∃ chosen, c.threshold < ((run.possibleSigners d).length : Int) + 1 ∧
      getSignersSet (run.possibleSigners d) c.threshold run.rand = some chosen ∧
      result.signers = some (chosen.map fun a => (c.party a).getD ⟨[], none⟩) ∧
      result.signStart = some ⟨chosen ++ [c.self]⟩ := by
  unfold propose at h
  split at h
  · cases h
  · cases h
    cases hdata
  · split at h
    · split at h
      · cases h
        cases hdata
      · cases h
        cases noError
      · simp only [selectSigners] at h
        split at h
        · cases h
          cases noError
        · rename_i hcount
          obtain ⟨chosen, hchosen, rfl⟩ := Option.map_eq_some_iff.mp h
          exact ⟨chosen, by omega, hchosen, rfl, rfl⟩
    · cases h
      cases noError

/-! ## The group -/

/-- The members of the group with their party keys, and the tss-lib that all of them use. -/
structure Group where
  members : List Address
  nodup : members.Nodup
  partyKey : Address → Nat
  lib : Tss.TssLib
  lawful : lib.Lawful

/-- The consensus object of the member `p` and its heap of party identifiers: the configured
parties are the other members, each with the identifier `NewParty` made for it. -/
structure Group.View (g : Group) (d : Decoders D T) (p : Address) (c : Consensus)
    (heap : Tss.Heap) : Prop where
  member : p ∈ g.members
  self : c.self = p
  others : (c.parties.map Party.coreAddress).Perm (g.members.erase p)
  identified : ∀ party ∈ c.parties, ∃ ref, party.identifier = some ref ∧ ref < heap.length ∧
    Tss.keyOf heap ref = g.partyKey party.coreAddress
  valid : ∀ a ∈ g.members, d.validAddress a = true

namespace Group.View

variable {g : Group} {d : Decoders D T} {p : Address} {c : Consensus} {heap : Tss.Heap}

theorem party_eq_some {a : Address} {party : Party} (h : c.party a = some party) :
    party ∈ c.parties ∧ party.coreAddress = a := by
  unfold Consensus.party at h
  have hfound := List.find?_some h
  exact ⟨List.mem_reverse.mp (List.mem_of_find?_eq_some h), of_decide_eq_true hfound⟩

theorem party_isSome_iff (view : g.View d p c heap) {a : Address} :
    (c.party a).isSome ↔ a ∈ g.members ∧ a ≠ p := by
  rw [Consensus.party, List.find?_isSome, ← g.nodup.mem_erase_iff.trans and_comm,
    ← view.others.mem_iff]
  simp [List.mem_map]

/-- The party found for another member. -/
theorem exists_party (view : g.View d p c heap) {a : Address} (ha : a ∈ g.members) (hne : a ≠ p) :
    ∃ party, c.party a = some party ∧ party ∈ c.parties ∧ party.coreAddress = a := by
  obtain ⟨party, hparty⟩ := Option.isSome_iff_exists.mp (view.party_isSome_iff.mpr ⟨ha, hne⟩)
  exact ⟨party, hparty, party_eq_some hparty⟩

/-- The parties looked up for a list of other members. -/
theorem map_party (view : g.View d p c heap) {l : List Address}
    (hl : ∀ a ∈ l, a ∈ g.members ∧ a ≠ p) :
    (l.map fun a => (c.party a).getD ⟨[], none⟩).map Party.coreAddress = l ∧
      ∀ party ∈ l.map fun a => (c.party a).getD ⟨[], none⟩, party ∈ c.parties := by
  have hfound : ∀ a ∈ l, ((c.party a).getD ⟨[], none⟩).coreAddress = a ∧
      (c.party a).getD ⟨[], none⟩ ∈ c.parties := by
    intro a ha
    obtain ⟨party, hparty, hmem, haddress⟩ := view.exists_party (hl a ha).1 (hl a ha).2
    rw [hparty, Option.getD_some]
    exact ⟨haddress, hmem⟩
  constructor
  · rw [List.map_map]
    conv_rhs => rw [← List.map_id l]
    exact List.map_congr_left fun a ha => (hfound a ha).1
  · intro party hparty
    obtain ⟨a, ha, rfl⟩ := List.mem_map.mp hparty
    exact (hfound a ha).2

/-! ## The acceptor's loop -/

/-- On distinct members the loop keeps the parties of all but the own address. -/
theorem selectParties_ok (view : g.View d p c heap) (l seen : List GoString) (selfPresent : Bool)
    (signing : List Party) (nodup : l.Nodup) (unseen : ∀ a ∈ l, a ∉ seen)
    (hl : ∀ a ∈ l, a ∈ g.members) :
    ∃ parties : List Party, c.selectParties d l seen selfPresent signing =
        .ok (selfPresent || decide (p ∈ l), signing ++ parties) ∧
      parties.map Party.coreAddress = l.filter (fun a => decide (a ≠ p)) ∧
      ∀ party ∈ parties, party ∈ c.parties := by
  induction l generalizing seen selfPresent signing with
  | nil =>
      refine ⟨[], ?_, rfl, fun _ h => (nomatch h)⟩
      simp [Consensus.selectParties]
  | cons a l ih =>
      obtain ⟨hnotin, hnodup⟩ := List.nodup_cons.mp nodup
      have hcheck : ∀ e : GoError Empty, Outcome.check (a ∉ seen) e = .ok () :=
        fun e => Outcome.check_eq_ok.mpr (unseen a List.mem_cons_self)
      have hrest : ∀ b ∈ l, b ∉ a :: seen := by
        intro b hb hmem
        rcases List.mem_cons.mp hmem with rfl | hmem
        · exact hnotin hb
        · exact unseen b (List.mem_cons_of_mem _ hb) hmem
      have hmembers : ∀ b ∈ l, b ∈ g.members := fun b hb => hl b (List.mem_cons_of_mem _ hb)
      by_cases hself : a = p
      · obtain ⟨parties, hrun, haddresses, hmems⟩ :=
          ih (a :: seen) true signing hnodup hrest hmembers
        refine ⟨parties, ?_, ?_, hmems⟩
        · rw [Consensus.selectParties, hcheck, Outcome.ok_bind]
          simp only [view.self, hself, if_true]
          rw [hself] at hrun
          rw [hrun]
          simp
        · rw [List.filter_cons_of_neg (by simp [hself])]
          exact haddresses
      · obtain ⟨party, hparty, hmem, haddress⟩ := view.exists_party (hl a List.mem_cons_self) hself
        obtain ⟨parties, hrun, haddresses, hmems⟩ :=
          ih (a :: seen) selfPresent (signing ++ [party]) hnodup hrest hmembers
        refine ⟨party :: parties, ?_, ?_, ?_⟩
        · rw [Consensus.selectParties, hcheck, Outcome.ok_bind]
          simp only [view.self, hself, if_false, addressFromString,
            view.valid a (hl a List.mem_cons_self), if_true, Outcome.mapErr, Outcome.ok_bind,
            hparty, Outcome.ofOption]
          rw [hrun]
          simp [Ne.symm hself]
        · rw [List.filter_cons_of_pos (by simp [hself]), List.map_cons, haddress, haddresses]
        · intro q hq
          rcases List.mem_cons.mp hq with rfl | hq
          · exact hmem
          · exact hmems q hq

theorem signersOf_ok (view : g.View d p c heap) {start : SignStartData}
    (nonempty : start.parties ≠ []) (nodup : start.parties.Nodup)
    (hmembers : ∀ a ∈ start.parties, a ∈ g.members) :
    ∃ parties : List Party, c.signersOf d start =
        some (.ok (if p ∈ start.parties then some parties else none)) ∧
      parties.map Party.coreAddress = start.parties.filter (fun a => decide (a ≠ p)) ∧
      ∀ party ∈ parties, party ∈ c.parties := by
  obtain ⟨parties, hrun, haddresses, hmems⟩ :=
    view.selectParties_ok start.parties [] false [] nodup (fun _ _ => List.not_mem_nil) hmembers
  refine ⟨parties, ?_, haddresses, hmems⟩
  rw [Consensus.signersOf, if_neg nonempty, hrun]
  by_cases hself : p ∈ start.parties <;> simp [hself]

/-! ## Sorted party identifiers -/

end Group.View

/-- A selected party as `WithParties` takes it; a nil identifier is `none`. -/
def Party.signer (partyKey : Address → Nat) (p : Party) : Option Tss.Party :=
  p.identifier.map fun ref => ⟨partyKey p.coreAddress, ref⟩

/-- The keys of the identifiers `WithParties` sorts for the own address and the signers. -/
def Group.sortedKeys (g : Group) (heap : Tss.Heap) (self : Address) (signers : List Party) :
    Option (List Nat) :=
  (signers.mapM (Party.signer g.partyKey)).map fun parties =>
    let (signParty, heap) := Tss.withParties g.lib (g.partyKey self) heap parties
    signParty.sortedPartyIds.map (Tss.keyOf heap)

/-- All members that take the same set of signers get the same sorted keys. -/
theorem Group.View.sortedKeys_eq {g : Group} {d : Decoders D T} {p : Address} {c : Consensus}
    {heap : Tss.Heap} (view : g.View d p c heap) {signers : List Party}
    (hmems : ∀ party ∈ signers, party ∈ c.parties) {all : List Address}
    (hall : (p :: signers.map Party.coreAddress).Perm all) :
    g.sortedKeys heap p signers =
      some ((all.map g.partyKey).insertionSort (· ≤ ·)) := by
  have hmap : ∃ parties : List Tss.Party, signers.mapM (Party.signer g.partyKey) = some parties ∧
      parties.map Tss.Party.coreAddress = (signers.map Party.coreAddress).map g.partyKey ∧
      ∀ q ∈ parties, q.identifier < heap.length ∧ Tss.keyOf heap q.identifier = q.coreAddress := by
    clear hall
    induction signers with
    | nil => exact ⟨[], rfl, rfl, fun _ h => (nomatch h)⟩
    | cons party signers ih =>
        obtain ⟨parties, hparties, hkeys, hlayout⟩ :=
          ih fun q hq => hmems q (List.mem_cons_of_mem _ hq)
        obtain ⟨ref, href, hlt, hkey⟩ := view.identified party (hmems party List.mem_cons_self)
        refine ⟨⟨g.partyKey party.coreAddress, ref⟩ :: parties, ?_, ?_, ?_⟩
        · simp [List.mapM_cons, Party.signer, href, hparties]
        · rw [List.map_cons, List.map_cons, List.map_cons, hkeys]
        · intro q hq
          rcases List.mem_cons.mp hq with rfl | hq
          · exact ⟨hlt, hkey⟩
          · exact hlayout q hq
  obtain ⟨parties, hparties, hkeys, hlayout⟩ := hmap
  have hsorts := @Tss.map_keyOf_withParties g.lib g.lawful heap (g.partyKey p) parties hlayout
  obtain ⟨hsorted, hperm⟩ := hsorts
  rw [Group.sortedKeys, hparties, Option.map_some, Option.some.injEq]
  rw [hkeys, ← List.map_cons (f := g.partyKey)] at hperm
  have htotal := (hperm.trans (hall.map g.partyKey)).trans
    (List.perm_insertionSort (· ≤ ·) (all.map g.partyKey)).symm
  exact htotal.eq_of_pairwise (fun _ _ _ _ h₁ h₂ => le_antisymm h₁ h₂) hsorted
    (List.pairwise_insertionSort (· ≤ ·) _)

/-! ## The outcome with an honest proposer -/

/-- What the member `q` obtains from the sign-start message: the other signers if it was
selected, and nothing otherwise. -/
def Group.Obtains (g : Group) (q : Address) (heap : Tss.Heap) (start : List Address)
    (keys : List Nat) : Option (List Party) → Prop
  | some signers => q ∈ start ∧
      signers.map Party.coreAddress = start.filter (fun a => decide (a ≠ q)) ∧
      g.sortedKeys heap q signers = some keys
  | none => q ∉ start

theorem perm_cons_filter_ne {start : List Address} (nodup : start.Nodup) {q : Address}
    (hq : q ∈ start) : (q :: start.filter fun a => decide (a ≠ q)).Perm start := by
  have herase : start.filter (fun a => decide (a ≠ q)) = start.erase q := by
    rw [nodup.erase_eq_filter]
    apply List.filter_congr
    intro a _
    by_cases ha : a = q <;> simp [ha]
  rw [herase]
  exact (List.perm_cons_erase hq).symm

/-- The step of an acceptor: any member that handles the message of distinct members obtains
the others of them, with the keys of all of them sorted. -/
theorem Group.View.obtains {g : Group} {d : Decoders D T} {q : Address} {c : Consensus}
    {heap : Tss.Heap} (view : g.View d q c heap) {start : List Address} (nonempty : start ≠ [])
    (nodup : start.Nodup) (hmembers : ∀ a ∈ start, a ∈ g.members) {data : D} {raw : Bytes}
    {roundMsg : RoundMessage SignStartData} (hraw : d.broadcastData data = .ok raw)
    (hround : d.signStart raw = .ok roundMsg) (hvalue : roundMsg.value = some ⟨start⟩) :
    ∃ signers, c.handleSignStartMsg d data true = some (.ok signers) ∧
      g.Obtains q heap start ((start.map g.partyKey).insertionSort (· ≤ ·)) signers := by
  have hstart : (⟨start⟩ : SignStartData).parties = start := rfl
  obtain ⟨parties, hsigners, haddresses, hmems⟩ :=
    view.signersOf_ok (hstart ▸ nonempty) (hstart ▸ nodup) (hstart ▸ hmembers)
  refine ⟨if q ∈ start then some parties else none, ?_, ?_⟩
  · simp only [Consensus.handleSignStartMsg, hraw, hround, hvalue, Outcome.wrap, Outcome.mapErr,
      Outcome.ok_bind, Outcome.check, if_true, Outcome.ofOption]
    exact hsigners
  · by_cases hq : q ∈ start
    · rw [if_pos hq]
      refine ⟨hq, haddresses, view.sortedKeys_eq hmems ?_⟩
      rw [haddresses]
      exact perm_cons_filter_ne nodup hq
    · rw [if_neg hq]
      exact hq

/-- When an honest proposer ends without an error on data to sign, it has selected `threshold`
distinct other members that accepted; it starts the signing with them and itself, and every
member that handles its message obtains the same signers and the same sorted keys. -/
theorem signers_agree {g : Group} {d : Decoders D T} {proposer : Address} {c : Consensus}
    {heap : Tss.Heap} (view : g.View d proposer c heap) {run : ProposerRun D T}
    (received : ∀ msg ∈ run.msgs, ∃ request, c.receive d request = .ok (.msgs msg))
    (walk : ∀ a, (run.walk a).Perm a) {result : ConsensusResult T}
    (proposed : c.propose d run = some result) (noError : result.err = none) {data : T}
    (hdata : result.sigData = some data) :
    ∃ (selected : List Address) (keys : List Nat),
      (selected.length : Int) = c.threshold ∧ selected.Nodup ∧ proposer ∉ selected ∧
      (∀ a ∈ selected, a ∈ g.members ∧ ∃ msg ∈ run.msgs, msg.sender = a ∧
        msg.type = .acceptance ∧ d.acceptanceData msg.data = .ok true) ∧
      (∃ signers, result.signers = some signers ∧ signers.map Party.coreAddress = selected ∧
        g.sortedKeys heap proposer signers = some keys) ∧
      (keys.length : Int) = c.threshold + 1 ∧
      ∀ q cq heapq msg raw roundMsg, g.View d q cq heapq → d.broadcastData msg = .ok raw →
        d.signStart raw = .ok roundMsg → roundMsg.value = result.signStart →
          ∃ signers, cq.handleSignStartMsg d msg true = some (.ok signers) ∧
            g.Obtains q heapq (selected ++ [proposer]) keys signers := by
  obtain ⟨selected, enough, hchosen, hsigners, hstart⟩ :=
    Consensus.propose_eq_some proposed noError hdata
  have collected : Collected d run.msgs (run.walk (run.msgs.foldl (collect d) [])) :=
    (collected_foldl d run.msgs).perm (walk _)
  obtain ⟨hsub, hlength⟩ := getSignersSet_eq_some enough hchosen
  have haccepted : ∀ a ∈ selected, ∃ msg ∈ run.msgs, msg.sender = a ∧ msg.type = .acceptance ∧
      d.acceptanceData msg.data = .ok true :=
    fun a ha => collected.accepted (hsub.subset ha)
  have hothers : ∀ a ∈ selected, a ∈ g.members ∧ a ≠ proposer := by
    intro a ha
    obtain ⟨msg, hmsg, rfl, -, -⟩ := haccepted a ha
    obtain ⟨request, hreceive⟩ := received msg hmsg
    exact view.party_isSome_iff.mp (Consensus.receive_msgs_sender hreceive)
  have hnodup : selected.Nodup := collected.nodup_acceptors.sublist hsub
  have hself : proposer ∉ selected := fun h => (hothers proposer h).2 rfl
  have hall : (selected ++ [proposer]).Nodup := by
    rw [List.nodup_append]
    refine ⟨hnodup, List.nodup_singleton _, ?_⟩
    intro a ha b hb hab
    rw [List.mem_singleton] at hb
    exact hself (hb ▸ hab ▸ ha)
  obtain ⟨haddresses, hmems⟩ := view.map_party hothers
  refine ⟨selected, ((selected ++ [proposer]).map g.partyKey).insertionSort (· ≤ ·), hlength,
    hnodup, hself, fun a ha => ⟨(hothers a ha).1, haccepted a ha⟩, ⟨_, hsigners, haddresses, ?_⟩,
    ?_, ?_⟩
  · refine view.sortedKeys_eq hmems ?_
    rw [haddresses]
    exact (List.perm_append_singleton proposer selected).symm
  · rw [List.length_insertionSort, List.length_map, List.length_append, List.length_singleton]
    push_cast
    omega
  · intro q cq heapq msg raw roundMsg viewq hraw hround hvalue
    rw [hstart, view.self] at hvalue
    refine viewq.obtains (by simp) hall ?_ hraw hround hvalue
    intro a ha
    rcases List.mem_append.mp ha with hsel | hlast
    · exact (hothers a hsel).1
    · rw [List.mem_singleton.mp hlast]
      exact view.member

section Sample

/-- Parties 1, 2 and 3; the data of a request is the acceptance itself, and every broadcast
message is the start of a signing by 2 and 1. -/
def sampleGroup : Group where
  members := [[1], [2], [3]]
  nodup := by decide
  partyKey a := (a.headD 0).toNat
  lib := Tss.sampleLib
  lawful := Tss.sampleLib_lawful

def sampleDecoders : Decoders Bool Unit where
  validAddress := fun _ => true
  broadcastData := fun _ => .ok []
  acceptanceData := .ok
  proposal := fun _ => .err (.new "no proposal")
  signStart := fun _ => .ok ⟨some ⟨[[2], [1]]⟩, str "s", 0, []⟩

def sampleProposer : Consensus := ⟨[⟨[2], some 0⟩, ⟨[3], some 1⟩], [1], [1], str "s", 1⟩

/-- Party 3 rejects, party 2 accepts. -/
def sampleProposal : ProposerRun Bool Unit where
  formed := .ok (some ())
  proposalBroadcast := true
  ended := none
  msgs := [⟨[3], .acceptance, false⟩, ⟨[2], .acceptance, true⟩]
  walk := List.reverse
  rand := fun _ => 7
  signStartBroadcast := true

theorem signers_agree_sampleProposal :
    ∃ (result : ConsensusResult Unit) (selected : List Address) (keys : List Nat),
      sampleProposer.propose sampleDecoders sampleProposal = some result ∧
      (selected.length : Int) = sampleProposer.threshold ∧ [1] ∉ selected ∧
      (∃ signers, result.signers = some signers ∧
        sampleGroup.sortedKeys [⟨2, -1⟩, ⟨3, -1⟩] [1] signers = some keys) ∧
      (keys.length : Int) = sampleProposer.threshold + 1 := by
  have view : sampleGroup.View sampleDecoders [1] sampleProposer [⟨2, -1⟩, ⟨3, -1⟩] := by
    refine ⟨by decide, rfl, by decide, ?_, fun _ _ => rfl⟩
    intro party hparty
    simp only [sampleProposer, List.mem_cons, List.not_mem_nil, or_false] at hparty
    rcases hparty with rfl | rfl
    · exact ⟨0, rfl, by decide, by decide⟩
    · exact ⟨1, rfl, by decide, by decide⟩
  have received : ∀ msg ∈ sampleProposal.msgs,
      ∃ request, sampleProposer.receive sampleDecoders request = .ok (.msgs msg) := by
    intro msg hmsg
    simp only [sampleProposal, List.mem_cons, List.not_mem_nil, or_false] at hmsg
    rcases hmsg with rfl | rfl
    · exact ⟨some ⟨[3], str "s", .acceptance, false⟩, rfl⟩
    · exact ⟨some ⟨[2], str "s", .acceptance, true⟩, rfl⟩
  obtain ⟨selected, keys, hlength, -, hself, -, ⟨signers, hsigners, -, hkeys⟩, hcount, -⟩ :=
    signers_agree view received (fun a => List.reverse_perm a) rfl rfl rfl
  exact ⟨_, selected, keys, rfl, hlength, hself, ⟨signers, hsigners, hkeys⟩, hcount⟩

end Sample

end TssSvc.Session
