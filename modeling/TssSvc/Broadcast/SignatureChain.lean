import TssSvc.Broadcast.Network

/-!
# The signature chain, index by index

`validateSignatures` reads the chain from its end and shortens a copy of the message as it
goes.  Here the chain is described by positions: signature `i` is over the session id, the
value and the `i` signatures before it.  `validateSignatures_exact` says that the function
accepts these chains and no others.
-/

set_option autoImplicit false

namespace TssSvc.Broadcast

variable {T : Type} [HasHashString T]

omit [HasHashString T] in
/-- The link at position `i`. -/
theorem mem_links_iff_getElem? {m part : RoundMessage T} {sig : Signature} :
    (part, sig) ∈ m.links ↔
      ∃ i : Nat, m.signatures[i]? = some sig ∧
        part = { m with signatures := m.signatures.take i } := by
  rw [mem_links]
  constructor
  · rintro ⟨pre, post, hsplit, hpart⟩
    refine ⟨pre.length, ?_, ?_⟩
    · rw [hsplit, List.getElem?_append_right (le_refl _), Nat.sub_self, List.getElem?_cons_zero]
    · rw [hsplit, List.take_left]
      exact hpart
  · rintro ⟨i, hread, hpart⟩
    obtain ⟨hi, rfl⟩ := List.getElem?_eq_some_iff.mp hread
    refine ⟨m.signatures.take i, m.signatures.drop (i + 1), ?_, hpart⟩
    rw [← List.drop_eq_getElem_cons hi, List.take_append_drop]

namespace ReliableBroadcaster

/-- The declarative chain condition of a message that reports the round `msg.msg.round`. -/
structure ExactChain (c : Crypto) (b : ReliableBroadcaster T) (msg : ReliableBroadcastMsg T) :
    Prop where
  length : (msg.msg.signatures.length : Int) = msg.msg.round + 1
  first : ∃ sig, msg.msg.signatures[0]? = some sig ∧ sig.signer = b.originMsgSender
  last : ∃ sig, msg.msg.signatures[msg.msg.round.toNat]? = some sig ∧ sig.signer = msg.sender
  member : ∀ (i : Nat) (sig : Signature), msg.msg.signatures[i]? = some sig →
    sig.signer ∈ b.partiesMap
  distinct : ∀ (i j : Nat) (sig sig' : Signature), msg.msg.signatures[i]? = some sig →
    msg.msg.signatures[j]? = some sig' → sig.signer = sig'.signer → i = j
  signed : ∀ (i : Nat) (sig : Signature), msg.msg.signatures[i]? = some sig →
    ({ msg.msg with signatures := msg.msg.signatures.take i } : RoundMessage T).Verifies c sig

omit [HasHashString T] in
theorem nodup_signers_iff (m : RoundMessage T) :
    (m.signatures.map Signature.signer).Nodup ↔
      ∀ (i j : Nat) (sig sig' : Signature), m.signatures[i]? = some sig →
        m.signatures[j]? = some sig' → sig.signer = sig'.signer → i = j := by
  constructor
  · intro hnodup i j sig sig' hi hj hsigner
    have hlength : i < (m.signatures.map Signature.signer).length := by
      rw [List.length_map]
      exact (List.getElem?_eq_some_iff.mp hi).1
    apply (List.getElem?_inj hlength hnodup).mp
    rw [List.getElem?_map, List.getElem?_map, hi, hj, Option.map_some, Option.map_some, hsigner]
  · intro hdistinct
    rw [List.nodup_iff_getElem?_ne_getElem?]
    intro i j hij hj heq
    rw [List.length_map] at hj
    rw [List.getElem?_map, List.getElem?_map, List.getElem?_eq_getElem (hij.trans hj),
      List.getElem?_eq_getElem hj, Option.map_some, Option.map_some, Option.some.injEq] at heq
    exact hij.ne (hdistinct i j _ _ (List.getElem?_eq_getElem _) (List.getElem?_eq_getElem _) heq)

theorem chainValid_iff_exactChain (c : Crypto) (b : ReliableBroadcaster T)
    (msg : ReliableBroadcastMsg T) : b.ChainValid c msg ↔ b.ExactChain c msg := by
  have hfirst : msg.msg.signatures.head?.map Signature.signer = some b.originMsgSender ↔
      ∃ sig, msg.msg.signatures[0]? = some sig ∧ sig.signer = b.originMsgSender := by
    rw [Option.map_eq_some_iff, List.head?_eq_getElem?]
  have hlast : (msg.msg.signatures.length : Int) = msg.msg.round + 1 →
      (msg.msg.signatures.getLast?.map Signature.signer = some msg.sender ↔
        ∃ sig, msg.msg.signatures[msg.msg.round.toNat]? = some sig ∧ sig.signer = msg.sender) := by
    intro hlength
    have hindex : msg.msg.round.toNat = msg.msg.signatures.length - 1 := by omega
    rw [Option.map_eq_some_iff, List.getLast?_eq_getElem?, hindex]
  constructor
  · intro valid
    refine ⟨valid.length, hfirst.mp valid.first, (hlast valid.length).mp valid.last, ?_,
      (nodup_signers_iff msg.msg).mp valid.distinct, ?_⟩
    · intro i sig hread
      exact valid.member sig (List.mem_of_getElem? hread)
    · intro i sig hread
      exact valid.signed (_, sig) (mem_links_iff_getElem?.mpr ⟨i, hread, rfl⟩)
  · intro exact
    refine ⟨exact.length, hfirst.mpr exact.first, (hlast exact.length).mpr exact.last, ?_,
      (nodup_signers_iff msg.msg).mpr exact.distinct, ?_⟩
    · intro sig hsig
      obtain ⟨i, hread⟩ := List.mem_iff_getElem?.mp hsig
      exact exact.member i sig hread
    · rintro ⟨part, sig⟩ hlink
      obtain ⟨i, hread, rfl⟩ := mem_links_iff_getElem?.mp hlink
      exact exact.signed i sig hread

/-- `validateSignatures` returns for a message of a round from zero on when the addresses of
the group decode.  It accepts exactly the chains above, and the second result is then whether
the receiver is among the signers. -/
theorem validateSignatures_exact (c : Crypto) (b : ReliableBroadcaster T)
    (msg : ReliableBroadcastMsg T) (started : 0 ≤ msg.msg.round) :
    ((∃ selfSigned, b.validateSignatures c msg = .ok (true, selfSigned)) ↔ b.ExactChain c msg) ∧
      (∀ selfSigned, b.validateSignatures c msg = .ok (true, selfSigned) →
        (selfSigned = true ↔ ∃ sig ∈ msg.msg.signatures, sig.signer = b.self.cosmosAddress)) ∧
      ((∀ a ∈ b.partiesMap, (c.decodeAddress a).isSome) →
        ∃ verdict, b.validateSignatures c msg = .ok verdict) := by
  refine ⟨?_, ?_, ?_⟩
  · simp only [validateSignatures_eq_true_iff, exists_and_left, exists_eq, and_true,
      chainValid_iff_exactChain]
  · intro selfSigned haccepted
    rw [((validateSignatures_eq_true_iff c b msg selfSigned).mp haccepted).2, decide_eq_true_iff]
    exact List.mem_map
  · intro decodable
    exact validateSignatures_ok decodable fun hempty => by omega

/-- The party `2` on a chain of the origin `1` and the party `3`. -/
theorem validateSignatures_exact_sample :
    ((((sampleSetup [1, 2, 3] [1, 2, 3] 1 1).fresh SamplePayload [2]).startEnsureValid
      ⟨sampleChain none [1], [1]⟩).ExactChain sampleCrypto ⟨sampleChain none [1, 3], [3]⟩) := by
  refine (validateSignatures_exact sampleCrypto _ _ ?_).1.mp ⟨false, ?_⟩
  · decide
  · decide +kernel

end ReliableBroadcaster

end TssSvc.Broadcast
