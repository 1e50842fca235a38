import Mathlib.Data.Finset.Card

/-!
# Quorum intersection

Two sets of members that are together larger than the group and its faulty members share a
member that is not faulty.
-/

set_option autoImplicit false

namespace TssSvc.Quorum

variable {α : Type*} [DecidableEq α] {group faulty A B : Finset α}

theorem exists_correct_mem_inter (hA : A ⊆ group) (hB : B ⊆ group)
    (large : group.card + faulty.card < A.card + B.card) : ∃ x ∈ A, x ∈ B ∧ x ∉ faulty := by
  by_contra hnone
  push Not at hnone
  have hinter : A ∩ B ⊆ faulty := by
    intro x hx
    obtain ⟨hxA, hxB⟩ := Finset.mem_inter.mp hx
    exact hnone x hxA hxB
  have hunion : (A ∪ B).card ≤ group.card := Finset.card_le_card (Finset.union_subset hA hB)
  have hcommon : (A ∩ B).card ≤ faulty.card := Finset.card_le_card hinter
  have hsum := Finset.card_union_add_card_inter A B
  omega

end TssSvc.Quorum
