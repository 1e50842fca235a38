import Mathlib.Data.List.Basic
import Mathlib.Logic.Function.Basic

/-!
# Prefix codes

An encoder is a prefix code when the encoded item can be cut off the front of any
longer byte string in exactly one way.  Prefix codes compose: a pair, a
length-prefixed payload and a concatenation of items are again uniquely readable.
-/

set_option autoImplicit false

namespace TssSvc.Codec

universe u v w

variable {α : Type u} {β : Type v} {γ : Type w}

/-- Whatever follows two encodings, equal streams start with equal items. -/
def PrefixFree (enc : α → List γ) : Prop :=
  ∀ a b rest rest', enc a ++ rest = enc b ++ rest' → a = b ∧ rest = rest'

theorem PrefixFree.injective {enc : α → List γ} (h : PrefixFree enc) :
    Function.Injective enc := by
  intro a b hab
  exact (h a b [] [] (by rw [hab])).1

theorem PrefixFree.comp_injective {enc : β → List γ} {f : α → β} (h : PrefixFree enc)
    (hf : Function.Injective f) : PrefixFree fun a => enc (f a) := by
  intro a b rest rest' heq
  obtain ⟨hab, hrest⟩ := h _ _ _ _ heq
  exact ⟨hf hab, hrest⟩

/-- A payload behind a prefix code of its length. -/
theorem prefixFree_lengthPrefixed {len : Nat → List γ} (h : PrefixFree len) :
    PrefixFree fun payload : List γ => len payload.length ++ payload := by
  intro a b rest rest' heq
  simp only [List.append_assoc] at heq
  obtain ⟨hlen, htail⟩ := h _ _ _ _ heq
  exact List.append_inj htail hlen

/-- A payload that ends at the first separator. -/
theorem terminated_inj {sep : γ} {a b rest rest' : List γ} (ha : sep ∉ a) (hb : sep ∉ b)
    (heq : a ++ sep :: rest = b ++ sep :: rest') : a = b ∧ rest = rest' := by
  induction a generalizing b with
  | nil =>
      cases b with
      | nil => exact ⟨rfl, (List.cons.inj heq).2⟩
      | cons y b => exact absurd ((List.cons.inj heq).1 ▸ List.mem_cons_self) hb
  | cons x a ih =>
      cases b with
      | nil => exact absurd ((List.cons.inj heq).1 ▸ List.mem_cons_self) ha
      | cons y b =>
          obtain ⟨hxy, htail⟩ := List.cons.inj heq
          obtain ⟨hab, hrest⟩ := ih (fun h => ha (List.mem_cons_of_mem _ h))
            (fun h => hb (List.mem_cons_of_mem _ h)) htail
          exact ⟨by rw [hxy, hab], hrest⟩

/-- A payload that starts after the last separator. -/
theorem initiated_inj {sep : γ} {a b rest rest' : List γ} (ha : sep ∉ a) (hb : sep ∉ b)
    (heq : rest ++ sep :: a = rest' ++ sep :: b) : rest = rest' ∧ a = b := by
  have hreversed : a.reverse ++ sep :: rest.reverse = b.reverse ++ sep :: rest'.reverse := by
    simpa using congrArg List.reverse heq
  obtain ⟨hab, hrest⟩ := terminated_inj (mt List.mem_reverse.mp ha) (mt List.mem_reverse.mp hb)
    hreversed
  exact ⟨List.reverse_injective hrest, List.reverse_injective hab⟩

/-- A stream of non-empty prefix-coded items determines the items. -/
theorem PrefixFree.flatMap_injective {enc : α → List γ} (h : PrefixFree enc)
    (nonempty : ∀ a, enc a ≠ []) :
    Function.Injective fun items : List α => items.flatMap enc := by
  intro xs
  induction xs with
  | nil =>
      intro ys heq
      cases ys with
      | nil => rfl
      | cons y ys =>
          have hnil : enc y ++ ys.flatMap enc = [] := by simpa using heq.symm
          exact absurd (List.append_eq_nil_iff.mp hnil).1 (nonempty y)
  | cons x xs ih =>
      intro ys heq
      cases ys with
      | nil =>
          have hnil : enc x ++ xs.flatMap enc = [] := by simpa using heq
          exact absurd (List.append_eq_nil_iff.mp hnil).1 (nonempty x)
      | cons y ys =>
          simp only [List.flatMap_cons] at heq
          obtain ⟨hxy, hrest⟩ := h x y _ _ heq
          rw [hxy, ih hrest]

end TssSvc.Codec
