import Mathlib.Data.List.Nodup
import Mathlib.Data.List.Sort

/-!
# Ranks in a strictly sorted list

The rank of an element is the number of smaller ones.  In a list without repetitions that is
sorted, it is the element's position, and it does not depend on how the list was ordered before.
-/

set_option autoImplicit false

namespace TssSvc.Rank

variable {α : Type*} [LinearOrder α]

def rank (l : List α) (a : α) : Nat := l.countP fun b => decide (b < a)

theorem rank_perm {l l' : List α} (h : l.Perm l') (a : α) : rank l a = rank l' a :=
  h.countP_eq _

/-- The element at position `i` of a strictly sorted list has rank `i`. -/
theorem rank_eq_of_getElem? {l : List α} (sorted : l.Pairwise (· < ·)) {i : Nat} {a : α}
    (h : l[i]? = some a) : rank l a = i := by
  induction l generalizing i with
  | nil => simp at h
  | cons b l ih =>
      rw [List.pairwise_cons] at sorted
      cases i with
      | zero =>
          rw [List.getElem?_cons_zero, Option.some.injEq] at h
          subst h
          simp only [rank, List.countP_eq_zero, decide_eq_true_eq]
          intro c hc
          rcases List.mem_cons.mp hc with heq | hmem
          · rw [heq]
            exact lt_irrefl b
          · exact (sorted.1 c hmem).asymm
      | succ i =>
          rw [List.getElem?_cons_succ] at h
          have hlt : b < a := sorted.1 a (List.mem_of_getElem? h)
          have hrest := ih sorted.2 h
          simp only [rank] at hrest ⊢
          rw [List.countP_cons_of_pos (by simpa using hlt), hrest]

/-- Sorting a list without repetitions sorts it strictly. -/
theorem pairwise_lt_of_sorted {l : List α} (sorted : l.Pairwise (· ≤ ·)) (nodup : l.Nodup) :
    l.Pairwise (· < ·) := by
  apply (sorted.and nodup).imp
  intro a b h
  exact lt_of_le_of_ne h.1 h.2

end TssSvc.Rank
