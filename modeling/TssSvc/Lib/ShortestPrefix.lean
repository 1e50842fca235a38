import Mathlib.Algebra.Order.Ring.Int
import Mathlib.Data.List.Infix

/-!
# The shortest prefix that weighs enough

A list whose members have weights, and the shortest of its prefixes that reaches a target.  The
prefix for the larger of two targets is the prefix for one of them, continued on what is left.
-/

set_option autoImplicit false

namespace TssSvc.ShortestPrefix

variable {α : Type} (weight : α → Int)

def total (l : List α) : Int := (l.map weight).sum

@[simp] theorem total_nil : total weight ([] : List α) = 0 := rfl

@[simp] theorem total_cons (a : α) (l : List α) :
    total weight (a :: l) = weight a + total weight l := List.sum_cons

@[simp] theorem total_append (l l' : List α) :
    total weight (l ++ l') = total weight l + total weight l' := by
  rw [total, List.map_append, List.sum_append]
  rfl

theorem total_nonneg {l : List α} (weights : ∀ a ∈ l, 0 ≤ weight a) : 0 ≤ total weight l := by
  induction l with
  | nil => exact le_refl 0
  | cons a l ih =>
      have hhead := weights a List.mem_cons_self
      have htail := ih fun b hb => weights b (List.mem_cons_of_mem a hb)
      rw [total_cons]
      omega

/-- The first of the prefixes, which `inits` lists by length, that reaches the target; the whole
list if none does. -/
def shortest (target : Int) (l : List α) : List α :=
  (l.inits.find? fun p => decide (target ≤ total weight p)).getD l

theorem shortest_nil (target : Int) : shortest weight target [] = [] := by
  unfold shortest
  rw [List.inits, List.find?_singleton]
  split <;> rfl

theorem shortest_cons (target : Int) (a : α) (l : List α) :
    shortest weight target (a :: l) =
      if target ≤ 0 then [] else a :: shortest weight (target - weight a) l := by
  have hshift : ∀ p : List α, decide (target ≤ total weight (a :: p)) =
      decide (target - weight a ≤ total weight p) := by
    intro p
    rw [total_cons, decide_eq_decide]
    omega
  unfold shortest
  rw [List.inits_cons, List.find?_cons, total_nil]
  by_cases htarget : target ≤ 0
  · simp [htarget]
  · simp only [htarget, decide_false, if_false, List.find?_map, Function.comp_def, hshift]
    cases List.find? (fun p => decide (target - weight a ≤ total weight p)) l.inits <;> rfl

theorem shortest_isPrefix (l : List α) : ∀ target, shortest weight target l <+: l := by
  intro target
  unfold shortest
  cases hfound : l.inits.find? fun p => decide (target ≤ total weight p) with
  | none => exact List.prefix_refl l
  | some p => exact (List.mem_inits p l).mp (List.mem_of_find?_eq_some hfound)

theorem shortest_of_nonpos {target : Int} (nonpos : target ≤ 0) (l : List α) :
    shortest weight target l = [] := by
  cases l with
  | nil => exact shortest_nil weight target
  | cons a l => rw [shortest_cons, if_pos nonpos]

/-- The prefix for the larger of two targets extends the one for the first. -/
theorem shortest_max (l : List α) : ∀ first next : Int,
    shortest weight (max first next) l = shortest weight first l ++
      shortest weight (next - total weight (shortest weight first l))
        (l.drop (shortest weight first l).length) := by
  induction l with
  | nil =>
      intro first next
      simp only [shortest_nil, List.drop_nil, List.append_nil]
  | cons a l ih =>
      intro first next
      by_cases hfirst : first ≤ 0
      · rw [shortest_of_nonpos weight hfirst, List.nil_append, List.length_nil, List.drop_zero,
          total_nil, sub_zero]
        rcases le_total first next with hle | hge
        · rw [max_eq_right hle]
        · rw [max_eq_left hge, shortest_of_nonpos weight hfirst,
            shortest_of_nonpos weight (hge.trans hfirst)]
      · have hmax : ¬max first next ≤ 0 := fun h => hfirst ((le_max_left _ _).trans h)
        have hshift : max first next - weight a = max (first - weight a) (next - weight a) := by
          omega
        rw [shortest_cons, if_neg hmax, shortest_cons, if_neg hfirst, hshift, ih, List.cons_append,
          total_cons, List.length_cons, List.drop_succ_cons, sub_add_eq_sub_sub]

end TssSvc.ShortestPrefix
