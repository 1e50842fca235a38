import Mathlib.Data.List.Nodup

/-!
# Outboxes

A relay hands the items of an ordered store over to another system: in each turn the first item
that waits.  An item that was taken is settled and waits no more; one that was not taken is the
first again in the next turn.

However the turns end, the store is the one with its first waiting items settled, as many as
turns succeeded.
-/

set_option autoImplicit false

namespace TssSvc.Outbox

variable {α : Type*} (waiting : α → Bool) (settle : α → α)

def turn (taken : Bool) : List α → List α
  | [] => []
  | a :: rest =>
      if waiting a then (if taken then settle a else a) :: rest else a :: turn taken rest

/-- The first `n` waiting items are settled. -/
def settleFirst : List α → Nat → List α
  | [], _ => []
  | a :: rest, 0 => a :: rest
  | a :: rest, n + 1 =>
      if waiting a then settle a :: settleFirst rest n else a :: settleFirst rest (n + 1)

@[simp] theorem settleFirst_zero (items : List α) : settleFirst waiting settle items 0 = items := by
  cases items <;> rfl

variable {waiting settle}

theorem turn_settleFirst (settles : ∀ a, waiting (settle a) = false) (items : List α) :
    ∀ n, turn waiting settle true (settleFirst waiting settle items n) =
      settleFirst waiting settle items (n + 1) := by
  induction items with
  | nil =>
      intro n
      rfl
  | cons a rest ih =>
      intro n
      by_cases hwaits : waiting a = true
      · cases n with
        | zero => simp [settleFirst, turn, hwaits]
        | succ n => simp [settleFirst, turn, hwaits, settles, ih]
      · cases n with
        | zero =>
            have hfirst := ih 0
            rw [settleFirst_zero] at hfirst
            simp [settleFirst, turn, hwaits, hfirst]
        | succ n => simp [settleFirst, turn, hwaits, ih]

/-- What is first after `n` items were settled. -/
theorem find?_settleFirst (settles : ∀ a, waiting (settle a) = false) (items : List α) :
    ∀ n, (settleFirst waiting settle items n).find? waiting = (items.filter waiting)[n]? := by
  induction items with
  | nil =>
      intro n
      rfl
  | cons a rest ih =>
      intro n
      by_cases hwaits : waiting a = true
      · cases n with
        | zero => simp [settleFirst, hwaits]
        | succ n => simp [settleFirst, hwaits, settles, ih]
      · cases n with
        | zero =>
            have hfirst := ih 0
            rw [settleFirst_zero] at hfirst
            simp [settleFirst, hwaits, hfirst]
        | succ n => simp [settleFirst, hwaits, ih]

/-- An update of the items with the key of the first waiting one is a turn. -/
theorem map_eq_turn {κ : Type*} [DecidableEq κ] {key : α → κ} {items : List α} {first : α}
    (unique : (items.map key).Nodup) (found : items.find? waiting = some first) :
    items.map (fun a => if key a = key first then settle a else a) =
      turn waiting settle true items := by
  induction items with
  | nil => cases found
  | cons a rest ih =>
      rw [List.map_cons, List.nodup_cons] at unique
      obtain ⟨hnew, hrest⟩ := unique
      by_cases hwaits : waiting a = true
      · rw [List.find?_cons_of_pos hwaits] at found
        cases Option.some.inj found
        have hothers : rest.map (fun b => if key b = key first then settle b else b) = rest := by
          conv_rhs => rw [← List.map_id rest]
          apply List.map_congr_left
          intro b hb
          rw [if_neg, id]
          intro hsame
          exact hnew (hsame ▸ List.mem_map_of_mem hb)
        simp [turn, hwaits, hothers]
      · rw [List.find?_cons_of_neg hwaits] at found
        have hkey : key a ≠ key first := by
          intro hsame
          exact hnew (hsame ▸ List.mem_map_of_mem (List.mem_of_find?_eq_some found))
        simp [turn, hwaits, hkey, ih hrest found]

end TssSvc.Outbox
