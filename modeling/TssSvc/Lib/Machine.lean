import Mathlib.Logic.Function.Basic

/-!
# Labelled machines and their runs

A machine has a predicate of initial states and a partial step function.  The label of
a step carries every choice that is not the machine's: the scheduling, the inputs and
the outcomes of external calls.

`Reachable allowed` holds of the states of the runs all of whose steps meet `allowed`, and
`Leads allowed s` of the states such steps lead to from `s`.
-/

set_option autoImplicit false

namespace TssSvc

universe u v

structure Machine (S : Type u) (L : Type v) where
  init : S → Prop
  step : S → L → Option S

namespace Machine

variable {S : Type u} {L : Type v} (machine : Machine S L)

inductive Reachable (allowed : S → L → Prop) : S → Prop
  | init {s : S} (start : machine.init s) : Reachable allowed s
  | step {s s' : S} {label : L} (before : Reachable allowed s) (meets : allowed s label)
      (taken : machine.step s label = some s') : Reachable allowed s'

abbrev Reaches : S → Prop := machine.Reachable fun _ _ => True

variable {machine} {allowed : S → L → Prop}

/-- A property of the initial states that every allowed step from a reachable state
keeps holds of every reachable state. -/
theorem Reachable.invariant {P : S → Prop} (base : ∀ s, machine.init s → P s)
    (preserved : ∀ s label s', machine.Reachable allowed s → P s → allowed s label →
      machine.step s label = some s' → P s')
    {s : S} (reached : machine.Reachable allowed s) : P s := by
  induction reached with
  | init start => exact base _ start
  | step before meets taken ih => exact preserved _ _ _ before ih meets taken

theorem Reachable.mono {weaker : S → L → Prop} (imp : ∀ s label, allowed s label → weaker s label)
    {s : S} (reached : machine.Reachable allowed s) : machine.Reachable weaker s := by
  induction reached with
  | init start => exact .init start
  | step before meets taken ih => exact .step ih (imp _ _ meets) taken

variable (machine) in
/-- The labels in order, `none` when one of them is not enabled or not allowed. -/
def exec (allowed : S → L → Prop) [∀ s label, Decidable (allowed s label)] :
    S → List L → Option S
  | s, [] => some s
  | s, label :: labels =>
      if allowed s label then (machine.step s label).bind fun next => exec allowed next labels
      else none

/-! ## Continuations of a run -/

variable (machine allowed) in
inductive Leads (s : S) : S → Prop
  | refl : Leads s s
  | step {mid s' : S} {label : L} (before : Leads s mid) (meets : allowed mid label)
      (taken : machine.step mid label = some s') : Leads s s'

/-- A property every allowed step keeps is never lost. -/
theorem Leads.invariant {P : S → Prop}
    (preserved : ∀ s label s', P s → allowed s label → machine.step s label = some s' → P s')
    {s s' : S} (run : machine.Leads allowed s s') (start : P s) : P s' := by
  induction run with
  | refl => exact start
  | step before meets taken ih => exact preserved _ _ _ ih meets taken

theorem Leads.trans {s mid s' : S} (first : machine.Leads allowed s mid)
    (second : machine.Leads allowed mid s') : machine.Leads allowed s s' := by
  induction second with
  | refl => exact first
  | step _ meets taken ih => exact .step ih meets taken

theorem Leads.exec [∀ s label, Decidable (allowed s label)] {s mid s' : S} {labels : List L}
    (before : machine.Leads allowed s mid) (run : machine.exec allowed mid labels = some s') :
    machine.Leads allowed s s' := by
  induction labels generalizing mid with
  | nil =>
      cases Option.some.inj run
      exact before
  | cons label labels ih =>
      simp only [Machine.exec] at run
      split at run
      · rename_i meets
        obtain ⟨next, taken, rest⟩ := Option.bind_eq_some_iff.mp run
        exact ih (.step before meets taken) rest
      · cases run

theorem Reachable.leads {s s' : S} (reached : machine.Reachable allowed s)
    (run : machine.Leads allowed s s') : machine.Reachable allowed s' := by
  induction run with
  | refl => exact reached
  | step before meets taken ih => exact .step ih meets taken

theorem Reachable.exec [∀ s label, Decidable (allowed s label)] {s s' : S} {labels : List L}
    (reached : machine.Reachable allowed s) (run : machine.exec allowed s labels = some s') :
    machine.Reachable allowed s' :=
  reached.leads (Leads.refl.exec run)

/-- A run all of whose labels meet another condition. -/
theorem Reachable.exec_of_mem {other : S → L → Prop} [∀ s label, Decidable (other s label)]
    {s s' : S} {labels : List L} (reached : machine.Reachable allowed s)
    (meets : ∀ label ∈ labels, ∀ s, allowed s label)
    (run : machine.exec other s labels = some s') : machine.Reachable allowed s' := by
  induction labels generalizing s with
  | nil =>
      cases Option.some.inj run
      exact reached
  | cons label labels ih =>
      simp only [Machine.exec] at run
      split at run
      · obtain ⟨next, taken, rest⟩ := Option.bind_eq_some_iff.mp run
        exact ih (.step reached (meets label List.mem_cons_self s) taken)
          (fun label' hmem => meets label' (List.mem_cons_of_mem _ hmem)) rest
      · cases run

/-- What is observed at the end of one run of labels is observed in a reachable state. -/
theorem exists_reachable [∀ s label, Decidable (allowed s label)] {α : Type*} {f : S → α}
    {value : α} {s : S} {labels : List L} (start : machine.init s)
    (run : (machine.exec allowed s labels).map f = some value) :
    ∃ s', machine.Reachable allowed s' ∧ f s' = value := by
  obtain ⟨s', taken, seen⟩ := Option.map_eq_some_iff.mp run
  exact ⟨s', (Reachable.init start).exec taken, seen⟩

/-! ## Components -/

/-- A part of the state that each allowed step leaves or moves by a step of another machine runs
through states that machine reaches. -/
theorem Reachable.image {S' : Type*} {L' : Type*} {part : Machine S' L'} {weaker : S' → L' → Prop}
    {f : S → S'} (base : ∀ s, machine.init s → part.init (f s))
    (moves : ∀ s label s', allowed s label → machine.step s label = some s' →
      f s' = f s ∨ ∃ label', weaker (f s) label' ∧ part.step (f s) label' = some (f s'))
    {s : S} (reached : machine.Reachable allowed s) : part.Reachable weaker (f s) := by
  induction reached with
  | init start => exact .init (base _ start)
  | step before meets taken ih =>
      rcases moves _ _ _ meets taken with same | ⟨label', meets', taken'⟩
      · rwa [same]
      · exact .step ih meets' taken'

section Product

variable {ι : Type*} [DecidableEq ι]

/-- One machine for each index; a step of the product is a step of one of them. -/
def product (machines : ι → Machine S L) : Machine (ι → S) (ι × L) where
  init s := ∀ i, (machines i).init (s i)
  step s label := ((machines label.1).step (s label.1) label.2).map (Function.update s label.1)

theorem Reaches.component {machines : ι → Machine S L} {s : ι → S}
    (reached : (product machines).Reaches s) (i : ι) : (machines i).Reaches (s i) := by
  induction reached with
  | init start => exact .init (start i)
  | step before meets taken ih =>
      obtain ⟨next, hnext, rfl⟩ := Option.map_eq_some_iff.mp taken
      rename_i s label
      by_cases hi : i = label.1
      · subst hi
        rw [Function.update_self]
        exact .step ih trivial hnext
      · rw [Function.update_of_ne hi]
        exact ih

end Product

end Machine

end TssSvc
