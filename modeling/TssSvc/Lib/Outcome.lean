import TssSvc.Lib.GoString

/-!
# Calls that can fail

A Go function with an error result returns a value, returns an error or panics.  `do` blocks
over `Outcome` follow the source's `if err != nil { return … }`.

An error keeps the package-level value it was made from, which `errors.Is` finds through any
number of `errors.Wrap`, and its text.
-/

set_option autoImplicit false

namespace TssSvc

inductive Outcome (ε α : Type) where
  | ok (value : α)
  | err (error : ε)
  | panic (reason : Panic)
  deriving DecidableEq, Repr

namespace Outcome

variable {ε ε' α β : Type}

protected def bind (x : Outcome ε α) (f : α → Outcome ε β) : Outcome ε β :=
  match x with
  | ok value => f value
  | err error => err error
  | panic reason => panic reason

instance : Monad (Outcome ε) where
  pure := ok
  bind := Outcome.bind

instance : LawfulMonad (Outcome ε) :=
  LawfulMonad.mk' (Outcome ε) (fun x => by cases x <;> rfl) (fun _ _ => rfl)
    (fun x _ _ => by cases x <;> rfl)

/-- The early return of an error. -/
def check (p : Prop) [Decidable p] (error : ε) : Outcome ε Unit :=
  if p then ok () else err error

def mapErr (f : ε → ε') : Outcome ε α → Outcome ε' α
  | ok value => ok value
  | err error => err (f error)
  | panic reason => panic reason

def ofOption (error : ε) : Option α → Outcome ε α
  | some value => ok value
  | none => err error

def ofExcept : Except ε α → Outcome ε α
  | .ok value => ok value
  | .error error => err error

/-- `xs[i]`. -/
def index (xs : List α) (i : Int) : Outcome ε α :=
  if i < 0 then panic .indexOutOfRange
  else
    match xs[i.toNat]? with
    | some x => ok x
    | none => panic .indexOutOfRange

/-- `*p`. -/
def deref : Option α → Outcome ε α
  | some value => ok value
  | none => panic .nilDereference

@[simp] theorem pure_eq_ok (value : α) : (pure value : Outcome ε α) = ok value := rfl

@[simp] theorem ok_bind (value : α) (f : α → Outcome ε β) : (ok value >>= f) = f value := rfl

@[simp] theorem err_bind (error : ε) (f : α → Outcome ε β) : (err error >>= f) = err error := rfl

@[simp] theorem panic_bind (reason : Panic) (f : α → Outcome ε β) :
    (panic reason >>= f) = panic reason := rfl

@[simp] theorem bind_eq_ok {x : Outcome ε α} {f : α → Outcome ε β} {b : β} :
    (x >>= f) = ok b ↔ ∃ a, x = ok a ∧ f a = ok b := by
  cases x <;> simp

@[simp] theorem check_eq_ok {p : Prop} [Decidable p] {error : ε} {u : Unit} :
    check p error = ok u ↔ p := by
  by_cases h : p <;> simp [check, h]

@[simp] theorem mapErr_eq_ok {f : ε → ε'} {x : Outcome ε α} {a : α} :
    x.mapErr f = ok a ↔ x = ok a := by
  cases x <;> simp [mapErr]

@[simp] theorem ofOption_eq_ok {error : ε} {x : Option α} {a : α} :
    ofOption error x = ok a ↔ x = some a := by
  cases x <;> simp [ofOption]

@[simp] theorem ofExcept_eq_ok {x : Except ε α} {a : α} : ofExcept x = ok a ↔ x = .ok a := by
  cases x <;> simp [ofExcept]

@[simp] theorem deref_eq_ok {x : Option α} {a : α} :
    (deref x : Outcome ε α) = ok a ↔ x = some a := by
  cases x <;> simp [deref]

theorem index_eq_ok {xs : List α} {i : Int} {a : α} :
    (index xs i : Outcome ε α) = ok a ↔ 0 ≤ i ∧ xs[i.toNat]? = some a := by
  unfold index
  by_cases hi : i < 0
  · simp [hi, Int.not_le.mpr hi]
  · rw [if_neg hi]
    cases hget : xs[i.toNat]? with
    | none => simp
    | some x => simp [Int.not_lt.mp hi]

theorem index_natCast {xs : List α} {i : Nat} {a : α} (h : xs[i]? = some a) :
    (index xs i : Outcome ε α) = ok a :=
  index_eq_ok.mpr ⟨Int.natCast_nonneg i, h⟩

/-! ## Calls that come back -/

/-- The call comes back, with a value or with an error. -/
def Returns (x : Outcome ε α) : Prop := ∀ reason, x ≠ panic reason

@[simp] theorem returns_ok (value : α) : (ok value : Outcome ε α).Returns := fun _ h => by cases h

@[simp] theorem returns_err (error : ε) : (err error : Outcome ε α).Returns := fun _ h => by cases h

@[simp] theorem not_returns_panic (reason : Panic) : ¬(panic reason : Outcome ε α).Returns :=
  fun h => h reason rfl

@[simp] theorem returns_bind {x : Outcome ε α} {f : α → Outcome ε β} :
    (x >>= f).Returns ↔ x.Returns ∧ ∀ a, x = ok a → (f a).Returns := by
  cases x <;> simp

@[simp] theorem returns_check {p : Prop} [Decidable p] {error : ε} : (check p error).Returns := by
  by_cases h : p <;> simp [check, h]

@[simp] theorem returns_mapErr {f : ε → ε'} {x : Outcome ε α} :
    (x.mapErr f).Returns ↔ x.Returns := by
  cases x <;> simp [mapErr]

@[simp] theorem returns_ofOption {error : ε} {x : Option α} : (ofOption error x).Returns := by
  cases x <;> simp [ofOption]

@[simp] theorem returns_ofExcept {x : Except ε α} : (ofExcept x).Returns := by
  cases x <;> simp [ofExcept]

@[simp] theorem returns_deref {x : Option α} :
    (deref x : Outcome ε α).Returns ↔ x.isSome = true := by
  cases x <;> simp [deref]

@[simp] theorem returns_index {xs : List α} {i : Int} :
    (index xs i : Outcome ε α).Returns ↔ 0 ≤ i ∧ i < xs.length := by
  unfold index
  by_cases hi : i < 0
  · simp [hi, Int.not_le.mpr hi]
  · rw [if_neg hi]
    cases hget : xs[i.toNat]? with
    | none =>
        have hlen := List.getElem?_eq_none_iff.mp hget
        simp only [not_returns_panic, false_iff, not_and, Int.not_lt]
        omega
    | some x =>
        obtain ⟨hlen, -⟩ := List.getElem?_eq_some_iff.mp hget
        simp only [returns_ok, true_iff]
        omega

theorem returns_mapM {f : α → Outcome ε β} (h : ∀ a, (f a).Returns) (xs : List α) :
    (xs.mapM f).Returns := by
  induction xs with
  | nil => simp
  | cons x xs ih => simp [List.mapM_cons, h x, ih]

/-! ## Errors that a call avoids -/

/-- The call may fail, but with none of the bad errors. -/
def Avoids (bad : ε → Prop) (x : Outcome ε α) : Prop := ∀ e, x = err e → ¬bad e

section Avoids

variable {bad : ε → Prop}

@[simp] theorem avoids_ok (value : α) : (ok value : Outcome ε α).Avoids bad := fun _ h => by cases h

@[simp] theorem avoids_panic (reason : Panic) : (panic reason : Outcome ε α).Avoids bad :=
  fun _ h => by cases h

@[simp] theorem avoids_err {error : ε} : (err error : Outcome ε α).Avoids bad ↔ ¬bad error := by
  constructor
  · intro h
    exact h error rfl
  · rintro h _ ⟨⟩
    exact h

theorem avoids_bind {x : Outcome ε α} {f : α → Outcome ε β} :
    (x >>= f).Avoids bad ↔ x.Avoids bad ∧ ∀ a, x = ok a → (f a).Avoids bad := by
  cases x <;> simp

@[simp] theorem avoids_check {p : Prop} [Decidable p] {error : ε} :
    (check p error).Avoids bad ↔ p ∨ ¬bad error := by
  by_cases h : p <;> simp [check, h]

@[simp] theorem avoids_mapErr {f : ε → ε'} {bad : ε' → Prop} {x : Outcome ε α} :
    (x.mapErr f).Avoids bad ↔ x.Avoids fun e => bad (f e) := by
  cases x <;> simp [mapErr]

@[simp] theorem avoids_ofOption {error : ε} {x : Option α} :
    (ofOption error x).Avoids bad ↔ x.isSome = true ∨ ¬bad error := by
  cases x <;> simp [ofOption]

@[simp] theorem avoids_deref {x : Option α} : (deref x : Outcome ε α).Avoids bad := by
  cases x <;> simp [deref]

@[simp] theorem avoids_index {xs : List α} {i : Int} : (index xs i : Outcome ε α).Avoids bad := by
  unfold index
  split
  · simp
  · split <;> simp

theorem avoids_of_eq_ok {x : Outcome ε α} {a : α} (h : x = ok a) : x.Avoids bad := by
  rw [h]
  exact avoids_ok a

end Avoids

end Outcome

/-- An error built from the package-level errors `κ` with `errors.New` and `errors.Wrap`. -/
structure GoError (κ : Type) where
  sentinel : Option κ
  text : GoString
  deriving DecidableEq, Repr

namespace GoError

variable {κ : Type}

/-- `errors.New` in a function body. -/
def new (text : String) : GoError κ := ⟨none, str text⟩

def wrap (context : GoString) (e : GoError κ) : GoError κ :=
  { e with text := context ++ str ": " ++ e.text }

def is [DecidableEq κ] (e : GoError κ) (target : κ) : Bool := decide (e.sentinel = some target)

/-- The error is, under its context, one of these package-level errors. -/
def Within (kinds : κ → Prop) (e : GoError κ) : Prop := ∃ s, e.sentinel = some s ∧ kinds s

variable {kinds : κ → Prop}

@[simp] theorem within_wrap {context : GoString} {e : GoError κ} :
    (e.wrap context).Within kinds ↔ e.Within kinds := Iff.rfl

@[simp] theorem not_within_none {text : GoString} :
    ¬(⟨none, text⟩ : GoError κ).Within kinds := by
  simp [Within]

@[simp] theorem not_within_new {text : String} : ¬(new text : GoError κ).Within kinds :=
  not_within_none

@[simp] theorem within_some {s : κ} {text : GoString} :
    (⟨some s, text⟩ : GoError κ).Within kinds ↔ kinds s := by
  simp [Within]

end GoError

/-- `errors.Wrap(err, context)` on the error path of a call. -/
def Outcome.wrap {κ α : Type} (context : String) (x : Outcome (GoError κ) α) :
    Outcome (GoError κ) α :=
  x.mapErr (GoError.wrap (str context))

@[simp] theorem Outcome.wrap_eq_ok {κ α : Type} {context : String} {x : Outcome (GoError κ) α}
    {a : α} : x.wrap context = .ok a ↔ x = .ok a := by
  simp [Outcome.wrap]

@[simp] theorem Outcome.returns_wrap {κ α : Type} {context : String}
    {x : Outcome (GoError κ) α} : (x.wrap context).Returns ↔ x.Returns := by
  simp [Outcome.wrap]

@[simp] theorem Outcome.avoids_wrap {κ α : Type} {kinds : κ → Prop} {context : String}
    {x : Outcome (GoError κ) α} :
    (x.wrap context).Avoids (GoError.Within kinds) ↔ x.Avoids (GoError.Within kinds) := by
  simp [Outcome.wrap]

end TssSvc
