import Mathlib.Data.Nat.Digits.Lemmas
import TssSvc.Lib.GoString

/-!
# The protobuf wire format

A message on the wire is the sequence of its populated fields.  Only the two wire types that
the messages of this development use are here: varints and length-delimited contents.

`encodeAll_injective`: the bytes determine the sequence of fields.
-/

set_option autoImplicit false

namespace TssSvc.Proto

open TssSvc.Codec

/-- Base-128 digits, least significant first, at least one. -/
def varintDigits (n : Nat) : List Nat := if n = 0 then [0] else Nat.digits 128 n

/-- Every byte but the last carries the continuation bit. -/
def continued : List Nat → Bytes
  | [] => []
  | [d] => [UInt8.ofNat d]
  | d :: ds => UInt8.ofNat (d + 128) :: continued ds

def varint (n : Nat) : Bytes := continued (varintDigits n)

inductive Field where
  | varint (number : Nat) (value : Nat)
  | len (number : Nat) (content : Bytes)
  deriving DecidableEq, Repr

def Field.tag : Field → Nat
  | .varint number _ => 8 * number
  | .len number _ => 8 * number + 2

def Field.payload : Field → Bytes
  | .varint _ value => Proto.varint value
  | .len _ content => Proto.varint content.length ++ content

def encode (field : Field) : Bytes := varint field.tag ++ field.payload

def encodeAll (fields : List Field) : Bytes := fields.flatMap encode

theorem varintDigits_ne_nil (n : Nat) : varintDigits n ≠ [] := by
  simp only [varintDigits]
  split
  · simp
  · rename_i hn
    exact Nat.digits_ne_nil_iff_ne_zero.mpr hn

theorem varintDigits_lt {n d : Nat} (h : d ∈ varintDigits n) : d < 128 := by
  simp only [varintDigits] at h
  split at h
  · rw [List.mem_singleton.mp h]
    omega
  · exact Nat.digits_lt_base (by omega) h

theorem ofDigits_varintDigits (n : Nat) : Nat.ofDigits 128 (varintDigits n) = n := by
  simp only [varintDigits]
  split
  · rename_i hn
    simp [hn]
  · exact Nat.ofDigits_digits 128 n

/-- The induction is on the first digit list; a byte below 128 ends both. -/
theorem continued_prefixFree : ∀ (xs ys : List Nat), xs ≠ [] → ys ≠ [] →
    (∀ x ∈ xs, x < 128) → (∀ y ∈ ys, y < 128) → ∀ rest rest' : Bytes,
      continued xs ++ rest = continued ys ++ rest' → xs = ys ∧ rest = rest' := by
  intro xs
  induction xs with
  | nil =>
      intro ys hx
      exact absurd rfl hx
  | cons x xs ih =>
      intro ys _ hy hxlt hylt rest rest' heq
      cases ys with
      | nil => exact absurd rfl hy
      | cons y ys =>
          have hx := hxlt x List.mem_cons_self
          have hy := hylt y List.mem_cons_self
          cases xs with
          | nil =>
              cases ys with
              | nil =>
                  simp only [continued, List.cons_append, List.nil_append, List.cons.injEq] at heq
                  exact ⟨by rw [ofNat_injOn (by omega) (by omega) heq.1], heq.2⟩
              | cons y' ys =>
                  simp only [continued, List.cons_append, List.nil_append, List.cons.injEq] at heq
                  have := ofNat_injOn (by omega) (by omega) heq.1
                  omega
          | cons x' xs =>
              cases ys with
              | nil =>
                  simp only [continued, List.cons_append, List.nil_append, List.cons.injEq] at heq
                  have := ofNat_injOn (by omega) (by omega) heq.1
                  omega
              | cons y' ys =>
                  simp only [continued, List.cons_append, List.cons.injEq] at heq
                  have hhead := ofNat_injOn (by omega) (by omega) heq.1
                  obtain ⟨htail, hrest⟩ := ih (y' :: ys) (by simp) (by simp)
                    (fun d hd => hxlt d (List.mem_cons_of_mem x hd))
                    (fun d hd => hylt d (List.mem_cons_of_mem y hd)) rest rest' heq.2
                  exact ⟨by rw [htail, show x = y by omega], hrest⟩

theorem varint_prefixFree : PrefixFree varint := by
  intro m n rest rest' heq
  obtain ⟨hdigits, hrest⟩ := continued_prefixFree _ _ (varintDigits_ne_nil m)
    (varintDigits_ne_nil n) (fun _ h => varintDigits_lt h) (fun _ h => varintDigits_lt h) rest rest'
    heq
  refine ⟨?_, hrest⟩
  calc m = Nat.ofDigits 128 (varintDigits m) := (ofDigits_varintDigits m).symm
    _ = Nat.ofDigits 128 (varintDigits n) := by rw [hdigits]
    _ = n := ofDigits_varintDigits n

theorem varint_ne_nil (n : Nat) : varint n ≠ [] := by
  have hne := varintDigits_ne_nil n
  simp only [varint]
  cases hdigits : varintDigits n with
  | nil => exact absurd hdigits hne
  | cons d ds => cases ds <;> simp [continued]

theorem encode_prefixFree : PrefixFree encode := by
  intro a b rest rest' heq
  simp only [encode, List.append_assoc] at heq
  obtain ⟨htag, hpayload⟩ := varint_prefixFree _ _ _ _ heq
  -- the tag tells the wire type and the field number
  cases a with
  | varint number value =>
      cases b with
      | varint number' value' =>
          obtain ⟨hvalue, hrest⟩ := varint_prefixFree _ _ _ _ hpayload
          simp only [Field.tag] at htag
          exact ⟨by rw [hvalue, show number = number' by omega], hrest⟩
      | len number' content =>
          simp only [Field.tag] at htag
          omega
  | len number content =>
      cases b with
      | varint number' value =>
          simp only [Field.tag] at htag
          omega
      | len number' content' =>
          obtain ⟨hcontent, hrest⟩ := prefixFree_lengthPrefixed varint_prefixFree _ _ _ _ hpayload
          simp only [Field.tag] at htag
          exact ⟨by rw [hcontent, show number = number' by omega], hrest⟩

theorem encodeAll_injective : Function.Injective encodeAll := by
  apply encode_prefixFree.flatMap_injective
  intro field
  simp [encode, varint_ne_nil]

example : encodeAll [.len 1 (str "x"), .varint 2 300] = [0x0A, 1, 0x78, 0x10, 0xAC, 0x02] := by
  decide

/-! ## Fields by their numbers -/

/-- The contents of the length-delimited fields with a number. -/
def contents (number : Nat) : List Field → List Bytes
  | [] => []
  | .len other content :: rest =>
      if other = number then content :: contents number rest else contents number rest
  | .varint _ _ :: rest => contents number rest

def varints (number : Nat) : List Field → List Nat
  | [] => []
  | .varint other value :: rest =>
      if other = number then value :: varints number rest else varints number rest
  | .len _ _ :: rest => varints number rest

@[simp] theorem contents_append (number : Nat) (fields rest : List Field) :
    contents number (fields ++ rest) = contents number fields ++ contents number rest := by
  induction fields with
  | nil => rfl
  | cons field fields ih =>
      cases field with
      | varint other value => simpa only [List.cons_append, contents] using ih
      | len other content =>
          by_cases h : other = number <;> simp [contents, h, ih]

@[simp] theorem varints_append (number : Nat) (fields rest : List Field) :
    varints number (fields ++ rest) = varints number fields ++ varints number rest := by
  induction fields with
  | nil => rfl
  | cons field fields ih =>
      cases field with
      | len other content => simpa only [List.cons_append, varints] using ih
      | varint other value =>
          by_cases h : other = number <;> simp [varints, h, ih]

theorem contents_map_len (number other : Nat) (values : List Bytes) :
    contents number (values.map (.len other)) = if other = number then values else [] := by
  induction values with
  | nil => simp [contents]
  | cons value values ih =>
      by_cases h : other = number <;> simp_all [contents]

theorem varints_map_len (number other : Nat) (values : List Bytes) :
    varints number (values.map (.len other)) = [] := by
  induction values with
  | nil => rfl
  | cons value values ih => exact ih

end TssSvc.Proto
