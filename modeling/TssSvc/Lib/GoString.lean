import Mathlib.Data.List.Basic
import TssSvc.Lib.Codec

/-!
# Go strings and panics

A Go string is a sequence of bytes, and so is a `[]byte`; conversions between the two
keep the bytes.  `str` turns an ASCII literal of this development into its bytes.

A computation of the source either returns or panics.
-/

set_option autoImplicit false

namespace TssSvc

open TssSvc.Codec

abbrev Bytes := List UInt8

abbrev GoString := Bytes

instance : LawfulBEq GoString := inferInstanceAs (LawfulBEq (List UInt8))

def str (literal : String) : GoString := literal.toList.map fun c => UInt8.ofNat c.toNat

/-- `strings.ToLower` of an ASCII text.  The source's function also maps the other letters of
Unicode; this one leaves their bytes as they are. -/
def toLower (s : GoString) : GoString :=
  s.map fun b => if 0x41 ≤ b ∧ b ≤ 0x5A then b + 0x20 else b

inductive Panic where
  | indexOutOfRange
  | nilMapAssignment
  | nilDereference
  | divideByZero
  | explicit
  deriving DecidableEq, Repr

abbrev Go (α : Type) := Except Panic α

theorem ofNat_injOn {x y : Nat} (hx : x < 256) (hy : y < 256)
    (h : UInt8.ofNat x = UInt8.ofNat y) : x = y := by
  have hnat := congrArg UInt8.toNat h
  simp only [UInt8.toNat_ofNat'] at hnat
  omega

/-! ## Hexadecimal output -/

def hexDigit (n : Nat) : UInt8 := UInt8.ofNat (if n < 10 then 0x30 + n else 0x57 + n)

def hexPair (b : UInt8) : GoString := [hexDigit (b.toNat / 16), hexDigit (b.toNat % 16)]

/-- The verb `%x` on a byte slice. -/
def formatHex (bytes : Bytes) : GoString := bytes.flatMap hexPair

theorem hexDigit_injOn {m n : Nat} (hm : m < 16) (hn : n < 16) (h : hexDigit m = hexDigit n) :
    m = n := by
  have hcode := ofNat_injOn (by split <;> omega) (by split <;> omega) h
  split at hcode <;> split at hcode <;> omega

theorem hexPair_prefixFree : PrefixFree hexPair := by
  intro a b rest rest' h
  simp only [hexPair, List.cons_append, List.nil_append, List.cons.injEq] at h
  obtain ⟨hhigh, hlow, hrest⟩ := h
  have ha := a.toNat_lt
  have hb := b.toNat_lt
  have hdiv := hexDigit_injOn (by omega) (by omega) hhigh
  have hmod := hexDigit_injOn (by omega) (by omega) hlow
  exact ⟨UInt8.toNat_inj.mp (by omega), hrest⟩

theorem formatHex_injective : Function.Injective formatHex := by
  apply hexPair_prefixFree.flatMap_injective
  intro b
  simp [hexPair]

theorem formatHex_eq_nil_iff (bytes : Bytes) : formatHex bytes = [] ↔ bytes = [] := by
  cases bytes with
  | nil => simp [formatHex]
  | cons b rest => simp [formatHex, hexPair]

theorem length_formatHex (raw : Bytes) : (formatHex raw).length = 2 * raw.length := by
  induction raw with
  | nil => rfl
  | cons byte raw ih =>
      rw [formatHex, List.flatMap_cons, List.length_append, ← formatHex, ih, List.length_cons]
      simp only [hexPair, List.length_cons, List.length_nil]
      omega

/-! ## UTF-8 -/

/-- The range of the second byte and the number of further continuation bytes after a first
byte from 0x80 on. -/
def utf8Class (b : UInt8) : Option (UInt8 × UInt8 × Nat) :=
  if 0xC2 ≤ b ∧ b ≤ 0xDF then some (0x80, 0xBF, 0)
  else if b = 0xE0 then some (0xA0, 0xBF, 1)
  else if b = 0xED then some (0x80, 0x9F, 1)
  else if 0xE1 ≤ b ∧ b ≤ 0xEF then some (0x80, 0xBF, 1)
  else if b = 0xF0 then some (0x90, 0xBF, 2)
  else if b = 0xF4 then some (0x80, 0x8F, 2)
  else if 0xF1 ≤ b ∧ b ≤ 0xF3 then some (0x80, 0xBF, 2)
  else none

/-- `expected` are the ranges of the continuation bytes still to come. -/
def utf8Scan : List (UInt8 × UInt8) → Bytes → Bool
  | [], [] => true
  | _ :: _, [] => false
  | (low, high) :: expected, b :: rest =>
      if low ≤ b ∧ b ≤ high then utf8Scan expected rest else false
  | [], b :: rest =>
      if b < 0x80 then utf8Scan [] rest
      else
        match utf8Class b with
        | none => false
        | some (low, high, more) =>
            utf8Scan ((low, high) :: List.replicate more (0x80, 0xBF)) rest

/-- `utf8.ValidString`. -/
def validUtf8 (s : GoString) : Bool := utf8Scan [] s

example : validUtf8 [0x41, 0xE2, 0x82, 0xAC] = true ∧ validUtf8 [0xED, 0xA0, 0x80] = false := by
  decide

end TssSvc
