import TssSvc.Lib.Words

/-!
# DER signatures

A sequence of two non-negative integers of at most 32 bytes, in the form that Bitcoin nodes
require: every length is exact and no integer has a superfluous leading zero.

`decode_encode`: the strict decoder reads back what is written.
-/

set_option autoImplicit false

namespace TssSvc.Der

/-! ## Integers -/

/-- Leading zeros are dropped while the next byte has no high bit. -/
def trim : Bytes → Bytes
  | a :: b :: rest => if a = 0 ∧ b < 0x80 then trim (b :: rest) else a :: b :: rest
  | bytes => bytes

/-- The content of a non-negative integer without superfluous zeros. -/
def Minimal : Bytes → Prop
  | [] => False
  | [a] => a < 0x80
  | a :: b :: _ => a < 0x80 ∧ ¬(a = 0 ∧ b < 0x80)

instance : DecidablePred Minimal
  | [] => inferInstanceAs (Decidable False)
  | [a] => inferInstanceAs (Decidable (a < 0x80))
  | a :: b :: _ => inferInstanceAs (Decidable (a < 0x80 ∧ ¬(a = 0 ∧ b < 0x80)))

theorem minimal_trim {bytes : Bytes} (nonempty : bytes ≠ [])
    (positive : ∀ a ∈ bytes.head?, a < 0x80) : Minimal (trim bytes) := by
  fun_induction trim bytes with
  | case1 a b rest dropped ih =>
      refine ih (List.cons_ne_nil _ _) fun c hc => ?_
      cases hc
      exact dropped.2
  | case2 a b rest kept => exact ⟨positive a rfl, kept⟩
  | case3 bytes short =>
      cases bytes with
      | nil => exact absurd rfl nonempty
      | cons a rest =>
          cases rest with
          | nil => exact positive a rfl
          | cons b rest => exact absurd rfl (short a b rest)

theorem length_trim_le (bytes : Bytes) : (trim bytes).length ≤ bytes.length := by
  fun_induction trim bytes with
  | case1 a b rest dropped ih => exact Nat.le_succ_of_le ih
  | case2 a b rest kept => exact Nat.le_refl _
  | case3 bytes short => exact Nat.le_refl _

theorem bigEndian_trim (bytes : Bytes) : bigEndian (trim bytes) = bigEndian bytes := by
  fun_induction trim bytes with
  | case1 a b rest dropped ih =>
      rw [ih, dropped.1]
      exact (bigEndian_zeros 1 (b :: rest)).symm
  | case2 a b rest kept => rfl
  | case3 bytes short => rfl

/-- 33 bytes, the first of them zero. -/
def padded (n : Nat) : Bytes :=
  let digits := (Nat.digits 256 n).reverse.map UInt8.ofNat
  List.replicate (33 - digits.length) 0 ++ digits

def integer (n : Nat) : Bytes := trim (padded n)

section Integer

variable {n : Nat} (fits : n < 2 ^ 256)

include fits

theorem padded_eq_cons : ∃ rest, padded n = 0 :: rest ∧ rest.length = 32 := by
  unfold padded
  simp only
  generalize hdigits : (Nat.digits 256 n).reverse.map UInt8.ofNat = digits
  have hlength : digits.length ≤ 32 := by
    rw [← hdigits, List.length_map, List.length_reverse, Nat.digits_length_le_iff (by decide)]
    exact fits
  obtain ⟨zeros, hzeros⟩ : ∃ zeros, 33 - digits.length = zeros + 1 := ⟨32 - digits.length, by omega⟩
  refine ⟨List.replicate zeros 0 ++ digits, ?_, ?_⟩
  · rw [hzeros, List.replicate_succ, List.cons_append]
  · rw [List.length_append, List.length_replicate]
    omega

theorem minimal_integer : Minimal (integer n) := by
  obtain ⟨rest, hpadded, -⟩ := padded_eq_cons fits
  unfold integer
  rw [hpadded]
  refine minimal_trim (List.cons_ne_nil _ _) fun a ha => ?_
  cases ha
  decide

theorem length_integer_le : (integer n).length ≤ 33 := by
  obtain ⟨rest, hpadded, hlength⟩ := padded_eq_cons fits
  refine (length_trim_le _).trans ?_
  rw [hpadded, List.length_cons, hlength]

omit fits in
theorem bigEndian_integer (n : Nat) : bigEndian (integer n) = n := by
  unfold integer padded
  rw [bigEndian_trim, bigEndian_zeros, bigEndian_digits]

end Integer

/-! ## Sequences of two integers -/

def writeInteger (n : Nat) : Bytes := 0x02 :: UInt8.ofNat (integer n).length :: integer n

def encode (r s : Nat) : Bytes :=
  0x30 :: UInt8.ofNat (4 + (integer r).length + (integer s).length) ::
    (writeInteger r ++ writeInteger s)

/-- One integer and what follows it. -/
def readInteger : Bytes → Option (Nat × Bytes)
  | tag :: length :: rest =>
      let content := rest.take length.toNat
      if tag = 0x02 ∧ content.length = length.toNat ∧ Minimal content then
        some (bigEndian content, rest.drop length.toNat)
      else none
  | _ => none

def decode : Bytes → Option (Nat × Nat)
  | tag :: length :: rest =>
      if tag = 0x30 ∧ rest.length = length.toNat then
        (readInteger rest).bind fun first =>
          (readInteger first.2).bind fun second =>
            if second.2 = [] then some (first.1, second.1) else none
      else none
  | _ => none

theorem toNat_ofNat_length {k : Nat} (h : k ≤ 72) : (UInt8.ofNat k).toNat = k :=
  UInt8.toNat_ofNat_of_lt (Nat.lt_of_le_of_lt h (by decide))

theorem readInteger_writeInteger {n : Nat} (fits : n < 2 ^ 256) (rest : Bytes) :
    readInteger (writeInteger n ++ rest) = some (n, rest) := by
  have hlength := length_integer_le fits
  have htake : ((integer n ++ rest).take (UInt8.ofNat (integer n).length).toNat) = integer n := by
    rw [toNat_ofNat_length (by omega), List.take_left' rfl]
  have hdrop : ((integer n ++ rest).drop (UInt8.ofNat (integer n).length).toNat) = rest := by
    rw [toNat_ofNat_length (by omega), List.drop_left' rfl]
  simp only [writeInteger, List.cons_append, readInteger, htake, hdrop]
  rw [if_pos ⟨trivial, (toNat_ofNat_length (by omega)).symm, minimal_integer fits⟩,
    bigEndian_integer]

theorem decode_encode {r s : Nat} (hr : r < 2 ^ 256) (hs : s < 2 ^ 256) :
    decode (encode r s) = some (r, s) := by
  have hlengthR := length_integer_le hr
  have hlengthS := length_integer_le hs
  have hsecond := readInteger_writeInteger hs []
  rw [List.append_nil] at hsecond
  have htotal : (writeInteger r ++ writeInteger s).length =
      (UInt8.ofNat (4 + (integer r).length + (integer s).length)).toNat := by
    rw [toNat_ofNat_length (by omega)]
    simp only [writeInteger, List.length_append, List.length_cons]
    omega
  simp only [encode, decode]
  rw [if_pos ⟨trivial, htotal⟩, readInteger_writeInteger hr]
  simp [hsecond]

theorem length_encode {r s : Nat} (hr : r < 2 ^ 256) (hs : s < 2 ^ 256) :
    6 ≤ (encode r s).length ∧ (encode r s).length ≤ 72 := by
  have hlengthR := length_integer_le hr
  have hlengthS := length_integer_le hs
  simp only [encode, writeInteger, List.length_append, List.length_cons]
  omega

end TssSvc.Der
