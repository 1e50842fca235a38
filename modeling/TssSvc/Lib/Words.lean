import Mathlib.Data.Nat.Digits.Lemmas
import TssSvc.Lib.GoString

/-!
# Words of bytes

The numbers that byte strings denote, with the most significant byte first or last.
-/

set_option autoImplicit false

namespace TssSvc

/-- Horner's scheme, the most significant digit first. -/
theorem foldl_digits (b : Nat) (ds : List Nat) :
    ds.foldl (fun n d => b * n + d) 0 = Nat.ofDigits b ds.reverse := by
  rw [← List.foldr_reverse, Nat.ofDigits_eq_foldr]
  congr 1
  funext d n
  exact Nat.add_comm _ _

def bigEndian (word : Bytes) : Nat := Nat.ofDigits 256 (word.reverse.map UInt8.toNat)

def littleEndian (word : Bytes) : Nat := Nat.ofDigits 256 (word.map UInt8.toNat)

theorem bigEndian_lt (word : Bytes) : bigEndian word < 256 ^ word.length := by
  have hbytes : ∀ d ∈ word.reverse.map UInt8.toNat, d < 256 := by
    intro d hd
    obtain ⟨byte, -, rfl⟩ := List.mem_map.mp hd
    exact byte.toNat_lt
  have hlt := Nat.ofDigits_lt_base_pow_length (by decide) hbytes
  rwa [List.length_map, List.length_reverse] at hlt

theorem bigEndian_zeros (z : Nat) (word : Bytes) :
    bigEndian (List.replicate z 0 ++ word) = bigEndian word := by
  unfold bigEndian
  rw [List.reverse_append, List.map_append, List.reverse_replicate, List.map_replicate]
  exact Nat.ofDigits_append_replicate_zero _

/-- The digits to base 256, as bytes, denote the number. -/
theorem bigEndian_digits (n : Nat) :
    bigEndian ((Nat.digits 256 n).reverse.map UInt8.ofNat) = n := by
  have hbytes : (Nat.digits 256 n).map (UInt8.toNat ∘ UInt8.ofNat) = Nat.digits 256 n := by
    refine (List.map_congr_left fun d hd => ?_).trans (List.map_id _)
    exact UInt8.toNat_ofNat_of_lt (Nat.digits_lt_base (by decide) hd)
  unfold bigEndian
  rw [← List.map_reverse, List.reverse_reverse, List.map_map, hbytes, Nat.ofDigits_digits]

/-- The low `k` bytes of a number. -/
theorem littleEndian_range (n k : Nat) :
    littleEndian ((List.range k).map fun i => UInt8.ofNat (n / 256 ^ i % 256)) = n % 256 ^ k := by
  induction k with
  | zero => simp [littleEndian, Nat.mod_one]
  | succ k ih =>
      have hbyte : (UInt8.ofNat (n / 256 ^ k % 256)).toNat = n / 256 ^ k % 256 :=
        UInt8.toNat_ofNat_of_lt (Nat.mod_lt _ (by decide))
      unfold littleEndian at ih ⊢
      rw [List.range_succ, List.map_append, List.map_append, Nat.ofDigits_append, ih]
      simp only [List.map_cons, List.map_nil, List.length_map, List.length_range,
        Nat.ofDigits_singleton, hbyte]
      rw [Nat.pow_succ, Nat.mod_mul]

end TssSvc
