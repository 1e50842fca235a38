import Mathlib.Data.Nat.Digits.Lemmas
import TssSvc.Lib.Codec
import TssSvc.Lib.GoString

/-!
# The gob encoding of strings and byte slices

`gob.Encoder.Encode` writes one message per call: the byte count of the message,
the type id, a zero field delta and the value.  A string (type id 6) and a byte
slice (type id 5) are their length followed by their bytes.  Unsigned numbers up to
127 are one byte; larger ones are their big-endian bytes behind the negated count of
these bytes.
-/

set_option autoImplicit false

namespace TssSvc.Gob

open TssSvc.Codec

def bigEndian (n : Nat) : Bytes := (Nat.digits 256 n).reverse.map UInt8.ofNat

/-- `encodeUint`.  Go hands it `uint64` values only; the last clause makes the
function total on `Nat` without spoiling the code. -/
def encodeUint (n : Nat) : Bytes :=
  if n ≤ 0x7F then [UInt8.ofNat n]
  else if n < 2 ^ 64 then UInt8.ofNat (256 - (bigEndian n).length) :: bigEndian n
  else 0x80 :: (List.replicate n 0 ++ [1])

inductive Item where
  | str (s : Bytes)
  | bytes (b : Bytes)
  deriving DecidableEq, Repr

def Item.typeId : Item → UInt8
  | .str _ => 0x0c
  | .bytes _ => 0x0a

def Item.payload : Item → Bytes
  | .str s => s
  | .bytes b => b

/-- Type id, zero field delta, length-prefixed payload. -/
def Item.body (item : Item) : Bytes :=
  item.typeId :: 0 :: (encodeUint item.payload.length ++ item.payload)

/-- `Encode`: the body behind its byte count. -/
def encode (item : Item) : Bytes := encodeUint item.body.length ++ item.body

theorem map_ofNat_injOn : ∀ (xs ys : List Nat), (∀ x ∈ xs, x < 256) → (∀ y ∈ ys, y < 256) →
    xs.map UInt8.ofNat = ys.map UInt8.ofNat → xs = ys := by
  intro xs
  induction xs with
  | nil =>
      intro ys _ _ h
      simpa using h.symm
  | cons x xs ih =>
      intro ys hx hy h
      cases ys with
      | nil => simp at h
      | cons y ys =>
          simp only [List.map_cons, List.cons.injEq] at h
          have hhead := ofNat_injOn (hx x (by simp)) (hy y (by simp)) h.1
          have htail :=
            ih ys (fun z hz => hx z (by simp [hz])) (fun z hz => hy z (by simp [hz])) h.2
          rw [hhead, htail]

theorem bigEndian_injective : Function.Injective bigEndian := by
  intro m n h
  have hlt : ∀ k : Nat, ∀ d ∈ (Nat.digits 256 k).reverse, d < 256 := by
    intro k d hd
    exact Nat.digits_lt_base (by omega) (List.mem_reverse.mp hd)
  have hrev := map_ofNat_injOn _ _ (hlt m) (hlt n) h
  exact Nat.digits.injective 256 (List.reverse_injective hrev)

theorem bigEndian_length_le {n : Nat} (h : n < 2 ^ 64) : (bigEndian n).length ≤ 8 := by
  simp only [bigEndian, List.length_map, List.length_reverse]
  exact (Nat.digits_length_le_iff (by omega) n).mpr (by simpa using h)

theorem replicate_one_inj {m n : Nat} {rest rest' : Bytes}
    (h : List.replicate m 0 ++ 1 :: rest = List.replicate n (0 : UInt8) ++ 1 :: rest') :
    m = n ∧ rest = rest' := by
  induction m generalizing n with
  | zero =>
      cases n with
      | zero => simpa using h
      | succ n => simp [List.replicate_succ] at h
  | succ m ih =>
      cases n with
      | zero => simp [List.replicate_succ] at h
      | succ n =>
          simp only [List.replicate_succ, List.cons_append, List.cons.injEq, true_and] at h
          obtain ⟨hmn, hrest⟩ := ih h
          exact ⟨by rw [hmn], hrest⟩

/-- The three clauses of `encodeUint` are told apart by their first byte. -/
theorem encodeUint_head (n : Nat) :
    ∃ tail, encodeUint n = UInt8.ofNat (if n ≤ 0x7F then n
      else if n < 2 ^ 64 then 256 - (bigEndian n).length else 0x80) :: tail := by
  unfold encodeUint
  split
  · exact ⟨[], rfl⟩
  · split
    · exact ⟨bigEndian n, rfl⟩
    · exact ⟨List.replicate n 0 ++ [1], rfl⟩

theorem bigEndian_length_pos {n : Nat} (h : 0 < n) : 0 < (bigEndian n).length := by
  simp only [bigEndian, List.length_map, List.length_reverse]
  exact List.length_pos_of_ne_nil (Nat.digits_ne_nil_iff_ne_zero.mpr (by omega))

theorem encodeUint_prefixFree : PrefixFree encodeUint := by
  intro m n rest rest' heq
  -- the first bytes agree, so both numbers use the same clause
  have hhead : (if m ≤ 0x7F then m else if m < 2 ^ 64 then 256 - (bigEndian m).length else 0x80) =
      (if n ≤ 0x7F then n else if n < 2 ^ 64 then 256 - (bigEndian n).length else 0x80) := by
    obtain ⟨tm, hm⟩ := encodeUint_head m
    obtain ⟨tn, hn⟩ := encodeUint_head n
    rw [hm, hn] at heq
    refine ofNat_injOn ?_ ?_ (List.cons.inj heq).1
    · have := bigEndian_length_pos (n := m)
      split_ifs <;> omega
    · have := bigEndian_length_pos (n := n)
      split_ifs <;> omega
  have hm8 := bigEndian_length_le (n := m)
  have hn8 := bigEndian_length_le (n := n)
  by_cases hm : m ≤ 0x7F
  · rw [if_pos hm] at hhead
    by_cases hn : n ≤ 0x7F
    · rw [if_pos hn] at hhead
      subst hhead
      exact ⟨rfl, List.append_cancel_left heq⟩
    · rw [if_neg hn] at hhead
      split_ifs at hhead <;> omega
  · rw [if_neg hm] at hhead
    by_cases hn : n ≤ 0x7F
    · rw [if_pos hn] at hhead
      split_ifs at hhead <;> omega
    · rw [if_neg hn] at hhead
      by_cases hmBig : m < 2 ^ 64
      · by_cases hnBig : n < 2 ^ 64
        · rw [if_pos hmBig, if_pos hnBig] at hhead
          simp only [encodeUint, if_neg hm, if_neg hn, if_pos hmBig, if_pos hnBig,
            List.cons_append, List.cons.injEq] at heq
          have hlen : (bigEndian m).length = (bigEndian n).length := by
            have := hm8 hmBig
            have := hn8 hnBig
            omega
          obtain ⟨hbytes, hrest⟩ := List.append_inj heq.2 hlen
          exact ⟨bigEndian_injective hbytes, hrest⟩
        · rw [if_pos hmBig, if_neg hnBig] at hhead
          have := hm8 hmBig
          omega
      · by_cases hnBig : n < 2 ^ 64
        · rw [if_neg hmBig, if_pos hnBig] at hhead
          have := hn8 hnBig
          omega
        · simp only [encodeUint, if_neg hm, if_neg hn, if_neg hmBig, if_neg hnBig,
            List.cons_append, List.append_assoc, List.nil_append, List.cons.injEq,
            true_and] at heq
          exact replicate_one_inj heq

theorem body_injective : Function.Injective Item.body := by
  intro a b h
  simp only [Item.body, List.cons.injEq, true_and] at h
  obtain ⟨hid, htail⟩ := h
  have hpayload := (prefixFree_lengthPrefixed encodeUint_prefixFree).injective htail
  cases a <;> cases b <;> simp_all [Item.typeId, Item.payload]

theorem encode_prefixFree : PrefixFree encode :=
  (prefixFree_lengthPrefixed encodeUint_prefixFree).comp_injective body_injective

theorem encode_ne_nil (item : Item) : encode item ≠ [] := by
  simp [encode, Item.body]

/-- A stream of gob messages determines the values that were encoded. -/
theorem encodeAll_injective : Function.Injective fun items : List Item => items.flatMap encode :=
  encode_prefixFree.flatMap_injective encode_ne_nil

example : encode (.str [0x61, 0x62]) = [5, 0x0c, 0, 2, 0x61, 0x62] := by decide

end TssSvc.Gob
