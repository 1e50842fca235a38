import TssSvc.Lib.Words

/-!
# Base 58

The Bitcoin alphabet: every leading zero byte is a leading `1`, the rest is the number the bytes
denote, big-endian.  Both directions convert between two bases and keep the leading zeros, so
each undoes the other.
-/

set_option autoImplicit false

namespace TssSvc.Base58

def alphabet : GoString := str "123456789ABCDEFGHJKLMNPQRSTUVWXYZabcdefghijkmnopqrstuvwxyz"

def digitChar (d : Nat) : UInt8 := alphabet.getD d 0

def charDigit (b : UInt8) : Option Nat := alphabet.idxOf? b

def ofBigEndian (base : Nat) (digits : List Nat) : Nat :=
  digits.foldl (fun acc d => base * acc + d) 0

def encode (raw : Bytes) : GoString :=
  (raw.takeWhile (· = 0)).map (fun _ => 0x31) ++
    ((Nat.digits 58 (ofBigEndian 256 (raw.map UInt8.toNat))).reverse.map digitChar)

/-- `none` is an error: an empty string or a byte outside the alphabet. -/
def decode (s : GoString) : Option Bytes :=
  if s = [] then none
  else (s.mapM charDigit).map fun digits =>
    (digits.takeWhile (· = 0)).map (fun _ => 0) ++
      (Nat.digits 256 (ofBigEndian 58 digits)).reverse.map UInt8.ofNat

example : encode [0, 0, 1, 0xFF] = str "119p" ∧ decode (str "119p") = some [0, 0, 1, 0xFF] ∧
    decode (str "0") = none := by decide +kernel

/-! ## Changing the base -/

section Rebase

variable {b b' : Nat}

theorem ofBigEndian_eq (ds : List Nat) : ofBigEndian b ds = Nat.ofDigits b ds.reverse :=
  foldl_digits b ds

@[simp]
theorem ofBigEndian_digits (n : Nat) : ofBigEndian b (Nat.digits b n).reverse = n := by
  rw [ofBigEndian_eq, List.reverse_reverse, Nat.ofDigits_digits]

theorem ofBigEndian_zeros (z : Nat) (ds : List Nat) :
    ofBigEndian b (List.replicate z 0 ++ ds) = ofBigEndian b ds := by
  rw [ofBigEndian_eq, List.reverse_append, List.reverse_replicate,
    Nat.ofDigits_append_replicate_zero, ← ofBigEndian_eq]

theorem head?_digits_reverse (n : Nat) : (Nat.digits b n).reverse.head? ≠ some 0 := by
  rw [List.head?_reverse]
  by_cases hn : n = 0
  · simp [hn]
  · rw [List.getLast?_eq_some_getLast (Nat.digits_ne_nil_iff_ne_zero.mpr hn), Ne,
      Option.some.injEq]
    exact Nat.getLast_digit_ne_zero b hn

/-- Digits without a leading zero are those of their number. -/
theorem digits_ofBigEndian (hb : 1 < b) {ds : List Nat} (bound : ∀ d ∈ ds, d < b)
    (stripped : ds.head? ≠ some 0) : (Nat.digits b (ofBigEndian b ds)).reverse = ds := by
  rw [ofBigEndian_eq, Nat.digits_ofDigits b hb, List.reverse_reverse]
  · exact fun d hd => bound d (List.mem_reverse.mp hd)
  · intro hne
    rw [List.getLast_reverse]
    intro hzero
    exact stripped (hzero ▸ List.head?_eq_some_head _)

theorem exists_stripped (ds : List Nat) :
    ∃ z rest, ds = List.replicate z 0 ++ rest ∧ rest.head? ≠ some 0 := by
  induction ds with
  | nil => exact ⟨0, [], rfl, by simp⟩
  | cons d ds ih =>
      by_cases hd : d = 0
      · obtain ⟨z, rest, hds, stripped⟩ := ih
        exact ⟨z + 1, rest, by rw [hd, hds, List.replicate_succ, List.cons_append], stripped⟩
      · exact ⟨0, d :: ds, rfl, by simpa using hd⟩

/-- The digits in another base, behind the same leading zeros. -/
def rebase (b b' : Nat) (ds : List Nat) : List Nat :=
  ds.takeWhile (· = 0) ++ (Nat.digits b' (ofBigEndian b ds)).reverse

theorem rebase_stripped {z : Nat} {rest : List Nat} (stripped : rest.head? ≠ some 0) :
    rebase b b' (List.replicate z 0 ++ rest) =
      List.replicate z 0 ++ (Nat.digits b' (ofBigEndian b rest)).reverse := by
  have hrest : rest.takeWhile (· = 0) = [] := by
    cases rest with
    | nil => rfl
    | cons d rest => exact List.takeWhile_cons_of_neg (by simpa using stripped)
  rw [rebase, ofBigEndian_zeros, List.takeWhile_append_of_pos (by simp), hrest, List.append_nil]

theorem rebase_rebase (hb : 1 < b) {ds : List Nat} (bound : ∀ d ∈ ds, d < b) :
    rebase b' b (rebase b b' ds) = ds := by
  obtain ⟨z, rest, rfl, stripped⟩ := exists_stripped ds
  rw [rebase_stripped stripped, rebase_stripped (head?_digits_reverse _), ofBigEndian_digits,
    digits_ofBigEndian hb (fun d hd => bound d (List.mem_append_right _ hd)) stripped]

theorem rebase_lt (hb' : 1 < b') (ds : List Nat) : ∀ d ∈ rebase b b' ds, d < b' := by
  obtain ⟨z, rest, rfl, stripped⟩ := exists_stripped ds
  rw [rebase_stripped stripped]
  intro d hd
  rcases List.mem_append.mp hd with hzero | hdigit
  · rw [List.eq_of_mem_replicate hzero]
    omega
  · exact Nat.digits_lt_base hb' (List.mem_reverse.mp hdigit)

theorem rebase_ne_nil (hb : 1 < b) {ds : List Nat} (bound : ∀ d ∈ ds, d < b) (hne : ds ≠ []) :
    rebase b b' ds ≠ [] := by
  intro hnil
  have hback : rebase b' b (rebase b b' ds) = ds := rebase_rebase hb bound
  rw [hnil] at hback
  exact hne (by simpa [rebase, ofBigEndian] using hback.symm)

end Rebase

/-! ## Encoding and decoding -/

theorem encode_eq (raw : Bytes) :
    encode raw = (rebase 256 58 (raw.map UInt8.toNat)).map digitChar := by
  have hzeros : (raw.takeWhile (· = 0)).map (fun _ => (0x31 : UInt8)) =
      ((raw.map UInt8.toNat).takeWhile (· = 0)).map digitChar := by
    induction raw with
    | nil => rfl
    | cons byte raw ih =>
        by_cases hbyte : byte = 0
        · subst hbyte
          have hone : digitChar 0 = 0x31 := by decide
          simpa [hone] using ih
        · have hnat : byte.toNat ≠ 0 := fun h => hbyte (UInt8.toNat_inj.mp h)
          simp [hbyte, hnat]
  rw [encode, rebase, List.map_append, hzeros]

theorem decode_eq (s : GoString) :
    decode s = if s = [] then none
      else (s.mapM charDigit).map fun digits => (rebase 58 256 digits).map UInt8.ofNat := by
  have hzeros (digits : List Nat) : (digits.takeWhile (· = 0)).map (fun _ => (0 : UInt8)) =
      (digits.takeWhile (· = 0)).map UInt8.ofNat := by
    induction digits with
    | nil => rfl
    | cons d digits ih =>
        by_cases hd : d = 0
        · subst hd
          simpa using ih
        · simp [hd]
  unfold decode rebase
  simp only [List.map_append, hzeros]

theorem charDigit_eq_some {c : UInt8} {d : Nat} (h : charDigit c = some d) :
    d < 58 ∧ digitChar d = c := by
  obtain ⟨hlt, hget, -⟩ := List.idxOf?_eq_some_iff.mp h
  have hlength : alphabet.length = 58 := by decide
  refine ⟨hlength ▸ hlt, ?_⟩
  rw [digitChar, List.getD_eq_getElem?_getD, List.getElem?_eq_getElem hlt, hget, Option.getD_some]

theorem charDigit_digitChar : ∀ d < 58, charDigit (digitChar d) = some d := by decide

theorem mapM_charDigit_eq_some {s : GoString} : ∀ {digits : List Nat},
    s.mapM charDigit = some digits → (∀ d ∈ digits, d < 58) ∧ digits.map digitChar = s := by
  induction s with
  | nil =>
      intro digits h
      cases h
      simp
  | cons c s ih =>
      intro digits h
      simp only [List.mapM_cons, Option.bind_eq_bind, Option.bind_eq_some_iff, Option.pure_def,
        Option.some.injEq] at h
      obtain ⟨d, hd, rest, hrest, rfl⟩ := h
      obtain ⟨hlt, hchar⟩ := charDigit_eq_some hd
      obtain ⟨hbound, hmap⟩ := ih hrest
      refine ⟨fun x hx => ?_, by rw [List.map_cons, hchar, hmap]⟩
      rcases List.mem_cons.mp hx with rfl | hx
      · exact hlt
      · exact hbound x hx

theorem mapM_charDigit_map {digits : List Nat} (bound : ∀ d ∈ digits, d < 58) :
    (digits.map digitChar).mapM charDigit = some digits := by
  induction digits with
  | nil => rfl
  | cons d digits ih =>
      rw [List.map_cons, List.mapM_cons, charDigit_digitChar d (bound d List.mem_cons_self),
        ih fun x hx => bound x (List.mem_cons_of_mem d hx)]
      rfl

theorem toNat_lt_of_mem (raw : Bytes) : ∀ d ∈ raw.map UInt8.toNat, d < 256 := by
  intro d hd
  obtain ⟨byte, -, rfl⟩ := List.mem_map.mp hd
  exact byte.toNat_lt

theorem decode_encode {raw : Bytes} (hne : raw ≠ []) : decode (encode raw) = some raw := by
  have bound := toNat_lt_of_mem raw
  have hdigits : rebase 256 58 (raw.map UInt8.toNat) ≠ [] :=
    rebase_ne_nil (by decide) bound (by simpa using hne)
  rw [encode_eq, decode_eq, if_neg (by simpa using hdigits),
    mapM_charDigit_map (rebase_lt (by decide) _), Option.map_some,
    rebase_rebase (by decide) bound, List.map_map]
  congr 1
  exact (List.map_congr_left fun byte _ => UInt8.ofNat_toNat).trans (List.map_id raw)

theorem encode_of_decode {s : GoString} {raw : Bytes} (h : decode s = some raw) :
    encode raw = s := by
  rw [decode_eq] at h
  split at h
  · cases h
  obtain ⟨digits, hdigits, rfl⟩ := Option.map_eq_some_iff.mp h
  obtain ⟨bound, rfl⟩ := mapM_charDigit_eq_some hdigits
  have hbytes : ((rebase 58 256 digits).map UInt8.ofNat).map UInt8.toNat =
      rebase 58 256 digits := by
    rw [List.map_map]
    refine (List.map_congr_left fun d hd => ?_).trans (List.map_id _)
    exact UInt8.toNat_ofNat_of_lt' (rebase_lt (by decide) _ d hd)
  rw [encode_eq, hbytes, rebase_rebase (by decide) bound]

theorem encode_injective : Function.Injective encode := by
  intro raw raw' h
  by_cases hraw : raw = []
  · by_cases hraw' : raw' = []
    · rw [hraw, hraw']
    · have hback := decode_encode hraw'
      rw [← h, hraw] at hback
      cases hback
  · have hback := decode_encode hraw
    by_cases hraw' : raw' = []
    · rw [h, hraw'] at hback
      cases hback
    · rw [h, decode_encode hraw'] at hback
      exact (Option.some.inj hback).symm

theorem decode_inj {s s' : GoString} {raw : Bytes} (h : decode s = some raw)
    (h' : decode s' = some raw) : s = s' :=
  (encode_of_decode h).symm.trans (encode_of_decode h')

end TssSvc.Base58
