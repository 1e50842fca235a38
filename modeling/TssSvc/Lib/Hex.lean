import TssSvc.Lib.Outcome

/-!
# Hexadecimal input

`encoding/hex`, `common.FromHex`, `common.HexToHash`, `common.IsHexAddress` and
`hexutil.Decode`.  All of them read upper-case and lower-case digits alike.
-/

set_option autoImplicit false

namespace TssSvc

def fromHexChar (b : UInt8) : Option Nat :=
  if 0x30 ≤ b ∧ b ≤ 0x39 then some (b.toNat - 0x30)
  else if 0x61 ≤ b ∧ b ≤ 0x66 then some (b.toNat - 0x57)
  else if 0x41 ≤ b ∧ b ≤ 0x46 then some (b.toNat - 0x37)
  else none

def isHexChar (b : UInt8) : Bool := (fromHexChar b).isSome

/-- The bytes `hex.DecodeString` returns, those before an error included, and whether it
returned none. -/
def hexDecode : GoString → Bytes × Bool
  | [] => ([], true)
  | [_] => ([], false)
  | high :: low :: rest =>
      match fromHexChar high, fromHexChar low with
      | some h, some l =>
          let tail := hexDecode rest
          (UInt8.ofNat (16 * h + l) :: tail.1, tail.2)
      | _, _ => ([], false)

def decodeString (s : GoString) : Option Bytes :=
  if (hexDecode s).2 then some (hexDecode s).1 else none

def has0xPrefix (s : GoString) : Bool :=
  match s with
  | 0x30 :: x :: _ => decide (x = 0x78 ∨ x = 0x58)
  | _ => false

/-- The digits after the marker `0x` or `0X`, if there is one. -/
def digitsOf (s : GoString) : GoString := if has0xPrefix s then s.drop 2 else s

def fromHex (s : GoString) : Bytes :=
  let digits := digitsOf s
  (hexDecode (if digits.length % 2 = 1 then 0x30 :: digits else digits)).1

/-- `common.BytesToHash` and `common.BytesToAddress`: the last `width` bytes, padded on the
left. -/
def fitBytes (width : Nat) (bytes : Bytes) : Bytes :=
  let last := bytes.drop (bytes.length - width)
  List.replicate (width - last.length) 0 ++ last

theorem length_fitBytes (width : Nat) (bytes : Bytes) : (fitBytes width bytes).length = width := by
  unfold fitBytes
  simp only [List.length_append, List.length_replicate, List.length_drop]
  omega

def hexToHash (s : GoString) : Bytes := fitBytes 32 (fromHex s)

def hexToAddress (s : GoString) : Bytes := fitBytes 20 (fromHex s)

def isHexAddress (s : GoString) : Bool :=
  decide ((digitsOf s).length = 40) && (digitsOf s).all isHexChar

/-- `hexutil.Decode`: unlike `common.FromHex` it insists on the marker. -/
def hexutilDecode (s : GoString) : Option Bytes :=
  if has0xPrefix s then decodeString (s.drop 2) else none

/-- `hexutil.Encode`. -/
def hexutilEncode (bytes : Bytes) : GoString := str "0x" ++ formatHex bytes

def mustDecode {ε : Type} (s : GoString) : Outcome ε Bytes :=
  match hexutilDecode s with
  | some bytes => .ok bytes
  | none => .panic .explicit

@[simp] theorem returns_mustDecode {ε : Type} {s : GoString} :
    (mustDecode s : Outcome ε Bytes).Returns ↔ (hexutilDecode s).isSome = true := by
  unfold mustDecode
  cases hexutilDecode s <;> simp

/-! ## Digits and their lower-case form -/

theorem fromHexChar_eq_some {b : UInt8} {v : Nat} (h : fromHexChar b = some v) :
    (v < 10 ∧ b.toNat = 0x30 + v) ∨ (10 ≤ v ∧ v < 16 ∧ b.toNat = 0x57 + v) ∨
      (10 ≤ v ∧ v < 16 ∧ b.toNat = 0x37 + v) := by
  simp only [fromHexChar, UInt8.le_iff_toNat_le] at h
  split at h
  · rename_i hb
    simp at h hb
    omega
  · split at h
    · rename_i hb
      simp at h hb
      omega
    · split at h
      · rename_i hb
        simp at h hb
        omega
      · cases h

theorem fromHexChar_lt {b : UInt8} {v : Nat} (h : fromHexChar b = some v) : v < 16 := by
  rcases fromHexChar_eq_some h with ⟨hv, -⟩ | ⟨-, hv, -⟩ | ⟨-, hv, -⟩ <;> omega

/-- A digit's value printed again is the digit in lower case. -/
theorem hexDigit_fromHexChar {b : UInt8} {v : Nat} (h : fromHexChar b = some v) :
    toLower [b] = [hexDigit v] := by
  have hprint : ∀ low : UInt8, low.toNat = (if v < 10 then 0x30 + v else 0x57 + v) →
      low = hexDigit v := by
    intro low hlow
    apply UInt8.toNat_inj.mp
    rw [hlow, hexDigit, UInt8.toNat_ofNat']
    have hv := fromHexChar_lt h
    split <;> omega
  simp only [toLower, List.map_cons, List.map_nil, List.cons.injEq, and_true,
    UInt8.le_iff_toNat_le]
  apply hprint
  rcases fromHexChar_eq_some h with ⟨hv, hb⟩ | ⟨hlow, hv, hb⟩ | ⟨hlow, hv, hb⟩
  · rw [if_neg (by simp; omega), if_pos hv, hb]
  · rw [if_neg (by simp; omega), if_neg (by omega), hb]
  · rw [if_pos (by simp; omega), if_neg (by omega), UInt8.toNat_add, hb]
    simp
    omega

/-- Decoding and printing again lower-cases the digits and does nothing else. -/
theorem formatHex_hexDecode (s : GoString) (h : (hexDecode s).2 = true) :
    formatHex (hexDecode s).1 = toLower s := by
  induction s using hexDecode.induct with
  | case1 => rfl
  | case2 b => cases h
  | case3 high low rest hv lv hlow hhigh ih =>
      simp only [hexDecode, hhigh, hlow] at h ⊢
      have hh := fromHexChar_lt hhigh
      have hl := fromHexChar_lt hlow
      have hbyte : (UInt8.ofNat (16 * hv + lv)).toNat = 16 * hv + lv := by
        simp only [UInt8.toNat_ofNat']
        omega
      have hpair : hexPair (UInt8.ofNat (16 * hv + lv)) = [hexDigit hv, hexDigit lv] := by
        rw [hexPair, hbyte]
        congr 2 <;> congr 1 <;> omega
      have hdh := hexDigit_fromHexChar hhigh
      have hdl := hexDigit_fromHexChar hlow
      have htail := ih h
      simp only [formatHex, toLower, List.flatMap_cons, List.map_cons, List.map_nil,
        List.cons.injEq, and_true] at hdh hdl htail ⊢
      rw [hpair, hdh, hdl, htail]
      rfl
  | case4 high low rest hnone =>
      simp only [hexDecode] at h
      cases h

theorem hexDecode_snd (s : GoString) (heven : s.length % 2 = 0) (hall : s.all isHexChar = true) :
    (hexDecode s).2 = true := by
  induction s using hexDecode.induct with
  | case1 => rfl
  | case2 b => simp at heven
  | case3 high low rest hv lv hlow hhigh ih =>
      simp only [hexDecode, hhigh, hlow]
      apply ih
      · simp at heven
        omega
      · simp only [List.all_cons, Bool.and_eq_true] at hall
        exact hall.2.2
  | case4 high low rest hnone =>
      simp only [List.all_cons, Bool.and_eq_true, isHexChar, Option.isSome_iff_exists] at hall
      obtain ⟨⟨hv, hhigh⟩, ⟨lv, hlow⟩, -⟩ := hall
      exact (hnone hv lv hhigh hlow).elim

theorem hexDecode_length (s : GoString) (h : (hexDecode s).2 = true) :
    2 * (hexDecode s).1.length = s.length := by
  induction s using hexDecode.induct with
  | case1 => rfl
  | case2 b => cases h
  | case3 high low rest hv lv hlow hhigh ih =>
      simp only [hexDecode, hhigh, hlow] at h ⊢
      have := ih h
      simp only [List.length_cons]
      omega
  | case4 high low rest hnone =>
      simp only [hexDecode] at h
      cases h

theorem fromHexChar_hexDigit {v : Nat} (h : v < 16) : fromHexChar (hexDigit v) = some v := by
  have hall : ∀ v : Fin 16, fromHexChar (hexDigit v) = some v.val := by decide
  exact hall ⟨v, h⟩

theorem hexDecode_formatHex (bytes : Bytes) : hexDecode (formatHex bytes) = (bytes, true) := by
  induction bytes with
  | nil => rfl
  | cons b rest ih =>
      have hb := b.toNat_lt
      have hhigh := fromHexChar_hexDigit (v := b.toNat / 16) (by omega)
      have hlow := fromHexChar_hexDigit (v := b.toNat % 16) (by omega)
      have hbyte : UInt8.ofNat (16 * (b.toNat / 16) + b.toNat % 16) = b := by
        rw [Nat.div_add_mod, UInt8.ofNat_toNat]
      unfold formatHex at ih ⊢
      simp [hexPair, hexDecode, hhigh, hlow, hbyte, ih]

@[simp] theorem decodeString_formatHex (bytes : Bytes) :
    decodeString (formatHex bytes) = some bytes := by
  simp [decodeString, hexDecode_formatHex]

@[simp] theorem hexutilDecode_hexutilEncode (bytes : Bytes) :
    hexutilDecode (hexutilEncode bytes) = some bytes :=
  decodeString_formatHex bytes

/-- An accepted address decodes exactly when it carries the marker. -/
theorem mustDecode_of_isHexAddress {ε : Type} {s : GoString} (h : isHexAddress s = true) :
    (∃ bytes, (mustDecode s : Outcome ε Bytes) = .ok bytes) ↔ has0xPrefix s = true := by
  simp only [isHexAddress, Bool.and_eq_true, decide_eq_true_eq] at h
  obtain ⟨hlen, hall⟩ := h
  by_cases hmarked : has0xPrefix s = true
  · simp only [digitsOf, hmarked, if_true] at hlen hall
    have hdecoded := hexDecode_snd (s.drop 2) (by omega) hall
    simp [mustDecode, hexutilDecode, hmarked, decodeString, hdecoded]
  · simp [mustDecode, hexutilDecode, hmarked]

example : isHexAddress (str "52908400098527886e0f7030069857d2e4169ee7") = true ∧
    (mustDecode (str "52908400098527886e0f7030069857d2e4169ee7") : Outcome Unit Bytes) =
      .panic .explicit := by decide

end TssSvc
