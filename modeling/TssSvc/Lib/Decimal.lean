import TssSvc.Lib.Words

/-!
# Decimal numerals

`big.Int.String`, `big.Int.SetString` with base 10, and `strconv.ParseUint` and
`strconv.ParseInt` with base 10 and 64 bits.  A printed number reads back as itself.
-/

set_option autoImplicit false

namespace TssSvc.Decimal

def digitByte (d : Nat) : UInt8 := UInt8.ofNat (0x30 + d)

def digitValue (b : UInt8) : Option Nat :=
  if 0x30 ≤ b ∧ b ≤ 0x39 then some (b.toNat - 0x30) else none

def formatNat (n : Nat) : GoString :=
  if n = 0 then [0x30] else (Nat.digits 10 n).reverse.map digitByte

def formatInt : Int → GoString
  | .ofNat n => formatNat n
  | .negSucc n => 0x2D :: formatNat (n + 1)

def parseDigits (acc : Nat) : GoString → Option Nat
  | [] => some acc
  | b :: rest => (digitValue b).bind fun d => parseDigits (10 * acc + d) rest

def parseNat (s : GoString) : Option Nat := if s = [] then none else parseDigits 0 s

/-- `new(big.Int).SetString(s, 10)`: an optional sign and at least one digit. -/
def setString : GoString → Option Int
  | 0x2D :: rest => (parseNat rest).map fun n : Nat => -(n : Int)
  | 0x2B :: rest => (parseNat rest).map fun n : Nat => (n : Int)
  | s => (parseNat s).map fun n : Nat => (n : Int)

/-- `strconv.ParseUint(s, 10, 64)`; `none` is an error. -/
def parseUint64 (s : GoString) : Option Nat :=
  (parseNat s).bind fun n => if n < 2 ^ 64 then some n else none

/-- `strconv.ParseInt(s, 10, 64)`; `none` is an error. -/
def parseInt64 (s : GoString) : Option Int :=
  (setString s).bind fun n => if -2 ^ 63 ≤ n ∧ n < 2 ^ 63 then some n else none

theorem digitValue_digitByte {d : Nat} (h : d < 10) : digitValue (digitByte d) = some d := by
  have hbyte : (digitByte d).toNat = 0x30 + d := by
    simp only [digitByte, UInt8.toNat_ofNat']
    omega
  have hlow : (0x30 : UInt8) ≤ digitByte d := by
    rw [UInt8.le_iff_toNat_le, hbyte]
    simp
  have hhigh : digitByte d ≤ 0x39 := by
    rw [UInt8.le_iff_toNat_le, hbyte]
    simp
    omega
  rw [digitValue, if_pos ⟨hlow, hhigh⟩, hbyte]
  congr 1
  omega

/-- Reading the digits most significant first is Horner's scheme. -/
theorem parseDigits_map (ds : List Nat) : ∀ acc : Nat, (∀ d ∈ ds, d < 10) →
    parseDigits acc (ds.map digitByte) = some (ds.foldl (fun n d => 10 * n + d) acc) := by
  induction ds with
  | nil =>
      intro acc _
      rfl
  | cons d ds ih =>
      intro acc hlt
      rw [List.map_cons, parseDigits, digitValue_digitByte (hlt d List.mem_cons_self),
        Option.bind_some, ih _ (fun x hx => hlt x (List.mem_cons_of_mem d hx)), List.foldl_cons]

theorem formatNat_ne_nil (n : Nat) : formatNat n ≠ [] := by
  rw [formatNat]
  split
  · simp
  · rename_i hn
    simpa using Nat.digits_ne_nil_iff_ne_zero.mpr hn

theorem parseNat_formatNat (n : Nat) : parseNat (formatNat n) = some n := by
  rw [parseNat, if_neg (formatNat_ne_nil n), formatNat]
  split
  · rename_i hn
    rw [hn]
    rfl
  · rw [parseDigits_map _ 0 (fun d hd => Nat.digits_lt_base (by omega) (List.mem_reverse.mp hd)),
      foldl_digits, List.reverse_reverse, Nat.ofDigits_digits]

theorem formatNat_head (n : Nat) : ∃ b rest, formatNat n = b :: rest ∧ b ≠ 0x2D ∧ b ≠ 0x2B := by
  have hparse := parseNat_formatNat n
  cases hformat : formatNat n with
  | nil => exact absurd hformat (formatNat_ne_nil n)
  | cons b rest =>
      refine ⟨b, rest, rfl, ?_, ?_⟩
      · intro hb
        rw [hformat, hb] at hparse
        simp [parseNat, parseDigits, digitValue] at hparse
      · intro hb
        rw [hformat, hb] at hparse
        simp [parseNat, parseDigits, digitValue] at hparse

theorem setString_formatInt (x : Int) : setString (formatInt x) = some x := by
  cases x with
  | ofNat n =>
      obtain ⟨b, rest, hformat, hminus, hplus⟩ := formatNat_head n
      have hparse := parseNat_formatNat n
      rw [hformat] at hparse
      rw [formatInt, hformat, setString, hparse, Option.map_some]
      · rfl
      · intro tail htail
        exact hminus (List.cons.inj htail).1
      · intro tail htail
        exact hplus (List.cons.inj htail).1
  | negSucc n =>
      rw [formatInt, setString, parseNat_formatNat, Option.map_some]
      rfl

/-- `ParseUint` reads a printed number exactly when it is an unsigned 64-bit number. -/
theorem parseUint64_formatInt (x : Int) :
    parseUint64 (formatInt x) = if 0 ≤ x ∧ x < 2 ^ 64 then some x.toNat else none := by
  cases x with
  | ofNat n =>
      rw [formatInt, parseUint64, parseNat_formatNat, Option.bind_some]
      by_cases hn : n < 2 ^ 64
      · rw [if_pos hn, if_pos ⟨by simp, by simpa using (by omega : (n : Int) < 2 ^ 64)⟩]
        simp
      · rw [if_neg hn, if_neg]
        rintro ⟨-, hlt⟩
        apply hn
        have : (n : Int) < 2 ^ 64 := hlt
        omega
  | negSucc n =>
      rw [if_neg (by simp)]
      simp [formatInt, parseUint64, parseNat, parseDigits, digitValue]

theorem parseUint64_formatInt_eq_some {x : Int} {n : Nat} :
    parseUint64 (formatInt x) = some n ↔ x = n ∧ n < 2 ^ 64 := by
  rw [parseUint64_formatInt]
  split
  · rw [Option.some.injEq]
    omega
  · simp only [reduceCtorEq, false_iff]
    omega

theorem parseInt64_formatInt {x : Int} (low : -2 ^ 63 ≤ x) (high : x < 2 ^ 63) :
    parseInt64 (formatInt x) = some x := by
  rw [parseInt64, setString_formatInt, Option.bind_some, if_pos ⟨low, high⟩]

theorem formatInt_injective : Function.Injective formatInt := by
  intro x y h
  have hx := setString_formatInt x
  rw [h, setString_formatInt] at hx
  exact (Option.some.inj hx).symm

/-- A printed number has digits and a sign only. -/
theorem notMem_formatInt {b : UInt8} (hsign : b ≠ 0x2D) (hdigit : digitValue b = none) (x : Int) :
    b ∉ formatInt x := by
  have hnat (n : Nat) : b ∉ formatNat n := by
    intro hmem
    have hvalue : ∃ d < 10, b = digitByte d := by
      rw [formatNat] at hmem
      split at hmem
      · exact ⟨0, by omega, List.mem_singleton.mp hmem⟩
      · obtain ⟨d, hd, rfl⟩ := List.mem_map.mp hmem
        exact ⟨d, Nat.digits_lt_base (by omega) (List.mem_reverse.mp hd), rfl⟩
    obtain ⟨d, hd, rfl⟩ := hvalue
    rw [digitValue_digitByte hd] at hdigit
    cases hdigit
  cases x with
  | ofNat n => exact hnat n
  | negSucc n => exact List.not_mem_cons_of_ne_of_not_mem hsign (hnat (n + 1))

example : formatInt (-120) = str "-120" ∧ setString (str "+007") = some 7 ∧
    setString (str "1_0") = none := by decide

end TssSvc.Decimal
