import TssSvc.Lib.Base58
import TssSvc.Lib.Outcome

/-!
# Address encodings

`pkg/encoding`: how the destination address of a deposit memo is written as text.  Keccak-256 is
a parameter.
-/

set_option autoImplicit false

namespace TssSvc.Encoding

inductive EncodingType where
  | utf8
  | hex
  | hexCheckSum
  | base58
  | base64
  | base64Url
  deriving DecidableEq, Repr

/-- `GetEncoder`; `none` is the nil encoder. -/
def getEncoder (t : UInt8) : Option EncodingType :=
  if t = 0x01 then some .utf8
  else if t = 0x02 then some .hex
  else if t = 0x03 then some .hexCheckSum
  else if t = 0x04 then some .base58
  else if t = 0x05 then some .base64
  else if t = 0x06 then some .base64Url
  else none

/-! ## Base 64 -/

def base64Alphabet : GoString :=
  str "ABCDEFGHIJKLMNOPQRSTUVWXYZabcdefghijklmnopqrstuvwxyz0123456789+/"

def base64UrlAlphabet : GoString :=
  str "ABCDEFGHIJKLMNOPQRSTUVWXYZabcdefghijklmnopqrstuvwxyz0123456789-_"

/-- Groups of three bytes are four digits; a shorter last group is padded with `=`. -/
def base64Encode (alphabet : GoString) : Bytes → GoString
  | [] => []
  | [a] =>
      let n := a.toNat * 65536
      [alphabet.getD (n / 262144) 0, alphabet.getD (n / 4096 % 64) 0, 0x3D, 0x3D]
  | [a, b] =>
      let n := a.toNat * 65536 + b.toNat * 256
      [alphabet.getD (n / 262144) 0, alphabet.getD (n / 4096 % 64) 0,
        alphabet.getD (n / 64 % 64) 0, 0x3D]
  | a :: b :: c :: rest =>
      let n := a.toNat * 65536 + b.toNat * 256 + c.toNat
      [alphabet.getD (n / 262144) 0, alphabet.getD (n / 4096 % 64) 0,
        alphabet.getD (n / 64 % 64) 0, alphabet.getD (n % 64) 0] ++ base64Encode alphabet rest

example : base64Encode base64Alphabet (str "light w") = str "bGlnaHQgdw==" := by decide

/-! ## Checksummed hexadecimal -/

/-- One step of the loop over the digits; `hash` is indexed by half the position. -/
def checkSumDigit {ε : Type} (hash : Bytes) (j : Nat) (digit : UInt8) : Outcome ε UInt8 := do
  let hashByte ← Outcome.index hash (j / 2)
  let nibble := if j % 2 = 0 then hashByte.toNat / 16 else hashByte.toNat % 16
  return if 0x39 < digit ∧ 7 < nibble then digit - 32 else digit

/-- Only the first 40 digits are changed. -/
def checkSumDigits {ε : Type} (hash : Bytes) : Nat → GoString → Outcome ε GoString
  | _, [] => .ok []
  | j, digit :: rest =>
      if j < 40 then do
        let first ← checkSumDigit hash j digit
        let others ← checkSumDigits hash (j + 1) rest
        return first :: others
      else .ok (digit :: rest)

def hexCheckSumEncode {ε : Type} (keccak256 : Bytes → Bytes) (raw : Bytes) :
    Outcome ε GoString := do
  let digits := formatHex raw
  let result ← checkSumDigits (keccak256 digits) 0 digits
  return str "0x" ++ result

def EncodingType.encode {ε : Type} (keccak256 : Bytes → Bytes) (raw : Bytes) :
    EncodingType → Outcome ε GoString
  | utf8 => .ok raw
  | hex => .ok (str "0x" ++ formatHex raw)
  | hexCheckSum => hexCheckSumEncode keccak256 raw
  | base58 => .ok (Base58.encode raw)
  | base64 => .ok (base64Encode base64Alphabet raw)
  | base64Url => .ok (base64Encode base64UrlAlphabet raw)

/-! ## Digests of 32 bytes are long enough -/

/-- Only the first 40 digits look at the digest. -/
theorem exists_checkSumDigits {ε : Type} {hash : Bytes} (hlen : 20 ≤ hash.length)
    (digits : GoString) :
    ∀ j, ∃ text, (checkSumDigits hash j digits : Outcome ε GoString) = .ok text := by
  induction digits with
  | nil => exact fun _ => ⟨[], rfl⟩
  | cons digit rest ih =>
      intro j
      rw [checkSumDigits]
      split
      · rename_i hj
        obtain ⟨others, hothers⟩ := ih (j + 1)
        have hbound : j / 2 < hash.length := by omega
        have hindex : (Outcome.index hash (j / 2 : Nat) : Outcome ε UInt8) = .ok hash[j / 2] :=
          Outcome.index_natCast (List.getElem?_eq_getElem hbound)
        rw [Int.natCast_ediv] at hindex
        simp only [checkSumDigit, hothers, Nat.cast_ofNat] at hindex ⊢
        rw [hindex]
        exact ⟨_, rfl⟩
      · exact ⟨_, rfl⟩

theorem exists_encode {ε : Type} {keccak256 : Bytes → Bytes}
    (digest : ∀ bytes, (keccak256 bytes).length = 32) (raw : Bytes) (e : EncodingType) :
    ∃ text, (e.encode keccak256 raw : Outcome ε GoString) = .ok text := by
  cases e with
  | hexCheckSum =>
      have hlen : 20 ≤ (keccak256 (formatHex raw)).length := by
        rw [digest]
        decide
      obtain ⟨text, htext⟩ := exists_checkSumDigits (ε := ε) hlen (formatHex raw) 0
      refine ⟨str "0x" ++ text, ?_⟩
      simp only [EncodingType.encode, hexCheckSumEncode, htext]
      rfl
  | _ => exact ⟨_, rfl⟩

end TssSvc.Encoding
