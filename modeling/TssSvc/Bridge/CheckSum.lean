import TssSvc.Bridge.Encoding
import TssSvc.Lib.Hex

/-!
# The checksummed hexadecimal form

`HexCheckSum.Encode` of `pkg/encoding/encoder.go` as the loop it is: the digits stand in the
buffer behind `0x` and are changed in place, up to position 42.  It computes the function of
`Encoding`, and on 20 bytes the form of EIP-55, which pairs the digits with the nibbles of the
hash.
-/

set_option autoImplicit false

namespace TssSvc.Encoding

variable {ε : Type}

namespace HexCheckSum

/-- The body of the loop. -/
def changeDigit (hash : Bytes) (i : Nat) (buf : GoString) : Outcome ε GoString := do
  let hashByte ← Outcome.index hash ((i - 2) / 2)
  let nibble := if i % 2 = 0 then hashByte >>> 4 else hashByte &&& 0xf
  let digit ← Outcome.index buf i
  return if 0x39 < digit ∧ 7 < nibble then buf.set i (digit - 32) else buf

/-- `turns` turns of the loop from position `i` on. -/
def changeDigits (hash : Bytes) : Nat → Nat → GoString → Outcome ε GoString
  | 0, _, buf => .ok buf
  | turns + 1, i, buf => do
      let buf ← changeDigit hash i buf
      changeDigits hash turns (i + 1) buf

def encode (keccak256 : Bytes → Bytes) (raw : Bytes) : Outcome ε GoString :=
  let buf := str "0x" ++ formatHex raw
  let hash := keccak256 (buf.drop 2)
  let loopCondition := min 42 buf.length
  changeDigits hash (loopCondition - 2) 2 buf

/-! ## The buffer and the digits -/

theorem toNat_nibble (hashByte : UInt8) (i : Nat) :
    (if i % 2 = 0 then hashByte >>> 4 else hashByte &&& 0xf).toNat =
      if i % 2 = 0 then hashByte.toNat / 16 else hashByte.toNat % 16 := by
  split
  · simp [Nat.shiftRight_eq_div_pow]
  · have hmask : (0xf : UInt8).toNat = 2 ^ 4 - 1 := rfl
    rw [UInt8.toNat_and, hmask, Nat.and_two_pow_sub_one_eq_mod]

/-- A turn at `i` changes the digit that is there. -/
theorem changeDigit_eq (hash : Bytes) {front : GoString} (digit : UInt8) (rest : GoString)
    (marked : 2 ≤ front.length) :
    (changeDigit hash front.length (front ++ digit :: rest) : Outcome ε GoString) =
      checkSumDigit hash (front.length - 2) digit >>=
        fun first => .ok (front ++ first :: rest) := by
  have hread : (Outcome.index (front ++ digit :: rest) (front.length : Int) : Outcome ε UInt8) =
      .ok digit := by
    apply Outcome.index_natCast
    simp
  have hplace : ((front.length - 2 : Nat) : Int) = (front.length : Int) - 2 := by omega
  have hparity : (front.length - 2) % 2 = front.length % 2 := by omega
  unfold changeDigit checkSumDigit
  rw [hplace, hparity]
  cases Outcome.index (ε := ε) hash (((front.length : Int) - 2) / 2) with
  | err e => rfl
  | panic reason => rfl
  | ok hashByte =>
      have hnibble := UInt8.lt_iff_toNat_lt (a := 7)
        (b := if front.length % 2 = 0 then hashByte >>> 4 else hashByte &&& 0xf)
      rw [toNat_nibble] at hnibble
      simp only [Outcome.ok_bind, hread, Outcome.pure_eq_ok, hnibble]
      by_cases hletter : 0x39 < digit ∧ (7 : UInt8).toNat <
          if front.length % 2 = 0 then hashByte.toNat / 16 else hashByte.toNat % 16
      · rw [if_pos hletter, List.set_append_right _ _ (le_refl _), Nat.sub_self,
          List.set_cons_zero]
        exact congrArg (fun b => Outcome.ok (front ++ b :: rest)) (if_pos hletter).symm
      · rw [if_neg hletter]
        exact congrArg (fun b => Outcome.ok (front ++ b :: rest)) (if_neg hletter).symm

/-- The loop runs over the digits behind `front` while it is shorter than 42. -/
theorem changeDigits_eq (hash : Bytes) (digits : GoString) :
    ∀ front : GoString, 2 ≤ front.length →
      (changeDigits hash (min 42 (front.length + digits.length) - front.length) front.length
          (front ++ digits) : Outcome ε GoString) =
        checkSumDigits hash (front.length - 2) digits >>= fun text => .ok (front ++ text) := by
  induction digits with
  | nil =>
      intro front marked
      have hturns : min 42 (front.length + ([] : GoString).length) - front.length = 0 := by
        rw [List.length_nil]
        omega
      rw [hturns]
      rfl
  | cons digit rest ih =>
      intro front marked
      rw [checkSumDigits]
      by_cases hshort : front.length - 2 < 40
      · have hturns : min 42 (front.length + (digit :: rest).length) - front.length =
            min 42 ((front.length + 1) + rest.length) - (front.length + 1) + 1 := by
          rw [List.length_cons]
          omega
        have hnext : front.length + 1 - 2 = front.length - 2 + 1 := by omega
        rw [hturns, if_pos hshort, changeDigits, changeDigit_eq hash digit rest marked]
        cases checkSumDigit (ε := ε) hash (front.length - 2) digit with
        | err e => rfl
        | panic reason => rfl
        | ok first =>
            have hrest := ih (front ++ [first]) (by simp; omega)
            simp only [List.length_append, List.length_singleton, List.append_assoc,
              List.singleton_append, hnext] at hrest
            simp only [Outcome.ok_bind, hrest]
            cases checkSumDigits (ε := ε) hash (front.length - 2 + 1) rest <;> rfl
      · have hturns : min 42 (front.length + (digit :: rest).length) - front.length = 0 := by
          omega
        rw [hturns, if_neg hshort]
        rfl

theorem encode_eq (keccak256 : Bytes → Bytes) (raw : Bytes) :
    (encode keccak256 raw : Outcome ε GoString) = hexCheckSumEncode keccak256 raw := by
  have hloop := changeDigits_eq (ε := ε) (keccak256 (formatHex raw)) (formatHex raw) (str "0x")
    (le_refl 2)
  rw [← List.length_append] at hloop
  exact hloop

/-! ## The form of EIP-55 -/

/-- The half-bytes of `bytes`, the high one first. -/
def nibbles (bytes : Bytes) : List Nat := bytes.flatMap fun b => [b.toNat / 16, b.toNat % 16]

/-- A digit is upper-case when it is a letter and its nibble is at least 8. -/
def capital (digit : UInt8) (nibble : Nat) : UInt8 :=
  if (0x61 ≤ digit ∧ digit ≤ 0x66) ∧ 8 ≤ nibble then digit - 0x20 else digit

/-- Digit `j` goes with nibble `j` of the hash of the lower-case digits. -/
def eip55 (keccak256 : Bytes → Bytes) (raw : Bytes) : GoString :=
  str "0x" ++ List.zipWith capital (formatHex raw) (nibbles (keccak256 (formatHex raw)))

theorem length_nibbles (bytes : Bytes) : (nibbles bytes).length = 2 * bytes.length := by
  induction bytes with
  | nil => rfl
  | cons b rest ih =>
      have hcons : nibbles (b :: rest) = [b.toNat / 16, b.toNat % 16] ++ nibbles rest := rfl
      rw [hcons, List.length_append, ih, List.length_cons]
      exact (Nat.add_comm _ _).trans (Nat.mul_succ 2 _).symm

theorem getElem?_nibbles (bytes : Bytes) : ∀ j : Nat,
    (nibbles bytes)[j]? = bytes[j / 2]?.map fun b =>
      if j % 2 = 0 then b.toNat / 16 else b.toNat % 16 := by
  induction bytes with
  | nil => intro j; rfl
  | cons b rest ih =>
      intro j
      match j with
      | 0 => rfl
      | 1 => rfl
      | j + 2 =>
          have hhalf : (j + 2) / 2 = j / 2 + 1 := by omega
          rw [hhalf, Nat.add_mod_right, List.getElem?_cons_succ, ← ih j]
          rfl

theorem mem_formatHex {raw : Bytes} {digit : UInt8} (h : digit ∈ formatHex raw) :
    ∃ n < 16, digit = hexDigit n := by
  obtain ⟨b, -, hdigit⟩ := List.mem_flatMap.mp h
  have hb := b.toNat_lt
  rcases List.mem_cons.mp hdigit with rfl | hlow
  · exact ⟨_, by omega, rfl⟩
  · exact ⟨_, by omega, List.mem_singleton.mp hlow⟩

/-- Above `9` the digits that are printed are the letters. -/
theorem letter_iff : ∀ n < 16, 0x39 < hexDigit n ↔ 0x61 ≤ hexDigit n ∧ hexDigit n ≤ 0x66 := by
  decide

theorem not_upper_hexDigit : ∀ n < 16, ¬(0x41 ≤ hexDigit n ∧ hexDigit n ≤ 0x5A) := by decide

theorem not_upper_mark {b : UInt8} (h : b ∈ str "0x") : ¬(0x41 ≤ b ∧ b ≤ 0x5A) := by
  have hmark : str "0x" = [0x30, 0x78] := by decide
  rw [hmark, List.mem_cons, List.mem_singleton] at h
  rcases h with rfl | rfl
  · decide
  · decide

theorem toLower_hexDigit : ∀ n < 16, toLower [hexDigit n] = [hexDigit n] := by decide

theorem toLower_capital {n : Nat} (hn : n < 16) (nibble : Nat) :
    toLower [capital (hexDigit n) nibble] = [hexDigit n] := by
  have hletter : ∀ n < 16, 0x61 ≤ hexDigit n ∧ hexDigit n ≤ 0x66 →
      toLower [hexDigit n - 0x20] = [hexDigit n] := by decide
  unfold capital
  split
  · rename_i hcase
    exact hletter n hn hcase.1
  · exact toLower_hexDigit n hn

theorem toLower_cons (b : UInt8) (s : GoString) : toLower (b :: s) = toLower [b] ++ toLower s := rfl

theorem toLower_digits {digits : GoString} (hex : ∀ d ∈ digits, ∃ n < 16, d = hexDigit n) :
    toLower digits = digits := by
  induction digits with
  | nil => rfl
  | cons digit rest ih =>
      obtain ⟨n, hn, rfl⟩ := hex digit List.mem_cons_self
      rw [toLower_cons, toLower_hexDigit n hn, ih fun d hd => hex d (List.mem_cons_of_mem _ hd)]
      rfl

theorem toLower_zipWith {digits : GoString} (hex : ∀ d ∈ digits, ∃ n < 16, d = hexDigit n) :
    ∀ ns : List Nat, digits.length ≤ ns.length →
      toLower (List.zipWith capital digits ns) = digits := by
  induction digits with
  | nil => intro ns _; rfl
  | cons digit rest ih =>
      intro ns hlen
      match ns with
      | nibble :: ns =>
          obtain ⟨n, hn, rfl⟩ := hex digit List.mem_cons_self
          rw [List.zipWith_cons_cons, toLower_cons, toLower_capital hn,
            ih (fun d hd => hex d (List.mem_cons_of_mem _ hd)) ns (Nat.le_of_succ_le_succ hlen)]
          rfl

/-- A step on a digit whose nibble is there. -/
theorem checkSumDigit_eq {hash : Bytes} {j n nibble : Nat} (hn : n < 16)
    (there : (nibbles hash)[j]? = some nibble) :
    (checkSumDigit hash j (hexDigit n) : Outcome ε UInt8) = .ok (capital (hexDigit n) nibble) := by
  rw [getElem?_nibbles] at there
  obtain ⟨hashByte, hread, rfl⟩ := Option.map_eq_some_iff.mp there
  have hindex : (Outcome.index hash ((j / 2 : Nat) : Int) : Outcome ε UInt8) = .ok hashByte :=
    Outcome.index_natCast hread
  rw [Int.natCast_ediv] at hindex
  unfold checkSumDigit capital
  rw [show (2 : Int) = ((2 : Nat) : Int) from rfl, hindex]
  simp only [Outcome.ok_bind, Outcome.pure_eq_ok, letter_iff n hn]
  rfl

/-- The loop pairs the digits up to the fortieth with their nibbles and copies the rest. -/
theorem checkSumDigits_eq {hash : Bytes} (hlen : 20 ≤ hash.length) {digits : GoString}
    (hex : ∀ d ∈ digits, ∃ n < 16, d = hexDigit n) : ∀ j : Nat,
    (checkSumDigits hash j digits : Outcome ε GoString) =
      .ok (List.zipWith capital (digits.take (40 - j)) ((nibbles hash).drop j) ++
        digits.drop (40 - j)) := by
  induction digits with
  | nil => intro j; rw [checkSumDigits, List.take_nil, List.drop_nil]; rfl
  | cons digit rest ih =>
      intro j
      rw [checkSumDigits]
      by_cases hj : j < 40
      · have hthere : j < (nibbles hash).length := by
          rw [length_nibbles]
          omega
        obtain ⟨n, hn, rfl⟩ := hex digit List.mem_cons_self
        have hstep := checkSumDigit_eq (ε := ε) hn (List.getElem?_eq_getElem hthere)
        have hrest := ih (fun d hd => hex d (List.mem_cons_of_mem _ hd)) (j + 1)
        have hturns : 40 - j = (40 - (j + 1)) + 1 := by omega
        rw [if_pos hj, hstep, hrest, hturns, List.take_succ_cons, List.drop_succ_cons,
          List.drop_eq_getElem_cons hthere, List.zipWith_cons_cons]
        rfl
      · have hturns : 40 - j = 0 := by omega
        rw [if_neg hj, hturns]
        rfl

/-- What `Encode` returns. -/
theorem encode_eq_ok {keccak256 : Bytes → Bytes} (digest : ∀ bytes, (keccak256 bytes).length = 32)
    (raw : Bytes) :
    (encode keccak256 raw : Outcome ε GoString) =
      .ok (str "0x" ++ (List.zipWith capital ((formatHex raw).take 40)
        (nibbles (keccak256 (formatHex raw))) ++ (formatHex raw).drop 40)) := by
  have hlen : 20 ≤ (keccak256 (formatHex raw)).length := by
    rw [digest]
    decide
  rw [encode_eq, hexCheckSumEncode, checkSumDigits_eq hlen (fun d hd => mem_formatHex hd)]
  rfl

/-- `Encode` returns for every length.  Case apart the text is `0x` and the digits, a position
with an upper-case letter lies among the first 40 digits, and 20 bytes get the form of EIP-55. -/
theorem encode_checkSum (keccak256 : Bytes → Bytes)
    (digest : ∀ bytes, (keccak256 bytes).length = 32) (raw : Bytes) :
    ∃ text, (encode keccak256 raw : Outcome ε GoString) = .ok text ∧
      toLower text = str "0x" ++ formatHex raw ∧
      (∀ (i : Nat) (b : UInt8), text[i]? = some b → 0x41 ≤ b ∧ b ≤ 0x5A → 2 ≤ i ∧ i < 42) ∧
      (raw.length = 20 → text = eip55 keccak256 raw) := by
  have hnibbles : (nibbles (keccak256 (formatHex raw))).length = 64 := by
    rw [length_nibbles, digest]
  have hex : ∀ d ∈ formatHex raw, ∃ n < 16, d = hexDigit n := fun d hd => mem_formatHex hd
  have htaken : ((formatHex raw).take 40).length ≤ 40 := List.length_take_le _ _
  have hchanged : (List.zipWith capital ((formatHex raw).take 40)
      (nibbles (keccak256 (formatHex raw)))).length ≤ 40 := by
    rw [List.length_zipWith]
    exact (Nat.min_le_left _ _).trans htaken
  refine ⟨_, encode_eq_ok digest raw, ?_, ?_, ?_⟩
  · have hfirst := toLower_zipWith (fun d hd => hex d (List.mem_of_mem_take hd))
      (nibbles (keccak256 (formatHex raw))) (by omega : ((formatHex raw).take 40).length ≤ _)
    have hlast := toLower_digits (fun d hd => hex d (List.mem_of_mem_drop hd) :
      ∀ d ∈ (formatHex raw).drop 40, _)
    have happend : ∀ s t : GoString, toLower (s ++ t) = toLower s ++ toLower t :=
      fun s t => List.map_append
    rw [happend, happend, hfirst, hlast, List.take_append_drop]
    rfl
  · intro i b hread hupper
    by_cases hmark : i < 2
    · rw [List.getElem?_append_left hmark] at hread
      exact absurd hupper (not_upper_mark (List.mem_of_getElem? hread))
    · refine ⟨Nat.le_of_not_lt hmark, ?_⟩
      by_contra hfar
      have hpast : 40 ≤ i - (str "0x").length := Nat.le_sub_of_add_le (Nat.le_of_not_lt hfar)
      -- What is past the fortieth digit was copied.
      rw [List.getElem?_append_right (Nat.le_of_not_lt hmark),
        List.getElem?_append_right (hchanged.trans hpast)] at hread
      obtain ⟨n, hn, rfl⟩ := hex b (List.mem_of_mem_drop (List.mem_of_getElem? hread))
      exact not_upper_hexDigit n hn hupper
  · intro hraw
    have hall : (formatHex raw).length = 40 := by rw [length_formatHex, hraw]
    rw [List.take_of_length_le (le_of_eq hall), List.drop_of_length_le (le_of_eq hall),
      List.append_nil]
    rfl

/-- The address of the memo tests. -/
def sampleAddress : Bytes :=
  [0xbe, 0xef, 0xd4, 0x75, 0xa7, 0x6e, 0xc3, 0x12, 0x50, 0x2b, 0xa7, 0xb5, 0x66, 0xa9, 0xb4, 0xce,
    0xa9, 0x1a, 0xb0, 0x30]

/-- Keccak-256 on the digits of that address. -/
def sampleKeccak256 (bytes : Bytes) : Bytes :=
  if bytes = formatHex sampleAddress then
    [0x55, 0x13, 0x90, 0x97, 0xa1, 0x2f, 0x55, 0x0c, 0x45, 0xf1, 0x6c, 0x99, 0xbf, 0x70, 0xb8,
      0xd8, 0xc9, 0xa0, 0x18, 0x7d, 0xba, 0xef, 0xc4, 0x39, 0x6a, 0x4e, 0xc6, 0x95, 0x92, 0xce,
      0x65, 0x84]
  else List.replicate 32 0

theorem encode_checkSum_sample :
    ∃ text, (encode sampleKeccak256 sampleAddress : Outcome Unit GoString) = .ok text ∧
      text = str "0xbeefD475A76Ec312502ba7B566a9B4CEA91ab030" := by
  have hdigest : ∀ bytes, (sampleKeccak256 bytes).length = 32 := by
    intro bytes
    unfold sampleKeccak256
    split <;> rfl
  obtain ⟨text, hencode, -, -, hform⟩ :=
    encode_checkSum (ε := Unit) sampleKeccak256 hdigest sampleAddress
  refine ⟨text, hencode, (hform rfl).trans ?_⟩
  decide +kernel

end HexCheckSum

end TssSvc.Encoding
