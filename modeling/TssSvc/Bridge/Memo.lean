import TssSvc.Bridge.Totality

/-!
# The two memo formats

The V2 decoder follows its grammar on every byte string.  `decodeDepositMemoOutput` tries it
first and falls back to V1: a V1 memo is misread exactly when its first byte, taken as a length,
points at one of the six encoding types.
-/

set_option autoImplicit false

namespace TssSvc.Encoding

/-! ## Encoders -/

def EncodingType.typeByte : EncodingType → UInt8
  | utf8 => 0x01
  | hex => 0x02
  | hexCheckSum => 0x03
  | base58 => 0x04
  | base64 => 0x05
  | base64Url => 0x06

@[simp] theorem getEncoder_typeByte (e : EncodingType) : getEncoder e.typeByte = some e := by
  cases e <;> rfl

theorem typeByte_of_getEncoder {t : UInt8} {e : EncodingType} (h : getEncoder t = some e) :
    e.typeByte = t := by
  unfold getEncoder at h
  repeat' split at h
  all_goals
    cases h
    try (rename_i ht; exact ht.symm)

theorem exists_getEncoder_iff {t : UInt8} :
    (∃ e, getEncoder t = some e) ↔ 1 ≤ t.toNat ∧ t.toNat ≤ 6 := by
  constructor
  · rintro ⟨e, he⟩
    rw [← typeByte_of_getEncoder he]
    cases e <;> decide
  · rintro ⟨low, high⟩
    have hcases : t.toNat = 1 ∨ t.toNat = 2 ∨ t.toNat = 3 ∨ t.toNat = 4 ∨ t.toNat = 5 ∨
        t.toNat = 6 := by omega
    rcases hcases with h | h | h | h | h | h
    all_goals
      rw [← UInt8.ofNat_toNat (x := t), h]
      exact ⟨_, rfl⟩

/-! ## Lengths of the texts -/

theorem length_checkSumDigits {ε : Type} {hash : Bytes} {digits : GoString} :
    ∀ {j : Nat} {text : GoString},
      (checkSumDigits hash j digits : Outcome ε GoString) = .ok text →
        text.length = digits.length := by
  induction digits with
  | nil =>
      intro j text h
      cases h
      rfl
  | cons digit rest ih =>
      intro j text h
      rw [checkSumDigits] at h
      split at h
      · simp only [Outcome.bind_eq_ok, Outcome.pure_eq_ok, Outcome.ok.injEq] at h
        obtain ⟨first, -, others, hothers, rfl⟩ := h
        rw [List.length_cons, List.length_cons, ih hothers]
      · cases h
        rfl

theorem length_base64Encode (alphabet : GoString) (raw : Bytes) :
    (base64Encode alphabet raw).length = (raw.length + 2) / 3 * 4 := by
  fun_induction base64Encode alphabet raw with
  | case1 => rfl
  | case2 => simp
  | case3 => simp
  | case4 a b c rest n ih =>
      simp only [List.length_append, List.length_cons, List.length_nil, ih]
      omega

end TssSvc.Encoding

namespace TssSvc.Bridge.Utxo

open TssSvc.Encoding

/-! ## The grammar of V2 -/

/-- `[lenChainId][chainId][referralId][addressEncodingType][destinationAddress]`. -/
structure MemoLayout (raw : Bytes) (lenChainId : UInt8) (chain ref : Bytes) (t : UInt8)
    (addr : Bytes) : Prop where
  bytes : raw = lenChainId :: (chain ++ (ref ++ t :: addr))
  chainLength : chain.length = lenChainId.toNat
  refLength : ref.length = referralIdLength
  nonempty : addr ≠ []

variable {keccak256 : Bytes → Bytes} {raw chain ref addr : Bytes} {lenChainId t : UInt8}

/-- The number in the two referral bytes. -/
def referralOf (ref : Bytes) : Nat := Base58.ofBigEndian 256 (ref.map UInt8.toNat)

theorem referralOf_pair (high low : UInt8) :
    referralOf [high, low] = high.toNat * 256 + low.toNat := by
  simp [referralOf, Base58.ofBigEndian, Nat.mul_comm]

theorem index_of_split {ε : Type} {raw : Bytes} (before after : Bytes) {b : UInt8} {n : Nat}
    (hraw : raw = before ++ b :: after) (hn : before.length = n) :
    (Outcome.index raw n : Outcome ε UInt8) = .ok b := by
  subst hraw hn
  rw [Outcome.index_eq_ok]
  simp

/-- Past the length guard only the encoding type can be wrong. -/
theorem decodeDepositMemoV2_of_layout (layout : MemoLayout raw lenChainId chain ref t addr) :
    decodeDepositMemoV2 keccak256 raw = (do
      let encoder ← Outcome.ofOption
        (Sentinel.errInvalidScriptPubKey.toErr.wrap (str "unknown address encoding type"))
        (getEncoder t)
      let address ← encoder.encode keccak256 addr
      return ⟨address, chain, referralOf ref⟩) := by
  obtain ⟨hraw, hchain, href, hne⟩ := layout
  obtain ⟨high, low, rfl⟩ := List.length_eq_two.mp href
  have haddr := List.length_pos_iff.mpr hne
  have hlength : raw.length = 1 + lenChainId.toNat + 3 + addr.length := by
    rw [hraw, ← hchain]
    simp only [List.length_cons, List.length_append, List.length_nil]
    omega
  have hfirst : (Outcome.index raw 0 : Result UInt8) = .ok lenChainId := by
    rw [hraw]
    rfl
  have hhigh : (Outcome.index raw (1 + lenChainId.toNat : Nat) : Result UInt8) = .ok high :=
    index_of_split (lenChainId :: chain) (low :: t :: addr) hraw (by simp; omega)
  have hlow : (Outcome.index raw (1 + lenChainId.toNat + 1 : Nat) : Result UInt8) = .ok low :=
    index_of_split (lenChainId :: (chain ++ [high])) (t :: addr) (by rw [hraw]; simp)
      (by simp; omega)
  have htype : (Outcome.index raw (1 + lenChainId.toNat + referralIdLength : Nat) :
      Result UInt8) = .ok t :=
    index_of_split (lenChainId :: (chain ++ [high, low])) addr (by rw [hraw]; simp)
      (by simp [referralIdLength]; omega)
  have hchainId : (raw.take (1 + lenChainId.toNat)).drop 1 = chain := by
    rw [hraw, ← hchain, Nat.add_comm, List.take_succ_cons, List.drop_one, List.tail_cons,
      List.take_left]
  have haddress : raw.drop (1 + lenChainId.toNat + referralIdLength + 1) = addr := by
    have hsplit : raw = (lenChainId :: (chain ++ [high, low, t])) ++ addr := by
      rw [hraw]
      simp
    rw [hsplit]
    exact List.drop_left' (by simp [referralIdLength]; omega)
  have hnonempty : raw ≠ [] := by
    rw [hraw]
    exact List.cons_ne_nil _ _
  have hguard : 1 + lenChainId.toNat + referralIdLength + 1 < raw.length := by
    unfold referralIdLength
    omega
  simp only [decodeDepositMemoV2, Outcome.check, if_pos hnonempty, hfirst, Outcome.ok_bind,
    if_pos hguard, hhigh, hlow, htype, hchainId, haddress, referralOf_pair]

/-- What passes the length guard has the layout. -/
theorem exists_layout (hne : raw ≠ [])
    (hguard : 1 + (raw.headD 0).toNat + referralIdLength + 1 < raw.length) :
    ∃ lenChainId chain ref t addr, MemoLayout raw lenChainId chain ref t addr := by
  cases raw with
  | nil => exact absurd rfl hne
  | cons lenChainId rest =>
      unfold referralIdLength at hguard
      simp only [List.headD_cons, List.length_cons] at hguard
      have hchain : (rest.take lenChainId.toNat).length = lenChainId.toNat :=
        List.length_take_of_le (by omega)
      have hafter : ((rest.drop lenChainId.toNat).drop 2).length ≠ 0 := by
        simp only [List.length_drop]
        omega
      cases htail : (rest.drop lenChainId.toNat).drop 2 with
      | nil => simp [htail] at hafter
      | cons t addr =>
          have hlong := congrArg List.length htail
          simp only [List.length_drop, List.length_cons] at hlong
          refine ⟨lenChainId, rest.take lenChainId.toNat, (rest.drop lenChainId.toNat).take 2, t,
            addr, ⟨?_, hchain, ?_, ?_⟩⟩
          · rw [← htail, List.take_append_drop, List.take_append_drop]
          · rw [List.length_take, List.length_drop, referralIdLength]
            omega
          · rw [← List.length_pos_iff]
            omega

theorem decodeDepositMemoV2_short (keccak256 : Bytes → Bytes)
    (h : ¬ (raw ≠ [] ∧ 1 + (raw.headD 0).toNat + referralIdLength + 1 < raw.length)) :
    ∃ e, decodeDepositMemoV2 keccak256 raw = .err e := by
  cases raw with
  | nil => exact ⟨_, rfl⟩
  | cons lenChainId rest =>
      have hguard : ¬ 1 + lenChainId.toNat + referralIdLength + 1 < (lenChainId :: rest).length :=
        fun hlt => h ⟨List.cons_ne_nil _ _, hlt⟩
      have hfirst : (Outcome.index (lenChainId :: rest) 0 : Result UInt8) = .ok lenChainId := rfl
      refine ⟨Sentinel.errInvalidScriptPubKey.toErr.wrap (str "invalid deposit memo length"), ?_⟩
      simp only [decodeDepositMemoV2, Outcome.check, if_pos (List.cons_ne_nil lenChainId rest),
        hfirst, Outcome.ok_bind, if_neg hguard, Outcome.err_bind]

/-- The text is the address in the encoding. -/
def Encodes (keccak256 : Bytes → Bytes) (encoder : EncodingType) (addr : Bytes)
    (text : GoString) : Prop :=
  (encoder.encode keccak256 addr : Result GoString) = .ok text

theorem decodeDepositMemoV2_ok_iff {memo : DepositMemo} :
    decodeDepositMemoV2 keccak256 raw = .ok memo ↔
      ∃ lenChainId chain ref t addr encoder, MemoLayout raw lenChainId chain ref t addr ∧
        getEncoder t = some encoder ∧ Encodes keccak256 encoder addr memo.address ∧
        memo.chainId = chain ∧ memo.referralId = referralOf ref := by
  constructor
  · intro h
    by_cases hguard : raw ≠ [] ∧ 1 + (raw.headD 0).toNat + referralIdLength + 1 < raw.length
    · obtain ⟨lenChainId, chain, ref, t, addr, layout⟩ := exists_layout hguard.1 hguard.2
      rw [decodeDepositMemoV2_of_layout layout] at h
      simp only [Outcome.bind_eq_ok, Outcome.ofOption_eq_ok, Outcome.pure_eq_ok,
        Outcome.ok.injEq] at h
      obtain ⟨encoder, hencoder, address, haddress, rfl⟩ := h
      exact ⟨lenChainId, chain, ref, t, addr, encoder, layout, hencoder, haddress, rfl, rfl⟩
    · obtain ⟨e, he⟩ := decodeDepositMemoV2_short keccak256 hguard
      cases h.symm.trans he
  · rintro ⟨lenChainId, chain, ref, t, addr, encoder, layout, hencoder, haddress, rfl, hreferral⟩
    rw [decodeDepositMemoV2_of_layout layout]
    unfold Encodes at haddress
    simp only [hencoder, haddress, Outcome.ofOption, Outcome.ok_bind, Outcome.pure_eq_ok,
      ← hreferral]

/-- The memo a depositor writes. -/
def depositMemoV2 (chain : Bytes) (referralId : Nat) (encoder : EncodingType) (addr : Bytes) :
    Bytes :=
  UInt8.ofNat chain.length :: (chain ++ ([UInt8.ofNat (referralId / 256),
    UInt8.ofNat (referralId % 256)] ++ encoder.typeByte :: addr))

theorem layout_depositMemoV2 (hchain : chain.length ≤ 255) (referralId : Nat)
    (encoder : EncodingType) (hne : addr ≠ []) :
    MemoLayout (depositMemoV2 chain referralId encoder addr) (UInt8.ofNat chain.length) chain
      [UInt8.ofNat (referralId / 256), UInt8.ofNat (referralId % 256)] encoder.typeByte addr := by
  refine ⟨rfl, ?_, rfl, hne⟩
  rw [UInt8.toNat_ofNat']
  omega

theorem referralOf_split {referralId : Nat} (h : referralId < 65536) :
    referralOf [UInt8.ofNat (referralId / 256), UInt8.ofNat (referralId % 256)] = referralId := by
  rw [referralOf_pair, UInt8.toNat_ofNat', UInt8.toNat_ofNat']
  omega

/-- The decoder never panics, succeeds exactly on the grammar and reads its parts back; so it
undoes the writing of a memo. -/
theorem decodeDepositMemoV2_grammar (keccak256 : Bytes → Bytes)
    (digest : ∀ bytes, (keccak256 bytes).length = 32) :
    (∀ raw, (decodeDepositMemoV2 keccak256 raw).Returns ∧
      ((∃ memo, decodeDepositMemoV2 keccak256 raw = .ok memo) ↔
        ∃ lenChainId chain ref t addr, MemoLayout raw lenChainId chain ref t addr ∧
          1 ≤ t.toNat ∧ t.toNat ≤ 6)) ∧
    (∀ raw lenChainId chain ref t addr, MemoLayout raw lenChainId chain ref t addr →
      1 ≤ t.toNat ∧ t.toNat ≤ 6 → ∃ encoder memo, getEncoder t = some encoder ∧
        decodeDepositMemoV2 keccak256 raw = .ok memo ∧ memo.chainId = chain ∧
        memo.referralId = referralOf ref ∧ Encodes keccak256 encoder addr memo.address) ∧
    ∀ (chain : Bytes) (referralId : Nat) (encoder : EncodingType) (addr : Bytes),
      chain.length ≤ 255 → referralId < 65536 → addr ≠ [] →
        ∃ text, Encodes keccak256 encoder addr text ∧
          decodeDepositMemoV2 keccak256 (depositMemoV2 chain referralId encoder addr) =
            .ok ⟨text, chain, referralId⟩ := by
  have reads : ∀ raw lenChainId chain ref t addr, MemoLayout raw lenChainId chain ref t addr →
      1 ≤ t.toNat ∧ t.toNat ≤ 6 → ∃ encoder memo, getEncoder t = some encoder ∧
        decodeDepositMemoV2 keccak256 raw = .ok memo ∧ memo.chainId = chain ∧
        memo.referralId = referralOf ref ∧ Encodes keccak256 encoder addr memo.address := by
    intro raw lenChainId chain ref t addr layout htype
    obtain ⟨encoder, hencoder⟩ := exists_getEncoder_iff.mpr htype
    obtain ⟨text, htext⟩ := exists_encode (ε := Err) digest addr encoder
    exact ⟨encoder, ⟨text, chain, referralOf ref⟩, hencoder,
      decodeDepositMemoV2_ok_iff.mpr
        ⟨lenChainId, chain, ref, t, addr, encoder, layout, hencoder, htext, rfl, rfl⟩,
      rfl, rfl, htext⟩
  refine ⟨fun raw => ⟨returns_decodeDepositMemoV2 digest raw, ?_⟩, reads, ?_⟩
  · constructor
    · rintro ⟨memo, hmemo⟩
      obtain ⟨lenChainId, chain, ref, t, addr, encoder, layout, hencoder, -⟩ :=
        decodeDepositMemoV2_ok_iff.mp hmemo
      exact ⟨lenChainId, chain, ref, t, addr, layout, exists_getEncoder_iff.mp ⟨_, hencoder⟩⟩
    · rintro ⟨lenChainId, chain, ref, t, addr, layout, htype⟩
      obtain ⟨_, memo, -, hmemo, -⟩ := reads raw lenChainId chain ref t addr layout htype
      exact ⟨memo, hmemo⟩
  · intro chain referralId encoder addr hchain hreferral hne
    obtain ⟨text, htext⟩ := exists_encode (ε := Err) digest addr encoder
    exact ⟨text, htext, decodeDepositMemoV2_ok_iff.mpr ⟨_, _, _, _, _, encoder,
      layout_depositMemoV2 hchain referralId encoder hne, getEncoder_typeByte encoder, htext, rfl,
      (referralOf_split hreferral).symm⟩⟩

theorem decodeDepositMemoV2_grammar_sample :
    ∃ text, Encodes (fun _ => List.replicate 32 0) .hex [0xAB, 0xCD] text ∧
      decodeDepositMemoV2 (fun _ => List.replicate 32 0)
          (depositMemoV2 (str "1") 258 .hex [0xAB, 0xCD]) = .ok ⟨text, str "1", 258⟩ :=
  (decodeDepositMemoV2_grammar (fun _ => List.replicate 32 0) fun _ => rfl).2.2 (str "1") 258 .hex
    [0xAB, 0xCD] (by decide) (by decide) (by decide)

/-! ## V1 behind V2 -/

/-- The last separator divides the address from the chain. -/
theorem decodeDepositMemoV1_joined (plain : dstSeparator ∉ chain) (hchain : chain ≠ [])
    (haddr : addr ≠ []) :
    decodeDepositMemoV1 (addr ++ dstSeparator :: chain) =
      .ok ⟨if addr.length = dstZanoAddrLen then Base58.encode addr else addr, chain, 0⟩ := by
  have hparts : (addr ++ dstSeparator :: chain).splitOn dstSeparator =
      addr.splitOn dstSeparator ++ [chain] := by
    rw [List.splitOn_append_cons_self, List.splitOn_eq_singleton plain]
  have hjoined : joinedParts (addr.splitOn dstSeparator ++ [chain]) = (addr, chain) := by
    rw [joinedParts, List.dropLast_concat, List.intercalate_splitOn, List.getLastD_concat]
  have hcount : 2 ≤ (addr.splitOn dstSeparator ++ [chain]).length := by
    have := List.length_pos_iff.mpr (List.splitOn_ne_nil dstSeparator addr)
    rw [List.length_append, List.length_singleton]
    omega
  have hlengths : addr.length ≠ 0 ∧ chain.length ≠ 0 :=
    ⟨mt List.length_eq_zero_iff.mp haddr, mt List.length_eq_zero_iff.mp hchain⟩
  simp only [decodeDepositMemoV1, hparts, hjoined, Outcome.check, if_pos hcount, if_pos hlengths,
    Outcome.ok_bind, Outcome.pure_eq_ok]

/-- The byte that the V2 decoder takes for the encoding type is one. -/
def TypeAt (bytes : Bytes) : Prop :=
  ∃ t, bytes[(bytes.headD 0).toNat + 3]? = some t ∧ 1 ≤ t.toNat ∧ t.toNat ≤ 6

theorem MemoLayout.getElem?_eq (layout : MemoLayout raw lenChainId chain ref t addr) :
    raw[(raw.headD 0).toNat + 3]? = some t := by
  obtain ⟨rfl, hchain, href, -⟩ := layout
  obtain ⟨high, low, rfl⟩ := List.length_eq_two.mp href
  rw [List.headD_cons, ← hchain]
  simp

theorem decodeDepositMemoV2_err (keccak256 : Bytes → Bytes) (h : ¬ TypeAt raw) :
    ∃ e, decodeDepositMemoV2 keccak256 raw = .err e := by
  by_cases hguard : raw ≠ [] ∧ 1 + (raw.headD 0).toNat + referralIdLength + 1 < raw.length
  swap
  · exact decodeDepositMemoV2_short keccak256 hguard
  obtain ⟨lenChainId, chain, ref, t, addr, layout⟩ := exists_layout hguard.1 hguard.2
  rw [decodeDepositMemoV2_of_layout layout]
  cases hencoder : getEncoder t with
  | none => exact ⟨_, rfl⟩
  | some encoder =>
      exact absurd ⟨t, layout.getElem?_eq, exists_getEncoder_iff.mp ⟨_, hencoder⟩⟩ h

def Printable (b : UInt8) : Prop := 0x20 ≤ b.toNat ∧ b.toNat ≤ 0x7E

instance : DecidablePred Printable := fun b =>
  inferInstanceAs (Decidable (0x20 ≤ b.toNat ∧ b.toNat ≤ 0x7E))

theorem printable_of_all {raw : Bytes} (h : raw.all (fun b => decide (Printable b)) = true) :
    ∀ b ∈ raw, Printable b := by
  simpa using h

/-- A V1 memo of an address in text form, or of the raw bytes of a Zano address. -/
structure V1Memo (addr chain : Bytes) : Prop where
  addrNonempty : addr ≠ []
  chainNonempty : chain ≠ []
  chainPrintable : ∀ b ∈ chain, Printable b
  chainPlain : dstSeparator ∉ chain
  kind : (addr.length ≠ dstZanoAddrLen ∧ ∀ b ∈ addr, Printable b) ∨
    addr.length = dstZanoAddrLen ∧ Zano.Client.addressValid (Base58.encode addr) = true

namespace V1Memo

theorem headD_append (memo : V1Memo addr chain) :
    (addr ++ dstSeparator :: chain).headD 0 = addr.headD 0 := by
  cases addr with
  | nil => exact absurd rfl memo.addrNonempty
  | cons b addr => rfl

/-- The separator and the chain are printable, so only the address can hold the type. -/
theorem typeAt_iff (memo : V1Memo addr chain) :
    TypeAt (addr ++ dstSeparator :: chain) ↔ TypeAt addr := by
  unfold TypeAt
  rw [memo.headD_append]
  rcases Nat.lt_or_ge ((addr.headD 0).toNat + 3) addr.length with hlt | hge
  · rw [List.getElem?_append_left hlt]
  · rw [List.getElem?_append_right hge, List.getElem?_eq_none hge]
    constructor
    · rintro ⟨t, ht, -, high⟩
      have hmem := List.mem_of_getElem? ht
      have hprintable : 0x20 ≤ t.toNat := by
        rcases List.mem_cons.mp hmem with rfl | hmem
        · decide
        · exact (memo.chainPrintable t hmem).1
      omega
    · rintro ⟨t, ht, -⟩
      cases ht

theorem length_of_typeAt (memo : V1Memo addr chain) (h : TypeAt addr) :
    addr.length = dstZanoAddrLen ∧ (Base58.encode addr).length = 97 := by
  rcases memo.kind with ⟨-, hprintable⟩ | ⟨hlength, hvalid⟩
  · obtain ⟨t, ht, -, high⟩ := h
    have := (hprintable t (List.mem_of_getElem? ht)).1
    omega
  · unfold Zano.Client.addressValid at hvalid
    rw [Bool.and_eq_true, decide_eq_true_eq] at hvalid
    exact ⟨hlength, hvalid.1⟩

end V1Memo

/-- No encoding of 68 bytes is the Base58 text of a Zano address. -/
theorem not_encodes_of_length {encoder : EncodingType} {rest : Bytes} (hrest : rest.length = 68)
    (haddr : addr.length = dstZanoAddrLen) (htext : (Base58.encode addr).length = 97) :
    ¬ Encodes keccak256 encoder rest (Base58.encode addr) := by
  intro h
  unfold Encodes at h
  cases encoder with
  | utf8 =>
      have hsame := congrArg List.length (Outcome.ok.inj h)
      omega
  | hex =>
      have hsame := congrArg List.length (Outcome.ok.inj h)
      rw [List.length_append, length_formatHex, htext, hrest] at hsame
      cases hsame
  | hexCheckSum =>
      simp only [EncodingType.encode, hexCheckSumEncode, Outcome.bind_eq_ok, Outcome.pure_eq_ok,
        Outcome.ok.injEq] at h
      obtain ⟨digits, hdigits, hsame⟩ := h
      have hlength := congrArg List.length hsame
      rw [List.length_append, length_checkSumDigits hdigits, length_formatHex, htext,
        hrest] at hlength
      cases hlength
  | base58 =>
      have hsame := Base58.encode_injective (Outcome.ok.inj h)
      rw [hsame, haddr] at hrest
      cases hrest
  | base64 | base64Url =>
      have hsame := congrArg List.length (Outcome.ok.inj h)
      rw [length_base64Encode, htext, hrest] at hsame
      cases hsame

/-- A memo that V2 takes is never read as V1 would read it: the two readings would have chains of
one length, and then 68 bytes are left for the address. -/
theorem decodeDepositMemoV2_ne (memo : V1Memo addr chain) (h : TypeAt addr) :
    decodeDepositMemoV2 keccak256 (addr ++ dstSeparator :: chain) ≠
      .ok ⟨Base58.encode addr, chain, 0⟩ := by
  intro hread
  obtain ⟨hlength, htext⟩ := memo.length_of_typeAt h
  obtain ⟨lenChainId, chain', ref, t, rest, encoder, layout, -, hencodes, hchain, -⟩ :=
    decodeDepositMemoV2_ok_iff.mp hread
  have hrest : rest.length = 68 := by
    have hbytes := congrArg List.length layout.bytes
    have hsame := congrArg List.length hchain
    have href := layout.refLength
    unfold referralIdLength at href
    unfold dstZanoAddrLen at hlength
    simp only [List.length_append, List.length_cons] at hbytes hsame
    omega
  exact not_encodes_of_length hrest hlength htext hencodes

/-- With the type in the address, the V2 decoder takes the memo. -/
theorem decodeDepositMemoV2_takes (digest : ∀ bytes, (keccak256 bytes).length = 32)
    (memo : V1Memo addr chain) (h : TypeAt addr) :
    ∃ read, decodeDepositMemoV2 keccak256 (addr ++ dstSeparator :: chain) = .ok read := by
  obtain ⟨t, ht, -⟩ := id h
  have hinside := (List.getElem?_eq_some_iff.mp ht).1
  have hguard : 1 + ((addr ++ dstSeparator :: chain).headD 0).toNat + referralIdLength + 1 <
      (addr ++ dstSeparator :: chain).length := by
    rw [memo.headD_append, List.length_append, List.length_cons, referralIdLength]
    omega
  obtain ⟨lenChainId, chain', ref, t', rest, layout⟩ := exists_layout (by simp) hguard
  obtain ⟨t'', ht'', htype⟩ := memo.typeAt_iff.mpr h
  cases ht''.symm.trans layout.getElem?_eq
  obtain ⟨encoder, hencoder⟩ := exists_getEncoder_iff.mpr htype
  obtain ⟨text, htext⟩ := exists_encode (ε := Err) digest rest encoder
  exact ⟨⟨text, chain', referralOf ref⟩, decodeDepositMemoV2_ok_iff.mpr
    ⟨lenChainId, chain', ref, t', rest, encoder, layout, hencoder, htext, rfl, rfl⟩⟩

theorem decodeDepositMemo_v1_iff (digest : ∀ bytes, (keccak256 bytes).length = 32)
    (memo : V1Memo addr chain) :
    decodeDepositMemo keccak256 (addr ++ dstSeparator :: chain) =
        .ok ⟨if addr.length = dstZanoAddrLen then Base58.encode addr else addr, chain, 0⟩ ↔
      ¬ TypeAt addr := by
  constructor
  · intro hread h
    obtain ⟨read, htaken⟩ := decodeDepositMemoV2_takes digest memo h
    rw [decodeDepositMemo, htaken, if_pos (memo.length_of_typeAt h).1] at hread
    exact decodeDepositMemoV2_ne memo h (htaken.trans hread)
  · intro h
    obtain ⟨e, he⟩ := decodeDepositMemoV2_err keccak256 (mt memo.typeAt_iff.mp h)
    rw [decodeDepositMemo, he]
    simp only [decodeDepositMemoV1_joined memo.chainPlain memo.chainNonempty memo.addrNonempty]
    rfl

/-- A V1 memo in an output is read as such exactly when the byte of its address at the position
given by the first one is not an encoding type. -/
theorem decodeDepositMemoOutput_v1_iff (c : Client) (out : Vout) (script addr chain : Bytes)
    (digest : ∀ bytes, (c.keccak256 bytes).length = 32) (hscript : scriptOf out = .ok script)
    (carries : c.lib.retrieveOpReturnData script = .ok (addr ++ dstSeparator :: chain))
    (memo : V1Memo addr chain) :
    c.decodeDepositMemoOutput out =
        .ok ⟨if addr.length = dstZanoAddrLen then Base58.encode addr else addr, chain, 0⟩ ↔
      ¬ TypeAt addr := by
  rw [← decodeDepositMemo_v1_iff digest memo, Client.decodeDepositMemoOutput, hscript,
    Outcome.ok_bind, carries]
  rfl

section Sample

def memoVout (raw : Bytes) : Vout := ⟨0, formatHex (opReturn raw)⟩

def textMemo : Bytes := sampleReceiver ++ dstSeparator :: str "1"

theorem decodeDepositMemoOutput_v1_sample :
    depositingUtxo.decodeDepositMemoOutput (memoVout textMemo) =
      .ok ⟨sampleReceiver, str "1", 0⟩ := by
  have memo : V1Memo sampleReceiver (str "1") :=
    ⟨by decide, by decide, printable_of_all (by decide), by decide,
      .inl ⟨by decide, printable_of_all (by decide)⟩⟩
  refine (decodeDepositMemoOutput_v1_iff depositingUtxo (memoVout textMemo) (opReturn textMemo)
    sampleReceiver (str "1") (fun _ => rfl) (by decide +kernel) (by decide +kernel) memo).mpr ?_
  rintro ⟨t, ht, -, high⟩
  have := (memo.kind.resolve_right (by decide)).2 t (List.mem_of_getElem? ht)
  unfold Printable at this
  omega

/-- 71 bytes that the Zano client takes as an address, of which the V2 decoder makes a chain
of six bytes. -/
def shortHeaded : Bytes := 6 :: List.replicate 70 2

theorem decodeDepositMemoOutput_misread :
    V1Memo shortHeaded (str "zano") ∧
      ∃ memo, depositingUtxo.decodeDepositMemoOutput
          (memoVout (shortHeaded ++ dstSeparator :: str "zano")) = .ok memo ∧
        memo.chainId = List.replicate 6 2 ∧ memo.referralId = 514 ∧
        memo.address ≠ Base58.encode shortHeaded := by
  have hread : depositingUtxo.decodeDepositMemoOutput
      (memoVout (shortHeaded ++ dstSeparator :: str "zano")) = .ok ⟨str "0x" ++ formatHex
        (List.replicate 61 2 ++ dstSeparator :: str "zano"), List.replicate 6 2, 514⟩ := by
    decide +kernel
  refine ⟨⟨by decide, by decide, printable_of_all (by decide), by decide, .inr ⟨by decide, ?_⟩⟩,
    _, hread, rfl, rfl, by decide +kernel⟩
  decide +kernel

end Sample

end TssSvc.Bridge.Utxo
