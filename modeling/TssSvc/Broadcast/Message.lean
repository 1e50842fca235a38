import TssSvc.Lib.Gob

/-!
# Round messages of the reliable broadcast

`internal/p2p/broadcast/reliable.go`: the signed round message, the digest a relayer
signs, and the check of one signature.  The primitives the code imports (SHA-256,
public key recovery, bech32) are the fields of `Crypto`.

`signPreimage_injective`: the bytes hashed by `SignHash` determine the session id, the
value up to its hash string, and the signature list.
-/

set_option autoImplicit false

namespace TssSvc.Broadcast

open TssSvc.Gob

/-- `core.Address`: a bech32 string. -/
abbrev Address := GoString

instance : LawfulBEq (Address × Int) := inferInstanceAs (LawfulBEq (List UInt8 × Int))

structure Crypto where
  sha256 : Bytes → Bytes
  /-- `crypto.SigToPub` followed by `crypto.PubkeyToAddress`; `none` is an error. -/
  sigToAddress : Bytes → Bytes → Option Bytes
  /-- `bech32.DecodeAndConvert`; `none` is an error. -/
  decodeAddress : Address → Option Bytes

/-- `core.Account`: an address and the signing operation of its private key. -/
structure Account where
  cosmosAddress : Address
  sign : Bytes → Option Bytes

class HasHashString (T : Type) where
  hashString : T → GoString

export HasHashString (hashString)

structure Signature where
  signer : Address
  value : Bytes
  deriving DecidableEq, Repr

/-- `RoundMessage[T]`; a nil `Value` is `none`. -/
structure RoundMessage (T : Type) where
  value : Option T
  sessionId : GoString
  round : Int
  signatures : List Signature
  deriving DecidableEq, Repr

/-- `ReliableBroadcastMsg[T]`: a round message with its authenticated sender. -/
structure ReliableBroadcastMsg (T : Type) where
  msg : RoundMessage T
  sender : Address
  deriving DecidableEq, Repr

variable {T : Type} [HasHashString T]

/-- The key of a value in `ReliableBroadcaster.values`. -/
def valueKey : Option T → GoString
  | none => []
  | some v => hashString v

def Signature.items (sig : Signature) : List Item := [.str sig.signer, .bytes sig.value]

/-- The values `SignHash` hands to the gob encoder, in order. -/
def RoundMessage.signItems (m : RoundMessage T) : List Item :=
  .str m.sessionId ::
    ((m.value.toList.map fun v => Item.str (hashString v)) ++ m.signatures.flatMap Signature.items)

def RoundMessage.signPreimage (m : RoundMessage T) : Bytes := m.signItems.flatMap encode

def RoundMessage.signHash (c : Crypto) (m : RoundMessage T) : Bytes := c.sha256 m.signPreimage

/-- `SignatureValid`.  `Address.Bytes` panics on a string that is not bech32. -/
def RoundMessage.signatureValid (c : Crypto) (m : RoundMessage T) (sig : Signature) : Go Bool :=
  match c.sigToAddress (m.signHash c) sig.value with
  | none => .ok false
  | some recovered =>
      match c.decodeAddress sig.signer with
      | none => .error .explicit
      | some address => .ok (decide (recovered = address))

def RoundMessage.Verifies (c : Crypto) (m : RoundMessage T) (sig : Signature) : Prop :=
  (c.decodeAddress sig.signer).isSome ∧
    c.sigToAddress (m.signHash c) sig.value = c.decodeAddress sig.signer

instance (c : Crypto) (m : RoundMessage T) (sig : Signature) : Decidable (m.Verifies c sig) :=
  inferInstanceAs (Decidable (_ ∧ _))

theorem signatureValid_eq_true_iff (c : Crypto) (m : RoundMessage T) (sig : Signature) :
    m.signatureValid c sig = .ok true ↔ m.Verifies c sig := by
  unfold RoundMessage.signatureValid RoundMessage.Verifies
  cases hrec : c.sigToAddress (m.signHash c) sig.value with
  | none =>
      cases c.decodeAddress sig.signer <;> simp
  | some recovered =>
      cases c.decodeAddress sig.signer <;> simp

/-- Only the session id, the value and the signatures enter the digest. -/
theorem signHash_congr (c : Crypto) {m m' : RoundMessage T} (hs : m.sessionId = m'.sessionId)
    (hv : m.value = m'.value) (hsig : m.signatures = m'.signatures) :
    m.signHash c = m'.signHash c := by
  simp [RoundMessage.signHash, RoundMessage.signPreimage, RoundMessage.signItems, hs, hv, hsig]

/-! ## The links of a signature chain -/

def RoundMessage.linksFrom (m : RoundMessage T) (signed : List Signature) :
    List Signature → List (RoundMessage T × Signature)
  | [] => []
  | sig :: rest => ({ m with signatures := signed }, sig) :: m.linksFrom (signed ++ [sig]) rest

/-- Every signature of the message with the message it signs: the same value under the
signatures that come before. -/
def RoundMessage.links (m : RoundMessage T) : List (RoundMessage T × Signature) :=
  m.linksFrom [] m.signatures

omit [HasHashString T] in
theorem linksFrom_append (m : RoundMessage T) (signed xs ys : List Signature) :
    m.linksFrom signed (xs ++ ys) = m.linksFrom signed xs ++ m.linksFrom (signed ++ xs) ys := by
  induction xs generalizing signed with
  | nil => simp [RoundMessage.linksFrom]
  | cons x xs ih => simp [RoundMessage.linksFrom, ih]

omit [HasHashString T] in
theorem linksFrom_congr (m m' : RoundMessage T) (hv : m.value = m'.value)
    (hs : m.sessionId = m'.sessionId) (hr : m.round = m'.round) (signed xs : List Signature) :
    m.linksFrom signed xs = m'.linksFrom signed xs := by
  induction xs generalizing signed with
  | nil => rfl
  | cons x xs ih => simp [RoundMessage.linksFrom, ih, hv, hs, hr]

omit [HasHashString T] in
theorem links_snoc (m : RoundMessage T) (sigs : List Signature) (sig : Signature) :
    ({ m with signatures := sigs ++ [sig] } : RoundMessage T).links =
      ({ m with signatures := sigs } : RoundMessage T).links ++
        [({ m with signatures := sigs }, sig)] := by
  simp only [RoundMessage.links, linksFrom_append, List.nil_append]
  rw [linksFrom_congr { m with signatures := sigs ++ [sig] } { m with signatures := sigs }
    rfl rfl rfl [] sigs]
  rfl

omit [HasHashString T] in
theorem mem_linksFrom {m : RoundMessage T} {signed xs : List Signature}
    {link : RoundMessage T × Signature} :
    link ∈ m.linksFrom signed xs ↔
      ∃ pre post, xs = pre ++ link.2 :: post ∧ link.1 = { m with signatures := signed ++ pre } := by
  induction xs generalizing signed with
  | nil => simp [RoundMessage.linksFrom]
  | cons x xs ih =>
      simp only [RoundMessage.linksFrom, List.mem_cons, ih]
      constructor
      · rintro (rfl | ⟨pre, post, rfl, hpart⟩)
        · exact ⟨[], xs, rfl, by simp⟩
        · exact ⟨x :: pre, post, rfl, by simpa using hpart⟩
      · rintro ⟨pre, post, hsplit, hpart⟩
        cases pre with
        | nil =>
            obtain ⟨rfl, -⟩ := List.cons.inj hsplit
            exact .inl (Prod.ext (by simpa using hpart) rfl)
        | cons y pre =>
            obtain ⟨rfl, hrest⟩ := List.cons.inj hsplit
            exact .inr ⟨pre, post, hrest, by simpa using hpart⟩

omit [HasHashString T] in
theorem mem_links {m : RoundMessage T} {link : RoundMessage T × Signature} :
    link ∈ m.links ↔
      ∃ pre post, m.signatures = pre ++ link.2 :: post ∧
        link.1 = { m with signatures := pre } := by
  simp [RoundMessage.links, mem_linksFrom]

omit [HasHashString T] in
theorem exists_link_of_mem {m : RoundMessage T} {sig : Signature} (hmem : sig ∈ m.signatures) :
    ∃ part, (part, sig) ∈ m.links := by
  obtain ⟨pre, post, hsplit⟩ := List.append_of_mem hmem
  exact ⟨{ m with signatures := pre }, mem_links.mpr ⟨pre, post, hsplit, rfl⟩⟩

/-! ## The digest determines the message -/

theorem signatureItems_injective :
    Function.Injective fun sigs : List Signature => sigs.flatMap Signature.items := by
  intro xs
  induction xs with
  | nil =>
      intro ys h
      cases ys with
      | nil => rfl
      | cons y ys => simp [Signature.items] at h
  | cons x xs ih =>
      intro ys h
      cases ys with
      | nil => simp [Signature.items] at h
      | cons y ys =>
          simp only [List.flatMap_cons, Signature.items, List.cons_append, List.nil_append,
            List.cons.injEq, Item.str.injEq, Item.bytes.injEq] at h
          obtain ⟨hsigner, hvalue, htail⟩ := h
          have hhead : x = y := by
            cases x
            cases y
            simp_all
          rw [hhead, ih htail]

theorem length_signatureItems (sigs : List Signature) :
    (sigs.flatMap Signature.items).length = 2 * sigs.length := by
  induction sigs with
  | nil => rfl
  | cons sig sigs ih =>
      simp only [List.flatMap_cons, List.length_append, ih, Signature.items, List.length_cons,
        List.length_nil]
      omega

/-- A nil value shifts the parity of the item count, so it is never read as a value. -/
theorem signItems_injective {m m' : RoundMessage T} (h : m.signItems = m'.signItems) :
    m.sessionId = m'.sessionId ∧
      m.value.map hashString = m'.value.map hashString ∧ m.signatures = m'.signatures := by
  have hlen := congrArg List.length h
  unfold RoundMessage.signItems at h hlen
  simp only [List.cons.injEq, Item.str.injEq] at h
  obtain ⟨hsession, htail⟩ := h
  simp only [List.length_cons, List.length_append, List.length_map, length_signatureItems] at hlen
  refine ⟨hsession, ?_⟩
  cases hv : m.value with
  | none =>
      cases hv' : m'.value with
      | none =>
          rw [hv, hv'] at htail
          exact ⟨rfl, signatureItems_injective (by simpa using htail)⟩
      | some v' =>
          simp only [hv, hv', Option.toList_none, Option.toList_some, List.length_nil,
            List.length_singleton] at hlen
          omega
  | some v =>
      cases hv' : m'.value with
      | none =>
          simp only [hv, hv', Option.toList_none, Option.toList_some, List.length_nil,
            List.length_singleton] at hlen
          omega
      | some v' =>
          simp only [hv, hv', Option.toList_some, List.map_cons, List.map_nil, List.cons_append,
            List.nil_append, List.cons.injEq, Item.str.injEq] at htail
          exact ⟨by rw [Option.map_some, Option.map_some, htail.1],
            signatureItems_injective htail.2⟩

theorem signPreimage_injective {m m' : RoundMessage T} (h : m.signPreimage = m'.signPreimage) :
    m.sessionId = m'.sessionId ∧
      m.value.map hashString = m'.value.map hashString ∧ m.signatures = m'.signatures :=
  signItems_injective (encodeAll_injective h)

/-- The hashed bytes are unambiguous: two messages have them in common exactly when they agree
in the session id, in the value (both nil, or both not and with one hash string) and in the
signatures. -/
theorem signPreimage_eq_iff (m m' : RoundMessage T) :
    m.signPreimage = m'.signPreimage ↔
      m.sessionId = m'.sessionId ∧
        ((m.value = none ∧ m'.value = none) ∨
          ∃ v v', m.value = some v ∧ m'.value = some v' ∧ hashString v = hashString v') ∧
        m.signatures = m'.signatures := by
  constructor
  · intro h
    obtain ⟨hsession, hvalue, hsignatures⟩ := signPreimage_injective h
    refine ⟨hsession, ?_, hsignatures⟩
    cases hv : m.value with
    | none =>
        rw [hv, Option.map_none, eq_comm, Option.map_eq_none_iff] at hvalue
        exact .inl ⟨rfl, hvalue⟩
    | some v =>
        rw [hv, Option.map_some, eq_comm, Option.map_eq_some_iff] at hvalue
        obtain ⟨v', hv', hhash⟩ := hvalue
        exact .inr ⟨v, v', rfl, hv', hhash.symm⟩
  · rintro ⟨hsession, hvalue, hsignatures⟩
    unfold RoundMessage.signPreimage RoundMessage.signItems
    rw [hsession, hsignatures]
    rcases hvalue with ⟨hv, hv'⟩ | ⟨v, v', hv, hv', hhash⟩
    · rw [hv, hv']
    · rw [hv, hv', Option.toList_some, Option.toList_some, List.map_singleton, List.map_singleton,
        hhash]

/-- SHA-256 is taken to have no collisions. -/
def Crypto.CollisionFree (c : Crypto) : Prop := Function.Injective c.sha256

theorem signHash_injective {c : Crypto} (free : c.CollisionFree) {m m' : RoundMessage T}
    (h : m.signHash c = m'.signHash c) :
    m.sessionId = m'.sessionId ∧
      m.value.map hashString = m'.value.map hashString ∧ m.signatures = m'.signatures :=
  signPreimage_injective (free h)

theorem valueKey_eq_of_map_eq {v v' : Option T} (h : v.map hashString = v'.map hashString) :
    valueKey v = valueKey v' := by
  cases v <;> cases v' <;> simp_all [valueKey]

end TssSvc.Broadcast
