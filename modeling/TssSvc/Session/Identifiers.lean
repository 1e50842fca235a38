import TssSvc.Session.Schedule

/-!
# Session identifiers

The counter of a chain's sessions lives in the text of the identifier, which is split at its
underscores, parsed and printed again at the end of every session.  A chain identifier with an
underscore in it is split with the rest: such a session never changes its identifier.
-/

set_option autoImplicit false

namespace TssSvc.Schedule

open TssSvc.Bridge

variable {chainId : GoString}

theorem underscore_notMem_formatInt (n : Int) : underscore ∉ Decimal.formatInt n :=
  Decimal.notMem_formatInt (by decide) (by decide) n

theorem splitOn_identifier (chainId : GoString) (n : Int) :
    List.splitOn underscore (getConcreteSigningSessionIdentifier chainId n) =
      str "SIGN" :: List.splitOn underscore (chainId ++ underscore :: Decimal.formatInt n) :=
  List.splitOn_append_cons_self_of_not_mem (by decide) _

theorem splitOn_of_notMem (plain : underscore ∉ chainId) (n : Int) :
    List.splitOn underscore (getConcreteSigningSessionIdentifier chainId n) =
      [str "SIGN", chainId, Decimal.formatInt n] := by
  rw [splitOn_identifier, List.splitOn_append_cons_self_of_not_mem plain,
    List.splitOn_eq_singleton (underscore_notMem_formatInt n)]

/-- Text around an underscore has at least two parts. -/
theorem two_le_length_splitOn (before after : GoString) :
    2 ≤ (List.splitOn underscore (before ++ underscore :: after)).length := by
  obtain ⟨first, rest, heq, plain⟩ := List.eq_append_cons_of_mem
    (List.mem_append_right before List.mem_cons_self)
  rw [heq, List.splitOn_append_cons_self_of_not_mem plain, List.length_cons]
  have := List.length_pos_iff.mpr (List.splitOn_ne_nil underscore rest)
  omega

theorem four_le_length_splitOn (divided : underscore ∈ chainId) (n : Int) :
    4 ≤ (List.splitOn underscore (getConcreteSigningSessionIdentifier chainId n)).length := by
  obtain ⟨first, rest, rfl, plain⟩ := List.eq_append_cons_of_mem divided
  have htail := two_le_length_splitOn rest (Decimal.formatInt n)
  rw [splitOn_identifier, List.append_assoc, List.cons_append,
    List.splitOn_append_cons_self_of_not_mem plain]
  simp only [List.length_cons]
  omega

theorem getSessionId_of_notMem (plain : underscore ∉ chainId) {n : Int}
    (inRange : wrapInt64 n = n) :
    getSessionId (getConcreteSigningSessionIdentifier chainId n) = .ok n := by
  have hrange := wrapInt64_range n
  rw [inRange] at hrange
  simp [getSessionId, splitOn_of_notMem plain, Decimal.parseInt64_formatInt hrange.1 hrange.2]

theorem getSessionId_isOk (chainId : GoString) (n : Int) :
    ∃ g, getSessionId (getConcreteSigningSessionIdentifier chainId n) = .ok g := by
  have hlength : 2 < (List.splitOn underscore
      (getConcreteSigningSessionIdentifier chainId n)).length := by
    have := two_le_length_splitOn chainId (Decimal.formatInt n)
    rw [splitOn_identifier, List.length_cons]
    omega
  unfold getSessionId
  rw [List.getElem?_eq_getElem hlength]
  exact ⟨_, rfl⟩

theorem increment_of_notMem (plain : underscore ∉ chainId) {n : Int}
    (inRange : wrapInt64 n = n) :
    incrementSessionIdentifier (getConcreteSigningSessionIdentifier chainId n) =
      getConcreteSigningSessionIdentifier chainId (wrapInt64 (n + 1)) := by
  have hrange := wrapInt64_range n
  rw [inRange] at hrange
  simp only [incrementSessionIdentifier, splitOn_of_notMem plain,
    Decimal.parseInt64_formatInt hrange.1 hrange.2]
  rfl

/-- More than three parts are left alone. -/
theorem increment_of_mem (divided : underscore ∈ chainId) (n : Int) :
    incrementSessionIdentifier (getConcreteSigningSessionIdentifier chainId n) =
      getConcreteSigningSessionIdentifier chainId n := by
  have hlength := four_le_length_splitOn divided n
  unfold incrementSessionIdentifier
  split
  next first middle text hparts =>
    rw [hparts] at hlength
    simp at hlength
  next => rfl

/-- The number is what follows the last underscore, so the identifier determines the chain. -/
theorem identifier_inj {chainId' : GoString} {m n : Int}
    (h : getConcreteSigningSessionIdentifier chainId m =
      getConcreteSigningSessionIdentifier chainId' n) : chainId = chainId' ∧ m = n := by
  simp only [getConcreteSigningSessionIdentifier, List.append_cancel_left_eq, List.cons.injEq,
    true_and] at h
  obtain ⟨hchain, hnumber⟩ := Codec.initiated_inj (underscore_notMem_formatInt m)
    (underscore_notMem_formatInt n) h
  exact ⟨hchain, Decimal.formatInt_injective hnumber⟩

/-- The run lemma: every increment of a plain chain's identifier adds one. -/
theorem iterate_increment_of_notMem (plain : underscore ∉ chainId) {id : Int} (low : 0 ≤ id)
    (k : Nat) (high : id + k < 2 ^ 63) :
    incrementSessionIdentifier^[k] (getConcreteSigningSessionIdentifier chainId id) =
      getConcreteSigningSessionIdentifier chainId (id + k) := by
  induction k with
  | zero => simp
  | succ k ih =>
      have hstep : wrapInt64 (id + k + 1) = id + (k + 1 : Nat) := by
        rw [wrapInt64_of_range] <;> omega
      rw [Function.iterate_succ_apply', ih (by omega),
        increment_of_notMem plain (wrapInt64_of_range (by omega) (by omega)), hstep]

/-- The identifiers of a chain count its sessions exactly when the chain identifier has no
underscore. -/
theorem identifiers_advance_iff (chainId : GoString) :
    ((∀ (id : Int) (k : Nat), 0 ≤ id → id + k < 2 ^ 63 →
        incrementSessionIdentifier^[k] (getConcreteSigningSessionIdentifier chainId id) =
            getConcreteSigningSessionIdentifier chainId (id + k) ∧
          getSessionId (getConcreteSigningSessionIdentifier chainId (id + k)) = .ok (id + k)) ∧
      ∀ (chainId' : GoString) (id id' : Int),
        getConcreteSigningSessionIdentifier chainId id =
            getConcreteSigningSessionIdentifier chainId' id' →
          chainId = chainId' ∧ id = id') ↔
      underscore ∉ chainId := by
  constructor
  · rintro ⟨advances, -⟩ divided
    have hnext := (advances 0 1 le_rfl (by norm_num)).1
    rw [Function.iterate_one, increment_of_mem divided] at hnext
    exact absurd (identifier_inj hnext).2 (by norm_num)
  · intro plain
    refine ⟨fun id k low high => ⟨iterate_increment_of_notMem plain low k high, ?_⟩,
      fun _ _ _ => identifier_inj⟩
    exact getSessionId_of_notMem plain (wrapInt64_of_range (by omega) high)

/-- A chain named with an underscore stays at its first identifier, and its number reads as 0. -/
theorem identifiers_stuck :
    incrementSessionIdentifier (getConcreteSigningSessionIdentifier (str "eth_mainnet") 5) =
        getConcreteSigningSessionIdentifier (str "eth_mainnet") 5 ∧
      getConcreteSigningSessionIdentifier (str "eth_mainnet") 5 ≠
        getConcreteSigningSessionIdentifier (str "eth_mainnet") (5 + 1) ∧
      getSessionId (getConcreteSigningSessionIdentifier (str "eth_mainnet") 5) = .ok 0 := by
  refine ⟨increment_of_mem (by decide) 5, by decide +kernel, by decide +kernel⟩

end TssSvc.Schedule
