import Mathlib.Data.List.AList
import TssSvc.Lib.Machine
import TssSvc.Party.Distributor
import TssSvc.Session.Identifiers

/-!
# The registry of sessions

`SessionManager` (`internal/p2p/session_manager.go`) finds the session of a request by its id.  A
signing session changes its id after every run: it stores the new one and then calls the manager
back, which moves the entry.  Between the two the session is still listed under its previous id.

A session that changes its id before it was added has no listener to call, and the process crashes.
-/

set_option autoImplicit false

namespace TssSvc.P2p

open TssSvc.Schedule TssSvc.Bridge

/-! ## The manager -/

inductive Handle where
  | signing (chainId : GoString)
  | distribution
  deriving DecidableEq, Repr

abbrev Sessions := AList fun _ : GoString => Handle

def onIdChange (sessions : Sessions) (oldId newId : GoString) : Sessions :=
  match sessions.lookup oldId with
  | none => sessions
  | some session => (sessions.erase oldId).insert newId session

/-- The chain of `SigningSessionInfo`, nil for the distribution session. -/
def Handle.chainId : Handle → Option GoString
  | signing chainId => some chainId
  | distribution => none

/-- `walk` is the order in which Go visits the map. -/
def getSigningSession (walk : List Handle) (chainId : GoString) : Option Handle :=
  walk.find? fun session => session.chainId = some chainId

/-- `changing` is the previous id, between the store of the next one and the callback. -/
structure Registry where
  sessions : Sessions
  current : GoString → GoString
  registered : GoString → Bool
  changing : GoString → Option GoString
  crashed : Bool

inductive RegistryLabel where
  | add (chainId : GoString)
  | addDistribution
  | store (chainId : GoString)
  | notify (chainId : GoString)

def registryStep (r : Registry) : RegistryLabel → Option Registry
  | .add chainId =>
      if r.crashed || r.registered chainId then none
      else some { r with
        sessions := r.sessions.insert (r.current chainId) (.signing chainId)
        registered := Function.update r.registered chainId true }
  | .addDistribution =>
      if r.crashed then none
      else some { r with
        sessions := r.sessions.insert Distributor.sessionIdentifier .distribution }
  | .store chainId =>
      if r.crashed || (r.changing chainId).isSome then none
      else some { r with
        current := Function.update r.current chainId
          (incrementSessionIdentifier (r.current chainId))
        changing := Function.update r.changing chainId (some (r.current chainId)) }
  | .notify chainId =>
      if r.crashed then none
      else (r.changing chainId).map fun oldId =>
        if r.registered chainId then { r with
          sessions := onIdChange r.sessions oldId (r.current chainId)
          changing := Function.update r.changing chainId none }
        else { r with crashed := true }

/-- An id of a session of the chain. -/
def IsIdOf (chainId id : GoString) : Prop :=
  ∃ n, wrapInt64 n = n ∧ id = getConcreteSigningSessionIdentifier chainId n

def registry : Machine Registry RegistryLabel where
  init r := r.sessions = ∅ ∧ (∀ chainId, IsIdOf chainId (r.current chainId)) ∧
    (∀ chainId, r.registered chainId = false) ∧ (∀ chainId, r.changing chainId = none) ∧
    r.crashed = false
  step := registryStep

/-! ## Ids -/

theorem IsIdOf.inj {chainId chainId' id : GoString} (h : IsIdOf chainId id)
    (h' : IsIdOf chainId' id) : chainId = chainId' := by
  obtain ⟨m, -, rfl⟩ := h
  obtain ⟨n, -, heq⟩ := h'
  exact (identifier_inj heq).1

theorem IsIdOf.ne_distribution {chainId id : GoString} (h : IsIdOf chainId id) :
    id ≠ Distributor.sessionIdentifier := by
  obtain ⟨n, -, rfl⟩ := h
  intro heq
  have hhead := congrArg List.head? heq
  rw [getConcreteSigningSessionIdentifier, List.head?_append_of_ne_nil _ (by decide)] at hhead
  exact absurd hhead (by decide)

theorem wrapInt64_wrapInt64 (n : Int) : wrapInt64 (wrapInt64 n) = wrapInt64 n := by
  obtain ⟨hlow, hhigh⟩ := wrapInt64_range n
  exact wrapInt64_of_range hlow hhigh

theorem IsIdOf.increment {chainId id : GoString} (h : IsIdOf chainId id) :
    IsIdOf chainId (incrementSessionIdentifier id) := by
  obtain ⟨n, hrange, rfl⟩ := h
  by_cases hplain : underscore ∈ chainId
  · rw [increment_of_mem hplain]
    exact ⟨n, hrange, rfl⟩
  · rw [increment_of_notMem hplain hrange]
    exact ⟨wrapInt64 (n + 1), wrapInt64_wrapInt64 (n + 1), rfl⟩

/-! ## What is listed -/

/-- Each session that was added has one entry, under its current or its previous id. -/
structure Listed (sessions : Sessions) (currentId : GoString → GoString)
    (registered : GoString → Bool) (changing : GoString → Option GoString) : Prop where
  current : ∀ chainId, IsIdOf chainId (currentId chainId)
  previous : ∀ chainId oldId, changing chainId = some oldId → IsIdOf chainId oldId
  signing : ∀ id chainId, sessions.lookup id = some (.signing chainId) →
    registered chainId = true ∧ (id = currentId chainId ∨ changing chainId = some id)
  distribution : ∀ id, sessions.lookup id = some .distribution →
    id = Distributor.sessionIdentifier
  found : ∀ chainId, registered chainId = true →
    ∃ id, sessions.lookup id = some (.signing chainId)
  unique : ∀ id id' chainId, sessions.lookup id = some (.signing chainId) →
    sessions.lookup id' = some (.signing chainId) → id = id'

def RegistryOk (r : Registry) : Prop := Listed r.sessions r.current r.registered r.changing

variable {sessions : Sessions} {currentId : GoString → GoString} {registered : GoString → Bool}
  {changing : GoString → Option GoString} {chainId id : GoString} {r r' : Registry}

theorem Listed.isIdOf (h : Listed sessions currentId registered changing)
    (listed : sessions.lookup id = some (.signing chainId)) : IsIdOf chainId id := by
  rcases (h.signing id chainId listed).2 with rfl | hchanging
  · exact h.current chainId
  · exact h.previous chainId id hchanging

/-- Under an id of a chain there is the session of the chain, if any. -/
theorem Listed.handle (h : Listed sessions currentId registered changing)
    (own : IsIdOf chainId id) {session : Handle}
    (listed : sessions.lookup id = some session) : session = .signing chainId := by
  cases session with
  | signing chainId' => rw [(h.isIdOf listed).inj own]
  | distribution => exact absurd (h.distribution id listed) own.ne_distribution

theorem registryOk_init (start : registry.init r) : RegistryOk r := by
  obtain ⟨hsessions, hcurrent, hregistered, hchanging, -⟩ := start
  have hnone : ∀ id, r.sessions.lookup id = none := by
    intro id
    rw [hsessions]
    exact AList.lookup_empty id
  refine ⟨hcurrent, ?_, ?_, ?_, ?_, ?_⟩
  · intro chainId oldId hold
    rw [hchanging] at hold
    cases hold
  · intro id chainId hlisted
    rw [hnone] at hlisted
    cases hlisted
  · intro id hlisted
    rw [hnone] at hlisted
    cases hlisted
  · intro chainId htrue
    rw [hregistered] at htrue
    cases htrue
  · intro id id' chainId hlisted
    rw [hnone] at hlisted
    cases hlisted

/-- An entry that replaces no other session. -/
theorem lookup_insert_eq_some {key : GoString} {session other : Handle} :
    (sessions.insert key session).lookup id = some other ↔
      id = key ∧ other = session ∨ id ≠ key ∧ sessions.lookup id = some other := by
  by_cases hid : id = key
  · subst hid
    rw [AList.lookup_insert]
    simp [eq_comm]
  · rw [AList.lookup_insert_ne hid]
    simp [hid]

theorem Listed.add (h : Listed sessions currentId registered changing)
    (new : registered chainId = false) :
    Listed (sessions.insert (currentId chainId) (.signing chainId)) currentId
      (Function.update registered chainId true) changing := by
  have hunlisted : ∀ id, sessions.lookup id ≠ some (.signing chainId) := by
    intro id hlisted
    rw [(h.signing id chainId hlisted).1] at new
    cases new
  have hkeeps : ∀ other, registered other = true →
      Function.update registered chainId true other = true := by
    intro other hother
    by_cases hsame : other = chainId
    · rw [hsame, Function.update_self]
    · rw [Function.update_of_ne hsame]
      exact hother
  refine ⟨h.current, h.previous, ?_, ?_, ?_, ?_⟩
  · intro id other hlisted
    rcases lookup_insert_eq_some.mp hlisted with ⟨rfl, heq⟩ | ⟨-, hold⟩
    · cases heq
      exact ⟨Function.update_self .., .inl rfl⟩
    · exact (h.signing id other hold).imp_left (hkeeps other)
  · intro id hlisted
    rcases lookup_insert_eq_some.mp hlisted with ⟨-, heq⟩ | ⟨-, hold⟩
    · cases heq
    · exact h.distribution id hold
  · intro other hother
    by_cases hsame : other = chainId
    · rw [hsame]
      exact ⟨_, AList.lookup_insert _⟩
    · have hregistered : registered other = true := by
        rwa [Function.update_of_ne hsame] at hother
      obtain ⟨id, hid⟩ := h.found other hregistered
      refine ⟨id, lookup_insert_eq_some.mpr (.inr ⟨?_, hid⟩)⟩
      rintro rfl
      exact hsame ((h.isIdOf hid).inj (h.current chainId))
  · intro id id' other hlisted hlisted'
    rcases lookup_insert_eq_some.mp hlisted with ⟨rfl, heq⟩ | ⟨-, hold⟩
    · cases heq
      rcases lookup_insert_eq_some.mp hlisted' with ⟨rfl, -⟩ | ⟨-, hold'⟩
      · rfl
      · exact absurd hold' (hunlisted id')
    · rcases lookup_insert_eq_some.mp hlisted' with ⟨rfl, heq⟩ | ⟨-, hold'⟩
      · cases heq
        exact absurd hold (hunlisted id)
      · exact h.unique id id' other hold hold'

theorem Listed.addDistribution (h : Listed sessions currentId registered changing) :
    Listed (sessions.insert Distributor.sessionIdentifier .distribution) currentId registered
      changing := by
  have hold : ∀ {id chainId}, (sessions.insert Distributor.sessionIdentifier .distribution).lookup
      id = some (.signing chainId) → sessions.lookup id = some (.signing chainId) := by
    intro id chainId hlisted
    rcases lookup_insert_eq_some.mp hlisted with ⟨-, heq⟩ | ⟨-, hlisted⟩
    · cases heq
    · exact hlisted
  refine ⟨h.current, h.previous, fun id chainId hlisted => h.signing id chainId (hold hlisted),
    ?_, ?_, fun id id' chainId hlisted hlisted' =>
      h.unique id id' chainId (hold hlisted) (hold hlisted')⟩
  · intro id hlisted
    rcases lookup_insert_eq_some.mp hlisted with ⟨rfl, -⟩ | ⟨-, hlisted⟩
    · rfl
    · exact h.distribution id hlisted
  · intro chainId hregistered
    obtain ⟨id, hid⟩ := h.found chainId hregistered
    exact ⟨id, lookup_insert_eq_some.mpr (.inr ⟨(h.isIdOf hid).ne_distribution, hid⟩)⟩

theorem Listed.store (h : Listed sessions currentId registered changing)
    (idle : changing chainId = none) :
    Listed sessions
      (Function.update currentId chainId (incrementSessionIdentifier (currentId chainId)))
      registered
      (Function.update changing chainId (some (currentId chainId))) := by
  refine ⟨?_, ?_, ?_, h.distribution, h.found, h.unique⟩
  · intro other
    by_cases hsame : other = chainId
    · subst hsame
      rw [Function.update_self]
      exact (h.current other).increment
    · rw [Function.update_of_ne hsame]
      exact h.current other
  · intro other oldId hold
    by_cases hsame : other = chainId
    · subst hsame
      rw [Function.update_self] at hold
      cases hold
      exact h.current other
    · rw [Function.update_of_ne hsame] at hold
      exact h.previous other oldId hold
  · intro id other hlisted
    obtain ⟨hregistered, hid⟩ := h.signing id other hlisted
    refine ⟨hregistered, ?_⟩
    by_cases hsame : other = chainId
    · subst hsame
      rw [idle] at hid
      right
      rw [Function.update_self, hid.resolve_right (by simp)]
    · rw [Function.update_of_ne hsame, Function.update_of_ne hsame]
      exact hid

theorem lookup_moved_eq_some {oldId newId : GoString} {session other : Handle} :
    ((sessions.erase oldId).insert newId session).lookup id = some other ↔
      id = newId ∧ other = session ∨ id ≠ newId ∧ id ≠ oldId ∧ sessions.lookup id = some other := by
  rw [lookup_insert_eq_some]
  by_cases hid : id = oldId
  · subst hid
    simp [AList.lookup_erase]
  · simp [AList.lookup_erase_ne hid, hid]

theorem Listed.moved (h : Listed sessions currentId registered changing) {oldId : GoString}
    (own : changing chainId = some oldId)
    (listed : sessions.lookup oldId = some (.signing chainId)) :
    Listed ((sessions.erase oldId).insert (currentId chainId) (.signing chainId)) currentId
      registered (Function.update changing chainId none) := by
  -- no other entry of the chain is left
  have hothers : ∀ {id}, id ≠ oldId → sessions.lookup id ≠ some (.signing chainId) :=
    fun hid hlisted => hid (h.unique _ _ chainId hlisted listed)
  refine ⟨h.current, ?_, ?_, ?_, ?_, ?_⟩
  · intro other id hid
    by_cases hsame : other = chainId
    · subst hsame
      rw [Function.update_self] at hid
      cases hid
    · rw [Function.update_of_ne hsame] at hid
      exact h.previous other id hid
  · intro id other hlisted
    rcases lookup_moved_eq_some.mp hlisted with ⟨rfl, heq⟩ | ⟨-, hne, hold⟩
    · cases heq
      exact ⟨(h.signing oldId chainId listed).1, .inl rfl⟩
    · have hsame : other ≠ chainId := by
        rintro rfl
        exact hothers hne hold
      rw [Function.update_of_ne hsame]
      exact h.signing id other hold
  · intro id hlisted
    rcases lookup_moved_eq_some.mp hlisted with ⟨-, heq⟩ | ⟨-, -, hold⟩
    · cases heq
    · exact h.distribution id hold
  · intro other hother
    by_cases hsame : other = chainId
    · subst hsame
      exact ⟨_, AList.lookup_insert _⟩
    · obtain ⟨id, hid⟩ := h.found other hother
      have hforeign : ∀ {own}, IsIdOf chainId own → id ≠ own := by
        rintro own hown rfl
        exact hsame ((h.isIdOf hid).inj hown)
      exact ⟨id, lookup_moved_eq_some.mpr (.inr ⟨hforeign (h.current chainId),
        hforeign (h.previous chainId oldId own), hid⟩)⟩
  · intro id id' other hlisted hlisted'
    rcases lookup_moved_eq_some.mp hlisted with ⟨rfl, heq⟩ | ⟨-, hne, hold⟩
    · cases heq
      rcases lookup_moved_eq_some.mp hlisted' with ⟨rfl, -⟩ | ⟨-, hne', hold'⟩
      · rfl
      · exact absurd hold' (hothers hne')
    · rcases lookup_moved_eq_some.mp hlisted' with ⟨rfl, heq⟩ | ⟨-, -, hold'⟩
      · cases heq
        exact absurd hold (hothers hne)
      · exact h.unique id id' other hold hold'

/-- The callback finds the session under the previous id, unless it was added after the store. -/
theorem Listed.notify (h : Listed sessions currentId registered changing) {oldId : GoString}
    (own : changing chainId = some oldId) :
    Listed (onIdChange sessions oldId (currentId chainId)) currentId registered
      (Function.update changing chainId none) := by
  rw [onIdChange]
  split
  · rename_i hnone
    refine ⟨h.current, ?_, ?_, h.distribution, h.found, h.unique⟩
    · intro other id hid
      by_cases hsame : other = chainId
      · subst hsame
        rw [Function.update_self] at hid
        cases hid
      · rw [Function.update_of_ne hsame] at hid
        exact h.previous other id hid
    · intro id other hlisted
      obtain ⟨hregistered, hid⟩ := h.signing id other hlisted
      refine ⟨hregistered, ?_⟩
      by_cases hsame : other = chainId
      · subst hsame
        left
        apply hid.resolve_right
        rw [own]
        rintro hold
        cases hold
        rw [hnone] at hlisted
        cases hlisted
      · rw [Function.update_of_ne hsame]
        exact hid
  · rename_i session hsession
    cases h.handle (h.previous chainId oldId own) hsession
    exact h.moved own hsession

theorem registryOk_step {label : RegistryLabel} (h : RegistryOk r)
    (taken : registry.step r label = some r') : RegistryOk r' := by
  cases label with
  | add chainId =>
      simp only [registry, registryStep, Option.ite_none_left_eq_some, Option.some.injEq,
        Bool.or_eq_true, not_or, Bool.not_eq_true] at taken
      obtain ⟨⟨-, hnew⟩, rfl⟩ := taken
      exact Listed.add h hnew
  | addDistribution =>
      simp only [registry, registryStep, Option.ite_none_left_eq_some, Option.some.injEq] at taken
      obtain ⟨-, rfl⟩ := taken
      exact Listed.addDistribution h
  | store chainId =>
      simp only [registry, registryStep, Option.ite_none_left_eq_some, Option.some.injEq,
        Bool.or_eq_true, not_or, Option.not_isSome_iff_eq_none] at taken
      obtain ⟨⟨-, hidle⟩, rfl⟩ := taken
      exact Listed.store h hidle
  | notify chainId =>
      simp only [registry, registryStep, Option.ite_none_left_eq_some] at taken
      obtain ⟨oldId, hold, rfl⟩ := Option.map_eq_some_iff.mp taken.2
      split
      · exact Listed.notify h hold
      · exact h

/-- No step follows a crash. -/
theorem crashed_step {label : RegistryLabel} (taken : registry.step r label = some r')
    (crashed : r'.crashed = true) :
    ∃ chainId, r'.registered chainId = false ∧ r'.changing chainId ≠ none := by
  cases label with
  | add chainId =>
      simp only [registry, registryStep, Option.ite_none_left_eq_some, Option.some.injEq,
        Bool.or_eq_true, not_or] at taken
      obtain ⟨⟨hcrashed, -⟩, rfl⟩ := taken
      exact absurd crashed hcrashed
  | addDistribution =>
      simp only [registry, registryStep, Option.ite_none_left_eq_some, Option.some.injEq] at taken
      obtain ⟨hcrashed, rfl⟩ := taken
      exact absurd crashed hcrashed
  | store chainId =>
      simp only [registry, registryStep, Option.ite_none_left_eq_some, Option.some.injEq,
        Bool.or_eq_true, not_or] at taken
      obtain ⟨⟨hcrashed, -⟩, rfl⟩ := taken
      exact absurd crashed hcrashed
  | notify chainId =>
      simp only [registry, registryStep, Option.ite_none_left_eq_some] at taken
      obtain ⟨hcrashed, taken⟩ := taken
      obtain ⟨oldId, hold, rfl⟩ := Option.map_eq_some_iff.mp taken
      split at crashed
      · exact absurd crashed hcrashed
      · rename_i hregistered
        refine ⟨chainId, ?_, ?_⟩
        · rw [if_neg hregistered]
          exact Bool.eq_false_iff.mpr hregistered
        · rw [if_neg hregistered, hold]
          simp

theorem reaches_registryOk (reached : registry.Reaches r) : RegistryOk r := by
  apply reached.invariant (P := RegistryOk)
  · exact fun r start => registryOk_init start
  · exact fun r label r' _ h _ taken => registryOk_step h taken

theorem crashed_reason (reached : registry.Reaches r) (crashed : r.crashed = true) :
    ∃ chainId, r.registered chainId = false ∧ r.changing chainId ≠ none := by
  cases reached with
  | init start =>
      obtain ⟨-, -, -, -, hcrashed⟩ := start
      rw [hcrashed] at crashed
      cases crashed
  | step before meets taken => exact crashed_step taken crashed

theorem Listed.lookup_current (h : Listed sessions currentId registered changing)
    (added : registered chainId = true) (idle : changing chainId = none) :
    sessions.lookup (currentId chainId) = some (.signing chainId) := by
  obtain ⟨id, hid⟩ := h.found chainId added
  have hcurrent := (h.signing id chainId hid).2
  rw [idle] at hcurrent
  rw [← hcurrent.resolve_right (by simp)]
  exact hid

theorem mem_walk {walk : List Handle} (order : walk.Perm (sessions.entries.map Sigma.snd))
    {session : Handle} : session ∈ walk ↔ ∃ id, sessions.lookup id = some session := by
  rw [order.mem_iff, List.mem_map]
  constructor
  · rintro ⟨⟨id, other⟩, hmem, rfl⟩
    exact ⟨id, AList.mem_lookup_iff.mpr hmem⟩
  · rintro ⟨id, hid⟩
    exact ⟨⟨id, session⟩, AList.mem_lookup_iff.mp hid, rfl⟩

theorem getSigningSession_eq {walk : List Handle} :
    getSigningSession walk chainId =
      if .signing chainId ∈ walk then some (.signing chainId) else none := by
  have hchain : ∀ session : Handle,
      session.chainId = some chainId ↔ session = .signing chainId := by
    intro session
    cases session <;> simp [Handle.chainId]
  simp only [getSigningSession, hchain]
  split
  · rename_i hmem
    cases hfound : walk.find? fun session => decide (session = .signing chainId) with
    | none =>
        have hnone := List.find?_eq_none.mp hfound _ hmem
        exact absurd (decide_eq_true rfl) hnone
    | some session =>
        have hsession := List.find?_some hfound
        rw [of_decide_eq_true hsession]
  · rename_i hnot
    rw [List.find?_eq_none]
    intro session hsession heq
    rw [of_decide_eq_true heq] at hsession
    exact hnot hsession

/-- In every state of every interleaving: a request is handed to the session whose current id it
has, or whose previous one while the id is changing, and to no other; each session that was added
is found in one place; and the session of a chain does not depend on the order of the map.  The
process only crashes when a session changes its id before it is added. -/
theorem registry_routes {r : Registry} (reached : registry.Reaches r) :
    (∀ id session, r.sessions.lookup id = some session →
      session = .distribution ∧ id = Distributor.sessionIdentifier ∨
      ∃ chainId, session = .signing chainId ∧ r.registered chainId = true ∧
        (id = r.current chainId ∨ r.changing chainId = some id)) ∧
    (∀ chainId, r.registered chainId = true →
      (∃! id, r.sessions.lookup id = some (.signing chainId)) ∧
      (r.changing chainId = none →
        r.sessions.lookup (r.current chainId) = some (.signing chainId))) ∧
    (∀ walk : List Handle, walk.Perm (r.sessions.entries.map Sigma.snd) → ∀ chainId,
      getSigningSession walk chainId =
        if r.registered chainId then some (.signing chainId) else none) ∧
    (r.crashed = true → ∃ chainId, r.registered chainId = false ∧ r.changing chainId ≠ none) := by
  have hok : Listed r.sessions r.current r.registered r.changing := reaches_registryOk reached
  refine ⟨?_, ?_, ?_, crashed_reason reached⟩
  · intro id session hlisted
    cases session with
    | signing chainId => exact .inr ⟨chainId, rfl, hok.signing id chainId hlisted⟩
    | distribution => exact .inl ⟨rfl, hok.distribution id hlisted⟩
  · intro chainId hregistered
    obtain ⟨id, hid⟩ := hok.found chainId hregistered
    exact ⟨⟨id, hid, fun id' hid' => hok.unique id' id chainId hid' hid⟩,
      fun hidle => hok.lookup_current hregistered hidle⟩
  · intro walk order chainId
    rw [getSigningSession_eq]
    congr 1
    rw [mem_walk order, eq_iff_iff]
    constructor
    · rintro ⟨id, hid⟩
      exact (hok.signing id chainId hid).1
    · exact hok.found chainId

def freshRegistry : Registry where
  sessions := ∅
  current := fun chainId => getConcreteSigningSessionIdentifier chainId 5
  registered := fun _ => false
  changing := fun _ => none
  crashed := false

theorem freshRegistry_init : registry.init freshRegistry :=
  ⟨rfl, fun _ => ⟨5, by decide, rfl⟩, fun _ => rfl, fun _ => rfl, rfl⟩

/-- Between the store and the callback the new id is not listed. -/
theorem registry_routes_changing :
    ∃ r, registry.Reaches r ∧ r.current (str "1") = str "SIGN_1_6" ∧
      r.sessions.lookup (str "SIGN_1_6") = none ∧
      r.sessions.lookup (str "SIGN_1_5") = some (.signing (str "1")) ∧
      ∃! id, r.sessions.lookup id = some (.signing (str "1")) := by
  have hrun : (registry.exec (fun _ _ => True) freshRegistry
      [.addDistribution, .add (str "1"), .store (str "1")]).map (fun r =>
        (r.current (str "1"), r.registered (str "1"), r.sessions.lookup (str "SIGN_1_6"),
          r.sessions.lookup (str "SIGN_1_5"))) =
      some (str "SIGN_1_6", true, none, some (.signing (str "1"))) := by
    decide +kernel
  obtain ⟨r, hr, hseen⟩ := Machine.exists_reachable freshRegistry_init hrun
  simp only [Prod.mk.injEq] at hseen
  obtain ⟨hcurrent, hregistered, hnew, hold⟩ := hseen
  exact ⟨r, hr, hcurrent, hnew, hold, ((registry_routes hr).2.1 _ hregistered).1⟩

end TssSvc.P2p
