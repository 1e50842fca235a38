import TssSvc.Session.Identifiers

/-!
# Catching up with a running party

`SigningSessionInfo` reports the session identifier and the next start time as they stand;
`ParamsFromSigningSessionInfo` adds one to the identifier.  The `Run` loop moves the start time
when a session starts and the identifier when it ends, so the sum is right while a session runs
and one too high while the loop waits.
-/

set_option autoImplicit false

namespace TssSvc.Schedule

open TssSvc.Bridge TssSvc.Party

/-! ## Session information -/

structure SigningSessionInfo where
  id : Int
  nextSessionStartTime : Int
  threshold : Int
  chainId : GoString
  deriving DecidableEq, Repr

def unixMilli (time : Int) : Int := time / millisecond

def timeOfUnixMilli (ms : Int) : Int := ms * millisecond

def toSigningSessionInfo (signingSessionId : GoString) (nextSessionStartTime : Option Int)
    (threshold : Int) (chainId : GoString) : Go SigningSessionInfo := do
  let id ← getSessionId signingSessionId
  return {
    id := id
    nextSessionStartTime := (nextSessionStartTime.map unixMilli).getD 0
    threshold := threshold
    chainId := chainId }

/-- The next session is expected to have the current identifier plus one. -/
def paramsFromSigningSessionInfo (info : SigningSessionInfo) : SigningParams where
  id := wrapInt64 (info.id + 1)
  startTime := timeOfUnixMilli info.nextSessionStartTime
  threshold := info.threshold
  chainId := info.chainId
  inRange := wrapInt64_wrapInt64 _

/-- The start time is withheld while the flag of a UTXO session is down. -/
def Session.signingSessionInfo (kind : SessionKind) (params : SigningParams) (s : Session) :
    Go SigningSessionInfo :=
  toSigningSessionInfo s.sessionId
    (if kind = .utxo ∧ s.nextSessionStartTimeConstant = false then none
      else some s.nextSessionStartTime)
    params.threshold params.chainId

/-! ## The loop -/

inductive Phase where
  | waiting
  | running
  deriving DecidableEq, Repr

structure Started where
  sessionId : GoString
  time : Int
  deriving DecidableEq, Repr

/-- `started` records the sessions with the time each was scheduled for; nothing reads it. -/
structure State where
  session : Session
  phase : Phase
  started : List Started
  deriving DecidableEq, Repr

inductive Label where
  | start
  | update (inputsToSign : Nat)
  | finish
  deriving DecidableEq, Repr

def step (kind : SessionKind) (s : State) : Label → Option State
  | .start =>
      if s.phase = .waiting then some {
        session := s.session.start kind
        phase := .running
        started := s.started ++ [⟨s.session.sessionId, s.session.nextSessionStartTime⟩] }
      else none
  | .update inputsToSign =>
      if kind = .utxo ∧ s.phase = .running ∧ s.session.nextSessionStartTimeConstant = false then
        some { s with session := s.session.updateNextSessionStartTime inputsToSign }
      else none
  | .finish =>
      if s.phase = .running then
        some { s with session := s.session.incrementSessionId, phase := .waiting }
      else none

/-- The steps read backwards. -/
inductive Stepped (kind : SessionKind) (s : State) : State → Prop where
  | start (waiting : s.phase = .waiting) : Stepped kind s ⟨s.session.start kind, .running,
      s.started ++ [⟨s.session.sessionId, s.session.nextSessionStartTime⟩]⟩
  | update (inputsToSign : Nat) (varying : kind = .utxo) (running : s.phase = .running)
      (down : s.session.nextSessionStartTimeConstant = false) :
      Stepped kind s { s with session := s.session.updateNextSessionStartTime inputsToSign }
  | finish (running : s.phase = .running) :
      Stepped kind s { s with session := s.session.incrementSessionId, phase := .waiting }

theorem stepped_of_step {kind : SessionKind} {s s' : State} {label : Label}
    (taken : step kind s label = some s') : Stepped kind s s' := by
  cases label with
  | start =>
      simp only [step] at taken
      split at taken
      · cases taken
        exact .start ‹_›
      · cases taken
  | update inputsToSign =>
      simp only [step] at taken
      split at taken
      · rename_i hopen
        cases taken
        exact .update inputsToSign hopen.1 hopen.2.1 hopen.2.2
      · cases taken
  | finish =>
      simp only [step] at taken
      split at taken
      · cases taken
        exact .finish ‹_›
      · cases taken

def machine (kind : SessionKind) (params : SigningParams) : Machine State Label where
  init s := s = ⟨newSession params, .waiting, []⟩
  step := step kind

section Runs

variable {kind : SessionKind} {params : SigningParams}

/-- The states of the runs that go on from here. -/
abbrev Continues (kind : SessionKind) (params : SigningParams) : State → State → Prop :=
  (machine kind params).Leads fun _ _ => True

theorem Continues.next {s mid s' : State} (before : Continues kind params s mid) (label : Label)
    (taken : step kind mid label = some s') : Continues kind params s s' :=
  .step before trivial taken

/-! ## What the party starts next -/

/-- The identifier of the session that starts next. -/
def State.upcoming (s : State) : GoString :=
  match s.phase with
  | .waiting => s.session.sessionId
  | .running => incrementSessionIdentifier s.session.sessionId

/-- The next start time will not be updated before it comes. -/
def State.Fixed (kind : SessionKind) (s : State) : Prop :=
  kind = .utxo → s.phase = .running → s.session.nextSessionStartTimeConstant = true

/-- Every run that goes on long enough, and there is one, starts a session with this identifier
at this millisecond. -/
def WillStart (kind : SessionKind) (params : SigningParams) (s : State) (sessionId : GoString)
    (ms : Int) : Prop :=
  ∃ count, (∃ s', Continues kind params s s' ∧ s.started.length + count ≤ s'.started.length) ∧
    ∀ s', Continues kind params s s' → s.started.length + count ≤ s'.started.length →
      ∃ e ∈ s'.started.drop s.started.length, e.sessionId = sessionId ∧ unixMilli e.time = ms

/-- Either nothing has started since, or the upcoming session has, on time, and all the others
later. -/
def Followed (kind : SessionKind) (s s' : State) : Prop :=
  (s'.started = s.started ∧ s'.upcoming = s.upcoming ∧ s'.Fixed kind ∧
      s'.session.nextSessionStartTime = s.session.nextSessionStartTime) ∨
    ∃ rest, s'.started =
        s.started ++ ⟨s.upcoming, s.session.nextSessionStartTime⟩ :: rest ∧
      (∀ e ∈ rest, s.session.nextSessionStartTime + boundarySigningSession ≤ e.time) ∧
      s.session.nextSessionStartTime + boundarySigningSession ≤ s'.session.nextSessionStartTime

theorem boundarySigningSession_eq : boundarySigningSession = 40000 * millisecond := by decide

theorem followed_step {s mid s' : State} (followed : Followed kind s mid)
    (stepped : Stepped kind mid s') : Followed kind s s' := by
  have hboundary := boundarySigningSession_eq
  have hms : millisecond = 1000000 := rfl
  rcases followed with ⟨hstarted, hupcoming, fixed, hnext⟩ | ⟨rest, hstarted, hrest, hnext⟩
  · cases stepped with
    | start waiting =>
        refine .inr ⟨[], ?_, by simp, ?_⟩
        · simp only [State.upcoming, waiting] at hupcoming
          rw [hstarted, hnext, hupcoming]
          rfl
        · simp only [Session.start]
          omega
    | update inputsToSign varying running down =>
        rw [fixed varying running] at down
        cases down
    | finish running =>
        refine .inl ⟨hstarted, ?_, ?_, hnext⟩
        · simpa [State.upcoming, running, Session.incrementSessionId] using hupcoming
        · intro _ again
          cases again
  · right
    cases stepped with
    | start waiting =>
        refine ⟨rest ++ [⟨mid.session.sessionId, mid.session.nextSessionStartTime⟩], ?_, ?_, ?_⟩
        · rw [hstarted]
          simp
        · intro e he
          rcases List.mem_append.mp he with he | he
          · exact hrest e he
          · rw [List.mem_singleton.mp he]
            exact hnext
        · simp only [Session.start]
          omega
    | update inputsToSign varying running down =>
        have := additionalDelay_nonneg inputsToSign
        refine ⟨rest, hstarted, hrest, ?_⟩
        simp only [Session.updateNextSessionStartTime]
        omega
    | finish running => exact ⟨rest, hstarted, hrest, hnext⟩

theorem followed {s s' : State} (fixed : s.Fixed kind) (run : Continues kind params s s') :
    Followed kind s s' :=
  run.invariant (P := Followed kind s)
    (fun _ _ _ held _ taken => followed_step held (stepped_of_step taken))
    (.inl ⟨rfl, rfl, fixed, rfl⟩)

theorem exists_start (s : State) :
    ∃ s', Continues kind params s s' ∧ s.started.length + 1 ≤ s'.started.length := by
  obtain ⟨session, phase, started⟩ := s
  cases phase with
  | waiting => exact ⟨_, Continues.next .refl .start rfl, by simp⟩
  | running => exact ⟨_, (Continues.next .refl .finish rfl).next .start rfl, by simp⟩

/-- With the next start time settled, the upcoming session is the one that starts then. -/
theorem willStart_iff {s : State} (fixed : s.Fixed kind) (sessionId : GoString) :
    WillStart kind params s sessionId (unixMilli s.session.nextSessionStartTime) ↔
      sessionId = s.upcoming := by
  constructor
  · rintro ⟨count, ⟨s', run, enough⟩, starts⟩
    obtain ⟨e, he, rfl, htime⟩ := starts s' run enough
    rcases followed fixed run with ⟨hstarted, -⟩ | ⟨rest, hstarted, hrest, -⟩
    · simp [hstarted] at he
    · rw [hstarted, List.drop_left] at he
      rcases List.mem_cons.mp he with rfl | he
      · rfl
      · have hlater := hrest e he
        have hboundary := boundarySigningSession_eq
        unfold unixMilli millisecond at *
        omega
  · rintro rfl
    refine ⟨1, exists_start s, fun s' run enough => ?_⟩
    rcases followed fixed run with ⟨hstarted, -⟩ | ⟨rest, hstarted, -, -⟩
    · rw [hstarted] at enough
      omega
    · refine ⟨⟨s.upcoming, s.session.nextSessionStartTime⟩, ?_, rfl, rfl⟩
      rw [hstarted, List.drop_left]
      exact List.mem_cons_self

end Runs

section Catchup

variable {kind : SessionKind} {params : SigningParams} {s : State}

/-- The identifier is that of a session of the chain; one with an underscore never moves. -/
structure Identified (params : SigningParams) (s : State) : Prop where
  plain : underscore ∉ params.chainId → ∃ n, wrapInt64 n = n ∧
    s.session.sessionId = getConcreteSigningSessionIdentifier params.chainId n
  divided : underscore ∈ params.chainId →
    s.session.sessionId = getConcreteSigningSessionIdentifier params.chainId params.id

theorem identified (reached : (machine kind params).Reaches s) : Identified params s := by
  apply reached.invariant
  · rintro _ rfl
    exact ⟨fun _ => ⟨params.id, params.inRange, rfl⟩, fun _ => rfl⟩
  · intro s label s' _ held _ taken
    cases stepped_of_step taken with
    | start waiting => exact ⟨held.plain, held.divided⟩
    | update inputsToSign varying running down => exact ⟨held.plain, held.divided⟩
    | finish running =>
        refine ⟨fun plain => ?_, fun divided => ?_⟩
        · obtain ⟨n, inRange, hid⟩ := held.plain plain
          refine ⟨wrapInt64 (n + 1), wrapInt64_wrapInt64 _, ?_⟩
          simp only [Session.incrementSessionId, hid]
          exact increment_of_notMem plain inRange
        · simp only [Session.incrementSessionId, held.divided divided]
          exact increment_of_mem divided params.id

/-- The party says nothing about its next start. -/
def State.Withheld (kind : SessionKind) (s : State) : Prop :=
  (kind = .utxo ∧ s.session.nextSessionStartTimeConstant = false) ∨
    unixMilli s.session.nextSessionStartTime = 0

/-- A session of the loop is running; or the chain identifier is divided by an underscore, and
the part after it happens to be the number before the session's. -/
def State.Ahead (params : SigningParams) (s : State) : Prop :=
  (underscore ∉ params.chainId ∧ s.phase = .running) ∨
    (underscore ∈ params.chainId ∧ ∃ g,
      getSessionId (getConcreteSigningSessionIdentifier params.chainId params.id) = .ok g ∧
      wrapInt64 (g + 1) = params.id)

theorem ahead_iff (held : Identified params s) {g : Int}
    (hget : getSessionId s.session.sessionId = .ok g) :
    getConcreteSigningSessionIdentifier params.chainId (wrapInt64 (g + 1)) = s.upcoming ↔
      s.Ahead params := by
  by_cases divided : underscore ∈ params.chainId
  · have hid := held.divided divided
    have hupcoming : s.upcoming =
        getConcreteSigningSessionIdentifier params.chainId params.id := by
      unfold State.upcoming
      split
      · exact hid
      · rw [hid, increment_of_mem divided]
    rw [hid] at hget
    simp only [State.Ahead, divided, not_true_eq_false, false_and, true_and, false_or, hget,
      Except.ok.injEq, exists_eq_left', hupcoming]
    exact ⟨fun h => (identifier_inj h).2, fun h => by rw [h]⟩
  · obtain ⟨n, inRange, hid⟩ := held.plain divided
    rw [hid, getSessionId_of_notMem divided inRange] at hget
    cases hget
    simp only [State.Ahead, divided, not_false_eq_true, true_and, false_and, or_false]
    cases hphase : s.phase with
    | running => simp [State.upcoming, hphase, hid, increment_of_notMem divided inRange]
    | waiting =>
        simp only [State.upcoming, hphase, hid, reduceCtorEq, iff_false]
        intro heq
        have := (identifier_inj heq).2
        unfold wrapInt64 at this
        omega

/-- What another party derives from the session information is a session this party will start
exactly when the information is withheld or a session is running. -/
theorem catchup_iff (reached : (machine kind params).Reaches s) :
    ∃ info, s.session.signingSessionInfo kind params = .ok info ∧
      ((info.nextSessionStartTime ≠ 0 → WillStart kind params s
          (getConcreteSigningSessionIdentifier (paramsFromSigningSessionInfo info).chainId
            (paramsFromSigningSessionInfo info).id)
          (unixMilli (paramsFromSigningSessionInfo info).startTime)) ↔
        s.Withheld kind ∨ s.Ahead params) := by
  have held := identified reached
  obtain ⟨g, hget⟩ : ∃ g, getSessionId s.session.sessionId = .ok g := by
    by_cases divided : underscore ∈ params.chainId
    · rw [held.divided divided]
      exact getSessionId_isOk _ _
    · obtain ⟨n, -, hid⟩ := held.plain divided
      rw [hid]
      exact getSessionId_isOk _ _
  by_cases hdown : kind = .utxo ∧ s.session.nextSessionStartTimeConstant = false
  · refine ⟨⟨g, 0, params.threshold, params.chainId⟩, ?_, ?_⟩
    · simp [Session.signingSessionInfo, toSigningSessionInfo, hget, hdown]
    · simp [State.Withheld, hdown]
  · refine ⟨⟨g, unixMilli s.session.nextSessionStartTime, params.threshold, params.chainId⟩, ?_, ?_⟩
    · simp [Session.signingSessionInfo, toSigningSessionInfo, hget, hdown]
    · have fixed : s.Fixed kind := by
        intro hkind _
        simpa [hkind] using hdown
      have hms : unixMilli (timeOfUnixMilli (unixMilli s.session.nextSessionStartTime)) =
          unixMilli s.session.nextSessionStartTime := by
        unfold unixMilli timeOfUnixMilli millisecond
        omega
      simp only [paramsFromSigningSessionInfo, hms, willStart_iff fixed, ahead_iff held hget,
        State.Withheld, hdown, false_or]
      by_cases hzero : unixMilli s.session.nextSessionStartTime = 0
      · simp [hzero]
      · simp [hzero]

end Catchup

/-! ## One session too far -/

def sampleRun (kind : SessionKind) (labels : List Label) : Option State :=
  (machine kind sampleParams).exec (fun _ _ => True) ⟨newSession sampleParams, .waiting, []⟩ labels

theorem sampleRun_reaches {kind : SessionKind} {labels : List Label} {s : State}
    (run : sampleRun kind labels = some s) : (machine kind sampleParams).Reaches s :=
  (Machine.Reachable.init rfl).exec run

theorem catchup_while_running :
    ∃ s, (machine .evm sampleParams).Reaches s ∧ s.phase = .running ∧
      s.session.signingSessionInfo .evm sampleParams = .ok ⟨1, 1040000, 1, str "btc"⟩ ∧
      WillStart .evm sampleParams s (str "SIGN_btc_2") 1040000 := by
  have hrun : (sampleRun .evm [.start]).map (fun s =>
      (s.phase, s.session.signingSessionInfo .evm sampleParams)) =
        some (.running, .ok ⟨1, 1040000, 1, str "btc"⟩) := by decide +kernel
  obtain ⟨s, hs, heq⟩ := Option.map_eq_some_iff.mp hrun
  simp only [Prod.mk.injEq] at heq
  obtain ⟨running, hinfo⟩ := heq
  obtain ⟨info, hinfo', hiff⟩ := catchup_iff (sampleRun_reaches hs)
  cases hinfo.symm.trans hinfo'
  have plain : underscore ∉ sampleParams.chainId := by decide
  have announced := hiff.mpr (.inr (.inl ⟨plain, running⟩)) (by decide)
  refine ⟨s, sampleRun_reaches hs, running, hinfo, ?_⟩
  have hparams : getConcreteSigningSessionIdentifier (str "btc") (wrapInt64 (1 + 1)) =
      str "SIGN_btc_2" := by decide +kernel
  rw [← hparams]
  exact announced

/-- A party that waits starts its own session next, at the time it waits for. -/
theorem not_willStart_of_waiting {kind : SessionKind} {params : SigningParams} {s : State}
    {sessionId : GoString} {ms : Int} (waiting : s.phase = .waiting)
    (other : sessionId ≠ s.session.sessionId)
    (hms : ms = unixMilli s.session.nextSessionStartTime) :
    ¬ WillStart kind params s sessionId ms := by
  have fixed : s.Fixed kind := by
    intro _ running
    cases waiting.symm.trans running
  rw [hms, willStart_iff fixed]
  simpa only [State.upcoming, waiting] using other

/-- Between two sessions an EVM party announces the session after the next one for the start of
the next one, and so does a UTXO party after a session with data. -/
theorem catchup_while_waiting :
    (∃ s, (machine .evm sampleParams).Reaches s ∧
      s.session.signingSessionInfo .evm sampleParams = .ok ⟨2, 1040000, 1, str "btc"⟩ ∧
      s.session.sessionId = str "SIGN_btc_2" ∧ s.session.nextSessionStartTime = 1040 * second ∧
      ¬ WillStart .evm sampleParams s (str "SIGN_btc_3") 1040000) ∧
    ∃ s, (machine .utxo sampleParams).Reaches s ∧
      s.session.signingSessionInfo .utxo sampleParams = .ok ⟨2, 1053500, 1, str "btc"⟩ ∧
      s.session.sessionId = str "SIGN_btc_2" ∧
      s.session.nextSessionStartTime = 1053500 * millisecond ∧
      ¬ WillStart .utxo sampleParams s (str "SIGN_btc_3") 1053500 := by
  have hevm : (sampleRun .evm [.start, .finish]).map (fun s =>
      (s.phase, s.session.signingSessionInfo .evm sampleParams, s.session.sessionId,
        s.session.nextSessionStartTime)) = some (.waiting, .ok ⟨2, 1040000, 1, str "btc"⟩,
          str "SIGN_btc_2", 1040 * second) := by decide +kernel
  have hutxo : (sampleRun .utxo [.start, .update 2, .finish]).map (fun s =>
      (s.phase, s.session.signingSessionInfo .utxo sampleParams, s.session.sessionId,
        s.session.nextSessionStartTime)) = some (.waiting, .ok ⟨2, 1053500, 1, str "btc"⟩,
          str "SIGN_btc_2", 1053500 * millisecond) := by decide +kernel
  obtain ⟨s, hs, heq⟩ := Option.map_eq_some_iff.mp hevm
  obtain ⟨s', hs', heq'⟩ := Option.map_eq_some_iff.mp hutxo
  simp only [Prod.mk.injEq] at heq heq'
  obtain ⟨waiting, hinfo, hid, hnext⟩ := heq
  obtain ⟨waiting', hinfo', hid', hnext'⟩ := heq'
  have hother : str "SIGN_btc_3" ≠ str "SIGN_btc_2" := by decide
  have hms : (1040000 : Int) = unixMilli s.session.nextSessionStartTime := by
    rw [hnext]
    decide
  have hms' : (1053500 : Int) = unixMilli s'.session.nextSessionStartTime := by
    rw [hnext']
    decide
  exact ⟨⟨s, sampleRun_reaches hs, hinfo, hid, hnext,
      not_willStart_of_waiting waiting (by rwa [hid]) hms⟩,
    ⟨s', sampleRun_reaches hs', hinfo', hid', hnext',
      not_willStart_of_waiting waiting' (by rwa [hid']) hms'⟩⟩

end TssSvc.Schedule
