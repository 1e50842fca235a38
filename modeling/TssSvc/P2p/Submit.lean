import TssSvc.P2p.Registry

/-!
# Authorisation of requests

`Server.Submit` (`internal/p2p/server.go`) and the parties' certificates (`internal/p2p/mtls.go`).
The server identifies a peer by the public key of its first certificate, compares the party with the
sender the request names, and hands the request to the session manager.
-/

set_option autoImplicit false

namespace TssSvc.P2p

open TssSvc.Bridge
open TssSvc.Broadcast (Address)
open TssSvc.Session (SubmitRequest Fallible)

/-! ## Certificates -/

/-- What is read of an `x509.Certificate`: its public key as `MarshalPKIXPublicKey` prints it, or
the text of the error. -/
structure Certificate where
  publicKey : Except GoString Bytes

/-- `pem.Decode`, `x509.ParseCertificate` and `CertPool.AppendCertsFromPEM`. -/
structure X509 where
  decodePem : Bytes → Option Bytes
  parseCertificate : Bytes → Except GoString Certificate
  appendCertsFromPem : Bytes → Bool

structure CertifiedParty where
  coreAddress : Address
  pemCert : Bytes
  deriving DecidableEq, Repr

abbrev AuthorizedParties := AList fun _ : Bytes => Address

def AuthorizedParties.add (p : AuthorizedParties) (cert : Certificate) (addr : Address) :
    Fallible AuthorizedParties :=
  match cert.publicKey with
  | .ok pubkeyRaw => .ok (p.insert pubkeyRaw addr)
  | .error text => .err (GoError.wrap (str "failed to marshal certificate public key") ⟨none, text⟩)

def AuthorizedParties.get (p : AuthorizedParties) (cert : Certificate) : Option Address :=
  match cert.publicKey with
  | .ok pubkeyRaw => p.lookup pubkeyRaw
  | .error _ => none

section Configure

variable (x509 : X509)

def parsePemCertificate (pemCert : Bytes) : Fallible Certificate := do
  let block ← Outcome.ofOption (.new "invalid PEM block") (x509.decodePem pemCert)
  match x509.parseCertificate block with
  | .ok cert => .ok cert
  | .error text => .err (GoError.wrap (str "failed to parse certificate") ⟨none, text⟩)

/-- A party's address as the error texts quote it. -/
def quoted (address : Address) : GoString := str "\"" ++ address ++ str "\""

def Fallible.wrapText {α : Type} (context : GoString) (x : Fallible α) : Fallible α :=
  x.mapErr (GoError.wrap context)

def addParty (authorized : AuthorizedParties) (party : CertifiedParty) :
    Fallible AuthorizedParties := do
  Outcome.check (x509.appendCertsFromPem party.pemCert)
    ⟨none, str "invalid PEM certificate for party " ++ quoted party.coreAddress⟩
  let cert ← Fallible.wrapText
    (str "failed to parse certificate for party " ++ quoted party.coreAddress)
    (parsePemCertificate x509 party.pemCert)
  Fallible.wrapText
    (str "failed to add party " ++ quoted party.coreAddress ++ str " to authorized parties")
    (authorized.add cert party.coreAddress)

/-- `ConfigurePartiesCertPool`; the pool itself is the TLS library's. -/
def configurePartiesCertPool (parties : List CertifiedParty) : Fallible AuthorizedParties :=
  parties.foldlM (addParty x509) ∅

/-- The public key in a party's configured certificate. -/
def CertifiedParty.key (party : CertifiedParty) : Option Bytes :=
  ((x509.decodePem party.pemCert).bind fun block =>
    (x509.parseCertificate block).toOption).bind fun cert => cert.publicKey.toOption

end Configure

/-! ## Submit -/

inductive GrpcCode where
  | invalidArgument
  | internal
  | unauthenticated
  | permissionDenied
  deriving DecidableEq, Repr

structure GrpcStatus where
  code : GrpcCode
  message : GoString
  deriving DecidableEq, Repr

/-- The peer of a call, as far as its context has one. -/
inductive Peer where
  | unknown
  | plain
  | tls (peerCertificates : List Certificate)

def authorizeParty (authorized : AuthorizedParties) : Peer → Outcome GrpcStatus (Option Address)
  | .unknown => .err ⟨.internal, str "internal server error"⟩
  | .plain => .err ⟨.unauthenticated, str "no tls info found"⟩
  | .tls [] => .err ⟨.unauthenticated, str "no client certificate found"⟩
  | .tls (clientCert :: _) => .ok (authorized.get clientCert)

section Submit

variable {D : Type}

/-- The session `Submit` hands a request to. -/
def submitTarget (authorized : AuthorizedParties) (sessions : Sessions) (peer : Peer)
    (request : Option (SubmitRequest D)) : Outcome GrpcStatus (Handle × SubmitRequest D) := do
  let request ← Outcome.ofOption ⟨.invalidArgument, str "request is nil"⟩ request
  let authorizedParty ← authorizeParty authorized peer
  let party ← Outcome.ofOption
    ⟨.permissionDenied, str "party is not in authorized parties list"⟩ authorizedParty
  Outcome.check (party = request.sender)
    ⟨.permissionDenied, str "party is not authorized to send this request"⟩
  let session ← Outcome.ofOption
    ⟨.invalidArgument, str "session not found"⟩ (sessions.lookup request.sessionId)
  return (session, request)

/-- `receive` is the `Receive` of the sessions. -/
def submit (authorized : AuthorizedParties) (sessions : Sessions)
    (receive : Handle → SubmitRequest D → Fallible Unit) (peer : Peer)
    (request : Option (SubmitRequest D)) : Outcome GrpcStatus Unit := do
  let (session, request) ← submitTarget authorized sessions peer request
  (receive session request).mapErr fun e => ⟨.invalidArgument, e.text⟩

end Submit

/-! ## Who is authorised -/

section Authorised

variable {x509 : X509} {authorized authorized' : AuthorizedParties} {parties : List CertifiedParty}

theorem addParty_eq_ok {party : CertifiedParty}
    (h : addParty x509 authorized party = .ok authorized') :
    ∃ key, party.key x509 = some key ∧ authorized' = authorized.insert key party.coreAddress := by
  simp only [addParty, Fallible.wrapText, Outcome.bind_eq_ok, Outcome.mapErr_eq_ok,
    parsePemCertificate, Outcome.ofOption_eq_ok] at h
  obtain ⟨-, -, cert, ⟨block, hblock, hparse⟩, hadd⟩ := h
  cases hcert : x509.parseCertificate block with
  | error text =>
      rw [hcert] at hparse
      cases hparse
  | ok parsed =>
      rw [hcert] at hparse
      cases hparse
      cases hkey : cert.publicKey with
      | error text =>
          simp only [AuthorizedParties.add, hkey] at hadd
          cases hadd
      | ok key =>
          simp only [AuthorizedParties.add, hkey, Outcome.ok.injEq] at hadd
          refine ⟨key, ?_, hadd.symm⟩
          simp [CertifiedParty.key, hblock, hcert, hkey, Except.toOption]

/-- The last party with a key is the one that is authorised by it. -/
theorem foldlM_lookup (key : Bytes) :
    ∀ (parties : List CertifiedParty) (authorized authorized' : AuthorizedParties),
      parties.foldlM (addParty x509) authorized = .ok authorized' →
      authorized'.lookup key =
        ((parties.reverse.find? fun party => party.key x509 = some key).map
          CertifiedParty.coreAddress).or (authorized.lookup key) := by
  intro parties
  induction parties with
  | nil =>
      intro authorized authorized' h
      cases h
      rfl
  | cons party parties ih =>
      intro authorized authorized' h
      rw [List.foldlM_cons, Outcome.bind_eq_ok] at h
      obtain ⟨next, hnext, hrest⟩ := h
      obtain ⟨own, hown, rfl⟩ := addParty_eq_ok hnext
      rw [ih _ _ hrest, List.reverse_cons, List.find?_append]
      cases (parties.reverse.find? fun party => decide (party.key x509 = some key)) with
      | some later => rfl
      | none =>
          by_cases hkey : own = key
          · subst hkey
            simp [AList.lookup_insert, hown]
          · simp [AList.lookup_insert_ne (Ne.symm hkey), hown, hkey]

theorem configured_lookup (h : configurePartiesCertPool x509 parties = .ok authorized)
    (key : Bytes) :
    authorized.lookup key = (parties.reverse.find? fun party => party.key x509 = some key).map
      CertifiedParty.coreAddress := by
  rw [foldlM_lookup key parties ∅ authorized h, AList.lookup_empty, Option.or_none]

theorem authorizeParty_eq_ok {peer : Peer} {address : Address} :
    authorizeParty authorized peer = .ok (some address) ↔
      ∃ cert rest key, peer = .tls (cert :: rest) ∧ cert.publicKey = .ok key ∧
        authorized.lookup key = some address := by
  cases peer with
  | unknown => simp [authorizeParty]
  | plain => simp [authorizeParty]
  | tls certificates =>
      cases certificates with
      | nil => simp [authorizeParty]
      | cons cert rest =>
          cases hkey : cert.publicKey with
          | error text => simp [authorizeParty, AuthorizedParties.get, hkey]
          | ok key => simp [authorizeParty, AuthorizedParties.get, hkey]

theorem submitTarget_eq_ok {D : Type} {sessions : Sessions} {peer : Peer}
    {request : Option (SubmitRequest D)} {session : Handle} {handed : SubmitRequest D} :
    submitTarget authorized sessions peer request = .ok (session, handed) ↔
      request = some handed ∧ sessions.lookup handed.sessionId = some session ∧
        authorizeParty authorized peer = .ok (some handed.sender) := by
  simp only [submitTarget, Outcome.bind_eq_ok, Outcome.ofOption_eq_ok, Outcome.check_eq_ok,
    Outcome.pure_eq_ok, Outcome.ok.injEq, Prod.mk.injEq]
  constructor
  · rintro ⟨request, hrequest, party, hparty, address, rfl, -, rfl, found, hfound, rfl, rfl⟩
    exact ⟨hrequest, hfound, hparty⟩
  · rintro ⟨hrequest, hfound, hparty⟩
    exact ⟨handed, hrequest, _, hparty, _, rfl, (), rfl, session, hfound, rfl, rfl⟩

/-- `Submit` succeeds when the session has taken the request. -/
theorem submit_eq_ok {D : Type} {sessions : Sessions}
    {receive : Handle → SubmitRequest D → Fallible Unit} {peer : Peer}
    {request : Option (SubmitRequest D)} :
    submit authorized sessions receive peer request = .ok () ↔
      ∃ session handed, submitTarget authorized sessions peer request = .ok (session, handed) ∧
        receive session handed = .ok () := by
  simp only [submit, Outcome.bind_eq_ok, Outcome.mapErr_eq_ok, Prod.exists]

/-- A party whose key no other party has is authorised by it. -/
theorem find?_of_own_key {party : CertifiedParty} {key : Bytes} (listed : party ∈ parties)
    (own : ∀ other ∈ parties, other.key x509 = some key → other = party)
    (hkey : party.key x509 = some key) :
    (parties.reverse.find? fun party => party.key x509 = some key) = some party := by
  cases hfound : parties.reverse.find? fun party => decide (party.key x509 = some key) with
  | none =>
      have hnone := List.find?_eq_none.mp hfound party (List.mem_reverse.mpr listed)
      exact absurd (decide_eq_true hkey) hnone
  | some other =>
      have hmem := List.mem_reverse.mp (List.mem_of_find?_eq_some hfound)
      have hother := List.find?_some hfound
      rw [own other hmem (of_decide_eq_true hother)]

end Authorised

section Authentic

variable {D : Type} {r : Registry} {x509 : X509} {parties : List CertifiedParty}
  {authorized : AuthorizedParties}

/-- At any time: a request is handed to a session only if the peer has proved the key of the party
it names as its sender, the last one configured with that key, and only to the session whose id it
names; it is accepted when that session takes it.  A party with a key of its own reaches every
session that was added and is not changing its id. -/
theorem submit_authentic (reached : registry.Reaches r)
    (configured : configurePartiesCertPool x509 parties = .ok authorized) :
    (∀ peer (request : Option (SubmitRequest D)) session handed,
      submitTarget authorized r.sessions peer request = .ok (session, handed) →
        request = some handed ∧
        (∃ cert rest key party, peer = .tls (cert :: rest) ∧ cert.publicKey = .ok key ∧
          (parties.reverse.find? fun party => party.key x509 = some key) = some party ∧
          party.coreAddress = handed.sender) ∧
        (session = .distribution ∧ handed.sessionId = Distributor.sessionIdentifier ∨
          ∃ chainId, session = .signing chainId ∧ r.registered chainId = true ∧
            (handed.sessionId = r.current chainId ∨
              r.changing chainId = some handed.sessionId))) ∧
    (∀ receive peer (request : Option (SubmitRequest D)),
      submit authorized r.sessions receive peer request = .ok () ↔
        ∃ session handed, submitTarget authorized r.sessions peer request = .ok (session, handed) ∧
          receive session handed = .ok ()) ∧
    ∀ cert rest key, cert.publicKey = .ok key → ∀ party ∈ parties, party.key x509 = some key →
      (∀ other ∈ parties, other.key x509 = some key → other = party) →
      ∀ chainId, r.registered chainId = true → r.changing chainId = none →
        ∀ request : SubmitRequest D, request.sender = party.coreAddress →
          request.sessionId = r.current chainId →
          submitTarget authorized r.sessions (.tls (cert :: rest)) (some request) =
            .ok (.signing chainId, request) := by
  have hok : Listed r.sessions r.current r.registered r.changing := reaches_registryOk reached
  refine ⟨?_, fun receive peer request => submit_eq_ok, ?_⟩
  · intro peer request session handed h
    obtain ⟨hrequest, hlisted, hparty⟩ := submitTarget_eq_ok.mp h
    refine ⟨hrequest, ?_, ?_⟩
    · obtain ⟨cert, rest, key, hpeer, hkey, haddress⟩ := authorizeParty_eq_ok.mp hparty
      rw [configured_lookup configured] at haddress
      obtain ⟨party, hfound, hsender⟩ := Option.map_eq_some_iff.mp haddress
      exact ⟨cert, rest, key, party, hpeer, hkey, hfound, hsender⟩
    · cases session with
      | signing chainId => exact .inr ⟨chainId, rfl, hok.signing _ chainId hlisted⟩
      | distribution => exact .inl ⟨rfl, hok.distribution _ hlisted⟩
  · intro cert rest key hcert party hmem hkey hown chainId hregistered hidle request hsender hid
    apply submitTarget_eq_ok.mpr
    refine ⟨rfl, ?_, authorizeParty_eq_ok.mpr ⟨cert, rest, key, rfl, hcert, ?_⟩⟩
    · rw [hid]
      exact hok.lookup_current hregistered hidle
    · rw [configured_lookup configured, find?_of_own_key hmem hown hkey, Option.map_some, hsender]

/-- Two parties with the keys `1` and `2`. -/
def sampleX509 : X509 where
  decodePem := some
  parseCertificate := fun block => .ok ⟨.ok block⟩
  appendCertsFromPem := fun _ => true

def sampleParties : List CertifiedParty := [⟨str "a", [1]⟩, ⟨str "b", [2]⟩]

def sampleRequest : SubmitRequest Unit := ⟨str "b", str "SIGN_1_5", .proposal, ()⟩

theorem submit_authentic_added :
    ∃ r authorized, registry.Reaches r ∧
      configurePartiesCertPool sampleX509 sampleParties = .ok authorized ∧
      submitTarget authorized r.sessions (.tls [⟨.ok [2]⟩]) (some sampleRequest) =
        .ok (.signing (str "1"), sampleRequest) ∧
      ∃ party ∈ sampleParties, party.coreAddress = sampleRequest.sender := by
  have hrun : (registry.exec (fun _ _ => True) freshRegistry [.add (str "1")]).map (fun r =>
      (r.current (str "1"), r.registered (str "1"), r.changing (str "1"))) =
      some (str "SIGN_1_5", true, none) := by
    decide +kernel
  obtain ⟨r, hr, hseen⟩ := Machine.exists_reachable freshRegistry_init hrun
  simp only [Prod.mk.injEq] at hseen
  obtain ⟨hcurrent, hregistered, hidle⟩ := hseen
  have hconfigured : ∃ authorized,
      configurePartiesCertPool sampleX509 sampleParties = .ok authorized := ⟨_, rfl⟩
  obtain ⟨authorized, hauthorized⟩ := hconfigured
  have hhanded := (submit_authentic hr hauthorized).2.2 ⟨.ok [2]⟩ [] [2] rfl ⟨str "b", [2]⟩
    (by decide) rfl (by decide) (str "1") hregistered hidle sampleRequest rfl hcurrent.symm
  exact ⟨r, authorized, hr, hauthorized, hhanded, ⟨str "b", [2]⟩, by decide, rfl⟩

end Authentic

end TssSvc.P2p
