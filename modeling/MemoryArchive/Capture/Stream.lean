import Mathlib.Data.List.Infix
import MemoryArchive.Capture.Wire
import MemoryArchive.Data.Attempts

namespace MemoryArchive.Capture.Stream

open Attempts

/-- The oldest and the newest server that are supported. -/
def supportedMin : Version := ⟨1, 0, 0⟩

def supportedMax : Version := ⟨1, 3, 0⟩

/-- A server's version checked against the supported ones. -/
inductive Compat
  | supported (found : Version)
  | tooNew (found max : Version)
  | tooOld (found min : Version)
  | unknown (reported : String)

/-- An override of the newest supported version only raises it. -/
def evaluate (reported : String) (maxOverride : Option Version) : Compat :=
  let max := maxOverride.getD supportedMax
  let max := if max.lt supportedMax then supportedMax else max
  match Version.parse reported with
  | none => .unknown reported
  | some found =>
      if max.lt found then .tooNew found max
      else if found.lt supportedMin then .tooOld found supportedMin
      else .supported found

def Compat.refusal : Compat → Option String
  | supported _ | unknown _ => none
  | tooNew found max => some <|
      "Control-Center " ++ found.text ++ " is newer than this build of Memory Archive has been " ++
      "verified against (up to " ++ max.text ++ "). Refusing to record rather than risk a silent " ++
      "mismatch: a field can change meaning without changing on the wire, as " ++
      "`position_captured` did in 1.2.0, and the result is a session that records " ++
      "confidently and wrongly. Either run Control-Center " ++ max.text ++ ", update Memory " ++
      "Archive (`memory-archive update`) to a build that lists " ++ found.text ++ " as supported, " ++
      "or — once the release notes confirm the command stream is unchanged — set " ++
      "`control_center_max_version = \"" ++ found.text ++ "\"`. To bypass the gate entirely, set " ++
      "`control_center_allow_unsupported = true`."
  | tooOld found min => some <|
      "Control-Center " ++ found.text ++ " is older than the oldest release Memory Archive " ++
      "supports (" ++ min.text ++ "). Upgrade Control-Center, or set " ++
      "`control_center_allow_unsupported = true` to record anyway."

/-- The version that the metadata of the session names. -/
def Compat.recorded : Compat → String
  | supported found | tooNew found _ | tooOld found _ => found.text
  | unknown raw => String.ofList (Lines.trim raw.toList)

inductive CcSecurity
  | auto
  | strict
  | legacy
  deriving DecidableEq

inductive Transport
  | tls
  | plaintext
  deriving DecidableEq

/-- The transports to attempt, in order. -/
def transportPlan : CcSecurity → List Transport
  | .auto => [.tls, .plaintext]
  | .strict => [.tls]
  | .legacy => [.plaintext]

def Transport.scheme : Transport → Text
  | .tls => "https://".toList
  | .plaintext => "http://".toList

/-- Force the scheme of the transport on an address. -/
def normalizeAddr (addr : Text) (transport : Transport) : Text :=
  let bare :=
    if Transport.tls.scheme.isPrefixOf addr then addr.drop Transport.tls.scheme.length
    else if Transport.plaintext.scheme.isPrefixOf addr then addr.drop Transport.plaintext.scheme.length
    else addr
  transport.scheme ++ bare

structure CcEndpoint where
  addr : Text
  tlsCa : String
  token : String
  security : CcSecurity
  maxVersion : String
  allowUnsupported : Bool

/-- The codes of a gRPC status other than success. -/
inductive Code
  | cancelled
  | unknown
  | invalidArgument
  | deadlineExceeded
  | notFound
  | alreadyExists
  | permissionDenied
  | resourceExhausted
  | failedPrecondition
  | aborted
  | outOfRange
  | unimplemented
  | internal
  | unavailable
  | dataLoss
  | unauthenticated
  deriving DecidableEq

/-- How a request failed: the server answered with a status, or the connection was lost
and the client made the status. -/
structure Status where
  code : Code
  codeText : String
  text : String
  lost : Bool
  deriving DecidableEq

/-- The status says that the credentials do not suffice. -/
def Status.deniesCredentials (status : Status) : Bool :=
  status.code = .unauthenticated || status.code = .permissionDenied

/-- What an attempt to connect meets: the errors of the address, of the file of the
certificate authority, of the TLS configuration and of the connection, and the answers
to the version query and to the subscription. -/
structure Outcome where
  addressError : Option String
  caError : Option String
  tlsError : Option String
  connectError : Option String
  identity : Except Status String
  subscription : Except Status Unit

inductive ConnectFailure
  | transport (detail : String)
  | auth (status : Status)
  | unsupported (message : String)
  deriving DecidableEq

/-- A failure that no retry can mend. -/
def ConnectFailure.fatal : ConnectFailure → Bool
  | transport _ => false
  | auth _ | unsupported _ => true

/-- What tells that the certificate of the server was not trusted. -/
def untrusted : List Text :=
  ["UnknownIssuer".toList, "CERTIFICATE_VERIFY_FAILED".toList, "InvalidCertificate".toList]

def transportHint (detail : String) (attempted : Transport) : String :=
  if untrusted.any fun mark => decide (mark <:+: detail.toList) then
    "the server certificate was not trusted — point `control_center_tls_ca` " ++
      "at the CA that signed it (`control-center gen-certs` writes ca.crt)"
  else if attempted = .plaintext then
    "the server refused a plaintext connection — Control-Center 1.1.0 and " ++
      "later require TLS unless started with CC_ALLOW_INSECURE=true"
  else
    "could not establish a TLS connection — check that Control-Center is " ++
      "running and reachable at this address"

def ConnectFailure.intoReport (addr : Text) (attempted : Transport) : ConnectFailure → String
  | unsupported message => message
  | auth status =>
      "Control-Center rejected the credentials for WatchCommands (" ++ status.codeText ++ "). " ++
      "Version 1.1.0 and later require a token with the `monitor` scope — " ++
      "set `control_center_token` in the ma-core config. Mint one with: " ++
      "CC_JWT_SECRET=<cc jwt_secret> control-center token generate " ++
      "--user ma-core --scopes monitor"
  | transport detail =>
      "Failed to reach Control-Center at " ++ String.ofList addr ++ ": " ++ transportHint detail attempted ++
        " (" ++ detail ++ ")"

def firstTransport : CcSecurity → Transport
  | .legacy => .plaintext
  | .auto | .strict => .tls

inductive Rpc
  | getServerIdentity
  | watchCommands
  deriving DecidableEq

/-- A request, with its `authorization` header and how it failed. -/
structure Request where
  rpc : Rpc
  authorization : Option String
  answer : Except Status String

inductive Connection
  | unprepared
  | failed
  | established
  deriving DecidableEq

/-- An attempt on one transport: how far it got and what it sent. -/
structure Attempt where
  transport : Transport
  uri : Text
  connection : Connection
  requests : List Request
  result : Except ConnectFailure String

section Connect

variable (headerValue : String → Bool) (cc : CcEndpoint)

def bearer : String := "Bearer " ++ cc.token

/-- Whether a transport may carry the token. -/
def credentialsAllowed (transport : Transport) : Bool :=
  transport = .tls || cc.security = .legacy

/-- What keeps an attempt from opening a connection. -/
def prepare (transport : Transport) (o : Outcome) : Option String :=
  (o.addressError.map fun e =>
      "Invalid Control-Center address: " ++ String.ofList (normalizeAddr cc.addr transport) ++ ": " ++ e) <|>
    match transport with
    | .tls =>
        ((if cc.tlsCa = "" then none else o.caError).map fun e =>
            "Cannot read control_center_tls_ca: " ++ cc.tlsCa ++ ": " ++ e) <|>
          o.tlsError.map fun e => "Failed to configure TLS for the Control-Center connection: " ++ e
    | .plaintext => none

/-- The version query. A failed answer is taken for an unknown version. -/
def checkVersion (allowed : Bool) (answer : Except Status String) :
    Request × Except ConnectFailure String :=
  let authorization :=
    if allowed ∧ cc.token ≠ "" ∧ headerValue (bearer cc) then some (bearer cc) else none
  let verdict := evaluate (answer.toOption.getD "") (Version.parse cc.maxVersion)
  (⟨.getServerIdentity, authorization, answer⟩,
    match verdict.refusal with
    | some refusal =>
        if cc.allowUnsupported then .ok verdict.recorded else .error (.unsupported refusal)
    | none => .ok verdict.recorded)

/-- The header of the subscription, which has to be valid. -/
def subscriptionHeader (allowed : Bool) : Except ConnectFailure (Option String) :=
  if cc.token = "" then .ok none
  else if allowed then
    if headerValue (bearer cc) then .ok (some (bearer cc))
    else .error (.transport "control_center_token is not a valid HTTP header value")
  else .ok none

def refused (status : Status) : ConnectFailure :=
  if status.deniesCredentials then .auth status
  else .transport ("WatchCommands stream refused: " ++ status.text)

/-- The requests on an open connection. -/
def subscribe (transport : Transport) (o : Outcome) : List Request × Except ConnectFailure String :=
  let allowed := credentialsAllowed cc transport
  let (identity, version) := checkVersion headerValue cc allowed o.identity
  match version with
  | .error e => ([identity], .error e)
  | .ok serverVersion =>
      match subscriptionHeader headerValue cc allowed with
      | .error e => ([identity], .error e)
      | .ok authorization =>
          ([identity, ⟨.watchCommands, authorization, o.subscription.map fun _ => ""⟩],
            match o.subscription with
            | .ok () => .ok serverVersion
            | .error status => .error (refused status))

/-- A single attempt on one transport. -/
def tryConnect (transport : Transport) (o : Outcome) : Attempt :=
  let uri := normalizeAddr cc.addr transport
  match prepare cc transport o with
  | some e => ⟨transport, uri, .unprepared, [], .error (.transport e)⟩
  | none =>
      match o.connectError with
      | some e =>
          ⟨transport, uri, .failed, [], .error (.transport
            ("Failed to connect to Control-Center at " ++ String.ofList uri ++ ": " ++ e))⟩
      | none =>
          let (requests, result) := subscribe headerValue cc transport o
          ⟨transport, uri, .established, requests, result⟩

/-- Try each transport of the plan, with the last failure so far. -/
def negotiateFrom (o : Transport → Outcome) :
    Option ConnectFailure → List Transport → List Attempt × Except ConnectFailure (Transport × String)
  | last, [] => ([], .error (last.getD (.transport "no transport permitted by the security policy")))
  | _, transport :: plan =>
      let attempt := tryConnect headerValue cc transport (o transport)
      match attempt.result with
      | .ok serverVersion => ([attempt], .ok (transport, serverVersion))
      | .error (.auth status) => ([attempt], .error (.auth status))
      | .error (.unsupported message) => ([attempt], .error (.unsupported message))
      | .error other =>
          let (attempts, result) := negotiateFrom o (some other) plan
          (attempt :: attempts, result)

def negotiate (o : Transport → Outcome) : List Attempt × Except ConnectFailure (Transport × String) :=
  negotiateFrom headerValue cc o none (transportPlan cc.security)

def maxAttempts : Nat := 10

/-- Negotiate, and again after a failure that is not fatal while a retry is left. -/
def connectFrom (o : Nat → Transport → Outcome) (attempt : Nat) (left : Nat) :
    List (List Attempt) × Except String (Transport × String) :=
  let (attempts, result) := negotiate headerValue cc (o attempt)
  match result with
  | .ok connected => ([attempts], .ok connected)
  | .error e =>
      let report := e.intoReport cc.addr (firstTransport cc.security)
      if e.fatal then ([attempts], .error report)
      else
        match left with
        | 0 => ([attempts], .error report)
        | left + 1 =>
            let (negotiations, result) := connectFrom o (attempt + 1) left
            (attempts :: negotiations, result)

/-- The negotiations of `WatchStream::connect`, given what each attempt meets, and
their result. -/
def connect (o : Nat → Transport → Outcome) :
    List (List Attempt) × Except String (Transport × String) :=
  connectFrom headerValue cc o 1 (maxAttempts - 1)

/-- A result after which another attempt may be made. -/
def retries {α : Type} : Except ConnectFailure α → Bool
  | .error e => !e.fatal
  | .ok _ => false

def Attempt.retryable (a : Attempt) : Bool := retries a.result

/-- What the attempts of a negotiation would be, if each was made. -/
def attemptsOf (o : Transport → Outcome) : List Attempt :=
  (transportPlan cc.security).map fun transport => tryConnect headerValue cc transport (o transport)

variable {headerValue cc}

theorem retryable_eq {a : Attempt} {result : Except ConnectFailure String} (h : a.result = result) :
    a.retryable = retries result := by
  rw [Attempt.retryable, h]

/-- A negotiation makes the attempts of its plan up to the first that succeeds or fails
for good; it may be repeated if all of them fail as transports. -/
theorem negotiateFrom_tries (o : Transport → Outcome) (last : Option ConnectFailure)
    (hlast : ∀ e, last = some e → e.fatal = false) (plan : List Transport) :
    (negotiateFrom headerValue cc o last plan).1 =
        tries Attempt.retryable (plan.map fun transport => tryConnect headerValue cc transport (o transport)) ∧
      retries (negotiateFrom headerValue cc o last plan).2 =
        (plan.map fun transport => tryConnect headerValue cc transport (o transport)).all
          Attempt.retryable := by
  induction plan generalizing last with
  | nil =>
    refine ⟨rfl, ?_⟩
    rw [negotiateFrom, retries]
    cases last with
    | none => rfl
    | some e =>
      rw [Option.getD_some, hlast e rfl]
      rfl
  | cons transport plan ih =>
    rw [negotiateFrom, List.map_cons, List.all_cons, tries]
    generalize tryConnect headerValue cc transport (o transport) = attempt
    cases hresult : attempt.result with
    | ok serverVersion =>
      have hstops : attempt.retryable = false := retryable_eq hresult
      rw [hstops]
      exact ⟨rfl, rfl⟩
    | error e =>
      cases e with
      | auth status =>
        have hstops : attempt.retryable = false := retryable_eq hresult
        rw [hstops]
        exact ⟨rfl, rfl⟩
      | unsupported message =>
        have hstops : attempt.retryable = false := retryable_eq hresult
        rw [hstops]
        exact ⟨rfl, rfl⟩
      | transport detail =>
        have hagain : attempt.retryable = true := retryable_eq hresult
        obtain ⟨hattempts, hretries⟩ := ih (some (.transport detail)) fun e he => by cases he; rfl
        rw [hagain, if_pos rfl, Bool.true_and]
        exact ⟨congrArg (attempt :: ·) hattempts, hretries⟩

theorem negotiate_tries (o : Transport → Outcome) :
    (negotiate headerValue cc o).1 = tries Attempt.retryable (attemptsOf headerValue cc o) ∧
      retries (negotiate headerValue cc o).2 = (negotiate headerValue cc o).1.all Attempt.retryable := by
  obtain ⟨hattempts, hretries⟩ :=
    negotiateFrom_tries o none (fun e he => by cases he) (transportPlan cc.security)
  have hmade : (negotiate headerValue cc o).1 =
      tries Attempt.retryable (attemptsOf headerValue cc o) := hattempts
  refine ⟨hmade, hretries.trans ?_⟩
  rw [hmade, Bool.eq_iff_iff, List.all_eq_true, List.all_eq_true]
  exact (all_tries _).symm

/-- One negotiation, and those after it if it may be repeated. -/
theorem connectFrom_cons (o : Nat → Transport → Outcome) (attempt left : Nat) :
    (connectFrom headerValue cc o attempt left).1 = (negotiate headerValue cc (o attempt)).1 ::
      if (negotiate headerValue cc (o attempt)).1.all Attempt.retryable then
        match left with
        | 0 => []
        | left + 1 => (connectFrom headerValue cc o (attempt + 1) left).1
      else [] := by
  rw [← (negotiate_tries (o attempt)).2, connectFrom.eq_def]
  obtain ⟨attempts, result⟩ := negotiate headerValue cc (o attempt)
  cases result with
  | ok connected => rfl
  | error e =>
    cases e with
    | auth status => rfl
    | unsupported message => rfl
    | transport detail =>
      cases left with
      | zero => rfl
      | succ left => rfl

/-- The negotiations are made up to the first that ends otherwise than that all of its
attempts fail as transports. -/
theorem connectFrom_tries (o : Nat → Transport → Outcome) (attempt left : Nat) :
    (connectFrom headerValue cc o attempt left).1 =
      tries (fun attempts => attempts.all Attempt.retryable)
        ((List.range' attempt (left + 1)).map fun k => (negotiate headerValue cc (o k)).1) := by
  induction left generalizing attempt with
  | zero =>
    rw [connectFrom_cons, List.range'_succ, List.map_cons, tries]
    split
    · rfl
    · rfl
  | succ left ih =>
    rw [connectFrom_cons, List.range'_succ, List.map_cons, tries]
    split
    · exact congrArg _ (ih (attempt + 1))
    · rfl

/-- The numbers of the negotiations that could be made. -/
def rounds : List Nat := List.range' 1 maxAttempts

theorem connect_tries (o : Nat → Transport → Outcome) :
    (connect headerValue cc o).1 =
      tries (fun attempts => attempts.all Attempt.retryable)
        (rounds.map fun k => (negotiate headerValue cc (o k)).1) :=
  connectFrom_tries o 1 (maxAttempts - 1)

/-- All attempts, one negotiation after the other. -/
theorem connect_flatten (o : Nat → Transport → Outcome) :
    (connect headerValue cc o).1.flatten =
      tries Attempt.retryable (rounds.flatMap fun k => attemptsOf headerValue cc (o k)) := by
  have hmade : (rounds.map fun k => (negotiate headerValue cc (o k)).1) =
      (rounds.map fun k => attemptsOf headerValue cc (o k)).map (tries Attempt.retryable) := by
    rw [List.map_map]
    exact List.map_congr_left fun k _ => (negotiate_tries (o k)).1
  rw [connect_tries, hmade, flatten_tries, List.flatMap_def]

end Connect

end MemoryArchive.Capture.Stream
