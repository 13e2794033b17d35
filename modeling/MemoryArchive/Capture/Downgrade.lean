import MemoryArchive.Capture.Stream

namespace MemoryArchive.Capture.Stream

open Attempts

/-- The connection was lost before the server answered. -/
def Request.lost (r : Request) : Bool :=
  match r.answer with
  | .ok _ => false
  | .error status => status.lost

/-- The server answered that the credentials do not suffice. -/
def Request.denied (r : Request) : Bool :=
  match r.answer with
  | .ok _ => false
  | .error status => !status.lost && status.deniesCredentials

/-- The server answered with a version that is not supported. -/
def Request.unsupported (cc : CcEndpoint) (r : Request) : Bool :=
  match r.answer with
  | .ok reported => (evaluate reported (Version.parse cc.maxVersion)).refusal.isSome
  | .error _ => false

namespace Attempt

/-- The attempt failed at the transport: its connection did not open, or was lost
under the subscription. -/
def connectionFailed (a : Attempt) : Bool :=
  a.connection = .failed || a.requests.any fun r => r.rpc = .watchCommands && r.lost

/-- The server refused the credentials of one of the requests. -/
def credentialsRefused (a : Attempt) : Bool := a.requests.any Request.denied

/-- The server has a version that is not supported, and that is not let through. -/
def versionRefused (cc : CcEndpoint) (a : Attempt) : Bool :=
  !cc.allowUnsupported && a.requests.any fun r => r.rpc = .getServerIdentity && r.unsupported cc

end Attempt

/-- The token travels over TLS or where plaintext was asked for; plaintext is attempted
only where it was asked for, or as the fallback from a TLS connection that failed; and
nothing follows a refusal. -/
structure Secure (cc : CcEndpoint) (negotiations : List (List Attempt)) : Prop where
  token : ∀ attempts ∈ negotiations, ∀ a ∈ attempts, ∀ r ∈ a.requests, r.authorization.isSome = true →
    a.transport = .tls ∨ cc.security = .legacy
  plaintext : ∀ attempts ∈ negotiations, ∀ before a after, attempts = before ++ a :: after →
    a.transport = .plaintext → cc.security = .legacy ∨
      cc.security = .auto ∧ ∃ b ∈ before, b.transport = .tls ∧ b.connectionFailed = true
  refused : ∀ before a after, negotiations.flatten = before ++ a :: after →
    a.credentialsRefused = true ∨ a.versionRefused cc = true → after = []
  strict : cc.security = .strict → ∀ attempts ∈ negotiations, ∀ a ∈ attempts, a.transport = .tls

section Connect

variable (headerValue : String → Bool) (cc : CcEndpoint)

/-- On an open connection the token cannot be sent, or the server answers the
subscription with a refusal that is not about the credentials. -/
def Rebuffed (transport : Transport) (o : Outcome) : Prop :=
  (checkVersion headerValue cc (credentialsAllowed cc transport) o.identity).2.isOk = true ∧
    ∀ authorization,
      subscriptionHeader headerValue cc (credentialsAllowed cc transport) = .ok authorization →
      ∃ status, o.subscription = .error status ∧ status.lost = false ∧ status.deniesCredentials = false

/-- Of the attempts that are reached, a TLS attempt under the automatic policy gets as far
as its connection and is not rebuffed there, and one that counts as a failed transport
and that another attempt follows is not refused for its credentials. -/
structure Classified (o : Nat → Transport → Outcome) : Prop where
  downgrade : cc.security = .auto → ∀ before k after, rounds = before ++ k :: after →
    (∀ m ∈ before, ∀ a ∈ attemptsOf headerValue cc (o m), a.retryable = true) →
    prepare cc .tls (o k .tls) = none ∧
      ((o k .tls).connectError = none → ¬ Rebuffed headerValue cc .tls (o k .tls))
  refused : ∀ before a b after,
    (rounds.flatMap fun k => attemptsOf headerValue cc (o k)) = before ++ a :: b :: after →
    (∀ c ∈ before, c.retryable = true) → a.retryable = true → a.credentialsRefused = false

variable {headerValue cc}

theorem transport_tryConnect (transport : Transport) (o : Outcome) :
    (tryConnect headerValue cc transport o).transport = transport := by
  rw [tryConnect]
  split
  · rfl
  · split
    · rfl
    · rfl

theorem fatal_checkVersion {allowed : Bool} {answer : Except Status String} {e : ConnectFailure}
    (h : (checkVersion headerValue cc allowed answer).2 = .error e) : e.fatal = true := by
  rw [checkVersion] at h
  dsimp only at h
  split at h
  · split at h
    · cases h
    · cases h
      rfl
  · cases h

theorem fatal_subscriptionHeader {allowed : Bool} {e : ConnectFailure}
    (h : subscriptionHeader headerValue cc allowed = .error e) : e.fatal = false := by
  rw [subscriptionHeader] at h
  split at h
  · cases h
  split at h
  · split at h
    · cases h
    · cases h
      rfl
  · cases h

theorem fatal_refused (status : Status) : (Stream.refused status).fatal = status.deniesCredentials := by
  rw [Stream.refused]
  split
  case isTrue h => exact h.symm
  case isFalse h => exact (Bool.eq_false_iff.mpr h).symm

theorem rebuffed_iff {transport : Transport} {o : Outcome} :
    retries (subscribe headerValue cc transport o).2 = true ∧
        ((subscribe headerValue cc transport o).1.any fun r => r.rpc = .watchCommands && r.lost) = false ↔
      Rebuffed headerValue cc transport o := by
  rw [subscribe, Rebuffed]
  dsimp only
  cases hversion : (checkVersion headerValue cc (credentialsAllowed cc transport) o.identity).2 with
  | error e =>
    refine iff_of_false (fun h => ?_) fun h => by cases h.1
    have hretries : (!e.fatal) = true := h.1
    rw [fatal_checkVersion hversion] at hretries
    cases hretries
  | ok serverVersion =>
    dsimp only
    cases hheader : subscriptionHeader headerValue cc (credentialsAllowed cc transport) with
    | error e =>
      have hretries : (!e.fatal) = true := by rw [fatal_subscriptionHeader hheader]; rfl
      exact iff_of_true ⟨hretries, rfl⟩ ⟨rfl, fun _ h => by cases h⟩
    | ok authorization =>
      cases o.subscription with
      | ok =>
        refine iff_of_false (fun h => by cases h.1) fun h => ?_
        obtain ⟨status, hstatus, -⟩ := h.2 authorization rfl
        cases hstatus
      | error status =>
        have hretries : retries (.error (Stream.refused status) : Except ConnectFailure String) =
            !status.deniesCredentials := congrArg (!·) (fatal_refused status)
        have hlost : (([(checkVersion headerValue cc (credentialsAllowed cc transport) o.identity).1,
            ⟨.watchCommands, authorization, .error status⟩] : List Request).any fun r =>
              r.rpc = .watchCommands && r.lost) = status.lost := Bool.or_false _
        constructor
        · rintro ⟨hagain, hconnected⟩
          have hcredentials : (!status.deniesCredentials) = true := hretries.symm.trans hagain
          rw [Bool.not_eq_true'] at hcredentials
          exact ⟨rfl, fun _ _ => ⟨status, rfl, hlost.symm.trans hconnected, hcredentials⟩⟩
        · rintro ⟨-, h⟩
          obtain ⟨_, hstatus, hconnected, hcredentials⟩ := h authorization rfl
          cases hstatus
          rw [hcredentials] at hretries
          exact ⟨hretries, hlost.trans hconnected⟩

/-- The connection of an attempt that counts as a failed transport has failed, unless none
was tried or the attempt was rebuffed on an open one. -/
theorem connectionFailed_iff {transport : Transport} {o : Outcome} :
    ((tryConnect headerValue cc transport o).retryable = true →
        (tryConnect headerValue cc transport o).connectionFailed = true) ↔
      prepare cc transport o = none ∧ (o.connectError = none → ¬ Rebuffed headerValue cc transport o) := by
  rw [Attempt.retryable, Attempt.connectionFailed, tryConnect]
  cases prepare cc transport o with
  | some e => exact iff_of_false (fun h => by cases h rfl) fun h => by cases h.1
  | none =>
    cases o.connectError with
    | some e => exact iff_of_true (fun _ => rfl) ⟨rfl, fun h => by cases h⟩
    | none =>
      have hfalse : ∀ b : Bool, (decide (Connection.established = .failed) || b) = true ↔ ¬ b = false :=
        fun b => by cases b <;> decide
      dsimp only
      rw [hfalse, ← rebuffed_iff]
      constructor
      · exact fun h => ⟨rfl, fun _ hrebuffed => h hrebuffed.1 hrebuffed.2⟩
      · exact fun h hagain hconnected => h.2 rfl ⟨hagain, hconnected⟩

/-- An attempt sends nothing, or the version query, and the subscription only if the
version is let through. -/
theorem requests_tryConnect {transport : Transport} {o : Outcome} {r : Request}
    (hr : r ∈ (tryConnect headerValue cc transport o).requests) :
    r = (checkVersion headerValue cc (credentialsAllowed cc transport) o.identity).1 ∨
      r.rpc = .watchCommands ∧
        subscriptionHeader headerValue cc (credentialsAllowed cc transport) = .ok r.authorization := by
  rw [tryConnect] at hr
  split at hr
  · cases hr
  split at hr
  · cases hr
  rw [subscribe] at hr
  dsimp only at hr
  split at hr
  · exact .inl (List.mem_singleton.mp hr)
  split at hr
  · exact .inl (List.mem_singleton.mp hr)
  case h_2 authorization hheader =>
    obtain rfl | hr := List.mem_cons.mp hr
    · exact .inl rfl
    · obtain rfl := List.mem_singleton.mp hr
      exact .inr ⟨rfl, hheader⟩

theorem token_tryConnect {transport : Transport} {o : Outcome} {r : Request}
    (hr : r ∈ (tryConnect headerValue cc transport o).requests) (htoken : r.authorization.isSome = true) :
    transport = .tls ∨ cc.security = .legacy := by
  have hallowed : credentialsAllowed cc transport = true := by
    obtain rfl | ⟨-, hheader⟩ := requests_tryConnect hr
    · rw [checkVersion] at htoken
      dsimp only at htoken
      split at htoken
      case isTrue h => exact h.1
      case isFalse => cases htoken
    · rw [subscriptionHeader] at hheader
      split at hheader
      · rw [← Except.ok.inj hheader] at htoken
        cases htoken
      split at hheader
      case isTrue h => exact h
      case isFalse =>
        rw [← Except.ok.inj hheader] at htoken
        cases htoken
  rw [credentialsAllowed, Bool.or_eq_true, decide_eq_true_eq, decide_eq_true_eq] at hallowed
  exact hallowed

/-- The version gate refuses a version that is not supported. -/
theorem checkVersion_refuses {allowed : Bool} {answer : Except Status String}
    (hallow : cc.allowUnsupported = false)
    (h : (checkVersion headerValue cc allowed answer).1.unsupported cc = true) :
    ∃ message, (checkVersion headerValue cc allowed answer).2 = .error (.unsupported message) := by
  cases answer with
  | error status => cases h
  | ok reported =>
    obtain ⟨message, hmessage⟩ := Option.isSome_iff_exists.mp h
    refine ⟨message, ?_⟩
    rw [checkVersion]
    dsimp only [Except.toOption, Option.getD]
    rw [hmessage, hallow]
    rfl

/-- A version that is not let through ends the attempt for good. -/
theorem versionRefused_tryConnect {transport : Transport} {o : Outcome}
    (h : (tryConnect headerValue cc transport o).versionRefused cc = true) :
    (tryConnect headerValue cc transport o).retryable = false := by
  rw [Attempt.versionRefused, Bool.and_eq_true, Bool.not_eq_true', List.any_eq_true] at h
  obtain ⟨hallow, r, hr, hunsupported⟩ := h
  rw [Bool.and_eq_true, decide_eq_true_eq] at hunsupported
  obtain ⟨hrpc, hunsupported⟩ := hunsupported
  obtain rfl | ⟨hwatch, -⟩ := requests_tryConnect hr
  · obtain ⟨message, hversion⟩ := checkVersion_refuses hallow hunsupported
    cases hprepare : prepare cc transport o with
    | some e =>
      rw [tryConnect, hprepare] at hr
      cases hr
    | none =>
      cases hconnect : o.connectError with
      | some e =>
        rw [tryConnect, hprepare, hconnect] at hr
        cases hr
      | none =>
        rw [Attempt.retryable, tryConnect, hprepare, hconnect]
        dsimp only
        rw [subscribe]
        dsimp only
        rw [hversion]
        rfl
  · rw [hwatch] at hrpc
    cases hrpc

/-- A negotiation is made if all attempts of those before it count as failed transports. -/
theorem mem_connect_iff {o : Nat → Transport → Outcome} {attempts : List Attempt} :
    attempts ∈ (connect headerValue cc o).1 ↔ ∃ before k after, rounds = before ++ k :: after ∧
      (∀ m ∈ before, ∀ a ∈ attemptsOf headerValue cc (o m), a.retryable = true) ∧
      attempts = tries Attempt.retryable (attemptsOf headerValue cc (o k)) := by
  rw [connect_tries, mem_tries_iff]
  constructor
  · rintro ⟨before, after, hrounds, hbefore⟩
    obtain ⟨ms, ks, hsplit, rfl, hks⟩ := List.map_eq_append_iff.mp hrounds
    obtain ⟨k, later, rfl, rfl, -⟩ := List.map_eq_cons_iff.mp hks
    refine ⟨ms, k, later, hsplit, fun m hm => ?_, (negotiate_tries (o k)).1⟩
    have hall := hbefore _ (List.mem_map_of_mem hm)
    rw [(negotiate_tries (o m)).1, List.all_eq_true] at hall
    exact (all_tries _).mp hall
  · rintro ⟨before, k, after, hrounds, hbefore, rfl⟩
    refine ⟨before.map fun m => (negotiate headerValue cc (o m)).1,
      after.map fun m => (negotiate headerValue cc (o m)).1, ?_, fun attempts hattempts => ?_⟩
    · rw [hrounds, List.map_append, List.map_cons, (negotiate_tries (o k)).1]
    · obtain ⟨m, hm, rfl⟩ := List.mem_map.mp hattempts
      rw [(negotiate_tries (o m)).1, List.all_eq_true]
      exact (all_tries _).mpr (hbefore m hm)

theorem mem_attempts {o : Nat → Transport → Outcome} {attempts : List Attempt} {a : Attempt}
    (h : attempts ∈ (connect headerValue cc o).1) (ha : a ∈ attempts) :
    ∃ k, ∃ transport ∈ transportPlan cc.security, a = tryConnect headerValue cc transport (o k transport) := by
  obtain ⟨-, k, -, -, -, rfl⟩ := mem_connect_iff.mp h
  obtain ⟨before, after, hplan, -⟩ := mem_tries_iff.mp ha
  have hmem : a ∈ attemptsOf headerValue cc (o k) := by
    rw [hplan]
    exact List.mem_append_right before List.mem_cons_self
  obtain ⟨transport, htransport, rfl⟩ := List.mem_map.mp hmem
  exact ⟨k, transport, htransport, rfl⟩

/-- A negotiation under the automatic policy attempts plaintext if its TLS attempt counts
as a failed transport. -/
theorem attempts_auto {o : Transport → Outcome} (hauto : cc.security = .auto) :
    tries Attempt.retryable (attemptsOf headerValue cc o) =
      if (tryConnect headerValue cc .tls (o .tls)).retryable then
        [tryConnect headerValue cc .tls (o .tls), tryConnect headerValue cc .plaintext (o .plaintext)]
      else [tryConnect headerValue cc .tls (o .tls)] := by
  rw [attemptsOf, hauto, transportPlan, List.map_cons, List.map_cons, List.map_nil, tries, tries]
  split
  · split
    · rfl
    · rfl
  · rfl

/-- A plaintext attempt under the automatic policy comes after a TLS attempt whose
connection failed. -/
theorem plaintext_auto {o : Nat → Transport → Outcome} (hauto : cc.security = .auto)
    (h : Classified headerValue cc o) {attempts before after : List Attempt} {a : Attempt}
    (hattempts : attempts ∈ (connect headerValue cc o).1) (hsplit : attempts = before ++ a :: after)
    (hplain : a.transport = .plaintext) :
    ∃ b ∈ before, b.transport = .tls ∧ b.connectionFailed = true := by
  obtain ⟨earlier, k, later, hrounds, hearlier, rfl⟩ := mem_connect_iff.mp hattempts
  have hfirst : ∀ rest, tryConnect headerValue cc .tls (o k .tls) :: rest ≠ a :: after := fun rest he => by
    obtain ⟨rfl, -⟩ := List.cons.inj he
    rw [transport_tryConnect] at hplain
    cases hplain
  rw [attempts_auto hauto] at hsplit
  split at hsplit
  case isTrue hretryable =>
    have hfailed := connectionFailed_iff.mpr (h.downgrade hauto earlier k later hrounds hearlier) hretryable
    cases before with
    | nil => exact absurd hsplit (hfirst _)
    | cons b before =>
      obtain ⟨rfl, -⟩ := List.cons.inj hsplit
      exact ⟨_, List.mem_cons_self, transport_tryConnect .tls _, hfailed⟩
  case isFalse =>
    cases before with
    | nil => exact absurd hsplit (hfirst _)
    | cons b before =>
      obtain ⟨-, hrest⟩ := List.cons.inj hsplit
      exact absurd hrest.symm (List.append_ne_nil_of_right_ne_nil before (List.cons_ne_nil a after))

/-- Where plaintext follows every TLS attempt that counts as a failed transport, its
connection must have failed. -/
theorem connectionFailed_of_secure {o : Nat → Transport → Outcome} (hauto : cc.security = .auto)
    (h : Secure cc (connect headerValue cc o).1) {before after : List Nat} {k : Nat}
    (hrounds : rounds = before ++ k :: after)
    (hbefore : ∀ m ∈ before, ∀ a ∈ attemptsOf headerValue cc (o m), a.retryable = true)
    (hretryable : (tryConnect headerValue cc .tls (o k .tls)).retryable = true) :
    (tryConnect headerValue cc .tls (o k .tls)).connectionFailed = true := by
  have hmade : [tryConnect headerValue cc .tls (o k .tls),
      tryConnect headerValue cc .plaintext (o k .plaintext)] ∈ (connect headerValue cc o).1 := by
    refine mem_connect_iff.mpr ⟨before, k, after, hrounds, hbefore, ?_⟩
    rw [attempts_auto hauto, if_pos hretryable]
  obtain hlegacy | ⟨-, b, hb, -, hfailed⟩ :=
    h.plaintext _ hmade [_] _ [] rfl (transport_tryConnect .plaintext _)
  · rw [hauto] at hlegacy
    cases hlegacy
  · rwa [List.mem_singleton.mp hb] at hfailed

/-- Nothing follows a refusal that the attempts count as one. -/
theorem nothing_follows {o : Nat → Transport → Outcome} (h : Classified headerValue cc o)
    {before after : List Attempt} {a : Attempt}
    (hmade : (connect headerValue cc o).1.flatten = before ++ a :: after)
    (hrefused : a.credentialsRefused = true ∨ a.versionRefused cc = true) : after = [] := by
  cases after with
  | nil => rfl
  | cons b after =>
    rw [connect_flatten] at hmade
    obtain ⟨⟨later, hplan⟩, hbefore, ha⟩ := followed_iff.mp ⟨after, hmade⟩
    obtain hcredentials | hversion := hrefused
    · rw [h.refused before a b later hplan hbefore ha] at hcredentials
      cases hcredentials
    · have hmem : a ∈ rounds.flatMap fun k => attemptsOf headerValue cc (o k) := by
        rw [hplan]
        exact List.mem_append_right before List.mem_cons_self
      obtain ⟨k, -, hmem⟩ := List.mem_flatMap.mp hmem
      obtain ⟨transport, -, rfl⟩ := List.mem_map.mp hmem
      rw [versionRefused_tryConnect hversion] at ha
      cases ha

/-- The negotiation never weakens the connection exactly if the failures after which it
goes on are failures of the connection and no refusals of the credentials. -/
theorem secure_iff_classified (headerValue : String → Bool) (cc : CcEndpoint)
    (o : Nat → Transport → Outcome) :
    Secure cc (connect headerValue cc o).1 ↔ Classified headerValue cc o := by
  constructor
  · intro h
    refine ⟨fun hauto before k after hrounds hbefore =>
      connectionFailed_iff.mp (connectionFailed_of_secure hauto h hrounds hbefore),
      fun before a b after hplan hbefore ha => ?_⟩
    obtain ⟨after', hmade⟩ := followed_iff.mpr ⟨⟨after, hplan⟩, hbefore, ha⟩
    rw [← connect_flatten] at hmade
    refine Bool.eq_false_iff.mpr fun hrefused => ?_
    cases h.refused before a (b :: after') hmade (.inl hrefused)
  · intro h
    refine ⟨fun attempts hattempts a ha r hr htoken => ?_,
      fun attempts hattempts before a after hsplit hplain => ?_,
      fun before a after hmade hrefused => nothing_follows h hmade hrefused,
      fun hstrict attempts hattempts a ha => ?_⟩
    · obtain ⟨k, transport, -, rfl⟩ := mem_attempts hattempts ha
      rw [transport_tryConnect]
      exact token_tryConnect hr htoken
    · have ha : a ∈ attempts := hsplit ▸ List.mem_append_right before List.mem_cons_self
      obtain ⟨k, transport, htransport, rfl⟩ := mem_attempts hattempts ha
      rw [transport_tryConnect] at hplain
      subst hplain
      cases hsecurity : cc.security with
      | legacy => exact .inl rfl
      | strict =>
        rw [hsecurity] at htransport
        cases List.mem_singleton.mp htransport
      | auto =>
        exact .inr ⟨rfl, plaintext_auto hsecurity h hattempts hsplit (transport_tryConnect .plaintext _)⟩
    · obtain ⟨k, transport, htransport, rfl⟩ := mem_attempts hattempts ha
      rw [hstrict] at htransport
      rw [transport_tryConnect]
      exact List.mem_singleton.mp htransport

end Connect

/-- A server that is reached over TLS and has no agent to subscribe to. -/
def noAgent : Outcome where
  addressError := none
  caError := none
  tlsError := none
  connectError := none
  identity := .ok "1.3.0"
  subscription := .error ⟨.unavailable, "The service is currently unavailable", "no agent connected", false⟩

def demoEndpoint : CcEndpoint where
  addr := "localhost:50051".toList
  tlsCa := ""
  token := "t"
  security := .auto
  maxVersion := ""
  allowUnsupported := false

/-- A refusal over a sound TLS connection leads to plaintext. -/
theorem noAgent_not_secure :
    ¬ Secure demoEndpoint (connect (fun _ => true) demoEndpoint fun _ _ => noAgent).1 := by
  intro h
  have hrounds : rounds = [] ++ 1 :: List.range' 2 9 := rfl
  have hfailed := connectionFailed_of_secure rfl h hrounds (fun _ hm => absurd hm List.not_mem_nil)
    (by decide +kernel)
  revert hfailed
  decide +kernel

end MemoryArchive.Capture.Stream
