import MemoryArchive.Ipc.Files
import MemoryArchive.Registry.Claims

namespace MemoryArchive.Ipc

open Registry Storage

/-- What one message meets besides the server: the order in which a scan returns
claim keys, the random claim id, and what storage and serde_json answer. -/
structure Env where
  version : String
  scan : List String
  claimId : String
  fault : Option String
  ioError : String
  listing : Location → Except String (List FileEntry)
  serdeError : List Char → String

def allowedTenants (s : Redis) (annotatorId : String) : List String :=
  (s.annotators annotatorId).elim [] Annotator.allowedTenantIds

def maxClaims (s : Redis) (annotatorId : String) : Nat :=
  (s.annotators annotatorId).elim 0 Annotator.maxConcurrentClaims

/-- Whether one of the allowed tenants is the start of the tenant id. -/
def tenantVisible (allowed : List String) (tenantId : String) : Bool :=
  allowed.any fun lead => lead.toList.isPrefixOf tenantId.toList

def queueItem (s : Redis) (id : String) : QueueItem :=
  match s.sessions id with
  | .record r => ⟨id, r.memoryName, r.totalSteps, r.createdAt⟩
  | .absent | .fragment _ => ⟨id, "", 0, ""⟩

/-- The sessions of the queue that an annotator sees. Without allowed tenants
it sees all. -/
def visibleQueue (s : Redis) (allowed : List String) : List String :=
  (s.index SessionStatus.pendingHumanAnnotation).filter fun id =>
    (s.getClaimOwner id).isNone &&
      (allowed.isEmpty ||
        match s.get id with
        | .ok r => tenantVisible allowed r.tenantId
        | .error _ => false)

def listAnnotationQueue (s : Redis) (annotatorId : String) : OutboundMessage :=
  .annotationQueue (((visibleQueue s (allowedTenants s annotatorId)).map (queueItem s)).insertionSort
    fun a b => a.createdAt ≤ b.createdAt)

/-- One candidate in the search for the oldest session without a claim. -/
def pickOldest (s : Redis) (oldest : Option (String × String)) (id : String) :
    Option (String × String) :=
  if (s.getClaimOwner id).isNone then
    match s.get id with
    | .error _ => oldest
    | .ok r =>
        match oldest with
        | none => some (id, r.createdAt)
        | some (_, t) => if r.createdAt < t then some (id, r.createdAt) else oldest
  else oldest

def oldestUnclaimed (s : Redis) : Option String :=
  ((s.index SessionStatus.pendingHumanAnnotation).foldl (pickOldest s) none).map Prod.fst

/-- The ClaimSession handler. A session id that is given is not looked up. -/
def claimSession (s : Server) (env : Env) (annotatorId sessionId : String) :
    Server × OutboundMessage :=
  match if sessionId = "" then oldestUnclaimed s.redis else some sessionId with
  | none => (s, .error "QUEUE_EMPTY" "No sessions available for annotation.")
  | some target =>
      match s.redis.claimScript env.scan target annotatorId env.claimId (maxClaims s.redis annotatorId) with
      | (redis, .ok) => ({ s with redis := redis }, .sessionClaimed target env.claimId)
      | (_, .taken) => (s, .claimConflict target)
      | (_, .limit count) =>
          (s, .claimLimitReached annotatorId count (maxClaims s.redis annotatorId))

def heartbeatClaim (s : Server) (annotatorId sessionId claimId : String) : OutboundMessage :=
  if s.redis.getClaimOwner sessionId ≠ some annotatorId then
    .error "NOT_OWNER" "You do not hold the claim for this session."
  else if s.redis.verifyClaimId sessionId claimId then .claimRefreshed sessionId
  else
    .error "CLAIM_LOST" (s!"Claim on session '{sessionId}' has expired or was released. " ++
      "Return to queue: memory-archive annotator queue")

def releaseSession (s : Server) (annotatorId sessionId claimId : String) :
    Server × OutboundMessage :=
  if s.redis.getClaimOwner sessionId ≠ some annotatorId then
    (s, .error "NOT_OWNER" "You do not hold the claim for this session.")
  else if ¬ s.redis.verifyClaimId sessionId claimId then
    (s, .error "CLAIM_MISMATCH" "Claim ID does not match.")
  else
    let redis := s.redis.releaseClaim sessionId
    match redis.get sessionId with
    | .ok r =>
        if r.status = .annotating then
          ({ s with redis := redis.updateStatus sessionId SessionStatus.pendingHumanAnnotation },
            .sessionReleased sessionId)
        else ({ s with redis := redis }, .sessionReleased sessionId)
    | .error _ => ({ s with redis := redis }, .sessionReleased sessionId)

def loadSession (s : Server) (sessionId : String) : Server × OutboundMessage :=
  match s.redis.get sessionId with
  | .error e => (s, .error "SESSION_NOT_FOUND" e)
  | .ok r =>
      if r.status = SessionStatus.pendingHumanAnnotation ∨ r.status = .annotating then
        ({ s with redis := s.redis.updateStatus sessionId .annotating },
          .sessionLoaded sessionId r.memoryPath (r.status = .annotating))
      else
        (s, .error "INVALID_STATUS"
          s!"Session '{sessionId}' has status '{r.status.text}' — cannot load for annotation.")

def getSessionStatus (s : Server) (sessionId : String) : OutboundMessage :=
  match s.redis.get sessionId with
  | .error e => .error "SESSION_NOT_FOUND" e
  | .ok r => .sessionStatus r

/-- `handle_annotator_session_op`: the operations on a claimed session. -/
def handleSessionOp (s : Server) (env : Env) (msg : InboundMessage) : Server × OutboundMessage :=
  match msg with
  | .getSessionStatus sessionId => (s, getSessionStatus s sessionId)
  | .loadSession sessionId => loadSession s sessionId
  | .updateAnnotationProgress sessionId annotated skipped =>
      ({ s with redis := s.redis.updateAnnotationCounters sessionId annotated skipped },
        .annotationProgressUpdated sessionId annotated skipped)
  | InboundMessage.closeAnnotation sessionId =>
      ({ s with redis := s.redis.updateStatus sessionId SessionStatus.pendingHumanAnnotation },
        .annotationClosed sessionId)
  | InboundMessage.completeAnnotation sessionId =>
      ({ s with redis := s.redis.updateStatus sessionId .pendingCompilation },
        .annotationCompleted sessionId)
  | .fetchFile sessionId relativePath => (s, fetchFile s env.ioError sessionId relativePath)
  | .listSessionFiles sessionId lead => (s, listSessionFiles s env.listing sessionId lead)
  | .uploadFile upload => uploadFile env.serdeError s env.fault upload
  | _ =>
      (s, .error "FORBIDDEN" "This operation is not permitted for annotator connections.")

/-- The session of a message that needs its claim. -/
def opSession : InboundMessage → Option String
  | .getSessionStatus sessionId | .loadSession sessionId
  | .updateAnnotationProgress sessionId _ _ | InboundMessage.closeAnnotation sessionId
  | InboundMessage.completeAnnotation sessionId | .fetchFile sessionId _
  | .listSessionFiles sessionId _ => some sessionId
  | .uploadFile upload => some upload.sessionId
  | _ => none

def notOwner (sid : String) : OutboundMessage :=
  .error "NOT_OWNER" (s!"You do not hold the claim for session '{sid}'. " ++
    s!"Claim it first: memory-archive annotator claim --session {sid}")

/-- The operations that need a claim. Only its owner is compared; they carry no
claim id. -/
def handleClaimedOp (s : Server) (env : Env) (annotatorId : String) (msg : InboundMessage) :
    Server × OutboundMessage :=
  match opSession msg with
  | none =>
      (s, .error "FORBIDDEN" "This operation is not permitted for annotator connections.")
  | some sid =>
      if s.redis.getClaimOwner sid ≠ some annotatorId then (s, notOwner sid)
      else handleSessionOp s env msg

/-- A claimed operation is refused, or it is done for the owner of the claim. -/
theorem handleClaimedOp_eq (s : Server) (env : Env) (annotatorId : String) (msg : InboundMessage) :
    (∃ code text, handleClaimedOp s env annotatorId msg = (s, .error code text)) ∨
      ∃ sid, opSession msg = some sid ∧ s.redis.getClaimOwner sid = some annotatorId ∧
        handleClaimedOp s env annotatorId msg = handleSessionOp s env msg := by
  unfold handleClaimedOp
  split
  · exact .inl ⟨_, _, rfl⟩
  · rename_i sid hsid
    by_cases howner : s.redis.getClaimOwner sid = some annotatorId
    · exact .inr ⟨sid, hsid, howner, if_neg (not_not.mpr howner)⟩
    · exact .inl ⟨_, _, if_pos howner⟩

def handleAnnotatorMessage (s : Server) (env : Env) (annotatorId : String) (msg : InboundMessage) :
    Server × OutboundMessage :=
  match msg with
  | .ping => (s, .pong)
  | .listAnnotationQueue => (s, listAnnotationQueue s.redis annotatorId)
  | .claimSession sessionId => claimSession s env annotatorId sessionId
  | .heartbeatClaim sessionId claimId => (s, heartbeatClaim s annotatorId sessionId claimId)
  | .releaseSession sessionId claimId => releaseSession s annotatorId sessionId claimId
  | msg => handleClaimedOp s env annotatorId msg

end MemoryArchive.Ipc
