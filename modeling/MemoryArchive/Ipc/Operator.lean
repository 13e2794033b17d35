import MemoryArchive.Capture.Control
import MemoryArchive.Ipc.Annotator
import MemoryArchive.Ipc.Register

namespace MemoryArchive.Ipc

open Capture (Control Watch)
open Registry Storage

/-- The program: its server and, for each session, its watch loops and whether
its reasoning is degraded. -/
structure System where
  server : Server
  control : String → Control

/-- What a message of an operator meets besides the system: fresh ids, the time,
the configured directory, and what files, storage and libraries answer. -/
structure OperatorEnv where
  env : Env
  sessionId : String
  createdAt : String
  storagePath : String
  debugText : String → String
  dirError : Option String
  dirExists : String → Bool
  metadataLoads : Bool
  storedSteps : Option UInt32
  writeError : Option String
  plaintextKey : String
  isUuid : String → Bool
  objectsRemoved : Nat
  dirRemoved : Bool

namespace System

variable (s : System)

def entry (sid : String) : Entry := s.server.redis.sessions sid

def status (sid : String) : Option SessionStatus := (s.entry sid).status

def setRedis (redis : Redis) : System := { s with server := { s.server with redis := redis } }

def setStatus (sid : String) (status : SessionStatus) : System :=
  s.setRedis (s.server.redis.updateStatus sid status)

/-- A step of the watch loops of one session. -/
def watch (sid : String) (w : Watch) : System :=
  { s with control := Function.update s.control sid ((s.control sid).step w) }

def setDegraded (sid : String) (degraded : Bool) : System :=
  { s with control := Function.update s.control sid { s.control sid with degraded := degraded } }

/-- Take the done handle out of the map, so that its loop ends. -/
def dropHandle (sid : String) : System :=
  { s with control := Function.update s.control sid { s.control sid with handle := none } }

@[simp] theorem status_setRedis (redis : Redis) (sid : String) :
    (s.setRedis redis).status sid = (redis.sessions sid).status := rfl

@[simp] theorem control_setRedis (redis : Redis) : (s.setRedis redis).control = s.control := rfl

@[simp] theorem status_setStatus (t : String) (new : SessionStatus) (sid : String) :
    (s.setStatus t new).status sid = if sid = t then some new else s.status sid := by
  simp only [setStatus, status_setRedis, Redis.updateStatus, Function.update_apply]
  split
  · exact Entry.status_setStatus _ new
  · rfl

@[simp] theorem control_setStatus (t : String) (new : SessionStatus) :
    (s.setStatus t new).control = s.control := rfl

@[simp] theorem status_updateMemoryPath (t path : String) :
    (s.setRedis (s.server.redis.updateMemoryPath t path)).status = s.status := by
  funext sid
  simp only [status_setRedis, Redis.updateMemoryPath, Function.update_apply]
  split
  · rename_i ht
    rw [ht, Entry.status_setMemoryPath]
    rfl
  · rfl

@[simp] theorem status_updateCounters (t : String) (annotated skipped : UInt32) :
    (s.setRedis (s.server.redis.updateAnnotationCounters t annotated skipped)).status = s.status := by
  funext sid
  simp only [status_setRedis, Redis.updateAnnotationCounters, Function.update_apply]
  split
  · rename_i ht
    rw [ht, Entry.status_setCounters]
    rfl
  · rfl

@[simp] theorem status_watch (t : String) (w : Watch) : (s.watch t w).status = s.status := rfl

@[simp] theorem control_watch (t : String) (w : Watch) :
    (s.watch t w).control = Function.update s.control t ((s.control t).step w) := rfl

@[simp] theorem status_setDegraded (t : String) (degraded : Bool) :
    (s.setDegraded t degraded).status = s.status := rfl

@[simp] theorem control_setDegraded (t : String) (degraded : Bool) :
    (s.setDegraded t degraded).control =
      Function.update s.control t { s.control t with degraded := degraded } := rfl

@[simp] theorem status_dropHandle (t : String) : (s.dropHandle t).status = s.status := rfl

@[simp] theorem control_dropHandle (t : String) :
    (s.dropHandle t).control =
      Function.update s.control t { s.control t with handle := none } := rfl

end System

/-- The status that a finished recording waits in. -/
def doneStatus (degraded : Bool) : SessionStatus :=
  if degraded then SessionStatus.pendingHumanAnnotation else SessionStatus.pendingAnnotation

section Handlers

variable (s : System) (env : OperatorEnv)

def registerSession (r : Registration) : System × OutboundMessage :=
  match r.check env.debugText with
  | .error e => (s, e)
  | .ok (tenantId, mode) =>
      let record : SessionRecord :=
        { sessionId := env.sessionId
          mode := mode
          status := .active
          memoryName := r.memoryName
          memoryPath := env.storagePath ++ "/" ++ r.memoryName
          createdAt := env.createdAt
          totalSteps := 0
          annotatedSteps := 0
          skippedSteps := 0
          tenantId := tenantId
          storageBackend := s.server.router.resolve tenantId }
      match s.server.redis.register record with
      | .error e => (s, .error "REGISTER_FAILED" e)
      | .ok redis =>
          match env.dirError with
          | none => (s.setRedis redis, .sessionRegistered env.sessionId)
          | some e =>
              ((s.setRedis redis).setStatus env.sessionId .incomplete, .error "DIR_INIT_FAILED" e)

def memoryDirMissing (r : SessionRecord) : Bool :=
  s.server.storageMode ≠ "cloud_primary" && !env.dirExists r.memoryPath

/-- A loop is spawned. The handler then waits for it to connect; one that cannot
load its metadata ends at once. -/
def startWatch (sid : String) : System × Option OutboundMessage :=
  match s.server.redis.get sid with
  | .error e => (s, some (.error "SESSION_NOT_FOUND" e))
  | .ok r =>
      if memoryDirMissing s env r then
        (s, some (.error "MEMORY_DIR_MISSING"
          (s!"Memory directory no longer exists: {r.memoryPath}. The session may have been deleted. " ++
            "Register a new session to start again.")))
      else if env.metadataLoads then (s.watch sid .start, none)
      else
        (s.setStatus sid .incomplete, some (.error "WATCH_START_FAILED"
          ("Capture did not start, so no steps would be recorded: " ++
            "watch loop exited before the event source came up")))

/-- With a handle in the map Done signals its loop and waits for it. -/
def done (sid : String) : System × Option OutboundMessage :=
  match (s.control sid).handle with
  | some _ => (s.watch sid .done, none)
  | none =>
      match s.server.redis.get sid with
      | .error _ =>
          (s, some (.error "NOT_FOUND" s!"Session '{sid}' not found in registry. Cannot finalize."))
      | .ok r =>
          ((s.watch sid .done).setStatus sid (doneStatus (s.control sid).degraded),
            some (.sessionComplete sid (env.storedSteps.getD r.totalSteps)))

def operatorLoadSession (sid : String) : System × OutboundMessage :=
  match s.server.redis.get sid with
  | .error e => (s, .error "SESSION_NOT_FOUND" e)
  | .ok r =>
      if r.status = SessionStatus.pendingAnnotation ∨ r.status = .annotating then
        (s.setStatus sid .annotating, .sessionLoaded sid r.memoryPath (r.status = .annotating))
      else
        (s, .error "INVALID_STATUS" (s!"Session '{sid}' has status '{r.status.text}' — " ++
          "only 'pending_annotation' or 'annotating' sessions can be loaded for annotation."))

def reasoningResult (sid : String) (stepId : UInt32) : OutboundMessage :=
  match s.server.redis.get sid with
  | .error e => .error "SESSION_NOT_FOUND" e
  | .ok _ =>
      match env.writeError with
      | some e => .error "WRITE_FAILED" s!"Failed to write reasoning.jsonl: {e}"
      | none => .reasoningResultAccepted sid stepId

def compileMemory (sid : String) : OutboundMessage :=
  match s.server.redis.get sid with
  | .error e => .error "SESSION_NOT_FOUND" e
  | .ok r =>
      if r.status = .pendingCompilation then .memoryCompileReady sid r.memoryPath
      else
        .error "INVALID_STATUS" (s!"Session '{sid}' has status '{r.status.text}' — " ++
          "CompileMemory requires pending_compilation.")

def registerAnnotator (annotatorId : String) (allowedTenantIds : List String) (maxClaims : UInt32) :
    System × OutboundMessage :=
  match s.server.redis.registerAnnotator annotatorId allowedTenantIds maxClaims.toNat with
  | .error _ => (s, .error "ANNOTATOR_EXISTS" s!"Annotator '{annotatorId}' already exists.")
  | .ok redis => (s.setRedis redis, .annotatorRegistered annotatorId env.plaintextKey)

/-- Whether DeleteSession refuses a session that is being recorded or annotated. -/
def inFlight (r : SessionRecord) (force : Bool) : Bool :=
  (r.status = .active || r.status = .annotating) && !force

def deleteSession (sid : String) (force : Bool) : System × OutboundMessage :=
  if env.isUuid sid = false then
    (s, .error "INVALID_SESSION_ID" s!"'{sid}' is not a valid session id.")
  else
    match s.server.redis.get sid with
    | .ok r =>
        if inFlight r force then
          (s, .error "SESSION_IN_FLIGHT"
            (s!"Session '{sid}' is '{r.status.text}' — finish it (done/release) or pass " ++
              "force to delete anyway."))
        else
          let s := if r.status = .active then s.dropHandle sid else s
          match s.server.redis.deleteSession sid with
          | .error e => (s, .error "DELETE_FAILED" s!"Redis purge failed: {e}")
          | .ok (redis, removed) =>
              (s.setRedis redis,
                .sessionDeleted sid r.memoryName removed env.objectsRemoved env.dirRemoved)
    | .error _ =>
        match s.server.redis.deleteSession sid with
        | .error e => (s, .error "DELETE_FAILED" s!"Redis orphan sweep failed: {e}")
        | .ok (redis, removed) =>
            (s.setRedis redis, .sessionDeleted sid "" removed env.objectsRemoved false)

def annotatorOnly : OutboundMessage :=
  .error "FORBIDDEN" ("This is an annotator-only operation. " ++
    "Connect with an annotator_key to use it.")

/-- `handle_message`: one message of an operator. Most of the handlers that set a
status look at neither the old one nor whether the session exists. -/
def handleMessage : OperatorMessage → System × Option OutboundMessage
  | .ping => (s, some .pong)
  | .registerSession r => (registerSession s env r).map id some
  | .getSessionStatus sid => (s, some (getSessionStatus s.server sid))
  | .startWatch sid => startWatch s env sid
  | .done sid => done s env sid
  | .loadSession sid => (operatorLoadSession s sid).map id some
  | .updateAnnotationProgress sid annotated skipped =>
      (s.setRedis (s.server.redis.updateAnnotationCounters sid annotated skipped),
        some (.annotationProgressUpdated sid annotated skipped))
  | OperatorMessage.closeAnnotation sid =>
      (s.setStatus sid SessionStatus.pendingAnnotation, some (.annotationClosed sid))
  | OperatorMessage.completeAnnotation sid =>
      (s.setStatus sid .pendingCompilation, some (.annotationCompleted sid))
  | .finalizeMemory sid => (s.setStatus sid .complete, some (.memoryFinalized sid))
  | .fetchFile sid relativePath => (s, some (fetchFile s.server env.env.ioError sid relativePath))
  | .listSessionFiles sid lead => (s, some (listSessionFiles s.server env.env.listing sid lead))
  | .uploadFile upload =>
      let (server, reply) := uploadFile env.env.serdeError s.server env.env.fault upload
      ({ s with server := server }, some reply)
  | .reasoningResult sid stepId => (s, some (reasoningResult s env sid stepId))
  | .reasoningDegraded sid stepRangeStart =>
      ((s.setDegraded sid true).setStatus sid .reasoningDegraded,
        some (.reasoningDegradedEvent sid stepRangeStart))
  | .circuitReset sid =>
      ((s.setDegraded sid false).setStatus sid .active, some (.circuitResetAck sid))
  | .compileMemory sid => (s, some (compileMemory s sid))
  | .registerAnnotator annotatorId allowedTenantIds maxClaims =>
      (registerAnnotator s env annotatorId allowedTenantIds maxClaims).map id some
  | .deleteSession sid force => (deleteSession s env sid force).map id some
  | .annotatorOnly => (s, some annotatorOnly)

end Handlers

/-- The end of a loop as the registry sees it. In local mode the directory of an
interrupted session is renamed. -/
def endLoop (s : System) (sid : String) (doneCleanly wasDegraded : Bool) (renamed : Option String) :
    System :=
  if doneCleanly then s.setStatus sid (doneStatus wasDegraded)
  else
    let s := s.setStatus sid .incomplete
    match renamed with
    | some path =>
        if s.server.storageMode = "cloud_primary" then s
        else s.setRedis (s.server.redis.updateMemoryPath sid path)
    | none => s

/-- A loop that could not connect leaves it to its StartWatch to set the status. -/
def connectLoop (s : System) (sid : String) (id : Nat) (connected : Bool) : System :=
  match (s.control sid).loop? id with
  | some l =>
      if l.phase = .connecting then
        let s := s.watch sid (.connect id connected)
        if connected then s else s.setStatus sid .incomplete
      else s
  | none => s

def finishLoop (s : System) (sid : String) (id : Nat) (renamed : Option String) : System :=
  match (s.control sid).loop? id with
  | some l =>
      match l.phase with
      | .leaving doneCleanly => endLoop (s.watch sid (.finish id)) sid doneCleanly l.wasDegraded renamed
      | .connecting | .running => s
  | none => s

/-- A message of an operator or of an annotator, an expiry of a claim, or a step
of a watch loop. -/
inductive SystemInput
  | operator (env : OperatorEnv) (msg : OperatorMessage)
  | annotator (annotatorId : String) (env : Env) (msg : InboundMessage)
  | expire (sid : String)
  | connect (sid : String) (id : Nat) (connected : Bool)
  | leave (sid : String) (id : Nat) (doneCleanly : Bool)
  | finish (sid : String) (id : Nat) (renamed : Option String)

def System.step (s : System) : SystemInput → System
  | .operator env msg => (handleMessage s env msg).1
  | .annotator annotatorId env msg =>
      { s with server := (handleAnnotatorMessage s.server env annotatorId msg).1 }
  | .expire sid => s.setRedis (s.server.redis.releaseClaim sid)
  | .connect sid id connected => connectLoop s sid id connected
  | .leave sid id doneCleanly => s.watch sid (.leave id doneCleanly)
  | .finish sid id renamed => finishLoop s sid id renamed

end MemoryArchive.Ipc
