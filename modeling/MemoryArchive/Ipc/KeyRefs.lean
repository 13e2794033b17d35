import MemoryArchive.Data.TwoRuns
import MemoryArchive.Ipc.CloudReasoning
import MemoryArchive.Ipc.Isolation

namespace MemoryArchive.Ipc

open Registry

/-- The other fields of a session record. No message of an annotator but
GetSessionStatus makes anything of them. -/
structure SessionDetails where
  osType : String
  osVersion : String
  osArchitecture : String
  osEnvironmentId : String
  captureServerId : String
  actuationServerId : String
  reasoningModelId : Option String
  maCoreAddr : String
  updatedAt : String
  modelProvider : String
  modelEndpoint : String
  modelApiKeyRef : String
  contextWindowSteps : UInt32
  fallbackModelProvider : String
  fallbackModelEndpoint : String
  fallbackApiKeyRef : String
  captureServerAddr : String
  theEyesAddr : String

/-- A whole record as flat pairs of field and value. -/
def toRedisPairs (r : SessionRecord) (d : SessionDetails) : List (String × String) :=
  [("session_id", r.sessionId), ("mode", r.mode.text), ("status", r.status.text), ("os_type", d.osType),
    ("os_version", d.osVersion), ("os_architecture", d.osArchitecture),
    ("os_environment_id", d.osEnvironmentId), ("capture_server_id", d.captureServerId),
    ("actuation_server_id", d.actuationServerId), ("memory_name", r.memoryName),
    ("memory_path", r.memoryPath), ("ma_core_addr", d.maCoreAddr), ("created_at", r.createdAt),
    ("updated_at", d.updatedAt), ("total_steps", toString r.totalSteps),
    ("annotated_steps", toString r.annotatedSteps), ("skipped_steps", toString r.skippedSteps),
    ("tenant_id", r.tenantId), ("model_provider", d.modelProvider), ("model_endpoint", d.modelEndpoint),
    ("model_api_key_ref", d.modelApiKeyRef), ("context_window_steps", toString d.contextWindowSteps),
    ("fallback_model_provider", d.fallbackModelProvider),
    ("fallback_model_endpoint", d.fallbackModelEndpoint), ("fallback_api_key_ref", d.fallbackApiKeyRef),
    ("storage_backend", r.storageBackend), ("capture_server_addr", d.captureServerAddr),
    ("the_eyes_addr", d.theEyesAddr)] ++
  (d.reasoningModelId.map fun modelId => ("reasoning_model_id", modelId)).toList

/-- The map of a SessionStatus: one field is taken out by its name. -/
def shownFields (pairs : List (String × String)) : List (String × String) :=
  pairs.filter (·.1 ≠ "model_api_key_ref")

/-- The server with the whole records of its sessions. -/
structure FullServer where
  server : Server
  details : String → SessionDetails

/-- An answer as it is sent: of a session's status the shown fields. -/
inductive Response
  | session (fields : List (String × String))
  | reply (msg : OutboundMessage)

inductive AnnotatorInput
  | message (annotatorId : String) (env : Env) (now : String) (msg : InboundMessage)
  | expire (sid : String)

/-- The session whose hash a message writes, with a new `updated_at`. -/
def writtenSession (s : Server) (annotatorId : String) (msg : InboundMessage) : Option String :=
  match msg with
  | .releaseSession sid claimId =>
      if s.redis.getClaimOwner sid = some annotatorId ∧ s.redis.verifyClaimId sid claimId ∧
          (s.redis.get sid).toOption.map SessionRecord.status = some .annotating then
        some sid
      else none
  | .loadSession sid =>
      if s.redis.getClaimOwner sid = some annotatorId ∧
          ((s.redis.get sid).toOption.map SessionRecord.status =
              some SessionStatus.pendingHumanAnnotation ∨
            (s.redis.get sid).toOption.map SessionRecord.status = some .annotating) then
        some sid
      else none
  | .updateAnnotationProgress sid _ _ | InboundMessage.closeAnnotation sid
  | InboundMessage.completeAnnotation sid =>
      if s.redis.getClaimOwner sid = some annotatorId then some sid else none
  | _ => none

namespace FullServer

variable (s : FullServer)

def respond (sid : String) : OutboundMessage → Response
  | .sessionStatus r => .session (shownFields (toRedisPairs r (s.details sid)))
  | msg => .reply msg

def stamp (now : String) : Option String → String → SessionDetails
  | none => s.details
  | some sid => Function.update s.details sid { s.details sid with updatedAt := now }

def react : AnnotatorInput → FullServer × Option Response
  | .message annotatorId env now msg =>
      let (server, reply) := handleAnnotatorMessage s.server env annotatorId msg
      (⟨server, s.stamp now (writtenSession s.server annotatorId msg)⟩,
        some (s.respond ((opSession msg).getD "") reply))
  | .expire sid =>
      ({ s with server := { s.server with redis := s.server.redis.releaseClaim sid } }, none)

/-- The answer to GetSessionStatus on the connection of an operator. -/
def operatorStatus (sid : String) : Response := s.respond sid (Ipc.getSessionStatus s.server sid)

end FullServer

def SessionDetails.withoutRefs (d : SessionDetails) : SessionDetails :=
  { d with modelApiKeyRef := "", fallbackApiKeyRef := "" }

/-- Two states whose session records differ in the key references at most. -/
structure SameButRefs (s s' : FullServer) : Prop where
  server : s.server = s'.server
  details : ∀ sid, (s.details sid).withoutRefs = (s'.details sid).withoutRefs

/-- A status is asked for only where both states have the same fallback reference, or
where the answer is an error. -/
def AsksBlindly (s s' : FullServer) : AnnotatorInput → Prop
  | .message annotatorId _ _ (.getSessionStatus sid) =>
      s.server.redis.getClaimOwner sid = some annotatorId → ∀ r, s.server.redis.get sid = .ok r →
        (s.details sid).fallbackApiKeyRef = (s'.details sid).fallbackApiKeyRef
  | _ => True

theorem shown_fallback (r : SessionRecord) (d : SessionDetails) :
    (shownFields (toRedisPairs r d)).filter (·.1 = "fallback_api_key_ref") =
      [("fallback_api_key_ref", d.fallbackApiKeyRef)] := by
  cases hmodel : d.reasoningModelId <;> simp [shownFields, toRedisPairs, hmodel]

/-- What is shown of a record tells its fallback reference, and not the other one. -/
theorem shownFields_eq_iff (r : SessionRecord) {d d' : SessionDetails} (h : d.withoutRefs = d'.withoutRefs) :
    shownFields (toRedisPairs r d) = shownFields (toRedisPairs r d') ↔
      d.fallbackApiKeyRef = d'.fallbackApiKeyRef := by
  constructor
  · intro heq
    have hfield := congrArg (List.filter (·.1 = "fallback_api_key_ref")) heq
    rw [shown_fallback, shown_fallback] at hfield
    simpa using hfield
  · intro hsame
    have hd' : d' = { d with modelApiKeyRef := d'.modelApiKeyRef } := by
      cases d
      cases d'
      simp [SessionDetails.withoutRefs] at h hsame
      simp [h, hsame]
    rw [hd']
    simp [shownFields, toRedisPairs]

theorem SameButRefs.stamp {s s' : FullServer} (h : SameButRefs s s') (now : String) (written : Option String)
    (sid : String) : (s.stamp now written sid).withoutRefs = (s'.stamp now written sid).withoutRefs := by
  cases written with
  | none => exact h.details sid
  | some target =>
    rw [FullServer.stamp, FullServer.stamp, Function.update_apply, Function.update_apply]
    split
    · exact congrArg (fun d => { d with updatedAt := now }) (h.details target)
    · exact h.details sid

theorem SameButRefs.react {s s' : FullServer} (h : SameButRefs s s') (i : AnnotatorInput) :
    SameButRefs (s.react i).1 (s'.react i).1 := by
  cases i with
  | message annotatorId env now msg =>
    refine ⟨?_, fun sid => ?_⟩
    · rw [FullServer.react, FullServer.react, h.server]
    · rw [FullServer.react, FullServer.react, h.server]
      exact h.stamp now _ sid
  | expire sid => exact ⟨by rw [FullServer.react, FullServer.react, h.server], h.details⟩

/-- An answer that is no status is sent as it is. -/
theorem SameButRefs.respond_reply {s s' : FullServer} {sid : String} {msg : OutboundMessage}
    (hmsg : ∀ r, msg ≠ .sessionStatus r) : s.respond sid msg = s'.respond sid msg := by
  cases msg with
  | sessionStatus r => exact absurd rfl (hmsg r)
  | _ => rfl

theorem SameButRefs.respond_status {s s' : FullServer} (h : SameButRefs s s') (sid : String) :
    s.respond sid (getSessionStatus s.server sid) = s'.respond sid (getSessionStatus s.server sid) ↔
      ∀ r, s.server.redis.get sid = .ok r →
        (s.details sid).fallbackApiKeyRef = (s'.details sid).fallbackApiKeyRef := by
  rw [getSessionStatus]
  cases hget : s.server.redis.get sid with
  | error e => exact iff_of_true rfl fun r hr => (by cases hr)
  | ok r =>
    dsimp only [FullServer.respond]
    rw [Response.session.injEq, shownFields_eq_iff r (h.details sid)]
    constructor
    · exact fun hsame _ _ => hsame
    · exact fun hsame => hsame r rfl

theorem sessionOp_no_status (s : Server) (env : Env) (msg : InboundMessage)
    (hmsg : ∀ sid, msg ≠ .getSessionStatus sid) (r : SessionRecord) :
    (handleSessionOp s env msg).2 ≠ .sessionStatus r := by
  cases msg with
  | getSessionStatus sid => exact absurd rfl (hmsg sid)
  | loadSession sid =>
    rw [handleSessionOp]
    obtain ⟨_, _, heq⟩ | ⟨_, -, -, heq⟩ := loadSession_cases s sid
    · rw [heq]
      exact fun h => by cases h
    · rw [heq]
      exact fun h => by cases h
  | fetchFile sid path =>
    rw [handleSessionOp, fetchFile]
    dsimp only
    repeat (first | exact fun h => (by cases h) | split)
  | listSessionFiles sid lead =>
    rw [handleSessionOp, listSessionFiles]
    dsimp only
    repeat (first | exact fun h => (by cases h) | split)
  | uploadFile u =>
    obtain ⟨code, message, herror⟩ | haccepted := CloudWorld.uploadFile_reply env u s env.fault
    · rw [handleSessionOp, herror]
      simp
    · rw [handleSessionOp, haccepted]
      simp
  | _ => simp [handleSessionOp]

/-- The status of a session is the answer to GetSessionStatus only. -/
theorem handle_no_status (s : Server) (env : Env) (annotatorId : String) (msg : InboundMessage)
    (hmsg : ∀ sid, msg ≠ .getSessionStatus sid) (r : SessionRecord) :
    (handleAnnotatorMessage s env annotatorId msg).2 ≠ .sessionStatus r := by
  have hop : (handleClaimedOp s env annotatorId msg).2 ≠ .sessionStatus r := by
    obtain ⟨_, _, heq⟩ | ⟨sid, -, -, heq⟩ := handleClaimedOp_eq s env annotatorId msg
    · rw [heq]
      exact fun h => (by cases h)
    · rw [heq]
      exact sessionOp_no_status s env msg hmsg r
  cases msg with
  | ping | listAnnotationQueue => simp [handleAnnotatorMessage, listAnnotationQueue]
  | claimSession sid =>
    rw [handleAnnotatorMessage, claimSession]
    split
    · simp
    · split <;> simp
  | heartbeatClaim sid claimId =>
    rw [handleAnnotatorMessage, heartbeatClaim]
    dsimp only
    repeat (first | exact fun h => (by cases h) | split)
  | releaseSession sid claimId =>
    rw [handleAnnotatorMessage]
    obtain ⟨-, _, _, heq⟩ | ⟨-, ⟨_, -, -, heq⟩ | ⟨-, heq⟩⟩ := releaseSession_cases s annotatorId sid claimId <;>
    · rw [heq]
      exact fun h => by cases h
  | _ => exact hop

theorem handle_getSessionStatus (s : Server) (env : Env) (annotatorId sid : String) :
    (handleAnnotatorMessage s env annotatorId (.getSessionStatus sid)).2 =
      if s.redis.getClaimOwner sid = some annotatorId then getSessionStatus s sid else notOwner sid := by
  change (handleClaimedOp s env annotatorId (.getSessionStatus sid)).2 = _
  rw [handleClaimedOp]
  dsimp only [opSession]
  by_cases howner : s.redis.getClaimOwner sid = some annotatorId
  · rw [if_neg (not_not.mpr howner), if_pos howner]
    rfl
  · rw [if_pos howner, if_neg howner]

theorem SameButRefs.output_iff {s s' : FullServer} (h : SameButRefs s s') (i : AnnotatorInput) :
    (s.react i).2 = (s'.react i).2 ↔ AsksBlindly s s' i := by
  cases i with
  | expire sid => exact iff_of_true rfl trivial
  | message annotatorId env now msg =>
    have hreply : (s'.react (.message annotatorId env now msg)).2 =
        some (s'.respond ((opSession msg).getD "") (handleAnnotatorMessage s.server env annotatorId msg).2) := by
      rw [FullServer.react, h.server]
    have hown : (s.react (.message annotatorId env now msg)).2 =
        some (s.respond ((opSession msg).getD "") (handleAnnotatorMessage s.server env annotatorId msg).2) := rfl
    rw [hown, hreply, Option.some_inj]
    cases msg with
    | getSessionStatus sid =>
      rw [handle_getSessionStatus]
      dsimp only [opSession, Option.getD_some]
      rw [AsksBlindly]
      by_cases howner : s.server.redis.getClaimOwner sid = some annotatorId
      · rw [if_pos howner, h.respond_status sid]
        exact ⟨fun hsame _ => hsame, fun hsame => hsame howner⟩
      · rw [if_neg howner]
        exact iff_of_true rfl fun hclaim => absurd hclaim howner
    | _ => exact iff_of_true (SameButRefs.respond_reply (handle_no_status _ _ _ _ (by simp))) trivial

/-- Annotators are told the same in two states that differ in key references just when
they ask for no status that differs in the fallback reference, and so are operators. -/
theorem keyRefs_hidden_iff (s s' : FullServer) (h : SameButRefs s s') :
    (∀ is, TwoRuns.outputs FullServer.react s is = TwoRuns.outputs FullServer.react s' is ↔
        TwoRuns.GuardedBoth FullServer.react AsksBlindly s s' is) ∧
      ∀ sid, s.operatorStatus sid = s'.operatorStatus sid ↔ ∀ r, s.server.redis.get sid = .ok r →
        (s.details sid).fallbackApiKeyRef = (s'.details sid).fallbackApiKeyRef := by
  constructor
  · intro is
    exact TwoRuns.outputs_eq_iff (fun _ _ i h => h.react i) (fun _ _ i h => h.output_iff i) s s' is h
  · intro sid
    rw [FullServer.operatorStatus, FullServer.operatorStatus, ← h.server]
    exact h.respond_status sid

/-- Two registered sessions, the first of them claimed by the annotator, with the given
key references. -/
def sampleFull (modelApiKeyRef fallbackApiKeyRef : String) : FullServer where
  server :=
    { sampleWorld.server with
      redis := { sampleWorld.server.redis with
        claims := fun sid => if sid = "s1" then some (claimValue "ann" "5c1b") else none } }
  details _ :=
    { osType := "linux", osVersion := "24.04", osArchitecture := "x86_64", osEnvironmentId := "env-1",
      captureServerId := "eyes-1", actuationServerId := "cc-1", reasoningModelId := none, maCoreAddr := "",
      updatedAt := "2026-01-01T00:00:00+00:00", modelProvider := "anthropic", modelEndpoint := "",
      modelApiKeyRef := modelApiKeyRef, contextWindowSteps := 5, fallbackModelProvider := "openai",
      fallbackModelEndpoint := "", fallbackApiKeyRef := fallbackApiKeyRef, captureServerAddr := "",
      theEyesAddr := "" }

def askStatus : List AnnotatorInput :=
  [.message "ann" sampleEnv "now" (.loadSession "s1"), .message "ann" sampleEnv "now" (.getSessionStatus "s1")]

theorem keyRefs_hidden_model_ref :
    TwoRuns.outputs FullServer.react (sampleFull "vault:a" "vault:c") askStatus =
      TwoRuns.outputs FullServer.react (sampleFull "vault:b" "vault:c") askStatus := by
  apply ((keyRefs_hidden_iff _ _ ⟨rfl, fun _ => rfl⟩).1 askStatus).mpr
  exact ⟨trivial, fun _ _ _ => rfl, trivial⟩

/-- The holder of a claim is told the reference of the fallback model. -/
theorem fallback_ref_shown :
    SameButRefs (sampleFull "vault:a" "vault:b") (sampleFull "vault:a" "vault:c") ∧
      TwoRuns.outputs FullServer.react (sampleFull "vault:a" "vault:b") askStatus ≠
        TwoRuns.outputs FullServer.react (sampleFull "vault:a" "vault:c") askStatus ∧
      (sampleFull "vault:a" "vault:b").operatorStatus "s1" ≠
        (sampleFull "vault:a" "vault:c").operatorStatus "s1" := by
  have hshown : ∀ r (d d' : SessionDetails), d.fallbackApiKeyRef = "vault:b" →
      d'.fallbackApiKeyRef = "vault:c" →
      Response.session (shownFields (toRedisPairs r d)) ≠ .session (shownFields (toRedisPairs r d')) := by
    intro r d d' hd hd' h
    have hfield := congrArg (List.filter (·.1 = "fallback_api_key_ref")) (Response.session.inj h)
    rw [shown_fallback, shown_fallback, hd, hd'] at hfield
    revert hfield
    decide
  refine ⟨⟨rfl, fun _ => rfl⟩, fun h => ?_, hshown _ _ _ rfl rfl⟩
  have hstatus := Option.some.inj (List.cons.inj (List.cons.inj h).2).1
  exact hshown _ _ _ rfl rfl hstatus

end MemoryArchive.Ipc
