import MemoryArchive.Ipc.Lifecycle

namespace MemoryArchive.Ipc

open Registry Runs

/-- A registry without ghosts: every hash is a whole record, and only sessions
with one are indexed or claimed. -/
structure Solid (redis : Redis) : Prop where
  whole : ∀ sid, redis.sessions sid ≠ .absent → ∃ r, redis.sessions sid = .record r
  indexed : ∀ status, ∀ sid ∈ redis.index status, redis.sessions sid ≠ .absent
  claimed : ∀ sid, redis.claims sid ≠ none → redis.sessions sid ≠ .absent

/-- What brings neither a ghost nor a new session into the registry. -/
structure Keeps (redis redis' : Redis) : Prop where
  solid : Solid redis → Solid redis'
  absent : ∀ sid, redis.sessions sid = .absent → redis'.sessions sid = .absent

theorem Keeps.refl (redis : Redis) : Keeps redis redis := ⟨fun h => h, fun _ h => h⟩

theorem Keeps.trans {redis redis' redis'' : Redis} (h : Keeps redis redis')
    (h' : Keeps redis' redis'') : Keeps redis redis'' :=
  ⟨fun hs => h'.solid (h.solid hs), fun sid hsid => h'.absent sid (h.absent sid hsid)⟩

section Updates

variable {redis : Redis} {sid : String}

/-- A write of single fields to a hash that is there, which may move the session
between the index sets. -/
theorem keeps_write (hsid : redis.sessions sid ≠ .absent) {redis' : Redis} {f : Entry → Entry}
    (hsessions : redis'.sessions = Function.update redis.sessions sid (f (redis.sessions sid)))
    (hwrite : ∀ r, ∃ r', f (.record r) = .record r')
    (hindex : ∀ status, ∀ id ∈ redis'.index status, id ≠ sid → id ∈ redis.index status)
    (hclaims : redis'.claims = redis.claims) : Keeps redis redis' := by
  have hother : ∀ id, id ≠ sid → redis'.sessions id = redis.sessions id := by
    intro id hid
    rw [hsessions, Function.update_of_ne hid]
  refine ⟨fun h => ?_, fun id hid => ?_⟩
  · obtain ⟨r, hr⟩ := h.whole sid hsid
    obtain ⟨r', hr'⟩ := hwrite r
    have hself : redis'.sessions sid = .record r' := by
      rw [hsessions, Function.update_self, hr, hr']
    have hkept : ∀ id, (id ≠ sid → redis.sessions id ≠ .absent) → redis'.sessions id ≠ .absent := by
      intro id hne
      by_cases hid : id = sid
      · rw [hid, hself]
        simp
      · rw [hother id hid]
        exact hne hid
    refine ⟨fun id hid => ?_, fun status id hid => ?_, fun id hid => ?_⟩
    · by_cases he : id = sid
      · exact ⟨r', by rw [he, hself]⟩
      · rw [hother id he] at hid ⊢
        exact h.whole id hid
    · exact hkept id fun he => h.indexed status id (hindex status id hid he)
    · rw [hclaims] at hid
      exact hkept id fun _ => h.claimed id hid
  · have hne : id ≠ sid := by
      rintro rfl
      exact hsid hid
    rw [hother id hne, hid]

theorem Entry.setStatus_ne_absent (e : Entry) (new : SessionStatus) : e.setStatus new ≠ .absent := by
  cases e <;> simp [Entry.setStatus]

theorem keeps_updateStatus (hsid : redis.sessions sid ≠ .absent) (new : SessionStatus) :
    Keeps redis (redis.updateStatus sid new) := by
  refine keeps_write (f := Entry.setStatus new) hsid rfl (fun r => ⟨_, rfl⟩) ?_ rfl
  intro status id hid hne
  obtain ⟨he, -⟩ | ⟨hmem, -⟩ := mem_moveIndex.mp hid
  · exact absurd he hne
  · exact hmem

theorem keeps_updateCounters (hsid : redis.sessions sid ≠ .absent) (annotated skipped : UInt32) :
    Keeps redis (redis.updateAnnotationCounters sid annotated skipped) :=
  keeps_write (f := Entry.setCounters annotated skipped) hsid rfl (fun _ => ⟨_, rfl⟩)
    (fun _ _ hid _ => hid) rfl

theorem keeps_updateMemoryPath (hsid : redis.sessions sid ≠ .absent) (path : String) :
    Keeps redis (redis.updateMemoryPath sid path) :=
  keeps_write (f := Entry.setMemoryPath path) hsid rfl (fun _ => ⟨_, rfl⟩)
    (fun _ _ hid _ => hid) rfl

theorem keeps_releaseClaim (redis : Redis) (sid : String) : Keeps redis (redis.releaseClaim sid) := by
  refine ⟨fun h => ⟨h.whole, h.indexed, fun id hid => h.claimed id ?_⟩, fun _ h => h⟩
  rw [Redis.releaseClaim] at hid
  dsimp only at hid
  rw [Function.update_apply] at hid
  split at hid
  · exact absurd rfl hid
  · exact hid

/-- A claim of a session that has a record. -/
theorem keeps_claim (hsid : redis.sessions sid ≠ .absent) (value : Option String) :
    Keeps redis { redis with claims := Function.update redis.claims sid value } := by
  refine ⟨fun h => ⟨h.whole, h.indexed, fun id hid => ?_⟩, fun _ h => h⟩
  dsimp only at hid
  rw [Function.update_apply] at hid
  split at hid
  · rename_i he
    rwa [he]
  · exact h.claimed id hid

theorem keeps_deleteSession {redis' : Redis} {removed : Bool}
    (h : redis.deleteSession sid = .ok (redis', removed)) : Keeps redis redis' := by
  have hsessions := Redis.deleteSession_ok h
  have hself : redis'.sessions sid = .absent := by
    rw [hsessions, Function.update_self]
  have hother : ∀ id, id ≠ sid → redis'.sessions id = redis.sessions id := by
    intro id hid
    rw [hsessions, Function.update_of_ne hid]
  rw [Redis.deleteSession] at h
  split at h
  · cases h
  cases h
  refine ⟨fun hs => ⟨fun id hid => ?_, fun status id hid => ?_, fun id hid => ?_⟩, fun id hid => ?_⟩
  · have hne : id ≠ sid := by
      rintro rfl
      exact hid hself
    rw [hother id hne] at hid ⊢
    exact hs.whole id hid
  · obtain ⟨hmem, hne⟩ := List.mem_filter.mp hid
    rw [hother id (of_decide_eq_true hne)]
    exact hs.indexed status id hmem
  · dsimp only at hid
    rw [Function.update_apply] at hid
    split at hid
    · exact absurd rfl hid
    · rename_i hne
      rw [hother id hne]
      exact hs.claimed id hid
  · by_cases he : id = sid
    · rw [he, hself]
    · rw [hother id he, hid]

theorem solid_register {redis' : Redis} {record : SessionRecord} (hs : Solid redis)
    (h : redis.register record = .ok redis') : Solid redis' := by
  obtain ⟨-, hsessions⟩ := Redis.register_ok h
  have hself : redis'.sessions record.sessionId = .record record := by
    rw [hsessions, Function.update_self]
  have hother : ∀ id, id ≠ record.sessionId → redis'.sessions id = redis.sessions id := by
    intro id hid
    rw [hsessions, Function.update_of_ne hid]
  have hkept : ∀ id, (id ≠ record.sessionId → redis.sessions id ≠ .absent) →
      redis'.sessions id ≠ .absent := by
    intro id hne
    by_cases hid : id = record.sessionId
    · rw [hid, hself]
      simp
    · rw [hother id hid]
      exact hne hid
  rw [Redis.register] at h
  split at h
  · cases h
    refine ⟨fun id hid => ?_, fun status id hid => hkept id fun hne => ?_,
      fun id hid => hkept id fun _ => hs.claimed id hid⟩
    · by_cases he : id = record.sessionId
      · exact ⟨record, by rw [he, hself]⟩
      · rw [hother id he] at hid ⊢
        exact hs.whole id hid
    · obtain ⟨he, -⟩ | ⟨hmem, -⟩ := mem_moveIndex.mp hid
      · exact absurd he hne
      · exact hs.indexed status id hmem
  · cases h

end Updates

def System.Present (s : System) (sid : String) : Prop := s.entry sid ≠ .absent

instance (s : System) (sid : String) : Decidable (s.Present sid) :=
  inferInstanceAs (Decidable (_ ≠ _))

def System.reply (s : System) : SystemInput → Option OutboundMessage
  | .operator env msg => (handleMessage s env msg).2
  | .annotator annotatorId env msg => some (handleAnnotatorMessage s.server env annotatorId msg).2
  | .expire _ | .connect _ _ _ | .leave _ _ _ | .finish _ _ _ => none

/-- The session that a message of an operator is about. -/
def OperatorMessage.session? : OperatorMessage → Option String
  | .getSessionStatus sid | .startWatch sid | .done sid | .loadSession sid
  | .updateAnnotationProgress sid _ _ | OperatorMessage.closeAnnotation sid
  | OperatorMessage.completeAnnotation sid | .finalizeMemory sid | .fetchFile sid _
  | .listSessionFiles sid _ | .reasoningResult sid _ | .reasoningDegraded sid _ | .circuitReset sid
  | .compileMemory sid | .deleteSession sid _ => some sid
  | .uploadFile upload => some upload.sessionId
  | .ping | .registerSession _ | .registerAnnotator _ _ _ | .annotatorOnly => none

/-- The session that a message of an annotator is about. ClaimSession may leave
the choice to the server. -/
def InboundMessage.session? : InboundMessage → Option String
  | .claimSession sid => if sid = "" then none else some sid
  | msg => claimedSession msg

def SystemInput.session? : SystemInput → Option String
  | .operator _ msg => msg.session?
  | .annotator _ _ msg => msg.session?
  | .expire _ | .connect _ _ _ | .leave _ _ _ | .finish _ _ _ => none

/-- A step leaves no ghost: every hash is read back, only RegisterSession makes
one, and a message about a session without a hash stores nothing and gets an
answer of the given kind. -/
structure NoGhosts (answer : OutboundMessage → Prop) (s : System) (i : SystemInput) (s' : System) :
    Prop where
  parsed : ∀ sid, s'.Present sid → ∃ r, s'.server.redis.get sid = .ok r
  created : ∀ sid, ¬ s.Present sid → s'.Present sid → i.Registers sid
  nothing : ∀ sid, i.session? = some sid → ¬ s.Present sid →
    ¬ s'.Present sid ∧ (∀ status, sid ∉ s'.server.redis.index status) ∧
      s'.server.redis.claims sid = none
  answered : ∀ sid, i.session? = some sid → ¬ s.Present sid → ∃ m, s.reply i = some m ∧ answer m

def OutboundMessage.IsError (m : OutboundMessage) : Prop := ∃ code message, m = .error code message

/-- The sweep of what a session without a record may have left. -/
def OutboundMessage.IsSweep (m : OutboundMessage) : Prop :=
  ∃ sid objectsRemoved, m = .sessionDeleted sid "" false objectsRemoved false

def ErrorOrSweep (m : OutboundMessage) : Prop := m.IsError ∨ m.IsSweep

/-- A hash is written to only where there is one. -/
def Grounded (s : System) : SystemInput → Bool
  | .operator _ msg =>
      match msg with
      | .updateAnnotationProgress sid _ _ | OperatorMessage.closeAnnotation sid
      | OperatorMessage.completeAnnotation sid | .finalizeMemory sid | .reasoningDegraded sid _
      | .circuitReset sid => s.Present sid
      | .done sid => (s.control sid).handle.isNone || s.Present sid
      | _ => true
  | .annotator _ _ msg =>
      match msg with
      | .claimSession sid => sid = "" || s.Present sid
      | _ => true
  | .connect sid id connected => connected || ((s.control sid).loop? id).isNone || s.Present sid
  | .finish sid id _ => ((s.control sid).loop? id).isNone || s.Present sid
  | .expire _ | .leave _ _ _ => true

section Steps

variable {s : System}

theorem present_of_get {sid : String} {r : SessionRecord} (h : s.server.redis.get sid = .ok r) :
    s.server.redis.sessions sid ≠ .absent := by
  rw [(s.server.redis.get_eq_ok sid r).mp h]
  simp

theorem keeps_startWatch (env : OperatorEnv) (sid : String) :
    Keeps s.server.redis (startWatch s env sid).1.server.redis := by
  obtain heq | ⟨r, hr, -, heq | heq⟩ := startWatch_eq s env sid
  · rw [heq]
    exact .refl _
  · rw [heq]
    exact .refl _
  · rw [heq]
    exact keeps_updateStatus (present_of_get hr) .incomplete

theorem keeps_done (env : OperatorEnv) (sid : String) :
    Keeps s.server.redis (done s env sid).1.server.redis := by
  obtain heq | heq | ⟨r, hr, heq⟩ := done_eq s env sid
  · rw [heq]
    exact .refl _
  · rw [heq]
    exact .refl _
  · rw [heq]
    exact keeps_updateStatus (present_of_get hr) _

theorem keeps_operatorLoadSession (sid : String) :
    Keeps s.server.redis (operatorLoadSession s sid).1.server.redis := by
  obtain heq | ⟨r, hr, -, heq⟩ := operatorLoadSession_eq s sid
  · rw [heq]
    exact .refl _
  · rw [heq]
    exact keeps_updateStatus (present_of_get hr) .annotating

theorem keeps_delete (env : OperatorEnv) (sid : String) (force : Bool) :
    Keeps s.server.redis (deleteSession s env sid force).1.server.redis := by
  obtain ⟨_, -, -, ⟨-, redis, _, _, _, _, hdelete, heq⟩ | ⟨-, _, _, heq⟩⟩ :=
    deleteSession_eq s env sid force
  · rw [heq]
    exact keeps_deleteSession hdelete
  · rw [heq]
    exact .refl _

theorem keeps_operator (env : OperatorEnv) (msg : OperatorMessage)
    (hr : ∀ r, msg ≠ .registerSession r) (hg : Grounded s (.operator env msg) = true) :
    Keeps s.server.redis (handleMessage s env msg).1.server.redis := by
  cases msg with
  | registerSession r => exact absurd rfl (hr r)
  | startWatch sid => exact keeps_startWatch env sid
  | done sid => exact keeps_done env sid
  | loadSession sid => exact keeps_operatorLoadSession sid
  | updateAnnotationProgress sid annotated skipped =>
    exact keeps_updateCounters (of_decide_eq_true hg) annotated skipped
  | closeAnnotation sid =>
    exact keeps_updateStatus (of_decide_eq_true hg) SessionStatus.pendingAnnotation
  | completeAnnotation sid => exact keeps_updateStatus (of_decide_eq_true hg) .pendingCompilation
  | finalizeMemory sid => exact keeps_updateStatus (of_decide_eq_true hg) .complete
  | reasoningDegraded sid stepRangeStart =>
    exact keeps_updateStatus (of_decide_eq_true hg) .reasoningDegraded
  | circuitReset sid => exact keeps_updateStatus (of_decide_eq_true hg) .active
  | deleteSession sid force => exact keeps_delete env sid force
  | uploadFile upload =>
    have hsame := uploadFile_redis env.env.serdeError s.server env.env.fault upload
    simp only [handleMessage]
    rw [hsame]
    exact .refl _
  | registerAnnotator annotatorId allowedTenantIds maxClaims =>
    simp only [handleMessage, registerAnnotator]
    split
    · exact .refl _
    · rename_i redis hregister
      rw [Redis.registerAnnotator] at hregister
      split at hregister
      · cases hregister
      · cases hregister
        exact ⟨fun h => ⟨h.whole, h.indexed, h.claimed⟩, fun _ h => h⟩
  | _ => exact .refl _

/-- A claimed session has a record. -/
theorem Solid.present_of_owner {redis : Redis} (h : Solid redis) {sid b : String}
    (howner : redis.getClaimOwner sid = some b) : redis.sessions sid ≠ .absent := by
  refine h.claimed sid fun hnone => ?_
  rw [Redis.getClaimOwner, hnone] at howner
  cases howner

theorem keeps_sessionOp (b : String) (env : Env) (msg : InboundMessage) (sid : String)
    (hs : Solid s.server.redis) (hsid : opSession msg = some sid)
    (howner : s.server.redis.getClaimOwner sid = some b) :
    Keeps s.server.redis (handleSessionOp s.server env msg).1.redis := by
  have hpresent := hs.present_of_owner howner
  cases msg with
  | loadSession _ =>
    cases hsid
    rw [handleSessionOp]
    obtain ⟨_, _, heq⟩ | ⟨r, hr, -, heq⟩ := loadSession_cases s.server sid
    · rw [heq]
      exact .refl _
    · rw [heq]
      exact keeps_updateStatus (present_of_get hr) .annotating
  | updateAnnotationProgress _ annotated skipped =>
    cases hsid
    exact keeps_updateCounters hpresent annotated skipped
  | closeAnnotation _ =>
    cases hsid
    exact keeps_updateStatus hpresent SessionStatus.pendingHumanAnnotation
  | completeAnnotation _ =>
    cases hsid
    exact keeps_updateStatus hpresent .pendingCompilation
  | uploadFile u =>
    rw [handleSessionOp, uploadFile_redis]
    exact .refl _
  | _ => exact .refl _

theorem keeps_claimSession (b : String) (env : Env) (sid : String)
    (hg : Grounded s (.annotator b env (.claimSession sid)) = true) :
    Keeps s.server.redis (claimSession s.server env b sid).1.redis := by
  obtain ⟨hsame, -⟩ | ⟨target, -, -, htarget, hclaim⟩ := claimSession_cases s.server env b sid
  · rw [hsame]
    exact .refl _
  · rw [hclaim]
    refine keeps_claim ?_ _
    obtain ⟨-, -, -, r, hr, -⟩ | ⟨hne, rfl⟩ := htarget
    · exact present_of_get hr
    · have hpresent : s.Present target := by simpa [Grounded, hne] using hg
      exact hpresent

theorem keeps_releaseSession (b sid claimId : String) :
    Keeps s.server.redis (releaseSession s.server b sid claimId).1.redis := by
  have hreleased := keeps_releaseClaim s.server.redis sid
  obtain ⟨-, _, _, heq⟩ | ⟨-, ⟨r, hr, -, heq⟩ | ⟨-, heq⟩⟩ := releaseSession_cases s.server b sid claimId
  · rw [heq]
    exact .refl _
  · rw [heq]
    have hpresent : (s.server.redis.releaseClaim sid).sessions sid ≠ .absent := by
      rw [((s.server.redis.releaseClaim sid).get_eq_ok sid r).mp hr]
      simp
    exact hreleased.trans (keeps_updateStatus hpresent SessionStatus.pendingHumanAnnotation)
  · rw [heq]
    exact hreleased

theorem keeps_annotator (b : String) (env : Env) (msg : InboundMessage) (hs : Solid s.server.redis)
    (hg : Grounded s (.annotator b env msg) = true) :
    Keeps s.server.redis (handleAnnotatorMessage s.server env b msg).1.redis := by
  have hclaimed : handleAnnotatorMessage s.server env b msg = handleClaimedOp s.server env b msg →
      Keeps s.server.redis (handleAnnotatorMessage s.server env b msg).1.redis := by
    intro he
    rw [he]
    obtain ⟨_, _, heq⟩ | ⟨sid, hsid, howner, heq⟩ := handleClaimedOp_eq s.server env b msg
    · rw [heq]
      exact .refl _
    · rw [heq]
      exact keeps_sessionOp b env msg sid hs hsid howner
  cases msg with
  | ping | listAnnotationQueue | heartbeatClaim _ _ => exact .refl _
  | claimSession sid => exact keeps_claimSession b env sid hg
  | releaseSession sid claimId => exact keeps_releaseSession b sid claimId
  | _ => exact hclaimed rfl

theorem keeps_connect (sid : String) (id : Nat) (connected : Bool)
    (hg : Grounded s (.connect sid id connected) = true) :
    Keeps s.server.redis (connectLoop s sid id connected).server.redis := by
  obtain hsame | ⟨l, hl, -, ⟨-, heq⟩ | ⟨hconnected, heq⟩⟩ := connectLoop_eq s sid id connected
  · rw [hsame]
    exact .refl _
  · rw [heq]
    exact .refl _
  · rw [heq]
    have hpresent : s.Present sid := by simpa [Grounded, hconnected, hl] using hg
    exact keeps_updateStatus hpresent .incomplete

theorem keeps_finish (sid : String) (id : Nat) (renamed : Option String)
    (hg : Grounded s (.finish sid id renamed) = true) :
    Keeps s.server.redis (finishLoop s sid id renamed).server.redis := by
  obtain hsame | ⟨l, doneCleanly, hl, -, heq⟩ := finishLoop_eq s sid id renamed
  · rw [hsame]
    exact .refl _
  have hpresent : s.Present sid := by simpa [Grounded, hl] using hg
  rw [heq]
  obtain hset | ⟨path, -, -, hset⟩ :=
    endLoop_eq (s.watch sid (.finish id)) sid doneCleanly l.wasDegraded renamed
  · rw [hset]
    exact keeps_updateStatus hpresent _
  · rw [hset]
    refine (keeps_updateStatus hpresent .incomplete).trans (keeps_updateMemoryPath ?_ path)
    rw [Redis.updateStatus]
    dsimp only
    rw [Function.update_self]
    exact Entry.setStatus_ne_absent _ _

/-- What a step brings into the registry is a session that it registers. -/
structure Grows (s : System) (i : SystemInput) (s' : System) : Prop where
  solid : Solid s'.server.redis
  created : ∀ sid, ¬ s.Present sid → s'.Present sid → i.Registers sid

theorem Keeps.grows {s' : System} {i : SystemInput} (h : Keeps s.server.redis s'.server.redis)
    (hs : Solid s.server.redis) : Grows s i s' :=
  ⟨h.solid hs, fun sid habsent hpresent => absurd (h.absent sid (not_not.mp habsent)) hpresent⟩

theorem grows_registerSession (env : OperatorEnv) (r : Registration) (hs : Solid s.server.redis) :
    Grows s (.operator env (.registerSession r)) (registerSession s env r).1 := by
  obtain heq | ⟨record, redis, hid, -, -, hregister, hset⟩ := registerSession_eq s env r
  · rw [heq]
    exact (Keeps.refl _).grows hs
  obtain ⟨-, hsessions⟩ := Redis.register_ok hregister
  rw [hid] at hsessions
  have hregistered : Grows s (.operator env (.registerSession r)) (s.setRedis redis) := by
    refine ⟨solid_register hs hregister, fun sid habsent hpresent => ⟨env, r, rfl, ?_⟩⟩
    by_contra hne
    apply hpresent
    rw [System.entry, System.setRedis]
    dsimp only
    rw [hsessions, Function.update_of_ne (Ne.symm hne)]
    exact not_not.mp habsent
  obtain heq | heq := hset
  · rw [heq]
    exact hregistered
  · rw [heq]
    have hpresent : redis.sessions env.sessionId ≠ .absent := by
      rw [hsessions]
      simp
    have hset := keeps_updateStatus hpresent .incomplete
    refine ⟨hset.solid hregistered.solid, fun sid habsent hnew => ?_⟩
    exact hregistered.created sid habsent fun he => hnew (hset.absent sid he)

theorem grows_step (s : System) (i : SystemInput) (hs : Solid s.server.redis)
    (hg : Grounded s i = true) : Grows s i (s.step i) := by
  cases i with
  | operator env msg =>
    cases msg with
    | registerSession r => exact grows_registerSession env r hs
    | _ => exact (keeps_operator env _ (fun _ he => by cases he) hg).grows hs
  | annotator b env msg => exact (keeps_annotator b env msg hs hg).grows hs
  | expire sid => exact (keeps_releaseClaim s.server.redis sid).grows hs
  | connect sid id connected => exact (keeps_connect sid id connected hg).grows hs
  | leave sid id doneCleanly =>
    have hkept : Keeps s.server.redis (s.watch sid (.leave id doneCleanly)).server.redis := .refl _
    exact hkept.grows hs
  | finish sid id renamed => exact (keeps_finish sid id renamed hg).grows hs

theorem get_absent {sid : String} (h : ¬ s.Present sid) :
    s.server.redis.get sid = .error s!"Session '{sid}' not found in registry" := by
  have habsent : s.server.redis.sessions sid = .absent := not_not.mp h
  rw [Redis.get, habsent]

theorem upload_refused (serdeError : List Char → String) (server : Server) (fault : Option String)
    {u : Upload} {e : String} (h : server.redis.get u.sessionId = .error e) :
    (uploadFile serdeError server fault u).2.IsError := by
  rw [uploadFile]
  split
  · exact ⟨_, _, rfl⟩
  split
  · exact ⟨_, _, rfl⟩
  split
  · exact ⟨_, _, rfl⟩
  · rw [h]
    exact ⟨_, _, rfl⟩

theorem delete_refused (env : OperatorEnv) (sid : String) (force : Bool) (h : ¬ s.Present sid) :
    ErrorOrSweep (deleteSession s env sid force).2 := by
  rw [deleteSession, get_absent h]
  split
  · exact .inl ⟨_, _, rfl⟩
  dsimp only
  rw [Redis.deleteSession]
  split
  · rename_i hempty
    split at hempty
    · exact .inl ⟨_, _, rfl⟩
    · cases hempty
  · rename_i redis removed hdelete
    split at hdelete
    · cases hdelete
    · cases hdelete
      refine .inr ⟨sid, env.objectsRemoved, ?_⟩
      have habsent : s.server.redis.sessions sid = .absent := not_not.mp h
      simp [habsent]

theorem operator_refused (env : OperatorEnv) {msg : OperatorMessage} {sid : String}
    (hsid : msg.session? = some sid) (h : ¬ s.Present sid)
    (hg : Grounded s (.operator env msg) = true) :
    ∃ m, (handleMessage s env msg).2 = some m ∧ ErrorOrSweep m := by
  have hget := get_absent h
  cases msg with
  | ping | registerSession _ | registerAnnotator _ _ _ | annotatorOnly => cases hsid
  | updateAnnotationProgress _ _ _ | closeAnnotation _ | completeAnnotation _ | finalizeMemory _
  | reasoningDegraded _ _ | circuitReset _ =>
    cases hsid
    exact absurd (of_decide_eq_true hg) h
  | getSessionStatus _ =>
    cases hsid
    refine ⟨_, rfl, .inl ?_⟩
    rw [getSessionStatus, hget]
    exact ⟨_, _, rfl⟩
  | startWatch _ =>
    cases hsid
    rw [handleMessage, startWatch, hget]
    exact ⟨_, rfl, .inl ⟨_, _, rfl⟩⟩
  | done _ =>
    cases hsid
    have hhandle : (s.control sid).handle = none := by simpa [Grounded, h] using hg
    rw [handleMessage, done, hhandle, hget]
    exact ⟨_, rfl, .inl ⟨_, _, rfl⟩⟩
  | loadSession _ =>
    cases hsid
    rw [handleMessage, operatorLoadSession, hget]
    exact ⟨_, rfl, .inl ⟨_, _, rfl⟩⟩
  | fetchFile _ relativePath =>
    cases hsid
    refine ⟨_, rfl, .inl ?_⟩
    rw [fetchFile, hget]
    exact ⟨_, _, rfl⟩
  | listSessionFiles _ lead =>
    cases hsid
    refine ⟨_, rfl, .inl ?_⟩
    rw [listSessionFiles, hget]
    exact ⟨_, _, rfl⟩
  | uploadFile u =>
    cases hsid
    exact ⟨_, rfl, .inl (upload_refused _ _ _ hget)⟩
  | reasoningResult _ stepId =>
    cases hsid
    refine ⟨_, rfl, .inl ?_⟩
    rw [reasoningResult, hget]
    exact ⟨_, _, rfl⟩
  | compileMemory _ =>
    cases hsid
    refine ⟨_, rfl, .inl ?_⟩
    rw [compileMemory, hget]
    exact ⟨_, _, rfl⟩
  | deleteSession _ force =>
    cases hsid
    exact ⟨_, rfl, delete_refused env sid force h⟩

theorem annotator_refused (b : String) (env : Env) {msg : InboundMessage} {sid : String}
    (hs : Solid s.server.redis) (hsid : msg.session? = some sid) (h : ¬ s.Present sid)
    (hg : Grounded s (.annotator b env msg) = true) :
    (handleAnnotatorMessage s.server env b msg).2.IsError := by
  have howner : s.server.redis.getClaimOwner sid ≠ some b := fun ho => h (hs.present_of_owner ho)
  have hclaimed : handleAnnotatorMessage s.server env b msg = handleClaimedOp s.server env b msg →
      opSession msg = some sid → (handleAnnotatorMessage s.server env b msg).2.IsError := by
    intro he hop
    rw [he, handleClaimedOp, hop]
    dsimp only
    rw [if_pos howner]
    exact ⟨_, _, rfl⟩
  cases msg with
  | ping | listAnnotationQueue | admin => cases hsid
  | claimSession id =>
    rw [InboundMessage.session?] at hsid
    split at hsid
    · cases hsid
    · rename_i hne
      cases hsid
      have hpresent : s.Present sid := by simpa [Grounded, hne] using hg
      exact absurd hpresent h
  | heartbeatClaim id claimId =>
    cases hsid
    rw [handleAnnotatorMessage, heartbeatClaim, if_pos howner]
    exact ⟨_, _, rfl⟩
  | releaseSession id claimId =>
    cases hsid
    rw [handleAnnotatorMessage, releaseSession, if_pos howner]
    exact ⟨_, _, rfl⟩
  | _ => exact hclaimed rfl hsid

theorem reply_refused {i : SystemInput} {sid : String} (hs : Solid s.server.redis)
    (hsid : i.session? = some sid) (h : ¬ s.Present sid) (hg : Grounded s i = true) :
    ∃ m, s.reply i = some m ∧ ErrorOrSweep m := by
  cases i with
  | operator env msg => exact operator_refused env hsid h hg
  | annotator b env msg => exact ⟨_, rfl, .inl (annotator_refused b env hs hsid h hg)⟩
  | _ => cases hsid

theorem not_registers {i : SystemInput} {sid sid' : String} (hsid : i.session? = some sid) :
    ¬ i.Registers sid' := by
  rintro ⟨env, r, rfl, -⟩
  cases hsid

theorem noGhosts_step (s : System) (i : SystemInput) (hs : Solid s.server.redis)
    (hg : Grounded s i = true) : NoGhosts ErrorOrSweep s i (s.step i) := by
  have hgrows := grows_step s i hs hg
  refine ⟨fun sid hpresent => ?_, hgrows.created, fun sid hsid habsent => ?_, fun sid hsid habsent => ?_⟩
  · obtain ⟨r, hr⟩ := hgrows.solid.whole sid hpresent
    exact ⟨r, ((s.step i).server.redis.get_eq_ok sid r).mpr hr⟩
  · have hstays : ¬ (s.step i).Present sid :=
      fun hpresent => not_registers hsid (hgrows.created sid habsent hpresent)
    refine ⟨hstays, fun status hmem => hstays (hgrows.solid.indexed status sid hmem), ?_⟩
    by_contra hclaim
    exact hstays (hgrows.solid.claimed sid hclaim)
  · exact reply_refused hs hsid habsent hg

end Steps

/-- A hash at the end of a run was made by a RegisterSession in it, and has been
there ever since. -/
def Originates (s : System) (is : List SystemInput) (sid : String) : Prop :=
  ∃ is₁ i is₂, is = is₁ ++ i :: is₂ ∧ i.Registers sid ∧ ¬ (run System.step s is₁).Present sid ∧
    ∀ is₃, is₃ <+: is₂ → (run System.step s (is₁ ++ i :: is₃)).Present sid

/-- No step of a run leaves a ghost, and every hash at its end is that of a
session which was registered in it. -/
structure Ghostless (answer : OutboundMessage → Prop) (s : System) (is : List SystemInput) : Prop where
  steps : Along System.step (NoGhosts answer) s is
  origin : ∀ sid, (run System.step s is).Present sid → Originates s is sid

theorem originates {answer : OutboundMessage → Prop} {s : System} {is : List SystemInput} {sid : String}
    (h : Along System.step (NoGhosts answer) s is) (hstart : ¬ s.Present sid)
    (hend : (run System.step s is).Present sid) : Originates s is sid := by
  obtain ⟨is₁, i, is₂, rfl, hbefore, hafter⟩ := last_change System.step (Q := fun s => s.Present sid) hstart hend
  refine ⟨is₁, i, is₂, rfl, ?_, hbefore, hafter⟩
  have hnext := hafter [] List.nil_prefix
  rw [run_append] at hnext
  exact ((along_append s is₁ (i :: is₂)).mp h).2.1.created sid hbefore hnext

/-- In every run that writes only to hashes that are there, there are no ghosts,
and a message about a session without a record gets an error; DeleteSession
sweeps up what is left of it. -/
theorem no_ghosts (server : Server) (is : List SystemInput)
    (hg : Guarded System.step (fun s i => Grounded s i = true) (.start server) is) :
    Ghostless ErrorOrSweep (.start server) is := by
  have hstart : Solid (System.start server).server.redis :=
    ⟨fun _ h => absurd rfl h, fun _ _ h => (by cases h), fun _ h => absurd rfl h⟩
  have hsteps : Along System.step (NoGhosts ErrorOrSweep) (.start server) is :=
    along_run (fun s i hs hi => (grows_step s i hs hi).solid) noGhosts_step (.start server) is
      hstart hg
  exact ⟨hsteps, fun sid hend => originates hsteps (fun hp => hp rfl) hend⟩

/-- A session with its deletion, and then messages about it. -/
def afterDeletion : List SystemInput :=
  wholeLife ++
    [.operator lifecycleEnv (.deleteSession "s1" false), .operator lifecycleEnv (.startWatch "s1"),
      .operator lifecycleEnv (.done "s1"), .operator lifecycleEnv (.deleteSession "s1" true)]

theorem no_ghosts_sample : Ghostless ErrorOrSweep (.start (sampleServer [])) afterDeletion :=
  no_ghosts (sampleServer []) afterDeletion (by decide +kernel)

/-- FinalizeMemory makes a hash for any id, and DeleteSession answers that it
deleted one without a record. -/
theorem finalize_leaves_ghost :
    ¬ Ghostless OutboundMessage.IsError (.start (sampleServer []))
        [.operator lifecycleEnv (.finalizeMemory "s9")] ∧
      ¬ Ghostless OutboundMessage.IsError (.start (sampleServer []))
        [.operator lifecycleEnv (.deleteSession "s9" false)] := by
  constructor
  · intro h
    obtain ⟨env, r, he, -⟩ := h.steps.1.created "s9" (by decide +kernel) (by decide +kernel)
    cases he
  · intro h
    obtain ⟨m, hm, code, message, rfl⟩ := h.steps.1.answered "s9" rfl (by decide +kernel)
    have hreply : (System.start (sampleServer [])).reply
        (.operator lifecycleEnv (.deleteSession "s9" false)) =
          some (.sessionDeleted "s9" "" false 0 false) := by
      decide +kernel
    cases hreply.symm.trans hm

end MemoryArchive.Ipc
