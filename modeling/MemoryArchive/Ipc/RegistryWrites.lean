import MemoryArchive.Ipc.StatusSteps

namespace MemoryArchive.Ipc

open Registry Runs

/-- A write of the registry. -/
inductive Write
  | status (sid : String) (new : SessionStatus)
  | counters (sid : String) (annotated skipped : UInt32)
  | memoryPath (sid path : String)
  | setClaims (claims : String → Option String)
  | setAnnotators (annotators : String → Option Annotator)
  | create (record : SessionRecord)
  | remove (sid : String)

namespace Write

def apply (redis : Redis) : Write → Redis
  | status sid new => redis.updateStatus sid new
  | counters sid annotated skipped => redis.updateAnnotationCounters sid annotated skipped
  | memoryPath sid path => redis.updateMemoryPath sid path
  | setClaims claims => { redis with claims := claims }
  | setAnnotators annotators => { redis with annotators := annotators }
  | create record =>
      { redis with
        sessions := Function.update redis.sessions record.sessionId (.record record)
        index := moveIndex redis.index record.sessionId none record.status }
  | remove sid =>
      { redis with
        sessions := Function.update redis.sessions sid .absent
        index := fun status => (redis.index status).filter (· ≠ sid)
        claims := Function.update redis.claims sid none }

/-- The inputs that a write can come from. Only a registration makes a record,
and it has no steps. -/
def Of (i : SystemInput) : Write → Prop
  | create record => i.Registers record.sessionId ∧ record.totalSteps = 0
  | remove sid => ∃ env force, i = .operator env (.deleteSession sid force)
  | _ => True

end Write

/-- The registry is changed by writes that come from an input. -/
def Writes (i : SystemInput) (redis redis' : Redis) : Prop :=
  ∃ ws : List Write, (∀ w ∈ ws, w.Of i) ∧ redis' = run Write.apply redis ws

/-- A record that differs at most in the fields that are written one by one. -/
def Revised (r r' : SessionRecord) : Prop :=
  r' = { r with
    status := r'.status
    memoryPath := r'.memoryPath
    annotatedSteps := r'.annotatedSteps
    skippedSteps := r'.skippedSteps }

theorem Revised.refl (r : SessionRecord) : Revised r r := rfl

theorem Revised.trans {r r' r'' : SessionRecord} (h : Revised r r') (h' : Revised r' r'') : Revised r r'' := by
  rw [Revised, h] at h'
  exact h'

theorem Revised.totalSteps {r r' : SessionRecord} (h : Revised r r') : r'.totalSteps = r.totalSteps := by
  rw [h]

theorem Revised.sessionId {r r' : SessionRecord} (h : Revised r r') : r'.sessionId = r.sessionId := by
  rw [h]

theorem revised_update {sessions : String → Entry} {sid t : String} {f : Entry → Entry} {r' : SessionRecord}
    (hf : ∀ e, f e = .record r' → ∃ r, e = .record r ∧ Revised r r')
    (hr' : Function.update sessions sid (f (sessions sid)) t = .record r') :
    ∃ r, sessions t = .record r ∧ Revised r r' := by
  rw [Function.update_apply] at hr'
  split at hr'
  · rename_i ht
    obtain ⟨r, hr, hrevised⟩ := hf _ hr'
    exact ⟨r, ht ▸ hr, hrevised⟩
  · exact ⟨r', hr', .refl r'⟩

/-- After a write a record is one of before, revised, or the new one. -/
theorem Write.record_cases {redis : Redis} (w : Write) {t : String} {r' : SessionRecord}
    (hr' : (w.apply redis).sessions t = .record r') :
    (∃ r, redis.sessions t = .record r ∧ Revised r r') ∨ w = .create r' ∧ r'.sessionId = t := by
  cases w with
  | status sid new =>
    refine .inl (revised_update (fun e he => ?_) hr')
    cases e with
    | record r =>
      obtain rfl := Entry.record.inj he
      exact ⟨r, rfl, rfl⟩
    | absent | fragment _ => cases he
  | counters sid annotated skipped =>
    refine .inl (revised_update (fun e he => ?_) hr')
    cases e with
    | record r =>
      obtain rfl := Entry.record.inj he
      exact ⟨r, rfl, rfl⟩
    | absent | fragment _ => cases he
  | memoryPath sid path =>
    refine .inl (revised_update (fun e he => ?_) hr')
    cases e with
    | record r =>
      obtain rfl := Entry.record.inj he
      exact ⟨r, rfl, rfl⟩
    | absent | fragment _ => cases he
  | setClaims _ | setAnnotators _ => exact .inl ⟨r', hr', .refl r'⟩
  | create record =>
    change Function.update redis.sessions record.sessionId (.record record) t = .record r' at hr'
    rw [Function.update_apply] at hr'
    split at hr'
    · rename_i ht
      obtain rfl := Entry.record.inj hr'
      exact .inr ⟨rfl, ht.symm⟩
    · exact .inl ⟨r', hr', .refl r'⟩
  | remove sid =>
    change Function.update redis.sessions sid .absent t = .record r' at hr'
    rw [Function.update_apply] at hr'
    split at hr'
    · cases hr'
    · exact .inl ⟨r', hr', .refl r'⟩

section Steps

variable {s : System} {i : SystemInput} {redis redis' redis'' : Redis}

theorem Writes.refl : Writes i redis redis := ⟨[], fun _ hw => absurd hw List.not_mem_nil, rfl⟩

theorem Writes.one (w : Write) (hw : w.Of i) : Writes i redis (w.apply redis) :=
  ⟨[w], fun _ hmem => List.mem_singleton.mp hmem ▸ hw, rfl⟩

theorem Writes.trans (h : Writes i redis redis') (h' : Writes i redis' redis'') :
    Writes i redis redis'' := by
  obtain ⟨ws, hws, rfl⟩ := h
  obtain ⟨ws', hws', rfl⟩ := h'
  refine ⟨ws ++ ws', fun w hw => ?_, (run_append _ ws ws').symm⟩
  exact (List.mem_append.mp hw).elim (hws w) (hws' w)

/-- What each write keeps is kept by an input. -/
theorem Writes.keeps {inv : Redis → Prop} (h : Writes i redis redis')
    (hwrite : ∀ redis (w : Write), inv redis → w.Of i → inv (w.apply redis)) (hinv : inv redis) : inv redis' := by
  obtain ⟨ws, hws, rfl⟩ := h
  induction ws generalizing redis with
  | nil => exact hinv
  | cons w ws ih =>
    have hnext := hwrite redis w hinv (hws w List.mem_cons_self)
    exact ih hnext fun v hv => hws v (List.mem_cons_of_mem w hv)

/-- A session that is not registered by an input had its record before. -/
theorem Writes.revised {sid : String} {r' : SessionRecord} (h : Writes i redis redis')
    (hi : ¬ i.Registers sid) (hr' : redis'.sessions sid = .record r') :
    ∃ r, redis.sessions sid = .record r ∧ Revised r r' := by
  have hwrite : ∀ (middle : Redis) (w : Write),
      (∀ r', middle.sessions sid = .record r' → ∃ r, redis.sessions sid = .record r ∧ Revised r r') →
      w.Of i → ∀ r', (w.apply middle).sessions sid = .record r' →
        ∃ r, redis.sessions sid = .record r ∧ Revised r r' := by
    intro middle w hmiddle hw r' hr'
    obtain ⟨r, hr, hrevised⟩ | ⟨rfl, rfl⟩ := w.record_cases hr'
    · obtain ⟨r₀, hr₀, hfirst⟩ := hmiddle r hr
      exact ⟨r₀, hr₀, hfirst.trans hrevised⟩
    · exact absurd hw.1 hi
  exact h.keeps hwrite (fun r hr => ⟨r, hr, .refl r⟩) r' hr'

theorem writes_updateStatus (sid : String) (new : SessionStatus) :
    Writes i redis (redis.updateStatus sid new) := .one (.status sid new) trivial

theorem writes_releaseClaim (sid : String) : Writes i redis (redis.releaseClaim sid) :=
  .one (.setClaims (Function.update redis.claims sid none)) trivial

theorem writes_loadSession (s : Server) (sid : String) : Writes i s.redis (loadSession s sid).1.redis := by
  obtain ⟨_, _, heq⟩ | ⟨r, -, -, heq⟩ := loadSession_cases s sid
  · rw [heq]
    exact .refl
  · rw [heq]
    exact writes_updateStatus sid .annotating

theorem writes_claimSession (s : Server) (env : Env) (b sid : String) :
    Writes i s.redis (claimSession s env b sid).1.redis := by
  obtain ⟨hsame, -⟩ | ⟨target, -, -, -, hclaim⟩ := claimSession_cases s env b sid
  · rw [hsame]
    exact .refl
  · rw [hclaim]
    exact .one (.setClaims (Function.update s.redis.claims target (some (claimValue b env.claimId)))) trivial

theorem writes_releaseSession (s : Server) (b sid claimId : String) :
    Writes i s.redis (releaseSession s b sid claimId).1.redis := by
  have hrelease : Writes i s.redis (s.redis.releaseClaim sid) := writes_releaseClaim sid
  obtain ⟨-, _, _, heq⟩ | ⟨-, ⟨r, -, -, heq⟩ | ⟨-, heq⟩⟩ := releaseSession_cases s b sid claimId
  · rw [heq]
    exact .refl
  · rw [heq]
    exact hrelease.trans (writes_updateStatus sid SessionStatus.pendingHumanAnnotation)
  · rw [heq]
    exact hrelease

theorem writes_sessionOp (s : Server) (env : Env) (msg : InboundMessage) :
    Writes i s.redis (handleSessionOp s env msg).1.redis := by
  cases msg with
  | loadSession sid => exact writes_loadSession s sid
  | updateAnnotationProgress sid annotated skipped => exact .one (.counters sid annotated skipped) trivial
  | closeAnnotation sid => exact writes_updateStatus sid SessionStatus.pendingHumanAnnotation
  | completeAnnotation sid => exact writes_updateStatus sid .pendingCompilation
  | uploadFile upload =>
    rw [handleSessionOp, uploadFile_redis]
    exact .refl
  | _ => exact .refl

theorem writes_annotator (s : Server) (env : Env) (b : String) (msg : InboundMessage) :
    Writes i s.redis (handleAnnotatorMessage s env b msg).1.redis := by
  have hop : Writes i s.redis (handleClaimedOp s env b msg).1.redis := by
    rw [handleClaimedOp]
    split
    · exact .refl
    · split
      · exact .refl
      · exact writes_sessionOp s env msg
  cases msg with
  | ping | listAnnotationQueue | heartbeatClaim _ _ => exact .refl
  | claimSession sid => exact writes_claimSession s env b sid
  | releaseSession sid claimId => exact writes_releaseSession s b sid claimId
  | _ => exact hop

theorem writes_register {record : SessionRecord} (hi : i.Registers record.sessionId)
    (htotal : record.totalSteps = 0) (hnew : redis.register record = .ok redis') :
    Writes i redis redis' := by
  rw [Redis.register] at hnew
  split at hnew
  · cases hnew
    exact .one (.create record) ⟨hi, htotal⟩
  · cases hnew

theorem writes_registerSession (env : OperatorEnv) (r : Registration) (hi : i.Registers env.sessionId) :
    Writes i s.server.redis (registerSession s env r).1.server.redis := by
  obtain heq | ⟨record, redis, hid, -, htotal, hnew, hset⟩ := registerSession_eq s env r
  · rw [heq]
    exact .refl
  have hcreated : Writes i s.server.redis redis := writes_register (hid ▸ hi) htotal hnew
  obtain heq | heq := hset
  · rw [heq]
    exact hcreated
  · rw [heq]
    exact hcreated.trans (writes_updateStatus env.sessionId .incomplete)

theorem writes_delete {sid : String} {removed : Bool}
    (hi : ∃ env force, i = .operator env (.deleteSession sid force))
    (hdeleted : redis.deleteSession sid = .ok (redis', removed)) : Writes i redis redis' := by
  rw [Redis.deleteSession] at hdeleted
  split at hdeleted
  · cases hdeleted
  · cases hdeleted
    exact .one (.remove sid) hi

theorem writes_deleteSession (env : OperatorEnv) (sid : String) (force : Bool)
    (hi : ∃ env force, i = .operator env (.deleteSession sid force)) :
    Writes i s.server.redis (deleteSession s env sid force).1.server.redis := by
  obtain ⟨_, -, -, ⟨-, redis, _, _, _, _, hdelete, heq⟩ | ⟨-, _, _, heq⟩⟩ :=
    deleteSession_eq s env sid force
  · rw [heq]
    exact writes_delete hi hdelete
  · rw [heq]
    exact .refl

theorem writes_operator (env : OperatorEnv) (msg : OperatorMessage) :
    Writes (.operator env msg) s.server.redis (handleMessage s env msg).1.server.redis := by
  cases msg with
  | registerSession r => exact writes_registerSession env r ⟨env, r, rfl, rfl⟩
  | deleteSession sid force => exact writes_deleteSession env sid force ⟨env, force, rfl⟩
  | startWatch sid =>
    rw [handleMessage]
    obtain heq | ⟨r, -, -, heq | heq⟩ := startWatch_eq s env sid
    · rw [heq]
      exact .refl
    · rw [heq]
      exact .refl
    · rw [heq]
      exact writes_updateStatus sid .incomplete
  | done sid =>
    rw [handleMessage]
    obtain heq | heq | ⟨r, -, heq⟩ := done_eq s env sid
    · rw [heq]
      exact .refl
    · rw [heq]
      exact .refl
    · rw [heq]
      exact writes_updateStatus sid _
  | loadSession sid =>
    change Writes _ s.server.redis (operatorLoadSession s sid).1.server.redis
    obtain heq | ⟨r, -, -, heq⟩ := operatorLoadSession_eq s sid
    · rw [heq]
      exact .refl
    · rw [heq]
      exact writes_updateStatus sid .annotating
  | updateAnnotationProgress sid annotated skipped => exact .one (.counters sid annotated skipped) trivial
  | closeAnnotation sid => exact writes_updateStatus sid SessionStatus.pendingAnnotation
  | completeAnnotation sid => exact writes_updateStatus sid .pendingCompilation
  | finalizeMemory sid => exact writes_updateStatus sid .complete
  | uploadFile upload =>
    rw [handleMessage]
    dsimp only
    rw [uploadFile_redis]
    exact .refl
  | reasoningDegraded sid stepRangeStart => exact writes_updateStatus sid .reasoningDegraded
  | circuitReset sid => exact writes_updateStatus sid .active
  | registerAnnotator annotatorId allowedTenantIds maxClaims =>
    rw [handleMessage, registerAnnotator, Redis.registerAnnotator]
    cases s.server.redis.annotators annotatorId with
    | some _ => exact .refl
    | none => exact .one (.setAnnotators _) trivial
  | ping | getSessionStatus _ | fetchFile _ _ | listSessionFiles _ _ | reasoningResult _ _ | compileMemory _
  | annotatorOnly => exact .refl

theorem writes_endLoop (s : System) (sid : String) (doneCleanly wasDegraded : Bool) (renamed : Option String) :
    Writes i s.server.redis (endLoop s sid doneCleanly wasDegraded renamed).server.redis := by
  obtain heq | ⟨path, -, -, heq⟩ := endLoop_eq s sid doneCleanly wasDegraded renamed
  · rw [heq]
    exact writes_updateStatus sid _
  · rw [heq]
    exact (writes_updateStatus sid .incomplete).trans (.one (.memoryPath sid path) trivial)

/-- Every input changes the registry by writes of its own. -/
theorem writes_step (s : System) (i : SystemInput) : Writes i s.server.redis (s.step i).server.redis := by
  cases i with
  | operator env msg => exact writes_operator env msg
  | annotator b env msg => exact writes_annotator s.server env b msg
  | expire sid => exact writes_releaseClaim sid
  | connect sid id connected =>
    rw [System.step]
    obtain heq | ⟨_, -, -, ⟨-, heq⟩ | ⟨-, heq⟩⟩ := connectLoop_eq s sid id connected
    · rw [heq]
      exact .refl
    · rw [heq]
      exact .refl
    · rw [heq]
      exact writes_updateStatus sid .incomplete
  | leave sid id doneCleanly => exact .refl
  | finish sid id renamed =>
    rw [System.step]
    obtain heq | ⟨l, doneCleanly, -, -, heq⟩ := finishLoop_eq s sid id renamed
    · rw [heq]
      exact .refl
    · rw [heq]
      exact writes_endLoop (s.watch sid (.finish id)) sid doneCleanly l.wasDegraded renamed

end Steps

/-- What each write of the registry keeps holds in every run. -/
theorem kept_run {inv : Redis → Prop} (hwrite : ∀ i redis w, inv redis → Write.Of i w → inv (w.apply redis))
    (s : System) (is : List SystemInput) (hs : inv s.server.redis) :
    inv (run System.step s is).server.redis := by
  have hstep : ∀ (s : System) i, inv s.server.redis → True → inv (s.step i).server.redis :=
    fun s i hinv _ => (writes_step s i).keeps (hwrite i) hinv
  exact invariant_run hstep s is hs (guarded_true s is)

end MemoryArchive.Ipc
