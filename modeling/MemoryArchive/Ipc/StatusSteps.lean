import MemoryArchive.Ipc.AnnotatorSteps
import MemoryArchive.Ipc.Operator

namespace MemoryArchive.Ipc

open Capture (Control Watch)
open Registry

/-- The statuses of a session that is being recorded. -/
def Capturing (status : SessionStatus) : Prop := status = .active ∨ status = .reasoningDegraded

def Pending (status : SessionStatus) : Prop :=
  status = SessionStatus.pendingAnnotation ∨ status = SessionStatus.pendingHumanAnnotation

instance (status : SessionStatus) : Decidable (Capturing status) :=
  inferInstanceAs (Decidable (_ ∨ _))

instance (status : SessionStatus) : Decidable (Pending status) :=
  inferInstanceAs (Decidable (_ ∨ _))

/-- The edges of the status machine of a session. -/
inductive Edge (automated : Prop) : SessionStatus → SessionStatus → Prop
  | capture {old new : SessionStatus} : Capturing old → Capturing new → Edge automated old new
  | recorded {old new : SessionStatus} : Capturing old → Pending new → Edge automated old new
  | compiled {old : SessionStatus} : Capturing old → automated → Edge automated old .pendingCompilation
  | interrupted {old : SessionStatus} : Capturing old → Edge automated old .incomplete
  | loaded {old : SessionStatus} : Pending old → Edge automated old .annotating
  | closed {new : SessionStatus} : Pending new → Edge automated .annotating new
  | annotated : Edge automated .annotating .pendingCompilation
  | finalised : Edge automated .pendingCompilation .complete

theorem Edge.not_capturing {automated : Prop} {old new : SessionStatus} (h : Edge automated old new)
    (hold : ¬ Capturing old) : ¬ Capturing new := by
  cases h with
  | capture hc _ => exact absurd hc hold
  | recorded hc _ => exact absurd hc hold
  | compiled hc _ => exact absurd hc hold
  | interrupted hc => exact absurd hc hold
  | loaded _ => decide
  | closed hp =>
    obtain rfl | rfl := hp
    · decide
    · decide
  | annotated => decide
  | finalised => decide

theorem Edge.not_complete {automated : Prop} {old new : SessionStatus} (h : Edge automated old new) :
    old ≠ .complete := by
  rintro rfl
  cases h with
  | capture hc _ => revert hc; decide
  | recorded hc _ => revert hc; decide
  | compiled hc _ => revert hc; decide
  | interrupted hc => revert hc; decide
  | loaded hp => revert hp; decide

def System.Automated (s : System) (sid : String) : Prop := (s.entry sid).mode? = some .automated

instance (s : System) (sid : String) : Decidable (s.Automated sid) :=
  inferInstanceAs (Decidable (_ = _))

/-- The statuses of a session in which an input is meant to change it. -/
def MeantFor (s : System) (i : SystemInput) (sid : String) (old : SessionStatus) : Prop :=
  match i with
  | .operator _ msg =>
      match msg with
      | .startWatch _ | .done _ | .reasoningDegraded _ _ | .circuitReset _ => Capturing old
      | .loadSession _ => Pending old
      | OperatorMessage.closeAnnotation _ => old = .annotating
      | OperatorMessage.completeAnnotation _ => old = .annotating ∨ Capturing old ∧ s.Automated sid
      | .finalizeMemory _ => old = .pendingCompilation
      | _ => False
  | .annotator _ _ msg =>
      match msg with
      | .loadSession _ => Pending old
      | InboundMessage.closeAnnotation _ | InboundMessage.completeAnnotation _
      | .releaseSession _ _ => old = .annotating
      | _ => False
  | .connect _ _ _ | .finish _ _ _ => Capturing old
  | .expire _ | .leave _ _ _ => False

def SystemInput.Registers (i : SystemInput) (sid : String) : Prop :=
  ∃ env r, i = .operator env (.registerSession r) ∧ env.sessionId = sid

/-- What an input may do to the status of a session: nothing, register or delete
the session, or move it along an edge from a status that it is meant for. -/
inductive StatusChange (s : System) (i : SystemInput) (sid : String) :
    Option SessionStatus → Option SessionStatus → Prop
  | same (status : Option SessionStatus) : StatusChange s i sid status status
  | registered {new : SessionStatus} : i.Registers sid → new = .active ∨ new = .incomplete →
      StatusChange s i sid none (some new)
  | deleted (env : OperatorEnv) (force : Bool) (status : Option SessionStatus) :
      i = .operator env (.deleteSession sid force) → StatusChange s i sid status none
  | moved {old new : SessionStatus} : Edge (s.Automated sid) old new → MeantFor s i sid old →
      StatusChange s i sid (some old) (some new)

def StatusesMove (s : System) (i : SystemInput) (s' : System) : Prop :=
  ∀ sid, StatusChange s i sid (s.status sid) (s'.status sid)

def System.NoLoop (s : System) (sid : String) : Prop := (s.control sid).loops = []

instance (s : System) (sid : String) : Decidable (s.NoLoop sid) := inferInstanceAs (Decidable (_ = _))

/-- The status of a session is one of a list. -/
def System.In (s : System) (sid : String) (statuses : List SessionStatus) : Bool :=
  (s.status sid).any (· ∈ statuses)

/-- A message is received in a status that it is meant for, or finds the status
that it sets; and while a loop of a session is live, nothing else ends the
recording. -/
def Expected (s : System) : SystemInput → Bool
  | .operator env msg =>
      match msg with
      | .startWatch sid =>
          match s.server.redis.get sid with
          | .ok r => memoryDirMissing s env r || decide (Capturing r.status ∧ s.NoLoop sid)
          | .error _ => true
      | .done sid =>
          (s.control sid).handle.isSome ||
            match s.server.redis.get sid with
            | .ok r => decide ((Capturing r.status ∨ r.status = doneStatus (s.control sid).degraded) ∧
                s.NoLoop sid)
            | .error _ => true
      | OperatorMessage.closeAnnotation sid =>
          s.In sid [.annotating, SessionStatus.pendingAnnotation]
      | OperatorMessage.completeAnnotation sid =>
          s.In sid [.annotating, .pendingCompilation] ||
            s.In sid [.active, .reasoningDegraded] && decide (s.Automated sid ∧ s.NoLoop sid)
      | .finalizeMemory sid => s.In sid [.pendingCompilation, .complete]
      | .reasoningDegraded sid _ | .circuitReset sid => s.In sid [.active, .reasoningDegraded]
      | .deleteSession sid force =>
          decide (s.NoLoop sid) ||
            match s.server.redis.get sid with
            | .ok r => inFlight r force
            | .error _ => false
      | _ => true
  | .annotator annotatorId _ msg =>
      match msg with
      | InboundMessage.closeAnnotation sid =>
          s.server.redis.getClaimOwner sid ≠ some annotatorId ||
            s.In sid [.annotating, SessionStatus.pendingHumanAnnotation]
      | InboundMessage.completeAnnotation sid =>
          s.server.redis.getClaimOwner sid ≠ some annotatorId ||
            s.In sid [.annotating, .pendingCompilation]
      | _ => true
  | _ => true

/-- A session has at most one loop, and only while its status says so. -/
def Watched (status : Option SessionStatus) (c : Control) : Prop :=
  c.loops.length ≤ 1 ∧ (c.loops ≠ [] → ∃ old, status = some old ∧ Capturing old)

def Recorded (s : System) : Prop := ∀ sid, Watched (s.status sid) (s.control sid)

/-- A step that concerns one session gives it a status and a control state. -/
structure Becomes (s s' : System) (t : String) (status : Option SessionStatus) (c : Control) :
    Prop where
  status : ∀ sid, s'.status sid = if sid = t then status else s.status sid
  control : ∀ sid, s'.control sid = if sid = t then c else s.control sid

/-- The next state has at most one loop for each session, and its statuses are
those that the input may set. -/
structure Sound (s : System) (i : SystemInput) (s' : System) : Prop where
  recorded : Recorded s'
  moves : StatusesMove s i s'

theorem Becomes.sound {s s' : System} {i : SystemInput} {t : String} {status : Option SessionStatus}
    {c : Control} (hb : Becomes s s' t status c) (h : Recorded s)
    (hchange : StatusChange s i t (s.status t) status) (hwatched : Watched status c) :
    Sound s i s' := by
  refine ⟨fun sid => ?_, fun sid => ?_⟩
  · rw [hb.status, hb.control]
    by_cases hsid : sid = t
    · rw [if_pos hsid, if_pos hsid]
      exact hwatched
    · rw [if_neg hsid, if_neg hsid]
      exact h sid
  · rw [hb.status]
    by_cases hsid : sid = t
    · rw [if_pos hsid, hsid]
      exact hchange
    · rw [if_neg hsid]
      exact .same _

/-- A step that changes no status and no loop. -/
theorem sound_unchanged {s s' : System} {i : SystemInput} (h : Recorded s)
    (hstatus : s'.status = s.status) (hcontrol : s'.control = s.control) : Sound s i s' := by
  refine ⟨fun sid => ?_, fun sid => ?_⟩
  · rw [hstatus, hcontrol]
    exact h sid
  · rw [hstatus]
    exact .same _

theorem sound_refl {s : System} (i : SystemInput) (h : Recorded s) : Sound s i s :=
  sound_unchanged h rfl rfl

theorem watched_idle {status : Option SessionStatus} {c : Control} (h : c.loops = []) :
    Watched status c :=
  ⟨by simp [h], fun hne => absurd h hne⟩

/-- No status but that of a recording goes with a live loop. -/
theorem Watched.noLoop {status : Option SessionStatus} {c : Control} (h : Watched status c)
    (hold : ∀ old, status = some old → ¬ Capturing old) : c.loops = [] := by
  by_contra hne
  obtain ⟨old, hs, hc⟩ := h.2 hne
  exact hold old hs hc

theorem Watched.capturing {old new : SessionStatus} {c : Control} (h : Watched (some old) c)
    (hnew : Capturing new) : Watched (some new) c :=
  ⟨h.1, fun _ => ⟨new, rfl, hnew⟩⟩

theorem Becomes.refl (s : System) (t : String) : Becomes s s t (s.status t) (s.control t) := by
  refine ⟨fun sid => ?_, fun sid => ?_⟩
  · by_cases hsid : sid = t
    · rw [if_pos hsid, hsid]
    · rw [if_neg hsid]
  · by_cases hsid : sid = t
    · rw [if_pos hsid, hsid]
    · rw [if_neg hsid]

/-- The registry stores something else for the session. -/
theorem Becomes.setRedis {s s' : System} {t : String} {status : Option SessionStatus} {c : Control}
    (hb : Becomes s s' t status c) (redis : Redis) {e : Entry}
    (hredis : redis.sessions = Function.update s'.server.redis.sessions t e) :
    Becomes s (s'.setRedis redis) t e.status c := by
  refine ⟨fun sid => ?_, hb.control⟩
  rw [System.status_setRedis, hredis, Function.update_apply]
  have hstatus := hb.status sid
  by_cases hsid : sid = t
  · rw [if_pos hsid, if_pos hsid]
  · rw [if_neg hsid, if_neg hsid]
    rwa [if_neg hsid] at hstatus

theorem Becomes.setStatus {s s' : System} {t : String} {status : Option SessionStatus} {c : Control}
    (hb : Becomes s s' t status c) (new : SessionStatus) :
    Becomes s (s'.setStatus t new) t (some new) c := by
  have hset := hb.setRedis (s'.server.redis.updateStatus t new) rfl
  rwa [Entry.status_setStatus] at hset

theorem becomes_control (s : System) (t : String) (c : Control) :
    Becomes s { s with control := Function.update s.control t c } t (s.status t) c :=
  ⟨(Becomes.refl s t).status, fun sid => Function.update_apply s.control t c sid⟩

theorem becomes_setStatus (s : System) (t : String) (new : SessionStatus) :
    Becomes s (s.setStatus t new) t (some new) (s.control t) :=
  (Becomes.refl s t).setStatus new

theorem Redis.register_ok {redis redis' : Redis} {record : SessionRecord}
    (h : redis.register record = .ok redis') :
    redis.sessions record.sessionId = .absent ∧
      redis'.sessions = Function.update redis.sessions record.sessionId (.record record) := by
  unfold Redis.register at h
  split at h
  · rename_i habsent
    cases h
    exact ⟨habsent, rfl⟩
  · cases h

theorem Redis.deleteSession_ok {redis redis' : Redis} {sid : String} {removed : Bool}
    (h : redis.deleteSession sid = .ok (redis', removed)) :
    redis'.sessions = Function.update redis.sessions sid .absent := by
  unfold Redis.deleteSession at h
  split at h
  · cases h
  · cases h
    rfl

theorem status_of_get {s : System} {sid : String} {r : SessionRecord}
    (h : s.server.redis.get sid = .ok r) : s.status sid = some r.status := by
  rw [System.status, System.entry, (s.server.redis.get_eq_ok sid r).mp h]
  rfl

theorem In_iff {s : System} {sid : String} {statuses : List SessionStatus} :
    s.In sid statuses = true ↔ ∃ old ∈ statuses, s.status sid = some old := by
  unfold System.In
  cases s.status sid with
  | none => simp
  | some old => simp

section Steps

variable {s : System} {i : SystemInput}

/-- The input may set the status: it is there already, or an edge leads to it. -/
def Settable (s : System) (i : SystemInput) (sid : String) (old new : SessionStatus) : Prop :=
  old = new ∨ Edge (s.Automated sid) old new ∧ MeantFor s i sid old

theorem Settable.change {sid : String} {old new : SessionStatus} (h : Settable s i sid old new) :
    StatusChange s i sid (some old) (some new) := by
  obtain rfl | ⟨hedge, hmeant⟩ := h
  · exact .same _
  · exact .moved hedge hmeant

/-- A status that is set where it may be, of a session without a loop. -/
theorem sound_settle {t : String} {old new : SessionStatus} (h : Recorded s) (hold : s.status t = some old)
    (hset : Settable s i t old new) (hloop : s.NoLoop t) : Sound s i (s.setStatus t new) := by
  refine (becomes_setStatus s t new).sound h ?_ (watched_idle hloop)
  rw [hold]
  exact hset.change

theorem noLoop_of_status {t : String} {old : SessionStatus} (h : Recorded s)
    (hold : s.status t = some old) (hc : ¬ Capturing old) : s.NoLoop t := by
  refine (h t).noLoop fun old' ho => ?_
  rw [hold] at ho
  cases ho
  exact hc

/-- RegisterSession refuses, or it brings a new record into the registry, whose directory
may fail. -/
theorem registerSession_eq (s : System) (env : OperatorEnv) (r : Registration) :
    (registerSession s env r).1 = s ∨
      ∃ record redis, record.sessionId = env.sessionId ∧ record.status = .active ∧ record.totalSteps = 0 ∧
        s.server.redis.register record = .ok redis ∧
        ((registerSession s env r).1 = s.setRedis redis ∨
          (registerSession s env r).1 = (s.setRedis redis).setStatus env.sessionId .incomplete) := by
  rw [registerSession]
  split
  · exact .inl rfl
  dsimp only
  split
  · exact .inl rfl
  rename_i redis hregister
  refine .inr ⟨_, redis, rfl, rfl, rfl, hregister, ?_⟩
  split
  · exact .inl rfl
  · exact .inr rfl

/-- StartWatch refuses, or it spawns a loop, or settles a session whose loop has ended at
once. -/
theorem startWatch_eq (s : System) (env : OperatorEnv) (sid : String) :
    (startWatch s env sid).1 = s ∨
      ∃ r, s.server.redis.get sid = .ok r ∧ memoryDirMissing s env r = false ∧
        ((startWatch s env sid).1 = s.watch sid .start ∨
          (startWatch s env sid).1 = s.setStatus sid .incomplete) := by
  rw [startWatch]
  split
  · exact .inl rfl
  rename_i r hr
  split
  · exact .inl rfl
  rename_i hdir
  refine .inr ⟨r, hr, Bool.eq_false_iff.mpr hdir, ?_⟩
  split
  · exact .inl rfl
  · exact .inr rfl

/-- Done signals the loop of the session, or sets the status of one without a loop. -/
theorem done_eq (s : System) (env : OperatorEnv) (sid : String) :
    (done s env sid).1 = s ∨ (done s env sid).1 = s.watch sid .done ∨
      ∃ r, s.server.redis.get sid = .ok r ∧
        (done s env sid).1 = (s.watch sid .done).setStatus sid (doneStatus (s.control sid).degraded) := by
  rw [done]
  split
  · exact .inr (.inl rfl)
  split
  · exact .inl rfl
  · rename_i r hr
    exact .inr (.inr ⟨r, hr, rfl⟩)

/-- LoadSession refuses, or it sets the status of a session that waits for annotation. -/
theorem operatorLoadSession_eq (s : System) (sid : String) :
    (operatorLoadSession s sid).1 = s ∨
      ∃ r, s.server.redis.get sid = .ok r ∧
        (r.status = SessionStatus.pendingAnnotation ∨ r.status = .annotating) ∧
        (operatorLoadSession s sid).1 = s.setStatus sid .annotating := by
  rw [operatorLoadSession]
  split
  · exact .inl rfl
  rename_i r hr
  split
  · rename_i hc
    exact .inr ⟨r, hr, hc, rfl⟩
  · exact .inl rfl

theorem sound_registerSession (env : OperatorEnv) (r : Registration) (h : Recorded s) :
    Sound s (.operator env (.registerSession r)) (registerSession s env r).1 := by
  obtain heq | ⟨record, redis, hid, hactive, -, hregister, hset⟩ := registerSession_eq s env r
  · rw [heq]
    exact sound_refl _ h
  obtain ⟨habsent, hredis⟩ := Redis.register_ok hregister
  rw [hid] at habsent hredis
  have hnone : s.status env.sessionId = none := congrArg Entry.status habsent
  have hloop := (h env.sessionId).noLoop fun old ho => by rw [hnone] at ho; cases ho
  have hregisters : SystemInput.Registers (.operator env (.registerSession r)) env.sessionId :=
    ⟨env, r, rfl, rfl⟩
  have hb := (Becomes.refl s env.sessionId).setRedis redis hredis
  obtain heq | heq := hset
  · rw [heq]
    refine hb.sound h ?_ (watched_idle hloop)
    rw [hnone]
    exact .registered hregisters (.inl hactive)
  · rw [heq]
    refine (hb.setStatus .incomplete).sound h ?_ (watched_idle hloop)
    rw [hnone]
    exact .registered hregisters (.inr rfl)

theorem sound_startWatch (env : OperatorEnv) (sid : String) (h : Recorded s)
    (hg : Expected s (.operator env (.startWatch sid)) = true) :
    Sound s (.operator env (.startWatch sid)) (startWatch s env sid).1 := by
  simp only [Expected] at hg
  unfold startWatch
  split
  · exact sound_refl _ h
  rename_i r hr
  rw [hr] at hg
  dsimp only at hg
  by_cases hdir : memoryDirMissing s env r = true
  · rw [if_pos hdir]
    exact sound_refl _ h
  · obtain ⟨hc, hloop⟩ : Capturing r.status ∧ s.NoLoop sid := by simpa [hdir] using hg
    have hstatus := status_of_get hr
    rw [if_neg hdir]
    split
    · refine (becomes_control s sid ((s.control sid).step .start)).sound h (.same _) ?_
      rw [hstatus]
      refine ⟨?_, fun _ => ⟨r.status, rfl, hc⟩⟩
      simp only [System.NoLoop] at hloop
      simp [Control.step, Control.startWatch, hloop]
    · exact sound_settle h hstatus (.inr ⟨.interrupted hc, hc⟩) hloop

theorem pending_doneStatus (degraded : Bool) : Pending (doneStatus degraded) := by
  cases degraded with
  | true => exact .inr rfl
  | false => exact .inl rfl

theorem loops_done (c : Control) : (c.step .done).loops = c.loops := by
  unfold Control.step Control.done
  dsimp only
  split <;> rfl

theorem sound_done (env : OperatorEnv) (sid : String) (h : Recorded s)
    (hg : Expected s (.operator env (.done sid)) = true) :
    Sound s (.operator env (.done sid)) (done s env sid).1 := by
  simp only [Expected] at hg
  unfold done
  split
  · refine (becomes_control s sid ((s.control sid).step .done)).sound h (.same _) ?_
    rw [Watched, loops_done]
    exact h sid
  rename_i hhandle
  rw [hhandle] at hg
  split
  · exact sound_refl _ h
  rename_i r hr
  rw [hr] at hg
  obtain ⟨hc, hloop⟩ : (Capturing r.status ∨ r.status = doneStatus (s.control sid).degraded) ∧
      s.NoLoop sid := by simpa using hg
  refine ((becomes_control s sid ((s.control sid).step .done)).setStatus _).sound h ?_ (watched_idle ?_)
  · rw [status_of_get hr]
    refine Settable.change ?_
    obtain hc | hc := hc
    · exact .inr ⟨.recorded hc (pending_doneStatus _), hc⟩
    · exact .inl hc
  · rw [loops_done]
    exact hloop

theorem sound_operatorLoadSession (env : OperatorEnv) (sid : String) (h : Recorded s) :
    Sound s (.operator env (.loadSession sid)) (operatorLoadSession s sid).1 := by
  obtain heq | ⟨r, hr, hc, heq⟩ := operatorLoadSession_eq s sid
  · rw [heq]
    exact sound_refl _ h
  · rw [heq]
    have hstatus := status_of_get hr
    refine sound_settle h hstatus ?_ (noLoop_of_status h hstatus ?_)
    · obtain hp | ha := hc
      · exact .inr ⟨.loaded (.inl hp), .inl hp⟩
      · exact .inl ha
    · obtain hp | ha := hc
      · rw [hp]; decide
      · rw [ha]; decide

/-- DeleteSession gets as far as the registry. -/
def purges (s : System) (env : OperatorEnv) (sid : String) (force : Bool) : Prop :=
  env.isUuid sid = true ∧ sid ≠ "" ∧
    ∀ r, s.server.redis.get sid = .ok r → inFlight r force = false

/-- DeleteSession takes the record of its session out of the registry, or it reports an
error. Besides it changes at most the done handle of the session. -/
theorem deleteSession_eq (s : System) (env : OperatorEnv) (sid : String) (force : Bool) :
    ∃ c : Control, c.loops = (s.control sid).loops ∧ c.degraded = (s.control sid).degraded ∧
      (purges s env sid force ∧ (∃ redis name removed objects dir,
          s.server.redis.deleteSession sid = .ok (redis, removed) ∧
          deleteSession s env sid force =
            (({ s with control := Function.update s.control sid c } : System).setRedis redis,
              .sessionDeleted sid name removed objects dir)) ∨
        ¬ purges s env sid force ∧ ∃ code message,
          deleteSession s env sid force =
            ({ s with control := Function.update s.control sid c }, .error code message)) := by
  have hself : ({ s with control := Function.update s.control sid (s.control sid) } : System) = s := by
    rw [Function.update_eq_self]
  have hnot : ∀ e, s.server.redis.deleteSession sid = .error e → ¬ purges s env sid force := by
    intro e he hp
    rw [Redis.deleteSession, if_neg hp.2.1] at he
    cases he
  have hnamed : ∀ result, s.server.redis.deleteSession sid = .ok result → sid ≠ "" := by
    rintro result hdelete rfl
    cases hdelete
  rw [deleteSession]
  split
  · rename_i huuid
    refine ⟨s.control sid, rfl, rfl, .inr ⟨fun hp => ?_, _, _, Prod.ext hself.symm rfl⟩⟩
    rw [hp.1] at huuid
    cases huuid
  rename_i huuid
  have hvalid : env.isUuid sid = true := by simpa using huuid
  split
  · rename_i r hr
    split
    · rename_i hflight
      refine ⟨s.control sid, rfl, rfl, .inr ⟨fun hp => ?_, _, _, Prod.ext hself.symm rfl⟩⟩
      rw [hp.2.2 r hr] at hflight
      cases hflight
    rename_i hflight
    have hdrop : ∃ c : Control, c.loops = (s.control sid).loops ∧
        c.degraded = (s.control sid).degraded ∧
        (if r.status = .active then s.dropHandle sid else s) =
          { s with control := Function.update s.control sid c } := by
      split
      · exact ⟨{ s.control sid with handle := none }, rfl, rfl, rfl⟩
      · exact ⟨s.control sid, rfl, rfl, hself.symm⟩
    obtain ⟨c, hloops, hdegraded, hc⟩ := hdrop
    refine ⟨c, hloops, hdegraded, ?_⟩
    rw [hc]
    dsimp only
    split
    · rename_i e he
      exact .inr ⟨hnot e he, _, _, rfl⟩
    · rename_i redis removed hdelete
      refine .inl ⟨⟨hvalid, hnamed _ hdelete, fun r' hr' => ?_⟩, _, _, _, _, _, hdelete, rfl⟩
      cases hr.symm.trans hr'
      simpa using hflight
  · rename_i e he
    refine ⟨s.control sid, rfl, rfl, ?_⟩
    rw [hself]
    split
    · rename_i e' he'
      exact .inr ⟨hnot e' he', _, _, rfl⟩
    · rename_i redis removed hdelete
      refine .inl ⟨⟨hvalid, hnamed _ hdelete, fun r' hr' => ?_⟩, _, _, _, _, _, hdelete, rfl⟩
      cases he.symm.trans hr'

/-- DeleteSession takes the record of its session, or it leaves the status alone.
In neither case does it end a loop. -/
theorem deleteSession_cases (s : System) (env : OperatorEnv) (sid : String) (force : Bool) :
    ∃ c : Control, c.loops = (s.control sid).loops ∧
      (purges s env sid force ∧ Becomes s (deleteSession s env sid force).1 sid none c ∨
        ¬ purges s env sid force ∧
          Becomes s (deleteSession s env sid force).1 sid (s.status sid) c) := by
  obtain ⟨c, hloops, -, h⟩ := deleteSession_eq s env sid force
  refine ⟨c, hloops, ?_⟩
  obtain ⟨hp, redis, _, _, _, _, hdelete, heq⟩ | ⟨hno, _, _, heq⟩ := h
  · rw [heq]
    exact .inl ⟨hp, (becomes_control s sid c).setRedis redis (Redis.deleteSession_ok hdelete)⟩
  · rw [heq]
    exact .inr ⟨hno, becomes_control s sid c⟩

theorem sound_deleteSession (env : OperatorEnv) (sid : String) (force : Bool) (h : Recorded s)
    (hg : Expected s (.operator env (.deleteSession sid force)) = true) :
    Sound s (.operator env (.deleteSession sid force)) (deleteSession s env sid force).1 := by
  obtain ⟨c, hc, ⟨hp, hb⟩ | ⟨-, hb⟩⟩ := deleteSession_cases s env sid force
  · have hloop : s.NoLoop sid := by
      simp only [Expected, Bool.or_eq_true, decide_eq_true_eq] at hg
      obtain hloop | hflight := hg
      · exact hloop
      · cases hr : s.server.redis.get sid with
        | error e => rw [hr] at hflight; cases hflight
        | ok r =>
          rw [hr] at hflight
          exact absurd hflight (by simp [hp.2.2 r hr])
    exact hb.sound h (.deleted env force _ rfl) (watched_idle (hc.trans hloop))
  · refine hb.sound h (.same _) ?_
    rw [Watched, hc]
    exact h sid

theorem uploadFile_redis (serdeError : List Char → String) (s : Server) (fault : Option String)
    (u : Upload) : (uploadFile serdeError s fault u).1.redis = s.redis := by
  obtain he | ⟨record, loc, bytes, -, -, he⟩ := uploadFile_cases serdeError s fault u
  · rw [he]
  · rw [he]

theorem sound_server {server : Server} (h : Recorded s)
    (hsessions : server.redis.sessions = s.server.redis.sessions) :
    Sound s i { s with server := server } := by
  refine sound_unchanged h (funext fun sid => ?_) rfl
  exact congrArg (fun sessions => (sessions sid).status) hsessions

/-- A message is received in a status from which it may set its own. -/
theorem sound_setIn {sid : String} {statuses : List SessionStatus} {new : SessionStatus}
    (h : Recorded s) (hin : s.In sid statuses = true)
    (hset : ∀ old ∈ statuses, s.status sid = some old → Settable s i sid old new)
    (hcapturing : ∀ old ∈ statuses, ¬ Capturing old) : Sound s i (s.setStatus sid new) := by
  obtain ⟨old, hmem, hold⟩ := In_iff.mp hin
  exact sound_settle h hold (hset old hmem hold) (noLoop_of_status h hold (hcapturing old hmem))

/-- The reports of the reasoning pipeline. -/
theorem sound_degraded {sid : String} {degraded : Bool} {new : SessionStatus} (h : Recorded s)
    (hnew : Capturing new) (hin : s.In sid [.active, .reasoningDegraded] = true)
    (hmeant : ∀ old, Capturing old → MeantFor s i sid old) :
    Sound s i ((s.setDegraded sid degraded).setStatus sid new) := by
  obtain ⟨old, hmem, hold⟩ := In_iff.mp hin
  have hc : Capturing old := by simpa [Capturing] using hmem
  have hw := h sid
  refine ((becomes_control s sid { s.control sid with degraded := degraded }).setStatus new).sound h
    ?_ ⟨hw.1, fun _ => ⟨new, rfl, hnew⟩⟩
  rw [hold]
  exact .moved (.capture hc hnew) (hmeant old hc)

theorem sound_operator (env : OperatorEnv) (msg : OperatorMessage) (h : Recorded s)
    (hg : Expected s (.operator env msg) = true) :
    Sound s (.operator env msg) (handleMessage s env msg).1 := by
  cases msg with
  | registerSession r => exact sound_registerSession env r h
  | startWatch sid => exact sound_startWatch env sid h hg
  | done sid => exact sound_done env sid h hg
  | loadSession sid => exact sound_operatorLoadSession env sid h
  | updateAnnotationProgress sid annotated skipped =>
    exact sound_unchanged h (System.status_updateCounters s sid annotated skipped) rfl
  | closeAnnotation sid =>
    refine sound_setIn h hg (fun old hmem _ => ?_) (by decide)
    obtain rfl | rfl : old = .annotating ∨ old = SessionStatus.pendingAnnotation := by
      simpa using hmem
    · exact .inr ⟨.closed (.inl rfl), rfl⟩
    · exact .inl rfl
  | completeAnnotation sid =>
    simp only [Expected, Bool.or_eq_true, Bool.and_eq_true, decide_eq_true_eq] at hg
    obtain hin | ⟨hin, hauto, hloop⟩ := hg
    · refine sound_setIn h hin (fun old hmem _ => ?_) (by decide)
      obtain rfl | rfl : old = .annotating ∨ old = .pendingCompilation := by simpa using hmem
      · exact .inr ⟨.annotated, .inl rfl⟩
      · exact .inl rfl
    · obtain ⟨old, hmem, hold⟩ := In_iff.mp hin
      have hc : Capturing old := by simpa [Capturing] using hmem
      exact sound_settle h hold (.inr ⟨.compiled hc hauto, .inr ⟨hc, hauto⟩⟩) hloop
  | finalizeMemory sid =>
    refine sound_setIn h hg (fun old hmem _ => ?_) (by decide)
    obtain rfl | rfl : old = .pendingCompilation ∨ old = .complete := by simpa using hmem
    · exact .inr ⟨.finalised, rfl⟩
    · exact .inl rfl
  | reasoningDegraded sid stepRangeStart =>
    exact sound_degraded h (.inr rfl) hg fun _ hc => hc
  | circuitReset sid => exact sound_degraded h (.inl rfl) hg fun _ hc => hc
  | deleteSession sid force => exact sound_deleteSession env sid force h hg
  | uploadFile upload =>
    exact sound_server h (congrArg Redis.sessions (uploadFile_redis _ _ _ upload))
  | registerAnnotator annotatorId allowedTenantIds maxClaims =>
    simp only [handleMessage, registerAnnotator]
    split
    · exact sound_refl _ h
    · rename_i redis hregister
      unfold Redis.registerAnnotator at hregister
      split at hregister
      · cases hregister
      · cases hregister
        exact sound_server h rfl
  | _ => exact sound_refl _ h

theorem sound_sessionOp (b : String) (env : Env) (msg : InboundMessage) (sid : String)
    (h : Recorded s) (hsid : opSession msg = some sid)
    (howner : s.server.redis.getClaimOwner sid = some b)
    (hg : Expected s (.annotator b env msg) = true) :
    Sound s (.annotator b env msg) { s with server := (handleSessionOp s.server env msg).1 } := by
  cases msg with
  | loadSession _ =>
    cases hsid
    rw [handleSessionOp]
    obtain ⟨_, _, heq⟩ | ⟨r, hr, hc, heq⟩ := loadSession_cases s.server sid
    · rw [heq]
      exact sound_refl _ h
    · rw [heq]
      have hstatus := status_of_get hr
      refine sound_settle h hstatus ?_ (noLoop_of_status h hstatus ?_)
      · obtain hp | ha := hc
        · exact .inr ⟨.loaded (.inr hp), .inr hp⟩
        · exact .inl ha
      · obtain hp | ha := hc
        · rw [hp]; decide
        · rw [ha]; decide
  | updateAnnotationProgress _ annotated skipped =>
    cases hsid
    exact sound_unchanged h (System.status_updateCounters s sid annotated skipped) rfl
  | closeAnnotation _ =>
    cases hsid
    have hin : s.In sid [.annotating, SessionStatus.pendingHumanAnnotation] = true := by
      simpa [Expected, howner] using hg
    refine sound_setIn h hin (fun old hmem _ => ?_) (by decide)
    obtain rfl | rfl : old = .annotating ∨ old = SessionStatus.pendingHumanAnnotation := by
      simpa using hmem
    · exact .inr ⟨.closed (.inr rfl), rfl⟩
    · exact .inl rfl
  | completeAnnotation _ =>
    cases hsid
    have hin : s.In sid [.annotating, .pendingCompilation] = true := by
      simpa [Expected, howner] using hg
    refine sound_setIn h hin (fun old hmem _ => ?_) (by decide)
    obtain rfl | rfl : old = .annotating ∨ old = .pendingCompilation := by simpa using hmem
    · exact .inr ⟨.annotated, rfl⟩
    · exact .inl rfl
  | uploadFile u =>
    exact sound_server h (congrArg Redis.sessions (uploadFile_redis _ _ _ u))
  | _ => exact sound_refl _ h

theorem sound_annotator (b : String) (env : Env) (msg : InboundMessage) (h : Recorded s)
    (hg : Expected s (.annotator b env msg) = true) :
    Sound s (.annotator b env msg)
      { s with server := (handleAnnotatorMessage s.server env b msg).1 } := by
  have hclaimed : handleAnnotatorMessage s.server env b msg = handleClaimedOp s.server env b msg →
      Sound s (.annotator b env msg)
        { s with server := (handleAnnotatorMessage s.server env b msg).1 } := by
    intro he
    rw [he]
    obtain ⟨_, _, heq⟩ | ⟨sid, hsid, howner, heq⟩ := handleClaimedOp_eq s.server env b msg
    · rw [heq]
      exact sound_refl _ h
    · rw [heq]
      exact sound_sessionOp b env msg sid h hsid howner hg
  cases msg with
  | ping | listAnnotationQueue | heartbeatClaim _ _ => exact sound_refl _ h
  | claimSession sid =>
    obtain ⟨hsame, -⟩ | ⟨target, -, -, -, hclaim⟩ := claimSession_cases s.server env b sid
    · rw [handleAnnotatorMessage, hsame]
      exact sound_refl _ h
    · rw [handleAnnotatorMessage, hclaim]
      exact sound_server h rfl
  | releaseSession sid claimId =>
    rw [handleAnnotatorMessage]
    have hrelease : Sound s (.annotator b env (.releaseSession sid claimId))
        (s.setRedis (s.server.redis.releaseClaim sid)) := sound_server h rfl
    have hb : Becomes s (s.setRedis (s.server.redis.releaseClaim sid)) sid (s.status sid)
        (s.control sid) := ⟨(Becomes.refl s sid).status, (Becomes.refl s sid).control⟩
    obtain ⟨-, _, _, heq⟩ | ⟨-, ⟨r, hr, ha, heq⟩ | ⟨-, heq⟩⟩ := releaseSession_cases s.server b sid claimId
    · rw [heq]
      exact sound_refl _ h
    · rw [heq]
      have hstatus : s.status sid = some r.status := status_of_get hr
      rw [ha] at hstatus
      refine (hb.setStatus SessionStatus.pendingHumanAnnotation).sound h ?_
        (watched_idle (noLoop_of_status h hstatus (by decide)))
      rw [hstatus]
      exact .moved (.closed (.inr rfl)) rfl
    · rw [heq]
      exact hrelease
  | _ => exact hclaimed rfl

theorem Watched.setLoop {status : Option SessionStatus} {c : Control} (h : Watched status c)
    (l : Capture.LoopControl) : Watched status (c.setLoop l) := by
  refine ⟨?_, fun hne => h.2 fun hnil => hne ?_⟩
  · simpa [Control.setLoop] using h.1
  · simp [Control.setLoop, hnil]

/-- The only loop of a session is dropped. -/
theorem Watched.dropLoop {status : Option SessionStatus} {c : Control} (h : Watched status c)
    {id : Nat} {l : Capture.LoopControl} (hl : c.loop? id = some l) : (c.dropLoop l.id).loops = [] := by
  have hmem : l ∈ c.loops := List.mem_of_find?_eq_some hl
  obtain ⟨k, hk⟩ := List.length_eq_one_iff.mp (le_antisymm h.1 (List.length_pos_of_mem hmem))
  rw [hk] at hmem
  obtain rfl := List.mem_singleton.mp hmem
  simp [Control.dropLoop, hk]

theorem Watched.of_loop {status : Option SessionStatus} {c : Control} (h : Watched status c)
    {id : Nat} {l : Capture.LoopControl} (hl : c.loop? id = some l) :
    ∃ old, status = some old ∧ Capturing old :=
  h.2 (List.ne_nil_of_mem (List.mem_of_find?_eq_some hl))

/-- A loop that is connecting becomes ready or is dropped, and then its session is
interrupted. -/
theorem connectLoop_eq (s : System) (sid : String) (id : Nat) (connected : Bool) :
    connectLoop s sid id connected = s ∨ ∃ l, (s.control sid).loop? id = some l ∧
      l.phase = .connecting ∧
        (connected = true ∧ connectLoop s sid id connected = s.watch sid (.connect id connected) ∨
          connected = false ∧ connectLoop s sid id connected =
            (s.watch sid (.connect id connected)).setStatus sid .incomplete) := by
  rw [connectLoop]
  cases (s.control sid).loop? id with
  | none => exact .inl rfl
  | some l =>
    by_cases hphase : l.phase = .connecting
    · refine .inr ⟨l, rfl, hphase, ?_⟩
      dsimp only
      rw [if_pos hphase]
      cases connected with
      | true => exact .inl ⟨rfl, rfl⟩
      | false => exact .inr ⟨rfl, rfl⟩
    · exact .inl (if_neg hphase)

theorem sound_connect (sid : String) (id : Nat) (connected : Bool) (h : Recorded s) :
    Sound s (.connect sid id connected) (connectLoop s sid id connected) := by
  obtain hsame | ⟨l, hl, hphase, ⟨hconnected, heq⟩ | ⟨hconnected, heq⟩⟩ := connectLoop_eq s sid id connected
  · rw [hsame]
    exact sound_refl _ h
  · rw [heq, System.watch, Control.step_connect hl hphase, Control.connect, if_pos hconnected]
    refine (becomes_control s sid _).sound h (.same _) ?_
    exact Watched.setLoop (c := { s.control sid with handle := some l.id }) (h sid) _
  · rw [heq, System.watch, Control.step_connect hl hphase, Control.connect, hconnected,
      if_neg Bool.false_ne_true]
    obtain ⟨old, hold, hc⟩ := (h sid).of_loop hl
    have hb := (becomes_control s sid ((s.control sid).dropLoop l.id)).setStatus .incomplete
    refine hb.sound h ?_ (watched_idle ((h sid).dropLoop hl))
    rw [hold]
    exact .moved (.interrupted hc) hc

theorem sound_leave (sid : String) (id : Nat) (doneCleanly : Bool) (h : Recorded s) :
    Sound s (.leave sid id doneCleanly) (s.watch sid (.leave id doneCleanly)) := by
  refine (becomes_control s sid _).sound h (.same _) ?_
  unfold Control.step
  dsimp only
  split
  · split
    · unfold Control.leave
      split
      · exact h sid
      · exact Watched.setLoop (c := { s.control sid with degraded := false }) (h sid) _
    · exact h sid
  · exact h sid

/-- The status that the end of a loop sets. -/
def endStatus (doneCleanly wasDegraded : Bool) : SessionStatus :=
  if doneCleanly then doneStatus wasDegraded else .incomplete

/-- The end of a loop sets the status, and the path of an interrupted session in local
mode whose directory was renamed. -/
theorem endLoop_eq (s : System) (sid : String) (doneCleanly wasDegraded : Bool) (renamed : Option String) :
    endLoop s sid doneCleanly wasDegraded renamed = s.setStatus sid (endStatus doneCleanly wasDegraded) ∨
      ∃ path, renamed = some path ∧ doneCleanly = false ∧
        endLoop s sid doneCleanly wasDegraded renamed = (s.setStatus sid .incomplete).setRedis
          ((s.setStatus sid .incomplete).server.redis.updateMemoryPath sid path) := by
  rw [endLoop]
  cases doneCleanly with
  | true => exact .inl rfl
  | false =>
    cases renamed with
    | none => exact .inl rfl
    | some path =>
      rw [if_neg Bool.false_ne_true]
      dsimp only
      split
      · exact .inl rfl
      · exact .inr ⟨path, rfl, rfl, rfl⟩

theorem finishLoop_eq (s : System) (sid : String) (id : Nat) (renamed : Option String) :
    finishLoop s sid id renamed = s ∨ ∃ l doneCleanly, (s.control sid).loop? id = some l ∧
      l.phase = .leaving doneCleanly ∧ finishLoop s sid id renamed =
        endLoop (s.watch sid (.finish id)) sid doneCleanly l.wasDegraded renamed := by
  rw [finishLoop]
  cases (s.control sid).loop? id with
  | none => exact .inl rfl
  | some l =>
    dsimp only
    cases hphase : l.phase with
    | connecting | running => exact .inl rfl
    | leaving doneCleanly => exact .inr ⟨l, doneCleanly, rfl, hphase, rfl⟩

theorem Becomes.endLoop {s' : System} {sid : String} {status : Option SessionStatus} {c : Control}
    (hb : Becomes s s' sid status c) (doneCleanly wasDegraded : Bool) (renamed : Option String) :
    Becomes s (endLoop s' sid doneCleanly wasDegraded renamed) sid
      (some (endStatus doneCleanly wasDegraded)) c := by
  have hset := hb.setStatus (endStatus doneCleanly wasDegraded)
  obtain heq | ⟨path, -, rfl, heq⟩ := endLoop_eq s' sid doneCleanly wasDegraded renamed
  · rw [heq]
    exact hset
  · rw [heq]
    refine ⟨fun sid => ?_, hset.control⟩
    rw [System.status_updateMemoryPath]
    exact hset.status sid

theorem edge_endStatus {automated : Prop} {old : SessionStatus} (hc : Capturing old)
    (doneCleanly wasDegraded : Bool) : Edge automated old (endStatus doneCleanly wasDegraded) := by
  cases doneCleanly with
  | true => exact .recorded hc (pending_doneStatus wasDegraded)
  | false => exact .interrupted hc

theorem sound_finish (sid : String) (id : Nat) (renamed : Option String) (h : Recorded s) :
    Sound s (.finish sid id renamed) (finishLoop s sid id renamed) := by
  obtain hsame | ⟨l, doneCleanly, hl, hphase, heq⟩ := finishLoop_eq s sid id renamed
  · rw [hsame]
    exact sound_refl _ h
  · rw [heq]
    obtain ⟨old, hold, hc⟩ := (h sid).of_loop hl
    have hstep : ((s.control sid).step (.finish id)).loops = [] := by
      rw [Control.step_finish hl hphase]
      exact (h sid).dropLoop hl
    have hb := (becomes_control s sid ((s.control sid).step (.finish id))).endLoop doneCleanly
      l.wasDegraded renamed
    refine hb.sound h ?_ (watched_idle hstep)
    rw [hold]
    exact .moved (edge_endStatus hc doneCleanly l.wasDegraded) hc

theorem sound_step (s : System) (i : SystemInput) (h : Recorded s) (hg : Expected s i = true) :
    Sound s i (s.step i) := by
  cases i with
  | operator env msg => exact sound_operator env msg h hg
  | annotator b env msg => exact sound_annotator b env msg h hg
  | expire sid => exact sound_server h rfl
  | connect sid id connected => exact sound_connect sid id connected h
  | leave sid id doneCleanly => exact sound_leave sid id doneCleanly h
  | finish sid id renamed => exact sound_finish sid id renamed h

end Steps

end MemoryArchive.Ipc
