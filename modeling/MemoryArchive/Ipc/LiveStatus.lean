import MemoryArchive.Ipc.Lifecycle

namespace MemoryArchive.Ipc

open Capture (Control LoopControl)
open Registry Runs

/-- A loop has signalled that it is ready and has not ended. -/
def Live (c : Control) : Prop := ∃ l ∈ c.loops, l.phase ≠ .connecting

/-- The status of a session with a live loop says that it is being recorded. -/
def Reflects (status : Option SessionStatus) (c : Control) : Prop :=
  Live c → ∃ old, status = some old ∧ Capturing old

def Reflected (s : System) : Prop := ∀ sid, Reflects (s.status sid) (s.control sid)

/-- A loop becomes ready only under a status of a recording, and while a loop is
live no input ends the recording in the registry. -/
def KeepsReflected (s : System) : SystemInput → Prop
  | .operator env msg =>
      match msg with
      | .startWatch sid => ∀ r, s.server.redis.get sid = .ok r → memoryDirMissing s env r = false →
          env.metadataLoads = false → ¬ Live (s.control sid)
      | .done sid => (s.control sid).handle = none → ∀ r, s.server.redis.get sid = .ok r →
          ¬ Live (s.control sid)
      | OperatorMessage.closeAnnotation sid | OperatorMessage.completeAnnotation sid
      | .finalizeMemory sid => ¬ Live (s.control sid)
      | .deleteSession sid force => purges s env sid force → ¬ Live (s.control sid)
      | _ => True
  | .annotator b _ msg =>
      match msg with
      | InboundMessage.closeAnnotation sid | InboundMessage.completeAnnotation sid =>
          s.server.redis.getClaimOwner sid = some b → ¬ Live (s.control sid)
      | _ => True
  | .connect sid id connected => ∀ l, (s.control sid).loop? id = some l → l.phase = .connecting →
      if connected then ∃ old, s.status sid = some old ∧ Capturing old
      else ¬ Live ((s.control sid).dropLoop id)
  | .finish sid id _ => ∀ l doneCleanly, (s.control sid).loop? id = some l →
      l.phase = .leaving doneCleanly → ¬ Live ((s.control sid).dropLoop id)
  | .expire _ | .leave _ _ _ => True

theorem reflects_capturing {new : SessionStatus} (c : Control) (hnew : Capturing new) :
    Reflects (some new) c :=
  fun _ => ⟨new, rfl, hnew⟩

theorem reflects_settled {new : SessionStatus} (c : Control) (hnew : ¬ Capturing new) :
    Reflects (some new) c ↔ ¬ Live c := by
  constructor
  · intro h hlive
    obtain ⟨old, ho, hc⟩ := h hlive
    cases ho
    exact hnew hc
  · intro h hlive
    exact absurd hlive h

theorem reflects_none (c : Control) : Reflects none c ↔ ¬ Live c := by
  constructor
  · intro h hlive
    obtain ⟨old, ho, -⟩ := h hlive
    cases ho
  · intro h hlive
    exact absurd hlive h

variable {s : System}

theorem Becomes.reflected_iff {s' : System} {t : String} {status : Option SessionStatus} {c : Control}
    (hb : Becomes s s' t status c) (h : Reflected s) : Reflected s' ↔ Reflects status c := by
  constructor
  · intro h'
    have ht := h' t
    rwa [hb.status, hb.control, if_pos rfl, if_pos rfl] at ht
  · intro ht sid
    rw [hb.status, hb.control]
    by_cases hsid : sid = t
    · rw [if_pos hsid, if_pos hsid]
      exact ht
    · rw [if_neg hsid, if_neg hsid]
      exact h sid

theorem reflected_congr {s' : System} (hstatus : s'.status = s.status)
    (hcontrol : s'.control = s.control) : Reflected s' ↔ Reflected s := by
  rw [Reflected, Reflected, hstatus, hcontrol]

theorem pending_not_capturing {status : SessionStatus} (h : Pending status) : ¬ Capturing status := by
  obtain rfl | rfl := h
  · decide
  · decide

/-- A status that says nothing of a recording is set while no loop is live. -/
theorem reflected_setStatus (sid : String) {new : SessionStatus} (hnew : ¬ Capturing new)
    (h : Reflected s) : Reflected (s.setStatus sid new) ↔ ¬ Live (s.control sid) :=
  ((becomes_setStatus s sid new).reflected_iff h).trans (reflects_settled _ hnew)

theorem live_done (c : Control) : Live (c.step .done) ↔ Live c := by
  rw [Live, Live, loops_done]

theorem reflected_server {server : Server}
    (hsessions : server.redis.sessions = s.server.redis.sessions) :
    Reflected { s with server := server } ↔ Reflected s :=
  reflected_congr (funext fun sid => congrArg (fun sessions => (sessions sid).status) hsessions) rfl

theorem reflected_registerSession (env : OperatorEnv) (r : Registration) (h : Reflected s) :
    Reflected (registerSession s env r).1 := by
  obtain heq | ⟨record, redis, hid, hactive, -, hregister, hset⟩ := registerSession_eq s env r
  · rw [heq]
    exact h
  obtain ⟨habsent, hredis⟩ := Redis.register_ok hregister
  rw [hid] at habsent hredis
  have hidle : ¬ Live (s.control env.sessionId) := by
    apply (reflects_none _).mp
    have hsid := h env.sessionId
    rwa [show s.status env.sessionId = none from congrArg Entry.status habsent] at hsid
  have hb := (Becomes.refl s env.sessionId).setRedis redis hredis
  obtain heq | heq := hset
  · rw [heq]
    refine (hb.reflected_iff h).mpr ?_
    change Reflects (some record.status) (s.control env.sessionId)
    rw [hactive]
    exact fun hlive => absurd hlive hidle
  · rw [heq]
    exact ((hb.setStatus .incomplete).reflected_iff h).mpr fun hlive => absurd hlive hidle

theorem live_start (c : Control) : Live (c.step .start) ↔ Live c := by
  constructor
  · rintro ⟨l, hl, hphase⟩
    obtain hl | hl := List.mem_append.mp hl
    · exact ⟨l, hl, hphase⟩
    · obtain rfl := List.mem_singleton.mp hl
      exact absurd rfl hphase
  · rintro ⟨l, hl, hphase⟩
    exact ⟨l, List.mem_append_left _ hl, hphase⟩

theorem reflected_startWatch (env : OperatorEnv) (sid : String) (h : Reflected s) :
    Reflected (startWatch s env sid).1 ↔ KeepsReflected s (.operator env (.startWatch sid)) := by
  rw [startWatch, KeepsReflected]
  cases hr : s.server.redis.get sid with
  | error e => exact ⟨fun _ _ hr' => (by cases hr'), fun _ => h⟩
  | ok r =>
    cases hdir : memoryDirMissing s env r with
    | true =>
      refine ⟨fun _ r' hr' hdir' => ?_, fun _ => ?_⟩
      · cases hr'
        rw [hdir] at hdir'
        cases hdir'
      · simpa [hdir] using h
    | false =>
      cases hloads : env.metadataLoads with
      | true =>
        refine ⟨fun _ _ _ _ hno => (by cases hno), fun _ => ?_⟩
        simp only [hdir, Bool.false_eq_true, if_false, if_true]
        refine ((becomes_control s sid _).reflected_iff h).mpr ?_
        rw [Reflects, live_start]
        exact h sid
      | false =>
        simp only [hdir, Bool.false_eq_true, if_false]
        refine (reflected_setStatus sid (by decide) h).trans ?_
        constructor
        · intro hlive _ _ _ _
          exact hlive
        · intro hlive
          exact hlive r rfl hdir trivial

theorem reflected_done (env : OperatorEnv) (sid : String) (h : Reflected s) :
    Reflected (done s env sid).1 ↔ KeepsReflected s (.operator env (.done sid)) := by
  rw [done, KeepsReflected]
  cases hhandle : (s.control sid).handle with
  | some id =>
    refine ⟨fun _ hno => (by cases hno), fun _ => ?_⟩
    refine ((becomes_control s sid _).reflected_iff h).mpr ?_
    rw [Reflects, live_done]
    exact h sid
  | none =>
    cases hr : s.server.redis.get sid with
    | error e => exact ⟨fun _ _ _ hr' => (by cases hr'), fun _ => h⟩
    | ok r =>
      have hb := (becomes_control s sid ((s.control sid).step .done)).setStatus
        (doneStatus (s.control sid).degraded)
      refine (hb.reflected_iff h).trans ?_
      rw [reflects_settled _ (pending_not_capturing (pending_doneStatus _)), live_done]
      exact ⟨fun hlive _ _ _ => hlive, fun hlive => hlive rfl r rfl⟩

theorem reflected_operatorLoadSession (sid : String) (h : Reflected s) :
    Reflected (operatorLoadSession s sid).1 := by
  rw [operatorLoadSession]
  split
  · exact h
  rename_i r hr
  split
  · rename_i hc
    refine (reflected_setStatus sid (by decide) h).mpr fun hlive => ?_
    obtain ⟨old, hold, hcapturing⟩ := h sid hlive
    rw [status_of_get hr] at hold
    cases hold
    obtain hp | ha := hc
    · rw [hp] at hcapturing
      revert hcapturing
      decide
    · rw [ha] at hcapturing
      revert hcapturing
      decide
  · exact h

theorem reflected_deleteSession (env : OperatorEnv) (sid : String) (force : Bool) (h : Reflected s) :
    Reflected (deleteSession s env sid force).1 ↔
      KeepsReflected s (.operator env (.deleteSession sid force)) := by
  rw [KeepsReflected]
  obtain ⟨c, hc, ⟨hp, hb⟩ | ⟨hno, hb⟩⟩ := deleteSession_cases s env sid force
  · rw [hb.reflected_iff h, reflects_none, Live, hc]
    exact ⟨fun hlive _ => hlive, fun hlive => hlive hp⟩
  · rw [hb.reflected_iff h]
    refine ⟨fun _ hp => absurd hp hno, fun _ => ?_⟩
    rw [Reflects, Live, hc]
    exact h sid

theorem reflected_degraded (sid : String) (degraded : Bool) {new : SessionStatus}
    (hnew : Capturing new) (h : Reflected s) :
    Reflected ((s.setDegraded sid degraded).setStatus sid new) :=
  (((becomes_control s sid { s.control sid with degraded := degraded }).setStatus new).reflected_iff h).mpr
    (reflects_capturing _ hnew)

theorem reflected_operator (env : OperatorEnv) (msg : OperatorMessage) (h : Reflected s) :
    Reflected (handleMessage s env msg).1 ↔ KeepsReflected s (.operator env msg) := by
  cases msg with
  | registerSession r => exact iff_of_true (reflected_registerSession env r h) trivial
  | startWatch sid => exact reflected_startWatch env sid h
  | done sid => exact reflected_done env sid h
  | loadSession sid => exact iff_of_true (reflected_operatorLoadSession sid h) trivial
  | updateAnnotationProgress sid annotated skipped =>
    exact iff_of_true ((reflected_congr (s.status_updateCounters sid annotated skipped) rfl).mpr h) trivial
  | closeAnnotation sid => exact reflected_setStatus sid (by decide) h
  | completeAnnotation sid => exact reflected_setStatus sid (by decide) h
  | finalizeMemory sid => exact reflected_setStatus sid (by decide) h
  | reasoningDegraded sid stepRangeStart =>
    exact iff_of_true (reflected_degraded sid true (.inr rfl) h) trivial
  | circuitReset sid => exact iff_of_true (reflected_degraded sid false (.inl rfl) h) trivial
  | deleteSession sid force => exact reflected_deleteSession env sid force h
  | uploadFile upload =>
    have hsessions := congrArg Redis.sessions
      (uploadFile_redis env.env.serdeError s.server env.env.fault upload)
    exact iff_of_true ((reflected_server hsessions).mpr h) trivial
  | registerAnnotator annotatorId allowedTenantIds maxClaims =>
    refine iff_of_true ?_ trivial
    simp only [handleMessage, registerAnnotator]
    split
    · exact h
    · rename_i redis hregister
      rw [Redis.registerAnnotator] at hregister
      split at hregister
      · cases hregister
      · cases hregister
        exact (reflected_server rfl).mpr h
  | _ => exact iff_of_true h trivial

theorem reflected_sessionOp (b : String) (env : Env) (msg : InboundMessage) (sid : String)
    (h : Reflected s) (hsid : opSession msg = some sid)
    (howner : s.server.redis.getClaimOwner sid = some b) :
    Reflected { s with server := (handleSessionOp s.server env msg).1 } ↔
      KeepsReflected s (.annotator b env msg) := by
  cases msg with
  | loadSession _ =>
    cases hsid
    refine iff_of_true ?_ trivial
    rw [handleSessionOp]
    obtain ⟨_, _, heq⟩ | ⟨r, hr, hc, heq⟩ := loadSession_cases s.server sid
    · rw [heq]
      exact h
    · rw [heq]
      refine (reflected_setStatus sid (by decide) h).mpr fun hlive => ?_
      obtain ⟨old, hold, hcapturing⟩ := h sid hlive
      rw [status_of_get hr] at hold
      cases hold
      obtain hp | ha := hc
      · rw [hp] at hcapturing
        revert hcapturing
        decide
      · rw [ha] at hcapturing
        revert hcapturing
        decide
  | updateAnnotationProgress _ annotated skipped =>
    cases hsid
    exact iff_of_true ((reflected_congr (s.status_updateCounters sid annotated skipped) rfl).mpr h) trivial
  | closeAnnotation _ =>
    cases hsid
    refine (reflected_setStatus sid (by decide) h).trans ?_
    exact ⟨fun hlive _ => hlive, fun hlive => hlive howner⟩
  | completeAnnotation _ =>
    cases hsid
    refine (reflected_setStatus sid (by decide) h).trans ?_
    exact ⟨fun hlive _ => hlive, fun hlive => hlive howner⟩
  | uploadFile u =>
    have hsessions := congrArg Redis.sessions (uploadFile_redis env.serdeError s.server env.fault u)
    exact iff_of_true ((reflected_server hsessions).mpr h) trivial
  | _ => exact iff_of_true h trivial

theorem reflected_annotator (b : String) (env : Env) (msg : InboundMessage) (h : Reflected s) :
    Reflected { s with server := (handleAnnotatorMessage s.server env b msg).1 } ↔
      KeepsReflected s (.annotator b env msg) := by
  have hclaimed : ∀ sid, opSession msg = some sid →
      handleAnnotatorMessage s.server env b msg = handleClaimedOp s.server env b msg →
      (s.server.redis.getClaimOwner sid ≠ some b → KeepsReflected s (.annotator b env msg)) →
      (Reflected { s with server := (handleAnnotatorMessage s.server env b msg).1 } ↔
        KeepsReflected s (.annotator b env msg)) := by
    intro sid hsid he hno
    rw [he, handleClaimedOp, hsid]
    by_cases howner : s.server.redis.getClaimOwner sid = some b
    · simp only [howner, ne_eq, not_true_eq_false, if_false]
      exact reflected_sessionOp b env msg sid h hsid howner
    · simp only [ne_eq, howner, not_false_eq_true, if_true]
      exact iff_of_true h (hno howner)
  cases msg with
  | ping | listAnnotationQueue | heartbeatClaim _ _ | admin => exact iff_of_true h trivial
  | claimSession sid =>
    refine iff_of_true ?_ trivial
    obtain ⟨hsame, -⟩ | ⟨target, -, -, -, hclaim⟩ := claimSession_cases s.server env b sid
    · rw [handleAnnotatorMessage, hsame]
      exact h
    · rw [handleAnnotatorMessage, hclaim]
      exact (reflected_server rfl).mpr h
  | releaseSession sid claimId =>
    refine iff_of_true ?_ trivial
    have hreleased : Reflected (s.setRedis (s.server.redis.releaseClaim sid)) :=
      (reflected_server rfl).mpr h
    rw [handleAnnotatorMessage]
    obtain ⟨-, _, _, heq⟩ | ⟨-, ⟨r, hr, ha, heq⟩ | ⟨-, heq⟩⟩ := releaseSession_cases s.server b sid claimId
    · rw [heq]
      exact h
    · rw [heq]
      refine (reflected_setStatus sid (by decide) hreleased).mpr fun hlive => ?_
      obtain ⟨old, hold, hcapturing⟩ := hreleased sid hlive
      have hstatus : (s.setRedis (s.server.redis.releaseClaim sid)).status sid = some r.status :=
        status_of_get hr
      rw [hstatus, ha] at hold
      cases hold
      revert hcapturing
      decide
    · rw [heq]
      exact hreleased
  | closeAnnotation sid => exact hclaimed sid rfl rfl fun hno ho => absurd ho hno
  | completeAnnotation sid => exact hclaimed sid rfl rfl fun hno ho => absurd ho hno
  | getSessionStatus sid | loadSession sid => exact hclaimed sid rfl rfl fun _ => trivial
  | updateAnnotationProgress sid _ _ => exact hclaimed sid rfl rfl fun _ => trivial
  | fetchFile sid _ => exact hclaimed sid rfl rfl fun _ => trivial
  | listSessionFiles sid _ => exact hclaimed sid rfl rfl fun _ => trivial
  | uploadFile u => exact hclaimed u.sessionId rfl rfl fun _ => trivial

/-- A loop that leaves was live before. -/
theorem live_leave {c : Control} {id : Nat} {doneCleanly : Bool}
    (h : Live (c.step (.leave id doneCleanly))) : Live c := by
  rw [Control.step] at h
  split at h
  · rename_i l hl
    split at h
    · rename_i hphase
      exact ⟨l, List.mem_of_find?_eq_some hl, by rw [hphase]; simp⟩
    · exact h
  · exact h

theorem live_setLoop_running {c : Control} {id : Nat} {l k : LoopControl} (hl : c.loop? id = some l)
    (hid : k.id = l.id) (hk : k.phase ≠ .connecting) : Live (c.setLoop k) := by
  refine ⟨k, List.mem_map.mpr ⟨l, List.mem_of_find?_eq_some hl, ?_⟩, hk⟩
  rw [if_pos hid.symm]

theorem reflected_connect (sid : String) (id : Nat) (connected : Bool) (h : Reflected s) :
    Reflected (connectLoop s sid id connected) ↔ KeepsReflected s (.connect sid id connected) := by
  rw [connectLoop, KeepsReflected]
  cases hl : (s.control sid).loop? id with
  | none => exact ⟨fun _ _ hl' => (by cases hl'), fun _ => h⟩
  | some l =>
    by_cases hphase : l.phase = .connecting
    · have hb := becomes_control s sid ((s.control sid).step (.connect id connected))
      rw [Control.step_connect hl hphase, Control.connect, Control.loop?_id hl] at hb
      simp only [hphase, if_true, System.watch, Control.step_connect hl hphase, Control.connect,
        Control.loop?_id hl]
      cases connected with
      | true =>
        simp only [if_true] at hb ⊢
        refine (hb.reflected_iff h).trans ⟨fun hr _ _ _ => ?_, fun hr _ => hr l rfl hphase⟩
        apply hr
        exact live_setLoop_running (c := { s.control sid with handle := some id }) hl (Control.loop?_id hl).symm (by simp)
      | false =>
        simp only [Bool.false_eq_true, if_false] at hb ⊢
        refine ((hb.setStatus .incomplete).reflected_iff h).trans ?_
        rw [reflects_settled _ (by decide)]
        exact ⟨fun hr _ _ _ => hr, fun hr => hr l rfl hphase⟩
    · simp only [hphase, if_false]
      refine iff_of_true h fun l' hl' hphase' => ?_
      cases hl'
      exact absurd hphase' hphase

theorem endStatus_not_capturing (doneCleanly wasDegraded : Bool) :
    ¬ Capturing (endStatus doneCleanly wasDegraded) := by
  cases doneCleanly with
  | true => exact pending_not_capturing (pending_doneStatus wasDegraded)
  | false => exact (by decide : ¬ Capturing .incomplete)

theorem reflected_finish (sid : String) (id : Nat) (renamed : Option String) (h : Reflected s) :
    Reflected (finishLoop s sid id renamed) ↔ KeepsReflected s (.finish sid id renamed) := by
  rw [finishLoop, KeepsReflected]
  cases hl : (s.control sid).loop? id with
  | none => exact iff_of_true h fun _ _ hl' => by cases hl'
  | some l =>
    have hrefused : (∀ b, l.phase ≠ .leaving b) → ∀ l' doneCleanly, some l = some l' →
        l'.phase = .leaving doneCleanly → ¬ Live ((s.control sid).dropLoop id) := by
      intro hno l' b hl' hphase
      cases hl'
      exact absurd hphase (hno b)
    dsimp only
    cases hphase : l.phase with
    | connecting => exact iff_of_true h (hrefused fun b he => by rw [hphase] at he; cases he)
    | running => exact iff_of_true h (hrefused fun b he => by rw [hphase] at he; cases he)
    | leaving doneCleanly =>
      have hb := (becomes_control s sid ((s.control sid).step (.finish id))).endLoop doneCleanly
        l.wasDegraded renamed
      refine (hb.reflected_iff h).trans ?_
      rw [reflects_settled _ (endStatus_not_capturing doneCleanly l.wasDegraded),
        Control.step_finish hl hphase, Control.finish, Control.loop?_id hl]
      constructor
      · intro hlive _ _ _ _
        exact hlive
      · intro hlive
        exact hlive l doneCleanly rfl hphase

/-- A step keeps every status in agreement with the live loops if and only if it
meets the condition. -/
theorem reflected_step (s : System) (i : SystemInput) (h : Reflected s) :
    Reflected (s.step i) ↔ KeepsReflected s i := by
  cases i with
  | operator env msg => exact reflected_operator env msg h
  | annotator b env msg => exact reflected_annotator b env msg h
  | expire sid => exact iff_of_true ((reflected_server rfl).mpr h) trivial
  | connect sid id connected => exact reflected_connect sid id connected h
  | leave sid id doneCleanly =>
    refine iff_of_true (((becomes_control s sid _).reflected_iff h).mpr fun hlive => ?_) trivial
    exact h sid (live_leave hlive)
  | finish sid id renamed => exact reflected_finish sid id renamed h

/-- The program after a start: any registry, and no loop. -/
def System.boot (server : Server) : System := ⟨server, fun _ => .idle⟩

/-- In a run every status agrees with the live loops at all times if and only if
every input meets the condition. -/
theorem live_status_iff (server : Server) (is : List SystemInput) :
    Along System.step (fun _ _ s' => Reflected s') (.boot server) is ↔
      Guarded System.step KeepsReflected (.boot server) is := by
  have hboot : Reflected (.boot server) := by
    rintro sid ⟨l, hl, -⟩
    cases hl
  exact along_iff_guarded reflected_step (System.boot server) is hboot

/-- A watch that does not connect, and then one that does. -/
def retriedWatch : List SystemInput :=
  [.operator lifecycleEnv (.registerSession ⟨"manual", "demo", none, none, "", ""⟩),
    .operator lifecycleEnv (.startWatch "s1"), .connect "s1" 0 false,
    .operator lifecycleEnv (.startWatch "s1"), .connect "s1" 1 true]

/-- The second watch records a session whose status is incomplete. -/
theorem retried_watch_unseen :
    ¬ Along System.step (fun _ _ s' => Reflected s') (.boot (System.start (sampleServer [])).server)
      retriedWatch := by
  intro h
  have hstatus : (run System.step (.boot (System.start (sampleServer [])).server) retriedWatch).status
      "s1" = some .incomplete := by
    decide +kernel
  have hloops : ((run System.step (.boot (System.start (sampleServer [])).server)
      retriedWatch).control "s1").loops = [⟨1, .running, false⟩] := by
    decide +kernel
  have hlive : Live ((run System.step (.boot (System.start (sampleServer [])).server)
      retriedWatch).control "s1") :=
    ⟨⟨1, .running, false⟩, by rw [hloops]; exact List.mem_singleton_self _, by decide⟩
  obtain ⟨old, hold, hc⟩ := h.2.2.2.2.1 "s1" hlive
  have hsame := hstatus.symm.trans hold
  cases hsame
  revert hc
  decide

end MemoryArchive.Ipc
