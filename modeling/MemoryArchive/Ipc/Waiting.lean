import MemoryArchive.Ipc.AnnotatorSteps
import MemoryArchive.Ipc.Startup

namespace MemoryArchive.Ipc.Waiting

open Registry Runs

/-- The server, with an account of the sessions that wait for human work: those that have
entered pending_human_annotation and have not had CompleteAnnotation since. -/
structure World where
  server : Server
  waiting : String → Bool

inductive Event
  | message (annotatorId : String) (env : Env) (msg : InboundMessage)
  | expire (sid : String)
  | restart (st : Startup)

def queued (s : Redis) (sid : String) : Bool :=
  match s.sessions sid with
  | .record r => r.status = SessionStatus.pendingHumanAnnotation
  | .absent | .fragment _ => false

def completed : OutboundMessage → Option String
  | .annotationCompleted sid => some sid
  | _ => none

def World.enter (w : World) (server : Server) (done : Option String) : World where
  server := server
  waiting sid := (w.waiting sid && done ≠ some sid) || queued server.redis sid

def World.setRedis (w : World) (redis : Redis) : World := w.enter { w.server with redis := redis } none

def World.step (w : World) : Event → World
  | .message b env msg =>
      let (server, reply) := handleAnnotatorMessage w.server env b msg
      w.enter server (completed reply)
  | .expire sid => w.setRedis (w.server.redis.releaseClaim sid)
  | .restart st => w.setRedis (st.run w.server.redis)

/-- Whoever is allowed the tenant of the session sees it in the queue. -/
def Listed (s : Redis) (sid : String) : Prop :=
  ∃ r, s.get sid = .ok r ∧ ∀ allowed, (allowed = [] ∨ tenantVisible allowed r.tenantId = true) →
    sid ∈ visibleQueue s allowed

/-- An annotator that has the claim of the session can load it. -/
def Loadable (s : Server) (sid : String) : Prop :=
  ∀ env b claimId, ColonFree b → ∃ path interrupted,
    (handleAnnotatorMessage (addClaim s b claimId sid) env b (.loadSession sid)).2 =
      .sessionLoaded sid path interrupted

/-- Each waiting session can be loaded, and it is listed unless it is under a live claim. -/
def Kept (w : World) : Prop :=
  ∀ sid, w.waiting sid = true → Loadable w.server sid ∧
    (w.server.redis.claims sid ≠ none ∨ Listed w.server.redis sid)

/-- The metadata statuses that take a session out of the reach of annotators. -/
def strayStatuses : List String :=
  ["complete", "pending_annotation", "pending_compilation", "reasoning_degraded", "incomplete"]

def annotating (s : Redis) (sid : String) : Prop := ∃ r, s.sessions sid = .record r ∧ r.status = .annotating

/-- No claim ends by expiry, and no startup finds a stray status in the metadata, while the
session waits and is being annotated. -/
def Spares (w : World) : Event → Prop
  | .message _ _ _ => True
  | .expire sid => ¬ (w.waiting sid = true ∧ annotating w.server.redis sid)
  | .restart st => ∀ sid, w.waiting sid = true → annotating w.server.redis sid →
      ∀ found, st.metadata sid = some found → found.1 ∉ strayStatuses

/-- What of the registry keeps a waiting session from being lost. -/
def Secure (s : Redis) (sid : String) : Prop :=
  ∃ r, s.sessions sid = .record r ∧
    (r.status = SessionStatus.pendingHumanAnnotation ∨ r.status = .annotating ∧ s.claims sid ≠ none)

/-- What a message of an annotator may do to the registry, and the session that it
completes. -/
inductive Effect (s : Redis) : Option String → Redis → Prop
  | same : Effect s none s
  | claim (target : String) (value : String) :
      Effect s none { s with claims := Function.update s.claims target (some value) }
  | load (sid : String) (hclaim : s.claims sid ≠ none) : Effect s none (s.updateStatus sid .annotating)
  | count (sid : String) (annotated skipped : UInt32) :
      Effect s none (s.updateAnnotationCounters sid annotated skipped)
  | close (sid : String) : Effect s none (s.updateStatus sid SessionStatus.pendingHumanAnnotation)
  | complete (sid : String) : Effect s (some sid) (s.updateStatus sid .pendingCompilation)
  | release (sid : String) (hstatus : ¬ annotating s sid) : Effect s none (s.releaseClaim sid)
  | requeue (sid : String) :
      Effect s none ((s.releaseClaim sid).updateStatus sid SessionStatus.pendingHumanAnnotation)

section Messages

variable {s : Server} {redis redis' : Redis} {done : Option String}

theorem claims_of_owner {sid b : String} (h : redis.getClaimOwner sid = some b) : redis.claims sid ≠ none := by
  intro hnone
  rw [Redis.getClaimOwner, hnone] at h
  cases h

theorem effect_loadSession (sid : String) (hclaim : s.redis.claims sid ≠ none) :
    Effect s.redis (completed (loadSession s sid).2) (loadSession s sid).1.redis := by
  obtain ⟨_, _, heq⟩ | ⟨r, -, -, heq⟩ := loadSession_cases s sid
  · rw [heq]
    exact .same
  · rw [heq]
    exact .load sid hclaim

theorem completed_uploadFile (serdeError : List Char → String) (s : Server) (fault : Option String)
    (u : Upload) : completed (uploadFile serdeError s fault u).2 = none := by
  rw [uploadFile]
  repeat (first | rfl | split)

theorem effect_sessionOp (env : Env) (msg : InboundMessage) (sid : String) (hsid : opSession msg = some sid)
    (hclaim : s.redis.claims sid ≠ none) :
    Effect s.redis (completed (handleSessionOp s env msg).2) (handleSessionOp s env msg).1.redis := by
  cases msg with
  | getSessionStatus sid' =>
    rw [handleSessionOp, getSessionStatus]
    split <;> exact .same
  | loadSession _ =>
    cases hsid
    exact effect_loadSession sid hclaim
  | updateAnnotationProgress sid' annotated skipped => exact .count sid' annotated skipped
  | closeAnnotation sid' => exact .close sid'
  | completeAnnotation sid' => exact .complete sid'
  | fetchFile sid' path =>
    have hnone : completed (fetchFile s env.ioError sid' path) = none := by
      rw [fetchFile]
      repeat (first | rfl | split)
    rw [handleSessionOp, hnone]
    exact .same
  | listSessionFiles sid' lead =>
    have hnone : completed (listSessionFiles s env.listing sid' lead) = none := by
      rw [listSessionFiles]
      repeat (first | rfl | split | dsimp only)
    rw [handleSessionOp, hnone]
    exact .same
  | uploadFile u =>
    rw [handleSessionOp, completed_uploadFile]
    obtain hsame | ⟨_, _, _, -, -, hfile⟩ := uploadFile_cases env.serdeError s env.fault u
    · rw [hsame]
      exact .same
    · rw [hfile]
      exact .same
  | _ => cases hsid

theorem effect_releaseSession (b sid claimId : String) :
    Effect s.redis (completed (releaseSession s b sid claimId).2) (releaseSession s b sid claimId).1.redis := by
  obtain ⟨-, _, _, heq⟩ | ⟨-, ⟨r, -, -, heq⟩ | ⟨hother, heq⟩⟩ := releaseSession_cases s b sid claimId
  · rw [heq]
    exact .same
  · rw [heq]
    exact .requeue sid
  · rw [heq]
    refine .release sid ?_
    rintro ⟨r, hr, hstatus⟩
    exact hother r ((s.redis.get_eq_ok sid r).mpr hr) hstatus

theorem effect_message (s : Server) (env : Env) (b : String) (msg : InboundMessage) :
    Effect s.redis (completed (handleAnnotatorMessage s env b msg).2)
      (handleAnnotatorMessage s env b msg).1.redis := by
  have hop : Effect s.redis (completed (handleClaimedOp s env b msg).2) (handleClaimedOp s env b msg).1.redis := by
    obtain ⟨_, _, heq⟩ | ⟨sid, hsid, howner, heq⟩ := handleClaimedOp_eq s env b msg
    · rw [heq]
      exact .same
    · rw [heq]
      exact effect_sessionOp env msg sid hsid (claims_of_owner howner)
  cases msg with
  | ping | listAnnotationQueue => exact .same
  | claimSession sid =>
    rw [handleAnnotatorMessage, claimSession]
    split
    · exact .same
    split
    · rename_i redis hscript
      rw [Redis.claimScript] at hscript
      split at hscript
      · cases hscript
      split at hscript
      · cases hscript
      · cases hscript
        exact .claim _ _
    · exact .same
    · exact .same
  | heartbeatClaim sid claimId =>
    rw [handleAnnotatorMessage, heartbeatClaim]
    split
    · exact .same
    split <;> exact .same
  | releaseSession sid claimId => exact effect_releaseSession b sid claimId
  | _ => exact hop

theorem Effect.sound (h : Effect redis done redis') (hs : RecordsSound redis) : RecordsSound redis' := by
  cases h with
  | same => exact hs
  | claim target value => exact hs.onlyAt (onlyAt_claim redis target (some value))
  | load sid _ => exact hs.onlyAt (onlyAt_updateStatus redis sid .annotating)
  | count sid annotated skipped => exact hs.onlyAt (onlyAt_updateCounters redis sid annotated skipped)
  | close sid => exact hs.onlyAt (onlyAt_updateStatus redis sid SessionStatus.pendingHumanAnnotation)
  | complete sid => exact hs.onlyAt (onlyAt_updateStatus redis sid .pendingCompilation)
  | release sid _ => exact hs.onlyAt (onlyAt_claim redis sid none)
  | requeue sid =>
    have hreleased : RecordsSound (redis.releaseClaim sid) := hs.onlyAt (onlyAt_claim redis sid none)
    exact hreleased.onlyAt (onlyAt_updateStatus _ sid SessionStatus.pendingHumanAnnotation)

theorem Secure.elsewhere {sid sid' : String} (h : Secure redis sid) (ho : OnlyAt redis redis' sid')
    (hne : sid ≠ sid') : Secure redis' sid := by
  obtain ⟨r, hr, hstatus⟩ := h
  refine ⟨r, (ho.sessions sid hne).trans hr, ?_⟩
  rwa [ho.claims sid hne]

theorem secure_queued {sid : String} {r : SessionRecord} (hr : redis.sessions sid = .record r) :
    Secure (redis.updateStatus sid SessionStatus.pendingHumanAnnotation) sid := by
  refine ⟨{ r with status := SessionStatus.pendingHumanAnnotation }, ?_, .inl rfl⟩
  rw [updateStatus_self, hr]
  rfl

/-- A message loses no session that it does not complete. -/
theorem Effect.secure {sid : String} (h : Effect redis done redis') (hs : Secure redis sid)
    (hdone : done ≠ some sid) : Secure redis' sid := by
  have ⟨r, hr, hstatus⟩ := hs
  cases h with
  | same => exact hs
  | claim target value =>
    refine ⟨r, hr, hstatus.imp_right fun ⟨hannotating, hclaim⟩ => ⟨hannotating, ?_⟩⟩
    change Function.update redis.claims target (some value) sid ≠ none
    rw [Function.update_apply]
    split
    · exact nofun
    · exact hclaim
  | load sid' hclaim =>
    by_cases hsid : sid = sid'
    · subst hsid
      refine ⟨{ r with status := .annotating }, ?_, .inr ⟨rfl, hclaim⟩⟩
      rw [updateStatus_self, hr]
      rfl
    · exact hs.elsewhere (onlyAt_updateStatus redis sid' .annotating) hsid
  | count sid' annotated skipped =>
    by_cases hsid : sid = sid'
    · subst hsid
      refine ⟨{ r with annotatedSteps := annotated, skippedSteps := skipped }, ?_, hstatus⟩
      rw [Redis.updateAnnotationCounters, hr]
      exact Function.update_self _ _ _
    · exact hs.elsewhere (onlyAt_updateCounters redis sid' annotated skipped) hsid
  | close sid' =>
    by_cases hsid : sid = sid'
    · subst hsid
      exact secure_queued hr
    · exact hs.elsewhere (onlyAt_updateStatus redis sid' SessionStatus.pendingHumanAnnotation) hsid
  | complete sid' =>
    have hsid : sid ≠ sid' := fun he => hdone (by rw [he])
    exact hs.elsewhere (onlyAt_updateStatus redis sid' .pendingCompilation) hsid
  | release sid' hother =>
    by_cases hsid : sid = sid'
    · subst hsid
      refine ⟨r, hr, hstatus.imp_right fun ⟨hannotating, _⟩ => ?_⟩
      exact absurd ⟨r, hr, hannotating⟩ hother
    · exact hs.elsewhere (onlyAt_claim redis sid' none) hsid
  | requeue sid' =>
    by_cases hsid : sid = sid'
    · subst hsid
      have hkept : (redis.releaseClaim sid).sessions sid = .record r := hr
      exact secure_queued hkept
    · have hreleased : Secure (redis.releaseClaim sid') sid :=
        hs.elsewhere (onlyAt_claim redis sid' none) hsid
      exact hreleased.elsewhere (onlyAt_updateStatus _ sid' SessionStatus.pendingHumanAnnotation) hsid

end Messages

section Property

variable {s : Server} {redis : Redis} {sid : String} {w : World}

theorem loadable_iff (s : Server) (sid : String) :
    Loadable s sid ↔ ∃ r, s.redis.sessions sid = .record r ∧
      (r.status = SessionStatus.pendingHumanAnnotation ∨ r.status = .annotating) := by
  have hload : ∀ env b claimId, ColonFree b →
      handleAnnotatorMessage (addClaim s b claimId sid) env b (.loadSession sid) =
        loadSession (addClaim s b claimId sid) sid := by
    intro env b claimId hfree
    have howner : (addClaim s b claimId sid).redis.getClaimOwner sid = some b := by
      rw [Redis.getClaimOwner, addClaim]
      dsimp only
      rw [Function.update_self, Option.map_some, firstSegment_claimValue, (firstSegment_eq_self_iff b).mpr hfree]
    change handleClaimedOp _ env b (.loadSession sid) = _
    rw [handleClaimedOp]
    dsimp only [opSession]
    rw [if_neg (not_not.mpr howner)]
    rfl
  constructor
  · intro h
    let env : Env := ⟨"", [], "", none, "", fun _ => .ok [], fun _ => ""⟩
    obtain ⟨path, interrupted, hloaded⟩ := h env "" "" (by decide)
    rw [hload env "" "" (by decide), loadSession] at hloaded
    split at hloaded
    · cases hloaded
    · rename_i r hget
      split at hloaded
      · rename_i hstatus
        have hr : s.redis.get sid = .ok r := hget
        exact ⟨r, (s.redis.get_eq_ok sid r).mp hr, hstatus⟩
      · cases hloaded
  · rintro ⟨r, hr, hstatus⟩ env b claimId hfree
    have hget : (addClaim s b claimId sid).redis.get sid = .ok r := (s.redis.get_eq_ok sid r).mpr hr
    refine ⟨r.memoryPath, r.status = .annotating, ?_⟩
    rw [hload env b claimId hfree, loadSession, hget]
    dsimp only
    rw [if_pos hstatus]

theorem listed_iff (hs : RecordsSound redis) :
    Listed redis sid ↔ redis.claims sid = none ∧ ∃ r, redis.sessions sid = .record r ∧
      r.status = SessionStatus.pendingHumanAnnotation := by
  constructor
  · rintro ⟨r, hget, hseen⟩
    have hr := (redis.get_eq_ok sid r).mp hget
    obtain ⟨hmem, hvisible⟩ := List.mem_filter.mp (hseen [] (.inl rfl))
    rw [(hs sid r hr).2, hr] at hmem
    rw [Bool.and_eq_true] at hvisible
    exact ⟨(getClaimOwner_isNone redis sid).mp hvisible.1, r, hr, Option.some.inj hmem.1⟩
  · rintro ⟨hclaim, r, hr, hstatus⟩
    refine ⟨r, (redis.get_eq_ok sid r).mpr hr, fun allowed hallowed => List.mem_filter.mpr ⟨?_, ?_⟩⟩
    · rw [(hs sid r hr).2, hr, Entry.status, hstatus]
      exact ⟨rfl, rfl⟩
    · rw [(redis.get_eq_ok sid r).mpr hr, (getClaimOwner_isNone redis sid).mpr hclaim]
      simpa using hallowed

theorem kept_iff (hs : RecordsSound w.server.redis) :
    Kept w ↔ ∀ sid, w.waiting sid = true → Secure w.server.redis sid := by
  refine forall_congr' fun sid => forall_congr' fun _ => ?_
  rw [loadable_iff, listed_iff hs]
  constructor
  · rintro ⟨⟨r, hr, hstatus⟩, hlisted⟩
    refine ⟨r, hr, ?_⟩
    obtain hclaim | ⟨-, r', hr', hqueued⟩ := hlisted
    · exact hstatus.imp_right fun hannotating => ⟨hannotating, hclaim⟩
    · rw [hr] at hr'
      cases hr'
      exact .inl hqueued
  · rintro ⟨r, hr, hqueued | ⟨hannotating, hclaim⟩⟩
    · refine ⟨⟨r, hr, .inl hqueued⟩, ?_⟩
      by_cases hclaim : w.server.redis.claims sid = none
      · exact .inr ⟨hclaim, r, hr, hqueued⟩
      · exact .inl hclaim
    · exact ⟨⟨r, hr, .inr hannotating⟩, .inl hclaim⟩

theorem secure_of_queued (h : queued redis sid = true) : Secure redis sid := by
  rw [queued] at h
  split at h
  · rename_i r hr
    exact ⟨r, hr, .inl (of_decide_eq_true h)⟩
  · cases h
  · cases h

/-- What enters the queue is not lost; what waited before is to be looked at. -/
theorem enter_secure (w : World) (server : Server) (done : Option String) :
    (∀ sid, (w.enter server done).waiting sid = true → Secure server.redis sid) ↔
      ∀ sid, w.waiting sid = true → done ≠ some sid → Secure server.redis sid := by
  constructor
  · intro h sid hwaiting hdone
    refine h sid ?_
    change ((w.waiting sid && decide (done ≠ some sid)) || queued server.redis sid) = true
    rw [hwaiting, decide_eq_true hdone]
    rfl
  · intro h sid hwaiting
    rw [World.enter, Bool.or_eq_true, Bool.and_eq_true] at hwaiting
    obtain ⟨hbefore, hdone⟩ | hqueued := hwaiting
    · exact h sid hbefore (of_decide_eq_true hdone)
    · exact secure_of_queued hqueued

/-- Without its claim a session is only kept in the queue. -/
theorem release_secure (hsecure : ∀ sid, w.waiting sid = true → Secure w.server.redis sid) (sid : String) :
    (∀ sid', w.waiting sid' = true → Secure (w.server.redis.releaseClaim sid) sid') ↔
      ¬ (w.waiting sid = true ∧ annotating w.server.redis sid) := by
  have hself : (w.server.redis.releaseClaim sid).claims sid = none := Function.update_self _ _ _
  constructor
  · rintro h ⟨hwaiting, r, hr, hannotating⟩
    obtain ⟨r', hr', hstatus⟩ := h sid hwaiting
    have hsame : w.server.redis.sessions sid = .record r' := hr'
    rw [hr] at hsame
    cases hsame
    rw [hannotating, hself] at hstatus
    obtain hqueued | ⟨-, hclaim⟩ := hstatus
    · cases hqueued
    · exact hclaim rfl
  · intro hspared sid' hwaiting
    by_cases hsid : sid' = sid
    · subst hsid
      obtain ⟨r, hr, hqueued | ⟨hannotating, -⟩⟩ := hsecure sid' hwaiting
      · exact ⟨r, hr, .inl hqueued⟩
      · exact absurd ⟨hwaiting, r, hr, hannotating⟩ hspared
    · exact (hsecure sid' hwaiting).elsewhere (onlyAt_claim w.server.redis sid none) hsid

theorem reached_iff (metadataStatus : String) :
    ((reconcileTarget .annotating metadataStatus).getD .annotating = SessionStatus.pendingHumanAnnotation ∨
      (reconcileTarget .annotating metadataStatus).getD .annotating = .annotating) ↔
        metadataStatus ∉ strayStatuses := by
  unfold reconcileTarget
  split_ifs <;> subst_vars <;> simp_all [strayStatuses, SessionStatus.text]

theorem settled_annotating (st : Startup) (sid : String) :
    (st.settled sid .annotating = SessionStatus.pendingHumanAnnotation ∨
      st.settled sid .annotating = .annotating) ↔
        ∀ found, st.metadata sid = some found → found.1 ∉ strayStatuses := by
  rw [Startup.settled]
  cases st.metadata sid with
  | none => exact ⟨fun _ _ h => (by cases h), fun _ => .inr rfl⟩
  | some found => simpa using reached_iff found.1

/-- A startup keeps the sessions in annotation whose metadata it does not follow elsewhere. -/
theorem run_secure (hs : RecordsSound w.server.redis)
    (hsecure : ∀ sid, w.waiting sid = true → Secure w.server.redis sid) (st : Startup) :
    (∀ sid, w.waiting sid = true → Secure (st.run w.server.redis) sid) ↔ Spares w (.restart st) := by
  constructor
  · rintro h sid hwaiting ⟨r, hr, hannotating⟩
    have hactive : r.status ≠ .active := by
      rw [hannotating]
      decide
    obtain ⟨r', hr', hstatus⟩ := h sid hwaiting
    rw [status_run st hs hr hactive hr', hannotating] at hstatus
    exact (settled_annotating st sid).mp (hstatus.imp_right And.left)
  · intro hspared sid hwaiting
    obtain ⟨r, hr, hqueued | ⟨hannotating, hclaim⟩⟩ := hsecure sid hwaiting
    · have hafter : st.statusAfter sid r.status = SessionStatus.pendingHumanAnnotation := by
        rw [hqueued]
        rfl
      obtain ⟨hend, -⟩ := run_record st hs hr (by rw [hqueued]; decide) (by rw [hafter]; decide)
      exact ⟨_, hend, .inl hafter⟩
    · have hafter : st.statusAfter sid r.status = st.settled sid .annotating := by
        rw [hannotating]
        rfl
      have hreached := (settled_annotating st sid).mpr (hspared sid hwaiting ⟨r, hr, hannotating⟩)
      have hstatus : st.statusAfter sid r.status ≠ .incomplete := by
        rw [hafter]
        obtain h | h := hreached <;> rw [h] <;> decide
      obtain ⟨hend, hclaims⟩ := run_record st hs hr (by rw [hannotating]; decide) hstatus
      rw [← hafter] at hreached
      exact ⟨_, hend, hreached.imp_right fun h => ⟨h, by rwa [hclaims]⟩⟩

/-- The invariant of runs. -/
structure Tracked (w : World) : Prop where
  sound : RecordsSound w.server.redis
  kept : Kept w

theorem sound_step (h : RecordsSound w.server.redis) (e : Event) : RecordsSound (w.step e).server.redis := by
  cases e with
  | message b env msg => exact (effect_message w.server env b msg).sound h
  | expire sid => exact h.onlyAt (onlyAt_claim w.server.redis sid none)
  | restart st => exact h.startup st

theorem kept_step (h : Tracked w) (e : Event) : Kept (w.step e) ↔ Spares w e := by
  have hsecure := (kept_iff h.sound).mp h.kept
  rw [kept_iff (sound_step h.sound e)]
  cases e with
  | message b env msg =>
    have heffect := effect_message w.server env b msg
    refine iff_of_true ((enter_secure w _ _).mpr fun sid hwaiting hdone => ?_) trivial
    exact heffect.secure (hsecure sid hwaiting) hdone
  | expire sid =>
    have hbefore : (∀ sid', w.waiting sid' = true → none ≠ some sid' →
        Secure (w.server.redis.releaseClaim sid) sid') ↔ _ :=
      forall_congr' fun sid' => forall_congr' fun _ => imp_iff_right nofun
    exact ((enter_secure w _ none).trans hbefore).trans (release_secure hsecure sid)
  | restart st =>
    have hbefore : (∀ sid', w.waiting sid' = true → none ≠ some sid' →
        Secure (st.run w.server.redis) sid') ↔ _ :=
      forall_congr' fun sid' => forall_congr' fun _ => imp_iff_right nofun
    exact ((enter_secure w _ none).trans hbefore).trans (run_secure h.sound hsecure st)

/-- Waiting sessions are kept for annotators exactly in the runs in which no claim ends by
expiry, and no startup follows other metadata, while such a session is being annotated. -/
theorem waiting_kept_iff (w : World) (es : List Event) (h : Tracked w) :
    Along World.step (fun _ _ w' => Kept w') w es ↔ Guarded World.step Spares w es := by
  have hstep : ∀ w e, Tracked w → (Kept (World.step w e) ↔ Spares w e) := fun w e h => kept_step h e
  have hkeep : ∀ w e, Tracked w → Kept (World.step w e) → Tracked (World.step w e) :=
    fun w e h hkept => ⟨sound_step h.sound e, hkept⟩
  exact along_iff_guarded_of hstep hkeep w es h

theorem not_annotating_of_queued (h : queued redis sid = true) : ¬ annotating redis sid := by
  rintro ⟨r, hr, hannotating⟩
  rw [queued, hr] at h
  have hqueued := of_decide_eq_true h
  rw [hannotating] at hqueued
  cases hqueued

end Property

/-- One session in the queue, and an annotator that is allowed its tenant. -/
def sampleWorld : World where
  server :=
    { storageMode := "local"
      router := ⟨["local"], [], Storage.local_ne_nil⟩
      redis :=
        { sessions := fun sid => if sid = "s1" then .record waitingRecord else .absent
          index := fun status => if status = SessionStatus.pendingHumanAnnotation then ["s1"] else []
          claims := fun _ => none
          annotators := fun a => if a = "ann" then some ⟨"active", ["acme"], 1, ""⟩ else none }
      files := fun _ => none }
  waiting sid := sid = "s1"
where
  waitingRecord : SessionRecord :=
    { sessionId := "s1", mode := .manual, status := SessionStatus.pendingHumanAnnotation,
      memoryName := "demo", memoryPath := "/memories/demo", createdAt := "2026-01-01T00:00:00+00:00",
      totalSteps := 4, annotatedSteps := 0, skippedSteps := 0, tenantId := "acme", storageBackend := "local" }

theorem tracked_sampleWorld : Tracked sampleWorld := by
  have hsound : RecordsSound sampleWorld.server.redis := by
    intro sid r hr
    change (if sid = "s1" then Entry.record sampleWorld.waitingRecord else .absent) = .record r at hr
    split at hr
    · rename_i hsid
      cases hr
      subst hsid
      refine ⟨rfl, fun status => ?_⟩
      cases status <;> decide
    · cases hr
  refine ⟨hsound, (kept_iff hsound).mpr fun sid hwaiting => ?_⟩
  obtain rfl : sid = "s1" := of_decide_eq_true hwaiting
  exact ⟨sampleWorld.waitingRecord, rfl, .inl rfl⟩

def sampleEnv : Env := ⟨"1.0.0", [], "5c1b", none, "not found", fun _ => .ok [], fun _ => "expected value"⟩

/-- A startup that reads one status in the metadata of every session. -/
def startupWith (metadataStatus : String) : Startup :=
  ⟨fun _ => some (metadataStatus, none), fun _ => false, fun _ => none, fun _ => false, []⟩

/-- The claim of a loaded session expires, and a startup finds its recording complete. -/
def abandoned : List Event :=
  [.message "ann" sampleEnv (.claimSession "s1"), .message "ann" sampleEnv (.loadSession "s1"),
    .expire "s1", .restart (startupWith "complete")]

theorem abandoned_session_lost :
    Tracked sampleWorld ∧ ¬ Along World.step (fun _ _ w' => Kept w') sampleWorld abandoned := by
  refine ⟨tracked_sampleWorld, fun h => ?_⟩
  obtain ⟨-, -, -, hkept, -⟩ := h
  obtain ⟨hloadable, -⟩ := hkept "s1" (by decide +kernel)
  obtain ⟨r, hr, hstatus⟩ := (loadable_iff _ "s1").mp hloadable
  have hlost : (run World.step sampleWorld abandoned).server.redis.sessions "s1" =
      .record { sampleWorld.waitingRecord with status := SessionStatus.pendingAnnotation } := by
    decide +kernel
  obtain rfl := Entry.record.inj (hlost.symm.trans hr)
  revert hstatus
  decide

theorem waiting_kept_iff_sample :
    Along World.step (fun _ _ w' => Kept w') sampleWorld
      [.message "ann" sampleEnv (.claimSession "s1"), .message "ann" sampleEnv (.loadSession "s1"),
        .restart (startupWith "pending_human_annotation"), .expire "s1"] := by
  refine (waiting_kept_iff sampleWorld _ tracked_sampleWorld).mpr ⟨trivial, trivial, ?_, ?_, trivial⟩
  · intro sid _ _ found hfound
    cases hfound
    decide
  · rintro ⟨-, hannotating⟩
    exact not_annotating_of_queued (by decide +kernel) hannotating

end MemoryArchive.Ipc.Waiting
