import MemoryArchive.Ipc.Annotator

namespace MemoryArchive.Ipc

open Registry Storage

/-- A change that concerns one session: no other session or claim changes, the
session stays with its tenant, and no claim is added. -/
structure Touches (s s' : Server) (sid : String) : Prop where
  sessions : ∀ id, id ≠ sid → s'.redis.sessions id = s.redis.sessions id
  tenant : ∀ r, s.redis.sessions sid = .record r →
    ∃ r', s'.redis.sessions sid = .record r' ∧ r'.tenantId = r.tenantId
  claims : ∀ id, id ≠ sid → s'.redis.claims id = s.redis.claims id
  claim : ∀ v, s'.redis.claims sid = some v → s.redis.claims sid = some v
  annotators : s'.redis.annotators = s.redis.annotators
  index : s.redis.IndexSound → s'.redis.IndexSound

theorem Touches.refl (s : Server) (sid : String) : Touches s s sid :=
  ⟨fun _ _ => rfl, fun r h => ⟨r, h, rfl⟩, fun _ _ => rfl, fun _ h => h, rfl, fun h => h⟩

theorem Touches.trans {s s' s'' : Server} {sid : String} (h : Touches s s' sid)
    (h' : Touches s' s'' sid) : Touches s s'' sid where
  sessions id hid := (h'.sessions id hid).trans (h.sessions id hid)
  tenant r hr := by
    obtain ⟨r', hr', ht'⟩ := h.tenant r hr
    obtain ⟨r'', hr'', ht''⟩ := h'.tenant r' hr'
    exact ⟨r'', hr'', ht''.trans ht'⟩
  claims id hid := (h'.claims id hid).trans (h.claims id hid)
  claim v hv := h.claim v (h'.claim v hv)
  annotators := h'.annotators.trans h.annotators
  index hs := h'.index (h.index hs)

theorem touches_updateStatus (s : Server) (sid : String) (status : SessionStatus) :
    Touches s { s with redis := s.redis.updateStatus sid status } sid where
  sessions id hid := by simp [Redis.updateStatus, hid]
  tenant r hr := ⟨{ r with status := status }, by simp [Redis.updateStatus, hr, Entry.setStatus], rfl⟩
  claims _ _ := rfl
  claim _ h := h
  annotators := rfl
  index h := h.updateStatus sid status

theorem touches_updateCounters (s : Server) (sid : String) (annotated skipped : UInt32) :
    Touches s { s with redis := s.redis.updateAnnotationCounters sid annotated skipped } sid where
  sessions id hid := by simp [Redis.updateAnnotationCounters, hid]
  tenant r hr :=
    ⟨{ r with annotatedSteps := annotated, skippedSteps := skipped },
      by simp [Redis.updateAnnotationCounters, hr, Entry.setCounters], rfl⟩
  claims _ _ := rfl
  claim _ h := h
  annotators := rfl
  index h := h.updateCounters sid annotated skipped

theorem touches_releaseClaim (s : Server) (sid : String) :
    Touches s { s with redis := s.redis.releaseClaim sid } sid where
  sessions _ _ := rfl
  tenant r hr := ⟨r, hr, rfl⟩
  claims id hid := by simp [Redis.releaseClaim, hid]
  claim v h := by simp [Redis.releaseClaim] at h
  annotators := rfl
  index h := h

theorem touches_files (s : Server) (sid : String) (files : Location → Option ByteArray) :
    Touches s { s with files := files } sid :=
  ⟨fun _ _ => rfl, fun r h => ⟨r, h, rfl⟩, fun _ _ => rfl, fun _ h => h, rfl, fun h => h⟩

/-- An upload changes at most the one file that it names. -/
theorem uploadFile_cases (serdeError : List Char → String) (s : Server) (fault : Option String)
    (u : Upload) :
    (uploadFile serdeError s fault u).1 = s ∨
      ∃ record loc bytes, s.redis.get u.sessionId = .ok record ∧
        s.location record u.sessionId u.relativePath = .ok loc ∧
        (uploadFile serdeError s fault u).1 =
          { s with files := Function.update s.files loc (some bytes) } := by
  unfold uploadFile
  split
  · exact .inl rfl
  split
  · exact .inl rfl
  split
  · exact .inl rfl
  rename_i bytes _
  split
  · exact .inl rfl
  rename_i record hrecord
  split
  · exact .inl rfl
  rename_i loc hloc
  split
  · exact .inl rfl
  · exact .inr ⟨record, loc, bytes, hrecord, hloc, rfl⟩

/-- LoadSession reports an error, or it sets the status of a session that waits for
annotation. -/
theorem loadSession_cases (s : Server) (sid : String) :
    (∃ code message, loadSession s sid = (s, .error code message)) ∨
      ∃ r, s.redis.get sid = .ok r ∧
        (r.status = SessionStatus.pendingHumanAnnotation ∨ r.status = .annotating) ∧
        loadSession s sid =
          ({ s with redis := s.redis.updateStatus sid .annotating },
            .sessionLoaded sid r.memoryPath (r.status = .annotating)) := by
  rw [loadSession]
  split
  · exact .inl ⟨_, _, rfl⟩
  rename_i r hr
  split
  · rename_i hc
    exact .inr ⟨r, hr, hc, rfl⟩
  · exact .inl ⟨_, _, rfl⟩

/-- ReleaseSession reports an error, or it takes the claim of its owner away, and puts a
session that was being annotated back into the queue. -/
theorem releaseSession_cases (s : Server) (b sid claimId : String) :
    (¬ (s.redis.getClaimOwner sid = some b ∧ s.redis.verifyClaimId sid claimId = true) ∧
        ∃ code message, releaseSession s b sid claimId = (s, .error code message)) ∨
      (s.redis.getClaimOwner sid = some b ∧ s.redis.verifyClaimId sid claimId = true) ∧
        ((∃ r, (s.redis.releaseClaim sid).get sid = .ok r ∧ r.status = .annotating ∧
            releaseSession s b sid claimId =
              ({ s with redis :=
                  (s.redis.releaseClaim sid).updateStatus sid SessionStatus.pendingHumanAnnotation },
                .sessionReleased sid)) ∨
          (∀ r, (s.redis.releaseClaim sid).get sid = .ok r → r.status ≠ .annotating) ∧
            releaseSession s b sid claimId =
              ({ s with redis := s.redis.releaseClaim sid }, .sessionReleased sid)) := by
  rw [releaseSession]
  split
  · rename_i hother
    exact .inl ⟨fun h => hother h.1, _, _, rfl⟩
  rename_i howner
  split
  · rename_i hstale
    exact .inl ⟨fun h => hstale h.2, _, _, rfl⟩
  rename_i hverified
  refine .inr ⟨⟨not_not.mp howner, not_not.mp hverified⟩, ?_⟩
  dsimp only
  split
  · rename_i r hr
    split
    · rename_i hstatus
      exact .inl ⟨r, hr, hstatus, rfl⟩
    · rename_i hstatus
      refine .inr ⟨fun r' hr' => ?_, rfl⟩
      rw [hr] at hr'
      cases hr'
      exact hstatus
  · rename_i e he
    refine .inr ⟨fun r' hr' => ?_, rfl⟩
    rw [he] at hr'
    cases hr'

theorem files_loadSession (s : Server) (sid : String) : (loadSession s sid).1.files = s.files := by
  obtain ⟨_, _, heq⟩ | ⟨r, -, -, heq⟩ := loadSession_cases s sid
  · rw [heq]
  · rw [heq]

theorem files_releaseSession (s : Server) (b sid claimId : String) :
    (releaseSession s b sid claimId).1.files = s.files := by
  obtain ⟨-, _, _, heq⟩ | ⟨-, ⟨r, -, -, heq⟩ | ⟨-, heq⟩⟩ := releaseSession_cases s b sid claimId
  · rw [heq]
  · rw [heq]
  · rw [heq]

theorem touches_loadSession (s : Server) (sid : String) : Touches s (loadSession s sid).1 sid := by
  obtain ⟨_, _, heq⟩ | ⟨r, -, -, heq⟩ := loadSession_cases s sid
  · rw [heq]
    exact .refl s sid
  · rw [heq]
    exact touches_updateStatus s sid .annotating

/-- An operation on a claimed session concerns that session only. -/
theorem touches_handleSessionOp (s : Server) (env : Env) (msg : InboundMessage) (sid : String)
    (h : opSession msg = some sid) : Touches s (handleSessionOp s env msg).1 sid := by
  cases msg with
  | getSessionStatus _ => exact .refl s sid
  | fetchFile _ _ => exact .refl s sid
  | listSessionFiles _ _ => exact .refl s sid
  | loadSession _ =>
    cases h
    exact touches_loadSession s sid
  | updateAnnotationProgress _ annotated skipped =>
    cases h
    exact touches_updateCounters s sid annotated skipped
  | closeAnnotation _ =>
    cases h
    exact touches_updateStatus s sid SessionStatus.pendingHumanAnnotation
  | completeAnnotation _ =>
    cases h
    exact touches_updateStatus s sid .pendingCompilation
  | uploadFile u =>
    obtain he | ⟨record, loc, bytes, -, -, he⟩ := uploadFile_cases env.serdeError s env.fault u
    · rw [handleSessionOp, he]
      exact .refl s sid
    · rw [handleSessionOp, he]
      exact touches_files s sid _
  | _ => cases h

theorem touches_releaseSession (s : Server) (b sid claimId : String) :
    Touches s (releaseSession s b sid claimId).1 sid := by
  have hrelease := touches_releaseClaim s sid
  obtain ⟨-, _, _, heq⟩ | ⟨-, ⟨r, -, -, heq⟩ | ⟨-, heq⟩⟩ := releaseSession_cases s b sid claimId
  · rw [heq]
    exact .refl s sid
  · rw [heq]
    exact hrelease.trans (touches_updateStatus _ sid SessionStatus.pendingHumanAnnotation)
  · rw [heq]
    exact hrelease

/-- A session of the queue with no claim, created no later than any other. -/
def Earliest (s : Redis) (id : String) : Prop :=
  id ∈ s.index SessionStatus.pendingHumanAnnotation ∧ s.claims id = none ∧
    ∃ r, s.get id = .ok r ∧ ∀ id' r', id' ∈ s.index SessionStatus.pendingHumanAnnotation →
      s.claims id' = none → s.get id' = .ok r' → ¬ r'.createdAt < r.createdAt

theorem getClaimOwner_isNone (s : Redis) (id : String) :
    (s.getClaimOwner id).isNone = true ↔ s.claims id = none := by
  simp [Redis.getClaimOwner]

/-- What the search knows after the candidates it has seen: its choice is one of
them and none of them is older. -/
structure Picked (s : Redis) (seen : List String) (oldest : Option (String × String)) : Prop where
  chosen : ∀ id t, oldest = some (id, t) →
    id ∈ seen ∧ s.claims id = none ∧ ∃ r, s.get id = .ok r ∧ r.createdAt = t
  least : ∀ id r, id ∈ seen → s.claims id = none → s.get id = .ok r →
    ∃ id' t, oldest = some (id', t) ∧ ¬ r.createdAt < t

theorem picked_step (s : Redis) (seen : List String) (oldest : Option (String × String)) (id : String)
    (h : Picked s seen oldest) : Picked s (seen ++ [id]) (pickOldest s oldest id) := by
  have hseen : ∀ id', id' ∈ seen → id' ∈ seen ++ [id] := fun _ hm => List.mem_append_left _ hm
  have hkeep : (∀ r, s.claims id = none → s.get id = .ok r →
      ∃ id' t, oldest = some (id', t) ∧ ¬ r.createdAt < t) → Picked s (seen ++ [id]) oldest := by
    intro hid
    refine ⟨fun id' t ho => ?_, fun id' r hm hc hg => ?_⟩
    · obtain ⟨hm, hrest⟩ := h.chosen id' t ho
      exact ⟨hseen id' hm, hrest⟩
    · obtain hm | hm := List.mem_append.mp hm
      · exact h.least id' r hm hc hg
      · obtain rfl := List.mem_singleton.mp hm
        exact hid r hc hg
  have htake : ∀ r, s.claims id = none → s.get id = .ok r →
      (∀ id' t, oldest = some (id', t) → r.createdAt < t) →
      Picked s (seen ++ [id]) (some (id, r.createdAt)) := by
    intro r hc hg hlt
    refine ⟨fun id' t ho => ?_, fun id' r' hm hc' hg' => ?_⟩
    · cases ho
      exact ⟨by simp, hc, r, hg, rfl⟩
    · refine ⟨id, r.createdAt, rfl, ?_⟩
      obtain hm | hm := List.mem_append.mp hm
      · obtain ⟨id'', t, ho, hle⟩ := h.least id' r' hm hc' hg'
        exact fun hr => hle (hr.trans (hlt id'' t ho))
      · obtain rfl := List.mem_singleton.mp hm
        rw [hg] at hg'
        cases hg'
        exact lt_irrefl _
  unfold pickOldest
  split
  · rename_i hnone
    have hc := (getClaimOwner_isNone s id).mp hnone
    split
    · rename_i e hg
      exact hkeep fun r _ hr => by rw [hg] at hr; cases hr
    · rename_i r hg
      split
      · exact htake r hc hg fun id' t ho => by cases ho
      · rename_i id' t
        split
        · rename_i hlt
          refine htake r hc hg fun id'' t' ho => ?_
          cases ho
          exact hlt
        · rename_i hnlt
          refine hkeep fun r' _ hg' => ?_
          rw [hg] at hg'
          cases hg'
          exact ⟨id', t, rfl, hnlt⟩
  · rename_i hsome
    exact hkeep fun r hc _ => absurd ((getClaimOwner_isNone s id).mpr hc) hsome

theorem picked_foldl (s : Redis) (ids seen : List String) (oldest : Option (String × String))
    (h : Picked s seen oldest) : Picked s (seen ++ ids) (ids.foldl (pickOldest s) oldest) := by
  induction ids generalizing seen oldest with
  | nil => simpa using h
  | cons id ids ih => simpa using ih (seen ++ [id]) _ (picked_step s seen oldest id h)

/-- The automatic choice is an earliest session of the queue. -/
theorem earliest_oldestUnclaimed {s : Redis} {id : String} (h : oldestUnclaimed s = some id) :
    Earliest s id := by
  have hnil : Picked s [] none := ⟨fun _ _ h => (by cases h), fun _ _ h => (by cases h)⟩
  have hp := picked_foldl s (s.index SessionStatus.pendingHumanAnnotation) [] none hnil
  rw [List.nil_append] at hp
  obtain ⟨⟨id', t⟩, ho, rfl⟩ := Option.map_eq_some_iff.mp h
  obtain ⟨hm, hc, r, hg, rfl⟩ := hp.chosen id' t ho
  refine ⟨hm, hc, r, hg, fun id'' r'' hm' hc' hg' => ?_⟩
  obtain ⟨_, _, ho', hle⟩ := hp.least id'' r'' hm' hc' hg'
  rw [ho] at ho'
  cases ho'
  exact hle

def UnderLimit (s : Redis) (env : Env) (annotatorId : String) : Prop :=
  maxClaims s annotatorId = 0 ∨ s.countAnnotatorClaims env.scan annotatorId < maxClaims s annotatorId

/-- The registry with one more claim. -/
def addClaim (s : Server) (b claimId target : String) : Server :=
  let claims := Function.update s.redis.claims target (some (claimValue b claimId))
  { s with redis := { s.redis with claims := claims } }

/-- A ClaimSession that is granted sets the claim of a session that had none:
the given one, or an earliest one of the queue. -/
theorem claimSession_cases (s : Server) (env : Env) (b sid : String) :
    ((claimSession s env b sid).1 = s ∧
        ∀ target claimId, (claimSession s env b sid).2 ≠ .sessionClaimed target claimId) ∨
      ∃ target, s.redis.claims target = none ∧ UnderLimit s.redis env b ∧
        (sid = "" ∧ Earliest s.redis target ∨ sid ≠ "" ∧ target = sid) ∧
        claimSession s env b sid = (addClaim s b env.claimId target, .sessionClaimed target env.claimId) := by
  have htarget : ∀ target, (if sid = "" then oldestUnclaimed s.redis else some sid) = some target →
      (sid = "" ∧ Earliest s.redis target ∨ sid ≠ "" ∧ target = sid) := by
    intro target ht
    split at ht
    · rename_i he
      exact .inl ⟨he, earliest_oldestUnclaimed ht⟩
    · rename_i hne
      cases ht
      exact .inr ⟨hne, rfl⟩
  unfold claimSession
  cases ht : (if sid = "" then oldestUnclaimed s.redis else some sid) with
  | none => exact .inl ⟨rfl, fun _ _ h => by cases h⟩
  | some target =>
    by_cases hlimit : 0 < maxClaims s.redis b ∧
        maxClaims s.redis b ≤ s.redis.countAnnotatorClaims env.scan b
    · simp only [Redis.claimScript, if_pos hlimit]
      exact .inl ⟨trivial, fun _ _ h => by cases h⟩
    · cases hc : s.redis.claims target with
      | some v =>
        simp only [Redis.claimScript, if_neg hlimit, hc]
        exact .inl ⟨trivial, fun _ _ h => by cases h⟩
      | none =>
        simp only [Redis.claimScript, if_neg hlimit, hc]
        refine .inr ⟨target, hc, ?_, htarget target ht, rfl⟩
        unfold UnderLimit
        omega

/-- The session whose claim a message needs. -/
def claimedSession : InboundMessage → Option String
  | .heartbeatClaim sid _ | .releaseSession sid _ => some sid
  | msg => opSession msg

theorem handleClaimedOp_cases (s : Server) (env : Env) (b : String) (msg : InboundMessage) :
    (handleClaimedOp s env b msg).1 = s ∨
      ∃ sid, opSession msg = some sid ∧ s.redis.getClaimOwner sid = some b ∧
        Touches s (handleClaimedOp s env b msg).1 sid := by
  obtain ⟨_, _, heq⟩ | ⟨sid, hsid, howner, heq⟩ := handleClaimedOp_eq s env b msg
  · rw [heq]
    exact .inl rfl
  · rw [heq]
    exact .inr ⟨sid, hsid, howner, touches_handleSessionOp s env msg sid hsid⟩

/-- A message that is not granted a claim changes nothing, or it concerns one
session of which its sender is the claim owner. -/
theorem handle_cases (s : Server) (env : Env) (b : String) (msg : InboundMessage)
    (hmsg : ∀ sid, msg ≠ .claimSession sid) :
    (handleAnnotatorMessage s env b msg).1 = s ∨
      ∃ sid, claimedSession msg = some sid ∧ s.redis.getClaimOwner sid = some b ∧
        Touches s (handleAnnotatorMessage s env b msg).1 sid := by
  cases msg with
  | ping | listAnnotationQueue | heartbeatClaim _ _ => exact .inl rfl
  | claimSession sid => exact absurd rfl (hmsg sid)
  | releaseSession sid claimId =>
    by_cases ho : s.redis.getClaimOwner sid = some b
    · exact .inr ⟨sid, rfl, ho, touches_releaseSession s b sid claimId⟩
    · left
      rw [handleAnnotatorMessage, releaseSession, if_pos ho]
  | _ => exact handleClaimedOp_cases s env b _

/-- Without the claim a message that needs it is refused. -/
theorem handle_not_owner (s : Server) (env : Env) (b sid : String) (msg : InboundMessage)
    (hsid : claimedSession msg = some sid) (ho : s.redis.getClaimOwner sid ≠ some b) :
    ∃ text, (handleAnnotatorMessage s env b msg).2 = .error "NOT_OWNER" text := by
  cases msg with
  | ping | listAnnotationQueue | claimSession _ | admin => cases hsid
  | heartbeatClaim _ _ =>
    cases hsid
    exact ⟨_, by rw [handleAnnotatorMessage, heartbeatClaim, if_pos ho]⟩
  | releaseSession _ _ =>
    cases hsid
    exact ⟨_, by rw [handleAnnotatorMessage, releaseSession, if_pos ho]⟩
  | _ =>
    cases hsid
    exact ⟨_, by simp only [handleAnnotatorMessage, handleClaimedOp, opSession, if_pos ho]; rfl⟩

theorem files_handleSessionOp (s : Server) (env : Env) (msg : InboundMessage) (loc : Location)
    (h : (handleSessionOp s env msg).1.files loc ≠ s.files loc) :
    ∃ upload record, msg = .uploadFile upload ∧ s.redis.get upload.sessionId = .ok record ∧
      s.location record upload.sessionId upload.relativePath = .ok loc := by
  cases msg with
  | uploadFile u =>
    obtain he | ⟨record, loc', bytes, hr, hl, he⟩ := uploadFile_cases env.serdeError s env.fault u
    · rw [handleSessionOp, he] at h
      exact absurd rfl h
    · rw [handleSessionOp, he] at h
      by_cases hloc : loc = loc'
      · subst hloc
        exact ⟨u, record, rfl, hr, hl⟩
      · simp [hloc] at h
  | loadSession sid =>
    rw [handleSessionOp, files_loadSession] at h
    exact absurd rfl h
  | _ => exact absurd rfl h

/-- Only an upload by the claim owner changes a file, and only the one it names. -/
theorem files_handle (s : Server) (env : Env) (b : String) (msg : InboundMessage) (loc : Location)
    (h : (handleAnnotatorMessage s env b msg).1.files loc ≠ s.files loc) :
    ∃ upload record, msg = .uploadFile upload ∧
      s.redis.getClaimOwner upload.sessionId = some b ∧ s.redis.get upload.sessionId = .ok record ∧
      s.location record upload.sessionId upload.relativePath = .ok loc := by
  have hop : (handleClaimedOp s env b msg).1.files loc ≠ s.files loc →
      ∃ upload record, msg = .uploadFile upload ∧
        s.redis.getClaimOwner upload.sessionId = some b ∧ s.redis.get upload.sessionId = .ok record ∧
        s.location record upload.sessionId upload.relativePath = .ok loc := by
    obtain ⟨_, _, heq⟩ | ⟨sid, hsid, howner, heq⟩ := handleClaimedOp_eq s env b msg
    · rw [heq]
      exact fun h => absurd rfl h
    · rw [heq]
      intro h
      obtain ⟨u, record, rfl, hr, hl⟩ := files_handleSessionOp s env msg loc h
      cases hsid
      exact ⟨u, record, rfl, howner, hr, hl⟩
  cases msg with
  | ping | listAnnotationQueue | heartbeatClaim _ _ => exact absurd rfl h
  | claimSession sid =>
    obtain ⟨hsame, -⟩ | ⟨target, -, -, -, hclaim⟩ := claimSession_cases s env b sid
    · rw [handleAnnotatorMessage, hsame] at h
      exact absurd rfl h
    · rw [handleAnnotatorMessage, hclaim] at h
      exact absurd rfl h
  | releaseSession sid claimId =>
    rw [handleAnnotatorMessage, files_releaseSession] at h
    exact absurd rfl h
  | _ => exact hop h

end MemoryArchive.Ipc
