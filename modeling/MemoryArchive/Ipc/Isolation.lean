import MemoryArchive.Data.Runs
import MemoryArchive.Ipc.AnnotatorSteps

namespace MemoryArchive.Ipc

open Registry Storage Runs

/-- The session exists and its tenant is one the annotator is allowed. -/
def Inside (s : Server) (annotatorId sid : String) : Prop :=
  ∃ r, s.redis.sessions sid = .record r ∧
    tenantVisible (allowedTenants s.redis annotatorId) r.tenantId = true

theorem Inside.touches {s s' : Server} {annotatorId sid id : String} (h : Inside s annotatorId id)
    (ht : Touches s s' sid) : Inside s' annotatorId id := by
  obtain ⟨r, hr, hv⟩ := h
  by_cases hid : id = sid
  · subst hid
    obtain ⟨r', hr', htenant⟩ := ht.tenant r hr
    exact ⟨r', hr', by rwa [allowedTenants, ht.annotators, htenant]⟩
  · exact ⟨r, by rw [ht.sessions id hid, hr], by rwa [allowedTenants, ht.annotators]⟩

/-- The sessions that an annotator is shown are inside its tenants. -/
theorem inside_listAnnotationQueue (s : Server) (annotatorId : String)
    (hne : allowedTenants s.redis annotatorId ≠ []) (items : List QueueItem)
    (h : listAnnotationQueue s.redis annotatorId = .annotationQueue items) :
    ∀ item ∈ items, Inside s annotatorId item.sessionId := by
  cases h
  intro item hitem
  obtain ⟨id, hid, rfl⟩ := List.mem_map.mp (List.mem_insertionSort _ |>.mp hitem)
  have hvisible := (List.mem_filter.mp hid).2
  simp only [Bool.and_eq_true, Bool.or_eq_true, List.isEmpty_iff, hne, false_or] at hvisible
  have hsession : (queueItem s.redis id).sessionId = id := by
    unfold queueItem
    split <;> rfl
  rw [hsession]
  cases hg : s.redis.get id with
  | error e => simp [hg] at hvisible
  | ok r =>
    rw [hg] at hvisible
    exact ⟨r, (s.redis.get_eq_ok id r).mp hg, hvisible.2⟩

/-- The server, with an account of who was last granted each session. -/
structure World where
  server : Server
  holder : String → Option String

inductive Event
  | message (annotatorId : String) (env : Env) (msg : InboundMessage)
  | expire (sid : String)

def World.step (w : World) : Event → World
  | .message b env msg =>
      let (server, reply) := handleAnnotatorMessage w.server env b msg
      match msg, reply with
      | .claimSession _, .sessionClaimed target _ =>
          ⟨server, Function.update w.holder target (some b)⟩
      | _, _ => ⟨server, w.holder⟩
  | .expire sid => { w with server := { w.server with redis := w.server.redis.releaseClaim sid } }

/-- The session waits in the queue, or the annotator resumes it. -/
def Available (w : World) (b sid : String) : Prop :=
  ∃ r, w.server.redis.sessions sid = .record r ∧
    (r.status = SessionStatus.pendingHumanAnnotation ∨ r.status = .annotating ∧ w.holder sid = some b)

/-- Whoever the claim checks take for the annotator claims a session that has
no claim only when it is available and inside the annotator's tenants, by name
or as an earliest one of the queue. -/
def ClaimsInside (annotatorId : String) (w : World) : Event → Prop
  | .message b env (.claimSession sid) =>
      (b = annotatorId ∨ firstSegment b = annotatorId) → UnderLimit w.server.redis env b →
        if sid = "" then ∀ id, Earliest w.server.redis id → Inside w.server annotatorId id
        else w.server.redis.claims sid = none → Available w b sid ∧ Inside w.server annotatorId sid
  | _ => True

/-- What a message of the annotator may do: it is granted available sessions
inside its tenants, sees such sessions only in the queue, operates on such
sessions only, and leaves every other session and file as it is. -/
structure Isolated (annotatorId : String) (w : World) (env : Env) (msg : InboundMessage) (w' : World) :
    Prop where
  grant : ∀ sid target claimId, msg = .claimSession sid →
    (handleAnnotatorMessage w.server env annotatorId msg).2 = .sessionClaimed target claimId →
    Available w annotatorId target ∧ Inside w.server annotatorId target
  queue : ∀ items, msg = .listAnnotationQueue →
    (handleAnnotatorMessage w.server env annotatorId msg).2 = .annotationQueue items →
    ∀ item ∈ items, Inside w.server annotatorId item.sessionId
  operation : ∀ sid, claimedSession msg = some sid → Inside w.server annotatorId sid ∨
    ∃ text, (handleAnnotatorMessage w.server env annotatorId msg).2 = .error "NOT_OWNER" text
  sessions : ∀ sid, ¬ Inside w.server annotatorId sid →
    w'.server.redis.sessions sid = w.server.redis.sessions sid ∧
      w'.server.redis.claims sid = w.server.redis.claims sid
  files : ∀ loc, w'.server.files loc ≠ w.server.files loc → ∃ upload record,
    msg = .uploadFile upload ∧ Inside w.server annotatorId upload.sessionId ∧
      w.server.redis.get upload.sessionId = .ok record ∧
      w.server.location record upload.sessionId upload.relativePath = .ok loc

def IsolatedStep (annotatorId : String) (w : World) (e : Event) (w' : World) : Prop :=
  ∀ env msg, e = .message annotatorId env msg → Isolated annotatorId w env msg w'

/-- The claims that count as the annotator's are on sessions inside its tenants. -/
structure Confined (annotatorId : String) (w : World) : Prop where
  tenants : allowedTenants w.server.redis annotatorId ≠ []
  index : w.server.redis.IndexSound
  owned : ∀ sid, w.server.redis.getClaimOwner sid = some annotatorId →
    Inside w.server annotatorId sid

theorem Confined.touches {annotatorId : String} {w w' : World} {sid : String}
    (h : Confined annotatorId w) (ht : Touches w.server w'.server sid) : Confined annotatorId w' := by
  refine ⟨by rw [allowedTenants, ht.annotators]; exact h.tenants, ht.index h.index, fun id ho => ?_⟩
  have hold : w.server.redis.getClaimOwner id = some annotatorId := by
    obtain ⟨v, hv, hseg⟩ := Option.map_eq_some_iff.mp ho
    by_cases hid : id = sid
    · subst hid
      rw [Redis.getClaimOwner, ht.claim v hv, Option.map_some, hseg]
    · rw [Redis.getClaimOwner, ← ht.claims id hid, hv, Option.map_some, hseg]
  exact (h.owned id hold).touches ht

theorem Confined.addClaim {annotatorId b claimId target : String} {w w' : World}
    (h : Confined annotatorId w) (hw : w'.server = addClaim w.server b claimId target)
    (hin : firstSegment b = annotatorId → Inside w.server annotatorId target) :
    Confined annotatorId w' := by
  have hinside : ∀ id, Inside w.server annotatorId id → Inside w'.server annotatorId id := by
    rintro id ⟨r, hr, hv⟩
    exact ⟨r, by rw [hw]; exact hr, by rw [hw]; exact hv⟩
  refine ⟨by rw [hw]; exact h.tenants, by rw [hw]; exact h.index, fun id ho => hinside id ?_⟩
  by_cases hid : id = target
  · subst hid
    rw [hw, Redis.getClaimOwner, MemoryArchive.Ipc.addClaim] at ho
    simp only [Function.update_self, Option.map_some, Option.some.injEq, firstSegment_claimValue] at ho
    exact hin ho
  · rw [hw, Redis.getClaimOwner, MemoryArchive.Ipc.addClaim] at ho
    simp only [Function.update_of_ne hid] at ho
    exact h.owned id ho

/-- A claim that the guard lets through is on an available session inside the
annotator's tenants. -/
theorem claim_inside {annotatorId b sid target : String} {env : Env} {w : World}
    (h : Confined annotatorId w) (hg : ClaimsInside annotatorId w (.message b env (.claimSession sid)))
    (hb : b = annotatorId ∨ firstSegment b = annotatorId) (hfree : w.server.redis.claims target = none)
    (hlimit : UnderLimit w.server.redis env b)
    (ht : sid = "" ∧ Earliest w.server.redis target ∨ sid ≠ "" ∧ target = sid) :
    Available w b target ∧ Inside w.server annotatorId target := by
  have hclaims := hg hb hlimit
  obtain ⟨rfl, hearly⟩ | ⟨hne, rfl⟩ := ht
  · rw [if_pos rfl] at hclaims
    have hin := hclaims target hearly
    obtain ⟨r, hr, hv⟩ := hin
    refine ⟨⟨r, hr, .inl ?_⟩, r, hr, hv⟩
    have hstatus := h.index SessionStatus.pendingHumanAnnotation target hearly.1
    rw [hr, Entry.status, Option.some.injEq] at hstatus
    exact hstatus
  · rw [if_neg hne] at hclaims
    exact hclaims hfree

theorem step_claimSession (w : World) (env : Env) (b sid : String) :
    (w.step (.message b env (.claimSession sid))).server = (claimSession w.server env b sid).1 := by
  simp only [World.step, handleAnnotatorMessage]
  split <;> rfl

theorem step_message (w : World) (env : Env) (b : String) (msg : InboundMessage) :
    (w.step (.message b env msg)).server = (handleAnnotatorMessage w.server env b msg).1 := by
  simp only [World.step]
  split <;> rfl

theorem confined_step (annotatorId : String) (w : World) (e : Event) (h : Confined annotatorId w)
    (hg : ClaimsInside annotatorId w e) : Confined annotatorId (w.step e) := by
  cases e with
  | expire sid => exact h.touches (touches_releaseClaim w.server sid)
  | message b env msg =>
    by_cases hmsg : ∃ sid, msg = .claimSession sid
    · obtain ⟨sid, rfl⟩ := hmsg
      have hs := step_claimSession w env b sid
      obtain ⟨hsame, -⟩ | ⟨target, hfree, hlimit, ht, hclaim⟩ := claimSession_cases w.server env b sid
      · have htouch : Touches w.server (w.step (.message b env (.claimSession sid))).server sid := by
          rw [hs, hsame]
          exact .refl w.server sid
        exact h.touches htouch
      · rw [hclaim] at hs
        exact h.addClaim hs fun hseg => (claim_inside h hg (.inr hseg) hfree hlimit ht).2
    · have hs := step_message w env b msg
      obtain hsame | ⟨sid, -, -, htouch⟩ :=
        handle_cases w.server env b msg fun sid he => hmsg ⟨sid, he⟩
      · have hnone : Touches w.server (w.step (.message b env msg)).server "" := by
          rw [hs, hsame]
          exact .refl w.server ""
        exact h.touches hnone
      · exact h.touches (hs ▸ htouch)

theorem isolated_step (annotatorId : String) (w : World) (e : Event) (h : Confined annotatorId w)
    (hg : ClaimsInside annotatorId w e) : IsolatedStep annotatorId w e (w.step e) := by
  rintro env msg rfl
  have hs := step_message w env annotatorId msg
  have hgrant : ∀ sid target, msg = .claimSession sid → w.server.redis.claims target = none →
      UnderLimit w.server.redis env annotatorId →
      (sid = "" ∧ Earliest w.server.redis target ∨ sid ≠ "" ∧ target = sid) →
      Available w annotatorId target ∧ Inside w.server annotatorId target := by
    rintro sid target rfl hfree hlimit ht
    exact claim_inside h hg (.inl rfl) hfree hlimit ht
  constructor
  · rintro sid target claimId rfl hreply
    obtain ⟨-, hnot⟩ | ⟨target', hfree, hlimit, ht, hclaim⟩ :=
      claimSession_cases w.server env annotatorId sid
    · exact absurd hreply (hnot target claimId)
    · rw [handleAnnotatorMessage, hclaim] at hreply
      cases hreply
      exact hgrant sid target rfl hfree hlimit ht
  · rintro items rfl hreply
    exact inside_listAnnotationQueue w.server annotatorId h.tenants items hreply
  · intro sid hsid
    by_cases ho : w.server.redis.getClaimOwner sid = some annotatorId
    · exact .inl (h.owned sid ho)
    · exact .inr (handle_not_owner w.server env annotatorId sid msg hsid ho)
  · intro sid hout
    rw [hs]
    by_cases hmsg : ∃ sid, msg = .claimSession sid
    · obtain ⟨sid', rfl⟩ := hmsg
      obtain ⟨hsame, -⟩ | ⟨target, hfree, hlimit, ht, hclaim⟩ :=
        claimSession_cases w.server env annotatorId sid'
      · rw [handleAnnotatorMessage, hsame]
        exact ⟨rfl, rfl⟩
      · have hne : sid ≠ target := by
          rintro rfl
          exact hout (hgrant sid' sid rfl hfree hlimit ht).2
        rw [handleAnnotatorMessage, hclaim]
        exact ⟨rfl, by simp [addClaim, hne]⟩
    · obtain hsame | ⟨sid', -, ho, htouch⟩ :=
        handle_cases w.server env annotatorId msg fun sid he => hmsg ⟨sid, he⟩
      · rw [hsame]
        exact ⟨rfl, rfl⟩
      · have hne : sid ≠ sid' := by
          rintro rfl
          exact hout (h.owned sid ho)
        exact ⟨htouch.sessions sid hne, htouch.claims sid hne⟩
  · intro loc hloc
    rw [hs] at hloc
    obtain ⟨u, record, rfl, ho, hr, hl⟩ := files_handle w.server env annotatorId msg loc hloc
    exact ⟨u, record, rfl, h.owned u.sessionId ho, hr, hl⟩

/-- In every run of annotator messages and expiries whose claims are made on
available sessions inside its tenants, an annotator stays with such sessions. -/
theorem annotator_isolated (annotatorId : String) (w : World) (es : List Event)
    (h : Confined annotatorId w) (hg : Guarded World.step (ClaimsInside annotatorId) w es) :
    Along World.step (IsolatedStep annotatorId) w es :=
  along_run (confined_step annotatorId) (isolated_step annotatorId) w es h hg

/-- One session of the tenant acme in the queue and one of globex past it; the
annotator is allowed acme. -/
def sampleWorld : World where
  server :=
    { storageMode := "local"
      router := ⟨["local"], [], Storage.local_ne_nil⟩
      redis :=
        { sessions := fun id =>
            if id = "s1" then .record (sampleRecord "s1" SessionStatus.pendingHumanAnnotation "acme")
            else if id = "s2" then .record (sampleRecord "s2" .pendingCompilation "globex")
            else .absent
          index := fun status =>
            if status = SessionStatus.pendingHumanAnnotation then ["s1"]
            else if status = .pendingCompilation then ["s2"]
            else []
          claims := fun _ => none
          annotators := fun id => if id = "ann" then some ⟨"active", ["acme"], 1, ""⟩ else none }
      files := fun _ => none }
  holder := fun _ => none
where
  sampleRecord (id : String) (status : SessionStatus) (tenantId : String) : SessionRecord :=
    { sessionId := id, mode := .manual, status := status, memoryName := id,
      memoryPath := "/memories/" ++ id, createdAt := "2026-01-01T00:00:00+00:00", totalSteps := 4,
      annotatedSteps := 0, skippedSteps := 0, tenantId := tenantId, storageBackend := "local" }

def sampleEnv : Env where
  version := "1.0.0"
  scan := []
  claimId := "5c1b"
  fault := none
  ioError := "not found"
  listing _ := .ok []
  serdeError _ := "expected value"

theorem confined_sampleWorld : Confined "ann" sampleWorld := by
  refine ⟨by decide, fun status id hid => ?_, fun sid ho => by cases ho⟩
  cases status with
  | pendingHumanAnnotation =>
    obtain rfl := List.mem_singleton.mp hid
    decide
  | pendingCompilation =>
    obtain rfl := List.mem_singleton.mp hid
    decide
  | _ => cases hid

theorem annotator_isolated_sample :
    Along World.step (IsolatedStep "ann") sampleWorld
      [.message "ann" sampleEnv (.claimSession ""), .message "ann" sampleEnv (.loadSession "s1"),
        .expire "s1"] := by
  apply annotator_isolated "ann" sampleWorld _ confined_sampleWorld
  refine ⟨fun _ _ => ?_, trivial, trivial, trivial⟩
  rw [if_pos rfl]
  intro id hearly
  obtain rfl := List.mem_singleton.mp hearly.1
  exact ⟨sampleWorld.sampleRecord "s1" SessionStatus.pendingHumanAnnotation "acme", rfl, by decide +kernel⟩

/-- A claim by name is granted on a session of another tenant that is not even
in the queue. -/
theorem claim_crosses_tenants :
    Confined "ann" sampleWorld ∧ ¬ Along World.step (IsolatedStep "ann") sampleWorld
      [.message "ann" sampleEnv (.claimSession "s2")] := by
  refine ⟨confined_sampleWorld, fun h => ?_⟩
  have hgrant := (h.1 sampleEnv (.claimSession "s2") rfl).grant "s2" "s2" "5c1b" rfl (by decide +kernel)
  obtain ⟨-, r, hr, hv⟩ := hgrant
  cases hr
  revert hv
  decide +kernel

end MemoryArchive.Ipc
