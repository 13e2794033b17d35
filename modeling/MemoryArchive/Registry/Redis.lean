import Mathlib.Logic.Function.Basic
import MemoryArchive.Registry.Schema

namespace MemoryArchive.Registry

/-- The hash of a session: missing, a whole record, or what a write of single
fields leaves where there was no record. -/
inductive Entry
  | absent
  | fragment (status : Option SessionStatus)
  | record (r : SessionRecord)
  deriving DecidableEq

def Entry.status : Entry → Option SessionStatus
  | absent => none
  | fragment status => status
  | record r => some r.status

def Entry.setStatus (status : SessionStatus) : Entry → Entry
  | record r => .record { r with status := status }
  | absent | fragment _ => .fragment (some status)

def Entry.setCounters (annotated skipped : UInt32) : Entry → Entry
  | record r => .record { r with annotatedSteps := annotated, skippedSteps := skipped }
  | absent => .fragment none
  | fragment status => .fragment status

def Entry.setMemoryPath (path : String) : Entry → Entry
  | record r => .record { r with memoryPath := path }
  | absent => .fragment none
  | fragment status => .fragment status

def Entry.mode? : Entry → Option SessionMode
  | absent | fragment _ => none
  | record r => some r.mode

/-- The fields of an annotator that the handlers read. -/
structure Annotator where
  status : String
  allowedTenantIds : List String
  maxConcurrentClaims : Nat
  lastAuthAt : String
  deriving DecidableEq

/-- The keys of the registry: session hashes, status index sets, claims by
session, and annotators. Errors of the connection are not modelled. -/
structure Redis where
  sessions : String → Entry
  index : SessionStatus → List String
  claims : String → Option String
  annotators : String → Option Annotator

def Redis.get (s : Redis) (sessionId : String) : Except String SessionRecord :=
  match s.sessions sessionId with
  | .absent => .error s!"Session '{sessionId}' not found in registry"
  | .fragment _ => .error "Failed to deserialise session record from Redis"
  | .record r => .ok r

/-- Take a session out of the index set of its old status. -/
def dropIndex (index : SessionStatus → List String) (sessionId : String)
    (old : Option SessionStatus) (status : SessionStatus) : List String :=
  if old = some status then (index status).filter (· ≠ sessionId) else index status

/-- Move a session from the index set of its old status to that of the new. -/
def moveIndex (index : SessionStatus → List String) (sessionId : String)
    (old : Option SessionStatus) (new : SessionStatus) (status : SessionStatus) : List String :=
  let ids := dropIndex index sessionId old status
  if new = status ∧ status.indexed ∧ sessionId ∉ ids then ids ++ [sessionId] else ids

/-- `update_status` looks at neither the old status nor whether the session
exists; it sets the field. -/
def Redis.updateStatus (s : Redis) (sessionId : String) (new : SessionStatus) : Redis :=
  { s with
    sessions := Function.update s.sessions sessionId ((s.sessions sessionId).setStatus new)
    index := moveIndex s.index sessionId (s.sessions sessionId).status new }

def Redis.updateAnnotationCounters (s : Redis) (sessionId : String) (annotated skipped : UInt32) :
    Redis :=
  { s with
    sessions := Function.update s.sessions sessionId
      ((s.sessions sessionId).setCounters annotated skipped) }

def Redis.updateMemoryPath (s : Redis) (sessionId path : String) : Redis :=
  { s with
    sessions := Function.update s.sessions sessionId ((s.sessions sessionId).setMemoryPath path) }

/-- A new session, under an id that stores nothing yet. -/
def Redis.register (s : Redis) (record : SessionRecord) : Except String Redis :=
  if s.sessions record.sessionId = .absent then
    .ok
      { s with
        sessions := Function.update s.sessions record.sessionId (.record record)
        index := moveIndex s.index record.sessionId none record.status }
  else .error s!"Session '{record.sessionId}' already exists in registry"

/-- Remove a session with its index entries and its claim. -/
def Redis.deleteSession (s : Redis) (sessionId : String) : Except String (Redis × Bool) :=
  if sessionId = "" then .error "delete_session called with an empty session id"
  else
    .ok
      ({ s with
          sessions := Function.update s.sessions sessionId .absent
          index := fun status => (s.index status).filter (· ≠ sessionId)
          claims := Function.update s.claims sessionId none },
        s.sessions sessionId ≠ .absent)

theorem Redis.get_eq_ok (s : Redis) (sessionId : String) (r : SessionRecord) :
    s.get sessionId = .ok r ↔ s.sessions sessionId = .record r := by
  unfold Redis.get
  constructor
  · intro h
    split at h
    · cases h
    · cases h
    · rename_i r' hr
      cases h
      exact hr
  · intro h
    rw [h]

@[simp] theorem Entry.status_setStatus (e : Entry) (status : SessionStatus) :
    (e.setStatus status).status = some status := by
  cases e <;> rfl

@[simp] theorem Entry.status_setCounters (e : Entry) (annotated skipped : UInt32) :
    (e.setCounters annotated skipped).status = e.status := by
  cases e <;> rfl

@[simp] theorem Entry.status_setMemoryPath (e : Entry) (path : String) :
    (e.setMemoryPath path).status = e.status := by
  cases e <;> rfl

/-- Every session in an index set has the status of the set. -/
def Redis.IndexSound (s : Redis) : Prop :=
  ∀ status, ∀ id ∈ s.index status, (s.sessions id).status = some status

theorem mem_dropIndex {index : SessionStatus → List String} {sessionId id : String}
    {old : Option SessionStatus} {status : SessionStatus} :
    id ∈ dropIndex index sessionId old status ↔
      id ∈ index status ∧ (id = sessionId → old ≠ some status) := by
  unfold dropIndex
  split
  · rename_i he
    rw [List.mem_filter, decide_eq_true_eq]
    exact and_congr_right fun _ => ⟨fun hne h => absurd h hne, fun h hid => h hid he⟩
  · rename_i hne
    exact ⟨fun h => ⟨h, fun _ => hne⟩, And.left⟩

theorem mem_moveIndex {index : SessionStatus → List String} {sessionId id : String}
    {old : Option SessionStatus} {new status : SessionStatus} :
    id ∈ moveIndex index sessionId old new status ↔
      (id = sessionId ∧ new = status ∧ status.indexed = true) ∨
        (id ∈ index status ∧ (id = sessionId → old ≠ some status)) := by
  unfold moveIndex
  dsimp only
  rw [← mem_dropIndex]
  split
  · rename_i hnew
    rw [List.mem_append, List.mem_singleton, or_comm]
    exact or_congr_left (and_iff_left ⟨hnew.1, hnew.2.1⟩).symm
  · rename_i hnot
    refine ⟨.inr, fun h => h.elim ?_ fun hmem => hmem⟩
    rintro ⟨rfl, hnew, hindexed⟩
    exact not_not.mp fun hmem => hnot ⟨hnew, hindexed, hmem⟩

theorem Redis.IndexSound.updateStatus {s : Redis} (h : s.IndexSound) (sessionId : String)
    (new : SessionStatus) : (s.updateStatus sessionId new).IndexSound := by
  intro status id hid
  simp only [Redis.updateStatus, Function.update_apply]
  obtain ⟨rfl, rfl, -⟩ | ⟨hmem, hold⟩ := mem_moveIndex.mp hid
  · simp
  · by_cases he : id = sessionId
    · subst he
      exact absurd (h status id hmem) (hold rfl)
    · simp [he, h status id hmem]

theorem Redis.IndexSound.updateCounters {s : Redis} (h : s.IndexSound) (sessionId : String)
    (annotated skipped : UInt32) :
    (s.updateAnnotationCounters sessionId annotated skipped).IndexSound := by
  intro status id hid
  simp only [Redis.updateAnnotationCounters, Function.update_apply]
  by_cases he : id = sessionId
  · subst he
    simp [h status id hid]
  · simp [he, h status id hid]

end MemoryArchive.Registry
