import Mathlib.Data.String.Basic

namespace MemoryArchive.Registry

inductive SessionStatus
  | active | pendingAnnotation | pendingHumanAnnotation | annotating | pendingCompilation
  | reasoningDegraded | complete | incomplete
  deriving DecidableEq

def SessionStatus.text : SessionStatus → String
  | active => "active"
  | pendingAnnotation => "pending_annotation"
  | pendingHumanAnnotation => "pending_human_annotation"
  | annotating => "annotating"
  | pendingCompilation => "pending_compilation"
  | reasoningDegraded => "reasoning_degraded"
  | complete => "complete"
  | incomplete => "incomplete"

/-- The statuses that have an index set. -/
def SessionStatus.indexed : SessionStatus → Bool
  | complete | incomplete => false
  | _ => true

inductive SessionMode
  | manual | automated
  deriving DecidableEq

def SessionMode.text : SessionMode → String
  | manual => "manual"
  | automated => "automated"

/-- The fields of a session record that the handlers read or change. A creation
time is its RFC 3339 text, which is compared as text. -/
structure SessionRecord where
  sessionId : String
  mode : SessionMode
  status : SessionStatus
  memoryName : String
  memoryPath : String
  createdAt : String
  totalSteps : UInt32
  annotatedSteps : UInt32
  skippedSteps : UInt32
  tenantId : String
  storageBackend : String
  deriving DecidableEq

end MemoryArchive.Registry
