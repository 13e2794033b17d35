import MemoryArchive.Registry.Schema

namespace MemoryArchive.Registry

/-- The status that the reconcile sweep gives a session in flight, if any. -/
def reconcileTarget (redisStatus : SessionStatus) (metadataStatus : String) : Option SessionStatus :=
  if metadataStatus = "complete" then
    match redisStatus with
    | .annotating => some SessionStatus.pendingAnnotation
    | _ => none
  else if redisStatus.text = metadataStatus then none
  else if metadataStatus = "pending_annotation" then some SessionStatus.pendingAnnotation
  else if metadataStatus = "pending_human_annotation" then some SessionStatus.pendingHumanAnnotation
  else if metadataStatus = "pending_compilation" then some .pendingCompilation
  else if metadataStatus = "reasoning_degraded" then some .reasoningDegraded
  else if metadataStatus = "incomplete" then some .incomplete
  else none

/-- The status that the startup sweep gives an active session whose recording is
finished. -/
def activeSweepRestoreTarget (metadataStatus : String) : Option SessionStatus :=
  if metadataStatus = "complete" then some SessionStatus.pendingAnnotation else none

end MemoryArchive.Registry
