import MemoryArchive.Registry.Schema

namespace MemoryArchive.Ipc

open Registry

structure Upload where
  sessionId : String
  relativePath : String
  bytes : ByteArray
  contentType : String

/-- The messages of an annotator connection. Every other message is refused on
it, whatever it says. -/
inductive InboundMessage
  | ping
  | listAnnotationQueue
  | claimSession (sessionId : String)
  | heartbeatClaim (sessionId claimId : String)
  | releaseSession (sessionId claimId : String)
  | loadSession (sessionId : String)
  | getSessionStatus (sessionId : String)
  | updateAnnotationProgress (sessionId : String) (annotated skipped : UInt32)
  | closeAnnotation (sessionId : String)
  | completeAnnotation (sessionId : String)
  | fetchFile (sessionId relativePath : String)
  | listSessionFiles (sessionId lead : String)
  | uploadFile (upload : Upload)
  | admin

/-- The VLM configuration of a session. -/
structure SessionConfig where
  modelProvider : String
  modelEndpoint : String
  modelApiKeyRef : String
  contextWindowSteps : UInt32
  fallbackModelProvider : String
  fallbackModelEndpoint : String
  fallbackApiKeyRef : String

/-- What RegisterSession checks or keeps of its message. -/
structure Registration where
  mode : String
  memoryName : String
  tenantId : Option String
  sessionConfig : Option SessionConfig
  captureServerAddr : String
  theEyesAddr : String

/-- The messages of an operator connection that concern sessions or annotators'
registration. Those of annotators only are refused on it. -/
inductive OperatorMessage
  | ping
  | registerSession (registration : Registration)
  | getSessionStatus (sessionId : String)
  | startWatch (sessionId : String)
  | done (sessionId : String)
  | loadSession (sessionId : String)
  | updateAnnotationProgress (sessionId : String) (annotated skipped : UInt32)
  | closeAnnotation (sessionId : String)
  | completeAnnotation (sessionId : String)
  | finalizeMemory (sessionId : String)
  | fetchFile (sessionId relativePath : String)
  | listSessionFiles (sessionId lead : String)
  | uploadFile (upload : Upload)
  | reasoningResult (sessionId : String) (stepId : UInt32)
  | reasoningDegraded (sessionId : String) (stepRangeStart : UInt32)
  | circuitReset (sessionId : String)
  | compileMemory (sessionId : String)
  | registerAnnotator (annotatorId : String) (allowedTenantIds : List String) (maxClaims : UInt32)
  | deleteSession (sessionId : String) (force : Bool)
  | annotatorOnly

structure QueueItem where
  sessionId : String
  memoryName : String
  totalSteps : UInt32
  createdAt : String
  deriving DecidableEq

structure FileEntry where
  path : String
  size : Nat
  deriving DecidableEq

abbrev bytesDecidableEq : DecidableEq ByteArray := ByteArray.instDecidableEq

attribute [local instance] bytesDecidableEq

inductive OutboundMessage
  | pong
  | error (code message : String)
  | annotationQueue (sessions : List QueueItem)
  | sessionClaimed (sessionId claimId : String)
  | claimConflict (sessionId : String)
  | claimLimitReached (annotatorId : String) (currentCount limit : Nat)
  | claimRefreshed (sessionId : String)
  | sessionReleased (sessionId : String)
  | sessionStatus (session : SessionRecord)
  | sessionLoaded (sessionId memoryPath : String) (wasInterrupted : Bool)
  | annotationProgressUpdated (sessionId : String) (annotated skipped : UInt32)
  | annotationClosed (sessionId : String)
  | annotationCompleted (sessionId : String)
  | fileData (sessionId relativePath : String) (bytes : ByteArray) (size : Nat)
  | sessionFileList (sessionId : String) (files : List FileEntry)
  | fileUploaded (sessionId relativePath : String)
  | sessionRegistered (sessionId : String)
  | sessionComplete (sessionId : String) (totalSteps : UInt32)
  | memoryFinalized (sessionId : String)
  | reasoningResultAccepted (sessionId : String) (stepId : UInt32)
  | reasoningDegradedEvent (sessionId : String) (stepRangeStart : UInt32)
  | circuitResetAck (sessionId : String)
  | memoryCompileReady (sessionId memoryPath : String)
  | annotatorRegistered (annotatorId plaintextKey : String)
  | sessionDeleted (sessionId memoryName : String) (redisRemoved : Bool) (objectsRemoved : Nat)
      (localDirRemoved : Bool)
  deriving DecidableEq

end MemoryArchive.Ipc
