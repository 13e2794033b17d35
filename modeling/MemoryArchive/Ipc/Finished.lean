import MemoryArchive.Ipc.CloudReasoning
import MemoryArchive.Ipc.Confinement
import MemoryArchive.Ipc.Repair
import MemoryArchive.Tui.Counters

namespace MemoryArchive.Ipc.Finished

open Capture (StepEntry)
open Confinement (uploadLocation)
open Reasoning (AutomatedReasoning Text missingEntries upsertAll upsertEntry)
open Registry Runs Storage
open Tui (MetadataFile)

/-- The program with its files. Watch loops keep the record that they were started
with, and each Done leaves a task that fetches the closing image. The flags are
an account of one session: its memory has been finished; its annotation has been
completed and it has not been loaded since. -/
structure World where
  system : System
  loopRecords : String → Nat → Option SessionRecord
  closing : List (String × SessionRecord)
  finished : Bool
  completed : Bool

/-- `step` is what the session's metadata has for the step, `written` what of the
local file could be written and `stored` whether the storage takes the object. -/
inductive Act
  | input (i : SystemInput)
  | result (sid : String) (stepId : UInt32) (step : Option StepEntry) (model : AutomatedReasoning)
      (now : String) (written stored : Bool)
  | placeholders (sid : String) (id : Nat) (steps : List StepEntry) (now : UInt32 → String)
      (written : UInt32 → Bool) (stored : Bool)
  | closing (k : Nat) (image : Option (String × ByteArray)) (stored : Bool)

def reasoningPieces : List Component :=
  [.normal "reasoning".toList, .normal "reasoning.jsonl".toList]

def framesPieces : List Component := [.normal "vision".toList, .normal "frames".toList]

def metadataPieces : List Component := [.normal "metadata.json".toList]

def memoryDir (r : SessionRecord) : List Component := components r.memoryPath.toList

def reasoningFile (r : SessionRecord) : Location := .file (memoryDir r ++ reasoningPieces)

def metadataFile (r : SessionRecord) : Location := .file (memoryDir r ++ metadataPieces)

def closingName (ext : String) : String := "closing_state." ++ ext

def imageFile (r : SessionRecord) (ext : String) : Location :=
  .file (memoryDir r ++ framesPieces ++ [.normal (closingName ext).toList])

/-- `file_name` of the memory directory. -/
def dirName (r : SessionRecord) : String :=
  match (memoryDir r).getLast? with
  | some (.normal name) => String.ofList name
  | _ => ""

/-- The closing image in the storage lies under the name of the directory. -/
def imageObject (router : StorageRouter) (sid : String) (r : SessionRecord) (ext : String) : Location :=
  .object (router.resolveForSession r) sid (dirName r ++ "/vision/frames/" ++ closingName ext)

section Writes

variable (s : Server)

/-- `read_to_string`, after the test that the file is there. -/
def readText (loc : Location) : Option Reasoning.File :=
  match s.files loc with
  | none => some none
  | some bytes => (decodeUtf8 bytes).map some

def cloudPrimary : Bool := s.storageMode = "cloud_primary"

/-- reasoning.jsonl as it is written, and in cloud mode stored. -/
def reasoningWrites (sid : String) (r : SessionRecord) (text : Text) (stored : Bool) :
    List (Location × ByteArray) :=
  (reasoningFile r, encodeUtf8 text) ::
    if cloudPrimary s && stored then
      [(.object (s.router.resolveForSession r) sid (r.memoryName ++ "/" ++ allowedReasoning), encodeUtf8 text)]
    else []

/-- What the handler of a ReasoningResult writes. -/
def resultWrites (sid : String) (stepId : UInt32) (step : Option StepEntry) (model : AutomatedReasoning)
    (now : String) (written stored : Bool) : List (Location × ByteArray) :=
  match s.redis.get sid with
  | .error _ => []
  | .ok r =>
      match readText s (reasoningFile r) with
      | none => []
      | some file =>
          if written then
            reasoningWrites s sid r (upsertEntry file (CloudWorld.resultEntry stepId step model now)) stored
          else []

/-- `write_degraded_placeholders`, which goes on after an entry that cannot be
written. -/
def placeholderWrites (sid : String) (r : SessionRecord) (steps : List StepEntry) (now : UInt32 → String)
    (written : UInt32 → Bool) (stored : Bool) : List (Location × ByteArray) :=
  match readText s (reasoningFile r) with
  | none => []
  | some file =>
      match (missingEntries file steps now).filter fun entry => written entry.stepId with
      | [] => []
      | entry :: entries =>
          reasoningWrites s sid r ((upsertAll file (entry :: entries)).getD []) stored

variable (readMetadata : ByteArray → Option MetadataFile)

/-- What `fetch_closing_image` does with an image it gets: in local mode it is
also named in metadata.json. -/
def closingWrites (sid : String) (r : SessionRecord) (image : Option (String × ByteArray)) (stored : Bool) :
    List (Location × ByteArray) :=
  match image with
  | none => []
  | some (ext, bytes) =>
      if stored = false then []
      else if cloudPrimary s then [(imageObject s.router sid r ext, bytes)]
      else
        (imageFile r ext, bytes) ::
          match (s.files (metadataFile r)).bind readMetadata with
          | none => []
          | some m =>
              let m := { m with closingImagePath := some ("vision/frames/" ++ closingName ext) }
              [(metadataFile r, m.write)]

/-- The file that a message of an annotator writes. -/
def annotatorWrites (env : Env) (annotatorId : String) : InboundMessage → List (Location × ByteArray)
  | .uploadFile u =>
      if s.redis.getClaimOwner u.sessionId ≠ some annotatorId then []
      else
        match uploadLocation s env.serdeError u, env.fault with
        | .ok write, none => [write]
        | _, _ => []
  | _ => []

end Writes

section Session

-- The session, and what serde reads from its metadata.json.
variable (sid : String) (readMetadata : ByteArray → Option MetadataFile)

/-- The reply of a message, if it has one at once. -/
def reply (s : System) : SystemInput → Option OutboundMessage
  | .operator env msg => (handleMessage s env msg).2
  | .annotator annotatorId env msg => some (handleAnnotatorMessage s.server env annotatorId msg).2
  | _ => none

def started : SystemInput → Option String
  | .operator _ (.startWatch t) => some t
  | _ => none

def doneFor : SystemInput → Option String
  | .operator _ (.done t) => some t
  | _ => none

def finalises : SystemInput → Bool
  | .operator _ (.finalizeMemory t) => t = sid
  | _ => false

namespace World

def start (server : Server) : World := ⟨.start server, fun _ _ => none, [], false, false⟩

variable (w : World)

def record? (t : String) : Option SessionRecord := (w.system.server.redis.get t).toOption

/-- What the background of a session writes: the handler of a result, the end of
a watch loop, and the task of a Done. -/
def writes : Act → List (Location × ByteArray)
  | .input (.annotator annotatorId env msg) => annotatorWrites w.system.server env annotatorId msg
  | .input _ => []
  | .result t stepId step model now written stored =>
      resultWrites w.system.server t stepId step model now written stored
  | .placeholders t id steps now written stored =>
      match (w.system.control t).loop? id, w.loopRecords t id with
      | some l, some r =>
          if l.phase = .leaving true ∧ r.mode = .automated then
            placeholderWrites w.system.server t r steps now written stored
          else []
      | _, _ => []
  | .closing k image stored =>
      match w.closing[k]? with
      | some (t, r) => closingWrites w.system.server readMetadata t r image stored
      | none => []

/-- Files after writes, of which no two are at one place. -/
def put (files : Location → Option ByteArray) (writes : List (Location × ByteArray)) (loc : Location) :
    Option ByteArray := (writes.lookup loc).or (files loc)

def background (act : Act) : System :=
  { w.system with server.files := put w.system.server.files (w.writes readMetadata act) }

def input (i : SystemInput) : World where
  system := w.system.step i
  loopRecords :=
    match started i with
    | some t => Function.update w.loopRecords t
        (Function.update (w.loopRecords t) (w.system.control t).nextLoop (w.record? t))
    | none => w.loopRecords
  closing :=
    match doneFor i with
    | some t => w.closing ++ ((w.record? t).map fun r => (t, r)).toList
    | none => w.closing
  finished := w.finished || (finalises sid i && (w.record? sid).isSome)
  completed :=
    match reply w.system i with
    | some (.annotationCompleted t) => w.completed || t = sid
    | some (.sessionLoaded t _ _) => w.completed && t ≠ sid
    | _ => w.completed

def step : Act → World
  | .input i => w.input sid i
  | .closing k image stored =>
      { w with system := w.background readMetadata (.closing k image stored), closing := w.closing.eraseIdx k }
  | act => { w with system := w.background readMetadata act }

/-- The files and the objects of the session. -/
def Of (loc : Location) : Prop :=
  match loc with
  | .object _ t _ => t = sid
  | .file path => ∃ r, w.system.server.redis.get sid = .ok r ∧ memoryDir r <+: path

end World

/-- The messages of annotators and the writers of the background. -/
def Act.writer : Act → Bool
  | .input (.annotator _ _ _) => true
  | .input _ => false
  | _ => true

/-- Nothing is left that would write to a finished memory, unless what it writes
is there already; and no upload of the completed session can be accepted. -/
structure Spared (w : World) (act : Act) : Prop where
  there : w.finished = true → ∀ loc bytes, w.Of sid loc → (w.writes readMetadata act).lookup loc = some bytes →
    w.system.server.files loc = some bytes
  none_sent : w.completed = true → ∀ annotatorId env u,
    act = .input (.annotator annotatorId env (.uploadFile u)) → u.sessionId = sid →
      annotatorWrites w.system.server env annotatorId (.uploadFile u) = []

end Session

section Steps

variable {sid : String} {readMetadata : ByteArray → Option MetadataFile} {w : World}

theorem files_uploadFile (serdeError : List Char → String) (s : Server) (fault : Option String) (u : Upload) :
    (uploadFile serdeError s fault u).1.files =
      World.put s.files
        (match uploadLocation s serdeError u, fault with
          | .ok write, none => [write]
          | _, _ => []) := by
  rw [Confinement.uploadFile_eq]
  cases uploadLocation s serdeError u with
  | error e => rfl
  | ok write =>
    cases fault with
    | some e => rfl
    | none =>
      funext loc
      obtain ⟨place, bytes⟩ := write
      change Function.update s.files place (some bytes) loc = (List.lookup loc [(place, bytes)]).or (s.files loc)
      rw [Function.update_apply, List.lookup_cons]
      by_cases hloc : loc = place
      · rw [if_pos hloc, beq_iff_eq.mpr hloc]
        rfl
      · rw [if_neg hloc, beq_eq_false_iff_ne.mpr hloc]
        rfl

/-- A message of an annotator writes one file at most. -/
theorem files_annotator (s : Server) (env : Env) (b : String) (msg : InboundMessage) :
    (handleAnnotatorMessage s env b msg).1.files = World.put s.files (annotatorWrites s env b msg) := by
  have hclaimed : ∀ msg, (handleSessionOp s env msg).1.files = s.files →
      (handleClaimedOp s env b msg).1.files = s.files := by
    intro msg hmsg
    obtain ⟨_, _, heq⟩ | ⟨sid, -, -, heq⟩ := handleClaimedOp_eq s env b msg
    · rw [heq]
    · rw [heq]
      exact hmsg
  cases msg with
  | ping | listAnnotationQueue | heartbeatClaim _ _ => rfl
  | claimSession t =>
    obtain ⟨hsame, -⟩ | ⟨target, -, -, -, hclaim⟩ := claimSession_cases s env b t
    · rw [handleAnnotatorMessage, hsame]
      rfl
    · rw [handleAnnotatorMessage, hclaim]
      rfl
  | releaseSession t claimId => exact files_releaseSession s b t claimId
  | loadSession t => exact hclaimed _ (files_loadSession s t)
  | uploadFile u =>
    change (handleClaimedOp s env b (.uploadFile u)).1.files = _
    rw [handleClaimedOp, annotatorWrites]
    dsimp only [opSession]
    split
    · rfl
    · exact files_uploadFile env.serdeError s env.fault u
  | getSessionStatus _ | updateAnnotationProgress _ _ _ | closeAnnotation _ | completeAnnotation _
  | fetchFile _ _ | listSessionFiles _ _ | admin => exact hclaimed _ rfl

theorem files_step (act : Act) (hwriter : act.writer = true) :
    (w.step sid readMetadata act).system.server.files =
      World.put w.system.server.files (w.writes readMetadata act) := by
  cases act with
  | input i =>
    cases i with
    | annotator b env msg => exact files_annotator w.system.server env b msg
    | _ => cases hwriter
  | result _ _ _ _ _ _ _ | placeholders _ _ _ _ _ _ | closing _ _ _ => rfl

theorem uploadLocation_error {s : Server} {serdeError : List Char → String} {u : Upload}
    {reply : OutboundMessage} (h : uploadLocation s serdeError u = .error reply) :
    ∃ code text, reply = .error code text := by
  rw [uploadLocation] at h
  split at h
  · cases h
    exact ⟨_, _, rfl⟩
  split at h
  · cases h
    exact ⟨_, _, rfl⟩
  split at h
  · cases h
    exact ⟨_, _, rfl⟩
  split at h
  · cases h
    exact ⟨_, _, rfl⟩
  split at h
  · cases h
    exact ⟨_, _, rfl⟩
  · cases h

/-- The reply to an upload is a refusal if and only if nothing is written. -/
theorem refused_iff (s : Server) (env : Env) (b : String) (u : Upload) :
    (∃ code text, (handleAnnotatorMessage s env b (.uploadFile u)).2 = .error code text) ↔
      annotatorWrites s env b (.uploadFile u) = [] := by
  change (∃ code text, (handleClaimedOp s env b (.uploadFile u)).2 = .error code text) ↔ _
  rw [handleClaimedOp, annotatorWrites]
  dsimp only [opSession]
  split
  · exact iff_of_true ⟨_, _, rfl⟩ rfl
  · rw [handleSessionOp, Confinement.uploadFile_eq]
    cases hloc : uploadLocation s env.serdeError u with
    | error reply =>
      obtain ⟨code, text, rfl⟩ := uploadLocation_error hloc
      exact iff_of_true ⟨_, _, rfl⟩ rfl
    | ok write =>
      cases env.fault with
      | some e => exact iff_of_true ⟨_, _, rfl⟩ rfl
      | none => exact iff_of_false (by rintro ⟨_, _, ⟨⟩⟩) (List.cons_ne_nil _ _)

end Steps

def annotatorEnv : Env := lifecycleEnv.env

end MemoryArchive.Ipc.Finished
