import MemoryArchive.Capture.ReasoningMaps
import MemoryArchive.Capture.Writer

namespace MemoryArchive.Capture

structure StepEntry where
  stepId : UInt32
  timestamp : String
  actionType : String
  actionSubtype : String
  imagePath : Option String
  imageFetched : Bool
  marked : Bool
  beforeImagePath : Option String
  afterImagePath : Option String
  rawCommand : String
  convertedCommand : String
  deriving DecidableEq

structure SkippedFetch where
  stepId : UInt32
  reason : String
  deriving DecidableEq

/-- The fields of metadata.json that the capture of a session changes. -/
structure SessionMetadata where
  status : String
  totalSteps : UInt32
  steps : List StepEntry
  skippedImageFetches : List SkippedFetch
  totalInputTokens : UInt64
  totalOutputTokens : UInt64
  tokenCostsByProvider : ProviderTokens
  inProgress : Option String
  actuationAgentVersion : String
  kafkaPartition : Option Int32
  kafkaOffset : Option Int64

/-- The files of an image that has been fetched. -/
structure StepImage where
  imagePath : String
  marked : Bool
  beforeImagePath : Option String
  afterImagePath : Option String

def StepEntry.setImage (image : StepImage) (s : StepEntry) : StepEntry :=
  { s with
    imagePath := some image.imagePath
    imageFetched := true
    marked := image.marked
    beforeImagePath := image.beforeImagePath
    afterImagePath := image.afterImagePath }

/-- Change the first step that has the id. -/
def updateFirst (stepId : UInt32) (f : StepEntry → StepEntry) : List StepEntry → List StepEntry
  | [] => []
  | s :: steps => if s.stepId = stepId then f s :: steps else s :: updateFirst stepId f steps

namespace SessionMetadata

/-- The metadata that a session is registered with. -/
def initial : SessionMetadata :=
  ⟨"active", 0, [], [], 0, 0, .empty, none, "", none, none⟩

def setInProgress (m : SessionMetadata) (value : String) : SessionMetadata :=
  { m with inProgress := some value }

def clearInProgress (m : SessionMetadata) : SessionMetadata := { m with inProgress := none }

def markComplete (m : SessionMetadata) : SessionMetadata := { m with status := "complete" }

def markIncomplete (m : SessionMetadata) : SessionMetadata := { m with status := "incomplete" }

/-- Only the first event that carries a version sets it. -/
def recordAgentVersion (m : SessionMetadata) (version : String) : SessionMetadata :=
  if m.actuationAgentVersion = "" ∧ version ≠ "" then { m with actuationAgentVersion := version }
  else m

def updateKafkaPosition (m : SessionMetadata) : Option (Int32 × Int64) → SessionMetadata
  | some (part, offset) => { m with kafkaPartition := some part, kafkaOffset := some offset }
  | none => m

def appendStep (m : SessionMetadata) (step : StepEntry) : SessionMetadata :=
  { m with totalSteps := m.totalSteps + 1, steps := m.steps ++ [step] }

def updateStepImage (m : SessionMetadata) (stepId : UInt32) (image : StepImage) : SessionMetadata :=
  { m with steps := updateFirst stepId (StepEntry.setImage image) m.steps }

def appendSkippedFetch (m : SessionMetadata) (stepId : UInt32) (reason : String) : SessionMetadata :=
  { m with skippedImageFetches := m.skippedImageFetches ++ [⟨stepId, reason⟩] }

/-- Take over counts that have been drained. -/
def addTokens (m : SessionMetadata) (c : TokenCounts) (providers : ProviderTokens) :
    SessionMetadata :=
  { m with
    totalInputTokens := m.totalInputTokens + c.input
    totalOutputTokens := m.totalOutputTokens + c.output
    tokenCostsByProvider := m.tokenCostsByProvider.addAll providers }

/-- Drain the counts of a session into its metadata. -/
def drain (m : SessionMetadata) (maps : ReasoningMaps) : SessionMetadata × ReasoningMaps :=
  let (c, maps) := maps.drainTokens
  let (providers, maps) := maps.drainProviderTokens
  (m.addTokens c providers, maps)

end SessionMetadata

/-- A step with another id comes before, so it is passed over. -/
theorem updateFirst_append (stepId : UInt32) (f : StepEntry → StepEntry) (steps : List StepEntry)
    (step : StepEntry) (hsteps : ∀ s ∈ steps, s.stepId ≠ stepId) (hstep : step.stepId = stepId) :
    updateFirst stepId f (steps ++ [step]) = steps ++ [f step] := by
  induction steps with
  | nil => simp [updateFirst, hstep]
  | cons s steps ih =>
    have hs : s.stepId ≠ stepId := hsteps s (by simp)
    simp [updateFirst, hs, ih fun t ht => hsteps t (by simp [ht])]

/-- A step without what its image adds. -/
def StepEntry.bare (s : StepEntry) : StepEntry :=
  { s with
    imagePath := none
    imageFetched := false
    marked := false
    beforeImagePath := none
    afterImagePath := none }

/-- What the change of a step keeps of it is kept of all steps. -/
theorem map_updateFirst {β : Type} (g : StepEntry → β) {f : StepEntry → StepEntry} (stepId : UInt32)
    (hf : ∀ s, g (f s) = g s) (steps : List StepEntry) :
    (updateFirst stepId f steps).map g = steps.map g := by
  induction steps with
  | nil => rfl
  | cons s steps ih =>
    rw [updateFirst]
    split
    · rw [List.map_cons, List.map_cons, hf]
    · rw [List.map_cons, List.map_cons, ih]

end MemoryArchive.Capture
