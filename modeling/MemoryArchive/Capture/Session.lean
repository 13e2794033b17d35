import MemoryArchive.Capture.Metadata

namespace MemoryArchive.Capture

/-- What a session takes from the configuration and from the conversion of
commands. -/
structure Context where
  isCloudPrimary : Bool
  flushInterval : UInt32
  toHumanReadable : CommandEvent → String
  toCcCommand : CommandEvent → String

/-- A watch loop waits for its event source, takes events, or has left its loop:
on a done signal, or because the stream or the image server went away. -/
inductive Phase
  | connecting
  | running
  | leaving (doneCleanly : Bool)
  deriving DecidableEq

structure WatchLoop where
  id : Nat
  phase : Phase
  metadata : SessionMetadata
  stepsSinceFlush : UInt32
  writer : CommandWriter

/-- One session: whether the registry knows it, its stored metadata and command
files, the counts no flush has taken yet, its watch loops, and the loop whose
done handle is in the handle map. -/
structure Session where
  registered : Bool
  stored : Option SessionMetadata
  files : Files
  maps : ReasoningMaps
  loops : List WatchLoop
  handle : Option Nat
  nextLoop : Nat

/-- What the vision pipeline does for a step. -/
inductive Vision
  | off
  | fetched (image : StepImage)
  | skipped (reason : String)

/-- An event of the stream and what its handling meets: the time, failing writes,
the image, and whether the metadata and the command files are stored. -/
structure EventInput where
  event : CommandEvent
  now : Text
  failure : CommandFile → Option Failure
  image : Vision
  kafka : Option (Int32 × Int64)
  flushed : Bool
  fault : Option Nat

/-- What a Done without a live loop meets. -/
structure DoneInput where
  fault : Option Nat
  tokensWritten : Bool
  completed : Bool
  cleared : Bool

structure ReasoningResult where
  provider : String
  inputTokens : UInt32
  outputTokens : UInt32
  deriving DecidableEq

def ReasoningResult.counts (r : ReasoningResult) : TokenCounts :=
  ⟨r.inputTokens.toUInt64, r.outputTokens.toUInt64⟩

inductive Input
  | startWatch
  | connect (id : Nat) (connected flushed : Bool)
  | event (id : Nat) (input : EventInput)
  | leave (id : Nat) (doneCleanly : Bool)
  | finish (id : Nat) (fault : Option Nat) (flushed : Bool)
  | done (input : DoneInput)
  | reasoningResult (result : ReasoningResult) (written : Bool)

def stepEntry (ctx : Context) (step : UInt32) (e : CommandEvent) : StepEntry where
  stepId := step
  timestamp := e.timestamp
  actionType := e.actionType
  actionSubtype := e.actionSubtype
  imagePath := none
  imageFetched := false
  marked := false
  beforeImagePath := none
  afterImagePath := none
  rawCommand := e.rawCommand
  convertedCommand := ctx.toHumanReadable e

def SessionMetadata.addImage (m : SessionMetadata) (step : UInt32) : Vision → SessionMetadata
  | .off => m
  | .fetched image => m.updateStepImage step image
  | .skipped reason => m.appendSkippedFetch step reason

/-- What an image keeps of a step is kept of all steps. -/
theorem SessionMetadata.map_addImage {β : Type} (g : StepEntry → β)
    (hg : ∀ (s : StepEntry) image, g (s.setImage image) = g s) (m : SessionMetadata) (step : UInt32)
    (vision : Vision) :
    (m.addImage step vision).steps.map g = m.steps.map g ∧
      (m.addImage step vision).totalSteps = m.totalSteps := by
  cases vision with
  | off | skipped _ => exact ⟨rfl, rfl⟩
  | fetched image => exact ⟨map_updateFirst g step (fun s => hg s image) m.steps, rfl⟩

namespace Session

/-- A session right after RegisterSession. In cloud mode the upload of the first
metadata may fail. -/
def start (uploaded : Bool) : Session where
  registered := true
  stored := if uploaded then some .initial else none
  files _ := none
  maps := .new
  loops := []
  handle := none
  nextLoop := 0

def setLoop (s : Session) (l : WatchLoop) : Session :=
  { s with loops := s.loops.map fun k => if k.id = l.id then l else k }

def dropLoop (s : Session) (id : Nat) : Session :=
  { s with loops := s.loops.filter fun k => k.id ≠ id }

def loop? (s : Session) (id : Nat) : Option WatchLoop := s.loops.find? fun k => k.id = id

/-- Drain the counts into the metadata of a loop and store it. The metadata in
memory keeps the counts when the write fails. -/
def flush (s : Session) (m : SessionMetadata) (flushed : Bool) : SessionMetadata × Session :=
  let (m, maps) := m.drain s.maps
  (m, { s with maps := maps, stored := if flushed then some m else s.stored })

/-- A loop begins by loading the stored metadata. -/
def startWatch (ctx : Context) (s : Session) : Session :=
  if s.registered then
    match s.stored with
    | none => s
    | some m =>
        let l : WatchLoop := ⟨s.nextLoop, .connecting, m, 0, .new ctx.isCloudPrimary⟩
        { s with loops := s.loops ++ [l], nextLoop := s.nextLoop + 1 }
  else s

def connect (s : Session) (l : WatchLoop) (connected flushed : Bool) : Session :=
  if connected then
    let (m, s) := { s with handle := some l.id }.flush (l.metadata.setInProgress "capturing") flushed
    s.setLoop { l with phase := .running, metadata := m }
  else s.dropLoop l.id

/-- In local mode every step is flushed. -/
def flushIfDue (ctx : Context) (s : Session) (l : WatchLoop) (flushed : Bool) :
    WatchLoop × Session × Bool :=
  let n := l.stepsSinceFlush + 1
  if ctx.isCloudPrimary = false ∨ max ctx.flushInterval 1 ≤ n then
    let (m, s) := s.flush l.metadata flushed
    ({ l with metadata := m, stepsSinceFlush := 0 }, s, flushed)
  else ({ l with stepsSinceFlush := n }, s, true)

/-- One event of the stream. An event that could not be written is no step. -/
def event (ctx : Context) (s : Session) (l : WatchLoop) (input : EventInput) : Session :=
  let e := input.event
  let m := l.metadata.recordAgentVersion e.agentVersion
  if e.actionType = "position" then s.setLoop { l with metadata := m }
  else
    let m := m.updateKafkaPosition input.kafka
    match l.writer.writeEvent ctx.toCcCommand input.now input.failure e
        (ctx.toHumanReadable e).toList s.files with
    | (writer, files, none) =>
        { s with files := files }.setLoop { l with metadata := m, writer := writer }
    | (writer, files, some step) =>
        let m := (m.appendStep (stepEntry ctx step e)).addImage step input.image
        let (l, s, ok) :=
          { s with files := files }.flushIfDue ctx { l with metadata := m, writer := writer }
            input.flushed
        let files := if ok then (writer.flushToCloud input.fault s.files).1 else s.files
        { s with files := files }.setLoop l

/-- A loop leaves: cleanly when its done handle has been used or dropped, or
because the stream broke. What no flush has taken is thrown away. -/
def leave (s : Session) (l : WatchLoop) (doneCleanly : Bool) : Session :=
  if doneCleanly ∧ s.handle = some l.id then s
  else { s with maps := s.maps.removeSession }.setLoop { l with phase := .leaving doneCleanly }

/-- The end of a loop. It takes the done handle of the session with it, whichever
loop that belongs to. -/
def finish (ctx : Context) (s : Session) (l : WatchLoop) (doneCleanly : Bool) (fault : Option Nat)
    (flushed : Bool) : Session :=
  let stopped (m : SessionMetadata) : Session :=
    let (_, s) := { s with files := (l.writer.finalise fault s.files).1 }.flush m flushed
    s
  let s :=
    if doneCleanly then stopped l.metadata.markComplete.clearInProgress
    else if ctx.isCloudPrimary then stopped (l.metadata.markIncomplete.setInProgress "interrupted")
    else { s with stored := if flushed then s.stored.map .markIncomplete else s.stored }
  { s with handle := none }.dropLoop l.id

/-- Done without a handle in the map: a new writer is finalised. In cloud mode
there is no local metadata, so the drained counts go nowhere. -/
def doneDirect (ctx : Context) (s : Session) (input : DoneInput) : Session :=
  let (c, maps) := s.maps.drainTokens
  let (providers, maps) := maps.drainProviderTokens
  let stored :=
    if ctx.isCloudPrimary = false ∧ input.tokensWritten then s.stored.map (·.addTokens c providers)
    else s.stored
  let files := ((CommandWriter.new ctx.isCloudPrimary).finalise input.fault s.files).1
  let stored := if input.completed then stored.map .markComplete else stored
  let stored :=
    if (if ctx.isCloudPrimary then input.completed else input.cleared) then
      stored.map .clearInProgress
    else stored
  { s with stored := stored, files := files, maps := maps.removeSession }

def done (ctx : Context) (s : Session) (input : DoneInput) : Session :=
  match s.handle with
  | some _ => { s with handle := none }
  | none => if s.registered then s.doneDirect ctx input else s

/-- A result counts once its entry has been written. -/
def reasoningResult (s : Session) (r : ReasoningResult) (written : Bool) : Session :=
  if s.registered ∧ written then
    { s with maps := (s.maps.addTokens r.counts).addProviderTokens r.provider r.counts }
  else s

def step (ctx : Context) (s : Session) : Input → Session
  | .startWatch => s.startWatch ctx
  | .connect id connected flushed =>
      match s.loop? id with
      | some l => if l.phase = .connecting then s.connect l connected flushed else s
      | none => s
  | .event id input =>
      match s.loop? id with
      | some l => if l.phase = .running then s.event ctx l input else s
      | none => s
  | .leave id doneCleanly =>
      match s.loop? id with
      | some l => if l.phase = .running then s.leave l doneCleanly else s
      | none => s
  | .finish id fault flushed =>
      match s.loop? id with
      | some l =>
          match l.phase with
          | .leaving doneCleanly => s.finish ctx l doneCleanly fault flushed
          | .connecting | .running => s
      | none => s
  | .done input => s.done ctx input
  | .reasoningResult r written => s.reasoningResult r written

theorem mem_setLoop {s : Session} {l k : WatchLoop} (h : k ∈ (s.setLoop l).loops) :
    k = l ∨ k ∈ s.loops := by
  obtain ⟨j, hj, rfl⟩ := List.mem_map.mp h
  by_cases hid : j.id = l.id
  · rw [if_pos hid]
    exact .inl rfl
  · rw [if_neg hid]
    exact .inr hj

theorem mem_dropLoop {s : Session} {id : Nat} {k : WatchLoop} (h : k ∈ (s.dropLoop id).loops) :
    k ∈ s.loops :=
  (List.mem_filter.mp h).1

theorem loop?_mem {s : Session} {id : Nat} {l : WatchLoop} (h : s.loop? id = some l) :
    l ∈ s.loops ∧ l.id = id := by
  have hid : decide (l.id = id) = true :=
    List.find?_some (p := fun k : WatchLoop => decide (k.id = id)) h
  exact ⟨List.mem_of_find?_eq_some h, of_decide_eq_true hid⟩

theorem self_mem_setLoop {s : Session} {l k : WatchLoop} (hk : k ∈ s.loops) (hid : k.id = l.id) :
    l ∈ (s.setLoop l).loops := by
  refine List.mem_map.mpr ⟨k, hk, ?_⟩
  rw [if_pos hid]

end Session

theorem setLoop_single {s : Session} {l l' : WatchLoop} (h : s.loops = [l]) (hid : l.id = l'.id) :
    (s.setLoop l').loops = [l'] := by
  simp [Session.setLoop, h, hid]

theorem dropLoop_single {s : Session} {l : WatchLoop} (h : s.loops = [l]) :
    (s.dropLoop l.id).loops = [] := by
  simp [Session.dropLoop, h]

theorem loop?_single {s : Session} {l k : WatchLoop} {id : Nat} (h : s.loops = [l])
    (hk : s.loop? id = some k) : k = l := by
  have hmem := (Session.loop?_mem hk).1
  rw [h] at hmem
  exact List.mem_singleton.mp hmem

/-- A flush changes the counts of the metadata only. -/
theorem flushIfDue_kept (ctx : Context) (s : Session) (l : WatchLoop) (flushed : Bool) :
    (s.flushIfDue ctx l flushed).1.id = l.id ∧ (s.flushIfDue ctx l flushed).1.phase = l.phase ∧
      (s.flushIfDue ctx l flushed).1.writer = l.writer ∧
      (s.flushIfDue ctx l flushed).1.metadata.steps = l.metadata.steps ∧
      (s.flushIfDue ctx l flushed).2.1.loops = s.loops ∧
      (s.flushIfDue ctx l flushed).2.1.files = s.files := by
  rw [Session.flushIfDue]
  dsimp only
  split
  · exact ⟨rfl, rfl, rfl, rfl, rfl, rfl⟩
  · exact ⟨rfl, rfl, rfl, rfl, rfl, rfl⟩

/-- Cloud mode, with a flush of the metadata after every step. -/
def cloudContext : Context := ⟨true, 1, fun e => e.rawCommand, fun e => e.rawCommand⟩

end MemoryArchive.Capture
