import MemoryArchive.Capture.Alignment
import MemoryArchive.Capture.Recovery
import MemoryArchive.Capture.Refinalise

namespace MemoryArchive.Capture.Handover

open Runs Refinalise

/-- What a watch loop takes its events from. The Kafka consumer sends them to it through a channel. -/
inductive Source
  | grpc
  | kafka (capacity : Nat)

structure KafkaEvent where
  event : CommandEvent
  part : Int32
  offset : Int64

/-- An event in the channel, and whether it was accepted before Done was received. -/
structure Queued where
  sent : KafkaEvent
  early : Bool

/-- A watch loop with its event source and the Done that ends it: whether the session map has the
sender of the channel, the event that the consumer has found a sender for, the events handed to
the session before Done was received, and the count that Done is answered with. -/
structure LiveWatch where
  session : Session
  source : Source
  routed : Bool
  inHand : Option KafkaEvent
  queue : List Queued
  signalled : Bool
  handed : List CommandEvent
  answer : Option UInt32

/-- The consumer looks up the sender of an event and tries to send it; the loop takes an event,
sees its source end, its image server go down or its done signal, takes its sender out of
the map, and finishes; the client sends Done. -/
inductive Act
  | route (e : KafkaEvent)
  | send
  | yield (event : CommandEvent) (now : Text) (image : Vision)
  | take (now : Text) (image : Vision)
  | sourceEnds
  | eyesDown
  | done
  | leaveDone
  | unroute
  | finish

/-- The writes of an event all succeed. -/
def eventInput (event : CommandEvent) (kafka : Option (Int32 × Int64)) (now : Text) (image : Vision) :
    EventInput where
  event := event
  now := now
  failure _ := none
  image := image
  kafka := kafka
  flushed := true
  fault := none

namespace LiveWatch

/-- The loop of a session right after its event source has come up. -/
def start (ctx : Context) (source : Source) (m : SessionMetadata) (files : Files) (maps : ReasoningMaps) :
    LiveWatch where
  session := ⟨true, some m, files, maps, [⟨0, .running, m, 0, .new ctx.isCloudPrimary⟩], some 0, 1⟩
  source := source
  routed := match source with
    | .grpc => false
    | .kafka _ => true
  inHand := none
  queue := []
  signalled := false
  handed := []
  answer := none

def running (s : LiveWatch) : Option WatchLoop := (s.session.loop? 0).filter fun l => l.phase = .running

/-- What `try_send` puts into the channel: nothing when it is full or closed. -/
def accepts (s : LiveWatch) : Option Queued :=
  match s.source, s.inHand with
  | .kafka capacity, some e =>
      if s.session.loops.isEmpty = false ∧ s.queue.length < capacity then some ⟨e, !s.signalled⟩ else none
  | _, _ => none

def send (s : LiveWatch) : LiveWatch :=
  match s.inHand with
  | none => s
  | some e =>
      match s.accepts with
      | some q =>
          { s with
            inHand := none
            queue := s.queue ++ [q]
            handed := if q.early then s.handed ++ [e.event] else s.handed }
      | none => { s with inHand := none, routed := false }

def leave (ctx : Context) (s : LiveWatch) (doneCleanly : Bool) : LiveWatch :=
  { s with session := s.session.step ctx (.leave 0 doneCleanly) }

def record (ctx : Context) (s : LiveWatch) (input : EventInput) : LiveWatch :=
  { s with session := s.session.step ctx (.event 0 input) }

def step (ctx : Context) (s : LiveWatch) : Act → LiveWatch
  | .route e => if s.routed ∧ s.inHand.isNone then { s with inHand := some e } else s
  | .send => s.send
  | .yield event now image =>
      match s.source, s.running with
      | .grpc, some _ =>
          { s.record ctx (eventInput event none now image) with
            handed := if s.signalled then s.handed else s.handed ++ [event] }
      | _, _ => s
  | .take now image =>
      match s.queue, s.running with
      | q :: queue, some _ =>
          { s.record ctx (eventInput q.sent.event (some (q.sent.part, q.sent.offset)) now image) with
            queue := queue }
      | _, _ => s
  | .sourceEnds =>
      match s.source with
      | .grpc => s.leave ctx false
      | .kafka _ =>
          if s.routed = false ∧ s.inHand.isNone ∧ s.queue.isEmpty then s.leave ctx false else s
  | .eyesDown => s.leave ctx false
  | .done =>
      match s.session.handle with
      | some _ => { s with session := { s.session with handle := none }, signalled := true }
      | none => s
  | .leaveDone => if s.signalled then s.leave ctx true else s
  | .unroute => if s.running.isNone then { s with routed := false } else s
  | .finish =>
      match s.session.loop? 0 with
      | some l =>
          match l.phase with
          | .leaving _ =>
              if s.routed then s
              else
                { s with
                  session := s.session.step ctx (.finish 0 none true)
                  answer := if s.signalled then some l.writer.stepCounter else none }
          | .connecting | .running => s
      | none => s

end LiveWatch

/-- The events that are recorded as steps. -/
def stepsOf (es : List CommandEvent) : List CommandEvent := es.filter fun e => e.actionType ≠ "position"

def rowsOf (ctx : Context) (file : CommandFile) (ws : List Written) : Text :=
  (ws.zipIdx 1).flatMap fun (w, n) => fileLine ctx.toCcCommand file w n

/-- A command file ends with these events: the rows of a table, the entries of a JSON file. -/
def EndsWith (ctx : Context) (file : CommandFile) (content : Option Text) (ws : List Written) : Prop :=
  match file with
  | .rawInput | .convertedInput => ∃ before, content.getD [] = before ++ rowsOf ctx file ws
  | .actuationCommands => ∃ before, entriesOf content = some (before ++ eventValues ws)
  | .ccCommands => ∃ before, entriesOf content = some (before ++ ccValues ctx.toCcCommand ws)

/-- What holds when Done is answered with a count: the metadata and the command files have gained
the same steps, the events handed over before Done are among them, and the count
is the total of the metadata. -/
def Delivered (ctx : Context) (m : SessionMetadata) (s : LiveWatch) (count : UInt32) : Prop :=
  ∃ m' ws, s.session.stored = some m' ∧ count = m'.totalSteps ∧
    m'.steps.map StepEntry.bare = m.steps.map StepEntry.bare ++ numberedSteps ctx (ws.map Written.event) ∧
    (∀ file, EndsWith ctx file (s.session.files file) ws) ∧
    (stepsOf s.handed).Sublist (ws.map Written.event)

/-- The step events in the channel that were accepted before Done. -/
def LiveWatch.waiting (s : LiveWatch) : List CommandEvent :=
  stepsOf ((s.queue.filter Queued.early).map fun q => q.sent.event)

/-- The loop leaves when no step event from before Done waits in the channel, and none is accepted
after it has left. -/
def Drained (s : LiveWatch) : Act → Prop
  | .leaveDone => s.running.isSome → s.signalled = true → s.waiting = []
  | .eyesDown => s.running.isSome → s.waiting = []
  | .send => s.running = none → ∀ q ∈ s.accepts, q.early = true → stepsOf [q.sent.event] = []
  | _ => True

section Texts

variable {toCcCommand : CommandEvent → String}

/-- A file that has gained the lines of these events. -/
def gained (toCcCommand : CommandEvent → String) (file : CommandFile) (content : Option Text)
    (ws : List Written) : Option Text :=
  match ws with
  | [] => content
  | w :: _ =>
      some (content.getD (file.header w.now) ++
        (ws.zipIdx 1).flatMap fun (w, n) => fileLine toCcCommand file w n)

theorem gained_append (file : CommandFile) (content : Option Text) (ws : List Written) (w : Written) :
    gained toCcCommand file content (ws ++ [w]) =
      some ((gained toCcCommand file content ws).getD [] ++
        ((if (gained toCcCommand file content ws).isNone then file.header w.now else []) ++
          fileLine toCcCommand file w (ws.length + 1))) := by
  cases ws with
  | nil => cases content <;> simp [gained]
  | cons v ws => simp [gained, List.zipIdx_append, Nat.add_comm, Nat.add_left_comm]

theorem fileText_rows (ctx : Context) (file : CommandFile) (ws : List Written) :
    ∃ before, fileText ctx.toCcCommand file ws = before ++ rowsOf ctx file ws :=
  ⟨_, rfl⟩

theorem gained_rows (ctx : Context) (file : CommandFile) (content : Option Text) (ws : List Written) :
    ∃ before, (gained ctx.toCcCommand file content ws).getD [] = before ++ rowsOf ctx file ws := by
  cases ws with
  | nil => exact ⟨content.getD [], (List.append_nil _).symm⟩
  | cons w ws => exact ⟨_, rfl⟩

/-- A file without a header has just the lines of its events. -/
theorem fileText_lines {file : CommandFile} (hheader : ∀ now, file.header now = []) (ws : List Written) :
    fileText toCcCommand file ws = (ws.zipIdx 1).flatMap fun (w, n) => fileLine toCcCommand file w n := by
  have hempty : ws.head?.elim [] (fun w => file.header w.now) = [] := by
    cases ws with
    | nil => rfl
    | cons w ws => exact hheader w.now
  rw [fileText, hempty]
  rfl

/-- The lines of the events follow those that a JSON file has. -/
theorem gained_lines {file : CommandFile} (hheader : ∀ now, file.header now = []) (old : List Json)
    {js : List Json} {ws : List Written} (htext : fileText toCcCommand file ws = Json.render .compact js)
    (hlength : js.length = ws.length) :
    gained toCcCommand file (linesOf old) ws = linesOf (old ++ js) := by
  cases ws with
  | nil =>
    rw [List.eq_nil_of_length_eq_zero hlength, List.append_nil]
    rfl
  | cons w ws =>
    have hne : old ++ js ≠ [] := by
      refine List.append_ne_nil_of_right_ne_nil old ?_
      rintro rfl
      cases hlength
    have hold : (linesOf old).getD (file.header w.now) = Json.render .compact old := by
      rw [hheader, linesOf]
      cases old <;> rfl
    rw [gained, hold, ← fileText_lines hheader, htext, ← render_append, linesOf,
      if_neg (mt List.isEmpty_iff.mp hne)]

theorem gained_actuation (old : List Json) (ws : List Written) :
    gained toCcCommand .actuationCommands (linesOf old) ws =
      linesOf (old ++ ws.map fun w => w.event.toJson) :=
  gained_lines (fun _ => rfl) old (fileText_actuation ws) (List.length_map _)

theorem gained_cc (old : List Json) (ws : List Written) :
    gained toCcCommand .ccCommands (linesOf old) ws =
      linesOf (old ++ (ws.zipIdx 1).map fun (w, n) => ccEntry toCcCommand w n) :=
  gained_lines (fun _ => rfl) old (fileText_cc ws) (by rw [List.length_map, List.length_zipIdx])

theorem objects_actuation (ws : List Written) : Objects (ws.map fun w => w.event.toJson) := by
  intro j hj
  obtain ⟨w, -, rfl⟩ := List.mem_map.mp hj
  exact ⟨_, rfl⟩

theorem objects_cc (ws : List Written) :
    Objects ((ws.zipIdx 1).map fun (w, n) => ccEntry toCcCommand w n) := by
  intro j hj
  obtain ⟨w, -, rfl⟩ := List.mem_map.mp hj
  exact ⟨_, rfl⟩

theorem objects_append {js ks : List Json} (hjs : Objects js) (hks : Objects ks) : Objects (js ++ ks) := by
  intro j hj
  obtain hj | hj := List.mem_append.mp hj
  · exact hjs j hj
  · exact hks j hj

theorem entriesOf_render {js : List Json} (hjs : Objects js) :
    entriesOf (some (Json.render .compact js)) = some (values js) := by
  cases js with
  | nil => rfl
  | cons j js => exact entriesOf_linesOf hjs

theorem values_append (js ks : List Json) : values (js ++ ks) = values js ++ values ks := List.map_append

theorem values_actuation (ws : List Written) : values (ws.map fun w => w.event.toJson) = eventValues ws :=
  List.map_map

theorem values_cc (ws : List Written) :
    values ((ws.zipIdx 1).map fun (w, n) => ccEntry toCcCommand w n) = ccValues toCcCommand ws :=
  List.map_map

end Texts

section Sessions

variable {ctx : Context} {m₀ : SessionMetadata} {old : Files} {ws : List Written} {s : Session}
  {l : WatchLoop}

/-- The metadata has gained the steps of these events. -/
structure Gains (ctx : Context) (m₀ m : SessionMetadata) (ws : List Written) : Prop where
  steps : m.steps.map StepEntry.bare = m₀.steps.map StepEntry.bare ++
    numberedSteps ctx (ws.map Written.event)
  total : m.totalSteps = m₀.totalSteps + .ofNat ws.length

/-- The loop has recorded these events: in cloud mode they are in its buffers, in local mode in
the stored metadata and the files. -/
structure Recorded (ctx : Context) (m₀ : SessionMetadata) (old : Files) (ws : List Written) (s : Session)
    (l : WatchLoop) : Prop where
  mode : l.writer.isCloudPrimary = ctx.isCloudPrimary
  counter : l.writer.stepCounter = .ofNat ws.length
  gains : Gains ctx m₀ l.metadata ws
  buffered : ctx.isCloudPrimary = true → Buffered ctx.toCcCommand ws ⟨l.writer, s.files⟩
  stored : ctx.isCloudPrimary = false → ∃ m, s.stored = some m ∧ Gains ctx m₀ m ws
  files : ctx.isCloudPrimary = false → ∀ file, s.files file = gained ctx.toCcCommand file (old file) ws

theorem Gains.congr {m m' : SessionMetadata} (h : Gains ctx m₀ m ws) (hsteps : m'.steps = m.steps)
    (htotal : m'.totalSteps = m.totalSteps) : Gains ctx m₀ m' ws :=
  ⟨by rw [hsteps, h.steps], by rw [htotal, h.total]⟩

theorem Gains.addImage {m : SessionMetadata} (h : Gains ctx m₀ m ws) (stepId : UInt32) (image : Vision) :
    Gains ctx m₀ (m.addImage stepId image) ws := by
  obtain ⟨hsteps, htotal⟩ := m.map_addImage StepEntry.bare (fun _ _ => rfl) stepId image
  exact ⟨hsteps.trans h.steps, htotal.trans h.total⟩

theorem Gains.appendStep {m : SessionMetadata} (h : Gains ctx m₀ m ws) (w : Written) {stepId : UInt32}
    (hid : stepId = .ofNat (ws.length + 1)) :
    Gains ctx m₀ (m.appendStep (stepEntry ctx stepId w.event)) (ws ++ [w]) where
  steps := by
    have hlength : (ws.map Written.event).length = ws.length := List.length_map _
    rw [List.map_append, List.map_singleton, numberedSteps_append, hlength, ← List.append_assoc, ← h.steps,
      ← hid]
    exact List.map_append
  total := by
    change m.totalSteps + 1 = _
    rw [h.total, List.length_append, UInt32.add_assoc, counter_succ]
    rfl

/-- A flush of the loop keeps what it has recorded, and in local mode stores it. -/
theorem flushIfDue_gains (s : Session) (l : WatchLoop) (h : Gains ctx m₀ l.metadata ws) :
    Gains ctx m₀ (s.flushIfDue ctx l true).1.metadata ws ∧
      (s.flushIfDue ctx l true).2.1.handle = s.handle ∧
      (ctx.isCloudPrimary = false →
        ∃ m, (s.flushIfDue ctx l true).2.1.stored = some m ∧ Gains ctx m₀ m ws) := by
  rw [Session.flushIfDue]
  dsimp only
  split
  · exact ⟨h.congr rfl rfl, rfl, fun _ => ⟨_, rfl, h.congr rfl rfl⟩⟩
  · rename_i hwait
    exact ⟨h, rfl, fun hlocal => absurd (.inl hlocal) hwait⟩

/-- The loop right after an event has been written, before the flush. -/
def writtenStep (ctx : Context) (l : WatchLoop) (input : EventInput) (writer : CommandWriter) : WatchLoop :=
  let m := (l.metadata.recordAgentVersion input.event.agentVersion).updateKafkaPosition input.kafka
  let step := l.writer.stepCounter + 1
  { l with
    metadata := (m.appendStep (stepEntry ctx step input.event)).addImage step input.image
    writer := writer }

/-- An event whose writes succeed is written, and then flushed when that is due. -/
theorem event_flush (s : Session) (l : WatchLoop) (input : EventInput)
    (hpos : input.event.actionType ≠ "position") (hfailure : input.failure = fun _ => none)
    (hflushed : input.flushed = true) :
    s.event ctx l input =
      let r := Recording.step ctx.toCcCommand ⟨l.writer, s.files⟩ (.event (input.written ctx))
      let f := { s with files := r.files }.flushIfDue ctx (writtenStep ctx l input r.writer) true
      { f.2.1 with
        files :=
          if f.2.2 then (r.writer.flushToCloud input.fault f.2.1.files).1
          else f.2.1.files }.setLoop f.1 := by
  have hwrite : l.writer.writeEvent ctx.toCcCommand input.now input.failure input.event
      (ctx.toHumanReadable input.event).toList s.files =
      ((Recording.step ctx.toCcCommand ⟨l.writer, s.files⟩ (.event (input.written ctx))).writer,
        (Recording.step ctx.toCcCommand ⟨l.writer, s.files⟩ (.event (input.written ctx))).files,
        some (l.writer.stepCounter + 1)) := by
    have hstep := writeEvent_step ctx.toCcCommand l.writer input.now (fun _ => none) input.event
      (ctx.toHumanReadable input.event).toList s.files (.inr fun _ => rfl)
    rw [hfailure, ← hstep]
    rfl
  rw [Session.event]
  dsimp only
  rw [if_neg hpos, hwrite, hflushed]
  rfl

/-- A step event of the stream is recorded. -/
theorem recorded_event (h : Recorded ctx m₀ old ws s l) (hloops : s.loops = [l]) (input : EventInput)
    (hpos : input.event.actionType ≠ "position") (hfailure : input.failure = fun _ => none)
    (hflushed : input.flushed = true) :
    ∃ l', (s.event ctx l input).loops = [l'] ∧ l'.id = l.id ∧ l'.phase = l.phase ∧
      (s.event ctx l input).handle = s.handle ∧
      Recorded ctx m₀ old (ws ++ [input.written ctx]) (s.event ctx l input) l' := by
  rw [event_flush s l input hpos hfailure hflushed]
  let r := Recording.step ctx.toCcCommand ⟨l.writer, s.files⟩ (.event (input.written ctx))
  have hcounter : l.writer.stepCounter + 1 = .ofNat (ws.length + 1) := by rw [h.counter, counter_succ]
  have hrcounter : r.writer.stepCounter = .ofNat (ws ++ [input.written ctx]).length := by
    rw [List.length_append]
    refine (?_ : r.writer.stepCounter = l.writer.stepCounter + 1).trans hcounter
    exact (writeEvent_writer ctx.toCcCommand l.writer input.now (fun _ => none) input.event _ s.files).1
  have hrmode : r.writer.isCloudPrimary = ctx.isCloudPrimary := (mode_step _ _).trans h.mode
  let before : Session := { s with files := r.files }
  let written := writtenStep ctx l input r.writer
  have hm : Gains ctx m₀ ((l.metadata.recordAgentVersion input.event.agentVersion).updateKafkaPosition
      input.kafka) ws :=
    h.gains.congr ((updateKafkaPosition_steps _).1.trans (recordAgentVersion_steps _).1)
      ((updateKafkaPosition_steps _).2.trans (recordAgentVersion_steps _).2)
  have hgains : Gains ctx m₀ written.metadata (ws ++ [input.written ctx]) :=
    (hm.appendStep (input.written ctx) hcounter).addImage _ _
  obtain ⟨hid, hphase, hwriter, -, hloops', hfiles⟩ := flushIfDue_kept ctx before written true
  obtain ⟨hflushGains, hhandle, hstored⟩ := flushIfDue_gains before written hgains
  dsimp only
  generalize before.flushIfDue ctx written true = f
    at hid hphase hwriter hloops' hfiles hflushGains hhandle hstored
  refine ⟨f.1, setLoop_single (hloops'.trans hloops) hid.symm, hid, hphase, hhandle, ?_⟩
  refine ⟨(congrArg CommandWriter.isCloudPrimary hwriter).trans hrmode,
    (congrArg CommandWriter.stepCounter hwriter).trans hrcounter, hflushGains, fun hcloud => ?_, hstored,
    fun hlocal file => ?_⟩
  · have hbuffered := buffered_event (h.buffered hcloud) (input.written ctx)
    rw [hwriter]
    exact ⟨hbuffered.mode, hbuffered.counter, hbuffered.raw, hbuffered.converted, hbuffered.buf⟩
  · have hkept : (r.writer.flushToCloud input.fault f.2.1.files).1 = f.2.1.files := by
      rw [CommandWriter.flushToCloud, if_neg (by rw [hrmode, hlocal]; exact Bool.false_ne_true)]
    have hall : r.files = appendAll ctx.toCcCommand (input.written ctx) (ws.length + 1) s.files :=
      congrArg Recording.files (step_local _ (h.mode.trans hlocal) hcounter)
    have hafter : ({ f.2.1 with
        files := if f.2.2 then (r.writer.flushToCloud input.fault f.2.1.files).1 else f.2.1.files }.setLoop
          f.1).files = r.files := by
      change (if f.2.2 = true then (r.writer.flushToCloud input.fault f.2.1.files).1 else f.2.1.files) = _
      rw [hkept, ite_self]
      exact hfiles
    rw [hafter, hall, appendAll, h.files hlocal file, gained_append]

/-- A position event is no step. -/
theorem recorded_position (h : Recorded ctx m₀ old ws s l) (hloops : s.loops = [l]) (input : EventInput)
    (hpos : input.event.actionType = "position") :
    ∃ l', (s.event ctx l input).loops = [l'] ∧ l'.id = l.id ∧ l'.phase = l.phase ∧
      (s.event ctx l input).handle = s.handle ∧ Recorded ctx m₀ old ws (s.event ctx l input) l' := by
  rw [Session.event]
  dsimp only
  rw [if_pos hpos]
  refine ⟨{ l with metadata := l.metadata.recordAgentVersion input.event.agentVersion },
    setLoop_single hloops rfl, rfl, rfl, rfl, h.mode, h.counter, ?_, h.buffered, h.stored, h.files⟩
  exact h.gains.congr (recordAgentVersion_steps _).1 (recordAgentVersion_steps _).2

/-- What a session has when its loop has finished. -/
structure Finished (ctx : Context) (m₀ : SessionMetadata) (ws : List Written) (s : Session) : Prop where
  gains : ∃ m, s.stored = some m ∧ Gains ctx m₀ m ws
  files : ∀ file, EndsWith ctx file (s.files file) ws

/-- The JSON files of a session that has not been finalised hold lines of objects. -/
def Unfinalised (old : Files) : Prop :=
  (∃ js, Objects js ∧ old .actuationCommands = linesOf js) ∧ ∃ js, Objects js ∧ old .ccCommands = linesOf js

theorem endsWith_buffers (h : Buffered ctx.toCcCommand ws ⟨l.writer, s.files⟩) (file : CommandFile) :
    EndsWith ctx file (some (l.writer.buf file)) ws := by
  have htext : l.writer.buf file = fileText ctx.toCcCommand file ws := h.buf file
  rw [htext]
  cases file with
  | rawInput | convertedInput => exact fileText_rows ctx _ ws
  | actuationCommands =>
    refine ⟨[], ?_⟩
    rw [fileText_actuation, entriesOf_render (objects_actuation ws), values_actuation]
    rfl
  | ccCommands =>
    refine ⟨[], ?_⟩
    rw [fileText_cc, entriesOf_render (objects_cc ws), values_cc]
    rfl

theorem endsWith_gained (hold : Unfinalised old) (file : CommandFile) :
    EndsWith ctx file (gained ctx.toCcCommand file (old file) ws) ws := by
  obtain ⟨⟨js, hjs, hactuation⟩, ks, hks, hcc⟩ := hold
  cases file with
  | rawInput | convertedInput => exact gained_rows ctx _ _ ws
  | actuationCommands =>
    refine ⟨values js, ?_⟩
    rw [hactuation, gained_actuation, entriesOf_linesOf (objects_append hjs (objects_actuation ws)),
      values_append, values_actuation]
  | ccCommands =>
    refine ⟨values ks, ?_⟩
    rw [hcc, gained_cc, entriesOf_linesOf (objects_append hks (objects_cc ws)), values_append, values_cc]

/-- `finalise` in a directory keeps the entries of both JSON files. -/
theorem finalise_entries {w : CommandWriter} {files : Files} (hmode : w.isCloudPrimary = false)
    {js ks : List Json} (hjs : Objects js) (hks : Objects ks)
    (hactuation : files .actuationCommands = linesOf js)
    (hcc : files .ccCommands = linesOf ks) (file : CommandFile) :
    (w.finalise none files).1 file =
      match file with
      | .rawInput | .convertedInput => files file
      | .actuationCommands => some (arrayOf js)
      | .ccCommands => some (arrayOf ks) := by
  have hfirst := convert_linesOf hjs hactuation
  have hsecond : CommandWriter.finaliseJsonlFile false .ccCommands
      (Function.update files .actuationCommands (some (arrayOf js))) = _ := convert_linesOf hks hcc
  have hresult : w.finalise none files = _ := finalise_whole hmode ⟨nofun, nofun⟩
  rw [andThen, hfirst] at hresult
  rw [hresult.trans hsecond]
  cases file with
  | rawInput | convertedInput | actuationCommands | ccCommands => rfl

/-- Where every put succeeds, a cloud `finalise` ends with the buffers. -/
theorem finalise_buffers (h : Buffered ctx.toCcCommand ws ⟨l.writer, s.files⟩) (file : CommandFile) :
    (l.writer.finalise none s.files).1 file = some (l.writer.buf file) := by
  have hactuation : l.writer.actuationBuf = _ := (h.buf .actuationCommands).trans (fileText_actuation ws)
  have hcc : l.writer.ccBuf = _ := (h.buf .ccCommands).trans (fileText_cc ws)
  obtain ⟨items, hitems⟩ := Refinalise.bufEntries_render (objects_actuation ws)
  have hobjects : Objects ((ws.zipIdx 1).map fun (w, n) => ccEntry ctx.toCcCommand w n) := objects_cc ws
  obtain ⟨ccItems, hccItems⟩ := Refinalise.bufEntries_render hobjects
  have hok : (l.writer.finaliseCloud none s.files).2 = true := by
    rw [CommandWriter.finaliseCloud, hactuation, hcc, hitems, hccItems]
    exact runPuts_ok s.files (by rintro _ ⟨⟩)
  rw [CommandWriter.finalise, if_pos h.mode]
  exact finaliseCloud_files hok file

/-- Where the command files have been finalised, they end with the recorded events. -/
theorem endsWith_finalise (h : Recorded ctx m₀ old ws s l)
    (hold : ctx.isCloudPrimary = false → Unfinalised old)
    (file : CommandFile) : EndsWith ctx file ((l.writer.finalise none s.files).1 file) ws := by
  cases hmode : ctx.isCloudPrimary with
  | true =>
    rw [finalise_buffers (h.buffered hmode)]
    exact endsWith_buffers (h.buffered hmode) file
  | false =>
    obtain ⟨⟨js, hjs, hactuation⟩, ks, hks, hcc⟩ := hold hmode
    have hactuation' : s.files .actuationCommands = _ := (h.files hmode _).trans
      (hactuation ▸ gained_actuation js ws)
    have hcc' : s.files .ccCommands = _ := (h.files hmode _).trans (hcc ▸ gained_cc ks ws)
    rw [finalise_entries (h.mode.trans hmode) (objects_append hjs (objects_actuation ws))
      (objects_append hks (objects_cc ws)) hactuation' hcc']
    cases file with
    | rawInput | convertedInput =>
      dsimp only
      rw [h.files hmode]
      exact gained_rows ctx _ _ ws
    | actuationCommands =>
      refine ⟨values js, ?_⟩
      rw [entriesOf_arrayOf, values_append, values_actuation]
    | ccCommands =>
      refine ⟨values ks, ?_⟩
      rw [entriesOf_arrayOf, values_append, values_cc]

theorem finished_finish (h : Recorded ctx m₀ old ws s l)
    (hold : ctx.isCloudPrimary = false → Unfinalised old)
    (doneCleanly : Bool) : Finished ctx m₀ ws (s.finish ctx l doneCleanly none true) := by
  have hfiles := endsWith_finalise h hold
  rw [Session.finish]
  dsimp only
  cases doneCleanly with
  | true => exact ⟨⟨_, rfl, h.gains.congr rfl rfl⟩, hfiles⟩
  | false =>
    cases hmode : ctx.isCloudPrimary with
    | true => exact ⟨⟨_, rfl, h.gains.congr rfl rfl⟩, hfiles⟩
    | false =>
      obtain ⟨m, hm, hgains⟩ := h.stored hmode
      refine ⟨⟨m.markIncomplete, ?_, hgains.congr rfl rfl⟩, fun file => ?_⟩
      · change s.stored.map SessionMetadata.markIncomplete = _
        rw [hm]
        rfl
      · change EndsWith ctx file (s.files file) ws
        rw [h.files hmode]
        exact endsWith_gained (hold hmode) file

end Sessions

section Watches

variable {ctx : Context} {m₀ : SessionMetadata} {old : Files} {ws : List Written} {s : LiveWatch}
  {l : WatchLoop}

/-- The recorded events and those that wait are, in this order, the events handed over before Done
and later ones. None of the later ones is recorded while an earlier one waits. -/
def InOrder (ws : List Written) (s : LiveWatch) : Prop :=
  ∃ late, ws.map Written.event ++ s.waiting = stepsOf s.handed ++ late ∧
    (late ≠ [] → s.signalled = true ∧ ∀ q ∈ s.queue, q.early = false)

/-- The channel lists the events from before Done first. -/
structure Channel (s : LiveWatch) : Prop where
  sorted : s.queue.Pairwise fun p q => q.early = true → p.early = true
  early : s.signalled = false → ∀ q ∈ s.queue, q.early = true
  grpc : s.source = .grpc → s.queue = []

/-- The loop has recorded the events, or it had when it finished. -/
def Stands (ctx : Context) (m₀ : SessionMetadata) (old : Files) (ws : List Written) (s : LiveWatch) :
    Prop :=
  (∃ l, s.session.loops = [l] ∧ l.id = 0 ∧ Recorded ctx m₀ old ws s.session l ∧ s.answer = none) ∨
    s.session.loops = [] ∧ Finished ctx m₀ ws s.session ∧ ∀ n, s.answer = some n → n = .ofNat ws.length

def Sound (ctx : Context) (m₀ : SessionMetadata) (old : Files) (s : LiveWatch) : Prop :=
  Channel s ∧ (s.signalled = true → s.session.handle = none) ∧ ∃ ws, Stands ctx m₀ old ws s ∧ InOrder ws s

theorem sound_start (source : Source) (maps : ReasoningMaps) :
    Sound ctx m₀ old (.start ctx source m₀ old maps) := by
  have hgains : Gains ctx m₀ m₀ [] := ⟨(List.append_nil _).symm, (UInt32.add_zero _).symm⟩
  refine ⟨⟨.nil, fun _ q hq => (List.not_mem_nil hq).elim, fun _ => rfl⟩, nofun, [], .inl ?_, [], rfl,
    fun h => (h rfl).elim⟩
  refine ⟨_, rfl, rfl, ⟨rfl, rfl, hgains, fun hcloud => ?_, fun _ => ⟨m₀, rfl, hgains⟩, fun _ _ => rfl⟩,
    rfl⟩
  exact ⟨hcloud, rfl, rfl, rfl, fun file => by cases file <;> rfl⟩

theorem loop?_of {s : Session} (hloops : s.loops = [l]) (hid : l.id = 0) : s.loop? 0 = some l := by
  rw [Session.loop?, hloops, List.find?_cons, hid]
  rfl

theorem running_of (hloops : s.session.loops = [l]) (hid : l.id = 0) :
    s.running = if l.phase = .running then some l else none := by
  rw [LiveWatch.running, loop?_of hloops hid, Option.filter_some]
  simp only [decide_eq_true_eq]

theorem running_none (hloops : s.session.loops = []) : s.running = none := by
  rw [LiveWatch.running, Session.loop?, hloops]
  rfl

/-- A running loop is the only one. -/
theorem Stands.running (h : Stands ctx m₀ old ws s) (hrunning : s.running = some l) :
    s.session.loops = [l] ∧ l.id = 0 ∧ l.phase = .running ∧ Recorded ctx m₀ old ws s.session l ∧
      s.answer = none := by
  obtain ⟨k, hloops, hid, hrecorded, hanswer⟩ | ⟨hloops, -⟩ := h
  · rw [running_of hloops hid] at hrunning
    split at hrunning
    · rename_i hphase
      cases hrunning
      exact ⟨hloops, hid, hphase, hrecorded, hanswer⟩
    · cases hrunning
  · rw [running_none hloops] at hrunning
    cases hrunning

/-- A step event that a running loop takes is recorded, a position is not. -/
theorem stands_record (h : Stands ctx m₀ old ws s) (hrunning : s.running = some l) (event : CommandEvent)
    (kafka : Option (Int32 × Int64)) (now : Text) (image : Vision) :
    ∃ ws', Stands ctx m₀ old ws' (s.record ctx (eventInput event kafka now image)) ∧
      ws'.map Written.event = ws.map Written.event ++ stepsOf [event] ∧
      (s.record ctx (eventInput event kafka now image)).session.handle = s.session.handle ∧
      (s.record ctx (eventInput event kafka now image)).running.isSome = true := by
  obtain ⟨hloops, hid, hphase, hrecorded, hanswer⟩ := h.running hrunning
  let input := eventInput event kafka now image
  have hstep : s.session.step ctx (.event 0 input) = s.session.event ctx l input := by
    rw [Session.step, loop?_of hloops hid]
    exact if_pos hphase
  have hstands : ∀ ws' l', (s.session.event ctx l input).loops = [l'] → l'.id = l.id → l'.phase = l.phase →
      Recorded ctx m₀ old ws' (s.session.event ctx l input) l' →
      Stands ctx m₀ old ws' (s.record ctx input) ∧ (s.record ctx input).running.isSome = true := by
    intro ws' l' hloops' hid' hphase' hrecorded'
    rw [← hstep] at hloops' hrecorded'
    refine ⟨.inl ⟨l', hloops', hid'.trans hid, hrecorded', hanswer⟩, ?_⟩
    have hrunning' : (s.record ctx input).running = _ := running_of hloops' (hid'.trans hid)
    rw [hrunning', if_pos (hphase'.trans hphase)]
    rfl
  have hhandle : (s.record ctx input).session.handle = (s.session.event ctx l input).handle :=
    congrArg Session.handle hstep
  by_cases hpos : event.actionType = "position"
  · obtain ⟨l', hloops', hid', hphase', hkept, hrecorded'⟩ := recorded_position hrecorded hloops input hpos
    obtain ⟨hnext, hrun⟩ := hstands ws l' hloops' hid' hphase' hrecorded'
    have hnone : stepsOf [event] = [] := by simp [stepsOf, hpos]
    exact ⟨ws, hnext, by rw [hnone, List.append_nil], hhandle.trans hkept, hrun⟩
  · obtain ⟨l', hloops', hid', hphase', hkept, hrecorded'⟩ :=
      recorded_event hrecorded hloops input hpos rfl rfl
    obtain ⟨hnext, hrun⟩ := hstands _ l' hloops' hid' hphase' hrecorded'
    have hone : stepsOf [event] = [event] := by simp [stepsOf, hpos]
    exact ⟨_, hnext, by rw [hone, List.map_append]; rfl, hhandle.trans hkept, hrun⟩

/-- The step events among those in a channel that were accepted before Done. -/
theorem waiting_append {s' : LiveWatch} {q : Queued} (hqueue : s'.queue = s.queue ++ [q]) :
    s'.waiting = s.waiting ++ if q.early then stepsOf [q.sent.event] else [] := by
  rw [LiveWatch.waiting, LiveWatch.waiting, hqueue, List.filter_append, List.map_append, stepsOf, stepsOf,
    List.filter_append]
  cases hq : q.early with
  | true => simp [hq, stepsOf]
  | false => simp [hq]

theorem waiting_cons {s' : LiveWatch} {q : Queued} (hqueue : s.queue = q :: s'.queue) :
    s.waiting = (if q.early then stepsOf [q.sent.event] else []) ++ s'.waiting := by
  rw [LiveWatch.waiting, LiveWatch.waiting, hqueue]
  cases hq : q.early with
  | true => rw [List.filter_cons_of_pos hq, List.map_cons, if_pos rfl]; exact List.filter_append [_] _
  | false =>
    rw [List.filter_cons_of_neg (by rw [hq]; exact Bool.false_ne_true), if_neg Bool.false_ne_true]
    rfl

theorem waiting_late (h : ∀ q ∈ s.queue, q.early = false) : s.waiting = [] := by
  have hnone : s.queue.filter Queued.early = [] :=
    List.filter_eq_nil_iff.mpr fun q hq => ne_true_of_eq_false (h q hq)
  rw [LiveWatch.waiting, hnone]
  rfl

/-- What is taken from the channel is in order: an event from before Done is the next of these, and
where the next is a later one none of these is left. -/
theorem InOrder.take {ws' : List Written} {s' : LiveWatch} {q : Queued} (h : InOrder ws s)
    (hchannel : Channel s)
    (hqueue : s.queue = q :: s'.queue)
    (hws : ws'.map Written.event = ws.map Written.event ++ stepsOf [q.sent.event])
    (hhanded : s'.handed = s.handed) (hsignalled : s'.signalled = s.signalled) : InOrder ws' s' := by
  obtain ⟨late, horder, hlate⟩ := h
  have hrest : ∀ r ∈ s'.queue, r ∈ s.queue := by
    rw [hqueue]
    exact fun r hr => List.mem_cons_of_mem q hr
  rw [waiting_cons hqueue] at horder
  cases hq : q.early with
  | true =>
    rw [hq, if_pos rfl, ← List.append_assoc] at horder
    refine ⟨late, ?_, fun hne => ?_⟩
    · rw [hws, hhanded, horder]
    · rw [hsignalled]
      exact ⟨(hlate hne).1, fun r hr => (hlate hne).2 r (hrest r hr)⟩
  | false =>
    have hsorted := hchannel.sorted
    rw [hqueue, List.pairwise_cons] at hsorted
    have hall : ∀ r ∈ s'.queue, r.early = false := by
      intro r hr
      refine Bool.eq_false_iff.mpr fun hearly => ?_
      rw [hsorted.1 r hr hearly] at hq
      cases hq
    have hsig : s.signalled = true := by
      by_contra hnot
      have hearly := hchannel.early (Bool.eq_false_iff.mpr hnot) q
        (by rw [hqueue]; exact List.mem_cons_self)
      rw [hearly] at hq
      cases hq
    rw [hq, if_neg Bool.false_ne_true, List.nil_append, waiting_late hall, List.append_nil] at horder
    refine ⟨late ++ stepsOf [q.sent.event], ?_, fun _ => ⟨hsignalled.trans hsig, hall⟩⟩
    rw [hws, waiting_late hall, List.append_nil, hhanded, horder, List.append_assoc]

/-- An event of the stream is the next one. -/
theorem InOrder.yield {ws' : List Written} {s' : LiveWatch} {event : CommandEvent} (h : InOrder ws s)
    (hempty : s.queue = []) (hqueue : s'.queue = [])
    (hws : ws'.map Written.event = ws.map Written.event ++ stepsOf [event])
    (hhanded : s'.handed = if s.signalled then s.handed else s.handed ++ [event])
    (hsignalled : s'.signalled = s.signalled) : InOrder ws' s' := by
  obtain ⟨late, horder, hlate⟩ := h
  have hnone : ∀ q ∈ s.queue, q.early = false := by
    rw [hempty]
    exact fun q hq => (List.not_mem_nil hq).elim
  have hnone' : ∀ q ∈ s'.queue, q.early = false := by
    rw [hqueue]
    exact fun q hq => (List.not_mem_nil hq).elim
  rw [waiting_late hnone, List.append_nil] at horder
  cases hsig : s.signalled with
  | true =>
    refine ⟨late ++ stepsOf [event], ?_, fun _ => ⟨hsignalled.trans hsig, hnone'⟩⟩
    rw [hws, waiting_late hnone', List.append_nil, hhanded, hsig, if_pos rfl, horder, List.append_assoc]
  | false =>
    have hnil : late = [] := by
      by_contra hne
      rw [(hlate hne).1] at hsig
      cases hsig
    refine ⟨[], ?_, fun hne => (hne rfl).elim⟩
    rw [hws, waiting_late hnone', List.append_nil, hhanded, hsig, if_neg Bool.false_ne_true, horder, hnil,
      List.append_nil, List.append_nil]
    exact (List.filter_append _ _).symm

/-- What does not touch the channel and what was handed over keeps the order. -/
theorem InOrder.congr {s' : LiveWatch} (h : InOrder ws s) (hqueue : s'.queue = s.queue)
    (hhanded : s'.handed = s.handed) (hsignalled : s.signalled = true → s'.signalled = true) :
      InOrder ws s' := by
  obtain ⟨late, horder, hlate⟩ := h
  have hwaiting : s'.waiting = s.waiting := by rw [LiveWatch.waiting, hqueue, LiveWatch.waiting]
  refine ⟨late, by rw [hwaiting, hhanded, horder], fun hne => ?_⟩
  rw [hqueue]
  exact ⟨hsignalled (hlate hne).1, (hlate hne).2⟩

theorem Channel.congr {s' : LiveWatch} (h : Channel s) (hqueue : s'.queue = s.queue)
    (hsource : s'.source = s.source)
    (hsignalled : s.signalled = true → s'.signalled = true) : Channel s' := by
  refine ⟨hqueue ▸ h.sorted, fun hnot q hq => ?_, fun hgrpc => ?_⟩
  · have hbefore : s.signalled = false := by
      refine Bool.eq_false_iff.mpr fun hsig => ?_
      rw [hsignalled hsig] at hnot
      cases hnot
    exact h.early hbefore q (hqueue ▸ hq)
  · rw [hqueue]
    exact h.grpc (hsource ▸ hgrpc)

/-- What `try_send` accepts joins the channel. -/
theorem accepts_spec {q : Queued} (h : s.accepts = some q) :
    s.inHand = some q.sent ∧ q.early = !s.signalled ∧ s.session.loops ≠ [] ∧ s.source ≠ .grpc := by
  rw [LiveWatch.accepts] at h
  split at h
  · rename_i capacity e hsource hinHand
    split at h
    · rename_i hopen
      cases h
      refine ⟨hinHand, rfl, fun hnil => ?_, by rw [hsource]; exact nofun⟩
      rw [hnil] at hopen
      cases hopen.1
    · cases h
  · cases h

theorem InOrder.accept {s' : LiveWatch} {q : Queued} (h : InOrder ws s) (hearly : q.early = !s.signalled)
    (hqueue : s'.queue = s.queue ++ [q])
    (hhanded : s'.handed = if q.early then s.handed ++ [q.sent.event] else s.handed)
    (hsignalled : s'.signalled = s.signalled) : InOrder ws s' := by
  obtain ⟨late, horder, hlate⟩ := h
  have hwaiting := waiting_append hqueue
  cases hsig : s.signalled with
  | true =>
    rw [hsig, Bool.not_true] at hearly
    rw [hearly, if_neg Bool.false_ne_true, List.append_nil] at hwaiting
    rw [hearly, if_neg Bool.false_ne_true] at hhanded
    refine ⟨late, by rw [hwaiting, hhanded, horder], fun hne => ⟨hsignalled.trans hsig, fun r hr => ?_⟩⟩
    rw [hqueue] at hr
    obtain hr | hr := List.mem_append.mp hr
    · exact (hlate hne).2 r hr
    · rw [List.mem_singleton.mp hr, hearly]
  | false =>
    rw [hsig, Bool.not_false] at hearly
    rw [hearly, if_pos rfl] at hwaiting hhanded
    have hnil : late = [] := by
      by_contra hne
      rw [(hlate hne).1] at hsig
      cases hsig
    refine ⟨[], ?_, fun hne => (hne rfl).elim⟩
    rw [hwaiting, hhanded, ← List.append_assoc, horder, hnil, List.append_nil, List.append_nil]
    exact (List.filter_append _ _).symm

theorem Channel.accept {s' : LiveWatch} {q : Queued} (h : Channel s) (hearly : q.early = !s.signalled)
    (hsource : s.source ≠ .grpc) (hqueue : s'.queue = s.queue ++ [q]) (hkept : s'.source = s.source)
    (hsignalled : s'.signalled = s.signalled) : Channel s' := by
  refine ⟨?_, fun hnot r hr => ?_, fun hgrpc => absurd (hkept.symm.trans hgrpc) hsource⟩
  · rw [hqueue]
    refine List.pairwise_append.mpr ⟨h.sorted, List.pairwise_singleton _ q, fun p hp r hr hr' => ?_⟩
    rw [List.mem_singleton.mp hr, hearly, Bool.not_eq_true'] at hr'
    exact h.early hr' p hp
  · rw [hsignalled] at hnot
    rw [hqueue] at hr
    obtain hr | hr := List.mem_append.mp hr
    · exact h.early hnot r hr
    · rw [List.mem_singleton.mp hr, hearly, hnot]
      rfl

theorem sound_send (h : Sound ctx m₀ old s) : Sound ctx m₀ old s.send := by
  obtain ⟨hchannel, hhandle, ws, hstands, horder⟩ := h
  rw [LiveWatch.send]
  split
  · exact ⟨hchannel, hhandle, ws, hstands, horder⟩
  · rename_i e hinHand
    split
    · rename_i q haccepts
      obtain ⟨hsent, hearly, -, hsource⟩ := accepts_spec haccepts
      cases hsent.symm.trans hinHand
      exact ⟨hchannel.accept hearly hsource rfl rfl rfl, hhandle, ws, hstands,
        horder.accept hearly rfl rfl rfl⟩
    · exact ⟨hchannel.congr rfl rfl id, hhandle, ws, hstands, horder.congr rfl rfl id⟩

/-- A loop that leaves has recorded what it had. -/
theorem stands_leave (h : Stands ctx m₀ old ws s) (doneCleanly : Bool) :
    Stands ctx m₀ old ws (s.leave ctx doneCleanly) ∧
      (s.leave ctx doneCleanly).session.handle = s.session.handle := by
  have hstep : (s.leave ctx doneCleanly).session = s.session.step ctx (.leave 0 doneCleanly) := rfl
  obtain ⟨l, hloops, hid, hrecorded, hanswer⟩ | ⟨hloops, hfinished, hanswer⟩ := h
  · rw [Session.step, loop?_of hloops hid] at hstep
    dsimp only at hstep
    split at hstep
    · rw [Session.leave] at hstep
      split at hstep
      · refine ⟨.inl ⟨l, ?_, hid, ?_, hanswer⟩, by rw [hstep]⟩
        · rw [hstep, hloops]
        · rw [hstep]
          exact hrecorded
      · refine ⟨.inl ⟨{ l with phase := .leaving doneCleanly }, ?_, hid, ?_, hanswer⟩, by rw [hstep]; rfl⟩
        · rw [hstep]
          exact setLoop_single hloops rfl
        · rw [hstep]
          exact ⟨hrecorded.mode, hrecorded.counter, hrecorded.gains, hrecorded.buffered, hrecorded.stored,
            hrecorded.files⟩
    · refine ⟨.inl ⟨l, ?_, hid, ?_, hanswer⟩, by rw [hstep]⟩
      · rw [hstep, hloops]
      · rw [hstep]
        exact hrecorded
  · have hnone : s.session.loop? 0 = none := by
      rw [Session.loop?, hloops]
      rfl
    rw [Session.step, hnone] at hstep
    refine ⟨.inr ⟨?_, ?_, hanswer⟩, by rw [hstep]⟩
    · rw [hstep, hloops]
    · rw [hstep]
      exact hfinished

theorem sound_leave (h : Sound ctx m₀ old s) (doneCleanly : Bool) :
    Sound ctx m₀ old (s.leave ctx doneCleanly) := by
  obtain ⟨hchannel, hhandle, ws, hstands, horder⟩ := h
  obtain ⟨hnext, hkept⟩ := stands_leave hstands doneCleanly
  exact ⟨hchannel.congr rfl rfl id, fun hsig => hkept.trans (hhandle hsig), ws, hnext,
    horder.congr rfl rfl id⟩

theorem sound_yield (h : Sound ctx m₀ old s) (event : CommandEvent) (now : Text) (image : Vision) :
    Sound ctx m₀ old (s.step ctx (.yield event now image)) := by
  obtain ⟨hchannel, hhandle, ws, hstands, horder⟩ := h
  rw [LiveWatch.step]
  split
  · rename_i l hsource hrunning
    obtain ⟨ws', hnext, hws, hkept, -⟩ := stands_record hstands hrunning event none now image
    have hempty := hchannel.grpc hsource
    exact ⟨hchannel.congr rfl rfl id, fun hsig => hkept.trans (hhandle hsig), ws', hnext,
      horder.yield hempty hempty hws rfl rfl⟩
  · exact ⟨hchannel, hhandle, ws, hstands, horder⟩

theorem sound_take (h : Sound ctx m₀ old s) (now : Text) (image : Vision) :
    Sound ctx m₀ old (s.step ctx (.take now image)) := by
  obtain ⟨hchannel, hhandle, ws, hstands, horder⟩ := h
  rw [LiveWatch.step]
  split
  · rename_i q queue l hqueue hrunning
    obtain ⟨ws', hnext, hws, hkept, -⟩ := stands_record hstands hrunning q.sent.event
      (some (q.sent.part, q.sent.offset)) now image
    have hsorted := hchannel.sorted
    rw [hqueue, List.pairwise_cons] at hsorted
    refine ⟨⟨hsorted.2, fun hnot r hr => ?_, fun hgrpc => ?_⟩,
      fun hsig => hkept.trans (hhandle hsig), ws', hnext,
      horder.take hchannel hqueue hws rfl rfl⟩
    · exact hchannel.early hnot r (by rw [hqueue]; exact List.mem_cons_of_mem q hr)
    · have hempty := hchannel.grpc hgrpc
      rw [hqueue] at hempty
      cases hempty
  · exact ⟨hchannel, hhandle, ws, hstands, horder⟩

theorem sound_finish (hold : ctx.isCloudPrimary = false → Unfinalised old) (h : Sound ctx m₀ old s) :
    Sound ctx m₀ old (s.step ctx .finish) := by
  obtain ⟨hchannel, hhandle, ws, hstands, horder⟩ := h
  rw [LiveWatch.step]
  split
  · rename_i l hloop
    split
    · rename_i doneCleanly hphase
      split
      · exact ⟨hchannel, hhandle, ws, hstands, horder⟩
      · obtain ⟨k, hloops, hid, hrecorded, hanswer⟩ | ⟨hloops, -⟩ := hstands
        · cases hloop.symm.trans (loop?_of hloops hid)
          have hstep : s.session.step ctx (.finish 0 none true) =
              s.session.finish ctx l doneCleanly none true := by
            rw [Session.step, hloop]
            simp only [hphase]
          have hgone : (s.session.finish ctx l doneCleanly none true).loops = [] := by
            rw [Session.finish]
            refine dropLoop_single ?_
            dsimp only
            split
            · exact hloops
            · split <;> exact hloops
          rw [hstep]
          refine ⟨hchannel.congr rfl rfl id, fun _ => rfl, ws,
            .inr ⟨hgone, finished_finish hrecorded hold doneCleanly, fun n hn => ?_⟩,
            horder.congr rfl rfl id⟩
          dsimp only at hn
          split at hn
          · cases hn
            exact hrecorded.counter
          · cases hn
        · rw [Session.loop?, hloops] at hloop
          cases hloop
    · exact ⟨hchannel, hhandle, ws, hstands, horder⟩
    · exact ⟨hchannel, hhandle, ws, hstands, horder⟩
  · exact ⟨hchannel, hhandle, ws, hstands, horder⟩

theorem sound_step (hold : ctx.isCloudPrimary = false → Unfinalised old) (h : Sound ctx m₀ old s)
    (act : Act) :
    Sound ctx m₀ old (s.step ctx act) := by
  cases act with
  | send => exact sound_send h
  | yield event now image => exact sound_yield h event now image
  | take now image => exact sound_take h now image
  | eyesDown => exact sound_leave h false
  | finish => exact sound_finish hold h
  | route e =>
    obtain ⟨hchannel, hhandle, ws, hstands, horder⟩ := h
    rw [LiveWatch.step]
    split
    · exact ⟨hchannel.congr rfl rfl id, hhandle, ws, hstands, horder.congr rfl rfl id⟩
    · exact ⟨hchannel, hhandle, ws, hstands, horder⟩
  | sourceEnds =>
    rw [LiveWatch.step]
    split
    · exact sound_leave h false
    · split
      · exact sound_leave h false
      · exact h
  | done =>
    rw [LiveWatch.step]
    split
    · obtain ⟨hchannel, -, ws, hstands, horder⟩ := h
      refine ⟨hchannel.congr rfl rfl fun _ => rfl, fun _ => rfl, ws, ?_, horder.congr rfl rfl fun _ => rfl⟩
      obtain ⟨l, hloops, hid, hrecorded, hanswer⟩ | ⟨hloops, hfinished, hanswer⟩ := hstands
      · exact .inl ⟨l, hloops, hid, ⟨hrecorded.mode, hrecorded.counter, hrecorded.gains, hrecorded.buffered,
          hrecorded.stored, hrecorded.files⟩, hanswer⟩
      · exact .inr ⟨hloops, ⟨hfinished.gains, hfinished.files⟩, hanswer⟩
    · exact h
  | leaveDone =>
    rw [LiveWatch.step]
    split
    · exact sound_leave h true
    · exact h
  | unroute =>
    obtain ⟨hchannel, hhandle, ws, hstands, horder⟩ := h
    rw [LiveWatch.step]
    split
    · exact ⟨hchannel.congr rfl rfl id, hhandle, ws, hstands, horder.congr rfl rfl id⟩
    · exact ⟨hchannel, hhandle, ws, hstands, horder⟩

/-- No step event from before Done waits for a loop that has left. -/
def Calm (s : LiveWatch) : Prop := s.running = none → s.waiting = []

theorem leave_idle (h : s.running = none) (doneCleanly : Bool) : s.leave ctx doneCleanly = s := by
  have hsame : s.session.step ctx (.leave 0 doneCleanly) = s.session := by
    rw [Session.step]
    split
    · rename_i l hloop
      split
      · rename_i hphase
        rw [LiveWatch.running, hloop, Option.filter_some, if_pos (decide_eq_true hphase)] at h
        cases h
      · rfl
    · rfl
  rw [LiveWatch.leave, hsame]

theorem leave_running (h : Stands ctx m₀ old ws s) (hrunning : s.running = some l) {doneCleanly : Bool}
    (hleaves : doneCleanly = true → s.session.handle = none) :
    (s.leave ctx doneCleanly).running = none := by
  obtain ⟨hloops, hid, hphase, -, -⟩ := h.running hrunning
  have hnot : ¬ (doneCleanly = true ∧ s.session.handle = some l.id) := by
    rintro ⟨hdone, hhandle⟩
    rw [hleaves hdone] at hhandle
    cases hhandle
  have hsession : (s.leave ctx doneCleanly).session.loops = [{ l with phase := .leaving doneCleanly }] := by
    rw [LiveWatch.leave, Session.step, loop?_of hloops hid]
    dsimp only
    rw [if_pos hphase, Session.leave, if_neg hnot]
    exact setLoop_single hloops rfl
  rw [running_of hsession hid, if_neg (by rintro ⟨⟩)]

theorem dropLoop_running (hloop : s.session.loop? 0 = some l) {doneCleanly : Bool}
    (hphase : l.phase = .leaving doneCleanly) :
    (s.session.step ctx (.finish 0 none true)).loop? 0 = none := by
  have hid := (Session.loop?_mem hloop).2
  rw [Session.step, hloop]
  simp only [hphase]
  rw [Session.loop?, List.find?_eq_none]
  intro k hk
  have hne := of_decide_eq_true (List.mem_filter.mp hk).2
  rw [hid] at hne
  simpa using hne

/-- A loop that has left does not come back, and what waits for it stays. -/
theorem idle_step (ctx : Context) (h : s.running = none) (act : Act) :
    (s.step ctx act).running = none ∧
      ((s.step ctx act).queue = s.queue ∨ act = .send ∧ ∃ q, s.accepts = some q ∧
        (s.step ctx act).queue = s.queue ++ [q]) := by
  cases act with
  | route e =>
    rw [LiveWatch.step]
    split
    · exact ⟨h, .inl rfl⟩
    · exact ⟨h, .inl rfl⟩
  | send =>
    rw [LiveWatch.step, LiveWatch.send]
    split
    · exact ⟨h, .inl rfl⟩
    · split
      · rename_i q haccepts
        exact ⟨h, .inr ⟨rfl, q, haccepts, rfl⟩⟩
      · exact ⟨h, .inl rfl⟩
  | yield event now image =>
    rw [LiveWatch.step, h]
    split
    · rename_i hrunning
      cases hrunning
    · exact ⟨h, .inl rfl⟩
  | take now image =>
    rw [LiveWatch.step, h]
    split
    · rename_i hrunning
      cases hrunning
    · exact ⟨h, .inl rfl⟩
  | sourceEnds =>
    rw [LiveWatch.step, leave_idle h]
    split
    · exact ⟨h, .inl rfl⟩
    · rw [ite_self]
      exact ⟨h, .inl rfl⟩
  | eyesDown =>
    rw [LiveWatch.step, leave_idle h]
    exact ⟨h, .inl rfl⟩
  | done =>
    rw [LiveWatch.step]
    split
    · exact ⟨h, .inl rfl⟩
    · exact ⟨h, .inl rfl⟩
  | leaveDone =>
    rw [LiveWatch.step, leave_idle h, ite_self]
    exact ⟨h, .inl rfl⟩
  | unroute =>
    rw [LiveWatch.step]
    split
    · exact ⟨h, .inl rfl⟩
    · exact ⟨h, .inl rfl⟩
  | finish =>
    rw [LiveWatch.step]
    split
    · rename_i l hloop
      split
      · rename_i doneCleanly hphase
        split
        · exact ⟨h, .inl rfl⟩
        · refine ⟨?_, .inl rfl⟩
          rw [LiveWatch.running, dropLoop_running hloop hphase]
          rfl
      · exact ⟨h, .inl rfl⟩
      · exact ⟨h, .inl rfl⟩
    · exact ⟨h, .inl rfl⟩

theorem waiting_congr {s' : LiveWatch} (h : s'.queue = s.queue) : s'.waiting = s.waiting := by
  rw [LiveWatch.waiting, h, LiveWatch.waiting]

theorem calm_before (act : Act) (h : Calm (s.step ctx act)) : Calm s := by
  intro hidle
  obtain ⟨hnext, hqueue | ⟨-, q, -, hqueue⟩⟩ := idle_step ctx hidle act
  · exact (waiting_congr hqueue).symm.trans (h hnext)
  · have hwaiting := (waiting_append hqueue).symm.trans (h hnext)
    exact (List.append_eq_nil_iff.mp hwaiting).1

theorem calm_idle (hcalm : Calm s) (hidle : s.running = none) (act : Act) :
    Calm (s.step ctx act) ↔ Drained s act := by
  have hnone := hcalm hidle
  obtain ⟨hnext, hcase⟩ := idle_step ctx hidle act
  have hnot : ¬ s.running.isSome = true := by rw [hidle]; exact Bool.false_ne_true
  have hiff : Calm (s.step ctx act) ↔ (s.step ctx act).waiting = [] := ⟨fun h => h hnext, fun h _ => h⟩
  have hkept : (s.step ctx act).queue = s.queue → Calm (s.step ctx act) := by
    intro hqueue
    rw [hiff, waiting_congr hqueue, hnone]
  cases act with
  | send =>
    obtain hqueue | ⟨-, q, haccepts, hqueue⟩ := hcase
    · refine iff_of_true (hkept hqueue) fun _ q hq _ => ?_
      have hlength : (s.step ctx .send).queue.length = s.queue.length + 1 := by
        obtain ⟨hsent, -⟩ := accepts_spec (Option.mem_def.mp hq)
        rw [LiveWatch.step, LiveWatch.send, hsent]
        dsimp only
        rw [Option.mem_def.mp hq]
        exact List.length_append
      rw [hqueue] at hlength
      omega
    · rw [hiff, waiting_append hqueue, hnone, List.nil_append, Drained, haccepts]
      constructor
      · rintro h - r hr hearly
        cases hr
        rwa [if_pos hearly] at h
      · intro h
        split
        · rename_i hearly
          exact h hidle q rfl hearly
        · rfl
  | eyesDown => exact iff_of_true (hkept (hcase.resolve_right nofun)) fun hsome => (hnot hsome).elim
  | leaveDone => exact iff_of_true (hkept (hcase.resolve_right nofun)) fun hsome => (hnot hsome).elim
  | route _ | yield _ _ _ | take _ _ | sourceEnds | done | unroute | finish =>
    exact iff_of_true (hkept (hcase.resolve_right nofun)) trivial

theorem calm_running (h : Sound ctx m₀ old s) (hrunning : s.running = some l) (act : Act) :
    Calm (s.step ctx act) ↔ Drained s act := by
  obtain ⟨hchannel, hhandle, ws, hstands, -⟩ := h
  have hbusy : ∀ s' : LiveWatch, s'.running.isSome = true → Calm s' := by
    intro s' hsome hidle
    rw [hidle] at hsome
    cases hsome
  have hsame : Calm s := hbusy s (by rw [hrunning]; rfl)
  have hempty : s.queue = [] → s.waiting = [] := by
    intro hqueue
    rw [LiveWatch.waiting, hqueue]
    rfl
  cases act with
  | route e =>
    refine iff_of_true ?_ trivial
    rw [LiveWatch.step]
    split
    · exact hbusy _ (congrArg Option.isSome hrunning)
    · exact hsame
  | send =>
    refine iff_of_true ?_ fun hidle => absurd (hrunning.symm.trans hidle) nofun
    rw [LiveWatch.step, LiveWatch.send]
    split
    · exact hsame
    · split
      · exact hbusy _ (congrArg Option.isSome hrunning)
      · exact hbusy _ (congrArg Option.isSome hrunning)
  | yield event now image =>
    refine iff_of_true ?_ trivial
    rw [LiveWatch.step]
    split
    · obtain ⟨-, -, -, -, hsome⟩ := stands_record hstands hrunning event none now image
      exact hbusy _ hsome
    · exact hsame
  | take now image =>
    refine iff_of_true ?_ trivial
    rw [LiveWatch.step]
    split
    · rename_i q queue k hqueue hk
      obtain ⟨-, -, -, -, hsome⟩ := stands_record hstands hrunning q.sent.event
        (some (q.sent.part, q.sent.offset)) now image
      exact hbusy _ hsome
    · exact hsame
  | sourceEnds =>
    refine iff_of_true ?_ trivial
    rw [LiveWatch.step]
    split
    · rename_i hsource
      exact fun _ => hempty (hchannel.grpc hsource)
    · split
      · rename_i hended
        exact fun _ => hempty (List.isEmpty_iff.mp hended.2.2)
      · exact hsame
  | eyesDown =>
    have hleft : (s.leave ctx false).running = none := leave_running hstands hrunning nofun
    exact ⟨fun hcalm _ => hcalm hleft, fun hdrained _ => hdrained (by rw [hrunning]; rfl)⟩
  | done =>
    refine iff_of_true ?_ trivial
    rw [LiveWatch.step]
    split
    · exact hbusy _ (congrArg Option.isSome hrunning)
    · exact hsame
  | leaveDone =>
    rw [LiveWatch.step, Drained]
    split
    · rename_i hsignalled
      have hleft : (s.leave ctx true).running = none :=
        leave_running hstands hrunning fun _ => hhandle hsignalled
      exact ⟨fun hcalm _ _ => hcalm hleft, fun hdrained _ => hdrained (by rw [hrunning]; rfl) hsignalled⟩
    · rename_i hsignalled
      exact iff_of_true hsame fun _ hsig => absurd hsig hsignalled
  | unroute =>
    refine iff_of_true ?_ trivial
    rw [LiveWatch.step, if_neg (by rw [hrunning]; exact Bool.false_ne_true)]
    exact hsame
  | finish =>
    refine iff_of_true ?_ trivial
    obtain ⟨hloops, hid, hphase, -, -⟩ := hstands.running hrunning
    rw [LiveWatch.step, loop?_of hloops hid]
    simp only [hphase]
    exact hsame

theorem numberedSteps_length (es : List CommandEvent) : (numberedSteps ctx es).length = es.length := by
  rw [numberedSteps, List.length_map, List.length_zipIdx]

/-- When the loop has finished, what was handed over before Done is recorded if none of it waits, and
the counts agree if the loop began with the first step. -/
theorem delivered_iff (h : Sound ctx m₀ old s) {count : UInt32} (hanswer : s.answer = some count) :
    Delivered ctx m₀ s count ↔ Calm s ∧ m₀.totalSteps = 0 := by
  obtain ⟨-, -, ws, hstands, late, horder, hlate⟩ := h
  obtain ⟨l, -, -, -, hnone⟩ | ⟨hloops, hfinished, hcount⟩ := hstands
  · cases hnone.symm.trans hanswer
  obtain ⟨m, hstored, hgains⟩ := hfinished.gains
  have hcalm : Calm s ↔ s.waiting = [] := ⟨fun h => h (running_none hloops), fun h _ => h⟩
  rw [hcalm]
  constructor
  · rintro ⟨m', ws', hstored', htotal, hsteps, -, hsublist⟩
    cases hstored.symm.trans hstored'
    have hlength : ws'.length = ws.length := by
      have hsame := congrArg List.length (hgains.steps.symm.trans hsteps)
      simp only [List.length_append, numberedSteps_length, List.length_map] at hsame
      omega
    constructor
    · have hshort : (stepsOf s.handed).length ≤ ws.length := by
        have hle := hsublist.length_le
        rwa [List.length_map, hlength] at hle
      have hall := congrArg List.length horder
      simp only [List.length_append, List.length_map] at hall
      by_cases hnil : late = []
      · rw [hnil, List.length_nil] at hall
        exact List.eq_nil_of_length_eq_zero (by omega)
      · exact waiting_late (hlate hnil).2
    · rw [hcount count hanswer, hgains.total] at htotal
      exact UInt32.right_eq_add.mp htotal
  · rintro ⟨hnone, hzero⟩
    rw [hnone, List.append_nil] at horder
    refine ⟨m, ws, hstored, ?_, hgains.steps, hfinished.files, ?_⟩
    · rw [hcount count hanswer, hgains.total, hzero, UInt32.zero_add]
    · rw [horder]
      exact List.sublist_append_left _ _

theorem sound_run (hold : ctx.isCloudPrimary = false → Unfinalised old) (source : Source)
    (maps : ReasoningMaps) (acts : List Act) :
    Sound ctx m₀ old (run (LiveWatch.step ctx) (.start ctx source m₀ old maps) acts) := by
  have hstep : ∀ s act, Sound ctx m₀ old s → True → Sound ctx m₀ old (s.step ctx act) :=
    fun _ act h _ => sound_step hold h act
  exact invariant_run hstep _ acts (sound_start source maps) (guarded_true _ acts)

end Watches

instance (s : LiveWatch) : (act : Act) → Decidable (Drained s act)
  | .leaveDone =>
      inferInstanceAs (Decidable (s.running.isSome = true → s.signalled = true → s.waiting = []))
  | .eyesDown => inferInstanceAs (Decidable (s.running.isSome = true → s.waiting = []))
  | .send =>
      inferInstanceAs (Decidable (s.running = none → ∀ q ∈ s.accepts, q.early = true →
        stepsOf [q.sent.event] = []))
  | .route _ | .yield _ _ _ | .take _ _ | .sourceEnds | .done | .unroute | .finish =>
      inferInstanceAs (Decidable True)

/-- Whatever the source, the capacity of the channel and the order in which the events, the Done and
the loop take turns: when Done is answered, the events that were handed over before it are recorded
and the counts agree, if and only if the loop left when none of them waited in the channel and it
had begun with the first step of the session. -/
theorem done_delivers_iff (ctx : Context) (source : Source) (m : SessionMetadata) (old : Files)
    (maps : ReasoningMaps) (acts : List Act) (count : UInt32)
    (hold : ctx.isCloudPrimary = false → Unfinalised old)
    (hanswer : (run (LiveWatch.step ctx) (.start ctx source m old maps) acts).answer = some count) :
    Delivered ctx m (run (LiveWatch.step ctx) (.start ctx source m old maps) acts) count ↔
      Guarded (LiveWatch.step ctx) Drained (.start ctx source m old maps) acts ∧ m.totalSteps = 0 := by
  have hstep : ∀ s act, Sound ctx m old s → Calm s → (Calm (s.step ctx act) ↔ Drained s act) := by
    intro s act h hcalm
    cases hrunning : s.running with
    | none => exact calm_idle hcalm hrunning act
    | some l => exact calm_running h hrunning act
  have hlost : ∀ s act, Sound ctx m old s → ¬ Calm s → ¬ Calm (s.step ctx act) :=
    fun _ act _ h hnext => h (calm_before act hnext)
  have hkeep : ∀ s act, Sound ctx m old s → Sound ctx m old (s.step ctx act) :=
    fun _ act h => sound_step hold h act
  have hstart : Sound ctx m old (.start ctx source m old maps) := sound_start source maps
  have hcalm : Calm (.start ctx source m old maps) := fun _ => rfl
  rw [delivered_iff (sound_run hold source maps acts) hanswer,
    run_iff_guarded hstep hlost hkeep _ acts hstart hcalm]

theorem unfinalised_new : Unfinalised fun _ => none := by
  have hnone : Objects [] := fun j hj => (List.not_mem_nil hj).elim
  exact ⟨⟨[], hnone, rfl⟩, [], hnone, rfl⟩

def sampleSent : Act := .route ⟨sampleEvent, 0, 7⟩

def sampleTake : Act := .take "2026-02-25 12:58:04 UTC".toList .off

/-- A Done that finds the event taken. -/
def takenFirst : List Act := [sampleSent, .send, sampleTake, .done, .leaveDone, .unroute, .finish]

theorem done_delivers_iff_sample :
    Delivered diskContext .initial
      (run (LiveWatch.step diskContext) (.start diskContext (.kafka 1) .initial (fun _ => none) .new)
        takenFirst) 1 :=
  (done_delivers_iff diskContext (.kafka 1) .initial (fun _ => none) .new takenFirst 1
    (fun _ => unfinalised_new) (by decide +kernel)).mpr ⟨by decide +kernel, rfl⟩

/-- The same Done, when the loop sees its signal before the event. -/
def signalFirst : List Act := [sampleSent, .send, .done, .leaveDone, .unroute, .finish]

theorem event_lost :
    (run (LiveWatch.step diskContext) (.start diskContext (.kafka 1) .initial (fun _ => none) .new)
        signalFirst).answer = some 0 ∧
      ¬ Delivered diskContext .initial
        (run (LiveWatch.step diskContext) (.start diskContext (.kafka 1) .initial (fun _ => none) .new)
          signalFirst)
        0 := by
  have hanswer : (run (LiveWatch.step diskContext)
      (.start diskContext (.kafka 1) .initial (fun _ => none) .new)
      signalFirst).answer = some 0 := by
    decide +kernel
  refine ⟨hanswer, fun h => ?_⟩
  have hsound : Sound diskContext .initial (fun _ => none) (run (LiveWatch.step diskContext)
      (.start diskContext (.kafka 1) .initial (fun _ => none) .new) signalFirst) :=
    sound_run (fun _ => unfinalised_new) (.kafka 1) .new signalFirst
  have hcalm := ((delivered_iff hsound hanswer).mp h).1
  have hidle : (run (LiveWatch.step diskContext)
      (.start diskContext (.kafka 1) .initial (fun _ => none) .new)
      signalFirst).running.isNone = true := by
    decide +kernel
  have hwaiting : (run (LiveWatch.step diskContext)
      (.start diskContext (.kafka 1) .initial (fun _ => none) .new)
      signalFirst).waiting.length = 1 := by
    decide +kernel
  rw [hcalm (Option.isNone_iff_eq_none.mp hidle)] at hwaiting
  cases hwaiting

end MemoryArchive.Capture.Handover
