import MemoryArchive.Capture.StepIds

namespace MemoryArchive.Capture

open Runs

/-- A step event that the watch loop took from Kafka, and where it was. -/
structure Delivery where
  part : Int32
  offset : Int64
  written : Written

/-- A session with one watch loop on a Kafka source, and the step events that
reached the loop. -/
structure KafkaWatch where
  session : Session
  delivered : List Delivery

/-- What the watch loop meets. A stop of the program between two uploads is a
fault with nothing after it. -/
inductive WatchInput
  | connect (flushed : Bool)
  | deliver (part : Int32) (offset : Int64) (input : EventInput)
  | done
  | leave (doneCleanly : Bool)
  | finish (fault : Option Nat) (flushed : Bool)

/-- The entry of a step records an event. -/
def StepEntry.Records (ctx : Context) (e : CommandEvent) (s : StepEntry) : Prop :=
  s.timestamp = e.timestamp ∧ s.actionType = e.actionType ∧ s.actionSubtype = e.actionSubtype ∧
    s.rawCommand = e.rawCommand ∧ s.convertedCommand = ctx.toHumanReadable e

def SessionMetadata.Records (ctx : Context) (m : SessionMetadata) (e : CommandEvent) : Prop :=
  ∃ s ∈ m.steps, s.Records ctx e

/-- The values of a JSON file. A table has none. -/
def fileValues (toCcCommand : CommandEvent → String) (file : CommandFile) (ws : List Written) :
    Option (List Json) :=
  match file with
  | .rawInput | .convertedInput => none
  | .actuationCommands => some (eventValues ws)
  | .ccCommands => some (ccValues toCcCommand ws)

/-- The lines or the array of a file have an event among theirs. -/
def Lists (toCcCommand : CommandEvent → String) (file : CommandFile) (content : Option Text)
    (w : Written) : Prop :=
  ∃ ws, w ∈ ws ∧ (content = some (fileText toCcCommand file ws) ∨
    ∃ values, fileValues toCcCommand file ws = some values ∧ content = some (arrayText values))

/-- The files that are put before a put fails. -/
def putFiles (fault : Option Nat) (files : List CommandFile) : List CommandFile :=
  fault.elim files files.take

/-- The puts of a flush, and those of a finalised recording. -/
def flushOrder : List CommandFile := [.rawInput, .convertedInput, .actuationCommands, .ccCommands]

def finaliseOrder : List CommandFile := .actuationCommands :: .ccCommands :: flushOrder

/-- The metadata is due to be flushed with the next step. -/
def WatchLoop.FlushDue (ctx : Context) (l : WatchLoop) : Prop :=
  max ctx.flushInterval 1 ≤ l.stepsSinceFlush + 1

instance (ctx : Context) (l : WatchLoop) : Decidable (l.FlushDue ctx) :=
  inferInstanceAs (Decidable (_ ≤ _))

def EventInput.written (ctx : Context) (input : EventInput) : Written :=
  ⟨input.event, (ctx.toHumanReadable input.event).toList, input.now⟩

namespace KafkaWatch

/-- A watch begins on the stored metadata of a session. -/
def start (ctx : Context) (m : SessionMetadata) (files : Files) (maps : ReasoningMaps) : KafkaWatch :=
  ⟨Session.startWatch ctx ⟨true, some m, files, maps, [], none, 0⟩, []⟩

def running (w : KafkaWatch) : Option WatchLoop :=
  (w.session.loop? 0).filter fun l => l.phase = .running

def step (ctx : Context) (w : KafkaWatch) : WatchInput → KafkaWatch
  | .connect flushed => { w with session := w.session.step ctx (.connect 0 true flushed) }
  | .deliver part offset input =>
      { session := w.session.step ctx (.event 0 { input with kafka := some (part, offset) })
        delivered :=
          if w.running.isSome ∧ input.event.actionType ≠ "position" then
            w.delivered ++ [⟨part, offset, input.written ctx⟩]
          else w.delivered }
  | .done => { w with session := { w.session with handle := none } }
  | .leave doneCleanly => { w with session := w.session.step ctx (.leave 0 doneCleanly) }
  | .finish fault flushed => { w with session := w.session.step ctx (.finish 0 fault flushed) }

/-- The event of a delivery is in the metadata and in every command file. -/
def Recorded (ctx : Context) (m : SessionMetadata) (files : Files) (d : Delivery) : Prop :=
  m.Records ctx d.written.event ∧ ∀ file, Lists ctx.toCcCommand file (files file) d.written

/-- The stored position is not ahead of what is stored: a step event that has been
taken is recorded, or a replay from the next offset reads it. -/
def NotAhead (ctx : Context) (w : KafkaWatch) : Prop :=
  ∀ m part offset, w.session.stored = some m → m.kafkaPartition = some part →
    m.kafkaOffset = some offset →
    ∀ d ∈ w.delivered, d.part = part → d.offset ≤ offset → Recorded ctx m w.session.files d

/-- Every command file that is not put lists the events up to a position. -/
def ListedTo (ctx : Context) (w : KafkaWatch) (ds : List Delivery) (part : Int32) (offset : Int64)
    (put : List CommandFile) : Prop :=
  ∀ d ∈ ds, d.part = part → d.offset ≤ offset → ∀ file, file ∉ put →
    Lists ctx.toCcCommand file (w.session.files file) d.written

/-- An event at or before the stored position has been recorded before. -/
def NotBehind (ctx : Context) (w : KafkaWatch) (d : Delivery) (put : List CommandFile) : Prop :=
  ∀ m offset, w.session.stored = some m → m.kafkaPartition = some d.part → m.kafkaOffset = some offset →
    d.offset ≤ offset → m.Records ctx d.written.event ∧
      ∀ file, file ∉ put → Lists ctx.toCcCommand file (w.session.files file) d.written

/-- The steps that keep the position behind the recording: where they store a
position, they put the files that do not yet list the events up to there. -/
def KeepsUp (ctx : Context) (w : KafkaWatch) : WatchInput → Prop
  | .deliver part offset input => ∀ l, w.running = some l → input.event.actionType ≠ "position" →
      if l.FlushDue ctx then
        if input.flushed then
          w.ListedTo ctx (w.delivered ++ [⟨part, offset, input.written ctx⟩]) part offset
            (putFiles input.fault flushOrder)
        else w.NotBehind ctx ⟨part, offset, input.written ctx⟩ []
      else w.NotBehind ctx ⟨part, offset, input.written ctx⟩ (putFiles input.fault flushOrder)
  | .finish fault flushed => ∀ l doneCleanly part offset, w.session.loop? 0 = some l →
      l.phase = .leaving doneCleanly → flushed = true → l.metadata.kafkaPartition = some part →
      l.metadata.kafkaOffset = some offset →
      w.ListedTo ctx w.delivered part offset (putFiles fault finaliseOrder)
  | .connect _ | .done | .leave _ => True

end KafkaWatch

theorem mem_putFiles_cons {fault : Option Nat} {f file : CommandFile} {files : List CommandFile} :
    file ∈ putFiles fault (f :: files) ↔
      fault ≠ some 0 ∧ (file = f ∨ file ∈ putFiles (fault.map Nat.pred) files) := by
  cases fault with
  | none => simp [putFiles]
  | some n =>
    cases n with
    | zero => simp [putFiles]
    | succ n => simp [putFiles]

/-- A file that no put reaches stays as it was. -/
theorem runPuts_kept {fault : Option Nat} (puts : List (CommandFile × Text)) {file : CommandFile}
    (h : file ∉ putFiles fault (puts.map Prod.fst)) (files : Files) :
    (runPuts fault puts files).1 file = files file := by
  induction puts generalizing fault files with
  | nil => rfl
  | cons put puts ih =>
    obtain ⟨f, text⟩ := put
    rw [List.map_cons, mem_putFiles_cons] at h
    rw [runPuts]
    split
    · rfl
    · rename_i hfault
      obtain ⟨hne, hrest⟩ := not_or.mp (not_and.mp h hfault)
      rw [ih hrest]
      exact Function.update_of_ne hne _ _

/-- A file that a put reaches holds what one of its puts put. -/
theorem runPuts_put {fault : Option Nat} (puts : List (CommandFile × Text)) {file : CommandFile}
    (h : file ∈ putFiles fault (puts.map Prod.fst)) (files : Files) :
    ∃ text, (file, text) ∈ puts ∧ (runPuts fault puts files).1 file = some text := by
  induction puts generalizing fault files with
  | nil => cases fault <;> simp [putFiles] at h
  | cons put puts ih =>
    obtain ⟨f, text⟩ := put
    rw [List.map_cons, mem_putFiles_cons] at h
    rw [runPuts, if_neg h.1]
    by_cases hrest : file ∈ putFiles (fault.map Nat.pred) (puts.map Prod.fst)
    · obtain ⟨text', hmem, he⟩ := ih hrest (Function.update files f (some text))
      exact ⟨text', List.mem_cons_of_mem _ hmem, he⟩
    · have hfile : file = f := h.2.resolve_right hrest
      subst hfile
      refine ⟨text, List.mem_cons_self, ?_⟩
      rw [runPuts_kept puts hrest]
      exact Function.update_self _ _ _

section Writer

variable {ctx : Context} {ws : List Written} {writer : CommandWriter} {files : Files} {w : Written}

/-- The buffers of the writer hold the lines of the events. -/
abbrev Buffers (ctx : Context) (ws : List Written) (writer : CommandWriter) (files : Files) : Prop :=
  Buffered ctx.toCcCommand ws ⟨writer, files⟩

theorem lists_buf (h : Buffers ctx ws writer files) (hw : w ∈ ws) (file : CommandFile) :
    Lists ctx.toCcCommand file (some (writer.buf file)) w :=
  ⟨ws, hw, .inl (congrArg some (h.buf file))⟩

theorem mem_flushPuts {file : CommandFile} {text : Text} (h : (file, text) ∈ writer.flushPuts) :
    text = writer.buf file := by
  cases file <;> simpa [CommandWriter.flushPuts, CommandWriter.buf] using h

/-- What a flush puts lists the events; the other files stay. -/
theorem lists_flush_iff (h : Buffers ctx ws writer files) (hw : w ∈ ws) (fault : Option Nat)
    (file : CommandFile) :
    Lists ctx.toCcCommand file ((writer.flushToCloud fault files).1 file) w ↔
      (file ∉ putFiles fault flushOrder → Lists ctx.toCcCommand file (files file) w) := by
  have hmode : writer.isCloudPrimary = true := h.mode
  rw [CommandWriter.flushToCloud, if_pos hmode]
  by_cases hput : file ∈ putFiles fault flushOrder
  · obtain ⟨text, hmem, he⟩ := runPuts_put writer.flushPuts hput files
    rw [he, mem_flushPuts hmem]
    exact iff_of_true (lists_buf h hw file) fun hkept => absurd hput hkept
  · rw [runPuts_kept writer.flushPuts hput]
    exact ⟨fun hlists _ => hlists, fun hlists => hlists hput⟩

theorem trim_ne_nil {text : Text} (h : text.head? = some '{') : Lines.trim text ≠ [] := by
  cases text with
  | nil => cases h
  | cons c rest =>
    cases h
    intro hnil
    rw [Lines.trim, Lines.strip, List.dropWhile_cons_of_neg (by decide), List.rdropWhile_eq_nil_iff] at hnil
    have hblank := hnil '{' List.mem_cons_self
    revert hblank
    decide

/-- The buffers are read back when the recording is finalised. -/
theorem bufEntries_render {js : List Json} (hjs : ∀ j ∈ js, ∃ fields, j = .obj fields) (hne : js ≠ []) :
    CommandWriter.bufEntries (Json.render .compact js) = some (js.map (Json.rebuild Json.putSorted)) := by
  have hhead : (Json.render .compact js).head? = some '{' := by
    cases js with
    | nil => exact absurd rfl hne
    | cons j js =>
      obtain ⟨fields, rfl⟩ := hjs j List.mem_cons_self
      rw [Json.render, List.map_cons, Lines.unlines, List.flatMap_cons]
      change (jsonLine (.obj fields) ++ _).head? = _
      rw [List.head?_append, head_jsonLine_obj]
      rfl
  rw [CommandWriter.bufEntries, if_neg (trim_ne_nil hhead)]
  exact parseLines_render js hjs

theorem bufEntries_actuation (h : Buffers ctx ws writer files) (hne : ws ≠ []) :
    CommandWriter.bufEntries writer.actuationBuf = some (eventValues ws) := by
  have hbuf : writer.actuationBuf = _ := h.buf .actuationCommands
  rw [hbuf, fileText_actuation, bufEntries_render, List.map_map]
  · rfl
  · intro j hj
    obtain ⟨w, -, rfl⟩ := List.mem_map.mp hj
    exact ⟨_, rfl⟩
  · simpa using hne

theorem bufEntries_cc (h : Buffers ctx ws writer files) (hne : ws ≠ []) :
    CommandWriter.bufEntries writer.ccBuf = some (ccValues ctx.toCcCommand ws) := by
  have hbuf : writer.ccBuf = _ := h.buf .ccCommands
  rw [hbuf, fileText_cc, bufEntries_render, List.map_map]
  · rfl
  · intro j hj
    obtain ⟨w, -, rfl⟩ := List.mem_map.mp hj
    exact ⟨_, rfl⟩
  · simpa using hne

/-- What the end of a recording puts lists the events; the other files stay. -/
theorem lists_finalise_iff (h : Buffers ctx ws writer files) (hw : w ∈ ws) (fault : Option Nat)
    (file : CommandFile) :
    Lists ctx.toCcCommand file ((writer.finalise fault files).1 file) w ↔
      (file ∉ putFiles fault finaliseOrder → Lists ctx.toCcCommand file (files file) w) := by
  have hmode : writer.isCloudPrimary = true := h.mode
  have hne : ws ≠ [] := List.ne_nil_of_mem hw
  rw [CommandWriter.finalise, if_pos hmode, CommandWriter.finaliseCloud, bufEntries_actuation h hne,
    bufEntries_cc h hne]
  dsimp only
  by_cases hput : file ∈ putFiles fault finaliseOrder
  · obtain ⟨text, hmem, he⟩ := runPuts_put ((.actuationCommands, arrayText (eventValues ws)) ::
      (.ccCommands, arrayText (ccValues ctx.toCcCommand ws)) :: writer.flushPuts) hput files
    rw [he]
    refine iff_of_true ?_ fun hkept => absurd hput hkept
    obtain hmem | hmem | hmem : (file, text) = (.actuationCommands, arrayText (eventValues ws)) ∨
        (file, text) = (.ccCommands, arrayText (ccValues ctx.toCcCommand ws)) ∨
        (file, text) ∈ writer.flushPuts := by simpa using hmem
    · cases hmem
      exact ⟨ws, hw, .inr ⟨_, rfl, rfl⟩⟩
    · cases hmem
      exact ⟨ws, hw, .inr ⟨_, rfl, rfl⟩⟩
    · rw [mem_flushPuts hmem]
      exact lists_buf h hw file
  · rw [runPuts_kept ((.actuationCommands, arrayText (eventValues ws)) ::
      (.ccCommands, arrayText (ccValues ctx.toCcCommand ws)) :: writer.flushPuts) hput]
    exact ⟨fun hlists _ => hlists, fun hlists => hlists hput⟩

end Writer

variable {ctx : Context} {s : Session} {l : WatchLoop}

/-- The metadata of a loop that has recorded an event. -/
def SessionMetadata.recordEvent (ctx : Context) (m : SessionMetadata) (step : UInt32)
    (input : EventInput) : SessionMetadata :=
  (((m.recordAgentVersion input.event.agentVersion).updateKafkaPosition input.kafka).appendStep
    (stepEntry ctx step input.event)).addImage step input.image

/-- In cloud mode an event is recorded in any case. -/
theorem event_cloud (hcloud : ctx.isCloudPrimary = true) (hmode : l.writer.isCloudPrimary = true)
    (input : EventInput) (hpos : input.event.actionType ≠ "position") :
    s.event ctx l input =
      let writer := (Recording.step ctx.toCcCommand ⟨l.writer, s.files⟩ (.event (input.written ctx))).writer
      let m := l.metadata.recordEvent ctx writer.stepCounter input
      if l.FlushDue ctx then
        if input.flushed then
          { s with
            maps := (m.drain s.maps).2
            stored := some (m.drain s.maps).1
            files := (writer.flushToCloud input.fault s.files).1 }.setLoop
              { l with metadata := (m.drain s.maps).1, stepsSinceFlush := 0, writer := writer }
        else
          { s with maps := (m.drain s.maps).2 }.setLoop
            { l with metadata := (m.drain s.maps).1, stepsSinceFlush := 0, writer := writer }
      else
        { s with files := (writer.flushToCloud input.fault s.files).1 }.setLoop
          { l with metadata := m, stepsSinceFlush := l.stepsSinceFlush + 1, writer := writer } := by
  have hwrite : l.writer.writeEvent ctx.toCcCommand input.now input.failure input.event
      (ctx.toHumanReadable input.event).toList s.files =
      ((Recording.step ctx.toCcCommand ⟨l.writer, s.files⟩ (.event (input.written ctx))).writer, s.files,
        some (Recording.step ctx.toCcCommand ⟨l.writer, s.files⟩
          (.event (input.written ctx))).writer.stepCounter) := by
    simp only [Recording.step, CommandWriter.writeEvent, hmode, if_true, EventInput.written]
    rfl
  rw [Session.event]
  dsimp only
  rw [if_neg hpos, hwrite]
  dsimp only
  rw [Session.flushIfDue]
  dsimp only
  by_cases hdue : l.FlushDue ctx
  · have hflush : ctx.isCloudPrimary = false ∨ max ctx.flushInterval 1 ≤ l.stepsSinceFlush + 1 := .inr hdue
    rw [if_pos hdue, if_pos hflush]
    cases input.flushed <;> rfl
  · have hwait : ¬ (ctx.isCloudPrimary = false ∨ max ctx.flushInterval 1 ≤ l.stepsSinceFlush + 1) :=
      not_or.mpr ⟨by simp [hcloud], hdue⟩
    rw [if_neg hdue, if_neg hwait]
    rfl

section Metadata

variable {m : SessionMetadata} {e : CommandEvent}

theorem mem_updateFirst (stepId : UInt32) (f : StepEntry → StepEntry) {steps : List StepEntry}
    {step : StepEntry} (h : step ∈ steps) :
    step ∈ updateFirst stepId f steps ∨ f step ∈ updateFirst stepId f steps := by
  induction steps with
  | nil => cases h
  | cons k steps ih =>
    rw [updateFirst]
    obtain rfl | h := List.mem_cons.mp h
    · split
      · exact .inr List.mem_cons_self
      · exact .inl List.mem_cons_self
    · split
      · exact .inl (List.mem_cons_of_mem _ h)
      · exact (ih h).imp (List.mem_cons_of_mem _) (List.mem_cons_of_mem _)

theorem records_congr {m' : SessionMetadata} (hsteps : m'.steps = m.steps) :
    m'.Records ctx e ↔ m.Records ctx e := by
  rw [SessionMetadata.Records, SessionMetadata.Records, hsteps]

theorem records_appendStep (h : m.Records ctx e) (step : StepEntry) : (m.appendStep step).Records ctx e := by
  obtain ⟨k, hk, he⟩ := h
  exact ⟨k, List.mem_append_left _ hk, he⟩

theorem records_addImage (h : m.Records ctx e) (stepId : UInt32) (image : Vision) :
    (m.addImage stepId image).Records ctx e := by
  cases image with
  | off | skipped reason => exact h
  | fetched image =>
    obtain ⟨k, hk, he⟩ := h
    obtain hmem | hmem := mem_updateFirst stepId (StepEntry.setImage image) hk
    · exact ⟨k, hmem, he⟩
    · exact ⟨k.setImage image, hmem, he⟩

/-- Recording an event keeps the events recorded before. -/
theorem records_recordEvent (stepId : UInt32) (input : EventInput)
    (h : m.Records ctx e ∨ e = input.event) : (m.recordEvent ctx stepId input).Records ctx e := by
  refine records_addImage ?_ _ _
  obtain h | rfl := h
  · refine records_appendStep ((records_congr ?_).mpr h) _
    exact (updateKafkaPosition_steps _).1.trans (recordAgentVersion_steps _).1
  · exact ⟨stepEntry ctx stepId input.event, List.mem_append_right _ (List.mem_singleton_self _),
      rfl, rfl, rfl, rfl, rfl⟩

theorem recordEvent_position (ctx : Context) (m : SessionMetadata) (stepId : UInt32) {input : EventInput} {part : Int32} {offset : Int64}
    (h : input.kafka = some (part, offset)) :
    (m.recordEvent ctx stepId input).kafkaPartition = some part ∧
      (m.recordEvent ctx stepId input).kafkaOffset = some offset := by
  rw [SessionMetadata.recordEvent, h]
  cases input.image <;> exact ⟨rfl, rfl⟩

end Metadata

namespace KafkaWatch

variable {w : KafkaWatch}

/-- The buffers and the metadata of the loop have every event that it took. -/
structure Takes (ctx : Context) (ds : List Delivery) (l : WatchLoop) : Prop where
  buffers : ∀ files, Buffers ctx (ds.map Delivery.written) l.writer files
  steps : ∀ d ∈ ds, l.metadata.Records ctx d.written.event
  fresh : l.phase = .connecting → ds = []

/-- The session has its one loop, until that is gone. -/
def Watching (ctx : Context) (w : KafkaWatch) : Prop :=
  w.session.loops = [] ∨ ∃ l, w.session.loops = [l] ∧ l.id = 0 ∧ Takes ctx w.delivered l

theorem watching_start (m : SessionMetadata) (files : Files) (maps : ReasoningMaps)
    (hcloud : ctx.isCloudPrimary = true) : Watching ctx (start ctx m files maps) := by
  refine .inr ⟨_, rfl, rfl, fun files => ?_, by simp [start], fun _ => rfl⟩
  rw [hcloud]
  exact ⟨rfl, rfl, rfl, rfl, fun file => by cases file <;> rfl⟩

theorem notAhead_start (m : SessionMetadata) (files : Files) (maps : ReasoningMaps) :
    NotAhead ctx (start ctx m files maps) := by
  intro m' part offset _ _ _ d hd
  cases hd

theorem loop?_none (h : w.session.loops = []) : w.session.loop? 0 = none := by
  simp [Session.loop?, h]

theorem loop?_some {l : WatchLoop} (h : w.session.loops = [l]) (hid : l.id = 0) :
    w.session.loop? 0 = some l := by
  simp [Session.loop?, h, hid]

/-- What is stored and taken decides whether the position is ahead. -/
theorem notAhead_congr {w' : KafkaWatch} (hstored : w'.session.stored = w.session.stored)
    (hfiles : w'.session.files = w.session.files) (hdelivered : w'.delivered = w.delivered) :
    NotAhead ctx w' ↔ NotAhead ctx w := by
  rw [NotAhead, NotAhead, hstored, hfiles, hdelivered]

/-- The loop that is there after a step takes over what the loop before it took. -/
theorem Watching.setLoop {w : KafkaWatch} {s : Session} {ds : List Delivery} {l k : WatchLoop}
    (hloops : w.session.loops = [l]) (hs : s.loops = w.session.loops) (hid : k.id = l.id) (hl : l.id = 0)
    (hk : Takes ctx ds k) : Watching ctx ⟨s.setLoop k, ds⟩ := by
  refine .inr ⟨k, ?_, hid.trans hl, hk⟩
  exact setLoop_single (hs.trans hloops) hid.symm

/-- A step event goes into the buffers and the metadata of the loop. -/
theorem takes_event {ds : List Delivery} (h : Takes ctx ds l) (hphase : l.phase = .running) (d : Delivery)
    (input : EventInput) (hd : d.written = input.written ctx) (files : Files) {writer : CommandWriter}
    (hwriter : writer = (Recording.step ctx.toCcCommand ⟨l.writer, files⟩ (.event (input.written ctx))).writer)
    (m : SessionMetadata) (hsteps : m.steps = (l.metadata.recordEvent ctx writer.stepCounter input).steps)
    (n : UInt32) :
    Takes ctx (ds ++ [d]) { l with metadata := m, stepsSinceFlush := n, writer := writer } where
  buffers files' := by
    have hnext := buffered_event (h.buffers files) (input.written ctx)
    rw [List.map_append, List.map_singleton, hd]
    dsimp only
    rw [hwriter]
    exact ⟨hnext.mode, hnext.counter, hnext.raw, hnext.converted, hnext.buf⟩
  steps e he := by
    rw [records_congr hsteps]
    refine records_recordEvent _ _ ?_
    obtain he | he := List.mem_append.mp he
    · exact .inl (h.steps e he)
    · obtain rfl := List.mem_singleton.mp he
      exact .inr (congrArg Written.event hd)
  fresh hc := by
    rw [hphase] at hc
    cases hc

theorem running_of {l : WatchLoop} (hloop : w.session.loop? 0 = some l) (hphase : l.phase = .running) :
    w.running = some l := by
  rw [running, hloop]
  simp [hphase]

/-- A delivery to a loop that does not run changes nothing. -/
theorem deliver_idle {part : Int32} {offset : Int64} {input : EventInput} (h : w.running = none) :
    w.step ctx (.deliver part offset input) = w := by
  have hsession : w.session.step ctx (.event 0 { input with kafka := some (part, offset) }) = w.session := by
    rw [Session.step]
    cases hloop : w.session.loop? 0 with
    | none => rfl
    | some l =>
      by_cases hphase : l.phase = .running
      · rw [running_of hloop hphase] at h
        cases h
      · exact if_neg hphase
  rw [step, hsession, h]
  rfl

theorem running_spec {l : WatchLoop} (h : w.running = some l) :
    w.session.loop? 0 = some l ∧ l.phase = .running := by
  rw [running, Option.filter_eq_some_iff] at h
  simpa using h

/-- An event at a loop that runs. -/
theorem deliver_running {l : WatchLoop} (h : w.running = some l) (part : Int32) (offset : Int64)
    (input : EventInput) :
    w.step ctx (.deliver part offset input) =
      { session := w.session.event ctx l { input with kafka := some (part, offset) }
        delivered :=
          if input.event.actionType ≠ "position" then
            w.delivered ++ [⟨part, offset, input.written ctx⟩]
          else w.delivered } := by
  obtain ⟨hloop, hphase⟩ := running_spec h
  have hsession : w.session.step ctx (.event 0 { input with kafka := some (part, offset) }) =
      w.session.event ctx l { input with kafka := some (part, offset) } := by
    rw [Session.step, hloop]
    exact if_pos hphase
  rw [step, hsession, h]
  simp

section Stored

variable {w' : KafkaWatch}

/-- A step that stores metadata with every event in it. -/
theorem notAhead_stored (w : KafkaWatch) (m : SessionMetadata) (put : List CommandFile)
    (hstored : w'.session.stored = some m)
    (hsteps : ∀ d ∈ w'.delivered, m.Records ctx d.written.event)
    (hfiles : ∀ d ∈ w'.delivered, ∀ file, Lists ctx.toCcCommand file (w'.session.files file) d.written ↔
      (file ∉ put → Lists ctx.toCcCommand file (w.session.files file) d.written)) :
    NotAhead ctx w' ↔ ∀ part offset, m.kafkaPartition = some part → m.kafkaOffset = some offset →
      w.ListedTo ctx w'.delivered part offset put := by
  constructor
  · intro h part offset hpart hoffset d hd hdpart hdoffset file
    exact (hfiles d hd file).mp ((h m part offset hstored hpart hoffset d hd hdpart hdoffset).2 file)
  · intro h m' part offset hm' hpart hoffset d hd hdpart hdoffset
    rw [hstored] at hm'
    cases hm'
    exact ⟨hsteps d hd, fun file =>
      (hfiles d hd file).mpr (h part offset hpart hoffset d hd hdpart hdoffset file)⟩

/-- A step that takes an event and stores no metadata. -/
theorem notAhead_unstored (hna : NotAhead ctx w) (hstored : w'.session.stored = w.session.stored)
    {d : Delivery} (hdelivered : w'.delivered = w.delivered ++ [d]) {put : List CommandFile}
    (hfiles : ∀ e ∈ w'.delivered, ∀ file, Lists ctx.toCcCommand file (w'.session.files file) e.written ↔
      (file ∉ put → Lists ctx.toCcCommand file (w.session.files file) e.written)) :
    NotAhead ctx w' ↔ w.NotBehind ctx d put := by
  have hlast : d ∈ w'.delivered := by rw [hdelivered]; simp
  constructor
  · intro h m offset hm hpart hoffset hle
    obtain ⟨hsteps, hlists⟩ := h m d.part offset (hstored.trans hm) hpart hoffset d hlast rfl hle
    exact ⟨hsteps, fun file => (hfiles d hlast file).mp (hlists file)⟩
  · intro h m part offset hm hpart hoffset e he hepart heoffset
    rw [hstored] at hm
    have hmem := he
    rw [hdelivered] at hmem
    obtain hold | hnew := List.mem_append.mp hmem
    · obtain ⟨hsteps, hlists⟩ := hna m part offset hm hpart hoffset e hold hepart heoffset
      exact ⟨hsteps, fun file => (hfiles e he file).mpr fun _ => hlists file⟩
    · obtain rfl := List.mem_singleton.mp hnew
      rw [← hepart] at hpart
      obtain ⟨hsteps, hlists⟩ := h m offset hm hpart hoffset heoffset
      exact ⟨hsteps, fun file => (hfiles e he file).mpr (hlists file)⟩

end Stored

/-- A step that keeps the loop in order, and exactly then the position behind
the recording when it has the property. -/
structure Decides (ctx : Context) (w w' : KafkaWatch) (keeps : Prop) : Prop where
  watching : Watching ctx w'
  exact : NotAhead ctx w → (NotAhead ctx w' ↔ keeps)

theorem decides_same (h : Watching ctx w) {keeps : Prop} (hkeeps : keeps) : Decides ctx w w keeps :=
  ⟨h, fun hna => iff_of_true hna hkeeps⟩

/-- With every event of a loop in its buffers, each file it puts lists them. -/
theorem takes_lists {ds : List Delivery} (h : Takes ctx ds l) (fault : Option Nat) (files : Files) :
    ∀ d ∈ ds, ∀ file, Lists ctx.toCcCommand file ((l.writer.flushToCloud fault files).1 file) d.written ↔
      (file ∉ putFiles fault flushOrder → Lists ctx.toCcCommand file (files file) d.written) :=
  fun _ hd file => lists_flush_iff (h.buffers files) (List.mem_map_of_mem hd) fault file

/-- A step event at the loop. -/
theorem decides_event (hcloud : ctx.isCloudPrimary = true) (hloops : w.session.loops = [l])
    (hid : l.id = 0) (hphase : l.phase = .running) (h : Takes ctx w.delivered l)
    {part : Int32} {offset : Int64} (input : EventInput) (hkafka : input.kafka = some (part, offset))
    (hpos : input.event.actionType ≠ "position") :
    Decides ctx w
      ⟨w.session.event ctx l input, w.delivered ++ [⟨part, offset, input.written ctx⟩]⟩
      (if l.FlushDue ctx then
        if input.flushed then
          w.ListedTo ctx (w.delivered ++ [⟨part, offset, input.written ctx⟩]) part offset
            (putFiles input.fault flushOrder)
        else w.NotBehind ctx ⟨part, offset, input.written ctx⟩ []
      else w.NotBehind ctx ⟨part, offset, input.written ctx⟩ (putFiles input.fault flushOrder)) := by
  rw [event_cloud hcloud (h.buffers w.session.files).mode input hpos]
  dsimp only
  obtain ⟨hpart, hoffset⟩ := recordEvent_position ctx l.metadata
    (Recording.step ctx.toCcCommand ⟨l.writer, w.session.files⟩
      (.event (input.written ctx))).writer.stepCounter hkafka
  have hk := takes_event h hphase ⟨part, offset, input.written ctx⟩ input rfl w.session.files rfl
  generalize (Recording.step ctx.toCcCommand ⟨l.writer, w.session.files⟩
    (.event (input.written ctx))).writer = writer at hpart hoffset hk ⊢
  split
  · have hk := hk ((l.metadata.recordEvent ctx writer.stepCounter input).drain w.session.maps).1 rfl 0
    split
    · refine ⟨Watching.setLoop hloops rfl rfl hid hk, fun _ => ?_⟩
      rw [notAhead_stored w _ _ rfl hk.steps (takes_lists hk input.fault w.session.files)]
      constructor
      · intro hlisted
        exact hlisted part offset hpart hoffset
      · intro hlisted part' offset' hpart' hoffset'
        cases hpart.symm.trans hpart'
        cases hoffset.symm.trans hoffset'
        exact hlisted
    · refine ⟨Watching.setLoop hloops rfl rfl hid hk, fun hna => ?_⟩
      refine notAhead_unstored hna ?_ ?_ fun d hd file => ?_
      · rfl
      · rfl
      · exact ⟨fun hlists _ => hlists, fun hlists => hlists List.not_mem_nil⟩
  · have hk := hk (l.metadata.recordEvent ctx writer.stepCounter input) rfl (l.stepsSinceFlush + 1)
    refine ⟨Watching.setLoop hloops rfl rfl hid hk, fun hna => ?_⟩
    refine notAhead_unstored hna ?_ ?_ (takes_lists hk input.fault w.session.files)
    · rfl
    · rfl

theorem decides_deliver (hcloud : ctx.isCloudPrimary = true) (h : Watching ctx w)
    (part : Int32) (offset : Int64) (input : EventInput) :
    Decides ctx w (w.step ctx (.deliver part offset input)) (w.KeepsUp ctx (.deliver part offset input)) := by
  cases hrun : w.running with
  | none =>
    rw [deliver_idle hrun]
    exact decides_same h fun l hl => by rw [hrun] at hl; cases hl
  | some l =>
    obtain ⟨hloop, hphase⟩ := running_spec hrun
    obtain hnone | ⟨k, hloops, hid, hk⟩ := h
    · rw [loop?_none hnone] at hloop
      cases hloop
    obtain rfl := loop?_single hloops hloop
    rw [deliver_running hrun]
    by_cases hpos : input.event.actionType = "position"
    · have hevent : w.session.event ctx l { input with kafka := some (part, offset) } =
          w.session.setLoop { l with metadata := l.metadata.recordAgentVersion input.event.agentVersion } := by
        rw [Session.event]
        exact if_pos hpos
      have hsteps := (recordAgentVersion_steps (m := l.metadata) input.event.agentVersion).1
      rw [hevent, if_neg (not_not.mpr hpos)]
      refine ⟨Watching.setLoop hloops rfl rfl hid
        ⟨hk.buffers, fun d hd => (records_congr hsteps).mpr (hk.steps d hd), hk.fresh⟩, fun hna => ?_⟩
      exact iff_of_true ((notAhead_congr rfl rfl rfl).mpr hna) fun k hk hne => absurd hpos hne
    · have hdecides := decides_event hcloud hloops hid hphase hk
        { input with kafka := some (part, offset) } rfl hpos
      rw [if_pos hpos]
      refine ⟨hdecides.watching, fun hna => (hdecides.exact hna).trans
        ⟨fun hkeeps k hl _ => ?_, fun hkeeps => hkeeps l hrun hpos⟩⟩
      rw [hrun] at hl
      cases hl
      exact hkeeps

/-- A step for the loop, which does nothing once the loop is gone. -/
theorem decides_at_loop (h : Watching ctx w) {s : Session} {keeps : Prop}
    (hnone : w.session.loop? 0 = none → s = w.session ∧ keeps)
    (hsome : ∀ l, w.session.loop? 0 = some l → w.session.loops = [l] → l.id = 0 → Takes ctx w.delivered l →
      Decides ctx w ⟨s, w.delivered⟩ keeps) : Decides ctx w ⟨s, w.delivered⟩ keeps := by
  obtain hloops | ⟨l, hloops, hid, hl⟩ := h
  · obtain ⟨rfl, hkeeps⟩ := hnone (loop?_none hloops)
    exact decides_same (.inl hloops) hkeeps
  · exact hsome l (loop?_some hloops hid) hloops hid hl

theorem decides_connect (h : Watching ctx w) (flushed : Bool) :
    Decides ctx w (w.step ctx (.connect flushed)) (w.KeepsUp ctx (.connect flushed)) := by
  refine decides_at_loop h (fun hloop => ?_) fun l hloop hloops hid hl => ?_
  · rw [Session.step, hloop]
    exact ⟨rfl, trivial⟩
  · rw [Session.step, hloop]
    dsimp only
    by_cases hphase : l.phase = .connecting
    · rw [if_pos hphase, Session.connect, if_pos rfl]
      have hnil := hl.fresh hphase
      refine ⟨Watching.setLoop hloops rfl rfl hid ⟨hl.buffers, fun d hd => ?_, fun hc => by cases hc⟩, fun _ => ?_⟩
      · rw [hnil] at hd
        cases hd
      · refine iff_of_true (fun m part offset _ _ _ d hd => ?_) trivial
        rw [hnil] at hd
        cases hd
    · rw [if_neg hphase]
      exact decides_same (.inr ⟨l, hloops, hid, hl⟩) trivial

theorem decides_leave (h : Watching ctx w) (doneCleanly : Bool) :
    Decides ctx w (w.step ctx (.leave doneCleanly)) (w.KeepsUp ctx (.leave doneCleanly)) := by
  refine decides_at_loop h (fun hloop => ?_) fun l hloop hloops hid hl => ?_
  · rw [Session.step, hloop]
    exact ⟨rfl, trivial⟩
  · rw [Session.step, hloop]
    dsimp only
    split
    · rw [Session.leave]
      split
      · exact decides_same (.inr ⟨l, hloops, hid, hl⟩) trivial
      · refine ⟨Watching.setLoop hloops rfl rfl hid ⟨hl.buffers, hl.steps, fun hc => by cases hc⟩, fun hna => ?_⟩
        exact iff_of_true ((notAhead_congr rfl rfl rfl).mpr hna) trivial
    · exact decides_same (.inr ⟨l, hloops, hid, hl⟩) trivial

/-- The last metadata of a loop. -/
def lastMetadata (m : SessionMetadata) (doneCleanly : Bool) : SessionMetadata :=
  if doneCleanly then m.markComplete.clearInProgress else m.markIncomplete.setInProgress "interrupted"

theorem lastMetadata_frame (m : SessionMetadata) (doneCleanly : Bool) :
    (lastMetadata m doneCleanly).steps = m.steps ∧ (lastMetadata m doneCleanly).totalSteps = m.totalSteps ∧
      (lastMetadata m doneCleanly).kafkaPartition = m.kafkaPartition ∧
      (lastMetadata m doneCleanly).kafkaOffset = m.kafkaOffset := by
  cases doneCleanly <;> exact ⟨rfl, rfl, rfl, rfl⟩

/-- At the end of a loop the files are finalised, then the last metadata is
stored. -/
theorem finish_cloud (hcloud : ctx.isCloudPrimary = true) (s : Session) (l : WatchLoop)
    (doneCleanly : Bool) (fault : Option Nat) (flushed : Bool) :
    s.finish ctx l doneCleanly fault flushed =
      { s with
        maps := ((lastMetadata l.metadata doneCleanly).drain s.maps).2
        stored := if flushed then some ((lastMetadata l.metadata doneCleanly).drain s.maps).1 else s.stored
        files := (l.writer.finalise fault s.files).1
        handle := none }.dropLoop l.id := by
  cases doneCleanly with
  | true => rfl
  | false =>
    rw [Session.finish, if_neg (by decide), if_pos hcloud]
    rfl

theorem decides_finish (hcloud : ctx.isCloudPrimary = true) (h : Watching ctx w)
    (fault : Option Nat) (flushed : Bool) :
    Decides ctx w (w.step ctx (.finish fault flushed)) (w.KeepsUp ctx (.finish fault flushed)) := by
  refine decides_at_loop h (fun hloop => ?_) fun l hloop hloops hid hl => ?_
  · refine ⟨by rw [Session.step, hloop], fun k doneCleanly part offset hk => ?_⟩
    rw [hloop] at hk
    cases hk
  · rw [Session.step, hloop]
    dsimp only
    cases hphase : l.phase with
    | leaving doneCleanly =>
      have hlists : ∀ d ∈ w.delivered, ∀ file, Lists ctx.toCcCommand file
          ((l.writer.finalise fault w.session.files).1 file) d.written ↔
            (file ∉ putFiles fault finaliseOrder →
              Lists ctx.toCcCommand file (w.session.files file) d.written) := fun d hd file =>
        lists_finalise_iff (hl.buffers w.session.files) (List.mem_map_of_mem hd) fault file
      obtain ⟨hsteps, -, hpart, hoffset⟩ := lastMetadata_frame l.metadata doneCleanly
      dsimp only
      rw [finish_cloud hcloud]
      refine ⟨.inl (dropLoop_single hloops), fun hna => ?_⟩
      cases flushed with
      | true =>
        have hrecords : ∀ d ∈ w.delivered,
            ((lastMetadata l.metadata doneCleanly).drain w.session.maps).1.Records ctx d.written.event :=
          fun d hd => (records_congr hsteps).mpr (hl.steps d hd)
        refine (notAhead_stored w ((lastMetadata l.metadata doneCleanly).drain w.session.maps).1
          (putFiles fault finaliseOrder) ?_ ?_ ?_).trans ?_
        · rfl
        · exact hrecords
        · exact hlists
        constructor
        · intro hlisted k doneCleanly' part offset hk _ _ hkpart hkoffset
          rw [hloop] at hk
          cases hk
          exact hlisted part offset (hpart.trans hkpart) (hoffset.trans hkoffset)
        · intro hlisted part offset hmpart hmoffset
          exact hlisted l doneCleanly part offset hloop hphase rfl (hpart.symm.trans hmpart)
            (hoffset.symm.trans hmoffset)
      | false =>
        refine iff_of_true (fun m' part offset hm' hmpart hmoffset d hd hdpart hdoffset => ?_)
          fun k doneCleanly' part offset _ _ hc => by cases hc
        obtain ⟨hd', hlists'⟩ := hna m' part offset hm' hmpart hmoffset d hd hdpart hdoffset
        exact ⟨hd', fun file => (hlists d hd file).mpr fun _ => hlists' file⟩
    | connecting | running =>
      refine decides_same (.inr ⟨l, hloops, hid, hl⟩) fun k doneCleanly part offset hk hc => ?_
      rw [hloop] at hk
      cases hk
      rw [hphase] at hc
      cases hc

theorem decides_step (hcloud : ctx.isCloudPrimary = true) (h : Watching ctx w)
    (i : WatchInput) : Decides ctx w (w.step ctx i) (w.KeepsUp ctx i) := by
  cases i with
  | connect flushed => exact decides_connect h flushed
  | deliver part offset input => exact decides_deliver hcloud h part offset input
  | done =>
    have hwatching : Watching ctx (w.step ctx .done) := h
    exact ⟨hwatching, fun hna => iff_of_true ((notAhead_congr rfl rfl rfl).mpr hna) trivial⟩
  | leave doneCleanly => exact decides_leave h doneCleanly
  | finish fault flushed => exact decides_finish hcloud h fault flushed

end KafkaWatch

open KafkaWatch

/-- The stored Kafka position is behind the recording in every state of a watch,
just as long as every step puts the files that do not list the events yet. -/
theorem position_not_ahead (ctx : Context) (hcloud : ctx.isCloudPrimary = true) (m : SessionMetadata)
    (files : Files) (maps : ReasoningMaps) (is : List WatchInput) :
    Along (KafkaWatch.step ctx) (fun _ _ w' => NotAhead ctx w') (start ctx m files maps) is ↔
      Guarded (KafkaWatch.step ctx) (KeepsUp ctx) (start ctx m files maps) is := by
  have hstep : ∀ (w : KafkaWatch) (i : WatchInput), Watching ctx w ∧ NotAhead ctx w →
      (NotAhead ctx (w.step ctx i) ↔ w.KeepsUp ctx i) :=
    fun w i h => (decides_step hcloud h.1 i).exact h.2
  have hkeep : ∀ (w : KafkaWatch) (i : WatchInput), Watching ctx w ∧ NotAhead ctx w →
      NotAhead ctx (w.step ctx i) → Watching ctx (w.step ctx i) ∧ NotAhead ctx (w.step ctx i) :=
    fun w i h hnext => ⟨(decides_step hcloud h.1 i).watching, hnext⟩
  exact along_iff_guarded_of hstep hkeep _ is
    ⟨watching_start m files maps hcloud, notAhead_start m files maps⟩

theorem mem_putFiles_none (file : CommandFile) :
    file ∈ putFiles none flushOrder ∧ file ∈ putFiles none finaliseOrder := by
  cases file <;> decide

/-- Behind the stored position, an event keeps up when all files are put with it. -/
theorem keepsUp_of_later (ctx : Context) (w : KafkaWatch) (part : Int32) (offset : Int64)
    (input : EventInput) (hfault : input.fault = none)
    (hlater : ∀ m stored, w.session.stored = some m → m.kafkaPartition = some part →
      m.kafkaOffset = some stored → ¬ offset ≤ stored) : w.KeepsUp ctx (.deliver part offset input) := by
  intro l _ _
  have hbehind : ∀ put, w.NotBehind ctx ⟨part, offset, input.written ctx⟩ put :=
    fun put m stored hm hpart hoffset hle => absurd hle (hlater m stored hm hpart hoffset)
  split
  · split
    · intro d _ _ _ file hfile
      rw [hfault] at hfile
      exact absurd (mem_putFiles_none file).1 hfile
    · exact hbehind []
  · exact hbehind _

def sampleDelivery (fault : Option Nat) : WatchInput :=
  .deliver 3 7 ⟨sampleEvent, "2026-02-25 12:58:04 UTC".toList, fun _ => none, .off, none, true, fault⟩

/-- One event, recorded and finalised. -/
def recordedWatch : List WatchInput :=
  [.connect true, sampleDelivery none, .done, .leave true, .finish none true]

theorem position_not_ahead_recorded :
    Along (KafkaWatch.step cloudContext) (fun _ _ w' => NotAhead cloudContext w')
      (start cloudContext .initial (fun _ => none) .new) recordedWatch := by
  refine (position_not_ahead cloudContext rfl .initial _ .new recordedWatch).mpr ?_
  refine ⟨trivial, keepsUp_of_later _ _ _ _ _ rfl ?_, trivial, trivial, ?_, trivial⟩
  · intro m stored hm hpart
    cases hm
    cases hpart
  · intro l doneCleanly part offset _ _ _ _ _ d _ _ _ file hfile
    exact absurd (mem_putFiles_none file).2 hfile

/-- The metadata with the position of an event is stored, and then the program
stops, or the puts of the command files fail. -/
theorem position_ahead :
    ¬ Along (KafkaWatch.step cloudContext) (fun _ _ w' => NotAhead cloudContext w')
      (start cloudContext .initial (fun _ => none) .new) [.connect true, sampleDelivery (some 0)] := by
  rintro ⟨-, hahead, -⟩
  obtain ⟨-, hlists⟩ := hahead _ 3 7 rfl rfl rfl ⟨3, 7, _⟩ List.mem_cons_self rfl (by decide)
  obtain ⟨ws, -, htext | ⟨values, -, harray⟩⟩ := hlists .rawInput
  · cases htext
  · cases harray

end MemoryArchive.Capture
