import MemoryArchive.Capture.DirectDone
import MemoryArchive.Capture.Handover
import MemoryArchive.Capture.Wire

namespace MemoryArchive.Capture.EventSources

open Refinalise Handover

/-- An event that the agent reports, with what its handling meets: the time, its image and the
position it gets in Kafka. -/
structure Reported where
  event : CommandEvent
  now : Text
  image : Vision
  part : Int32
  offset : Int64

def lossy (r : Reported) : Bool := recordsLossy r.event.agentVersion

/-- What `WatchStream` yields of a stream, from the agent version it has checked last, and why it
ended the stream. -/
def nextEvents (checked : String) : List Reported → List Reported × Option String
  | [] => ([], none)
  | r :: rs =>
      let keep (checked : String) : List Reported × Option String :=
        let (taken, refusal) := nextEvents checked rs
        (if r.event.isHeartbeat then taken else r :: taken, refusal)
      if Lines.trim r.event.agentVersion.toList ≠ [] ∧ r.event.agentVersion ≠ checked then
        match (evaluateAgent r.event.agentVersion).refusal with
        | some refusal => ([], some refusal)
        | none => keep r.event.agentVersion
      else keep checked

def grpcInput (r : Reported) : EventInput := eventInput r.event none r.now r.image

/-- What reaches the channel of a session of a reported event: the consumer passes on the messages of
the session. -/
def kafkaInput (sessionId : String) (r : Reported) : Option EventInput := do
  let message ← publish sessionId r.event
  let (target, event) ← consume message
  if target = sessionId then some (eventInput event (some (r.part, r.offset)) r.now r.image) else none

/-- What a session takes of a reported event differs between the sources in the position only. -/
def Feeds (input : Reported → EventInput) : Prop :=
  ∀ r, ∃ kafka, input r = eventInput r.event kafka r.now r.image

/-- What is written of some events. -/
def writtenOf (ctx : Context) (rs : List Reported) : List Written :=
  (rs.filter fun r => r.event.actionType ≠ "position").map
    fun r => ⟨r.event, (ctx.toHumanReadable r.event).toList, r.now⟩

/-- The loop of a session takes some events. -/
def record (ctx : Context) (s : Session) (inputs : List EventInput) : Session :=
  inputs.foldl (fun s input => s.step ctx (.event 0 input)) s

/-- The events are over and the client sends Done. It ends the loop, unless the source has ended it
before. Then Done may come when that loop has finished. -/
def conclude (ctx : Context) (s : Session) (refused late : Bool) : Session :=
  let done : Input := .done ⟨none, true, true, true⟩
  let inputs : List Input :=
    if refused then
      if late then [.leave 0 false, .finish 0 none true, done]
      else [.leave 0 false, done, .finish 0 none true]
    else [done, .leave 0 true, .finish 0 none true]
  inputs.foldl (Session.step ctx) s

section Sources

-- The metadata and the files of the session when the loop begins.
variable (ctx : Context) (m : SessionMetadata) (files : Files) (maps : ReasoningMaps)

def loopStart : Session :=
  ⟨true, some m, files, maps, [⟨0, .running, m, 0, .new ctx.isCloudPrimary⟩], some 0, 1⟩

def recordGrpc (rs : List Reported) (late : Bool) : Session :=
  let (taken, refusal) := nextEvents "" rs
  conclude ctx (record ctx (loopStart ctx m files maps) (taken.map grpcInput)) refusal.isSome late

def recordKafka (sessionId : String) (rs : List Reported) (late : Bool) : Session :=
  conclude ctx (record ctx (loopStart ctx m files maps) (rs.filterMap (kafkaInput sessionId))) false late

end Sources

/-- Two recordings with the same steps and command files, in which no step comes from a heartbeat or
from an agent that records lossily. -/
structure Agree (ctx : Context) (m : SessionMetadata) (s s' : Session) : Prop where
  steps : s.stored.map SessionMetadata.steps = s'.stored.map SessionMetadata.steps
  files : s.files = s'.files
  clean : ∃ ws, Finished ctx m ws s ∧ Finished ctx m ws s' ∧
    ∀ w ∈ ws, w.event.isHeartbeat = false ∧ recordsLossy w.event.agentVersion = false

/-- No step comes of the event. -/
def Stepless (r : Reported) : Prop := r.event.isHeartbeat = true ∨ r.event.actionType = "position"

/-- The events from the first one on whose agent records lossily. -/
def fromLossy (rs : List Reported) : List Reported := rs.dropWhile fun r => !lossy r

/-- What the end of the stream leaves as it is: in cloud mode what was recorded, until Done comes,
in local mode nothing until then. -/
def Spared (ctx : Context) (late : Bool) (rs : List Reported) : Prop :=
  if ctx.isCloudPrimary then ∀ r ∈ if late then rs else fromLossy rs, Stepless r
  else late = true ∧ ∀ r ∈ fromLossy rs, Stepless r

section Streams

/-- The stream is taken up to the first event of an agent that records lossily, without heartbeats. -/
theorem nextEvents_spec {checked : String} (hchecked : recordsLossy checked = false) (rs : List Reported) :
    (nextEvents checked rs).1 = (rs.takeWhile fun r => !lossy r).filter (fun r => !r.event.isHeartbeat) ∧
      (nextEvents checked rs).2.isSome = rs.any lossy := by
  induction rs generalizing checked with
  | nil => exact ⟨rfl, rfl⟩
  | cons r rs ih =>
    have hkeep : ∀ checked, recordsLossy checked = false → lossy r = false →
        (if r.event.isHeartbeat then (nextEvents checked rs).1 else r :: (nextEvents checked rs).1) =
          ((r :: rs).takeWhile fun r => !lossy r).filter (fun r => !r.event.isHeartbeat) ∧
        (nextEvents checked rs).2.isSome = (r :: rs).any lossy := by
      intro checked hchecked hr
      obtain ⟨htaken, hrefused⟩ := ih hchecked
      rw [List.takeWhile_cons_of_pos (by rw [hr]; rfl), List.any_cons, hr, Bool.false_or, htaken, hrefused,
        List.filter_cons]
      refine ⟨?_, rfl⟩
      cases r.event.isHeartbeat <;> rfl
    rw [nextEvents]
    dsimp only
    split
    · cases hrefusal : (evaluateAgent r.event.agentVersion).refusal with
      | some refusal =>
        have hr : lossy r = true := by rw [lossy, recordsLossy, hrefusal]; rfl
        rw [List.takeWhile_cons_of_neg (by rw [hr]; exact Bool.false_ne_true), List.any_cons, hr]
        exact ⟨rfl, rfl⟩
      | none =>
        have hr : lossy r = false := by rw [lossy, recordsLossy, hrefusal]; rfl
        exact hkeep _ hr hr
    · rename_i hsame
      have hr : lossy r = false := by
        obtain hblank | hversion := not_and_or.mp hsame
        · exact recordsLossy_blank (not_not.mp hblank)
        · rw [lossy, not_not.mp hversion, hchecked]
      exact hkeep _ hchecked hr

/-- Every event but a heartbeat goes through Kafka. -/
theorem filterMap_kafkaInput (sessionId : String) (rs : List Reported) :
    rs.filterMap (kafkaInput sessionId) =
      (rs.filter fun r => !r.event.isHeartbeat).map
        fun r => eventInput r.event (some (r.part, r.offset)) r.now r.image := by
  induction rs with
  | nil => rfl
  | cons r rs ih =>
    have hone : kafkaInput sessionId r = if r.event.isHeartbeat then none
        else some (eventInput r.event (some (r.part, r.offset)) r.now r.image) := by
      have hread := consume_publish sessionId r.event
      rw [kafkaInput]
      cases hmessage : publish sessionId r.event with
      | none =>
        rw [hmessage] at hread
        cases hbeat : r.event.isHeartbeat with
        | true => rfl
        | false =>
          rw [hbeat] at hread
          cases hread
      | some message =>
        rw [hmessage, Option.bind_some] at hread
        change (consume message).bind _ = _
        rw [hread]
        cases r.event.isHeartbeat with
        | true => rfl
        | false => exact if_pos rfl
    rw [List.filterMap_cons, hone, List.filter_cons]
    cases r.event.isHeartbeat with
    | true => exact ih
    | false => exact congrArg (_ :: ·) ih

end Streams

section Loops

variable {ctx : Context} {m : SessionMetadata} {old : Files} {ws : List Written} {s s' : Session}
  {l l' : WatchLoop}

/-- The stored metadata has the steps of the loop. -/
def Synced (s : Session) (l : WatchLoop) : Prop :=
  ∃ m, s.stored = some m ∧ m.steps = l.metadata.steps ∧ m.totalSteps = l.metadata.totalSteps

/-- The only loop of a session takes events, and has recorded these. -/
structure Taking (ctx : Context) (m : SessionMetadata) (old : Files) (ws : List Written) (s : Session)
    (l : WatchLoop) : Prop where
  loops : s.loops = [l]
  id : l.id = 0
  phase : l.phase = .running
  registered : s.registered = true
  handle : s.handle = some 0
  recorded : Handover.Recorded ctx m old ws s l
  synced : ctx.isCloudPrimary = false → Synced s l

/-- Two sessions whose loops differ at most in their positions in Kafka and in the agent version. -/
structure Alike (s s' : Session) (l l' : WatchLoop) : Prop where
  writer : l'.writer = l.writer
  waited : l'.stepsSinceFlush = l.stepsSinceFlush
  steps : l'.metadata.steps = l.metadata.steps
  files : s'.files = s.files

theorem taking_start (ctx : Context) (m : SessionMetadata) (old : Files) (maps : ReasoningMaps) :
    ∃ l, Taking ctx m old [] (loopStart ctx m old maps) l := by
  have hgains : Gains ctx m m [] := ⟨(List.append_nil _).symm, (UInt32.add_zero _).symm⟩
  refine ⟨_, rfl, rfl, rfl, rfl, rfl,
    ⟨rfl, rfl, hgains, fun hcloud => ?_, fun _ => ⟨m, rfl, hgains⟩, fun _ _ => rfl⟩,
    fun _ => ⟨m, rfl, rfl, rfl⟩⟩
  exact ⟨hcloud, rfl, rfl, rfl, fun file => by cases file <;> rfl⟩

theorem Taking.step_event (h : Taking ctx m old ws s l) (input : EventInput) :
    s.step ctx (.event 0 input) = s.event ctx l input := by
  rw [Session.step, loop?_of h.loops h.id]
  exact if_pos h.phase

/-- A step of the stream keeps the session registered, and in local mode its metadata stored. -/
theorem event_synced (ctx : Context) (hloops : s.loops = [l]) (input : EventInput) (hpos : input.event.actionType ≠ "position")
    (hfailure : input.failure = fun _ => none) (hflushed : input.flushed = true) :
    (s.event ctx l input).registered = s.registered ∧
      ∀ l', (s.event ctx l input).loops = [l'] → ctx.isCloudPrimary = false →
        Synced (s.event ctx l input) l' := by
  have hflush : ∀ (s : Session) (l : WatchLoop), (s.flushIfDue ctx l true).2.1.registered = s.registered ∧
      (ctx.isCloudPrimary = false → Synced (s.flushIfDue ctx l true).2.1 (s.flushIfDue ctx l true).1) := by
    intro s l
    rw [Session.flushIfDue]
    dsimp only
    split
    · exact ⟨rfl, fun _ => ⟨_, rfl, rfl, rfl⟩⟩
    · rename_i hwait
      exact ⟨rfl, fun hlocal => absurd (.inl hlocal) hwait⟩
  rw [event_flush s l input hpos hfailure hflushed]
  let r := Recording.step ctx.toCcCommand ⟨l.writer, s.files⟩ (.event (input.written ctx))
  let before : Session := { s with files := r.files }
  let written := writtenStep ctx l input r.writer
  obtain ⟨hregistered, hsynced⟩ := hflush before written
  obtain ⟨hid, -, -, -, hloops', -⟩ := flushIfDue_kept ctx before written true
  dsimp only
  generalize before.flushIfDue ctx written true = f at hregistered hsynced hid hloops'
  refine ⟨hregistered, fun l' hl' hlocal => ?_⟩
  cases (setLoop_single (hloops'.trans hloops) hid.symm).symm.trans hl'
  exact hsynced hlocal

/-- The loop takes an event, which is one more step unless it is a position. -/
theorem taking_event (h : Taking ctx m old ws s l) (input : Reported → EventInput) (hinput : Feeds input)
    (r : Reported) :
    ∃ l', Taking ctx m old (ws ++ writtenOf ctx [r]) (s.step ctx (.event 0 (input r))) l' := by
  obtain ⟨kafka, hr⟩ := hinput r
  rw [h.step_event, hr]
  by_cases hpos : r.event.actionType = "position"
  · let k : WatchLoop := { l with metadata := l.metadata.recordAgentVersion r.event.agentVersion }
    have hevent : s.event ctx l (eventInput r.event kafka r.now r.image) = s.setLoop k := if_pos hpos
    obtain ⟨l', hloops, hid, hphase, hkept, hrecorded⟩ :=
      recorded_position h.recorded h.loops (eventInput r.event kafka r.now r.image) hpos
    have hnone : writtenOf ctx [r] = [] := by simp [writtenOf, hpos]
    have hsame : l' = k := by
      have hone : (s.setLoop k).loops = [k] := setLoop_single h.loops rfl
      rw [hevent, hone] at hloops
      exact (List.cons.inj hloops).1.symm
    rw [hnone, List.append_nil]
    refine ⟨l', hloops, hid.trans h.id, hphase.trans h.phase, ?_, hkept.trans h.handle, hrecorded,
      fun hlocal => ?_⟩
    · rw [hevent]
      exact h.registered
    · obtain ⟨m', hm', hsteps, htotal⟩ := h.synced hlocal
      rw [hevent, hsame]
      exact ⟨m', hm', hsteps.trans (recordAgentVersion_steps _).1.symm,
        htotal.trans (recordAgentVersion_steps _).2.symm⟩
  · obtain ⟨l', hloops, hid, hphase, hkept, hrecorded⟩ :=
      recorded_event h.recorded h.loops (eventInput r.event kafka r.now r.image) hpos rfl rfl
    obtain ⟨hregistered, hsynced⟩ :=
      event_synced ctx h.loops (eventInput r.event kafka r.now r.image) hpos rfl rfl
    have hone : writtenOf ctx [r] = [(eventInput r.event kafka r.now r.image).written ctx] := by
      simp [writtenOf, hpos, EventInput.written, eventInput]
    rw [hone]
    exact ⟨l', hloops, hid.trans h.id, hphase.trans h.phase, hregistered.trans h.registered,
      hkept.trans h.handle,
      hrecorded, hsynced l' hloops⟩

theorem writtenOf_append (rs rs' : List Reported) :
    writtenOf ctx (rs ++ rs') = writtenOf ctx rs ++ writtenOf ctx rs' := by
  rw [writtenOf, List.filter_append, List.map_append]
  rfl

/-- What a loop has recorded when it has taken some events. -/
theorem taking_record (input : Reported → EventInput) (hinput : Feeds input) (rs : List Reported)
    (h : Taking ctx m old ws s l) :
    ∃ l', Taking ctx m old (ws ++ writtenOf ctx rs) (record ctx s (rs.map input)) l' := by
  induction rs generalizing ws s l with
  | nil => exact ⟨l, by rw [writtenOf, List.filter_nil, List.map_nil, List.append_nil]; exact h⟩
  | cons r rs ih =>
    obtain ⟨l₁, htaking⟩ := taking_event h input hinput r
    obtain ⟨l', hnext⟩ := ih htaking
    rw [List.append_assoc, ← writtenOf_append] at hnext
    exact ⟨l', hnext⟩

theorem addImage_steps {m m' : SessionMetadata} (h : m'.steps = m.steps) (step : UInt32) (image : Vision) :
    (m'.addImage step image).steps = (m.addImage step image).steps := by
  cases image with
  | off | skipped _ => exact h
  | fetched image => exact congrArg (updateFirst step (StepEntry.setImage image)) h

theorem flushIfDue_alike (ctx : Context) (h : Alike s s' l l') :
    Alike (s.flushIfDue ctx l true).2.1 (s'.flushIfDue ctx l' true).2.1 (s.flushIfDue ctx l true).1
      (s'.flushIfDue ctx l' true).1 := by
  rw [Session.flushIfDue, Session.flushIfDue, h.waited]
  dsimp only
  split
  · exact ⟨h.writer, rfl, h.steps, h.files⟩
  · exact ⟨h.writer, rfl, h.steps, h.files⟩

theorem flushIfDue_ok (s : Session) (l : WatchLoop) : (s.flushIfDue ctx l true).2.2 = true := by
  rw [Session.flushIfDue]
  dsimp only
  split
  · rfl
  · rfl

/-- The same event keeps two sessions alike, wherever it was in Kafka. -/
theorem alike_event (ctx : Context) (h : Alike s s' l l') (event : CommandEvent)
    (kafka kafka' : Option (Int32 × Int64))
    (now : Text) (image : Vision) (hloops : s.loops = [l]) (hloops' : s'.loops = [l']) :
    ∃ k k', (s.event ctx l (eventInput event kafka now image)).loops = [k] ∧
      (s'.event ctx l' (eventInput event kafka' now image)).loops = [k'] ∧
      Alike (s.event ctx l (eventInput event kafka now image))
        (s'.event ctx l' (eventInput event kafka' now image)) k k' := by
  by_cases hpos : event.actionType = "position"
  · have hevent : ∀ (s : Session) (l : WatchLoop) kafka, s.event ctx l (eventInput event kafka now image) =
        s.setLoop { l with metadata := l.metadata.recordAgentVersion event.agentVersion } := by
      intro s l kafka
      rw [Session.event]
      dsimp only
      exact if_pos hpos
    rw [hevent, hevent]
    refine ⟨_, _, setLoop_single hloops rfl, setLoop_single hloops' rfl, h.writer, h.waited, ?_, h.files⟩
    exact (recordAgentVersion_steps _).1.trans (h.steps.trans (recordAgentVersion_steps _).1.symm)
  · rw [event_flush s l (eventInput event kafka now image) hpos rfl rfl,
      event_flush s' l' (eventInput event kafka' now image) hpos rfl rfl, h.writer, h.files]
    let r := Recording.step ctx.toCcCommand ⟨l.writer, s.files⟩
      (.event ⟨event, (ctx.toHumanReadable event).toList, now⟩)
    let written := writtenStep ctx l (eventInput event kafka now image) r.writer
    let written' := writtenStep ctx l' (eventInput event kafka' now image) r.writer
    have hsteps : written'.metadata.steps = written.metadata.steps := by
      have hsame : ((l'.metadata.recordAgentVersion event.agentVersion).updateKafkaPosition kafka').steps =
          ((l.metadata.recordAgentVersion event.agentVersion).updateKafkaPosition kafka).steps := by
        rw [(updateKafkaPosition_steps _).1, (updateKafkaPosition_steps _).1,
          (recordAgentVersion_steps _).1,
          (recordAgentVersion_steps _).1, h.steps]
      have happend :=
        congrArg (fun steps => steps ++ [stepEntry ctx (l.writer.stepCounter + 1) event]) hsame
      have hid : l'.writer.stepCounter + 1 = l.writer.stepCounter + 1 := by rw [h.writer]
      change (SessionMetadata.addImage _ (l'.writer.stepCounter + 1) image).steps = _
      rw [hid]
      exact addImage_steps happend _ image
    have hwritten : Alike { s with files := r.files } { s' with files := r.files } written written' :=
      ⟨rfl, h.waited, hsteps, rfl⟩
    have hflush := flushIfDue_alike ctx hwritten
    obtain ⟨hkid, -, -, -, hkloops, -⟩ := flushIfDue_kept ctx { s with files := r.files } written true
    obtain ⟨hkid', -, -, -, hkloops', -⟩ := flushIfDue_kept ctx { s' with files := r.files } written' true
    have hok : ∀ (s : Session) (l : WatchLoop), (s.flushIfDue ctx l true).2.2 = true := flushIfDue_ok
    dsimp only
    refine ⟨_, _, setLoop_single (hkloops.trans hloops) hkid.symm,
      setLoop_single (hkloops'.trans hloops') hkid'.symm,
      hflush.writer, hflush.waited, hflush.steps, ?_⟩
    change (if _ then _ else _) = (if _ then _ else _)
    rw [hok, hok, if_pos rfl, if_pos rfl]
    exact congrArg (fun files => (r.writer.flushToCloud none files).1) hflush.files

/-- Two loops that take the same events stay alike. -/
theorem alike_record (input input' : Reported → EventInput) (hinput : Feeds input) (hinput' : Feeds input')
    (rs : List Reported) (h : Taking ctx m old ws s l) (h' : Taking ctx m old ws s' l')
    (halike : Alike s s' l l') :
    ∃ k k', Taking ctx m old (ws ++ writtenOf ctx rs) (record ctx s (rs.map input)) k ∧
      Taking ctx m old (ws ++ writtenOf ctx rs) (record ctx s' (rs.map input')) k' ∧
      Alike (record ctx s (rs.map input)) (record ctx s' (rs.map input')) k k' := by
  induction rs generalizing ws s s' l l' with
  | nil =>
    rw [writtenOf, List.filter_nil, List.map_nil, List.append_nil]
    exact ⟨l, l', h, h', halike⟩
  | cons r rs ih =>
    obtain ⟨k, hk⟩ := taking_event h input hinput r
    obtain ⟨k', hk'⟩ := taking_event h' input' hinput' r
    obtain ⟨kafka, hr⟩ := hinput r
    obtain ⟨kafka', hr'⟩ := hinput' r
    obtain ⟨j, j', hj, hj', hnext⟩ :=
      alike_event ctx halike r.event kafka kafka' r.now r.image h.loops h'.loops
    rw [← hr, ← h.step_event] at hj hnext
    rw [← hr', ← h'.step_event] at hj' hnext
    cases hj.symm.trans hk.loops
    cases hj'.symm.trans hk'.loops
    have hrest := ih hk hk' hnext
    rw [List.append_assoc, ← writtenOf_append] at hrest
    exact hrest

/-- Positions change no step and no file. -/
theorem alike_positions (input : Reported → EventInput) (hinput : Feeds input) (rs : List Reported)
    (h' : Taking ctx m old ws s' l') (halike : Alike s s' l l') (hpos : ∀ r ∈ rs, r.event.actionType = "position") :
    ∃ k', Taking ctx m old ws (record ctx s' (rs.map input)) k' ∧
      Alike s (record ctx s' (rs.map input)) l k' := by
  induction rs generalizing s' l' with
  | nil => exact ⟨l', h', halike⟩
  | cons r rs ih =>
    obtain ⟨kafka, hr⟩ := hinput r
    have hr_pos := hpos r List.mem_cons_self
    let k : WatchLoop := { l' with metadata := l'.metadata.recordAgentVersion r.event.agentVersion }
    have hevent : s'.step ctx (.event 0 (input r)) = s'.setLoop k := by
      rw [h'.step_event, hr, Session.event]
      dsimp only
      exact if_pos hr_pos
    have hsteps : k.metadata.steps = l'.metadata.steps := (recordAgentVersion_steps _).1
    obtain ⟨j, hj⟩ := taking_event h' input hinput r
    have hnone : writtenOf ctx [r] = [] := by simp [writtenOf, hr_pos]
    have hsame : j = k := by
      have hloops := hj.loops
      have hone : (s'.setLoop k).loops = [k] := setLoop_single h'.loops rfl
      rw [hevent, hone] at hloops
      exact (List.cons.inj hloops).1.symm
    rw [hnone, List.append_nil, hsame] at hj
    have hnext : Alike s (s'.step ctx (.event 0 (input r))) l k := by
      rw [hevent]
      exact ⟨halike.writer, halike.waited, hsteps.trans halike.steps, halike.files⟩
    exact ih hj hnext fun r' hr' => hpos r' (List.mem_cons_of_mem r hr')

theorem leave_eq (hloops : s.loops = [l]) (hid : l.id = 0) (hphase : l.phase = .running)
    (doneCleanly : Bool)
    (hhandle : doneCleanly = true → s.handle = none) :
    s.step ctx (.leave 0 doneCleanly) =
      { s with maps := s.maps.removeSession }.setLoop { l with phase := .leaving doneCleanly } := by
  have hleave : ¬ (doneCleanly = true ∧ s.handle = some l.id) := by
    rintro ⟨hclean, hheld⟩
    rw [hhandle hclean] at hheld
    cases hheld
  rw [Session.step, loop?_of hloops hid]
  exact (if_pos hphase).trans (if_neg hleave)

theorem finish_eq (hloops : s.loops = [l]) (hid : l.id = 0) {doneCleanly : Bool}
    (hphase : l.phase = .leaving doneCleanly) :
    s.step ctx (.finish 0 none true) = s.finish ctx l doneCleanly none true := by
  rw [Session.step, loop?_of hloops hid]
  dsimp only
  rw [hphase]

/-- What a session has stored in the end. -/
def Kept (ctx : Context) (m : SessionMetadata) (ws : List Written) (l : WatchLoop) (s : Session) : Prop :=
  ∃ m', s.stored = some m' ∧ Gains ctx m m' ws ∧ m'.steps = l.metadata.steps

/-- The end of a loop keeps its steps. One that did not end cleanly leaves the files of local mode
as they are. -/
theorem kept_finish (h : Handover.Recorded ctx m old ws s l)
    (hsynced : ctx.isCloudPrimary = false → Synced s l)
    (doneCleanly : Bool) :
    Kept ctx m ws l (s.finish ctx l doneCleanly none true) ∧
      (s.finish ctx l doneCleanly none true).files =
        (if doneCleanly || ctx.isCloudPrimary then (l.writer.finalise none s.files).1 else s.files) ∧
      (s.finish ctx l doneCleanly none true).handle = none ∧
      (s.finish ctx l doneCleanly none true).registered = s.registered := by
  rw [Session.finish]
  dsimp only
  cases doneCleanly with
  | true => exact ⟨⟨_, rfl, h.gains.congr rfl rfl, rfl⟩, rfl, rfl, rfl⟩
  | false =>
    cases hmode : ctx.isCloudPrimary with
    | true => exact ⟨⟨_, rfl, h.gains.congr rfl rfl, rfl⟩, rfl, rfl, rfl⟩
    | false =>
      obtain ⟨m', hm', hsteps, htotal⟩ := hsynced hmode
      refine ⟨⟨m'.markIncomplete, ?_, h.gains.congr hsteps htotal, hsteps⟩, rfl, rfl, rfl⟩
      exact congrArg (Option.map SessionMetadata.markIncomplete) hm'

/-- A Done without a loop keeps the steps, and finalises with a new writer. -/
theorem kept_doneDirect (h : Kept ctx m ws l s) (hregistered : s.registered = true)
    (hhandle : s.handle = none) :
    Kept ctx m ws l (s.step ctx (.done ⟨none, true, true, true⟩)) ∧
      (s.step ctx (.done ⟨none, true, true, true⟩)).files =
        ((CommandWriter.new ctx.isCloudPrimary).finalise none s.files).1 := by
  obtain ⟨m', hm', hgains, hsteps⟩ := h
  have hdone : s.step ctx (.done ⟨none, true, true, true⟩) = s.doneDirect ctx ⟨none, true, true, true⟩ := by
    rw [Session.step, Session.done, hhandle]
    exact if_pos hregistered
  rw [hdone, Session.doneDirect, hm']
  cases ctx.isCloudPrimary with
  | true => exact ⟨⟨_, rfl, hgains.congr rfl rfl, hsteps⟩, rfl⟩
  | false => exact ⟨⟨_, rfl, hgains.congr rfl rfl, hsteps⟩, rfl⟩

theorem kept_leave (hloops : s.loops = [l]) (hid : l.id = 0) (hphase : l.phase = .running)
    (h : Handover.Recorded ctx m old ws s l) (hsynced : ctx.isCloudPrimary = false → Synced s l)
    (doneCleanly : Bool)
    (hhandle : doneCleanly = true → s.handle = none) :
    let s' := (s.step ctx (.leave 0 doneCleanly)).step ctx (.finish 0 none true)
    Kept ctx m ws l s' ∧
      s'.files =
        (if doneCleanly || ctx.isCloudPrimary then (l.writer.finalise none s.files).1 else s.files) ∧
      s'.handle = none ∧ s'.registered = s.registered := by
  let left : Session :=
    { s with maps := s.maps.removeSession }.setLoop { l with phase := .leaving doneCleanly }
  have hleft : Handover.Recorded ctx m old ws left { l with phase := .leaving doneCleanly } :=
    ⟨h.mode, h.counter, h.gains, h.buffered, h.stored, h.files⟩
  have hone : left.loops = [{ l with phase := .leaving doneCleanly }] := setLoop_single hloops rfl
  dsimp only
  rw [leave_eq hloops hid hphase doneCleanly hhandle, finish_eq hone hid rfl]
  exact kept_finish hleft hsynced doneCleanly

/-- The command files after the client's Done. -/
def closedFiles (ctx : Context) (s : Session) (l : WatchLoop) (refused late : Bool) : Files :=
  let ended := if !refused || ctx.isCloudPrimary then (l.writer.finalise none s.files).1 else s.files
  if refused && late then ((CommandWriter.new ctx.isCloudPrimary).finalise none ended).1 else ended

theorem conclude_spec (h : Taking ctx m old ws s l) (refused late : Bool) :
    Kept ctx m ws l (conclude ctx s refused late) ∧
      (conclude ctx s refused late).files = closedFiles ctx s l refused late := by
  -- Done takes the handle out of the map when the loop has not finished.
  let handed : Session := { s with handle := none }
  have hdone : s.step ctx (.done ⟨none, true, true, true⟩) = handed := by
    rw [Session.step, Session.done, h.handle]
  have hhanded : Handover.Recorded ctx m old ws handed l :=
    ⟨h.recorded.mode, h.recorded.counter, h.recorded.gains, h.recorded.buffered, h.recorded.stored,
      h.recorded.files⟩
  cases refused with
  | false =>
    have hconclude : conclude ctx s false late =
        (handed.step ctx (.leave 0 true)).step ctx (.finish 0 none true) := by
      rw [← hdone]
      rfl
    obtain ⟨hkept, hfiles, -⟩ :=
      kept_leave (s := handed) h.loops h.id h.phase hhanded h.synced true fun _ => rfl
    rw [hconclude]
    exact ⟨hkept, hfiles⟩
  | true =>
    cases late with
    | false =>
      have hconclude : conclude ctx s true false =
          (handed.step ctx (.leave 0 false)).step ctx (.finish 0 none true) := by
        rw [leave_eq (s := handed) h.loops h.id h.phase false (by rintro ⟨⟩)]
        change ((s.step ctx (.leave 0 false)).step ctx (.done _)).step ctx (.finish 0 none true) = _
        rw [leave_eq h.loops h.id h.phase false (by rintro ⟨⟩), Session.step.eq_def ctx _ (.done _)]
        dsimp only
        rw [h.handle]
        rfl
      obtain ⟨hkept, hfiles, -⟩ :=
        kept_leave (s := handed) h.loops h.id h.phase hhanded h.synced false (by rintro ⟨⟩)
      rw [hconclude]
      exact ⟨hkept, hfiles⟩
    | true =>
      obtain ⟨hkept, hfiles, hnone, hregistered⟩ :=
        kept_leave h.loops h.id h.phase h.recorded h.synced false (by rintro ⟨⟩)
      obtain ⟨hdirect, hclosed⟩ := kept_doneDirect hkept (hregistered.trans h.registered) hnone
      refine ⟨hdirect, hclosed.trans ?_⟩
      rw [hfiles]
      rfl

end Loops

section Agreement

variable {ctx : Context} {m : SessionMetadata} {old : Files}

/-- The events that reach a loop if none is refused. -/
def passed (rs : List Reported) : List Reported := rs.filter fun r => !r.event.isHeartbeat

/-- The events before the first one whose agent records lossily. -/
def faithful (rs : List Reported) : List Reported := rs.takeWhile fun r => !lossy r

theorem writtenOf_passed (rs : List Reported) : writtenOf ctx (passed rs) = [] ↔ ∀ r ∈ rs, Stepless r := by
  rw [writtenOf, List.map_eq_nil_iff, passed, List.filter_filter, List.filter_eq_nil_iff]
  refine forall₂_congr fun r _ => ?_
  rw [Stepless]
  cases r.event.isHeartbeat <;> simp

theorem passed_split (rs : List Reported) : passed rs = passed (faithful rs) ++ passed (fromLossy rs) := by
  have hsplit : faithful rs ++ fromLossy rs = rs := List.takeWhile_append_dropWhile
  rw [passed, passed, passed, ← List.filter_append, hsplit]

/-- What is recorded of the events before the first lossy one is neither a heartbeat nor lossy. -/
theorem writtenOf_faithful (rs : List Reported) :
    ∀ w ∈ writtenOf ctx (passed (faithful rs)),
      w.event.isHeartbeat = false ∧ recordsLossy w.event.agentVersion = false := by
  intro w hw
  obtain ⟨r, hr, rfl⟩ := List.mem_map.mp hw
  obtain ⟨hpassed, hbeat⟩ := List.mem_filter.mp (List.mem_filter.mp hr).1
  have hlossy := List.mem_takeWhile_imp hpassed
  exact ⟨Bool.not_eq_true' _ |>.mp hbeat, Bool.not_eq_true' _ |>.mp hlossy⟩

/-- The two recordings right before Done: the Kafka loop has gone on with what the other refused. -/
theorem before_done (ctx : Context) (m : SessionMetadata) (old : Files) (sessionId : String)
    (maps : ReasoningMaps) (rs : List Reported) (late : Bool) :
    ∃ s l s' l', Taking ctx m old (writtenOf ctx (passed (faithful rs))) s l ∧
      recordGrpc ctx m old maps rs late = conclude ctx s (rs.any lossy) late ∧
      Taking ctx m old (writtenOf ctx (passed rs)) s' l' ∧
      recordKafka ctx m old maps sessionId rs late = conclude ctx s' false late ∧
      ((∀ r ∈ fromLossy rs, Stepless r) → Alike s s' l l') := by
  let kafka (r : Reported) : EventInput := eventInput r.event (some (r.part, r.offset)) r.now r.image
  have hgrpc : Feeds grpcInput := fun r => ⟨none, rfl⟩
  have hkafka : Feeds kafka := fun r => ⟨some (r.part, r.offset), rfl⟩
  have hblank : recordsLossy "" = false := recordsLossy_blank rfl
  obtain ⟨htaken, hrefused⟩ := nextEvents_spec hblank rs
  obtain ⟨l₀, hstart⟩ := taking_start ctx m old maps
  have halike₀ : Alike (loopStart ctx m old maps) (loopStart ctx m old maps) l₀ l₀ := ⟨rfl, rfl, rfl, rfl⟩
  obtain ⟨l, k, hl, hk, halike⟩ :=
    alike_record grpcInput kafka hgrpc hkafka (passed (faithful rs)) hstart hstart halike₀
  obtain ⟨l', hl'⟩ := taking_record kafka hkafka (passed (fromLossy rs)) hk
  have hall : record ctx (record ctx (loopStart ctx m old maps) ((passed (faithful rs)).map kafka))
      ((passed (fromLossy rs)).map kafka) =
        record ctx (loopStart ctx m old maps) ((passed rs).map kafka) := by
    rw [passed_split rs, List.map_append]
    exact List.foldl_append.symm
  rw [List.nil_append] at hl hk hl'
  rw [hall, ← writtenOf_append, ← passed_split] at hl'
  refine ⟨_, l, _, l', hl, ?_, hl', ?_, fun hrest => ?_⟩
  · rw [recordGrpc]
    dsimp only
    rw [htaken, hrefused]
    rfl
  · rw [recordKafka, filterMap_kafkaInput]
    rfl
  · have hpos : ∀ r ∈ passed (fromLossy rs), r.event.actionType = "position" := by
      intro r hr
      obtain ⟨hmem, hbeat⟩ := List.mem_filter.mp hr
      refine (hrest r hmem).resolve_left fun htrue => ?_
      rw [htrue] at hbeat
      cases hbeat
    obtain ⟨k', hk', hsame⟩ := alike_positions kafka hkafka _ hk halike hpos
    rw [hall] at hk' hsame
    cases hk'.loops.symm.trans hl'.loops
    exact hsame

variable {ws : List Written} {s s' : Session} {l l' : WatchLoop} {maps : ReasoningMaps}
  {rs : List Reported} {late : Bool}

theorem any_lossy : rs.any lossy = false ↔ ∀ r ∈ rs, lossy r = false := by
  rw [List.any_eq_false]
  exact forall₂_congr fun r _ => Bool.not_eq_true (lossy r) ▸ Iff.rfl

theorem fileText_nil {toCcCommand : CommandEvent → String}
    (h : fileText toCcCommand .actuationCommands ws = []) : ws = [] := by
  cases ws with
  | nil => rfl
  | cons w ws =>
    rw [fileText_lines fun _ => rfl, List.zipIdx_cons, List.flatMap_cons] at h
    have hline := (List.append_eq_nil_iff.mp h).1
    exact absurd (List.append_eq_nil_iff.mp hline).2 (List.cons_ne_nil _ _)

/-- A new writer in cloud mode leaves empty files. -/
theorem finalise_empty (files : Files) :
    ((CommandWriter.new true).finalise none files).1 = fun _ => some [] := by
  have hnew : Buffered cloudContext.toCcCommand [] ⟨CommandWriter.new true, files⟩ :=
    ⟨rfl, rfl, rfl, rfl, fun file => by cases file <;> rfl⟩
  funext file
  have hbuffers : _ = some ((CommandWriter.new true).buf file) :=
    @finalise_buffers cloudContext [] { Session.start true with files := files }
      ⟨0, .running, .initial, 0, .new true⟩
      hnew file
  refine hbuffers.trans ?_
  cases file <;> rfl

/-- In local mode `finalise` does the same with every writer. -/
theorem finalise_local {w w' : CommandWriter} (hmode : w.isCloudPrimary = false)
    (hmode' : w'.isCloudPrimary = false)
    (files : Files) : w.finalise none files = w'.finalise none files := by
  rw [CommandWriter.finalise, CommandWriter.finalise, hmode, hmode']
  rfl

/-- Where the recordings agree nothing that was refused is a step, and what was recorded is spared. -/
theorem spared_of_agree (hold : ctx.isCloudPrimary = false → Unfinalised old) {sessionId : String}
    (h : Agree ctx m (recordGrpc ctx m old maps rs late) (recordKafka ctx m old maps sessionId rs late)) :
    (∀ r ∈ rs, lossy r = false) ∨ Spared ctx late rs := by
  obtain ⟨s, l, s', l', hs, hgrpc, hs', hkafka, -⟩ := before_done ctx m old sessionId maps rs late
  refine (Bool.eq_false_or_eq_true (rs.any lossy)).symm.imp any_lossy.mp fun hrefused => ?_
  rw [hrefused] at hgrpc
  obtain ⟨⟨m₁, hm₁, hgains₁, -⟩, hfiles₁⟩ := conclude_spec hs true late
  obtain ⟨⟨m₂, hm₂, hgains₂, -⟩, hfiles₂⟩ := conclude_spec hs' false late
  have hsteps := h.steps
  have hfiles := h.files
  rw [hgrpc, hkafka, hm₁, hm₂] at hsteps
  rw [hgrpc, hkafka, hfiles₁, hfiles₂] at hfiles
  have hlength : (writtenOf ctx (passed (faithful rs))).length = (writtenOf ctx (passed rs)).length := by
    have hcount :=
      congrArg (fun steps : List StepEntry => (steps.map StepEntry.bare).length) (Option.some.inj hsteps)
    simp only [hgains₁.steps, hgains₂.steps, List.length_append, numberedSteps_length, List.length_map,
      Nat.add_left_cancel_iff] at hcount
    exact hcount
  have hrest : ∀ r ∈ fromLossy rs, Stepless r := by
    rw [passed_split rs, writtenOf_append, List.length_append, Nat.left_eq_add] at hlength
    exact (writtenOf_passed _).mp (List.eq_nil_of_length_eq_zero hlength)
  rw [Spared]
  cases hmode : ctx.isCloudPrimary with
  | true =>
    rw [if_pos rfl]
    cases late with
    | false => exact hrest
    | true =>
      have hempty := congrFun hfiles .actuationCommands
      rw [closedFiles, closedFiles, hmode] at hempty
      simp only [Bool.not_true, Bool.or_true, if_true, Bool.and_true, Bool.not_false,
        Bool.false_eq_true, if_false, finalise_empty,
        finalise_buffers (hs'.recorded.buffered hmode)] at hempty
      have hbuf := (hs'.recorded.buffered hmode).buf .actuationCommands
      exact (writtenOf_passed rs).mp (fileText_nil (hbuf.symm.trans (Option.some.inj hempty).symm))
  | false =>
    rw [if_neg Bool.false_ne_true]
    cases late with
    | true => exact ⟨rfl, hrest⟩
    | false =>
      exfalso
      obtain ⟨⟨js, hjs, hactuation⟩, ks, hks, hcc⟩ := hold hmode
      have hlines : s.files .actuationCommands = _ := (hs.recorded.files hmode _).trans
        (hactuation ▸ gained_actuation js _)
      have hlines' : s'.files .actuationCommands = _ := (hs'.recorded.files hmode _).trans
        (hactuation ▸ gained_actuation js _)
      have hccs' : s'.files .ccCommands = _ := (hs'.recorded.files hmode _).trans (hcc ▸ gained_cc ks _)
      have hend := congrFun hfiles .actuationCommands
      rw [closedFiles, closedFiles, hmode] at hend
      simp only [Bool.not_true, Bool.or_false, Bool.and_false, Bool.not_false, Bool.false_eq_true,
        if_false, if_true,
        finalise_entries (hs'.recorded.mode.trans hmode) (objects_append hjs (objects_actuation _))
          (objects_append hks (objects_cc _)) hlines' hccs'] at hend
      rw [hlines] at hend
      have harray := holdsArray_arrayOf (js ++ (writtenOf ctx (passed rs)).map fun w => w.event.toJson)
      rw [← hend] at harray
      exact not_holdsArray_linesOf (objects_append hjs (objects_actuation _)) _ harray

theorem agree_of_spared (hold : ctx.isCloudPrimary = false → Unfinalised old) (sessionId : String)
    (h : (∀ r ∈ rs, lossy r = false) ∨ Spared ctx late rs) :
    Agree ctx m (recordGrpc ctx m old maps rs late) (recordKafka ctx m old maps sessionId rs late) := by
  obtain ⟨s, l, s', l', hs, hgrpc, hs', hkafka, hlike⟩ := before_done ctx m old sessionId maps rs late
  obtain ⟨⟨m₁, hm₁, hgains₁, hsteps₁⟩, hfiles₁⟩ := conclude_spec hs (rs.any lossy) late
  obtain ⟨⟨m₂, hm₂, hgains₂, hsteps₂⟩, hfiles₂⟩ := conclude_spec hs' false late
  have hrest : ∀ r ∈ fromLossy rs, Stepless r := by
    obtain hnone | hspared := h
    · have hnil : fromLossy rs = [] := by
        refine List.dropWhile_eq_nil_iff.mpr fun r hr => ?_
        rw [hnone r hr]
        rfl
      rw [hnil]
      exact fun r hr => (List.not_mem_nil hr).elim
    · rw [Spared] at hspared
      split at hspared
      · cases late with
        | false => exact hspared
        | true => exact fun r hr => hspared r ((List.dropWhile_sublist _).mem hr)
      · exact hspared.2
  have halike := hlike hrest
  have hsame : writtenOf ctx (passed rs) = writtenOf ctx (passed (faithful rs)) := by
    rw [passed_split rs, writtenOf_append, (writtenOf_passed _).mpr hrest, List.append_nil]
  have hfinal : closedFiles ctx s' l' false late = (l.writer.finalise none s.files).1 := by
    rw [closedFiles, halike.writer, halike.files]
    rfl
  have hfiles : closedFiles ctx s l (rs.any lossy) late = closedFiles ctx s' l' false late := by
    rw [hfinal, closedFiles]
    cases hrefused : rs.any lossy with
    | false => rfl
    | true =>
      have hspared : Spared ctx late rs := by
        refine h.resolve_left fun hnone => ?_
        rw [any_lossy.mpr hnone] at hrefused
        cases hrefused
      rw [Spared] at hspared
      cases hmode : ctx.isCloudPrimary with
      | true =>
        rw [hmode, if_pos rfl] at hspared
        cases late with
        | false => rfl
        | true =>
          have hnil : writtenOf ctx (passed (faithful rs)) = [] := hsame ▸ (writtenOf_passed _).mpr hspared
          funext file
          have hbuf := (hs.recorded.buffered hmode).buf file
          rw [hnil] at hbuf
          rw [finalise_buffers (hs.recorded.buffered hmode), hbuf]
          refine (congrFun (finalise_empty _) file).trans ?_
          cases file <;> rfl
      | false =>
        rw [hmode, if_neg Bool.false_ne_true] at hspared
        rw [hspared.1]
        exact congrArg Prod.fst (finalise_local rfl (hs.recorded.mode.trans hmode) s.files)
  have hends : ∀ file, EndsWith ctx file (closedFiles ctx s' l' false late file)
      (writtenOf ctx (passed (faithful rs))) := by
    rw [hfinal]
    exact endsWith_finalise hs.recorded hold
  rw [hgrpc, hkafka]
  refine ⟨?_, hfiles₁.trans (hfiles.trans hfiles₂.symm), _, ⟨⟨m₁, hm₁, hgains₁⟩, fun file => ?_⟩,
    ⟨⟨m₂, hm₂, hsame ▸ hgains₂⟩, fun file => ?_⟩, writtenOf_faithful rs⟩
  · rw [hm₁, hm₂]
    exact congrArg some (hsteps₁.trans (halike.steps.symm.trans hsteps₂.symm))
  · rw [hfiles₁, hfiles]
    exact hends file
  · rw [hfiles₂]
    exact hends file

end Agreement

/-- A recording from the agent and one through Kafka have the same steps and command files, all of
them reported faithfully, exactly when no agent records lossily, or nothing from its first event
on would be a step and the files do not show that its stream has ended. -/
theorem sources_agree_iff (ctx : Context) (sessionId : String) (m : SessionMetadata) (old : Files)
    (maps : ReasoningMaps) (rs : List Reported) (late : Bool)
    (hold : ctx.isCloudPrimary = false → Unfinalised old) :
    Agree ctx m (recordGrpc ctx m old maps rs late) (recordKafka ctx m old maps sessionId rs late) ↔
      (∀ r ∈ rs, lossy r = false) ∨ Spared ctx late rs :=
  ⟨spared_of_agree hold, agree_of_spared hold sessionId⟩

def sampleReported (agentVersion : String) : Reported :=
  ⟨{ sampleEvent with agentVersion := agentVersion }, "2026-02-25 12:58:04 UTC".toList, .off, 0, 7⟩

theorem sources_agree_iff_sample :
    Agree diskContext .initial
      (recordGrpc diskContext .initial (fun _ => none) .new [sampleReported "1.2.2"] true)
      (recordKafka diskContext .initial (fun _ => none) .new "abc" [sampleReported "1.2.2"] true) :=
  (sources_agree_iff diskContext "abc" .initial (fun _ => none) .new [sampleReported "1.2.2"] true
    fun _ => unfinalised_new).mpr (.inl (by decide +kernel))

/-- The agent's stream ends at a typed command that it would report damaged, Kafka delivers it. -/
theorem lossy_recorded :
    ¬ Agree diskContext .initial
        (recordGrpc diskContext .initial (fun _ => none) .new [sampleReported "1.2.1"] true)
        (recordKafka diskContext .initial (fun _ => none) .new "abc" [sampleReported "1.2.1"] true) := by
  intro h
  have hlossy : lossy (sampleReported "1.2.1") = true := by decide +kernel
  obtain hfaithful | ⟨-, hrest⟩ := spared_of_agree (fun _ => unfinalised_new) h
  · rw [hfaithful _ List.mem_cons_self] at hlossy
    cases hlossy
  · have hfirst : sampleReported "1.2.1" ∈ fromLossy [sampleReported "1.2.1"] := by
      rw [fromLossy, List.dropWhile_cons_of_neg (by rw [hlossy]; exact Bool.false_ne_true)]
      exact List.mem_cons_self
    obtain hbeat | hpos := hrest _ hfirst
    · cases hbeat
    · exact absurd hpos (by decide)

end MemoryArchive.Capture.EventSources
