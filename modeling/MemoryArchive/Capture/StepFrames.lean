import MemoryArchive.Capture.StepIds
import MemoryArchive.Vision.Frames

namespace MemoryArchive.Capture

open Runs
open Vision.Frames (VisionPipeline StepImageResult Marker Env Store framePath)

/-- The reason that a step without a frame is recorded with. -/
def skipReason (p : VisionPipeline) (e : CommandEvent) : String :=
  if e.success = false then "command failed"
  else match Vision.Frames.decide e p.pressDelayMs p.typeDelayMs with
    | .skip _ => "action type does not trigger fetch"
    | .fetchAt _ | .fetchAfter _ => "fetch failed"

def imageOf (r : StepImageResult) : StepImage where
  imagePath := String.ofList r.imagePath
  marked := r.marked
  beforeImagePath := r.beforeImagePath.map String.ofList
  afterImagePath := r.afterImagePath.map String.ofList

def visionOf (p : VisionPipeline) (e : CommandEvent) : Option StepImageResult → Vision
  | some r => .fetched (imageOf r)
  | none => .skipped (skipReason p e)

/-- A session and the frames of its steps. -/
structure Filmed where
  session : Session
  store : Store

namespace Filmed

section Step

variable (ctx : Context) (p : VisionPipeline) (mark : Marker)

/-- An event with its frames. The pipeline is asked once the event has been written,
with the id that it has been written with. -/
def film (f : Filmed) (l : WatchLoop) (input : EventInput) (env : Env) : Filmed :=
  let e := input.event
  if e.actionType = "position" then { f with session := f.session.event ctx l input }
  else
    match (l.writer.writeEvent ctx.toCcCommand input.now input.failure e (ctx.toHumanReadable e).toList
        f.session.files).2.2 with
    | none => { f with session := f.session.event ctx l input }
    | some step =>
        let (store, result) := p.process mark e step env f.store
        ⟨f.session.event ctx l { input with image := visionOf p e result }, store⟩

def step (f : Filmed) (i : Input × Env) : Filmed :=
  match i.1 with
  | .event id input =>
      match f.session.loop? id with
      | some l => if l.phase = .running then f.film ctx p mark l input i.2 else f
      | none => f
  | _ => { f with session := f.session.step ctx i.1 }

end Step

end Filmed

/-- A record of a session: the stored one, or the one of a loop. -/
def Session.Has (s : Session) (m : SessionMetadata) : Prop := s.stored = some m ∨ ∃ l ∈ s.loops, l.metadata = m

/-- What a record tells of images. -/
def SessionMetadata.images (m : SessionMetadata) : List StepEntry × List SkippedFetch :=
  (m.steps, m.skippedImageFetches)

section Session

variable {ctx : Context} {s s' : Session} {l : WatchLoop} {m : SessionMetadata}

/-- A change of a session that takes no step: its records tell what those before told,
and its writers have counted no further. -/
structure Still (s s' : Session) : Prop where
  records : ∀ m', s'.Has m' → ∃ m, s.Has m ∧ m'.images = m.images
  writers : ∀ l' ∈ s'.loops, ∃ l ∈ s.loops, l'.writer.stepCounter = l.writer.stepCounter
  single : s'.loops.length ≤ s.loops.length

theorem Still.refl (s : Session) : Still s s := ⟨fun m h => ⟨m, h, rfl⟩, fun l h => ⟨l, h, rfl⟩, le_rfl⟩

theorem Still.trans {s'' : Session} (h : Still s s') (h' : Still s' s'') : Still s s'' where
  records m' hm' := by
    obtain ⟨k, hk, himages⟩ := h'.records m' hm'
    obtain ⟨m, hm, himages'⟩ := h.records k hk
    exact ⟨m, hm, himages.trans himages'⟩
  writers l' hl' := by
    obtain ⟨k, hk, hcounter⟩ := h'.writers l' hl'
    obtain ⟨l, hl, hcounter'⟩ := h.writers k hk
    exact ⟨l, hl, hcounter.trans hcounter'⟩
  single := h'.single.trans h.single

/-- Other parts of a session may change at will. -/
theorem Still.of_stored (hloops : s'.loops = s.loops)
    (hstored : ∀ m', s'.stored = some m' → ∃ m, s.Has m ∧ m'.images = m.images) : Still s s' where
  records m' hm' := by
    obtain hm' | ⟨l, hl, rfl⟩ := hm'
    · exact hstored m' hm'
    · exact ⟨l.metadata, .inr ⟨l, hloops ▸ hl, rfl⟩, rfl⟩
  writers l' hl' := ⟨l', hloops ▸ hl', rfl⟩
  single := by rw [hloops]

theorem Still.of_eq (hloops : s'.loops = s.loops) (hstored : s'.stored = s.stored) : Still s s' :=
  .of_stored hloops fun m' hm' => ⟨m', .inl (hstored ▸ hm'), rfl⟩

theorem Still.setLoop (h : Still s s') {l' : WatchLoop} (hl : l ∈ s'.loops)
    (himages : l'.metadata.images = l.metadata.images)
    (hcounter : l'.writer.stepCounter = l.writer.stepCounter) : Still s (s'.setLoop l') := by
  refine h.trans ⟨fun m' hm' => ?records, fun k hk => ?writers, ?single⟩
  case records =>
    obtain hm' | ⟨k, hk, rfl⟩ := hm'
    · exact ⟨m', .inl hm', rfl⟩
    · obtain rfl | hk := Session.mem_setLoop hk
      · exact ⟨l.metadata, .inr ⟨l, hl, rfl⟩, himages⟩
      · exact ⟨k.metadata, .inr ⟨k, hk, rfl⟩, rfl⟩
  case writers =>
    obtain rfl | hk := Session.mem_setLoop hk
    · exact ⟨l, hl, hcounter⟩
    · exact ⟨k, hk, rfl⟩
  case single => rw [Session.setLoop, List.length_map]

theorem Still.dropLoop (h : Still s s') (id : Nat) : Still s (s'.dropLoop id) := by
  refine h.trans ⟨fun m' hm' => ?_, fun k hk => ⟨k, Session.mem_dropLoop hk, rfl⟩, List.length_filter_le _ _⟩
  obtain hm' | ⟨k, hk, rfl⟩ := hm'
  · exact ⟨m', .inl hm', rfl⟩
  · exact ⟨k.metadata, .inr ⟨k, Session.mem_dropLoop hk, rfl⟩, rfl⟩

theorem Still.flush (h : Still s s') (hl : l ∈ s'.loops) (himages : m.images = l.metadata.images)
    (flushed : Bool) : Still s (s'.flush m flushed).2 := by
  refine h.trans (.of_stored rfl fun m' hm' => ?_)
  cases flushed with
  | true =>
    cases hm'
    exact ⟨l.metadata, .inr ⟨l, hl, rfl⟩, himages⟩
  | false => exact ⟨m', .inl hm', rfl⟩

theorem still_connect (hl : l ∈ s.loops) (connected flushed : Bool) :
    Still s (s.connect l connected flushed) := by
  rw [Session.connect]
  split
  · have hhandle : Still s { s with handle := some l.id } := .of_eq rfl rfl
    have hflush := hhandle.flush (m := l.metadata.setInProgress "capturing") hl rfl flushed
    exact hflush.setLoop hl rfl rfl
  · exact (Still.refl s).dropLoop l.id

theorem still_leave (hl : l ∈ s.loops) (doneCleanly : Bool) : Still s (s.leave l doneCleanly) := by
  have hmaps : Still s { s with maps := s.maps.removeSession } := .of_eq rfl rfl
  rw [Session.leave]
  split
  · exact .refl s
  · exact hmaps.setLoop hl rfl rfl

theorem still_finish (hl : l ∈ s.loops) (doneCleanly : Bool) (fault : Option Nat) (flushed : Bool) :
    Still s (s.finish ctx l doneCleanly fault flushed) := by
  have hdrop : ∀ s' : Session, Still s s' → Still s ({ s' with handle := none }.dropLoop l.id) := by
    intro s' h
    have hhandle : Still s { s' with handle := none } := h.trans (.of_eq rfl rfl)
    exact hhandle.dropLoop l.id
  have hfiles : Still s { s with files := (l.writer.finalise fault s.files).1 } := .of_eq rfl rfl
  rw [Session.finish]
  dsimp only
  apply hdrop
  split
  · exact hfiles.flush (m := l.metadata.markComplete.clearInProgress) hl rfl flushed
  split
  · exact hfiles.flush (m := l.metadata.markIncomplete.setInProgress "interrupted") hl rfl flushed
  · refine .of_stored rfl fun m' hm' => ?_
    cases flushed with
    | false => exact ⟨m', .inl hm', rfl⟩
    | true =>
      obtain ⟨m, hm, rfl⟩ := Option.map_eq_some_iff.mp hm'
      exact ⟨m, .inl hm, rfl⟩

/-- Changes of the stored record that leave its images alone. -/
theorem images_map {f : SessionMetadata → SessionMetadata} {stored : Option SessionMetadata} {c : Prop}
    [Decidable c] (hf : ∀ m, (f m).images = m.images) {m' : SessionMetadata}
    (h : (if c then stored.map f else stored) = some m') : ∃ m, stored = some m ∧ m'.images = m.images := by
  split at h
  · obtain ⟨m, hm, rfl⟩ := Option.map_eq_some_iff.mp h
    exact ⟨m, hm, hf m⟩
  · exact ⟨m', h, rfl⟩

theorem still_done (input : DoneInput) : Still s (s.done ctx input) := by
  rw [Session.done]
  split
  · exact .of_eq rfl rfl
  · split
    · refine .of_stored rfl fun m' hm' => ?_
      obtain ⟨m₁, hm₁, h₁⟩ := images_map (f := SessionMetadata.clearInProgress) (fun _ => rfl) hm'
      obtain ⟨m₂, hm₂, h₂⟩ := images_map (f := SessionMetadata.markComplete) (fun _ => rfl) hm₁
      obtain ⟨m, hm, h⟩ := images_map (fun m => (rfl : (m.addTokens _ _).images = m.images)) hm₂
      exact ⟨m, .inl hm, h₁.trans (h₂.trans h)⟩
    · exact .refl s

theorem still_reasoningResult (r : ReasoningResult) (written : Bool) :
    Still s (s.reasoningResult r written) := by
  rw [Session.reasoningResult]
  split
  · exact .of_eq rfl rfl
  · exact .refl s

theorem startWatch_spec (ctx : Context) (s : Session) : s.startWatch ctx = s ∨ ∃ m l, s.stored = some m ∧
    (s.startWatch ctx).stored = some m ∧ (s.startWatch ctx).loops = s.loops ++ [l] ∧ l.metadata = m ∧
      l.writer.stepCounter = 0 := by
  rw [Session.startWatch]
  split
  · split
    · exact .inl rfl
    · rename_i m hm
      exact .inr ⟨m, _, hm, hm, rfl, rfl, rfl⟩
  · exact .inl rfl

/-- Only events and watches take steps. -/
theorem still_step {i : Input} (hevent : ∀ id input, i ≠ .event id input) (hwatch : i ≠ .startWatch) :
    Still s (s.step ctx i) := by
  have hloop : ∀ id l, s.loop? id = some l → l ∈ s.loops := fun id l hl => (Session.loop?_mem hl).1
  cases i with
  | startWatch => exact absurd rfl hwatch
  | event id input => exact absurd rfl (hevent id input)
  | connect id connected flushed =>
    cases hl : s.loop? id with
    | none => simpa only [Session.step, hl] using Still.refl s
    | some l =>
      simp only [Session.step, hl]
      split
      · exact still_connect (hloop id l hl) connected flushed
      · exact .refl s
  | leave id doneCleanly =>
    cases hl : s.loop? id with
    | none => simpa only [Session.step, hl] using Still.refl s
    | some l =>
      simp only [Session.step, hl]
      split
      · exact still_leave (hloop id l hl) doneCleanly
      · exact .refl s
  | finish id fault flushed =>
    cases hl : s.loop? id with
    | none => simpa only [Session.step, hl] using Still.refl s
    | some l =>
      simp only [Session.step, hl]
      split
      · exact still_finish (hloop id l hl) _ fault flushed
      · exact .refl s
      · exact .refl s
  | done input => exact still_done input
  | reasoningResult r written => exact still_reasoningResult r written

theorem images_recordAgentVersion (version : String) : (m.recordAgentVersion version).images = m.images := by
  rw [SessionMetadata.recordAgentVersion]
  split
  · rfl
  · rfl

theorem images_updateKafkaPosition (position : Option (Int32 × Int64)) :
    (m.updateKafkaPosition position).images = m.images := by
  cases position with
  | none => rfl
  | some _ => rfl

/-- What the receipt of an event notes in a record leaves its images alone. -/
theorem images_received (version : String) (position : Option (Int32 × Int64)) :
    ((m.recordAgentVersion version).updateKafkaPosition position).images = m.images :=
  (images_updateKafkaPosition position).trans (images_recordAgentVersion version)

/-- A step that is written has the next id. -/
theorem writeEvent_id {toCcCommand : CommandEvent → String} {w : CommandWriter} {now converted : Text}
    {failure : CommandFile → Option Failure} {e : CommandEvent} {files : Files} {step : UInt32}
    (h : (w.writeEvent toCcCommand now failure e converted files).2.2 = some step) :
    step = w.stepCounter + 1 := by
  rw [CommandWriter.writeEvent] at h
  dsimp only at h
  split at h
  · exact (Option.some.inj h).symm
  · split at h
    · exact (Option.some.inj h).symm
    · cases h

/-- The record of a loop once an event has been written as a step. -/
def nextRecord (ctx : Context) (l : WatchLoop) (input : EventInput) (step : UInt32) : SessionMetadata :=
  (((l.metadata.recordAgentVersion input.event.agentVersion).updateKafkaPosition input.kafka).appendStep
    (stepEntry ctx step input.event)).addImage step input.image

variable {input : EventInput} {step : UInt32}

/-- What an event leaves of the only loop, and what it stores. -/
theorem event_position (hloops : s.loops = [l]) (hpos : input.event.actionType = "position") :
    Still s (s.event ctx l input) := by
  have hl : l ∈ s.loops := hloops ▸ List.mem_cons_self
  rw [Session.event]
  dsimp only
  rw [if_pos hpos]
  exact (Still.refl s).setLoop hl (images_recordAgentVersion _) rfl

theorem event_refused (hloops : s.loops = [l]) (hpos : input.event.actionType ≠ "position")
    (hwrite : (l.writer.writeEvent ctx.toCcCommand input.now input.failure input.event
      (ctx.toHumanReadable input.event).toList s.files).2.2 = none) :
    (s.event ctx l input).stored = s.stored ∧ ∃ l', (s.event ctx l input).loops = [l'] ∧
      l'.writer.stepCounter = l.writer.stepCounter + 1 ∧ l'.metadata.images = l.metadata.images := by
  have hcounter := (writeEvent_writer ctx.toCcCommand l.writer input.now input.failure input.event
    (ctx.toHumanReadable input.event).toList s.files).1
  rw [Session.event]
  dsimp only
  rw [if_neg hpos]
  generalize l.writer.writeEvent ctx.toCcCommand input.now input.failure input.event
    (ctx.toHumanReadable input.event).toList s.files = r at hwrite hcounter
  obtain ⟨writer, files, step⟩ := r
  cases hwrite
  exact ⟨rfl, _, setLoop_single hloops rfl, hcounter, images_received _ _⟩

theorem flushIfDue_images (ctx : Context) (s : Session) (l : WatchLoop) (flushed : Bool) :
    (s.flushIfDue ctx l flushed).1.metadata.images = l.metadata.images ∧
      ((s.flushIfDue ctx l flushed).2.1.stored = s.stored ∨
        ∃ m, (s.flushIfDue ctx l flushed).2.1.stored = some m ∧ m.images = l.metadata.images) := by
  rw [Session.flushIfDue]
  dsimp only
  split
  · refine ⟨rfl, ?_⟩
    cases flushed with
    | true => exact .inr ⟨_, rfl, rfl⟩
    | false => exact .inl rfl
  · exact ⟨rfl, .inl rfl⟩

theorem event_recorded (ctx : Context) (input : EventInput) (hloops : s.loops = [l])
    (hpos : input.event.actionType ≠ "position")
    (hwrite : (l.writer.writeEvent ctx.toCcCommand input.now input.failure input.event
      (ctx.toHumanReadable input.event).toList s.files).2.2 = some step) :
    ((s.event ctx l input).stored = s.stored ∨
        ∃ m, (s.event ctx l input).stored = some m ∧ m.images = (nextRecord ctx l input step).images) ∧
      ∃ l', (s.event ctx l input).loops = [l'] ∧ l'.writer.stepCounter = l.writer.stepCounter + 1 ∧
        l'.metadata.images = (nextRecord ctx l input step).images := by
  have hcounter := (writeEvent_writer ctx.toCcCommand l.writer input.now input.failure input.event
    (ctx.toHumanReadable input.event).toList s.files).1
  rw [Session.event]
  dsimp only
  rw [if_neg hpos]
  generalize l.writer.writeEvent ctx.toCcCommand input.now input.failure input.event
    (ctx.toHumanReadable input.event).toList s.files = r at hwrite hcounter
  obtain ⟨writer, files, _⟩ := r
  cases hwrite
  dsimp only
  obtain ⟨hid, -, hwriter, -, hkept, -⟩ := flushIfDue_kept ctx { s with files := files }
    { l with metadata := nextRecord ctx l input step, writer := writer } input.flushed
  obtain ⟨himages, hstored⟩ := flushIfDue_images ctx { s with files := files }
    { l with metadata := nextRecord ctx l input step, writer := writer } input.flushed
  exact ⟨hstored, _, setLoop_single (hkept.trans hloops) hid.symm, (congrArg _ hwriter).trans hcounter, himages⟩

/-- The image goes to the step that has just been appended. -/
theorem nextRecord_fetched {image : StepImage} (himage : input.image = .fetched image)
    (hother : ∀ e ∈ l.metadata.steps, e.stepId ≠ step) :
    (nextRecord ctx l input step).images =
      (l.metadata.steps ++ [(stepEntry ctx step input.event).setImage image],
        l.metadata.skippedImageFetches) := by
  have hsame := images_received (m := l.metadata) input.event.agentVersion input.kafka
  rw [nextRecord, himage]
  generalize (l.metadata.recordAgentVersion input.event.agentVersion).updateKafkaPosition input.kafka = m
    at hsame
  obtain ⟨hsteps, hskipped⟩ := Prod.mk.inj hsame
  refine Prod.ext ?_ hskipped
  change updateFirst step _ (m.steps ++ [stepEntry ctx step input.event]) = _
  rw [hsteps]
  exact updateFirst_append _ _ _ _ hother rfl

theorem nextRecord_skipped {reason : String} (himage : input.image = .skipped reason) :
    (nextRecord ctx l input step).images =
      (l.metadata.steps ++ [stepEntry ctx step input.event],
        l.metadata.skippedImageFetches ++ [⟨step, reason⟩]) := by
  have hsame := images_received (m := l.metadata) input.event.agentVersion input.kafka
  rw [nextRecord, himage]
  generalize (l.metadata.recordAgentVersion input.event.agentVersion).updateKafkaPosition input.kafka = m
    at hsame
  obtain ⟨hsteps, hskipped⟩ := Prod.mk.inj hsame
  exact Prod.ext (congrArg (· ++ [stepEntry ctx step input.event]) hsteps)
    (congrArg (· ++ [SkippedFetch.mk step reason]) hskipped)

end Session

namespace Filmed

section Invariant

variable (ctx : Context) (p : VisionPipeline) (mark : Marker)

/-- An entry comes from an event of the run: without an image, or with the frames that
its paths lead to. -/
def Pictured (taken : List (Input × Env)) (store : Store) (e : StepEntry) : Prop :=
  ∃ id input env, (Input.event id input, env) ∈ taken ∧
    (e = stepEntry ctx e.stepId input.event ∨
      ∃ r, e = (stepEntry ctx e.stepId input.event).setImage (imageOf r) ∧
        VisionPipeline.Kept p mark input.event e.stepId env r store)

/-- The steps without an image are the skipped ones, in their order. -/
def Skips (m : SessionMetadata) : Prop :=
  m.skippedImageFetches.map (·.stepId) = (m.steps.filter fun e => !e.imageFetched).map (·.stepId)

/-- One loop at most numbers the steps, and every record tells of frames that stand. -/
structure InFrame (taken : List (Input × Env)) (f : Filmed) : Prop where
  single : f.session.loops.length ≤ 1
  counters : ∀ l ∈ f.session.loops, l.writer.stepCounter.toNat ≤ taken.length
  ids : ∀ m, f.session.Has m → ∀ l ∈ f.session.loops, ∀ e ∈ m.steps, e.stepId.toNat ≤ l.writer.stepCounter.toNat
  pictured : ∀ m, f.session.Has m → ∀ e ∈ m.steps, Pictured ctx p mark taken f.store e
  skips : ∀ m, f.session.Has m → Skips m

/-- A watch starts when no other watch goes on, on a record without steps. -/
def Alone (f : Filmed) (i : Input × Env) : Prop :=
  i.1 = .startWatch → f.session.loops = [] ∧ ∀ m, f.session.stored = some m → m.steps = []

end Invariant

section Steps

variable {ctx : Context} {p : VisionPipeline} {mark : Marker}
  {taken : List (Input × Env)} {f : Filmed} {e : StepEntry} {store store' : Store}

theorem Pictured.mono (h : Pictured ctx p mark taken store e) (i : Input × Env) :
    Pictured ctx p mark (taken ++ [i]) store e := by
  obtain ⟨id, input, env, hmem, h⟩ := h
  exact ⟨id, input, env, List.mem_append_left _ hmem, h⟩

/-- The frames of a step stay when those of another one are written. -/
theorem Pictured.other (h : Pictured ctx p mark taken store e) {step : UInt32} {ts : Text}
    (hne : e.stepId ≠ step)
    (hsame : ∀ q, (∀ suffix ext, q ≠ p.place (framePath step ts suffix ext)) → store' q = store q) :
    Pictured ctx p mark taken store' e := by
  obtain ⟨id, input, env, hmem, hbare | ⟨r, hentry, hkept⟩⟩ := h
  · exact ⟨id, input, env, hmem, .inl hbare⟩
  · refine ⟨id, input, env, hmem,
      .inr ⟨r, hentry, hkept.congr fun suffix ext => hsame _ fun suffix' ext' => ?_⟩⟩
    intro h
    exact hne (Vision.Frames.framePath_step (VisionPipeline.place_inj h))

theorem skips_congr {m m' : SessionMetadata} (himages : m'.images = m.images) (h : Skips m) : Skips m' := by
  obtain ⟨hsteps, hskipped⟩ := Prod.mk.inj himages
  rw [Skips, hsteps, hskipped]
  exact h

/-- What takes no step keeps everything in frame. -/
theorem InFrame.still (h : InFrame ctx p mark taken f) (i : Input × Env) {s : Session}
    (hs : Still f.session s) : InFrame ctx p mark (taken ++ [i]) { f with session := s } where
  single := hs.single.trans h.single
  counters l' hl' := by
    obtain ⟨l, hl, hcounter⟩ := hs.writers l' hl'
    rw [hcounter, List.length_append]
    exact Nat.le_add_right_of_le (h.counters l hl)
  ids m' hm' l' hl' e he := by
    obtain ⟨m, hm, himages⟩ := hs.records m' hm'
    obtain ⟨l, hl, hcounter⟩ := hs.writers l' hl'
    rw [hcounter]
    exact h.ids m hm l hl e ((Prod.mk.inj himages).1 ▸ he)
  pictured m' hm' e he := by
    obtain ⟨m, hm, himages⟩ := hs.records m' hm'
    exact (h.pictured m hm e ((Prod.mk.inj himages).1 ▸ he)).mono i
  skips m' hm' := by
    obtain ⟨m, hm, himages⟩ := hs.records m' hm'
    exact skips_congr himages (h.skips m hm)

/-- A record has gained a step, with its frames or as a skipped one. -/
structure Gained (ctx : Context) (p : VisionPipeline) (mark : Marker)
    (taken : List (Input × Env)) (store : Store) (step : UInt32) (m m' : SessionMetadata) (e : StepEntry) :
    Prop where
  steps : m'.steps = m.steps ++ [e]
  id : e.stepId = step
  pictured : Pictured ctx p mark taken store e
  skipped : m'.skippedImageFetches.map (·.stepId) =
    m.skippedImageFetches.map (·.stepId) ++ if e.imageFetched then [] else [step]

theorem Gained.skips {step : UInt32} {m m' : SessionMetadata} (h : Gained ctx p mark taken store step m m' e)
    (hm : Skips m) : Skips m' := by
  rw [Skips, h.skipped, hm, h.steps, List.filter_append, List.map_append]
  cases hfetched : e.imageFetched with
  | true => simp [hfetched]
  | false => simp [hfetched, h.id]

/-- The only loop counts on; records stay or gain the step of that count. -/
theorem InFrame.advance (h : InFrame ctx p mark taken f) (i : Input × Env) (ts : Text)
    (hroom : taken.length + 1 < 2 ^ 32) {s : Session} {l l' : WatchLoop} (hloops : f.session.loops = [l])
    (hloops' : s.loops = [l'])
    (hcounter : l'.writer.stepCounter = l.writer.stepCounter + 1)
    (hrecords : ∀ m', s.Has m' → ∃ m, f.session.Has m ∧ (m'.images = m.images ∨
      ∃ e, Gained ctx p mark (taken ++ [i]) store' (l.writer.stepCounter + 1) m m' e))
    (hsame : ∀ q, (∀ suffix ext, q ≠ p.place (framePath (l.writer.stepCounter + 1) ts suffix ext)) →
      store' q = f.store q) :
    InFrame ctx p mark (taken ++ [i]) ⟨s, store'⟩ := by
  have hl : l ∈ f.session.loops := hloops ▸ List.mem_cons_self
  have hcount := h.counters l hl
  have hnext : (l.writer.stepCounter + 1).toNat = l.writer.stepCounter.toNat + 1 := toNat_succ (by omega)
  have hlater : ∀ k ∈ s.loops, k.writer.stepCounter.toNat = l.writer.stepCounter.toNat + 1 := by
    intro k hk
    obtain rfl := List.mem_singleton.mp (hloops' ▸ hk)
    rw [hcounter, hnext]
  have hold : ∀ m, f.session.Has m → ∀ e ∈ m.steps, e.stepId.toNat ≤ l.writer.stepCounter.toNat ∧
      Pictured ctx p mark (taken ++ [i]) store' e := by
    intro m hm e he
    have hid := h.ids m hm l hl e he
    refine ⟨hid, ((h.pictured m hm e he).other (fun hne => ?_) hsame).mono i⟩
    rw [hne, hnext] at hid
    exact Nat.not_succ_le_self _ hid
  have hentry : ∀ m', s.Has m' → ∀ e ∈ m'.steps, e.stepId.toNat ≤ l.writer.stepCounter.toNat + 1 ∧
      Pictured ctx p mark (taken ++ [i]) store' e := by
    intro m' hm' e he
    obtain ⟨m, hm, himages | ⟨e', hgained⟩⟩ := hrecords m' hm'
    · have hmem := hold m hm e ((Prod.mk.inj himages).1 ▸ he)
      exact ⟨Nat.le_succ_of_le hmem.1, hmem.2⟩
    · rw [hgained.steps, List.mem_append, List.mem_singleton] at he
      obtain he | rfl := he
      · have hmem := hold m hm e he
        exact ⟨Nat.le_succ_of_le hmem.1, hmem.2⟩
      · exact ⟨by rw [hgained.id, hnext], hgained.pictured⟩
  refine ⟨by rw [hloops']; exact le_rfl, fun k hk => ?_, fun m' hm' k hk e he => ?_,
    fun m' hm' e he => (hentry m' hm' e he).2, fun m' hm' => ?_⟩
  · rw [hlater k hk, List.length_append]
    exact Nat.succ_le_succ hcount
  · rw [hlater k hk]
    exact (hentry m' hm' e he).1
  · obtain ⟨m, hm, himages | ⟨e, hgained⟩⟩ := hrecords m' hm'
    · exact skips_congr himages (h.skips m hm)
    · exact hgained.skips (h.skips m hm)

theorem InFrame.startWatch (h : InFrame ctx p mark taken f) (i : Input × Env) (hloops : f.session.loops = [])
    (hempty : ∀ m, f.session.stored = some m → m.steps = []) :
    InFrame ctx p mark (taken ++ [i]) { f with session := f.session.startWatch ctx } := by
  obtain hsame | ⟨m, l, hstored, hstored', hloops', rfl, hcounter⟩ := startWatch_spec ctx f.session
  · rw [hsame]
    exact h.still i (.refl _)
  rw [hloops, List.nil_append] at hloops'
  have honly : ∀ m', (f.session.startWatch ctx).Has m' → m' = l.metadata := by
    rintro m' (hm' | ⟨k, hk, rfl⟩)
    · exact (Option.some.inj (hstored'.symm.trans hm')).symm
    · rw [hloops'] at hk
      rw [List.mem_singleton.mp hk]
  have hno : ∀ m', (f.session.startWatch ctx).Has m' → ∀ e, e ∉ m'.steps := by
    intro m' hm' e he
    rw [honly m' hm', hempty _ hstored] at he
    cases he
  refine ⟨by rw [hloops']; exact le_rfl, fun k hk => ?_, fun m' hm' k hk e he => absurd he (hno m' hm' e),
    fun m' hm' e he => absurd he (hno m' hm' e), fun m' hm' => ?_⟩
  · rw [hloops'] at hk
    rw [List.mem_singleton.mp hk, hcounter]
    exact Nat.zero_le _
  · rw [honly m' hm']
    exact h.skips _ (.inl hstored)

/-- The step that an event takes, in each record that tells of it. -/
theorem InFrame.gained (h : InFrame ctx p mark taken f) (hroom : taken.length + 1 < 2 ^ 32) {id : Nat}
    {input : EventInput} {env : Env} {l : WatchLoop} (hl : l ∈ f.session.loops)
    {result : Option StepImageResult}
    (hkept : ∀ r, result = some r →
      VisionPipeline.Kept p mark input.event (l.writer.stepCounter + 1) env r store)
    {m : SessionMetadata}
    (hm : m.images = (nextRecord ctx l { input with image := visionOf p input.event result }
      (l.writer.stepCounter + 1)).images) :
    ∃ e, Gained ctx p mark (taken ++ [(.event id input, env)]) store (l.writer.stepCounter + 1) l.metadata
      m e := by
  have hlast : (Input.event id input, env) ∈ taken ++ [(.event id input, env)] :=
    List.mem_append_right _ List.mem_cons_self
  cases result with
  | none =>
    obtain ⟨hsteps, hskipped⟩ := Prod.mk.inj (hm.trans (nextRecord_skipped rfl))
    refine ⟨_, hsteps, rfl, ⟨id, input, env, hlast, .inl rfl⟩, ?_⟩
    rw [hskipped, List.map_append]
    rfl
  | some r =>
    have hnew : ∀ e ∈ l.metadata.steps, e.stepId ≠ l.writer.stepCounter + 1 := by
      intro e he hid
      have hle := h.ids l.metadata (.inr ⟨l, hl, rfl⟩) l hl e he
      have hcount := h.counters l hl
      rw [hid, toNat_succ (by omega)] at hle
      exact Nat.not_succ_le_self _ hle
    obtain ⟨hsteps, hskipped⟩ := Prod.mk.inj (hm.trans (nextRecord_fetched rfl hnew))
    refine ⟨_, hsteps, rfl, ⟨id, input, env, hlast, .inr ⟨r, rfl, hkept r rfl⟩⟩, ?_⟩
    rw [hskipped]
    exact (List.append_nil _).symm

theorem InFrame.film (h : InFrame ctx p mark taken f) (hroom : taken.length + 1 < 2 ^ 32) {id : Nat}
    {input : EventInput} {env : Env} {l : WatchLoop} (hl : f.session.loop? id = some l) :
    InFrame ctx p mark (taken ++ [(.event id input, env)]) (f.film ctx p mark l input env) := by
  have hmem := (Session.loop?_mem hl).1
  have hloops : f.session.loops = [l] := by
    obtain ⟨k, hk⟩ := List.length_eq_one_iff.mp (le_antisymm h.single (List.length_pos_of_mem hmem))
    rw [hk] at hmem ⊢
    rw [List.mem_singleton.mp hmem]
  have hhas : f.session.Has l.metadata := .inr ⟨l, hmem, rfl⟩
  rw [Filmed.film]
  dsimp only
  by_cases hpos : input.event.actionType = "position"
  · rw [if_pos hpos]
    exact h.still _ (event_position hloops hpos)
  rw [if_neg hpos]
  split
  · rename_i hwrite
    obtain ⟨hstored, l', hloops', hcounter, himages⟩ := event_refused hloops hpos hwrite
    refine h.advance _ [] hroom hloops hloops' hcounter ?_ fun _ _ => rfl
    rintro m' (hm' | ⟨k, hk, rfl⟩)
    · exact ⟨m', .inl (hstored ▸ hm'), .inl rfl⟩
    · obtain rfl := List.mem_singleton.mp (hloops' ▸ hk)
      exact ⟨l.metadata, hhas, .inl himages⟩
  · rename_i step hwrite
    obtain rfl := writeEvent_id hwrite
    obtain ⟨hkept, hother⟩ := VisionPipeline.process_spec p mark input.event (l.writer.stepCounter + 1) env
      f.store
    generalize p.process mark input.event (l.writer.stepCounter + 1) env f.store = shot at hkept hother
    obtain ⟨store, result⟩ := shot
    dsimp only at hkept hother ⊢
    obtain ⟨hstored, l', hloops', hcounter, himages⟩ := event_recorded ctx
      { input with image := visionOf p input.event result } hloops hpos hwrite
    refine h.advance _ _ hroom hloops hloops' hcounter ?_ hother
    -- The new step is the same in the record of the loop and in the stored one.
    rintro m' (hm' | ⟨k, hk, rfl⟩)
    · obtain hold | ⟨m, hm, hsame⟩ := hstored
      · exact ⟨m', .inl (hold ▸ hm'), .inl rfl⟩
      · obtain rfl := Option.some.inj (hm.symm.trans hm')
        exact ⟨l.metadata, hhas, .inr (h.gained hroom hmem hkept hsame)⟩
    · obtain rfl := List.mem_singleton.mp (hloops' ▸ hk)
      exact ⟨l.metadata, hhas, .inr (h.gained hroom hmem hkept himages)⟩

theorem InFrame.step (h : InFrame ctx p mark taken f) (hroom : taken.length + 1 < 2 ^ 32) (i : Input × Env)
    (halone : Alone f i) : InFrame ctx p mark (taken ++ [i]) (f.step ctx p mark i) := by
  obtain ⟨i, env⟩ := i
  cases i with
  | event id input =>
    cases hl : f.session.loop? id with
    | none =>
      simp only [Filmed.step, hl]
      exact h.still _ (.refl _)
    | some l =>
      simp only [Filmed.step, hl]
      split
      · exact h.film hroom hl
      · exact h.still _ (.refl _)
  | startWatch =>
    obtain ⟨hloops, hempty⟩ := halone rfl
    exact h.startWatch _ hloops hempty
  | connect | leave | finish | done | reasoningResult =>
    exact h.still _ (still_step (by rintro _ _ ⟨⟩) (by rintro ⟨⟩))

theorem inFrame_start (uploaded : Bool) (store : Store) :
    InFrame ctx p mark [] ⟨Session.start uploaded, store⟩ := by
  have honly : ∀ m, (Session.start uploaded).Has m → m = .initial := by
    rintro m (hm | ⟨k, hk, -⟩)
    · cases uploaded with
      | true => exact (Option.some.inj hm).symm
      | false => cases hm
    · cases hk
  refine ⟨Nat.zero_le _, by rintro l ⟨⟩, by rintro m - l ⟨⟩, fun m hm e he => ?_, fun m hm => ?_⟩
  · rw [honly m hm] at he
    cases he
  · rw [honly m hm]
    rfl

theorem inFrame_run (uploaded : Bool) (store : Store) (is : List (Input × Env)) (hroom : is.length < 2 ^ 32)
    (hg : Guarded (Filmed.step ctx p mark) Alone ⟨Session.start uploaded, store⟩ is) :
    InFrame ctx p mark is (run (Filmed.step ctx p mark) ⟨Session.start uploaded, store⟩ is) := by
  have hstep : ∀ before f i, (before.length < 2 ^ 32 → InFrame ctx p mark before f) → Alone f i →
      (before ++ [i]).length < 2 ^ 32 → InFrame ctx p mark (before ++ [i]) (f.step ctx p mark i) := by
    intro before f i h halone hlength
    rw [List.length_append] at hlength
    exact (h (Nat.lt_of_succ_lt hlength)).step hlength i halone
  exact invariant_history hstep [] _ is (fun _ => inFrame_start uploaded store) hg hroom

/-- In every run of a session that is watched once at a time, from its beginning, each
record of it tells of frames that stand where it says, as they were fetched. -/
theorem recorded_frames_stand (ctx : Context) (p : VisionPipeline)
    (mark : Marker) (uploaded : Bool) (store : Store)
    (is : List (Input × Env)) (hroom : is.length < 2 ^ 32)
    (hg : Guarded (Filmed.step ctx p mark) Alone ⟨Session.start uploaded, store⟩ is) (m : SessionMetadata)
    (hm : (run (Filmed.step ctx p mark) ⟨Session.start uploaded, store⟩ is).session.Has m) :
    ∀ e ∈ m.steps, Pictured ctx p mark is
      (run (Filmed.step ctx p mark) ⟨Session.start uploaded, store⟩ is).store e :=
  (inFrame_run uploaded store is hroom hg).pictured m hm

end Steps

section Sample

/-- A pipeline of a cloud session, and what the eyes answer to it. -/
def samplePipeline : VisionPipeline := ⟨"s1".toList, 500, 1000, true, true⟩

def sampleEnv : Env := ⟨none, some (.empty, []), none, .done, .done, .done, fun _ => true⟩

def filmOnce : List (Input × Env) := watchOnce.map fun i => (i, sampleEnv)

def filmed : Filmed :=
  run (Filmed.step cloudContext samplePipeline fun b _ _ _ => some b) ⟨Session.start true, fun _ => none⟩
    filmOnce

theorem alone_filmOnce : Guarded (Filmed.step cloudContext samplePipeline fun b _ _ _ => some b) Alone
    ⟨Session.start true, fun _ => none⟩ filmOnce := by
  refine ⟨fun _ => ⟨rfl, fun m hm => ?_⟩, ?_, ?_, ?_, ?_, trivial⟩
  · cases hm
    rfl
  · rintro ⟨⟩
  · rintro ⟨⟩
  · rintro ⟨⟩
  · rintro ⟨⟩

/-- The step is recorded with its image, under the path that the image has. -/
theorem recorded_frames_stand_once :
    (filmed.session.stored.map fun m => m.steps.filterMap StepEntry.imagePath) =
      some ["vision/frames/step_0001_20260225_125804_at.png"] ∧
    ∀ m, filmed.session.Has m → ∀ e ∈ m.steps,
      Pictured cloudContext samplePipeline (fun b _ _ _ => some b) filmOnce filmed.store e :=
  ⟨by decide +kernel,
    recorded_frames_stand cloudContext samplePipeline _ true _ filmOnce (by decide) alone_filmOnce⟩

end Sample

end Filmed

end MemoryArchive.Capture
