import MemoryArchive.Capture.Finalise
import MemoryArchive.Capture.Session

namespace MemoryArchive.Capture

open Runs

def SessionMetadata.ids (m : SessionMetadata) : List Nat := m.steps.map fun s => s.stepId.toNat

/-- The ids of the steps are exactly 1 to the step count, in this order. -/
def Numbered (m : SessionMetadata) : Prop := m.ids = List.range' 1 m.totalSteps.toNat

/-- Everywhere in a session the steps are numbered: in the stored metadata and
in the metadata of every loop. -/
structure StepIds (s : Session) : Prop where
  stored : ∀ m, s.stored = some m → Numbered m
  loops : ∀ l ∈ s.loops, Numbered l.metadata

/-- A watch starts on metadata without steps, and every event that a loop takes
is written, before the ids run out. -/
def Recordable (ctx : Context) (s : Session) : Input → Prop
  | .startWatch => ∀ m, s.stored = some m → m.steps = []
  | .event id input => ∀ l, s.loop? id = some l → l.phase = .running →
      input.event.actionType ≠ "position" →
        (ctx.isCloudPrimary = true ∨ ∀ file, input.failure file = none) ∧
          l.metadata.totalSteps.toNat + 1 < 2 ^ 32
  | _ => True

/-- The image of an event goes to the step that has just been written, and no
step before it changes. -/
def ImageFrame (ctx : Context) (s : Session) (i : Input) (s' : Session) : Prop :=
  ∀ id input image l, i = .event id input → input.image = .fetched image →
    s.loop? id = some l → l.phase = .running → input.event.actionType ≠ "position" →
    ∃ l' ∈ s'.loops, l'.id = id ∧ l'.metadata.steps = l.metadata.steps ++
      [(stepEntry ctx (l.metadata.totalSteps + 1) input.event).setImage image]

/-- The counter of a loop's writer is the step count of its metadata. -/
structure InStep (ctx : Context) (l : WatchLoop) : Prop where
  numbered : Numbered l.metadata
  counter : l.writer.stepCounter = l.metadata.totalSteps
  mode : l.writer.isCloudPrimary = ctx.isCloudPrimary

structure Counted (ctx : Context) (s : Session) : Prop where
  stored : ∀ m, s.stored = some m → Numbered m
  loops : ∀ l ∈ s.loops, InStep ctx l

theorem Counted.stepIds {ctx : Context} {s : Session} (h : Counted ctx s) : StepIds s :=
  ⟨h.stored, fun l hl => (h.loops l hl).numbered⟩

theorem andThen_none {first second : Files → Files × Bool} (h₁ : ∀ files, (first files).2 = true)
    (h₂ : ∀ files, (second files).2 = true) (files : Files) : (andThen first second files).2 = true := by
  unfold andThen
  have hfirst := h₁ files
  cases hf : first files with
  | mk files' ok =>
    rw [hf] at hfirst
    cases hfirst
    exact h₂ files'

/-- The counter moves on whether or not the event is written. -/
theorem writeEvent_writer (toCcCommand : CommandEvent → String) (w : CommandWriter) (now : Text)
    (failure : CommandFile → Option Failure) (e : CommandEvent) (converted : Text) (files : Files) :
    (w.writeEvent toCcCommand now failure e converted files).1.stepCounter = w.stepCounter + 1 ∧
      (w.writeEvent toCcCommand now failure e converted files).1.isCloudPrimary =
        w.isCloudPrimary := by
  unfold CommandWriter.writeEvent
  dsimp only
  split
  · exact ⟨rfl, rfl⟩
  · split <;> exact ⟨rfl, rfl⟩

theorem writeEvent_step (toCcCommand : CommandEvent → String) (w : CommandWriter) (now : Text)
    (failure : CommandFile → Option Failure) (e : CommandEvent) (converted : Text) (files : Files)
    (h : w.isCloudPrimary = true ∨ ∀ file, failure file = none) :
    (w.writeEvent toCcCommand now failure e converted files).2.2 = some (w.stepCounter + 1) := by
  unfold CommandWriter.writeEvent
  dsimp only
  split
  · rfl
  · rename_i hlocal
    have hnone : ∀ file, failure file = none := h.resolve_left hlocal
    have happend : ∀ file line files, (appendLine now none file line files).2 = true :=
      fun _ _ _ => rfl
    simp only [hnone, CommandWriter.appendRaw, CommandWriter.appendConverted,
      CommandWriter.appendJsonl, CommandWriter.appendCcCommand]
    have hok := andThen_none (happend .rawInput (row (w.stepCounter + 1) e e.rawCommand.toList))
      (andThen_none (happend .convertedInput (row (w.stepCounter + 1) e converted))
        (andThen_none (happend .actuationCommands (jsonLine e.toJson))
          (happend .ccCommands
            (jsonLine (ccCommandEntry (w.stepCounter + 1) e.osType (toCcCommand e)))))) files
    split
    · rfl
    · rename_i hfail
      rw [hfail] at hok
      cases hok

section Metadata

variable {m : SessionMetadata}

theorem recordAgentVersion_steps (version : String) :
    (m.recordAgentVersion version).steps = m.steps ∧
      (m.recordAgentVersion version).totalSteps = m.totalSteps := by
  unfold SessionMetadata.recordAgentVersion
  split <;> exact ⟨rfl, rfl⟩

theorem updateKafkaPosition_steps (position : Option (Int32 × Int64)) :
    (m.updateKafkaPosition position).steps = m.steps ∧
      (m.updateKafkaPosition position).totalSteps = m.totalSteps := by
  cases position <;> exact ⟨rfl, rfl⟩

theorem addImage_ids (step : UInt32) (vision : Vision) :
    (m.addImage step vision).ids = m.ids ∧ (m.addImage step vision).totalSteps = m.totalSteps :=
  m.map_addImage (fun s => s.stepId.toNat) (fun _ _ => rfl) step vision

theorem Numbered.id_le (h : Numbered m) : ∀ s ∈ m.steps, s.stepId.toNat ≤ m.totalSteps.toNat := by
  intro s hs
  have hmem : s.stepId.toNat ∈ m.ids := List.mem_map.mpr ⟨s, hs, rfl⟩
  rw [h, List.mem_range'_1] at hmem
  omega

theorem toNat_succ {n : UInt32} (h : n.toNat + 1 < 2 ^ 32) : (n + 1).toNat = n.toNat + 1 := by
  rw [UInt32.toNat_add]
  exact Nat.mod_eq_of_lt h

theorem Numbered.appendStep (h : Numbered m) (hroom : m.totalSteps.toNat + 1 < 2 ^ 32)
    (step : StepEntry) (hstep : step.stepId = m.totalSteps + 1) : Numbered (m.appendStep step) := by
  have hids : (m.appendStep step).ids = m.ids ++ [step.stepId.toNat] := by
    simp [SessionMetadata.ids, SessionMetadata.appendStep]
  have htotal : (m.appendStep step).totalSteps.toNat = m.totalSteps.toNat + 1 := toNat_succ hroom
  rw [Numbered, hids, htotal, hstep, toNat_succ hroom, h, List.range'_1_concat, Nat.add_comm 1]

end Metadata

variable {ctx : Context} {s : Session}

theorem counted_setLoop {l : WatchLoop} (h : Counted ctx s) (hl : InStep ctx l) :
    Counted ctx (s.setLoop l) := by
  refine ⟨h.stored, fun k hk => ?_⟩
  obtain rfl | hk := Session.mem_setLoop hk
  · exact hl
  · exact h.loops k hk

theorem counted_dropLoop (h : Counted ctx s) (id : Nat) : Counted ctx (s.dropLoop id) :=
  ⟨h.stored, fun k hk => h.loops k (Session.mem_dropLoop hk)⟩

/-- A flush stores the metadata of the loop or leaves what is stored. -/
theorem counted_flush {m : SessionMetadata} (h : Counted ctx s) (hm : Numbered m) (flushed : Bool) :
    Counted ctx (s.flush m flushed).2 := by
  refine ⟨fun m' hm' => ?_, h.loops⟩
  cases flushed with
  | true =>
    cases hm'
    exact hm
  | false => exact h.stored m' hm'

theorem counted_stored {s' : Session} (h : Counted ctx s) (hloops : s'.loops = s.loops)
    (hstored : ∀ m', s'.stored = some m' → ∃ m, s.stored = some m ∧ (Numbered m → Numbered m')) :
    Counted ctx s' := by
  refine ⟨fun m' hm' => ?_, fun l hl => h.loops l (hloops ▸ hl)⟩
  obtain ⟨m, hm, hn⟩ := hstored m' hm'
  exact hn (h.stored m hm)

theorem counted_flushIfDue {l : WatchLoop} (h : Counted ctx s) (hl : InStep ctx l) (flushed : Bool) :
    InStep ctx (s.flushIfDue ctx l flushed).1 ∧ Counted ctx (s.flushIfDue ctx l flushed).2.1 := by
  unfold Session.flushIfDue
  dsimp only
  split
  · exact ⟨⟨hl.numbered, hl.counter, hl.mode⟩, counted_flush h hl.numbered flushed⟩
  · exact ⟨⟨hl.numbered, hl.counter, hl.mode⟩, h⟩

/-- The loop right after an event has been written, before the flush. -/
def recordStep (ctx : Context) (l : WatchLoop) (input : EventInput) (writer : CommandWriter) :
    WatchLoop :=
  let m := (l.metadata.recordAgentVersion input.event.agentVersion).updateKafkaPosition input.kafka
  let step := l.metadata.totalSteps + 1
  { l with
    metadata := (m.appendStep (stepEntry ctx step input.event)).addImage step input.image
    writer := writer }

/-- An event that is written is recorded as the next step of its loop and then
flushed when that is due. -/
theorem event_written {l : WatchLoop} {input : EventInput} (hl : InStep ctx l)
    (hpos : input.event.actionType ≠ "position")
    (hwrite : ctx.isCloudPrimary = true ∨ ∀ file, input.failure file = none) :
    ∃ writer files files', writer.stepCounter = l.metadata.totalSteps + 1 ∧
      writer.isCloudPrimary = ctx.isCloudPrimary ∧
      s.event ctx l input =
        let r := { s with files := files }.flushIfDue ctx (recordStep ctx l input writer) input.flushed
        { r.2.1 with files := files' }.setLoop r.1 := by
  have hstep := writeEvent_step ctx.toCcCommand l.writer input.now input.failure input.event
    (ctx.toHumanReadable input.event).toList s.files (by rwa [hl.mode])
  obtain ⟨hcounter, hmode⟩ := writeEvent_writer ctx.toCcCommand l.writer input.now input.failure
    input.event (ctx.toHumanReadable input.event).toList s.files
  unfold Session.event
  dsimp only
  rw [if_neg hpos]
  cases hw : l.writer.writeEvent ctx.toCcCommand input.now input.failure input.event
      (ctx.toHumanReadable input.event).toList s.files with
  | mk writer rest =>
    obtain ⟨files, step⟩ := rest
    rw [hw] at hstep hcounter hmode
    cases hstep
    refine ⟨writer, files, ?files, hcounter.trans (by rw [hl.counter]), hmode.trans hl.mode, ?eq⟩
    case eq => rw [recordStep, ← hl.counter]

theorem inStep_recordStep {l : WatchLoop} (input : EventInput) {writer : CommandWriter}
    (hl : InStep ctx l) (hroom : l.metadata.totalSteps.toNat + 1 < 2 ^ 32)
    (hcounter : writer.stepCounter = l.metadata.totalSteps + 1)
    (hmode : writer.isCloudPrimary = ctx.isCloudPrimary) :
    InStep ctx (recordStep ctx l input writer) := by
  let m := (l.metadata.recordAgentVersion input.event.agentVersion).updateKafkaPosition input.kafka
  have hsteps : m.steps = l.metadata.steps :=
    (updateKafkaPosition_steps _).1.trans (recordAgentVersion_steps _).1
  have htotal : m.totalSteps = l.metadata.totalSteps :=
    (updateKafkaPosition_steps _).2.trans (recordAgentVersion_steps _).2
  have hm : Numbered m := by
    rw [Numbered, SessionMetadata.ids, hsteps, htotal]
    exact hl.numbered
  have happend := hm.appendStep (by rwa [htotal])
    (stepEntry ctx (l.metadata.totalSteps + 1) input.event) (by rw [htotal]; rfl)
  obtain ⟨hids, hcount⟩ := addImage_ids (m := m.appendStep
    (stepEntry ctx (l.metadata.totalSteps + 1) input.event)) (l.metadata.totalSteps + 1) input.image
  refine ⟨?_, ?_, hmode⟩
  · rw [Numbered, recordStep]
    exact hids.trans (happend.trans (by rw [hcount]))
  · rw [recordStep]
    refine hcounter.trans (Eq.trans ?_ hcount.symm)
    rw [← htotal]
    rfl

/-- The image of the written step leaves the steps before it alone: their ids
are smaller. -/
theorem recordStep_steps {l : WatchLoop} {input : EventInput} {writer : CommandWriter}
    {image : StepImage} (hl : Numbered l.metadata) (hroom : l.metadata.totalSteps.toNat + 1 < 2 ^ 32)
    (himage : input.image = .fetched image) :
    (recordStep ctx l input writer).metadata.steps = l.metadata.steps ++
      [(stepEntry ctx (l.metadata.totalSteps + 1) input.event).setImage image] := by
  have hsteps : ((l.metadata.recordAgentVersion input.event.agentVersion).updateKafkaPosition
      input.kafka).steps = l.metadata.steps :=
    (updateKafkaPosition_steps _).1.trans (recordAgentVersion_steps _).1
  have hother : ∀ k ∈ l.metadata.steps, k.stepId ≠ l.metadata.totalSteps + 1 := by
    rintro k hk he
    have hle := hl.id_le k hk
    rw [he, toNat_succ hroom] at hle
    omega
  rw [recordStep, himage]
  simp only [SessionMetadata.addImage, SessionMetadata.updateStepImage, SessionMetadata.appendStep,
    hsteps]
  exact updateFirst_append _ _ _ _ hother rfl

theorem counted_event {l : WatchLoop} {input : EventInput} (h : Counted ctx s) (hl : InStep ctx l)
    (hrec : input.event.actionType ≠ "position" →
      (ctx.isCloudPrimary = true ∨ ∀ file, input.failure file = none) ∧
        l.metadata.totalSteps.toNat + 1 < 2 ^ 32) : Counted ctx (s.event ctx l input) := by
  by_cases hpos : input.event.actionType = "position"
  · have he : s.event ctx l input =
        s.setLoop { l with metadata := l.metadata.recordAgentVersion input.event.agentVersion } := by
      unfold Session.event
      dsimp only
      rw [if_pos hpos]
    obtain ⟨hsteps, htotal⟩ := recordAgentVersion_steps (m := l.metadata) input.event.agentVersion
    rw [he]
    refine counted_setLoop h ⟨?_, hl.counter.trans htotal.symm, hl.mode⟩
    rw [Numbered, SessionMetadata.ids, hsteps, htotal]
    exact hl.numbered
  · obtain ⟨hwrite, hroom⟩ := hrec hpos
    obtain ⟨writer, files, files', hcounter, hmode, he⟩ := event_written (s := s) hl hpos hwrite
    have hfiles : Counted ctx { s with files := files } := ⟨h.stored, h.loops⟩
    obtain ⟨hloop, hsession⟩ := counted_flushIfDue hfiles
      (inStep_recordStep input hl hroom hcounter hmode) input.flushed
    rw [he]
    exact counted_setLoop ⟨hsession.stored, hsession.loops⟩ hloop

theorem counted_startWatch (h : Counted ctx s) (hempty : ∀ m, s.stored = some m → m.steps = []) :
    Counted ctx (s.startWatch ctx) := by
  unfold Session.startWatch
  split
  · split
    · exact h
    · rename_i m hm
      have hn := h.stored m hm
      have htotal : m.totalSteps = 0 := by
        have hlength := congrArg List.length hn
        rw [SessionMetadata.ids, hempty m hm, List.length_range'] at hlength
        exact UInt32.toNat_inj.mp hlength.symm
      refine ⟨h.stored, fun l hl => ?_⟩
      obtain hl | hl := List.mem_append.mp hl
      · exact h.loops l hl
      · obtain rfl := List.mem_singleton.mp hl
        exact ⟨hn, htotal.symm, rfl⟩
  · exact h

theorem counted_connect {l : WatchLoop} (h : Counted ctx s) (hl : InStep ctx l)
    (connected flushed : Bool) : Counted ctx (s.connect l connected flushed) := by
  unfold Session.connect
  split
  · have hhandle : Counted ctx { s with handle := some l.id } := ⟨h.stored, h.loops⟩
    have hflush := counted_flush (m := l.metadata.setInProgress "capturing") hhandle hl.numbered flushed
    exact counted_setLoop hflush ⟨hl.numbered, hl.counter, hl.mode⟩
  · exact counted_dropLoop h l.id

theorem counted_leave {l : WatchLoop} (h : Counted ctx s) (hl : InStep ctx l) (doneCleanly : Bool) :
    Counted ctx (s.leave l doneCleanly) := by
  unfold Session.leave
  split
  · exact h
  · exact counted_setLoop ⟨h.stored, h.loops⟩ ⟨hl.numbered, hl.counter, hl.mode⟩

theorem counted_finish {l : WatchLoop} (h : Counted ctx s) (hl : InStep ctx l) (doneCleanly : Bool)
    (fault : Option Nat) (flushed : Bool) :
    Counted ctx (s.finish ctx l doneCleanly fault flushed) := by
  have hfiles : Counted ctx { s with files := (l.writer.finalise fault s.files).1 } :=
    ⟨h.stored, h.loops⟩
  have hdrop : ∀ s' : Session, Counted ctx s' → Counted ctx ({ s' with handle := none }.dropLoop l.id) := by
    intro s' h'
    have hhandle : Counted ctx { s' with handle := none } := ⟨h'.stored, h'.loops⟩
    exact counted_dropLoop hhandle l.id
  unfold Session.finish
  dsimp only
  apply hdrop
  split
  · exact counted_flush (m := l.metadata.markComplete.clearInProgress) hfiles hl.numbered flushed
  split
  · exact counted_flush (m := l.metadata.markIncomplete.setInProgress "interrupted") hfiles
      hl.numbered flushed
  · cases flushed with
    | false => exact h
    | true =>
      refine counted_stored h rfl fun m' hm' => ?_
      obtain ⟨m, hm, rfl⟩ := Option.map_eq_some_iff.mp hm'
      exact ⟨m, hm, id⟩

/-- Changes that leave the steps and their count alone. -/
theorem numbered_map {f : SessionMetadata → SessionMetadata} {stored : Option SessionMetadata}
    {p : Prop} [Decidable p] (hf : ∀ m, Numbered m → Numbered (f m))
    (h : ∀ m, stored = some m → Numbered m) :
    ∀ m, (if p then stored.map f else stored) = some m → Numbered m := by
  intro m hm
  split at hm
  · obtain ⟨m', hm', rfl⟩ := Option.map_eq_some_iff.mp hm
    exact hf m' (h m' hm')
  · exact h m hm

theorem counted_done (h : Counted ctx s) (input : DoneInput) : Counted ctx (s.done ctx input) := by
  unfold Session.done
  split
  · exact ⟨h.stored, h.loops⟩
  · split
    · refine ⟨?_, h.loops⟩
      unfold Session.doneDirect
      dsimp only
      refine numbered_map (f := SessionMetadata.clearInProgress) (fun _ hm => hm) ?_
      refine numbered_map (f := SessionMetadata.markComplete) (fun _ hm => hm) ?_
      exact numbered_map (fun _ hm => hm) h.stored
    · exact h

theorem counted_step (s : Session) (i : Input) (h : Counted ctx s) (hg : Recordable ctx s i) :
    Counted ctx (s.step ctx i) := by
  have hloop : ∀ id l, s.loop? id = some l → InStep ctx l :=
    fun id l hl => h.loops l (Session.loop?_mem hl).1
  cases i with
  | startWatch => exact counted_startWatch h hg
  | connect id connected flushed =>
    cases hl : s.loop? id with
    | none => simpa [Session.step, hl] using h
    | some l =>
      simp only [Session.step, hl]
      split
      · exact counted_connect h (hloop id l hl) connected flushed
      · exact h
  | event id input =>
    cases hl : s.loop? id with
    | none => simpa [Session.step, hl] using h
    | some l =>
      simp only [Session.step, hl]
      split
      · rename_i hphase
        exact counted_event h (hloop id l hl) (hg l hl hphase)
      · exact h
  | leave id doneCleanly =>
    cases hl : s.loop? id with
    | none => simpa [Session.step, hl] using h
    | some l =>
      simp only [Session.step, hl]
      split
      · exact counted_leave h (hloop id l hl) doneCleanly
      · exact h
  | finish id fault flushed =>
    cases hl : s.loop? id with
    | none => simpa [Session.step, hl] using h
    | some l =>
      simp only [Session.step, hl]
      split
      · exact counted_finish h (hloop id l hl) _ fault flushed
      · exact h
      · exact h
  | done input => exact counted_done h input
  | reasoningResult r written =>
    simp only [Session.step, Session.reasoningResult]
    split
    · exact ⟨h.stored, h.loops⟩
    · exact h

theorem imageFrame_step (s : Session) (i : Input) (h : Counted ctx s) (hg : Recordable ctx s i) :
    ImageFrame ctx s i (s.step ctx i) := by
  rintro id input image l rfl himage hl hphase hpos
  obtain ⟨hwrite, hroom⟩ := hg l hl hphase hpos
  obtain ⟨hmem, hid⟩ := Session.loop?_mem hl
  have hin := h.loops l hmem
  obtain ⟨writer, files, files', -, -, he⟩ := event_written (s := s) hin hpos hwrite
  obtain ⟨hid', -, -, hsteps, hloops, -⟩ := flushIfDue_kept ctx { s with files := files }
    (recordStep ctx l input writer) input.flushed
  simp only [Session.step, hl, hphase, if_true, he]
  refine ⟨_, Session.self_mem_setLoop (k := l) ?_ hid'.symm, hid'.trans hid, ?_⟩
  · rw [hloops]
    exact hmem
  · exact hsteps.trans (recordStep_steps hin.numbered hroom himage)

theorem counted_start (uploaded : Bool) : Counted ctx (Session.start uploaded) := by
  refine ⟨fun m hm => ?_, fun l hl => by cases hl⟩
  cases uploaded with
  | true =>
    cases hm
    rfl
  | false => cases hm

/-- In every run of a session whose watches start on metadata without steps and
whose events are all written, the step ids are 1 to n everywhere, and an image
goes to its own step only. -/
theorem step_ids_consecutive (ctx : Context) (uploaded : Bool) (is : List Input)
    (hg : Guarded (Session.step ctx) (Recordable ctx) (Session.start uploaded) is) :
    Along (Session.step ctx) (fun s i s' => StepIds s' ∧ ImageFrame ctx s i s')
      (Session.start uploaded) is :=
  along_run counted_step
    (fun s i h hi => ⟨(counted_step s i h hi).stepIds, imageFrame_step s i h hi⟩)
    (Session.start uploaded) is (counted_start uploaded) hg

def sampleInput : EventInput where
  event := sampleEvent
  now := "2026-02-25 12:58:04 UTC".toList
  failure _ := none
  image := .fetched ⟨"vision/frames/step_0001.png", false, none, none⟩
  kafka := none
  flushed := true
  fault := none

/-- A watch with one step, broken off. -/
def watchOnce : List Input :=
  [.startWatch, .connect 0 true true, .event 0 sampleInput, .leave 0 false, .finish 0 none true]

theorem step_ids_consecutive_sample :
    Along (Session.step cloudContext)
      (fun s i s' => StepIds s' ∧ ImageFrame cloudContext s i s') (Session.start true) watchOnce := by
  apply step_ids_consecutive cloudContext true watchOnce
  refine ⟨fun m hm => ?_, trivial, fun l hl _ _ => ⟨.inl rfl, ?_⟩, trivial, trivial, trivial⟩
  · cases hm
    rfl
  · cases hl
    decide

/-- A session that is watched again after an interruption gives its second step
the id of its first. -/
theorem second_watch_repeats_ids :
    ¬ Along (Session.step cloudContext)
      (fun s i s' => StepIds s' ∧ ImageFrame cloudContext s i s') (Session.start true)
      (watchOnce ++ [.startWatch, .connect 1 true true, .event 1 sampleInput]) := by
  intro h
  have hids : (run (Session.step cloudContext) (Session.start true)
      (watchOnce ++ [.startWatch, .connect 1 true true, .event 1 sampleInput])).stored.map
        SessionMetadata.ids = some [1, 1] := by
    decide +kernel
  obtain ⟨m, hm, hids⟩ := Option.map_eq_some_iff.mp hids
  have hn : Numbered m := h.2.2.2.2.2.2.2.1.1.stored m hm
  have hnodup : m.ids.Nodup := hn ▸ List.nodup_range'
  rw [hids] at hnodup
  revert hnodup
  decide

end MemoryArchive.Capture
