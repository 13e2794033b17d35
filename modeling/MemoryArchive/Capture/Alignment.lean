import MemoryArchive.Capture.Finalise
import MemoryArchive.Capture.StepIds

namespace MemoryArchive.Capture

open Runs

/-- An event that has been recorded as a step. -/
structure RecordedStep where
  step : UInt32
  written : Written

/-- What a command file holds for some recorded events. -/
def recordedText (toCcCommand : CommandEvent → String) (file : CommandFile) (rs : List RecordedStep) : Text :=
  rs.head?.elim [] (fun r => file.header r.written.now) ++
    rs.flatMap fun r => fileLine toCcCommand file r.written r.step.toNat

/-- The four files and the metadata have an entry for each of these events, in
this order and with the same step ids, and nothing else. -/
structure SameSteps (ctx : Context) (rs : List RecordedStep) (files : Files) (m : SessionMetadata) : Prop where
  files : ∀ file, files file = if rs.isEmpty then none else some (recordedText ctx.toCcCommand file rs)
  steps : m.steps.map StepEntry.bare = rs.map fun r => stepEntry ctx r.step r.written.event

/-- The N-th entries of the four files and of the metadata describe the same
event. -/
def Aligned (ctx : Context) (s : Session) : Prop :=
  ∃ l rs, s.loops = [l] ∧ SameSteps ctx rs s.files l.metadata

/-- The next event of the session's only loop. -/
def takeEvent (ctx : Context) (s : Session) (input : EventInput) : Session := s.step ctx (.event 0 input)

def recordedEvent (ctx : Context) (l : WatchLoop) (input : EventInput) : RecordedStep where
  step := l.writer.stepCounter + 1
  written := ⟨input.event, (ctx.toHumanReadable input.event).toList, input.now⟩

/-- All of the four files and the metadata gain an entry for the event, or none
of them gains anything. -/
def GainsTogether (ctx : Context) (s : Session) (input : EventInput) (s' : Session) : Prop :=
  ∀ l rs, s.loops = [l] → SameSteps ctx rs s.files l.metadata →
    ∃ l', s'.loops = [l'] ∧ (SameSteps ctx rs s'.files l'.metadata ∨
      SameSteps ctx (rs ++ [recordedEvent ctx l input]) s'.files l'.metadata)

/-- None of the four appends fails. -/
def writesAll (input : EventInput) : Bool :=
  (input.failure .rawInput).isNone && (input.failure .convertedInput).isNone &&
    (input.failure .actuationCommands).isNone && (input.failure .ccCommands).isNone

/-- The first append fails and leaves nothing behind. It makes a file that was
not there. -/
def writesNothing (files : Files) (input : EventInput) : Bool :=
  match input.failure .rawInput with
  | none => false
  | some .refused => true
  | some (.cut length) => length = 0 && (files .rawInput).isSome

def keepsAligned (s : Session) (input : EventInput) : Bool :=
  input.event.actionType = "position" || writesAll input || writesNothing s.files input

/-- A watch of a new session whose stream is there. -/
def recordingStart (ctx : Context) (flushed : Bool) : Session :=
  run (Session.step ctx) (Session.start true) [.startWatch, .connect 0 true flushed]

section Writes

variable {toCcCommand : CommandEvent → String} {files : Files} {file other : CommandFile}

theorem row_ne_nil (step : UInt32) (e : CommandEvent) (cell : Text) : row step e cell ≠ [] := by
  unfold row
  exact List.append_ne_nil_of_right_ne_nil _ (by decide)

/-- A failing append leaves its file as it was only if it writes nothing to a
file that is there. -/
theorem appendLine_unchanged (now : Text) (failure : Failure) {line : Text} (hline : line ≠ []) :
    (appendLine now (some failure) file line files).1 = files ↔
      match failure with
      | .refused => True
      | .cut length => length = 0 ∧ (files file).isSome = true := by
  cases failure with
  | refused => exact iff_of_true rfl trivial
  | cut length =>
    let text := (if (files file).isNone then file.header now else []) ++ line
    have htext : text ≠ [] := fun he => hline (List.append_eq_nil_iff.mp he).2
    have hafter : (appendLine now (some (.cut length)) file line files).1 =
        Function.update files file (some ((files file).getD [] ++ text.take length)) := rfl
    rw [hafter, Function.update_eq_self_iff]
    cases files file with
    | none => simp
    | some old =>
      have hkept : some ((some old).getD [] ++ text.take length) = some old ↔ length = 0 := by
        rw [Option.getD_some, Option.some_inj, List.append_right_eq_self, List.take_eq_nil_iff]
        exact or_iff_left htext
      rw [hkept]
      simp

theorem appendLine_other (now : Text) (failure : Option Failure) (line : Text) (h : other ≠ file) :
    (appendLine now failure file line files).1 other = files other := by
  cases failure with
  | none => exact Function.update_of_ne h _ _
  | some f =>
    cases f with
    | refused => rfl
    | cut length => exact Function.update_of_ne h _ _

theorem appendLine_done (now line : Text) :
    appendLine now none file line files =
      (Function.update files file (some ((files file).getD [] ++
        ((if (files file).isNone then file.header now else []) ++ line))), true) := rfl

theorem appendLine_failed (now : Text) (failure : Failure) (line : Text) :
    (appendLine now (some failure) file line files).2 = false := by
  cases failure with
  | refused => rfl
  | cut length => rfl

theorem appendLine_ok {now line : Text} {failure : Option Failure}
    (h : (appendLine now failure file line files).2 = true) : failure = none := by
  cases failure with
  | none => rfl
  | some f =>
    rw [appendLine_failed] at h
    cases h

theorem andThen_done {first second : Files → Files × Bool} (h : (first files).2 = true) :
    andThen first second files = second (first files).1 := by
  rw [andThen]
  cases hf : first files with
  | mk files' ok =>
    rw [hf] at h
    cases h
    rfl

theorem andThen_failed {first second : Files → Files × Bool} (h : (first files).2 = false) :
    andThen first second files = ((first files).1, false) := by
  rw [andThen]
  cases hf : first files with
  | mk files' ok =>
    rw [hf] at h
    cases h
    rfl

theorem andThen_other {first second : Files → Files × Bool}
    (hfirst : ∀ files, (first files).1 other = files other)
    (hsecond : ∀ files, (second files).1 other = files other) (files : Files) :
    (andThen first second files).1 other = files other := by
  rw [andThen]
  cases hf : first files with
  | mk files' ok =>
    have hkept := hfirst files
    rw [hf] at hkept
    cases ok with
    | true => exact (hsecond files').trans hkept
    | false => exact hkept

section Event

variable {ctx : Context} {s : Session} {l : WatchLoop} {input : EventInput}

/-- The four appends of an event that none of them fails for. -/
theorem writeEvent_all (toCcCommand : CommandEvent → String) (files : Files) (w : CommandWriter)
    (hlocal : w.isCloudPrimary = false) (hall : writesAll input = true) (converted : Text) :
    w.writeEvent toCcCommand input.now input.failure input.event converted files =
      ({ w with stepCounter := w.stepCounter + 1 },
        appendAll toCcCommand ⟨input.event, converted, input.now⟩ (w.stepCounter + 1).toNat files,
        some (w.stepCounter + 1)) := by
  simp only [writesAll, Bool.and_eq_true, Option.isNone_iff_eq_none] at hall
  obtain ⟨⟨⟨hraw, hconverted⟩, hactuation⟩, hcc⟩ := hall
  simp only [CommandWriter.writeEvent, hlocal, hraw, hconverted, hactuation, hcc, Bool.false_eq_true,
    if_false, andThen, CommandWriter.appendRaw, CommandWriter.appendConverted, CommandWriter.appendJsonl,
    CommandWriter.appendCcCommand, appendLine]
  generalize w.stepCounter + 1 = step
  congr 2
  funext file
  cases file <;> simp [appendAll, fileLine, ccEntry]

/-- An event that some append fails for is no step. The files are as they were
only if it was the first append and wrote nothing. -/
theorem writeEvent_part (toCcCommand : CommandEvent → String) (files : Files) (w : CommandWriter)
    (hlocal : w.isCloudPrimary = false) (hpart : writesAll input = false) (converted : Text) :
    (w.writeEvent toCcCommand input.now input.failure input.event converted files).2.2 = none ∧
      ((w.writeEvent toCcCommand input.now input.failure input.event converted files).2.1 = files ↔
        writesNothing files input = true) := by
  let step := w.stepCounter + 1
  let line := row step input.event input.event.rawCommand.toList
  let raw := appendLine input.now (input.failure .rawInput) .rawInput line
  let rest :=
    andThen (CommandWriter.appendConverted input.now (input.failure .convertedInput) step input.event converted)
      (andThen (CommandWriter.appendJsonl input.now (input.failure .actuationCommands) input.event)
        (CommandWriter.appendCcCommand toCcCommand input.now (input.failure .ccCommands) step input.event))
  have hwrite : w.writeEvent toCcCommand input.now input.failure input.event converted files =
      ({ w with stepCounter := step }, (andThen raw rest files).1,
        if (andThen raw rest files).2 = true then some step else none) := by
    rw [CommandWriter.writeEvent, if_neg (by simp [hlocal])]
    dsimp only
    split
    · rename_i fs h
      rw [show andThen raw rest files = (fs, true) from h, if_pos rfl]
    · rename_i fs h
      rw [show andThen raw rest files = (fs, false) from h, if_neg Bool.false_ne_true]
  have hrest : (rest (raw files).1).2 = true → (input.failure .convertedInput).isNone = true ∧
      (input.failure .actuationCommands).isNone = true ∧ (input.failure .ccCommands).isNone = true := by
    intro hok
    obtain ⟨hconverted, hlater, -⟩ := andThen_ok hok
    obtain ⟨hactuation, hcc, -⟩ := andThen_ok hlater
    rw [appendLine_ok hconverted, appendLine_ok hactuation, appendLine_ok hcc]
    exact ⟨rfl, rfl, rfl⟩
  have hother : ∀ fs, (rest fs).1 .rawInput = fs .rawInput :=
    andThen_other (fun _ => appendLine_other _ _ _ (by decide))
      (andThen_other (fun _ => appendLine_other _ _ _ (by decide))
        fun _ => appendLine_other _ _ _ (by decide))
  rw [hwrite, writesNothing]
  cases hraw : input.failure .rawInput with
  | some f =>
    have hlast : raw files = appendLine input.now (some f) .rawInput line files := by rw [← hraw]
    have hok : (raw files).2 = false := by
      rw [hlast]
      exact appendLine_failed _ f _
    rw [andThen_failed hok]
    refine ⟨rfl, ?_⟩
    dsimp only
    rw [hlast, appendLine_unchanged _ f (row_ne_nil _ _ _)]
    cases f with
    | refused => exact iff_of_true trivial rfl
    | cut length => simp
  | none =>
    have hfirst : raw files = appendLine input.now none .rawInput line files := by rw [← hraw]
    have hok : (raw files).2 = true := by rw [hfirst, appendLine_done]
    have hfail : (rest (raw files).1).2 = false := by
      rw [Bool.eq_false_iff]
      intro hall
      obtain ⟨hconverted, hactuation, hcc⟩ := hrest hall
      rw [writesAll, hraw, hconverted, hactuation, hcc] at hpart
      cases hpart
    rw [andThen_done hok]
    have hraw' := hother (raw files).1
    generalize rest (raw files).1 = r at hfail hraw'
    obtain ⟨after, ok⟩ := r
    cases hfail
    refine ⟨rfl, iff_of_false ?_ Bool.false_ne_true⟩
    dsimp only at hraw' ⊢
    rintro rfl
    rw [hfirst, appendLine_done] at hraw'
    dsimp only at hraw'
    rw [Function.update_self] at hraw'
    cases hold : after .rawInput with
    | none =>
      rw [hold] at hraw'
      cases hraw'
    | some old =>
      rw [hold, Option.some_inj, Option.getD_some, List.self_eq_append_right] at hraw'
      exact row_ne_nil _ _ _ (List.append_eq_nil_iff.mp hraw').2

end Event

end Writes

section Steps

variable {ctx : Context} {s : Session} {l : WatchLoop} {input : EventInput} {rs : List RecordedStep}
  {files : Files} {m m' : SessionMetadata}

theorem recordedText_append (toCcCommand : CommandEvent → String) (file : CommandFile)
    (rs : List RecordedStep) (r : RecordedStep) :
    recordedText toCcCommand file (rs ++ [r]) =
      recordedText toCcCommand file rs ++ ((if rs.isEmpty then file.header r.written.now else []) ++
        fileLine toCcCommand file r.written r.step.toNat) := by
  cases rs with
  | nil => simp [recordedText]
  | cons r' rs => simp [recordedText]

theorem sameSteps_congr (h : SameSteps ctx rs files m) (hsteps : m'.steps = m.steps) :
    SameSteps ctx rs files m' :=
  ⟨h.files, by rw [hsteps, h.steps]⟩

theorem sameSteps_append (h : SameSteps ctx rs files m) (r : RecordedStep)
    (hsteps : m'.steps.map StepEntry.bare =
      m.steps.map StepEntry.bare ++ [stepEntry ctx r.step r.written.event]) :
    SameSteps ctx (rs ++ [r]) (appendAll ctx.toCcCommand r.written r.step.toNat files) m' := by
  refine ⟨fun file => ?_, ?_⟩
  · have hne : (rs ++ [r]).isEmpty = false := by cases rs <;> rfl
    rw [hne, recordedText_append]
    simp only [appendAll, h.files file]
    cases rs with
    | nil => rfl
    | cons r' rs => rfl
  · rw [hsteps, h.steps, List.map_append]
    rfl

theorem addImage_bare (m : SessionMetadata) (step : UInt32) (image : Vision) :
    (m.addImage step image).steps.map StepEntry.bare = m.steps.map StepEntry.bare :=
  (m.map_addImage StepEntry.bare (fun _ _ => rfl) step image).1

/-- The only loop of a session takes events in local mode. -/
structure AtWork (s : Session) (l : WatchLoop) : Prop where
  loops : s.loops = [l]
  id : l.id = 0
  phase : l.phase = .running
  mode : l.writer.isCloudPrimary = false

theorem takeEvent_eq (h : AtWork s l) (input : EventInput) : takeEvent ctx s input = s.event ctx l input := by
  have hloop : s.loop? 0 = some l := by rw [Session.loop?, h.loops, List.find?_cons, h.id]; rfl
  rw [takeEvent, Session.step, hloop]
  exact if_pos h.phase

theorem takeEvent_position (ctx : Context) (h : AtWork s l) (hpos : input.event.actionType = "position") :
    ∃ l', AtWork (takeEvent ctx s input) l' ∧ (takeEvent ctx s input).files = s.files ∧
      l'.metadata.steps = l.metadata.steps := by
  rw [takeEvent_eq h, Session.event]
  dsimp only
  rw [if_pos hpos]
  exact ⟨{ l with metadata := l.metadata.recordAgentVersion input.event.agentVersion },
    ⟨setLoop_single h.loops rfl, h.id, h.phase, h.mode⟩, rfl, (recordAgentVersion_steps _).1⟩

/-- An event that could not be written in full is no step. -/
theorem takeEvent_part (ctx : Context) (h : AtWork s l) (hpos : input.event.actionType ≠ "position")
    (hpart : writesAll input = false) :
    ∃ l', AtWork (takeEvent ctx s input) l' ∧ l'.metadata.steps = l.metadata.steps ∧
      ((takeEvent ctx s input).files = s.files ↔ writesNothing s.files input = true) := by
  rw [takeEvent_eq h, Session.event]
  dsimp only
  rw [if_neg hpos]
  obtain ⟨hstep, hfiles⟩ := writeEvent_part ctx.toCcCommand s.files l.writer h.mode hpart
    (ctx.toHumanReadable input.event).toList
  obtain ⟨-, hmode⟩ := writeEvent_writer ctx.toCcCommand l.writer input.now input.failure input.event
    (ctx.toHumanReadable input.event).toList s.files
  generalize l.writer.writeEvent ctx.toCcCommand input.now input.failure input.event
    (ctx.toHumanReadable input.event).toList s.files = r at hstep hfiles hmode
  obtain ⟨writer, after, step⟩ := r
  cases hstep
  refine ⟨_, ⟨setLoop_single h.loops rfl, h.id, h.phase, hmode.trans h.mode⟩, ?_, hfiles⟩
  exact (updateKafkaPosition_steps _).1.trans (recordAgentVersion_steps _).1

/-- An event that could is. -/
theorem takeEvent_all (ctx : Context) (h : AtWork s l) (hpos : input.event.actionType ≠ "position")
    (hall : writesAll input = true) :
    ∃ l', AtWork (takeEvent ctx s input) l' ∧
      (takeEvent ctx s input).files = appendAll ctx.toCcCommand (recordedEvent ctx l input).written
        (recordedEvent ctx l input).step.toNat s.files ∧
      l'.metadata.steps.map StepEntry.bare = l.metadata.steps.map StepEntry.bare ++
        [stepEntry ctx (recordedEvent ctx l input).step input.event] := by
  rw [takeEvent_eq h, Session.event]
  dsimp only
  rw [if_neg hpos, writeEvent_all ctx.toCcCommand s.files l.writer h.mode hall]
  dsimp only
  let step := l.writer.stepCounter + 1
  let m := (l.metadata.recordAgentVersion input.event.agentVersion).updateKafkaPosition input.kafka
  have hm : m.steps = l.metadata.steps :=
    (updateKafkaPosition_steps _).1.trans (recordAgentVersion_steps _).1
  have hbare : ((m.appendStep (stepEntry ctx step input.event)).addImage step input.image).steps.map
      StepEntry.bare = l.metadata.steps.map StepEntry.bare ++ [stepEntry ctx step input.event] := by
    rw [addImage_bare, SessionMetadata.appendStep, List.map_append, hm]
    rfl
  let before : Session :=
    { s with files := appendAll ctx.toCcCommand (recordedEvent ctx l input).written step.toNat s.files }
  let l₁ : WatchLoop :=
    { l with
      metadata := (m.appendStep (stepEntry ctx step input.event)).addImage step input.image
      writer := { l.writer with stepCounter := step } }
  obtain ⟨hid, hphase, hwriter, hsteps, hloops, hfiles⟩ := flushIfDue_kept ctx before l₁ input.flushed
  let r := before.flushIfDue ctx l₁ input.flushed
  have hmode : r.1.writer.isCloudPrimary = false := (congrArg CommandWriter.isCloudPrimary hwriter).trans h.mode
  have hflushed : (if r.2.2 = true then (l₁.writer.flushToCloud input.fault r.2.1.files).1 else r.2.1.files) =
      before.files := by
    have hkept : (l₁.writer.flushToCloud input.fault r.2.1.files).1 = r.2.1.files := by
      rw [CommandWriter.flushToCloud, if_neg (by simp [l₁, h.mode])]
    rw [hkept, ite_self]
    exact hfiles
  exact ⟨r.1, ⟨setLoop_single (hloops.trans h.loops) hid.symm, hid.trans h.id, hphase.trans h.phase, hmode⟩,
    hflushed, (congrArg (List.map StepEntry.bare) hsteps).trans hbare⟩

/-- Every event but one that was written in part keeps the entries aligned. -/
theorem keepsAligned_iff (h : AtWork s l) (hsame : SameSteps ctx rs s.files l.metadata) (input : EventInput) :
    GainsTogether ctx s input (takeEvent ctx s input) ∧ Aligned ctx (takeEvent ctx s input) ↔
      keepsAligned s input = true := by
  have honly : ∀ k, s.loops = [k] → k = l := fun k hk => by simpa using hk.symm.trans h.loops
  rw [keepsAligned, Bool.or_eq_true, Bool.or_eq_true, decide_eq_true_eq]
  by_cases hpos : input.event.actionType = "position"
  · obtain ⟨l', hwork, hfiles, hsteps⟩ := takeEvent_position ctx h hpos
    refine iff_of_true ⟨fun k rs' hk hsame' => ⟨l', hwork.loops, .inl ?_⟩, l', rs, hwork.loops, ?_⟩
      (.inl (.inl hpos))
    · rw [honly k hk] at hsame'
      rw [hfiles]
      exact sameSteps_congr hsame' hsteps
    · rw [hfiles]
      exact sameSteps_congr hsame hsteps
  rw [or_iff_right hpos]
  cases hall : writesAll input with
  | true =>
    obtain ⟨l', hwork, hfiles, hsteps⟩ := takeEvent_all ctx h hpos hall
    refine iff_of_true ⟨fun k rs' hk hsame' => ⟨l', hwork.loops, .inr ?_⟩, l', rs ++ [recordedEvent ctx l input], hwork.loops,
      ?_⟩ (.inl rfl)
    · rw [honly k hk] at hsame' ⊢
      rw [hfiles]
      exact sameSteps_append hsame' _ hsteps
    · rw [hfiles]
      exact sameSteps_append hsame _ hsteps
  | false =>
    obtain ⟨l', hwork, hsteps, hfiles⟩ := takeEvent_part ctx h hpos hall
    rw [or_iff_right Bool.false_ne_true, ← hfiles]
    constructor
    · rintro ⟨hgains, -⟩
      obtain ⟨k, hk, hsame' | hsame'⟩ := hgains l rs h.loops hsame
      · funext file
        rw [hsame'.files file, hsame.files file]
      · have hkl : k = l' := by simpa using hk.symm.trans hwork.loops
        have hlength := congrArg List.length hsame'.steps
        rw [hkl, hsteps, hsame.steps] at hlength
        simp at hlength
    · intro hkept
      refine ⟨fun k rs' hk hsame' => ⟨l', hwork.loops, .inl ?_⟩, l', rs, hwork.loops, ?_⟩
      · rw [honly k hk] at hsame'
        rw [hkept]
        exact sameSteps_congr hsame' hsteps
      · rw [hkept]
        exact sameSteps_congr hsame hsteps

theorem atWork_takeEvent (ctx : Context) (h : AtWork s l) (input : EventInput) :
    ∃ l', AtWork (takeEvent ctx s input) l' := by
  by_cases hpos : input.event.actionType = "position"
  · obtain ⟨l', hwork, -⟩ := takeEvent_position ctx h hpos
    exact ⟨l', hwork⟩
  cases hall : writesAll input with
  | true =>
    obtain ⟨l', hwork, -⟩ := takeEvent_all ctx h hpos hall
    exact ⟨l', hwork⟩
  | false =>
    obtain ⟨l', hwork, -⟩ := takeEvent_part ctx h hpos hall
    exact ⟨l', hwork⟩

theorem atWork_start (ctx : Context) (hlocal : ctx.isCloudPrimary = false) (flushed : Bool) :
    ∃ l, AtWork (recordingStart ctx flushed) l ∧
      SameSteps ctx [] (recordingStart ctx flushed).files l.metadata := by
  refine ⟨_, ⟨rfl, rfl, rfl, hlocal⟩, fun file => rfl, rfl⟩

end Steps

/-- In local mode the step records of a new session stay aligned in every run in
which an event is written to all four files or to none of them, and in no other. -/
theorem step_records_aligned_iff (ctx : Context) (hlocal : ctx.isCloudPrimary = false) (flushed : Bool)
    (is : List EventInput) :
    Along (takeEvent ctx) (fun s i s' => GainsTogether ctx s i s' ∧ Aligned ctx s')
        (recordingStart ctx flushed) is ↔
      Guarded (takeEvent ctx) (fun s i => keepsAligned s i = true) (recordingStart ctx flushed) is := by
  let inv (s : Session) : Prop := ∃ l rs, AtWork s l ∧ SameSteps ctx rs s.files l.metadata
  have hstep : ∀ (s : Session) (i : EventInput), inv s →
      (GainsTogether ctx s i (takeEvent ctx s i) ∧ Aligned ctx (takeEvent ctx s i) ↔
        keepsAligned s i = true) := by
    rintro s i ⟨l, rs, hwork, hsame⟩
    exact keepsAligned_iff hwork hsame i
  have hkeep : ∀ (s : Session) (i : EventInput), inv s →
      GainsTogether ctx s i (takeEvent ctx s i) ∧ Aligned ctx (takeEvent ctx s i) →
        inv (takeEvent ctx s i) := by
    rintro s i ⟨l, rs, hwork, hsame⟩ ⟨-, k, rs', hloops, hsame'⟩
    obtain ⟨l', hwork'⟩ := atWork_takeEvent ctx hwork i
    have hkl : k = l' := by simpa using hloops.symm.trans hwork'.loops
    exact ⟨l', rs', hwork', hkl ▸ hsame'⟩
  obtain ⟨l, hwork, hsame⟩ := atWork_start ctx hlocal flushed
  exact along_iff_guarded_steps hstep hkeep _ is ⟨l, [], hwork, hsame⟩

def diskContext : Context := ⟨false, 1, fun e => e.rawCommand, fun e => e.rawCommand⟩

def appendWith (failure : CommandFile → Option Failure) : EventInput where
  event := sampleEvent
  now := "2026-02-25 12:58:04 UTC".toList
  failure := failure
  image := .off
  kafka := none
  flushed := true
  fault := none

/-- An event whose first append is refused, and one that is written. -/
def refusedFirst : List EventInput :=
  [appendWith fun file => if file = .rawInput then some .refused else none, appendWith fun _ => none]

theorem step_records_aligned_refused :
    Along (takeEvent diskContext)
      (fun s i s' => GainsTogether diskContext s i s' ∧ Aligned diskContext s')
      (recordingStart diskContext true) refusedFirst :=
  (step_records_aligned_iff diskContext rfl true refusedFirst).mpr (by decide +kernel)

/-- An event whose second append is refused. -/
def refusedSecond : EventInput :=
  appendWith fun file => if file = .convertedInput then some .refused else none

/-- Its row stays in the first file: the two tables differ, and there is no step. -/
theorem step_records_misaligned :
    ¬ Along (takeEvent diskContext)
        (fun s i s' => GainsTogether diskContext s i s' ∧ Aligned diskContext s')
        (recordingStart diskContext true) [refusedSecond] ∧
      ((takeEvent diskContext (recordingStart diskContext true) refusedSecond).files .rawInput).isSome ∧
      (takeEvent diskContext (recordingStart diskContext true) refusedSecond).files .convertedInput = none ∧
      (takeEvent diskContext (recordingStart diskContext true) refusedSecond).loops.map
        (fun l => l.metadata.steps.length) = [0] := by
  refine ⟨fun h => ?_, by decide +kernel⟩
  obtain ⟨l, hwork, hsame⟩ := atWork_start diskContext rfl true
  have hkeeps := (keepsAligned_iff hwork hsame refusedSecond).mp h.1
  revert hkeeps
  decide +kernel

end MemoryArchive.Capture
