import MemoryArchive.Capture.StepIds
import MemoryArchive.Reasoning.Upserts

namespace MemoryArchive.Capture.ResultEntries

open Reasoning hiding Text
open Runs

/-- An entry that has been put together and is yet to be written. An entry in place of
a missing one has no result. -/
structure Pending where
  result : Option ReasoningResult
  entry : ReasoningEntry

/-- A session with its reasoning.jsonl, the copy of it in the cloud, and the ids of the
results that have been accepted. -/
structure Reported where
  session : Session
  file : File
  object : File
  pending : List Pending
  accepted : List UInt32

/-- A result is answered in two steps: its step is looked up in the stored metadata, and
its entry is written. -/
inductive Act
  | capture (input : Input) (readable : Bool) (now : UInt32 → String)
  | resolve (stepId : UInt32) (model : AutomatedReasoning) (now : String) (readable : Bool)
  | write (n : Nat) (written uploaded : Bool)

def counts (model : AutomatedReasoning) : ReasoningResult :=
  ⟨model.provider.getD "", model.inputTokens.getD 0, model.outputTokens.getD 0⟩

namespace Reported

variable (w : Reported)

def start (uploaded : Bool) : Reported := ⟨.start uploaded, none, none, [], []⟩

/-- The step as the stored metadata has it. -/
def stepMeta (stepId : UInt32) (readable : Bool) : Option StepEntry :=
  if readable then w.session.stored.bind fun m => m.steps.find? fun s => s.stepId = stepId else none

/-- The entries of `write_degraded_placeholders`, at the clean end of an automated
session. -/
def placeholders (input : Input) (readable : Bool) (now : UInt32 → String) : List ReasoningEntry :=
  match input with
  | .finish id _ _ =>
      match w.session.loop? id with
      | some l =>
          if l.phase = .leaving true then
            missingEntries (if readable then w.file else none) l.metadata.steps now
          else []
      | none => []
  | _ => []

def capture (ctx : Context) (input : Input) (readable : Bool) (now : UInt32 → String) : Reported :=
  match input with
  | .reasoningResult _ _ => w
  | _ =>
      { w with
        session := w.session.step ctx input
        pending := w.pending ++ (w.placeholders input readable now).map fun e => ⟨none, e⟩ }

/-- The first half of the ReasoningResult handler. -/
def resolve (stepId : UInt32) (model : AutomatedReasoning) (now : String) (readable : Bool) : Reported :=
  if w.session.registered then
    let step := (w.stepMeta stepId readable).getD (bareStep stepId)
    { w with pending := w.pending ++ [⟨some (counts model), buildAutomatedEntry step model now⟩] }
  else w

/-- An entry is written to the file, which is then uploaded in cloud mode. -/
def write (ctx : Context) (n : Nat) (written uploaded : Bool) : Reported :=
  match w.pending[n]? with
  | none => w
  | some p =>
      let w := { w with pending := w.pending.eraseIdx n }
      if written then
        let file := some (upsertEntry w.file p.entry)
        { w with
          session := p.result.elim w.session fun r => w.session.step ctx (.reasoningResult r true)
          file := file
          object := if ctx.isCloudPrimary && uploaded then file else w.object
          accepted := w.accepted ++ (p.result.map fun _ => p.entry.stepId).toList }
      else w

def step (ctx : Context) : Act → Reported
  | .capture input readable now => w.capture ctx input readable now
  | .resolve stepId model now readable => w.resolve stepId model now readable
  | .write n written uploaded => w.write ctx n written uploaded

end Reported

/-- The entry has what the metadata has of its step. -/
structure Carries (step : StepEntry) (e : ReasoningEntry) : Prop where
  timestamp : e.timestampAction = step.timestamp
  actionType : e.actionType = step.actionType
  actionSubtype : e.actionSubtype = step.actionSubtype
  rawCommand : e.rawCommand = step.rawCommand
  convertedCommand : e.convertedCommand = step.convertedCommand
  imagePath : e.imagePath = step.imagePath

/-- What a file holds for the steps of some metadata agrees with them. -/
def AgreesWith (m : SessionMetadata) (file : File) : Prop :=
  ∀ step ∈ m.steps, ∀ j ∈ entriesOf file step.stepId.toNat, ∃ e : ReasoningEntry, j = e.toJson ∧ Carries step e

def Ended (s : Session) : Prop := s.nextLoop ≠ 0 ∧ s.loops = []

/-- After the watch the entries agree with the metadata, and every accepted result is
one of its steps. -/
def Agreeing (w : Reported) : Prop :=
  Ended w.session →
    (∀ m, w.session.stored = some m → AgreesWith m w.file ∧ AgreesWith m w.object) ∧
      ∀ id ∈ w.accepted, ∃ m, w.session.stored = some m ∧ ∃ step ∈ m.steps, step.stepId = id

/-- The session is watched once, before its step ids run out, and every result finds
its step in the stored metadata. -/
def Settled (w : Reported) : Act → Prop
  | .capture .startWatch _ _ => w.session.nextLoop = 0
  | .capture (.event id input) _ _ => ∀ l, w.session.loop? id = some l → l.phase = .running →
      input.event.actionType ≠ "position" → l.writer.stepCounter.toNat + 1 < 2 ^ 32
  | .capture _ _ _ => True
  | .resolve stepId _ _ readable => w.session.registered = true → (w.stepMeta stepId readable).isSome = true
  | .write _ _ _ => True

section Sessions

variable {ctx : Context} {s : Session} {L : List StepEntry}

/-- A session that is watched at most once, with the steps of its watch. The stored
metadata has the first of them. -/
structure Recording (s : Session) (L : List StepEntry) : Prop where
  loop : s.loops = [] ∨ ∃ l, s.loops = [l] ∧ l.metadata.steps = L ∧
    ∀ e ∈ L, e.stepId.toNat ≤ l.writer.stepCounter.toNat
  fresh : s.nextLoop = 0 → s.loops = [] ∧ L = []
  stored : ∀ m, s.stored = some m → m.steps <+: L
  distinct : (L.map StepEntry.stepId).Nodup

theorem Recording.counted {l : WatchLoop} (h : Recording s L) (hl : s.loops = [l]) :
    ∀ e ∈ l.metadata.steps, e.stepId.toNat ≤ l.writer.stepCounter.toNat := by
  obtain hnone | ⟨k, hk, rfl, hle⟩ := h.loop
  · rw [hl] at hnone
    cases hnone
  · rw [hl] at hk
    obtain rfl := (List.cons.inj hk).1
    exact hle

/-- What is stored does not lose a step. -/
def Grows (s s' : Session) : Prop :=
  ∀ m, s.stored = some m → ∃ m', s'.stored = some m' ∧ m.steps <+: m'.steps

theorem Grows.of_eq {s' : Session} (h : s'.stored = s.stored) : Grows s s' :=
  fun m hm => ⟨m, h.trans hm, List.prefix_refl _⟩

theorem writeEvent_id {toCcCommand : CommandEvent → String} {w : CommandWriter} {now : Text}
    {failure : CommandFile → Option Failure} {e : CommandEvent} {converted : Text} {files : Files}
    {step : UInt32} (h : (w.writeEvent toCcCommand now failure e converted files).2.2 = some step) :
    step = w.stepCounter + 1 := by
  rw [CommandWriter.writeEvent] at h
  dsimp only at h
  split at h
  · exact (Option.some.inj h).symm
  · split at h
    · exact (Option.some.inj h).symm
    · cases h

/-- The image of a new step goes to that step. -/
theorem steps_recorded (m : SessionMetadata) (step : StepEntry) (image : Vision)
    (hnew : ∀ e ∈ m.steps, e.stepId ≠ step.stepId) :
    ∃ step', step'.stepId = step.stepId ∧
      ((m.appendStep step).addImage step.stepId image).steps = m.steps ++ [step'] := by
  cases image with
  | off => exact ⟨step, rfl, rfl⟩
  | skipped reason => exact ⟨step, rfl, rfl⟩
  | fetched image => exact ⟨step.setImage image, rfl, updateFirst_append _ _ _ _ hnew rfl⟩

/-- The stored metadata with the same steps. -/
def KeptSteps (stored stored' : Option SessionMetadata) : Prop :=
  ∃ f : SessionMetadata → SessionMetadata, (∀ m, (f m).steps = m.steps) ∧ stored' = stored.map f

theorem keptSteps_refl (stored : Option SessionMetadata) : KeptSteps stored stored :=
  ⟨id, fun _ => rfl, by rw [Option.map_id, id]⟩

theorem keptSteps_ite {stored stored' : Option SessionMetadata} (h : KeptSteps stored stored') (c : Prop)
    [Decidable c] {g : SessionMetadata → SessionMetadata} (hg : ∀ m, (g m).steps = m.steps) :
    KeptSteps stored (if c then stored'.map g else stored') := by
  obtain ⟨f, hf, rfl⟩ := h
  split
  · exact ⟨g ∘ f, fun m => (hg _).trans (hf m), Option.map_map ..⟩
  · exact ⟨f, hf, rfl⟩

/-- The stored metadata keeps its steps, or gets all steps of the watch. -/
def StoredSteps (s s' : Session) (L : List StepEntry) : Prop :=
  KeptSteps s.stored s'.stored ∨ ∃ m, s'.stored = some m ∧ m.steps = L

theorem storedSteps_same {s' : Session} (h : s'.stored = s.stored) : StoredSteps s s' L :=
  .inl (h ▸ keptSteps_refl s.stored)

theorem storedSteps_flush {m : SessionMetadata} {maps : ReasoningMaps} {s' : Session} (hm : m.steps = L)
    (flushed : Bool) (h : s'.stored = if flushed then some (m.drain maps).1 else s.stored) :
    StoredSteps s s' L := by
  cases flushed with
  | true => exact .inr ⟨_, h, hm⟩
  | false => exact storedSteps_same h

/-- The session goes on with the steps that it has, and perhaps a further one. -/
def Advances (s s' : Session) (L : List StepEntry) : Prop :=
  ∃ L', L <+: L' ∧ Recording s' L' ∧ Grows s s'

theorem Recording.next {s' : Session} {L' : List StepEntry} (h : Recording s L) (hL : L <+: L')
    (hloop : s'.loops = [] ∨ ∃ l, s'.loops = [l] ∧ l.metadata.steps = L' ∧
      ∀ e ∈ L', e.stepId.toNat ≤ l.writer.stepCounter.toNat)
    (hfresh : s'.nextLoop = 0 → s'.loops = [] ∧ L' = []) (hdistinct : (L'.map StepEntry.stepId).Nodup)
    (hstored : StoredSteps s s' L') : Advances s s' L := by
  refine ⟨L', hL, ⟨hloop, hfresh, fun m hm => ?_, hdistinct⟩, fun m hm => ?_⟩
  · obtain ⟨f, hf, hmap⟩ | ⟨m', hm', hsteps⟩ := hstored
    · rw [hmap] at hm
      obtain ⟨m', hm', rfl⟩ := Option.map_eq_some_iff.mp hm
      rw [hf]
      exact (h.stored m' hm').trans hL
    · obtain rfl : m' = m := Option.some.inj (hm'.symm.trans hm)
      exact hsteps ▸ List.prefix_refl _
  · obtain ⟨f, hf, hmap⟩ | ⟨m', hm', hsteps⟩ := hstored
    · exact ⟨f m, by rw [hmap, hm]; rfl, [], by rw [List.append_nil, hf]⟩
    · exact ⟨m', hm', hsteps ▸ (h.stored m hm).trans hL⟩

/-- A step of the loop that records nothing. -/
theorem Recording.keep {s' : Session} {l j : WatchLoop} (h : Recording s L) (hl : s.loops = [l])
    (hloop : s'.loops = [] ∨ s'.loops = [j] ∧ j.metadata.steps = l.metadata.steps ∧
      (∀ e ∈ L, e.stepId.toNat ≤ l.writer.stepCounter.toNat →
        e.stepId.toNat ≤ j.writer.stepCounter.toNat))
    (hnext : s'.nextLoop = s.nextLoop) (hstored : StoredSteps s s' l.metadata.steps) : Advances s s' L := by
  have hlive : s.nextLoop ≠ 0 := by
    intro hzero
    have hnone := (h.fresh hzero).1
    rw [hl] at hnone
    cases hnone
  obtain hnone | ⟨k, hk, hsteps, hcounter⟩ := h.loop
  · rw [hl] at hnone
    cases hnone
  obtain rfl : l = k := by
    rw [hl] at hk
    exact (List.cons.inj hk).1
  refine h.next (List.prefix_refl L) ?_ (fun hzero => absurd (hnext ▸ hzero) hlive) h.distinct
    (hsteps ▸ hstored)
  obtain hgone | ⟨hone, hsame, hle⟩ := hloop
  · exact .inl hgone
  · exact .inr ⟨j, hone, hsame.trans hsteps, fun e he => hle e he (hcounter e he)⟩

theorem advances_startWatch (h : Recording s L) (hfirst : s.nextLoop = 0) :
    Advances s (s.startWatch ctx) L := by
  obtain ⟨hloops, rfl⟩ := h.fresh hfirst
  have hsame : Advances s s [] := ⟨[], List.prefix_refl _, h, Grows.of_eq rfl⟩
  rw [Session.startWatch]
  split
  · split
    · exact hsame
    · rename_i m hm
      have hempty : m.steps = [] := List.prefix_nil.mp (h.stored m hm)
      refine h.next (List.prefix_refl _) (.inr ⟨_, by rw [hloops]; rfl, hempty, fun e he => ?_⟩) ?_
        h.distinct (storedSteps_same rfl)
      · cases he
      · intro hzero
        cases hzero
  · exact hsame

theorem advances_connect {l : WatchLoop} (h : Recording s L) (hl : s.loops = [l]) (connected flushed : Bool) :
    Advances s (s.connect l connected flushed) L := by
  rw [Session.connect]
  split
  · refine h.keep hl (.inr ⟨setLoop_single hl rfl, rfl, fun _ _ hle => hle⟩) rfl ?_
    exact storedSteps_flush (m := l.metadata.setInProgress "capturing") rfl flushed rfl
  · exact h.keep (j := l) hl (.inl (dropLoop_single hl)) rfl (storedSteps_same rfl)

theorem advances_leave {l : WatchLoop} (h : Recording s L) (hl : s.loops = [l]) (doneCleanly : Bool) :
    Advances s (s.leave l doneCleanly) L := by
  rw [Session.leave]
  split
  · exact ⟨L, List.prefix_refl _, h, Grows.of_eq rfl⟩
  · exact h.keep hl (.inr ⟨setLoop_single hl rfl, rfl, fun _ _ hle => hle⟩) rfl (storedSteps_same rfl)

theorem advances_finish {l : WatchLoop} (h : Recording s L) (hl : s.loops = [l]) (doneCleanly : Bool)
    (fault : Option Nat) (flushed : Bool) :
    Advances s (s.finish ctx l doneCleanly fault flushed) L := by
  refine h.keep (j := l) hl (.inl ?_) ?_ ?_
  · rw [Session.finish]
    split
    · exact dropLoop_single hl
    · split <;> exact dropLoop_single hl
  · rw [Session.finish]
    split
    · rfl
    · split <;> rfl
  · rw [Session.finish]
    split
    · exact storedSteps_flush (m := l.metadata.markComplete.clearInProgress) rfl flushed rfl
    · split
      · exact storedSteps_flush (m := l.metadata.markIncomplete.setInProgress "interrupted") rfl flushed rfl
      · cases flushed with
        | true => exact .inl ⟨.markIncomplete, fun _ => rfl, rfl⟩
        | false => exact storedSteps_same rfl

theorem storedSteps_flushIfDue (ctx : Context) (s : Session) (l : WatchLoop) (flushed : Bool) :
    StoredSteps s (s.flushIfDue ctx l flushed).2.1 l.metadata.steps ∧
      (s.flushIfDue ctx l flushed).2.1.nextLoop = s.nextLoop := by
  rw [Session.flushIfDue]
  dsimp only
  split
  · exact ⟨storedSteps_flush (m := l.metadata) rfl flushed rfl, rfl⟩
  · exact ⟨storedSteps_same rfl, rfl⟩

/-- The loop that records a new step. -/
theorem advances_record {l : WatchLoop} (l' : WatchLoop) {step : StepEntry} (h : Recording s L)
    (hl : s.loops = [l])
    (hroom : l.writer.stepCounter.toNat + 1 < 2 ^ 32) (hid : l'.id = l.id)
    (hsteps : l'.metadata.steps = l.metadata.steps ++ [step]) (hstep : step.stepId = l.writer.stepCounter + 1)
    (hcounter : l'.writer.stepCounter = l.writer.stepCounter + 1) (files files' : Files) (flushed : Bool) :
    Advances s
      ({ ({ s with files := files }.flushIfDue ctx l' flushed).2.1 with files := files' }.setLoop
        ({ s with files := files }.flushIfDue ctx l' flushed).1) L := by
  obtain hnone | ⟨k, hk, rfl, hle⟩ := h.loop
  · rw [hl] at hnone
    cases hnone
  obtain rfl : l = k := by
    rw [hl] at hk
    exact (List.cons.inj hk).1
  have hsucc := toNat_succ hroom
  obtain ⟨hloop, -, hwriter, hkept, hloops, -⟩ := flushIfDue_kept ctx { s with files := files } l' flushed
  obtain ⟨hstored, hnext⟩ := storedSteps_flushIfDue ctx { s with files := files } l' flushed
  generalize Session.flushIfDue ctx { s with files := files } l' flushed = r at *
  obtain ⟨l'', s', ok⟩ := r
  dsimp only at *
  refine h.next (List.prefix_append l.metadata.steps [step]) (.inr ⟨l'', ?_, ?_, ?_⟩) ?_ ?_ ?_
  · exact setLoop_single (hloops.trans hl) (hid.symm.trans hloop.symm)
  · exact hkept.trans hsteps
  · intro e he
    rw [hwriter, hcounter, hsucc]
    obtain hearlier | hlast := List.mem_append.mp he
    · exact Nat.le_succ_of_le (hle e hearlier)
    · rw [List.mem_singleton.mp hlast, hstep, hsucc]
  · intro hzero
    have hnone := (h.fresh (hnext.symm.trans hzero)).1
    rw [hl] at hnone
    cases hnone
  · rw [List.map_append, List.nodup_append]
    refine ⟨h.distinct, List.nodup_singleton _, ?_⟩
    intro id hold id' hnew hsame
    obtain ⟨e, he, rfl⟩ := List.mem_map.mp hold
    have hbound := hle e he
    rw [hsame, List.mem_singleton.mp hnew, hstep, hsucc] at hbound
    exact absurd hbound (Nat.not_succ_le_self _)
  · rw [hsteps] at hstored
    exact hstored

/-- An event is one more step, or none if it is a position or could not be written. -/
theorem advances_event {l : WatchLoop} (h : Recording s L) (hl : s.loops = [l]) (input : EventInput)
    (hroom : input.event.actionType ≠ "position" → l.writer.stepCounter.toNat + 1 < 2 ^ 32) :
    Advances s (s.event ctx l input) L := by
  have hversion := (recordAgentVersion_steps (m := l.metadata) input.event.agentVersion).1
  by_cases hpos : input.event.actionType = "position"
  · have hevent : s.event ctx l input =
        s.setLoop { l with metadata := l.metadata.recordAgentVersion input.event.agentVersion } := by
      rw [Session.event]
      exact if_pos hpos
    rw [hevent]
    exact h.keep hl (.inr ⟨setLoop_single hl rfl, hversion, fun _ _ hle => hle⟩) rfl (storedSteps_same rfl)
  · have hsucc := toNat_succ (hroom hpos)
    obtain ⟨hcounter, -⟩ := writeEvent_writer ctx.toCcCommand l.writer input.now input.failure
      input.event (ctx.toHumanReadable input.event).toList s.files
    have hmetadata := (updateKafkaPosition_steps
      (m := l.metadata.recordAgentVersion input.event.agentVersion) input.kafka).1.trans hversion
    rw [Session.event]
    dsimp only
    rw [if_neg hpos]
    cases hwrite : l.writer.writeEvent ctx.toCcCommand input.now input.failure input.event
        (ctx.toHumanReadable input.event).toList s.files with
    | mk writer rest =>
    obtain ⟨files, step⟩ := rest
    rw [hwrite] at hcounter
    dsimp only at hcounter
    cases step with
    | none =>
      refine h.keep hl (.inr ⟨setLoop_single hl rfl, hmetadata, fun e _ hle => ?_⟩) rfl (storedSteps_same rfl)
      change e.stepId.toNat ≤ writer.stepCounter.toNat
      rw [hcounter, hsucc]
      exact Nat.le_succ_of_le hle
    | some step =>
      obtain rfl : step = l.writer.stepCounter + 1 := writeEvent_id (by rw [hwrite])
      have hnew : ∀ e ∈ l.metadata.steps, e.stepId ≠ l.writer.stepCounter + 1 := by
        intro e he hsame
        have hbound := h.counted hl e he
        rw [hsame, hsucc] at hbound
        exact absurd hbound (Nat.not_succ_le_self _)
      obtain ⟨step, hid, hsteps⟩ := steps_recorded
        ((l.metadata.recordAgentVersion input.event.agentVersion).updateKafkaPosition input.kafka)
        (stepEntry ctx (l.writer.stepCounter + 1) input.event) input.image (by rw [hmetadata]; exact hnew)
      rw [hmetadata] at hsteps
      exact advances_record { l with
        metadata := (((l.metadata.recordAgentVersion input.event.agentVersion).updateKafkaPosition
          input.kafka).appendStep (stepEntry ctx (l.writer.stepCounter + 1) input.event)).addImage
            (l.writer.stepCounter + 1) input.image
        writer := writer } h hl (hroom hpos) rfl hsteps hid hcounter files _ input.flushed

theorem keptSteps_doneDirect (ctx : Context) (s : Session) (input : DoneInput) :
    KeptSteps s.stored (s.doneDirect ctx input).stored := by
  rw [Session.doneDirect]
  dsimp only
  apply keptSteps_ite
  · apply keptSteps_ite
    · apply keptSteps_ite
      · exact keptSteps_refl s.stored
      · exact fun _ => rfl
    · exact fun _ => rfl
  · exact fun _ => rfl

theorem advances_done (h : Recording s L) (input : DoneInput) : Advances s (s.done ctx input) L := by
  have hsame : ∀ s' : Session, s'.loops = s.loops → s'.nextLoop = s.nextLoop →
      KeptSteps s.stored s'.stored → Advances s s' L := by
    intro s' hloops hnext hstored
    refine h.next (List.prefix_refl L) ?_ (fun hzero => ?_) h.distinct (.inl hstored)
    · rw [hloops]
      exact h.loop
    · rw [hloops]
      exact h.fresh (hnext ▸ hzero)
  rw [Session.done]
  split
  · exact hsame _ rfl rfl (keptSteps_refl s.stored)
  · split
    · exact hsame _ rfl rfl (keptSteps_doneDirect ctx s input)
    · exact hsame s rfl rfl (keptSteps_refl _)

theorem advances_step (h : Recording s L) (i : Input) (hfirst : i = .startWatch → s.nextLoop = 0)
    (hroom : ∀ id input l, i = .event id input → s.loop? id = some l → l.phase = .running →
      input.event.actionType ≠ "position" → l.writer.stepCounter.toNat + 1 < 2 ^ 32) :
    Advances s (s.step ctx i) L := by
  have hsame : Advances s s L := ⟨L, List.prefix_refl L, h, Grows.of_eq rfl⟩
  have hsingle : ∀ id l, s.loop? id = some l → s.loops = [l] := by
    intro id l hl
    have hmem := (Session.loop?_mem hl).1
    obtain hnone | ⟨k, hk, -⟩ := h.loop
    · rw [hnone] at hmem
      cases hmem
    · rw [loop?_single hk hl]
      exact hk
  cases i with
  | startWatch => exact advances_startWatch h (hfirst rfl)
  | connect id connected flushed =>
    rw [Session.step]
    split
    · rename_i l hl
      split
      · exact advances_connect h (hsingle id l hl) connected flushed
      · exact hsame
    · exact hsame
  | event id input =>
    rw [Session.step]
    split
    · rename_i l hl
      split
      · rename_i hphase
        exact advances_event h (hsingle id l hl) input (hroom id input l rfl hl hphase)
      · exact hsame
    · exact hsame
  | leave id doneCleanly =>
    rw [Session.step]
    split
    · rename_i l hl
      split
      · exact advances_leave h (hsingle id l hl) doneCleanly
      · exact hsame
    · exact hsame
  | finish id fault flushed =>
    rw [Session.step]
    split
    · rename_i l hl
      split
      · exact advances_finish h (hsingle id l hl) _ fault flushed
      · exact hsame
      · exact hsame
    · exact hsame
  | done input => exact advances_done h input
  | reasoningResult r written =>
    rw [Session.step, Session.reasoningResult]
    split
    · exact ⟨L, List.prefix_refl L, ⟨h.loop, h.fresh, h.stored, h.distinct⟩, Grows.of_eq rfl⟩
    · exact hsame

end Sessions

section Files

variable {L L' : List StepEntry} {file : File} {e : ReasoningEntry}

/-- The entry has what a step of the watch has. -/
def Carried (L : List StepEntry) (e : ReasoningEntry) : Prop :=
  ∃ step ∈ L, e.stepId = step.stepId ∧ Carries step e

/-- A value that a file holds for a step id. -/
def Backs (L : List StepEntry) (k : Int) (j : Json) : Prop :=
  ∃ e : ReasoningEntry, j = e.toJson ∧ k = e.key ∧ Carried L e

/-- Every entry of the file is that of a step of the watch. -/
structure Backed (L : List StepEntry) (file : File) : Prop where
  kept : ∀ k j, (keptEntries file).get? k = some j → Backs L k j
  entries : ∀ k, ∀ j ∈ entriesOf file k, Backs L k j

theorem Carried.mono (h : Carried L e) (hL : L <+: L') : Carried L' e := by
  obtain ⟨step, hstep, hcarries⟩ := h
  exact ⟨step, hL.subset hstep, hcarries⟩

theorem Backs.mono {k : Int} {j : Json} (h : Backs L k j) (hL : L <+: L') : Backs L' k j := by
  obtain ⟨e, hj, hk, he⟩ := h
  exact ⟨e, hj, hk, he.mono hL⟩

theorem Backed.mono (h : Backed L file) (hL : L <+: L') : Backed L' file :=
  ⟨fun k j hj => (h.kept k j hj).mono hL, fun k j hj => (h.entries k j hj).mono hL⟩

theorem backed_none : Backed L none where
  kept k j h := by cases h
  entries k j h := by cases h

theorem Backed.upsert (h : Backed L file) (he : Carried L e) : Backed L (some (upsertEntry file e)) := by
  have hinsert : ∀ k j, ((keptEntries file).insert e.key e.toJson).get? k = some j → Backs L k j := by
    intro k j hj
    rw [Table.get?_insert] at hj
    split at hj
    · rename_i hk
      exact ⟨e, (Option.some.inj hj).symm, hk, he⟩
    · exact h.kept k j hj
  refine ⟨fun k j hj => hinsert k j ?_, fun k j hj => hinsert k j ?_⟩
  · rwa [keptEntries_upsertEntry] at hj
  · rw [entriesOf_upsertEntry] at hj
    exact Option.mem_toList.mp hj

/-- The entries of a step are its own, since no two steps have one id. -/
theorem Backed.agreesWith (h : Backed L file) (hdistinct : (L.map StepEntry.stepId).Nodup)
    {m : SessionMetadata} (hm : m.steps <+: L) : AgreesWith m file := by
  intro step hstep j hj
  obtain ⟨e, rfl, hkey, step', hstep', hid, hcarries⟩ := h.entries _ j hj
  have hsame : step.stepId = step'.stepId := by
    rw [← hid]
    exact UInt32.toNat_inj.mp (Int.ofNat.inj hkey)
  obtain rfl := List.inj_on_of_nodup_map hdistinct (hm.subset hstep) hstep' hsame
  exact ⟨e, rfl, hcarries⟩

theorem carries_buildAutomatedEntry (step : StepEntry) (model : AutomatedReasoning) (now : String) :
    Carries step (buildAutomatedEntry step model now) :=
  ⟨rfl, rfl, rfl, rfl, rfl, rfl⟩

theorem carries_placeholder (step : StepEntry) (now : String) : Carries step (placeholder step now) :=
  ⟨rfl, rfl, rfl, rfl, rfl, rfl⟩

theorem carried_missingEntries {steps : List StepEntry} {now : UInt32 → String}
    (he : e ∈ missingEntries file steps now) : Carried steps e := by
  obtain ⟨step, hstep, rfl⟩ := List.mem_map.mp he
  exact ⟨step, List.mem_of_mem_filter hstep, rfl, carries_placeholder step _⟩

end Files

section Steps

variable {ctx : Context} {w : Reported} {L : List StepEntry}

def InStored (s : Session) (stepId : UInt32) : Prop :=
  ∃ m, s.stored = some m ∧ ∃ step ∈ m.steps, step.stepId = stepId

theorem InStored.mono {s s' : Session} {stepId : UInt32} (h : InStored s stepId) (hgrows : Grows s s') :
    InStored s' stepId := by
  obtain ⟨m, hm, step, hstep, hid⟩ := h
  obtain ⟨m', hm', hprefix⟩ := hgrows m hm
  exact ⟨m', hm', step, hprefix.subset hstep, hid⟩

/-- All entries, written or not, are of steps of the watch, and those of results of
stored steps. -/
structure Sound (w : Reported) (L : List StepEntry) : Prop where
  session : Recording w.session L
  file : Backed L w.file
  object : Backed L w.object
  pending : ∀ p ∈ w.pending, Carried L p.entry ∧ (p.result.isSome = true → InStored w.session p.entry.stepId)
  accepted : ∀ id ∈ w.accepted, InStored w.session id

theorem Sound.agreeing (h : Sound w L) : Agreeing w := fun _ =>
  ⟨fun m hm => ⟨h.file.agreesWith h.session.distinct (h.session.stored m hm),
    h.object.agreesWith h.session.distinct (h.session.stored m hm)⟩, h.accepted⟩

theorem sound_start (uploaded : Bool) : Sound (.start uploaded) [] where
  session := by
    refine ⟨.inl rfl, fun _ => ⟨rfl, rfl⟩, fun m hm => ?_, List.nodup_nil⟩
    cases uploaded with
    | true =>
      cases hm
      exact List.prefix_refl []
    | false => cases hm
  file := backed_none
  object := backed_none
  pending p hp := by cases hp
  accepted id hid := by cases hid

/-- A step of the session, with new entries for steps without one. -/
theorem Sound.advance {s' : Session} {entries : List ReasoningEntry} (h : Sound w L)
    (hs : Advances w.session s' L) (hentries : ∀ e ∈ entries, Carried L e) :
    ∃ L', Sound { w with session := s', pending := w.pending ++ entries.map fun e => ⟨none, e⟩ } L' := by
  obtain ⟨L', hL, hrecording, hgrows⟩ := hs
  refine ⟨L', hrecording, h.file.mono hL, h.object.mono hL, fun p hp => ?_,
    fun id hid => (h.accepted id hid).mono hgrows⟩
  obtain hold | hnew := List.mem_append.mp hp
  · obtain ⟨hcarried, hresult⟩ := h.pending p hold
    exact ⟨hcarried.mono hL, fun hsome => (hresult hsome).mono hgrows⟩
  · obtain ⟨e, he, rfl⟩ := List.mem_map.mp hnew
    exact ⟨(hentries e he).mono hL, fun hsome => by cases hsome⟩

theorem Sound.carried_placeholders (h : Sound w L) {input : Input} {readable : Bool} {now : UInt32 → String} :
    ∀ e ∈ w.placeholders input readable now, Carried L e := by
  intro e he
  cases input with
  | finish id fault flushed =>
    rw [Reported.placeholders] at he
    split at he
    · rename_i l hl
      split at he
      · obtain hnone | ⟨k, hk, rfl, -⟩ := h.session.loop
        · have hmem := (Session.loop?_mem hl).1
          rw [hnone] at hmem
          cases hmem
        · rw [loop?_single hk hl] at he
          exact carried_missingEntries he
      · cases he
    · cases he
  | startWatch | connect _ _ _ | event _ _ | leave _ _ | done _ | reasoningResult _ _ => cases he

theorem sound_capture (h : Sound w L) (input : Input) (readable : Bool) (now : UInt32 → String)
    (hg : Settled w (.capture input readable now)) : ∃ L', Sound (w.capture ctx input readable now) L' := by
  cases input with
  | startWatch =>
    exact h.advance (advances_step h.session .startWatch (fun _ => hg) fun _ _ _ hc => by cases hc)
      h.carried_placeholders
  | event id input =>
    refine h.advance (advances_step h.session (.event id input) (fun hc => by cases hc) ?_)
      h.carried_placeholders
    intro id' input' l hsame hl
    cases hsame
    exact hg l hl
  | connect id connected flushed =>
    exact h.advance (advances_step h.session (.connect id connected flushed) (fun hc => by cases hc)
      fun _ _ _ hc => by cases hc) h.carried_placeholders
  | leave id doneCleanly =>
    exact h.advance (advances_step h.session (.leave id doneCleanly) (fun hc => by cases hc)
      fun _ _ _ hc => by cases hc) h.carried_placeholders
  | finish id fault flushed =>
    exact h.advance (advances_step h.session (.finish id fault flushed) (fun hc => by cases hc)
      fun _ _ _ hc => by cases hc) h.carried_placeholders
  | done input =>
    exact h.advance (advances_step h.session (.done input) (fun hc => by cases hc)
      fun _ _ _ hc => by cases hc) h.carried_placeholders
  | reasoningResult _ _ => exact ⟨L, h⟩

theorem sound_resolve (h : Sound w L) (stepId : UInt32) (model : AutomatedReasoning) (now : String)
    (readable : Bool) (hg : Settled w (.resolve stepId model now readable)) :
    Sound (w.resolve stepId model now readable) L := by
  rw [Reported.resolve]
  split
  · rename_i hregistered
    obtain ⟨step, hfound⟩ := Option.isSome_iff_exists.mp (hg hregistered)
    rw [hfound, Option.getD_some]
    rw [Reported.stepMeta] at hfound
    split at hfound
    · obtain ⟨m, hm, hfind⟩ := Option.bind_eq_some_iff.mp hfound
      have hstep := List.mem_of_find?_eq_some hfind
      refine ⟨h.session, h.file, h.object, fun p hp => ?_, h.accepted⟩
      obtain hold | hnew := List.mem_append.mp hp
      · exact h.pending p hold
      · obtain rfl := List.mem_singleton.mp hnew
        exact ⟨⟨step, (h.session.stored m hm).subset hstep, rfl, carries_buildAutomatedEntry step model now⟩,
          fun _ => ⟨m, hm, step, hstep, rfl⟩⟩
    · cases hfound
  · exact h

theorem sound_write (h : Sound w L) (n : Nat) (written uploaded : Bool) :
    ∃ L', Sound (w.write ctx n written uploaded) L' := by
  rw [Reported.write]
  cases hp : w.pending[n]? with
  | none => exact ⟨L, h⟩
  | some p =>
    have herased : ∀ q ∈ w.pending.eraseIdx n, q ∈ w.pending := fun q hq => List.mem_of_mem_eraseIdx hq
    obtain ⟨hcarried, hresult⟩ := h.pending p (List.mem_of_getElem? hp)
    dsimp only
    split
    · have hadvances : Advances w.session
          (p.result.elim w.session fun r => w.session.step ctx (.reasoningResult r true)) L := by
        cases p.result with
        | none => exact ⟨L, List.prefix_refl L, h.session, Grows.of_eq rfl⟩
        | some r =>
          change Advances w.session (w.session.step ctx (.reasoningResult r true)) L
          exact advances_step h.session (.reasoningResult r true) (fun hc => by cases hc)
            fun _ _ _ hc => by cases hc
      obtain ⟨L', hL, hrecording, hgrows⟩ := hadvances
      have hfile := (h.file.mono hL).upsert (hcarried.mono hL)
      refine ⟨L', hrecording, hfile, ?_, fun q hq => ?_, fun id hid => ?_⟩
      · dsimp only
        split
        · exact hfile
        · exact h.object.mono hL
      · obtain ⟨hq', hresult'⟩ := h.pending q (herased q hq)
        exact ⟨hq'.mono hL, fun hsome => (hresult' hsome).mono hgrows⟩
      · obtain hold | hnew := List.mem_append.mp hid
        · exact (h.accepted id hold).mono hgrows
        · obtain ⟨r, hr, rfl⟩ := Option.map_eq_some_iff.mp (Option.mem_toList.mp hnew)
          exact (hresult (by rw [hr]; rfl)).mono hgrows
    · exact ⟨L, h.session, h.file, h.object, fun q hq => h.pending q (herased q hq), h.accepted⟩

theorem sound_step (h : Sound w L) (act : Act) (hg : Settled w act) : ∃ L', Sound (w.step ctx act) L' := by
  cases act with
  | capture input readable now => exact sound_capture h input readable now hg
  | resolve stepId model now readable => exact ⟨L, sound_resolve h stepId model now readable hg⟩
  | write n written uploaded => exact sound_write h n written uploaded

end Steps

/-- When every result finds its step in the stored metadata, all entries agree with the
metadata at the end of the watch. -/
theorem entries_agree (ctx : Context) (uploaded : Bool) (acts : List Act)
    (hsettled : Guarded (Reported.step · ctx) Settled (.start uploaded) acts) :
    Along (Reported.step · ctx) (fun _ _ w' => Agreeing w') (.start uploaded) acts := by
  have hstep : ∀ w act, (∃ L, Sound w L) → Settled w act → ∃ L, Sound (w.step ctx act) L := by
    rintro w act ⟨L, h⟩ hg
    exact sound_step h act hg
  have hagreeing : ∀ w act, (∃ L, Sound w L) → Settled w act → Agreeing (w.step ctx act) := by
    intro w act h hg
    obtain ⟨L, hnext⟩ := hstep w act h hg
    exact hnext.agreeing
  exact along_run hstep hagreeing (.start uploaded) acts ⟨[], sound_start uploaded⟩ hsettled

def sampleModel : AutomatedReasoning where
  reasoning := "Opens the menu."
  source := "model"
  provider := none
  modelId := none
  apiVersion := none
  inputTokens := none
  outputTokens := none
  latencyMs := none
  actionIntent := none
  confidence := none
  keyboardVisualAnnotation := none

def capture (input : Input) : Act := .capture input true fun _ => ""

/-- A watch of one event with a result for a step. -/
def sampleRun (stepId : UInt32) : List Act :=
  [capture .startWatch, capture (.connect 0 true true), capture (.event 0 sampleInput),
    .resolve stepId sampleModel "" true, .write 0 true true, capture (.leave 0 false),
    capture (.finish 0 none true)]

theorem entries_agree_sample :
    Along (Reported.step · cloudContext) (fun _ _ w' => Agreeing w') (.start true) (sampleRun 1) := by
  refine entries_agree cloudContext true (sampleRun 1)
    ⟨rfl, trivial, fun l hl _ _ => ?_, fun _ => ?_, trivial, trivial, trivial, trivial⟩
  · cases hl
    decide
  · decide +kernel

/-- Cloud mode, with a flush of the metadata after every second step. -/
def bufferedContext : Context := { cloudContext with flushInterval := 2 }

/-- A result before the flush of its step leaves an empty entry, and one without a step
is accepted. -/
theorem entries_not_agreeing :
    ¬ Along (Reported.step · bufferedContext) (fun _ _ w' => Agreeing w') (.start true) (sampleRun 1) ∧
      ¬ Along (Reported.step · bufferedContext) (fun _ _ w' => Agreeing w') (.start true) (sampleRun 7) := by
  have hended : ∀ acts, (run (Reported.step · bufferedContext) (.start true) acts).session.nextLoop = 1 →
      (run (Reported.step · bufferedContext) (.start true) acts).session.loops.length = 0 →
      Ended (run (Reported.step · bufferedContext) (.start true) acts).session :=
    fun acts hnext hloops => ⟨by rw [hnext]; exact Nat.one_ne_zero, List.length_eq_zero_iff.mp hloops⟩
  constructor
  · rintro ⟨-, -, -, -, -, -, h, -⟩
    have hfile : (run (Reported.step · bufferedContext) (.start true) (sampleRun 1)).file =
        some (upsertEntry none (buildAutomatedEntry (bareStep 1) sampleModel "")) := by decide +kernel
    have hsteps : (run (Reported.step · bufferedContext) (.start true) (sampleRun 1)).session.stored.map
        (fun m => m.steps.map fun s => (s.stepId, s.actionType)) = some [(1, "keyboard")] := by decide +kernel
    obtain ⟨m, hm, hids⟩ := Option.map_eq_some_iff.mp hsteps
    obtain ⟨step, hstep, hid⟩ := List.mem_map.mp (hids ▸ List.mem_cons_self)
    obtain ⟨hid, htype⟩ := Prod.mk.inj hid
    have hagree := ((h (hended (sampleRun 1) (by decide +kernel) (by decide +kernel))).1 m hm).1 step hstep
    obtain ⟨e, he, hcarries⟩ := hagree (buildAutomatedEntry (bareStep 1) sampleModel "").toJson (by
      change _ ∈ entriesOf (run (Reported.step · bufferedContext) (.start true) (sampleRun 1)).file _
      rw [hfile, entriesOf_upsertEntry, Table.get?_insert, if_pos (by rw [hid]; rfl)]
      exact List.mem_cons_self)
    -- The entry has no action type.
    have hsame : buildAutomatedEntry (bareStep 1) sampleModel "" = e :=
      Option.some.inj (by rw [← fromJson_toJson, he, fromJson_toJson])
    have hempty := hcarries.actionType
    rw [← hsame, htype] at hempty
    exact absurd hempty (by decide)
  · rintro ⟨-, -, -, -, -, -, h, -⟩
    have haccepted : (run (Reported.step · bufferedContext) (.start true) (sampleRun 7)).accepted = [7] := by
      decide +kernel
    have hsteps : (run (Reported.step · bufferedContext) (.start true) (sampleRun 7)).session.stored.map
        (fun m => m.steps.map StepEntry.stepId) = some [1] := by decide +kernel
    obtain ⟨m, hm, step, hstep, hid⟩ :=
      (h (hended (sampleRun 7) (by decide +kernel) (by decide +kernel))).2 7 (haccepted ▸ List.mem_cons_self)
    have hids : m.steps.map StepEntry.stepId = [1] := by
      change (run (Reported.step · bufferedContext) (.start true) (sampleRun 7)).session.stored = some m at hm
      rw [hm] at hsteps
      exact Option.some.inj hsteps
    have hmem : (7 : UInt32) ∈ m.steps.map StepEntry.stepId := List.mem_map.mpr ⟨step, hstep, hid⟩
    rw [hids] at hmem
    exact absurd hmem (by decide)

end MemoryArchive.Capture.ResultEntries
