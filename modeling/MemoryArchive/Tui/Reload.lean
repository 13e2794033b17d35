import MemoryArchive.Tui.Annotation

namespace MemoryArchive.Tui

open Reasoning Runs

/-- The status that a reload is to give: a step being edited counts as pending. -/
def reloaded : StepStatus → StepStatus
  | .inProgress => .pending
  | status => status

/-- A step after a reload and the step that the screen held. -/
structure SameAnnotation (r s : StepState) : Prop where
  stepId : r.stepId = s.stepId
  status : r.status = reloaded s.status
  reasoning : r.reasoning = s.reasoning

/-- A reload from the file gives the steps as the screen holds them, and its
counters say how many of them are complete and skipped, as the screen's do. -/
structure SameSession (r s : Session) : Prop where
  steps : List.Forall₂ SameAnnotation r.steps s.steps
  annotated : r.annotatedSteps = tally .complete s.steps
  skipped : r.skippedSteps = tally .skipped s.steps
  held : s = Session.of s.steps

def Survives (decodeError : Text → String) (metadata : List StepEntry) (s : Screen) : Prop :=
  ∃ session, load decodeError metadata s.file = .ok session ∧ SameSession session s.session

/-- A text saved as a draft that leaves the loader with the status of its step:
some text for a complete step, none for a step that is not annotated. -/
def keepsStatus (step : StepState) (reasoning : String) : Bool :=
  match step.status with
  | .skipped => true
  | .complete => pyStrip reasoning ≠ ""
  | _ => pyStrip reasoning = ""

/-- The disk takes the file, and no string of the entry holds a line separator. -/
def cleanWrite (step : StepState) (now : String) (written : Bool) : Bool :=
  written && decide (SeparatorFree (buildEntry step now))

def restorableMessage (steps : List StepState) (m : Message) (now : String) (written : Bool) : Bool :=
  match m with
  | .stepSaved id reasoning => (getStep steps id).all fun step =>
      keepsStatus step reasoning && cleanWrite { step with reasoning := reasoning } now written
  | .stepCompleted id reasoning => (getStep steps id).all fun step =>
      cleanWrite { step with reasoning := reasoning, status := .complete } now written
  | .stepSkipped id => (getStep steps id).all fun step =>
      cleanWrite { step with reasoning := "", status := .skipped } now written
  | _ => true

def restorable (s : Screen) : Input → Bool
  | .deliver n now written =>
      (s.messages[n]?).all fun m => restorableMessage s.session.steps m now written
  | _ => true

def rested (s : StepState) : StepState := { s with status := reloaded s.status }

theorem rested_stepId (s : StepState) : (rested s).stepId = s.stepId := rfl

theorem tally_rested {status : StepStatus} (h : status = .complete ∨ status = .skipped)
    (steps : List StepState) : tally status (steps.map rested) = tally status steps := by
  rw [tally, List.countP_map]
  refine List.countP_congr fun s _ => ?_
  obtain rfl | rfl := h <;> cases hs : s.status <;> simp [rested, reloaded, hs]

theorem session_of_rested {steps steps' : List StepState} (h : steps'.map rested = steps.map rested) :
    tally .complete steps' = tally .complete steps ∧ tally .skipped steps' = tally .skipped steps := by
  constructor
  · rw [← tally_rested (.inl rfl) steps', h, tally_rested (.inl rfl)]
  · rw [← tally_rested (.inr rfl) steps', h, tally_rested (.inr rfl)]

/-- The screen, its file and its counters agree. -/
structure Mirrored (metadata : List StepEntry) (s : Screen) : Prop where
  file : ∃ entries, Filed s.file entries ∧
    s.session.steps.map rested = shownSteps (inOrder metadata) entries
  held : s.session = Session.of s.session.steps
  completed : ∀ id reasoning, Message.stepCompleted id reasoning ∈ s.messages → pyStrip reasoning ≠ ""

variable {metadata : List StepEntry}

theorem Mirrored.survives {s : Screen} (h : Mirrored metadata s) (decodeError : Text → String)
    (hids : (metadata.map StepEntry.stepId).Nodup) (hne : metadata ≠ []) :
    Survives decodeError metadata s := by
  obtain ⟨entries, hfiled, hsteps⟩ := h.file
  refine ⟨_, load_filed metadata decodeError hids hne hfiled, ?_, ?_, ?_, h.held⟩
  · rw [Session.of, ← hsteps, List.forall₂_map_left_iff]
    exact List.forall₂_same.mpr fun s _ => ⟨rfl, rfl, rfl⟩
  · rw [Session.of, ← hsteps]
    exact tally_rested (.inl rfl) s.session.steps
  · rw [Session.of, ← hsteps]
    exact tally_rested (.inr rfl) s.session.steps

/-- What changes neither the file nor, up to a step being edited, the steps. -/
theorem Mirrored.quiet {s s' : Screen} (h : Mirrored metadata s)
    (hsteps : s'.session.steps.map rested = s.session.steps.map rested)
    (hannotated : s'.session.annotatedSteps = s.session.annotatedSteps)
    (hskipped : s'.session.skippedSteps = s.session.skippedSteps) (hfile : s'.file = s.file)
    (hmessages : ∀ id reasoning, Message.stepCompleted id reasoning ∈ s'.messages →
      Message.stepCompleted id reasoning ∈ s.messages ∨ pyStrip reasoning ≠ "") :
    Mirrored metadata s' := by
  obtain ⟨entries, hfiled, hshown⟩ := h.file
  obtain ⟨hcomplete, hskip⟩ := session_of_rested hsteps
  have hheld := h.held
  refine ⟨⟨entries, by rw [hfile]; exact hfiled, by rw [hsteps, hshown]⟩, ?_, fun id reasoning hm => ?_⟩
  · have ha : s.session.annotatedSteps = tally .complete s.session.steps := congrArg Session.annotatedSteps hheld
    have hs : s.session.skippedSteps = tally .skipped s.session.steps := congrArg Session.skippedSteps hheld
    rw [← hannotated, ← hcomplete] at ha
    rw [← hskipped, ← hskip] at hs
    rw [Session.of, ← ha, ← hs]
  · obtain hold | hnew := hmessages id reasoning hm
    · exact h.completed id reasoning hold
    · exact hnew

/-- What leaves the session, the file and the messages as they are. -/
theorem Mirrored.same {s s' : Screen} (h : Mirrored metadata s) (hsession : s'.session = s.session)
    (hfile : s'.file = s.file) (hmessages : s'.messages = s.messages) : Mirrored metadata s' :=
  h.quiet (by rw [hsession]) (by rw [hsession]) (by rw [hsession]) hfile
    fun id reasoning hm => .inl (by rw [← hmessages]; exact hm)

theorem Mirrored.post {s : Screen} (h : Mirrored metadata s) (m : Option Message)
    (hm : ∀ id reasoning, m = some (.stepCompleted id reasoning) → pyStrip reasoning ≠ "") :
    Mirrored metadata (s.post m) := by
  refine h.quiet rfl rfl rfl rfl fun id reasoning hin => ?_
  obtain hold | hnew := List.mem_append.mp hin
  · exact .inl hold
  · exact .inr (hm id reasoning (Option.mem_toList.mp hnew))

theorem getStep_stepId {steps : List StepState} {id : Int} {step : StepState}
    (h : getStep steps id = some step) : step.stepId = id := by
  simpa using List.find?_some h

/-- What the change of a step keeps of it is kept of all steps. -/
theorem map_updateStep {β : Type} (g : StepState → β) {steps : List StepState} {id : Int}
    {step step' : StepState} (hget : getStep steps id = some step) (hg : g step' = g step) :
    (updateStep id (fun _ => step') steps).map g = steps.map g := by
  induction steps with
  | nil => rfl
  | cons s ss ih =>
    by_cases hs : s.stepId = id
    · have hfound : s = step := by simpa [getStep, hs] using hget
      rw [updateStep, if_pos hs, List.map_cons, List.map_cons, hg, hfound]
    · have hrest := ih (by simpa [getStep, hs] using hget)
      rw [updateStep, if_neg hs, List.map_cons, List.map_cons, hrest]

/-- One step is changed and what the loader shows of it; the others stay. -/
theorem rested_updateStep {steps ms : List StepState} {entries entries' : Table Int Json}
    {id : Int} {step step' : StepState} (h : steps.map rested = ms.map (shown entries))
    (hids : (ms.map StepState.stepId).Nodup) (hget : getStep steps id = some step)
    (hown : ∀ m, rested step = shown entries m → rested step' = shown entries' m)
    (hother : ∀ m : StepState, m.stepId ≠ id → shown entries' m = shown entries m) :
    (updateStep id (fun _ => step') steps).map rested = ms.map (shown entries') := by
  induction steps generalizing ms with
  | nil => cases hget
  | cons s ss ih =>
    cases ms with
    | nil => cases h
    | cons m ms =>
      obtain ⟨hhead, htail⟩ := List.cons.inj h
      obtain ⟨hnot, hrest⟩ := List.nodup_cons.mp hids
      have hid : s.stepId = m.stepId := by
        rw [← rested_stepId s, hhead, shown_stepId]
      by_cases hs : s.stepId = id
      · have hfound : s = step := by simpa [getStep, hs] using hget
        subst hfound
        have hkept : ms.map (shown entries') = ms.map (shown entries) := by
          refine List.map_congr_left fun m' hm' => hother m' fun he => hnot ?_
          exact List.mem_map.mpr ⟨m', hm', by rw [he, ← hs, hid]⟩
        rw [updateStep, if_pos hs, List.map_cons, List.map_cons, hown m hhead, htail, hkept]
      · have hget' : getStep ss id = some step := by simpa [getStep, hs] using hget
        rw [updateStep, if_neg hs, List.map_cons, List.map_cons, ih htail hrest hget', hhead,
          hother m (by rw [← hid]; exact hs)]

/-- A step with another status and text. -/
def annotate (step : StepState) (status : StepStatus) (reasoning : String) : StepState :=
  { step with reasoning := reasoning, status := status }

/-- The loader infers the status of a step from the entry written for it. -/
theorem rested_annotate {entries : Table Int Json} {m step : StepState}
    (hm : rested step = shown entries m) (now reasoning : String) (status : StepStatus)
    (hstatus : inferStatus (decide (status = .skipped)) "human" reasoning = reloaded status) :
    rested (annotate step status reasoning) =
      shown (entries.insert step.stepId (buildEntry (annotate step status reasoning) now)) m := by
  let note : Note := ⟨reasoning, step.rawCommand, step.convertedCommand, reloaded status⟩
  have hnote : readNote (buildEntry (annotate step status reasoning) now) = .ok note := by
    change Except.ok (Note.mk _ _ _ (inferStatus (decide (status = .skipped)) "human" reasoning)) = _
    rw [hstatus]
    rfl
  have hid : m.stepId = step.stepId := by
    rw [← shown_stepId entries m, ← hm, rested_stepId]
  have hframe : note.applyTo (shown entries m) = note.applyTo m := by
    rw [shown]
    split <;> rfl
  rw [shown_insert entries hnote, if_pos hid, ← hframe, ← hm]
  rfl

section Writes

variable {s : Screen} {id : Int} {step : StepState}

theorem session_writeEntry (now : String) (written : Bool) :
    (s.writeEntry step now written).session = s.session := by
  rw [Screen.writeEntry]
  split <;> rfl

theorem messages_writeEntry (now : String) (written : Bool) :
    (s.writeEntry step now written).messages = s.messages := by
  rw [Screen.writeEntry]
  split <;> rfl

theorem file_writeEntry (now : String) (written : Bool) :
    (s.writeEntry step now written).file =
      if written then (atomicUpsert s.file step now).elim s.file some else s.file := by
  rw [Screen.writeEntry]
  split <;> rfl

theorem filed_writeEntry {entries : Table Int Json} (hfiled : Filed s.file entries) (now : String)
    {written : Bool} (hclean : cleanWrite step now written = true) :
    Filed (s.writeEntry step now written).file (entries.insert step.stepId (buildEntry step now)) := by
  rw [cleanWrite, Bool.and_eq_true] at hclean
  obtain ⟨hwritten, hsep⟩ := hclean
  obtain ⟨text, htext, hnext⟩ := atomicUpsert_filed hfiled step now (of_decide_eq_true hsep)
  rw [Screen.writeEntry, if_pos hwritten, htext]
  exact hnext

/-- A step is changed in memory and its entry written, the status inferred from
the entry being the one that the step gets. -/
theorem mirrored_write (hids : (metadata.map StepEntry.stepId).Nodup) (h : Mirrored metadata s)
    (hget : getStep s.session.steps id = some step) (now reasoning : String) (status : StepStatus)
    {written : Bool} (hclean : cleanWrite (annotate step status reasoning) now written = true)
    (hstatus : inferStatus (decide (status = .skipped)) "human" reasoning = reloaded status)
    {t : Screen} (hsteps : t.session.steps =
      updateStep step.stepId (fun _ => annotate step status reasoning) s.session.steps)
    (hheld : t.session = Session.of t.session.steps) (hfile : t.file = s.file)
    (hmessages : t.messages = s.messages) (editor : Editor) :
    Mirrored metadata
      { t.writeEntry (annotate step status reasoning) now written with editor := editor } := by
  obtain ⟨entries, hfiled, hshown⟩ := h.file
  obtain rfl := getStep_stepId hget
  have hsorted : (((inOrder metadata).map StepEntry.toState).map StepState.stepId).Nodup := by
    rw [List.map_map]
    exact ((List.perm_insertionSort _ metadata).map StepEntry.stepId).nodup_iff.mpr hids
  have hnext := filed_writeEntry hfiled now hclean
  have hmaps : ∀ entries, shownSteps (inOrder metadata) entries =
      ((inOrder metadata).map StepEntry.toState).map (shown entries) := by
    intro entries
    rw [List.map_map]
    rfl
  rw [hmaps] at hshown
  have hupdate := rested_updateStep hshown hsorted hget
    (fun m hm => rested_annotate hm now reasoning status hstatus)
    fun m hm => shown_insert_of_ne entries (buildEntry (annotate step status reasoning) now) hm
  have hwritten : (t.writeEntry (annotate step status reasoning) now written).file =
      (s.writeEntry (annotate step status reasoning) now written).file := by
    rw [file_writeEntry, file_writeEntry, hfile]
  refine ⟨⟨_, by rw [hwritten]; exact hnext, ?_⟩, ?_, fun id reasoning hm => ?_⟩
  · rw [session_writeEntry, hsteps, hmaps]
    exact hupdate
  · rw [session_writeEntry]
    exact hheld
  · rw [messages_writeEntry, hmessages] at hm
    exact h.completed id reasoning hm

/-- A draft changes no status. -/
theorem tally_draft {steps : List StepState} (hget : getStep steps id = some step) (reasoning : String)
    (status : StepStatus) :
    tally status (updateStep id (fun _ => annotate step step.status reasoning) steps) =
      tally status steps := by
  have hcount : ∀ ss : List StepState, tally status ss = (ss.map StepState.status).countP (· = status) := by
    intro ss
    rw [tally, List.countP_map]
    rfl
  have hsame : (annotate step step.status reasoning).status = step.status := rfl
  rw [hcount, hcount, map_updateStep StepState.status hget hsame]

end Writes

section Handlers

variable {s : Screen}

theorem mirrored_openStep (h : Mirrored metadata s) (index : Nat)
    (hpending : (s.session.steps[index]?).any isPending = true) : Mirrored metadata (s.openStep index) := by
  obtain ⟨candidate, hat, hstatus⟩ := (Option.any_eq_true _ _).mp hpending
  rw [Screen.openStep, hat]
  refine h.quiet ?_ rfl rfl rfl fun id reasoning hm => .inl hm
  have hrested : rested { candidate with status := .inProgress } = rested candidate := by
    rw [isPending, Bool.or_eq_true, decide_eq_true_iff, decide_eq_true_iff] at hstatus
    obtain hs | hs := hstatus <;> simp [rested, reloaded, hs]
  obtain ⟨hlt, rfl⟩ := List.getElem?_eq_some_iff.mp hat
  change (s.session.steps.set index _).map rested = _
  rw [List.map_set, hrested, ← List.map_set, List.set_getElem_self]

theorem mirrored_advance (h : Mirrored metadata s) : Mirrored metadata s.advanceToNextPending := by
  rw [Screen.advanceToNextPending]
  cases hnext : s.currentIdx.bind (nextPending s.session.steps) with
  | none => exact h
  | some index =>
    obtain ⟨current, -, hfound⟩ := Option.bind_eq_some_iff.mp hnext
    have hpending : (s.session.steps[index]?).any isPending = true := by
      have hat := List.find?_some hfound
      exact hat
    exact mirrored_openStep h index hpending

theorem inferStatus_draft {step : StepState} {reasoning : String}
    (h : keepsStatus step reasoning = true) :
    inferStatus (decide (step.status = .skipped)) "human" reasoning = reloaded step.status := by
  cases hs : step.status <;> simp_all [keepsStatus, inferStatus, reloaded]

theorem inferStatus_complete {reasoning : String} (h : pyStrip reasoning ≠ "") :
    inferStatus false "human" reasoning = .complete := by
  simp [inferStatus, h]

theorem mirrored_saved (hids : (metadata.map StepEntry.stepId).Nodup) (h : Mirrored metadata s) (id : Int)
    (reasoning now : String) (written : Bool)
    (hguard : restorableMessage s.session.steps (.stepSaved id reasoning) now written = true) :
    Mirrored metadata (s.handle (.stepSaved id reasoning) now written) := by
  rw [Screen.handle]
  cases hget : getStep s.session.steps id with
  | none => exact h
  | some step =>
    rw [restorableMessage, hget, Option.all_some, Bool.and_eq_true] at hguard
    obtain ⟨hkeeps, hclean⟩ := hguard
    obtain rfl := getStep_stepId hget
    have hcomplete := tally_draft hget reasoning .complete
    have hskipped := tally_draft hget reasoning .skipped
    have hheld : (s.setStep (annotate step step.status reasoning)).session =
        Session.of (s.setStep (annotate step step.status reasoning)).session.steps := by
      have hheld := h.held
      rw [Session.of, ← hcomplete, ← hskipped] at hheld
      rw [Screen.setStep, hheld]
      rfl
    exact mirrored_write hids h hget now reasoning step.status hclean (inferStatus_draft hkeeps) rfl hheld
      rfl rfl _

theorem mirrored_completed (hids : (metadata.map StepEntry.stepId).Nodup) (h : Mirrored metadata s)
    (id : Int) (reasoning now : String) (written : Bool) (htext : pyStrip reasoning ≠ "")
    (hguard : restorableMessage s.session.steps (.stepCompleted id reasoning) now written = true) :
    Mirrored metadata (s.handle (.stepCompleted id reasoning) now written) := by
  rw [Screen.handle]
  cases hget : getStep s.session.steps id with
  | none => exact h
  | some step =>
    rw [restorableMessage, hget, Option.all_some] at hguard
    refine mirrored_advance ?_
    exact mirrored_write (t := (s.setStep (annotate step .complete reasoning)).updateCounters) hids h hget
      now reasoning .complete hguard (inferStatus_complete htext) rfl rfl rfl rfl _

theorem mirrored_skipped (hids : (metadata.map StepEntry.stepId).Nodup) (h : Mirrored metadata s)
    (id : Int) (now : String) (written : Bool)
    (hguard : restorableMessage s.session.steps (.stepSkipped id) now written = true) :
    Mirrored metadata (s.handle (.stepSkipped id) now written) := by
  rw [Screen.handle]
  cases hget : getStep s.session.steps id with
  | none => exact h
  | some step =>
    rw [restorableMessage, hget, Option.all_some] at hguard
    refine mirrored_advance ?_
    exact mirrored_write (t := (s.setStep (annotate step .skipped "")).updateCounters) hids h hget now ""
      .skipped hguard rfl rfl rfl rfl rfl _

theorem mirrored_handle (hids : (metadata.map StepEntry.stepId).Nodup) (h : Mirrored metadata s)
    (m : Message) (now : String) (written : Bool)
    (htext : ∀ id reasoning, m = .stepCompleted id reasoning → pyStrip reasoning ≠ "")
    (hguard : restorableMessage s.session.steps m now written = true) :
    Mirrored metadata (s.handle m now written) := by
  cases m with
  | stepSelected id =>
    rw [Screen.handle]
    cases getStep s.session.steps id with
    | none => exact h
    | some step => exact h.same rfl rfl rfl
  | stepEditRequested id =>
    rw [Screen.handle]
    cases hget : getStep s.session.steps id with
    | none => exact h
    | some step =>
      by_cases hpending : step.status = .pending
      · dsimp only
        rw [if_pos hpending]
        obtain rfl := getStep_stepId hget
        have hrested : rested { step with status := .inProgress } = rested step := by
          simp [rested, reloaded, hpending]
        exact h.quiet (map_updateStep rested hget hrested) rfl rfl rfl fun id reasoning hm => .inl hm
      · dsimp only
        rw [if_neg hpending]
        exact h.same rfl rfl rfl
  | stepSaved id reasoning => exact mirrored_saved hids h id reasoning now written hguard
  | stepCompleted id reasoning =>
    exact mirrored_completed hids h id reasoning now written (htext id reasoning rfl) hguard
  | stepSkipped id => exact mirrored_skipped hids h id now written hguard

/-- A key press completes a step only with some text. -/
theorem nonblank_next (e : Editor) (id : Int) (reasoning : String)
    (h : e.actionNext.2 = some (.stepCompleted id reasoning)) : pyStrip reasoning ≠ "" := by
  rw [Editor.actionNext] at h
  cases hstep : e.currentStep with
  | none =>
    rw [hstep] at h
    cases h
  | some current =>
    rw [hstep] at h
    dsimp only at h
    split at h
    · split at h <;> cases h
    · rename_i htext
      cases h
      rw [pyStrip_pyStrip]
      exact htext

theorem mirrored_step (hids : (metadata.map StepEntry.stepId).Nodup) (h : Mirrored metadata s) (i : Input)
    (hguard : restorable s i = true) : Mirrored metadata (s.step i) := by
  cases i with
  | move delta =>
    rw [Screen.step]
    have hmoved : ∀ cursor, Mirrored metadata { s with cursor := cursor } :=
      fun cursor => h.same rfl rfl rfl
    dsimp only
    split
    · exact h
    · refine (hmoved _).post _ fun id reasoning hm => ?_
      obtain ⟨row, -, hrow⟩ := Option.map_eq_some_iff.mp hm
      cases hrow
  | click id => exact h.post _ fun id reasoning hm => (by cases hm)
  | requestEdit id => exact h.post _ fun id reasoning hm => (by cases hm)
  | jump id =>
    rw [Screen.step]
    cases getStep s.session.steps id with
    | none => exact h
    | some step => exact h.same rfl rfl rfl
  | type text => exact h.same rfl rfl rfl
  | changed => exact h.same rfl rfl rfl
  | save =>
    have hedited : Mirrored metadata { s with editor := s.editor.actionSave.1 } := h.same rfl rfl rfl
    refine hedited.post _ fun id reasoning hm => ?_
    rw [Editor.actionSave] at hm
    split at hm <;> cases hm
  | autosave =>
    refine h.post _ fun id reasoning hm => ?_
    rw [Editor.autosave] at hm
    split at hm
    · cases hm
    · split at hm <;> cases hm
  | next =>
    have hedited : Mirrored metadata { s with editor := s.editor.actionNext.1 } := h.same rfl rfl rfl
    exact hedited.post _ fun id reasoning hm => nonblank_next s.editor id reasoning hm
  | revert => exact h.same rfl rfl rfl
  | deliver n now written =>
    rw [Screen.step]
    cases hm : s.messages[n]? with
    | none => exact h
    | some m =>
      rw [restorable, hm, Option.all_some] at hguard
      have htaken : Mirrored metadata { s with messages := s.messages.eraseIdx n } :=
        h.quiet rfl rfl rfl rfl fun id reasoning hin => .inl (List.mem_of_mem_eraseIdx hin)
      refine mirrored_handle hids htaken m now written (fun id reasoning he => ?_) hguard
      subst he
      exact h.completed id reasoning (List.mem_of_getElem? hm)

end Handlers

theorem reloaded_inferStatus (isSkipped : Bool) (source reasoning : String) :
    reloaded (inferStatus isSkipped source reasoning) = inferStatus isSkipped source reasoning := by
  rw [inferStatus]
  split
  · rfl
  split
  · rfl
  split
  · rfl
  split
  · rfl
  · rfl

theorem readNote_status {j : Json} {note : Note} (h : readNote j = .ok note) :
    reloaded note.status = note.status := by
  rw [readNote] at h
  cases hr : textMember j "reasoning" with
  | error e => rw [hr] at h; cases h
  | ok reasoning =>
    cases hc : textMember j "raw_command" with
    | error e => rw [hr, hc] at h; cases h
    | ok rawCommand =>
      cases hv : textMember j "converted_command" with
      | error e => rw [hr, hc, hv] at h; cases h
      | ok convertedCommand =>
        rw [hr, hc, hv] at h
        cases h
        exact reloaded_inferStatus _ _ _

/-- The loader shows no step as being edited. -/
theorem rested_shown (entries : Table Int Json) (m : StepEntry) :
    rested (shown entries m.toState) = shown entries m.toState := by
  rw [shown]
  split
  · rename_i note hnote
    obtain ⟨j, -, hread⟩ := Option.map_eq_some_iff.mp hnote
    rw [rested, Note.applyTo, readNote_status hread]
  · rfl

theorem mirrored_open (decodeError : Text → String) {file : File} {entries : Table Int Json} {screen : Screen}
    (hids : (metadata.map StepEntry.stepId).Nodup) (hne : metadata ≠ []) (hfiled : Filed file entries)
    (hopen : openScreen decodeError metadata file = .ok screen) : Mirrored metadata screen := by
  rw [openScreen, load_filed metadata decodeError hids hne hfiled] at hopen
  cases hopen
  refine ⟨⟨entries, hfiled, ?_⟩, rfl, fun id reasoning hm => (by cases hm)⟩
  change (shownSteps (inOrder metadata) entries).map rested = _
  rw [shownSteps, List.map_map]
  exact List.map_congr_left fun m _ => rested_shown entries m

theorem metadata_ne_nil {decodeError : Text → String} {file : File} {screen : Screen}
    (hopen : openScreen decodeError metadata file = .ok screen) : metadata ≠ [] := by
  rintro rfl
  cases hopen

/-- In a session without two steps of one id and a file without two lines of one
step, a reload after any run of restorable inputs gives the session that the
screen holds. -/
theorem survives_reload (decodeError : Text → String) (metadata : List StepEntry) (file : File)
    (screen : Screen) (inputs : List Input) (hids : (metadata.map StepEntry.stepId).Nodup)
    (hfile : ∃ entries, Filed file entries) (hopen : openScreen decodeError metadata file = .ok screen)
    (hg : Guarded Screen.step (fun s i => restorable s i = true) screen inputs) :
    Survives decodeError metadata screen ∧
      Along Screen.step (fun _ _ s' => Survives decodeError metadata s') screen inputs := by
  obtain ⟨entries, hfiled⟩ := hfile
  have hne := metadata_ne_nil hopen
  have hstart := mirrored_open decodeError hids hne hfiled hopen
  have hstep : ∀ (s : Screen) (i : Input), Mirrored metadata s → restorable s i = true →
      Mirrored metadata (s.step i) := fun s i h hi => mirrored_step hids h i hi
  exact ⟨hstart.survives decodeError hids hne,
    along_run hstep (fun s i h hi => (hstep s i h hi).survives decodeError hids hne) screen inputs hstart hg⟩

def sampleMetadata (stepId : Int) : StepEntry where
  stepId := stepId
  timestamp := "2026-01-01T00:00:00Z"
  actionType := "mouse"
  actionSubtype := "left"
  imagePath := none
  rawCommand := "click"
  convertedCommand := "left_click"

def twoSteps : List StepEntry := [sampleMetadata 1, sampleMetadata 2]

/-- The screen on the two steps, the first of them in the editor. -/
def twoStepScreen : Screen where
  session := Session.of (twoSteps.map StepEntry.toState)
  cursor := 0
  editor := Editor.blank.loadStep (sampleMetadata 1).toState
  messages := []
  file := none

/-- The first step is completed with a text, the second is skipped, and the
first is taken up again. -/
def annotateBoth : List Input :=
  [.requestEdit 1, .deliver 0 "now" true, .type "Opens the menu. ", .next, .deliver 0 "now" true,
    .next, .next, .deliver 0 "later" true, .click 1, .deliver 0 "later" true,
    .type "Opens the file menu.", .autosave, .deliver 0 "later" true]

theorem survives_reload_both :
    Survives (fun _ => "Expecting value") twoSteps twoStepScreen ∧
      Along Screen.step (fun _ _ s' => Survives (fun _ => "Expecting value") twoSteps s')
        twoStepScreen annotateBoth :=
  survives_reload (fun _ => "Expecting value") twoSteps none twoStepScreen annotateBoth (by decide)
    ⟨.empty, filed_none⟩ rfl (by decide +kernel)

/-- A draft of the first step is saved while the step is being edited. -/
def draftFirst : List Input :=
  [.requestEdit 1, .deliver 0 "now" true, .type "Opens the", .save, .deliver 0 "now" true]

/-- Two lines for the first step. -/
def repeatedLine : File :=
  let entry := (sampleEntry 1 "Opens the menu.").toJson
  some (Json.render .compact [entry, entry])

/-- A step with a draft is complete after a reload, and a step with two lines is
counted twice. -/
theorem draft_reloads_complete :
    (openScreen (fun _ => "Expecting value") twoSteps none = .ok twoStepScreen ∧
      ¬ Survives (fun _ => "Expecting value") twoSteps (run Screen.step twoStepScreen draftFirst)) ∧
    ∃ screen, openScreen (fun _ => "Expecting value") twoSteps repeatedLine = .ok screen ∧
      ¬ Survives (fun _ => "Expecting value") twoSteps screen := by
  refine ⟨⟨rfl, ?_⟩, ?_⟩
  · rintro ⟨session, hload, hsame⟩
    have hstatus : ((load (fun _ => "Expecting value") twoSteps
        (run Screen.step twoStepScreen draftFirst).file).toOption.map fun r => r.annotatedSteps) = some 1 := by
      decide +kernel
    have hshown : tally .complete (run Screen.step twoStepScreen draftFirst).session.steps = 0 := by
      decide +kernel
    rw [hload, Except.toOption, Option.map_some, hsame.annotated, hshown] at hstatus
    cases hstatus
  · have hcounts : ((load (fun _ => "Expecting value") twoSteps repeatedLine).toOption.map fun r =>
        (r.annotatedSteps, tally .complete r.steps)) = some (2, 1) := by
      decide +kernel
    cases hread : load (fun _ => "Expecting value") twoSteps repeatedLine with
    | error e =>
      rw [hread] at hcounts
      cases hcounts
    | ok session =>
      rw [hread] at hcounts
      obtain ⟨htwo, hone⟩ := Prod.mk.inj (Option.some.inj hcounts)
      refine ⟨_, by rw [openScreen, hread]; rfl, ?_⟩
      rintro ⟨session', hload, hsame⟩
      cases hread.symm.trans hload
      have hcount : session.annotatedSteps = tally .complete session.steps := hsame.annotated
      rw [htwo, hone] at hcount
      cases hcount

end MemoryArchive.Tui
