import MemoryArchive.Tui.Reload

namespace MemoryArchive.Tui

open Reasoning Runs

/-- The annotator at the screen: the text last typed for each step, where a revert takes back what
was typed, and whether the screen has been left. -/
structure Sitting where
  screen : Screen
  typed : Int → Option String
  closed : Bool

/-- A quit is asked about when the step in the editor has changes, and then made or not. -/
inductive Deed
  | input (i : Input)
  | quit (confirmed : Bool)

/-- The reasoning that an entry has for a step. -/
def textOf (entries : Table Int Json) (id : Int) : String :=
  match (entries.get? id).map readNote with
  | some (.ok note) => note.reasoning
  | _ => ""

/-- The text that reasoning.jsonl has for a step. -/
def writtenText (file : File) (id : Int) : String :=
  (existingEntries file).elim "" fun entries => textOf entries id

namespace Sitting

def start (screen : Screen) : Sitting := ⟨screen, fun _ => none, false⟩

/-- The text in the editor is typed for its step. -/
def record (s : Sitting) (text : String) : Sitting :=
  match s.screen.editor.currentStep with
  | none => s
  | some id => { s with typed := Function.update s.typed id (some text) }

def step (s : Sitting) (d : Deed) : Sitting :=
  if s.closed then s
  else
    match d with
    | .input (.type text) => { s with screen := s.screen.step (.type text) }.record text
    | .input .revert =>
        let s := { s with screen := s.screen.step .revert }
        s.record s.screen.editor.area
    | .input i => { s with screen := s.screen.step i }
    | .quit confirmed => if s.screen.editor.isDirty ∧ ¬ confirmed then s else { s with closed := true }

end Sitting

/-- Every text that was typed is in the file, up to the white space that a save strips. -/
def AllWritten (s : Sitting) : Prop :=
  ∀ id text, s.typed id = some text → pyStrip text = pyStrip (writtenText s.screen.file id)

/-- A quit that goes through without a question loses nothing. -/
def QuietQuit (s : Sitting) (d : Deed) : Prop :=
  ∀ confirmed, d = .quit confirmed → s.closed = false → s.screen.editor.isDirty = false → AllWritten s

/-- The step is in the editor, or the text is the one last typed for it. -/
def Latest (s : Sitting) (id : Int) (reasoning : String) : Prop :=
  s.screen.editor.currentStep = some id ∨
    ∀ text, s.typed id = some text → pyStrip text = pyStrip reasoning

/-- A save is handled before there is a newer text in a draft, a skip while the step has no saved
text, and both are written. -/
def CarefulMessage (s : Sitting) (m : Message) (now : String) (written : Bool) : Prop :=
  match m with
  | .stepSaved id reasoning => ∀ step, getStep s.screen.session.steps id = some step →
      cleanWrite { step with reasoning := reasoning } now written = true ∧ Latest s id reasoning
  | .stepCompleted id reasoning => ∀ step, getStep s.screen.session.steps id = some step →
      cleanWrite { step with reasoning := reasoning, status := .complete } now written = true ∧
        Latest s id reasoning
  | .stepSkipped id => ∀ step, getStep s.screen.session.steps id = some step →
      cleanWrite { step with reasoning := "", status := .skipped } now written = true ∧
        pyStrip ((s.screen.editor.savedText id).getD "") = "" ∧
        ((s.screen.editor.drafts id).isSome ∨ Latest s id "")
  | .stepSelected _ | .stepEditRequested _ => True

/-- At a quit without a question the drafts of the steps that are not in the editor are in the
file. -/
def Careful (s : Sitting) : Deed → Prop
  | .quit _ => s.closed = false → s.screen.editor.isDirty = false →
      ∀ id draft, s.screen.editor.currentStep ≠ some id → s.screen.editor.drafts id = some draft →
        pyStrip draft = pyStrip (writtenText s.screen.file id)
  | .input (.deliver n now written) => s.closed = false →
      ∀ m, s.screen.messages[n]? = some m → CarefulMessage s m now written
  | .input _ => True

section Held

/-- The text that the editor has for a step, with the file where it has none of its own. -/
def Editor.held (entries : Table Int Json) (e : Editor) (id : Int) : String :=
  if e.currentStep = some id then e.area else (e.drafts id).getD (textOf entries id)

variable {entries : Table Int Json} {e : Editor} {step : StepState}

theorem held_saveCurrentDraft (entries : Table Int Json) (e : Editor) (id : Int) :
    (e.saveCurrentDraft.drafts id).getD (textOf entries id) = e.held entries id := by
  rw [Editor.held, Editor.saveCurrentDraft]
  cases hcurrent : e.currentStep with
  | none => rw [if_neg nofun]
  | some current =>
    by_cases hid : id = current
    · subst hid
      rw [if_pos rfl]
      change ((Function.update e.drafts id (some e.area)) id).getD _ = _
      rw [Function.update_self]
      rfl
    · rw [if_neg fun he => hid (Option.some.inj he).symm]
      change ((Function.update e.drafts current (some e.area)) id).getD _ = _
      rw [Function.update_of_ne hid]

/-- A step that is loaded shows the text that the editor or the file has for it. -/
theorem held_loadStep (h : step.reasoning = textOf entries step.stepId) (id : Int) :
    (e.loadStep step).held entries id = e.held entries id := by
  rw [← held_saveCurrentDraft entries e id, Editor.loadStep, Editor.held]
  by_cases hid : step.stepId = id
  · subst hid
    rw [← h]
    exact if_pos rfl
  · exact if_neg fun he => hid (Option.some.inj he)

end Held

section Editing

variable (e : Editor)

/-- A reverted step loses its own draft only. -/
theorem revertCurrentStep_frame : e.revertCurrentStep.currentStep = e.currentStep ∧
    e.revertCurrentStep.savedText = e.savedText ∧
      ∀ id, e.revertCurrentStep.currentStep ≠ some id → e.revertCurrentStep.drafts id = e.drafts id := by
  rw [Editor.revertCurrentStep]
  split
  · exact ⟨rfl, rfl, fun _ _ => rfl⟩
  · rename_i current hcurrent
    refine ⟨rfl, rfl, fun id hid => ?_⟩
    change Function.update e.drafts current none id = e.drafts id
    refine Function.update_of_ne ?_ _ _
    rintro rfl
    exact hid hcurrent

theorem onEditorChanged_pending : ∃ b, e.onEditorChanged = { e with skipPending := b } := by
  rw [Editor.onEditorChanged]
  split
  · exact ⟨false, rfl⟩
  · exact ⟨e.skipPending, rfl⟩

theorem actionSave_pending : ∃ b, e.actionSave.1 = { e with skipPending := b } := by
  rw [Editor.actionSave]
  split
  · exact ⟨e.skipPending, rfl⟩
  · exact ⟨false, rfl⟩

theorem actionNext_pending : ∃ b, e.actionNext.1 = { e with skipPending := b } := by
  rw [Editor.actionNext]
  split
  · exact ⟨e.skipPending, rfl⟩
  · dsimp only
    split
    · split
      · exact ⟨false, rfl⟩
      · exact ⟨true, rfl⟩
    · exact ⟨false, rfl⟩

theorem move_frame (s : Screen) (delta : Int) : (s.step (.move delta)).session = s.session ∧
    (s.step (.move delta)).file = s.file ∧ (s.step (.move delta)).editor = s.editor := by
  rw [Screen.step]
  dsimp only
  split
  · exact ⟨rfl, rfl, rfl⟩
  · exact ⟨rfl, rfl, rfl⟩

end Editing

section Texts

variable {entries : Table Int Json}

theorem textOf_insert (entries : Table Int Json) (step : StepState) (now : String) (id : Int) :
    textOf (entries.insert step.stepId (buildEntry step now)) id =
      if id = step.stepId then step.reasoning else textOf entries id := by
  rw [textOf, Table.get?_insert]
  by_cases hid : id = step.stepId
  · rw [if_pos hid, if_pos hid]
    rfl
  · rw [if_neg hid, if_neg hid]
    rfl

theorem writtenText_filed {file : File} (h : Filed file entries) (id : Int) :
    writtenText file id = textOf entries id := by
  obtain ⟨L, rows, hL, ha, hsep, hn, hf, rfl⟩ := h
  have hread : existingEntries file = some (Table.ofRows rows) := by
    have he : existingEntries file = existingEntries (some (file.getD [])) := rfl
    rw [he, hf, existingEntries_rows hL rows ha hsep]
  rw [writtenText, hread]
  rfl

/-- A step is shown with the text that the file has for it. -/
theorem shown_reasoning (entries : Table Int Json) (m : StepEntry) :
    (shown entries m.toState).reasoning = textOf entries m.stepId := by
  rw [shown, textOf]
  change (match (entries.get? m.stepId).map readNote with
    | some (.ok note) => note.applyTo m.toState
    | _ => m.toState).reasoning = _
  split
  · rfl
  · rfl

end Texts

section Invariant

/-- What the file says of a step. -/
def remark (s : StepState) : Int × String := (s.stepId, s.reasoning)

/-- The editor and the file have the texts of the steps, and the editor holds what was typed last. -/
structure Faithful (entries : Table Int Json) (s : Screen) (typed : Int → Option String) : Prop where
  filed : Filed s.file entries
  ids : (s.session.steps.map StepState.stepId).Nodup
  reasoning : ∀ step ∈ s.session.steps, step.reasoning = textOf entries step.stepId
  saved : ∀ id text, s.editor.savedText id = some text → pyStrip text = pyStrip (textOf entries id)
  current : ∀ id, s.editor.currentStep = some id → (s.editor.savedText id).isSome
  typed : ∀ id text, typed id = some text → pyStrip (s.editor.held entries id) = pyStrip text

variable {entries : Table Int Json} {s : Screen} {typed : Int → Option String}

/-- The steps may change in what the file does not say of them. -/
theorem Faithful.congr {s' : Screen} (h : Faithful entries s typed) (hfile : s'.file = s.file)
    (hsteps : s'.session.steps.map remark = s.session.steps.map remark)
    (heditor : s'.editor = s.editor) : Faithful entries s' typed := by
  have hids : s'.session.steps.map StepState.stepId = s.session.steps.map StepState.stepId := by
    have hfst := congrArg (List.map Prod.fst) hsteps
    rwa [List.map_map, List.map_map] at hfst
  refine ⟨hfile ▸ h.filed, hids ▸ h.ids, fun step hstep => ?_, ?_, ?_, ?_⟩
  · have hmem : remark step ∈ s.session.steps.map remark := hsteps ▸ List.mem_map_of_mem hstep
    obtain ⟨step', hstep', hremark⟩ := List.mem_map.mp hmem
    obtain ⟨hid, hreasoning⟩ := Prod.mk.inj hremark
    rw [← hid, ← hreasoning]
    exact h.reasoning step' hstep'
  · rw [heditor]
    exact h.saved
  · rw [heditor]
    exact h.current
  · rw [heditor]
    exact h.typed

/-- A step of the session is loaded into the editor. -/
theorem faithful_loadStep (h : Faithful entries s typed) {step : StepState}
    (hstep : step.reasoning = textOf entries step.stepId) : Faithful entries (s.loadStep step) typed := by
  refine ⟨h.filed, h.ids, h.reasoning, fun id text htext => ?_, fun id hid => ?_, fun id text htext => ?_⟩
  · have hkept : ∀ e : Editor, e.saveCurrentDraft.savedText = e.savedText := by
      intro e
      rw [Editor.saveCurrentDraft]
      split <;> rfl
    change Function.update s.editor.saveCurrentDraft.savedText step.stepId
      (some ((s.editor.saveCurrentDraft.savedText step.stepId).getD step.reasoning)) id = some text at htext
    rw [hkept] at htext
    by_cases hid : id = step.stepId
    · subst hid
      rw [Function.update_self, Option.some_inj] at htext
      rw [← htext]
      cases hbefore : s.editor.savedText step.stepId with
      | none => exact congrArg pyStrip hstep
      | some before => exact h.saved _ before hbefore
    · rw [Function.update_of_ne hid] at htext
      exact h.saved id text htext
  · cases hid
    change Option.isSome (Function.update s.editor.saveCurrentDraft.savedText step.stepId
      (some ((s.editor.saveCurrentDraft.savedText step.stepId).getD step.reasoning)) step.stepId) = true
    rw [Function.update_self]
    rfl
  · change pyStrip ((s.editor.loadStep step).held entries id) = _
    rw [held_loadStep hstep]
    exact h.typed id text htext

theorem getStep_mem {steps : List StepState} {id : Int} {step : StepState}
    (h : getStep steps id = some step) : step ∈ steps :=
  List.mem_of_find?_eq_some h

theorem faithful_openStep (h : Faithful entries s typed) (index : Nat) :
    Faithful entries (s.openStep index) typed := by
  rw [Screen.openStep]
  cases hat : s.session.steps[index]? with
  | none => exact h
  | some candidate =>
    have hcandidate := h.reasoning candidate (List.mem_of_getElem? hat)
    obtain ⟨hlt, hget⟩ := List.getElem?_eq_some_iff.mp hat
    let opened : Screen :=
      { s with session.steps := s.session.steps.set index { candidate with status := .inProgress } }
    have hopened : Faithful entries (opened.selectStep candidate.stepId) typed := by
      refine h.congr rfl ?_ rfl
      have hremark : remark { candidate with status := .inProgress } = remark candidate := rfl
      change (s.session.steps.set index _).map remark = _
      rw [List.map_set, hremark, ← List.map_set, ← hget, List.set_getElem_self]
    exact faithful_loadStep hopened hcandidate

theorem faithful_advance (h : Faithful entries s typed) : Faithful entries s.advanceToNextPending typed := by
  rw [Screen.advanceToNextPending]
  split
  · exact h
  · exact faithful_openStep h _

/-- An editor that goes with the texts of the file and with what was typed. -/
def Agrees (entries : Table Int Json) (editor : Editor) (typed : Int → Option String) : Prop :=
  (∀ i text, editor.savedText i = some text → pyStrip text = pyStrip (textOf entries i)) ∧
    (∀ i, editor.currentStep = some i → (editor.savedText i).isSome) ∧
    ∀ i text, typed i = some text → pyStrip (editor.held entries i) = pyStrip text

theorem editor_writeEntry (s : Screen) (step : StepState) (now : String) (written : Bool) :
    (s.writeEntry step now written).editor = s.editor := by
  rw [Screen.writeEntry]
  split <;> rfl

/-- A text is written for a step, and the editor takes it up or not. -/
theorem faithful_write (h : Faithful entries s typed) {id : Int} {step : StepState}
    (hget : getStep s.session.steps id = some step) (now reasoning : String) (status : StepStatus)
    {written : Bool} (hclean : cleanWrite (annotate step status reasoning) now written = true) {t : Screen}
    (hsteps : t.session.steps =
      updateStep step.stepId (fun _ => annotate step status reasoning) s.session.steps)
    (hfile : t.file = s.file) (editor : Editor)
    (heditor : Agrees (entries.insert id (buildEntry (annotate step status reasoning) now)) editor typed) :
    ∃ entries', Faithful entries'
      { t.writeEntry (annotate step status reasoning) now written with editor := editor } typed := by
  obtain rfl := getStep_stepId hget
  obtain ⟨hsaved, hcurrent, htyped⟩ := heditor
  refine ⟨entries.insert step.stepId (buildEntry (annotate step status reasoning) now), ?_, ?_,
    fun step' hstep' => ?_, hsaved, hcurrent, htyped⟩
  · have hwritten : (t.writeEntry (annotate step status reasoning) now written).file =
        (s.writeEntry (annotate step status reasoning) now written).file := by
      rw [file_writeEntry, file_writeEntry, hfile]
    change Filed (t.writeEntry (annotate step status reasoning) now written).file _
    rw [hwritten]
    exact filed_writeEntry h.filed now hclean
  · change ((t.writeEntry _ now written).session.steps.map StepState.stepId).Nodup
    have hsame : (annotate step status reasoning).stepId = step.stepId := rfl
    rw [session_writeEntry, hsteps, map_updateStep StepState.stepId hget hsame]
    exact h.ids
  · change step' ∈ (t.writeEntry _ now written).session.steps at hstep'
    rw [session_writeEntry, hsteps, updateStep_eq_map _ _ h.ids] at hstep'
    obtain ⟨before, hbefore, rfl⟩ := List.mem_map.mp hstep'
    have htext := textOf_insert entries (annotate step status reasoning) now
    by_cases hid : before.stepId = step.stepId
    · rw [if_pos hid]
      exact ((htext step.stepId).trans (if_pos rfl)).symm
    · rw [if_neg hid]
      exact (h.reasoning before hbefore).trans ((htext before.stepId).trans (if_neg hid)).symm

/-- The editor takes up a text that has been written, and keeps a newer one of the step it shows. -/
theorem agrees_markSaved (h : Faithful entries s typed) {entries' : Table Int Json} {id : Int}
    {reasoning : String} (htext : ∀ i, textOf entries' i = if i = id then reasoning else textOf entries i)
    (hlatest : s.editor.currentStep = some id ∨
      ∀ text, typed id = some text → pyStrip text = pyStrip reasoning) :
    Agrees entries' (s.editor.markSaved id reasoning) typed := by
  refine ⟨fun i text hi => ?_, fun i hi => ?_, fun i text hi => ?_⟩
  · change Function.update s.editor.savedText id (some reasoning) i = some text at hi
    rw [htext]
    by_cases hid : i = id
    · subst hid
      rw [Function.update_self, Option.some_inj] at hi
      rw [if_pos rfl, hi]
    · rw [Function.update_of_ne hid] at hi
      rw [if_neg hid]
      exact h.saved i text hi
  · change Option.isSome (Function.update s.editor.savedText id (some reasoning) i) = true
    by_cases hid : i = id
    · subst hid
      rw [Function.update_self]
      rfl
    · rw [Function.update_of_ne hid]
      exact h.current i hi
  · have hbefore := h.typed i text hi
    rw [Editor.held] at hbefore ⊢
    change pyStrip (if s.editor.currentStep = some i then s.editor.area
      else (Function.update s.editor.drafts id none i).getD (textOf entries' i)) = _
    by_cases hcurrent : s.editor.currentStep = some i
    · rw [if_pos hcurrent] at hbefore ⊢
      exact hbefore
    · rw [if_neg hcurrent] at hbefore ⊢
      rw [htext]
      by_cases hid : i = id
      · subst hid
        rw [Function.update_self, if_pos rfl]
        exact ((hlatest.resolve_left hcurrent) text hi).symm
      · rw [Function.update_of_ne hid, if_neg hid]
        exact hbefore

/-- A skip writes an empty text, and the editor keeps what it has. -/
theorem agrees_skip (h : Faithful entries s typed) {entries' : Table Int Json} {id : Int}
    (htext : ∀ i, textOf entries' i = if i = id then "" else textOf entries i)
    (hblank : pyStrip ((s.editor.savedText id).getD "") = "")
    (hlatest : (s.editor.drafts id).isSome ∨ s.editor.currentStep = some id ∨
      ∀ text, typed id = some text → pyStrip text = pyStrip "") :
    Agrees entries' s.editor typed := by
  refine ⟨fun i text hi => ?_, h.current, fun i text hi => ?_⟩
  · rw [htext]
    by_cases hid : i = id
    · subst hid
      rw [hi] at hblank
      rw [if_pos rfl]
      exact hblank
    · rw [if_neg hid]
      exact h.saved i text hi
  · have hbefore := h.typed i text hi
    rw [Editor.held] at hbefore ⊢
    by_cases hcurrent : s.editor.currentStep = some i
    · rw [if_pos hcurrent] at hbefore ⊢
      exact hbefore
    · rw [if_neg hcurrent] at hbefore ⊢
      rw [htext]
      by_cases hid : i = id
      · subst hid
        rw [if_pos rfl]
        cases hdraft : s.editor.drafts i with
        | some draft =>
          rw [hdraft] at hbefore
          exact hbefore
        | none =>
          rw [hdraft] at hlatest
          exact ((hlatest.resolve_left nofun).resolve_left hcurrent text hi).symm
      · rw [if_neg hid]
        exact hbefore

theorem faithful_handle (h : Faithful entries s typed) (closed : Bool) (m : Message) (now : String)
    (written : Bool) (hcareful : CarefulMessage ⟨s, typed, closed⟩ m now written) :
    ∃ entries', Faithful entries' (s.handle m now written) typed := by
  have htext : ∀ {step : StepState} {id : Int} (status : StepStatus) (reasoning : String), step.stepId = id →
      ∀ i, textOf (entries.insert id (buildEntry (annotate step status reasoning) now)) i =
        if i = id then reasoning else textOf entries i := by
    rintro step id status reasoning rfl i
    exact textOf_insert entries (annotate step status reasoning) now i
  cases m with
  | stepSelected id =>
    rw [Screen.handle]
    cases hget : getStep s.session.steps id with
    | none => exact ⟨entries, h⟩
    | some step => exact ⟨entries, faithful_loadStep h (h.reasoning step (getStep_mem hget))⟩
  | stepEditRequested id =>
    rw [Screen.handle]
    cases hget : getStep s.session.steps id with
    | none => exact ⟨entries, h⟩
    | some step =>
      have hstep := h.reasoning step (getStep_mem hget)
      dsimp only
      split
      · have hremark : remark { step with status := .inProgress } = remark step := rfl
        obtain rfl := getStep_stepId hget
        have hset : Faithful entries (s.setStep { step with status := .inProgress }) typed :=
          h.congr rfl (map_updateStep remark hget hremark) rfl
        exact ⟨entries, faithful_loadStep hset hstep⟩
      · exact ⟨entries, faithful_loadStep h hstep⟩
  | stepSaved id reasoning =>
    rw [Screen.handle]
    cases hget : getStep s.session.steps id with
    | none => exact ⟨entries, h⟩
    | some step =>
      obtain ⟨hclean, hlatest⟩ := hcareful step hget
      dsimp only
      rw [editor_writeEntry]
      exact faithful_write (t := s.setStep (annotate step step.status reasoning)) h hget now reasoning
        step.status hclean rfl rfl _ (agrees_markSaved h (htext _ _ (getStep_stepId hget)) hlatest)
  | stepCompleted id reasoning =>
    rw [Screen.handle]
    cases hget : getStep s.session.steps id with
    | none => exact ⟨entries, h⟩
    | some step =>
      obtain ⟨hclean, hlatest⟩ := hcareful step hget
      obtain ⟨entries', hnext⟩ :=
        faithful_write (t := (s.setStep (annotate step .complete reasoning)).updateCounters) h hget now
          reasoning .complete hclean rfl rfl _
          (agrees_markSaved h (htext _ _ (getStep_stepId hget)) hlatest)
      dsimp only
      rw [editor_writeEntry]
      exact ⟨entries', faithful_advance hnext⟩
  | stepSkipped id =>
    rw [Screen.handle]
    cases hget : getStep s.session.steps id with
    | none => exact ⟨entries, h⟩
    | some step =>
      obtain ⟨hclean, hblank, hlatest⟩ := hcareful step hget
      obtain ⟨entries', hnext⟩ :=
        faithful_write (t := (s.setStep (annotate step .skipped "")).updateCounters) h hget now "" .skipped
          hclean rfl rfl s.editor (agrees_skip h (htext _ _ (getStep_stepId hget)) hblank hlatest)
      have hkept := editor_writeEntry (s.setStep (annotate step .skipped "")).updateCounters
        (annotate step .skipped "") now written
      change _ = s.editor at hkept
      rw [← hkept] at hnext
      exact ⟨entries', faithful_advance hnext⟩

theorem record_screen (s : Sitting) (text : String) : (s.record text).screen = s.screen := by
  rw [Sitting.record]
  split <;> rfl

/-- A text is put into the editor and counts as typed for its step. -/
theorem faithful_type (h : Faithful entries s typed) (closed : Bool) (editor : Editor) (text : String)
    (hcurrent : editor.currentStep = s.editor.currentStep) (hsaved : editor.savedText = s.editor.savedText)
    (harea : editor.area = text)
    (hdrafts : ∀ id, editor.currentStep ≠ some id → editor.drafts id = s.editor.drafts id) :
    Faithful entries (Sitting.record ⟨{ s with editor := editor }, typed, closed⟩ text).screen
      (Sitting.record ⟨{ s with editor := editor }, typed, closed⟩ text).typed := by
  rw [record_screen]
  have hold : ∀ id t, editor.currentStep ≠ some id → typed id = some t →
      pyStrip (editor.held entries id) = pyStrip t := by
    intro id t hid ht
    have hbefore := h.typed id t ht
    rw [Editor.held, if_neg (hcurrent ▸ hid)] at hbefore
    rw [Editor.held, if_neg hid, hdrafts id hid]
    exact hbefore
  refine ⟨h.filed, h.ids, h.reasoning, fun id t ht => h.saved id t (hsaved ▸ ht), fun id hid => ?_,
    fun id t ht => ?_⟩
  · change Option.isSome (editor.savedText id) = true
    rw [hsaved]
    exact h.current id (hcurrent ▸ hid)
  · change pyStrip (editor.held entries id) = _
    rw [Sitting.record] at ht
    cases hshown : editor.currentStep with
    | none =>
      simp only [hshown] at ht
      exact hold id t (by rw [hshown]; exact nofun) ht
    | some shown =>
      simp only [hshown] at ht
      by_cases hid : id = shown
      · subst hid
        rw [Function.update_self, Option.some_inj] at ht
        rw [Editor.held, if_pos hshown, harea, ht]
      · rw [Function.update_of_ne hid] at ht
        exact hold id t (by rw [hshown]; exact fun he => hid (Option.some.inj he).symm) ht

/-- A key changes at most whether a skip is half way. -/
theorem faithful_pending (h : Faithful entries s typed) {s' : Screen} (hsession : s'.session = s.session)
    (hfile : s'.file = s.file) (skipPending : Bool)
    (heditor : s'.editor = { s.editor with skipPending := skipPending }) : Faithful entries s' typed := by
  refine ⟨hfile ▸ h.filed, hsession ▸ h.ids, hsession ▸ h.reasoning, ?_, ?_, ?_⟩
  · rw [heditor]
    exact h.saved
  · rw [heditor]
    exact h.current
  · rw [heditor]
    exact h.typed

theorem faithful_step {s : Sitting} (h : Faithful entries s.screen s.typed) (d : Deed)
    (hcareful : Careful s d) : ∃ entries', Faithful entries' (s.step d).screen (s.step d).typed := by
  unfold Sitting.step
  split
  · exact ⟨entries, h⟩
  rename_i hopen
  have hopen : s.closed = false := Bool.eq_false_iff.mpr hopen
  have hsame : ∀ {s' : Screen}, s'.session = s.screen.session → s'.file = s.screen.file →
      s'.editor = s.screen.editor → ∃ entries', Faithful entries' s' s.typed :=
    fun hsession hfile heditor => ⟨entries, h.congr hfile (by rw [hsession]) heditor⟩
  cases d with
  | quit confirmed =>
    dsimp only
    split
    · exact ⟨entries, h⟩
    · exact ⟨entries, h⟩
  | input i =>
    cases i with
    | type text =>
      have hnext := faithful_type h s.closed { s.screen.editor with area := text } text rfl rfl rfl
        fun _ _ => rfl
      exact ⟨entries, hnext⟩
    | revert =>
      refine ⟨entries, ?_⟩
      obtain ⟨hcurrent, hsaved, hkept⟩ := revertCurrentStep_frame s.screen.editor
      exact faithful_type h s.closed s.screen.editor.revertCurrentStep _ hcurrent hsaved rfl hkept
    | move delta =>
      obtain ⟨hsession, hfile, heditor⟩ := move_frame s.screen delta
      exact hsame hsession hfile heditor
    | click id | requestEdit id | autosave => exact hsame rfl rfl rfl
    | jump id =>
      dsimp only
      rw [Screen.step]
      cases hget : getStep s.screen.session.steps id with
      | none => exact ⟨entries, h⟩
      | some step =>
        have hselected : Faithful entries (s.screen.selectStep id) s.typed := h.congr rfl rfl rfl
        exact ⟨entries, faithful_loadStep hselected (h.reasoning step (getStep_mem hget))⟩
    | changed =>
      obtain ⟨b, hb⟩ := onEditorChanged_pending s.screen.editor
      exact ⟨entries, faithful_pending h rfl rfl b hb⟩
    | save =>
      obtain ⟨b, hb⟩ := actionSave_pending s.screen.editor
      exact ⟨entries, faithful_pending h rfl rfl b hb⟩
    | next =>
      obtain ⟨b, hb⟩ := actionNext_pending s.screen.editor
      exact ⟨entries, faithful_pending h rfl rfl b hb⟩
    | deliver n now written =>
      dsimp only
      rw [Screen.step]
      cases hm : s.screen.messages[n]? with
      | none => exact ⟨entries, h⟩
      | some m =>
        have htaken : Faithful entries { s.screen with messages := s.screen.messages.eraseIdx n } s.typed :=
          h.congr rfl rfl rfl
        have hmessage : CarefulMessage s m now written := hcareful hopen m hm
        refine faithful_handle htaken s.closed m now written ?_
        cases m with
        | stepSelected | stepEditRequested | stepSaved | stepCompleted | stepSkipped => exact hmessage

/-- At a quit without a question the text of the step in the editor is saved, and so are the others
when the drafts are. -/
theorem quiet_quit {s : Sitting} (h : Faithful entries s.screen s.typed) (d : Deed)
    (hcareful : Careful s d) : QuietQuit s d := by
  rintro confirmed rfl hopen hclean id text htext
  have hheld := h.typed id text htext
  rw [writtenText_filed h.filed, ← hheld, Editor.held]
  by_cases hcurrent : s.screen.editor.currentStep = some id
  · obtain ⟨saved, hsaved⟩ := Option.isSome_iff_exists.mp (h.current id hcurrent)
    rw [if_pos hcurrent, ← h.saved id saved hsaved]
    rw [Editor.isDirty, hcurrent] at hclean
    dsimp only at hclean
    rw [hsaved, decide_eq_false_iff_not, not_not] at hclean
    exact hclean
  · rw [if_neg hcurrent]
    cases hdraft : s.screen.editor.drafts id with
    | none => rfl
    | some draft =>
      have hwritten := hcareful hopen hclean id draft hcurrent hdraft
      rw [writtenText_filed h.filed] at hwritten
      exact hwritten

variable {metadata : List StepEntry}

theorem faithful_open (decodeError : Text → String) {file : File} {screen : Screen}
    (hids : (metadata.map StepEntry.stepId).Nodup) (hne : metadata ≠ []) (hfiled : Filed file entries)
    (hopen : openScreen decodeError metadata file = .ok screen) :
    Faithful entries screen fun _ => none := by
  rw [openScreen, load_filed metadata decodeError hids hne hfiled] at hopen
  cases hopen
  let steps := shownSteps (inOrder metadata) entries
  have hreasoning : ∀ step ∈ steps, step.reasoning = textOf entries step.stepId := by
    intro step hstep
    obtain ⟨m, -, rfl⟩ := List.mem_map.mp hstep
    rw [shown_stepId]
    exact shown_reasoning entries m
  have hsorted : (steps.map StepState.stepId).Nodup := by
    rw [shownSteps_stepId]
    exact ((List.perm_insertionSort _ metadata).map StepEntry.stepId).nodup_iff.mpr hids
  have hblank : Faithful entries ⟨Session.of steps, findCursor steps, .blank, [], file⟩ fun _ => none :=
    ⟨hfiled, hsorted, hreasoning, by rintro _ _ ⟨⟩, by rintro _ ⟨⟩, by rintro _ _ ⟨⟩⟩
  change Faithful entries ⟨Session.of steps, findCursor steps,
    (steps[findCursor steps]?).elim .blank Editor.blank.loadStep, [], file⟩ _
  cases hat : steps[findCursor steps]? with
  | none => exact hblank
  | some step => exact faithful_loadStep hblank (hreasoning step (List.mem_of_getElem? hat))

end Invariant

/-- In a session without two steps of one id and a file without two lines of one step, every quit
without a question in a careful run leaves the text last typed for every step in the file. -/
theorem no_text_lost (decodeError : Text → String) (metadata : List StepEntry) (file : File)
    (screen : Screen) (deeds : List Deed) (hids : (metadata.map StepEntry.stepId).Nodup)
    (hfile : ∃ entries, Filed file entries) (hopen : openScreen decodeError metadata file = .ok screen)
    (hg : Guarded Sitting.step Careful (.start screen) deeds) :
    Along Sitting.step (fun s d _ => QuietQuit s d) (.start screen) deeds := by
  obtain ⟨entries, hfiled⟩ := hfile
  have hstart : ∃ entries, Faithful entries (Sitting.start screen).screen (Sitting.start screen).typed :=
    ⟨entries, faithful_open decodeError hids (metadata_ne_nil hopen) hfiled hopen⟩
  have hstep : ∀ (s : Sitting) (d : Deed), (∃ entries, Faithful entries s.screen s.typed) → Careful s d →
      ∃ entries, Faithful entries (s.step d).screen (s.step d).typed :=
    fun s d ⟨_, h⟩ hd => faithful_step h d hd
  exact along_run hstep (fun s d ⟨_, h⟩ hd => quiet_quit h d hd) _ deeds hstart hg

/-- A text that is saved before the screen is left. -/
def saveAndQuit : List Deed :=
  [.input (.type "Opens the menu. "), .input .save, .input (.deliver 0 "now" true), .quit false]

theorem no_text_lost_saved :
    Along Sitting.step (fun s d _ => QuietQuit s d) (.start twoStepScreen) saveAndQuit := by
  have hguarded : Guarded Sitting.step Careful (.start twoStepScreen) saveAndQuit := by
    refine ⟨trivial, trivial, fun _ m hm => ?_, fun _ _ id draft _ hdraft => ?_, trivial⟩
    · obtain rfl : Message.stepSaved 1 (pyStrip "Opens the menu. ") = m := Option.some.inj hm
      intro step hstep
      obtain rfl : (sampleMetadata 1).toState = step := Option.some.inj hstep
      exact ⟨by decide +kernel, .inl rfl⟩
    · change Function.update (fun _ => none) 1 none id = some draft at hdraft
      rw [Function.update_apply, ite_self] at hdraft
      cases hdraft
  exact no_text_lost (fun _ => "Expecting value") twoSteps none twoStepScreen saveAndQuit (by decide)
    ⟨.empty, filed_none⟩ rfl hguarded

/-- A text that is left for another step without being saved. -/
def leaveAndQuit : List Deed := [.input (.type "Opens the menu."), .input (.jump 2), .quit false]

theorem draft_lost :
    openScreen (fun _ => "Expecting value") twoSteps none = .ok twoStepScreen ∧
      ¬ Along Sitting.step (fun s d _ => QuietQuit s d) (.start twoStepScreen) leaveAndQuit := by
  refine ⟨rfl, fun h => ?_⟩
  have hquit := h.2.2.1 false rfl rfl (by decide +kernel) 1 "Opens the menu." rfl
  exact absurd hquit (by decide +kernel)

end MemoryArchive.Tui
