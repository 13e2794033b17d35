import Mathlib.Logic.Function.Basic
import MemoryArchive.Data.Runs
import MemoryArchive.Tui.Loader

namespace MemoryArchive.Tui

open Reasoning Runs

/-- What the step list and the editor post up to the screen. -/
inductive Message
  | stepSelected (stepId : Int)
  | stepEditRequested (stepId : Int)
  | stepSaved (stepId : Int) (reasoning : String)
  | stepCompleted (stepId : Int) (reasoning : String)
  | stepSkipped (stepId : Int)
  deriving DecidableEq

/-- The reasoning editor. `area` is the text in its text area. -/
structure Editor where
  currentStep : Option Int
  savedText : Int → Option String
  drafts : Int → Option String
  skipPending : Bool
  area : String

namespace Editor

def blank : Editor := ⟨none, fun _ => none, fun _ => none, false, ""⟩

def isDirty (e : Editor) : Bool :=
  match e.currentStep with
  | none => false
  | some id => pyStrip e.area ≠ pyStrip ((e.savedText id).getD "")

def saveCurrentDraft (e : Editor) : Editor :=
  match e.currentStep with
  | none => e
  | some id => { e with drafts := Function.update e.drafts id (some e.area) }

def loadStepInternal (e : Editor) (step : StepState) : Editor :=
  { e with
    currentStep := some step.stepId
    skipPending := false
    area := (e.drafts step.stepId).getD step.reasoning
    savedText := Function.update e.savedText step.stepId
      (some ((e.savedText step.stepId).getD step.reasoning)) }

/-- `load_step`, and `enter_edit_mode`, which differs in the focus only. -/
def loadStep (e : Editor) (step : StepState) : Editor := e.saveCurrentDraft.loadStepInternal step

def markSaved (e : Editor) (id : Int) (reasoning : String) : Editor :=
  { e with
    savedText := Function.update e.savedText id (some reasoning)
    drafts := Function.update e.drafts id none }

def revertCurrentStep (e : Editor) : Editor :=
  match e.currentStep with
  | none => e
  | some id =>
      { e with
        area := (e.savedText id).getD ""
        skipPending := false
        drafts := Function.update e.drafts id none }

/-- Text in the area takes back the first half of a skip. -/
def onEditorChanged (e : Editor) : Editor :=
  if e.skipPending ∧ pyStrip e.area ≠ "" then { e with skipPending := false } else e

def autosave (e : Editor) : Option Message :=
  match e.currentStep with
  | none => none
  | some id => if e.isDirty then some (.stepSaved id (pyStrip e.area)) else none

def actionSave (e : Editor) : Editor × Option Message :=
  match e.currentStep with
  | none => (e, none)
  | some id => ({ e with skipPending := false }, some (.stepSaved id (pyStrip e.area)))

/-- An empty text is a skip only when the key is pressed twice. -/
def actionNext (e : Editor) : Editor × Option Message :=
  match e.currentStep with
  | none => (e, none)
  | some id =>
      let text := pyStrip e.area
      if text = "" then
        if e.skipPending then ({ e with skipPending := false }, some (.stepSkipped id))
        else ({ e with skipPending := true }, none)
      else ({ e with skipPending := false }, some (.stepCompleted id text))

end Editor

/-- The annotation screen: the session it changes in place, the row that the
step list has selected, the editor, the messages under way and the file. -/
structure Screen where
  session : Session
  cursor : Nat
  editor : Editor
  messages : List Message
  file : File

/-- What the annotator and the event loop do. A message under way is handled
when its turn comes; `written` says whether the disk takes the file. -/
inductive Input
  | move (delta : Int)
  | click (stepId : Int)
  | requestEdit (stepId : Int)
  | jump (stepId : Int)
  | type (text : String)
  | changed
  | save
  | autosave
  | next
  | revert
  | deliver (n : Nat) (now : String) (written : Bool)

def getStep (steps : List StepState) (id : Int) : Option StepState := steps.find? fun s => s.stepId = id

def isPending (s : StepState) : Bool := s.status = .pending || s.status = .inProgress

/-- The next pending step, ahead first and then from the start. -/
def nextPending (steps : List StepState) (current : Nat) : Option Nat :=
  ((List.range steps.length).drop (current + 1) ++ List.range current).find? fun i =>
    (steps[i]?).any isPending

namespace Screen

def post (s : Screen) (m : Option Message) : Screen := { s with messages := s.messages ++ m.toList }

def selectStep (s : Screen) (id : Int) : Screen :=
  { s with cursor := (s.session.steps.findIdx? fun t => t.stepId = id).getD s.cursor }

def loadStep (s : Screen) (step : StepState) : Screen := { s with editor := s.editor.loadStep step }

def updateCounters (s : Screen) : Screen := { s with session := Session.of s.session.steps }

/-- `write_entry`: an exception leaves the file as it was. -/
def writeEntry (s : Screen) (step : StepState) (now : String) (written : Bool) : Screen :=
  if written then { s with file := (atomicUpsert s.file step now).elim s.file some } else s

/-- A step of the session is changed in place. -/
def setStep (s : Screen) (step : StepState) : Screen :=
  { s with session.steps := updateStep step.stepId (fun _ => step) s.session.steps }

def currentIdx (s : Screen) : Option Nat :=
  (s.session.steps[s.cursor]?).bind fun row => s.session.steps.findIdx? fun t => t.stepId = row.stepId

def openStep (s : Screen) (index : Nat) : Screen :=
  match s.session.steps[index]? with
  | none => s
  | some candidate =>
      let candidate := { candidate with status := .inProgress }
      ({ s with session.steps := s.session.steps.set index candidate }.selectStep
        candidate.stepId).loadStep candidate

def advanceToNextPending (s : Screen) : Screen :=
  match s.currentIdx.bind (nextPending s.session.steps) with
  | none => s
  | some index => s.openStep index

def handle (s : Screen) (m : Message) (now : String) (written : Bool) : Screen :=
  match m with
  | .stepSelected id =>
      match getStep s.session.steps id with
      | none => s
      | some step => s.loadStep step
  | .stepEditRequested id =>
      match getStep s.session.steps id with
      | none => s
      | some step =>
          if step.status = .pending then
            let step := { step with status := .inProgress }
            (s.setStep step).loadStep step
          else s.loadStep step
  | .stepSaved id reasoning =>
      match getStep s.session.steps id with
      | none => s
      | some step =>
          let step := { step with reasoning := reasoning }
          let s := (s.setStep step).writeEntry step now written
          { s with editor := s.editor.markSaved id reasoning }
  | .stepCompleted id reasoning =>
      match getStep s.session.steps id with
      | none => s
      | some step =>
          let step := { step with reasoning := reasoning, status := .complete }
          let s := (s.setStep step).updateCounters.writeEntry step now written
          { s with editor := s.editor.markSaved id reasoning }.advanceToNextPending
  | .stepSkipped id =>
      match getStep s.session.steps id with
      | none => s
      | some step =>
          let step := { step with reasoning := "", status := .skipped }
          ((s.setStep step).updateCounters.writeEntry step now written).advanceToNextPending

def step (s : Screen) (i : Input) : Screen :=
  match i with
  | .move delta =>
      let new := (max 0 (min (s.session.steps.length - 1 : Int) (s.cursor + delta))).toNat
      if new = s.cursor then s
      else
        let selected := s.session.steps[new]?.map fun row : StepState => Message.stepSelected row.stepId
        { s with cursor := new }.post selected
  | .click id => s.post (some (.stepSelected id))
  | .requestEdit id => s.post (some (.stepEditRequested id))
  | .jump id =>
      match getStep s.session.steps id with
      | none => s
      | some step => (s.selectStep id).loadStep step
  | .type text => { s with editor.area := text }
  | .changed => { s with editor := s.editor.onEditorChanged }
  | .save => { s with editor := s.editor.actionSave.1 }.post s.editor.actionSave.2
  | .autosave => s.post s.editor.autosave
  | .next => { s with editor := s.editor.actionNext.1 }.post s.editor.actionNext.2
  | .revert => { s with editor := s.editor.revertCurrentStep }
  | .deliver n now written =>
      match s.messages[n]? with
      | none => s
      | some m => { s with messages := s.messages.eraseIdx n }.handle m now written

end Screen

def findCursor (steps : List StepState) : Nat :=
  (steps.findIdx? fun s => s.status = .pending).getD (steps.length - 1)

/-- The screen on a session that has just been loaded, its cursor step in the
editor. -/
def openScreen (decodeError : Text → String) (metadata : List StepEntry) (file : File) :
    Except ReadError Screen := do
  let session ← load decodeError metadata file
  let cursor := findCursor session.steps
  let editor := (session.steps[cursor]?).elim .blank Editor.blank.loadStep
  return ⟨session, cursor, editor, [], file⟩

end MemoryArchive.Tui
