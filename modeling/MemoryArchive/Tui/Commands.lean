import MemoryArchive.Capture.Event
import MemoryArchive.Tui.Loader

namespace MemoryArchive.Tui

open Reasoning

/-- The marker of a command that failed. -/
def failedMarker : String := "[FAILED] "

/-- `to_human_readable`. How the events of each kind are told is a parameter. -/
def toHumanReadable (convert : Capture.CommandEvent → String) (e : Capture.CommandEvent) : String :=
  let converted :=
    if e.actionType ∈ ["mouse", "keyboard", "position"] then convert e else e.rawCommand
  if e.success then converted else failedMarker ++ converted

/-- The loop of `_split_md_row`: cells end at a pipe without a backslash. -/
def mdCells (buf : Text) : Text → List Text
  | [] => [Lines.pyStrip buf]
  | '\\' :: '|' :: cs => mdCells (buf ++ ['|']) cs
  | c :: cs => if c = '|' then Lines.pyStrip buf :: mdCells [] cs else mdCells (buf ++ [c]) cs

/-- A row starts and ends with a pipe, which makes an empty cell on either side. -/
def splitMdRow (line : Text) : List Text :=
  let cells := mdCells [] line
  if 2 ≤ cells.length then cells.tail.dropLast else cells

/-- `_FAILED_PREFIX_RE.sub("", _)`, which is anchored at the start. -/
def dropFailed (text : Text) : Text :=
  let marker := "[FAILED]".toList
  if marker <+: text then (text.drop marker.length).dropWhile Lines.isPySpace else text

/-- The files under commands/ that the loader reads. -/
structure CommandFiles where
  actuation : File
  converted : File

section Files

-- Python's `int` of a text.
variable (pyInt : Text → Option Int)

/-- A step and its action, if the line is a row of the table. -/
def readRow (line : Text) : Option (Int × String) :=
  let line := Lines.pyStrip line
  if line.head? = some '|' then
    match splitMdRow line with
    | id :: _ :: col :: cols =>
        let action := List.intercalate " | ".toList ((col :: cols).filter (· ≠ []))
        (pyInt id).map fun id => (id, String.ofList (dropFailed action))
    | _ => none
  else none

/-- What a dict holds after a list of assignments. -/
def dictOf (rows : List (Int × String)) : Int → Option String :=
  rows.foldl (fun d r => Function.update d r.1 (some r.2)) fun _ => none

def readConvertedCommands (converted : File) : Int → Option String :=
  match converted with
  | none => fun _ => none
  | some text => dictOf ((Lines.splitlines (Lines.readText text)).filterMap (readRow pyInt))

/-- `entry.get("raw_command", "")` for a member that is left as a text. -/
def actuationCommand : Json → Option String
  | .obj fields => some ((((Json.obj fields).get? "raw_command").bind asString).getD "")
  | _ => none

/-- The entries belong to the steps by position, if there are as many. -/
def readActuationCommands (stepIds : List Int) (actuation : File) : Int → Option String :=
  match (actuation.map Lines.readText).bind loads with
  | some (.arr data) =>
      if data.length = stepIds.length then
        match data.mapM actuationCommand with
        | some commands => dictOf (stepIds.zip commands)
        | none => fun _ => none
      else fun _ => none
  | _ => fun _ => none

/-- A value of metadata.json, or where it is empty that of a command file. -/
def preferred (own : String) (derived : Option String) : String :=
  if own = "" then derived.getD "" else own

def StepEntry.fill (raw converted : Int → Option String) (e : StepEntry) : StepEntry :=
  { e with
    rawCommand := preferred e.rawCommand (raw e.stepId)
    convertedCommand := preferred e.convertedCommand (converted e.stepId) }

/-- The steps of metadata.json in their order, the empty commands filled. -/
def filledSteps (metadata : List StepEntry) (c : CommandFiles) : List StepEntry :=
  let steps := inOrder metadata
  let raw := readActuationCommands (steps.map StepEntry.stepId) c.actuation
  let converted := readConvertedCommands pyInt c.converted
  steps.map (StepEntry.fill raw converted)

/-- `SessionLoader.load` -/
def loadMemory (decodeError : Text → String) (metadata : List StepEntry) (c : CommandFiles)
    (file : File) : Except ReadError Session := do
  let steps ← if metadata = [] then .error (.load noSteps)
    else .ok ((filledSteps pyInt metadata c).map StepEntry.toState)
  let existing ← loaderReadReasoning decodeError file
  let r ← restoreAnnotations steps existing
  return ⟨r.steps, r.annotated, r.skipped⟩

end Files

def carriesMarker (text : String) : Bool := failedMarker.toList.isPrefixOf text.toList

/-- A step as it is to be shown: with its commands of metadata.json, or where
these are empty those of the command files, and without the marker. -/
structure ShowsCommands (raw converted : Int → Option String) (e : StepEntry) (s : StepState) : Prop where
  raw : s.rawCommand = preferred e.rawCommand (raw e.stepId)
  converted : s.convertedCommand = preferred e.convertedCommand (converted e.stepId)
  rawUnmarked : carriesMarker s.rawCommand = false
  convertedUnmarked : carriesMarker s.convertedCommand = false

/-- Metadata is the authority for the commands that a session shows. -/
def CommandsAuthoritative (pyInt : Text → Option Int) (metadata : List StepEntry) (c : CommandFiles)
    (session : Session) : Prop :=
  List.Forall₂
    (ShowsCommands (readActuationCommands ((inOrder metadata).map StepEntry.stepId) c.actuation)
      (readConvertedCommands pyInt c.converted))
    (inOrder metadata) session.steps

/-- What the last entry of each step says. -/
def lastNotes (existing : List Json) : Int → Option Note :=
  existing.foldl (fun notes entry =>
    match entryId entry with
    | .ok (some id) => Function.update notes id (readNote entry).toOption
    | _ => notes) fun _ => none

/-- The commands of the steps do not carry the marker, and the last entry of a
step repeats them. An entry is for the last step with its id. -/
def commandsRepeated (notes : Int → Option Note) : List StepEntry → Bool
  | [] => true
  | e :: es =>
      !carriesMarker e.rawCommand && !carriesMarker e.convertedCommand &&
        (es.any (fun e' => e'.stepId = e.stepId) || (notes e.stepId).all fun note =>
          note.rawCommand = e.rawCommand && note.convertedCommand = e.convertedCommand) &&
        commandsRepeated notes es

/-- The steps with the notes of the entries. -/
def noted (notes : Int → Option Note) : List StepState → List StepState
  | [] => []
  | s :: ss =>
      (if s.stepId ∈ ss.map StepState.stepId then s else (notes s.stepId).elim s fun n => n.applyTo s) ::
        noted notes ss

section Noted

variable {notes notes' : Int → Option Note} {id : Int}

theorem noted_stepId (notes : Int → Option Note) (steps : List StepState) :
    (noted notes steps).map StepState.stepId = steps.map StepState.stepId := by
  induction steps with
  | nil => rfl
  | cons s ss ih =>
    rw [noted, List.map_cons, List.map_cons, ih]
    split
    · rfl
    · cases notes s.stepId with
      | none => rfl
      | some n => rfl

theorem noted_congr (steps : List StepState) (h : ∀ s ∈ steps, notes s.stepId = notes' s.stepId) :
    noted notes steps = noted notes' steps := by
  induction steps with
  | nil => rfl
  | cons s ss ih =>
    rw [noted, noted, h s List.mem_cons_self, ih fun s' hs' => h s' (List.mem_cons_of_mem s hs')]

theorem noted_none (steps : List StepState) : noted (fun _ => none) steps = steps := by
  induction steps with
  | nil => rfl
  | cons s ss ih =>
    rw [noted, ih, Option.elim_none, ite_self]

theorem updateStep_append (f : StepState → StepState) (ss ss' : List StepState) :
    updateStep id f (ss ++ ss') =
      if id ∈ ss.map StepState.stepId then updateStep id f ss ++ ss' else ss ++ updateStep id f ss' := by
  induction ss with
  | nil => rfl
  | cons s ss ih =>
    by_cases hs : s.stepId = id
    · simp [updateStep, hs]
    · have hmem : id ∈ (s :: ss).map StepState.stepId ↔ id ∈ ss.map StepState.stepId := by
        rw [List.map_cons, List.mem_cons]
        exact or_iff_right (Ne.symm hs)
      rw [List.cons_append, updateStep, if_neg hs, ih, if_congr hmem rfl rfl]
      split
      · rw [updateStep, if_neg hs, List.cons_append]
      · rfl

/-- The last step with an id is changed. -/
theorem updateIndexed_cons (f : StepState → StepState) (s : StepState) (ss : List StepState) :
    updateIndexed id f (s :: ss) =
      if id ∈ ss.map StepState.stepId then s :: updateIndexed id f ss
      else (if s.stepId = id then f s else s) :: ss := by
  have hmem : id ∈ ss.reverse.map StepState.stepId ↔ id ∈ ss.map StepState.stepId := by
    rw [List.map_reverse, List.mem_reverse]
  rw [updateIndexed, List.reverse_cons, updateStep_append, if_congr hmem rfl rfl]
  split
  · rw [List.reverse_append]
    rfl
  · rw [updateStep]
    split
    · simp
    · simp [updateStep]

/-- A new entry for a step takes the place of the one before. -/
theorem updateIndexed_noted (n : Note) (steps : List StepState)
    (hmem : id ∈ steps.map StepState.stepId) :
    updateIndexed id n.applyTo (noted notes steps) = noted (Function.update notes id (some n)) steps := by
  induction steps with
  | nil => cases hmem
  | cons s ss ih =>
    rw [noted, noted, updateIndexed_cons, noted_stepId]
    by_cases hlater : id ∈ ss.map StepState.stepId
    · rw [if_pos hlater, ih hlater]
      by_cases hs : s.stepId ∈ ss.map StepState.stepId
      · rw [if_pos hs, if_pos hs]
      · have hne : s.stepId ≠ id := fun he => hs (he ▸ hlater)
        rw [if_neg hs, if_neg hs, Function.update_of_ne hne]
    · have hs : s.stepId = id := by
        rw [List.map_cons, List.mem_cons] at hmem
        exact (hmem.resolve_right hlater).symm
      have hrest : noted notes ss = noted (Function.update notes id (some n)) ss := by
        refine noted_congr ss fun s' hs' => ?_
        have hne : s'.stepId ≠ id := fun he => hlater (List.mem_map.mpr ⟨s', hs', he⟩)
        rw [Function.update_of_ne hne]
      have hlast : s.stepId ∉ ss.map StepState.stepId := by rwa [hs]
      rw [if_neg hlater, if_neg hlast, if_neg hlast, ← hrest, hs, Function.update_self, Option.elim_some]
      cases notes id with
      | none => rw [Option.elim_none, if_pos hs]
      | some n' =>
        have hid : (n'.applyTo s).stepId = id := hs
        rw [Option.elim_some, if_pos hid]
        rfl

theorem restoreAnnotations_noted {steps : List StepState} {existing : List Json} {r : Restored}
    (h : restoreAnnotations steps existing = .ok r) : r.steps = noted (lastNotes existing) steps := by
  induction existing using List.reverseRecOn generalizing r with
  | nil =>
    cases h
    exact (noted_none steps).symm
  | append_singleton existing entry ih =>
    rw [restoreAnnotations, List.foldlM_append] at h
    cases hbefore : existing.foldlM restoreEntry ⟨steps, 0, 0⟩ with
    | error e =>
      rw [hbefore] at h
      cases h
    | ok before =>
      have hsteps := ih hbefore
      rw [hbefore] at h
      change (restoreEntry before entry >>= pure) = _ at h
      rw [bind_pure, restoreEntry] at h
      rw [lastNotes, List.foldl_append, List.foldl_cons, List.foldl_nil]
      change r.steps = noted (match entryId entry with
        | .ok (some id) => Function.update (lastNotes existing) id (readNote entry).toOption
        | _ => lastNotes existing) steps
      cases hid : entryId entry with
      | error e =>
        rw [hid] at h
        cases h
      | ok found =>
        rw [hid] at h
        cases found with
        | none =>
          cases h
          exact hsteps
        | some id =>
          change (if (before.steps.any fun s => s.stepId = id) = true then _ else _) = _ at h
          have hany : (before.steps.any fun s => decide (s.stepId = id)) = true ↔
              id ∈ steps.map StepState.stepId := by
            rw [← noted_stepId (lastNotes existing) steps, ← hsteps]
            simp only [List.any_eq_true, decide_eq_true_eq, List.mem_map]
          split at h
          · rename_i hfound
            cases hnote : readNote entry with
            | error e =>
              rw [hnote] at h
              cases h
            | ok note =>
              rw [hnote] at h
              cases h
              dsimp only
              rw [hsteps, updateIndexed_noted note steps (hany.mp hfound)]
              rfl
          · rename_i hmissing
            cases h
            rw [hsteps]
            refine noted_congr steps fun s hs => ?_
            have hne : s.stepId ≠ id := by
              rintro rfl
              exact hmissing (hany.mpr (List.mem_map_of_mem hs))
            dsimp only
            rw [Function.update_of_ne hne]

end Noted

/-- A step that shows its own commands. -/
theorem shows_own (raw converted : Int → Option String) (e : StepEntry) :
    ShowsCommands raw converted e (e.fill raw converted).toState ↔
      carriesMarker (e.fill raw converted).rawCommand = false ∧
        carriesMarker (e.fill raw converted).convertedCommand = false :=
  ⟨fun h => ⟨h.rawUnmarked, h.convertedUnmarked⟩, fun h => ⟨rfl, rfl, h.1, h.2⟩⟩

/-- A step that shows the commands of an entry. -/
theorem shows_note (raw converted : Int → Option String) (e : StepEntry) (n : Note) :
    ShowsCommands raw converted e (n.applyTo (e.fill raw converted).toState) ↔
      (carriesMarker (e.fill raw converted).rawCommand = false ∧
        carriesMarker (e.fill raw converted).convertedCommand = false) ∧
        n.rawCommand = (e.fill raw converted).rawCommand ∧
          n.convertedCommand = (e.fill raw converted).convertedCommand := by
  constructor
  · rintro ⟨hraw, hconverted, hraw', hconverted'⟩
    have hr : n.rawCommand = (e.fill raw converted).rawCommand := hraw
    have hc : n.convertedCommand = (e.fill raw converted).convertedCommand := hconverted
    rw [← hr, ← hc]
    exact ⟨⟨hraw', hconverted'⟩, rfl, rfl⟩
  · rintro ⟨⟨hraw', hconverted'⟩, hr, hc⟩
    rw [← hr] at hraw'
    rw [← hc] at hconverted'
    exact ⟨hr, hc, hraw', hconverted'⟩

/-- The steps show their commands exactly if the entries repeat them. -/
theorem shows_iff_repeated (notes : Int → Option Note) (raw converted : Int → Option String)
    (es : List StepEntry) :
    List.Forall₂ (ShowsCommands raw converted) es
        (noted notes ((es.map (StepEntry.fill raw converted)).map StepEntry.toState)) ↔
      commandsRepeated notes (es.map (StepEntry.fill raw converted)) = true := by
  induction es with
  | nil => simp [noted, commandsRepeated]
  | cons e es ih =>
    rw [List.map_cons, List.map_cons, noted, commandsRepeated, List.forall₂_cons, ih, Bool.and_eq_true]
    refine and_congr_left fun _ => ?_
    have hmem : (e.fill raw converted).toState.stepId ∈
        ((es.map (StepEntry.fill raw converted)).map StepEntry.toState).map StepState.stepId ↔
        ((es.map (StepEntry.fill raw converted)).any fun e' =>
          decide (e'.stepId = (e.fill raw converted).stepId)) = true := by
      rw [List.map_map, List.mem_map, List.any_eq_true]
      simp only [decide_eq_true_eq, Function.comp]
      rfl
    rw [Bool.and_eq_true, Bool.and_eq_true, Bool.not_eq_true', Bool.not_eq_true', Bool.or_eq_true, ← hmem]
    split
    · rename_i hlater
      rw [shows_own]
      exact (and_iff_left (.inl hlater)).symm
    · rename_i hlater
      rw [or_iff_right hlater]
      have hid : (e.fill raw converted).toState.stepId = (e.fill raw converted).stepId := rfl
      rw [hid]
      cases notes (e.fill raw converted).stepId with
      | none =>
        rw [Option.elim_none, shows_own, Option.all_none]
        exact (and_iff_left rfl).symm
      | some n =>
        rw [Option.elim_some, shows_note, Option.all_some, Bool.and_eq_true, decide_eq_true_eq,
          decide_eq_true_eq]

theorem commands_authoritative_iff (pyInt : Text → Option Int) (decodeError : Text → String)
    (metadata : List StepEntry) (c : CommandFiles) (file : File) (session : Session)
    (hload : loadMemory pyInt decodeError metadata c file = .ok session) :
    CommandsAuthoritative pyInt metadata c session ↔
      ∀ existing, loaderReadReasoning decodeError file = .ok existing →
        commandsRepeated (lastNotes existing) (filledSteps pyInt metadata c) = true := by
  rw [loadMemory] at hload
  split at hload
  · cases hload
  cases hread : loaderReadReasoning decodeError file with
  | error e =>
    rw [hread] at hload
    cases hload
  | ok existing =>
    rw [hread] at hload
    change (restoreAnnotations _ existing >>= _) = _ at hload
    cases hrestore : restoreAnnotations ((filledSteps pyInt metadata c).map StepEntry.toState) existing with
    | error e =>
      rw [hrestore] at hload
      cases hload
    | ok r =>
      rw [hrestore] at hload
      cases hload
      have hshows := shows_iff_repeated (lastNotes existing)
        (readActuationCommands ((inOrder metadata).map StepEntry.stepId) c.actuation)
        (readConvertedCommands pyInt c.converted) (inOrder metadata)
      have hsteps : r.steps = noted (lastNotes existing) ((filledSteps pyInt metadata c).map StepEntry.toState) :=
        restoreAnnotations_noted hrestore
      rw [CommandsAuthoritative, hsteps]
      refine hshows.trans ⟨fun h existing' he => ?_, fun h => h existing rfl⟩
      cases he
      exact h

/-- What the recorder keeps of a failed event carries the marker. -/
theorem carriesMarker_failed (convert : Capture.CommandEvent → String) {e : Capture.CommandEvent}
    (h : e.success = false) : carriesMarker (toHumanReadable convert e) = true := by
  rw [toHumanReadable, h, if_neg Bool.false_ne_true, carriesMarker, String.toList_append, List.isPrefixOf_iff_prefix]
  exact List.prefix_append _ _

def failedClick : Capture.CommandEvent where
  sessionId := "s1"
  agentId := "a1"
  agentVersion := "1.3.0"
  osType := "LINUX"
  timestamp := "2026-07-15T11:43:07.825Z"
  rawCommand := "left"
  actionType := "mouse"
  actionSubtype := "left"
  isHereCommand := false
  success := false
  errorMessage := "no window"
  executionTimeMs := 12
  mouseX := 504
  mouseY := 948
  positionCaptured := true
  isHeartbeat := false
  agentAlive := true

/-- The step of the failed click in metadata.json. -/
def failedStep (converted : String) : StepEntry where
  stepId := 1
  timestamp := failedClick.timestamp
  actionType := failedClick.actionType
  actionSubtype := failedClick.actionSubtype
  imagePath := none
  rawCommand := failedClick.rawCommand
  convertedCommand := converted

def clickText : String := toHumanReadable (fun _ => "Left-click at (504, 948)") failedClick

/-- The table with the row of the failed click. -/
def failedTable : CommandFiles where
  actuation := none
  converted := some (Capture.convertedHeader "now".toList ++ Capture.row 1 failedClick clickText.toList)

def digitId (text : Text) : Option Int := if text = ['1'] then some 1 else none

def loadsSteps (metadata : List StepEntry) (c : CommandFiles) (file : File) : Except ReadError Session :=
  loadMemory digitId (fun _ => "Expecting value") metadata c file

def correctedStep : StepEntry :=
  { failedStep "Drag from (344, 221) to (1393, 810)" with rawCommand := "drag" }

def staleLine : File := some (Json.render .compact [(sampleEntry 1 "Opens the menu.").toJson])

theorem commands_authoritative_click :
    CommandsAuthoritative digitId [failedStep "Left-click"] ⟨none, none⟩
      (Session.of [(failedStep "Left-click").toState]) :=
  (commands_authoritative_iff digitId (fun _ => "Expecting value") [failedStep "Left-click"] ⟨none, none⟩
    none _ rfl).mpr fun existing h => by cases h; decide +kernel

/-- A session of one step that shows another command, or one with the marker. -/
theorem not_authoritative {m : StepEntry} {c : CommandFiles} {file : File} {text : String}
    (hshown : ((loadsSteps [m] c file).toOption.map fun session =>
      session.steps.map StepState.convertedCommand) = some [text])
    (hwrong : carriesMarker text = true ∨ m.convertedCommand ≠ "" ∧ text ≠ m.convertedCommand) :
    ∃ session, loadsSteps [m] c file = .ok session ∧ ¬ CommandsAuthoritative digitId [m] c session := by
  cases hload : loadsSteps [m] c file with
  | error e =>
    rw [hload] at hshown
    cases hshown
  | ok session =>
    rw [hload] at hshown
    refine ⟨session, rfl, fun hall => ?_⟩
    have htexts : session.steps.map StepState.convertedCommand = [text] := Option.some.inj hshown
    have hall' : List.Forall₂ _ [m] session.steps := hall
    obtain ⟨s, ss, hshows, -, hsteps⟩ := List.forall₂_cons_left_iff.mp hall'
    rw [hsteps, List.map_cons] at htexts
    have htext : s.convertedCommand = text := (List.cons.inj htexts).1
    obtain hmarked | ⟨hown, hother⟩ := hwrong
    · have hunmarked := hshows.convertedUnmarked
      rw [htext, hmarked] at hunmarked
      cases hunmarked
    · have hconverted := hshows.converted
      rw [htext, preferred, if_neg hown] at hconverted
      exact hother hconverted

/-- A command that was corrected in metadata.json is shown as its reasoning entry
has it. That of a failed event is shown with the marker, from metadata.json or
from the table. -/
theorem commands_not_authoritative :
    (∃ session, loadsSteps [correctedStep] ⟨none, none⟩ staleLine = .ok session ∧
      ¬ CommandsAuthoritative digitId [correctedStep] ⟨none, none⟩ session) ∧
    (∃ session, loadsSteps [failedStep clickText] failedTable none = .ok session ∧
      ¬ CommandsAuthoritative digitId [failedStep clickText] failedTable session) ∧
    ∃ session, loadsSteps [failedStep ""] failedTable none = .ok session ∧
      ¬ CommandsAuthoritative digitId [failedStep ""] failedTable session := by
  have hmarked : carriesMarker clickText = true := carriesMarker_failed _ rfl
  have hstale : ((loadsSteps [correctedStep] ⟨none, none⟩ staleLine).toOption.map fun session =>
      session.steps.map StepState.convertedCommand) = some ["left_click"] := by
    decide +kernel
  have hfailed : ((loadsSteps [failedStep clickText] failedTable none).toOption.map fun session =>
      session.steps.map StepState.convertedCommand) = some [clickText] := by
    decide +kernel
  have htable : ((loadsSteps [failedStep ""] failedTable none).toOption.map fun session =>
      session.steps.map StepState.convertedCommand) = some [clickText] := by
    decide +kernel
  exact ⟨not_authoritative hstale (.inr (by decide)), not_authoritative hfailed (.inl hmarked),
    not_authoritative htable (.inl hmarked)⟩

end MemoryArchive.Tui
