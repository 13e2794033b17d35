import MemoryArchive.Capture.Writer
import MemoryArchive.Data.Runs

namespace MemoryArchive.Capture

open Runs

/-- An event that has been written, with its readable form and the time. -/
structure Written where
  event : CommandEvent
  converted : Text
  now : Text

/-- What a session does with its writer until the end. -/
inductive Action
  | event (written : Written)
  | flush (fault : Option Nat)

def written (actions : List Action) : List Written :=
  actions.filterMap fun
    | .event w => some w
    | .flush _ => none

/-- A writer and the files that its readers see. -/
structure Recording where
  writer : CommandWriter
  files : Files

variable (toCcCommand : CommandEvent → String)

def Recording.step (r : Recording) : Action → Recording
  | .event w =>
      let (writer, files, _) :=
        r.writer.writeEvent toCcCommand w.now (fun _ => none) w.event w.converted r.files
      ⟨writer, files⟩
  | .flush fault => ⟨r.writer, (r.writer.flushToCloud fault r.files).1⟩

/-- A new writer, the events and flushes of a session, and `finalise`. -/
def finalFiles (isCloudPrimary : Bool) (files : Files) (actions : List Action) (fault : Option Nat) :
    Files × Bool :=
  let r := run (Recording.step toCcCommand) ⟨.new isCloudPrimary, files⟩ actions
  r.writer.finalise fault r.files

def ccEntry (w : Written) (n : Nat) : Json :=
  ccCommandEntry (.ofNat n) w.event.osType (toCcCommand w.event)

/-- The line of each file for the event of step `n`. -/
def fileLine (file : CommandFile) (w : Written) (n : Nat) : Text :=
  match file with
  | .rawInput => row (.ofNat n) w.event w.event.rawCommand.toList
  | .convertedInput => row (.ofNat n) w.event w.converted
  | .actuationCommands => jsonLine w.event.toJson
  | .ccCommands => jsonLine (ccEntry toCcCommand w n)

/-- A header once anything is written, and one line for each event. -/
def fileText (file : CommandFile) (ws : List Written) : Text :=
  ws.head?.elim [] (fun w => file.header w.now) ++
    (ws.zipIdx 1).flatMap fun (w, n) => fileLine toCcCommand file w n

theorem fileText_append (file : CommandFile) (ws : List Written) (w : Written) :
    fileText toCcCommand file (ws ++ [w]) =
      fileText toCcCommand file ws ++ ((if ws.isEmpty then file.header w.now else []) ++
        fileLine toCcCommand file w (ws.length + 1)) := by
  cases ws with
  | nil => simp [fileText]
  | cons v ws => simp [fileText, List.zipIdx_append, Nat.add_comm, Nat.add_left_comm]

def CommandWriter.buf (w : CommandWriter) : CommandFile → Text
  | .rawInput => w.rawInputBuf
  | .convertedInput => w.convertedInputBuf
  | .actuationCommands => w.actuationBuf
  | .ccCommands => w.ccBuf

/-- The buffers of a cloud writer hold the lines of the events written so far. -/
structure Buffered (ws : List Written) (r : Recording) : Prop where
  mode : r.writer.isCloudPrimary = true
  counter : r.writer.stepCounter = .ofNat ws.length
  raw : r.writer.rawHeaderWritten = !ws.isEmpty
  converted : r.writer.convertedHeaderWritten = !ws.isEmpty
  buf : ∀ file, r.writer.buf file = fileText toCcCommand file ws

/-- The files of a local writer in a new directory do. -/
structure Appended (ws : List Written) (r : Recording) : Prop where
  mode : r.writer.isCloudPrimary = false
  counter : r.writer.stepCounter = .ofNat ws.length
  files : ∀ file, r.files file = if ws.isEmpty then none else some (fileText toCcCommand file ws)

variable {toCcCommand}

theorem counter_succ (n : Nat) : (UInt32.ofNat n : UInt32) + 1 = .ofNat (n + 1) := by
  simp [UInt32.ofNat_add]

/-- In cloud mode an event goes to the four buffers. -/
theorem step_cloud (r : Recording) (w : Written) (hmode : r.writer.isCloudPrimary = true) :
    r.step toCcCommand (.event w) =
      let step := r.writer.stepCounter + 1
      ⟨{ isCloudPrimary := true
         stepCounter := step
         rawInputBuf := r.writer.rawInputBuf ++
           (if r.writer.rawHeaderWritten then [] else rawHeader w.now) ++
           row step w.event w.event.rawCommand.toList
         convertedInputBuf := r.writer.convertedInputBuf ++
           (if r.writer.convertedHeaderWritten then [] else convertedHeader w.now) ++
           row step w.event w.converted
         actuationBuf := r.writer.actuationBuf ++ jsonLine w.event.toJson
         ccBuf := r.writer.ccBuf ++
           jsonLine (ccCommandEntry step w.event.osType (toCcCommand w.event))
         rawHeaderWritten := true
         convertedHeaderWritten := true }, r.files⟩ := by
  simp only [Recording.step, CommandWriter.writeEvent, hmode, if_true]
  rfl

theorem buffered_event {ws : List Written} {r : Recording} (h : Buffered toCcCommand ws r)
    (w : Written) : Buffered toCcCommand (ws ++ [w]) (r.step toCcCommand (.event w)) := by
  have hheader : ∀ header : Text, (if !ws.isEmpty then [] else header) =
      if ws.isEmpty then header else [] := by
    intro header
    cases ws.isEmpty <;> rfl
  have hne : (ws ++ [w]).isEmpty = false := by cases ws <;> rfl
  rw [step_cloud r w h.mode, h.counter, counter_succ, h.raw, h.converted, hheader, hheader]
  refine ⟨rfl, by simp, by rw [hne]; rfl, by rw [hne]; rfl, fun file => ?_⟩
  rw [fileText_append, ← h.buf file]
  cases file with
  | rawInput | convertedInput => exact List.append_assoc _ _ _
  | actuationCommands | ccCommands =>
    cases ws.isEmpty <;> rfl

theorem buffered_step (ws : List Written) (r : Recording) (a : Action)
    (h : Buffered toCcCommand ws r) :
    Buffered toCcCommand (ws ++ written [a]) (r.step toCcCommand a) := by
  cases a with
  | event w => exact buffered_event h w
  | flush fault =>
    have he : written [.flush fault] = [] := rfl
    rw [he, List.append_nil]
    exact ⟨h.mode, h.counter, h.raw, h.converted, h.buf⟩

/-- What every action preserves for the events written so far holds at the end. -/
theorem history_run {P : List Written → Recording → Prop}
    (hstep : ∀ ws r a, P ws r → P (ws ++ written [a]) (r.step toCcCommand a))
    (actions : List Action) (ws : List Written) (r : Recording) (h : P ws r) :
    P (ws ++ written actions) (run (Recording.step toCcCommand) r actions) := by
  induction actions generalizing ws r with
  | nil => simpa [written, run] using h
  | cons a actions ih =>
    have hw : written (a :: actions) = written [a] ++ written actions := by
      cases a <;> rfl
    rw [hw, ← List.append_assoc]
    exact ih _ _ (hstep ws r a h)

/-- The lines of one event, appended to all four files. -/
def appendAll (toCcCommand : CommandEvent → String) (w : Written) (n : Nat) (files : Files) : Files :=
  fun file =>
    some ((files file).getD [] ++ ((if (files file).isNone then file.header w.now else []) ++
      fileLine toCcCommand file w n))

/-- In local mode an event goes to the four files. -/
theorem step_local {r : Recording} (w : Written) {n : Nat} (hmode : r.writer.isCloudPrimary = false)
    (hstep : r.writer.stepCounter + 1 = .ofNat n) :
    r.step toCcCommand (.event w) =
      ⟨{ r.writer with stepCounter := .ofNat n }, appendAll toCcCommand w n r.files⟩ := by
  simp only [Recording.step, CommandWriter.writeEvent, hmode, hstep]
  simp only [Bool.false_eq_true, if_false, andThen, CommandWriter.appendRaw, CommandWriter.appendConverted,
    CommandWriter.appendJsonl, CommandWriter.appendCcCommand, appendLine]
  congr 1
  funext file
  cases file <;> simp [appendAll, fileLine, ccEntry]

theorem appended_event {ws : List Written} {r : Recording} (h : Appended toCcCommand ws r)
    (w : Written) : Appended toCcCommand (ws ++ [w]) (r.step toCcCommand (.event w)) := by
  have hstep : r.writer.stepCounter + 1 = .ofNat (ws.length + 1) := by rw [h.counter, counter_succ]
  rw [step_local w h.mode hstep]
  refine ⟨h.mode, by simp, fun file => ?_⟩
  have hne : (ws ++ [w]).isEmpty = false := by cases ws <;> rfl
  rw [hne, fileText_append]
  simp only [appendAll, h.files file]
  cases hw : ws.isEmpty with
  | true =>
    obtain rfl := List.isEmpty_iff.mp hw
    rfl
  | false => rfl

theorem appended_step (ws : List Written) (r : Recording) (a : Action)
    (h : Appended toCcCommand ws r) :
    Appended toCcCommand (ws ++ written [a]) (r.step toCcCommand a) := by
  cases a with
  | event w => exact appended_event h w
  | flush fault =>
    have he : written [.flush fault] = [] := rfl
    have hfiles : (r.writer.flushToCloud fault r.files).1 = r.files := by
      simp [CommandWriter.flushToCloud, h.mode]
    rw [he, List.append_nil]
    refine ⟨h.mode, h.counter, fun file => ?_⟩
    exact (congrFun hfiles file).trans (h.files file)

theorem runPuts_files {fault : Option Nat} {puts : List (CommandFile × Text)} {files : Files}
    (h : (runPuts fault puts files).2 = true) :
    (runPuts fault puts files).1 =
      puts.foldl (fun (files : Files) put => Function.update files put.1 (some put.2)) files := by
  induction puts generalizing fault files with
  | nil => rfl
  | cons put puts ih =>
    rw [runPuts] at h ⊢
    split
    · rename_i hfault
      rw [if_pos hfault] at h
      cases h
    · rename_i hfault
      rw [if_neg hfault] at h
      exact ih h

/-- The flush comes last, so what it puts is what stays. -/
theorem finaliseCloud_files {w : CommandWriter} {fault : Option Nat} {files : Files}
    (h : (w.finaliseCloud fault files).2 = true) (file : CommandFile) :
    (w.finaliseCloud fault files).1 file = some (w.buf file) := by
  unfold CommandWriter.finaliseCloud at h ⊢
  split
  · rename_i hnone
    simp [hnone] at h
  · rename_i actuation hactuation
    split
    · rename_i hnone
      simp [hactuation, hnone] at h
    · rename_i cc hcc
      simp only [hactuation, hcc] at h
      rw [runPuts_files h]
      cases file <;> rfl

theorem cloud_finalFiles (objects : Files) (actions : List Action) (fault : Option Nat)
    (h : (finalFiles toCcCommand true objects actions fault).2 = true) (file : CommandFile) :
    (finalFiles toCcCommand true objects actions fault).1 file =
      some (fileText toCcCommand file (written actions)) := by
  have hnew : Buffered toCcCommand [] ⟨.new true, objects⟩ :=
    ⟨rfl, rfl, rfl, rfl, fun file => by cases file <;> rfl⟩
  have hrun := history_run buffered_step actions [] _ hnew
  rw [List.nil_append] at hrun
  unfold finalFiles CommandWriter.finalise at h ⊢
  simp only [hrun.mode, if_true] at h ⊢
  rw [finaliseCloud_files h, hrun.buf]

/-- A finalised file is an array. -/
theorem finaliseJsonlFile_head {fails : Bool} {file : CommandFile} {files : Files}
    (h : (CommandWriter.finaliseJsonlFile fails file files).2 = true) :
    ∃ text, (CommandWriter.finaliseJsonlFile fails file files).1 file = some text ∧
      text.head? = some '[' := by
  unfold CommandWriter.finaliseJsonlFile at h ⊢
  cases hfile : files file with
  | none =>
    simp only [hfile] at h ⊢
    cases fails with
    | true => cases h
    | false => exact ⟨_, Function.update_self file _ files, rfl⟩
  | some raw =>
    simp only [hfile] at h ⊢
    cases hraw : parseLines raw with
    | none =>
      simp only [hraw] at h
      cases h
    | some entries =>
      simp only [hraw] at h ⊢
      cases fails with
      | true => cases h
      | false => exact ⟨_, Function.update_self file _ files, head_print_arr _ _ _⟩

theorem finaliseJsonlFile_other (fails : Bool) {file other : CommandFile} (files : Files)
    (hne : other ≠ file) :
    (CommandWriter.finaliseJsonlFile fails file files).1 other = files other := by
  unfold CommandWriter.finaliseJsonlFile
  split
  · split
    · rfl
    · exact Function.update_of_ne hne _ _
  · split
    · rfl
    · split
      · rfl
      · exact Function.update_of_ne hne _ _

theorem andThen_ok {first second : Files → Files × Bool} {files : Files}
    (h : (andThen first second files).2 = true) :
    (first files).2 = true ∧ (second (first files).1).2 = true ∧
      (andThen first second files).1 = (second (first files).1).1 := by
  unfold andThen at h ⊢
  cases hfirst : first files with
  | mk files' ok =>
    cases ok with
    | true => exact ⟨rfl, by simpa [hfirst] using h, rfl⟩
    | false => simp [hfirst] at h

theorem mode_step (r : Recording) (a : Action) :
    (r.step toCcCommand a).writer.isCloudPrimary = r.writer.isCloudPrimary := by
  cases a with
  | flush fault => rfl
  | event w =>
    cases hmode : r.writer.isCloudPrimary with
    | true => rw [step_cloud r w hmode]
    | false =>
      simp only [Recording.step, CommandWriter.writeEvent, hmode]
      simp only [Bool.false_eq_true, if_false]
      split <;> rfl

theorem mode_run (actions : List Action) (r : Recording) :
    (run (Recording.step toCcCommand) r actions).writer.isCloudPrimary = r.writer.isCloudPrimary := by
  induction actions generalizing r with
  | nil => rfl
  | cons a actions ih => exact (ih _).trans (mode_step r a)

/-- The rows of a table, without its header. -/
def tableRows (content : Option Text) : List Text := (Lines.lines (content.getD [])).drop 6

def HoldsArray (content : Option Text) (items : List Json) : Prop :=
  ∃ text, content = some text ∧ Json.parse text = some (.arr items)

def eventValues (ws : List Written) : List Json :=
  ws.map fun w => Json.rebuild Json.putSorted w.event.toJson

def ccValues (toCcCommand : CommandEvent → String) (ws : List Written) : List Json :=
  (ws.zipIdx 1).map fun (w, n) => Json.rebuild Json.putSorted (ccEntry toCcCommand w n)

/-- Both modes end with the same contents: an array with one element for each
event in both JSON files, and one row for each in both tables. -/
structure FinalFilesAgree (toCcCommand : CommandEvent → String) (ws : List Written)
    (objects dir : Files) : Prop where
  same : ∀ file, objects file = dir file
  actuation : HoldsArray (objects .actuationCommands) (eventValues ws)
  cc : HoldsArray (objects .ccCommands) (ccValues toCcCommand ws)
  raw : (tableRows (objects .rawInput)).length = ws.length
  converted : (tableRows (objects .convertedInput)).length = ws.length

theorem finalFiles_local (dir : Files) (actions : List Action) (fault : Option Nat) :
    finalFiles toCcCommand false dir actions fault =
      andThen (CommandWriter.finaliseJsonlFile (fault = some 0) .actuationCommands)
        (CommandWriter.finaliseJsonlFile (fault = some 1) .ccCommands)
        (run (Recording.step toCcCommand) ⟨.new false, dir⟩ actions).files := by
  have hmode : (run (Recording.step toCcCommand) ⟨.new false, dir⟩ actions).writer.isCloudPrimary =
      false := mode_run actions _
  simp only [finalFiles, CommandWriter.finalise, hmode, Bool.false_eq_true, if_false]

theorem parse_lines (js : List Json) :
    (js.map (Json.print .compact 0)).mapM (fun line =>
      (Json.parse line).map (Json.rebuild Json.putSorted)) =
      some (js.map (Json.rebuild Json.putSorted)) := by
  induction js with
  | nil => rfl
  | cons j js ih => simp [List.mapM_cons, Json.parse_print, ih]

/-- A file of values, one a line, is read as these values. -/
theorem parseLines_values (js : List Json) (hjs : ∀ j ∈ js, Lines.trim (Json.print .compact 0 j) ≠ []) :
    parseLines (Json.render .compact js) = some (js.map (Json.rebuild Json.putSorted)) := by
  have hkeep : ∀ line ∈ js.map (Json.print .compact 0), decide (Lines.trim line ≠ []) = true := by
    intro line hline
    obtain ⟨j, hj, rfl⟩ := List.mem_map.mp hline
    exact decide_eq_true (hjs j hj)
  rw [parseLines, Json.lines_render Json.oneLine_compact, List.filter_eq_self.mpr hkeep]
  exact parse_lines js

theorem trim_print_obj (fields : Json.Fields) : Lines.trim (Json.print .compact 0 (.obj fields)) ≠ [] := by
  have htrim : Lines.trim (Json.print .compact 0 (.obj fields)) = Json.print .compact 0 (.obj fields) :=
    Json.strip_print_obj Lines.isWhiteSpace rfl rfl .compact fields
  rw [htrim, Json.print]
  exact List.cons_ne_nil _ _

theorem parseLines_render (js : List Json) (hjs : ∀ j ∈ js, ∃ fields, j = .obj fields) :
    parseLines (Json.render .compact js) = some (js.map (Json.rebuild Json.putSorted)) := by
  refine parseLines_values js fun j hj => ?_
  obtain ⟨fields, rfl⟩ := hjs j hj
  exact trim_print_obj fields

theorem fileText_actuation (ws : List Written) :
    fileText toCcCommand .actuationCommands ws =
      Json.render .compact (ws.map fun w => w.event.toJson) := by
  have hlines : ∀ n, (ws.zipIdx n).flatMap (fun (w, _) => jsonLine w.event.toJson) =
      ws.flatMap fun w => jsonLine w.event.toJson := by
    induction ws with
    | nil => exact fun n => rfl
    | cons w ws ih => exact fun n => by simp [ih]
  have hheader : ws.head?.elim [] (fun w => CommandFile.header w.now .actuationCommands) = [] := by
    cases ws <;> rfl
  rw [fileText, hheader, List.nil_append]
  refine (hlines 1).trans ?_
  simp [Json.render, Lines.unlines, List.flatMap_map, jsonLine]

theorem fileText_cc (ws : List Written) :
    fileText toCcCommand .ccCommands ws =
      Json.render .compact ((ws.zipIdx 1).map fun (w, n) => ccEntry toCcCommand w n) := by
  have hheader : ws.head?.elim [] (fun w => CommandFile.header w.now .ccCommands) = [] := by
    cases ws <;> rfl
  rw [fileText, hheader]
  simp [Json.render, Lines.unlines, List.flatMap_map, fileLine, jsonLine]

theorem finaliseJsonlFile_array {fails : Bool} {file : CommandFile} {files : Files} {js : List Json}
    (h : (CommandWriter.finaliseJsonlFile fails file files).2 = true)
    (hfile : files file = none ∧ js = [] ∨ files file = some (Json.render .compact js))
    (hjs : ∀ j ∈ js, ∃ fields, j = .obj fields) :
    HoldsArray ((CommandWriter.finaliseJsonlFile fails file files).1 file)
      (js.map (Json.rebuild Json.putSorted)) := by
  unfold CommandWriter.finaliseJsonlFile at h ⊢
  obtain ⟨hnone, rfl⟩ | hsome := hfile
  · simp only [hnone] at h ⊢
    cases fails with
    | true => cases h
    | false => exact ⟨_, Function.update_self file _ files, rfl⟩
  · simp only [hsome, parseLines_render js hjs] at h ⊢
    cases fails with
    | true => cases h
    | false => exact ⟨_, Function.update_self file _ files, Json.parse_print _ _ _⟩

theorem appended_files (actions : List Action) :
    Appended toCcCommand (written actions)
      (run (Recording.step toCcCommand) ⟨.new false, fun _ => none⟩ actions) :=
  history_run appended_step actions [] _ ⟨rfl, rfl, fun _ => rfl⟩

/-- In local mode the JSON files of a new session end as arrays with one element
for each event, in order. -/
theorem local_arrays (actions : List Action) (fault : Option Nat)
    (h : (finalFiles toCcCommand false (fun _ => none) actions fault).2 = true) :
    HoldsArray ((finalFiles toCcCommand false (fun _ => none) actions fault).1 .actuationCommands)
        (eventValues (written actions)) ∧
      HoldsArray ((finalFiles toCcCommand false (fun _ => none) actions fault).1 .ccCommands)
        (ccValues toCcCommand (written actions)) := by
  have hrun : Appended toCcCommand (written actions)
      (run (Recording.step toCcCommand) ⟨.new false, fun _ => none⟩ actions) := appended_files actions
  rw [finalFiles_local] at h ⊢
  generalize run (Recording.step toCcCommand) ⟨.new false, fun _ => none⟩ actions = r at h hrun ⊢
  have hfile : ∀ (file : CommandFile) (js : List Json),
      fileText toCcCommand file (written actions) = Json.render .compact js →
      (written actions = [] → js = []) →
      r.files file = none ∧ js = [] ∨ r.files file = some (Json.render .compact js) := by
    intro file js htext hnil
    rw [hrun.files file, ← htext]
    cases hw : written actions with
    | nil => exact .inl ⟨rfl, hnil hw⟩
    | cons w ws => exact .inr rfl
  obtain ⟨hfirst, hsecond, he⟩ := andThen_ok h
  rw [he]
  constructor
  · rw [finaliseJsonlFile_other _ _ (by decide), eventValues]
    have harray := finaliseJsonlFile_array hfirst
      (hfile _ _ (fileText_actuation (written actions)) fun hw => by rw [hw]; rfl) ?_
    · rwa [List.map_map] at harray
    · intro j hj
      obtain ⟨w, -, rfl⟩ := List.mem_map.mp hj
      exact ⟨_, rfl⟩
  · have hsame : (CommandWriter.finaliseJsonlFile (fault = some 0) .actuationCommands r.files).1
        .ccCommands = r.files .ccCommands := finaliseJsonlFile_other _ _ (by decide)
    have hcc := hfile .ccCommands _ (fileText_cc (written actions)) fun hw => by rw [hw]; rfl
    rw [← hsame] at hcc
    have harray := finaliseJsonlFile_array hsecond hcc ?_
    · rwa [List.map_map] at harray
    · intro j hj
      obtain ⟨w, -, rfl⟩ := List.mem_map.mp hj
      exact ⟨_, rfl⟩

/-- Once there is an event, the tables of a new session are the same in both
modes. -/
theorem tables_agree (objects : Files) (actions : List Action) (fault fault' : Option Nat)
    (hcloud : (finalFiles toCcCommand true objects actions fault).2 = true)
    (hlocal : (finalFiles toCcCommand false (fun _ => none) actions fault').2 = true)
    (hne : written actions ≠ []) (file : CommandFile)
    (hfile : file = .rawInput ∨ file = .convertedInput) :
    (finalFiles toCcCommand true objects actions fault).1 file =
      (finalFiles toCcCommand false (fun _ => none) actions fault').1 file := by
  have hother : file ≠ .actuationCommands ∧ file ≠ .ccCommands := by
    obtain rfl | rfl := hfile <;> decide
  rw [finalFiles_local] at hlocal ⊢
  rw [cloud_finalFiles objects actions fault hcloud]
  obtain ⟨-, -, he⟩ := andThen_ok hlocal
  rw [he, finaliseJsonlFile_other _ _ hother.2, finaliseJsonlFile_other _ _ hother.1,
    (appended_files actions).files file]
  cases hw : written actions with
  | nil => exact absurd hw hne
  | cons w ws => rfl

theorem head_actuation (ws : List Written) :
    (fileText toCcCommand .actuationCommands ws).head? ≠ some '[' := by
  cases ws with
  | nil => simp [fileText]
  | cons w ws =>
    have hw : (jsonLine w.event.toJson).head? = some '{' := head_jsonLine_obj _
    simp [fileText, CommandFile.header, fileLine, hw]

theorem local_head (dir : Files) (actions : List Action) (fault : Option Nat)
    (h : (finalFiles toCcCommand false dir actions fault).2 = true) :
    ∃ text, (finalFiles toCcCommand false dir actions fault).1 .actuationCommands = some text ∧
      text.head? = some '[' := by
  rw [finalFiles_local] at h ⊢
  obtain ⟨hfirst, -, he⟩ := andThen_ok h
  rw [he, finaliseJsonlFile_other _ _ (by decide)]
  exact finaliseJsonlFile_head hfirst

/-- Whatever is written, and however often it is flushed, the two modes end with
different files: in cloud mode the lines of the buffers replace the arrays. -/
theorem final_files_disagree (toCcCommand : CommandEvent → String) (objects dir : Files)
    (actions : List Action) (fault fault' : Option Nat)
    (hcloud : (finalFiles toCcCommand true objects actions fault).2 = true)
    (hlocal : (finalFiles toCcCommand false dir actions fault').2 = true) :
    ¬ FinalFilesAgree toCcCommand (written actions)
      (finalFiles toCcCommand true objects actions fault).1
      (finalFiles toCcCommand false dir actions fault').1 := by
  intro hagree
  obtain ⟨text, htext, hhead⟩ := local_head dir actions fault' hlocal
  have hobject := cloud_finalFiles objects actions fault hcloud .actuationCommands
  have hsame : some (fileText toCcCommand .actuationCommands (written actions)) = some text :=
    hobject.symm.trans ((hagree.same .actuationCommands).trans htext)
  cases hsame
  exact head_actuation (written actions) hhead

def sampleEvent : CommandEvent where
  sessionId := "s1"
  agentId := "a1"
  agentVersion := "1.3.0"
  osType := "LINUX"
  timestamp := "2026-02-25T12:58:04.286Z"
  rawCommand := "Typed: hello"
  actionType := "keyboard"
  actionSubtype := "type"
  isHereCommand := false
  success := true
  errorMessage := ""
  executionTimeMs := 12
  mouseX := 0
  mouseY := 0
  positionCaptured := false
  isHeartbeat := false
  agentAlive := true

def sampleActions : List Action :=
  [.event ⟨sampleEvent, "Type: hello".toList, "2026-02-25 12:58:04 UTC".toList⟩, .flush none]

theorem sample_finalises :
    (finalFiles (fun e => e.rawCommand) true (fun _ => none) sampleActions none).2 = true ∧
      (finalFiles (fun e => e.rawCommand) false (fun _ => none) sampleActions none).2 = true := by
  decide +kernel

theorem tables_agree_sample :
    (finalFiles (fun e => e.rawCommand) true (fun _ => none) sampleActions none).1 .rawInput =
      (finalFiles (fun e => e.rawCommand) false (fun _ => none) sampleActions none).1 .rawInput :=
  tables_agree (fun _ => none) sampleActions none none sample_finalises.1 sample_finalises.2
    (List.cons_ne_nil _ _) .rawInput (.inl rfl)

theorem local_arrays_sample :
    HoldsArray ((finalFiles (fun e => e.rawCommand) false (fun _ => none) sampleActions none).1
        .actuationCommands) (eventValues (written sampleActions)) ∧
      HoldsArray ((finalFiles (fun e => e.rawCommand) false (fun _ => none) sampleActions none).1 .ccCommands)
        (ccValues (fun e => e.rawCommand) (written sampleActions)) :=
  local_arrays sampleActions none sample_finalises.2

theorem final_files_disagree_sample :
    ¬ FinalFilesAgree (fun e => e.rawCommand) (written sampleActions)
      (finalFiles (fun e => e.rawCommand) true (fun _ => none) sampleActions none).1
      (finalFiles (fun e => e.rawCommand) false (fun _ => none) sampleActions none).1 :=
  final_files_disagree _ _ _ sampleActions none none sample_finalises.1 sample_finalises.2

/-- One event: both modes finalise without an error, and end with different
actuation commands. -/
theorem one_event_disagrees :
    (finalFiles (fun e => e.rawCommand) true (fun _ => none) sampleActions none).2 = true ∧
      (finalFiles (fun e => e.rawCommand) false (fun _ => none) sampleActions none).2 = true ∧
      ¬ FinalFilesAgree (fun e => e.rawCommand) (written sampleActions)
        (finalFiles (fun e => e.rawCommand) true (fun _ => none) sampleActions none).1
        (finalFiles (fun e => e.rawCommand) false (fun _ => none) sampleActions none).1 := by
  refine ⟨sample_finalises.1, sample_finalises.2, fun h => ?_⟩
  have hne : (finalFiles (fun e => e.rawCommand) true (fun _ => none) sampleActions none).1
      .actuationCommands ≠
      (finalFiles (fun e => e.rawCommand) false (fun _ => none) sampleActions none).1
        .actuationCommands := by
    decide +kernel
  exact hne (h.same .actuationCommands)

end MemoryArchive.Capture
