import MemoryArchive.Capture.Finalise

namespace MemoryArchive.Capture.Refinalise

open Runs

/-- How far the JSON files of a session directory have been converted: not at all, the first
one only, both, or events have been appended to a converted file. -/
inductive Progress
  | recording | halted | done | spoiled
  deriving DecidableEq

def Progress.afterEvent : Progress → Progress
  | recording => recording
  | halted | done | spoiled => spoiled

/-- The fault is the number of writes before one fails. -/
def Progress.afterFinalise (fault : Option Nat) : Progress → Progress
  | recording => if fault = some 0 then recording else if fault = some 1 then halted else done
  | halted => halted
  | done => done
  | spoiled => spoiled

/-- What happens to the command files of a session. There is a new writer whenever the session is
watched again, and for each done that no loop is there for. -/
inductive Op
  | event (w : Written)
  | flush (fault : Option Nat)
  | renew
  | finalise (fault : Option Nat)

/-- A writer, the command files, the entries written to the JSON files so far, and what the
finalisations of these have come to. -/
structure Commands where
  writer : CommandWriter
  files : Files
  actuation : List Json
  cc : List Json
  progress : Progress
  finalised : Bool
  failedBefore : Bool

/-- A session in a new directory. -/
def Commands.start (isCloudPrimary : Bool) : Commands where
  writer := .new isCloudPrimary
  files _ := none
  actuation := []
  cc := []
  progress := .recording
  finalised := false
  failedBefore := false

variable (toCcCommand : CommandEvent → String)

def Commands.step (s : Commands) : Op → Commands
  | .event w =>
      let r := Recording.step toCcCommand ⟨s.writer, s.files⟩ (.event w)
      let entry := ccCommandEntry (s.writer.stepCounter + 1) w.event.osType (toCcCommand w.event)
      { s with
        writer := r.writer
        files := r.files
        actuation := s.actuation ++ [w.event.toJson]
        cc := s.cc ++ [entry]
        progress := s.progress.afterEvent
        finalised := false }
  | .flush fault => { s with files := (s.writer.flushToCloud fault s.files).1 }
  | .renew => { s with writer := .new s.writer.isCloudPrimary }
  | .finalise fault =>
      let (files, ok) := s.writer.finalise fault s.files
      { s with
        files := files
        progress := s.progress.afterFinalise fault
        finalised := ok
        failedBefore := s.failedBefore || !ok }

/-- The entries as a reader gets them, with the members in the order of their names. -/
def values (js : List Json) : List Json := js.map (Json.rebuild Json.putSorted)

/-- The entries of a JSON file: the items of an array, or one entry a line. -/
def entriesOf : Option Text → Option (List Json)
  | none => some []
  | some text =>
      match Json.parse text with
      | some (.arr items) => some items
      | _ => parseLines text

/-- The recorded entries. In cloud mode the buffers hold them, and what is put are copies. -/
def Commands.recorded (s : Commands) (file : CommandFile) : Option (List Json) :=
  if s.writer.isCloudPrimary then CommandWriter.bufEntries (s.writer.buf file)
  else entriesOf (s.files file)

/-- None of the writes of a `finalise` fails. -/
def Faultless (w : CommandWriter) (fault : Option Nat) : Prop :=
  ∀ n ∈ fault, (if w.isCloudPrimary then 6 else 2) ≤ n

/-- A `finalise` that is re-entrant: where the disk does not fail, both JSON files hold one element
for each entry; after another one it changes nothing; where it fails it leaves the recorded
entries; and it does not fail because of an earlier one. -/
structure Reentrant (s : Commands) (fault : Option Nat) (s' : Commands) : Prop where
  arrays : Faultless s.writer fault →
    HoldsArray (s'.files .actuationCommands) (values s.actuation) ∧
      HoldsArray (s'.files .ccCommands) (values s.cc)
  repeated : s.finalised = true → s'.files = s.files
  kept : s'.finalised = false →
    s'.recorded .actuationCommands = s.recorded .actuationCommands ∧
      s'.recorded .ccCommands = s.recorded .ccCommands
  later : s.failedBefore = true → Faultless s.writer fault → s'.finalised = true

def ReentrantStep (s : Commands) (op : Op) (s' : Commands) : Prop :=
  ∀ fault, op = .finalise fault → Reentrant s fault s'

/-- When a `finalise` is re-entrant. In cloud mode it is only where a put fails. In a directory it is
as long as neither file has been converted; after that only where a write fails before it
comes to one that would nest an empty array, or where nothing has been appended to
the arrays and no `finalise` has failed on them. -/
def Finalisable (s : Commands) : Op → Prop
  | .finalise fault =>
      if s.writer.isCloudPrimary then ¬ Faultless s.writer fault
      else
        match s.progress with
        | .recording => True
        | .halted => fault = some 0 ∨ fault = some 1 ∧ s.actuation ≠ []
        | .done => fault = some 0 ∨ s.actuation ≠ [] ∧ (fault = some 1 ∨ s.failedBefore = false)
        | .spoiled => fault = some 0 ∨ fault = some 1
  | _ => True

section Texts

/-- The entries are objects. -/
def Objects (js : List Json) : Prop := ∀ j ∈ js, ∃ fields, j = .obj fields

/-- A file of objects, one a line, that is not there before the first. -/
def linesOf (js : List Json) : Option Text :=
  if js.isEmpty then none else some (Json.render .compact js)

/-- A file that has been converted. -/
def arrayOf (js : List Json) : Text :=
  if js.isEmpty then "[]\n".toList else arrayText (values js)

/-- A converted file that events have been appended to, or that has been converted once more. -/
inductive Spoiled (js : List Json) : Text → Prop
  | prefixed : js ≠ [] → Spoiled js (Json.render .compact (.arr [] :: js))
  | followed (items : List Json) (rest : Text) :
      items ≠ [] → Spoiled js (arrayText items ++ '{' :: rest)
  | nested (items : List Json) : js ≠ [] → Spoiled js (arrayText (.arr [] :: items))

theorem render_cons (j : Json) (js : List Json) :
    Json.render .compact (j :: js) = jsonLine j ++ Json.render .compact js := by
  simp [Json.render, Lines.unlines, jsonLine]

theorem render_append (js ks : List Json) :
    Json.render .compact (js ++ ks) = Json.render .compact js ++ Json.render .compact ks := by
  simp [Json.render, Lines.unlines]

theorem render_singleton (j : Json) : Json.render .compact [j] = jsonLine j := by
  rw [render_cons]
  exact List.append_nil _

theorem render_concat (js : List Json) (j : Json) :
    Json.render .compact js ++ jsonLine j = Json.render .compact (js ++ [j]) := by
  rw [render_append, render_singleton]

theorem jsonLine_obj (fields : Json.Fields) : ∃ rest, jsonLine (.obj fields) = '{' :: rest :=
  List.head?_eq_some_iff.mp (head_jsonLine_obj fields)

theorem lexes_jsonLine (j : Json) : Json.Lexes (jsonLine j) j.tokens :=
  Json.lexes_blanks (Json.lexes_print .compact 0 j) (by decide)

theorem parse_jsonLine (j : Json) : Json.parse (jsonLine j) = some j := Json.parse_of_lexes (lexes_jsonLine j)

/-- Two lines are no value. -/
theorem parse_render_cons (j : Json) {js : List Json} (hjs : Objects js) (hne : js ≠ []) :
    Json.parse (Json.render .compact (j :: js)) = none := by
  cases js with
  | nil => exact absurd rfl hne
  | cons k ks =>
    obtain ⟨fields, rfl⟩ := hjs k List.mem_cons_self
    obtain ⟨rest, hrest⟩ := jsonLine_obj fields
    rw [render_cons, render_cons, hrest]
    exact Json.parse_followed (lexes_jsonLine j) _

theorem values_eq_nil {js : List Json} : values js = [] ↔ js = [] := List.map_eq_nil_iff

theorem values_ne_nested {js items : List Json} (hjs : Objects js) : values js ≠ .arr [] :: items := by
  intro h
  cases js with
  | nil => cases h
  | cons j js =>
    obtain ⟨fields, rfl⟩ := hjs j List.mem_cons_self
    rw [values, List.map_cons, Json.rebuild] at h
    cases h

/-- A file of objects, one a line, is not an array. -/
theorem parse_render_ne_arr {js : List Json} (hjs : Objects js) (items : List Json) :
    Json.parse (Json.render .compact js) ≠ some (.arr items) := by
  cases js with
  | nil => exact nofun
  | cons j js =>
    obtain rfl | hne := eq_or_ne js []
    · obtain ⟨fields, rfl⟩ := hjs j List.mem_cons_self
      rw [render_singleton, parse_jsonLine]
      exact nofun
    · rw [parse_render_cons j (fun k hk => hjs k (List.mem_cons_of_mem j hk)) hne]
      exact nofun

theorem holdsArray_iff {text : Text} {items : List Json} :
    HoldsArray (some text) items ↔ Json.parse text = some (.arr items) := by
  constructor
  · rintro ⟨text', h, hparse⟩
    cases h
    exact hparse
  · exact fun h => ⟨text, rfl, h⟩

theorem not_holdsArray_linesOf {js : List Json} (hjs : Objects js) (items : List Json) :
    ¬ HoldsArray (linesOf js) items := by
  rw [linesOf]
  split
  · rintro ⟨text, h, -⟩
    cases h
  · exact fun h => parse_render_ne_arr hjs items (holdsArray_iff.mp h)

theorem parse_arrayOf (js : List Json) : Json.parse (arrayOf js) = some (.arr (values js)) := by
  rw [arrayOf]
  cases js with
  | nil => exact parse_jsonLine (.arr [])
  | cons j js => exact Json.parse_print _ _ _

theorem holdsArray_arrayOf (js : List Json) : HoldsArray (some (arrayOf js)) (values js) :=
  holdsArray_iff.mpr (parse_arrayOf js)

/-- The first line of an array that is not empty is its bracket, so it is not read line by line. -/
theorem parseLines_arrayText {items : List Json} (hne : items ≠ []) (rest : Text) :
    parseLines (arrayText items ++ rest) = none := by
  cases items with
  | nil => exact absurd rfl hne
  | cons j items =>
    obtain ⟨more, hmore⟩ : ∃ more, arrayText (j :: items) ++ rest = '[' :: '\n' :: more := by
      rw [arrayText, Json.print, Json.printItems]
      exact ⟨_, rfl⟩
    have hlines : Lines.lines ('[' :: '\n' :: more) = ['['] :: Lines.lines more := rfl
    have hfilter : (['['] :: Lines.lines more).filter (fun line => Lines.trim line ≠ []) =
        ['['] :: (Lines.lines more).filter fun line => Lines.trim line ≠ [] :=
      List.filter_cons_of_pos (by decide)
    have hparse : Json.parse ['['] = none := rfl
    rw [hmore, parseLines, hlines, hfilter, List.mapM_cons, hparse]
    rfl

theorem parseLines_nested {js : List Json} (hjs : Objects js) :
    parseLines (Json.render .compact (.arr [] :: js)) = some (.arr [] :: values js) := by
  refine parseLines_values (.arr [] :: js) fun j hj => ?_
  obtain rfl | hmem := List.mem_cons.mp hj
  · decide
  · obtain ⟨fields, rfl⟩ := hjs j hmem
    exact trim_print_obj fields

theorem entriesOf_array {text : Text} {items : List Json} (h : Json.parse text = some (.arr items)) :
    entriesOf (some text) = some items := by
  rw [entriesOf, h]

theorem entriesOf_lines {text : Text} (h : ∀ items, Json.parse text ≠ some (.arr items)) :
    entriesOf (some text) = parseLines text := by
  rw [entriesOf]
  split
  · rename_i items hitems
    exact absurd hitems (h items)
  · rfl

/-- Converting a file leaves its entries. -/
theorem entriesOf_linesOf {js : List Json} (hjs : Objects js) :
    entriesOf (linesOf js) = some (values js) := by
  rw [linesOf]
  cases js with
  | nil => rfl
  | cons j js =>
    exact (entriesOf_lines (parse_render_ne_arr hjs)).trans (parseLines_render _ hjs)

theorem entriesOf_arrayOf (js : List Json) : entriesOf (some (arrayOf js)) = some (values js) :=
  entriesOf_array (parse_arrayOf js)

/-- A spoiled file is not the array of the entries. -/
theorem Spoiled.not_holdsArray {js : List Json} {text : Text} (h : Spoiled js text) (hjs : Objects js) :
    ¬ HoldsArray (some text) (values js) := by
  rw [holdsArray_iff]
  cases h with
  | prefixed hne =>
    rw [parse_render_cons _ hjs hne]
    exact nofun
  | followed items rest hne =>
    rw [arrayText, Json.parse_followed (Json.lexes_print .pretty 0 _)]
    exact nofun
  | nested items =>
    rw [arrayText, Json.parse_print]
    intro he
    exact values_ne_nested hjs (Json.arr.inj (Option.some.inj he)).symm

theorem Spoiled.event {js : List Json} {text : Text} (h : Spoiled js text) (fields : Json.Fields) :
    Spoiled (js ++ [.obj fields]) (text ++ jsonLine (.obj fields)) := by
  have hne : js ++ [.obj fields] ≠ [] := by simp
  cases h with
  | prefixed _ =>
    rw [render_concat]
    exact .prefixed hne
  | followed items rest hitems =>
    rw [List.append_assoc]
    exact .followed items _ hitems
  | nested items _ =>
    obtain ⟨rest, hrest⟩ := jsonLine_obj fields
    rw [hrest]
    exact .followed _ _ (List.cons_ne_nil _ _)

/-- An event that is appended to an array spoils it. -/
theorem spoiled_arrayOf (js : List Json) (fields : Json.Fields) :
    Spoiled (js ++ [.obj fields]) (arrayOf js ++ jsonLine (.obj fields)) := by
  cases js with
  | nil =>
    rw [← render_singleton]
    exact .prefixed (List.cons_ne_nil _ _)
  | cons j js =>
    obtain ⟨rest, hrest⟩ := jsonLine_obj fields
    rw [hrest]
    exact .followed _ _ (mt values_eq_nil.mp (List.cons_ne_nil _ _))

theorem linesOf_event (js : List Json) (fields : Json.Fields) :
    some ((linesOf js).getD [] ++ jsonLine (.obj fields)) = linesOf (js ++ [.obj fields]) := by
  cases js with
  | nil =>
    rw [← render_singleton]
    rfl
  | cons j js => exact congrArg some (render_concat (j :: js) (.obj fields))

end Texts

section Conversion

open CommandWriter (finaliseJsonlFile)

variable {files : Files} {file : CommandFile} {js : List Json}

theorem finaliseJsonlFile_fails (file : CommandFile) (files : Files) :
    finaliseJsonlFile true file files = (files, false) := by
  rw [finaliseJsonlFile]
  split
  · rfl
  · split <;> rfl

theorem convert_read {raw : Text} {entries : List Json} (hfile : files file = some raw)
    (hraw : parseLines raw = some entries) :
    finaliseJsonlFile false file files = (Function.update files file (some (arrayText entries)), true) := by
  simp [finaliseJsonlFile, hfile, hraw]

theorem convert_unread {raw : Text} (hfile : files file = some raw) (hraw : parseLines raw = none) :
    finaliseJsonlFile false file files = (files, false) := by
  simp [finaliseJsonlFile, hfile, hraw]

theorem convert_linesOf (hjs : Objects js) (hfile : files file = linesOf js) :
    finaliseJsonlFile false file files = (Function.update files file (some (arrayOf js)), true) := by
  cases js with
  | nil => simp [finaliseJsonlFile, hfile, linesOf, arrayOf]
  | cons j js => exact convert_read hfile (parseLines_render _ hjs)

/-- An array that is not empty is not converted again. -/
theorem convert_arrayOf (hne : js ≠ []) (hfile : files file = some (arrayOf js)) :
    finaliseJsonlFile false file files = (files, false) := by
  refine convert_unread hfile ?_
  rw [arrayOf, if_neg (mt List.isEmpty_iff.mp hne)]
  have hnone := parseLines_arrayText (mt values_eq_nil.mp hne) []
  rwa [List.append_nil] at hnone

/-- An empty array becomes the only element of another. -/
theorem convert_empty (hfile : files file = some (arrayOf [])) :
    finaliseJsonlFile false file files =
      (Function.update files file (some (arrayText [.arr []])), true) := by
  refine convert_read hfile ?_
  have hlines : arrayOf [] = Json.render .compact [.arr []] := (render_singleton (.arr [])).symm
  have hnone : Objects [] := fun j hj => (List.not_mem_nil hj).elim
  rw [hlines]
  exact parseLines_nested hnone

/-- A spoiled file stays spoiled, with the same entries. -/
theorem convert_spoiled {text : Text} (hjs : Objects js) (hfile : files file = some text)
    (h : Spoiled js text) :
    ∃ text', (finaliseJsonlFile false file files).1 file = some text' ∧ Spoiled js text' ∧
      entriesOf (some text') = entriesOf (some text) := by
  cases h with
  | prefixed hne =>
    refine ⟨_, ?_, .nested (values js) hne, ?_⟩
    · rw [convert_read hfile (parseLines_nested hjs)]
      exact Function.update_self file _ files
    · have hitems : entriesOf (some (arrayText (.arr [] :: values js))) = some (.arr [] :: values js) :=
        entriesOf_array (Json.parse_print _ _ _)
      rw [hitems, entriesOf_lines, parseLines_nested hjs]
      intro items
      rw [parse_render_cons _ hjs hne]
      exact nofun
  | followed items rest hne =>
    refine ⟨_, ?_, .followed items rest hne, rfl⟩
    rw [convert_unread hfile (parseLines_arrayText hne _)]
    exact hfile
  | nested items hne =>
    refine ⟨_, ?_, .nested items hne, rfl⟩
    have hnone := parseLines_arrayText (List.cons_ne_nil (Json.arr []) items) []
    rw [List.append_nil] at hnone
    rw [convert_unread hfile hnone]
    exact hfile

section Local

variable {w : CommandWriter} (hmode : w.isCloudPrimary = false)
include hmode

theorem faultless_local {fault : Option Nat} :
    Faultless w fault ↔ fault ≠ some 0 ∧ fault ≠ some 1 := by
  rw [Faultless, hmode]
  cases fault with
  | none => simp
  | some n =>
    simp only [Option.mem_some_iff, forall_eq', Bool.false_eq_true, if_false, ne_eq, Option.some.injEq]
    omega

theorem finalise_first : w.finalise (some 0) files = (files, false) := by
  have hfirst := finaliseJsonlFile_fails .actuationCommands files
  simp [CommandWriter.finalise, hmode, andThen, hfirst]

theorem finalise_second :
    w.finalise (some 1) files = ((finaliseJsonlFile false .actuationCommands files).1, false) := by
  have hsecond := finaliseJsonlFile_fails .ccCommands
  cases hfirst : finaliseJsonlFile false .actuationCommands files with
  | mk converted ok => cases ok <;> simp [CommandWriter.finalise, hmode, andThen, hfirst, hsecond]

theorem finalise_whole {fault : Option Nat} (h : fault ≠ some 0 ∧ fault ≠ some 1) :
    w.finalise fault files =
      andThen (finaliseJsonlFile false .actuationCommands) (finaliseJsonlFile false .ccCommands) files := by
  simp [CommandWriter.finalise, hmode, h.1, h.2]

/-- The first file is converted unless the first write fails. -/
theorem finalise_actuation {fault : Option Nat} (h : fault ≠ some 0) :
    (w.finalise fault files).1 .actuationCommands =
      (finaliseJsonlFile false .actuationCommands files).1 .actuationCommands := by
  by_cases hone : fault = some 1
  · rw [hone, finalise_second hmode]
  · rw [finalise_whole hmode ⟨h, hone⟩, andThen]
    split
    · rename_i converted hfirst
      rw [finaliseJsonlFile_other _ _ (by decide), hfirst]
    · rename_i converted hfirst
      rw [hfirst]

/-- Once the first file is an array that is not empty, nothing is changed. -/
theorem finalise_converted (hne : js ≠ []) (hfile : files .actuationCommands = some (arrayOf js))
    (fault : Option Nat) : w.finalise fault files = (files, false) := by
  have hfirst := convert_arrayOf hne hfile
  by_cases hzero : fault = some 0
  · rw [hzero, finalise_first hmode]
  · by_cases hone : fault = some 1
    · rw [hone, finalise_second hmode, hfirst]
    · rw [finalise_whole hmode ⟨hzero, hone⟩, andThen, hfirst]

end Local

end Conversion

section Steps

variable {toCcCommand} {s : Commands}

/-- What each stage says of the files of a session directory. -/
def Directory (s : Commands) : Prop :=
  match s.progress with
  | .recording =>
      s.files .actuationCommands = linesOf s.actuation ∧ s.files .ccCommands = linesOf s.cc ∧
        s.finalised = false
  | .halted =>
      s.files .actuationCommands = some (arrayOf s.actuation) ∧ s.files .ccCommands = linesOf s.cc ∧
        s.finalised = false
  | .done =>
      s.files .actuationCommands = some (arrayOf s.actuation) ∧
        s.files .ccCommands = some (arrayOf s.cc)
  | .spoiled =>
      (∃ text, s.files .actuationCommands = some text ∧ Spoiled s.actuation text) ∧ s.finalised = false

/-- The buffers of a cloud writer hold lines of objects, and it has not finalised. -/
def Buffers (s : Commands) : Prop :=
  (∃ js, Objects js ∧ s.writer.actuationBuf = Json.render .compact js) ∧
    (∃ js, Objects js ∧ s.writer.ccBuf = Json.render .compact js) ∧ s.finalised = false

structure Sound (s : Commands) : Prop where
  actuation : Objects s.actuation
  cc : Objects s.cc
  together : s.actuation = [] ↔ s.cc = []
  directory : s.writer.isCloudPrimary = false → Directory s
  buffers : s.writer.isCloudPrimary = true → Buffers s

theorem sound_start (isCloudPrimary : Bool) : Sound (.start isCloudPrimary) := by
  have hnone : Objects [] := fun j hj => (List.not_mem_nil hj).elim
  exact ⟨hnone, hnone, Iff.rfl, fun _ => ⟨rfl, rfl, rfl⟩, fun _ => ⟨⟨[], hnone, rfl⟩, ⟨[], hnone, rfl⟩, rfl⟩⟩

theorem step_finalise (s : Commands) {fault : Option Nat} {files : Files} {ok : Bool}
    (h : s.writer.finalise fault s.files = (files, ok)) :
    s.step toCcCommand (.finalise fault) =
      { s with
        files := files
        progress := s.progress.afterFinalise fault
        finalised := ok
        failedBefore := s.failedBefore || !ok } := by
  simp only [Commands.step, h]

theorem recorded_local (hmode : s.writer.isCloudPrimary = false) (file : CommandFile) :
    s.recorded file = entriesOf (s.files file) := by
  rw [Commands.recorded, hmode]
  rfl

theorem recorded_finalise (hmode : s.writer.isCloudPrimary = false) {fault : Option Nat} {files : Files}
    {ok : Bool} (h : s.writer.finalise fault s.files = (files, ok)) (file : CommandFile) :
    (s.step toCcCommand (.finalise fault)).recorded file = entriesOf (files file) := by
  simp [step_finalise s h, Commands.recorded, hmode]

/-- A `finalise` that fails and changes nothing is re-entrant unless it had to succeed. -/
theorem reentrant_unchanged {fault : Option Nat} (h : s.writer.finalise fault s.files = (s.files, false))
    (hdone : Faultless s.writer fault → s.failedBefore = false ∧
      HoldsArray (s.files .actuationCommands) (values s.actuation) ∧
        HoldsArray (s.files .ccCommands) (values s.cc)) :
    Reentrant s fault (s.step toCcCommand (.finalise fault)) := by
  rw [step_finalise s h]
  refine ⟨fun hfaultless => (hdone hfaultless).2, fun _ => rfl, fun _ => ⟨rfl, rfl⟩, ?_⟩
  intro hfailed hfaultless
  rw [(hdone hfaultless).1] at hfailed
  cases hfailed

section Local

variable (hmode : s.writer.isCloudPrimary = false)
include hmode

theorem reentrant_first : Reentrant s (some 0) (s.step toCcCommand (.finalise (some 0))) :=
  reentrant_unchanged (finalise_first hmode) fun hfaultless =>
    absurd rfl ((faultless_local hmode).mp hfaultless).1

/-- Where the first file is an empty array, a second conversion adds an element to it. -/
theorem not_reentrant_empty {fault : Option Nat} (hnil : s.actuation = [])
    (hfile : s.files .actuationCommands = some (arrayOf s.actuation)) (hfault : fault ≠ some 0) :
    ¬ Reentrant s fault (s.step toCcCommand (.finalise fault)) := by
  intro hre
  rw [hnil] at hfile
  have hnext : (s.writer.finalise fault s.files).1 .actuationCommands = some (arrayText [.arr []]) := by
    rw [finalise_actuation hmode hfault, convert_empty hfile]
    exact Function.update_self CommandFile.actuationCommands _ s.files
  have hparse : Json.parse (arrayText [.arr []]) = some (.arr [.arr []]) := Json.parse_print _ _ _
  cases hresult : s.writer.finalise fault s.files with
  | mk files ok =>
    have hrecorded : (s.step toCcCommand (.finalise fault)).recorded .actuationCommands = _ :=
      recorded_finalise hmode hresult .actuationCommands
    rw [step_finalise s hresult] at hre hrecorded
    rw [hresult] at hnext
    change files .actuationCommands = _ at hnext
    by_cases hone : fault = some 1
    · rw [hone, finalise_second hmode] at hresult
      have hkept := (hre.kept (Prod.mk.inj hresult).2.symm).1
      rw [hrecorded, recorded_local hmode, hfile, entriesOf_arrayOf] at hkept
      have hitems : entriesOf (files .actuationCommands) = some [.arr []] := by
        rw [hnext]
        exact entriesOf_array hparse
      cases hitems.symm.trans hkept
    · have harray := (hre.arrays ((faultless_local hmode).mpr ⟨hfault, hone⟩)).1
      change HoldsArray (files .actuationCommands) (values s.actuation) at harray
      rw [hnext, holdsArray_iff, hparse, hnil] at harray
      cases harray

theorem recording_reentrant (h : Sound s) (hprogress : s.progress = .recording) (fault : Option Nat) :
    Reentrant s fault (s.step toCcCommand (.finalise fault)) := by
  have hdirectory := h.directory hmode
  rw [Directory, hprogress] at hdirectory
  obtain ⟨hactuation, hcc, hfinalised⟩ := hdirectory
  have hfirst := convert_linesOf h.actuation hactuation
  by_cases hzero : fault = some 0
  · rw [hzero]
    exact reentrant_first hmode
  by_cases hone : fault = some 1
  · have hresult : s.writer.finalise (some 1) s.files = _ := finalise_second hmode
    rw [hfirst] at hresult
    have hfaulty : ¬ Faultless s.writer (some 1) :=
      fun hfaultless => ((faultless_local hmode).mp hfaultless).2 rfl
    rw [hone]
    refine ⟨fun hfaultless => (hfaulty hfaultless).elim, ?_, fun _ => ⟨?_, ?_⟩,
      fun _ hfaultless => (hfaulty hfaultless).elim⟩
    · exact fun hrepeated => absurd (hrepeated.symm.trans hfinalised) (by rintro ⟨⟩)
    · rw [recorded_finalise hmode hresult, recorded_local hmode, hactuation, entriesOf_linesOf h.actuation]
      have hself : Function.update s.files .actuationCommands (some (arrayOf s.actuation)) .actuationCommands =
          some (arrayOf s.actuation) := Function.update_self _ _ _
      exact (congrArg entriesOf hself).trans (entriesOf_arrayOf s.actuation)
    · rw [recorded_finalise hmode hresult, recorded_local hmode]
      rfl
  · have hsecond : CommandWriter.finaliseJsonlFile false .ccCommands
        (Function.update s.files .actuationCommands (some (arrayOf s.actuation))) = _ :=
      convert_linesOf h.cc hcc
    have hresult : s.writer.finalise fault s.files = _ := finalise_whole hmode ⟨hzero, hone⟩
    rw [andThen, hfirst] at hresult
    rw [step_finalise s (hresult.trans hsecond)]
    refine ⟨fun _ => ⟨holdsArray_arrayOf s.actuation, holdsArray_arrayOf s.cc⟩, ?_, (by rintro ⟨⟩), fun _ _ => rfl⟩
    exact fun hrepeated => absurd (hrepeated.symm.trans hfinalised) (by rintro ⟨⟩)

/-- A faultless `finalise` over a file that stays spoiled leaves no array, a faulty one the entries. -/
theorem spoiled_iff (h : Sound s) (hprogress : s.progress = .spoiled) (fault : Option Nat) :
    Reentrant s fault (s.step toCcCommand (.finalise fault)) ↔ fault = some 0 ∨ fault = some 1 := by
  have hdirectory := h.directory hmode
  rw [Directory, hprogress] at hdirectory
  obtain ⟨⟨text, hfile, htext⟩, hfinalised⟩ := hdirectory
  obtain ⟨text', hfile', htext', hentries⟩ := convert_spoiled h.actuation hfile htext
  have hnotRepeated : s.finalised ≠ true := fun hrepeated => absurd (hrepeated.symm.trans hfinalised) nofun
  by_cases hzero : fault = some 0
  · rw [hzero]
    exact iff_of_true (reentrant_first hmode) (.inl rfl)
  by_cases hone : fault = some 1
  · have hresult : s.writer.finalise (some 1) s.files = _ := finalise_second hmode
    have hfaulty : ¬ Faultless s.writer (some 1) :=
      fun hfaultless => ((faultless_local hmode).mp hfaultless).2 rfl
    rw [hone]
    refine iff_of_true ⟨fun hfaultless => (hfaulty hfaultless).elim,
      fun hrepeated => (hnotRepeated hrepeated).elim, fun _ => ⟨?_, ?_⟩,
      fun _ hfaultless => (hfaulty hfaultless).elim⟩ (.inr rfl)
    · rw [recorded_finalise hmode hresult, recorded_local hmode, hfile', hfile]
      exact hentries
    · rw [recorded_finalise hmode hresult, recorded_local hmode, finaliseJsonlFile_other _ _ (by decide)]
  · refine iff_of_false ?_ (not_or.mpr ⟨hzero, hone⟩)
    intro hre
    have hnext : (s.writer.finalise fault s.files).1 .actuationCommands = _ := finalise_actuation hmode hzero
    cases hresult : s.writer.finalise fault s.files with
    | mk files ok =>
      rw [step_finalise s hresult] at hre
      rw [hresult, hfile'] at hnext
      have harray := (hre.arrays ((faultless_local hmode).mpr ⟨hzero, hone⟩)).1
      change files .actuationCommands = _ at hnext
      change HoldsArray (files .actuationCommands) (values s.actuation) at harray
      rw [hnext] at harray
      exact htext'.not_holdsArray h.actuation harray

theorem halted_iff (h : Sound s) (hprogress : s.progress = .halted) (fault : Option Nat) :
    Reentrant s fault (s.step toCcCommand (.finalise fault)) ↔
      fault = some 0 ∨ fault = some 1 ∧ s.actuation ≠ [] := by
  have hdirectory := h.directory hmode
  rw [Directory, hprogress] at hdirectory
  obtain ⟨hactuation, hcc, hfinalised⟩ := hdirectory
  by_cases hzero : fault = some 0
  · rw [hzero]
    exact iff_of_true (reentrant_first hmode) (.inl rfl)
  rw [or_iff_right hzero]
  by_cases hnil : s.actuation = []
  · exact iff_of_false (not_reentrant_empty hmode hnil hactuation hzero) fun hone => hone.2 hnil
  have hresult := finalise_converted hmode hnil hactuation fault
  by_cases hone : fault = some 1
  · refine iff_of_true (reentrant_unchanged hresult fun hfaultless => ?_) ⟨hone, hnil⟩
    exact absurd hone ((faultless_local hmode).mp hfaultless).2
  · refine iff_of_false ?_ fun hcase => hone hcase.1
    intro hre
    rw [step_finalise s hresult] at hre
    have harray := (hre.arrays ((faultless_local hmode).mpr ⟨hzero, hone⟩)).2
    change HoldsArray (s.files .ccCommands) (values s.cc) at harray
    rw [hcc] at harray
    exact not_holdsArray_linesOf h.cc _ harray

theorem done_iff (h : Sound s) (hprogress : s.progress = .done) (fault : Option Nat) :
    Reentrant s fault (s.step toCcCommand (.finalise fault)) ↔
      fault = some 0 ∨ s.actuation ≠ [] ∧ (fault = some 1 ∨ s.failedBefore = false) := by
  have hdirectory := h.directory hmode
  rw [Directory, hprogress] at hdirectory
  obtain ⟨hactuation, hcc⟩ := hdirectory
  by_cases hzero : fault = some 0
  · rw [hzero]
    exact iff_of_true (reentrant_first hmode) (.inl rfl)
  rw [or_iff_right hzero]
  by_cases hnil : s.actuation = []
  · exact iff_of_false (not_reentrant_empty hmode hnil hactuation hzero) fun hcase => hcase.1 hnil
  rw [and_iff_right hnil]
  have hresult := finalise_converted hmode hnil hactuation fault
  by_cases hone : fault = some 1
  · refine iff_of_true (reentrant_unchanged hresult fun hfaultless => ?_) (.inl hone)
    exact absurd hone ((faultless_local hmode).mp hfaultless).2
  rw [or_iff_right hone]
  have hfaultless : Faultless s.writer fault := (faultless_local hmode).mpr ⟨hzero, hone⟩
  constructor
  · intro hre
    rw [step_finalise s hresult] at hre
    cases hfailed : s.failedBefore with
    | false => rfl
    | true => exact absurd (hre.later hfailed hfaultless) nofun
  · intro hfailed
    refine reentrant_unchanged hresult fun _ => ⟨hfailed, ?_, ?_⟩
    · rw [hactuation]
      exact holdsArray_arrayOf s.actuation
    · rw [hcc]
      exact holdsArray_arrayOf s.cc

end Local

section Cloud

theorem runPuts_ok {fault : Option Nat} {puts : List (CommandFile × Text)} (files : Files)
    (h : ∀ n ∈ fault, puts.length ≤ n) : (runPuts fault puts files).2 = true := by
  induction puts generalizing fault files with
  | nil => rfl
  | cons put puts ih =>
    have hzero : fault ≠ some 0 := fun hfault => absurd (h 0 hfault) (by simp)
    rw [runPuts, if_neg hzero]
    refine ih _ fun n hn => ?_
    obtain ⟨m, hm, rfl⟩ := Option.map_eq_some_iff.mp hn
    exact Nat.le_pred_of_lt (h m hm)

theorem bufEntries_render {js : List Json} (hjs : Objects js) :
    ∃ items, CommandWriter.bufEntries (Json.render .compact js) = some items := by
  rw [CommandWriter.bufEntries]
  split
  · exact ⟨[], rfl⟩
  · exact ⟨_, parseLines_render js hjs⟩

/-- Where no put fails, the buffers are put last, and they are no arrays; where one does, what the
buffers hold is as it was. -/
theorem cloud_iff (h : Sound s) (hmode : s.writer.isCloudPrimary = true) (fault : Option Nat) :
    Reentrant s fault (s.step toCcCommand (.finalise fault)) ↔ ¬ Faultless s.writer fault := by
  obtain ⟨⟨js, hjs, hbuf⟩, ⟨ks, hks, hccBuf⟩, hfinalised⟩ := h.buffers hmode
  obtain ⟨items, hitems⟩ := bufEntries_render hjs
  obtain ⟨ccItems, hccItems⟩ := bufEntries_render hks
  cases hresult : s.writer.finalise fault s.files with
  | mk files ok =>
    rw [step_finalise s hresult]
    rw [CommandWriter.finalise, if_pos hmode] at hresult
    constructor
    · intro hre hfaultless
      have hok : (s.writer.finaliseCloud fault s.files).2 = true := by
        rw [CommandWriter.finaliseCloud, hbuf, hccBuf, hitems, hccItems]
        refine runPuts_ok s.files fun n hn => ?_
        have hsix := hfaultless n hn
        rwa [if_pos hmode] at hsix
      have hfile := finaliseCloud_files hok .actuationCommands
      have harray := (hre.arrays hfaultless).1
      rw [hresult] at hfile
      change files .actuationCommands = some s.writer.actuationBuf at hfile
      change HoldsArray (files .actuationCommands) (values s.actuation) at harray
      rw [hfile, hbuf, holdsArray_iff] at harray
      exact parse_render_ne_arr hjs _ harray
    · intro hfaulty
      refine ⟨fun hfaultless => (hfaulty hfaultless).elim, ?_, fun _ => ⟨?_, ?_⟩,
        fun _ hfaultless => (hfaulty hfaultless).elim⟩
      · exact fun hrepeated => absurd (hrepeated.symm.trans hfinalised) (by rintro ⟨⟩)
      · simp [Commands.recorded, hmode]
      · simp [Commands.recorded, hmode]

end Cloud

theorem reentrant_iff (h : Sound s) (fault : Option Nat) :
    Reentrant s fault (s.step toCcCommand (.finalise fault)) ↔ Finalisable s (.finalise fault) := by
  rw [Finalisable]
  split
  · rename_i hmode
    exact cloud_iff h hmode fault
  · rename_i hmode
    have hlocal := Bool.eq_false_of_not_eq_true hmode
    split
    · rename_i hprogress
      exact iff_of_true (recording_reentrant hlocal h hprogress fault) trivial
    · rename_i hprogress
      exact halted_iff hlocal h hprogress fault
    · rename_i hprogress
      exact done_iff hlocal h hprogress fault
    · rename_i hprogress
      exact spoiled_iff hlocal h hprogress fault

theorem objects_event {js : List Json} (hjs : Objects js) (fields : Json.Fields) :
    Objects (js ++ [.obj fields]) := by
  intro j hj
  obtain hj | hj := List.mem_append.mp hj
  · exact hjs j hj
  · exact ⟨fields, List.mem_singleton.mp hj⟩

/-- In a directory the lines of an event are appended to the JSON files. -/
theorem event_local (toCcCommand : CommandEvent → String) (hmode : s.writer.isCloudPrimary = false) (w : Written) :
    (s.step toCcCommand (.event w)).files .actuationCommands =
        some ((s.files .actuationCommands).getD [] ++ jsonLine w.event.toJson) ∧
      (s.step toCcCommand (.event w)).files .ccCommands =
        some ((s.files .ccCommands).getD [] ++ jsonLine
          (ccCommandEntry (s.writer.stepCounter + 1) w.event.osType (toCcCommand w.event))) := by
  have hcounter : s.writer.stepCounter + 1 = .ofNat (s.writer.stepCounter + 1).toNat :=
    UInt32.ofNat_toNat.symm
  have hfiles : (s.step toCcCommand (.event w)).files =
      appendAll toCcCommand w (s.writer.stepCounter + 1).toNat s.files :=
    congrArg Recording.files (step_local w hmode hcounter)
  have hheader : ∀ content : Option Text, (if content.isNone then ([] : Text) else []) = [] :=
    fun content => ite_self _
  rw [hfiles]
  refine ⟨?_, ?_⟩
  · rw [appendAll, CommandFile.header, hheader]
    rfl
  · rw [appendAll, CommandFile.header, hheader, fileLine, ccEntry, ← hcounter]
    rfl

theorem mode_commands (s : Commands) (op : Op) :
    (s.step toCcCommand op).writer.isCloudPrimary = s.writer.isCloudPrimary := by
  cases op with
  | event w => exact mode_step ⟨s.writer, s.files⟩ (.event w)
  | flush _ | renew | finalise _ => rfl

theorem progress_event (s : Commands) (w : Written) :
    (s.step toCcCommand (.event w)).progress = s.progress.afterEvent := rfl

theorem progress_renew (s : Commands) : (s.step toCcCommand .renew).progress = s.progress := rfl

theorem progress_finalise (s : Commands) (fault : Option Nat) :
    (s.step toCcCommand (.finalise fault)).progress = s.progress.afterFinalise fault := rfl

theorem directory_event (h : Sound s) (hmode : s.writer.isCloudPrimary = false) (w : Written) :
    Directory (s.step toCcCommand (.event w)) := by
  have hdirectory := h.directory hmode
  obtain ⟨hactuation, hcc⟩ := event_local toCcCommand hmode w
  rw [Directory] at hdirectory ⊢
  rw [progress_event]
  cases hstage : s.progress with
  | recording =>
    rw [hstage] at hdirectory
    obtain ⟨hactuationLines, hccLines, -⟩ := hdirectory
    rw [hactuationLines] at hactuation
    rw [hccLines] at hcc
    exact ⟨hactuation.trans (linesOf_event _ _), hcc.trans (linesOf_event _ _), rfl⟩
  | halted =>
    rw [hstage] at hdirectory
    rw [hdirectory.1] at hactuation
    exact ⟨⟨_, hactuation, spoiled_arrayOf _ _⟩, rfl⟩
  | done =>
    rw [hstage] at hdirectory
    rw [hdirectory.1] at hactuation
    exact ⟨⟨_, hactuation, spoiled_arrayOf _ _⟩, rfl⟩
  | spoiled =>
    rw [hstage] at hdirectory
    obtain ⟨⟨text, htext, hspoiled⟩, -⟩ := hdirectory
    rw [htext] at hactuation
    exact ⟨⟨_, hactuation, hspoiled.event _⟩, rfl⟩

theorem buffers_event (h : Sound s) (hmode : s.writer.isCloudPrimary = true) (w : Written) :
    Buffers (s.step toCcCommand (.event w)) := by
  obtain ⟨⟨js, hjs, hbuf⟩, ⟨ks, hks, hccBuf⟩, -⟩ := h.buffers hmode
  have hstep : Recording.step toCcCommand ⟨s.writer, s.files⟩ (.event w) = _ :=
    step_cloud ⟨s.writer, s.files⟩ w hmode
  have hactuation : (s.step toCcCommand (.event w)).writer.actuationBuf =
      s.writer.actuationBuf ++ jsonLine w.event.toJson :=
    congrArg (fun r => r.writer.actuationBuf) hstep
  have hcc : (s.step toCcCommand (.event w)).writer.ccBuf = s.writer.ccBuf ++
      jsonLine (ccCommandEntry (s.writer.stepCounter + 1) w.event.osType (toCcCommand w.event)) :=
    congrArg (fun r => r.writer.ccBuf) hstep
  rw [hbuf] at hactuation
  rw [hccBuf] at hcc
  exact ⟨⟨_, objects_event hjs _, hactuation.trans (render_concat _ _)⟩,
    ⟨_, objects_event hks _, hcc.trans (render_concat _ _)⟩, rfl⟩

theorem sound_event (h : Sound s) (w : Written) : Sound (s.step toCcCommand (.event w)) where
  actuation := objects_event h.actuation _
  cc := objects_event h.cc _
  together := iff_of_false (by simp [Commands.step]) (by simp [Commands.step])
  directory hmode := directory_event h ((mode_commands s (.event w)).symm.trans hmode) w
  buffers hmode := buffers_event h ((mode_commands s (.event w)).symm.trans hmode) w

/-- A `finalise` that changes nothing leaves the files as far converted as they were. -/
theorem directory_unchanged (h : Sound s) (hmode : s.writer.isCloudPrimary = false) {fault : Option Nat}
    (hresult : s.writer.finalise fault s.files = (s.files, false))
    (hstage : s.progress.afterFinalise fault = s.progress) :
    Directory (s.step toCcCommand (.finalise fault)) := by
  have hdirectory := h.directory hmode
  rw [step_finalise s hresult, Directory, hstage]
  rw [Directory] at hdirectory
  cases hprogress : s.progress with
  | recording | halted =>
    rw [hprogress] at hdirectory
    exact ⟨hdirectory.1, hdirectory.2.1, rfl⟩
  | done =>
    rw [hprogress] at hdirectory
    exact hdirectory
  | spoiled =>
    rw [hprogress] at hdirectory
    exact ⟨hdirectory.1, rfl⟩

theorem directory_recording (h : Sound s) (hmode : s.writer.isCloudPrimary = false)
    (hprogress : s.progress = .recording) (fault : Option Nat) :
    Directory (s.step toCcCommand (.finalise fault)) := by
  have hdirectory := h.directory hmode
  rw [Directory, hprogress] at hdirectory
  obtain ⟨hactuation, hcc, -⟩ := hdirectory
  have hfirst := convert_linesOf h.actuation hactuation
  by_cases hzero : fault = some 0
  · rw [hzero]
    refine directory_unchanged h hmode (finalise_first hmode) ?_
    rw [hprogress]
    rfl
  by_cases hone : fault = some 1
  · have hresult : s.writer.finalise (some 1) s.files = _ := finalise_second hmode
    rw [hfirst] at hresult
    rw [hone, step_finalise s hresult, Directory, hprogress]
    exact ⟨Function.update_self CommandFile.actuationCommands _ s.files, hcc, rfl⟩
  · have hsecond : CommandWriter.finaliseJsonlFile false .ccCommands
        (Function.update s.files .actuationCommands (some (arrayOf s.actuation))) = _ :=
      convert_linesOf h.cc hcc
    have hresult : s.writer.finalise fault s.files = _ := finalise_whole hmode ⟨hzero, hone⟩
    rw [andThen, hfirst] at hresult
    have hstage : Progress.recording.afterFinalise fault = .done := by
      rw [Progress.afterFinalise, if_neg hzero, if_neg hone]
    rw [step_finalise s (hresult.trans hsecond), Directory, hprogress, hstage]
    exact ⟨rfl, rfl⟩

/-- After a re-entrant `finalise` the files are what the next stage says. -/
theorem directory_finalise (h : Sound s) (hmode : s.writer.isCloudPrimary = false) {fault : Option Nat}
    (hfinalisable : Finalisable s (.finalise fault)) :
    Directory (s.step toCcCommand (.finalise fault)) := by
  have hdirectory := h.directory hmode
  have hzero : s.progress ≠ .recording → fault = some 0 →
      Directory (s.step toCcCommand (.finalise fault)) := by
    rintro hne rfl
    refine directory_unchanged h hmode (finalise_first hmode) ?_
    cases hprogress : s.progress with
    | recording => exact absurd hprogress hne
    | halted | done | spoiled => rfl
  rw [Directory] at hdirectory
  rw [Finalisable, if_neg (ne_true_of_eq_false hmode)] at hfinalisable
  cases hprogress : s.progress with
  | recording => exact directory_recording h hmode hprogress fault
  | halted =>
    rw [hprogress] at hdirectory hfinalisable hzero
    obtain hfault | ⟨-, hne⟩ := hfinalisable
    · exact hzero nofun hfault
    · refine directory_unchanged h hmode (finalise_converted hmode hne hdirectory.1 fault) ?_
      rw [hprogress]
      rfl
  | done =>
    rw [hprogress] at hdirectory hfinalisable hzero
    obtain hfault | ⟨hne, -⟩ := hfinalisable
    · exact hzero nofun hfault
    · refine directory_unchanged h hmode (finalise_converted hmode hne hdirectory.1 fault) ?_
      rw [hprogress]
      rfl
  | spoiled =>
    rw [hprogress] at hdirectory hfinalisable hzero
    obtain ⟨⟨text, hfile, htext⟩, -⟩ := hdirectory
    obtain ⟨text', hfile', htext', -⟩ := convert_spoiled h.actuation hfile htext
    obtain hfault | rfl := hfinalisable
    · exact hzero nofun hfault
    · have hresult : s.writer.finalise (some 1) s.files = _ := finalise_second hmode
      rw [step_finalise s hresult, Directory, hprogress]
      exact ⟨⟨text', hfile', htext'⟩, rfl⟩

/-- A cloud `finalise` in which a put fails does not succeed. -/
theorem runPuts_fails {n : Nat} {puts : List (CommandFile × Text)} (files : Files)
    (h : n < puts.length) : (runPuts (some n) puts files).2 = false := by
  induction puts generalizing n files with
  | nil => exact absurd h (Nat.not_lt_zero n)
  | cons put puts ih =>
    rw [runPuts]
    cases n with
    | zero => rfl
    | succ n =>
      rw [if_neg (by rintro ⟨⟩)]
      exact ih _ (Nat.lt_of_succ_lt_succ h)

theorem buffers_finalise (h : Sound s) (hmode : s.writer.isCloudPrimary = true) {fault : Option Nat}
    (hfaulty : ¬ Faultless s.writer fault) : Buffers (s.step toCcCommand (.finalise fault)) := by
  obtain ⟨hactuation, hcc, -⟩ := h.buffers hmode
  cases hresult : s.writer.finalise fault s.files with
  | mk files ok =>
    rw [step_finalise s hresult]
    refine ⟨hactuation, hcc, ?_⟩
    obtain ⟨⟨js, hjs, hbuf⟩, ⟨ks, hks, hccBuf⟩⟩ := And.intro hactuation hcc
    obtain ⟨items, hitems⟩ := bufEntries_render hjs
    obtain ⟨ccItems, hccItems⟩ := bufEntries_render hks
    rw [CommandWriter.finalise, if_pos hmode, CommandWriter.finaliseCloud, hbuf, hccBuf, hitems,
      hccItems] at hresult
    obtain ⟨n, hn⟩ := not_forall.mp hfaulty
    obtain ⟨hfault, hsix⟩ := Classical.not_imp.mp hn
    rw [if_pos hmode, not_le] at hsix
    rw [Option.mem_def.mp hfault] at hresult
    exact (congrArg Prod.snd hresult).symm.trans (runPuts_fails s.files hsix)

theorem sound_step (h : Sound s) (op : Op) (hfinalisable : Finalisable s op) :
    Sound (s.step toCcCommand op) := by
  cases op with
  | event w => exact sound_event h w
  | flush fault =>
    refine ⟨h.actuation, h.cc, h.together, fun hmode => ?_, h.buffers⟩
    have hcloud : ¬ s.writer.isCloudPrimary = true := ne_true_of_eq_false hmode
    have hsame : (s.writer.flushToCloud fault s.files).1 = s.files := by
      rw [CommandWriter.flushToCloud, if_neg hcloud]
    rw [Commands.step, hsame]
    exact h.directory hmode
  | renew =>
    have hnone : Objects [] := fun j hj => (List.not_mem_nil hj).elim
    refine ⟨h.actuation, h.cc, h.together, h.directory, fun hmode => ?_⟩
    exact ⟨⟨[], hnone, rfl⟩, ⟨[], hnone, rfl⟩, (h.buffers hmode).2.2⟩
  | finalise fault =>
    have hwriter : (s.step toCcCommand (.finalise fault)).writer = s.writer := rfl
    refine ⟨h.actuation, h.cc, h.together, fun hmode => ?_, fun hmode => ?_⟩
    · rw [hwriter] at hmode
      exact directory_finalise h hmode hfinalisable
    · rw [hwriter] at hmode
      rw [Finalisable, if_pos hmode] at hfinalisable
      exact buffers_finalise h hmode hfinalisable

theorem reentrantStep_iff (h : Sound s) (op : Op) :
    ReentrantStep s op (s.step toCcCommand op) ↔ Finalisable s op := by
  cases op with
  | event _ | flush _ | renew => exact iff_of_true nofun trivial
  | finalise fault =>
    refine Iff.trans ⟨fun hre => hre fault rfl, ?_⟩ (reentrant_iff h fault)
    rintro hre _ ⟨⟩
    exact hre

end Steps

/-- Whatever is recorded, and however often and with whatever failures it is finalised, every
`finalise` of a run is re-entrant if and only if each comes where it can be. -/
theorem finalise_reentrant_iff (toCcCommand : CommandEvent → String) (isCloudPrimary : Bool)
    (ops : List Op) :
    Along (Commands.step toCcCommand) ReentrantStep (.start isCloudPrimary) ops ↔
      Guarded (Commands.step toCcCommand) Finalisable (.start isCloudPrimary) ops := by
  have hkeep : ∀ s op, Sound s → ReentrantStep s op (s.step toCcCommand op) →
      Sound (s.step toCcCommand op) :=
    fun s op h hre => sound_step h op ((reentrantStep_iff h op).mp hre)
  exact along_iff_guarded_steps (fun _ op h => reentrantStep_iff h op) hkeep _ ops
    (sound_start isCloudPrimary)

def typed : Written := ⟨sampleEvent, "Type: hello".toList, "2026-02-25 12:58:04 UTC".toList⟩

/-- A session that is done, watched again, and records one more event. -/
def watchedAgain : List Op := [.event typed, .finalise none, .renew, .event typed]

/-- When such a session is done once more, its files are no arrays. -/
theorem watched_again_spoils :
    ¬ Along (Commands.step fun e => e.rawCommand) ReentrantStep (.start false)
      (watchedAgain ++ [.finalise none]) := by
  intro h
  have hstep : ∀ s op, Sound s → Finalisable s op → Sound (Commands.step (fun e => e.rawCommand) s op) :=
    fun s op hs hop => sound_step hs op hop
  have hmode : ∀ ops, (run (Commands.step fun e => e.rawCommand) (.start false) ops).writer.isCloudPrimary =
      false := by
    intro ops
    have hkeep : ∀ s op, s.writer.isCloudPrimary = false → True →
        (Commands.step (fun e => e.rawCommand) s op).writer.isCloudPrimary = false :=
      fun s op hs _ => (mode_commands s op).trans hs
    exact invariant_run hkeep _ ops rfl (guarded_true _ ops)
  have hguarded : Guarded (Commands.step fun e => e.rawCommand) Finalisable (.start false) watchedAgain := by
    refine ⟨trivial, ?_, trivial, trivial, trivial⟩
    rw [Finalisable, if_neg (ne_true_of_eq_false ((mode_commands (.start false) (.event typed)).trans rfl))]
    trivial
  have hsound := invariant_run hstep (.start false) watchedAgain (sound_start false) hguarded
  have hstage : (run (Commands.step fun e => e.rawCommand) (.start false) watchedAgain).progress = .spoiled := by
    rw [watchedAgain, run, List.foldl_cons, List.foldl_cons, List.foldl_cons, List.foldl_cons, List.foldl_nil,
      progress_event, progress_renew, progress_finalise, progress_event]
    rfl
  replace hmode := hmode watchedAgain
  have hsplit := (along_append (Commands.start false) watchedAgain [.finalise none]).mp h
  generalize run (Commands.step fun e => e.rawCommand) (.start false) watchedAgain = s at hsound hmode hstage hsplit
  have hfinalisable := (reentrantStep_iff hsound (.finalise none)).mp hsplit.2.1
  rw [Finalisable, if_neg (ne_true_of_eq_false hmode), hstage] at hfinalisable
  obtain hfault | hfault := hfinalisable
  · cases hfault
  · cases hfault

end MemoryArchive.Capture.Refinalise
