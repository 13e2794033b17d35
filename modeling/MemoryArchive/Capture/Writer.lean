import MemoryArchive.Capture.Event

namespace MemoryArchive.Capture

/-- How a write to a file fails: before anything is written, or after a part. -/
inductive Failure
  | refused
  | cut (length : Nat)

/-- `append_line`: a file that is not there yet gets its header first. -/
def appendLine (now : Text) (failure : Option Failure) (file : CommandFile) (line : Text)
    (files : Files) : Files × Bool :=
  let text := (if (files file).isNone then file.header now else []) ++ line
  let append (text : Text) := Function.update files file (some ((files file).getD [] ++ text))
  match failure with
  | none => (append text, true)
  | some .refused => (files, false)
  | some (.cut length) => (append (text.take length), false)

/-- The objects are put one after the other until a put fails. The fault is the
number of puts before that. -/
def runPuts (fault : Option Nat) : List (CommandFile × Text) → Files → Files × Bool
  | [], files => (files, true)
  | (file, text) :: puts, files =>
      if fault = some 0 then (files, false)
      else runPuts (fault.map Nat.pred) puts (Function.update files file (some text))

def andThen (first second : Files → Files × Bool) (files : Files) : Files × Bool :=
  match first files with
  | (files, true) => second files
  | (files, false) => (files, false)

/-- The values of a JSON Lines text. Blank lines are passed over. -/
def parseLines (text : Text) : Option (List Json) :=
  ((Lines.lines text).filter fun line => Lines.trim line ≠ []).mapM fun line =>
    (Json.parse line).map (Json.rebuild Json.putSorted)

def arrayText (entries : List Json) : Text := Json.print .pretty 0 (.arr entries)

structure CommandWriter where
  isCloudPrimary : Bool
  stepCounter : UInt32
  rawInputBuf : Text
  convertedInputBuf : Text
  actuationBuf : Text
  ccBuf : Text
  rawHeaderWritten : Bool
  convertedHeaderWritten : Bool

namespace CommandWriter

def new (isCloudPrimary : Bool) : CommandWriter :=
  ⟨isCloudPrimary, 0, [], [], [], [], false, false⟩

section Write

-- The command that replays an event.
variable (toCcCommand : CommandEvent → String)

def bufferRaw (w : CommandWriter) (now : Text) (step : UInt32) (e : CommandEvent) : CommandWriter :=
  { w with
    rawInputBuf := w.rawInputBuf ++ (if w.rawHeaderWritten then [] else rawHeader now) ++
      row step e e.rawCommand.toList
    rawHeaderWritten := true }

def bufferConverted (w : CommandWriter) (now : Text) (step : UInt32) (e : CommandEvent)
    (converted : Text) : CommandWriter :=
  { w with
    convertedInputBuf := w.convertedInputBuf ++
      (if w.convertedHeaderWritten then [] else convertedHeader now) ++ row step e converted
    convertedHeaderWritten := true }

def bufferJsonl (w : CommandWriter) (e : CommandEvent) : CommandWriter :=
  { w with actuationBuf := w.actuationBuf ++ jsonLine e.toJson }

def bufferCcCommand (w : CommandWriter) (step : UInt32) (e : CommandEvent) : CommandWriter :=
  { w with ccBuf := w.ccBuf ++ jsonLine (ccCommandEntry step e.osType (toCcCommand e)) }

def appendRaw (now : Text) (failure : Option Failure) (step : UInt32) (e : CommandEvent) :
    Files → Files × Bool :=
  appendLine now failure .rawInput (row step e e.rawCommand.toList)

def appendConverted (now : Text) (failure : Option Failure) (step : UInt32) (e : CommandEvent)
    (converted : Text) : Files → Files × Bool :=
  appendLine now failure .convertedInput (row step e converted)

def appendJsonl (now : Text) (failure : Option Failure) (e : CommandEvent) : Files → Files × Bool :=
  appendLine now failure .actuationCommands (jsonLine e.toJson)

def appendCcCommand (now : Text) (failure : Option Failure) (step : UInt32) (e : CommandEvent) :
    Files → Files × Bool :=
  appendLine now failure .ccCommands (jsonLine (ccCommandEntry step e.osType (toCcCommand e)))

/-- Write one event. The counter moves on before anything can fail; in cloud
mode nothing does, since the event goes to the buffers only. -/
def writeEvent (w : CommandWriter) (now : Text) (failure : CommandFile → Option Failure)
    (e : CommandEvent) (converted : Text) (files : Files) : CommandWriter × Files × Option UInt32 :=
  let step := w.stepCounter + 1
  let w := { w with stepCounter := step }
  if w.isCloudPrimary then
    let w := (w.bufferRaw now step e).bufferConverted now step e converted
    ((w.bufferJsonl e).bufferCcCommand toCcCommand step e, files, some step)
  else
    let write :=
      andThen (appendRaw now (failure .rawInput) step e) <|
        andThen (appendConverted now (failure .convertedInput) step e converted) <|
          andThen (appendJsonl now (failure .actuationCommands) e)
            (appendCcCommand toCcCommand now (failure .ccCommands) step e)
    match write files with
    | (files, true) => (w, files, some step)
    | (files, false) => (w, files, none)

end Write

/-- The four puts of a flush, in their order. -/
def flushPuts (w : CommandWriter) : List (CommandFile × Text) :=
  [(.rawInput, w.rawInputBuf), (.convertedInput, w.convertedInputBuf),
    (.actuationCommands, w.actuationBuf), (.ccCommands, w.ccBuf)]

def flushToCloud (w : CommandWriter) (fault : Option Nat) (files : Files) : Files × Bool :=
  if w.isCloudPrimary then runPuts fault w.flushPuts files else (files, true)

def bufEntries (buf : Text) : Option (List Json) :=
  if Lines.trim buf = [] then some [] else parseLines buf

/-- `finalise` in cloud mode: each JSON buffer is put as an array, and then all
four buffers are flushed. -/
def finaliseCloud (w : CommandWriter) (fault : Option Nat) (files : Files) : Files × Bool :=
  match bufEntries w.actuationBuf with
  | none => (files, false)
  | some actuation =>
      match bufEntries w.ccBuf with
      | none => ((runPuts fault [(.actuationCommands, arrayText actuation)] files).1, false)
      | some cc =>
          runPuts fault
            ((.actuationCommands, arrayText actuation) :: (.ccCommands, arrayText cc) :: w.flushPuts)
            files

/-- Replace a JSON Lines file by an array; a missing one becomes an empty array. -/
def finaliseJsonlFile (fails : Bool) (file : CommandFile) (files : Files) : Files × Bool :=
  match files file with
  | none =>
      if fails then (files, false)
      else (Function.update files file (some "[]\n".toList), true)
  | some raw =>
      match parseLines raw with
      | none => (files, false)
      | some entries =>
          if fails then (files, false)
          else (Function.update files file (some (arrayText entries)), true)

/-- `finalise`, after which the writer is used no more. The fault is the number
of writes before one fails. -/
def finalise (w : CommandWriter) (fault : Option Nat) (files : Files) : Files × Bool :=
  if w.isCloudPrimary then w.finaliseCloud fault files
  else
    andThen (finaliseJsonlFile (fault = some 0) .actuationCommands)
      (finaliseJsonlFile (fault = some 1) .ccCommands) files

end CommandWriter

end MemoryArchive.Capture
