import Mathlib.Logic.Function.Basic
import MemoryArchive.Json.Lines

namespace MemoryArchive.Capture

abbrev Text := List Char

/-- An event of the command stream. -/
structure CommandEvent where
  sessionId : String
  agentId : String
  agentVersion : String
  osType : String
  timestamp : String
  rawCommand : String
  actionType : String
  actionSubtype : String
  isHereCommand : Bool
  success : Bool
  errorMessage : String
  executionTimeMs : Int32
  mouseX : Int32
  mouseY : Int32
  positionCaptured : Bool
  isHeartbeat : Bool
  agentAlive : Bool
  deriving DecidableEq

def integer (i : Int32) : Json := .num (.ofInt i.toInt)

def CommandEvent.toJson (e : CommandEvent) : Json := .obj
  [("session_id", .str e.sessionId), ("agent_id", .str e.agentId),
    ("agent_version", .str e.agentVersion), ("os_type", .str e.osType),
    ("timestamp", .str e.timestamp), ("raw_command", .str e.rawCommand),
    ("action_type", .str e.actionType), ("action_subtype", .str e.actionSubtype),
    ("is_here_command", .bool e.isHereCommand), ("success", .bool e.success),
    ("error_message", .str e.errorMessage), ("execution_time_ms", integer e.executionTimeMs),
    ("mouse_x", integer e.mouseX), ("mouse_y", integer e.mouseY),
    ("position_captured", .bool e.positionCaptured), ("is_heartbeat", .bool e.isHeartbeat),
    ("agent_alive", .bool e.agentAlive)]

/-- The files that record the commands of a session. -/
inductive CommandFile
  | rawInput | convertedInput | actuationCommands | ccCommands
  deriving DecidableEq

/-- What a reader finds in each file, in the session directory or among the
objects of the backend. -/
abbrev Files := CommandFile → Option Text

/-- Make a text fit in one cell of a table row. -/
def mdCell (text : Text) : Text :=
  text.flatMap fun c =>
    if c = '|' then ['\\', '|'] else if c = '\n' ∨ c = '\r' then [' '] else [c]

def padLeft (width : Nat) (text : Text) : Text := List.replicate (width - text.length) ' ' ++ text

def row (step : UInt32) (e : CommandEvent) (cell : Text) : Text :=
  "| ".toList ++ padLeft 4 (Json.digits step.toNat) ++ " | ".toList ++ e.timestamp.toList ++
    " | ".toList ++ (if e.success then [] else "[FAILED] ".toList) ++ mdCell cell ++ " |\n".toList

def rawHeader (now : Text) : Text :=
  "# Raw Input\n\n_Generated by Memory Archive — ".toList ++ now ++
    "_\n\n| Step | Timestamp | Command |\n|------|-----------|----------|\n".toList

def convertedHeader (now : Text) : Text :=
  "# Converted Input\n\n_Generated by Memory Archive — ".toList ++ now ++
    "_\n\n| Step | Timestamp | Action |\n|------|-----------|--------|\n".toList

/-- What a file starts with when its first line is written. -/
def CommandFile.header (now : Text) : CommandFile → Text
  | rawInput => rawHeader now
  | convertedInput => convertedHeader now
  | actuationCommands | ccCommands => []

def jsonLine (j : Json) : Text := Json.print .compact 0 j ++ ['\n']

/-- An entry of cc_commands.json. -/
def ccCommandEntry (step : UInt32) (os command : String) : Json :=
  .obj [("step_id", .num (.ofNat step.toNat)), ("os", .str os), ("command", .str command)]

/-- An object is printed as its members between braces. -/
theorem head_jsonLine_obj (fields : Json.Fields) : (jsonLine (.obj fields)).head? = some '{' := by
  rw [jsonLine, Json.print]
  rfl

theorem head_print_arr (L : Json.Layout) (d : Nat) (items : List Json) :
    (Json.print L d (.arr items)).head? = some '[' := by
  rw [Json.print]
  rfl

end MemoryArchive.Capture
