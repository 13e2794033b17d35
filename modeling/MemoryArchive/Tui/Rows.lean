import MemoryArchive.Capture.Finalise
import MemoryArchive.Text.Strip
import MemoryArchive.Tui.Commands

namespace MemoryArchive.Tui.Rows

open Capture (Written CommandFile Recording Action finalFiles fileText written)
open Reasoning (Text File)
open Runs

/-- The text of a command in one line. -/
def folded (text : Text) : Text := text.map fun c => if c = '\n' ∨ c = '\r' then ' ' else c

def marker (w : Written) : Text := if w.event.success then [] else "[FAILED] ".toList

/-- Pipes that are not escaped. -/
def barePipes : Text → Nat
  | [] => 0
  | '\\' :: '|' :: cs => barePipes cs
  | c :: cs => (if c = '|' then 1 else 0) + barePipes cs

/-- An event whose row is read back: no line ends but those that are folded, no
bare pipe in the timestamp, and no text of its own that looks like the marker. -/
structure Plain (w : Written) : Prop where
  text : ∀ c ∈ w.converted, Lines.isPyBreak c = true → c = '\n' ∨ c = '\r'
  timestamp : ∀ c ∈ w.event.timestamp.toList, Lines.isPyBreak c = false
  pipes : barePipes w.event.timestamp.toList = 0
  unmarked : w.event.success = true → ¬ "[FAILED]".toList <+: Lines.pyStrip (folded w.converted)

section Cells

end Cells

section Row

variable (w : Written) (n : Nat)

end Row

section Reading

variable {pyInt : Text → Option Int} (w : Written) (n : Nat)

end Reading

section File

end File

/-- The table of converted commands after some events: as a local writer has it so
far, or as a cloud writer stores it in the end. -/
def Recorded (toCcCommand : Capture.CommandEvent → String) (actions : List Action) (content : File) : Prop :=
  content = (run (Recording.step toCcCommand) ⟨.new false, fun _ => none⟩ actions).files .convertedInput ∨
    ∃ objects fault, (finalFiles toCcCommand true objects actions fault).2 = true ∧
      content = (finalFiles toCcCommand true objects actions fault).1 .convertedInput

end MemoryArchive.Tui.Rows
