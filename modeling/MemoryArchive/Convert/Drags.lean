import MemoryArchive.Convert.Keyboard

namespace MemoryArchive.Convert.Drags

open Capture (Text CommandEvent)

section Sentence

def pointReport (point : Point) : Text :=
  "X=".toList ++ displayI32 point.1 ++ ", Y=".toList ++ displayI32 point.2

/-- A drag as the agent reports it. -/
structure DragReport where
  modifiers : List String
  known : ∀ name ∈ modifiers, name ∈ mouseModifiers.map Prod.fst
  distinct : modifiers.Nodup
  origin : Option Point
  via : List Point
  dest : Point

namespace DragReport

def points (report : DragReport) : List Point := report.origin.toList ++ report.via ++ [report.dest]

/-- `Dragged [from …] [via …]* to …` -/
def body (report : DragReport) : Text :=
  "Dragged".toList ++
    (match report.origin with
    | some origin => " from ".toList ++ pointReport origin
    | none => []) ++
    report.via.flatMap (fun point => " via ".toList ++ pointReport point) ++
    " to ".toList ++ pointReport report.dest

def sentence (report : DragReport) : Text := modifierLead report.modifiers ++ report.body

/-- The event, with the drag for what it reports. -/
def event (report : DragReport) (base : CommandEvent) : CommandEvent :=
  { base with actionType := "mouse", actionSubtype := "drag", rawCommand := String.ofList report.sentence }

end DragReport

end Sentence

section Scan

/-- What stands before a pair, with the clause it is for, and the pair. -/
structure Clause where
  head : Text
  clause : DragClause
  point : Point

def Clause.text (c : Clause) : Text := c.head ++ pointReport c.point

/-- The text begins with no digit, has no pair in it and is for the clause. -/
structure Heads (head : Text) (clause : DragClause) : Prop where
  apart : head.head?.all (fun d => !isNumeric d) = true
  started : head ≠ []
  pairless : 'X' ∉ head
  named : dragClause head = clause

def Clause.Plain (c : Clause) : Prop := Heads c.head c.clause

def DragState.read (s : DragState) (c : Clause) : DragState :=
  DragState.put { s with seen := s.seen + 1 } c.clause c.point

end Scan

section Report

variable (report : DragReport)

end Report

section Numbers

/-- The integers of a text, in order. -/
def numbers (text : Text) : List Int32 := (text.splitOnP fun c => !isNumeric c).filterMap parseI32

def coordinates (points : List Point) : List Int32 := points.flatMap fun point => [point.1, point.2]

/-- A pair between texts that have no digits. -/
structure Pairing where
  before : Text
  between : Text
  after : Text
  plain : ∀ c ∈ before ++ between ++ after, isNumeric c = false
  started : before ≠ []
  parted : between ≠ []

def Pairing.text (pairing : Pairing) (point : Point) : Text :=
  pairing.before ++ (displayI32 point.1 ++ (pairing.between ++ (displayI32 point.2 ++ pairing.after)))

variable (pairing : Pairing)

theorem head_plain {plain : Text} (hplain : ∀ c ∈ plain, isNumeric c = false) {rest : Text}
    (hrest : ∀ c, rest.head? = some c → isNumeric c = false) :
    ∀ c, (plain ++ rest).head? = some c → isNumeric c = false := by
  cases plain with
  | nil => exact hrest
  | cons d plain =>
    rintro c ⟨⟩
    exact hplain d List.mem_cons_self

end Numbers

section Outputs

end Outputs

section Conversion

variable (upper : Char → Text) (base : CommandEvent) (report : DragReport)

end Conversion

/-- The points of a drag, in order, are the numbers of both texts, and both have its modifiers. -/
structure Kept (report : DragReport) (mark human command : Text) : Prop where
  label : human = mark ++ dragLabel (modifierLead report.modifiers) ⟨report.origin, report.via, report.dest⟩
  replay : ∀ origin, report.origin = some origin →
    command = dragCommand (symbolsOf report.modifiers) origin report.via report.dest
  reported : report.origin = none → command = report.sentence
  labelled : numbers human = coordinates report.points
  replayed : numbers command = coordinates report.points

end MemoryArchive.Convert.Drags
