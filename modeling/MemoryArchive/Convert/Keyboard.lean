import MemoryArchive.Convert.Mouse

namespace MemoryArchive.Convert

open Capture (Text CommandEvent)

section Names

/-- The native names of bare keys, each with its label. -/
def bareKeyLabels : List (String × String) :=
  [("Return", "Enter"), ("Enter", "Enter"), ("Delete", "Backspace"), ("BackSpace", "Backspace"),
    ("Backspace", "Backspace"), ("ForwardDelete", "Delete"), ("Del", "Delete"), ("Escape", "Escape"),
    ("Esc", "Escape"), ("Tab", "Tab"), ("Space", "Space"), ("space", "Space"), ("Up", "Up"), ("Down", "Down"),
    ("Left", "Left"), ("Right", "Right"), ("Home", "Home"), ("End", "End"), ("Page_Up", "Page Up"),
    ("Prior", "Page Up"), ("PgUp", "Page Up"), ("Page_Down", "Page Down"), ("Next", "Page Down"),
    ("PgDn", "Page Down"), ("Insert", "Insert"), ("CapsLock", "Caps Lock"), ("NumLock", "Num Lock"),
    ("ScrollLock", "Scroll Lock"), ("PrintScreen", "Print Screen"), ("Pause", "Pause"), ("F1", "F1"),
    ("F2", "F2"), ("F3", "F3"), ("F4", "F4"), ("F5", "F5"), ("F6", "F6"), ("F7", "F7"), ("F8", "F8"),
    ("F9", "F9"), ("F10", "F10"), ("F11", "F11"), ("F12", "F12"), ("VolumeUp", "Volume Up"),
    ("VolumeDown", "Volume Down"), ("Mute", "Mute"), ("BrightnessUp", "Brightness Up"),
    ("PlayPause", "Play/Pause"), ("LWin", "Win"), ("RWin", "Win")]

def humanizeBareKey (key : Text) : Text :=
  match bareKeyLabels.lookup (String.ofList key) with
  | some label => label.toList
  | none => key

/-- The native names of bare keys, each with the name that stands between braces in a command. -/
def ccKeyNames : List (String × String) :=
  [("Return", "Enter"), ("Enter", "Enter"), ("Delete", "Backspace"), ("BackSpace", "Backspace"),
    ("Backspace", "Backspace"), ("ForwardDelete", "Del"), ("Escape", "Esc"), ("Tab", "Tab"), ("Space", "Space"),
    ("space", "Space"), ("Up", "Up"), ("Down", "Down"), ("Left", "Left"), ("Right", "Right"), ("Home", "Home"),
    ("End", "End"), ("Page_Up", "PgUp"), ("Prior", "PgUp"), ("PgUp", "PgUp"), ("Page_Down", "PgDn"),
    ("Next", "PgDn"), ("PgDn", "PgDn"), ("F1", "F1"), ("F2", "F2"), ("F3", "F3"), ("F4", "F4"), ("F5", "F5"),
    ("F6", "F6"), ("F7", "F7"), ("F8", "F8"), ("F9", "F9"), ("F10", "F10"), ("F11", "F11"), ("F12", "F12"),
    ("VolumeUp", "VolumeUp"), ("VolumeDown", "VolumeDown"), ("Mute", "Mute"),
    ("BrightnessUp", "BrightnessUp"), ("PlayPause", "PlayPause"), ("LWin", "LWin"), ("RWin", "RWin")]

def openBrace : Char := '\x7b'

def closeBrace : Char := '\x7d'

def inBraces (name : Text) : Text := openBrace :: name ++ [closeBrace]

def normalizeKey (key : Text) : Text :=
  match ccKeyNames.lookup (String.ofList key) with
  | some name => inBraces name.toList
  | none => inBraces key

end Names

section Chords

/-- Take an ending off a text as often as it has it. -/
def trimEnding (ending : Text) : Nat → Text → Text
  | 0, text => text
  | fuel + 1, text =>
      match Lines.dropEnding ending text with
      | some front => trimEnding ending fuel front
      | none => text

def heldName (modifier : Text) : Text :=
  match String.ofList modifier with
  | "Ctrl" | "Control" => "Ctrl".toList
  | "Shift" => "Shift".toList
  | "Cmd" | "Command" => "Cmd".toList
  | _ => modifier

/-- The modifier that a token between braces holds down. -/
def heldModifier (token : Text) : Option Text :=
  if " down".toList.isSuffixOf token then some (heldName (trimEnding " down".toList token.length token)) else none

/-- The loop over the braces of a key: the modifiers held down, and the text outside them. -/
def heldFrom : Nat → List Text → Text → Text → List Text × Text
  | 0, modifiers, base, _ => (modifiers, base)
  | fuel + 1, modifiers, base, remaining =>
      match Lines.find [openBrace] remaining with
      | none => (modifiers, base ++ remaining)
      | some start =>
          let before := remaining.take start
          let base := if before.all (· = ' ') then base else base ++ before
          -- The closing brace is looked for from the opening one on.
          match Lines.find [closeBrace] (remaining.drop start) with
          | none => (modifiers, base)
          | some offset =>
              let token := (remaining.drop (start + 1)).take (offset - 1)
              heldFrom fuel (modifiers ++ (heldModifier token).toList) base (remaining.drop (start + offset + 1))

def contains (pattern text : Text) : Bool := (Lines.find pattern text).isSome

/-- Rust's `str::to_uppercase` maps every character by itself. -/
def toUppercase (upper : Char → Text) (text : Text) : Text := text.flatMap upper

/-- A key with its modifiers held down and released in braces, written as a chord. -/
def expandHeld (upper : Char → Text) (key : Text) : Text :=
  if contains (" down".toList ++ [closeBrace]) key || contains (" up".toList ++ [closeBrace]) key then
    let (modifiers, base) := heldFrom (key.length + 1) [] [] key
    let base := humanizeBareKey (Lines.trim base)
    if modifiers = [] then base
    else ['+'].intercalate modifiers ++ '+' :: toUppercase upper base
  else key

/-- The names of the symbols before a key, each once, and the key. A last symbol is the key
itself, and so is a single character of several bytes, which is no symbol. -/
def chordFrom (osType : String) (names : List String) : Text → List String × Text
  | symbol :: next :: rest =>
      match modifierName symbol osType with
      | some name => chordFrom osType (if name ∈ names then names else names ++ [name]) (next :: rest)
      | none => (names, symbol :: next :: rest)
  | rest => (names, rest)

def humanizeKeyToken (key : Text) : Text :=
  if key.head? = some openBrace ∧ key.getLast? = some closeBrace then humanizeBareKey key.tail.dropLast
  else humanizeBareKey key

def humanizeKey (upper : Char → Text) (key : Text) (osType : String) : Text :=
  let expanded := expandHeld upper key
  let (names, rest) := chordFrom osType [] expanded
  if names ≠ [] then ['+'].intercalate (names.map String.toList) ++ '+' :: humanizeKeyToken rest
  else humanizeKeyToken expanded

/-- The characters a modifier combination in the format of commands begins with. -/
def comboStarts : Text := ['^', '+', '!', '#', '⌘', '⌃', '⇧', '⌥', openBrace]

def isModifierCombo (key : Text) : Bool := key.head?.any (· ∈ comboStarts)

end Chords

section Events

variable (upper : Char → Text)

def stripLabel (label : String) (raw : Text) : Text := (Lines.dropBeginning label.toList raw).getD raw

def convertKeyboard (event : CommandEvent) : Text :=
  let raw := event.rawCommand.toList
  match event.actionSubtype with
  | "type" => "Type: ".toList ++ stripLabel "Typed: " raw
  | "press" => "Press: ".toList ++ humanizeKey upper (stripLabel "Pressed: " raw) event.osType
  | other => "Keyboard: ".toList ++ other.toList ++ ' ' :: raw

def convertPosition (event : CommandEvent) : Text :=
  if event.positionCaptured then "Position query at ".toList ++ labelPoint (event.mouseX, event.mouseY)
  else "Position query: ".toList ++ event.rawCommand.toList

/-- The label of an event by its type, before the marker of failed ones. -/
def converted (event : CommandEvent) : Text :=
  match event.actionType with
  | "mouse" => convertMouse event
  | "keyboard" => convertKeyboard upper event
  | "position" => convertPosition event
  | _ => event.rawCommand.toList

def toHumanReadable (event : CommandEvent) : String :=
  String.ofList (if event.success then converted upper event else "[FAILED] ".toList ++ converted upper event)

def ccKeyboard (event : CommandEvent) : Text :=
  let raw := event.rawCommand.toList
  match event.actionSubtype with
  | "type" => "type ".toList ++ stripLabel "Typed: " raw
  | "press" =>
      let key := stripLabel "Pressed: " raw
      "press ".toList ++ if isModifierCombo key then key else normalizeKey key
  | _ => raw

def toCcCommand (event : CommandEvent) : String :=
  String.ofList (match event.actionType with
    | "mouse" => ccMouse event
    | "keyboard" => ccKeyboard event
    | "position" => "position".toList
    | _ => event.rawCommand.toList)

/-- What stands before the label of a command. -/
def failureMark (event : CommandEvent) : Text := if event.success then [] else "[FAILED] ".toList

theorem toList_toHumanReadable (event : CommandEvent) :
    (toHumanReadable upper event).toList = failureMark event ++ converted upper event := by
  rw [toHumanReadable, String.toList_ofList, failureMark]
  split <;> rfl

variable {event : CommandEvent}

theorem converted_mouse (h : event.actionType = "mouse") : converted upper event = convertMouse event := by
  simp [converted, h]

theorem toCcCommand_mouse (h : event.actionType = "mouse") : (toCcCommand event).toList = ccMouse event := by
  simp [toCcCommand, h]

end Events

end MemoryArchive.Convert
