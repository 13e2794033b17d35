import MemoryArchive.Convert.Keyboard

namespace MemoryArchive.Convert.Keys

open Capture (Text CommandEvent)

inductive Platform
  | macos | linux | windows
  deriving DecidableEq

def Platform.osType : Platform → String
  | macos => "MACOS"
  | linux => "LINUX"
  | windows => "WINDOWS"

inductive KeyName
  | enter | backspace | delete | escape | tab | space | up | down | left | right | home | last | pageUp | pageDown
  | insert | capsLock | numLock | scrollLock | printScreen | pause | function (n : Fin 12)
  | volumeUp | volumeDown | mute | brightnessUp | playPause | leftWin | rightWin
  deriving DecidableEq

namespace KeyName

/-- The names under which the agent of a platform reports a key. -/
def natives (platform : Platform) : KeyName → List String
  | enter => if platform = .windows then ["Enter"] else ["Return"]
  | backspace =>
      match platform with
      | .macos => ["Delete"]
      | .linux => ["BackSpace"]
      | .windows => ["Backspace"]
  | delete => if platform = .macos then ["ForwardDelete"] else ["Delete"]
  | escape => ["Escape"]
  | tab => ["Tab"]
  | space => if platform = .linux then ["space"] else ["Space"]
  | up => ["Up"]
  | down => ["Down"]
  | left => ["Left"]
  | right => ["Right"]
  | home => ["Home"]
  | last => ["End"]
  | pageUp =>
      match platform with
      | .macos => ["Page_Up"]
      | .linux => ["Page_Up", "Prior"]
      | .windows => ["PgUp"]
  | pageDown =>
      match platform with
      | .macos => ["Page_Down"]
      | .linux => ["Page_Down", "Next"]
      | .windows => ["PgDn"]
  | insert => ["Insert"]
  | capsLock => ["CapsLock"]
  | numLock => ["NumLock"]
  | scrollLock => ["ScrollLock"]
  | printScreen => ["PrintScreen"]
  | pause => ["Pause"]
  | function n => ["F" ++ toString (n.val + 1)]
  | volumeUp => if platform = .linux then [] else ["VolumeUp"]
  | volumeDown => if platform = .linux then [] else ["VolumeDown"]
  | mute => if platform = .linux then [] else ["Mute"]
  | brightnessUp => if platform = .linux then [] else ["BrightnessUp"]
  | playPause => if platform = .linux then [] else ["PlayPause"]
  | leftWin => if platform = .windows then ["LWin"] else []
  | rightWin => if platform = .windows then ["RWin"] else []

/-- The name of a key in a command. -/
def command : KeyName → String
  | enter => "Enter"
  | backspace => "Backspace"
  | delete => "Del"
  | escape => "Esc"
  | tab => "Tab"
  | space => "Space"
  | up => "Up"
  | down => "Down"
  | left => "Left"
  | right => "Right"
  | home => "Home"
  | last => "End"
  | pageUp => "PgUp"
  | pageDown => "PgDn"
  | insert => "Insert"
  | capsLock => "CapsLock"
  | numLock => "NumLock"
  | scrollLock => "ScrollLock"
  | printScreen => "PrintScreen"
  | pause => "Pause"
  | function n => "F" ++ toString (n.val + 1)
  | volumeUp => "VolumeUp"
  | volumeDown => "VolumeDown"
  | mute => "Mute"
  | brightnessUp => "BrightnessUp"
  | playPause => "PlayPause"
  | leftWin => "LWin"
  | rightWin => "RWin"

/-- The label of a key. -/
def label : KeyName → String
  | enter => "Enter"
  | backspace => "Backspace"
  | delete => "Delete"
  | escape => "Escape"
  | tab => "Tab"
  | space => "Space"
  | up => "Up"
  | down => "Down"
  | left => "Left"
  | right => "Right"
  | home => "Home"
  | last => "End"
  | pageUp => "Page Up"
  | pageDown => "Page Down"
  | insert => "Insert"
  | capsLock => "Caps Lock"
  | numLock => "Num Lock"
  | scrollLock => "Scroll Lock"
  | printScreen => "Print Screen"
  | pause => "Pause"
  | function n => "F" ++ toString (n.val + 1)
  | volumeUp => "Volume Up"
  | volumeDown => "Volume Down"
  | mute => "Mute"
  | brightnessUp => "Brightness Up"
  | playPause => "Play/Pause"
  | leftWin | rightWin => "Win"

/-- The key that both tables take a native name for. -/
def taken (platform : Platform) (k : KeyName) : KeyName :=
  if platform ≠ .macos ∧ k = delete then backspace else k

def all : List KeyName :=
  [enter, backspace, delete, escape, tab, space, up, down, left, right, home, last, pageUp, pageDown, insert,
    capsLock, numLock, scrollLock, printScreen, pause, volumeUp, volumeDown, mute, brightnessUp, playPause, leftWin,
    rightWin] ++ (List.finRange 12).map function

theorem mem_all (k : KeyName) : k ∈ all := by
  cases k with
  | function n => exact List.mem_append_right _ (List.mem_map_of_mem (List.mem_finRange n))
  | _ => decide

end KeyName

section Tables

theorem humanize_name (name : String) :
    humanizeBareKey name.toList = ((bareKeyLabels.lookup name).getD name).toList := by
  rw [humanizeBareKey, String.ofList_toList]
  cases bareKeyLabels.lookup name with
  | none => rfl
  | some label => rfl

theorem normalize_name (name : String) :
    normalizeKey name.toList = inBraces ((ccKeyNames.lookup name).getD name).toList := by
  rw [normalizeKey, String.ofList_toList]
  cases ccKeyNames.lookup name with
  | none => rfl
  | some command => rfl

theorem native_read (platform : Platform) (k : KeyName) : ∀ name ∈ k.natives platform,
    humanizeBareKey name.toList = (k.taken platform).label.toList ∧
      normalizeKey name.toList = inBraces (k.taken platform).command.toList := by
  have htable : ∀ k ∈ KeyName.all, ∀ platform ∈ [Platform.macos, .linux, .windows], ∀ name ∈ k.natives platform,
      (bareKeyLabels.lookup name).getD name = (k.taken platform).label ∧
        (ccKeyNames.lookup name).getD name = (k.taken platform).command := by
    decide +kernel
  intro name hname
  obtain ⟨hlabel, hcommand⟩ := htable k k.mem_all platform (by cases platform <;> decide) name hname
  rw [humanize_name, normalize_name, hlabel, hcommand]
  exact ⟨rfl, rfl⟩

/-- A native name is one word, longer than a character, and begins no combination. -/
theorem native_plain (platform : Platform) (k : KeyName) : ∀ name ∈ k.natives platform,
    ' ' ∉ name.toList ∧ 2 ≤ name.toList.length ∧ isModifierCombo name.toList = false := by
  have htable : ∀ k ∈ KeyName.all, ∀ platform ∈ [Platform.macos, .linux, .windows], ∀ name ∈ k.natives platform,
      ' ' ∉ name.toList ∧ 2 ≤ name.toList.length ∧ isModifierCombo name.toList = false := by
    decide +kernel
  exact htable k k.mem_all platform (by cases platform <;> decide)

theorem command_read (k : KeyName) : humanizeBareKey k.command.toList = k.label.toList := by
  have htable : ∀ k ∈ KeyName.all, (bareKeyLabels.lookup k.command).getD k.command = k.label := by decide +kernel
  rw [humanize_name, htable k k.mem_all]

theorem command_plain (k : KeyName) :
    ' ' ∉ k.command.toList ∧ '+' ∉ k.command.toList ∧ 2 ≤ k.command.toList.length := by
  have htable : ∀ k ∈ KeyName.all, ' ' ∉ k.command.toList ∧ '+' ∉ k.command.toList ∧
      2 ≤ k.command.toList.length := by
    decide +kernel
  exact htable k k.mem_all

theorem label_plain (k : KeyName) :
    '+' ∉ k.label.toList ∧ 2 ≤ k.label.toList.length ∧ isModifierCombo k.label.toList = false := by
  have htable : ∀ k ∈ KeyName.all, '+' ∉ k.label.toList ∧ 2 ≤ k.label.toList.length ∧
      isModifierCombo k.label.toList = false := by
    decide +kernel
  exact htable k k.mem_all

/-- Two keys have one label only where they are the two keys of the same name. -/
theorem label_inj {first second : KeyName} (h : first.label = second.label) :
    first = second ∨ first = .leftWin ∧ second = .rightWin ∨ first = .rightWin ∧ second = .leftWin := by
  have htable : ∀ first ∈ KeyName.all, ∀ second ∈ KeyName.all, first.label = second.label →
      first = second ∨ first = .leftWin ∧ second = .rightWin ∨ first = .rightWin ∧ second = .leftWin := by
    decide +kernel
  exact htable first first.mem_all second second.mem_all h

theorem command_inj {first second : KeyName} (h : first.command = second.command) : first = second := by
  have hlabel : first.label = second.label := by
    rw [← String.toList_inj, ← command_read, ← command_read, h]
  obtain hsame | ⟨rfl, rfl⟩ | ⟨rfl, rfl⟩ := label_inj hlabel
  · exact hsame
  · simp [KeyName.command] at h
  · simp [KeyName.command] at h

end Tables

section Presses

/-- A key with a name, or one that writes a character. -/
inductive Key
  | named (k : KeyName)
  | character (c : Char)
  deriving DecidableEq

namespace Key

def natives (platform : Platform) : Key → List Text
  | named k => (k.natives platform).map String.toList
  | character c => if Lines.isWhiteSpace c then [] else [[c]]

def command : Key → Text
  | named k => k.command.toList
  | character c => [c]

def label : Key → Text
  | named k => k.label.toList
  | character c => [c]

/-- The key behind the symbols of a command. -/
def token : Key → Text
  | named k => inBraces k.command.toList
  | character c => [c]

def taken (platform : Platform) : Key → Key
  | named k => named (k.taken platform)
  | character c => character c

end Key

/-- A key with the symbols of the modifiers that are held with it. -/
structure Chord where
  symbols : Text
  key : Key

def Chord.Same (first second : Chord) : Prop := SameSymbols first.symbols second.symbols ∧ first.key = second.key

/-- The sign that macOS writes for a modifier. -/
def glyph (symbol : Char) : Char :=
  if symbol = '#' then '⌘' else if symbol = '^' then '⌃' else if symbol = '+' then '⇧' else '⌥'

/-- The names under which the agent of a platform reports a modifier. -/
def modifierNatives (platform : Platform) (symbol : Char) : List String :=
  if symbol = '^' then ["Ctrl", "Control"]
  else if symbol = '+' then ["Shift"]
  else if symbol = '!' then if platform = .macos then ["Option"] else ["Alt"]
  else if symbol = '#' then
    match platform with
    | .macos => ["Cmd", "Command"]
    | .linux => ["Super"]
    | .windows => ["Win"]
  else []

/-- A press that the agent of a platform can report, in each of the notations for chords. -/
inductive Press (platform : Platform)
  | bare (key : Key) (name : Text) (spelt : name ∈ key.natives platform)
  | symbols (marks : Text) (key : Key) (marked : ∀ c ∈ marks, isSymbol c = true) (held : marks ≠ [])
      (reported : key.natives platform ≠ [])
  | glyphs (marks : Text) (key : Key) (marked : ∀ c ∈ marks, isSymbol c = true) (held : marks ≠ [])
      (reported : key.natives platform ≠ []) (macos : platform = .macos)
  | held (modifiers : List (Char × String)) (key : Key) (name : Text)
      (known : ∀ modifier ∈ modifiers, modifier.2 ∈ modifierNatives platform modifier.1) (held : modifiers ≠ [])
      (spelt : name ∈ key.natives platform)
  | named (modifiers : List (Char × String)) (key : Key) (name : Text)
      (known : ∀ modifier ∈ modifiers, modifier.2 ∈ modifierNatives platform modifier.1) (held : modifiers ≠ [])
      (spelt : name ∈ key.natives platform)

namespace Press

variable {platform : Platform}

def chord : Press platform → Chord
  | bare key _ _ => ⟨[], key⟩
  | symbols marks key .. => ⟨marks, key⟩
  | glyphs marks key .. => ⟨marks, key⟩
  | held modifiers key .. => ⟨modifiers.map Prod.fst, key⟩
  | named modifiers key .. => ⟨modifiers.map Prod.fst, key⟩

/-- What the agent reports. -/
def text : Press platform → Text
  | bare _ name _ => name
  | symbols marks key .. => marks ++ key.token
  | glyphs marks key .. => marks.map glyph ++ key.token
  | held modifiers _ name .. =>
      modifiers.flatMap (fun modifier => inBraces (modifier.2.toList ++ " down".toList)) ++ name ++
        modifiers.reverse.flatMap fun modifier => inBraces (modifier.2.toList ++ " up".toList)
  | named modifiers _ name .. => modifierLead (modifiers.map Prod.snd) ++ name

/-- The event, with the press for what it reports. -/
def event (base : CommandEvent) (press : Press platform) : CommandEvent :=
  { base with
    osType := platform.osType
    actionType := "keyboard"
    actionSubtype := "press"
    rawCommand := String.ofList ("Pressed: ".toList ++ press.text) }

end Press

end Presses

section Readers

/-- The chord of a command: a key alone between braces, or symbols before a key. -/
inductive Commands : Chord → Text → Prop
  | bare (key : Key) : Commands ⟨[], key⟩ (inBraces key.command)
  | symbols (marks : Text) (key : Key) (marked : ∀ c ∈ marks, isSymbol c = true) (held : marks ≠ []) :
      Commands ⟨marks, key⟩ (marks ++ key.token)
  | glyphs (marks : Text) (key : Key) (marked : ∀ c ∈ marks, isSymbol c = true) (held : marks ≠ []) :
      Commands ⟨marks, key⟩ (marks.map glyph ++ key.token)

/-- The chord of a label: the names of its modifiers, or their signs, before the key. -/
inductive Labels (osType : String) : Chord → Text → Prop
  | names (names : List String) (chord : Chord)
      (named : ∀ name, name ∈ names ↔ ∃ symbol ∈ chord.symbols, modifierName symbol osType = some name) :
      Labels osType chord (modifierLead names ++ chord.key.label)
  | glyphs (chord : Chord) (held : chord.symbols ≠ []) :
      Labels osType chord (chord.symbols.map glyph ++ chord.key.token)

variable (upper : Char → Text) (base : CommandEvent) {platform : Platform}

/-- Command and label of a press denote one chord. -/
def Denoted (press : Press platform) : Prop :=
  ∃ chord command label, Commands chord command ∧ Labels platform.osType chord label ∧
    (toCcCommand (press.event base)).toList = "press ".toList ++ command ∧
    (toHumanReadable upper (press.event base)).toList = failureMark base ++ "Press: ".toList ++ label

/-- Two presses keep what tells them apart, and each of them what it is. -/
structure Kept (press other : Press platform) : Prop where
  commands : toCcCommand (press.event base) ≠ toCcCommand (other.event base)
  labels : toHumanReadable upper (press.event base) ≠ toHumanReadable upper (other.event base)
  first : Denoted upper base press
  second : Denoted upper base other

end Readers

section Condition

variable {platform : Platform}

/-- A key alone that begins no combination, or symbols before a key. -/
def Press.Sound : Press platform → Prop
  | bare (.character c) _ _ => c ∉ comboStarts
  | bare (.named _) _ _ | symbols .. | glyphs .. => True
  | held .. | named .. => False

/-- These are the two keys. -/
def Pair (one other : KeyName) (first second : Key) : Prop :=
  first = .named one ∧ second = .named other ∨ first = .named other ∧ second = .named one

/-- The two keys that both tables take for Backspace, or those that are both called Win. -/
def Collide (press other : Press platform) : Prop :=
  (platform ≠ .macos ∧ press.chord.symbols = [] ∧ other.chord.symbols = [] ∧
    Pair .backspace .delete press.chord.key other.chord.key) ∨
  (symbolNames platform.osType press.chord.symbols = symbolNames platform.osType other.chord.symbols ∧
    Pair .leftWin .rightWin press.chord.key other.chord.key)

end Condition

section Texts

theorem lookup_plain {table : List (String × String)} (htable : ∀ name ∈ table.map Prod.fst,
    '+' ∉ name.toList ∧ 2 ≤ name.toList.length ∧ isModifierCombo name.toList = false) {text : Text}
    (h : '+' ∈ text ∨ text.length < 2 ∨ isModifierCombo text = true) :
    table.lookup (String.ofList text) = none := by
  rw [List.lookup_eq_none_iff]
  intro entry hentry
  obtain ⟨hplus, hlong, hcombo⟩ := htable entry.1 (List.mem_map_of_mem hentry)
  rw [bne_iff_ne]
  intro heq
  rw [← heq, String.toList_ofList] at hplus hlong hcombo
  obtain h | h | h := h
  · exact hplus h
  · omega
  · rw [h] at hcombo
    cases hcombo

/-- The tables know no text with a sign, of one character or that begins a combination. -/
theorem bare_other {text : Text} (h : '+' ∈ text ∨ text.length < 2 ∨ isModifierCombo text = true) :
    humanizeBareKey text = text ∧ normalizeKey text = inBraces text := by
  have hlabels : ∀ name ∈ bareKeyLabels.map Prod.fst,
      '+' ∉ name.toList ∧ 2 ≤ name.toList.length ∧ isModifierCombo name.toList = false := by
    decide +kernel
  have hnames : ∀ name ∈ ccKeyNames.map Prod.fst,
      '+' ∉ name.toList ∧ 2 ≤ name.toList.length ∧ isModifierCombo name.toList = false := by
    decide +kernel
  constructor
  · rw [humanizeBareKey, lookup_plain hlabels h]
  · rw [normalizeKey, lookup_plain hnames h]

theorem token_ne_nil (key : Key) : key.token ≠ [] := by
  cases key with
  | named k => exact List.cons_ne_nil _ _
  | character c => exact List.cons_ne_nil _ _

theorem native_dark {platform : Platform} {key : Key} {name : Text} (h : name ∈ key.natives platform) :
    ' ' ∉ name := by
  cases key with
  | named k =>
    obtain ⟨own, hown, rfl⟩ := List.mem_map.mp h
    exact (native_plain platform k own hown).1
  | character c =>
    rw [Key.natives] at h
    split at h
    · cases h
    · rename_i hdark
      rw [List.mem_singleton] at h
      rw [h, List.mem_singleton]
      rintro rfl
      exact hdark rfl

theorem token_dark {platform : Platform} {key : Key} (h : key.natives platform ≠ []) : ' ' ∉ key.token := by
  cases key with
  | named k =>
    have hdark := (command_plain k).1
    simp [Key.token, inBraces, openBrace, closeBrace, hdark]
  | character c =>
    obtain ⟨name, hname⟩ := List.exists_mem_of_ne_nil _ h
    have hdark := native_dark hname
    rw [Key.natives] at hname
    split at hname
    · cases hname
    · rwa [List.mem_singleton.mp hname] at hdark

theorem humanizeKeyToken_token (key : Key) : humanizeKeyToken key.token = key.label := by
  cases key with
  | named k =>
    have hends : (inBraces k.command.toList).head? = some openBrace ∧
        (inBraces k.command.toList).getLast? = some closeBrace := ⟨rfl, List.getLast?_concat⟩
    rw [Key.token, humanizeKeyToken, if_pos hends]
    change humanizeBareKey (k.command.toList ++ [closeBrace]).dropLast = _
    rw [List.dropLast_concat, command_read]
    rfl
  | character c =>
    have hopen : ¬ (([c] : Text).head? = some openBrace ∧ ([c] : Text).getLast? = some closeBrace) := by
      rintro ⟨hhead, hlast⟩
      cases hhead
      cases hlast
    have hshort : ([c] : Text).length < 2 := Nat.one_lt_two
    rw [Key.token, humanizeKeyToken, if_neg hopen, (bare_other (.inr (.inl hshort))).1]
    rfl

theorem expandHeld_dark (upper : Char → Text) {text : Text} (h : ' ' ∉ text) : expandHeld upper text = text := by
  have hdown : contains (" down".toList ++ [closeBrace]) text = false := by
    rw [contains]
    exact congrArg Option.isSome (Lines.find_none ' ' ("down".toList ++ [closeBrace]) text h)
  have hup : contains (" up".toList ++ [closeBrace]) text = false := by
    rw [contains]
    exact congrArg Option.isSome (Lines.find_none ' ' ("up".toList ++ [closeBrace]) text h)
  rw [expandHeld, hdown, hup]
  rfl

/-- Every symbol before a token is read as the name of its modifier. -/
theorem chordFrom_symbols (osType : String) {marks token : Text} (hmarks : ∀ c ∈ marks, isSymbol c = true)
    (htoken : token ≠ []) (hlast : ∀ names, chordFrom osType names token = (names, token)) :
    chordFrom osType [] (marks ++ token) = (symbolNames osType marks, token) := by
  have hfrom : ∀ step : List String → Char → List String,
      (∀ names symbol name, modifierName symbol osType = some name →
        step names symbol = if name ∈ names then names else names ++ [name]) →
      ∀ names, chordFrom osType names (marks ++ token) = (marks.foldl step names, token) := by
    intro step hstep
    induction marks with
    | nil => exact hlast
    | cons symbol marks ih =>
      intro names
      obtain ⟨hsymbol, hrest⟩ := List.forall_mem_cons.mp hmarks
      obtain ⟨name, hname⟩ := symbol_named hsymbol osType
      obtain ⟨next, rest, hnext⟩ := List.exists_cons_of_ne_nil (List.append_ne_nil_of_right_ne_nil marks htoken)
      rw [List.foldl_cons, List.cons_append, hnext, chordFrom, hname]
      dsimp only
      rw [← hnext, ih hrest, hstep names symbol name hname]
  rw [symbolNames]
  refine hfrom _ ?_ []
  intro names symbol name hname
  rw [hname]

theorem chordFrom_token (osType : String) (names : List String) (key : Key) :
    chordFrom osType names key.token = (names, key.token) := by
  cases key with
  | named k =>
    rw [Key.token, inBraces, List.cons_append]
    obtain ⟨next, rest, hnext⟩ := List.exists_cons_of_ne_nil
      (List.append_ne_nil_of_right_ne_nil k.command.toList (List.cons_ne_nil closeBrace []))
    rw [hnext]
    rfl
  | character c => rfl

theorem chordFrom_other (osType : String) (names : List String) {text : Text}
    (h : ∀ c, text.head? = some c → modifierName c osType = none) : chordFrom osType names text = (names, text) := by
  unfold chordFrom
  split
  · rename_i symbol next rest
    rw [h symbol rfl]
  · rfl

theorem humanizeKeyToken_other {text : Text} (h : text.head? ≠ some openBrace) :
    humanizeKeyToken text = humanizeBareKey text := by
  rw [humanizeKeyToken, if_neg fun hends => h hends.1]

theorem combo_head {text : Text} (h : isModifierCombo text = false) :
    ∀ c, text.head? = some c → c ∉ comboStarts := by
  intro c hhead
  rw [isModifierCombo, hhead] at h
  simpa using h

theorem modifierName_other {c : Char} (h : c ∉ comboStarts) (osType : String) : modifierName c osType = none := by
  have hmarks : ∀ mark ∈ ['^', '+', '!', '#'], mark ∈ comboStarts := by decide
  have hother : ∀ mark ∈ ['^', '+', '!', '#'], c ≠ mark := fun mark hmark heq => h (heq ▸ hmarks mark hmark)
  rw [modifierName, if_neg (hother '^' (by decide)), if_neg (hother '+' (by decide)), if_neg (hother '!' (by decide)),
    if_neg (hother '#' (by decide))]

theorem glyph_combo (symbol : Char) :
    glyph symbol ∈ comboStarts ∧ glyph symbol ≠ openBrace ∧ isSymbol (glyph symbol) = false ∧
      ∀ osType, modifierName (glyph symbol) osType = none := by
  rw [glyph]
  split
  · exact ⟨by decide, by decide, rfl, fun _ => rfl⟩
  split
  · exact ⟨by decide, by decide, rfl, fun _ => rfl⟩
  split
  · exact ⟨by decide, by decide, rfl, fun _ => rfl⟩
  · exact ⟨by decide, by decide, rfl, fun _ => rfl⟩

end Texts

section Sound

variable (upper : Char → Text) {platform : Platform}

/-- What the tables take a native name for, where it begins no combination. -/
theorem native_taken {key : Key} {name : Text} (spelt : name ∈ key.natives platform)
    (hsound : ∀ c, key = .character c → c ∉ comboStarts) :
    isModifierCombo name = false ∧ humanizeBareKey name = (key.taken platform).label ∧
      normalizeKey name = inBraces (key.taken platform).command := by
  cases key with
  | named k =>
    obtain ⟨own, hown, rfl⟩ := List.mem_map.mp spelt
    exact ⟨(native_plain platform k own hown).2.2, native_read platform k own hown⟩
  | character c =>
    rw [Key.natives] at spelt
    split at spelt
    · cases spelt
    · obtain rfl := List.mem_singleton.mp spelt
      have hcombo : isModifierCombo [c] = false := by
        simpa [isModifierCombo] using hsound c rfl
      have hshort : ([c] : Text).length < 2 := Nat.one_lt_two
      exact ⟨hcombo, bare_other (.inr (.inl hshort))⟩

theorem humanizeKey_bare {key : Key} {name : Text} (spelt : name ∈ key.natives platform)
    (hsound : ∀ c, key = .character c → c ∉ comboStarts) :
    humanizeKey upper name platform.osType = (key.taken platform).label := by
  obtain ⟨hcombo, hlabel, -⟩ := native_taken spelt hsound
  have hhead := combo_head hcombo
  have hbrace : name.head? ≠ some openBrace := fun hopen => hhead openBrace hopen (by decide)
  rw [humanizeKey, expandHeld_dark upper (native_dark spelt)]
  dsimp only
  rw [chordFrom_other _ _ fun c hc => modifierName_other (hhead c hc) _]
  dsimp only
  rw [if_neg (fun hne => hne rfl), humanizeKeyToken_other hbrace, hlabel]

theorem humanizeKey_symbols {marks : Text} {key : Key} (marked : ∀ c ∈ marks, isSymbol c = true)
    (held : marks ≠ []) (reported : key.natives platform ≠ []) :
    humanizeKey upper (marks ++ key.token) platform.osType =
      modifierLead (symbolNames platform.osType marks) ++ key.label := by
  have hdark : ' ' ∉ marks ++ key.token := by
    rw [List.mem_append, not_or]
    exact ⟨fun hmem => absurd (marked ' ' hmem) (by decide), token_dark reported⟩
  have hnames := symbolNames_ne_nil held marked platform.osType
  rw [humanizeKey, expandHeld_dark upper hdark]
  dsimp only
  rw [chordFrom_symbols _ marked (token_ne_nil key) fun names => chordFrom_token _ names key]
  dsimp only
  rw [if_pos hnames, humanizeKeyToken_token, modifierLead, if_neg hnames, List.append_assoc]
  rfl

theorem humanizeKey_glyphs {marks : Text} {key : Key} (held : marks ≠ []) (reported : key.natives platform ≠ []) :
    humanizeKey upper (marks.map glyph ++ key.token) platform.osType = marks.map glyph ++ key.token := by
  obtain ⟨symbol, rest, rfl⟩ := List.exists_cons_of_ne_nil held
  obtain ⟨hcombo, hopen, -, hname⟩ := glyph_combo symbol
  have hdark : ' ' ∉ (symbol :: rest).map glyph ++ key.token := by
    rw [List.mem_append, not_or]
    refine ⟨?_, token_dark reported⟩
    rw [List.mem_map]
    rintro ⟨mark, -, hmark⟩
    exact absurd (hmark ▸ (glyph_combo mark).1) (by decide)
  rw [humanizeKey, expandHeld_dark upper hdark]
  dsimp only
  have hother : ∀ c, ((symbol :: rest).map glyph ++ key.token).head? = some c →
      modifierName c platform.osType = none := by
    intro c hc
    cases hc
    exact hname _
  have hbrace : ((symbol :: rest).map glyph ++ key.token).head? ≠ some openBrace :=
    fun hhead => hopen (Option.some.inj hhead)
  have hstart : isModifierCombo ((symbol :: rest).map glyph ++ key.token) = true := by
    rw [isModifierCombo]
    exact decide_eq_true hcombo
  rw [chordFrom_other _ _ hother]
  dsimp only
  rw [if_neg (fun hne => hne rfl), humanizeKeyToken_other hbrace, (bare_other (.inr (.inr hstart))).1]

end Sound

section Readings

/-- What stands behind the modifiers of a command. -/
def IsToken (text : Text) : Prop := (∃ c, text = [c]) ∨ ∃ name, text = inBraces name

theorem token_isToken (key : Key) : IsToken key.token := by
  cases key with
  | named k => exact .inr ⟨_, rfl⟩
  | character c => exact .inl ⟨c, rfl⟩

theorem inBraces_inj {name other : Text} (h : inBraces name = inBraces other) : name = other :=
  List.append_cancel_right (List.cons.inj h).2

/-- A token does not begin with the end of another one. -/
theorem char_ne_braces {front back : Text} {c : Char} {name : Text} (hfront : openBrace ∉ front) :
    front ++ [c] ≠ back ++ inBraces name := by
  intro h
  rw [inBraces, ← List.append_assoc] at h
  obtain ⟨hfronts, -⟩ := List.append_inj' h rfl
  exact hfront (by simp [hfronts])

theorem token_split {front back token other : Text} (hfront : openBrace ∉ front) (hback : openBrace ∉ back)
    (htoken : IsToken token) (hother : IsToken other) (h : front ++ token = back ++ other) :
    front = back ∧ token = other := by
  obtain ⟨c, rfl⟩ | ⟨name, rfl⟩ := htoken
  · obtain ⟨d, rfl⟩ | ⟨last, rfl⟩ := hother
    · exact List.append_inj' h rfl
    · exact absurd h (char_ne_braces hfront)
  · obtain ⟨d, rfl⟩ | ⟨last, rfl⟩ := hother
    · exact absurd h.symm (char_ne_braces hback)
    · have htake : ∀ (marks rest : Text), openBrace ∉ marks →
          (marks ++ openBrace :: rest).takeWhile (· ≠ openBrace) = marks := by
        intro marks rest hmarks
        have hall : ∀ c ∈ marks, decide (c ≠ openBrace) = true := fun c hc =>
          decide_eq_true fun heq => hmarks (heq ▸ hc)
        rw [List.takeWhile_append_of_pos hall]
        simp
      have hmarks := congrArg (List.takeWhile (· ≠ openBrace)) h
      rw [inBraces, inBraces, List.cons_append, List.cons_append, htake _ _ hfront, htake _ _ hback] at hmarks
      subst hmarks
      exact ⟨rfl, List.append_cancel_left h⟩

theorem command_length (key : Key) : key.command.length = 1 ∨ ' ' ∉ key.command ∧ '+' ∉ key.command := by
  cases key with
  | named k =>
    obtain ⟨hblank, hplus, -⟩ := command_plain k
    exact .inr ⟨hblank, hplus⟩
  | character c => exact .inl rfl

theorem key_command_inj {key other : Key} (h : key.command = other.command) : key = other := by
  cases key with
  | named k =>
    cases other with
    | named l => exact congrArg Key.named (command_inj (String.toList_inj.mp h))
    | character c =>
      have hlong := (command_plain k).2.2
      change k.command.toList = [c] at h
      rw [h] at hlong
      cases hlong with
      | step h => cases h
  | character c =>
    cases other with
    | named k =>
      have hlong := (command_plain k).2.2
      change [c] = k.command.toList at h
      rw [← h] at hlong
      cases hlong with
      | step h => cases h
    | character d =>
      cases h
      rfl

theorem token_inj {key other : Key} (h : key.token = other.token) : key = other := by
  cases key with
  | named k =>
    cases other with
    | named l => exact congrArg Key.named (command_inj (String.toList_inj.mp (inBraces_inj h)))
    | character c => simp [Key.token, inBraces] at h
  | character c =>
    cases other with
    | named k => simp [Key.token, inBraces] at h
    | character d =>
      cases h
      rfl

theorem glyph_inj {symbol other : Char} (hsymbol : isSymbol symbol = true) (hother : isSymbol other = true)
    (h : glyph symbol = glyph other) : symbol = other := by
  have htable : ∀ a ∈ ['#', '^', '+', '!'], ∀ b ∈ ['#', '^', '+', '!'], glyph a = glyph b → a = b := by decide
  exact htable symbol (isSymbol_iff.mp hsymbol) other (isSymbol_iff.mp hother) h

theorem map_glyph_inj {marks others : Text} (hmarks : ∀ c ∈ marks, isSymbol c = true)
    (hothers : ∀ c ∈ others, isSymbol c = true) (h : marks.map glyph = others.map glyph) : marks = others := by
  induction marks generalizing others with
  | nil => exact (List.map_eq_nil_iff.mp h.symm).symm
  | cons symbol marks ih =>
    cases others with
    | nil => cases h
    | cons other others =>
      obtain ⟨hsymbol, hrest⟩ := List.forall_mem_cons.mp hmarks
      obtain ⟨hother, htail⟩ := List.forall_mem_cons.mp hothers
      rw [List.map_cons, List.map_cons, List.cons.injEq] at h
      rw [glyph_inj hsymbol hother h.1, ih hrest htail h.2]

theorem symbols_unbraced {marks : Text} (hmarks : ∀ c ∈ marks, isSymbol c = true) : openBrace ∉ marks :=
  fun hmem => absurd (hmarks openBrace hmem) (by decide)

theorem glyphs_unbraced (marks : Text) : openBrace ∉ marks.map glyph := by
  rw [List.mem_map]
  rintro ⟨symbol, -, hopen⟩
  exact (glyph_combo symbol).2.1 hopen

/-- A symbol is no sign of a modifier. -/
theorem symbols_ne_glyphs {marks others : Text} (hmarks : ∀ c ∈ marks, isSymbol c = true) (held : marks ≠ []) :
    marks ≠ others.map glyph := by
  obtain ⟨symbol, rest, rfl⟩ := List.exists_cons_of_ne_nil held
  intro h
  have hmem : symbol ∈ others.map glyph := h ▸ List.mem_cons_self
  obtain ⟨other, -, rfl⟩ := List.mem_map.mp hmem
  have hsymbol := hmarks _ List.mem_cons_self
  rw [(glyph_combo other).2.2.1] at hsymbol
  cases hsymbol

/-- A command is read in one way. -/
theorem commands_unique {chord other : Chord} {text : Text} (h : Commands chord text) (hother : Commands other text) :
    chord = other := by
  have hbraces : ∀ key : Key, IsToken (inBraces key.command) := fun key => .inr ⟨_, rfl⟩
  have hnone : openBrace ∉ ([] : Text) := List.not_mem_nil
  have hunique : ∀ last, Commands other last → text = last → chord = other := by
    intro last hlast heq
    cases h with
    | bare key =>
      cases hlast with
      | bare key' => rw [key_command_inj (inBraces_inj heq)]
      | symbols marks key' marked held =>
        obtain ⟨hfronts, -⟩ := token_split hnone (symbols_unbraced marked) (hbraces key)
          (token_isToken key') heq
        exact absurd hfronts.symm held
      | glyphs marks key' marked held =>
        obtain ⟨hfronts, -⟩ := token_split hnone (glyphs_unbraced marks) (hbraces key)
          (token_isToken key') heq
        exact absurd (List.map_eq_nil_iff.mp hfronts.symm) held
    | symbols marks key marked held =>
      cases hlast with
      | bare key' =>
        obtain ⟨hfronts, -⟩ := token_split (symbols_unbraced marked) hnone (token_isToken key)
          (hbraces key') heq
        exact absurd hfronts held
      | symbols marks' key' marked' =>
        obtain ⟨rfl, htokens⟩ := token_split (symbols_unbraced marked) (symbols_unbraced marked') (token_isToken key)
          (token_isToken key') heq
        rw [token_inj htokens]
      | glyphs marks' key' =>
        obtain ⟨hfronts, -⟩ := token_split (symbols_unbraced marked) (glyphs_unbraced marks') (token_isToken key)
          (token_isToken key') heq
        exact absurd hfronts (symbols_ne_glyphs marked held)
    | glyphs marks key marked held =>
      cases hlast with
      | bare key' =>
        obtain ⟨hfronts, -⟩ := token_split (glyphs_unbraced marks) hnone (token_isToken key)
          (hbraces key') heq
        exact absurd (List.map_eq_nil_iff.mp hfronts) held
      | symbols marks' key' marked' held' =>
        obtain ⟨hfronts, -⟩ := token_split (glyphs_unbraced marks) (symbols_unbraced marked') (token_isToken key)
          (token_isToken key') heq
        exact absurd hfronts.symm (symbols_ne_glyphs marked' held')
      | glyphs marks' key' marked' =>
        obtain ⟨hfronts, htokens⟩ := token_split (glyphs_unbraced marks) (glyphs_unbraced marks') (token_isToken key)
          (token_isToken key') heq
        rw [map_glyph_inj marked marked' hfronts, token_inj htokens]
  exact hunique text hother rfl

theorem commands_long {chord : Chord} {text : Text} (h : Commands chord text) : 2 ≤ text.length := by
  have htoken : ∀ key : Key, 0 < key.token.length := fun key => List.length_pos_of_ne_nil (token_ne_nil key)
  cases h with
  | bare key =>
    rw [inBraces, List.length_append, List.length_cons, List.length_singleton]
    omega
  | symbols marks key marked held =>
    have hmarks := List.length_pos_of_ne_nil held
    have hkey := htoken key
    rw [List.length_append]
    omega
  | glyphs marks key marked held =>
    have hmarks := List.length_pos_of_ne_nil held
    have hkey := htoken key
    rw [List.length_append, List.length_map]
    omega

/-- A command that begins with a brace is a key alone. -/
theorem commands_braced {chord : Chord} {text : Text} (h : Commands chord (openBrace :: text)) :
    ∃ key : Key, text = key.command ++ [closeBrace] := by
  have hbraced : ∀ other, Commands chord other → openBrace :: text = other →
      ∃ key : Key, text = key.command ++ [closeBrace] := by
    intro other hother heq
    cases hother with
    | bare key => exact ⟨key, (List.cons.inj heq).2⟩
    | symbols marks key marked held =>
      obtain ⟨symbol, rest, rfl⟩ := List.exists_cons_of_ne_nil held
      have hsymbol := marked symbol List.mem_cons_self
      rw [← (List.cons.inj heq).1] at hsymbol
      cases hsymbol
    | glyphs marks key marked held =>
      obtain ⟨symbol, rest, rfl⟩ := List.exists_cons_of_ne_nil held
      exact absurd (List.cons.inj heq).1.symm (glyph_combo symbol).2.1
  exact hbraced _ h rfl

/-- The modifiers of a label and its key are read back. -/
theorem labels_read {names others : List String} {key other : Key}
    (hnames : ∀ name ∈ names, name ∈ mouseModifiers.map Prod.fst)
    (hothers : ∀ name ∈ others, name ∈ mouseModifiers.map Prod.fst)
    (h : modifierLead names ++ key.label = modifierLead others ++ other.label) :
    names = others ∧ key.label = other.label := by
  have hbody : ∀ (key : Key) (fuel : Nat), splitModifiersFrom fuel key.label = ([], key.label) := by
    intro key fuel
    cases fuel with
    | zero => rfl
    | succ fuel =>
      by_cases hplus : '+' ∈ key.label
      · cases key with
        | named k => exact absurd hplus (label_plain k).1
        | character c =>
          obtain rfl := List.mem_singleton.mp hplus
          rfl
      · rw [splitModifiersFrom, Lines.find_none '+' [] key.label hplus]
  have hread := congrArg splitMouseModifiers h
  rw [splitMouseModifiers_names hnames (hbody key), splitMouseModifiers_names hothers (hbody other),
    Prod.mk.injEq] at hread
  exact hread

/-- Two keys have one label only where they are the two keys of the same name. -/
theorem key_label_inj {key other : Key} (h : key.label = other.label) :
    key = other ∨ Pair .leftWin .rightWin key other := by
  have hlong : ∀ (k : KeyName) (c : Char), k.label.toList ≠ [c] := by
    intro k c heq
    have hlabel := (label_plain k).2.1
    rw [heq] at hlabel
    cases hlabel with
    | step h => cases h
  cases key with
  | named k =>
    cases other with
    | named l =>
      obtain rfl | ⟨rfl, rfl⟩ | ⟨rfl, rfl⟩ := label_inj (String.toList_inj.mp h)
      · exact .inl rfl
      · exact .inr (.inl ⟨rfl, rfl⟩)
      · exact .inr (.inr ⟨rfl, rfl⟩)
    | character c => exact absurd h (hlong k c)
  | character c =>
    cases other with
    | named k => exact absurd h.symm (hlong k c)
    | character d =>
      cases h
      exact .inl rfl

end Readings

section Denotation

variable (upper : Char → Text) (base : CommandEvent) {platform : Platform}

/-- The command of a key, behind its verb. -/
def pressCommand (text : Text) : Text := if isModifierCombo text then text else normalizeKey text

theorem press_raw (press : Press platform) :
    stripLabel "Pressed: " (press.event base).rawCommand.toList = press.text := by
  have hstrip : ∀ (label : String) (text : Text),
      stripLabel label (String.ofList (label.toList ++ text)).toList = text := by
    intro label text
    rw [stripLabel, String.toList_ofList, Lines.dropBeginning_eq_some.mpr rfl]
    rfl
  exact hstrip "Pressed: " press.text

theorem toCcCommand_press (press : Press platform) :
    (toCcCommand (press.event base)).toList = "press ".toList ++ pressCommand press.text := by
  rw [toCcCommand, String.toList_ofList]
  change "press ".toList ++ pressCommand (stripLabel "Pressed: " (press.event base).rawCommand.toList) = _
  rw [press_raw]

theorem toHumanReadable_press (press : Press platform) :
    (toHumanReadable upper (press.event base)).toList =
      failureMark base ++ "Press: ".toList ++ humanizeKey upper press.text platform.osType := by
  rw [toList_toHumanReadable, List.append_assoc]
  change failureMark base ++ ("Press: ".toList ++
    humanizeKey upper (stripLabel "Pressed: " (press.event base).rawCommand.toList) platform.osType) = _
  rw [press_raw]

theorem denoted_iff (press : Press platform) :
    Denoted upper base press ↔ ∃ chord, Commands chord (pressCommand press.text) ∧
      Labels platform.osType chord (humanizeKey upper press.text platform.osType) := by
  constructor
  · rintro ⟨chord, command, label, hcommand, hlabel, htext, hshown⟩
    rw [toCcCommand_press] at htext
    rw [toHumanReadable_press] at hshown
    rw [List.append_cancel_left htext, List.append_cancel_left hshown]
    exact ⟨chord, hcommand, hlabel⟩
  · rintro ⟨chord, hcommand, hlabel⟩
    exact ⟨chord, _, _, hcommand, hlabel, toCcCommand_press base press, toHumanReadable_press upper base press⟩

/-- The chord of a press as it is shown, a key alone as the tables take it. -/
def Press.shown (press : Press platform) : Chord :=
  ⟨press.chord.symbols,
    if press.chord.symbols = [] then press.chord.key.taken platform else press.chord.key⟩

def Press.isGlyphs : Press platform → Bool
  | glyphs .. => true
  | _ => false

theorem shown_held {press : Press platform} (h : press.chord.symbols ≠ []) : press.shown = press.chord := by
  rw [Press.shown, if_neg h]

theorem combo_of_head {text : Text} {c : Char} (hhead : text.head? = some c) (hc : c ∈ comboStarts) :
    pressCommand text = text := by
  have hcombo : isModifierCombo text = true := by
    rw [isModifierCombo, hhead]
    exact decide_eq_true hc
  rw [pressCommand, if_pos hcombo]

theorem symbol_start {symbol : Char} (h : isSymbol symbol = true) : symbol ∈ comboStarts := by
  have htable : ∀ c ∈ ['#', '^', '+', '!'], c ∈ comboStarts := by decide
  exact htable symbol (isSymbol_iff.mp h)

theorem symbols_command {marks : Text} (marked : ∀ c ∈ marks, isSymbol c = true) (held : marks ≠ []) (rest : Text) :
    pressCommand (marks ++ rest) = marks ++ rest := by
  obtain ⟨symbol, others, rfl⟩ := List.exists_cons_of_ne_nil held
  exact combo_of_head rfl (symbol_start (marked symbol List.mem_cons_self))

theorem glyphs_command {marks : Text} (held : marks ≠ []) (rest : Text) :
    pressCommand (marks.map glyph ++ rest) = marks.map glyph ++ rest := by
  obtain ⟨symbol, others, rfl⟩ := List.exists_cons_of_ne_nil held
  exact combo_of_head rfl (glyph_combo symbol).1

theorem sound_character {key : Key} {name : Text} {spelt : name ∈ key.natives platform}
    (h : (Press.bare key name spelt).Sound) : ∀ c, key = .character c → c ∉ comboStarts := by
  rintro c rfl
  exact h

theorem sound_command {press : Press platform} (h : press.Sound) :
    Commands press.shown (pressCommand press.text) := by
  cases press with
  | bare key name spelt =>
    obtain ⟨hcombo, -, hname⟩ := native_taken spelt (sound_character h)
    change Commands ⟨[], key.taken platform⟩ (pressCommand name)
    rw [pressCommand, hcombo, if_neg Bool.false_ne_true, hname]
    exact .bare _
  | symbols marks key marked held reported =>
    have hshown : (Press.symbols marks key marked held reported).shown = ⟨marks, key⟩ := shown_held held
    change Commands _ (pressCommand (marks ++ key.token))
    rw [hshown, symbols_command marked held]
    exact .symbols marks key marked held
  | glyphs marks key marked held reported macos =>
    have hshown : (Press.glyphs marks key marked held reported macos).shown = ⟨marks, key⟩ := shown_held held
    change Commands _ (pressCommand (marks.map glyph ++ key.token))
    rw [hshown, glyphs_command held]
    exact .glyphs marks key marked held
  | held => exact h.elim
  | named => exact h.elim

/-- Where it shows no signs, a label has the names of the modifiers before the key. -/
theorem sound_names {press : Press platform} (h : press.Sound) (hglyphs : press.isGlyphs = false) :
    humanizeKey upper press.text platform.osType =
      modifierLead (symbolNames platform.osType press.shown.symbols) ++ press.shown.key.label := by
  cases press with
  | bare key name spelt => exact humanizeKey_bare upper spelt (sound_character h)
  | symbols marks key marked held reported =>
    have hshown : (Press.symbols marks key marked held reported).shown = ⟨marks, key⟩ := shown_held held
    rw [hshown]
    exact humanizeKey_symbols upper marked held reported
  | glyphs => cases hglyphs
  | held => exact h.elim
  | named => exact h.elim

theorem sound_label {press : Press platform} (h : press.Sound) :
    Labels platform.osType press.shown (humanizeKey upper press.text platform.osType) := by
  by_cases hglyphs : press.isGlyphs = true
  · cases press with
    | glyphs marks key marked held reported macos =>
      have hshown : (Press.glyphs marks key marked held reported macos).shown = ⟨marks, key⟩ := shown_held held
      change Labels _ _ (humanizeKey upper (marks.map glyph ++ key.token) platform.osType)
      rw [hshown, humanizeKey_glyphs upper held reported]
      exact .glyphs _ held
    | _ => cases hglyphs
  · rw [sound_names upper h (Bool.not_eq_true _ ▸ hglyphs)]
    exact .names _ _ (symbolNames_spec _ _).2

end Denotation

section Unsound

variable {platform : Platform}

theorem modifierNatives_plain (platform : Platform) (symbol : Char) :
    ∀ name ∈ modifierNatives platform symbol, name.toList ≠ [] ∧ isModifierCombo name.toList = false := by
  unfold modifierNatives
  split
  · decide
  split
  · decide
  split
  · cases platform with
    | macos => decide
    | linux => decide
    | windows => decide
  split
  · cases platform with
    | macos => decide
    | linux => decide
    | windows => decide
  · exact fun name hname => absurd hname List.not_mem_nil

/-- A key with modifiers that are held down is written as it was reported. -/
theorem held_unsound {modifiers : List (Char × String)} (held : modifiers ≠ []) (rest : Text) (chord : Chord) :
    ¬ Commands chord (pressCommand
      (modifiers.flatMap (fun modifier => inBraces (modifier.2.toList ++ " down".toList)) ++ rest)) := by
  obtain ⟨modifier, others, rfl⟩ := List.exists_cons_of_ne_nil held
  rw [combo_of_head rfl (show openBrace ∈ comboStarts by decide), List.flatMap_cons]
  generalize others.flatMap (fun modifier => inBraces (modifier.2.toList ++ " down".toList)) = back
  intro h
  obtain ⟨key, hkey⟩ : ∃ key : Key, modifier.2.toList ++ " down".toList ++ [closeBrace] ++ back ++ rest =
      key.command ++ [closeBrace] := commands_braced h
  have hblank : ' ' ∈ key.command ++ [closeBrace] := by
    rw [← hkey]
    simp
  have hlength := congrArg List.length hkey
  simp only [List.length_append, List.length_singleton] at hlength
  have hdown : " down".toList.length = 5 := rfl
  obtain hone | ⟨hplain, -⟩ := command_length key
  · omega
  · obtain hmem | hmem := List.mem_append.mp hblank
    · exact hplain hmem
    · exact absurd hmem (by decide)

/-- A chord with names for its modifiers is put between braces as a whole. -/
theorem named_unsound {modifiers : List (Char × String)} (held : modifiers ≠ [])
    (known : ∀ modifier ∈ modifiers, modifier.2 ∈ modifierNatives platform modifier.1) (name : Text)
    (chord : Chord) : ¬ Commands chord (pressCommand (modifierLead (modifiers.map Prod.snd) ++ name)) := by
  obtain ⟨modifier, others, rfl⟩ := List.exists_cons_of_ne_nil held
  obtain ⟨hfilled, hstart⟩ := modifierNatives_plain platform _ _ (known modifier List.mem_cons_self)
  obtain ⟨c, first, hfirst⟩ := List.exists_cons_of_ne_nil hfilled
  rw [modifierLead_eq, List.map_cons, List.flatMap_cons]
  generalize (others.map Prod.snd).flatMap (fun name => name.toList ++ ['+']) = back
  have hplus : '+' ∈ modifier.2.toList ++ ['+'] ++ back ++ name := by simp
  have hcombo : isModifierCombo (modifier.2.toList ++ ['+'] ++ back ++ name) = false := by
    rw [hfirst] at hstart ⊢
    exact hstart
  rw [pressCommand, hcombo, if_neg Bool.false_ne_true, (bare_other (.inl hplus)).2]
  intro h
  obtain ⟨key, hkey⟩ := commands_braced h
  have hwhole : modifier.2.toList ++ ['+'] ++ back ++ name = key.command := List.append_cancel_right hkey
  have hlength := congrArg List.length hwhole
  simp only [hfirst, List.length_append, List.length_cons, List.length_nil] at hlength
  rw [hwhole] at hplus
  obtain hone | ⟨-, hplain⟩ := command_length key
  · omega
  · exact hplain hplus

theorem sound_of_commands {press : Press platform} {chord : Chord} (h : Commands chord (pressCommand press.text)) :
    press.Sound := by
  cases press with
  | bare key name spelt =>
    cases key with
    | named k => trivial
    | character c =>
      intro hstart
      rw [Key.natives] at spelt
      split at spelt
      · cases spelt
      · obtain rfl := List.mem_singleton.mp spelt
        have hlong := commands_long h
        rw [Press.text, combo_of_head rfl hstart] at hlong
        cases hlong with
        | step hle => cases hle
  | symbols => trivial
  | glyphs => trivial
  | held modifiers key name known held spelt =>
    rw [Press.text, List.append_assoc] at h
    exact held_unsound held _ chord h
  | named modifiers key name known held spelt => exact named_unsound held known name chord h

end Unsound

section Identity

variable {platform : Platform}

theorem taken_inj {key other : Key} (h : key.taken platform = other.taken platform) :
    key = other ∨ platform ≠ .macos ∧ Pair .backspace .delete key other := by
  cases key with
  | named k =>
    cases other with
    | named l =>
      have hnames : k.taken platform = l.taken platform := Key.named.inj h
      rw [KeyName.taken, KeyName.taken] at hnames
      split at hnames
      · rename_i hk
        split at hnames
        · rename_i hl
          exact .inl (by rw [hk.2, hl.2])
        · exact .inr ⟨hk.1, .inr ⟨by rw [hk.2], by rw [← hnames]⟩⟩
      · split at hnames
        · rename_i hl
          exact .inr ⟨hl.1, .inl ⟨by rw [hnames], by rw [hl.2]⟩⟩
        · exact .inl (congrArg Key.named hnames)
    | character c => cases h
  | character c =>
    cases other with
    | named l => cases h
    | character d => exact .inl h

variable {press other : Press platform}

/-- Presses that are shown as one chord are of one chord, or of the two keys taken for one. -/
theorem shown_same (hsymbols : SameSymbols press.chord.symbols other.chord.symbols)
    (hkey : press.shown.key = other.shown.key) : press.chord.Same other.chord ∨ Collide press other := by
  rw [Press.shown, Press.shown] at hkey
  by_cases hbare : press.chord.symbols = []
  · have hother : other.chord.symbols = [] := by
      rw [hbare] at hsymbols
      exact sameSymbols_nil.mp fun symbol => (hsymbols symbol).symm
    dsimp only at hkey
    rw [if_pos hbare, if_pos hother] at hkey
    obtain heq | ⟨hplatform, hpair⟩ := taken_inj hkey
    · exact .inl ⟨hsymbols, heq⟩
    · exact .inr (.inl ⟨hplatform, hbare, hother, hpair⟩)
  · have hother : other.chord.symbols ≠ [] := by
      intro hnone
      rw [hnone] at hsymbols
      exact hbare (sameSymbols_nil.mp hsymbols)
    dsimp only at hkey
    rw [if_neg hbare, if_neg hother] at hkey
    exact .inl ⟨hsymbols, hkey⟩

/-- A key is taken for one that is called Win only where it is that key. -/
theorem taken_win {key : Key} {k : KeyName} (hk : k = .leftWin ∨ k = .rightWin) :
    key.taken platform = .named k ↔ key = .named k := by
  cases key with
  | named l =>
    rw [Key.taken, Key.named.injEq, Key.named.injEq, KeyName.taken]
    split
    · rename_i hl
      rw [hl.2]
      obtain rfl | rfl := hk
      · decide
      · decide
    · rfl
  | character c => exact Iff.rfl

theorem shown_win {k : KeyName} (hk : k = .leftWin ∨ k = .rightWin) :
    press.shown.key = .named k ↔ press.chord.key = .named k := by
  rw [Press.shown]
  dsimp only
  split
  · exact taken_win hk
  · rfl

theorem shown_pair :
    Pair .leftWin .rightWin press.shown.key other.shown.key ↔
      Pair .leftWin .rightWin press.chord.key other.chord.key := by
  rw [Pair, Pair, shown_win (.inl rfl), shown_win (.inl rfl), shown_win (.inr rfl), shown_win (.inr rfl)]

variable (upper : Char → Text) (base : CommandEvent)

/-- Of sound presses of different chords the commands are the same only where the keys collide. -/
theorem commands_differ (hpress : press.Sound) (hother : other.Sound) (h : ¬ press.chord.Same other.chord)
    (hcollide : ¬ Collide press other) : pressCommand press.text ≠ pressCommand other.text := by
  intro heq
  have hread := sound_command hpress
  rw [heq] at hread
  have hshown := commands_unique hread (sound_command hother)
  have hsymbols : press.shown.symbols = other.shown.symbols := by rw [hshown]
  have hsame : SameSymbols press.chord.symbols other.chord.symbols := fun symbol => by
    change symbol ∈ press.shown.symbols ↔ symbol ∈ other.shown.symbols
    rw [hsymbols]
  obtain hchord | hpair := shown_same hsame (by rw [hshown])
  · exact h hchord
  · exact hcollide hpair

/-- Command and label of a chord with signs are what was reported. -/
theorem glyphs_text (h : press.isGlyphs = true) :
    pressCommand press.text = press.text ∧ humanizeKey upper press.text platform.osType = press.text ∧
      isModifierCombo press.text = true ∧ 2 ≤ press.text.length := by
  cases press with
  | glyphs marks key marked held reported macos =>
    have hstart : isModifierCombo (marks.map glyph ++ key.token) = true := by
      obtain ⟨symbol, others, rfl⟩ := List.exists_cons_of_ne_nil held
      exact decide_eq_true (glyph_combo symbol).1
    exact ⟨glyphs_command held _, humanizeKey_glyphs upper held reported, hstart,
      commands_long (.glyphs marks key marked held)⟩
  | _ => cases h

/-- A label with names begins as no combination does, unless it is one character. -/
theorem label_start {names : List String} {key : Key} (hnames : ∀ name ∈ names, name ∈ mouseModifiers.map Prod.fst)
    (h : isModifierCombo (modifierLead names ++ key.label) = true) : (modifierLead names ++ key.label).length = 1 := by
  cases names with
  | nil =>
    cases key with
    | named k =>
      have hplain := (label_plain k).2.2
      change isModifierCombo k.label.toList = true at h
      rw [hplain] at h
      cases h
    | character c => rfl
  | cons name names =>
    have htable : ∀ name ∈ mouseModifiers.map Prod.fst, name.toList ≠ [] ∧ isModifierCombo name.toList = false := by
      decide
    obtain ⟨hfilled, hplain⟩ := htable name (hnames name List.mem_cons_self)
    obtain ⟨c, rest, hname⟩ := List.exists_cons_of_ne_nil hfilled
    rw [hname] at hplain
    rw [modifierLead_eq, List.flatMap_cons, hname] at h
    change isModifierCombo (c :: rest) = true at h
    rw [hplain] at h
    cases h

theorem names_ne_glyphs (hpress : press.Sound) (hnames : press.isGlyphs = false) (hglyphs : other.isGlyphs = true) :
    humanizeKey upper press.text platform.osType ≠ humanizeKey upper other.text platform.osType := by
  intro heq
  obtain ⟨-, hlabel, hstart, hlong⟩ := glyphs_text upper hglyphs
  rw [sound_names upper hpress hnames, hlabel] at heq
  rw [← heq] at hstart hlong
  have hone := label_start (symbolNames_known _ _) hstart
  omega

theorem sound_symbols (h : press.Sound) : ∀ c ∈ press.chord.symbols, isSymbol c = true := by
  cases press with
  | bare => exact fun c hc => absurd hc List.not_mem_nil
  | symbols marks key marked => exact marked
  | glyphs marks key marked => exact marked
  | held => exact h.elim
  | named => exact h.elim

/-- Symbols with the same names are the same. -/
theorem names_same {osType : String} {marks others : Text} (hmarks : ∀ c ∈ marks, isSymbol c = true)
    (hothers : ∀ c ∈ others, isSymbol c = true) (h : symbolNames osType marks = symbolNames osType others) :
    SameSymbols marks others := by
  have hnamed : ∀ name, (∃ symbol ∈ marks, modifierName symbol osType = some name) ↔
      ∃ symbol ∈ others, modifierName symbol osType = some name := by
    intro name
    rw [← (symbolNames_spec osType marks).2 name, h, (symbolNames_spec osType others).2 name]
  exact fun symbol => ⟨subset_of_names hmarks (fun name => (hnamed name).mp) symbol,
    subset_of_names hothers (fun name => (hnamed name).mpr) symbol⟩

/-- The same of labels. -/
theorem labels_differ (hpress : press.Sound) (hother : other.Sound) (h : ¬ press.chord.Same other.chord)
    (hcollide : ¬ Collide press other) :
    humanizeKey upper press.text platform.osType ≠ humanizeKey upper other.text platform.osType := by
  cases hfirst : press.isGlyphs with
  | true =>
    cases hsecond : other.isGlyphs with
    | true =>
      obtain ⟨hcommand, hlabel, -⟩ := glyphs_text upper hfirst
      obtain ⟨hcommand', hlabel', -⟩ := glyphs_text upper hsecond
      have hdiffer := commands_differ hpress hother h hcollide
      rw [hcommand, hcommand'] at hdiffer
      rwa [hlabel, hlabel']
    | false => exact (names_ne_glyphs upper hother hsecond hfirst).symm
  | false =>
    cases hsecond : other.isGlyphs with
    | true => exact names_ne_glyphs upper hpress hfirst hsecond
    | false =>
      intro heq
      rw [sound_names upper hpress hfirst, sound_names upper hother hsecond] at heq
      obtain ⟨hnames, hlabels⟩ := labels_read (symbolNames_known _ _) (symbolNames_known _ _) heq
      obtain hkey | hpair := key_label_inj hlabels
      · have hsame := names_same (sound_symbols hpress) (sound_symbols hother) hnames
        obtain hchord | hpair := shown_same hsame hkey
        · exact h hchord
        · exact hcollide hpair
      · exact hcollide (.inr ⟨hnames, shown_pair.mp hpair⟩)

theorem bare_names (h : press.chord.symbols = []) : press.isGlyphs = false := by
  cases press with
  | glyphs marks key marked held => exact absurd h held
  | _ => rfl

/-- No key on macOS is called Win. -/
theorem win_names {k : KeyName} (hk : k = .leftWin ∨ k = .rightWin) (h : press.chord.key = .named k) :
    press.isGlyphs = false := by
  cases press with
  | glyphs marks key marked held reported macos =>
    obtain rfl : key = .named k := h
    rw [macos] at reported
    obtain rfl | rfl := hk
    · exact absurd rfl reported
    · exact absurd rfl reported
  | _ => rfl

/-- Keys that collide are shown under one label. -/
theorem collide_label (hpress : press.Sound) (hother : other.Sound) (h : Collide press other) :
    humanizeKey upper press.text platform.osType = humanizeKey upper other.text platform.osType := by
  obtain ⟨hplatform, hfirst, hsecond, hpair⟩ | ⟨hnames, hpair⟩ := h
  · have htaken : ∀ {press : Press platform}, press.chord.symbols = [] →
        press.chord.key = .named .backspace ∨ press.chord.key = .named .delete →
        press.shown = ⟨[], .named .backspace⟩ := by
      intro press hnone hkey
      rw [Press.shown, if_pos hnone, hnone]
      obtain hkey | hkey := hkey
      · rw [hkey, Key.taken, KeyName.taken, if_neg fun hboth => absurd hboth.2 (by decide)]
      · rw [hkey, Key.taken, KeyName.taken, if_pos ⟨hplatform, rfl⟩]
    rw [sound_names upper hpress (bare_names hfirst), sound_names upper hother (bare_names hsecond)]
    obtain ⟨hkey, hkey'⟩ | ⟨hkey, hkey'⟩ := hpair
    · rw [htaken hfirst (.inl hkey), htaken hsecond (.inr hkey')]
    · rw [htaken hfirst (.inr hkey), htaken hsecond (.inl hkey')]
  · have hglyphs : press.isGlyphs = false ∧ other.isGlyphs = false := by
      obtain ⟨hkey, hkey'⟩ | ⟨hkey, hkey'⟩ := hpair
      · exact ⟨win_names (.inl rfl) hkey, win_names (.inr rfl) hkey'⟩
      · exact ⟨win_names (.inr rfl) hkey, win_names (.inl rfl) hkey'⟩
    have hlabel : press.shown.key.label = other.shown.key.label := by
      obtain ⟨hkey, hkey'⟩ | ⟨hkey, hkey'⟩ := shown_pair.mpr hpair
      · rw [hkey, hkey']
        rfl
      · rw [hkey, hkey']
        rfl
    rw [sound_names upper hpress hglyphs.1, sound_names upper hother hglyphs.2, hlabel]
    exact congrArg (fun names => modifierLead names ++ other.shown.key.label) hnames

end Identity

/-- Two presses of different chords are kept apart, and each of them is kept as it is, just
when both are sound and their keys do not collide. -/
theorem presses_kept_iff (upper : Char → Text) (base : CommandEvent) {platform : Platform}
    (press other : Press platform) (h : ¬ press.chord.Same other.chord) :
    Kept upper base press other ↔ press.Sound ∧ other.Sound ∧ ¬ Collide press other := by
  constructor
  · intro hkept
    obtain ⟨chord, hcommand, -⟩ := (denoted_iff upper base press).mp hkept.first
    obtain ⟨chord', hcommand', -⟩ := (denoted_iff upper base other).mp hkept.second
    have hpress := sound_of_commands hcommand
    have hother := sound_of_commands hcommand'
    refine ⟨hpress, hother, fun hcollide => hkept.labels (String.toList_inj.mp ?_)⟩
    rw [toHumanReadable_press, toHumanReadable_press, collide_label upper hpress hother hcollide]
  · rintro ⟨hpress, hother, hcollide⟩
    refine ⟨?_, ?_, ?_, ?_⟩
    · intro heq
      have hlists := congrArg String.toList heq
      rw [toCcCommand_press, toCcCommand_press] at hlists
      exact commands_differ hpress hother h hcollide (List.append_cancel_left hlists)
    · intro heq
      have hlists := congrArg String.toList heq
      rw [toHumanReadable_press, toHumanReadable_press] at hlists
      exact labels_differ upper hpress hother h hcollide (List.append_cancel_left hlists)
    · exact (denoted_iff upper base press).mpr ⟨_, sound_command hpress, sound_label upper hpress⟩
    · exact (denoted_iff upper base other).mpr ⟨_, sound_command hother, sound_label upper hother⟩

/-- Return alone and `^c`, as the agent of Linux reports them. -/
def returnPress : Press .linux := .bare (.named .enter) "Return".toList (by decide)

def copyPress : Press .linux := .symbols ['^'] (.character 'c') (by decide) (by decide) (by decide)

def plainEvent : CommandEvent :=
  ⟨"", "", "", "LINUX", "", "", "keyboard", "press", false, true, "", 0, 0, 0, false, false, true⟩

theorem presses_kept_sample : ¬ returnPress.chord.Same copyPress.chord ∧
    Kept (fun c => [c.toUpper]) plainEvent returnPress copyPress := by
  have hdiffer : ¬ returnPress.chord.Same copyPress.chord := fun hsame => absurd hsame.2 (by decide)
  refine ⟨hdiffer, (presses_kept_iff _ _ returnPress copyPress hdiffer).mpr ⟨trivial, trivial, ?_⟩⟩
  rintro (⟨-, -, hheld, -⟩ | ⟨-, hpair⟩)
  · cases hheld
  · obtain ⟨hkey, -⟩ | ⟨hkey, -⟩ := hpair
    · cases hkey
    · cases hkey

def backspacePress : Press .linux := .bare (.named .backspace) "BackSpace".toList (by decide)

def deletePress : Press .linux := .bare (.named .delete) "Delete".toList (by decide)

/-- On Linux both tables take the two keys for one. -/
theorem presses_confused :
    ¬ ∀ (upper : Char → Text) (base : CommandEvent) (platform : Platform) (press other : Press platform),
      ¬ press.chord.Same other.chord → Kept upper base press other := by
  intro hkept
  have hdiffer : ¬ backspacePress.chord.Same deletePress.chord := fun hsame => absurd hsame.2 (by decide)
  have hdeletes := hkept (fun c => [c.toUpper]) plainEvent .linux backspacePress deletePress hdiffer
  refine hdeletes.commands (String.toList_inj.mp ?_)
  rw [toCcCommand_press, toCcCommand_press]
  decide +kernel

end MemoryArchive.Convert.Keys
