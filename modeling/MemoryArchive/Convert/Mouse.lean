import MemoryArchive.Convert.Scanners

namespace MemoryArchive.Convert

open Capture (Text CommandEvent)

section Labels

/-- The modifiers of a label: the names before the action, else the symbols of a command
recorded as it was issued, else symbols that leaked into the subtype. -/
def chooseModifiers (event : CommandEvent) (symbols subtype : Text) (modifiers : List String) (rest : Text) :
    List String :=
  let modifiers := if modifiers = [] then modifiersFromCommandForm rest subtype event.osType else modifiers
  if modifiers = [] ∧ symbols ≠ [] then
    modifiersFromCommandForm event.actionSubtype.toList subtype event.osType
  else modifiers

def labelModifiers (event : CommandEvent) : List String :=
  let (symbols, subtype) := splitSubtypeSymbols event.actionSubtype.toList
  let (modifiers, rest) := splitMouseModifiers event.rawCommand.toList
  chooseModifiers event symbols subtype modifiers rest

theorem labelModifiers_known (event : CommandEvent) :
    ∀ name ∈ labelModifiers event, name ∈ mouseModifiers.map Prod.fst := by
  have hnames := splitModifiers_known (event.rawCommand.toList.length + 1) event.rawCommand.toList
  rw [labelModifiers]
  dsimp only
  rw [chooseModifiers]
  by_cases hnone : (splitMouseModifiers event.rawCommand.toList).1 = []
  · rw [if_pos hnone]
    split
    · exact (commandForm_names _ _ _).2
    · exact (commandForm_names _ _ _).2
  · rw [if_neg hnone, if_neg fun h => hnone h.1]
    exact hnames

def modifierLead (modifiers : List String) : Text :=
  if modifiers = [] then [] else ['+'].intercalate (modifiers.map String.toList) ++ ['+']

theorem modifierLead_eq (modifiers : List String) :
    modifierLead modifiers = modifiers.flatMap fun name => name.toList ++ ['+'] := by
  induction modifiers with
  | nil => rfl
  | cons name modifiers ih =>
    rw [List.flatMap_cons, ← ih]
    cases modifiers with
    | nil => simp [modifierLead]
    | cons next modifiers => simp [modifierLead, List.intercalate_cons_of_ne_nil]

/-- The names that are put before a text with none of its own are split off it again. -/
theorem splitMouseModifiers_names {modifiers : List String}
    (hnames : ∀ name ∈ modifiers, name ∈ mouseModifiers.map Prod.fst) {body : Text}
    (hbody : ∀ fuel, splitModifiersFrom fuel body = ([], body)) :
    splitMouseModifiers (modifierLead modifiers ++ body) = (modifiers, body) := by
  have hfrom : ∀ fuel, modifiers.length < fuel →
      splitModifiersFrom fuel (modifierLead modifiers ++ body) = (modifiers, body) := by
    rw [modifierLead_eq]
    induction modifiers with
    | nil => exact fun fuel _ => hbody fuel
    | cons name modifiers ih =>
      intro fuel hfuel
      obtain ⟨hname, hrest⟩ := List.forall_mem_cons.mp hnames
      obtain ⟨fuel, rfl⟩ := Nat.exists_eq_succ_of_ne_zero (Nat.ne_zero_of_lt hfuel)
      have hplus : Lines.find ['+'] (name.toList ++ (['+'] ++
          (modifiers.flatMap (fun name => name.toList ++ ['+']) ++ body))) = some name.toList.length :=
        Lines.find_first '+' [] name.toList _ (modifier_plain hname)
      have hdrop : (name.toList ++ (['+'] ++ (modifiers.flatMap (fun name => name.toList ++ ['+']) ++ body))).drop
          (name.toList.length + 1) = modifiers.flatMap (fun name => name.toList ++ ['+']) ++ body := by
        rw [← List.append_assoc, List.drop_left' (by simp)]
      rw [List.flatMap_cons, List.append_assoc, List.append_assoc, splitModifiersFrom, hplus]
      dsimp only
      rw [List.take_left, knownModifier_of_mem hname]
      dsimp only
      rw [hdrop, ih hrest fuel (Nat.lt_of_succ_lt_succ hfuel)]
  refine hfrom _ ?_
  have hlong : modifiers.length ≤ (modifierLead modifiers).length := by
    rw [modifierLead_eq]
    clear hfrom hnames
    induction modifiers with
    | nil => exact Nat.zero_le _
    | cons name modifiers ih =>
      rw [List.flatMap_cons, List.length_append, List.length_append, List.length_cons, List.length_singleton]
      omega
  rw [List.length_append]
  omega

theorem splitMouseModifiers_lead {modifiers : List String}
    (hnames : ∀ name ∈ modifiers, name ∈ mouseModifiers.map Prod.fst) {body : Text} (hbody : '+' ∉ body) :
    splitMouseModifiers (modifierLead modifiers ++ body) = (modifiers, body) := by
  refine splitMouseModifiers_names hnames ?_
  intro fuel
  cases fuel with
  | zero => rfl
  | succ fuel => rw [splitModifiersFrom, Lines.find_none '+' [] body hbody]

def labelPoint (point : Point) : Text :=
  '(' :: displayI32 point.1 ++ ", ".toList ++ displayI32 point.2 ++ [')']

def dragLabel (lead : Text) (path : DragPath) : Text :=
  lead ++ "Drag".toList ++
    (match path.origin with
    | some origin => " from ".toList ++ labelPoint origin
    | none => []) ++
    path.via.flatMap (fun point => " via ".toList ++ labelPoint point) ++ " to ".toList ++ labelPoint path.dest

def tooLongText : Text :=
  "path of more than ".toList ++ Json.digits maxDragPoints ++ " points, not recorded".toList

def actionLabel (subtype : Text) : Text :=
  match String.ofList subtype with
  | "left" => "Left-click".toList
  | "click" => "Left-click".toList
  | "right" => "Right-click".toList
  | "double" => "Double-click".toList
  | "middle" => "Middle-click".toList
  | "triple" => "Triple-click".toList
  | "move" => "Move-cursor".toList
  | "scroll_up" => "Scroll-up".toList
  | "scroll_down" => "Scroll-down".toList
  | "scroll_left" => "Scroll-left".toList
  | "scroll_right" => "Scroll-right".toList
  | "drag" => "Drag".toList
  | "hold" => "Hold".toList
  | "release" => "Release".toList
  | _ => safeSubtype subtype

theorem actionLabel_ne_nil (subtype : Text) : actionLabel subtype ≠ [] := by
  unfold actionLabel
  split
  iterate 14 decide
  rw [safeSubtype]
  split
  · rename_i hsafe
    exact hsafe.2.1
  · decide

def countLabel : Option Int32 → Text
  | none => []
  | some count => if count = 1 then " 1 notch".toList else ' ' :: displayI32 count ++ " notches".toList

def actionText (event : CommandEvent) (lead subtype : Text) (count : Option Int32) : Text :=
  lead ++ actionLabel subtype ++ countLabel count ++
    if event.positionCaptured then " at ".toList ++ labelPoint (event.mouseX, event.mouseY) else []

/-- The label of an action that is no drag along a path. -/
def plainLabel (event : CommandEvent) (lead subtype rest : Text) : Text :=
  if actionLabel subtype = [] then event.rawCommand.toList
  else actionText event lead subtype (scanNotches rest)

def convertMouse (event : CommandEvent) : Text :=
  let subtype := (splitSubtypeSymbols event.actionSubtype.toList).2
  let rest := (splitMouseModifiers event.rawCommand.toList).2
  let lead := modifierLead (labelModifiers event)
  if subtype = "drag".toList then
    match scanDragPath rest with
    | .path path => dragLabel lead path
    | .tooLong => lead ++ "Drag ".toList ++ tooLongText
    | .absent => plainLabel event lead subtype rest
  else plainLabel event lead subtype rest

end Labels

section Commands

/-- The symbols of modifier names. -/
def symbolsOf (modifiers : List String) : Text :=
  modifiers.filterMap fun name => (mouseModifiers.find? fun known => known.1 = name).map Prod.snd

theorem symbolsOf_symbol (modifiers : List String) : ∀ c ∈ symbolsOf modifiers, isSymbol c = true := by
  have htable : ∀ known ∈ mouseModifiers, isSymbol known.2 = true := by decide
  intro c hc
  obtain ⟨name, -, hname⟩ := List.mem_filterMap.mp hc
  obtain ⟨known, hknown, rfl⟩ := Option.map_eq_some_iff.mp hname
  exact htable known (List.mem_of_find?_eq_some hknown)

/-- The symbols of the names before the action, else those that leaked into the subtype. -/
def chooseSymbols (leaked : Text) (modifiers : List String) : Text :=
  if symbolsOf modifiers = [] then leaked else symbolsOf modifiers

def commandSymbols (event : CommandEvent) : Text :=
  chooseSymbols (splitSubtypeSymbols event.actionSubtype.toList).1 (splitMouseModifiers event.rawCommand.toList).1

/-- The verbs whose command is a position and the verb. -/
def pointerVerbs : List String :=
  ["left", "click", "right", "double", "middle", "triple", "move", "scroll_up", "scroll_down",
    "scroll_left", "scroll_right", "hold", "release"]

/-- The command behind the label of one that was recorded as it was issued. -/
def fallbackCommand (raw : Text) : Text := (Lines.dropBeginning "Executed: ".toList raw).getD raw

theorem fallback_other {raw : Text} (h : raw.head? ≠ some 'E') : fallbackCommand raw = raw := by
  have hnone : Lines.dropBeginning "Executed: ".toList raw = none := by
    rw [Option.eq_none_iff_forall_ne_some]
    intro back hback
    rw [Lines.dropBeginning_eq_some] at hback
    exact h (congrArg List.head? hback)
  rw [fallbackCommand, hnone]
  rfl

def pairText (point : Point) : Text := displayI32 point.1 ++ ' ' :: displayI32 point.2

def pointerCommand (event : CommandEvent) (symbols subtype : Text) (count : Option Int32) : Text :=
  pairText (event.mouseX, event.mouseY) ++ ' ' :: symbols ++ subtype ++
    match count with
    | some count => ' ' :: displayI32 count
    | none => []

def dragCommand (symbols : Text) (origin : Point) (via : List Point) (dest : Point) : Text :=
  pairText origin ++ ' ' :: symbols ++ "drag".toList ++
    if via = [] then ' ' :: pairText dest
    else via.flatMap (fun point => " via ".toList ++ pairText point) ++ " to ".toList ++ pairText dest

def ccMouse (event : CommandEvent) : Text :=
  let subtype := (splitSubtypeSymbols event.actionSubtype.toList).2
  let rest := (splitMouseModifiers event.rawCommand.toList).2
  let symbols := commandSymbols event
  if String.ofList subtype ∈ pointerVerbs then
    if event.positionCaptured then pointerCommand event symbols subtype (scanNotches rest)
    else fallbackCommand event.rawCommand.toList
  else if subtype = "drag".toList then
    match scanDragPath rest with
    | .path ⟨some origin, via, dest⟩ => dragCommand symbols origin via dest
    | .tooLong => "drag ".toList ++ tooLongText
    | _ => fallbackCommand event.rawCommand.toList
  else fallbackCommand event.rawCommand.toList

end Commands

end MemoryArchive.Convert
