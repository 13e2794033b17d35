import MemoryArchive.Convert.Keyboard

namespace MemoryArchive.Convert.Modifiers

open Capture (Text CommandEvent)

section Reported

variable (event : CommandEvent)

def verb : Text := (splitSubtypeSymbols event.actionSubtype.toList).2

def names : List String := (splitMouseModifiers event.rawCommand.toList).1

def rest : Text := (splitMouseModifiers event.rawCommand.toList).2

/-- The symbols of the names before the action. -/
def named : Text := symbolsOf (names event)

/-- The symbols on the action of a command recorded as it was issued. -/
def issued : Text := (findAction (verb event) (rest event)).getD []

/-- The symbols that leaked into the subtype. -/
def leaked : Text := (splitSubtypeSymbols event.actionSubtype.toList).1

structure KnownAction : Prop where
  mouse : event.actionType = "mouse"
  known : verb event ∈ ("drag" :: pointerVerbs).map String.toList

/-- How the command of an event is made: from its position or its path, not at all, or as it was recorded. -/
inductive Replay
  | rebuilt | tooLong | verbatim

def replay : Replay :=
  if String.ofList (verb event) ∈ pointerVerbs then if event.positionCaptured then .rebuilt else .verbatim
  else
    match scanDragPath (rest event) with
    | .path ⟨some _, _, _⟩ => .rebuilt
    | .tooLong => .tooLong
    | _ => .verbatim

end Reported

section Readers

/-- The modifier names at the beginning of a label, behind the marker of a failed command. -/
def labelNames (event : CommandEvent) (label : Text) : List String :=
  (splitMouseModifiers (label.drop (failureMark event).length)).1

/-- The symbols on the action of a command. -/
def replaySymbols (subtype command : Text) : Text := (findAction subtype command).getD []

/-- The label names the keys of the command's symbols as the system does, and no symbol
that the event reports is missing from either. -/
structure Agree (osType : String) (reported : Text) (labelled : List String) (symbols : Text) : Prop where
  same : ∀ name, name ∈ labelled ↔ ∃ symbol ∈ symbols, modifierName symbol osType = some name
  kept : ∀ symbol ∈ reported, symbol ∈ symbols ∧ ∃ name ∈ labelled, modifierName symbol osType = some name

def Agrees (upper : Char → Text) (event : CommandEvent) : Prop :=
  Agree event.osType (named event ++ issued event ++ leaked event)
    (labelNames event (toHumanReadable upper event).toList)
    (replaySymbols (verb event) (toCcCommand event).toList)

end Readers

section Verbs

variable {event : CommandEvent}

theorem known_plain (h : KnownAction event) :
    (∀ c ∈ verb event, isSymbol c = false ∧ isNumeric c = false ∧ Lines.isWhiteSpace c = false) ∧
      verb event ≠ [] := by
  have htable : ∀ known ∈ ("drag" :: pointerVerbs).map String.toList,
      (∀ c ∈ known, isSymbol c = false ∧ isNumeric c = false ∧ Lines.isWhiteSpace c = false) ∧ known ≠ [] := by
    decide +kernel
  exact htable (verb event) h.known

theorem leaked_symbol : ∀ c ∈ leaked event, isSymbol c = true := fun _ hc => List.mem_takeWhile_imp hc

theorem symbol_dark {c : Char} (hc : isSymbol c = true) : Lines.isWhiteSpace c = false := by
  have htable : ∀ c ∈ ['#', '^', '+', '!'], Lines.isWhiteSpace c = false := by decide
  exact htable c (isSymbol_iff.mp hc)

/-- On the action itself its symbols are found. -/
theorem actionSymbols_own (subtype : Text) {symbols : Text} (hsymbols : ∀ c ∈ symbols, isSymbol c = true) :
    (actionSymbols subtype (symbols ++ subtype)).getD [] = symbols := by
  have hdrop : Lines.dropEnding subtype (symbols ++ subtype) = some symbols := Lines.dropEnding_eq_some.mpr rfl
  rw [actionSymbols, hdrop]
  by_cases hnone : symbols = []
  · simp [hnone]
  · have hall : symbols.all isSymbol = true := List.all_eq_true.mpr hsymbols
    simp [hnone, hall]

/-- The symbols of a command with one action between texts that have none. -/
theorem findAction_middle {subtype symbols front back : Text} (hsymbols : ∀ c ∈ symbols, isSymbol c = true)
    (hdark : ∀ c ∈ subtype, Lines.isWhiteSpace c = false) (hne : subtype ≠ [])
    (hfront : ∀ c ∈ front, isSymbol c = false) (hback : ∀ c ∈ back, isSymbol c = false)
    (hapart : back = [] ∨ back.head? = some ' ') :
    (findAction subtype (front ++ ' ' :: (symbols ++ subtype ++ back))).getD [] = symbols := by
  have htoken : ∀ c ∈ symbols ++ subtype, Lines.isWhiteSpace c = false := by
    intro c hc
    obtain hc | hc := List.mem_append.mp hc
    · exact symbol_dark (hsymbols c hc)
    · exact hdark c hc
  have hwords : Lines.words Lines.isWhiteSpace (symbols ++ subtype ++ back) =
      (symbols ++ subtype) :: Lines.words Lines.isWhiteSpace back := by
    have hfilled : symbols ++ subtype ≠ [] := by simp [hne]
    have hone := Lines.words_dark Lines.isWhiteSpace hfilled htoken
    obtain rfl | hhead := hapart
    · rw [List.append_nil, hone]
      rfl
    · obtain ⟨tail, rfl⟩ := List.head?_eq_some_iff.mp hhead
      have hempty : Lines.words Lines.isWhiteSpace (' ' :: tail) = Lines.words Lines.isWhiteSpace tail :=
        Lines.words_append Lines.isWhiteSpace rfl [] tail
      rw [Lines.words_append Lines.isWhiteSpace rfl, hone, hempty]
      rfl
  have hnone := findAction_plain hfront subtype
  have hlast := findAction_plain hback subtype
  rw [findAction] at hnone hlast
  rw [findAction, Lines.words_append Lines.isWhiteSpace rfl, hwords, List.findSome?_append, hnone, Option.none_or,
    List.findSome?_cons]
  have hown := actionSymbols_own subtype hsymbols
  cases haction : actionSymbols subtype (symbols ++ subtype) with
  | none =>
    rw [haction] at hown
    dsimp only
    rw [hlast]
    exact hown
  | some found =>
    rw [haction] at hown
    exact hown

end Verbs

section Replays

variable {event : CommandEvent}

theorem chosen_symbol : ∀ c ∈ Convert.commandSymbols event, isSymbol c = true := by
  rw [Convert.commandSymbols, chooseSymbols]
  split
  · exact leaked_symbol
  · exact symbolsOf_symbol _

theorem pairText_plain (point : Point) : ∀ c ∈ pairText point, isSymbol c = false := by
  rw [pairText, List.forall_mem_append, List.forall_mem_cons]
  exact ⟨displayI32_plain _, rfl, displayI32_plain _⟩

theorem pointerCommand_symbols (h : KnownAction event) (count : Option Int32) :
    replaySymbols (verb event) (pointerCommand event (Convert.commandSymbols event) (verb event) count) =
      Convert.commandSymbols event := by
  have hverb := known_plain h
  have hmiddle : ∀ back : Text, (∀ c ∈ back, isSymbol c = false) → (back = [] ∨ back.head? = some ' ') →
      (findAction (verb event) (pairText (event.mouseX, event.mouseY) ++
        ' ' :: (Convert.commandSymbols event ++ verb event ++ back))).getD [] = Convert.commandSymbols event :=
    fun back hback hapart => findAction_middle chosen_symbol (fun c hc => (hverb.1 c hc).2.2) hverb.2
      (pairText_plain _) hback hapart
  unfold replaySymbols pointerCommand
  rw [List.append_assoc, List.append_assoc, List.cons_append, ← List.append_assoc (Convert.commandSymbols event)]
  cases count with
  | none => exact hmiddle [] (fun c hc => absurd hc List.not_mem_nil) (.inl rfl)
  | some count => exact hmiddle _ (List.forall_mem_cons.mpr ⟨rfl, displayI32_plain count⟩) (.inr rfl)

theorem dragCommand_symbols {symbols : Text} (hsymbols : ∀ c ∈ symbols, isSymbol c = true) (origin : Point)
    (via : List Point) (dest : Point) :
    replaySymbols "drag".toList (dragCommand symbols origin via dest) = symbols := by
  have hwords : ∀ word ∈ [" via ", " to "], ∀ c ∈ word.toList, isSymbol c = false := by decide
  have hvia := hwords " via " (by decide)
  have hto := hwords " to " (by decide)
  have htail : ∀ c ∈ (if via = [] then ' ' :: pairText dest
      else via.flatMap (fun point => " via ".toList ++ pairText point) ++ " to ".toList ++ pairText dest),
      isSymbol c = false := by
    split
    · exact List.forall_mem_cons.mpr ⟨rfl, pairText_plain dest⟩
    · rw [List.forall_mem_append, List.forall_mem_append]
      refine ⟨⟨?_, hto⟩, pairText_plain dest⟩
      intro c hc
      obtain ⟨point, -, hmem⟩ := List.mem_flatMap.mp hc
      exact List.forall_mem_append.mpr ⟨hvia, pairText_plain point⟩ c hmem
  have hapart : (if via = [] then ' ' :: pairText dest
      else via.flatMap (fun point => " via ".toList ++ pairText point) ++ " to ".toList ++ pairText dest).head? =
      some ' ' := by
    cases via with
    | nil => rfl
    | cons point via => rfl
  unfold replaySymbols dragCommand
  rw [List.append_assoc, List.append_assoc, List.cons_append, ← List.append_assoc symbols]
  exact findAction_middle hsymbols (by decide) (by decide) (pairText_plain origin) htail (.inr hapart)

theorem known_drag (h : KnownAction event) (hverb : ¬ String.ofList (verb event) ∈ pointerVerbs) :
    verb event = "drag".toList := by
  have hknown := h.known
  rw [List.map_cons, List.mem_cons] at hknown
  obtain hdrag | hpointer := hknown
  · exact hdrag
  · obtain ⟨known, hmem, hlist⟩ := List.mem_map.mp hpointer
    rw [← hlist, String.ofList_toList] at hverb
    exact absurd hmem hverb

/-- The symbols of the command, by how it is made. -/
theorem replay_symbols (h : KnownAction event) :
    replaySymbols (verb event) (toCcCommand event).toList =
      match replay event with
      | .rebuilt => Convert.commandSymbols event
      | .tooLong => []
      | .verbatim => replaySymbols (verb event) (fallbackCommand event.rawCommand.toList) := by
  rw [toCcCommand_mouse h.mouse, ccMouse, replay]
  change replaySymbols (verb event) (if String.ofList (verb event) ∈ pointerVerbs then _ else
    if verb event = "drag".toList then _ else _) = _
  by_cases hverb : String.ofList (verb event) ∈ pointerVerbs
  · rw [if_pos hverb, if_pos hverb]
    split
    · exact pointerCommand_symbols h _
    · rfl
  · have hdrag := known_drag h hverb
    have hlong : replaySymbols "drag".toList ("drag ".toList ++ tooLongText) = [] := by decide +kernel
    rw [if_neg hverb, if_neg hverb, if_pos hdrag, hdrag]
    change replaySymbols "drag".toList (match scanDragPath (rest event) with
      | .path ⟨some origin, via, dest⟩ => dragCommand (Convert.commandSymbols event) origin via dest
      | .tooLong => "drag ".toList ++ tooLongText
      | _ => fallbackCommand event.rawCommand.toList) = _
    cases scanDragPath (rest event) with
    | tooLong => exact hlong
    | absent => rfl
    | path path =>
      obtain ⟨origin, via, dest⟩ := path
      cases origin with
      | none => rfl
      | some origin => exact dragCommand_symbols chosen_symbol origin via dest

end Replays

section Labels

variable (event : CommandEvent)

theorem labelPoint_plain (point : Point) : ∀ c ∈ labelPoint point, isSymbol c = false := by
  have hcomma : ∀ c ∈ ", ".toList, isSymbol c = false := by decide
  rw [labelPoint, List.forall_mem_append, List.forall_mem_append, List.forall_mem_append, List.forall_mem_cons]
  exact ⟨⟨⟨⟨rfl, displayI32_plain _⟩, hcomma⟩, displayI32_plain _⟩, by decide⟩

theorem actionLabel_plain (subtype : Text) : ∀ c ∈ actionLabel subtype, isSymbol c = false := by
  unfold actionLabel
  split
  iterate 14 decide
  rw [safeSubtype]
  split
  · rename_i hsafe
    intro c hc
    have htable : ∀ c ∈ ['#', '^', '+', '!'], (c.isAlphanum || c = '_' || c = '-') = false := by decide
    have hshape := List.all_eq_true.mp hsafe.2.2 c hc
    by_contra hsymbol
    rw [htable c (isSymbol_iff.mp (Bool.not_eq_false _ ▸ hsymbol))] at hshape
    cases hshape
  · decide

theorem actionText_plain (lead subtype : Text) (count : Option Int32) :
    ∃ body, actionText event lead subtype count = lead ++ body ∧ ∀ c ∈ body, isSymbol c = false := by
  have hcount : ∀ c ∈ countLabel count, isSymbol c = false := by
    rw [countLabel.eq_def]
    split
    · exact fun c hc => absurd hc List.not_mem_nil
    · split
      · decide
      · exact List.forall_mem_append.mpr ⟨List.forall_mem_cons.mpr ⟨rfl, displayI32_plain _⟩, by decide⟩
  have hcoords : ∀ c ∈ (if event.positionCaptured then " at ".toList ++ labelPoint (event.mouseX, event.mouseY)
      else []), isSymbol c = false := by
    split
    · exact List.forall_mem_append.mpr ⟨by decide, labelPoint_plain _⟩
    · exact fun c hc => absurd hc List.not_mem_nil
  rw [actionText, List.append_assoc, List.append_assoc]
  exact ⟨_, rfl, List.forall_mem_append.mpr
    ⟨actionLabel_plain subtype, List.forall_mem_append.mpr ⟨hcount, hcoords⟩⟩⟩

theorem dragLabel_plain (lead : Text) (path : DragPath) :
    ∃ body, dragLabel lead path = lead ++ body ∧ ∀ c ∈ body, isSymbol c = false := by
  have hwords : ∀ word ∈ ["Drag", " from ", " via ", " to "], ∀ c ∈ word.toList, isSymbol c = false := by decide
  have hdrag := hwords "Drag" (by decide)
  have hfrom := hwords " from " (by decide)
  have hvia := hwords " via " (by decide)
  have hto := hwords " to " (by decide)
  have hpoints : ∀ c ∈ path.via.flatMap (fun point => " via ".toList ++ labelPoint point), isSymbol c = false := by
    intro c hc
    obtain ⟨point, -, hmem⟩ := List.mem_flatMap.mp hc
    exact List.forall_mem_append.mpr ⟨hvia, labelPoint_plain point⟩ c hmem
  unfold dragLabel
  rw [List.append_assoc, List.append_assoc, List.append_assoc, List.append_assoc]
  refine ⟨_, rfl, ?_⟩
  rw [List.forall_mem_append, List.forall_mem_append, List.forall_mem_append, List.forall_mem_append]
  refine ⟨hdrag, ?_, hpoints, hto, labelPoint_plain _⟩
  split
  · exact List.forall_mem_append.mpr ⟨hfrom, labelPoint_plain _⟩
  · exact fun c hc => absurd hc List.not_mem_nil

/-- Behind the modifiers of a label comes no symbol. -/
theorem convertMouse_plain :
    ∃ body, convertMouse event = modifierLead (labelModifiers event) ++ body ∧ ∀ c ∈ body, isSymbol c = false := by
  have hplain : ∀ lead subtype rest, ∃ body, plainLabel event lead subtype rest = lead ++ body ∧
      ∀ c ∈ body, isSymbol c = false := by
    intro lead subtype rest
    have haction : actionLabel subtype ≠ [] := actionLabel_ne_nil subtype
    rw [plainLabel, if_neg haction]
    exact actionText_plain event lead subtype _
  rw [convertMouse]
  split
  · split
    · exact dragLabel_plain _ _
    · exact ⟨"Drag ".toList ++ tooLongText, List.append_assoc _ _ _, by decide +kernel⟩
    · exact hplain _ _ _
  · exact hplain _ _ _

/-- The names read from a label are its modifiers. -/
theorem labelNames_eq (upper : Char → Text) (hmouse : event.actionType = "mouse") :
    labelNames event (toHumanReadable upper event).toList = labelModifiers event := by
  obtain ⟨body, hbody, hplain⟩ := convertMouse_plain event
  have hplus : '+' ∉ body := fun hmem => absurd (hplain '+' hmem) (by decide)
  rw [labelNames, toList_toHumanReadable, List.drop_left, converted_mouse upper hmouse, hbody,
    splitMouseModifiers_lead (labelModifiers_known event) hplus]

end Labels

section Sources

variable {event : CommandEvent}

theorem findAction_some {subtype command symbols : Text} (h : findAction subtype command = some symbols) :
    symbols ≠ [] ∧ ∀ c ∈ symbols, isSymbol c = true := by
  obtain ⟨token, -, htoken⟩ := List.exists_of_findSome?_eq_some h
  rw [actionSymbols] at htoken
  split at htoken
  · split at htoken
    · rename_i hshape
      cases htoken
      exact ⟨hshape.1, List.all_eq_true.mp hshape.2⟩
    · cases htoken
  · cases htoken

theorem replaySymbols_symbol (subtype command : Text) : ∀ c ∈ replaySymbols subtype command, isSymbol c = true := by
  rw [replaySymbols]
  cases hfound : findAction subtype command with
  | none => exact fun c hc => absurd hc List.not_mem_nil
  | some symbols => exact (findAction_some hfound).2

theorem known_name : ∀ name ∈ names event, name ∈ mouseModifiers.map Prod.fst := splitModifiers_known _ _

theorem mem_named (symbol : Char) : symbol ∈ named event ↔ ∃ name ∈ names event, (name, symbol) ∈ mouseModifiers := by
  have htable : ∀ known ∈ mouseModifiers,
      (mouseModifiers.find? fun other => other.1 = known.1).map Prod.snd = some known.2 := by decide
  rw [named, symbolsOf, List.mem_filterMap]
  constructor
  · rintro ⟨name, hname, hsymbol⟩
    obtain ⟨known, hknown, rfl⟩ := List.mem_map.mp (known_name name hname)
    rw [htable known hknown] at hsymbol
    cases hsymbol
    exact ⟨known.1, hname, hknown⟩
  · rintro ⟨name, hname, hknown⟩
    exact ⟨name, hname, htable (name, symbol) hknown⟩

theorem named_nil : named event = [] ↔ names event = [] := by
  constructor
  · intro h
    by_contra hne
    obtain ⟨name, rest, hnames⟩ := List.exists_cons_of_ne_nil hne
    have hname : name ∈ names event := by simp [hnames]
    obtain ⟨known, hknown, rfl⟩ := List.mem_map.mp (known_name name hname)
    have hmem := (mem_named known.2).mpr ⟨known.1, hname, hknown⟩
    rw [h] at hmem
    cases hmem
  · intro h
    rw [named, h]
    rfl

/-- The symbols a label is made from. -/
def labelled (event : CommandEvent) : Text :=
  if names event = [] then if issued event = [] then leaked event else issued event else named event

theorem findAction_own (h : KnownAction event) {symbols : Text} (hsymbols : ∀ c ∈ symbols, isSymbol c = true)
    (hne : symbols ≠ []) : findAction (verb event) (symbols ++ verb event) = some symbols := by
  have hverb := known_plain h
  have hdark : ∀ c ∈ symbols ++ verb event, Lines.isWhiteSpace c = false := by
    intro c hc
    obtain hc | hc := List.mem_append.mp hc
    · exact symbol_dark (hsymbols c hc)
    · exact (hverb.1 c hc).2.2
  have hfilled : symbols ++ verb event ≠ [] := by simp [hne]
  have hall : symbols.all isSymbol = true := List.all_eq_true.mpr hsymbols
  have haction : actionSymbols (verb event) (symbols ++ verb event) = some symbols := by
    rw [actionSymbols, Lines.dropEnding_eq_some.mpr rfl]
    exact if_pos ⟨hne, hall⟩
  rw [findAction, Lines.words_dark _ hfilled hdark, List.findSome?_cons, haction]

/-- The modifiers of a label: the names before the action, or those of other symbols. -/
theorem labelModifiers_eq (h : KnownAction event) :
    labelModifiers event =
      if names event = [] then symbolNames event.osType (labelled event) else names event := by
  have hverb := (known_plain h).2
  rw [labelModifiers]
  change chooseModifiers event (leaked event) (verb event) (names event) (rest event) = _
  rw [chooseModifiers, labelled]
  by_cases hnames : names event = []
  · rw [if_pos hnames, if_pos hnames, if_pos hnames, modifiersFromCommandForm, if_neg hverb, issued]
    cases hfound : findAction (verb event) (rest event) with
    | some symbols =>
      obtain ⟨hne, hsymbols⟩ := findAction_some hfound
      dsimp only [Option.getD_some]
      rw [if_neg hne, if_neg fun hnone => symbolNames_ne_nil hne hsymbols _ hnone.1]
    | none =>
      dsimp only [Option.getD_none]
      rw [if_pos rfl]
      by_cases hleaked : leaked event = []
      · rw [if_neg fun hnone => hnone.2 hleaked, hleaked]
        rfl
      · have hsubtype : event.actionSubtype.toList = leaked event ++ verb event :=
          (List.takeWhile_append_dropWhile (p := isSymbol) (l := event.actionSubtype.toList)).symm
        rw [if_pos ⟨rfl, hleaked⟩, modifiersFromCommandForm, if_neg hverb, hsubtype,
          findAction_own h leaked_symbol hleaked]
  · rw [if_neg hnames, if_neg hnames, if_neg fun hnone => hnames hnone.1]

end Sources

section Verbatim

variable {event : CommandEvent}

theorem split_cases (raw : Text) :
    splitMouseModifiers raw = ([], raw) ∨ ∃ name boundary, name ∈ mouseModifiers.map Prod.fst ∧
      raw.take boundary = name.toList := by
  rw [splitMouseModifiers, splitModifiersFrom]
  split
  · exact .inl rfl
  · rename_i boundary hfind
    split
    · exact .inl rfl
    · rename_i name hknown
      have hhead := List.find?_some hknown
      exact .inr ⟨name, boundary, List.mem_of_find?_eq_some hknown, (of_decide_eq_true hhead).symm⟩

theorem rest_of_none (hnone : names event = []) : rest event = event.rawCommand.toList := by
  have hraw : ∀ fuel raw, (splitModifiersFrom fuel raw).1 = [] → (splitModifiersFrom fuel raw).2 = raw := by
    intro fuel raw h
    cases fuel with
    | zero => rfl
    | succ fuel =>
      rw [splitModifiersFrom] at h ⊢
      split at h
      · rfl
      · split at h
        · rfl
        · cases h
  exact hraw _ _ hnone

/-- A command with modifier names before it is not one that was recorded as it was issued. -/
theorem fallback_named (hnames : names event ≠ []) :
    fallbackCommand event.rawCommand.toList = event.rawCommand.toList := by
  have htable : ∀ name ∈ mouseModifiers.map Prod.fst, name.toList ≠ [] ∧ name.toList.head? ≠ some 'E' := by decide
  refine fallback_other fun hhead => ?_
  obtain hplain | ⟨name, boundary, hname, htake⟩ := split_cases event.rawCommand.toList
  · exact hnames (by rw [names, hplain])
  · cases boundary with
    | zero => exact (htable name hname).1 htake.symm
    | succ boundary =>
      have hfirst : (event.rawCommand.toList.take (boundary + 1)).head? = some 'E' := by
        rw [List.head?_take, if_neg (Nat.succ_ne_zero boundary), hhead]
      rw [htake] at hfirst
      exact (htable name hname).2 hfirst

theorem findAction_label (subtype back : Text) :
    findAction subtype ("Executed: ".toList ++ back) = findAction subtype back := by
  have hlabel : "Executed: ".toList ++ back = "Executed:".toList ++ ' ' :: back := by
    have hsplit : "Executed: ".toList = "Executed:".toList ++ [' '] := by decide
    rw [hsplit, List.append_assoc]
    rfl
  have hnone : findAction subtype "Executed:".toList = none := findAction_plain (by decide) subtype
  rw [findAction] at hnone
  rw [hlabel, findAction, Lines.words_append Lines.isWhiteSpace rfl, List.findSome?_append, hnone, Option.none_or,
    findAction]

/-- Without names the symbols of a command are read behind its label as before it. -/
theorem fallback_issued (hnone : names event = []) :
    replaySymbols (verb event) (fallbackCommand event.rawCommand.toList) = issued event := by
  rw [replaySymbols, issued, rest_of_none hnone, fallbackCommand]
  cases hdrop : Lines.dropBeginning "Executed: ".toList event.rawCommand.toList with
  | none => rfl
  | some back =>
    rw [Lines.dropBeginning_eq_some] at hdrop
    rw [hdrop, findAction_label, Option.getD_some]

end Verbatim

section Agreement

/-- The names before the action are those that the reporting system uses. -/
def OwnNames (event : CommandEvent) : Prop :=
  ∀ name ∈ names event, ∃ symbol, modifierName symbol event.osType = some name

/-- What an event reports of its modifiers is carried by both texts. Where the command is
rebuilt, the names before the action are all there is, or symbols on the action are those
that leaked into the subtype. Where the path is too long there are none. Where the command
is taken as it was recorded, there are no names, and its symbols are all there is. -/
def Consistent (event : CommandEvent) : Prop :=
  OwnNames event ∧
    match replay event with
    | .rebuilt =>
        if names event = [] then issued event = [] ∨ SameSymbols (issued event) (leaked event)
        else issued event ⊆ named event ∧ leaked event ⊆ named event
    | .tooLong => names event = [] ∧ issued event = [] ∧ leaked event = []
    | .verbatim =>
        if names event = [] then leaked event ⊆ issued event
        else SameSymbols (named event) (replaySymbols (verb event) event.rawCommand.toList) ∧
          issued event ⊆ named event ∧ leaked event ⊆ named event

variable {event : CommandEvent}

theorem issued_symbol : ∀ c ∈ issued event, isSymbol c = true := replaySymbols_symbol _ _

theorem labelled_symbol : ∀ c ∈ labelled event, isSymbol c = true := by
  rw [labelled]
  split
  · split
    · exact leaked_symbol
    · exact issued_symbol
  · exact symbolsOf_symbol _

/-- The names of a label are those of its symbols. -/
theorem label_named (h : KnownAction event) (hown : OwnNames event) (name : String) :
    name ∈ labelModifiers event ↔ ∃ symbol ∈ labelled event, modifierName symbol event.osType = some name := by
  rw [labelModifiers_eq h]
  by_cases hnames : names event = []
  · rw [if_pos hnames]
    exact (symbolNames_spec _ _).2 name
  · rw [if_neg hnames, labelled, if_neg hnames]
    constructor
    · intro hname
      obtain ⟨symbol, hsymbol⟩ := hown name hname
      exact ⟨symbol, (mem_named symbol).mpr ⟨name, hname, modifierName_known hsymbol⟩, hsymbol⟩
    · rintro ⟨symbol, hsymbol, hname⟩
      obtain ⟨other, hother, hknown⟩ := (mem_named symbol).mp hsymbol
      obtain ⟨own, howned⟩ := hown other hother
      have heq : own = symbol := mouseModifiers_symbol _ (modifierName_known howned) _ hknown rfl
      rw [heq, hname] at howned
      cases howned
      exact hother

/-- Label and command agree just when their symbols do and nothing that is reported is missing. -/
theorem agree_iff (h : KnownAction event) {reported symbols : Text} (hreported : ∀ c ∈ reported, isSymbol c = true)
    (hsymbols : ∀ c ∈ symbols, isSymbol c = true) :
    Agree event.osType reported (labelModifiers event) symbols ↔
      OwnNames event ∧ SameSymbols (labelled event) symbols ∧ reported ⊆ symbols := by
  constructor
  · intro hagree
    have hown : OwnNames event := by
      intro name hname
      have hnames : names event ≠ [] := List.ne_nil_of_mem hname
      have hlabel : name ∈ labelModifiers event := by
        rw [labelModifiers_eq h, if_neg hnames]
        exact hname
      obtain ⟨symbol, -, hsymbol⟩ := (hagree.same name).mp hlabel
      exact ⟨symbol, hsymbol⟩
    refine ⟨hown, ?_, fun symbol hmem => (hagree.kept symbol hmem).1⟩
    have hnamed : ∀ name, (∃ symbol ∈ labelled event, modifierName symbol event.osType = some name) ↔
        ∃ symbol ∈ symbols, modifierName symbol event.osType = some name :=
      fun name => (label_named h hown name).symm.trans (hagree.same name)
    exact fun symbol => ⟨subset_of_names labelled_symbol (fun name => (hnamed name).mp) symbol,
      subset_of_names hsymbols (fun name => (hnamed name).mpr) symbol⟩
  · rintro ⟨hown, hsame, hkept⟩
    refine ⟨?_, ?_⟩
    · intro name
      rw [label_named h hown]
      exact ⟨fun ⟨symbol, hmem, hname⟩ => ⟨symbol, (hsame symbol).mp hmem, hname⟩,
        fun ⟨symbol, hmem, hname⟩ => ⟨symbol, (hsame symbol).mpr hmem, hname⟩⟩
    · intro symbol hmem
      obtain ⟨name, hname⟩ := symbol_named (hreported symbol hmem) event.osType
      have hcommand := hkept hmem
      exact ⟨hcommand, name, (label_named h hown name).mpr ⟨symbol, (hsame symbol).mpr hcommand, hname⟩, hname⟩

theorem rebuilt_consistent :
    (if names event = [] then issued event = [] ∨ SameSymbols (issued event) (leaked event)
      else issued event ⊆ named event ∧ leaked event ⊆ named event) ↔
      SameSymbols (labelled event) (Convert.commandSymbols event) ∧
        named event ++ issued event ++ leaked event ⊆ Convert.commandSymbols event := by
  have hrebuilt : Convert.commandSymbols event = if named event = [] then leaked event else named event := rfl
  rw [hrebuilt, labelled]
  by_cases hnames : names event = []
  · rw [if_pos hnames, if_pos hnames, if_pos (named_nil.mpr hnames), named_nil.mpr hnames, List.nil_append]
    by_cases hissued : issued event = []
    · simp [hissued, SameSymbols]
    · rw [if_neg hissued, List.append_subset]
      constructor
      · rintro (hnone | hsame)
        · exact absurd hnone hissued
        · exact ⟨hsame, fun symbol hmem => (hsame symbol).mp hmem, List.Subset.refl _⟩
      · rintro ⟨hsame, -, -⟩
        exact .inr hsame
  · rw [if_neg hnames, if_neg hnames, if_neg fun hnone => hnames (named_nil.mp hnone), List.append_subset,
      List.append_subset]
    constructor
    · rintro ⟨hissued, hleaked⟩
      exact ⟨fun _ => Iff.rfl, ⟨List.Subset.refl _, hissued⟩, hleaked⟩
    · rintro ⟨-, ⟨-, hissued⟩, hleaked⟩
      exact ⟨hissued, hleaked⟩

theorem tooLong_consistent :
    (names event = [] ∧ issued event = [] ∧ leaked event = []) ↔
      SameSymbols (labelled event) [] ∧ named event ++ issued event ++ leaked event ⊆ [] := by
  rw [sameSymbols_nil, List.subset_nil, List.append_eq_nil_iff, List.append_eq_nil_iff, named_nil]
  constructor
  · rintro ⟨hnames, hissued, hleaked⟩
    refine ⟨?_, ⟨hnames, hissued⟩, hleaked⟩
    rw [labelled, if_pos hnames, if_pos hissued, hleaked]
  · rintro ⟨-, ⟨hnames, hissued⟩, hleaked⟩
    exact ⟨hnames, hissued, hleaked⟩

theorem verbatim_consistent :
    (if names event = [] then leaked event ⊆ issued event
      else SameSymbols (named event) (replaySymbols (verb event) event.rawCommand.toList) ∧
        issued event ⊆ named event ∧ leaked event ⊆ named event) ↔
      SameSymbols (labelled event) (replaySymbols (verb event) (fallbackCommand event.rawCommand.toList)) ∧
        named event ++ issued event ++ leaked event ⊆
          replaySymbols (verb event) (fallbackCommand event.rawCommand.toList) := by
  rw [labelled, List.append_subset, List.append_subset]
  by_cases hnames : names event = []
  · rw [if_pos hnames, if_pos hnames, fallback_issued hnames, named_nil.mpr hnames]
    constructor
    · intro hleaked
      refine ⟨?_, ⟨List.nil_subset _, List.Subset.refl _⟩, hleaked⟩
      split
      · rename_i hissued
        rw [hissued, List.subset_nil] at hleaked
        rw [hissued, hleaked]
        exact fun _ => Iff.rfl
      · exact fun _ => Iff.rfl
    · rintro ⟨-, -, hleaked⟩
      exact hleaked
  · rw [if_neg hnames, if_neg hnames, fallback_named hnames]
    constructor
    · rintro ⟨hsame, hissued, hleaked⟩
      have hnamed : named event ⊆ replaySymbols (verb event) event.rawCommand.toList :=
        fun symbol hmem => (hsame symbol).mp hmem
      exact ⟨hsame, ⟨hnamed, fun symbol hmem => hnamed (hissued hmem)⟩,
        fun symbol hmem => hnamed (hleaked hmem)⟩
    · rintro ⟨hsame, ⟨-, hissued⟩, hleaked⟩
      exact ⟨hsame, fun symbol hmem => (hsame symbol).mpr (hissued hmem),
        fun symbol hmem => (hsame symbol).mpr (hleaked hmem)⟩

theorem consistent_iff (h : KnownAction event) :
    Consistent event ↔ OwnNames event ∧
      SameSymbols (labelled event) (replaySymbols (verb event) (toCcCommand event).toList) ∧
      named event ++ issued event ++ leaked event ⊆ replaySymbols (verb event) (toCcCommand event).toList := by
  rw [Consistent, replay_symbols h]
  refine and_congr_right fun _ => ?_
  cases replay event with
  | rebuilt => exact rebuilt_consistent
  | tooLong => exact tooLong_consistent
  | verbatim => exact verbatim_consistent

end Agreement

/-- Label and command agree on the modifiers of just the consistent events. -/
theorem modifiers_agree_iff (upper : Char → Text) (event : CommandEvent) (h : KnownAction event) :
    Agrees upper event ↔ Consistent event := by
  have hreported : ∀ c ∈ named event ++ issued event ++ leaked event, isSymbol c = true := by
    rw [List.forall_mem_append, List.forall_mem_append]
    exact ⟨⟨symbolsOf_symbol _, issued_symbol⟩, leaked_symbol⟩
  rw [Agrees, labelNames_eq event upper h.mouse, agree_iff h hreported (replaySymbols_symbol _ _), consistent_iff h]

/-- A click recorded as it was issued. -/
def issuedClick (captured : Bool) : CommandEvent :=
  ⟨"", "", "", "MACOS", "", "Executed: 770 310 #left", "mouse", "left", false, true, "", 0, 770, 310, captured, false,
    true⟩

theorem issuedClick_known (captured : Bool) : KnownAction (issuedClick captured) :=
  ⟨rfl, by revert captured; decide +kernel⟩

theorem modifiers_agree_sample : KnownAction (issuedClick false) ∧ Agrees (fun c => [c.toUpper]) (issuedClick false) := by
  refine ⟨issuedClick_known false, (modifiers_agree_iff _ _ (issuedClick_known false)).mpr ?_⟩
  have hnames : names (issuedClick false) = [] := by decide +kernel
  have hreplay : replay (issuedClick false) = .verbatim := rfl
  have hleaked : leaked (issuedClick false) = [] := by decide +kernel
  refine ⟨?_, ?_⟩
  · rw [OwnNames, hnames]
    exact fun name hname => absurd hname List.not_mem_nil
  · rw [hreplay]
    dsimp only
    rw [if_pos hnames, hleaked]
    exact List.nil_subset _

/-- With its position captured, the command of the click has no modifier. -/
theorem modifiers_disagree :
    ¬ ∀ (upper : Char → Text) (event : CommandEvent), KnownAction event → Agrees upper event := by
  intro hagree
  have hclick := hagree (fun c => [c.toUpper]) (issuedClick true) (issuedClick_known true)
  have hissued : '#' ∈ issued (issuedClick true) := by decide +kernel
  have hmissing : '#' ∉ replaySymbols (verb (issuedClick true)) (toCcCommand (issuedClick true)).toList := by
    decide +kernel
  exact hmissing (hclick.kept '#' (by simp [hissued])).1

end MemoryArchive.Convert.Modifiers
