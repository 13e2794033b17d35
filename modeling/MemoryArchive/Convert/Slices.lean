import MemoryArchive.Convert.Keyboard
import MemoryArchive.Text.Offsets

/-!
The converters with the offsets in bytes at which they cut their texts. There is no result
where a cut is not at a character, and none where a loop takes more turns than it is given.
-/

namespace MemoryArchive.Convert.Slices

open Capture (Text CommandEvent)

section Scanners

def splitModifiersFrom : Nat → Text → Option (List String × Text)
  | 0, _ => none
  | fuel + 1, rest =>
      match Lines.findOffset ['+'] rest with
      | none => some ([], rest)
      | some boundary =>
          (Lines.sliceTo rest boundary).bind fun head =>
            match knownModifier head with
            | none => some ([], rest)
            | some name =>
                (Lines.sliceFrom rest (boundary + 1)).bind fun rest =>
                  (splitModifiersFrom fuel rest).map fun split => (name :: split.1, split.2)

def splitMouseModifiers (raw : Text) : Option (List String × Text) := splitModifiersFrom (raw.length + 1) raw

def splitSubtypeSymbols (subtype : Text) : Option (Text × Text) :=
  let bare := subtype.dropWhile isSymbol
  (Lines.sliceTo subtype (Lines.byteLen subtype - Lines.byteLen bare)).map fun symbols => (symbols, bare)

def scanNotches (text : Text) : Option (Option Int32) :=
  match Lines.findOffset " notch".toList text with
  | none => some none
  | some at_ =>
      (Lines.sliceTo text at_).bind fun head =>
        let head := head.rdropWhile Lines.isWhiteSpace
        let digits := (Lines.charOffsets 0 head).reverse.takeWhile fun entry => entry.2.isDigit
        match (digits.map Prod.fst).getLast? with
        | none => some none
        | some start => (Lines.sliceFrom head start).map parseI32

def takeInt (text : Text) : Option (Option Int32 × Text) :=
  let last := (Lines.findChar (fun c => !isNumeric c) text).getD (Lines.byteLen text)
  (Lines.sliceTo text last).bind fun front =>
    (Lines.sliceFrom text last).map fun back => (parseI32 front, back)

def dragClause (head : Text) : DragClause :=
  let best := dragKeywords.foldl (fun (best : Option (Nat × DragClause)) (keyword, clause) =>
    match Lines.rfindOffset keyword head with
    | some at_ => if best.all fun seen => seen.1 ≤ at_ then some (at_, clause) else best
    | none => best) none
  match best with
  | some (_, clause) => clause
  | none => .bare

def scanDragFrom : Nat → DragState → Text → Option DragScan
  | 0, _, _ => none
  | fuel + 1, s, rest =>
      match Lines.findOffset "X=".toList rest with
      | none => some s.result
      | some xAt =>
          (Lines.sliceTo rest xAt).bind fun head =>
          (Lines.sliceFrom rest (xAt + 2)).bind fun rest =>
          (takeInt rest).bind fun (x, afterX) =>
            match Lines.findOffset "Y=".toList afterX with
            | none => some s.result
            | some yAt =>
                (Lines.sliceFrom afterX (yAt + 2)).bind fun rest =>
                (takeInt rest).bind fun (y, afterY) =>
                  match x, y with
                  | some x, some y =>
                      let s := { s with seen := s.seen + 1 }
                      if s.seen > maxDragPoints then some .tooLong
                      else scanDragFrom fuel (s.put (dragClause head) (x, y)) afterY
                  | _, _ => scanDragFrom fuel s afterY

def scanDragPath (text : Text) : Option DragScan := scanDragFrom (text.length + 1) {} text

end Scanners

section Keys

def heldFrom : Nat → List Text → Text → Text → Option (List Text × Text)
  | 0, _, _, _ => none
  | fuel + 1, modifiers, base, remaining =>
      match Lines.findOffset [openBrace] remaining with
      | none => some (modifiers, base ++ remaining)
      | some start =>
          (Lines.sliceTo remaining start).bind fun before =>
          let base := if before.all (· = ' ') then base else base ++ before
          (Lines.sliceFrom remaining start).bind fun braced =>
            match Lines.findOffset [closeBrace] braced with
            | none => some (modifiers, base)
            | some offset =>
                let last := start + offset
                (Lines.slice remaining (start + 1) last).bind fun token =>
                (Lines.sliceFrom remaining (last + 1)).bind fun remaining =>
                  heldFrom fuel (modifiers ++ (heldModifier token).toList) base remaining

def expandHeld (upper : Char → Text) (key : Text) : Option Text :=
  if contains (" down".toList ++ [closeBrace]) key || contains (" up".toList ++ [closeBrace]) key then
    (heldFrom (key.length + 1) [] [] key).map fun (modifiers, base) =>
      let base := humanizeBareKey (Lines.trim base)
      if modifiers = [] then base
      else ['+'].intercalate modifiers ++ '+' :: toUppercase upper base
  else some key

def chordFrom (osType : String) : Nat → List String → Text → Option (List String × Text)
  | 0, _, _ => none
  | fuel + 1, names, rest =>
      if Lines.byteLen rest < 2 then some (names, rest)
      else
        match rest.head? with
        | none => some (names, rest)
        | some symbol =>
            match modifierName symbol osType with
            | none => some (names, rest)
            | some name =>
                (Lines.sliceFrom rest symbol.utf8Size).bind fun rest =>
                  chordFrom osType fuel (if name ∈ names then names else names ++ [name]) rest

def humanizeKeyToken (key : Text) : Option Text :=
  if key.head? = some openBrace ∧ key.getLast? = some closeBrace then
    (Lines.slice key 1 (Lines.byteLen key - 1)).map humanizeBareKey
  else some (humanizeBareKey key)

def humanizeKey (upper : Char → Text) (key : Text) (osType : String) : Option Text :=
  (expandHeld upper key).bind fun expanded =>
  (chordFrom osType (expanded.length + 1) [] expanded).bind fun (names, rest) =>
    if names ≠ [] then
      (humanizeKeyToken rest).map fun token => ['+'].intercalate (names.map String.toList) ++ '+' :: token
    else humanizeKeyToken expanded

end Keys

section Events

variable (upper : Char → Text)

def plainLabel (event : CommandEvent) (lead subtype rest : Text) : Option Text :=
  if actionLabel subtype = [] then some event.rawCommand.toList
  else (scanNotches rest).map (actionText event lead subtype)

def convertMouse (event : CommandEvent) : Option Text :=
  (splitSubtypeSymbols event.actionSubtype.toList).bind fun (symbols, subtype) =>
  (splitMouseModifiers event.rawCommand.toList).bind fun (modifiers, rest) =>
    let lead := modifierLead (chooseModifiers event symbols subtype modifiers rest)
    if subtype = "drag".toList then
      (scanDragPath rest).bind fun scan =>
        match scan with
        | .path path => some (dragLabel lead path)
        | .tooLong => some (lead ++ "Drag ".toList ++ tooLongText)
        | .absent => plainLabel event lead subtype rest
    else plainLabel event lead subtype rest

def convertKeyboard (event : CommandEvent) : Option Text :=
  let raw := event.rawCommand.toList
  match event.actionSubtype with
  | "type" => some ("Type: ".toList ++ stripLabel "Typed: " raw)
  | "press" =>
      (humanizeKey upper (stripLabel "Pressed: " raw) event.osType).map ("Press: ".toList ++ ·)
  | other => some ("Keyboard: ".toList ++ other.toList ++ ' ' :: raw)

def converted (event : CommandEvent) : Option Text :=
  match event.actionType with
  | "mouse" => convertMouse event
  | "keyboard" => convertKeyboard upper event
  | "position" => some (convertPosition event)
  | _ => some event.rawCommand.toList

def toHumanReadable (event : CommandEvent) : Option String :=
  (converted upper event).map fun converted =>
    String.ofList (if event.success then converted else "[FAILED] ".toList ++ converted)

def ccMouse (event : CommandEvent) : Option Text :=
  (splitSubtypeSymbols event.actionSubtype.toList).bind fun (leaked, subtype) =>
  (splitMouseModifiers event.rawCommand.toList).bind fun (modifiers, rest) =>
  let symbols := chooseSymbols leaked modifiers
  (scanNotches rest).bind fun count =>
    if String.ofList subtype ∈ pointerVerbs then
      some (if event.positionCaptured then pointerCommand event symbols subtype count
        else fallbackCommand event.rawCommand.toList)
    else if subtype = "drag".toList then
      (scanDragPath rest).map fun scan =>
        match scan with
        | .path ⟨some origin, via, dest⟩ => dragCommand symbols origin via dest
        | .tooLong => "drag ".toList ++ tooLongText
        | _ => fallbackCommand event.rawCommand.toList
    else some (fallbackCommand event.rawCommand.toList)

def toCcCommand (event : CommandEvent) : Option String :=
  match event.actionType with
  | "mouse" => (ccMouse event).map String.ofList
  | "keyboard" => some (String.ofList (ccKeyboard event))
  | "position" => some "position"
  | _ => some event.rawCommand

end Events

section ScannersAgree

theorem splitModifiersFrom_eq (fuel : Nat) (rest : Text) (hfuel : rest.length < fuel) :
    splitModifiersFrom fuel rest = some (Convert.splitModifiersFrom fuel rest) := by
  induction fuel generalizing rest with
  | zero => exact absurd hfuel (Nat.not_lt_zero _)
  | succ fuel ih =>
    rw [splitModifiersFrom, Convert.splitModifiersFrom, Lines.findOffset_eq]
    cases hfind : Lines.find ['+'] rest with
    | none => rfl
    | some boundary =>
      have hafter : Lines.sliceFrom rest (Lines.byteLen (rest.take boundary) + 1) =
          some (rest.drop (boundary + 1)) := Lines.sliceFrom_found hfind
      dsimp only [Option.map_some]
      rw [Lines.sliceTo_take, Option.bind_some]
      cases knownModifier (rest.take boundary) with
      | none => rfl
      | some name =>
        dsimp only
        rw [hafter, Option.bind_some, ih]
        · rfl
        · have hsplit := (Lines.find_split hfind).2
          rw [List.length_singleton] at hsplit
          rw [List.length_drop]
          omega

theorem splitMouseModifiers_eq (raw : Text) : splitMouseModifiers raw = some (Convert.splitMouseModifiers raw) :=
  splitModifiersFrom_eq _ raw (Nat.lt_succ_self _)

theorem splitSubtypeSymbols_eq (subtype : Text) :
    splitSubtypeSymbols subtype = some (Convert.splitSubtypeSymbols subtype) := by
  have hsplit := List.takeWhile_append_dropWhile (p := isSymbol) (l := subtype)
  have hlen : Lines.byteLen subtype - Lines.byteLen (subtype.dropWhile isSymbol) =
      Lines.byteLen (subtype.takeWhile isSymbol) := by
    have hsum := Lines.byteLen_append (subtype.takeWhile isSymbol) (subtype.dropWhile isSymbol)
    rw [hsplit] at hsum
    omega
  have htake := Lines.sliceTo_append (subtype.takeWhile isSymbol) (subtype.dropWhile isSymbol)
  rw [hsplit] at htake
  rw [splitSubtypeSymbols, hlen, htake]
  rfl

theorem scanNotches_eq (text : Text) : scanNotches text = some (Convert.scanNotches text) := by
  rw [scanNotches, Convert.scanNotches, Lines.findOffset_eq]
  cases Lines.find " notch".toList text with
  | none => rfl
  | some at_ =>
    dsimp only [Option.map_some]
    rw [Lines.sliceTo_take, Option.bind_some]
    generalize (text.take at_).rdropWhile Lines.isWhiteSpace = head
    by_cases hnone : head.rtakeWhile Char.isDigit = []
    · rw [Lines.none_rtakeWhile Char.isDigit head hnone, if_pos hnone]
      rfl
    · have hlast := Lines.last_rtakeWhile Char.isDigit head hnone
      have hfrom := Lines.sliceFrom_append (head.rdropWhile Char.isDigit) (head.rtakeWhile Char.isDigit)
      rw [List.rdropWhile_append_rtakeWhile] at hfrom
      rw [hlast, if_neg hnone]
      dsimp only
      rw [hfrom]
      rfl

theorem takeInt_eq (text : Text) : takeInt text = some (Convert.takeInt text) := by
  have hlast : (Lines.findChar (fun c => !isNumeric c) text).getD (Lines.byteLen text) =
      Lines.byteLen (text.takeWhile isNumeric) := by
    rw [Lines.findChar_eq]
    simp only [Bool.not_not]
  have hsplit := List.takeWhile_append_dropWhile (p := isNumeric) (l := text)
  have hto := Lines.sliceTo_append (text.takeWhile isNumeric) (text.dropWhile isNumeric)
  have hfrom := Lines.sliceFrom_append (text.takeWhile isNumeric) (text.dropWhile isNumeric)
  rw [hsplit] at hto hfrom
  rw [takeInt, hlast, hto, hfrom]
  rfl

/-- The nearest keyword is the same in bytes as in characters. -/
theorem dragClause_eq (head : Text) : dragClause head = Convert.dragClause head := by
  have hfold : ∀ keywords : List (Text × DragClause), ∀ best : Option (Nat × DragClause),
      (∀ seen ∈ best, seen.1 ≤ head.length) →
      keywords.foldl (fun (best : Option (Nat × DragClause)) (keyword, clause) =>
        match Lines.rfindOffset keyword head with
        | some at_ => if best.all fun seen => seen.1 ≤ at_ then some (at_, clause) else best
        | none => best) (best.map fun seen => (Lines.byteLen (head.take seen.1), seen.2)) =
      (keywords.foldl (fun (best : Option (Nat × DragClause)) (keyword, clause) =>
        match Lines.rfind keyword head with
        | some at_ => if best.all fun seen => seen.1 ≤ at_ then some (at_, clause) else best
        | none => best) best).map fun seen => (Lines.byteLen (head.take seen.1), seen.2) := by
    intro keywords
    induction keywords with
    | nil => exact fun best _ => rfl
    | cons entry keywords ih =>
      obtain ⟨keyword, clause⟩ := entry
      intro best hbest
      rw [List.foldl_cons, List.foldl_cons]
      dsimp only
      rw [Lines.rfindOffset_eq]
      cases hfind : Lines.rfind keyword head with
      | none => exact ih best hbest
      | some at_ =>
        have hat := Lines.rfind_le hfind
        dsimp only [Option.map_some]
        cases best with
        | none => exact ih (some (at_, clause)) (by rintro seen ⟨⟩; exact hat)
        | some seen =>
          have hle := Lines.byteLen_take_le head (n := seen.1) (m := at_) (hbest seen rfl)
          simp only [Option.map_some, Option.all_some, decide_eq_true_eq, hle]
          split
          · exact ih (some (at_, clause)) (by rintro seen ⟨⟩; exact hat)
          · exact ih (some seen) hbest
  have hkeywords := hfold dragKeywords none (by rintro seen ⟨⟩)
  rw [dragClause, Convert.dragClause]
  rw [Option.map_none] at hkeywords
  rw [hkeywords]
  generalize dragKeywords.foldl (fun (best : Option (Nat × DragClause)) (keyword, clause) =>
        match Lines.rfind keyword head with
        | some at_ => if best.all fun seen => seen.1 ≤ at_ then some (at_, clause) else best
        | none => best) none = best
  cases best <;> rfl

theorem length_takeInt (text : Text) : (Convert.takeInt text).2.length ≤ text.length :=
  List.length_dropWhile_le _ _

theorem scanDragFrom_eq (fuel : Nat) (s : DragState) (rest : Text) (hfuel : rest.length < fuel) :
    scanDragFrom fuel s rest = some (Convert.scanDragFrom fuel s rest) := by
  induction fuel generalizing s rest with
  | zero => exact absurd hfuel (Nat.not_lt_zero _)
  | succ fuel ih =>
    rw [scanDragFrom, Convert.scanDragFrom, Lines.findOffset_eq]
    cases hx : Lines.find "X=".toList rest with
    | none => rfl
    | some xAt =>
      have hafterX : Lines.sliceFrom rest (Lines.byteLen (rest.take xAt) + 2) = some (rest.drop (xAt + 2)) :=
        Lines.sliceFrom_found hx
      have hshortX := (Lines.find_split hx).2
      dsimp only [Option.map_some]
      rw [Lines.sliceTo_take, Option.bind_some, hafterX, Option.bind_some, takeInt_eq, Option.bind_some]
      have hleX := length_takeInt (rest.drop (xAt + 2))
      generalize Convert.takeInt (rest.drop (xAt + 2)) = read at hleX ⊢
      obtain ⟨x, afterX⟩ := read
      dsimp only
      rw [Lines.findOffset_eq]
      cases hy : Lines.find "Y=".toList afterX with
      | none => rfl
      | some yAt =>
        have hafterY : Lines.sliceFrom afterX (Lines.byteLen (afterX.take yAt) + 2) =
            some (afterX.drop (yAt + 2)) := Lines.sliceFrom_found hy
        dsimp only [Option.map_some]
        rw [hafterY, Option.bind_some, takeInt_eq, Option.bind_some]
        have hleY := length_takeInt (afterX.drop (yAt + 2))
        generalize Convert.takeInt (afterX.drop (yAt + 2)) = read at hleY ⊢
        obtain ⟨y, afterY⟩ := read
        have hless : afterY.length < fuel := by
          have htwo : "X=".toList.length = 2 := rfl
          dsimp only at hleX hleY
          rw [List.length_drop] at hleX hleY
          omega
        dsimp only
        cases x with
        | none => exact ih s afterY hless
        | some x =>
          cases y with
          | none => exact ih s afterY hless
          | some y =>
            dsimp only
            rw [dragClause_eq]
            split
            · rfl
            · exact ih _ afterY hless

theorem scanDragPath_eq (text : Text) : scanDragPath text = some (Convert.scanDragPath text) :=
  scanDragFrom_eq _ {} text (Nat.lt_succ_self _)

end ScannersAgree

section KeysAgree

theorem byteLen_brace : Lines.byteLen [openBrace] = 1 ∧ Lines.byteLen [closeBrace] = 1 := by decide

/-- The closing brace comes behind the opening one. -/
theorem closing_behind {remaining : Text} {start offset : Nat}
    (hopen : Lines.find [openBrace] remaining = some start)
    (hclose : Lines.find [closeBrace] (remaining.drop start) = some offset) :
    ∃ token rest, remaining = remaining.take start ++ ([openBrace] ++ (token ++ ([closeBrace] ++ rest))) ∧
      token.length + 1 = offset := by
  obtain ⟨hsplit, -⟩ := Lines.find_split hopen
  obtain ⟨hbraced, hlen⟩ := Lines.find_split hclose
  have hdrop : remaining.drop start = [openBrace] ++ remaining.drop (start + 1) := by
    conv_lhs => rw [hsplit]
    rw [List.append_assoc]
    refine List.drop_left' ?_
    have hlong := (Lines.find_split hopen).2
    rw [List.length_singleton] at hlong
    rw [List.length_take_of_le (by omega)]
  cases offset with
  | zero =>
    rw [hdrop, List.take_zero, List.nil_append] at hbraced
    exact absurd (List.head_eq_of_cons_eq hbraced) (by decide)
  | succ offset =>
    have htake : (remaining.drop start).take (offset + 1) =
        [openBrace] ++ (remaining.drop (start + 1)).take offset := by
      rw [hdrop]
      rfl
    refine ⟨(remaining.drop (start + 1)).take offset, (remaining.drop start).drop (offset + 1 + 1), ?_, ?_⟩
    · conv_lhs => rw [← List.take_append_drop start remaining, hbraced, htake]
      rw [List.append_assoc, List.append_assoc]
      rfl
    · rw [List.length_singleton, List.length_drop] at hlen
      rw [List.length_take_of_le]
      rw [List.length_drop]
      omega

theorem heldFrom_eq (fuel : Nat) (modifiers : List Text) (base remaining : Text) (hfuel : remaining.length < fuel) :
    heldFrom fuel modifiers base remaining = some (Convert.heldFrom fuel modifiers base remaining) := by
  induction fuel generalizing modifiers base remaining with
  | zero => exact absurd hfuel (Nat.not_lt_zero _)
  | succ fuel ih =>
    rw [heldFrom, Convert.heldFrom, Lines.findOffset_eq]
    cases hopen : Lines.find [openBrace] remaining with
    | none => rfl
    | some start =>
      dsimp only [Option.map_some]
      rw [Lines.sliceTo_take, Option.bind_some, Lines.sliceFrom_take, Option.bind_some, Lines.findOffset_eq]
      cases hclose : Lines.find [closeBrace] (remaining.drop start) with
      | none => rfl
      | some offset =>
        obtain ⟨token, rest, hremaining, htoken⟩ := closing_behind hopen hclose
        have hlong := (Lines.find_split hopen).2
        rw [List.length_singleton] at hlong
        obtain ⟨front, hfront⟩ : ∃ front, front = remaining.take start := ⟨_, rfl⟩
        have hstart : front.length = start := by
          rw [hfront, List.length_take_of_le (by omega)]
        rw [← hfront] at hremaining
        have hbraced : remaining.drop start = [openBrace] ++ (token ++ ([closeBrace] ++ rest)) := by
          rw [hremaining, List.drop_left' hstart]
        have hinside : (remaining.drop start).take offset = [openBrace] ++ token := by
          rw [hbraced, ← List.append_assoc, List.take_left' (by simp [htoken])]
        have hbehind : (remaining.drop (start + 1)).take (offset - 1) = token := by
          have hdrop : remaining.drop (start + 1) = token ++ ([closeBrace] ++ rest) := by
            rw [← List.drop_drop, hbraced]
            rfl
          rw [hdrop, List.take_left' (by omega)]
        have hlast : remaining.drop (start + offset + 1) = rest := by
          have hsum : start + offset + 1 = start + (offset + 1) := Nat.add_assoc _ _ _
          rw [hsum, ← List.drop_drop, hbraced, ← List.append_assoc, ← List.append_assoc]
          exact List.drop_left' (by simp [htoken])
        have hslice : Lines.slice remaining (Lines.byteLen front + 1) (Lines.byteLen front +
            Lines.byteLen ([openBrace] ++ token)) = some token := by
          have hmiddle := Lines.slice_append (front ++ [openBrace]) ([closeBrace] ++ rest) token
          rw [List.append_assoc, List.append_assoc, Lines.byteLen_append, byteLen_brace.1, Lines.byteLen_append]
            at hmiddle
          rw [hremaining]
          exact hmiddle
        have hfrom : Lines.sliceFrom remaining (Lines.byteLen front + Lines.byteLen ([openBrace] ++ token) + 1) =
            some rest := by
          have hbyte := Lines.sliceFrom_append (front ++ ([openBrace] ++ (token ++ [closeBrace]))) rest
          have hcount : Lines.byteLen (front ++ ([openBrace] ++ (token ++ [closeBrace]))) =
              Lines.byteLen front + Lines.byteLen ([openBrace] ++ token) + 1 := by
            rw [Lines.byteLen_append, Lines.byteLen_append, Lines.byteLen_append, Lines.byteLen_append,
              byteLen_brace.2]
            omega
          rw [hcount] at hbyte
          rw [hremaining]
          simpa using hbyte
        dsimp only [Option.map_some]
        rw [hinside, ← hfront, hslice, Option.bind_some, hfrom, Option.bind_some, hbehind, hlast]
        refine ih _ _ rest ?_
        have hcount := congrArg List.length hremaining
        simp only [List.length_append, List.length_singleton] at hcount
        omega

theorem expandHeld_eq (upper : Char → Text) (key : Text) :
    expandHeld upper key = some (Convert.expandHeld upper key) := by
  rw [expandHeld, Convert.expandHeld, heldFrom_eq _ _ _ _ (Nat.lt_succ_self _)]
  split <;> rfl

theorem symbol_size {symbol : Char} {osType name : String} (h : modifierName symbol osType = some name) :
    symbol.utf8Size = 1 := by
  have htable : ∀ known ∈ mouseModifiers, known.2.utf8Size = 1 := by decide
  exact htable (name, symbol) (modifierName_known h)

theorem chordFrom_eq (osType : String) (fuel : Nat) (names : List String) (rest : Text) (hfuel : rest.length < fuel) :
    chordFrom osType fuel names rest = some (Convert.chordFrom osType names rest) := by
  induction fuel generalizing names rest with
  | zero => exact absurd hfuel (Nat.not_lt_zero _)
  | succ fuel ih =>
    rw [chordFrom]
    cases rest with
    | nil => rfl
    | cons symbol rest =>
      cases hname : modifierName symbol osType with
      | none =>
        have hown : Convert.chordFrom osType names (symbol :: rest) = (names, symbol :: rest) := by
          cases rest with
          | nil => rfl
          | cons next rest => rw [Convert.chordFrom, hname]
        rw [hown, List.head?_cons]
        dsimp only
        rw [hname]
        split <;> rfl
      | some name =>
        have hsize := symbol_size hname
        cases rest with
        | nil =>
          have hsingle : Lines.byteLen [symbol] < 2 := by
            rw [Lines.byteLen, Lines.byteLen, hsize]
            decide
          rw [if_pos hsingle]
          rfl
        | cons next rest =>
          have hpair : ¬ Lines.byteLen (symbol :: next :: rest) < 2 := by
            have hnext := next.utf8Size_pos
            rw [Lines.byteLen, Lines.byteLen, hsize]
            omega
          have hfrom : Lines.sliceFrom (symbol :: next :: rest) symbol.utf8Size = some (next :: rest) := by
            have hone := Lines.sliceFrom_append [symbol] (next :: rest)
            rwa [Lines.byteLen, Lines.byteLen, Nat.add_zero] at hone
          rw [if_neg hpair, List.head?_cons]
          dsimp only
          rw [hname]
          dsimp only
          rw [hfrom, Option.bind_some, ih _ _ (Nat.lt_of_succ_lt_succ hfuel), Convert.chordFrom, hname]

theorem humanizeKeyToken_eq (key : Text) : humanizeKeyToken key = some (Convert.humanizeKeyToken key) := by
  rw [humanizeKeyToken, Convert.humanizeKeyToken]
  split
  · rename_i hbraces
    obtain ⟨rest, hrest⟩ := List.head?_eq_some_iff.mp hbraces.1
    obtain hnil | ⟨inner, c, hinner⟩ := List.eq_nil_or_concat' rest
    · rw [hrest, hnil] at hbraces
      exact absurd hbraces.2 (by decide)
    · have hc : c = closeBrace := by
        have hlast := hbraces.2
        rw [hrest, hinner, ← List.cons_append, List.getLast?_concat] at hlast
        exact Option.some.inj hlast
      have hkey : key = [openBrace] ++ (inner ++ [closeBrace]) := by
        rw [hrest, hinner, hc]
        rfl
      have hcount : Lines.byteLen key - 1 = Lines.byteLen ([openBrace] ++ inner) := by
        rw [hkey, Lines.byteLen_append, Lines.byteLen_append, Lines.byteLen_append, byteLen_brace.2]
        omega
      have hslice := Lines.slice_append [openBrace] [closeBrace] inner
      rw [← hkey, byteLen_brace.1, ← hcount] at hslice
      have htail : key.tail.dropLast = inner := by
        rw [hkey]
        exact List.dropLast_concat
      rw [hslice, htail]
      rfl
  · rfl

theorem humanizeKey_eq (upper : Char → Text) (key : Text) (osType : String) :
    humanizeKey upper key osType = some (Convert.humanizeKey upper key osType) := by
  rw [humanizeKey, expandHeld_eq, Option.bind_some, chordFrom_eq _ _ _ _ (Nat.lt_succ_self _), Option.bind_some,
    Convert.humanizeKey]
  dsimp only
  split
  · rw [humanizeKeyToken_eq]
    rfl
  · exact humanizeKeyToken_eq _

end KeysAgree

section EventsAgree

variable (upper : Char → Text) (event : CommandEvent)

theorem plainLabel_eq (lead subtype rest : Text) :
    plainLabel event lead subtype rest = some (Convert.plainLabel event lead subtype rest) := by
  rw [plainLabel, Convert.plainLabel, scanNotches_eq]
  split <;> rfl

theorem convertMouse_eq : convertMouse event = some (Convert.convertMouse event) := by
  rw [convertMouse, Convert.convertMouse, labelModifiers, splitSubtypeSymbols_eq, splitMouseModifiers_eq,
    Option.bind_some]
  generalize Convert.splitSubtypeSymbols event.actionSubtype.toList = symbols
  generalize Convert.splitMouseModifiers event.rawCommand.toList = modifiers
  obtain ⟨symbols, subtype⟩ := symbols
  obtain ⟨modifiers, rest⟩ := modifiers
  dsimp only
  rw [Option.bind_some]
  dsimp only
  rw [scanDragPath_eq, Option.bind_some]
  split
  · cases Convert.scanDragPath rest with
    | path path => rfl
    | tooLong => rfl
    | absent => exact plainLabel_eq event _ _ _
  · exact plainLabel_eq event _ _ _

theorem convertKeyboard_eq : convertKeyboard upper event = some (Convert.convertKeyboard upper event) := by
  rw [convertKeyboard, Convert.convertKeyboard, humanizeKey_eq]
  generalize event.actionSubtype = subtype
  split
  · rfl
  · rfl
  · simp_all

theorem converted_eq : converted upper event = some (Convert.converted upper event) := by
  rw [converted, Convert.converted, convertMouse_eq, convertKeyboard_eq]
  generalize event.actionType = kind
  split
  · rfl
  · rfl
  · rfl
  · simp_all

/-- The label is made without a cut inside a character and without an endless loop. -/
theorem toHumanReadable_eq : toHumanReadable upper event = some (Convert.toHumanReadable upper event) := by
  rw [toHumanReadable, converted_eq]
  rfl

theorem ccMouse_eq : ccMouse event = some (Convert.ccMouse event) := by
  rw [ccMouse, Convert.ccMouse, splitSubtypeSymbols_eq, splitMouseModifiers_eq, Option.bind_some, commandSymbols]
  generalize Convert.splitSubtypeSymbols event.actionSubtype.toList = leaked
  generalize Convert.splitMouseModifiers event.rawCommand.toList = modifiers
  obtain ⟨leaked, subtype⟩ := leaked
  obtain ⟨modifiers, rest⟩ := modifiers
  dsimp only
  rw [Option.bind_some]
  dsimp only
  rw [scanNotches_eq, Option.bind_some, scanDragPath_eq, Option.map_some]
  split
  · rfl
  split <;> rfl

/-- So is the command. -/
theorem toCcCommand_eq : toCcCommand event = some (Convert.toCcCommand event) := by
  rw [toCcCommand, Convert.toCcCommand, ccMouse_eq]
  generalize event.actionType = kind
  split
  · rfl
  · rfl
  · exact congrArg some (String.ofList_toList).symm
  · simp_all

end EventsAgree

end MemoryArchive.Convert.Slices
