import Mathlib.Algebra.Group.Int.Defs
import Mathlib.Algebra.Group.Nat.Defs
import MemoryArchive.Capture.Event
import MemoryArchive.Text.Search

namespace MemoryArchive.Convert

open Capture (Text)

section Integers

/-- Rust's `i32::from_str`. -/
def parseI32 (text : Text) : Option Int32 :=
  let negative := text.head? = some '-'
  let digits := if negative ∨ text.head? = some '+' then text.tail else text
  let value : Int := if negative then -(Json.digitsValue digits : Int) else Json.digitsValue digits
  if digits ≠ [] ∧ digits.all Char.isDigit ∧ -2 ^ 31 ≤ value ∧ value < 2 ^ 31 then some (Int32.ofInt value)
  else none

def displayI32 (n : Int32) : Text :=
  if n.toInt < 0 then '-' :: Json.digits n.toInt.natAbs else Json.digits n.toInt.natAbs

/-- A character an integer is written with. -/
def isNumeric (c : Char) : Bool := c.isDigit || c = '-'

theorem displayI32_numeric (n : Int32) : ∀ c ∈ displayI32 n, isNumeric c = true := by
  have hdigits : ∀ c ∈ Json.digits n.toInt.natAbs, isNumeric c = true := by
    intro c hc
    simp [isNumeric, Json.digits_isDigit _ c hc]
  rw [displayI32]
  split
  · exact List.forall_mem_cons.mpr ⟨rfl, hdigits⟩
  · exact hdigits

end Integers

/-- The names the agent puts before a mouse action, each with the symbol of its key. -/
def mouseModifiers : List (String × Char) :=
  [("Cmd", '#'), ("Win", '#'), ("Super", '#'), ("Ctrl", '^'), ("Shift", '+'), ("Option", '!'), ("Alt", '!')]

/-- What the system that reports a modifier calls its key. -/
def modifierName (symbol : Char) (osType : String) : Option String :=
  if symbol = '^' then some "Ctrl"
  else if symbol = '+' then some "Shift"
  else if symbol = '!' then some (if osType = "MACOS" then "Option" else "Alt")
  else if symbol = '#' then
    some (if osType = "MACOS" then "Cmd" else if osType = "WINDOWS" then "Win" else "Super")
  else none

def isSymbol (c : Char) : Bool := c = '#' || c = '^' || c = '+' || c = '!'

section Modifiers

/-- The known name that is this text. -/
def knownModifier (head : Text) : Option String :=
  (mouseModifiers.map Prod.fst).find? fun name => name.toList = head

/-- The loop of `split_mouse_modifiers`. Every turn takes some of the text. -/
def splitModifiersFrom : Nat → Text → List String × Text
  | 0, rest => ([], rest)
  | fuel + 1, rest =>
      match Lines.find ['+'] rest with
      | none => ([], rest)
      | some boundary =>
          match knownModifier (rest.take boundary) with
          | none => ([], rest)
          | some name =>
              let split := splitModifiersFrom fuel (rest.drop (boundary + 1))
              (name :: split.1, split.2)

/-- The modifier names before a mouse action, and the rest of the command. -/
def splitMouseModifiers (raw : Text) : List String × Text := splitModifiersFrom (raw.length + 1) raw

def SameSymbols (first second : Text) : Prop := ∀ symbol, symbol ∈ first ↔ symbol ∈ second

/-- The names of symbols, each once. -/
def symbolNames (osType : String) (symbols : Text) : List String :=
  symbols.foldl (fun names symbol =>
    match modifierName symbol osType with
    | some name => if name ∈ names then names else names ++ [name]
    | none => names) []

/-- The symbols before the action in one word of a command. -/
def actionSymbols (subtype token : Text) : Option Text :=
  match Lines.dropEnding subtype token with
  | some symbols => if symbols ≠ [] ∧ symbols.all isSymbol then some symbols else none
  | none => none

/-- The symbols on the first action of a command that has any. -/
def findAction (subtype command : Text) : Option Text :=
  (Lines.words Lines.isWhiteSpace command).findSome? (actionSymbols subtype)

/-- The modifiers of a command that is recorded as it was issued, its symbols on the action. -/
def modifiersFromCommandForm (rest subtype : Text) (osType : String) : List String :=
  if subtype = [] then []
  else
    match findAction subtype rest with
    | some symbols => symbolNames osType symbols
    | none => []

/-- The symbols before an action subtype, and the subtype without them. -/
def splitSubtypeSymbols (subtype : Text) : Text × Text :=
  (subtype.takeWhile isSymbol, subtype.dropWhile isSymbol)

theorem knownModifier_of_mem {name : String} (h : name ∈ mouseModifiers.map Prod.fst) :
    knownModifier name.toList = some name := by
  rw [knownModifier]
  generalize mouseModifiers.map Prod.fst = names at h ⊢
  induction names with
  | nil => cases h
  | cons known names ih =>
    rw [List.find?_cons]
    by_cases heq : known = name
    · simp [heq]
    · have hne : ¬ known.toList = name.toList := fun hlist => heq (String.toList_inj.mp hlist)
      simpa [hne] using ih (List.mem_of_ne_of_mem (Ne.symm heq) h)

theorem modifier_plain {name : String} (h : name ∈ mouseModifiers.map Prod.fst) : '+' ∉ name.toList := by
  revert name
  decide

theorem splitModifiers_known (fuel : Nat) (rest : Text) :
    ∀ name ∈ (splitModifiersFrom fuel rest).1, name ∈ mouseModifiers.map Prod.fst := by
  induction fuel generalizing rest with
  | zero => exact fun name hname => absurd hname List.not_mem_nil
  | succ fuel ih =>
    rw [splitModifiersFrom]
    split
    · exact fun name hname => absurd hname List.not_mem_nil
    · split
      · exact fun name hname => absurd hname List.not_mem_nil
      · rename_i known hknown
        exact List.forall_mem_cons.mpr ⟨List.mem_of_find?_eq_some hknown, ih _⟩

/-- The names of symbols are those of each of them, without repetition. -/
theorem symbolNames_spec (osType : String) (symbols : Text) :
    (symbolNames osType symbols).Nodup ∧
      ∀ name, name ∈ symbolNames osType symbols ↔ ∃ symbol ∈ symbols, modifierName symbol osType = some name := by
  have hfold : ∀ names : List String, names.Nodup →
      let result := symbols.foldl (fun names symbol =>
        match modifierName symbol osType with
        | some name => if name ∈ names then names else names ++ [name]
        | none => names) names
      result.Nodup ∧ ∀ name, name ∈ result ↔
        name ∈ names ∨ ∃ symbol ∈ symbols, modifierName symbol osType = some name := by
    induction symbols with
    | nil =>
      intro names hnames
      exact ⟨hnames, by simp⟩
    | cons symbol symbols ih =>
      intro names hnames
      rw [List.foldl_cons]
      cases hname : modifierName symbol osType with
      | none =>
        obtain ⟨hnodup, hmem⟩ := ih names hnames
        refine ⟨hnodup, fun name => ?_⟩
        rw [hmem]
        simp [hname]
      | some own =>
        by_cases hseen : own ∈ names
        · obtain ⟨hnodup, hmem⟩ := ih names hnames
          simp only [if_pos hseen]
          refine ⟨hnodup, fun name => ?_⟩
          rw [hmem]
          simp only [List.exists_mem_cons_iff, hname, Option.some.injEq]
          grind
        · have hlong : (names ++ [own]).Nodup := by
            rw [List.nodup_append]
            exact ⟨hnames, List.nodup_singleton own, by grind⟩
          obtain ⟨hnodup, hmem⟩ := ih _ hlong
          simp only [if_neg hseen]
          refine ⟨hnodup, fun name => ?_⟩
          rw [hmem]
          simp only [List.exists_mem_cons_iff, hname, Option.some.injEq]
          grind
  obtain ⟨hnodup, hmem⟩ := hfold [] List.nodup_nil
  exact ⟨hnodup, fun name => (hmem name).trans (by simp)⟩

theorem modifierName_known {symbol : Char} {osType name : String} (h : modifierName symbol osType = some name) :
    (name, symbol) ∈ mouseModifiers := by
  rw [modifierName] at h
  split at h
  · rename_i heq
    cases h
    exact heq ▸ by decide
  split at h
  · rename_i heq
    cases h
    exact heq ▸ by decide
  split at h
  · rename_i heq
    obtain rfl := Option.some.inj h
    split
    · exact heq ▸ by decide
    · exact heq ▸ by decide
  split at h
  · rename_i heq
    obtain rfl := Option.some.inj h
    split
    · exact heq ▸ by decide
    split
    · exact heq ▸ by decide
    · exact heq ▸ by decide
  · cases h

theorem actionSymbols_plain {token : Text} (htoken : ∀ c ∈ token, isSymbol c = false) (subtype : Text) :
    actionSymbols subtype token = none := by
  rw [actionSymbols]
  split
  · rename_i symbols hsymbols
    rw [Lines.dropEnding_eq_some] at hsymbols
    refine if_neg ?_
    rintro ⟨hne, hall⟩
    obtain ⟨c, symbols, rfl⟩ := List.exists_cons_of_ne_nil hne
    have hc : isSymbol c = true := List.all_eq_true.mp hall c List.mem_cons_self
    rw [htoken c (by simp [hsymbols])] at hc
    cases hc
  · rfl

/-- A text with no symbol in it is no command with modifiers. -/
theorem findAction_plain {command : Text} (hcommand : ∀ c ∈ command, isSymbol c = false) (subtype : Text) :
    findAction subtype command = none := by
  rw [findAction, List.findSome?_eq_none_iff]
  intro token htoken
  exact actionSymbols_plain (fun c hc => hcommand c (Lines.words_subset _ htoken c hc)) subtype

theorem symbolNames_known (osType : String) (symbols : Text) :
    ∀ name ∈ symbolNames osType symbols, name ∈ mouseModifiers.map Prod.fst := by
  intro name hname
  obtain ⟨symbol, -, hsymbol⟩ := ((symbolNames_spec osType symbols).2 name).mp hname
  exact List.mem_map.mpr ⟨_, modifierName_known hsymbol, rfl⟩

theorem isSymbol_iff {c : Char} : isSymbol c = true ↔ c ∈ ['#', '^', '+', '!'] := by simp [isSymbol, or_assoc]

theorem symbol_named {symbol : Char} (h : isSymbol symbol = true) (osType : String) :
    ∃ name, modifierName symbol osType = some name := by
  have htable : ∀ c ∈ ['#', '^', '+', '!'], (modifierName c osType).isSome = true := by
    simp only [List.forall_mem_cons]
    exact ⟨rfl, rfl, rfl, rfl, fun c hc => absurd hc List.not_mem_nil⟩
  exact Option.isSome_iff_exists.mp (htable symbol (isSymbol_iff.mp h))

/-- A name stands for one symbol. -/
theorem mouseModifiers_symbol : ∀ a ∈ mouseModifiers, ∀ b ∈ mouseModifiers, a.1 = b.1 → a.2 = b.2 := by decide

theorem modifierName_inj {first second : Char} {osType name : String} (hfirst : modifierName first osType = some name)
    (hsecond : modifierName second osType = some name) : first = second :=
  mouseModifiers_symbol _ (modifierName_known hfirst) _ (modifierName_known hsecond) rfl

/-- Symbols whose names are names of others are among them. -/
theorem subset_of_names {osType : String} {symbols others : Text} (hsymbols : ∀ c ∈ symbols, isSymbol c = true)
    (h : ∀ name, (∃ symbol ∈ symbols, modifierName symbol osType = some name) →
      ∃ symbol ∈ others, modifierName symbol osType = some name) : ∀ symbol ∈ symbols, symbol ∈ others := by
  intro symbol hmem
  obtain ⟨name, hname⟩ := symbol_named (hsymbols symbol hmem) osType
  obtain ⟨other, hother, hsame⟩ := h name ⟨symbol, hmem, hname⟩
  exact modifierName_inj hname hsame ▸ hother

theorem symbolNames_ne_nil {symbols : Text} (hne : symbols ≠ []) (hsymbols : ∀ c ∈ symbols, isSymbol c = true)
    (osType : String) : symbolNames osType symbols ≠ [] := by
  obtain ⟨symbol, rest, rfl⟩ := List.exists_cons_of_ne_nil hne
  obtain ⟨name, hname⟩ := symbol_named (hsymbols symbol List.mem_cons_self) osType
  exact List.ne_nil_of_mem (((symbolNames_spec osType _).2 name).mpr ⟨symbol, List.mem_cons_self, hname⟩)

theorem sameSymbols_nil {symbols : Text} : SameSymbols symbols [] ↔ symbols = [] := by
  constructor
  · intro h
    exact List.eq_nil_iff_forall_not_mem.mpr fun symbol hmem => absurd ((h symbol).mp hmem) List.not_mem_nil
  · rintro rfl
    exact fun _ => Iff.rfl

/-- The modifiers of a command are known ones, each once. -/
theorem commandForm_names (rest subtype : Text) (osType : String) :
    (modifiersFromCommandForm rest subtype osType).Nodup ∧
      ∀ name ∈ modifiersFromCommandForm rest subtype osType, name ∈ mouseModifiers.map Prod.fst := by
  rw [modifiersFromCommandForm]
  split
  · exact ⟨List.nodup_nil, fun name hname => absurd hname List.not_mem_nil⟩
  · split
    · exact ⟨(symbolNames_spec osType _).1, symbolNames_known osType _⟩
    · exact ⟨List.nodup_nil, fun name hname => absurd hname List.not_mem_nil⟩

theorem symbol_not_numeric {c : Char} (hc : isSymbol c = true) : isNumeric c = false := by
  have htable : ∀ c ∈ ['#', '^', '+', '!'], isNumeric c = false := by decide
  exact htable c (isSymbol_iff.mp hc)

theorem numeric_not_symbol {c : Char} (hc : isNumeric c = true) : isSymbol c = false := by
  by_contra hsymbol
  rw [symbol_not_numeric (Bool.not_eq_false _ ▸ hsymbol)] at hc
  cases hc

theorem displayI32_plain (n : Int32) : ∀ c ∈ displayI32 n, isSymbol c = false :=
  fun c hc => numeric_not_symbol (displayI32_numeric n c hc)

end Modifiers

/-- The repeat count of a scroll, where it is reported. -/
def scanNotches (text : Text) : Option Int32 :=
  match Lines.find " notch".toList text with
  | none => none
  | some at_ =>
      let digits := ((text.take at_).rdropWhile Lines.isWhiteSpace).rtakeWhile Char.isDigit
      if digits = [] then none else parseI32 digits

section Drags

/-- The integer a text begins with, and the rest of it. -/
def takeInt (text : Text) : Option Int32 × Text :=
  (parseI32 (text.takeWhile isNumeric), text.dropWhile isNumeric)

def maxDragPoints : Nat := 8

abbrev Point := Int32 × Int32

structure DragPath where
  origin : Option Point
  via : List Point
  dest : Point
  deriving DecidableEq

inductive DragScan
  | path (path : DragPath)
  | tooLong
  | absent
  deriving DecidableEq

inductive DragClause
  | origin | via | dest | bare
  deriving DecidableEq

/-- The keywords in the order in which they are looked for. -/
def dragKeywords : List (Text × DragClause) :=
  [("from ".toList, .origin), ("via ".toList, .via), ("to ".toList, .dest)]

/-- The clause of a pair, from the keyword nearest before it. -/
def dragClause (head : Text) : DragClause :=
  let best := dragKeywords.foldl (fun (best : Option (Nat × DragClause)) (keyword, clause) =>
    match Lines.rfind keyword head with
    | some at_ => if best.all fun seen => seen.1 ≤ at_ then some (at_, clause) else best
    | none => best) none
  match best with
  | some (_, clause) => clause
  | none => .bare

/-- What a scan of a drag path has read so far. -/
structure DragState where
  origin : Option Point := none
  via : List Point := []
  dest : Option Point := none
  seen : Nat := 0

def DragState.put (s : DragState) (clause : DragClause) (point : Point) : DragState :=
  match clause with
  | .origin => { s with origin := some point }
  | .via => { s with via := s.via ++ [point] }
  | _ => { s with dest := some point }

def DragState.result (s : DragState) : DragScan :=
  match s.dest with
  | some dest => .path ⟨s.origin, s.via, dest⟩
  | none => .absent

/-- The loop of `scan_drag_path`. Every turn takes some of the text. -/
def scanDragFrom : Nat → DragState → Text → DragScan
  | 0, s, _ => s.result
  | fuel + 1, s, rest =>
      match Lines.find "X=".toList rest with
      | none => s.result
      | some xAt =>
          let (x, afterX) := takeInt (rest.drop (xAt + 2))
          match Lines.find "Y=".toList afterX with
          | none => s.result
          | some yAt =>
              let (y, afterY) := takeInt (afterX.drop (yAt + 2))
              match x, y with
              | some x, some y =>
                  let s := { s with seen := s.seen + 1 }
                  if s.seen > maxDragPoints then .tooLong
                  else scanDragFrom fuel (s.put (dragClause (rest.take xAt)) (x, y)) afterY
              | _, _ => scanDragFrom fuel s afterY

def scanDragPath (text : Text) : DragScan := scanDragFrom (text.length + 1) {} text

end Drags

def maxSubtypeLen : Nat := 32

/-- Replace a subtype that is no plausible verb. Its length is counted in bytes, which are
characters where it is plausible. -/
def safeSubtype (subtype : Text) : Text :=
  if subtype.length ≤ maxSubtypeLen ∧ subtype ≠ [] ∧
      subtype.all (fun c => c.isAlphanum || c = '_' || c = '-') then subtype
  else "unknown-action".toList

end MemoryArchive.Convert
