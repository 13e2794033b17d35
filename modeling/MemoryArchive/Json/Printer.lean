import MemoryArchive.Json.Lexer

namespace MemoryArchive.Json

/-- The blanks a serialiser puts after an opening bracket, after a comma,
before a closing bracket and after a colon, at each nesting depth. -/
structure Layout where
  opening : Nat → List Char
  comma : Nat → List Char
  closing : Nat → List Char
  colon : List Char
  opening_blank : ∀ d, ∀ c ∈ opening d, isBlank c = true
  comma_blank : ∀ d, ∀ c ∈ comma d, isBlank c = true
  closing_blank : ∀ d, ∀ c ∈ closing d, isBlank c = true
  colon_blank : ∀ c ∈ colon, isBlank c = true

def Layout.compact : Layout where
  opening _ := []
  comma _ := []
  closing _ := []
  colon := []
  opening_blank := by simp
  comma_blank := by simp
  closing_blank := by simp
  colon_blank := by simp

def Layout.spaced : Layout where
  opening _ := []
  comma _ := [' ']
  closing _ := []
  colon := [' ']
  opening_blank := by simp
  comma_blank := by simp [isBlank]
  closing_blank := by simp
  colon_blank := by simp [isBlank]

def newline (depth : Nat) : List Char := '\n' :: List.replicate (2 * depth) ' '

theorem newline_blank (depth : Nat) : ∀ c ∈ newline depth, isBlank c = true := by
  intro c hc
  obtain rfl | hc := List.mem_cons.mp hc
  · rfl
  · obtain rfl := List.eq_of_mem_replicate hc
    rfl

/-- One member a line, two blanks for each level. -/
def Layout.pretty : Layout where
  opening d := newline (d + 1)
  comma d := newline (d + 1)
  closing d := newline d
  colon := [' ']
  opening_blank d := newline_blank (d + 1)
  comma_blank d := newline_blank (d + 1)
  closing_blank := newline_blank
  colon_blank := by simp [isBlank]

def hexDigit (n : Nat) : Char := n.digitChar

/-- Quotes, backslashes and control characters are escaped, every other
character stands for itself. -/
def escape (c : Char) : List Char :=
  if c = '"' then ['\\', '"']
  else if c = '\\' then ['\\', '\\']
  else if c = '\x08' then ['\\', 'b']
  else if c = '\x0c' then ['\\', 'f']
  else if c = '\n' then ['\\', 'n']
  else if c = '\r' then ['\\', 'r']
  else if c = '\t' then ['\\', 't']
  else if c.toNat < 0x20 then ['\\', 'u', '0', '0', hexDigit (c.toNat / 16), hexDigit (c.toNat % 16)]
  else [c]

def quote (s : String) : List Char := '"' :: s.toList.flatMap escape ++ ['"']

mutual

def print (L : Layout) (d : Nat) : Json → List Char
  | .null => ['n', 'u', 'l', 'l']
  | .bool true => ['t', 'r', 'u', 'e']
  | .bool false => ['f', 'a', 'l', 's', 'e']
  | .num n => n.literal
  | .str s => quote s
  | .arr items => '[' :: printItems L d items ++ [']']
  | .obj fields => '{' :: printFields L d fields ++ ['}']

def printItems (L : Layout) (d : Nat) : List Json → List Char
  | [] => []
  | j :: items => L.opening d ++ print L (d + 1) j ++ printMoreItems L d items

def printMoreItems (L : Layout) (d : Nat) : List Json → List Char
  | [] => L.closing d
  | j :: items => ',' :: L.comma d ++ print L (d + 1) j ++ printMoreItems L d items

def printFields (L : Layout) (d : Nat) : Fields → List Char
  | [] => []
  | (k, v) :: fields =>
      L.opening d ++ quote k ++ ':' :: L.colon ++ print L (d + 1) v ++ printMoreFields L d fields

def printMoreFields (L : Layout) (d : Nat) : Fields → List Char
  | [] => L.closing d
  | (k, v) :: fields =>
      ',' :: L.comma d ++ quote k ++ ':' :: L.colon ++ print L (d + 1) v ++ printMoreFields L d fields

end

mutual

/-- The tokens of a value, the same under every layout. -/
def tokens : Json → List Token
  | .null => [.atom .null]
  | .bool b => [.atom (.bool b)]
  | .num n => [.atom (.num n)]
  | .str s => [.str s]
  | .arr items => .openArray :: itemTokens items ++ [.closeArray]
  | .obj fields => .openObject :: fieldTokens fields ++ [.closeObject]

def itemTokens : List Json → List Token
  | [] => []
  | j :: items => tokens j ++ moreItemTokens items

def moreItemTokens : List Json → List Token
  | [] => []
  | j :: items => .comma :: tokens j ++ moreItemTokens items

def fieldTokens : Fields → List Token
  | [] => []
  | (k, v) :: fields => .str k :: .colon :: tokens v ++ moreFieldTokens fields

def moreFieldTokens : Fields → List Token
  | [] => []
  | (k, v) :: fields => .comma :: .str k :: .colon :: tokens v ++ moreFieldTokens fields

end

theorem hexDigit?_hexDigit : ∀ n < 16, hexDigit? (hexDigit n) = some n := by decide

theorem scan_escape (c : Char) (acc : List Char) :
    scan (.string acc) (escape c) = some ([], .string (c :: acc)) := by
  unfold escape
  split
  · subst c; rfl
  split
  · subst c; rfl
  split
  · subst c; rfl
  split
  · subst c; rfl
  split
  · subst c; rfl
  split
  · subst c; rfl
  split
  · subst c; rfl
  split
  · rename_i hlt
    have hhi := hexDigit?_hexDigit (c.toNat / 16) (by omega)
    have hlo := hexDigit?_hexDigit (c.toNat % 16) (by omega)
    have hc : 16 * (c.toNat / 16) + c.toNat % 16 = c.toNat := Nat.div_add_mod c.toNat 16
    have hz : hexDigit? '0' = some 0 := rfl
    have hu : unescape? 'u' = none := rfl
    have hns : ¬ 0xD800 ≤ c.toNat := by omega
    have hns' : ¬ 0xDC00 ≤ c.toNat := by omega
    simp [scan, step, hexValue, hz, hhi, hlo, hc, codeUnit, hns, hns', Char.ofNat_toNat]
  · rename_i hq hb _ _ _ _ _ hlt
    simp [scan, step, hq, hb, hlt]

theorem scan_escapes (cs acc : List Char) :
    scan (.string acc) (cs.flatMap escape) = some ([], .string (cs.reverse ++ acc)) := by
  induction cs generalizing acc with
  | nil => rfl
  | cons c cs ih =>
    have h := scan_append _ _ _ _ _ _ _ (scan_escape c acc) (ih (c :: acc))
    simpa using h

theorem scan_quote (s : String) : scan .gap (quote s) = some ([.str s], .gap) := by
  have hopen : scan .gap ['"'] = some ([], .string []) := rfl
  have hbody := scan_escapes s.toList []
  have hclose : scan (.string (s.toList.reverse ++ [])) ['"'] = some ([.str s], .gap) := by
    simp [scan, step, String.ofList_toList]
  have h := scan_append _ _ _ _ _ _ _ (scan_append _ _ _ _ _ _ _ hopen hbody) hclose
  simpa [quote] using h

theorem scan_quote_colon (L : Layout) (k : String) :
    scan .gap (quote k ++ ':' :: L.colon) = some ([.str k, .colon], .gap) := by
  have hcolon : scan .gap [':'] = some ([.colon], .gap) := rfl
  have hblanks := scan_blanks L.colon L.colon_blank
  have h := scan_append _ _ _ _ _ _ _ (scan_quote k) (scan_append _ _ _ _ _ _ _ hcolon hblanks)
  simpa using h

section Lexing

variable (L : Layout)

mutual

theorem lexes_print (d : Nat) : ∀ j : Json, Lexes (print L d j) (tokens j)
  | .null => ⟨[], _, .word ['l', 'l', 'u', 'n'], rfl, rfl, rfl⟩
  | .bool true => ⟨[], _, .word ['e', 'u', 'r', 't'], rfl, rfl, rfl⟩
  | .bool false => ⟨[], _, .word ['e', 's', 'l', 'a', 'f'], rfl, rfl, rfl⟩
  | .num n => by simpa [print, tokens] using lexes_number n
  | .str s => by simpa [print, tokens] using lexes_of_scan (scan_quote s)
  | .arr items => by
      have hopen : scan .gap ['['] = some ([.openArray], .gap) := rfl
      have h := lexes_append hopen (lexes_printItems d items)
      have hc := scan_lexes_cons ']' [.closeArray] h rfl rfl
      simpa [print, tokens] using lexes_of_scan hc
  | .obj fields => by
      have hopen : scan .gap ['{'] = some ([.openObject], .gap) := rfl
      have h := lexes_append hopen (lexes_printFields d fields)
      have hc := scan_lexes_cons '}' [.closeObject] h rfl rfl
      simpa [print, tokens] using lexes_of_scan hc

theorem lexes_printItems (d : Nat) : ∀ items : List Json, Lexes (printItems L d items) (itemTokens items)
  | [] => lexes_of_scan rfl
  | j :: items => by
      have hb := scan_blanks (L.opening d) (L.opening_blank d)
      have hj := lexes_append hb (lexes_print (d + 1) j)
      simpa [printItems, itemTokens] using lexes_printMoreItems d items _ _ hj

theorem lexes_printMoreItems (d : Nat) : ∀ (items : List Json) (cs : List Char) (ts : List Token),
    Lexes cs ts → Lexes (cs ++ printMoreItems L d items) (ts ++ moreItemTokens items)
  | [], cs, ts, h => by
      simpa [printMoreItems, moreItemTokens] using lexes_blanks h (L.closing_blank d)
  | j :: items, cs, ts, h => by
      have hc := scan_lexes_cons ',' [.comma] h rfl rfl
      have hb := scan_blanks (L.comma d) (L.comma_blank d)
      have hj := lexes_append (scan_append _ _ _ _ _ _ _ hc hb) (lexes_print (d + 1) j)
      simpa [printMoreItems, moreItemTokens] using lexes_printMoreItems d items _ _ hj

theorem lexes_printFields (d : Nat) : ∀ fields : Fields, Lexes (printFields L d fields) (fieldTokens fields)
  | [] => lexes_of_scan rfl
  | (k, v) :: fields => by
      have hb := scan_blanks (L.opening d) (L.opening_blank d)
      have hk := scan_append _ _ _ _ _ _ _ hb (scan_quote_colon L k)
      have hv := lexes_append hk (lexes_print (d + 1) v)
      simpa [printFields, fieldTokens] using lexes_printMoreFields d fields _ _ hv

theorem lexes_printMoreFields (d : Nat) : ∀ (fields : Fields) (cs : List Char) (ts : List Token),
    Lexes cs ts → Lexes (cs ++ printMoreFields L d fields) (ts ++ moreFieldTokens fields)
  | [], cs, ts, h => by
      simpa [printMoreFields, moreFieldTokens] using lexes_blanks h (L.closing_blank d)
  | (k, v) :: fields, cs, ts, h => by
      have hc := scan_lexes_cons ',' [.comma] h rfl rfl
      have hb := scan_blanks (L.comma d) (L.comma_blank d)
      have hk := scan_append _ _ _ _ _ _ _ (scan_append _ _ _ _ _ _ _ hc hb) (scan_quote_colon L k)
      have hv := lexes_append hk (lexes_print (d + 1) v)
      simpa [printMoreFields, moreFieldTokens] using lexes_printMoreFields d fields _ _ hv

end

end Lexing

end MemoryArchive.Json
