import MemoryArchive.Json.Value

namespace MemoryArchive.Json

inductive Token
  | openObject | closeObject | openArray | closeArray | colon | comma
  | atom (j : Json)
  | str (s : String)

/-- What the lexer is in the middle of. The characters read so far are kept
in reverse, and after a high surrogate its code unit is kept until the low
surrogate has been read. -/
inductive Mode
  | gap
  | number (acc : List Char)
  | word (acc : List Char)
  | string (acc : List Char)
  | escape (acc : List Char)
  | hex (acc : List Char) (high : Option Nat) (digits : List Char)
  | low (acc : List Char) (high : Nat)
  | lowEscape (acc : List Char) (high : Nat)

def isBlank (c : Char) : Bool := c = ' ' || c = '\t' || c = '\n' || c = '\r'

def hexDigit? (c : Char) : Option Nat :=
  if c.isDigit then some (c.toNat - '0'.toNat)
  else if 'a' ≤ c ∧ c ≤ 'f' then some (c.toNat - 'a'.toNat + 10)
  else if 'A' ≤ c ∧ c ≤ 'F' then some (c.toNat - 'A'.toNat + 10)
  else none

def hexValue (ds : List Char) : Option Nat :=
  ds.foldl (fun n d => do return 16 * (← n) + (← hexDigit? d)) (some 0)

def wordValue (cs : List Char) : Option Json :=
  if cs = "null".toList then some .null
  else if cs = "true".toList then some (.bool true)
  else if cs = "false".toList then some (.bool false)
  else none

def numberValue (cs : List Char) : Option Json :=
  if h : isNumber cs = true then some (.num ⟨cs, h⟩) else none

/-- The first character of a token. -/
def begin (c : Char) : Option (List Token × Mode) :=
  if isBlank c then some ([], .gap)
  else if c = '{' then some ([.openObject], .gap)
  else if c = '}' then some ([.closeObject], .gap)
  else if c = '[' then some ([.openArray], .gap)
  else if c = ']' then some ([.closeArray], .gap)
  else if c = ':' then some ([.colon], .gap)
  else if c = ',' then some ([.comma], .gap)
  else if c = '"' then some ([], .string [])
  else if c = '-' ∨ c.isDigit then some ([], .number [c])
  else if c.isAlpha then some ([], .word [c])
  else none

def unescape? (c : Char) : Option Char :=
  if c = '"' ∨ c = '\\' ∨ c = '/' then some c
  else if c = 'b' then some '\x08'
  else if c = 'f' then some '\x0c'
  else if c = 'n' then some '\n'
  else if c = 'r' then some '\r'
  else if c = 't' then some '\t'
  else none

/-- The mode after a four digit escape: a code unit outside the surrogate
range is a character, a high surrogate waits for the low one. A lone
surrogate is an error, as no text can hold it. -/
def codeUnit (acc : List Char) (high : Option Nat) (unit : Nat) : Option Mode :=
  match high with
  | none =>
      if 0xD800 ≤ unit ∧ unit < 0xDC00 then some (.low acc unit)
      else if 0xDC00 ≤ unit ∧ unit < 0xE000 then none
      else some (.string (Char.ofNat unit :: acc))
  | some h =>
      if 0xDC00 ≤ unit ∧ unit < 0xE000 then
        some (.string (Char.ofNat (0x10000 + (h - 0xD800) * 0x400 + (unit - 0xDC00)) :: acc))
      else none

/-- What a token still being read stands for when it ends here. -/
def settle : Mode → Option (List Token)
  | .gap => some []
  | .number acc => (numberValue acc.reverse).map fun j => [.atom j]
  | .word acc => (wordValue acc.reverse).map fun j => [.atom j]
  | _ => none

def step (m : Mode) (c : Char) : Option (List Token × Mode) :=
  match m with
  | .gap => begin c
  | .number acc =>
      if isNumberChar c then some ([], .number (c :: acc))
      else do
        let ts ← settle (.number acc)
        let (us, m') ← begin c
        return (ts ++ us, m')
  | .word acc =>
      if c.isAlpha then some ([], .word (c :: acc))
      else do
        let ts ← settle (.word acc)
        let (us, m') ← begin c
        return (ts ++ us, m')
  | .string acc =>
      if c = '"' then some ([.str (String.ofList acc.reverse)], .gap)
      else if c = '\\' then some ([], .escape acc)
      else if c.toNat < 0x20 then none
      else some ([], .string (c :: acc))
  | .escape acc =>
      if c = 'u' then some ([], .hex acc none [])
      else (unescape? c).map fun d => ([], .string (d :: acc))
  | .hex acc high digits =>
      if digits.length < 3 then (hexDigit? c).map fun _ => ([], .hex acc high (digits ++ [c]))
      else do
        let unit ← hexValue (digits ++ [c])
        let m' ← codeUnit acc high unit
        return ([], m')
  | .low acc high => if c = '\\' then some ([], .lowEscape acc high) else none
  | .lowEscape acc high => if c = 'u' then some ([], .hex acc (some high) []) else none

def scan (m : Mode) : List Char → Option (List Token × Mode)
  | [] => some ([], m)
  | c :: cs => do
      let (ts, m') ← step m c
      let (us, m'') ← scan m' cs
      return (ts ++ us, m'')

def lex (cs : List Char) : Option (List Token) := do
  let (ts, m) ← scan .gap cs
  let us ← settle m
  return ts ++ us

theorem scan_append (m m' m'' : Mode) (cs ds : List Char) (ts us : List Token)
    (h : scan m cs = some (ts, m')) (h' : scan m' ds = some (us, m'')) :
    scan m (cs ++ ds) = some (ts ++ us, m'') := by
  induction cs generalizing m ts with
  | nil =>
    simp only [scan, Option.some.injEq, Prod.mk.injEq] at h
    obtain ⟨rfl, rfl⟩ := h
    exact h'
  | cons c cs ih =>
    simp only [scan, Option.bind_eq_bind, Option.bind_eq_some_iff, Option.pure_def,
      Option.some.injEq, Prod.mk.injEq, Prod.exists] at h
    obtain ⟨ts₁, m₁, hstep, ts₂, m₂, hscan, rfl, rfl⟩ := h
    simp [scan, hstep, ih m₁ ts₂ hscan]

/-- What has been read up to some character decides how the rest is read. -/
theorem scan_rest {m m' : Mode} {cs : List Char} {ts : List Token} (h : scan m cs = some (ts, m'))
    (ds : List Char) :
    scan m (cs ++ ds) = (scan m' ds).map fun (us, m'') => (ts ++ us, m'') := by
  induction cs generalizing m ts with
  | nil =>
    simp only [scan, Option.some.injEq, Prod.mk.injEq] at h
    obtain ⟨rfl, rfl⟩ := h
    exact (congrFun Option.map_id (scan m ds)).symm
  | cons c cs ih =>
    simp only [scan, Option.bind_eq_bind, Option.bind_eq_some_iff, Option.pure_def,
      Option.some.injEq, Prod.mk.injEq, Prod.exists] at h
    obtain ⟨ts₁, m₁, hstep, ts₂, m₂, hscan, rfl, rfl⟩ := h
    have hrest := ih hscan
    rw [List.cons_append, scan, hstep]
    change (scan m₁ (cs ++ ds)).bind _ = _
    rw [hrest]
    cases scan m₂ ds with
    | none => rfl
    | some r => exact congrArg (fun us => some (us, r.2)) (List.append_assoc ts₁ ts₂ r.1).symm

/-- A text that is read as whole tokens, whether or not the last of them needs
the next character to end it. -/
def Lexes (cs : List Char) (ts : List Token) : Prop :=
  ∃ us vs m, scan .gap cs = some (us, m) ∧ settle m = some vs ∧ ts = us ++ vs

theorem lex_of_lexes {cs : List Char} {ts : List Token} (h : Lexes cs ts) : lex cs = some ts := by
  obtain ⟨us, vs, m, hs, hm, rfl⟩ := h
  simp [lex, hs, hm]

theorem lexes_of_scan {cs : List Char} {ts : List Token} (h : scan .gap cs = some (ts, .gap)) :
    Lexes cs ts :=
  ⟨ts, [], .gap, h, rfl, by simp⟩

theorem lexes_append {cs ds : List Char} {ts us : List Token}
    (h : scan .gap cs = some (ts, .gap)) (h' : Lexes ds us) : Lexes (cs ++ ds) (ts ++ us) := by
  obtain ⟨us', vs, m, hs, hm, rfl⟩ := h'
  exact ⟨ts ++ us', vs, m, scan_append .gap .gap m cs ds ts us' h hs, hm, by simp⟩

/-- A character that no number and no word goes on with. -/
def isDelimiter (c : Char) : Bool := !isNumberChar c && !c.isAlpha

theorem step_of_delimiter (m m' : Mode) (c : Char) (vs us : List Token) (hc : isDelimiter c = true)
    (hm : settle m = some vs) (hb : begin c = some (us, m')) : step m c = some (vs ++ us, m') := by
  simp only [isDelimiter, Bool.and_eq_true, Bool.not_eq_true'] at hc
  cases m with
  | gap =>
    simp only [settle, Option.some.injEq] at hm
    subst hm
    simpa [step] using hb
  | number acc => simp [step, hc.1, hm, hb]
  | word acc => simp [step, hc.2, hm, hb]
  | _ => simp [settle] at hm

theorem scan_lexes_cons {cs : List Char} {ts : List Token} (c : Char) (us : List Token)
    (h : Lexes cs ts) (hc : isDelimiter c = true) (hb : begin c = some (us, .gap)) :
    scan .gap (cs ++ [c]) = some (ts ++ us, .gap) := by
  obtain ⟨ts', vs, m, hs, hm, rfl⟩ := h
  have hstep := step_of_delimiter m .gap c vs us hc hm hb
  have hone : scan m [c] = some (vs ++ us, .gap) := by simp [scan, hstep]
  simpa using scan_append .gap m .gap cs [c] ts' (vs ++ us) hs hone

theorem begin_blank (c : Char) (hc : isBlank c = true) : begin c = some ([], .gap) := by
  simp [begin, hc]

theorem scan_blanks (cs : List Char) (hcs : ∀ c ∈ cs, isBlank c = true) :
    scan .gap cs = some ([], .gap) := by
  induction cs with
  | nil => rfl
  | cons c cs ih =>
    have hc : begin c = some ([], .gap) := begin_blank c (hcs c (by simp))
    simp [scan, step, hc, ih fun d hd => hcs d (by simp [hd])]

theorem isDelimiter_blank (c : Char) (hc : isBlank c = true) : isDelimiter c = true := by
  simp only [isBlank, Bool.or_eq_true, decide_eq_true_eq] at hc
  obtain ((rfl | rfl) | rfl) | rfl := hc <;> rfl

/-- Blanks after a token end it and leave no trace. -/
theorem lexes_blanks {cs ds : List Char} {ts : List Token} (h : Lexes cs ts)
    (hds : ∀ c ∈ ds, isBlank c = true) : Lexes (cs ++ ds) ts := by
  cases ds with
  | nil => simpa using h
  | cons d ds =>
    have hd : isBlank d = true := hds d (by simp)
    have h₁ := scan_lexes_cons d [] h (isDelimiter_blank d hd) (begin_blank d hd)
    have h₂ := scan_blanks ds fun c hc => hds c (by simp [hc])
    have hs := scan_append .gap .gap .gap _ _ _ _ h₁ h₂
    exact lexes_of_scan (by simpa using hs)

theorem lexes_number (n : Number) : Lexes n.literal [.atom (.num n)] := by
  have hacc : ∀ cs acc, (∀ c ∈ cs, isNumberChar c = true) →
      scan (.number acc) cs = some ([], .number (cs.reverse ++ acc)) := by
    intro cs
    induction cs with
    | nil => intro acc _; rfl
    | cons c cs ih =>
      intro acc h
      have hc : isNumberChar c = true := h c (by simp)
      simp [scan, step, hc, ih (c :: acc) fun d hd => h d (by simp [hd])]
  obtain ⟨c, cs, hl, hc⟩ := n.exists_cons
  have hb : begin c = some ([], .number [c]) := by
    obtain rfl | hd := hc
    · rfl
    · have hne : ∀ d : Char, d.isDigit = false → c ≠ d := fun d hf he => by
        rw [he, hf] at hd
        cases hd
      simp [begin, isBlank, hd, hne ' ' rfl, hne '\t' rfl, hne '\n' rfl, hne '\r' rfl, hne '{' rfl,
        hne '}' rfl, hne '[' rfl, hne ']' rfl, hne ':' rfl, hne ',' rfl, hne '"' rfl]
  have hcs : ∀ d ∈ cs, isNumberChar d = true := fun d hd => n.numberChar d (by simp [hl, hd])
  have hv : numberValue n.literal = some (.num n) := by simp [numberValue, n.wellFormed]
  refine ⟨[], [.atom (.num n)], .number (cs.reverse ++ [c]), ?_, ?_, by simp⟩
  · simp [hl, scan, step, hb, hacc cs [c] hcs]
  · simp [settle, ← hl, hv]

end MemoryArchive.Json
