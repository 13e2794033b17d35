import Mathlib.Data.List.DropRight

namespace MemoryArchive.Lines

/-- Cut a text after every character that ends a line. A text that ends
with a line end has no empty last line. -/
def splitFrom (isBreak : Char → Bool) : List Char → List Char → List (List Char)
  | acc, [] => if acc.isEmpty then [] else [acc.reverse]
  | acc, c :: cs =>
      if isBreak c then acc.reverse :: splitFrom isBreak [] cs
      else splitFrom isBreak (c :: acc) cs

def split (isBreak : Char → Bool) (text : List Char) : List (List Char) :=
  splitFrom isBreak [] text

def unlines (lines : List (List Char)) : List Char := lines.flatMap (· ++ ['\n'])

def strip (blank : Char → Bool) (line : List Char) : List Char :=
  (line.dropWhile blank).rdropWhile blank

/-- The Unicode property `White_Space`, which Rust's `trim` removes. -/
def isWhiteSpace (c : Char) : Bool :=
  let n := c.toNat
  (9 ≤ n && n ≤ 13) || n = 0x20 || n = 0x85 || n = 0xA0 || n = 0x1680 ||
    (0x2000 ≤ n && n ≤ 0x200A) || n = 0x2028 || n = 0x2029 || n = 0x202F || n = 0x205F || n = 0x3000

/-- Python's `str.isspace`, which `str.strip` removes. -/
def isPySpace (c : Char) : Bool := isWhiteSpace c || (0x1c ≤ c.toNat && c.toNat ≤ 0x1f)

/-- A line end for Python's `str.splitlines` that a JSON serialiser leaves
unescaped: next line, line separator and paragraph separator. -/
def isSeparator (c : Char) : Bool := c.toNat = 0x85 || c.toNat = 0x2028 || c.toNat = 0x2029

/-- The line ends of Python's `str.splitlines`. -/
def isPyBreak (c : Char) : Bool :=
  (0x0a ≤ c.toNat && c.toNat ≤ 0x0d) || (0x1c ≤ c.toNat && c.toNat ≤ 0x1e) || isSeparator c

/-- Rust's `str::lines`. The carriage return it takes off before a line feed is
blank to the `trim` that every caller applies next. -/
def lines (text : List Char) : List (List Char) := split (· = '\n') text

def trim (line : List Char) : List Char := strip isWhiteSpace line

/-- Python's text mode turns every line end of a file into a line feed. -/
def readText : List Char → List Char
  | [] => []
  | '\r' :: '\n' :: cs => '\n' :: readText cs
  | '\r' :: cs => '\n' :: readText cs
  | c :: cs => c :: readText cs

def splitlines (text : List Char) : List (List Char) := split isPyBreak text

def pyStrip (line : List Char) : List Char := strip isPySpace line

/-- What holds of the characters of a text is decided from the text. -/
instance (priority := 1100) decidableForallChar (text : List Char) (p : Char → Prop) [DecidablePred p] :
    Decidable (∀ c ∈ text, p c) := List.decidableBAll p text

theorem digit_dark {c : Char} (h : c.isDigit = true) : isWhiteSpace c = false := by
  have hrange : 48 ≤ c.toNat ∧ c.toNat ≤ 57 := by
    simp only [Char.isDigit, Bool.and_eq_true, decide_eq_true_eq] at h
    exact h
  simp only [isWhiteSpace, Bool.or_eq_false_iff, Bool.and_eq_false_iff, decide_eq_false_iff_not]
  omega

theorem splitFrom_append (isBreak : Char → Bool) (line rest acc : List Char)
    (hline : line.all (fun c => !isBreak c) = true) :
    splitFrom isBreak acc (line ++ rest) = splitFrom isBreak (line.reverse ++ acc) rest := by
  induction line generalizing acc with
  | nil => rfl
  | cons c line ih =>
    simp only [List.all_cons, Bool.and_eq_true, Bool.not_eq_true'] at hline
    simp [splitFrom, hline.1, ih (c :: acc) hline.2]

/-- Lines that hold no line end are read back one for one. -/
theorem split_unlines (isBreak : Char → Bool) (hnl : isBreak '\n' = true)
    (lines : List (List Char)) (hlines : ∀ l ∈ lines, l.all (fun c => !isBreak c) = true) :
    split isBreak (unlines lines) = lines := by
  induction lines with
  | nil => rfl
  | cons l lines ih =>
    have hl := hlines l (by simp)
    have hrest : ∀ k ∈ lines, k.all (fun c => !isBreak c) = true := fun k hk => hlines k (by simp [hk])
    have he : unlines (l :: lines) = l ++ '\n' :: unlines lines := by simp [unlines]
    rw [he, split, splitFrom_append isBreak l _ [] hl]
    simp only [splitFrom, hnl, ↓reduceIte, List.append_nil, List.reverse_reverse]
    exact congrArg (l :: ·) (ih hrest)

/-- A line with no blank at either end is left as it is. -/
theorem strip_bracketed (blank : Char → Bool) (a b : Char) (body : List Char)
    (ha : blank a = false) (hb : blank b = false) :
    strip blank (a :: body ++ [b]) = a :: body ++ [b] := by
  have hd : (a :: body ++ [b]).dropWhile blank = a :: body ++ [b] := by simp [ha]
  rw [strip, hd, List.rdropWhile_eq_self_iff]
  intro _
  simp [hb]

/-- A stripped line has no blanks left to strip. -/
theorem strip_strip (blank : Char → Bool) (line : List Char) :
    strip blank (strip blank line) = strip blank line := by
  have hfirst : (strip blank line).dropWhile blank = strip blank line := by
    rw [List.dropWhile_eq_self_iff]
    intro hl
    have hstart : strip blank line <+: line.dropWhile blank := List.rdropWhile_prefix blank _
    have hne : 0 < (line.dropWhile blank).length := hl.trans_le hstart.length_le
    have hhead := List.dropWhile_get_zero_not blank line hne
    rw [hstart.getElem hl]
    exact hhead
  rw [strip, hfirst]
  exact List.rdropWhile_idempotent blank _

theorem readText_cons {c : Char} (h : c ≠ '\r') (text : List Char) :
    readText (c :: text) = c :: readText text := by
  rw [readText.eq_def]
  split <;> simp_all

/-- A text with no carriage return is read as it stands. -/
theorem readText_eq_self (text : List Char) (h : '\r' ∉ text) : readText text = text := by
  induction text with
  | nil => rfl
  | cons c cs ih =>
    simp only [List.mem_cons, not_or] at h
    rw [readText_cons (Ne.symm h.1), ih h.2]

theorem isPyBreak_of_printable (c : Char) (h₁ : 0x20 ≤ c.toNat) (h₂ : isSeparator c = false) :
    isPyBreak c = false := by
  simp only [isPyBreak, h₂, Bool.or_false, Bool.or_eq_false_iff, Bool.and_eq_false_iff,
    decide_eq_false_iff_not]
  omega

end MemoryArchive.Lines
