import MemoryArchive.Text.Cut
import MemoryArchive.Text.Lossy

namespace MemoryArchive.Updater.ShellRc

open Lines (cut isPyBreak readText readText_cons Parts Ended)
open Utf8 (lossy encode)

abbrev Text := List Char

abbrev Bytes := List UInt8

def sentinel : Text := "# Added by Memory Archive installer".toList

/-- A line that is removed for its own sake. -/
def takes (dir line : Text) : Prop :=
  dir <:+: line ∧ ("export PATH".toList <:+: line ∨ "fish_add_path".toList <:+: line)

instance (dir line : Text) : Decidable (takes dir line) :=
  inferInstanceAs (Decidable (_ ∧ (_ ∨ _)))

/-- The loop over the lines, with the lines that are kept and whether any was not. -/
def scan (dir : Text) : Bool → List Text → List Text × Bool
  | _, [] => ([], false)
  | true, _ :: lines => ((scan dir false lines).1, true)
  | false, line :: lines =>
      if sentinel <:+: line then ((scan dir true lines).1, true)
      else if takes dir line then ((scan dir false lines).1, true)
      else (line :: (scan dir false lines).1, (scan dir false lines).2)

/-- What is written back of a file's text, if anything. The text has no carriage returns, so
that `splitlines` cuts behind single characters. -/
def rewritten (dir text : Text) : Option Text :=
  if ¬ sentinel <:+: text ∧ ¬ dir <:+: text then none
  else
    let new := scan dir false (cut isPyBreak text)
    if new.2 then some new.1.flatten else none

/-- `rc.read_text(encoding="utf-8", errors="replace")`. -/
def textOf (content : Bytes) : Text := readText (lossy content)

/-- The edit of one file. -/
def edit (dir : Text) (content : Bytes) : Bytes := ((rewritten dir (textOf content)).map encode).getD content

section Candidates

variable {P : Type} [DecidableEq P] (child : P → String → P)

def rcCandidates (home : P) (zdotdir : Option P) : List P :=
  (match zdotdir with
    | some dir => [child dir ".zshrc"]
    | none => []) ++
  [child home ".bashrc", child home ".zshrc", child (child (child home ".config") "fish") "config.fish"]

def removePathFromShellRc (home : P) (zdotdir : Option P) (installDir : Text) (files : P → Option Bytes) :
    P → Option Bytes :=
  (rcCandidates child home zdotdir).foldl
    (fun files rc => Function.update files rc ((files rc).map (edit installDir))) files

end Candidates

inductive Shell
  | fish
  | other

def pathExport (dir : Text) : Text := "export PATH=\"".toList ++ dir ++ ":$\x7bPATH\x7d\"".toList

def fishExport (dir : Text) : Text := "fish_add_path ".toList ++ dir

/-- `grep -qF`: a line of the file has a line of the pattern. -/
def mentions (dir : Text) (content : Bytes) : Prop :=
  ∃ line ∈ cut (· = 10) content, ∃ pattern ∈ dir.splitOn '\n', encode pattern <:+: line.takeWhile (· ≠ 10)

instance (dir : Text) (content : Bytes) : Decidable (mentions dir content) :=
  decidable_of_iff (((cut (· = 10) content).any fun line =>
      (dir.splitOn '\n').any fun pattern => decide (encode pattern <:+: line.takeWhile (· ≠ 10))) = true)
    (by simp [mentions])

/-- What `echo` appends. -/
def entry : Shell → Text → Text
  | .fish, dir => fishExport dir ++ ['\n']
  | .other, dir => '\n' :: (sentinel ++ '\n' :: (pathExport dir ++ ['\n']))

def updatePath (shell : Shell) (dir : Text) (content : Bytes) : Bytes :=
  if mentions dir content then content else content ++ encode (entry shell dir)

/-- A line without its end. -/
def bare (line : Bytes) : Bytes := line.takeWhile (· ≠ 10)

/-- Lines without the marker comment and the export line behind it. -/
def withoutOwn (dir : Text) : List Bytes → List Bytes
  | first :: second :: lines =>
      if bare first = encode sentinel ∧ bare second = encode (pathExport dir) then withoutOwn dir lines
      else first :: withoutOwn dir (second :: lines)
  | lines => lines

/-- A file without the lines that the installer added for the directory. -/
def removeOwn (dir : Text) (content : Bytes) : Bytes := (withoutOwn dir (cut (· = 10) content)).flatten

/-- The edit removes the installer's own lines and nothing else, leaves a file without the
marker as it is, and takes back what the installer did. -/
structure OwnLinesOnly (shell : Shell) (dir : Text) (content : Bytes) : Prop where
  removes : edit dir content = removeOwn dir content
  unmarked : ¬ encode sentinel <:+: content → edit dir content = content
  restored : edit dir (updatePath shell dir content) = content

/-- A line with the marker's text, or one that names the directory with an export. -/
def Removable (dir text : Text) : Prop :=
  ∃ line ∈ cut isPyBreak text, sentinel <:+: line ∨ takes dir line

/-- Bytes that reading and writing leave as they are: UTF-8 without carriage returns. -/
def Clean (content : Bytes) : Prop := ∃ text, '\r' ∉ text ∧ content = encode text

def SingleLine (text : Text) : Prop := ∀ c ∈ text, isPyBreak c = false

/-- The marker's text stands in every other line, from the first one on. -/
def Alternating : List Text → Prop
  | [] => True
  | [line] => sentinel <:+: line
  | line :: _ :: lines => sentinel <:+: line ∧ Alternating lines

/-- Nothing in the file looks like the installer's; and the installer leaves the file as it is,
as it mentions the directory, or it adds a line of fish to a clean file that ends with a line
end. The directory's name is one line then, if it does not imitate the marker. -/
structure Harmless (shell : Shell) (dir : Text) (content : Bytes) : Prop where
  quiet : ¬ Removable dir (textOf content)
  installed : mentions dir content ∨ shell = .fish ∧
    (∃ text, '\r' ∉ text ∧ content = encode text ∧ ∀ c ∈ text.getLast?, isPyBreak c = true) ∧
    (SingleLine dir ∨ Alternating (cut isPyBreak (readText (entry .fish dir))))

/-- Beside the installer's lines nothing looks like them, and if there are any the rest of the
file is clean. -/
structure Separate (dir : Text) (content : Bytes) : Prop where
  quiet : ¬ Removable dir (textOf (removeOwn dir content))
  clean : removeOwn dir content = content ∨ Clean (removeOwn dir content)

section Scan

variable {dir : Text}

/-- A line that the loop removes when it comes to it. -/
def IsOwn (dir line : Text) : Prop := sentinel <:+: line ∨ takes dir line

theorem scan_sublist (skip : Bool) (lines : List Text) : (scan dir skip lines).1.Sublist lines := by
  induction lines generalizing skip with
  | nil => cases skip <;> exact List.Sublist.slnil
  | cons line lines ih =>
    cases skip with
    | true => exact (ih false).cons line
    | false =>
      rw [scan]
      split
      · exact (ih true).cons line
      · split
        · exact (ih false).cons line
        · exact (ih false).cons_cons line

theorem scan_kept (skip : Bool) (lines : List Text) : ∀ line ∈ (scan dir skip lines).1, ¬ IsOwn dir line := by
  induction lines generalizing skip with
  | nil => cases skip <;> exact fun line h => absurd h List.not_mem_nil
  | cons line lines ih =>
    cases skip with
    | true => exact ih false
    | false =>
      rw [scan]
      split
      · exact ih true
      · rename_i hsentinel
        split
        · exact ih false
        · rename_i htakes
          exact List.forall_mem_cons.mpr ⟨not_or.mpr ⟨hsentinel, htakes⟩, ih false⟩

/-- Lines that are not removed pass the loop. -/
theorem scan_append {front : List Text} (h : ∀ line ∈ front, ¬ IsOwn dir line) (lines : List Text) :
    scan dir false (front ++ lines) = (front ++ (scan dir false lines).1, (scan dir false lines).2) := by
  induction front with
  | nil => rfl
  | cons line front ih =>
    obtain ⟨hline, hfront⟩ := List.forall_mem_cons.mp h
    obtain ⟨hsentinel, htakes⟩ := not_or.mp hline
    rw [List.cons_append, scan, if_neg hsentinel, if_neg htakes, ih hfront]
    rfl

theorem scan_changed {lines : List Text} :
    (scan dir false lines).2 = true ↔ ∃ line ∈ lines, IsOwn dir line := by
  induction lines with
  | nil => simp [scan]
  | cons line lines ih =>
    rw [scan]
    split
    · rename_i hsentinel
      exact iff_of_true rfl ⟨line, List.mem_cons_self, .inl hsentinel⟩
    · rename_i hsentinel
      split
      · rename_i htakes
        exact iff_of_true rfl ⟨line, List.mem_cons_self, .inr htakes⟩
      · rename_i htakes
        simp [ih, IsOwn, hsentinel, htakes]

/-- Where no line is left the loop has removed one for its own sake. -/
theorem scan_nil {lines : List Text} (hne : lines ≠ []) (h : (scan dir false lines).1 = []) :
    ∃ line ∈ lines, IsOwn dir line := by
  by_contra hnone
  have hquiet : ∀ line ∈ lines, ¬ IsOwn dir line := fun line hline hown => hnone ⟨line, hline, hown⟩
  have hall := congrArg Prod.fst (scan_append hquiet [])
  rw [List.append_nil, h] at hall
  exact hne (List.append_eq_nil_iff.mp hall.symm).1

end Scan

section Rewriting

variable {dir text : Text}

/-- The text that is left. -/
def rest (dir text : Text) : Text := (scan dir false (cut isPyBreak text)).1.flatten

theorem cut_rest : cut isPyBreak (rest dir text) = (scan dir false (cut isPyBreak text)).1 :=
  ((Lines.parts_cut isPyBreak text).sublist (scan_sublist false _)).cut_flatten

theorem rest_quiet : ¬ Removable dir (rest dir text) := by
  rintro ⟨line, hline, hown⟩
  rw [cut_rest] at hline
  exact scan_kept false _ line hline hown

theorem mem_rest {c : Char} (h : c ∈ rest dir text) : c ∈ text := by
  obtain ⟨line, hline, hc⟩ := List.mem_flatten.mp h
  rw [← Lines.flatten_cut isPyBreak text]
  exact List.mem_flatten.mpr ⟨line, (scan_sublist false _).subset hline, hc⟩

theorem rewritten_quiet (h : ¬ Removable dir text) : rewritten dir text = none := by
  have hchanged : (scan dir false (cut isPyBreak text)).2 ≠ true := fun hc => h (scan_changed.mp hc)
  rw [rewritten]
  split
  · rfl
  · exact if_neg hchanged

theorem rewritten_own (h : Removable dir text) : rewritten dir text = some (rest dir text) := by
  have hfound : ¬ (¬ sentinel <:+: text ∧ ¬ dir <:+: text) := by
    obtain ⟨line, hline, hown⟩ := h
    have hin := Lines.infix_of_cut hline
    rintro ⟨hsentinel, hdir⟩
    obtain hown | hown := hown
    · exact hsentinel (hown.trans hin)
    · exact hdir (hown.1.trans hin)
  rw [rewritten, if_neg hfound]
  exact if_pos (scan_changed.mpr h)

theorem readText_clean (text : Text) : '\r' ∉ readText text := by
  fun_induction readText text with
  | case1 => exact List.not_mem_nil
  | case2 text ih => simp [ih]
  | case3 text hnext ih => simp [ih]
  | case4 c text hcrlf hcr ih =>
    have hc : c ≠ '\r' := hcr
    simp [ih, Ne.symm hc]

theorem rest_clean (content : Bytes) : '\r' ∉ rest dir (textOf content) :=
  fun h => readText_clean _ (mem_rest h)

theorem textOf_encode (h : '\r' ∉ text) : textOf (encode text) = text := by
  rw [textOf, Utf8.lossy_encode, Lines.readText_eq_self text h]

theorem edit_quiet {content : Bytes} (h : ¬ Removable dir (textOf content)) : edit dir content = content := by
  rw [edit, rewritten_quiet h]
  rfl

theorem edit_own {content : Bytes} (h : Removable dir (textOf content)) :
    edit dir content = encode (rest dir (textOf content)) := by
  rw [edit, rewritten_own h]
  rfl

/-- The edit leaves a file as it is just when it has nothing to remove. -/
theorem edit_eq_self {content : Bytes} : edit dir content = content ↔ ¬ Removable dir (textOf content) := by
  refine ⟨fun h hown => ?_, edit_quiet⟩
  have htext : textOf content = rest dir (textOf content) := by
    have hread := congrArg textOf h
    rw [edit_own hown, textOf_encode (rest_clean content)] at hread
    exact hread.symm
  have hquiet : ¬ Removable dir (rest dir (textOf content)) := rest_quiet
  rw [← htext] at hquiet
  exact hquiet hown

/-- What is written is clean and has nothing to remove. -/
theorem edit_written {content : Bytes} (h : Removable dir (textOf content)) :
    ∃ text, '\r' ∉ text ∧ edit dir content = encode text ∧ ¬ Removable dir text :=
  ⟨rest dir (textOf content), rest_clean content, edit_own h, rest_quiet⟩

end Rewriting

section Marker

variable {dir : Text} {content : Bytes}

theorem readText_append {front : Text} (h : '\r' ∉ front) (back : Text) :
    readText (front ++ back) = front ++ readText back := by
  induction front with
  | nil => rfl
  | cons c front ih =>
    rw [List.mem_cons, not_or] at h
    rw [List.cons_append, readText_cons (Ne.symm h.1), ih h.2]
    rfl

/-- Only a carriage return before a line feed is read with it. -/
theorem readText_split {c : Char} (hc : c ≠ '\n') (front back : Text) :
    readText (front ++ c :: back) = readText front ++ readText (c :: back) := by
  fun_induction readText front with
  | case1 => rfl
  | case2 front ih => exact congrArg ('\n' :: ·) ih
  | case3 front hnext ih =>
    rw [List.cons_append, readText, ih]
    · rfl
    · intro rest hrest
      cases front with
      | nil => exact hc (List.cons.inj hrest).1
      | cons d front => exact hnext front (by rw [(List.cons.inj hrest).1])
  | case4 d front hcrlf hcr ih =>
    have hd : d ≠ '\r' := hcr
    rw [List.cons_append, readText_cons hd, ih]
    rfl

theorem textOf_append {text : Text} (h : '\r' ∉ text) (bytes : Bytes) :
    textOf (encode text ++ bytes) = text ++ textOf bytes := by
  rw [textOf, Utf8.lossy_encode_append, readText_append h]
  rfl

/-- The bytes of a comment are read as the comment. -/
theorem comment_text {text : Text} (hclean : '\r' ∉ '#' :: text) (h : encode ('#' :: text) <:+: content) :
    '#' :: text <:+: textOf content := by
  obtain ⟨front, back, rfl⟩ := h
  have hbytes : encode ('#' :: text) = 35 :: encode text := by
    rw [encode, List.flatMap_cons]
    rfl
  have hfirst : Utf8.Ascii 35 := by decide
  have hread : lossy (front ++ (encode ('#' :: text) ++ back)) = lossy front ++ ('#' :: text ++ lossy back) := by
    rw [← Utf8.lossy_encode_append, hbytes, List.cons_append, Utf8.lossy_append hfirst,
      Utf8.lossy_ascii hfirst]
  have hwhole : textOf (front ++ encode ('#' :: text) ++ back) =
      readText (lossy front) ++ ('#' :: text ++ readText (lossy back)) := by
    rw [List.append_assoc, textOf, hread, ← readText_append hclean]
    exact readText_split (by decide) _ _
  rw [hwhole, ← List.append_assoc]
  exact ⟨_, _, rfl⟩

theorem SingleLine.clean {text : Text} (h : SingleLine text) : '\r' ∉ text :=
  fun hmem => absurd (h _ hmem) (by decide)

theorem sentinel_single : SingleLine sentinel := by
  have htext : sentinel = _ := String.toList_ofList
  rw [SingleLine, htext]
  decide

theorem sentinel_ne_nil : sentinel ≠ [] := by
  have htext : sentinel = _ := String.toList_ofList
  rw [htext]
  exact List.cons_ne_nil _ _

theorem pathExport_single (h : SingleLine dir) : SingleLine (pathExport dir) := by
  have hfront : SingleLine "export PATH=\"".toList := by
    rw [SingleLine, String.toList_ofList]
    decide
  have hback : SingleLine ":$\x7bPATH\x7d\"".toList := by
    rw [SingleLine, String.toList_ofList]
    decide
  exact List.forall_mem_append.mpr ⟨List.forall_mem_append.mpr ⟨hfront, h⟩, hback⟩

theorem fishExport_single (h : SingleLine dir) : SingleLine (fishExport dir) := by
  have hfront : SingleLine "fish_add_path ".toList := by
    rw [SingleLine, String.toList_ofList]
    decide
  exact List.forall_mem_append.mpr ⟨hfront, h⟩

/-- The marker's bytes are read as the marker. -/
theorem marked_text (h : encode sentinel <:+: content) : sentinel <:+: textOf content := by
  have hclean := sentinel_single.clean
  obtain ⟨text, htext⟩ : ∃ text, sentinel = '#' :: text := ⟨_, String.toList_ofList⟩
  rw [htext] at h hclean ⊢
  exact comment_text hclean h

theorem marked_removable (h : encode sentinel <:+: content) : Removable dir (textOf content) := by
  have hlines : ∃ line ∈ cut isPyBreak (textOf content), sentinel <:+: line :=
    Lines.infix_cut sentinel_single sentinel_ne_nil (marked_text h)
  obtain ⟨line, hline, hin⟩ := hlines
  exact ⟨line, hline, .inl hin⟩

theorem bare_within (line : Bytes) : bare line <:+: line := (List.takeWhile_prefix _).isInfix

theorem withoutOwn_unmarked {lines : List Bytes} (h : ∀ line ∈ lines, bare line ≠ encode sentinel) :
    withoutOwn dir lines = lines := by
  fun_induction withoutOwn dir lines with
  | case1 first second lines hown ih => exact absurd hown.1 (h first List.mem_cons_self)
  | case2 first second lines hown ih =>
    exact congrArg (first :: ·) (ih fun line hline => h line (List.mem_cons_of_mem _ hline))
  | case3 => rfl

theorem removeOwn_unmarked (h : ¬ encode sentinel <:+: content) : removeOwn dir content = content := by
  have hlines : ∀ line ∈ cut (· = 10) content, bare line ≠ encode sentinel := by
    intro line hline heq
    rw [← heq] at h
    exact h ((bare_within line).trans (Lines.infix_of_cut hline))
  rw [removeOwn, withoutOwn_unmarked hlines, Lines.flatten_cut]

theorem removeOwn_quiet (h : ¬ Removable dir (textOf content)) : removeOwn dir content = content :=
  removeOwn_unmarked fun hmarked => h (marked_removable hmarked)

end Marker

section Installing

variable {dir : Text} {content : Bytes}

theorem readText_last {text : Text} (h : text.getLast? = some '\n') : (readText text).getLast? = some '\n' := by
  fun_induction readText text with
  | case1 => cases h
  | case2 text ih =>
    rw [List.getLast?_cons]
    cases text with
    | nil => rfl
    | cons c text => rw [ih h]; rfl
  | case3 text hnext ih =>
    rw [List.getLast?_cons]
    cases text with
    | nil => rfl
    | cons c text => rw [ih h]; rfl
  | case4 c text hcrlf hcr ih =>
    rw [List.getLast?_cons]
    cases text with
    | nil => exact h
    | cons d text => rw [ih h]; rfl

/-- What is appended is taken back exactly where nothing of it is left and the file before it
is clean, ends with a line end and has nothing to remove. -/
theorem taken_back {added : Text} (h : added.getLast? = some '\n') :
    edit dir (content ++ encode added) = content ↔ ¬ Removable dir (textOf content) ∧
      (∃ text, '\r' ∉ text ∧ content = encode text ∧ ∀ c ∈ text.getLast?, isPyBreak c = true) ∧
      (scan dir false (cut isPyBreak (readText added))).1 = [] := by
  have hlast := readText_last h
  have hjoin : ∀ text : Text, '\r' ∉ text →
      textOf (encode text ++ encode added) = text ++ readText added := by
    intro text hclean
    rw [textOf_append hclean, textOf, Utf8.lossy_encode]
  constructor
  · intro hedit
    have hown : Removable dir (textOf (content ++ encode added)) := by
      by_contra hquiet
      rw [edit_quiet hquiet] at hedit
      have hnone : encode added = [] := List.append_right_eq_self.mp hedit
      have hempty := congrArg List.length (Utf8.lossy_encode added)
      rw [hnone] at hempty
      rw [List.length_eq_zero_iff.mp hempty.symm] at h
      cases h
    obtain ⟨text, hclean, hwritten, hquiet⟩ := edit_written hown
    rw [edit_own hown] at hwritten hedit
    have htext : rest dir (textOf (content ++ encode added)) = text := by
      have hread := congrArg lossy hwritten
      rw [Utf8.lossy_encode, Utf8.lossy_encode] at hread
      exact hread
    have hcontent : content = encode text := by rw [← hedit, htext]
    subst hcontent
    rw [hjoin text hclean] at htext
    have hends : ∀ c ∈ text.getLast?, isPyBreak c = true := by
      rw [← htext]
      refine Lines.getLast_flatten fun line hline => ?_
      refine Lines.ended_cut ?_ line ((scan_sublist false _).subset hline)
      intro c hc
      rw [List.getLast?_append, hlast] at hc
      rw [← Option.some.inj hc]
      rfl
    have hcut : ∀ line ∈ cut isPyBreak text, ¬ IsOwn dir line :=
      fun line hline hown => hquiet ⟨line, hline, hown⟩
    refine ⟨?_, ⟨text, hclean, rfl, hends⟩, ?_⟩
    · rw [textOf_encode hclean]
      exact hquiet
    · rw [rest, Lines.cut_append hends, scan_append hcut, List.flatten_append, Lines.flatten_cut] at htext
      have hflat := List.append_right_eq_self.mp htext
      have hsub : (scan dir false (cut isPyBreak (readText added))).1.Sublist
          (cut isPyBreak (readText added)) := scan_sublist false _
      have hparts := (Lines.parts_cut isPyBreak (readText added)).sublist hsub
      have hlines := hparts.cut_flatten
      rw [hflat] at hlines
      exact hlines.symm
  · rintro ⟨hquiet, ⟨text, hclean, rfl, hends⟩, hnone⟩
    rw [textOf_encode hclean] at hquiet
    have hcut : ∀ line ∈ cut isPyBreak text, ¬ IsOwn dir line :=
      fun line hline hown => hquiet ⟨line, hline, hown⟩
    have hne : cut isPyBreak (readText added) ≠ [] := by
      refine Lines.cut_ne_nil fun hnil => ?_
      rw [hnil] at hlast
      cases hlast
    obtain ⟨line, hline, hown⟩ := scan_nil hne hnone
    have hremovable : Removable dir (textOf (encode text ++ encode added)) := by
      refine ⟨line, ?_, hown⟩
      rw [hjoin text hclean, Lines.cut_append hends]
      exact List.mem_append_right _ hline
    rw [edit_own hremovable, hjoin text hclean, rest, Lines.cut_append hends, scan_append hcut, hnone,
      List.append_nil, Lines.flatten_cut]

theorem entry_last (shell : Shell) (dir : Text) : (entry shell dir).getLast? = some '\n' := by
  cases shell with
  | fish => exact List.getLast?_concat
  | other =>
    have hlines : entry .other dir = '\n' :: (sentinel ++ '\n' :: (pathExport dir ++ ['\n'])) := rfl
    rw [hlines, ← List.cons_append, ← List.cons_append, ← List.append_assoc, List.getLast?_concat]

theorem isOwn_blank (dir : Text) : ¬ IsOwn dir ['\n'] := by
  have hlong : ∀ {text : Text}, 1 < text.length → ¬ text <:+: ['\n'] := fun hlength h =>
    absurd h.length_le (by simpa using hlength)
  have hsentinel : sentinel = _ := String.toList_ofList
  rintro (h | ⟨-, h | h⟩)
  · rw [hsentinel] at h
    exact hlong (by decide) h
  · rw [String.toList_ofList] at h
    exact hlong (by decide) h
  · rw [String.toList_ofList] at h
    exact hlong (by decide) h

/-- The blank line before the marker stays. -/
theorem blank_left (dir : Text) :
    (scan dir false (cut isPyBreak (readText (entry .other dir)))).1 ≠ [] := by
  have hblank : ∀ line ∈ [['\n']], ¬ IsOwn dir line := by
    intro line hline
    rw [List.mem_singleton.mp hline]
    exact isOwn_blank dir
  have hread : readText (entry .other dir) =
      '\n' :: readText (sentinel ++ '\n' :: (pathExport dir ++ ['\n'])) := readText_cons (by decide) _
  have hended : Ended isPyBreak ['\n'] := ⟨[], '\n', rfl, by simp, rfl⟩
  rw [hread, ← List.singleton_append, Lines.cut_ended hended, ← List.singleton_append, scan_append hblank]
  exact List.cons_ne_nil _ _

theorem scan_alternating {lines : List Text} (h : ∀ line ∈ lines, ¬ takes dir line) :
    (scan dir false lines).1 = [] ↔ Alternating lines := by
  fun_induction Alternating lines with
  | case1 => simp [scan]
  | case2 line =>
    have htakes := h line List.mem_cons_self
    rw [scan, if_neg htakes]
    split
    · rename_i hsentinel
      exact iff_of_true rfl hsentinel
    · rename_i hsentinel
      exact iff_of_false (List.cons_ne_nil _ _) hsentinel
  | case3 line other lines ih =>
    have htakes := h line List.mem_cons_self
    have hrest := ih fun line hline => h line (List.mem_cons_of_mem _ (List.mem_cons_of_mem _ hline))
    rw [scan, if_neg htakes]
    split
    · rename_i hsentinel
      simpa [scan, hsentinel] using hrest
    · rename_i hsentinel
      exact iff_of_false (List.cons_ne_nil _ _) fun halt => hsentinel halt.1

/-- A name with a line end stands in a line only if it ends with it. -/
theorem ended_of_takes {line : Text} (hline : Ended isPyBreak line) (hdir : ¬ SingleLine dir)
    (h : takes dir line) : Ended isPyBreak dir := by
  obtain ⟨body, c, rfl, hbody, hc⟩ := hline
  obtain ⟨front, back, hsplit⟩ := h.1
  obtain rfl | ⟨back, d, rfl⟩ := List.eq_nil_or_concat back
  · rw [List.append_nil] at hsplit
    obtain rfl | ⟨start, d, rfl⟩ := List.eq_nil_or_concat dir
    · exact absurd (fun x hx => absurd hx List.not_mem_nil) hdir
    · rw [List.concat_eq_append, ← List.append_assoc] at hsplit
      obtain ⟨rfl, hd⟩ := List.append_inj' hsplit rfl
      obtain rfl := List.head_eq_of_cons_eq hd
      refine ⟨start, d, List.concat_eq_append, fun x hx => hbody x (List.mem_append_right _ hx), hc⟩
  · rw [List.concat_eq_append, ← List.append_assoc] at hsplit
    obtain ⟨rfl, -⟩ := List.append_inj' hsplit rfl
    refine absurd (fun x hx => hbody x ?_) hdir
    exact List.mem_append_left _ (List.mem_append_right _ hx)

theorem fish_swallowed (dir : Text) : (scan dir false (cut isPyBreak (readText (entry .fish dir)))).1 = [] ↔
    SingleLine dir ∨ Alternating (cut isPyBreak (readText (entry .fish dir))) := by
  have hlast : ∀ c ∈ (readText (entry .fish dir)).getLast?, isPyBreak c = true := by
    rw [readText_last (entry_last .fish dir)]
    intro c hc
    rw [← Option.some.inj hc]
    rfl
  by_cases hsingle : SingleLine dir
  · have hexport : SingleLine (fishExport dir) := fishExport_single hsingle
    have hclean : '\r' ∉ entry .fish dir := by
      intro hmem
      obtain hmem | hmem := List.mem_append.mp hmem
      · exact absurd (hexport _ hmem) (by decide)
      · exact absurd hmem (by decide)
    have hended : Ended isPyBreak (entry .fish dir) := ⟨fishExport dir, '\n', rfl, hexport, rfl⟩
    have hcut := Lines.cut_ended hended []
    rw [List.append_nil] at hcut
    have htakes : takes dir (entry .fish dir) :=
      ⟨⟨"fish_add_path ".toList, ['\n'], rfl⟩, .inr ⟨[], ' ' :: (dir ++ ['\n']), rfl⟩⟩
    refine iff_of_true ?_ (.inl hsingle)
    rw [Lines.readText_eq_self _ hclean, hcut]
    change (scan dir false [entry .fish dir]).1 = []
    rw [scan, if_pos htakes]
    split
    · rfl
    · rfl
  · refine Iff.trans ?_ (or_iff_right hsingle).symm
    by_cases htaken : ∃ line ∈ cut isPyBreak (readText (entry .fish dir)), takes dir line
    · obtain ⟨line, hline, htakes⟩ := htaken
      obtain ⟨front, c, rfl, hfront, hc⟩ := ended_of_takes (Lines.ended_cut hlast line hline) hsingle htakes
      have hcmem : c ∈ readText (entry .fish (front ++ [c])) :=
        (Lines.infix_of_cut hline).subset
          (htakes.1.subset (List.mem_append_right _ (List.mem_singleton_self c)))
      have hreturn : c ≠ '\r' := by
        intro h
        rw [h] at hcmem
        exact readText_clean _ hcmem
      have hstart : SingleLine (fishExport front) := fishExport_single hfront
      have hclean : '\r' ∉ fishExport front ++ [c] ++ ['\n'] := by
        simp only [List.mem_append, List.mem_singleton, not_or]
        refine ⟨⟨fun hmem => ?_, Ne.symm hreturn⟩, by decide⟩
        exact absurd (hstart _ hmem) (by decide)
      have hentry : entry .fish (front ++ [c]) = fishExport front ++ [c] ++ ['\n'] :=
        congrArg (· ++ ['\n']) (List.append_assoc _ front [c]).symm
      have hended : Ended isPyBreak (fishExport front ++ [c]) := ⟨_, c, rfl, hstart, hc⟩
      have hcut : cut isPyBreak ['\n'] = [['\n']] := rfl
      have hblank := isOwn_blank (front ++ [c])
      obtain ⟨hsentinel, htakes'⟩ := not_or.mp hblank
      rw [hentry, Lines.readText_eq_self _ hclean, Lines.cut_ended hended, hcut, scan]
      split
      · rename_i hmarked
        exact iff_of_true rfl ⟨hmarked, trivial⟩
      · rename_i hmarked
        refine iff_of_false ?_ fun halt => hmarked halt.1
        rw [scan, if_neg hsentinel, if_neg htakes']
        split
        · exact List.cons_ne_nil _ _
        · exact List.cons_ne_nil _ _
    · exact scan_alternating fun line hline htakes => htaken ⟨line, hline, htakes⟩

end Installing

section Removing

variable {dir : Text}

theorem rest_quiet_self {text : Text} (h : ∀ line ∈ cut isPyBreak text, ¬ IsOwn dir line) :
    rest dir text = text := by
  have hall := congrArg Prod.fst (scan_append h [])
  rw [List.append_nil] at hall
  rw [rest, hall, scan, List.append_nil, Lines.flatten_cut]

theorem rest_append {front back : Text} (hend : ∀ c ∈ front.getLast?, isPyBreak c = true)
    (h : ∀ line ∈ cut isPyBreak front, ¬ IsOwn dir line) :
    rest dir (front ++ back) = front ++ rest dir back := by
  rw [rest, Lines.cut_append hend, scan_append h, List.flatten_append, Lines.flatten_cut]
  rfl

theorem bare_ended {line : Bytes} (h : Ended (· = 10) line) : line = bare line ++ [10] := by
  obtain ⟨body, c, rfl, hbody, hc⟩ := h
  obtain rfl : c = 10 := by simpa using hc
  have hpos : ∀ x ∈ body, decide (x ≠ 10) = true := by
    intro x hx
    simpa using hbody x hx
  rw [bare, List.takeWhile_append_of_pos hpos]
  simp

theorem bare_open {line : Bytes} (h : ∀ x ∈ line, decide (x = 10) = false) : bare line = line := by
  refine List.takeWhile_eq_self_iff.mpr fun x hx => ?_
  simpa using h x hx

theorem encode_line (text : Text) : encode (text ++ ['\n']) = encode text ++ [10] := by
  rw [Utf8.encode_append]
  rfl

/-- The installer's two lines are removed, and what is behind them is edited as if it stood
alone. -/
theorem rest_own {last : Text} (hdir : SingleLine dir)
    (hlast : last = pathExport dir ++ ['\n'] ∨ last = pathExport dir)
    (back : Text) (hback : last = pathExport dir → back = []) :
    rest dir (sentinel ++ ['\n'] ++ last ++ back) = rest dir back := by
  have hmarker : Ended isPyBreak (sentinel ++ ['\n']) := ⟨sentinel, '\n', rfl, sentinel_single, rfl⟩
  have hexport := pathExport_single hdir
  have hcut : cut isPyBreak (last ++ back) = last :: cut isPyBreak back := by
    obtain rfl | rfl := hlast
    · exact Lines.cut_ended ⟨_, '\n', rfl, hexport, rfl⟩ back
    · rw [hback rfl, List.append_nil]
      exact Lines.cut_open (List.cons_ne_nil _ _) hexport
  have hsentinel : sentinel <:+: sentinel ++ ['\n'] := (List.prefix_append _ _).isInfix
  rw [rest, List.append_assoc, Lines.cut_ended hmarker, hcut, scan, if_pos hsentinel]
  rfl

/-- Beside the installer's lines the edit keeps everything that is clean and quiet. -/
theorem rest_lines (hdir : SingleLine dir) {lines : List Bytes} (hparts : Parts (· = 10) lines) {text : Text}
    (hclean : '\r' ∉ text) (htext : (withoutOwn dir lines).flatten = encode text)
    (hquiet : ∀ line ∈ cut isPyBreak text, ¬ IsOwn dir line) : rest dir (textOf lines.flatten) = text := by
  have hreturn : ∀ last, '\r' ∉ last → '\r' ∉ sentinel ++ ['\n'] ++ last := by
    intro last hlast hmem
    obtain hmem | hmem := List.mem_append.mp hmem
    · obtain hmem | hmem := List.mem_append.mp hmem
      · exact sentinel_single.clean hmem
      · exact absurd hmem (by decide)
    · exact hlast hmem
  have hexport := (pathExport_single hdir).clean
  fun_induction withoutOwn dir lines generalizing text with
  | case1 first second lines hown ih =>
    obtain ⟨hfirst, hsecond⟩ := hown
    obtain ⟨hended | ⟨hnil, -⟩, hrest⟩ := hparts
    · have hmarker : first = encode (sentinel ++ ['\n']) := by
        rw [bare_ended hended, hfirst, encode_line]
      obtain ⟨hended' | ⟨rfl, -, hopen⟩, hlines⟩ := hrest
      · have hline : second = encode (pathExport dir ++ ['\n']) := by
          rw [bare_ended hended', hsecond, encode_line]
        have hflat : (first :: second :: lines).flatten =
            encode (sentinel ++ ['\n'] ++ (pathExport dir ++ ['\n'])) ++ lines.flatten := by
          rw [List.flatten_cons, List.flatten_cons, hmarker, hline, ← List.append_assoc, ← Utf8.encode_append]
        have hlast : '\r' ∉ pathExport dir ++ ['\n'] := by
          intro hmem
          obtain hmem | hmem := List.mem_append.mp hmem
          · exact hexport hmem
          · exact absurd hmem (by decide)
        have hback : pathExport dir ++ ['\n'] = pathExport dir → textOf lines.flatten = [] := by
          intro h
          exact absurd (List.append_right_eq_self.mp h) (List.cons_ne_nil _ _)
        rw [hflat, textOf_append (hreturn _ hlast), rest_own hdir (.inl rfl) _ hback]
        exact ih hlines hclean htext hquiet
      · have hline : second = encode (pathExport dir) := by
          rw [← bare_open hopen, hsecond]
        have hflat : [first, second].flatten = encode (sentinel ++ ['\n'] ++ pathExport dir) := by
          rw [List.flatten_cons, List.flatten_singleton, hmarker, hline, ← Utf8.encode_append]
        have hown := rest_own hdir (.inr rfl) [] fun _ => rfl
        rw [List.append_nil] at hown
        rw [hflat, textOf_encode (hreturn _ hexport), hown]
        exact ih hlines hclean htext hquiet
    · cases hnil
  | case2 first second lines hown ih =>
    obtain ⟨hended | ⟨hnil, -⟩, hrest⟩ := hparts
    · rw [List.flatten_cons, bare_ended hended, List.append_assoc] at htext
      obtain ⟨front, back, rfl, hfront, hback⟩ := Utf8.encode_split (x := 10) (by decide) htext.symm
      have hsplit : front ++ Utf8.letter 10 :: back = front ++ ['\n'] ++ back := by
        rw [List.append_assoc]
        rfl
      rw [hsplit] at hclean hquiet ⊢
      have hend : ∀ c ∈ (front ++ ['\n']).getLast?, isPyBreak c = true := by
        rw [List.getLast?_concat]
        intro c hc
        rw [← Option.some.inj hc]
        rfl
      rw [Lines.cut_append hend] at hquiet
      obtain ⟨hfrontQuiet, hbackQuiet⟩ := List.forall_mem_append.mp hquiet
      have hbackClean : '\r' ∉ back := fun h => hclean (List.mem_append_right _ h)
      have hflat : (first :: second :: lines).flatten =
          encode (front ++ ['\n']) ++ (second :: lines).flatten := by
        rw [List.flatten_cons, encode_line, ← hfront, ← bare_ended hended]
      rw [hflat, textOf_append fun h => hclean (List.mem_append_left _ h), rest_append hend hfrontQuiet,
        ih hrest hbackClean hback hbackQuiet]
    · cases hnil
  | case3 lines hshort =>
    rw [htext, textOf_encode hclean]
    exact rest_quiet_self hquiet

end Removing

section Results

theorem harmless_iff (shell : Shell) (dir : Text) (content : Bytes) :
    OwnLinesOnly shell dir content ↔ Harmless shell dir content := by
  constructor
  · rintro ⟨-, -, hrestored⟩
    by_cases hmentions : mentions dir content
    · rw [updatePath, if_pos hmentions] at hrestored
      exact ⟨edit_eq_self.mp hrestored, .inl hmentions⟩
    · rw [updatePath, if_neg hmentions] at hrestored
      obtain ⟨hquiet, hclean, hnone⟩ := (taken_back (entry_last shell dir)).mp hrestored
      cases shell with
      | other => exact absurd hnone (blank_left dir)
      | fish => exact ⟨hquiet, .inr ⟨rfl, hclean, (fish_swallowed dir).mp hnone⟩⟩
  · rintro ⟨hquiet, hinstalled⟩
    have hedit := edit_quiet hquiet
    refine ⟨hedit.trans (removeOwn_quiet hquiet).symm, fun _ => hedit, ?_⟩
    rw [updatePath]
    split
    · exact hedit
    · rename_i hmentions
      obtain h | ⟨rfl, hclean, hname⟩ := hinstalled
      · exact absurd h hmentions
      · exact (taken_back (entry_last .fish dir)).mpr ⟨hquiet, hclean, (fish_swallowed dir).mpr hname⟩

theorem separate_iff {dir : Text} (hdir : SingleLine dir) (content : Bytes) :
    edit dir content = removeOwn dir content ↔ Separate dir content := by
  constructor
  · intro h
    by_cases hown : Removable dir (textOf content)
    · obtain ⟨text, hclean, hwritten, hquiet⟩ := edit_written hown
      rw [h] at hwritten
      refine ⟨?_, .inr ⟨text, hclean, hwritten⟩⟩
      rw [hwritten, textOf_encode hclean]
      exact hquiet
    · have hsame := removeOwn_quiet hown
      refine ⟨?_, .inl hsame⟩
      rw [hsame]
      exact hown
  · rintro ⟨hquiet, hclean⟩
    by_cases hsame : removeOwn dir content = content
    · rw [hsame] at hquiet ⊢
      exact edit_quiet hquiet
    · obtain ⟨text, hreturn, htext⟩ := hclean.resolve_left hsame
      rw [htext, textOf_encode hreturn] at hquiet
      have hlines := rest_lines hdir (Lines.parts_cut _ content) hreturn htext
        fun line hline hown => hquiet ⟨line, hline, hown⟩
      rw [Lines.flatten_cut] at hlines
      have hown : Removable dir (textOf content) := by
        by_contra hnone
        exact hsame (removeOwn_quiet hnone)
      rw [edit_own hown, hlines, htext]

/-- The edit touches nothing but the installer's own lines, and uninstalling undoes the
installation, just where the file is harmless; what it removes is right where the installer's
lines stand apart. -/
theorem own_lines_only_iff (shell : Shell) (dir : Text) (content : Bytes) :
    (OwnLinesOnly shell dir content ↔ Harmless shell dir content) ∧
      (SingleLine dir → (edit dir content = removeOwn dir content ↔ Separate dir content)) :=
  ⟨harmless_iff shell dir content, fun hdir => separate_iff hdir content⟩

/-- A path that begins with the directory's name is no path of the installer. -/
theorem sibling_export_removed : ¬ ∀ (shell : Shell) (dir : Text) (content : Bytes),
    OwnLinesOnly shell dir content := by
  intro h
  have hunmarked := (h .other "/opt/ma/bin".toList
    (encode "export PATH=/opt/ma/bin-tools:$PATH\n".toList)).unmarked (by decide +kernel)
  exact absurd hunmarked (by decide +kernel)

variable {P : Type} [DecidableEq P] (child : P → String → P)

end Results

end MemoryArchive.Updater.ShellRc
