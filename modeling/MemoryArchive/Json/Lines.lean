import MemoryArchive.Json.Characters
import MemoryArchive.Json.Parser
import MemoryArchive.Text.Lines

namespace MemoryArchive.Json

open Lines (isSeparator isPyBreak)

/-- A layout that keeps a value on one line: it adds no blank but the space. -/
structure Layout.OneLine (L : Layout) : Prop where
  opening : ∀ d, (L.opening d).all (· = ' ') = true
  comma : ∀ d, (L.comma d).all (· = ' ') = true
  closing : ∀ d, (L.closing d).all (· = ' ') = true
  colon : L.colon.all (· = ' ') = true

theorem oneLine_compact : Layout.compact.OneLine :=
  ⟨fun _ => rfl, fun _ => rfl, fun _ => rfl, rfl⟩

theorem oneLine_spaced : Layout.spaced.OneLine :=
  ⟨fun _ => rfl, fun _ => rfl, fun _ => rfl, rfl⟩

/-- A JSON Lines file: one value a line, each line ended. -/
def render (L : Layout) (js : List Json) : List Char := Lines.unlines (js.map (print L 0))

theorem all_space {q : Char → Bool} (hq : q ' ' = true) {cs : List Char}
    (h : cs.all (· = ' ') = true) : cs.all q = true := by
  refine List.all_eq_true.mpr fun c hc => ?_
  have he := List.all_eq_true.mp h c hc
  simp only [decide_eq_true_eq] at he
  rw [he, hq]

theorem covers_oneLine {p q : Char → Bool} {L : Layout} (hL : L.OneLine)
    (hascii : ∀ c, isPrintableAscii c = true → q c = true)
    (htext : ∀ c, p c = true → 0x20 ≤ c.toNat → q c = true) : Covers p q L :=
  have hs : q ' ' = true := hascii ' ' rfl
  ⟨hascii, htext, fun d => all_space hs (hL.opening d), fun d => all_space hs (hL.comma d),
    fun d => all_space hs (hL.closing d), all_space hs hL.colon⟩

theorem toNat_of_printable (c : Char) (h : isPrintableAscii c = true) :
    0x20 ≤ c.toNat ∧ c.toNat < 0x7f := by
  simpa [isPrintableAscii] using h

theorem ne_newline_of_le (c : Char) (h : 0x20 ≤ c.toNat) : (!decide (c = '\n')) = true := by
  have hn : c ≠ '\n' := by
    rintro rfl
    revert h
    decide
  simp [hn]

/-- A serialiser escapes line feeds, so one value is one line for a reader
that splits at line feeds. -/
theorem print_oneLine {L : Layout} (hL : L.OneLine) (j : Json) :
    (print L 0 j).all (fun c => !decide (c = '\n')) = true := by
  have hc : Covers (fun _ => true) (fun c => !decide (c = '\n')) L :=
    covers_oneLine hL (fun c h => ne_newline_of_le c (toNat_of_printable c h).1)
      (fun c _ h => ne_newline_of_le c h)
  refine all_print hc 0 j ?_
  exact allChars_true j

/-- For a reader that splits at every Unicode line end it is one line only when
no string holds one of those that a serialiser leaves unescaped. -/
theorem print_pyLine {L : Layout} (hL : L.OneLine) (j : Json)
    (hj : allChars (fun c => !isSeparator c) j = true) :
    (print L 0 j).all (fun c => !isPyBreak c) = true := by
  have hascii : ∀ c, isPrintableAscii c = true → (!isPyBreak c) = true := by
    intro c h
    obtain ⟨hlo, hhi⟩ := toNat_of_printable c h
    have hs : isSeparator c = false := by
      simp only [isSeparator, Bool.or_eq_false_iff, decide_eq_false_iff_not]
      omega
    simp [Lines.isPyBreak_of_printable c hlo hs]
  have htext : ∀ c, (!isSeparator c) = true → 0x20 ≤ c.toNat → (!isPyBreak c) = true := by
    intro c hp h
    simp [Lines.isPyBreak_of_printable c h (by simpa using hp)]
  exact all_print (covers_oneLine hL hascii htext) 0 j hj

theorem strip_print_obj (blank : Char → Bool) (hopen : blank '{' = false) (hclose : blank '}' = false)
    (L : Layout) (fields : Fields) :
    Lines.strip blank (print L 0 (.obj fields)) = print L 0 (.obj fields) := by
  rw [print]
  exact Lines.strip_bracketed blank '{' '}' _ hopen hclose

/-- Splitting a JSON Lines file at line feeds gives its lines back. -/
theorem lines_render {L : Layout} (hL : L.OneLine) (js : List Json) :
    Lines.lines (render L js) = js.map (print L 0) := by
  refine Lines.split_unlines _ rfl _ fun l hl => ?_
  obtain ⟨j, _, rfl⟩ := List.mem_map.mp hl
  exact print_oneLine hL j

theorem splitlines_render {L : Layout} (hL : L.OneLine) (js : List Json)
    (hjs : ∀ j ∈ js, allChars (fun c => !isSeparator c) j = true) :
    Lines.splitlines (Lines.readText (render L js)) = js.map (print L 0) := by
  have hline : ∀ l ∈ js.map (print L 0), l.all (fun c => !isPyBreak c) = true := by
    intro l hl
    obtain ⟨j, hj, rfl⟩ := List.mem_map.mp hl
    exact print_pyLine hL j (hjs j hj)
  have hcr : '\r' ∉ render L js := by
    intro hm
    obtain ⟨l, hl, hc⟩ := List.mem_flatMap.mp hm
    obtain hc | hc := List.mem_append.mp hc
    · have hb := List.all_eq_true.mp (hline l hl) '\r' hc
      revert hb
      decide
    · revert hc
      decide
  rw [Lines.readText_eq_self _ hcr]
  exact Lines.split_unlines isPyBreak rfl _ hline

end MemoryArchive.Json
