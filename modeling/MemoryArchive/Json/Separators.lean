import MemoryArchive.Json.Lines
import MemoryArchive.Json.Numbers

namespace MemoryArchive

namespace Lines

variable (blank isBreak : Char → Bool)

theorem splitFrom_break {c : Char} (hc : isBreak c = true) (line rest acc : List Char) :
    splitFrom isBreak acc (line ++ c :: rest) =
      splitFrom isBreak acc (line ++ [c]) ++ splitFrom isBreak [] rest := by
  induction line generalizing acc with
  | nil => simp [splitFrom, hc]
  | cons d line ih =>
    rw [List.cons_append, List.cons_append, splitFrom, splitFrom]
    split
    · rw [ih]
      rfl
    · exact ih (d :: acc)

/-- A character that ends no line stays in the pieces. -/
theorem mem_splitFrom {c : Char} (hc : isBreak c = false) (text acc : List Char)
    (h : c ∈ acc ∨ c ∈ text) : c ∈ (splitFrom isBreak acc text).flatten := by
  induction text generalizing acc with
  | nil =>
    have hacc : c ∈ acc := h.resolve_right List.not_mem_nil
    cases acc with
    | nil => cases hacc
    | cons d acc => simpa [splitFrom] using Or.symm (List.mem_cons.mp hacc)
  | cons d text ih =>
    rw [splitFrom]
    split
    · rename_i hd
      rw [List.flatten_cons, List.mem_append, List.mem_reverse]
      obtain h | h := h
      · exact .inl h
      · obtain rfl | h := List.mem_cons.mp h
        · rw [hc] at hd
          cases hd
        · exact .inr (ih [] (.inr h))
    · refine ih (d :: acc) ?_
      obtain h | h := h
      · exact .inl (List.mem_cons_of_mem d h)
      · obtain rfl | h := List.mem_cons.mp h
        · exact .inl List.mem_cons_self
        · exact .inr h

theorem strip_ne_nil {c : Char} (hc : blank c = false) {line : List Char} (h : c ∈ line) :
    strip blank line ≠ [] := by
  intro hnil
  rw [strip, List.rdropWhile_eq_nil_iff] at hnil
  rw [← List.takeWhile_append_dropWhile (p := blank) (l := line), List.mem_append] at h
  obtain hmem | hmem := h
  · rw [List.mem_takeWhile_imp hmem] at hc
    cases hc
  · rw [hnil c hmem] at hc
    cases hc

/-- How many pieces are not blank. -/
def filled (pieces : List (List Char)) : Nat := pieces.countP fun piece => strip blank piece ≠ []

theorem filled_append (ps qs : List (List Char)) :
    filled blank (ps ++ qs) = filled blank ps + filled blank qs :=
  List.countP_append

variable {blank isBreak}

theorem filled_pos {c : Char} {text : List Char} (h : c ∈ text) (hbreak : isBreak c = false)
    (hblank : blank c = false) : 0 < filled blank (split isBreak text) := by
  obtain ⟨piece, hpiece, hc⟩ := List.mem_flatten.mp (mem_splitFrom isBreak hbreak text [] (.inr h))
  exact List.countP_pos_iff.mpr ⟨piece, hpiece, decide_eq_true (strip_ne_nil blank hblank hc)⟩

/-- A line whose first and last characters are not blank is cut in two pieces at
least by a line end in it. -/
theorem filled_cut {first last : Char} {body : List Char} (hfirst : blank first = false)
    (hlast : blank last = false) (hbreak : ∀ c, isBreak c = true → blank c = true) {c : Char}
    (hc : isBreak c = true) (h : c ∈ first :: body ++ [last]) (rest : List Char) :
    2 ≤ filled blank (split isBreak (first :: body ++ [last] ++ rest)) := by
  have hdark : ∀ d, blank d = false → isBreak d = false := by
    intro d hd
    cases hb : isBreak d with
    | false => rfl
    | true =>
      rw [hbreak d hb] at hd
      cases hd
  have hbody : c ∈ body := by
    obtain h | h := List.mem_append.mp h
    · obtain rfl | h := List.mem_cons.mp h
      · rw [hdark c hfirst] at hc
        cases hc
      · exact h
    · obtain rfl := List.mem_singleton.mp h
      rw [hdark c hlast] at hc
      cases hc
  obtain ⟨front, back, rfl⟩ := List.append_of_mem hbody
  have htext : first :: (front ++ c :: back) ++ [last] ++ rest =
      (first :: front) ++ c :: (back ++ [last] ++ rest) := by simp
  rw [htext, split, splitFrom_break isBreak hc, filled_append]
  have hone : 0 < filled blank (splitFrom isBreak [] (first :: front ++ [c])) :=
    filled_pos (List.mem_append_left [c] List.mem_cons_self) (hdark first hfirst) hfirst
  have htwo : 0 < filled blank (splitFrom isBreak [] (back ++ [last] ++ rest)) :=
    filled_pos (c := last) (by simp) (hdark last hlast) hlast
  omega

/-- Lines with no blank at either end have as many pieces that are not blank, and
more when one of them is cut. -/
theorem filled_unlines (hbreak : ∀ c, isBreak c = true → blank c = true) (hnl : isBreak '\n' = true)
    (lines : List (List Char))
    (hlines : ∀ l ∈ lines, ∃ first body last, l = first :: body ++ [last] ∧ blank first = false ∧
      blank last = false) :
    lines.length ≤ filled blank (split isBreak (unlines lines)) ∧
      (filled blank (split isBreak (unlines lines)) ≤ lines.length →
        ∀ l ∈ lines, l.all (fun c => !isBreak c) = true) := by
  induction lines with
  | nil => exact ⟨Nat.zero_le _, fun _ l hl => (by cases hl)⟩
  | cons l lines ih =>
    obtain ⟨hle, hcut⟩ := ih fun l' hl' => hlines l' (List.mem_cons_of_mem l hl')
    obtain ⟨first, body, last, hl, hfirst, hlast⟩ := hlines l List.mem_cons_self
    have hsplit : split isBreak (unlines (l :: lines)) =
        split isBreak (l ++ ['\n']) ++ split isBreak (unlines lines) := by
      have htext : unlines (l :: lines) = l ++ '\n' :: unlines lines := by simp [unlines]
      rw [htext, split, splitFrom_break isBreak hnl]
      rfl
    have hdark : isBreak first = false := by
      cases hb : isBreak first with
      | false => rfl
      | true =>
        rw [hbreak first hb] at hfirst
        cases hfirst
    have hone : 0 < filled blank (split isBreak (l ++ ['\n'])) := by
      refine filled_pos (c := first) ?_ hdark hfirst
      rw [hl]
      simp
    rw [hsplit, filled_append, List.length_cons]
    refine ⟨by omega, fun hcount => ?_⟩
    refine List.forall_mem_cons.mpr ⟨?_, hcut (by omega)⟩
    refine List.all_eq_true.mpr fun c hc => ?_
    cases hb : isBreak c with
    | false => rfl
    | true =>
      have htwo := filled_cut hfirst hlast hbreak hb (hl ▸ hc) ['\n']
      rw [← hl] at htwo
      omega

theorem pySpace_of_pyBreak (c : Char) (h : isPyBreak c = true) : isPySpace c = true := by
  simp only [isPyBreak, isSeparator, isPySpace, isWhiteSpace, Bool.or_eq_true, Bool.and_eq_true,
    decide_eq_true_eq] at h ⊢
  omega

end Lines

namespace Json

open Lines (isSeparator)

section Written

variable {p : Char → Bool}

/-- The characters that `p` rules out are written as they are. -/
def Literal (p : Char → Bool) : Prop := ∀ c, p c = false → c ∈ escape c

theorem all_of_quote (hp : Literal p) {s : String} (h : (quote s).all p = true) : s.toList.all p = true := by
  rw [quote, List.all_append, List.all_cons, List.all_flatMap] at h
  simp only [Bool.and_eq_true] at h
  refine List.all_eq_true.mpr fun c hc => ?_
  cases hpc : p c with
  | true => rfl
  | false =>
    have hall := List.all_eq_true.mp (List.all_eq_true.mp h.1.2 c hc) c (hp c hpc)
    rw [hpc] at hall
    exact hall

mutual

/-- Such a character does not come in the strings of a value that is written
without it. -/
theorem allChars_of_print (hp : Literal p) (L : Layout) (d : Nat) : ∀ j : Json, (print L d j).all p = true →
    allChars p j = true
  | .null, _ | .bool _, _ | .num _, _ => by simp [allChars]
  | .str s, h => by
      rw [print] at h
      rw [allChars]
      exact all_of_quote hp h
  | .arr items, h => by
      simp only [print, List.all_append, List.all_cons, Bool.and_eq_true] at h
      rw [allChars]
      exact allChars_of_printItems hp L d items h.1.2
  | .obj fields, h => by
      simp only [print, List.all_append, List.all_cons, Bool.and_eq_true] at h
      rw [allChars]
      exact allChars_of_printFields hp L d fields h.1.2

theorem allChars_of_printItems (hp : Literal p) (L : Layout) (d : Nat) : ∀ items : List Json,
    (printItems L d items).all p = true → allCharsItems p items = true
  | [], _ => rfl
  | j :: items, h => by
      simp only [printItems, List.all_append, Bool.and_eq_true] at h
      rw [allCharsItems, allChars_of_print hp L (d + 1) j h.1.2, allChars_of_printMoreItems hp L d items h.2]
      rfl

theorem allChars_of_printMoreItems (hp : Literal p) (L : Layout) (d : Nat) : ∀ items : List Json,
    (printMoreItems L d items).all p = true → allCharsItems p items = true
  | [], _ => rfl
  | j :: items, h => by
      simp only [printMoreItems, List.all_append, List.all_cons, Bool.and_eq_true] at h
      rw [allCharsItems, allChars_of_print hp L (d + 1) j h.1.2, allChars_of_printMoreItems hp L d items h.2]
      rfl

theorem allChars_of_printFields (hp : Literal p) (L : Layout) (d : Nat) : ∀ fields : Fields,
    (printFields L d fields).all p = true → allCharsFields p fields = true
  | [], _ => rfl
  | (k, v) :: fields, h => by
      simp only [printFields, List.all_append, List.all_cons, Bool.and_eq_true] at h
      rw [allCharsFields, all_of_quote hp h.1.1.1.2, allChars_of_print hp L (d + 1) v h.1.2,
        allChars_of_printMoreFields hp L d fields h.2]
      rfl

theorem allChars_of_printMoreFields (hp : Literal p) (L : Layout) (d : Nat) : ∀ fields : Fields,
    (printMoreFields L d fields).all p = true → allCharsFields p fields = true
  | [], _ => rfl
  | (k, v) :: fields, h => by
      simp only [printMoreFields, List.all_append, List.all_cons, Bool.and_eq_true] at h
      obtain ⟨⟨⟨⟨-, hk⟩, -⟩, hv⟩, hfields⟩ := h
      rw [allCharsFields, all_of_quote hp hk, allChars_of_print hp L (d + 1) v hv,
        allChars_of_printMoreFields hp L d fields hfields]
      rfl

end

end Written

mutual

theorem allChars_mapNumbers (p : Char → Bool) (f : Number → Number) : ∀ j : Json,
    allChars p (mapNumbers f j) = allChars p j
  | .null | .bool _ | .num _ | .str _ => by simp [mapNumbers, allChars]
  | .arr items => by simpa [mapNumbers, allChars] using allChars_mapItems p f items
  | .obj fields => by simpa [mapNumbers, allChars] using allChars_mapFields p f fields

theorem allChars_mapItems (p : Char → Bool) (f : Number → Number) : ∀ items : List Json,
    allCharsItems p (mapItems f items) = allCharsItems p items
  | [] => rfl
  | j :: items => by
      rw [mapItems, allCharsItems, allCharsItems, allChars_mapNumbers p f j, allChars_mapItems p f items]

theorem allChars_mapFields (p : Char → Bool) (f : Number → Number) : ∀ fields : Fields,
    allCharsFields p (mapFields f fields) = allCharsFields p fields
  | [] => rfl
  | (k, v) :: fields => by
      rw [mapFields, allCharsFields, allCharsFields, allChars_mapNumbers p f v, allChars_mapFields p f fields]

end

/-- A separator is not escaped. -/
theorem literal_separator : Literal fun c => !isSeparator c := by
  intro c hc
  have hsep : isSeparator c = true := by simpa using hc
  have hne : ∀ d : Char, isSeparator d = false → c ≠ d := by
    rintro d hd rfl
    rw [hsep] at hd
    cases hd
  have hge : ¬ c.toNat < 0x20 := by
    simp only [isSeparator, Bool.or_eq_true, decide_eq_true_eq] at hsep
    omega
  rw [escape, if_neg (hne _ rfl), if_neg (hne _ rfl), if_neg (hne _ rfl), if_neg (hne _ rfl),
    if_neg (hne _ rfl), if_neg (hne _ rfl), if_neg (hne _ rfl), if_neg hge]
  exact List.mem_singleton_self c

end Json

end MemoryArchive
