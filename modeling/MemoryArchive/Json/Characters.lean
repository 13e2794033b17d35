import MemoryArchive.Json.Printer

namespace MemoryArchive.Json

mutual

/-- Every character of every string and every member name in the value. -/
def allChars (p : Char → Bool) : Json → Bool
  | .str s => s.toList.all p
  | .arr items => allCharsItems p items
  | .obj fields => allCharsFields p fields
  | .null | .bool _ | .num _ => true

def allCharsItems (p : Char → Bool) : List Json → Bool
  | [] => true
  | j :: items => allChars p j && allCharsItems p items

def allCharsFields (p : Char → Bool) : Fields → Bool
  | [] => true
  | (k, v) :: fields => k.toList.all p && allChars p v && allCharsFields p fields

end

mutual

theorem allChars_true : ∀ j : Json, allChars (fun _ => true) j = true
  | .null | .bool _ | .num _ | .str _ => by simp [allChars]
  | .arr items => by simpa [allChars] using allCharsItems_true items
  | .obj fields => by simpa [allChars] using allCharsFields_true fields

theorem allCharsItems_true : ∀ items : List Json, allCharsItems (fun _ => true) items = true
  | [] => rfl
  | j :: items => by simp [allCharsItems, allChars_true j, allCharsItems_true items]

theorem allCharsFields_true : ∀ fields : Fields, allCharsFields (fun _ => true) fields = true
  | [] => rfl
  | (_, v) :: fields => by simp [allCharsFields, allChars_true v, allCharsFields_true fields]

end

def isPrintableAscii (c : Char) : Bool := 0x20 ≤ c.toNat && c.toNat < 0x7f

theorem printable_numberChar (c : Char) (hc : isNumberChar c = true) : isPrintableAscii c = true := by
  simp only [isNumberChar, Bool.or_eq_true, decide_eq_true_eq] at hc
  obtain ((((hc | rfl) | rfl) | rfl) | rfl) | rfl := hc
  · have h : c.val ≥ 48 ∧ c.val ≤ 57 := by simpa [Char.isDigit] using hc
    have h₁ : 48 ≤ c.toNat := UInt32.le_iff_toNat_le.mp h.1
    have h₂ : c.toNat ≤ 57 := UInt32.le_iff_toNat_le.mp h.2
    simp only [isPrintableAscii, Bool.and_eq_true, decide_eq_true_eq]
    omega
  all_goals rfl

theorem printable_hexDigit : ∀ n < 16, isPrintableAscii (hexDigit n) = true := by decide

/-- A serialiser leaves no character below the blank in a string: it escapes
them, and an escape is printable. -/
theorem escape_printable (c : Char) :
    (∀ d ∈ escape c, isPrintableAscii d = true) ∨ escape c = [c] ∧ 0x20 ≤ c.toNat := by
  unfold escape
  split
  · exact .inl (List.all_eq_true.mp (by decide))
  split
  · exact .inl (List.all_eq_true.mp (by decide))
  split
  · exact .inl (List.all_eq_true.mp (by decide))
  split
  · exact .inl (List.all_eq_true.mp (by decide))
  split
  · exact .inl (List.all_eq_true.mp (by decide))
  split
  · exact .inl (List.all_eq_true.mp (by decide))
  split
  · exact .inl (List.all_eq_true.mp (by decide))
  split
  · rename_i hlt
    left
    have hhi := printable_hexDigit (c.toNat / 16) (by omega)
    have hlo := printable_hexDigit (c.toNat % 16) (by omega)
    have hp : ∀ d ∈ ['\\', 'u', '0'], isPrintableAscii d = true :=
      List.all_eq_true.mp (by decide)
    intro d hd
    simp only [List.mem_cons, List.not_mem_nil, or_false] at hd
    obtain rfl | rfl | rfl | rfl | rfl | rfl := hd
    · exact hp _ (by simp)
    · exact hp _ (by simp)
    · exact hp _ (by simp)
    · exact hp _ (by simp)
    · exact hhi
    · exact hlo
  · rename_i hlt
    exact .inr ⟨rfl, not_lt.mp hlt⟩

/-- The characters a serialiser can write for a value whose string characters
satisfy `p`: printable ones, the blanks of the layout and those of the strings
that it does not escape. -/
structure Covers (p q : Char → Bool) (L : Layout) : Prop where
  ascii : ∀ c, isPrintableAscii c = true → q c = true
  text : ∀ c, p c = true → 0x20 ≤ c.toNat → q c = true
  opening : ∀ d, (L.opening d).all q = true
  comma : ∀ d, (L.comma d).all q = true
  closing : ∀ d, (L.closing d).all q = true
  colon : L.colon.all q = true

section Characters

variable {p q : Char → Bool} {L : Layout}

theorem all_of_printable (h : Covers p q L) (cs : List Char)
    (hcs : cs.all isPrintableAscii = true) : cs.all q = true :=
  List.all_eq_true.mpr fun c hc => h.ascii c (List.all_eq_true.mp hcs c hc)

theorem all_quote (h : Covers p q L) (s : String) (hs : s.toList.all p = true) :
    (quote s).all q = true := by
  have hq : q '"' = true := h.ascii '"' rfl
  have hbody : ∀ c ∈ s.toList, (escape c).all q = true := by
    intro c hc
    have hp : p c = true := List.all_eq_true.mp hs c hc
    refine List.all_eq_true.mpr fun d hd => ?_
    obtain ha | ⟨he, hle⟩ := escape_printable c
    · exact h.ascii d (ha d hd)
    · rw [he, List.mem_singleton] at hd
      subst d
      exact h.text c hp hle
  simp only [quote, List.all_append, List.all_cons, List.all_flatMap, List.all_nil, hq,
    Bool.true_and, Bool.and_true]
  exact List.all_eq_true.mpr hbody

mutual

theorem all_print (h : Covers p q L) (d : Nat) :
    ∀ j : Json, allChars p j = true → (print L d j).all q = true
  | .null, _ | .bool true, _ | .bool false, _ => all_of_printable h _ (by rfl)
  | .num n, _ => by
      simp only [print]
      exact List.all_eq_true.mpr fun c hc => h.ascii c (printable_numberChar c (n.numberChar c hc))
  | .str s, hs => by
      simp only [print]
      exact all_quote h s (by simpa [allChars] using hs)
  | .arr items, hj => by
      have hi := all_printItems h d items (by simpa [allChars] using hj)
      simp [print, hi, h.ascii '[' rfl, h.ascii ']' rfl]
  | .obj fields, hj => by
      have hf := all_printFields h d fields (by simpa [allChars] using hj)
      simp [print, hf, h.ascii '{' rfl, h.ascii '}' rfl]

theorem all_printItems (h : Covers p q L) (d : Nat) :
    ∀ items : List Json, allCharsItems p items = true → (printItems L d items).all q = true
  | [], _ => by simp [printItems]
  | j :: items, hj => by
      simp only [allCharsItems, Bool.and_eq_true] at hj
      have hp := all_print h (d + 1) j hj.1
      have hm := all_printMoreItems h d items hj.2
      rw [printItems, List.all_append, List.all_append, h.opening d, hp, hm]
      rfl

theorem all_printMoreItems (h : Covers p q L) (d : Nat) :
    ∀ items : List Json, allCharsItems p items = true → (printMoreItems L d items).all q = true
  | [], _ => by rw [printMoreItems, h.closing d]
  | j :: items, hj => by
      simp only [allCharsItems, Bool.and_eq_true] at hj
      have hp := all_print h (d + 1) j hj.1
      have hm := all_printMoreItems h d items hj.2
      rw [printMoreItems, List.all_append, List.all_append, List.all_cons, h.ascii ',' rfl,
        h.comma d, hp, hm]
      rfl

theorem all_printFields (h : Covers p q L) (d : Nat) :
    ∀ fields : Fields, allCharsFields p fields = true → (printFields L d fields).all q = true
  | [], _ => by simp [printFields]
  | (k, v) :: fields, hj => by
      simp only [allCharsFields, Bool.and_eq_true] at hj
      have hk := all_quote h k hj.1.1
      have hp := all_print h (d + 1) v hj.1.2
      have hm := all_printMoreFields h d fields hj.2
      simp only [printFields, List.all_append, List.all_cons, h.ascii ':' rfl, h.opening d, h.colon,
        hk, hp, hm, Bool.and_self]

theorem all_printMoreFields (h : Covers p q L) (d : Nat) :
    ∀ fields : Fields, allCharsFields p fields = true → (printMoreFields L d fields).all q = true
  | [], _ => by rw [printMoreFields, h.closing d]
  | (k, v) :: fields, hj => by
      simp only [allCharsFields, Bool.and_eq_true] at hj
      have hk := all_quote h k hj.1.1
      have hp := all_print h (d + 1) v hj.1.2
      have hm := all_printMoreFields h d fields hj.2
      simp only [printMoreFields, List.all_append, List.all_cons, h.ascii ',' rfl, h.ascii ':' rfl,
        h.comma d, h.colon, hk, hp, hm, Bool.and_self]

end

end Characters

end MemoryArchive.Json
