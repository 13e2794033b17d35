import MemoryArchive.Text.Search

namespace MemoryArchive.Lines

/-- The length of a text in bytes. -/
def byteLen : List Char → Nat
  | [] => 0
  | c :: text => c.utf8Size + byteLen text

/-- The text up to an offset in bytes. There is none unless a character ends at the offset. -/
def sliceTo : List Char → Nat → Option (List Char)
  | _, 0 => some []
  | [], _ + 1 => none
  | c :: text, offset + 1 =>
      if c.utf8Size ≤ offset + 1 then (sliceTo text (offset + 1 - c.utf8Size)).map (c :: ·) else none

/-- The text from an offset in bytes on. There is none unless a character begins at the
offset or the text ends there. -/
def sliceFrom : List Char → Nat → Option (List Char)
  | text, 0 => some text
  | [], _ + 1 => none
  | c :: text, offset + 1 => if c.utf8Size ≤ offset + 1 then sliceFrom text (offset + 1 - c.utf8Size) else none

/-- The text between two offsets, which have to be in order. -/
def slice (text : List Char) (first last : Nat) : Option (List Char) :=
  if first ≤ last then (sliceTo text last).bind fun front => sliceFrom front first else none

/-- The offset of the first occurrence of a pattern. -/
def findOffset (pattern : List Char) : List Char → Option Nat
  | [] => if pattern = [] then some 0 else none
  | c :: text =>
      if pattern.isPrefixOf (c :: text) then some 0 else (findOffset pattern text).map (· + c.utf8Size)

/-- The offset of the last occurrence of a pattern. -/
def rfindOffset (pattern : List Char) : List Char → Option Nat
  | [] => if pattern = [] then some 0 else none
  | c :: text =>
      match rfindOffset pattern text with
      | some offset => some (offset + c.utf8Size)
      | none => if pattern.isPrefixOf (c :: text) then some 0 else none

/-- The offset of the first character with a property. -/
def findChar (p : Char → Bool) : List Char → Option Nat
  | [] => none
  | c :: text => if p c then some 0 else (findChar p text).map (· + c.utf8Size)

/-- The characters of a text with their offsets. -/
def charOffsets (start : Nat) : List Char → List (Nat × Char)
  | [] => []
  | c :: text => (start, c) :: charOffsets (start + c.utf8Size) text

section Bytes

variable (front back text pattern : List Char)

@[simp] theorem byteLen_append : byteLen (front ++ back) = byteLen front + byteLen back := by
  induction front with
  | nil => exact (Nat.zero_add _).symm
  | cons c front ih =>
    rw [List.cons_append, byteLen, byteLen, ih, Nat.add_assoc]

@[simp] theorem sliceTo_append : sliceTo (front ++ back) (byteLen front) = some front := by
  induction front with
  | nil => rw [byteLen, sliceTo.eq_def]
  | cons c front ih =>
    obtain ⟨size, hsize⟩ := Nat.exists_eq_succ_of_ne_zero c.utf8Size_pos.ne'
    have hsum : byteLen (c :: front) = (size + byteLen front) + 1 := by
      rw [byteLen, hsize]
      omega
    rw [hsum, List.cons_append, sliceTo, if_pos (by omega)]
    have hrest : size + byteLen front + 1 - c.utf8Size = byteLen front := by omega
    rw [hrest, ih]
    rfl

@[simp] theorem sliceFrom_append : sliceFrom (front ++ back) (byteLen front) = some back := by
  induction front with
  | nil =>
    rw [byteLen, List.nil_append]
    cases back <;> rfl
  | cons c front ih =>
    obtain ⟨size, hsize⟩ := Nat.exists_eq_succ_of_ne_zero c.utf8Size_pos.ne'
    have hsum : byteLen (c :: front) = (size + byteLen front) + 1 := by
      rw [byteLen, hsize]
      omega
    rw [hsum, List.cons_append, sliceFrom, if_pos (by omega)]
    have hrest : size + byteLen front + 1 - c.utf8Size = byteLen front := by omega
    rw [hrest, ih]

theorem slice_append (middle : List Char) :
    slice (front ++ (middle ++ back)) (byteLen front) (byteLen (front ++ middle)) = some middle := by
  rw [slice, if_pos (by simp), ← List.append_assoc, sliceTo_append]
  exact sliceFrom_append front middle

theorem sliceTo_take (n : Nat) : sliceTo text (byteLen (text.take n)) = some (text.take n) := by
  have h := sliceTo_append (text.take n) (text.drop n)
  rwa [List.take_append_drop] at h

theorem sliceFrom_take (n : Nat) : sliceFrom text (byteLen (text.take n)) = some (text.drop n) := by
  have h := sliceFrom_append (text.take n) (text.drop n)
  rwa [List.take_append_drop] at h

theorem findOffset_eq : findOffset pattern text = (find pattern text).map fun at_ => byteLen (text.take at_) := by
  induction text with
  | nil =>
    rw [findOffset, find]
    split <;> rfl
  | cons c text ih =>
    rw [findOffset, find]
    split
    · rfl
    · rw [ih, Option.map_map, Option.map_map]
      congr 1
      funext at_
      exact Nat.add_comm _ _

theorem rfindOffset_eq : rfindOffset pattern text = (rfind pattern text).map fun at_ => byteLen (text.take at_) := by
  induction text with
  | nil =>
    rw [rfindOffset, rfind]
    split <;> rfl
  | cons c text ih =>
    rw [rfindOffset, rfind, ih]
    cases rfind pattern text with
    | some at_ => exact congrArg some (Nat.add_comm _ _)
    | none =>
      dsimp only [Option.map_none]
      split <;> rfl

theorem findChar_eq (p : Char → Bool) :
    (findChar p text).getD (byteLen text) = byteLen (text.takeWhile fun c => !p c) := by
  induction text with
  | nil => rfl
  | cons c text ih =>
    rw [findChar, List.takeWhile_cons]
    cases hc : p c with
    | true => rfl
    | false =>
      have hnext : ∀ found : Option Nat, (found.map (· + c.utf8Size)).getD (byteLen (c :: text)) =
          c.utf8Size + found.getD (byteLen text) := by
        intro found
        cases found with
        | none => rfl
        | some offset => exact Nat.add_comm _ _
      simp only [Bool.false_eq_true, if_false, Bool.not_false, if_true]
      rw [hnext, ih]
      rfl

theorem byteLen_found {pattern text : List Char} {at_ : Nat} (h : find pattern text = some at_) :
    byteLen (text.take (at_ + pattern.length)) = byteLen (text.take at_) + byteLen pattern := by
  obtain ⟨hsplit, hlen⟩ := find_split h
  have htake : text.take (at_ + pattern.length) = text.take at_ ++ pattern := by
    conv_lhs => rw [hsplit]
    refine List.take_left' ?_
    rw [List.length_append, List.length_take_of_le (by omega)]
  rw [htake, byteLen_append]

theorem sliceFrom_found {pattern text : List Char} {at_ : Nat} (h : find pattern text = some at_) :
    sliceFrom text (byteLen (text.take at_) + byteLen pattern) = some (text.drop (at_ + pattern.length)) := by
  rw [← byteLen_found h, sliceFrom_take]

theorem rfind_le {pattern text : List Char} {at_ : Nat} (h : rfind pattern text = some at_) : at_ ≤ text.length := by
  induction text generalizing at_ with
  | nil =>
    rw [rfind] at h
    split at h
    · cases h
      exact Nat.le_refl _
    · cases h
  | cons c text ih =>
    rw [rfind] at h
    split at h
    · rename_i earlier hearlier
      cases h
      exact Nat.succ_le_succ (ih hearlier)
    · split at h
      · cases h
        exact Nat.zero_le _
      · cases h

/-- A longer beginning of a text has more bytes. -/
theorem byteLen_take_le {n m : Nat} (hn : n ≤ text.length) :
    byteLen (text.take n) ≤ byteLen (text.take m) ↔ n ≤ m := by
  constructor
  · intro h
    by_contra hlt
    rw [not_le] at hlt
    have hsplit : text.take n = text.take m ++ (text.take n).drop m := by
      have htake : (text.take n).take m = text.take m := by
        rw [List.take_take, Nat.min_eq_left hlt.le]
      rw [← htake, List.take_append_drop]
    obtain ⟨c, rest, hrest⟩ := List.exists_cons_of_length_pos (l := (text.take n).drop m) (by
      rw [List.length_drop, List.length_take]
      omega)
    have hpos := c.utf8Size_pos
    rw [hsplit, byteLen_append, hrest, byteLen] at h
    omega
  · intro h
    have hsplit : text.take m = text.take n ++ (text.take m).drop n := by
      have htake : (text.take m).take n = text.take n := by
        rw [List.take_take, Nat.min_eq_left h]
      rw [← htake, List.take_append_drop]
    rw [hsplit, byteLen_append]
    exact Nat.le_add_right _ _

end Bytes

section Ends

theorem charOffsets_append (start : Nat) (front back : List Char) :
    charOffsets start (front ++ back) = charOffsets start front ++ charOffsets (start + byteLen front) back := by
  induction front generalizing start with
  | nil => rfl
  | cons c front ih =>
    rw [List.cons_append, charOffsets, charOffsets, ih, byteLen, Nat.add_assoc]
    rfl

theorem none_rtakeWhile (p : Char → Bool) (text : List Char) (h : text.rtakeWhile p = []) :
    (charOffsets 0 text).reverse.takeWhile (fun entry => p entry.2) = [] := by
  obtain hnil | ⟨front, c, hc⟩ := List.eq_nil_or_concat' text
  · rw [hnil]
    rfl
  · have hdark : ¬ p c = true := by
      intro hp
      rw [hc, List.rtakeWhile_concat_pos _ _ _ hp] at h
      simp at h
    rw [hc, charOffsets_append, List.reverse_append]
    exact List.takeWhile_cons_of_neg hdark

/-- The last of the characters at the end that have a property begins where they begin. -/
theorem last_rtakeWhile (p : Char → Bool) (text : List Char) (hne : text.rtakeWhile p ≠ []) :
    (((charOffsets 0 text).reverse.takeWhile fun entry => p entry.2).map Prod.fst).getLast? =
      some (byteLen (text.rdropWhile p)) := by
  induction text using List.reverseRecOn with
  | nil => exact absurd rfl hne
  | append_singleton text c ih =>
    have hreverse : (charOffsets 0 (text ++ [c])).reverse = (byteLen text, c) :: (charOffsets 0 text).reverse := by
      rw [charOffsets_append, List.reverse_append, Nat.zero_add]
      rfl
    cases hc : p c with
    | false =>
      exact absurd (List.rtakeWhile_concat_neg p text c (by simp [hc])) hne
    | true =>
      have htake : ((byteLen text, c) :: (charOffsets 0 text).reverse).takeWhile (fun entry => p entry.2) =
          (byteLen text, c) :: (charOffsets 0 text).reverse.takeWhile fun entry => p entry.2 :=
        List.takeWhile_cons_of_pos hc
      rw [hreverse, htake, List.map_cons, List.rdropWhile_concat_pos _ _ _ hc]
      by_cases hrest : text.rtakeWhile p = []
      · have hown : text.rdropWhile p = text := by
          have hboth := List.rdropWhile_append_rtakeWhile (p := p) (l := text)
          rwa [hrest, List.append_nil] at hboth
        rw [none_rtakeWhile p text hrest, hown]
        rfl
      · rw [List.getLast?_cons, ih hrest]
        rfl

end Ends

end MemoryArchive.Lines
