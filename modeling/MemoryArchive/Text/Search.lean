import Mathlib.Data.List.Infix
import MemoryArchive.Text.Lines

namespace MemoryArchive.Lines

/-- Where the first occurrence of a pattern begins. -/
def find (pattern : List Char) : List Char → Option Nat
  | [] => if pattern = [] then some 0 else none
  | c :: text => if pattern.isPrefixOf (c :: text) then some 0 else (find pattern text).map (· + 1)

/-- Where the last occurrence of a pattern begins. -/
def rfind (pattern : List Char) : List Char → Option Nat
  | [] => if pattern = [] then some 0 else none
  | c :: text =>
      match rfind pattern text with
      | some at_ => some (at_ + 1)
      | none => if pattern.isPrefixOf (c :: text) then some 0 else none

/-- The pieces between blanks, without those that are empty. -/
def words (blank : Char → Bool) (text : List Char) : List (List Char) := (text.splitOnP blank).filter (· ≠ [])

/-- What is left of a text before an ending, when it has that ending. -/
def dropEnding (ending text : List Char) : Option (List Char) :=
  if ending.isSuffixOf text then some (text.take (text.length - ending.length)) else none

/-- What is left of a text behind a beginning, when it has that beginning. -/
def dropBeginning (beginning text : List Char) : Option (List Char) :=
  if beginning.isPrefixOf text then some (text.drop beginning.length) else none

section Find

theorem find_split {pattern text : List Char} {at_ : Nat} (h : find pattern text = some at_) :
    text = text.take at_ ++ pattern ++ text.drop (at_ + pattern.length) ∧ at_ + pattern.length ≤ text.length := by
  induction text generalizing at_ with
  | nil =>
    rw [find] at h
    split at h
    · rename_i hnil
      cases h
      simp [hnil]
    · cases h
  | cons c text ih =>
    rw [find] at h
    split at h
    · rename_i hpre
      cases h
      obtain ⟨back, hback⟩ := List.isPrefixOf_iff_prefix.mp hpre
      rw [← hback]
      simp
    · obtain ⟨i, hi, rfl⟩ := Option.map_eq_some_iff.mp h
      obtain ⟨hsplit, hlen⟩ := ih hi
      constructor
      · rw [Nat.add_right_comm, List.take_succ_cons, List.drop_succ_cons]
        exact congrArg (c :: ·) hsplit
      · rw [List.length_cons]
        omega

/-- A pattern is found where it is, or earlier. -/
theorem find_le (pattern front back : List Char) :
    ∃ at_, find pattern (front ++ (pattern ++ back)) = some at_ ∧ at_ ≤ front.length := by
  induction front with
  | nil =>
    have hpre : pattern.isPrefixOf (pattern ++ back) = true :=
      List.isPrefixOf_iff_prefix.mpr (List.prefix_append pattern back)
    refine ⟨0, ?_, Nat.le_refl 0⟩
    rw [List.nil_append]
    cases htext : pattern ++ back with
    | nil => exact if_pos (List.append_eq_nil_iff.mp htext).1
    | cons c text =>
      rw [htext] at hpre
      exact if_pos hpre
  | cons c front ih =>
    obtain ⟨at_, hfind, hle⟩ := ih
    rw [List.cons_append, find, hfind]
    split
    · exact ⟨0, rfl, Nat.zero_le _⟩
    · exact ⟨at_ + 1, rfl, Nat.succ_le_succ hle⟩

/-- A pattern is found where it is, if it is not earlier. -/
theorem find_of_first {pattern text front back : List Char} (htext : text = front ++ (pattern ++ back))
    (hfirst : ∀ front' back', text = front' ++ (pattern ++ back') → front.length ≤ front'.length) :
    find pattern text = some front.length := by
  obtain ⟨at_, hfind, hle⟩ := find_le pattern front back
  rw [← htext] at hfind
  obtain ⟨hsplit, hlen⟩ := find_split hfind
  rw [List.append_assoc] at hsplit
  have hge := hfirst _ _ hsplit
  rw [List.length_take] at hge
  rw [hfind, show at_ = front.length by omega]

theorem find_eq_none {pattern text : List Char} (h : ∀ front back, text ≠ front ++ (pattern ++ back)) :
    find pattern text = none := by
  cases hfind : find pattern text with
  | none => rfl
  | some at_ =>
    have hsplit := (find_split hfind).1
    rw [List.append_assoc] at hsplit
    exact absurd hsplit (h _ _)

/-- A pattern whose first character is not in front of it is found there. -/
theorem find_first (c : Char) (pattern front back : List Char) (hc : c ∉ front) :
    find (c :: pattern) (front ++ (c :: pattern ++ back)) = some front.length := by
  induction front with
  | nil =>
    have hpre : (c :: pattern).isPrefixOf (c :: (pattern ++ back)) = true :=
      List.isPrefixOf_iff_prefix.mpr (List.prefix_append (c :: pattern) back)
    rw [List.nil_append, List.cons_append, find, if_pos hpre]
    rfl
  | cons d front ih =>
    rw [List.mem_cons, not_or] at hc
    have hpre : ¬ (c :: pattern).isPrefixOf (d :: (front ++ (c :: pattern ++ back))) = true := by
      rw [List.isPrefixOf_iff_prefix, List.cons_prefix_cons]
      exact fun h => hc.1 h.1
    rw [List.cons_append, find, if_neg hpre, ih hc.2]
    rfl

theorem find_none (c : Char) (pattern text : List Char) (hc : c ∉ text) : find (c :: pattern) text = none := by
  induction text with
  | nil => rfl
  | cons d text ih =>
    rw [List.mem_cons, not_or] at hc
    have hpre : ¬ (c :: pattern).isPrefixOf (d :: text) = true := by
      rw [List.isPrefixOf_iff_prefix, List.cons_prefix_cons]
      exact fun h => hc.1 h.1
    rw [find, if_neg hpre, ih hc.2]
    rfl

end Find

section Ends

theorem dropEnding_eq_some {ending text front : List Char} :
    dropEnding ending text = some front ↔ text = front ++ ending := by
  rw [dropEnding]
  constructor
  · intro h
    split at h
    · rename_i hend
      obtain ⟨rest, rfl⟩ := List.isSuffixOf_iff_suffix.mp hend
      simpa [eq_comm] using h
    · cases h
  · rintro rfl
    rw [if_pos (List.isSuffixOf_iff_suffix.mpr (List.suffix_append front ending))]
    simp

theorem dropBeginning_eq_some {beginning text back : List Char} :
    dropBeginning beginning text = some back ↔ text = beginning ++ back := by
  rw [dropBeginning]
  constructor
  · intro h
    split at h
    · rename_i hbegin
      obtain ⟨rest, rfl⟩ := List.isPrefixOf_iff_prefix.mp hbegin
      simpa [eq_comm] using h
    · cases h
  · rintro rfl
    rw [if_pos (List.isPrefixOf_iff_prefix.mpr (List.prefix_append beginning back)), List.drop_left]

end Ends

section Words

variable (blank : Char → Bool)

theorem words_dark {text : List Char} (hne : text ≠ []) (hdark : ∀ c ∈ text, blank c = false) :
    words blank text = [text] := by
  rw [words, List.splitOnP_eq_singleton hdark]
  simp [hne]

theorem words_append {c : Char} (hc : blank c = true) (front back : List Char) :
    words blank (front ++ c :: back) = words blank front ++ words blank back := by
  rw [words, List.splitOnP_append_cons front back hc, List.filter_append]
  rfl

theorem words_subset {text word : List Char} (hword : word ∈ words blank text) : ∀ c ∈ word, c ∈ text := by
  have hpieces : ∀ text : List Char, ∀ piece ∈ text.splitOnP blank, ∀ c ∈ piece, c ∈ text := by
    intro text
    induction text with
    | nil => simp
    | cons d text ih =>
      intro piece hpiece c hc
      rw [List.splitOnP_cons_eq_if_modifyHead] at hpiece
      split at hpiece
      · obtain rfl | hpiece := List.mem_cons.mp hpiece
        · cases hc
        · exact List.mem_cons_of_mem _ (ih piece hpiece c hc)
      · obtain ⟨first, pieces, hsplit⟩ := List.exists_cons_of_ne_nil (List.splitOnP_ne_nil blank text)
        rw [hsplit] at hpiece ih
        obtain rfl | hpiece := List.mem_cons.mp hpiece
        · obtain rfl | hc := List.mem_cons.mp hc
          · exact List.mem_cons_self
          · exact List.mem_cons_of_mem _ (ih first List.mem_cons_self c hc)
        · exact List.mem_cons_of_mem _ (ih piece (List.mem_cons_of_mem _ hpiece) c hc)
  exact hpieces text word (List.mem_of_mem_filter hword)

end Words

section Marks

variable {α : Type*} {c : α} {front front' back back' : List α}

/-- What stands before the first mark. -/
theorem front_unique (hfront : c ∉ front) (hfront' : c ∉ front') (h : front ++ c :: back = front' ++ c :: back') :
    front = front' := by
  obtain ⟨t, hlong, ht⟩ | ⟨t, hlong, ht⟩ := List.append_eq_append_iff.mp h
  · cases t with
    | nil => exact (hlong.trans (List.append_nil front)).symm
    | cons d t =>
      refine absurd ?_ hfront'
      rw [hlong, (List.cons.inj ht).1]
      exact List.mem_append_right front List.mem_cons_self
  · cases t with
    | nil => exact hlong.trans (List.append_nil front')
    | cons d t =>
      refine absurd ?_ hfront
      rw [hlong, (List.cons.inj ht).1]
      exact List.mem_append_right front' List.mem_cons_self

/-- What stands behind the last mark. -/
theorem back_unique (hback : c ∉ back) (hback' : c ∉ back') (h : front ++ c :: back = front' ++ c :: back') :
    back = back' := by
  obtain ⟨t, -, ht⟩ | ⟨t, -, ht⟩ := List.append_eq_append_iff.mp h
  · cases t with
    | nil => exact (List.cons.inj ht).2
    | cons d t =>
      refine absurd ?_ hback
      rw [(List.cons.inj ht).2]
      exact List.mem_append_right t List.mem_cons_self
  · cases t with
    | nil => exact (List.cons.inj ht).2.symm
    | cons d t =>
      refine absurd ?_ hback'
      rw [(List.cons.inj ht).2]
      exact List.mem_append_right t List.mem_cons_self

end Marks

section Case

/-- What is no letter is the lower case of no other character. -/
theorem toLower_eq {c d : Char} (hd : d.val.toNat ≤ 64) (h : c.toLower = d) : c = d := by
  by_cases hc : c.val ≥ 'A'.val ∧ c.val ≤ 'Z'.val
  · have hlower : c.toLower = ⟨c.val + ('a'.val - 'A'.val), _⟩ := dif_pos hc
    have hlow : 65 ≤ c.val.toNat := hc.1
    have hhigh : c.val.toNat ≤ 90 := hc.2
    have hval : (c.val + ('a'.val - 'A'.val)).toNat = d.val.toNat := by rw [← h, hlower]
    have hdist : ('a'.val - 'A'.val).toNat = 32 := by decide
    rw [UInt32.toNat_add, hdist, Nat.mod_eq_of_lt (by omega)] at hval
    omega
  · exact (dif_neg hc : c.toLower = c).symm.trans h

end Case

end MemoryArchive.Lines
