import MemoryArchive.Text.Lines

namespace MemoryArchive.Lines

variable (blank : Char → Bool)

theorem rdropWhile_dropWhile (text : List Char) :
    (text.rdropWhile blank).dropWhile blank = (text.dropWhile blank).rdropWhile blank := by
  induction text using List.reverseRecOn with
  | nil => rfl
  | append_singleton text c ih =>
    rw [List.dropWhile_append]
    cases hc : blank c with
    | true =>
      rw [List.rdropWhile_concat_pos _ _ _ hc, ih]
      split
      · rename_i hempty
        rw [List.isEmpty_iff.mp hempty]
        simp [hc]
      · rw [List.rdropWhile_concat_pos _ _ _ hc]
    | false =>
      have hneg : ¬ blank c = true := by simp [hc]
      rw [List.rdropWhile_concat_neg _ _ _ hneg, List.dropWhile_append]
      split
      · rw [List.dropWhile_cons_of_neg hneg]
        exact (List.rdropWhile_concat_neg blank [] c hneg).symm
      · rw [List.rdropWhile_concat_neg _ _ _ hneg]

theorem rdropWhile_dark {c : Char} (hc : blank c = false) (front back : List Char) :
    (front ++ c :: back).rdropWhile blank = front ++ c :: back.rdropWhile blank := by
  induction back using List.reverseRecOn with
  | nil => exact List.rdropWhile_concat_neg blank front c (by simp [hc])
  | append_singleton back d ih =>
    have hassoc : front ++ c :: (back ++ [d]) = (front ++ c :: back) ++ [d] := by simp
    rw [hassoc]
    cases hd : blank d with
    | true => rw [List.rdropWhile_concat_pos _ _ _ hd, List.rdropWhile_concat_pos _ _ _ hd, ih]
    | false =>
      have hneg : ¬ blank d = true := by simp [hd]
      rw [List.rdropWhile_concat_neg _ _ _ hneg, List.rdropWhile_concat_neg _ _ _ hneg, hassoc]

/-- Blanks around a line are stripped with its own. -/
theorem strip_blanks {front back : List Char} (hfront : ∀ c ∈ front, blank c = true)
    (hback : ∀ c ∈ back, blank c = true) (line : List Char) :
    strip blank (front ++ line ++ back) = strip blank line := by
  have hdrop : (front ++ (line ++ back)).dropWhile blank = (line ++ back).dropWhile blank := by
    rw [List.dropWhile_append, List.dropWhile_eq_nil_iff.mpr hfront]
    rfl
  rw [strip, strip, List.append_assoc, hdrop, ← rdropWhile_dropWhile, ← rdropWhile_dropWhile]
  congr 1
  clear hdrop
  induction back using List.reverseRecOn with
  | nil => rw [List.append_nil]
  | append_singleton back c ih =>
    rw [List.forall_mem_append] at hback
    rw [← List.append_assoc, List.rdropWhile_concat_pos _ _ _ (hback.2 c (List.mem_singleton_self c)),
      ih hback.1]

end MemoryArchive.Lines
