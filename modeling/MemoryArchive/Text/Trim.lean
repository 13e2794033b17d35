import MemoryArchive.Text.Search

namespace MemoryArchive.Lines

/-- Strip a beginning as often as it is there, at most `n` times. -/
def stripFront (pattern : List Char) : Nat → List Char → List Char
  | 0, text => text
  | n + 1, text => (dropBeginning pattern text).elim text (stripFront pattern n)

/-- A text without the copies of a pattern that it begins with. -/
def trimStartMatches (pattern text : List Char) : List Char := stripFront pattern text.length text

/-- A text without the copies of a pattern that it ends with. -/
def trimEndMatches (pattern text : List Char) : List Char :=
  (trimStartMatches pattern.reverse text.reverse).reverse

/-- So many copies of a text. -/
def copies (k : Nat) (text : List Char) : List Char := (List.replicate k text).flatten

section Copies

theorem copies_succ (k : Nat) (text : List Char) : copies (k + 1) text = text ++ copies k text := by
  rw [copies, List.replicate_succ, List.flatten_cons]
  rfl

theorem copies_succ' (k : Nat) (text : List Char) : copies (k + 1) text = copies k text ++ text := by
  rw [copies, List.replicate_succ', List.flatten_append, List.flatten_singleton]
  rfl

theorem copies_one (text : List Char) : copies 1 text = text := by
  rw [copies_succ]
  exact List.append_nil text

theorem reverse_copies (k : Nat) (text : List Char) : (copies k text).reverse = copies k text.reverse := by
  induction k with
  | zero => rfl
  | succ k ih => rw [copies_succ, List.reverse_append, ih, copies_succ']

end Copies

section Trim

theorem dropBeginning_append (pattern rest : List Char) : dropBeginning pattern (pattern ++ rest) = some rest := by
  rw [dropBeginning, if_pos (List.isPrefixOf_iff_prefix.mpr (List.prefix_append pattern rest)),
    List.drop_left']
  rfl

theorem dropBeginning_none {pattern text : List Char} (h : ¬ pattern <+: text) :
    dropBeginning pattern text = none :=
  if_neg fun hpre => h (List.isPrefixOf_iff_prefix.mp hpre)

theorem stripFront_of_not {pattern text : List Char} (h : ¬ pattern <+: text) (n : Nat) :
    stripFront pattern n text = text := by
  cases n with
  | zero => rfl
  | succ n =>
    rw [stripFront, dropBeginning_none h]
    rfl

theorem stripFront_copies {pattern rest : List Char} (h : ¬ pattern <+: rest) (k n : Nat) (hk : k ≤ n) :
    stripFront pattern n (copies k pattern ++ rest) = rest := by
  induction k generalizing n with
  | zero => exact stripFront_of_not h n
  | succ k ih =>
    obtain ⟨n, rfl⟩ := Nat.exists_eq_add_one_of_ne_zero (show n ≠ 0 by omega)
    rw [copies_succ, List.append_assoc, stripFront, dropBeginning_append]
    exact ih n (Nat.le_of_succ_le_succ hk)

theorem length_copies_le {pattern : List Char} (hp : pattern ≠ []) (k : Nat) : k ≤ (copies k pattern).length := by
  induction k with
  | zero => exact Nat.zero_le _
  | succ k ih =>
    have hlen := List.length_pos_of_ne_nil hp
    rw [copies_succ, List.length_append]
    omega

/-- Exactly the copies in front are stripped. -/
theorem trimStartMatches_copies {pattern rest : List Char} (hp : pattern ≠ []) (h : ¬ pattern <+: rest)
    (k : Nat) : trimStartMatches pattern (copies k pattern ++ rest) = rest := by
  refine stripFront_copies h k _ ?_
  have hk := length_copies_le hp k
  rw [List.length_append]
  omega

theorem stripFront_spec (pattern : List Char) (hp : pattern ≠ []) (n : Nat) (text : List Char)
    (hn : text.length ≤ n) :
    ∃ k, text = copies k pattern ++ stripFront pattern n text ∧ ¬ pattern <+: stripFront pattern n text := by
  induction n generalizing text with
  | zero =>
    have hnil : text = [] := List.eq_nil_of_length_eq_zero (Nat.le_zero.mp hn)
    refine ⟨0, rfl, ?_⟩
    rw [hnil]
    exact fun hpre => hp (List.prefix_nil.mp hpre)
  | succ n ih =>
    by_cases hpre : pattern <+: text
    · obtain ⟨rest, rfl⟩ := hpre
      have hlen := List.length_pos_of_ne_nil hp
      rw [List.length_append] at hn
      obtain ⟨k, hk, hnot⟩ := ih rest (by omega)
      rw [stripFront, dropBeginning_append]
      refine ⟨k + 1, ?_, hnot⟩
      rw [copies_succ, List.append_assoc]
      exact congrArg (pattern ++ ·) hk
    · rw [stripFront_of_not hpre]
      exact ⟨0, rfl, hpre⟩

theorem trimStartMatches_spec {pattern : List Char} (hp : pattern ≠ []) (text : List Char) :
    ∃ k, text = copies k pattern ++ trimStartMatches pattern text ∧
      ¬ pattern <+: trimStartMatches pattern text :=
  stripFront_spec pattern hp text.length text (Nat.le_refl _)

theorem trimEndMatches_copies {pattern rest : List Char} (hp : pattern ≠ []) (h : ¬ pattern <:+ rest)
    (k : Nat) : trimEndMatches pattern (rest ++ copies k pattern) = rest := by
  have hrev : ¬ pattern.reverse <+: rest.reverse := fun hpre => h (List.reverse_prefix.mp hpre)
  rw [trimEndMatches, List.reverse_append, reverse_copies,
    trimStartMatches_copies (fun hnil => hp (List.reverse_eq_nil_iff.mp hnil)) hrev, List.reverse_reverse]

theorem trimEndMatches_spec {pattern : List Char} (hp : pattern ≠ []) (text : List Char) :
    ∃ k, text = trimEndMatches pattern text ++ copies k pattern ∧ ¬ pattern <:+ trimEndMatches pattern text := by
  obtain ⟨k, hk, hnot⟩ := trimStartMatches_spec (fun hnil => hp (List.reverse_eq_nil_iff.mp hnil)) text.reverse
  refine ⟨k, ?_, fun hsuf => hnot ?_⟩
  · have hrev := congrArg List.reverse hk
    rw [List.reverse_reverse, List.reverse_append, reverse_copies, List.reverse_reverse] at hrev
    exact hrev
  · rw [trimEndMatches] at hsuf
    rw [← List.reverse_suffix, List.reverse_reverse]
    exact hsuf

end Trim

end MemoryArchive.Lines
