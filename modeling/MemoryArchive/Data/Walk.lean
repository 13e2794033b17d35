import Mathlib.Data.List.Infix
import Mathlib.Data.List.Nodup
import Mathlib.Data.List.Perm.Subperm

namespace MemoryArchive.Walk

variable {α : Type*} [DecidableEq α]

/-- A path is one step below a directory. -/
def isChild (dir p : List α) : Bool := p ≠ [] && p.dropLast = dir

def childrenOf (dir : List α) (paths : List (List α)) : List (List α) := paths.filter (isChild dir)

/-- Collect the files of one directory after the other, from a stack that takes up the
directories found there. -/
def walk (dirs files : List (List α)) : Nat → List (List α) → List (List α) → List (List α)
  | 0, _, found => found
  | _ + 1, [], found => found
  | fuel + 1, dir :: stack, found =>
      walk dirs files fuel ((childrenOf dir dirs).reverse ++ stack) (found ++ childrenOf dir files)

/-- Every path stands in directories, and none is a file and a directory. -/
structure Closed (dirs files : List (List α)) : Prop where
  aboveDir : ∀ p ∈ dirs, ∀ q, q <+: p → q ∈ dirs
  aboveFile : ∀ p ∈ files, ∀ q, q <+: p → q ≠ p → q ∈ dirs
  disjoint : ∀ p ∈ files, p ∉ dirs
  nodup : dirs.Nodup

/-- A path is below a directory of the stack. -/
def under (stack : List (List α)) (p : List α) : Bool := stack.any (·.isPrefixOf p)

variable {dirs files stack : List (List α)} {dir p : List α}

theorem under_iff : under stack p = true ↔ ∃ d ∈ stack, d <+: p := by
  rw [under, List.any_eq_true]
  refine exists_congr fun d => and_congr_right fun _ => List.isPrefixOf_iff_prefix

theorem mem_childrenOf {paths : List (List α)} :
    p ∈ childrenOf dir paths ↔ p ∈ paths ∧ ∃ a, p = dir ++ [a] := by
  rw [childrenOf, List.mem_filter]
  refine and_congr_right fun _ => ⟨fun h => ?_, ?_⟩
  · obtain ⟨hne, hdir⟩ := (Bool.and_eq_true_iff).mp h
    have hne : p ≠ [] := of_decide_eq_true hne
    refine ⟨p.getLast hne, ?_⟩
    rw [← of_decide_eq_true hdir, List.dropLast_concat_getLast]
  · rintro ⟨a, rfl⟩
    rw [isChild, List.dropLast_concat]
    simp

theorem under_children : under ((childrenOf dir dirs).reverse ++ stack) p = true ↔
    (∃ a, dir ++ [a] ∈ dirs ∧ dir ++ [a] <+: p) ∨ under stack p = true := by
  rw [under_iff, under_iff]
  constructor
  · rintro ⟨d, hd, hpre⟩
    obtain hd | hd := List.mem_append.mp hd
    · obtain ⟨hmem, a, rfl⟩ := mem_childrenOf.mp (List.mem_reverse.mp hd)
      exact .inl ⟨a, hmem, hpre⟩
    · exact .inr ⟨d, hd, hpre⟩
  · rintro (⟨a, hmem, hpre⟩ | ⟨d, hd, hpre⟩)
    · have hchild := mem_childrenOf.mpr ⟨hmem, a, rfl⟩
      exact ⟨_, List.mem_append_left stack (List.mem_reverse.mpr hchild), hpre⟩
    · exact ⟨d, List.mem_append_right _ hd, hpre⟩

theorem under_cons : under (dir :: stack) p = true ↔ dir <+: p ∨ under stack p = true := by
  rw [under, List.any_cons, Bool.or_eq_true, List.isPrefixOf_iff_prefix]
  rfl

/-- No directory of the stack is below another. -/
def Apart (stack : List (List α)) : Prop := stack.Pairwise fun d e => ¬ d <+: e ∧ ¬ e <+: d

theorem not_under_dir (hapart : Apart (dir :: stack)) :
    under ((childrenOf dir dirs).reverse ++ stack) dir = false := by
  rw [← Bool.not_eq_true, under_children, under_iff]
  rintro (⟨a, -, hpre⟩ | ⟨d, hd, hpre⟩)
  · have hlen := hpre.length_le
    rw [List.length_append, List.length_singleton] at hlen
    omega
  · exact ((List.pairwise_cons.mp hapart).1 d hd).2 hpre

/-- What is below a directory is one of its files or below one of its directories. -/
theorem under_step (h : Closed dirs files) (hp : p ∈ files) (hdir : dir ∈ dirs) :
    under (dir :: stack) p = true ↔
      p ∈ childrenOf dir files ∨ under ((childrenOf dir dirs).reverse ++ stack) p = true := by
  rw [under_cons, under_children, mem_childrenOf]
  constructor
  · rintro (⟨rest, rfl⟩ | hstack)
    · cases rest with
      | nil =>
        rw [List.append_nil] at hp
        exact absurd hdir (h.disjoint dir hp)
      | cons a rest =>
        cases rest with
        | nil => exact .inl ⟨hp, a, rfl⟩
        | cons b rest =>
          have hpre : dir ++ [a] <+: dir ++ a :: b :: rest := ⟨b :: rest, by simp⟩
          refine .inr (.inl ⟨a, h.aboveFile _ hp _ hpre fun heq => ?_, hpre⟩)
          have hlen := congrArg List.length heq
          simp only [List.length_append, List.length_cons, List.length_nil] at hlen
          omega
    · exact .inr (.inr hstack)
  · rintro (⟨-, a, rfl⟩ | ⟨a, -, hpre⟩ | hstack)
    · exact .inl (List.prefix_append dir [a])
    · exact .inl ((List.prefix_append dir [a]).trans hpre)
    · exact .inr hstack

/-- A file of the directory itself is not below what is left of the stack. -/
theorem not_under_child (h : Closed dirs files) (hstack : ∀ d ∈ dir :: stack, d ∈ dirs)
    (hapart : Apart (dir :: stack)) (hp : p ∈ childrenOf dir files) :
    under ((childrenOf dir dirs).reverse ++ stack) p = false := by
  obtain ⟨hfile, a, rfl⟩ := mem_childrenOf.mp hp
  rw [← Bool.not_eq_true, under_children, under_iff]
  rintro (⟨b, hb, hpre⟩ | ⟨d, hd, hpre⟩)
  · have heq := hpre.eq_of_length (by simp)
    exact h.disjoint _ hfile (heq ▸ hb)
  · obtain rfl | hpre := List.prefix_concat_iff.mp hpre
    · exact h.disjoint _ hfile (hstack _ (List.mem_cons_of_mem dir hd))
    · exact ((List.pairwise_cons.mp hapart).1 d hd).2 hpre

/-- The files below a stack are those of its first directory and those below the next one. -/
theorem files_step (h : Closed dirs files) (hstack : ∀ d ∈ dir :: stack, d ∈ dirs)
    (hapart : Apart (dir :: stack)) :
    (childrenOf dir files ++ files.filter (under ((childrenOf dir dirs).reverse ++ stack))).Perm
      (files.filter (under (dir :: stack))) := by
  have hdir := hstack dir List.mem_cons_self
  have hsplit := List.filter_append_perm (isChild dir) (files.filter (under (dir :: stack)))
  have hchild : (files.filter (under (dir :: stack))).filter (isChild dir) = childrenOf dir files := by
    rw [List.filter_filter, childrenOf]
    refine List.filter_congr fun p hp => ?_
    cases hc : isChild dir p with
    | false => rfl
    | true =>
      have hmem : p ∈ childrenOf dir files := List.mem_filter.mpr ⟨hp, hc⟩
      rw [(under_step h hp hdir).mpr (.inl hmem)]
      rfl
  have hrest : (files.filter (under (dir :: stack))).filter (fun p => !isChild dir p) =
      files.filter (under ((childrenOf dir dirs).reverse ++ stack)) := by
    rw [List.filter_filter]
    refine List.filter_congr fun p hp => ?_
    cases hc : isChild dir p with
    | true =>
      rw [not_under_child h hstack hapart (List.mem_filter.mpr ⟨hp, hc⟩)]
      rfl
    | false =>
      have hnot : p ∉ childrenOf dir files := fun hmem => by
        have htrue : isChild dir p = true := (List.mem_filter.mp hmem).2
        rw [hc] at htrue
        cases htrue
      have hiff : under (dir :: stack) p = true ↔ _ := under_step h hp hdir
      rw [or_iff_right hnot] at hiff
      exact Bool.eq_iff_iff.mpr hiff
  rw [hchild, hrest] at hsplit
  exact hsplit

theorem apart_step (hapart : Apart (dir :: stack)) (hnodup : dirs.Nodup) :
    Apart ((childrenOf dir dirs).reverse ++ stack) := by
  obtain ⟨hfirst, hrest⟩ := List.pairwise_cons.mp hapart
  refine List.pairwise_append.mpr ⟨?_, hrest, fun d hd e he => ?_⟩
  · rw [List.pairwise_reverse]
    refine List.Pairwise.imp_of_mem (fun {d e} hd he hne => ?_) (hnodup.filter _)
    obtain ⟨-, a, rfl⟩ := mem_childrenOf.mp hd
    obtain ⟨-, b, rfl⟩ := mem_childrenOf.mp he
    have hlen : (dir ++ [a]).length = (dir ++ [b]).length := by simp
    exact ⟨fun hpre => hne (hpre.eq_of_length hlen.symm).symm, fun hpre => hne (hpre.eq_of_length hlen)⟩
  · obtain ⟨-, a, rfl⟩ := mem_childrenOf.mp (List.mem_reverse.mp hd)
    obtain ⟨hdown, hup⟩ := hfirst e he
    constructor
    · exact fun hpre => hdown ((List.prefix_append dir [a]).trans hpre)
    · intro hpre
      obtain rfl | hpre := List.prefix_concat_iff.mp hpre
      · exact hdown (List.prefix_append dir [a])
      · exact hup hpre

/-- Every turn takes a directory off. -/
theorem count_step (h : Closed dirs files) (hstack : ∀ d ∈ dir :: stack, d ∈ dirs)
    (hapart : Apart (dir :: stack)) :
    (dirs.filter (under ((childrenOf dir dirs).reverse ++ stack))).length <
      (dirs.filter (under (dir :: stack))).length := by
  have hdir := hstack dir List.mem_cons_self
  have hnot : dir ∉ dirs.filter (under ((childrenOf dir dirs).reverse ++ stack)) := by
    intro hmem
    have hunder := (List.mem_filter.mp hmem).2
    rw [not_under_dir hapart] at hunder
    cases hunder
  have hsub : dir :: dirs.filter (under ((childrenOf dir dirs).reverse ++ stack)) ⊆
      dirs.filter (under (dir :: stack)) := by
    refine List.cons_subset.mpr ⟨List.mem_filter.mpr ⟨hdir, under_cons.mpr (.inl List.prefix_rfl)⟩, ?_⟩
    intro p hp
    obtain ⟨hmem, hunder⟩ := List.mem_filter.mp hp
    refine List.mem_filter.mpr ⟨hmem, under_cons.mpr ?_⟩
    obtain ⟨a, -, hpre⟩ | hunder := under_children.mp hunder
    · exact .inl ((List.prefix_append dir [a]).trans hpre)
    · exact .inr hunder
  exact (List.subperm_of_subset (List.nodup_cons.mpr ⟨hnot, h.nodup.filter _⟩) hsub).length_le

/-- A walk finds every file below its stack once, and nothing else. -/
theorem walk_perm (h : Closed dirs files) (fuel : Nat) (stack found : List (List α))
    (hstack : ∀ d ∈ stack, d ∈ dirs) (hapart : Apart stack)
    (hfuel : (dirs.filter (under stack)).length ≤ fuel) :
    (walk dirs files fuel stack found).Perm (found ++ files.filter (under stack)) := by
  induction fuel generalizing stack found with
  | zero =>
    cases stack with
    | nil =>
      have hnone : files.filter (under ([] : List (List α))) = [] := List.filter_eq_nil_iff.mpr fun _ _ => nofun
      rw [walk, hnone, List.append_nil]
    | cons dir stack =>
      have hmem : dir ∈ dirs.filter (under (dir :: stack)) :=
        List.mem_filter.mpr ⟨hstack dir List.mem_cons_self, under_cons.mpr (.inl List.prefix_rfl)⟩
      have hpos := List.length_pos_of_mem hmem
      omega
  | succ fuel ih =>
    cases stack with
    | nil =>
      have hnone : files.filter (under ([] : List (List α))) = [] := List.filter_eq_nil_iff.mpr fun _ _ => nofun
      rw [walk, hnone, List.append_nil]
    | cons dir stack =>
      have hcount := count_step h hstack hapart
      have hnext : ∀ d ∈ (childrenOf dir dirs).reverse ++ stack, d ∈ dirs := by
        intro d hd
        obtain hd | hd := List.mem_append.mp hd
        · exact (mem_childrenOf.mp (List.mem_reverse.mp hd)).1
        · exact hstack d (List.mem_cons_of_mem dir hd)
      have hrest := ih _ (found ++ childrenOf dir files) hnext (apart_step hapart h.nodup) (by omega)
      rw [List.append_assoc] at hrest
      exact hrest.trans ((files_step h hstack hapart).append_left found)

end MemoryArchive.Walk
