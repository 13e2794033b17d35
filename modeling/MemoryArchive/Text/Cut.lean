import Mathlib.Data.List.Infix
import MemoryArchive.Text.Lines

namespace MemoryArchive.Lines

variable {α : Type*} (isBreak : α → Bool)

/-- The lines of a text with their ends. -/
def cut : List α → List (List α)
  | [] => []
  | c :: text =>
      if isBreak c then [c] :: cut text
      else
        match cut text with
        | [] => [[c]]
        | l :: ls => (c :: l) :: ls

/-- A line with its end. -/
def Ended (line : List α) : Prop :=
  ∃ body c, line = body ++ [c] ∧ (∀ x ∈ body, isBreak x = false) ∧ isBreak c = true

/-- Lines as they are cut: each has an end, but for the last, which need not have one. -/
def Parts : List (List α) → Prop
  | [] => True
  | l :: ls => (Ended isBreak l ∨ (ls = [] ∧ l ≠ [] ∧ ∀ x ∈ l, isBreak x = false)) ∧ Parts ls

section Cut

variable {isBreak}

theorem cut_open {line : List α} (hne : line ≠ []) (h : ∀ x ∈ line, isBreak x = false) :
    cut isBreak line = [line] := by
  induction line with
  | nil => exact absurd rfl hne
  | cons c line ih =>
    obtain ⟨hc, hline⟩ := List.forall_mem_cons.mp h
    rw [cut, hc]
    cases line with
    | nil => rfl
    | cons d line => rw [ih (List.cons_ne_nil _ _) hline]; rfl

theorem cut_ended {line : List α} (h : Ended isBreak line) (text : List α) :
    cut isBreak (line ++ text) = line :: cut isBreak text := by
  obtain ⟨body, c, rfl, hbody, hc⟩ := h
  induction body with
  | nil => simp [cut, hc]
  | cons d body ih =>
    obtain ⟨hd, hrest⟩ := List.forall_mem_cons.mp hbody
    have hcut := ih hrest
    rw [List.cons_append, List.cons_append, cut, hd, hcut]
    rfl

/-- Lines that are joined are cut apart again. -/
theorem Parts.cut_flatten {lines : List (List α)} (h : Parts isBreak lines) :
    cut isBreak lines.flatten = lines := by
  induction lines with
  | nil => rfl
  | cons l ls ih =>
    obtain ⟨hl | ⟨rfl, hne, hl⟩, hls⟩ := h
    · rw [List.flatten_cons, cut_ended hl, ih hls]
    · rw [List.flatten_singleton, cut_open hne hl]

theorem Parts.sublist {lines kept : List (List α)} (h : Parts isBreak lines) (hsub : kept.Sublist lines) :
    Parts isBreak kept := by
  induction hsub with
  | slnil => trivial
  | cons l _ ih => exact ih h.2
  | cons_cons l hsub ih =>
    refine ⟨?_, ih h.2⟩
    obtain hl | ⟨rfl, hne, hl⟩ := h.1
    · exact .inl hl
    · exact .inr ⟨List.eq_nil_of_sublist_nil hsub, hne, hl⟩

variable (isBreak)

theorem flatten_cut (text : List α) : (cut isBreak text).flatten = text := by
  induction text with
  | nil => rfl
  | cons c text ih =>
    rw [cut]
    split
    · rw [List.flatten_cons, ih]
      rfl
    · cases hcut : cut isBreak text with
      | nil =>
        rw [hcut] at ih
        rw [← ih]
        rfl
      | cons l ls =>
        rw [hcut] at ih
        exact congrArg (c :: ·) ih

theorem parts_cut (text : List α) : Parts isBreak (cut isBreak text) := by
  induction text with
  | nil => trivial
  | cons c text ih =>
    rw [cut]
    split
    · rename_i hc
      exact ⟨.inl ⟨[], c, rfl, by simp, hc⟩, ih⟩
    · rename_i hc
      have hc' : isBreak c = false := by simpa using hc
      cases hcut : cut isBreak text with
      | nil => exact ⟨.inr ⟨rfl, List.cons_ne_nil _ _, by simp [hc']⟩, trivial⟩
      | cons l ls =>
        rw [hcut] at ih
        refine ⟨?_, ih.2⟩
        obtain ⟨body, d, rfl, hbody, hd⟩ | ⟨hls, hne, hl⟩ := ih.1
        · exact .inl ⟨c :: body, d, rfl, List.forall_mem_cons.mpr ⟨hc', hbody⟩, hd⟩
        · exact .inr ⟨hls, List.cons_ne_nil _ _, List.forall_mem_cons.mpr ⟨hc', hl⟩⟩

variable {isBreak}

theorem cut_ne_nil {text : List α} (h : text ≠ []) : cut isBreak text ≠ [] := by
  intro hcut
  have hflat := flatten_cut isBreak text
  rw [hcut] at hflat
  exact h hflat.symm

/-- A text goes on behind the end of a line as if it began there. -/
theorem cut_append {front : List α} (h : ∀ c ∈ front.getLast?, isBreak c = true) (text : List α) :
    cut isBreak (front ++ text) = cut isBreak front ++ cut isBreak text := by
  suffices hlines : ∀ lines, Parts isBreak lines → (∀ c ∈ lines.flatten.getLast?, isBreak c = true) →
      cut isBreak (lines.flatten ++ text) = lines ++ cut isBreak text by
    have hcut := hlines _ (parts_cut isBreak front)
    rw [flatten_cut] at hcut
    exact hcut h
  intro lines hparts hlast
  induction lines with
  | nil => rfl
  | cons l ls ih =>
    obtain ⟨hl | ⟨rfl, hne, hl⟩, hls⟩ := hparts
    · have hrest : ∀ c ∈ ls.flatten.getLast?, isBreak c = true := by
        intro c hc
        refine hlast c ?_
        rw [List.flatten_cons, List.getLast?_append, Option.mem_def.mp hc]
        rfl
      rw [List.flatten_cons, List.append_assoc, cut_ended hl, ih hls hrest]
      rfl
    · rw [List.flatten_singleton] at hlast
      have hbreak := hlast _ (List.getLast?_eq_getLast_of_ne_nil hne)
      rw [hl _ (List.getLast_mem hne)] at hbreak
      cases hbreak

/-- Where the text ends with a line end every line does. -/
theorem ended_cut {text : List α} (h : ∀ c ∈ text.getLast?, isBreak c = true) :
    ∀ l ∈ cut isBreak text, Ended isBreak l := by
  suffices hlines : ∀ lines, Parts isBreak lines → (∀ c ∈ lines.flatten.getLast?, isBreak c = true) →
      ∀ l ∈ lines, Ended isBreak l by
    have hcut := hlines _ (parts_cut isBreak text)
    rw [flatten_cut] at hcut
    exact hcut h
  intro lines hparts hlast
  induction lines with
  | nil => simp
  | cons l ls ih =>
    obtain ⟨hl | ⟨rfl, hne, hl⟩, hls⟩ := hparts
    · refine List.forall_mem_cons.mpr ⟨hl, ih hls fun c hc => hlast c ?_⟩
      rw [List.flatten_cons, List.getLast?_append, Option.mem_def.mp hc]
      rfl
    · rw [List.flatten_singleton] at hlast
      have hbreak := hlast _ (List.getLast?_eq_getLast_of_ne_nil hne)
      rw [hl _ (List.getLast_mem hne)] at hbreak
      cases hbreak

theorem Ended.getLast {line : List α} (h : Ended isBreak line) : ∀ c ∈ line.getLast?, isBreak c = true := by
  obtain ⟨body, d, rfl, -, hd⟩ := h
  intro c hc
  rw [List.getLast?_append] at hc
  exact Option.some.inj hc ▸ hd

theorem getLast_flatten {lines : List (List α)} (h : ∀ l ∈ lines, Ended isBreak l) :
    ∀ c ∈ lines.flatten.getLast?, isBreak c = true := by
  induction lines with
  | nil => simp
  | cons l ls ih =>
    obtain ⟨hl, hls⟩ := List.forall_mem_cons.mp h
    intro c hc
    rw [List.flatten_cons, List.getLast?_append] at hc
    cases hlast : ls.flatten.getLast? with
    | none =>
      rw [hlast] at hc
      exact hl.getLast c hc
    | some d =>
      rw [hlast] at hc
      exact Option.some.inj hc ▸ ih hls d hlast

theorem prefix_cut {pattern : List α} (hpattern : ∀ x ∈ pattern, isBreak x = false) (hne : pattern ≠ [])
    (back : List α) : ∃ l ls, cut isBreak (pattern ++ back) = l :: ls ∧ pattern <+: l := by
  induction pattern with
  | nil => exact absurd rfl hne
  | cons c pattern ih =>
    obtain ⟨hc, hrest⟩ := List.forall_mem_cons.mp hpattern
    rw [List.cons_append, cut, hc]
    by_cases hnil : pattern = []
    · rw [hnil, List.nil_append]
      cases cut isBreak back with
      | nil => exact ⟨[c], [], rfl, List.prefix_rfl⟩
      | cons l ls => exact ⟨c :: l, ls, rfl, List.prefix_append [c] l⟩
    · obtain ⟨l, ls, hcut, hpre⟩ := ih hrest hnil
      rw [hcut]
      exact ⟨c :: l, ls, rfl, List.cons_prefix_cons.mpr ⟨rfl, hpre⟩⟩

/-- A pattern without line end stands in one line. -/
theorem infix_cut {pattern text : List α} (hpattern : ∀ x ∈ pattern, isBreak x = false) (hne : pattern ≠ [])
    (h : pattern <:+: text) : ∃ l ∈ cut isBreak text, pattern <:+: l := by
  obtain ⟨front, back, rfl⟩ := h
  induction front with
  | nil =>
    obtain ⟨l, ls, hcut, hpre⟩ := prefix_cut hpattern hne back
    rw [List.nil_append, hcut]
    exact ⟨l, List.mem_cons_self, hpre.isInfix⟩
  | cons c front ih =>
    obtain ⟨l, hl, hin⟩ := ih
    rw [List.cons_append, List.cons_append, cut]
    split
    · exact ⟨l, List.mem_cons_of_mem _ hl, hin⟩
    · cases hcut : cut isBreak (front ++ pattern ++ back) with
      | nil =>
        rw [hcut] at hl
        cases hl
      | cons k ks =>
        rw [hcut] at hl
        obtain rfl | hl := List.mem_cons.mp hl
        · exact ⟨c :: l, List.mem_cons_self, hin.trans (List.suffix_cons c l).isInfix⟩
        · exact ⟨l, List.mem_cons_of_mem _ hl, hin⟩

theorem infix_of_cut {text : List α} {l : List α} (h : l ∈ cut isBreak text) : l <:+: text := by
  obtain ⟨front, back, hlines⟩ := List.append_of_mem h
  refine ⟨front.flatten, back.flatten, ?_⟩
  rw [← flatten_cut isBreak text, hlines, List.flatten_append, List.flatten_cons, List.append_assoc]

end Cut

end MemoryArchive.Lines
