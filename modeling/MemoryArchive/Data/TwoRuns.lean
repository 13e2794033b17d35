import Mathlib.Logic.Basic

namespace MemoryArchive.TwoRuns

variable {σ ι ο : Type*} (react : σ → ι → σ × ο)

/-- What a run answers to its inputs. -/
def outputs : σ → List ι → List ο
  | _, [] => []
  | s, i :: is => (react s i).2 :: outputs (react s i).1 is

/-- The state that a run ends in. -/
def final : σ → List ι → σ
  | s, [] => s
  | s, i :: is => final (react s i).1 is

/-- Two runs on the same inputs take every one of them in states that meet the guard. -/
def GuardedBoth (guard : σ → σ → ι → Prop) : σ → σ → List ι → Prop
  | _, _, [] => True
  | s, s', i :: is => guard s s' i ∧ GuardedBoth guard (react s i).1 (react s' i).1 is

variable {react} {rel : σ → σ → Prop} {guard : σ → σ → ι → Prop}

/-- Where every input keeps two states related and is answered alike just when the guard
says so, two runs are alike just when the guard holds along them. -/
theorem outputs_eq_iff (hkeep : ∀ s s' i, rel s s' → rel (react s i).1 (react s' i).1)
    (houtput : ∀ s s' i, rel s s' → ((react s i).2 = (react s' i).2 ↔ guard s s' i)) (s s' : σ)
    (is : List ι) (h : rel s s') :
    outputs react s is = outputs react s' is ↔ GuardedBoth react guard s s' is := by
  induction is generalizing s s' with
  | nil => exact iff_of_true rfl trivial
  | cons i is ih =>
    rw [outputs, outputs, List.cons.injEq, houtput s s' i h, ih _ _ (hkeep s s' i h)]
    exact Iff.rfl

/-- Where two machines answer alike and stay related, their runs are alike. -/
theorem outputs_alike {σ' : Type*} {react' : σ' → ι → σ' × ο} {rel : σ → σ' → Prop}
    (hstep : ∀ s s' i, rel s s' → (react s i).2 = (react' s' i).2 ∧ rel (react s i).1 (react' s' i).1)
    (s : σ) (s' : σ') (is : List ι) (h : rel s s') :
    outputs react s is = outputs react' s' is ∧ rel (final react s is) (final react' s' is) := by
  induction is generalizing s s' with
  | nil => exact ⟨rfl, h⟩
  | cons i is ih =>
    obtain ⟨hanswer, hrel⟩ := hstep s s' i h
    obtain ⟨hrest, hfinal⟩ := ih _ _ hrel
    exact ⟨by rw [outputs, outputs, hanswer, hrest], hfinal⟩

end MemoryArchive.TwoRuns
