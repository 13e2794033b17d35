import Mathlib.Data.List.Induction

namespace MemoryArchive.Runs

variable {σ ι : Type*} (step : σ → ι → σ)

/-- The state a list of inputs leads to. -/
def run (s : σ) (is : List ι) : σ := is.foldl step s

/-- Every input of the run is taken in a state that meets the guard. -/
def Guarded (guard : σ → ι → Prop) : σ → List ι → Prop
  | _, [] => True
  | s, i :: is => guard s i ∧ Guarded guard (step s i) is

/-- Every step of the run has the property: the state before it, its input and
the state after it. -/
def Along (P : σ → ι → σ → Prop) : σ → List ι → Prop
  | _, [] => True
  | s, i :: is => P s i (step s i) ∧ Along P (step s i) is

variable {step} {guard : σ → ι → Prop} {inv : σ → Prop} {P : σ → ι → σ → Prop}

/-- What one guarded step preserves holds after every guarded run. -/
theorem invariant_run (hstep : ∀ s i, inv s → guard s i → inv (step s i)) (s : σ) (is : List ι)
    (hs : inv s) (hg : Guarded step guard s is) : inv (run step s is) := by
  induction is generalizing s with
  | nil => exact hs
  | cons i is ih => exact ih (step s i) (hstep s i hs hg.1) hg.2

/-- The same for what tells of the inputs so far. -/
theorem invariant_history {inv : List ι → σ → Prop}
    (hstep : ∀ before s i, inv before s → guard s i → inv (before ++ [i]) (step s i)) (before : List ι) (s : σ)
    (is : List ι) (hs : inv before s) (hg : Guarded step guard s is) : inv (before ++ is) (run step s is) := by
  induction is generalizing before s with
  | nil =>
    rw [List.append_nil]
    exact hs
  | cons i is ih =>
    rw [List.append_cons]
    exact ih (before ++ [i]) (step s i) (hstep before s i hs hg.1) hg.2

theorem along_run (hstep : ∀ s i, inv s → guard s i → inv (step s i))
    (hP : ∀ s i, inv s → guard s i → P s i (step s i)) (s : σ) (is : List ι)
    (hs : inv s) (hg : Guarded step guard s is) : Along step P s is := by
  induction is generalizing s with
  | nil => trivial
  | cons i is ih => exact ⟨hP s i hs hg.1, ih (step s i) (hstep s i hs hg.1) hg.2⟩

theorem Along.imp {P' : σ → ι → σ → Prop} (himp : ∀ s i s', P s i s' → P' s i s') {s : σ}
    {is : List ι} (h : Along step P s is) : Along step P' s is := by
  induction is generalizing s with
  | nil => trivial
  | cons i is ih => exact ⟨himp _ _ _ h.1, ih h.2⟩

theorem run_append (s : σ) (is is' : List ι) :
    run step s (is ++ is') = run step (run step s is) is' :=
  List.foldl_append

theorem along_append (s : σ) (is is' : List ι) :
    Along step P s (is ++ is') ↔ Along step P s is ∧ Along step P (run step s is) is' := by
  induction is generalizing s with
  | nil => exact ⟨fun h => ⟨trivial, h⟩, fun h => h.2⟩
  | cons i is ih =>
    change P s i (step s i) ∧ Along step P (step s i) (is ++ is') ↔
      (P s i (step s i) ∧ Along step P (step s i) is) ∧ Along step P (run step (step s i) is) is'
    rw [ih (step s i), and_assoc]

/-- What every step with the property keeps, for the inputs at hand, holds at
the end of a run. -/
theorem Along.keeps {Q : ι → Prop} (hstep : ∀ s i, Q i → P s i (step s i) → inv s → inv (step s i))
    {s : σ} {is : List ι} (h : Along step P s is) (hQ : ∀ i ∈ is, Q i) (hs : inv s) :
    inv (run step s is) := by
  induction is generalizing s with
  | nil => exact hs
  | cons i is ih =>
    have hnext := hstep s i (hQ i List.mem_cons_self) h.1 hs
    exact ih h.2 (fun j hj => hQ j (List.mem_cons_of_mem i hj)) hnext

/-- Where the guard says exactly which steps have a property that carries the
invariant on, it does so for runs. -/
theorem along_iff_guarded_steps (hstep : ∀ s i, inv s → (P s i (step s i) ↔ guard s i))
    (hkeep : ∀ s i, inv s → P s i (step s i) → inv (step s i)) (s : σ) (is : List ι) (hs : inv s) :
    Along step P s is ↔ Guarded step guard s is := by
  induction is generalizing s with
  | nil => exact Iff.rfl
  | cons i is ih =>
    constructor
    · rintro ⟨hnext, hrest⟩
      exact ⟨(hstep s i hs).mp hnext, (ih (step s i) (hkeep s i hs hnext)).mp hrest⟩
    · rintro ⟨hi, hrest⟩
      have hnext := (hstep s i hs).mpr hi
      exact ⟨hnext, (ih (step s i) (hkeep s i hs hnext)).mpr hrest⟩

theorem along_iff_guarded_of {Q : σ → Prop} (hstep : ∀ s i, inv s → (Q (step s i) ↔ guard s i))
    (hkeep : ∀ s i, inv s → Q (step s i) → inv (step s i)) (s : σ) (is : List ι) (hs : inv s) :
    Along step (fun _ _ s' => Q s') s is ↔ Guarded step guard s is :=
  along_iff_guarded_steps (P := fun _ _ s' => Q s') hstep hkeep s is hs

theorem along_iff_guarded (hstep : ∀ s i, inv s → (inv (step s i) ↔ guard s i)) (s : σ) (is : List ι)
    (hs : inv s) : Along step (fun _ _ s' => inv s') s is ↔ Guarded step guard s is :=
  along_iff_guarded_of hstep (fun _ _ _ hnext => hnext) s is hs

/-- Where every step meets an assumption that carries the invariant on, the guard says
exactly which runs have a property. -/
theorem along_iff_guarded_given {assumed : σ → ι → Prop}
    (hstep : ∀ s i, inv s → assumed s i → (P s i (step s i) ↔ guard s i))
    (hkeep : ∀ s i, inv s → assumed s i → inv (step s i)) (s : σ) (is : List ι) (hs : inv s)
    (ha : Guarded step assumed s is) : Along step P s is ↔ Guarded step guard s is := by
  induction is generalizing s with
  | nil => exact Iff.rfl
  | cons i is ih =>
    exact and_congr (hstep s i hs ha.1) (ih (step s i) (hkeep s i hs ha.1) ha.2)

/-- Where the guard says exactly which steps keep something that is lost for good once it is
lost, a run keeps it exactly if it is guarded. -/
theorem run_iff_guarded {ok : σ → Prop} (hstep : ∀ s i, inv s → ok s → (ok (step s i) ↔ guard s i))
    (hlost : ∀ s i, inv s → ¬ ok s → ¬ ok (step s i)) (hkeep : ∀ s i, inv s → inv (step s i)) (s : σ)
    (is : List ι) (hs : inv s) (hok : ok s) : ok (run step s is) ↔ Guarded step guard s is := by
  have hgone : ∀ (is : List ι) s, inv s → ¬ ok s → ¬ ok (run step s is) := by
    intro is
    induction is with
    | nil => exact fun _ _ h => h
    | cons i is ih => exact fun s hs h => ih (step s i) (hkeep s i hs) (hlost s i hs h)
  induction is generalizing s with
  | nil => exact iff_of_true hok trivial
  | cons i is ih =>
    have hnext := hkeep s i hs
    constructor
    · intro h
      have hfirst : ok (step s i) := not_not.mp fun hbad => hgone is (step s i) hnext hbad h
      exact ⟨(hstep s i hs hok).mp hfirst, (ih (step s i) hnext hfirst).mp h⟩
    · rintro ⟨hi, hrest⟩
      exact (ih (step s i) hnext ((hstep s i hs hok).mpr hi)).mpr hrest

theorem guarded_true (s : σ) (is : List ι) : Guarded step (fun _ _ => True) s is := by
  induction is generalizing s with
  | nil => trivial
  | cons i is ih => exact ⟨trivial, ih (step s i)⟩

variable (step) in
/-- What is false before a run and true after it became true in some step for
the last time, and has been true since. -/
theorem last_change {Q : σ → Prop} {s : σ} {is : List ι} (hstart : ¬ Q s) (hend : Q (run step s is)) :
    ∃ is₁ i is₂, is = is₁ ++ i :: is₂ ∧ ¬ Q (run step s is₁) ∧
      ∀ is₃, is₃ <+: is₂ → Q (run step s (is₁ ++ i :: is₃)) := by
  induction is using List.reverseRecOn with
  | nil => exact absurd hend hstart
  | append_singleton is i ih =>
    by_cases hlast : Q (run step s is)
    · obtain ⟨is₁, j, is₂, rfl, hbefore, hafter⟩ := ih hlast
      refine ⟨is₁, j, is₂ ++ [i], by simp, hbefore, fun is₃ hprefix => ?_⟩
      obtain rfl | hshort := List.prefix_concat_iff.mp hprefix
      · simpa using hend
      · exact hafter is₃ hshort
    · refine ⟨is, i, [], rfl, hlast, fun is₃ hprefix => ?_⟩
      rw [List.prefix_nil.mp hprefix]
      exact hend

instance decidableGuarded [∀ s i, Decidable (guard s i)] (s : σ) (is : List ι) :
    Decidable (Guarded step guard s is) :=
  match is with
  | [] => isTrue trivial
  | i :: is =>
      have := decidableGuarded (step s i) is
      inferInstanceAs (Decidable (guard s i ∧ Guarded step guard (step s i) is))

end MemoryArchive.Runs
