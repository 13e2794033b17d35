import MemoryArchive.Data.Runs

namespace MemoryArchive.Interleaving

open Runs

variable {γ σ τ κ : Type*}

/-- Calls that work on a shared state. A call becomes a task, which takes one step
after the other until it has ended, each on the part of the state under its key. -/
structure Machine (γ σ τ κ : Type*) where
  start : γ → τ
  step : σ → τ → σ × Option τ
  key : τ → κ
  fresh : τ → Bool
  fresh_start : ∀ c, fresh (start c) = true

/-- The shared state with the calls that have not ended. -/
structure State (σ τ : Type*) where
  shared : σ
  tasks : List τ

/-- A call comes in, or the task at an index takes its next step. -/
inductive Move (γ : Type*)
  | call (c : γ)
  | run (k : Nat)

def State.others (s : State σ τ) (k : Nat) : List τ := s.tasks.take k ++ s.tasks.drop (k + 1)

namespace Machine

variable (m : Machine γ σ τ κ)

/-- Any task may take the next step. -/
def move (s : State σ τ) : Move γ → State σ τ
  | .call c => { s with tasks := s.tasks ++ [m.start c] }
  | .run k =>
      match s.tasks[k]? with
      | none => s
      | some t =>
          let (shared, next) := m.step s.shared t
          ⟨shared, s.tasks.take k ++ next.toList ++ s.tasks.drop (k + 1)⟩

/-- No other task under the key has begun when a task takes a step. -/
def Exclusive [DecidableEq κ] (s : State σ τ) : Move γ → Bool
  | .call _ => true
  | .run k =>
      match s.tasks[k]? with
      | none => true
      | some t => (s.others k).all fun t' => m.key t' ≠ m.key t || m.fresh t'

/-- No task under the key has begun. -/
def Quiet (s : State σ τ) (k : κ) : Prop := ∀ t ∈ s.tasks, m.key t = k → m.fresh t = true

/-- What holds after a step of a task: what is assumed at its next point, or the
invariant once it has ended. -/
def Reaches (Inv : κ → σ → Prop) (At : τ → σ → Prop) (k : κ) : σ × Option τ → Prop
  | (s, none) => Inv k s
  | (s, some t) => m.key t = k ∧ m.fresh t = false ∧ At t s

/-- A proof outline: an invariant under each key, and what holds at each point of
a task that runs alone under its key. -/
structure Outline (Inv : κ → σ → Prop) (At : τ → σ → Prop) : Prop where
  begin : ∀ s t, m.fresh t = true → Inv (m.key t) s → m.Reaches Inv At (m.key t) (m.step s t)
  next : ∀ s t, m.fresh t = false → At t s → m.Reaches Inv At (m.key t) (m.step s t)
  frame : ∀ s t k, k ≠ m.key t → Inv k s → Inv k (m.step s t).1
  frameAt : ∀ s t t', m.key t' ≠ m.key t → At t' s → At t' (m.step s t).1

/-- The invariant holds where no task has begun, and each task that has begun is at
a point of its outline. -/
structure Held (Inv : κ → σ → Prop) (At : τ → σ → Prop) (s : State σ τ) : Prop where
  quiet : ∀ k, m.Quiet s k → Inv k s.shared
  begun : ∀ t ∈ s.tasks, m.fresh t = false → At t s.shared

variable {m} {Inv : κ → σ → Prop} {At : τ → σ → Prop} {s : State σ τ}

theorem tasks_perm {k : Nat} {t : τ} (ht : s.tasks[k]? = some t) :
    s.tasks.Perm (t :: s.others k) := by
  obtain ⟨hk, rfl⟩ := List.getElem?_eq_some_iff.mp ht
  have hsplit : s.tasks = s.tasks.take k ++ s.tasks[k] :: s.tasks.drop (k + 1) := by
    rw [← List.drop_eq_getElem_cons hk, List.take_append_drop]
  have hmiddle : (s.tasks.take k ++ s.tasks[k] :: s.tasks.drop (k + 1)).Perm (s.tasks[k] :: s.others k) :=
    List.perm_middle
  rwa [← hsplit] at hmiddle

theorem after_perm {k : Nat} (next : Option τ) :
    (s.tasks.take k ++ next.toList ++ s.tasks.drop (k + 1)).Perm (next.toList ++ s.others k) := by
  rw [State.others, ← List.append_assoc]
  exact List.perm_append_comm.append_right _

theorem mem_tasks {k : Nat} {t t' : τ} (ht : s.tasks[k]? = some t) (h : t' ∈ s.tasks) :
    t' = t ∨ t' ∈ s.others k :=
  List.mem_cons.mp ((tasks_perm ht).mem_iff.mp h)

theorem mem_of_others {k : Nat} {t : τ} (h : t ∈ s.others k) : t ∈ s.tasks := by
  obtain h | h := List.mem_append.mp h
  · exact List.mem_of_mem_take h
  · exact List.mem_of_mem_drop h

theorem mem_after {k : Nat} {next : Option τ} {t : τ} :
    t ∈ s.tasks.take k ++ next.toList ++ s.tasks.drop (k + 1) ↔ next = some t ∨ t ∈ s.others k := by
  rw [(after_perm next).mem_iff, List.mem_append, Option.mem_toList]

theorem Held.call (h : m.Held Inv At s) (c : γ) : m.Held Inv At (m.move s (.call c)) where
  quiet k hk := h.quiet k fun t ht => hk t (List.mem_append_left _ ht)
  begun t ht hfresh := by
    obtain ht | ht := List.mem_append.mp ht
    · exact h.begun t ht hfresh
    · rw [List.mem_singleton.mp ht, m.fresh_start] at hfresh
      cases hfresh

/-- A task takes a step while no other under its key has begun. -/
theorem Held.run (ho : m.Outline Inv At) (h : m.Held Inv At s) {k : Nat} {t : τ}
    (ht : s.tasks[k]? = some t)
    (hx : ∀ t' ∈ s.others k, m.key t' = m.key t → m.fresh t' = true) :
    m.Held Inv At ⟨(m.step s.shared t).1,
      s.tasks.take k ++ (m.step s.shared t).2.toList ++ s.tasks.drop (k + 1)⟩ := by
  have hmem : t ∈ s.tasks := List.mem_of_getElem? ht
  have hreach : m.Reaches Inv At (m.key t) (m.step s.shared t) := by
    cases hfresh : m.fresh t with
    | false => exact ho.next _ _ hfresh (h.begun t hmem hfresh)
    | true =>
      refine ho.begin _ _ hfresh (h.quiet _ fun t' ht' hkey => ?_)
      obtain rfl | hother := mem_tasks ht ht'
      · exact hfresh
      · exact hx t' hother hkey
  refine ⟨fun k' hquiet => ?_, fun t' ht' hfresh => ?_⟩
  · by_cases hkey : k' = m.key t
    · subst hkey
      cases hnext : m.step s.shared t with
      | mk shared next =>
        rw [hnext] at hreach hquiet
        cases next with
        | none => exact hreach
        | some t' =>
          obtain ⟨hkey', hfresh', -⟩ := hreach
          have hbegun := hquiet t' (mem_after.mpr (.inl rfl)) hkey'
          rw [hfresh'] at hbegun
          cases hbegun
    · refine ho.frame _ t k' hkey (h.quiet k' fun t' ht' hkey' => ?_)
      obtain rfl | hother := mem_tasks ht ht'
      · exact absurd hkey'.symm hkey
      · exact hquiet t' (mem_after.mpr (.inr hother)) hkey'
  · obtain hnext | hother := mem_after.mp ht'
    · cases hstep : m.step s.shared t with
      | mk shared next =>
        rw [hstep] at hreach hnext
        dsimp only at hnext
        subst hnext
        exact hreach.2.2
    · refine ho.frameAt _ t t' (fun hkey => ?_) (h.begun t' (mem_of_others hother) hfresh)
      rw [hx t' hother hkey] at hfresh
      cases hfresh

theorem Held.move [DecidableEq κ] (ho : m.Outline Inv At) (h : m.Held Inv At s) (i : Move γ)
    (hx : m.Exclusive s i = true) : m.Held Inv At (m.move s i) := by
  cases i with
  | call c => exact h.call c
  | run k =>
    rw [Machine.move]
    cases ht : s.tasks[k]? with
    | none => exact h
    | some t =>
      rw [Exclusive, ht, List.all_eq_true] at hx
      refine h.run ho ht fun t' ht' hkey => ?_
      simpa [hkey] using hx t' ht'

/-- If the steps of calls under one key are never interleaved, the invariant holds
in a run whenever no call has begun under a key. -/
theorem Outline.quiet_run [DecidableEq κ] (ho : m.Outline Inv At) (s : State σ τ)
    (is : List (Move γ)) (hs : m.Held Inv At s) (hg : Guarded m.move (fun s i => m.Exclusive s i = true) s is) :
    Along m.move (fun _ _ s' => ∀ k, m.Quiet s' k → Inv k s'.shared) s is := by
  have hstep : ∀ (s : State σ τ) i, m.Held Inv At s → m.Exclusive s i = true →
      m.Held Inv At (m.move s i) := fun s i h hi => h.move ho i hi
  exact along_run hstep (fun s i h hi => (hstep s i h hi).quiet) s is hs hg

section Keeps

variable (m)

/-- The task that takes its next step meets what is asked of it beside the others. -/
def Meets (Safe : σ → List τ → τ → Prop) (s : State σ τ) : Move γ → Prop
  | .call _ => True
  | .run k => ∀ t, s.tasks[k]? = some t → Safe s.shared (s.others k) t

/-- An invariant of the shared state and the tasks, in whatever order they are, that a
safe step of any task keeps. -/
structure Keeps (Inv : σ → List τ → Prop) (Safe : σ → List τ → τ → Prop) : Prop where
  perm : ∀ s ts ts', ts.Perm ts' → Inv s ts → Inv s ts'
  call : ∀ s ts c, Inv s ts → Inv s (m.start c :: ts)
  step : ∀ s t others, Inv s (t :: others) → Safe s others t →
    Inv (m.step s t).1 ((m.step s t).2.toList ++ others)

variable {m} {Inv : σ → List τ → Prop} {Safe : σ → List τ → τ → Prop}

theorem Keeps.move (h : m.Keeps Inv Safe) (hs : Inv s.shared s.tasks) (i : Move γ)
    (hi : Meets Safe s i) : Inv (m.move s i).shared (m.move s i).tasks := by
  cases i with
  | call c => exact h.perm _ _ _ (List.perm_append_singleton _ _).symm (h.call _ _ c hs)
  | run k =>
    rw [Machine.move]
    cases ht : s.tasks[k]? with
    | none => exact hs
    | some t =>
      have hbefore := h.perm _ _ _ (tasks_perm ht) hs
      exact h.perm _ _ _ (after_perm _).symm (h.step _ _ _ hbefore (hi t ht))

/-- In a run whose steps are all safe, every step has what follows from the invariant
before and after it. -/
theorem Keeps.along_steps {P : State σ τ → Move γ → State σ τ → Prop} (h : m.Keeps Inv Safe)
    (hP : ∀ s i, Inv s.shared s.tasks → Meets Safe s i → Inv (m.move s i).shared (m.move s i).tasks →
      P s i (m.move s i))
    (s : State σ τ) (is : List (Move γ)) (hs : Inv s.shared s.tasks)
    (hg : Guarded m.move (Meets Safe) s is) : Along m.move P s is := by
  have hstep : ∀ (s : State σ τ) i, Inv s.shared s.tasks → Meets Safe s i →
      Inv (m.move s i).shared (m.move s i).tasks := fun s i hs hi => h.move hs i hi
  exact along_run hstep (fun s i hs hi => hP s i hs hi (hstep s i hs hi)) s is hs hg

theorem Keeps.along {P : State σ τ → Prop} (h : m.Keeps Inv Safe)
    (hP : ∀ s : State σ τ, Inv s.shared s.tasks → P s) (s : State σ τ) (is : List (Move γ))
    (hs : Inv s.shared s.tasks) (hg : Guarded m.move (Meets Safe) s is) :
    Along m.move (fun _ _ s' => P s') s is :=
  h.along_steps (P := fun _ _ s' => P s') (fun _ _ _ _ hs' => hP _ hs') s is hs hg

end Keeps

section Undisturbed

variable (m)

/-- What holds of the shared state, and at each point of the tasks, whatever steps the
other tasks take in between, where only the calls at hand come in. -/
structure Undisturbed (allowed : γ → Prop) (Inv : σ → Prop) (At : τ → σ → Prop) : Prop where
  call : ∀ s c, allowed c → Inv s → At (m.start c) s
  step : ∀ s t, Inv s → At t s → Inv (m.step s t).1
  next : ∀ s t t', Inv s → At t s → (m.step s t).2 = some t' → At t' (m.step s t).1
  frame : ∀ s t t', Inv s → At t s → At t' s → At t' (m.step s t).1

variable {m} {allowed : γ → Prop} {Inv : σ → Prop} {At : τ → σ → Prop}

theorem Undisturbed.move (h : m.Undisturbed allowed Inv At) (hs : Inv s.shared)
    (ht : ∀ t ∈ s.tasks, At t s.shared) (i : Move γ) (hi : ∀ c, i = .call c → allowed c) :
    Inv (m.move s i).shared ∧ ∀ t ∈ (m.move s i).tasks, At t (m.move s i).shared := by
  cases i with
  | call c =>
    refine ⟨hs, fun t hmem => ?_⟩
    obtain hmem | hmem := List.mem_append.mp hmem
    · exact ht t hmem
    · rw [List.mem_singleton.mp hmem]
      exact h.call s.shared c (hi c rfl) hs
  | run k =>
    rw [Machine.move]
    cases hk : s.tasks[k]? with
    | none => exact ⟨hs, ht⟩
    | some t =>
      have hat := ht t (List.mem_of_getElem? hk)
      refine ⟨h.step s.shared t hs hat, fun t' hmem => ?_⟩
      obtain hnext | hother := mem_after.mp hmem
      · exact h.next s.shared t t' hs hat hnext
      · exact h.frame s.shared t t' hs hat (ht t' (mem_of_others hother))

theorem Undisturbed.run (h : m.Undisturbed allowed Inv At) (s : State σ τ) (is : List (Move γ))
    (hs : Inv s.shared) (ht : ∀ t ∈ s.tasks, At t s.shared)
    (hcalls : ∀ c, Move.call c ∈ is → allowed c) :
    Inv (Runs.run m.move s is).shared ∧
      ∀ t ∈ (Runs.run m.move s is).tasks, At t (Runs.run m.move s is).shared := by
  induction is generalizing s with
  | nil => exact ⟨hs, ht⟩
  | cons i is ih =>
    obtain ⟨hs', ht'⟩ := h.move hs ht i fun c hc => hcalls c (hc ▸ List.mem_cons_self)
    exact ih (m.move s i) hs' ht' fun c hc => hcalls c (List.mem_cons_of_mem i hc)

end Undisturbed

end Machine

end MemoryArchive.Interleaving
