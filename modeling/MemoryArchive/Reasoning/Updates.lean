import MemoryArchive.Data.Interleaving
import MemoryArchive.Reasoning.SharedFile
import MemoryArchive.Reasoning.Upserts

namespace MemoryArchive.Reasoning.Updates

open Capture (StepEntry)
open Interleaving Runs

/-- reasoning.jsonl on the disk: not there, a text, or bytes that are no UTF-8. -/
inductive Disk
  | missing
  | text (t : Text)
  | broken

/-- The lines that can be read of it. -/
def Disk.file : Disk → File
  | .text t => some t
  | .missing | .broken => none

/-- What `read_to_string` gives a writer, after its test that the file is there. -/
def Disk.read : Disk → Option File
  | .missing => some none
  | .text t => some (some t)
  | .broken => none

/-- Who updates the file: the handler of a ReasoningResult, which holds a lock, the
pass over the steps of a session that is done, with the entries it has yet to write,
or the annotation screen. -/
inductive Writer
  | result (entry : ReasoningEntry) (lock : Nat)
  | placeholder (entry : ReasoningEntry) (rest : List ReasoningEntry) (steps : List StepEntry)
  | human (step : StepState) (now : String)

/-- The file of one session and its temporary sibling, the lock that the map of write
locks has for the session and the locks that are held. `log` is an account of the
entries that a ReasoningResult was accepted for or that the annotation screen wrote,
`ended` of the steps that were recorded when a session was done. -/
structure Shared where
  disk : Disk
  tmp : Option Text
  lock : Option Nat
  nextLock : Nat
  held : List Nat
  log : List Write
  ended : List StepEntry

/-- A message, the end of the watch loop or a key press. A session that is not
automated, or not done, ends without a pass. -/
inductive Call
  | reasoningResult (step : StepEntry) (model : AutomatedReasoning) (now : String)
  | watchEnds
  | done (steps : List StepEntry) (now : UInt32 → String)
  | writeEntry (step : StepState) (now : String)

/-- Where a task is: what it does next. -/
inductive Task
  | sessionWriteLock (entry : ReasoningEntry)
  | acquire (entry : ReasoningEntry) (lock : Nat)
  | removeSession (pass : Option (List StepEntry × (UInt32 → String)))
  | snapshot (steps : List StepEntry) (now : UInt32 → String)
  | read (w : Writer)
  | save (w : Writer) (text : Text)
  | rename (w : Writer)

def Call.task : Call → Task
  | .reasoningResult step model now => .sessionWriteLock (buildAutomatedEntry step model now)
  | .watchEnds => .removeSession none
  | .done steps now => .removeSession (some (steps, now))
  | .writeEntry step now => .read (.human step now)

/-- The text that a writer makes of the file, if it can. -/
def Writer.text (disk : Disk) : Writer → Option Text
  | .result entry _ | .placeholder entry _ _ => disk.read.map fun file => upsertEntry file entry
  | .human step now => disk.read.bind fun file => atomicUpsert file step now

/-- What of a finished update is accounted for. -/
def Writer.accepted : Writer → List Write
  | .result entry _ => [.upsertEntry entry]
  | .placeholder _ _ _ => []
  | .human step now => [.atomicUpsert step now]

namespace Shared

variable (s : Shared)

/-- The pass goes on with the next entry, or is over. -/
def fill (steps : List StepEntry) : List ReasoningEntry → Shared × Option Task
  | [] => ({ s with ended := s.ended ++ steps }, none)
  | entry :: rest => (s, some (.read (.placeholder entry rest steps)))

/-- After an update, or a failed one: the handler releases its lock, the pass goes on. -/
def leave : Writer → Shared × Option Task
  | .result _ lock => ({ s with held := s.held.erase lock }, none)
  | .placeholder _ rest steps => s.fill steps rest
  | .human _ _ => (s, none)

def step : Task → Shared × Option Task
  | .sessionWriteLock entry =>
      match s.lock with
      | some lock => (s, some (.acquire entry lock))
      | none =>
          ({ s with lock := some s.nextLock, nextLock := s.nextLock + 1 },
            some (.acquire entry s.nextLock))
  | .acquire entry lock =>
      if lock ∈ s.held then (s, some (.acquire entry lock))
      else ({ s with held := lock :: s.held }, some (.read (.result entry lock)))
  | .removeSession pass =>
      ({ s with lock := none }, pass.map fun (steps, now) => .snapshot steps now)
  | .snapshot steps now => s.fill steps (missingEntries s.disk.file steps now)
  | .read w =>
      match w.text s.disk with
      | some text => (s, some (.save w text))
      | none => s.leave w
  | .save w text => ({ s with tmp := some text }, some (.rename w))
  | .rename w =>
      match s.tmp with
      | some text => { s with disk := .text text, tmp := none, log := s.log ++ w.accepted }.leave w
      | none => s.leave w

end Shared

/-- No task has taken its first step. -/
def Task.fresh : Task → Bool
  | .sessionWriteLock _ | .removeSession _ | .read (.human _ _) => true
  | _ => false

/-- The handlers, the watch loop and the annotation screen, each step on its own. -/
def machine : Machine Call Shared Task Unit where
  start := Call.task
  step := Shared.step
  key _ := ()
  fresh := Task.fresh
  fresh_start c := by cases c <;> rfl

abbrev State := Interleaving.State Shared Task

/-- A task that has read the file and has not put its own in place. -/
def Task.updating : Task → Bool
  | .save _ _ | .rename _ => true
  | _ => false

def isHuman : Write → Bool
  | .atomicUpsert _ _ => true
  | .upsertEntry _ => false

def writeRow (i : Write) : Int × Json := (i.key, i.entry)

/-- The entry that has to stand for a step: the last that the annotation screen wrote,
else the last that was accepted from the model. -/
def best (log : List Write) (k : Int) : Option Json :=
  (lastFor ((log.filter isHuman).map writeRow) k).or
    (lastFor ((log.filter fun i => !isHuman i).map writeRow) k)

def stepKey (step : StepEntry) : Int := step.stepId.toNat

/-- No two updates overlap, each step has the entry that has to stand for it, and each
step of a session that is done has one entry. -/
structure Preserved (s : State) : Prop where
  alone : s.tasks.countP Task.updating ≤ 1
  stands : ∀ k j, best s.shared.log k = some j → entriesOf s.shared.disk.file k = [j]
  complete : ∀ step ∈ s.shared.ended, (entriesOf s.shared.disk.file (stepKey step)).length = 1

/-- The lock that a handler has got from the map. -/
def Task.lock? : Task → Option Nat
  | .acquire _ lock | .read (.result _ lock) | .save (.result _ lock) _ | .rename (.result _ lock) =>
      some lock
  | _ => none

/-- A handler that holds its lock. -/
def Task.holds : Task → Bool
  | .read (.result _ _) | .save (.result _ _) _ | .rename (.result _ _) => true
  | _ => false

/-- The entries that a pass has yet to write. -/
def Task.todo : Task → List ReasoningEntry
  | .read (.placeholder entry rest _) | .save (.placeholder entry rest _) _
  | .rename (.placeholder entry rest _) => entry :: rest
  | _ => []

def Shared.NoHuman (s : Shared) : Prop := s.log.all (fun i => !isHuman i) = true

/-- A step has one entry, which the Rust side reads back as long as it writes. -/
def Shared.Settled (s : Shared) (step : StepEntry) : Prop :=
  (entriesOf s.disk.file (stepKey step)).length = 1 ∧
    (s.NoHuman → ((keptEntries s.disk.file).get? (stepKey step)).isSome = true)

instance (s : Shared) (step : StepEntry) : Decidable (s.Settled step) :=
  inferInstanceAs (Decidable (_ ∧ (_ = true → _ = true)))

/-- `_atomic_upsert` finds all entries of the file, and each step has one at most. -/
def ReadsAll (file : File) : Prop :=
  ∃ entries, existingEntries file = some entries ∧ ∀ k, entriesOf file k = (entries.get? k).toList

/-- What a task may assume where it takes its next step, beside tasks `others`. A lock is
made only while no handler has an older one. The Rust side reads while no entry of the
annotation screen is there; the pass and the annotation screen read while nobody else
updates the file, a handler while neither of them does. A result comes for no step that
a pass still writes. -/
def Safe (s : Shared) (others : List Task) : Task → Prop
  | .sessionWriteLock _ => s.lock = none → ∀ t ∈ others, t.lock? = none
  | .snapshot steps _ =>
      (steps ≠ [] → s.disk.read.isSome = true) ∧
        ∀ step ∈ steps, step.stepId ∈ existingIds s.disk.file → s.Settled step
  | .read (.result _ _) => s.NoHuman ∧ ∀ t ∈ others, t.updating = true → t.holds = true
  | .read (.placeholder _ _ _) => s.NoHuman ∧ ∀ t ∈ others, t.updating = false
  | .read (.human _ _) => ReadsAll s.disk.file ∧ ∀ t ∈ others, t.updating = false
  | .rename (.result entry _) => ∀ t ∈ others, entry.key ∉ t.todo.map ReasoningEntry.key
  | .acquire _ _ | .removeSession _ | .save _ _ | .rename _ => True

/-- The locks of the handlers under way: all have got the same one, and one of them
holds it at most. -/
structure Locks (s : Shared) (ts : List Task) : Prop where
  current : ∀ t ∈ ts, ∀ l, t.lock? = some l → ∀ l', s.lock = some l' → l = l'
  same : ∀ t ∈ ts, ∀ t' ∈ ts, ∀ l l', t.lock? = some l → t'.lock? = some l' → l = l'
  held : ∀ t ∈ ts, t.holds = true → ∀ l, t.lock? = some l → l ∈ s.held
  one : ts.countP Task.holds ≤ 1

section Locks

variable {s s' : Shared} {t t' : Task} {others : List Task}

theorem Locks.alone (h : Locks s (t :: others)) (ht : t.holds = true) :
    ∀ t' ∈ others, t'.holds = false := by
  have hone := h.one
  rw [List.countP_cons_of_pos ht] at hone
  have hnone : others.countP Task.holds = 0 := by omega
  intro t' ht'
  simpa using List.countP_eq_zero.mp hnone t' ht'

/-- A task goes on under the lock that it has. -/
theorem Locks.keep (h : Locks s (t :: others)) (hlock : s'.lock = s.lock) (hheld : s'.held = s.held)
    (hlock? : t'.lock? = t.lock?) (hholds : t'.holds = t.holds) : Locks s' (t' :: others) := by
  have hsame : ∀ u ∈ t' :: others, ∃ v ∈ t :: others, u.lock? = v.lock? ∧ u.holds = v.holds := by
    intro u hu
    obtain rfl | hu := List.mem_cons.mp hu
    · exact ⟨t, List.mem_cons_self, hlock?, hholds⟩
    · exact ⟨u, List.mem_cons_of_mem t hu, rfl, rfl⟩
  refine ⟨fun u hu l hl l' hl' => ?_, fun u hu u' hu' l l' hl hl' => ?_, fun u hu hh l hl => ?_, ?_⟩
  · obtain ⟨v, hv, hvl, -⟩ := hsame u hu
    exact h.current v hv l (hvl ▸ hl) l' (hlock ▸ hl')
  · obtain ⟨v, hv, hvl, -⟩ := hsame u hu
    obtain ⟨v', hv', hvl', -⟩ := hsame u' hu'
    exact h.same v hv v' hv' l l' (hvl ▸ hl) (hvl' ▸ hl')
  · obtain ⟨v, hv, hvl, hvh⟩ := hsame u hu
    rw [hheld]
    exact h.held v hv (hvh ▸ hh) l (hvl ▸ hl)
  · have hone := h.one
    rw [List.countP_cons] at hone ⊢
    rwa [hholds]

/-- A task goes on without a lock, or has ended. -/
theorem Locks.drop {next : Option Task} (h : Locks s (t :: others)) (hlock : s'.lock = s.lock ∨ s'.lock = none)
    (hheld : ∀ t' ∈ others, t'.holds = true → ∀ l, t'.lock? = some l → l ∈ s'.held)
    (hnext : ∀ t' ∈ next, t'.lock? = none ∧ t'.holds = false) : Locks s' (next.toList ++ others) := by
  have hmem : ∀ u ∈ next.toList ++ others, (u.lock? = none ∧ u.holds = false) ∨ u ∈ others := by
    intro u hu
    obtain hu | hu := List.mem_append.mp hu
    · exact .inl (hnext u (Option.mem_toList.mp hu))
    · exact .inr hu
  refine ⟨fun u hu l hl l' hl' => ?_, fun u hu u' hu' l l' hl hl' => ?_, fun u hu hh l hl => ?_, ?_⟩
  · obtain ⟨hnone, -⟩ | hu := hmem u hu
    · rw [hnone] at hl
      cases hl
    · obtain hsame | hnone := hlock
      · exact h.current u (List.mem_cons_of_mem t hu) l hl l' (hsame ▸ hl')
      · rw [hnone] at hl'
        cases hl'
  · obtain ⟨hnone, -⟩ | hu := hmem u hu
    · rw [hnone] at hl
      cases hl
    · obtain ⟨hnone, -⟩ | hu' := hmem u' hu'
      · rw [hnone] at hl'
        cases hl'
      · exact h.same u (List.mem_cons_of_mem t hu) u' (List.mem_cons_of_mem t hu') l l' hl hl'
  · obtain ⟨-, hfalse⟩ | hu := hmem u hu
    · rw [hfalse] at hh
      cases hh
    · exact hheld u hu hh l hl
  · have hone := h.one
    rw [List.countP_cons] at hone
    have hzero : next.toList.countP Task.holds = 0 := by
      refine List.countP_eq_zero.mpr fun u hu => ?_
      rw [(hnext u (Option.mem_toList.mp hu)).2]
      exact Bool.false_ne_true
    rw [List.countP_append, hzero]
    omega

theorem Locks.held_others (h : Locks s (t :: others)) (hheld : s'.held = s.held) :
    ∀ t' ∈ others, t'.holds = true → ∀ l, t'.lock? = some l → l ∈ s'.held := by
  intro t' ht' hh l hl
  rw [hheld]
  exact h.held t' (List.mem_cons_of_mem t ht') hh l hl

theorem fill_config (s : Shared) (steps : List StepEntry) (todo : List ReasoningEntry) :
    (s.fill steps todo).1.lock = s.lock ∧ (s.fill steps todo).1.held = s.held ∧
      ∀ t ∈ (s.fill steps todo).2, t.lock? = none ∧ t.holds = false := by
  cases todo with
  | nil => exact ⟨rfl, rfl, fun t ht => (by cases ht)⟩
  | cons entry rest => exact ⟨rfl, rfl, fun t ht => (by cases ht; exact ⟨rfl, rfl⟩)⟩

theorem Locks.fill (h : Locks s (t :: others)) (hlock : s'.lock = s.lock) (hheld : s'.held = s.held)
    (steps : List StepEntry) (todo : List ReasoningEntry) :
    Locks (s'.fill steps todo).1 ((s'.fill steps todo).2.toList ++ others) := by
  obtain ⟨hflock, hfheld, hnext⟩ := fill_config s' steps todo
  exact h.drop (.inl (hflock.trans hlock)) (h.held_others (hfheld.trans hheld)) hnext

/-- The one handler that holds the lock releases it. -/
theorem Locks.leave {w : Writer} (h : Locks s (t :: others)) (hlock : s'.lock = s.lock)
    (hheld : s'.held = s.held) (hholds : ∀ entry l, w = .result entry l → t.holds = true) :
    Locks (s'.leave w).1 ((s'.leave w).2.toList ++ others) := by
  cases w with
  | result entry l =>
    refine h.drop (.inl hlock) (fun t' ht' hh => ?_) fun t' ht' => (by cases ht')
    rw [h.alone (hholds entry l rfl) t' ht'] at hh
    cases hh
  | placeholder entry rest steps => exact h.fill hlock hheld steps rest
  | human step now => exact h.drop (.inl hlock) (h.held_others hheld) fun t' ht' => (by cases ht')

/-- A handler gets the lock that all others have got. -/
theorem Locks.join (h : Locks s (t :: others)) (entry : ReasoningEntry) {l : Nat} (hlock : s'.lock = some l)
    (hheld : s'.held = s.held) (hsame : ∀ t' ∈ others, ∀ l', t'.lock? = some l' → l' = l)
    (hholds : t.holds = false) : Locks s' (.acquire entry l :: others) := by
  have hall : ∀ u ∈ Task.acquire entry l :: others, ∀ l', u.lock? = some l' → l' = l := by
    intro u hu l' hl'
    obtain rfl | hu := List.mem_cons.mp hu
    · cases hl'
      rfl
    · exact hsame u hu l' hl'
  refine ⟨fun u hu l₁ hl₁ l₂ hl₂ => ?_, fun u hu u' hu' l₁ l₂ hl₁ hl₂ => ?_, fun u hu hh l' hl' => ?_, ?_⟩
  · rw [hlock] at hl₂
    cases hl₂
    exact hall u hu l₁ hl₁
  · rw [hall u hu l₁ hl₁, hall u' hu' l₂ hl₂]
  · obtain rfl | hu := List.mem_cons.mp hu
    · cases hh
    · exact h.held_others hheld u hu hh l' hl'
  · have hone := h.one
    rw [List.countP_cons, hholds] at hone
    rw [List.countP_cons]
    exact hone

theorem lock_of_holds {t : Task} (h : t.holds = true) : ∃ l, t.lock? = some l := by
  cases t with
  | read w | save w _ | rename w =>
    cases w with
    | result _ l => exact ⟨l, rfl⟩
    | placeholder _ _ _ | human _ _ => cases h
  | sessionWriteLock _ | acquire _ _ | removeSession _ | snapshot _ _ => cases h

/-- A handler that finds its lock free is the only one to hold it. -/
theorem Locks.enter {entry : ReasoningEntry} {l : Nat} (h : Locks s (.acquire entry l :: others))
    (hfree : l ∉ s.held) :
    Locks { s with held := l :: s.held } (.read (.result entry l) :: others) := by
  have hnone : ∀ t' ∈ others, t'.holds = false := by
    intro t' ht'
    rw [Bool.eq_false_iff]
    intro hh
    obtain ⟨l', hl'⟩ := lock_of_holds hh
    have hmem := List.mem_cons_of_mem (Task.acquire entry l) ht'
    have heq : l = l' := h.same _ List.mem_cons_self t' hmem l l' rfl hl'
    exact hfree (heq ▸ h.held t' hmem hh l' hl')
  have hlock : ∀ u ∈ Task.read (.result entry l) :: others, ∃ v ∈ Task.acquire entry l :: others,
      u.lock? = v.lock? := by
    intro u hu
    obtain rfl | hu := List.mem_cons.mp hu
    · exact ⟨_, List.mem_cons_self, rfl⟩
    · exact ⟨u, List.mem_cons_of_mem _ hu, rfl⟩
  refine ⟨fun u hu l₁ hl₁ l₂ hl₂ => ?_, fun u hu u' hu' l₁ l₂ hl₁ hl₂ => ?_, fun u hu hh l' hl' => ?_, ?_⟩
  · obtain ⟨v, hv, hvl⟩ := hlock u hu
    exact h.current v hv l₁ (hvl ▸ hl₁) l₂ hl₂
  · obtain ⟨v, hv, hvl⟩ := hlock u hu
    obtain ⟨v', hv', hvl'⟩ := hlock u' hu'
    exact h.same v hv v' hv' l₁ l₂ (hvl ▸ hl₁) (hvl' ▸ hl₂)
  · obtain rfl | hu := List.mem_cons.mp hu
    · cases hl'
      exact List.mem_cons_self
    · rw [hnone u hu] at hh
      cases hh
  · have hzero : others.countP Task.holds = 0 :=
      List.countP_eq_zero.mpr fun u hu => by rw [hnone u hu]; exact Bool.false_ne_true
    rw [List.countP_cons, hzero]
    exact le_rfl

theorem Locks.step (h : Locks s (t :: others)) (hs : Safe s others t) :
    Locks (s.step t).1 ((s.step t).2.toList ++ others) := by
  cases t with
  | sessionWriteLock entry =>
    rw [Shared.step]
    cases hlock : s.lock with
    | some l =>
      refine h.join entry hlock rfl (fun t' ht' l' hl' => ?_) rfl
      exact h.current t' (List.mem_cons_of_mem _ ht') l' hl' l hlock
    | none =>
      refine h.join entry rfl rfl (fun t' ht' l' hl' => ?_) rfl
      rw [hs hlock t' ht'] at hl'
      cases hl'
  | acquire entry l =>
    rw [Shared.step]
    split
    · exact h
    · rename_i hfree
      exact h.enter hfree
  | removeSession pass =>
    refine h.drop (.inr rfl) (h.held_others rfl) fun t' ht' => ?_
    obtain ⟨p, -, rfl⟩ := Option.map_eq_some_iff.mp ht'
    exact ⟨rfl, rfl⟩
  | snapshot steps now => exact h.fill rfl rfl steps _
  | read w =>
    rw [Shared.step]
    split
    · exact h.keep rfl rfl (by cases w <;> rfl) (by cases w <;> rfl)
    · exact h.leave rfl rfl fun entry l hw => by rw [hw]; rfl
  | save w text => exact h.keep rfl rfl (by cases w <;> rfl) (by cases w <;> rfl)
  | rename w =>
    rw [Shared.step]
    split
    · exact h.leave rfl rfl fun entry l hw => by rw [hw]; rfl
    · exact h.leave rfl rfl fun entry l hw => by rw [hw]; rfl

end Locks

end MemoryArchive.Reasoning.Updates
