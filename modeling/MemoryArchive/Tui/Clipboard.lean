import MemoryArchive.Data.Runs

namespace MemoryArchive.Tui.Clipboard

open Runs

/-- A text of the interpreter: code points, surrogates included. -/
abbrev Text := List (Fin 0x110000)

inductive Exception
  | osError
  | subprocessError
  | unicodeEncodeError
  | other (name : String)
  deriving DecidableEq

/-- What `copy_to_os_clipboard` catches. -/
def Exception.caught : Exception → Bool
  | osError => true
  | subprocessError => true
  | unicodeEncodeError => false
  | other _ => false

/-- The character of a code point that is no surrogate. -/
def toChar? (c : Fin 0x110000) : Option Char :=
  if h : c.val.isValidChar then some (Char.ofNatAux c.val h) else none

/-- `text.encode("utf-8")`. -/
def encode (text : Text) : Except Exception ByteArray :=
  match text.mapM toChar? with
  | some cs => .ok (String.ofList cs).toUTF8
  | none => .error .unicodeEncodeError

/-- What one attempt to copy meets: the search for a helper, and its run on an input. -/
structure Helper where
  command : Except Exception (Option (List String))
  run : List String → ByteArray → Option Exception

def copyToOsClipboard (text : Text) (helper : Helper) : Except Exception Bool :=
  if text = [] then .ok false
  else
    match helper.command with
    | .error e => .error e
    | .ok none => .ok false
    | .ok (some argv) =>
        match encode text with
        | .error e => if e.caught then .ok false else .error e
        | .ok input =>
            match helper.run argv input with
            | none => .ok true
            | some e => if e.caught then .ok false else .error e

/-- A submitted text, with the threads that were running then. -/
structure Submission where
  text : Text
  during : List Nat

/-- `_ClipboardWorker` with its threads: each waits for the lock or copies a text. What
has been submitted and attempted is kept. -/
structure Worker where
  pending : Option Text
  thread : Option Nat
  running : List (Nat × Option Text)
  started : Nat
  submissions : List Submission
  attempts : List (Nat × Text)

/-- A submission, the locked step of a thread, or the end of its copy. -/
inductive Act
  | submit (text : Text)
  | take (k : Nat)
  | copy (k : Nat) (helper : Helper)

namespace Worker

variable (s : Worker)

def new : Worker := ⟨none, none, [], 0, [], []⟩

def submit (text : Text) : Worker :=
  let s : Worker := { s with
    pending := some text
    submissions := s.submissions ++ [⟨text, s.running.map (·.1)⟩] }
  match s.thread with
  | some _ => s
  | none =>
      { s with
        thread := some s.started
        running := s.running ++ [(s.started, none)]
        started := s.started + 1 }

def setThread (k : Nat) (text : Option Text) : Worker :=
  { s with running := s.running.map fun t => if t.1 = k then (k, text) else t }

def endThread (k : Nat) : Worker := { s with running := s.running.filter fun t => t.1 ≠ k }

/-- The thread leaves under the lock when nothing is pending. -/
def take (k : Nat) : Worker :=
  match s.running.lookup k with
  | some none =>
      match s.pending with
      | none => { s.endThread k with thread := none }
      | some text => { s.setThread k (some text) with pending := none }
  | _ => s

/-- An exception that is not caught ends the thread. -/
def copy (k : Nat) (helper : Helper) : Worker :=
  match s.running.lookup k with
  | some (some text) =>
      let s := { s with attempts := s.attempts ++ [(k, text)] }
      match copyToOsClipboard text helper with
      | .ok _ => s.setThread k none
      | .error _ => s.endThread k
  | _ => s

def step : Worker → Act → Worker
  | s, .submit text => s.submit text
  | s, .take k => s.take k
  | s, .copy k helper => s.copy k helper

/-- With no thread running, the last text attempted is the last one submitted. -/
def LastCopied : Prop :=
  s.running = [] → s.attempts.getLast?.map (·.2) = s.submissions.getLast?.map (·.text)

/-- A text submitted while a thread ran is superseded, or that thread has copied it
when it has ended. -/
def CopiedOrSuperseded : Prop :=
  ∀ before sub after, s.submissions = before ++ sub :: after → ∀ k ∈ sub.during,
    k ∈ s.running.map (·.1) ∨ after ≠ [] ∨ s.attempts.getLast? = some (k, sub.text)

/-- The next text that is submitted finds a running thread or starts one. -/
def Ready : Prop := ∀ text, (s.submit text).running ≠ []

def Delivers : Prop := s.LastCopied ∧ s.CopiedOrSuperseded ∧ s.Ready

end Worker

/-- The copy raises nothing but what is caught: the text can be encoded, and the search
for a helper raises nothing. -/
def Handled (text : Text) (helper : Helper) : Prop :=
  text = [] ∨ helper.command = .ok none ∨ ∃ argv input, helper.command = .ok (some argv) ∧
    encode text = .ok input ∧ ∀ e, helper.run argv input = some e → e.caught = true

/-- The guard of a step: a copy that ends is one of those. -/
def Survives (s : Worker) : Act → Prop
  | .submit _ => True
  | .take _ => True
  | .copy k helper => ∀ text, s.running.lookup k = some (some text) → Handled text helper

theorem copy_handled {text : Text} {helper : Helper} (h : Handled text helper) :
    ∃ b, copyToOsClipboard text helper = .ok b := by
  unfold copyToOsClipboard
  by_cases htext : text = []
  · exact ⟨false, if_pos htext⟩
  · rw [if_neg htext]
    obtain h | h | ⟨argv, input, hcommand, hinput, hrun⟩ := h
    · exact absurd h htext
    · exact ⟨false, by rw [h]⟩
    · cases he : helper.run argv input with
      | none => exact ⟨true, by simp [hcommand, hinput, he]⟩
      | some e => exact ⟨false, by simp [hcommand, hinput, he, hrun e he]⟩

theorem handled_of_copy {text : Text} {helper : Helper} {b : Bool}
    (h : copyToOsClipboard text helper = .ok b) : Handled text helper := by
  unfold copyToOsClipboard at h
  by_cases htext : text = []
  · exact .inl htext
  · rw [if_neg htext] at h
    cases hcommand : helper.command with
    | error e => simp [hcommand] at h
    | ok command =>
      cases command with
      | none => exact .inr (.inl hcommand)
      | some argv =>
        cases hinput : encode text with
        | error e =>
          have hkind : e = .unicodeEncodeError := by
            unfold encode at hinput
            cases hcs : text.mapM toChar? <;> simp_all
          subst hkind
          simp [hcommand, hinput, Exception.caught] at h
        | ok input =>
          refine .inr (.inr ⟨argv, input, hcommand, hinput, fun e he => ?_⟩)
          by_contra hcaught
          simp [hcommand, hinput, he, hcaught] at h

section Invariant

/-- One thread at most, and the last submission is pending, being copied or copied. -/
inductive Inv (s : Worker) : Prop
  | fresh (thread : s.thread = none) (running : s.running = []) (submissions : s.submissions = [])
      (attempts : s.attempts = [])
  | idle (k : Nat) (sub : Submission) (thread : s.thread = none) (running : s.running = [])
      (last : s.submissions.getLast? = some sub) (during : ∀ j ∈ sub.during, j = k)
      (attempted : s.attempts.getLast? = some (k, sub.text))
  | live (k : Nat) (copying : Option Text) (sub : Submission) (thread : s.thread = some k)
      (running : s.running = [(k, copying)]) (last : s.submissions.getLast? = some sub)
      (during : ∀ j ∈ sub.during, j = k)
      (due : s.pending = some sub.text ∨ s.pending = none ∧ (copying = some sub.text ∨
        copying = none ∧ s.attempts.getLast? = some (k, sub.text)))

variable {s : Worker}

theorem inv_new : Inv .new := .fresh rfl rfl rfl rfl

theorem Inv.lastCopied (h : Inv s) : s.LastCopied := by
  intro hrunning
  cases h with
  | fresh _ _ hsubmissions hattempts => simp [hsubmissions, hattempts]
  | idle k sub _ _ hlast _ hattempted => simp [hlast, hattempted]
  | live k copying sub _ hlive _ _ _ => simp [hlive] at hrunning

theorem Inv.copiedOrSuperseded (h : Inv s) : s.CopiedOrSuperseded := by
  intro before sub after hsplit j hj
  cases after with
  | cons next after => exact .inr (.inl (List.cons_ne_nil _ _))
  | nil =>
    have hsub : s.submissions.getLast? = some sub := by simp [hsplit]
    cases h with
    | fresh _ _ hsubmissions _ => simp [hsubmissions] at hsub
    | idle k sub' _ _ hlast hduring hattempted =>
      obtain rfl : sub' = sub := Option.some.inj (hlast.symm.trans hsub)
      obtain rfl := hduring j hj
      exact .inr (.inr hattempted)
    | live k copying sub' _ hlive hlast hduring _ =>
      obtain rfl : sub' = sub := Option.some.inj (hlast.symm.trans hsub)
      obtain rfl := hduring j hj
      exact .inl (by simp [hlive])

theorem Inv.ready (h : Inv s) : s.Ready := by
  intro text
  cases h with
  | fresh hthread _ _ _ | idle _ _ hthread _ _ _ _ => simp [Worker.submit, hthread]
  | live k copying sub hthread hlive _ _ _ => simp [Worker.submit, hthread, hlive]

theorem Inv.delivers (h : Inv s) : s.Delivers := ⟨h.lastCopied, h.copiedOrSuperseded, h.ready⟩

/-- A text is pending once submitted. -/
theorem Inv.submit (h : Inv s) (text : Text) : Inv (s.submit text) := by
  cases h with
  | fresh hthread hrunning _ _ | idle _ _ hthread hrunning _ _ _ =>
    refine .live s.started none ⟨text, []⟩ ?_ ?_ ?_ (fun j hj => absurd hj List.not_mem_nil) (.inl ?_)
    all_goals simp [Worker.submit, hthread, hrunning]
  | live k copying sub hthread hrunning _ _ _ =>
    refine .live k copying ⟨text, [k]⟩ ?_ ?_ ?_ (fun j hj => List.mem_singleton.mp hj) (.inl ?_)
    all_goals simp [Worker.submit, hthread, hrunning]

theorem lookup_single (j k : Nat) (copying : Option Text) :
    [(k, copying)].lookup j = if j = k then some copying else none := by
  by_cases h : j = k
  · simp [h]
  · simp [List.lookup_cons, h, beq_eq_false_iff_ne.mpr h]

/-- A step of a thread that is not running changes nothing. -/
theorem lookup_elsewhere {j k : Nat} {copying : Option Text} (hrunning : s.running = [(k, copying)])
    (hjk : j ≠ k) : s.running.lookup j = none := by
  rw [hrunning, lookup_single, if_neg hjk]

theorem take_idle {k : Nat} (h : s.running.lookup k = none) : s.take k = s := by
  unfold Worker.take
  rw [h]

theorem copy_idle {k : Nat} (helper : Helper) (h : s.running.lookup k = none) :
    s.copy k helper = s := by
  unfold Worker.copy
  rw [h]

/-- A thread takes what is pending, or leaves with the last submission copied. -/
theorem Inv.take (h : Inv s) (j : Nat) : Inv (s.take j) := by
  cases h with
  | fresh hthread hrunning hsubmissions hattempts =>
    rw [take_idle (by simp [hrunning])]
    exact .fresh hthread hrunning hsubmissions hattempts
  | idle k sub hthread hrunning hlast hduring hattempted =>
    rw [take_idle (by simp [hrunning])]
    exact .idle k sub hthread hrunning hlast hduring hattempted
  | live k copying sub hthread hrunning hlast hduring hdue =>
    by_cases hjk : j = k
    · subst hjk
      have hlookup : s.running.lookup j = some copying := by
        rw [hrunning, lookup_single, if_pos rfl]
      cases hc : copying with
      | some text =>
        have hstay : s.take j = s := by simp [Worker.take, hlookup, hc]
        rw [hstay]
        exact .live j copying sub hthread hrunning hlast hduring hdue
      | none =>
        subst hc
        cases hp : s.pending with
        | none =>
          obtain hpending | ⟨_, hnone | ⟨_, hattempted⟩⟩ := hdue
          · simp [hp] at hpending
          · simp at hnone
          · refine .idle j sub ?_ ?_ ?_ hduring ?_
            all_goals simp [Worker.take, hp, Worker.endThread, hrunning, hlast, hattempted]
        | some text =>
          have htext : text = sub.text := by
            obtain hpending | ⟨hnone, _⟩ := hdue
            · exact Option.some.inj (hp.symm.trans hpending)
            · simp [hp] at hnone
          refine .live j (some text) sub ?_ ?_ ?_ hduring (.inr ⟨?_, .inl (by rw [htext])⟩)
          all_goals simp [Worker.take, hp, Worker.setThread, hrunning, hlast, hthread]
    · rw [take_idle (lookup_elsewhere hrunning hjk)]
      exact .live k copying sub hthread hrunning hlast hduring hdue

/-- A copy that raises nothing new brings its thread back to the lock. -/
theorem Inv.copy (h : Inv s) (j : Nat) (helper : Helper) (hs : Survives s (.copy j helper)) :
    Inv (s.copy j helper) := by
  cases h with
  | fresh hthread hrunning hsubmissions hattempts =>
    rw [copy_idle helper (by simp [hrunning])]
    exact .fresh hthread hrunning hsubmissions hattempts
  | idle k sub hthread hrunning hlast hduring hattempted =>
    rw [copy_idle helper (by simp [hrunning])]
    exact .idle k sub hthread hrunning hlast hduring hattempted
  | live k copying sub hthread hrunning hlast hduring hdue =>
    by_cases hjk : j = k
    · subst hjk
      have hlookup : s.running.lookup j = some copying := by
        rw [hrunning, lookup_single, if_pos rfl]
      cases hc : copying with
      | none =>
        have hstay : s.copy j helper = s := by simp [Worker.copy, hlookup, hc]
        rw [hstay]
        exact .live j copying sub hthread hrunning hlast hduring hdue
      | some text =>
        subst hc
        obtain ⟨b, hb⟩ := copy_handled (hs text hlookup)
        have hnext : s.copy j helper =
            { s with attempts := s.attempts ++ [(j, text)], running := [(j, none)] } := by
          simp [Worker.copy, hb, Worker.setThread, hrunning]
        rw [hnext]
        refine .live j none sub hthread rfl hlast hduring ?_
        obtain hpending | ⟨hnone, htext | ⟨hfree, _⟩⟩ := hdue
        · exact .inl hpending
        · refine .inr ⟨hnone, .inr ⟨rfl, ?_⟩⟩
          rw [← Option.some.inj htext]
          exact List.getLast?_concat
        · simp at hfree
    · rw [copy_idle helper (lookup_elsewhere hrunning hjk)]
      exact .live k copying sub hthread hrunning hlast hduring hdue

theorem inv_step (s : Worker) (i : Act) (h : Inv s) (hs : Survives s i) : Inv (s.step i) := by
  cases i with
  | submit text => exact h.submit text
  | take k => exact h.take k
  | copy k helper => exact h.copy k helper hs

/-- A thread that an exception ends leaves itself behind, and no other is started. -/
theorem not_ready_of_raised {k : Nat} {helper : Helper} {text : Text} (h : Inv s)
    (hlookup : s.running.lookup k = some (some text)) (hraised : ¬ Handled text helper) :
    ¬ (s.copy k helper).Ready := by
  cases h with
  | fresh _ hrunning _ _ | idle _ _ _ hrunning _ _ _ => simp [hrunning] at hlookup
  | live j copying sub hthread hrunning _ _ _ =>
    rw [hrunning, lookup_single] at hlookup
    by_cases hkj : k = j
    · subst hkj
      rw [if_pos rfl] at hlookup
      obtain rfl := Option.some.inj hlookup
      have hend : (s.copy k helper).running = [] ∧ (s.copy k helper).thread = some k := by
        cases hcopy : copyToOsClipboard text helper with
        | ok b => exact absurd (handled_of_copy hcopy) hraised
        | error e =>
          simp [Worker.copy, hcopy, Worker.endThread, hrunning, hthread]
      intro hready
      refine hready text ?_
      simp [Worker.submit, hend.1, hend.2]
    · simp [hkj] at hlookup

theorem delivers_step (s : Worker) (i : Act) (h : Inv s) : (s.step i).Delivers ↔ Survives s i := by
  refine ⟨fun hnext => ?_, fun hs => (inv_step s i h hs).delivers⟩
  cases i with
  | submit text => trivial
  | take k => trivial
  | copy k helper =>
    intro text hlookup
    by_contra hraised
    exact not_ready_of_raised h hlookup hraised hnext.2.2

/-- The last text wins in every reached state just when no copy raises what is not
caught. -/
theorem delivers_iff (is : List Act) :
    Along Worker.step (fun _ _ s => s.Delivers) .new is ↔ Guarded Worker.step Survives .new is :=
  along_iff_guarded_of (Q := Worker.Delivers) delivers_step
    (fun s i h hnext => inv_step s i h ((delivers_step s i h).mp hnext)) .new is inv_new

/-- A search for a helper that finds one which runs as it should. -/
def working : Helper := ⟨.ok (some ["/usr/bin/xclip", "-selection", "clipboard"]), fun _ _ => none⟩

def surrogate : Text := [0xd800]

def letter : Text := [0x61]

/-- A lone surrogate ends the thread for good: the next text is never copied. -/
theorem surrogate_stops : ¬ ∀ is : List Act,
    Along Worker.step (fun _ _ s => s.Delivers) .new is := by
  intro h
  have hlast := (h [.submit surrogate, .take 0, .copy 0 working, .submit letter]).2.2.2.1.1
  have hgone : (run Worker.step .new
      [.submit surrogate, .take 0, .copy 0 working, .submit letter]).running = [] := by decide +kernel
  exact absurd (hlast hgone) (by decide +kernel)

end Invariant

end MemoryArchive.Tui.Clipboard
