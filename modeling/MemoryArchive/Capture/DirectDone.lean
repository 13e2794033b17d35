import MemoryArchive.Capture.Finalise
import MemoryArchive.Capture.Session

namespace MemoryArchive.Capture

/-- One entry of a command file as a reader sees it. -/
inductive Recorded
  | row (text : Text)
  | value (j : Json)

/-- The elements of an array, or else the values of the lines. -/
def jsonEntries (text : Text) : List Json :=
  match Json.parse text with
  | some (.arr items) => items
  | _ => (Lines.lines text).filterMap Json.parse

def recorded (file : CommandFile) (content : Option Text) : List Recorded :=
  match file with
  | .rawInput | .convertedInput => (tableRows content).map .row
  | .actuationCommands | .ccCommands => (jsonEntries (content.getD [])).map .value

/-- Every file holds the same entries in the same order. -/
def KeepsEntries (before after : Files) : Prop :=
  ∀ file, recorded file (after file) = recorded file (before file)

theorem runPuts_mem (fault : Option Nat) (puts : List (CommandFile × Text)) (files : Files)
    (file : CommandFile) :
    (runPuts fault puts files).1 file = files file ∨
      ∃ text, (file, text) ∈ puts ∧ (runPuts fault puts files).1 file = some text := by
  induction puts generalizing fault files with
  | nil => exact .inl rfl
  | cons put puts ih =>
    obtain ⟨file', text'⟩ := put
    rw [runPuts]
    split
    · exact .inl rfl
    obtain hsame | ⟨text, hmem, he⟩ :=
      ih (fault.map Nat.pred) (Function.update files file' (some text'))
    · by_cases hfile : file = file'
      · subst hfile
        exact .inr ⟨text', by simp, hsame.trans (Function.update_self file _ files)⟩
      · exact .inl (hsame.trans (Function.update_of_ne hfile _ _))
    · exact .inr ⟨text, by simp [hmem], he⟩

/-- What a writer without events puts, in order. -/
def emptyPuts : List (CommandFile × Text) :=
  (.actuationCommands, arrayText []) :: (.ccCommands, arrayText []) ::
    (CommandWriter.new true).flushPuts

theorem finalise_new (fault : Option Nat) (files : Files) :
    (CommandWriter.new true).finalise fault files = runPuts fault emptyPuts files := by
  have hempty : CommandWriter.bufEntries [] = some [] := rfl
  simp only [CommandWriter.finalise, CommandWriter.finaliseCloud, CommandWriter.new, if_true, hempty]
  rfl

theorem recorded_emptyPuts : ∀ put ∈ emptyPuts, (recorded put.1 (some put.2)).length = 0 := by
  decide +kernel

/-- The first put already replaces the recorded actuation commands. -/
theorem runPuts_emptyPuts (fault : Option Nat) (hfault : fault ≠ some 0) (files : Files) :
    recorded .actuationCommands ((runPuts fault emptyPuts files).1 .actuationCommands) = [] := by
  have hempty : ∀ text, (CommandFile.actuationCommands, text) ∈ emptyPuts →
      recorded .actuationCommands (some text) = [] :=
    fun text h => List.eq_nil_of_length_eq_zero (recorded_emptyPuts _ h)
  rw [emptyPuts, runPuts, if_neg hfault]
  obtain hsame | ⟨text, hmem, he⟩ := runPuts_mem (fault.map Nat.pred)
    ((.ccCommands, arrayText []) :: (CommandWriter.new true).flushPuts)
    (Function.update files .actuationCommands (some (arrayText []))) .actuationCommands
  · rw [hsame, Function.update_self]
    exact hempty _ (by simp [emptyPuts])
  · rw [he]
    exact hempty text (List.mem_cons_of_mem _ hmem)

theorem done_files (ctx : Context) (s : Session) (input : DoneInput)
    (hcloud : ctx.isCloudPrimary = true) (hregistered : s.registered = true)
    (hhandle : s.handle = none) :
    (s.step ctx (.done input)).files = (runPuts input.fault emptyPuts s.files).1 := by
  simp only [Session.step, Session.done, hhandle, hregistered, if_true, Session.doneDirect, hcloud,
    finalise_new]

/-- A Done that finds no handle keeps the entries in storage exactly when there
are none or its first put fails. -/
theorem done_keeps_entries_iff (ctx : Context) (s : Session) (input : DoneInput) (n : Nat)
    (hcloud : ctx.isCloudPrimary = true) (hregistered : s.registered = true)
    (hhandle : s.handle = none) (hn : ∀ file, (recorded file (s.files file)).length = n) :
    KeepsEntries s.files (s.step ctx (.done input)).files ↔ n = 0 ∨ input.fault = some 0 := by
  rw [done_files ctx s input hcloud hregistered hhandle]
  constructor
  · intro hkeep
    by_cases hfault : input.fault = some 0
    · exact .inr hfault
    · left
      have hnil := runPuts_emptyPuts input.fault hfault s.files
      rw [hkeep .actuationCommands] at hnil
      rw [← hn .actuationCommands, hnil]
      rfl
  · rintro (rfl | hfault)
    · intro file
      have hbefore := List.eq_nil_of_length_eq_zero (hn file)
      obtain hsame | ⟨text, hmem, he⟩ := runPuts_mem input.fault emptyPuts s.files file
      · rw [hsame]
      · rw [he, hbefore]
        exact List.eq_nil_of_length_eq_zero (recorded_emptyPuts _ hmem)
    · intro file
      rw [emptyPuts, runPuts, if_pos hfault]

/-- A session in cloud mode after a restart, with the files that one event left. -/
def storedSession : Session where
  registered := true
  stored := some .initial
  files file := some (fileText (fun e => e.rawCommand) file (written sampleActions))
  maps := .new
  loops := []
  handle := none
  nextLoop := 0

theorem storedSession_length :
    ∀ file, (recorded file (storedSession.files file)).length = 1 := by
  intro file
  cases file <;> decide +kernel

theorem done_keeps_entries_sample :
    KeepsEntries storedSession.files
        (storedSession.step cloudContext (.done ⟨none, true, true, true⟩)).files ↔
      1 = 0 ∨ (none : Option Nat) = some 0 :=
  done_keeps_entries_iff cloudContext storedSession ⟨none, true, true, true⟩ 1 rfl rfl rfl
    storedSession_length

/-- Done after a restart: the one recorded event is gone. -/
theorem done_erases_entries :
    (∀ file, (recorded file (storedSession.files file)).length = 1) ∧
      ¬ KeepsEntries storedSession.files
        (storedSession.step cloudContext (.done ⟨none, true, true, true⟩)).files := by
  refine ⟨storedSession_length, fun h => ?_⟩
  have hgone : (recorded .rawInput ((storedSession.step cloudContext
      (.done ⟨none, true, true, true⟩)).files .rawInput)).length = 0 := by
    decide +kernel
  rw [h .rawInput, storedSession_length .rawInput] at hgone
  cases hgone

end MemoryArchive.Capture
