import MemoryArchive.Convert.Slices

namespace MemoryArchive.Convert.Infallible

open Capture (Text CommandEvent)

/-- Both conversions end without a cut inside a character, with texts that are not empty
for a command that is not, and a failed command has the marker before its label. -/
def Sound (upper : Char → Text) (event : CommandEvent) : Prop :=
  ∃ human command, Slices.toHumanReadable upper event = some human ∧ Slices.toCcCommand event = some command ∧
    (event.rawCommand ≠ "" → human ≠ "" ∧ command ≠ "") ∧
    (event.success = false → "[FAILED]".toList <+: human.toList)

/-- A mouse command recorded as it was issued, with nothing behind its label, that is not
rebuilt from its position. -/
def Emptied (event : CommandEvent) : Prop :=
  event.actionType = "mouse" ∧ event.rawCommand = "Executed: " ∧
    ¬ (String.ofList (splitSubtypeSymbols event.actionSubtype.toList).2 ∈ pointerVerbs ∧
      event.positionCaptured = true)

section Labels

variable (event : CommandEvent)

theorem plainLabel_ne_nil (lead subtype rest : Text) : plainLabel event lead subtype rest ≠ [] := by
  have haction := actionLabel_ne_nil subtype
  rw [plainLabel, if_neg haction, actionText]
  simp [haction]

theorem convertMouse_ne_nil : convertMouse event ≠ [] := by
  have hdrag : ∀ (text rest : Text), text ++ "Drag".toList ++ rest ≠ [] := by
    intro text rest
    simp
  rw [convertMouse]
  split
  · split
    · unfold dragLabel
      simp
    · simp
    · exact plainLabel_ne_nil event _ _ _
  · exact plainLabel_ne_nil event _ _ _

theorem convertKeyboard_ne_nil (upper : Char → Text) : convertKeyboard upper event ≠ [] := by
  rw [convertKeyboard]
  split <;> simp

theorem convertPosition_ne_nil : convertPosition event ≠ [] := by
  rw [convertPosition]
  split <;> simp

theorem converted_ne_nil (upper : Char → Text) (hraw : event.rawCommand ≠ "") : converted upper event ≠ [] := by
  rw [converted]
  split
  · exact convertMouse_ne_nil event
  · exact convertKeyboard_ne_nil event upper
  · exact convertPosition_ne_nil event
  · simpa using hraw

theorem label_ne_empty (upper : Char → Text) (hraw : event.rawCommand ≠ "") : toHumanReadable upper event ≠ "" := by
  have hconverted := converted_ne_nil event upper hraw
  intro hempty
  have hlist := congrArg String.toList hempty
  rw [toList_toHumanReadable] at hlist
  exact hconverted (List.append_eq_nil_iff.mp hlist).2

theorem label_marked (upper : Char → Text) (hfailed : event.success = false) :
    "[FAILED]".toList <+: (toHumanReadable upper event).toList := by
  have hmark : "[FAILED] ".toList = "[FAILED]".toList ++ [' '] := by decide
  rw [toList_toHumanReadable, failureMark, hfailed, if_neg Bool.false_ne_true, hmark, List.append_assoc]
  exact List.prefix_append _ _

end Labels

section Commands

variable (event : CommandEvent)

theorem fallback_nil {raw : Text} (hraw : raw ≠ []) : fallbackCommand raw = [] ↔ raw = "Executed: ".toList := by
  rw [fallbackCommand]
  cases hdrop : Lines.dropBeginning "Executed: ".toList raw with
  | none =>
    have hother : raw ≠ "Executed: ".toList := by
      rintro rfl
      exact absurd hdrop (by decide)
    exact iff_of_false hraw hother
  | some back =>
    rw [Lines.dropBeginning_eq_some] at hdrop
    rw [hdrop, Option.getD_some]
    exact List.append_right_eq_self.symm

/-- A drag cannot be read from the label alone. -/
theorem scan_label : scanDragPath (splitMouseModifiers "Executed: ".toList).2 = .absent := by decide +kernel

theorem ccMouse_nil (hraw : event.rawCommand ≠ "") :
    ccMouse event = [] ↔ event.rawCommand = "Executed: " ∧
      ¬ (String.ofList (splitSubtypeSymbols event.actionSubtype.toList).2 ∈ pointerVerbs ∧
        event.positionCaptured = true) := by
  have hlist : event.rawCommand.toList ≠ [] := by simpa using hraw
  have hfallback : fallbackCommand event.rawCommand.toList = [] ↔ event.rawCommand = "Executed: " := by
    rw [fallback_nil hlist, String.toList_inj]
  rw [ccMouse]
  split
  · rename_i hverb
    split
    · rename_i hcaptured
      unfold pointerCommand
      simp [hverb, hcaptured]
    · rename_i hcaptured
      rw [hfallback]
      simp [hcaptured]
  · rename_i hverb
    have hrest : fallbackCommand event.rawCommand.toList = [] ↔ event.rawCommand = "Executed: " ∧
        ¬ (String.ofList (splitSubtypeSymbols event.actionSubtype.toList).2 ∈ pointerVerbs ∧
          event.positionCaptured = true) := by
      rw [hfallback]
      simp [hverb]
    split
    · split
      · rename_i origin via dest hscan
        have hother : event.rawCommand ≠ "Executed: " := by
          intro heq
          rw [heq, scan_label] at hscan
          cases hscan
        unfold dragCommand
        simp [hother]
      · rename_i hscan
        have hother : event.rawCommand ≠ "Executed: " := by
          intro heq
          rw [heq, scan_label] at hscan
          cases hscan
        simp [hother]
      · exact hrest
    · exact hrest

theorem ccKeyboard_ne_nil (hraw : event.rawCommand ≠ "") : ccKeyboard event ≠ [] := by
  rw [ccKeyboard]
  dsimp only
  split
  · simp
  · simp
  · simpa using hraw

/-- A command gets lost just when it has only the label that is taken off. -/
theorem command_empty (hraw : event.rawCommand ≠ "") : toCcCommand event = "" ↔ Emptied event := by
  have hlist : event.rawCommand.toList ≠ [] := by simpa using hraw
  have hempty : toCcCommand event = "" ↔ (toCcCommand event).toList = [] := by simp
  rw [hempty, Emptied]
  by_cases hmouse : event.actionType = "mouse"
  · rw [toCcCommand_mouse hmouse, ccMouse_nil event hraw]
    simp [hmouse]
  · rw [toCcCommand, String.toList_ofList]
    refine iff_of_false ?_ fun h => hmouse h.1
    split
    · rename_i heq
      exact absurd heq hmouse
    · exact ccKeyboard_ne_nil event hraw
    · decide
    · exact hlist

end Commands

/-- Conversion is sound of every event but those that lose their command. -/
theorem sound_iff (upper : Char → Text) (event : CommandEvent) : Sound upper event ↔ ¬ Emptied event := by
  constructor
  · rintro ⟨human, command, -, hcommand, hfilled, -⟩ hemptied
    have hraw : event.rawCommand ≠ "" := by
      rw [hemptied.2.1]
      decide
    rw [Slices.toCcCommand_eq] at hcommand
    cases hcommand
    exact (hfilled hraw).2 ((command_empty event hraw).mpr hemptied)
  · intro hkept
    refine ⟨_, _, Slices.toHumanReadable_eq upper event, Slices.toCcCommand_eq event, ?_, label_marked event upper⟩
    intro hraw
    exact ⟨label_ne_empty event upper hraw, fun hempty => hkept ((command_empty event hraw).mp hempty)⟩

/-- A click whose report is the label alone. -/
def bareClick : CommandEvent :=
  ⟨"", "", "", "LINUX", "", "Executed: ", "mouse", "left", false, true, "", 0, 0, 0, false, false, true⟩

theorem conversion_loses_command : ¬ ∀ (upper : Char → Text) (event : CommandEvent), Sound upper event := by
  intro hsound
  obtain ⟨human, command, -, hcommand, hfilled, -⟩ := hsound (fun c => [c.toUpper]) bareClick
  have hempty : Slices.toCcCommand bareClick = some "" := by decide +kernel
  rw [hempty] at hcommand
  cases hcommand
  exact (hfilled (by decide)).2 rfl

end MemoryArchive.Convert.Infallible
