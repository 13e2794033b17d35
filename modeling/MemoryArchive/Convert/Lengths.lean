import MemoryArchive.Convert.Keyboard
import Mathlib.Data.List.Perm.Subperm
import Mathlib.Data.Set.Basic

namespace MemoryArchive.Convert.Lengths

open Capture (Text CommandEvent)

section Pieces

theorem length_displayI32 (n : Int32) : (displayI32 n).length ≤ 11 := by
  have hdigits : (Json.digits n.toInt.natAbs).length ≤ 10 := by
    have hlow := n.le_toInt
    have hhigh := n.toInt_lt
    exact (Nat.length_toDigits_le_iff (by decide) (by decide)).mpr (by omega)
  rw [displayI32]
  split
  · rw [List.length_cons]
    omega
  · omega

theorem length_labelPoint (point : Point) : (labelPoint point).length ≤ 26 := by
  have hx := length_displayI32 point.1
  have hy := length_displayI32 point.2
  have hcomma : ", ".toList.length = 2 := rfl
  simp only [labelPoint, List.length_append, List.length_cons, List.length_nil]
  omega

theorem length_countLabel (count : Option Int32) : (countLabel count).length ≤ 20 := by
  have hone : " 1 notch".toList.length = 8 := rfl
  have hmany : " notches".toList.length = 8 := rfl
  rw [countLabel.eq_def]
  split
  · exact Nat.zero_le _
  · rename_i count
    have hcount := length_displayI32 count
    split
    · omega
    · rw [List.length_append, List.length_cons]
      omega

theorem length_actionLabel (subtype : Text) : 0 < (actionLabel subtype).length ∧ (actionLabel subtype).length ≤ 32 := by
  unfold actionLabel
  split
  iterate 14 exact ⟨by decide, by decide⟩
  rw [safeSubtype]
  split
  · rename_i hsafe
    exact ⟨List.length_pos_iff.mpr hsafe.2.1, hsafe.1⟩
  · exact ⟨by decide, by decide⟩

theorem length_lead {modifiers : List String} (hknown : ∀ name ∈ modifiers, name ∈ mouseModifiers.map Prod.fst) :
    modifiers.length ≤ (modifierLead modifiers).length ∧ (modifierLead modifiers).length ≤ 7 * modifiers.length := by
  have htable : ∀ name ∈ mouseModifiers.map Prod.fst, (name.toList ++ ['+']).length ≤ 7 := by decide
  rw [modifierLead_eq]
  induction modifiers with
  | nil => exact ⟨Nat.zero_le _, Nat.zero_le _⟩
  | cons name modifiers ih =>
    obtain ⟨hname, hrest⟩ := List.forall_mem_cons.mp hknown
    obtain ⟨hlow, hhigh⟩ := ih hrest
    have hone := htable name hname
    rw [List.length_append, List.length_singleton] at hone
    rw [List.flatMap_cons, List.length_append, List.length_append, List.length_cons, List.length_singleton]
    omega

end Pieces

section Modifiers

/-- The number of modifier names before the action. -/
def nameCount (event : CommandEvent) : Nat := (splitMouseModifiers event.rawCommand.toList).1.length

theorem commandForm_short (rest subtype : Text) (osType : String) :
    (modifiersFromCommandForm rest subtype osType).length ≤ 7 := by
  obtain ⟨hnodup, hknown⟩ := commandForm_names rest subtype osType
  exact (List.subperm_of_subset hnodup hknown).length_le

/-- The modifiers of a label are the names before the action, or at most seven others. -/
theorem labelModifiers_bounded (event : CommandEvent) :
    nameCount event ≤ (labelModifiers event).length ∧ (labelModifiers event).length ≤ nameCount event + 7 := by
  rw [labelModifiers, nameCount]
  dsimp only
  rw [chooseModifiers]
  generalize (splitMouseModifiers event.rawCommand.toList).1 = names
  by_cases hnone : names = []
  · subst hnone
    have hform := commandForm_short (splitMouseModifiers event.rawCommand.toList).2
      (splitSubtypeSymbols event.actionSubtype.toList).2 event.osType
    have hleaked := commandForm_short event.actionSubtype.toList
      (splitSubtypeSymbols event.actionSubtype.toList).2 event.osType
    rw [if_pos rfl, List.length_nil, Nat.zero_add]
    split
    · exact ⟨Nat.zero_le _, hleaked⟩
    · exact ⟨Nat.zero_le _, hform⟩
  · rw [if_neg hnone, if_neg fun h => hnone h.1]
    exact ⟨le_rfl, Nat.le_add_right _ _⟩

end Modifiers

section Paths

theorem via_put (s : DragState) (clause : DragClause) (point : Point) :
    (s.put clause point).via.length ≤ s.via.length + 1 ∧ (s.put clause point).seen = s.seen := by
  cases clause <;> simp [DragState.put]

/-- A path that is read has no more waypoints than points were seen. -/
theorem via_scan (fuel : Nat) (s : DragState) (rest : Text) (hvia : s.via.length ≤ s.seen)
    (hseen : s.seen ≤ maxDragPoints) {path : DragPath} (h : scanDragFrom fuel s rest = .path path) :
    path.via.length ≤ maxDragPoints := by
  have hresult : ∀ s : DragState, s.via.length ≤ s.seen → s.seen ≤ maxDragPoints → s.result = .path path →
      path.via.length ≤ maxDragPoints := by
    intro s hvia hseen hpath
    rw [DragState.result] at hpath
    split at hpath
    · cases hpath
      exact hvia.trans hseen
    · cases hpath
  induction fuel generalizing s rest with
  | zero => exact hresult s hvia hseen h
  | succ fuel ih =>
    rw [scanDragFrom] at h
    split at h
    · exact hresult s hvia hseen h
    · dsimp only at h
      split at h
      · exact hresult s hvia hseen h
      · split at h
        · split at h
          · cases h
          · rename_i hfull
            refine ih _ _ ?_ ?_ h
            · rw [(via_put _ _ _).2]
              exact (via_put _ _ _).1.trans (Nat.succ_le_succ hvia)
            · rw [(via_put _ _ _).2]
              exact Nat.le_of_not_lt hfull
        · exact ih s _ hvia hseen h

theorem length_dragLabel (lead : Text) {path : DragPath} (hvia : path.via.length ≤ maxDragPoints) :
    lead.length ≤ (dragLabel lead path).length ∧ (dragLabel lead path).length ≤ lead.length + 400 := by
  have hpoints : ∀ points : List Point,
      (points.flatMap fun point => " via ".toList ++ labelPoint point).length ≤ 31 * points.length := by
    intro points
    induction points with
    | nil => exact Nat.zero_le _
    | cons point points ih =>
      have hpoint := length_labelPoint point
      have hword : " via ".toList.length = 5 := rfl
      rw [List.flatMap_cons, List.length_append, List.length_append, List.length_cons]
      omega
  have hvias := hpoints path.via
  have hdest := length_labelPoint path.dest
  have hfrom : " from ".toList.length = 6 := rfl
  have hdrag : "Drag".toList.length = 4 := rfl
  have hto : " to ".toList.length = 4 := rfl
  have hmax : maxDragPoints = 8 := rfl
  rw [hmax] at hvia
  unfold dragLabel
  simp only [List.length_append]
  split
  · rename_i origin _
    have horigin := length_labelPoint origin
    rw [List.length_append]
    omega
  · rw [List.length_nil]
    omega

end Paths

section Labels

theorem length_plainLabel (event : CommandEvent) (lead subtype rest : Text) :
    lead.length ≤ (plainLabel event lead subtype rest).length ∧
      (plainLabel event lead subtype rest).length ≤ lead.length + 82 := by
  have haction := length_actionLabel subtype
  have hcount := length_countLabel (scanNotches rest)
  have hpoint := length_labelPoint (event.mouseX, event.mouseY)
  have hat : " at ".toList.length = 4 := rfl
  unfold plainLabel
  split
  · rename_i hnone
    rw [hnone] at haction
    exact absurd haction.1 (Nat.lt_irrefl 0)
  · simp only [actionText, List.length_append]
    split
    · rw [List.length_append]
      omega
    · rw [List.length_nil]
      omega

theorem length_convertMouse (event : CommandEvent) :
    nameCount event ≤ (convertMouse event).length ∧ (convertMouse event).length ≤ 7 * nameCount event + 449 := by
  obtain ⟨hlow, hhigh⟩ := labelModifiers_bounded event
  have hlead := length_lead (labelModifiers_known event)
  have hplain := length_plainLabel event (modifierLead (labelModifiers event))
    (splitSubtypeSymbols event.actionSubtype.toList).2 (splitMouseModifiers event.rawCommand.toList).2
  rw [convertMouse]
  split
  · split
    · rename_i path hpath
      have hdrag := length_dragLabel (modifierLead (labelModifiers event))
        (via_scan _ {} _ (Nat.zero_le _) (Nat.zero_le _) hpath)
      omega
    · have htext : ("Drag ".toList ++ tooLongText).length = 45 := by decide +kernel
      rw [List.append_assoc, List.length_append]
      omega
    · omega
  · omega

variable (upper : Char → Text)

theorem length_label {event : CommandEvent} (hmouse : event.actionType = "mouse") :
    nameCount event ≤ (toHumanReadable upper event).toList.length ∧
      (toHumanReadable upper event).toList.length ≤ 7 * nameCount event + 458 := by
  have hconverted := converted_mouse upper hmouse
  have hlength := length_convertMouse event
  have hmark : (failureMark event).length ≤ 9 := by
    rw [failureMark]
    split <;> decide
  rw [toList_toHumanReadable, hconverted, List.length_append]
  omega

end Labels

/-- The subtype is a word that a label may hold, as every known action is. -/
def Plausible (event : CommandEvent) : Prop :=
  safeSubtype (splitSubtypeSymbols event.actionSubtype.toList).2 =
    (splitSubtypeSymbols event.actionSubtype.toList).2

/-- The labels of some mouse events are bounded just when their numbers of modifier names are. -/
theorem labels_bounded_iff (upper : Char → Text) (events : Set CommandEvent) :
    (∃ bound, ∀ event ∈ events, event.actionType = "mouse" → Plausible event →
      (toHumanReadable upper event).toList.length ≤ bound) ↔
    ∃ count, ∀ event ∈ events, event.actionType = "mouse" → Plausible event → nameCount event ≤ count := by
  constructor
  · rintro ⟨bound, hbound⟩
    refine ⟨bound, ?_⟩
    intro event hevent hmouse hplausible
    exact (length_label upper hmouse).1.trans (hbound event hevent hmouse hplausible)
  · rintro ⟨count, hcount⟩
    refine ⟨7 * count + 458, ?_⟩
    intro event hevent hmouse hplausible
    have hnames := hcount event hevent hmouse hplausible
    have hlabel := (length_label upper hmouse).2
    omega

section Unbounded

/-- A click with so many reports of one modifier. -/
def repeated (count : Nat) : CommandEvent :=
  ⟨"", "", "", "MACOS", "",
    String.ofList (modifierLead (List.replicate count "Cmd") ++ "Left-clicked at X=1, Y=2".toList), "mouse", "left",
    false, true, "", 0, 1, 2, true, false, true⟩

theorem nameCount_repeated (count : Nat) : nameCount (repeated count) = count := by
  have hknown : ∀ name ∈ List.replicate count "Cmd", name ∈ mouseModifiers.map Prod.fst := by
    intro name hname
    rw [List.eq_of_mem_replicate hname]
    decide
  have hraw : (repeated count).rawCommand.toList =
      modifierLead (List.replicate count "Cmd") ++ "Left-clicked at X=1, Y=2".toList := String.toList_ofList
  rw [nameCount, hraw, splitMouseModifiers_lead hknown (by decide), List.length_replicate]

/-- No bound holds of the labels of all mouse events. -/
theorem labels_unbounded :
    ¬ ∃ bound, ∀ event : CommandEvent, event.actionType = "mouse" → Plausible event →
      (toHumanReadable (fun c => [c.toUpper]) event).toList.length ≤ bound := by
  rintro ⟨bound, hbound⟩
  have hplausible : Plausible (repeated (bound + 1)) := by
    have hsubtype : (repeated (bound + 1)).actionSubtype = "left" := rfl
    rw [Plausible, hsubtype]
    decide +kernel
  have hlow : nameCount (repeated (bound + 1)) ≤
      (toHumanReadable (fun c => [c.toUpper]) (repeated (bound + 1))).toList.length :=
    (length_label (fun c => [c.toUpper]) rfl).1
  rw [nameCount_repeated] at hlow
  exact absurd (hlow.trans (hbound _ rfl hplausible)) (Nat.not_succ_le_self bound)

end Unbounded

end MemoryArchive.Convert.Lengths
