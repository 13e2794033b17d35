import MemoryArchive.Tui.Reload

namespace MemoryArchive.Tui.Advance

open Reasoning Runs

/-- What an advance ends with. -/
inductive Landing
  | opened (index : Nat) (saveFlash : String)
  | completionPrompt
  | noOther (saveFlash : String)
  | unplaced
  deriving DecidableEq

def allDone (steps : List StepState) : Bool := steps.all fun t => t.status = .complete || t.status = .skipped

/-- The flash that announces a jump backwards. -/
def backTo (steps : List StepState) (current index : Nat) : String :=
  if current < index then "" else s!"↩ Back to step {(steps[index]?).elim 0 StepState.stepId}"

/-- What `_advance_to_next_pending` shows. The steps that it changes and opens are
those of `advanceToNextPending`. -/
def landing (s : Screen) : Landing :=
  match s.currentIdx with
  | none => .unplaced
  | some current =>
      match nextPending s.session.steps current with
      | some index => .opened index (backTo s.session.steps current index)
      | none =>
          if allDone s.session.steps then .completionPrompt
          else .noOther "No other step is pending"

inductive Done
  | complete (reasoning : String)
  | skip
  deriving DecidableEq

/-- A step that the annotator completes or skips. -/
structure Action where
  stepId : Int
  done : Done
  now : String
  written : Bool

def Action.message (a : Action) : Message :=
  match a.done with
  | .complete reasoning => .stepCompleted a.stepId reasoning
  | .skip => .stepSkipped a.stepId

def Action.finish (a : Action) (step : StepState) : StepState :=
  match a.done with
  | .complete reasoning => { step with reasoning := reasoning, status := .complete }
  | .skip => { step with reasoning := "", status := .skipped }

/-- An action and the advance that follows it. -/
def act (s : Screen) (a : Action) : Screen := s.handle a.message a.now a.written

/-- The screen when the advance begins. -/
def marked (s : Screen) (a : Action) : Screen :=
  match getStep s.session.steps a.stepId with
  | none => s
  | some step =>
      let t := (s.setStep (a.finish step)).updateCounters.writeEntry (a.finish step) a.now a.written
      match a.done with
      | .complete reasoning => { t with editor := t.editor.markSaved a.stepId reasoning }
      | .skip => t

/-- The places behind the selected row, then those from the start, itself the last. -/
def around (n current : Nat) : List Nat := (List.range n).drop (current + 1) ++ List.range (current + 1)

def pendingAt (steps : List StepState) (i : Nat) : Bool := (steps[i]?).any isPending

def firstPending (steps : List StepState) (current : Nat) : Option Nat :=
  (around steps.length current).find? (pendingAt steps)

/-- An advance opens the next pending step after the selected row if there is one, and
asks for completion just if there is none. -/
structure Covered (s : Screen) : Prop where
  lands : ∀ i, firstPending s.session.steps s.cursor = some i →
    (∃ flash, landing s = .opened i flash) ∧ s.advanceToNextPending.cursor = i ∧
      s.advanceToNextPending.editor.currentStep = (s.session.steps[i]?).map StepState.stepId
  prompts : landing s = .completionPrompt ↔ ∀ t ∈ s.session.steps, isPending t = false

def Covers (s : Screen) (a : Action) : Prop :=
  ∀ step, getStep s.session.steps a.stepId = some step → Covered (marked s a)

/-- If the selected row is another step that is pending, it is not the last one. -/
def Clear (s : Screen) (a : Action) : Prop :=
  ∀ step row, getStep s.session.steps a.stepId = some step → s.session.steps[s.cursor]? = some row →
    row.stepId ≠ a.stepId → isPending row = true →
      ∃ t ∈ s.session.steps, t.stepId ≠ row.stepId ∧ t.stepId ≠ a.stepId ∧ isPending t = true

/-- The action is one on the step in the editor. -/
def InHand (s : Screen) (a : Action) : Prop :=
  s.editor.currentStep = some a.stepId ∧ ∃ step, getStep s.session.steps a.stepId = some step

/-- The ids of the pending steps. -/
def unfinished (s : Screen) : List Int := (s.session.steps.filter isPending).map StepState.stepId

/-- Who acts on the step that is open once more often than steps are pending has acted on
each of them. -/
def Visits (s : Screen) (as : List Action) : Prop :=
  Guarded act InHand s as → (unfinished s).length < as.length → ∀ id ∈ unfinished s, ∃ a ∈ as, a.stepId = id

/-- The rows are of different steps, and one of them is selected. -/
structure Placed (s : Screen) : Prop where
  distinct : (s.session.steps.map StepState.stepId).Nodup
  selected : s.cursor < s.session.steps.length

section Search

theorem mem_around {n current i : Nat} (hcurrent : current < n) : i ∈ around n current ↔ i < n := by
  rw [around, List.mem_append, List.mem_range]
  constructor
  · rintro (h | h)
    · exact List.mem_range.mp (List.mem_of_mem_drop h)
    · omega
  · intro h
    by_cases hle : i < current + 1
    · exact .inr hle
    · left
      rw [List.range_eq_range', List.drop_range', List.mem_range'_1]
      omega

/-- The wrap comes back to the selected row after all others. -/
theorem firstPending_eq (steps : List StepState) (current : Nat) :
    firstPending steps current =
      (nextPending steps current).or (if pendingAt steps current then some current else none) := by
  rw [firstPending, around, List.range_succ, ← List.append_assoc, List.find?_append, List.find?_singleton]
  rfl

/-- There is no pending step but the selected one. -/
theorem nextPending_eq_none {steps : List StepState} {current : Nat} (hcurrent : current < steps.length) :
    nextPending steps current = none ↔ ∀ i, i ≠ current → pendingAt steps i = false := by
  rw [nextPending, List.find?_eq_none]
  have hmem : ∀ i, i ∈ (List.range steps.length).drop (current + 1) ++ List.range current ↔
      i < steps.length ∧ i ≠ current := by
    intro i
    rw [List.mem_append, List.mem_range, List.range_eq_range', List.drop_range', List.mem_range'_1]
    omega
  constructor
  · intro h i hne
    by_cases hlt : i < steps.length
    · exact Bool.eq_false_iff.mpr (h i ((hmem i).mpr ⟨hlt, hne⟩))
    · rw [pendingAt, List.getElem?_eq_none (Nat.not_lt.mp hlt)]
      rfl
  · intro h i hi
    exact Bool.eq_false_iff.mp (h i ((hmem i).mp hi).2)

theorem pendingAt_of_next {steps : List StepState} {current i : Nat} (h : nextPending steps current = some i) :
    pendingAt steps i = true := List.find?_some h

theorem pendingAt_iff {steps : List StepState} {i : Nat} :
    pendingAt steps i = true ↔ ∃ t, steps[i]? = some t ∧ isPending t = true :=
  Option.any_eq_true _ _

theorem allDone_iff (steps : List StepState) : allDone steps = true ↔ ∀ t ∈ steps, isPending t = false := by
  rw [allDone, List.all_eq_true]
  refine forall_congr' fun t => imp_congr_right fun _ => ?_
  rw [isPending]
  cases t.status <;> decide

end Search

section Landing

variable {s : Screen}

theorem findIdx_step {steps : List StepState} (h : (steps.map StepState.stepId).Nodup) {i : Nat}
    {row : StepState} (hrow : steps[i]? = some row) :
    steps.findIdx? (fun t => t.stepId = row.stepId) = some i := by
  obtain ⟨hi, rfl⟩ := List.getElem?_eq_some_iff.mp hrow
  rw [List.findIdx?_eq_some_iff_getElem]
  refine ⟨hi, decide_eq_true rfl, fun j hj hsame => ?_⟩
  have hids : (steps.map StepState.stepId)[j]? = (steps.map StepState.stepId)[i]? := by
    rw [List.getElem?_map, List.getElem?_map, List.getElem?_eq_getElem (hj.trans hi),
      List.getElem?_eq_getElem hi]
    exact congrArg some (of_decide_eq_true hsame)
  have hlength : j < (steps.map StepState.stepId).length := by
    rw [List.length_map]
    exact hj.trans hi
  exact Nat.ne_of_lt hj ((List.getElem?_inj hlength h).mp hids)

theorem Placed.row (h : Placed s) : ∃ row, s.session.steps[s.cursor]? = some row :=
  ⟨_, List.getElem?_eq_getElem h.selected⟩

theorem Placed.currentIdx (h : Placed s) : s.currentIdx = some s.cursor := by
  obtain ⟨row, hrow⟩ := h.row
  rw [Screen.currentIdx, hrow, Option.bind_some]
  exact findIdx_step h.distinct hrow

theorem Placed.advance_eq (h : Placed s) :
    s.advanceToNextPending = (nextPending s.session.steps s.cursor).elim s s.openStep := by
  rw [Screen.advanceToNextPending, h.currentIdx, Option.bind_some]
  cases nextPending s.session.steps s.cursor with
  | none => rfl
  | some i => rfl

/-- The step that is opened is selected and stands in the editor. -/
theorem openStep_places (h : Placed s) {i : Nat} {row : StepState} (hrow : s.session.steps[i]? = some row) :
    (s.openStep i).cursor = i ∧ (s.openStep i).editor.currentStep = some row.stepId ∧
      (s.openStep i).session.steps = s.session.steps.set i { row with status := .inProgress } := by
  have hids : (s.session.steps.set i { row with status := .inProgress }).map StepState.stepId =
      s.session.steps.map StepState.stepId := by
    obtain ⟨hi, hget⟩ := List.getElem?_eq_some_iff.mp hrow
    have hid : ({ row with status := .inProgress } : StepState).stepId = row.stepId := rfl
    rw [List.map_set, hid, ← List.map_set, ← hget, List.set_getElem_self]
  have hnew : (s.session.steps.set i { row with status := .inProgress })[i]? =
      some { row with status := .inProgress } :=
    List.getElem?_set_self (List.getElem?_eq_some_iff.mp hrow).1
  have hfind := findIdx_step (hids ▸ h.distinct) hnew
  rw [Screen.openStep, hrow]
  refine ⟨?_, rfl, rfl⟩
  change ((s.session.steps.set i { row with status := .inProgress }).findIdx? _).getD s.cursor = i
  rw [hfind]
  rfl

theorem landing_of_next (h : Placed s) {i : Nat} (hnext : nextPending s.session.steps s.cursor = some i) :
    landing s = .opened i (backTo s.session.steps s.cursor i) := by
  rw [landing, h.currentIdx]
  dsimp only
  rw [hnext]

theorem landing_of_none (h : Placed s) (hnext : nextPending s.session.steps s.cursor = none) :
    landing s = if allDone s.session.steps then .completionPrompt else .noOther "No other step is pending" := by
  rw [landing, h.currentIdx]
  dsimp only
  rw [hnext]

theorem prompts_iff (h : Placed s) :
    landing s = .completionPrompt ↔ ∀ t ∈ s.session.steps, isPending t = false := by
  cases hnext : nextPending s.session.steps s.cursor with
  | some i =>
    obtain ⟨t, ht, hpending⟩ := pendingAt_iff.mp (pendingAt_of_next hnext)
    rw [landing_of_next h hnext]
    refine iff_of_false (by simp) fun hnone => ?_
    rw [hnone t (List.mem_of_getElem? ht)] at hpending
    cases hpending
  | none =>
    rw [landing_of_none h hnext, ← allDone_iff]
    cases allDone s.session.steps <;> simp

/-- Only the selected row can be missed, and only if no other is pending. -/
theorem covered_iff (h : Placed s) {row : StepState} (hrow : s.session.steps[s.cursor]? = some row) :
    Covered s ↔
      (isPending row = true → ∃ t ∈ s.session.steps, t.stepId ≠ row.stepId ∧ isPending t = true) := by
  have hpend : pendingAt s.session.steps s.cursor = isPending row := by rw [pendingAt, hrow, Option.any_some]
  have hself : ∀ {i : Nat} {t : StepState}, s.session.steps[i]? = some t →
      (t.stepId = row.stepId ↔ i = s.cursor) := by
    intro i t ht
    constructor
    · intro hid
      have hi := findIdx_step h.distinct ht
      rw [hid, findIdx_step h.distinct hrow] at hi
      exact (Option.some.inj hi).symm
    · rintro rfl
      rw [hrow] at ht
      cases ht
      rfl
  constructor
  · intro hcovered hpending
    by_contra hnot
    have hnone : nextPending s.session.steps s.cursor = none := by
      refine (nextPending_eq_none h.selected).mpr fun i hne => Bool.eq_false_iff.mpr fun hat => ?_
      obtain ⟨t, ht, htp⟩ := pendingAt_iff.mp hat
      exact hnot ⟨t, List.mem_of_getElem? ht, fun hid => hne ((hself ht).mp hid), htp⟩
    have hfirst : firstPending s.session.steps s.cursor = some s.cursor := by
      rw [firstPending_eq, hnone, Option.none_or, hpend, if_pos hpending]
    obtain ⟨⟨flash, hopened⟩, -⟩ := hcovered.lands s.cursor hfirst
    rw [landing_of_none h hnone] at hopened
    split at hopened <;> cases hopened
  · intro hother
    refine ⟨fun i hfirst => ?_, prompts_iff h⟩
    have hnext : nextPending s.session.steps s.cursor = some i := by
      rw [firstPending_eq] at hfirst
      cases hnext : nextPending s.session.steps s.cursor with
      | some j =>
        rw [hnext, Option.some_or] at hfirst
        exact hfirst
      | none =>
        rw [hnext, Option.none_or, hpend] at hfirst
        split at hfirst
        · rename_i hpending
          obtain ⟨t, ht, hid, htp⟩ := hother hpending
          obtain ⟨j, hj⟩ := List.getElem?_of_mem ht
          have hfalse := (nextPending_eq_none h.selected).mp hnext j fun hcur => hid ((hself hj).mpr hcur)
          rw [pendingAt, hj, Option.any_some, htp] at hfalse
          cases hfalse
        · cases hfirst
    obtain ⟨t, ht, -⟩ := pendingAt_iff.mp (pendingAt_of_next hnext)
    obtain ⟨hcursor, heditor, -⟩ := openStep_places h ht
    refine ⟨⟨_, landing_of_next h hnext⟩, ?_⟩
    rw [h.advance_eq, hnext, ht]
    exact ⟨hcursor, heditor⟩

end Landing

section Runs

variable {s : Screen} {a : Action}

theorem finish_stepId (a : Action) (step : StepState) : (a.finish step).stepId = step.stepId := by
  rw [Action.finish]
  cases a.done <;> rfl

theorem finish_done (a : Action) (step : StepState) : isPending (a.finish step) = false := by
  rw [Action.finish]
  cases a.done <;> rfl

theorem act_eq {step : StepState} (h : getStep s.session.steps a.stepId = some step) :
    act s a = (marked s a).advanceToNextPending := by
  obtain ⟨id, done, now, written⟩ := a
  cases done with
  | complete reasoning =>
    change s.handle (.stepCompleted id reasoning) now written = _
    rw [marked, Screen.handle, h]
    rfl
  | skip =>
    change s.handle (.stepSkipped id) now written = _
    rw [marked, Screen.handle, h]
    rfl

theorem act_of_none (h : getStep s.session.steps a.stepId = none) : act s a = s := by
  obtain ⟨id, done, now, written⟩ := a
  cases done with
  | complete reasoning =>
    change s.handle (.stepCompleted id reasoning) now written = s
    rw [Screen.handle, h]
  | skip =>
    change s.handle (.stepSkipped id) now written = s
    rw [Screen.handle, h]

/-- The marking of a step changes that step and moves nothing. -/
theorem marked_steps {step : StepState} (h : getStep s.session.steps a.stepId = some step) :
    (marked s a).session.steps = updateStep a.stepId (fun _ => a.finish step) s.session.steps ∧
      (marked s a).cursor = s.cursor := by
  have hid : (a.finish step).stepId = a.stepId := (finish_stepId a step).trans (getStep_stepId h)
  have hwritten : ((s.setStep (a.finish step)).updateCounters.writeEntry (a.finish step) a.now
      a.written).session.steps = updateStep (a.finish step).stepId (fun _ => a.finish step) s.session.steps ∧
      ((s.setStep (a.finish step)).updateCounters.writeEntry (a.finish step) a.now a.written).cursor =
        s.cursor := by
    rw [Screen.writeEntry]
    split
    · exact ⟨rfl, rfl⟩
    · exact ⟨rfl, rfl⟩
  rw [hid] at hwritten
  rw [marked, h]
  dsimp only
  cases a.done with
  | complete reasoning => exact ⟨hwritten.1, hwritten.2⟩
  | skip => exact ⟨hwritten.1, hwritten.2⟩

/-- What a marked step becomes, the others stay. -/
def mark (a : Action) (step t : StepState) : StepState := if t.stepId = a.stepId then a.finish step else t

theorem mark_stepId {step : StepState} (h : getStep s.session.steps a.stepId = some step) (t : StepState) :
    (mark a step t).stepId = t.stepId := by
  rw [mark]
  split
  · rename_i hid
    rw [finish_stepId, getStep_stepId h, hid]
  · rfl

theorem isPending_mark (step t : StepState) :
    isPending (mark a step t) = true ↔ isPending t = true ∧ t.stepId ≠ a.stepId := by
  rw [mark]
  split
  · rename_i hid
    rw [finish_done]
    exact iff_of_false Bool.false_ne_true fun h => h.2 hid
  · rename_i hid
    exact (and_iff_left hid).symm

theorem Placed.marked_map (h : Placed s) {step : StepState}
    (hstep : getStep s.session.steps a.stepId = some step) :
    (marked s a).session.steps = s.session.steps.map (mark a step) := by
  rw [(marked_steps hstep).1, updateStep_eq_map _ _ h.distinct]
  rfl

theorem Placed.marked (h : Placed s) {step : StepState} (hstep : getStep s.session.steps a.stepId = some step) :
    Placed (marked s a) := by
  have hids : ((s.session.steps.map (mark a step)).map StepState.stepId) =
      s.session.steps.map StepState.stepId := by
    rw [List.map_map]
    exact List.map_congr_left fun t _ => mark_stepId hstep t
  refine ⟨?_, ?_⟩
  · rw [h.marked_map hstep, hids]
    exact h.distinct
  · rw [h.marked_map hstep, (marked_steps hstep).2, List.length_map]
    exact h.selected

theorem Placed.advance (h : Placed s) : Placed s.advanceToNextPending := by
  rw [h.advance_eq]
  cases hnext : nextPending s.session.steps s.cursor with
  | none => exact h
  | some i =>
    obtain ⟨row, hrow, -⟩ := pendingAt_iff.mp (pendingAt_of_next hnext)
    obtain ⟨hi, hget⟩ := List.getElem?_eq_some_iff.mp hrow
    obtain ⟨hcursor, -, hsteps⟩ := openStep_places h hrow
    have hid : ({ row with status := .inProgress } : StepState).stepId = row.stepId := rfl
    refine ⟨?_, ?_⟩
    · rw [Option.elim_some, hsteps, List.map_set, hid, ← List.map_set, ← hget, List.set_getElem_self]
      exact h.distinct
    · rw [Option.elim_some, hsteps, hcursor, List.length_set]
      exact hi

theorem Placed.act (h : Placed s) (a : Action) : Placed (act s a) := by
  cases hstep : getStep s.session.steps a.stepId with
  | none =>
    rw [act_of_none hstep]
    exact h
  | some step =>
    rw [act_eq hstep]
    exact (h.marked hstep).advance

theorem covers_iff (h : Placed s) (a : Action) : Covers s a ↔ Clear s a := by
  obtain ⟨row, hrow⟩ := h.row
  rw [Covers, Clear]
  refine forall_congr' fun step => ?_
  constructor
  · intro hcovers row' hstep hrow' hother hpending
    have hmarked : (marked s a).session.steps[(marked s a).cursor]? = some (mark a step row') := by
      rw [h.marked_map hstep, (marked_steps hstep).2, List.getElem?_map, hrow', Option.map_some]
    obtain ⟨t', ht', hne, htp⟩ := (covered_iff (h.marked hstep) hmarked).mp (hcovers hstep)
      ((isPending_mark step row').mpr ⟨hpending, hother⟩)
    rw [h.marked_map hstep] at ht'
    obtain ⟨t, ht, rfl⟩ := List.mem_map.mp ht'
    rw [mark_stepId hstep, mark_stepId hstep] at hne
    obtain ⟨htpending, htother⟩ := (isPending_mark step t).mp htp
    exact ⟨t, ht, hne, htother, htpending⟩
  · intro hclear hstep
    have hmarked : (marked s a).session.steps[(marked s a).cursor]? = some (mark a step row) := by
      rw [h.marked_map hstep, (marked_steps hstep).2, List.getElem?_map, hrow, Option.map_some]
    refine (covered_iff (h.marked hstep) hmarked).mpr fun hpending => ?_
    obtain ⟨hrowpending, hrowother⟩ := (isPending_mark step row).mp hpending
    obtain ⟨t, ht, hne, htother, htpending⟩ := hclear row hstep hrow hrowother hrowpending
    rw [h.marked_map hstep]
    refine ⟨mark a step t, List.mem_map_of_mem ht, ?_, (isPending_mark step t).mpr ⟨htpending, htother⟩⟩
    rw [mark_stepId hstep, mark_stepId hstep]
    exact hne

theorem unfinished_advance (h : Placed s) : unfinished s.advanceToNextPending = unfinished s := by
  rw [h.advance_eq]
  cases hnext : nextPending s.session.steps s.cursor with
  | none => rfl
  | some i =>
    obtain ⟨row, hrow, hpending⟩ := pendingAt_iff.mp (pendingAt_of_next hnext)
    obtain ⟨hi, hget⟩ := List.getElem?_eq_some_iff.mp hrow
    -- Of the step that is opened, neither the id changes nor that it is pending.
    let progress : StepState → Int × Bool := fun t => (t.stepId, isPending t)
    have hopened : progress { row with status := .inProgress } = progress row := by
      change (row.stepId, true) = (row.stepId, isPending row)
      rw [hpending]
    have hsame : (s.openStep i).session.steps.map progress = s.session.steps.map progress := by
      rw [(openStep_places h hrow).2.2, List.map_set, hopened, ← List.map_set, ← hget, List.set_getElem_self]
    have hids : ∀ steps : List StepState, (steps.filter isPending).map StepState.stepId =
        ((steps.map progress).filter Prod.snd).map Prod.fst := by
      intro steps
      rw [List.filter_map, List.map_map]
      rfl
    rw [Option.elim_some, unfinished, hids, hsame, ← hids]
    rfl

theorem unfinished_act (h : Placed s) {step : StepState}
    (hstep : getStep s.session.steps a.stepId = some step) :
    unfinished (act s a) = (unfinished s).filter (· ≠ a.stepId) := by
  rw [act_eq hstep, unfinished_advance (h.marked hstep), unfinished, h.marked_map hstep, List.filter_map,
    List.map_map, unfinished, List.filter_map, List.filter_filter]
  have hsame : s.session.steps.filter (isPending ∘ mark a step) =
      s.session.steps.filter fun t =>
        ((fun x => decide (x ≠ a.stepId)) ∘ StepState.stepId) t && isPending t := by
    refine List.filter_congr fun t _ => Bool.eq_iff_iff.mpr ?_
    rw [Function.comp_apply, isPending_mark, Bool.and_eq_true, Function.comp_apply, decide_eq_true_iff]
    exact and_comm
  rw [hsame]
  exact List.map_congr_left fun t _ => mark_stepId hstep t

/-- What is opened, if anything is pending, is one of the pending steps. -/
theorem editor_act (h : Placed s) (hclear : Clear s a) {step : StepState}
    (hstep : getStep s.session.steps a.stepId = some step) (hleft : unfinished (act s a) ≠ []) :
    ∃ id ∈ unfinished (act s a), (act s a).editor.currentStep = some id := by
  have hcovered := (covers_iff h a).mpr hclear step hstep
  have hplaced := h.marked hstep
  rw [act_eq hstep, unfinished_advance hplaced] at hleft ⊢
  obtain ⟨id, hid⟩ := List.exists_mem_of_ne_nil _ hleft
  obtain ⟨t, ht, rfl⟩ := List.mem_map.mp hid
  obtain ⟨hmem, hpending⟩ := List.mem_filter.mp ht
  obtain ⟨i, hi⟩ := List.getElem?_of_mem hmem
  cases hfirst : firstPending (marked s a).session.steps (marked s a).cursor with
  | none =>
    have hlt := (List.getElem?_eq_some_iff.mp hi).1
    have hnot := List.find?_eq_none.mp hfirst i ((mem_around hplaced.selected).mpr hlt)
    exact absurd (pendingAt_iff.mpr ⟨t, hi, hpending⟩) hnot
  | some j =>
    have hfound := List.find?_some hfirst
    obtain ⟨row, hrow, hrowpending⟩ := pendingAt_iff.mp hfound
    obtain ⟨-, -, heditor⟩ := hcovered.lands j hfirst
    refine ⟨row.stepId, List.mem_map_of_mem (List.mem_filter.mpr ⟨List.mem_of_getElem? hrow, hrowpending⟩), ?_⟩
    rw [heditor, hrow]
    rfl

theorem mem_unfinished_run (h : Placed s) {as : List Action} (hhand : Guarded act InHand s as) {id : Int} :
    id ∈ unfinished (run act s as) ↔ id ∈ unfinished s ∧ ∀ a ∈ as, a.stepId ≠ id := by
  induction as generalizing s with
  | nil => exact (and_iff_left fun _ h => nomatch h).symm
  | cons a as ih =>
    obtain ⟨⟨-, step, hstep⟩, hrest⟩ := hhand
    refine (ih (h.act a) hrest).trans ?_
    rw [unfinished_act h hstep, List.mem_filter, decide_eq_true_iff, List.forall_mem_cons, and_assoc]
    exact and_congr_right fun _ => and_congr_left fun _ => ne_comm

/-- Each action on an open pending step leaves one less. -/
theorem length_unfinished_run (h : Placed s) {as : List Action} (hhand : Guarded act InHand s as)
    (hclear : Guarded act Clear s as)
    (hopen : unfinished s ≠ [] → ∃ id ∈ unfinished s, s.editor.currentStep = some id) :
    (unfinished (run act s as)).length ≤ (unfinished s).length - as.length := by
  induction as generalizing s with
  | nil => exact Nat.le_refl _
  | cons a as ih =>
    obtain ⟨⟨heditor, step, hstep⟩, hhand⟩ := hhand
    have hnext := ih (h.act a) hhand hclear.2 (editor_act h hclear.1 hstep)
    have hshorter : (unfinished (act s a)).length ≤ (unfinished s).length - 1 := by
      rw [unfinished_act h hstep]
      by_cases hnil : unfinished s = []
      · rw [hnil]
        exact Nat.zero_le _
      · obtain ⟨id, hid, hcurrent⟩ := hopen hnil
        rw [heditor] at hcurrent
        cases hcurrent
        have hlt : ((unfinished s).filter (· ≠ a.stepId)).length < (unfinished s).length := by
          refine List.length_filter_lt_length_iff_exists.mpr ⟨a.stepId, hid, ?_⟩
          simp
        omega
    rw [List.length_cons]
    change (unfinished (run act (act s a) as)).length ≤ _
    omega

theorem visits_of_clear (h : Placed s) {as : List Action} (hclear : Guarded act Clear s as) : Visits s as := by
  intro hhand hlength id hid
  cases as with
  | nil => exact absurd hlength (Nat.not_lt_zero _)
  | cons a as =>
    obtain ⟨step, hstep⟩ := hhand.1.2
    have hrest := hhand.2
    have hshort := length_unfinished_run (h.act a) hrest hclear.2 (editor_act h hclear.1 hstep)
    have hfirst : (unfinished (act s a)).length ≤ (unfinished s).length := by
      rw [unfinished_act h hstep]
      exact List.length_filter_le _ _
    rw [List.length_cons] at hlength
    have hnone : unfinished (run act (act s a) as) = [] := List.eq_nil_of_length_eq_zero (by omega)
    by_contra hnot
    have hmem : id ∈ unfinished (run act s (a :: as)) :=
      (mem_unfinished_run h hhand).mpr ⟨hid, fun b hb hsame => hnot ⟨b, hb, hsame⟩⟩
    change id ∈ unfinished (run act (act s a) as) at hmem
    rw [hnone] at hmem
    cases hmem

end Runs

/-- Every advance lands on a pending step, and all of them are visited, just if the
selected row is never the last pending step while another one is being finished. -/
theorem advances_cover (s : Screen) (as : List Action) (h : Placed s) :
    (Along act (fun s a _ => Covers s a) s as ∧ Visits s as) ↔ Guarded act Clear s as := by
  have hstep : ∀ (s : Screen) (a : Action), Placed s → (Covers s a ↔ Clear s a) := fun s a h => covers_iff h a
  have hkeep : ∀ (s : Screen) (a : Action), Placed s → Covers s a → Placed (act s a) := fun s a h _ => h.act a
  have hsteps := along_iff_guarded_steps (P := fun s a _ => Covers s a) hstep hkeep s as h
  exact ⟨fun hrun => hsteps.mp hrun.1, fun hclear => ⟨hsteps.mpr hclear, visits_of_clear h hclear⟩⟩

def sampleStep (id : Int) : StepState := ⟨id, "", "keyboard", "press", "", "", none, "", .pending⟩

/-- A click on the second of two steps while the first one is selected. -/
def clicked : Screen :=
  let s : Screen := ⟨Session.of [sampleStep 1, sampleStep 2], 0, Editor.blank.loadStep (sampleStep 1), [], none⟩
  (s.step (.click 2)).step (.deliver 0 "now" true)

def finishSecond : Action := ⟨2, .complete "Opens the menu.", "now", true⟩

theorem advances_cover_sample :
    (Along act (fun s a _ => Covers s a) clicked [⟨1, .skip, "now", true⟩, finishSecond] ∧
      Visits clicked [⟨1, .skip, "now", true⟩, finishSecond]) ↔
        Guarded act Clear clicked [⟨1, .skip, "now", true⟩, finishSecond] :=
  advances_cover clicked _ ⟨by decide, by decide⟩

/-- The first step is pending, and neither opened nor is the annotator told of it. -/
theorem advance_misses : ¬ Covers clicked finishSecond := by
  intro h
  have hcovered := h (sampleStep 2) rfl
  obtain ⟨⟨flash, hopened⟩, -⟩ := hcovered.lands 0 (by decide +kernel)
  revert hopened
  rw [show landing (marked clicked finishSecond) = .noOther "No other step is pending" by decide +kernel]
  exact fun hopened => nomatch hopened

end MemoryArchive.Tui.Advance
