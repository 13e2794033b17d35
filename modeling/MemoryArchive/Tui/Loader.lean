import MemoryArchive.Reasoning.Readers

namespace MemoryArchive.Tui

open Reasoning

/-- A step of metadata.json. -/
structure StepEntry where
  stepId : Int
  timestamp : String
  actionType : String
  actionSubtype : String
  imagePath : Option String
  rawCommand : String
  convertedCommand : String

def StepEntry.toState (e : StepEntry) : StepState where
  stepId := e.stepId
  timestamp := e.timestamp
  actionType := e.actionType
  actionSubtype := e.actionSubtype
  rawCommand := e.rawCommand
  convertedCommand := e.convertedCommand
  imagePath := e.imagePath
  reasoning := ""
  status := .pending

/-- The steps of a session in the order the screen shows them. -/
def inOrder (metadata : List StepEntry) : List StepEntry :=
  metadata.insertionSort fun a b => a.stepId ≤ b.stepId

def noSteps : String :=
  "No steps found in metadata.json. The session may be empty, or was " ++
    "captured before the vision pipeline was added."

def buildSteps (metadata : List StepEntry) : Except ReadError (List StepState) :=
  if metadata = [] then .error (.load noSteps)
  else .ok ((inOrder metadata).map StepEntry.toState)

/-- Change the first step with an id. -/
def updateStep (id : Int) (f : StepState → StepState) : List StepState → List StepState
  | [] => []
  | s :: ss => if s.stepId = id then f s :: ss else s :: updateStep id f ss

/-- Change the last step with an id, which is the one a dict of the steps holds. -/
def updateIndexed (id : Int) (f : StepState → StepState) (steps : List StepState) : List StepState :=
  (updateStep id f steps.reverse).reverse

def pyStrip (text : String) : String := String.ofList (Lines.pyStrip text.toList)

theorem pyStrip_pyStrip (text : String) : pyStrip (pyStrip text) = pyStrip text := by
  rw [pyStrip, pyStrip, String.toList_ofList, Lines.pyStrip, Lines.pyStrip, Lines.strip_strip]

/-- Python's `bool`. A number is zero when its mantissa is. -/
def truthy : Json → Bool
  | .null => false
  | .bool b => b
  | .num n => (n.literal.takeWhile fun c => c ≠ 'e' && c ≠ 'E').any fun c => c.isDigit && c ≠ '0'
  | .str s => s ≠ ""
  | .arr items => !items.isEmpty
  | .obj fields => !fields.isEmpty

/-- `entry.get(key, "")` for a member that every writer leaves as a text. One of
another type has no `strip`, which is an exception. -/
def textMember (entry : Json) (key : String) : Except ReadError String :=
  match entry.get? key with
  | none => .ok ""
  | some (.str s) => .ok s
  | some _ => .error .attribute

def sourceOf (entry : Json) : String :=
  match entry.get? "source" with
  | none => "human"
  | some v => (asString v).getD ""

def inferStatus (isSkipped : Bool) (source reasoning : String) : StepStatus :=
  if isSkipped then .skipped
  else if source = "model" ∧ pyStrip reasoning ≠ "" then .complete
  else if source = "model_degraded" then .pending
  else if pyStrip reasoning ≠ "" then .complete
  else .pending

/-- What an entry says of its step. -/
structure Note where
  reasoning : String
  rawCommand : String
  convertedCommand : String
  status : StepStatus

def readNote (entry : Json) : Except ReadError Note := do
  let reasoning ← textMember entry "reasoning"
  let rawCommand ← textMember entry "raw_command"
  let convertedCommand ← textMember entry "converted_command"
  let isSkipped := ((entry.get? "skipped").map truthy).getD false
  return ⟨reasoning, rawCommand, convertedCommand, inferStatus isSkipped (sourceOf entry) reasoning⟩

def Note.applyTo (n : Note) (s : StepState) : StepState :=
  { s with
    reasoning := n.reasoning
    rawCommand := n.rawCommand
    convertedCommand := n.convertedCommand
    status := n.status }

/-- The step id that an entry has, if it has one. A list or a dict is no key. -/
def entryId (entry : Json) : Except ReadError (Option Int) :=
  match entry with
  | .obj fields =>
      match (Json.obj fields).get? "step_id" with
      | none => .ok none
      | some (.arr _) => .error .type
      | some (.obj _) => .error .type
      | some j => .ok (asInt j)
  | _ => .error .attribute

/-- What the loop of `_restore_annotations` changes. -/
structure Restored where
  steps : List StepState
  annotated : Nat
  skipped : Nat

def restoreEntry (r : Restored) (entry : Json) : Except ReadError Restored := do
  match ← entryId entry with
  | none => return r
  | some id =>
      if r.steps.any fun s => s.stepId = id then
        let note ← readNote entry
        return {
          steps := updateIndexed id note.applyTo r.steps
          annotated := r.annotated + if note.status = .complete then 1 else 0
          skipped := r.skipped + if note.status = .skipped then 1 else 0 }
      else return r

def restoreAnnotations (steps : List StepState) (existing : List Json) : Except ReadError Restored :=
  existing.foldlM restoreEntry ⟨steps, 0, 0⟩

/-- The session as the annotation screen holds it. -/
structure Session where
  steps : List StepState
  annotatedSteps : Nat
  skippedSteps : Nat

/-- `SessionLoader.load` for steps that have their commands. -/
def load (decodeError : Text → String) (metadata : List StepEntry) (file : File) :
    Except ReadError Session := do
  let steps ← buildSteps metadata
  let existing ← loaderReadReasoning decodeError file
  let r ← restoreAnnotations steps existing
  return ⟨r.steps, r.annotated, r.skipped⟩

/-- How many of the steps have a status. -/
def tally (status : StepStatus) (steps : List StepState) : Nat := steps.countP fun s => s.status = status

def Session.of (steps : List StepState) : Session := ⟨steps, tally .complete steps, tally .skipped steps⟩

theorem updateStep_eq_map {id : Int} (f : StepState → StepState) (steps : List StepState)
    (h : (steps.map StepState.stepId).Nodup) :
    updateStep id f steps = steps.map fun s => if s.stepId = id then f s else s := by
  induction steps with
  | nil => rfl
  | cons s ss ih =>
    obtain ⟨hnot, hrest⟩ := List.nodup_cons.mp h
    by_cases hs : s.stepId = id
    · have htail : ∀ s' ∈ ss, (if s'.stepId = id then f s' else s') = s' := by
        intro s' hs'
        refine if_neg fun he => hnot ?_
        exact List.mem_map.mpr ⟨s', hs', he.trans hs.symm⟩
      rw [updateStep, if_pos hs, List.map_cons, if_pos hs, List.map_congr_left htail, List.map_id']
    · rw [updateStep, if_neg hs, List.map_cons, if_neg hs, ih hrest]

theorem updateStep_of_not_mem {id : Int} (f : StepState → StepState) (steps : List StepState)
    (h : ∀ s ∈ steps, s.stepId ≠ id) : updateStep id f steps = steps := by
  induction steps with
  | nil => rfl
  | cons s ss ih =>
    rw [updateStep, if_neg (h s List.mem_cons_self), ih fun s' hs' => h s' (List.mem_cons_of_mem s hs')]

theorem updateIndexed_eq_map {id : Int} (f : StepState → StepState) (steps : List StepState)
    (h : (steps.map StepState.stepId).Nodup) :
    updateIndexed id f steps = steps.map fun s => if s.stepId = id then f s else s := by
  have hreverse : (steps.reverse.map StepState.stepId).Nodup := by
    rw [List.map_reverse]
    exact List.nodup_reverse.mpr h
  rw [updateIndexed, updateStep_eq_map f _ hreverse, List.map_reverse, List.reverse_reverse]

theorem tally_updateStep {id : Int} (f : StepState → StepState) (status new : StepStatus)
    (hf : ∀ s, (f s).status = new) (steps : List StepState) (hin : ∃ s ∈ steps, s.stepId = id)
    (hold : ∀ s ∈ steps, s.stepId = id → s.status ≠ status) :
    tally status (updateStep id f steps) = tally status steps + if new = status then 1 else 0 := by
  induction steps with
  | nil =>
    obtain ⟨s, hs, -⟩ := hin
    cases hs
  | cons s ss ih =>
    by_cases hs : s.stepId = id
    · have hne := hold s List.mem_cons_self hs
      simp [updateStep, if_pos hs, tally, List.countP_cons, hf, hne]
    · have hin' : ∃ s' ∈ ss, s'.stepId = id := by
        obtain ⟨s', hs', hid⟩ := hin
        obtain rfl | hmem := List.mem_cons.mp hs'
        · exact absurd hid hs
        · exact ⟨s', hmem, hid⟩
      have hrest := ih hin' fun s' hs' => hold s' (List.mem_cons_of_mem s hs')
      simp only [tally, updateStep, if_neg hs, List.countP_cons] at hrest ⊢
      omega

theorem tally_updateIndexed {id : Int} (f : StepState → StepState) (status new : StepStatus)
    (hf : ∀ s, (f s).status = new) (steps : List StepState) (hin : ∃ s ∈ steps, s.stepId = id)
    (hold : ∀ s ∈ steps, s.stepId = id → s.status ≠ status) :
    tally status (updateIndexed id f steps) = tally status steps + if new = status then 1 else 0 := by
  have htally : ∀ ss, tally status ss.reverse = tally status ss := fun ss => List.countP_reverse
  rw [updateIndexed, htally, ← htally steps]
  exact tally_updateStep f status new hf steps.reverse (by simpa using hin) (by simpa using hold)

/-- The loader can read what the writers write. -/
theorem readNote_authored {k : Int} {j : Json} (h : Authored k j) : ∃ note, readNote j = .ok note := by
  cases h with
  | rust e =>
    have hmember : ∀ key text, e.toJson.get? key = some (.str text) →
        textMember e.toJson key = .ok text := by
      intro key text hget
      rw [textMember, hget]
    have hreasoning := hmember "reasoning" e.reasoning (by
      unfold ReasoningEntry.toJson ReasoningEntry.fields
      cases e.imagePath with
      | none => rfl
      | some path => rfl)
    have hraw := hmember "raw_command" e.rawCommand rfl
    have hconverted := hmember "converted_command" e.convertedCommand rfl
    rw [readNote, hreasoning, hraw, hconverted]
    exact ⟨_, rfl⟩
  | python step now => exact ⟨_, rfl⟩

theorem entryId_authored {k : Int} {j : Json} (h : Authored k j) : entryId j = .ok (some k) := by
  cases h with
  | rust e => exact congrArg (fun o => Except.ok o) (Json.toInt?_ofNat e.stepId.toNat)
  | python step now => exact congrArg (fun o => Except.ok o) (Json.toInt?_ofInt step.stepId)

/-- A step as the loader shows it: what its entry says, if it has one. -/
def shown (entries : Table Int Json) (m : StepState) : StepState :=
  match (entries.get? m.stepId).map readNote with
  | some (.ok note) => note.applyTo m
  | _ => m

/-- Counters that agree with the steps. -/
def settled (steps : List StepState) : Restored := ⟨steps, tally .complete steps, tally .skipped steps⟩

/-- An entry for a step without an annotation is counted as it is shown. -/
theorem restoreEntry_settled {k : Int} {j : Json} {note : Note} (h : Authored k j)
    (hnote : readNote j = .ok note) (steps : List StepState)
    (hpending : ∀ s ∈ steps, s.stepId = k → s.status = .pending) :
    restoreEntry (settled steps) j = .ok (settled (updateIndexed k note.applyTo steps)) := by
  rw [restoreEntry, entryId_authored h]
  change (if (steps.any fun s => s.stepId = k) = true then _ else _) = _
  by_cases hin : ∃ s ∈ steps, s.stepId = k
  · have hany : (steps.any fun s => s.stepId = k) = true := by simpa using hin
    have hcount : ∀ status ≠ StepStatus.pending, tally status (updateIndexed k note.applyTo steps) =
        tally status steps + if note.status = status then 1 else 0 := by
      intro status hstatus
      refine tally_updateIndexed note.applyTo status note.status (fun _ => rfl) steps hin fun s hs hid => ?_
      rw [hpending s hs hid]
      exact hstatus.symm
    have hcomplete := hcount .complete (by decide)
    have hskipped := hcount .skipped (by decide)
    rw [if_pos hany, hnote, settled, settled, hcomplete, hskipped]
    rfl
  · have hany : ¬ (steps.any fun s => s.stepId = k) = true := by simpa using hin
    have hsame : updateStep k note.applyTo steps.reverse = steps.reverse :=
      updateStep_of_not_mem note.applyTo steps.reverse fun s hs hid => hin ⟨s, List.mem_reverse.mp hs, hid⟩
    rw [if_neg hany, updateIndexed, hsame, List.reverse_reverse]
    rfl

variable (metadata : List StepEntry)

/-- The steps as the loader shows them over a table of entries. -/
def shownSteps (entries : Table Int Json) : List StepState :=
  metadata.map fun m => shown entries m.toState

theorem shown_stepId (entries : Table Int Json) (m : StepState) : (shown entries m).stepId = m.stepId := by
  rw [shown]
  split <;> rfl

theorem shownSteps_stepId (entries : Table Int Json) :
    (shownSteps metadata entries).map StepState.stepId = metadata.map StepEntry.stepId := by
  rw [shownSteps, List.map_map]
  exact List.map_congr_left fun m _ => shown_stepId entries m.toState

theorem shown_of_none {entries : Table Int Json} {m : StepState} (h : entries.get? m.stepId = none) :
    shown entries m = m := by
  rw [shown, h]
  rfl

theorem shown_insert_of_ne (entries : Table Int Json) {k : Int} (j : Json) {m : StepState}
    (h : m.stepId ≠ k) : shown (entries.insert k j) m = shown entries m := by
  rw [shown, Table.get?_insert, if_neg h]
  rfl

theorem shown_insert (entries : Table Int Json) {k : Int} {j : Json} {note : Note}
    (hnote : readNote j = .ok note) (m : StepState) :
    shown (entries.insert k j) m = if m.stepId = k then note.applyTo m else shown entries m := by
  by_cases hm : m.stepId = k
  · rw [shown, Table.get?_insert, if_pos hm, if_pos hm, Option.map_some, hnote]
  · rw [if_neg hm, shown_insert_of_ne entries j hm]

/-- Entries of which no two are for one step are restored as they are shown, and
the counters say how many steps show each status. -/
theorem restoreAnnotations_rows (hids : (metadata.map StepEntry.stepId).Nodup) (rows : List (Int × Json))
    (h : ∀ r ∈ rows, Authored r.1 r.2) (hn : (rows.map Prod.fst).Nodup) :
    restoreAnnotations (metadata.map StepEntry.toState) (rows.map Prod.snd) =
      .ok (settled (shownSteps metadata (Table.ofRows rows))) := by
  induction rows using List.reverseRecOn with
  | nil =>
    have hnone : ∀ status ≠ StepStatus.pending, tally status (metadata.map StepEntry.toState) = 0 := by
      intro status hstatus
      rw [tally, List.countP_eq_zero]
      intro s hs
      obtain ⟨m, -, rfl⟩ := List.mem_map.mp hs
      exact fun he => hstatus (of_decide_eq_true he).symm
    have hsteps : shownSteps metadata (Table.ofRows []) = metadata.map StepEntry.toState :=
      List.map_congr_left fun m _ => shown_of_none rfl
    rw [hsteps, settled, hnone .complete (by decide), hnone .skipped (by decide)]
    rfl
  | append_singleton rows r ih =>
    obtain ⟨k, j⟩ := r
    rw [List.map_append, List.nodup_append] at hn
    have hnew : (Table.ofRows rows).get? k = none := by
      rw [Option.eq_none_iff_forall_not_mem]
      intro v hv
      have hmem := (Table.get?_ofRows rows hn.1 k v).mp hv
      exact hn.2.2 k (List.mem_map_of_mem hmem) k (by simp) rfl
    have ih' := ih (fun r hr => h r (List.mem_append_left _ hr)) hn.1
    have ha : Authored k j := h (k, j) (by simp)
    obtain ⟨note, hnote⟩ := readNote_authored ha
    have hpending : ∀ s ∈ shownSteps metadata (Table.ofRows rows), s.stepId = k → s.status = .pending := by
      intro s hs hid
      obtain ⟨m, -, rfl⟩ := List.mem_map.mp hs
      rw [shown_stepId] at hid
      rw [shown_of_none (by rw [hid, hnew])]
      rfl
    have hupdate : updateIndexed k note.applyTo (shownSteps metadata (Table.ofRows rows)) =
        shownSteps metadata (Table.ofRows (rows ++ [(k, j)])) := by
      rw [updateIndexed_eq_map _ _ (by rw [shownSteps_stepId]; exact hids), shownSteps, List.map_map,
        Table.ofRows_append]
      refine List.map_congr_left fun m _ => ?_
      rw [shown_insert _ hnote, Function.comp, shown_stepId]
      split
      · rename_i hid
        rw [shown_of_none (by rw [hid, hnew])]
      · rfl
    rw [restoreAnnotations] at ih'
    rw [restoreAnnotations, List.map_append, List.foldlM_append, ih']
    change restoreEntry _ j >>= pure = _
    rw [restoreEntry_settled ha hnote _ hpending, hupdate]
    rfl

/-- A file with one line for each step it has an entry of, in any order, as the
writers put them together. No line is cut at a separator. -/
def Filed (file : File) (entries : Table Int Json) : Prop :=
  ∃ (L : Json.Layout) (rows : List (Int × Json)), L.OneLine ∧
    (∀ r ∈ rows, Authored r.1 r.2) ∧ (∀ r ∈ rows, SeparatorFree r.2) ∧ (rows.map Prod.fst).Nodup ∧
    file.getD [] = Json.render L (rows.map Prod.snd) ∧ entries = Table.ofRows rows

theorem filed_none : Filed none .empty :=
  ⟨.compact, [], Json.oneLine_compact, fun _ h => (by cases h), fun _ h => (by cases h), .nil, rfl, rfl⟩

theorem load_filed (decodeError : Text → String) {file : File} {entries : Table Int Json}
    (hids : (metadata.map StepEntry.stepId).Nodup) (hne : metadata ≠ []) (h : Filed file entries) :
    load decodeError metadata file =
      .ok (Session.of (shownSteps (inOrder metadata) entries)) := by
  obtain ⟨L, rows, hL, ha, hs, hn, hf, rfl⟩ := h
  have hsorted : ((inOrder metadata).map StepEntry.stepId).Nodup :=
    ((List.perm_insertionSort _ metadata).map StepEntry.stepId).nodup_iff.mpr hids
  have hread : loaderReadReasoning decodeError file = .ok (rows.map Prod.snd) :=
    readFile_rows decodeError .load hL rows ha hf hs
  have hrestored := restoreAnnotations_rows (inOrder metadata) hsorted rows ha hn
  rw [load, buildSteps, if_neg hne, hread]
  change (restoreAnnotations _ _ >>= _) = _
  rw [hrestored]
  rfl

/-- A write of the annotation screen takes up its entry and keeps the others. -/
theorem atomicUpsert_filed {file : File} {entries : Table Int Json} (h : Filed file entries)
    (step : StepState) (now : String) (hs : SeparatorFree (buildEntry step now)) :
    ∃ text, atomicUpsert file step now = some text ∧
      Filed (some text) (entries.insert step.stepId (buildEntry step now)) := by
  obtain ⟨L, rows, hL, ha, hsep, hn, hf, rfl⟩ := h
  have hexisting : existingEntries file = some (Table.ofRows rows) := by
    have he : existingEntries file = existingEntries (some (file.getD [])) := rfl
    rw [he, hf, existingEntries_rows hL rows ha hsep]
  refine ⟨_, by rw [atomicUpsert, hexisting]; rfl, ?_⟩
  have hrow : ∀ r ∈ ((Table.ofRows rows).insert step.stepId (buildEntry step now)).rows,
      r = (step.stepId, buildEntry step now) ∨ r ∈ rows := by
    rintro ⟨k, j⟩ hr
    rw [Table.mem_rows_iff, Table.get?_insert] at hr
    split at hr
    · rename_i hk
      cases hr
      exact .inl (by rw [hk])
    · exact .inr ((Table.get?_ofRows rows hn k j).mp hr)
  refine ⟨.spaced, _, Json.oneLine_spaced, fun r hr => ?_, fun r hr => ?_, ?_, rfl,
    (Table.ofRows_rows _).symm⟩
  · obtain rfl | hold := hrow r hr
    · exact .python step now
    · exact ha r hold
  · obtain rfl | hold := hrow r hr
    · exact hs
    · exact hsep r hold
  · exact (Table.sorted _).imp fun hlt => hlt.ne

end MemoryArchive.Tui
