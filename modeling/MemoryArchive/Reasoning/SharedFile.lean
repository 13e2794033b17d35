import Mathlib.Logic.Function.Basic
import MemoryArchive.Data.Runs
import MemoryArchive.Reasoning.Writers

namespace MemoryArchive.Reasoning

open Runs

/-- A write of the shared file: by the Rust side, for a result of the model or
a placeholder, or by the annotation screen. -/
inductive Write
  | upsertEntry (entry : ReasoningEntry)
  | atomicUpsert (step : StepState) (now : String)

def Write.key : Write → Int
  | .upsertEntry entry => entry.key
  | .atomicUpsert step _ => step.stepId

def Write.entry : Write → Json
  | .upsertEntry entry => entry.toJson
  | .atomicUpsert step now => buildEntry step now

/-- The file, with an account of the entry last written for each step. -/
structure World where
  file : File
  latest : Int → Option Json

def World.record (w : World) (text : Text) (i : Write) : World :=
  ⟨some text, Function.update w.latest i.key (some i.entry)⟩

/-- One write. An exception in the Python writer is swallowed by `write_entry`. -/
def World.step (w : World) (i : Write) : World :=
  match i with
  | .upsertEntry entry => w.record (upsertEntry w.file entry) i
  | .atomicUpsert step now =>
      match atomicUpsert w.file step now with
      | some text => w.record text i
      | none => w

/-- The entries that a file holds for a step, one JSON value a line. -/
def entriesOf (file : File) (k : Int) : List Json :=
  ((Lines.lines (file.getD [])).filterMap Json.parse).filter fun j => stepId j = some k

/-- A file that the writers produced: a table of entries that they have put
together, each under its step. A missing file is the empty table. -/
def Produced (w : World) : Prop :=
  ∃ (L : Json.Layout) (entries : Table Int Json), L.OneLine ∧ AuthoredTable entries ∧
    w.file.getD [] = Json.render L entries.values ∧ w.latest = entries.get?

/-- After the write the file holds the latest entry of every other step, as it
was, and the one new entry for its own. -/
structure Kept (w : World) (i : Write) (w' : World) : Prop where
  others : ∀ k, k ≠ i.key → entriesOf w'.file k = (w.latest k).toList
  own : entriesOf w'.file i.key = [i.entry]

def SeparatorFree (j : Json) : Prop := Json.allChars (fun c => !Lines.isSeparator c) j = true

instance (j : Json) : Decidable (SeparatorFree j) := inferInstanceAs (Decidable (_ = true))

/-- The Rust side writes while every entry of another step is its own; the
Python side writes while no entry holds a line separator. -/
def Safe (w : World) : Write → Prop
  | .upsertEntry entry =>
      ∀ k j, k ≠ entry.key → w.latest k = some j → ∃ e : ReasoningEntry, j = e.toJson
  | .atomicUpsert _ _ => ∀ k j, w.latest k = some j → SeparatorFree j

/-- A table that has each entry under the step id that it names. -/
def Filed (entries : Table Int Json) : Prop := ∀ k j, entries.get? k = some j → stepId j = some k

theorem AuthoredTable.filed {entries : Table Int Json} (h : AuthoredTable entries) : Filed entries :=
  fun k j hget => (h k j hget).stepId_eq

theorem Filed.insert {entries : Table Int Json} (h : Filed entries) {k : Int} {j : Json}
    (hj : stepId j = some k) : Filed (entries.insert k j) :=
  Table.forall_get?_insert h hj

theorem addLine_filed {entries found : Table Int Json} {line : Text} (h : Filed found)
    (hadd : addLine found line = some entries) : Filed entries := by
  rw [addLine] at hadd
  split at hadd
  · cases hadd
    exact h
  · rename_i fields hline
    split at hadd
    · rename_i sid hsid
      cases hadd
      exact h.insert hsid
    · cases hadd
      exact h
  · cases hadd

theorem existingEntries_filed {file : File} {entries : Table Int Json}
    (h : existingEntries file = some entries) : Filed entries := by
  have hfold : ∀ (lines : List Text) (found : Table Int Json), Filed found →
      lines.foldlM addLine found = some entries → Filed entries := by
    intro lines
    induction lines with
    | nil =>
      intro found hfound heq
      cases heq
      exact hfound
    | cons line lines ih =>
      intro found hfound heq
      rw [List.foldlM_cons] at heq
      obtain ⟨next, hnext, hrest⟩ := Option.bind_eq_some_iff.mp heq
      exact ih next (addLine_filed hfound hnext) hrest
  exact hfold _ .empty (fun k j hget => (by cases hget)) h

theorem stepId_buildEntry (step : StepState) (now : String) :
    stepId (buildEntry step now) = some step.stepId := (Authored.python step now).stepId_eq

/-- The entries of one step in a table's list of entries. -/
theorem filter_values {entries : Table Int Json} (h : Filed entries) (k : Int) :
    entries.values.filter (fun j => stepId j = some k) = (entries.get? k).toList := by
  have hrows : ∀ rows : List (Int × Json), (∀ r ∈ rows, stepId r.2 = some r.1) →
      (rows.map Prod.snd).filter (fun j => stepId j = some k) =
        (rows.filter (·.1 = k)).map Prod.snd := by
    intro rows hr
    induction rows with
    | nil => rfl
    | cons r rows ih =>
      have ih' := ih fun r' h' => hr r' (List.mem_cons_of_mem r h')
      have hid := hr r (by simp)
      by_cases hk : r.1 = k <;> simp [hid, hk, ih']
  rw [Table.values, hrows entries.rows fun r hr => h r.1 r.2 ((entries.mem_rows_iff r.1 r.2).mp hr)]
  exact entries.filter_rows k

theorem entriesOf_render {file : File} {L : Json.Layout} {entries : Table Int Json} (hL : L.OneLine)
    (h : Filed entries) (hf : file.getD [] = Json.render L entries.values) (k : Int) :
    entriesOf file k = (entries.get? k).toList := by
  have hparse : Json.parse ∘ Json.print L 0 = some := funext fun j => Json.parse_print L 0 j
  rw [entriesOf, hf, Json.lines_render hL, List.filterMap_map, hparse, List.filterMap_some,
    filter_values h]

theorem SeparatorFree.values {w : World} {entries : Table Int Json} (hl : w.latest = entries.get?)
    (h : ∀ k j, w.latest k = some j → SeparatorFree j) :
    ∀ j ∈ entries.values, Json.allChars (fun c => !Lines.isSeparator c) j = true := by
  intro j hj
  obtain ⟨⟨k, v⟩, hr, rfl⟩ := List.mem_map.mp hj
  exact h k v (by rw [hl]; exact (entries.mem_rows_iff k v).mp hr)

/-- In a safe write the file takes up the new entry and keeps the others. -/
theorem step_safe {w : World} {i : Write} {L : Json.Layout} {entries : Table Int Json}
    (hL : L.OneLine) (h : AuthoredTable entries)
    (hf : w.file.getD [] = Json.render L entries.values) (hl : w.latest = entries.get?)
    (hs : Safe w i) :
    ∃ L', L'.OneLine ∧ AuthoredTable (entries.insert i.key i.entry) ∧
      w.step i = w.record (Json.render L' (entries.insert i.key i.entry).values) i := by
  cases i with
  | upsertEntry entry =>
    refine ⟨.compact, Json.oneLine_compact, h.insert (.rust entry), ?_⟩
    have hkeep : (rustKeeps entries).insert entry.key entry.toJson =
        entries.insert entry.key entry.toJson := by
      apply Table.ext_get?
      intro k
      by_cases hk : k = entry.key
      · simp [Table.get?_insert, hk]
      · rw [Table.get?_insert, Table.get?_insert, if_neg hk, if_neg hk, rustKeeps, Table.get?_filterMap]
        cases hg : entries.get? k with
        | none => rfl
        | some j =>
          obtain ⟨e, rfl⟩ := hs k j hk (by rw [hl, hg])
          simp [fromJson_toJson]
    have hu : upsertEntry w.file entry = upsertEntry (some (w.file.getD [])) entry := rfl
    simp only [World.step, hu, hf, upsertEntry_render hL h, hkeep, Write.key, Write.entry]
  | atomicUpsert step now =>
    refine ⟨.spaced, Json.oneLine_spaced, h.insert (.python step now), ?_⟩
    have hu : atomicUpsert w.file step now = atomicUpsert (some (w.file.getD [])) step now := rfl
    simp only [World.step, hu, hf, atomicUpsert_render hL h (SeparatorFree.values hl hs), Write.key,
      Write.entry]

theorem produced_step {w : World} {i : Write} (hw : Produced w) (hs : Safe w i) :
    Produced (w.step i) := by
  obtain ⟨L, entries, hL, h, hf, hl⟩ := hw
  obtain ⟨L', hL', h', he⟩ := step_safe hL h hf hl hs
  refine ⟨L', entries.insert i.key i.entry, hL', h', ?_, ?_⟩
  · rw [he]
    rfl
  · rw [he]
    funext k
    simp only [World.record, Function.update_apply, Table.get?_insert, hl]

theorem kept_step {w : World} {i : Write} (hw : Produced w) (hs : Safe w i) : Kept w i (w.step i) := by
  obtain ⟨L, entries, hL, h, hf, hl⟩ := hw
  obtain ⟨L', hL', h', he⟩ := step_safe hL h hf hl hs
  have hheld : ∀ k, entriesOf (w.step i).file k = ((entries.insert i.key i.entry).get? k).toList := by
    intro k
    rw [he]
    exact entriesOf_render hL' h'.filed rfl k
  constructor
  · intro k hk
    rw [hheld, Table.get?_insert, if_neg hk, hl]
  · rw [hheld, Table.get?_insert, if_pos rfl]
    rfl

/-- A session for which nothing has been annotated. -/
def World.fresh : World := ⟨none, fun _ => none⟩

theorem produced_fresh : Produced .fresh :=
  ⟨.compact, .empty, Json.oneLine_compact, fun _ _ h => (by cases h), rfl, rfl⟩

def sampleStep (stepId : Int) (reasoning : String) : StepState where
  stepId := stepId
  timestamp := "2026-01-01T00:00:00Z"
  actionType := "mouse"
  actionSubtype := "left"
  rawCommand := "click"
  convertedCommand := "left_click"
  imagePath := none
  reasoning := reasoning
  status := .complete

def sampleEntry (stepId : UInt32) (reasoning : String) : ReasoningEntry where
  stepId := stepId
  timestampAction := "2026-01-01T00:00:00Z"
  timestampAnnotated := "2026-01-01T00:00:05Z"
  actionType := "mouse"
  actionSubtype := "left"
  rawCommand := "click"
  convertedCommand := "left_click"
  imagePath := none
  reasoning := reasoning
  skipped := false
  source := "vlm"
  provider := some "anthropic"
  modelId := none
  apiVersion := none
  inputTokens := some 900
  outputTokens := some 40
  latencyMs := none
  actionIntent := none
  confidence := none
  keyboardVisualAnnotation := none

/-- No write of either side loses or changes an entry that the other wrote, in
any run whose writes are safe. -/
theorem writers_keep_entries (w : World) (ws : List Write) (hw : Produced w)
    (hg : Guarded World.step Safe w ws) : Along World.step Kept w ws :=
  along_run (fun _ _ => produced_step) (fun _ _ => kept_step) w ws hw hg

theorem writers_keep_entries_sample :
    Along World.step Kept .fresh
      [.upsertEntry (sampleEntry 1 "Opens the menu."), .atomicUpsert (sampleStep 2 "Closes it.") "now"] := by
  apply writers_keep_entries .fresh _ produced_fresh
  refine ⟨fun k j _ h => (by cases h), fun k j h => ?_, trivial⟩
  by_cases hk : k = 1
  · subst hk
    cases h
    decide +kernel
  · change Function.update (fun _ => none) 1 _ k = some j at h
    rw [Function.update_of_ne hk] at h
    cases h

/-- An entry that the annotation screen wrote is lost when the result of the
model for the next step comes in. -/
theorem rust_drops_python_entry :
    Produced .fresh ∧ ¬ Along World.step Kept .fresh
      [.atomicUpsert (sampleStep 1 "Opens the menu.") "now", .upsertEntry (sampleEntry 2 "Closes it.")] := by
  refine ⟨produced_fresh, fun h => ?_⟩
  have hlost := congrArg List.length (h.2.1.others 1 (by decide))
  revert hlost
  decide +kernel

end MemoryArchive.Reasoning
