import MemoryArchive.Capture.Metadata
import MemoryArchive.Reasoning.SharedFile

namespace MemoryArchive.Reasoning

open Capture (StepEntry)

/-- What the model reported for one step, as ReasoningResult delivers it. -/
structure AutomatedReasoning where
  reasoning : String
  source : String
  provider : Option String
  modelId : Option String
  apiVersion : Option String
  inputTokens : Option UInt32
  outputTokens : Option UInt32
  latencyMs : Option UInt32
  actionIntent : Option String
  confidence : Option Json.Number
  keyboardVisualAnnotation : Option Value

def buildAutomatedEntry (step : StepEntry) (model : AutomatedReasoning) (now : String) : ReasoningEntry where
  stepId := step.stepId
  timestampAction := step.timestamp
  timestampAnnotated := now
  actionType := step.actionType
  actionSubtype := step.actionSubtype
  rawCommand := step.rawCommand
  convertedCommand := step.convertedCommand
  imagePath := step.imagePath
  reasoning := model.reasoning
  skipped := false
  source := model.source
  provider := model.provider
  modelId := model.modelId
  apiVersion := model.apiVersion
  inputTokens := model.inputTokens
  outputTokens := model.outputTokens
  latencyMs := model.latencyMs
  actionIntent := model.actionIntent
  confidence := model.confidence
  keyboardVisualAnnotation := model.keyboardVisualAnnotation

/-- What stands in for a step that the metadata does not have. -/
def bareStep (stepId : UInt32) : StepEntry where
  stepId := stepId
  timestamp := ""
  actionType := ""
  actionSubtype := ""
  imagePath := none
  imageFetched := false
  marked := false
  beforeImagePath := none
  afterImagePath := none
  rawCommand := ""
  convertedCommand := ""

/-- The entry of a step that completed without reasoning. -/
def placeholder (step : StepEntry) (now : String) : ReasoningEntry where
  stepId := step.stepId
  timestampAction := step.timestamp
  timestampAnnotated := now
  actionType := step.actionType
  actionSubtype := step.actionSubtype
  rawCommand := step.rawCommand
  convertedCommand := step.convertedCommand
  imagePath := step.imagePath
  reasoning := ""
  skipped := false
  source := "model_degraded"
  provider := none
  modelId := none
  apiVersion := none
  inputTokens := none
  outputTokens := none
  latencyMs := none
  actionIntent := none
  confidence := none
  keyboardVisualAnnotation := none

def asU64 : Json → Option Nat
  | .num n => n.toNat?.bind fun v => if v < 2 ^ 64 then some v else none
  | _ => none

/-- The step id that `write_degraded_placeholders` sees in a line. An id of more
than 32 bits is cut off. -/
def seenId (line : Text) : Option UInt32 :=
  (((Json.parse line).map (Json.rebuild Json.putSorted)).bind fun j => (j.get? "step_id").bind asU64).map
    UInt32.ofNat

def existingIds (file : File) : List UInt32 := (Lines.lines (file.getD [])).filterMap seenId

/-- The entries that `write_degraded_placeholders` writes: one for every step that
the file has no line for. -/
def missingEntries (file : File) (steps : List StepEntry) (now : UInt32 → String) : List ReasoningEntry :=
  (steps.filter fun step => step.stepId ∉ existingIds file).map fun step =>
    placeholder step (now step.stepId)

/-- Several entries are written one after the other. -/
def upsertAll (file : File) (entries : List ReasoningEntry) : File :=
  entries.foldl (fun f e => some (upsertEntry f e)) file

/-- The lines of a file that have a step id, with it. -/
def rowsOf (text : Text) : List (Int × Json) :=
  ((Lines.lines text).filterMap Json.parse).filterMap fun j => (stepId j).map fun k => (k, j)

def entryRow (e : ReasoningEntry) : Int × Json := (e.key, e.toJson)

/-- The entries of a file as `upsert_entry` takes them over. -/
def keptEntries (file : File) : Table Int Json := (byStep (readEntries file)).mapValues ReasoningEntry.toJson

theorem mapValues_insert (t : Table Int ReasoningEntry) (e : ReasoningEntry) :
    (t.insert e.key e).mapValues ReasoningEntry.toJson =
      (t.mapValues ReasoningEntry.toJson).insert e.key e.toJson := by
  apply Table.ext_get?
  intro k
  rw [Table.get?_mapValues, Table.get?_insert, Table.get?_insert, Table.get?_mapValues]
  split <;> rfl

theorem keptEntries_rust (file : File) (k : Int) (j : Json) (h : (keptEntries file).get? k = some j) :
    ∃ e : ReasoningEntry, k = e.key ∧ j = e.toJson := by
  rw [keptEntries, Table.get?_mapValues, byStep, Table.get?_ofRows_lastFor] at h
  obtain ⟨e, he, rfl⟩ := Option.map_eq_some_iff.mp h
  obtain ⟨e', -, hrow⟩ := List.mem_map.mp (mem_of_lastFor he)
  cases hrow
  exact ⟨e, rfl, rfl⟩

theorem authored_keptEntries (file : File) : AuthoredTable (keptEntries file) := by
  intro k j h
  obtain ⟨e, rfl, rfl⟩ := keptEntries_rust file k j h
  exact .rust e

theorem upsertEntry_keptEntries (file : File) (e : ReasoningEntry) :
    upsertEntry file e = Json.render .compact ((keptEntries file).insert e.key e.toJson).values := by
  rw [keptEntries, ← mapValues_insert, upsertEntry, Table.values, Table.values, Table.mapValues,
    List.map_map, List.map_map]
  rfl

/-- The Rust side takes over all that it has written. -/
theorem keptEntries_upsertEntry (file : File) (e : ReasoningEntry) :
    keptEntries (some (upsertEntry file e)) = (keptEntries file).insert e.key e.toJson := by
  have ha := (authored_keptEntries file).insert (.rust e)
  have hread := readEntries_render Json.oneLine_compact _ ha.values_obj
  rw [upsertEntry_keptEntries, keptEntries, hread, byStep_values ha]
  apply Table.ext_get?
  intro k
  rw [Table.get?_mapValues, Table.get?_filterMap]
  cases hg : ((keptEntries file).insert e.key e.toJson).get? k with
  | none => rfl
  | some j =>
    have hrust : ∃ e' : ReasoningEntry, j = e'.toJson := by
      rw [Table.get?_insert] at hg
      split at hg
      · cases hg
        exact ⟨e, rfl⟩
      · obtain ⟨e', -, he'⟩ := keptEntries_rust file k j hg
        exact ⟨e', he'⟩
    obtain ⟨e', rfl⟩ := hrust
    rw [Option.bind_some, fromJson_toJson, Option.map_some]

theorem seenId_of_toJson {line : Text} {e : ReasoningEntry} (h : Json.parse line = some e.toJson) :
    seenId line = some e.stepId := by
  have hkey : "step_id" ∉ (e.fields.tail).map Prod.fst := by
    have hnodup := (fields_keys e).nodup nodup_entryKeys
    exact (List.nodup_cons.mp hnodup).1
  have hget : (Json.rebuild Json.putSorted e.toJson).get? "step_id" = some (natural e.stepId) := by
    have hfields : e.fields = ("step_id", natural e.stepId) :: e.fields.tail := rfl
    change (Json.rebuildFields Json.putSorted [] e.fields).lookup "step_id" = _
    have hput : Json.putSorted "step_id" (Json.rebuild Json.putSorted (natural e.stepId)) [] =
        [("step_id", natural e.stepId)] := rfl
    rw [hfields, Json.rebuildFields, hput, Json.lookup_rebuildFields (by simp) hkey]
    rfl
  have hid : asU64 (natural e.stepId) = some e.stepId.toNat := by
    have hlt : e.stepId.toNat < 2 ^ 64 := lt_trans e.stepId.toNat_lt (by decide)
    change ((Json.Number.ofNat e.stepId.toNat).toNat?.bind fun v => if v < 2 ^ 64 then some v else none) = _
    rw [Json.toNat?_ofNat, Option.bind_some, if_pos hlt]
  rw [seenId, h, Option.map_some, Option.bind_some, hget, Option.bind_some, hid, Option.map_some,
    UInt32.ofNat_toNat]

theorem mem_existingIds {file : File} {e : ReasoningEntry} {k : Int} (h : e.toJson ∈ entriesOf file k) :
    e.stepId ∈ existingIds file := by
  obtain ⟨line, hline, hparse⟩ := List.mem_filterMap.mp (List.mem_of_mem_filter h)
  exact List.mem_filterMap.mpr ⟨line, hline, seenId_of_toJson hparse⟩

theorem entriesOf_upsertEntry (file : File) (e : ReasoningEntry) (k : Int) :
    entriesOf (some (upsertEntry file e)) k =
      (((keptEntries file).insert e.key e.toJson).get? k).toList := by
  have hfiled := ((authored_keptEntries file).insert (.rust e)).filed
  refine entriesOf_render Json.oneLine_compact hfiled ?_ k
  rw [Option.getD_some, upsertEntry_keptEntries]

theorem rowsOf_render {L : Json.Layout} (hL : L.OneLine) {entries : Table Int Json}
    (h : AuthoredTable entries) : rowsOf (Json.render L entries.values) = entries.rows := by
  have hparse : Json.parse ∘ Json.print L 0 = some := funext fun j => Json.parse_print L 0 j
  have hrows : ∀ rows : List (Int × Json), (∀ r ∈ rows, Authored r.1 r.2) →
      ((rows.map Prod.snd).filterMap fun j => (stepId j).map fun k => (k, j)) = rows := by
    intro rows hr
    induction rows with
    | nil => rfl
    | cons r rows ih =>
      have ih' := ih fun r' h' => hr r' (List.mem_cons_of_mem r h')
      simp [(hr r (by simp)).stepId_eq, ih']
  rw [rowsOf, Json.lines_render hL, List.filterMap_map, hparse, List.filterMap_some]
  exact hrows entries.rows fun r hr => h.mem hr

theorem upsertAll_append (file : File) (es : List ReasoningEntry) (e : ReasoningEntry) :
    upsertAll file (es ++ [e]) = some (upsertEntry (upsertAll file es) e) := by
  rw [upsertAll, List.foldl_append]
  rfl

/-- Writes put their last entry for each step in place of what was there. -/
theorem keptEntries_upsertAll (file : File) (es : List ReasoningEntry) (k : Int) :
    (keptEntries (upsertAll file es)).get? k =
      (lastFor (es.map entryRow) k).or ((keptEntries file).get? k) := by
  induction es using List.reverseRecOn with
  | nil => rfl
  | append_singleton es e ih =>
    rw [upsertAll_append, keptEntries_upsertEntry, Table.get?_insert, List.map_append, lastFor_append]
    by_cases hk : k = e.key
    · simp [lastFor, entryRow, hk]
    · simp [lastFor, entryRow, hk, Ne.symm hk, ih]

theorem rowsOf_upsertAll (file : File) (es : List ReasoningEntry) (hne : es ≠ []) :
    rowsOf ((upsertAll file es).getD []) = (keptEntries (upsertAll file es)).rows := by
  obtain ⟨es', e, rfl⟩ := List.eq_nil_or_concat es |>.resolve_left hne
  rw [List.concat_eq_append, upsertAll_append, keptEntries_upsertEntry, Option.getD_some,
    upsertEntry_keptEntries]
  exact rowsOf_render Json.oneLine_compact ((authored_keptEntries _).insert (.rust e))

end MemoryArchive.Reasoning
