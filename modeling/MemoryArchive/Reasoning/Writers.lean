import MemoryArchive.Json.Lines
import MemoryArchive.Reasoning.Entry

namespace MemoryArchive.Reasoning

open Json (Fields)

abbrev Text := List Char

/-- reasoning.jsonl as a text, or none as long as no writer has made it. -/
abbrev File := Option Text

def ReasoningEntry.key (e : ReasoningEntry) : Int := e.stepId.toNat

def stripLines (strip : Text → Text) (ls : List Text) : List Text := (ls.map strip).filter (· ≠ [])

/-- The entries that `upsert_entry` finds in a file: it passes over a line that
is not the JSON of an entry. -/
def readEntries (file : File) : List ReasoningEntry :=
  (stripLines Lines.trim (Lines.lines (file.getD []))).filterMap fun line =>
    (Json.parse line).bind ReasoningEntry.fromJson

def byStep (es : List ReasoningEntry) : Table Int ReasoningEntry :=
  Table.ofRows (es.map fun e => (e.key, e))

def upsertEntry (file : File) (entry : ReasoningEntry) : Text :=
  let entries := (byStep (readEntries file)).insert entry.key entry
  Json.render .compact (entries.values.map ReasoningEntry.toJson)

inductive StepStatus
  | pending | inProgress | complete | skipped
  deriving DecidableEq

/-- What the annotation screen knows of a step and writes down. -/
structure StepState where
  stepId : Int
  timestamp : String
  actionType : String
  actionSubtype : String
  rawCommand : String
  convertedCommand : String
  imagePath : Option String
  reasoning : String
  status : StepStatus

def buildEntry (step : StepState) (now : String) : Json := .obj
  [("step_id", .num (.ofInt step.stepId)), ("timestamp_action", .str step.timestamp),
    ("timestamp_annotated", .str now), ("action_type", .str step.actionType),
    ("action_subtype", .str step.actionSubtype), ("raw_command", .str step.rawCommand),
    ("converted_command", .str step.convertedCommand),
    ("image_path", step.imagePath.elim .null .str), ("reasoning", .str step.reasoning),
    ("skipped", .bool (step.status = .skipped))]

/-- Python's `json.loads`, which makes every object a dict. -/
def loads (line : Text) : Option Json := (Json.parse line).map (Json.rebuild Json.putDict)

/-- The value of an object for which `isinstance(_, int)` holds; a bool is one. -/
def asInt : Json → Option Int
  | .num n => n.toInt?
  | .bool b => some (if b then 1 else 0)
  | _ => none

def stepId (j : Json) : Option Int := (j.get? "step_id").bind asInt

/-- One line in the read phase of `_atomic_upsert`. Text that is not JSON is
passed over; a value that is no dict has no `get`, which is an exception. -/
def addLine (entries : Table Int Json) (line : Text) : Option (Table Int Json) :=
  match loads line with
  | none => some entries
  | some (.obj fields) =>
      match stepId (.obj fields) with
      | some sid => some (entries.insert sid (.obj fields))
      | none => some entries
  | some _ => none

def existingEntries (file : File) : Option (Table Int Json) :=
  (stripLines Lines.pyStrip (Lines.splitlines (Lines.readText (file.getD [])))).foldlM addLine .empty

def atomicUpsert (file : File) (step : StepState) (now : String) : Option Text :=
  (existingEntries file).map fun entries =>
    Json.render .spaced (entries.insert step.stepId (buildEntry step now)).values

/-- An entry of a step that one of the two writers has put together. -/
inductive Authored : Int → Json → Prop
  | rust (e : ReasoningEntry) : Authored e.key e.toJson
  | python (step : StepState) (now : String) : Authored step.stepId (buildEntry step now)

theorem Authored.obj {k : Int} {j : Json} (h : Authored k j) : ∃ fields, j = .obj fields := by
  cases h with
  | rust e => exact ⟨e.fields, rfl⟩
  | python step now => exact ⟨_, rfl⟩

theorem Authored.stepId_eq {k : Int} {j : Json} (h : Authored k j) : stepId j = some k := by
  cases h with
  | rust e => exact Json.toInt?_ofNat e.stepId.toNat
  | python step now => exact Json.toInt?_ofInt step.stepId

/-- The keys of an entry in the order of the struct. -/
def entryKeys : List String :=
  ["step_id", "timestamp_action", "timestamp_annotated", "action_type", "action_subtype",
    "raw_command", "converted_command", "image_path", "reasoning", "skipped", "source",
    "provider", "model_id", "api_version", "input_tokens", "output_tokens", "latency_ms",
    "action_intent", "confidence", "keyboard_visual_annotation"]

theorem member_keys (key : String) (v : Option Json) :
    ((member key v).map Prod.fst).Sublist [key] := by
  cases v <;> simp [member]

theorem fields_keys (e : ReasoningEntry) : (e.fields.map Prod.fst).Sublist entryKeys := by
  simp only [ReasoningEntry.fields, List.map_append]
  have hstep := (List.Sublist.refl (entryKeys.take 7)).append
    (member_keys "image_path" (e.imagePath.map .str))
  have htext := hstep.append (List.Sublist.refl ["reasoning", "skipped", "source"])
  have hmodel := ((htext.append (member_keys "provider" (e.provider.map .str))).append
    (member_keys "model_id" (e.modelId.map .str))).append
    (member_keys "api_version" (e.apiVersion.map .str))
  have hcost := ((hmodel.append (member_keys "input_tokens" (e.inputTokens.map natural))).append
    (member_keys "output_tokens" (e.outputTokens.map natural))).append
    (member_keys "latency_ms" (e.latencyMs.map natural))
  exact ((hcost.append (member_keys "action_intent" (e.actionIntent.map .str))).append
    (member_keys "confidence" (e.confidence.map .num))).append
    (member_keys "keyboard_visual_annotation" (e.keyboardVisualAnnotation.map Value.json))

theorem nodup_entryKeys : entryKeys.Nodup := by decide

theorem keyedFields_append (ok : List String → Prop) (fs gs : Fields) :
    Json.KeyedFields ok (fs ++ gs) ↔ Json.KeyedFields ok fs ∧ Json.KeyedFields ok gs := by
  induction fs with
  | nil => simp [Json.KeyedFields]
  | cons f fs ih => simp [Json.KeyedFields, ih, and_assoc]

theorem keyedFields_member {α : Type} (ok : List String → Prop) (key : String) (write : α → Json)
    (hw : ∀ a, Json.Keyed ok (write a)) (v : Option α) :
    Json.KeyedFields ok (member key (v.map write)) := by
  cases v with
  | none => trivial
  | some a => exact ⟨hw a, trivial⟩

/-- Neither writer names a member twice. -/
theorem Authored.distinct {k : Int} {j : Json} (h : Authored k j) : j.Distinct := by
  cases h with
  | rust e =>
    have hs := fun key => keyedFields_member List.Nodup key Json.str (fun _ => by simp [Json.Keyed])
    have hu := fun key => keyedFields_member List.Nodup key natural (fun _ => by simp [natural, Json.Keyed])
    have hf := fun key => keyedFields_member List.Nodup key Json.num (fun _ => by simp [Json.Keyed])
    have hv := fun key => keyedFields_member List.Nodup key Value.json (fun v => v.sorted.distinct)
    refine ⟨(fields_keys e).nodup nodup_entryKeys, ?_⟩
    simp [ReasoningEntry.fields, keyedFields_append, hs, hu, hf, hv, Json.KeyedFields, Json.Keyed, natural]
  | python step now =>
    refine ⟨by simp, ?_⟩
    cases step.imagePath <;> simp [Json.KeyedFields, Json.Keyed]

theorem fromJson_buildEntry (step : StepState) (now : String) :
    ReasoningEntry.fromJson (buildEntry step now) = none := by
  simp [ReasoningEntry.fromJson, buildEntry, required]

/-- The Rust side reads an entry back just when it has written it. -/
theorem Authored.fromJson_eq_some {k : Int} {j : Json} (h : Authored k j) (e : ReasoningEntry) :
    ReasoningEntry.fromJson j = some e ↔ j = e.toJson ∧ k = e.key := by
  constructor
  · intro he
    cases h with
    | rust e' =>
      rw [fromJson_toJson, Option.some.injEq] at he
      subst he
      exact ⟨rfl, rfl⟩
    | python step now =>
      rw [fromJson_buildEntry] at he
      cases he
  · rintro ⟨rfl, rfl⟩
    exact fromJson_toJson e

theorem print_obj_ne_nil (L : Json.Layout) (fields : Fields) : Json.print L 0 (.obj fields) ≠ [] := by
  simp [Json.print]

theorem stripLines_print (blank : Char → Bool) (hopen : blank '{' = false)
    (hclose : blank '}' = false) (L : Json.Layout) (js : List Json)
    (hjs : ∀ j ∈ js, ∃ fields, j = .obj fields) :
    stripLines (Lines.strip blank) (js.map (Json.print L 0)) = js.map (Json.print L 0) := by
  have hstrip : (js.map (Json.print L 0)).map (Lines.strip blank) = js.map (Json.print L 0) := by
    rw [List.map_map]
    refine List.map_congr_left fun j hj => ?_
    obtain ⟨fields, rfl⟩ := hjs j hj
    exact Json.strip_print_obj blank hopen hclose L fields
  rw [stripLines, hstrip, List.filter_eq_self]
  intro l hl
  obtain ⟨j, hj, rfl⟩ := List.mem_map.mp hl
  obtain ⟨fields, rfl⟩ := hjs j hj
  exact decide_eq_true (print_obj_ne_nil L fields)

theorem readEntries_render {L : Json.Layout} (hL : L.OneLine) (js : List Json)
    (hjs : ∀ j ∈ js, ∃ fields, j = .obj fields) :
    readEntries (some (Json.render L js)) = js.filterMap ReasoningEntry.fromJson := by
  have hlines : stripLines Lines.trim (Lines.lines (Json.render L js)) = js.map (Json.print L 0) := by
    rw [Json.lines_render hL]
    exact stripLines_print Lines.isWhiteSpace rfl rfl L js hjs
  simp only [readEntries, Option.getD_some, hlines, List.filterMap_map]
  congr 1
  funext j
  simp [Json.parse_print]

section Tables

/-- A table of entries, each one put together by a writer for its step. -/
def AuthoredTable (entries : Table Int Json) : Prop :=
  ∀ k j, entries.get? k = some j → Authored k j

variable {entries : Table Int Json}

theorem AuthoredTable.mem (h : AuthoredTable entries) {k : Int} {j : Json}
    (hr : (k, j) ∈ entries.rows) : Authored k j := h k j ((entries.mem_rows_iff k j).mp hr)

theorem AuthoredTable.values_obj (h : AuthoredTable entries) :
    ∀ j ∈ entries.values, ∃ fields, j = .obj fields := by
  intro j hj
  obtain ⟨r, hr, rfl⟩ := List.mem_map.mp hj
  exact (h.mem hr).obj

theorem byStep_values (h : AuthoredTable entries) :
    byStep (entries.values.filterMap ReasoningEntry.fromJson) =
      entries.filterMap fun _ j => ReasoningEntry.fromJson j := by
  have hrows : ∀ rows : List (Int × Json), (∀ r ∈ rows, Authored r.1 r.2) →
      ((rows.map Prod.snd).filterMap ReasoningEntry.fromJson).map (fun e => (e.key, e)) =
        rows.filterMap fun r => (ReasoningEntry.fromJson r.2).map fun e => (r.1, e) := by
    intro rows hr
    induction rows with
    | nil => rfl
    | cons r rows ih =>
      have ih' := ih fun r' h' => hr r' (List.mem_cons_of_mem r h')
      have ha := hr r (by simp)
      cases he : ReasoningEntry.fromJson r.2 with
      | none => simpa [he] using ih'
      | some e => simpa [he, ((ha.fromJson_eq_some e).mp he).2] using ih'
  rw [byStep, Table.values, hrows entries.rows fun r hr => h.mem hr]
  exact Table.ofRows_rows (entries.filterMap fun _ j => ReasoningEntry.fromJson j)

/-- What the Rust side keeps of a file: the entries that it can read. -/
def rustKeeps (entries : Table Int Json) : Table Int Json :=
  entries.filterMap fun _ j => (ReasoningEntry.fromJson j).map ReasoningEntry.toJson

/-- `upsert_entry` inserts its entry into what the Rust side keeps. -/
theorem upsertEntry_render {L : Json.Layout} (hL : L.OneLine) (h : AuthoredTable entries)
    (e : ReasoningEntry) :
    upsertEntry (some (Json.render L entries.values)) e =
      Json.render .compact ((rustKeeps entries).insert e.key e.toJson).values := by
  have htable : (((entries.filterMap fun _ j => ReasoningEntry.fromJson j).insert e.key e).mapValues
      ReasoningEntry.toJson) = (rustKeeps entries).insert e.key e.toJson := by
    apply Table.ext_get?
    intro k
    by_cases hk : k = e.key
    · simp [Table.get?_mapValues, Table.get?_insert, hk]
    · simp [Table.get?_mapValues, Table.get?_insert, Table.get?_filterMap, rustKeeps, hk,
        Option.map_bind, Function.comp_def]
  have hvalues : ∀ t : Table Int ReasoningEntry,
      t.values.map ReasoningEntry.toJson = (t.mapValues ReasoningEntry.toJson).values := by
    intro t
    simp [Table.values, Table.mapValues]
  simp only [upsertEntry, readEntries_render hL entries.values h.values_obj, byStep_values h, hvalues,
    htable]

theorem loads_print {k : Int} {j : Json} (h : Authored k j) (L : Json.Layout) :
    loads (Json.print L 0 j) = some j := by
  simp [loads, Json.parse_print, Json.rebuild_putDict j h.distinct]

theorem addLine_print {k : Int} {j : Json} (h : Authored k j) (L : Json.Layout)
    (found : Table Int Json) : addLine found (Json.print L 0 j) = some (found.insert k j) := by
  obtain ⟨fields, rfl⟩ := h.obj
  simp [addLine, loads_print h L, h.stepId_eq]

/-- The lines that Python's `splitlines` finds in a file with no separator in it. -/
theorem pyLines_render {L : Json.Layout} (hL : L.OneLine) (js : List Json)
    (hjs : ∀ j ∈ js, ∃ fields, j = .obj fields)
    (hs : ∀ j ∈ js, Json.allChars (fun c => !Lines.isSeparator c) j = true) :
    stripLines Lines.pyStrip (Lines.splitlines (Lines.readText (Json.render L js))) =
      js.map (Json.print L 0) := by
  rw [Json.splitlines_render hL js hs]
  exact stripLines_print Lines.isPySpace rfl rfl L js hjs

/-- Entries in any order make up the dict that `_atomic_upsert` starts from. -/
theorem existingEntries_rows {L : Json.Layout} (hL : L.OneLine) (rows : List (Int × Json))
    (h : ∀ r ∈ rows, Authored r.1 r.2)
    (hs : ∀ r ∈ rows, Json.allChars (fun c => !Lines.isSeparator c) r.2 = true) :
    existingEntries (some (Json.render L (rows.map Prod.snd))) = some (Table.ofRows rows) := by
  have hfold : ∀ (rows : List (Int × Json)) (found : Table Int Json),
      (∀ r ∈ rows, Authored r.1 r.2) →
      ((rows.map Prod.snd).map (Json.print L 0)).foldlM addLine found =
        some (rows.foldl (fun t r => t.insert r.1 r.2) found) := by
    intro rows
    induction rows with
    | nil => intro found _; rfl
    | cons r rows ih =>
      intro found hr
      have ih' := ih (found.insert r.1 r.2) fun r' h' => hr r' (List.mem_cons_of_mem r h')
      simpa [addLine_print (hr r (by simp)) L] using ih'
  have hobj : ∀ j ∈ rows.map Prod.snd, ∃ fields, j = .obj fields :=
    List.forall_mem_map.mpr fun r hr => (h r hr).obj
  have hsep : ∀ j ∈ rows.map Prod.snd, Json.allChars (fun c => !Lines.isSeparator c) j = true :=
    List.forall_mem_map.mpr hs
  rw [existingEntries, Option.getD_some, pyLines_render hL _ hobj hsep]
  exact hfold rows .empty h

theorem existingEntries_render {L : Json.Layout} (hL : L.OneLine) (h : AuthoredTable entries)
    (hs : ∀ j ∈ entries.values, Json.allChars (fun c => !Lines.isSeparator c) j = true) :
    existingEntries (some (Json.render L entries.values)) = some entries := by
  have hrows := existingEntries_rows hL entries.rows (fun r hr => h.mem hr) (List.forall_mem_map.mp hs)
  rwa [Table.ofRows_rows] at hrows

/-- `_atomic_upsert` inserts its entry into the file's entries, provided no
line of the file is cut at a separator. -/
theorem atomicUpsert_render {L : Json.Layout} (hL : L.OneLine) (h : AuthoredTable entries)
    (hs : ∀ j ∈ entries.values, Json.allChars (fun c => !Lines.isSeparator c) j = true)
    (step : StepState) (now : String) :
    atomicUpsert (some (Json.render L entries.values)) step now =
      some (Json.render .spaced (entries.insert step.stepId (buildEntry step now)).values) := by
  simp only [atomicUpsert, existingEntries_render hL h hs, Option.map_some]

theorem AuthoredTable.insert (h : AuthoredTable entries) {k : Int} {j : Json} (hj : Authored k j) :
    AuthoredTable (entries.insert k j) :=
  Table.forall_get?_insert h hj

end Tables

end MemoryArchive.Reasoning
