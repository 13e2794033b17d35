import MemoryArchive.Json.Parser

namespace MemoryArchive.Reasoning

open Json (Fields)

/-- What a present `serde_json::Value` holds: an object lists its members in
key order, and a null is read as an absent value. -/
structure Value where
  json : Json
  sorted : json.Sorted
  present : json ≠ .null

/-- One line of reasoning.jsonl as the Rust side writes it. A confidence is a
finite float, kept as the literal it is printed as. -/
structure ReasoningEntry where
  stepId : UInt32
  timestampAction : String
  timestampAnnotated : String
  actionType : String
  actionSubtype : String
  rawCommand : String
  convertedCommand : String
  imagePath : Option String
  reasoning : String
  skipped : Bool
  source : String
  provider : Option String
  modelId : Option String
  apiVersion : Option String
  inputTokens : Option UInt32
  outputTokens : Option UInt32
  latencyMs : Option UInt32
  actionIntent : Option String
  confidence : Option Json.Number
  keyboardVisualAnnotation : Option Value

def natural (n : UInt32) : Json := .num (.ofNat n.toNat)

/-- A member that is written only when it has a value. -/
def member (key : String) (v : Option Json) : Fields := v.toList.map fun j => (key, j)

def ReasoningEntry.fields (e : ReasoningEntry) : Fields :=
  [("step_id", natural e.stepId), ("timestamp_action", .str e.timestampAction),
    ("timestamp_annotated", .str e.timestampAnnotated), ("action_type", .str e.actionType),
    ("action_subtype", .str e.actionSubtype), ("raw_command", .str e.rawCommand),
    ("converted_command", .str e.convertedCommand)] ++
  member "image_path" (e.imagePath.map .str) ++
  [("reasoning", .str e.reasoning), ("skipped", .bool e.skipped), ("source", .str e.source)] ++
  member "provider" (e.provider.map .str) ++ member "model_id" (e.modelId.map .str) ++
  member "api_version" (e.apiVersion.map .str) ++
  member "input_tokens" (e.inputTokens.map natural) ++
  member "output_tokens" (e.outputTokens.map natural) ++
  member "latency_ms" (e.latencyMs.map natural) ++
  member "action_intent" (e.actionIntent.map .str) ++
  member "confidence" (e.confidence.map .num) ++
  member "keyboard_visual_annotation" (e.keyboardVisualAnnotation.map Value.json)

def ReasoningEntry.toJson (e : ReasoningEntry) : Json := .obj e.fields

def asString : Json → Option String
  | .str s => some s
  | _ => none

def asBool : Json → Option Bool
  | .bool b => some b
  | _ => none

def asU32 : Json → Option UInt32
  | .num n => n.toNat?.bind fun v => if v < 2 ^ 32 then some (UInt32.ofNat v) else none
  | _ => none

def asF32 : Json → Option Json.Number
  | .num n => some n
  | _ => none

theorem rebuild_ne_null {j : Json} (h : j ≠ .null) : j.rebuild Json.putSorted ≠ .null := by
  cases j <;> simp_all [Json.rebuild]

def asValue (j : Json) : Option Value :=
  match j with
  | .null => none
  | .bool b => some ⟨.bool b, by simp [Json.Keyed], by simp⟩
  | .num n => some ⟨.num n, by simp [Json.Keyed], by simp⟩
  | .str s => some ⟨.str s, by simp [Json.Keyed], by simp⟩
  | .arr items => some ⟨_, Json.sorted_rebuild (.arr items), rebuild_ne_null (by simp)⟩
  | .obj fields => some ⟨_, Json.sorted_rebuild (.obj fields), rebuild_ne_null (by simp)⟩

/-- The values of a member, one for each time the object names it. -/
def occurrences (key : String) (fields : Fields) : List Json :=
  (fields.filter (·.1 = key)).map Prod.snd

/-- A field of a struct: it must be there, and once. -/
def required {α : Type} (read : Json → Option α) : List Json → Option α
  | [j] => read j
  | _ => none

/-- An optional field of a struct: absent or null stands for no value. -/
def optional {α : Type} (read : Json → Option α) : List Json → Option (Option α)
  | [] => some none
  | [.null] => some none
  | [j] => (read j).map some
  | _ => none

/-- The derived deserialiser: unknown members are passed over, a missing or
repeated field or one of the wrong type is an error. -/
def ReasoningEntry.fromJson : Json → Option ReasoningEntry
  | .obj fs => do
      return {
        stepId := ← required asU32 (occurrences "step_id" fs)
        timestampAction := ← required asString (occurrences "timestamp_action" fs)
        timestampAnnotated := ← required asString (occurrences "timestamp_annotated" fs)
        actionType := ← required asString (occurrences "action_type" fs)
        actionSubtype := ← required asString (occurrences "action_subtype" fs)
        rawCommand := ← required asString (occurrences "raw_command" fs)
        convertedCommand := ← required asString (occurrences "converted_command" fs)
        imagePath := ← optional asString (occurrences "image_path" fs)
        reasoning := ← required asString (occurrences "reasoning" fs)
        skipped := ← required asBool (occurrences "skipped" fs)
        source := ← required asString (occurrences "source" fs)
        provider := ← optional asString (occurrences "provider" fs)
        modelId := ← optional asString (occurrences "model_id" fs)
        apiVersion := ← optional asString (occurrences "api_version" fs)
        inputTokens := ← optional asU32 (occurrences "input_tokens" fs)
        outputTokens := ← optional asU32 (occurrences "output_tokens" fs)
        latencyMs := ← optional asU32 (occurrences "latency_ms" fs)
        actionIntent := ← optional asString (occurrences "action_intent" fs)
        confidence := ← optional asF32 (occurrences "confidence" fs)
        keyboardVisualAnnotation := ← optional asValue (occurrences "keyboard_visual_annotation" fs) }
  | _ => none

@[simp] theorem occurrences_nil (key : String) : occurrences key [] = [] := rfl

@[simp] theorem occurrences_cons (key k : String) (v : Json) (fs : Fields) :
    occurrences key ((k, v) :: fs) = if k = key then v :: occurrences key fs else occurrences key fs := by
  by_cases h : k = key <;> simp [occurrences, h]

@[simp] theorem occurrences_append (key : String) (fs gs : Fields) :
    occurrences key (fs ++ gs) = occurrences key fs ++ occurrences key gs := by
  simp [occurrences]

@[simp] theorem occurrences_member (key k : String) (v : Option Json) :
    occurrences key (member k v) = if k = key then v.toList else [] := by
  by_cases h : k = key <;> cases v <;> simp [occurrences, member, h]

@[simp] theorem asU32_natural (n : UInt32) : asU32 (natural n) = some n := by
  simp [asU32, natural, Json.toNat?_ofNat, n.toNat_lt]

@[simp] theorem asValue_json (v : Value) : asValue v.json = some v := by
  obtain ⟨j, hs, hp⟩ := v
  cases j with
  | null => exact absurd rfl hp
  | arr items => simp [asValue, Json.rebuild_putSorted _ hs]
  | obj fields => simp [asValue, Json.rebuild_putSorted _ hs]
  | _ => rfl

/-- A value that is written when present is read back, present or not. -/
theorem optional_toList {α : Type} (read : Json → Option α) (write : α → Json) (v : Option α)
    (hread : ∀ a, read (write a) = some a) (hnull : ∀ a, write a ≠ .null) :
    optional read ((v.map write).toList) = some v := by
  cases v with
  | none => rfl
  | some a =>
    have hn := hnull a
    have hr := hread a
    simp only [Option.map_some, Option.toList_some]
    cases hw : write a with
    | null => exact absurd hw hn
    | _ => rw [hw] at hr; simp [optional, hr]

/-- The Rust side reads every entry it writes. -/
theorem fromJson_toJson (e : ReasoningEntry) : ReasoningEntry.fromJson e.toJson = some e := by
  have hs : ∀ v : Option String, optional asString ((v.map Json.str).toList) = some v :=
    fun v => optional_toList asString .str v (fun _ => rfl) (by simp)
  have hu : ∀ v : Option UInt32, optional asU32 ((v.map natural).toList) = some v :=
    fun v => optional_toList asU32 natural v asU32_natural (by simp [natural])
  have hf : ∀ v : Option Json.Number, optional asF32 ((v.map Json.num).toList) = some v :=
    fun v => optional_toList asF32 .num v (fun _ => rfl) (by simp)
  have hv : ∀ v : Option Value, optional asValue ((v.map Value.json).toList) = some v :=
    fun v => optional_toList asValue Value.json v asValue_json Value.present
  simp [ReasoningEntry.toJson, ReasoningEntry.fields, ReasoningEntry.fromJson, required, asString,
    asBool, hs, hu, hf, hv]

end MemoryArchive.Reasoning
