import MemoryArchive.Ipc.Files
import MemoryArchive.Reasoning.Writers

namespace MemoryArchive.Tui

open Json (Fields)
open Ipc Registry Storage

structure OsInfo where
  osType : String
  osVersion : String
  osArchitecture : String
  osEnvironmentId : String

structure RecordSuspect where
  check : String
  note : String

structure ManifestEntry where
  stepId : UInt32
  timestamp : String
  actionType : String
  actionSubtype : String
  imagePath : Option String
  imageFetched : Bool
  marked : Bool
  beforeImagePath : Option String
  afterImagePath : Option String
  rawCommand : String
  convertedCommand : String
  recordSuspect : Option RecordSuspect

structure ProviderTokenCounts where
  inputTokens : UInt64
  outputTokens : UInt64

/-- All of metadata.json, as ma-core holds it. The counts of the providers are
in the order in which the map gives them. -/
structure MetadataFile where
  memoryName : String
  memoryDescription : String
  sessionId : String
  mode : String
  status : String
  os : OsInfo
  captureServerId : String
  actuationServerId : String
  reasoningModelId : Option String
  maCoreAddr : String
  actuationAgentVersion : String
  actuationTransport : String
  actuationServerVersion : String
  createdAt : String
  completedAt : Option String
  totalSteps : UInt32
  annotatedSteps : UInt32
  skippedSteps : UInt32
  steps : List ManifestEntry
  skippedImageFetches : List (UInt32 × String)
  closingImagePath : Option String
  tenantId : String
  totalInputTokens : UInt64
  totalOutputTokens : UInt64
  tokenCostsByProvider : List (String × ProviderTokenCounts)
  inProgress : Option String
  kafkaPartition : Option Int32
  kafkaOffset : Option Int64
  modelProvider : String
  fallbackModelProvider : String
  fallbackModelEndpoint : String
  captureServerAddr : String
  theEyesAddr : String
  providers_nodup : (tokenCostsByProvider.map Prod.fst).Nodup

def nat (n : Nat) : Json := .num (.ofNat n)

def nullable (value : Option String) : Json := value.elim .null .str

/-- A member that is left out when it has no value. -/
def member (key : String) (value : Option Json) : Fields := value.toList.map (Prod.mk key)

def OsInfo.fields (o : OsInfo) : Fields :=
  [("os_type", .str o.osType), ("os_version", .str o.osVersion),
    ("os_architecture", .str o.osArchitecture), ("os_environment_id", .str o.osEnvironmentId)]

def RecordSuspect.fields (r : RecordSuspect) : Fields := [("check", .str r.check), ("note", .str r.note)]

def ManifestEntry.fields (e : ManifestEntry) : Fields :=
  [("step_id", nat e.stepId.toNat), ("timestamp", .str e.timestamp), ("action_type", .str e.actionType),
    ("action_subtype", .str e.actionSubtype), ("image_path", nullable e.imagePath),
    ("image_fetched", .bool e.imageFetched), ("marked", .bool e.marked)] ++
  member "before_image_path" (e.beforeImagePath.map .str) ++
  member "after_image_path" (e.afterImagePath.map .str) ++
  [("raw_command", .str e.rawCommand), ("converted_command", .str e.convertedCommand)] ++
  member "record_suspect" (e.recordSuspect.map fun r => .obj r.fields)

def skippedFetchFields (s : UInt32 × String) : Fields :=
  [("step_id", nat s.1.toNat), ("reason", .str s.2)]

def ProviderTokenCounts.fields (c : ProviderTokenCounts) : Fields :=
  [("input_tokens", nat c.inputTokens.toNat), ("output_tokens", nat c.outputTokens.toNat)]

namespace MetadataFile

/-- The members in the order of the struct. -/
def fields (m : MetadataFile) : Fields :=
  [("memory_name", .str m.memoryName), ("memory_description", .str m.memoryDescription),
    ("session_id", .str m.sessionId), ("mode", .str m.mode), ("status", .str m.status),
    ("os", .obj m.os.fields), ("capture_server_id", .str m.captureServerId),
    ("actuation_server_id", .str m.actuationServerId),
    ("reasoning_model_id", nullable m.reasoningModelId), ("ma_core_addr", .str m.maCoreAddr),
    ("actuation_agent_version", .str m.actuationAgentVersion),
    ("actuation_transport", .str m.actuationTransport),
    ("actuation_server_version", .str m.actuationServerVersion), ("created_at", .str m.createdAt),
    ("completed_at", nullable m.completedAt), ("total_steps", nat m.totalSteps.toNat),
    ("annotated_steps", nat m.annotatedSteps.toNat), ("skipped_steps", nat m.skippedSteps.toNat),
    ("steps", .arr (m.steps.map fun e => .obj e.fields)),
    ("skipped_image_fetches", .arr (m.skippedImageFetches.map fun s => .obj (skippedFetchFields s)))] ++
  member "closing_image_path" (m.closingImagePath.map .str) ++
  [("tenant_id", .str m.tenantId), ("total_input_tokens", nat m.totalInputTokens.toNat),
    ("total_output_tokens", nat m.totalOutputTokens.toNat),
    ("token_costs_by_provider", .obj (m.tokenCostsByProvider.map fun p => (p.1, .obj p.2.fields)))] ++
  member "in_progress" (m.inProgress.map .str) ++
  member "kafka_partition" (m.kafkaPartition.map fun p => .num (.ofInt p.toInt)) ++
  member "kafka_offset" (m.kafkaOffset.map fun o => .num (.ofInt o.toInt)) ++
  [("model_provider", .str m.modelProvider), ("fallback_model_provider", .str m.fallbackModelProvider),
    ("fallback_model_endpoint", .str m.fallbackModelEndpoint),
    ("capture_server_addr", .str m.captureServerAddr), ("the_eyes_addr", .str m.theEyesAddr)]

/-- `metadata::write`. -/
def write (m : MetadataFile) : ByteArray := encodeUtf8 (Json.print .pretty 0 (.obj m.fields))

end MetadataFile

theorem keys_member (key : String) (value : Option Json) :
    ((member key value).map Prod.fst).Sublist [key] := by
  cases value with
  | none => exact List.nil_sublist [key]
  | some v => exact List.Sublist.refl [key]

theorem keyedFields_append {ok : List String → Prop} {fields fields' : Fields}
    (h : Json.KeyedFields ok fields) (h' : Json.KeyedFields ok fields') :
    Json.KeyedFields ok (fields ++ fields') := by
  induction fields with
  | nil => exact h'
  | cons f fields ih => exact ⟨h.1, ih h.2⟩

theorem keyedFields_member {ok : List String → Prop} (key : String) {value : Option Json}
    (h : ∀ v ∈ value, Json.Keyed ok v) : Json.KeyedFields ok (member key value) := by
  cases value with
  | none => trivial
  | some v => exact ⟨h v rfl, trivial⟩

theorem keyed_nullable {ok : List String → Prop} (value : Option String) :
    Json.Keyed ok (nullable value) := by
  cases value with
  | none => trivial
  | some s => trivial

theorem keyedItems_map {α : Type} {ok : List String → Prop} (f : α → Json) (items : List α)
    (h : ∀ a ∈ items, Json.Keyed ok (f a)) : Json.KeyedItems ok (items.map f) := by
  induction items with
  | nil => trivial
  | cons a items ih => exact ⟨h a (by simp), ih fun b hb => h b (by simp [hb])⟩

theorem keyedFields_map {α : Type} {ok : List String → Prop} (f : α → Json)
    (items : List (String × α)) (h : ∀ p ∈ items, Json.Keyed ok (f p.2)) :
    Json.KeyedFields ok (items.map fun p => (p.1, f p.2)) := by
  induction items with
  | nil => trivial
  | cons p items ih => exact ⟨h p (by simp), ih fun q hq => h q (by simp [hq])⟩

theorem keyed_str {ok : List String → Prop} (value : Option String) :
    ∀ v ∈ value.map Json.str, Json.Keyed ok v := by
  intro v hv
  obtain ⟨s, -, rfl⟩ := Option.map_eq_some_iff.mp hv
  trivial

theorem ManifestEntry.distinct (e : ManifestEntry) : (Json.obj e.fields).Distinct := by
  constructor
  · have hsub : (e.fields.map Prod.fst).Sublist ["step_id", "timestamp", "action_type",
        "action_subtype", "image_path", "image_fetched", "marked", "before_image_path",
        "after_image_path", "raw_command", "converted_command", "record_suspect"] := by
      simp only [fields, List.map_append]
      exact ((((List.Sublist.refl _).append (keys_member _ _)).append (keys_member _ _)).append
        (List.Sublist.refl _)).append (keys_member _ _)
    exact hsub.nodup (by decide)
  · have hsuspect : ∀ v ∈ e.recordSuspect.map fun r => Json.obj r.fields,
        Json.Keyed List.Nodup v := by
      intro v hv
      obtain ⟨r, -, rfl⟩ := Option.map_eq_some_iff.mp hv
      exact ⟨by simp [RecordSuspect.fields], trivial, trivial, trivial⟩
    have hhead : Json.KeyedFields List.Nodup
        [("step_id", nat e.stepId.toNat), ("timestamp", .str e.timestamp),
          ("action_type", .str e.actionType), ("action_subtype", .str e.actionSubtype),
          ("image_path", nullable e.imagePath), ("image_fetched", .bool e.imageFetched),
          ("marked", .bool e.marked)] :=
      ⟨trivial, trivial, trivial, trivial, keyed_nullable e.imagePath, trivial, trivial, trivial⟩
    have htail : Json.KeyedFields List.Nodup
        [("raw_command", .str e.rawCommand), ("converted_command", .str e.convertedCommand)] :=
      ⟨trivial, trivial, trivial⟩
    have hbefore := keyedFields_append hhead (keyedFields_member "before_image_path" (keyed_str e.beforeImagePath))
    have hafter := keyedFields_append hbefore (keyedFields_member "after_image_path" (keyed_str e.afterImagePath))
    exact keyedFields_append (keyedFields_append hafter htail)
      (keyedFields_member "record_suspect" hsuspect)

theorem MetadataFile.distinct (m : MetadataFile) : (Json.obj m.fields).Distinct := by
  constructor
  · have hsub : (m.fields.map Prod.fst).Sublist ["memory_name", "memory_description", "session_id",
        "mode", "status", "os", "capture_server_id", "actuation_server_id", "reasoning_model_id",
        "ma_core_addr", "actuation_agent_version", "actuation_transport", "actuation_server_version",
        "created_at", "completed_at", "total_steps", "annotated_steps", "skipped_steps", "steps",
        "skipped_image_fetches", "closing_image_path", "tenant_id", "total_input_tokens",
        "total_output_tokens", "token_costs_by_provider", "in_progress", "kafka_partition",
        "kafka_offset", "model_provider", "fallback_model_provider", "fallback_model_endpoint",
        "capture_server_addr", "the_eyes_addr"] := by
      simp only [fields, List.map_append]
      exact ((((((List.Sublist.refl _).append (keys_member _ _)).append (List.Sublist.refl _)).append
        (keys_member _ _)).append (keys_member _ _)).append (keys_member _ _)).append
        (List.Sublist.refl _)
    exact hsub.nodup (by decide)
  · have hos : Json.Keyed List.Nodup (.obj m.os.fields) :=
      ⟨by simp [OsInfo.fields], trivial, trivial, trivial, trivial, trivial⟩
    have hsteps : Json.KeyedItems List.Nodup (m.steps.map fun e => .obj e.fields) :=
      keyedItems_map _ _ fun e _ => e.distinct
    have hskipped : Json.KeyedItems List.Nodup
        (m.skippedImageFetches.map fun s => .obj (skippedFetchFields s)) :=
      keyedItems_map _ _ fun s _ => ⟨by simp [skippedFetchFields], trivial, trivial, trivial⟩
    have hproviders : Json.KeyedFields List.Nodup
        (m.tokenCostsByProvider.map fun p => (p.1, .obj p.2.fields)) :=
      keyedFields_map (fun c : ProviderTokenCounts => .obj c.fields) _ fun p _ =>
        ⟨by simp [ProviderTokenCounts.fields], trivial, trivial, trivial⟩
    have hcosts : ((m.tokenCostsByProvider.map fun p => (p.1, Json.obj p.2.fields)).map
        Prod.fst).Nodup := by
      rw [List.map_map]
      exact m.providers_nodup
    have hhead : Json.KeyedFields List.Nodup (m.fields.take 20) :=
      ⟨trivial, trivial, trivial, trivial, trivial, hos, trivial, trivial,
        keyed_nullable m.reasoningModelId, trivial, trivial, trivial, trivial, trivial,
        keyed_nullable m.completedAt, trivial, trivial, trivial, hsteps, hskipped, trivial⟩
    have hmid : Json.KeyedFields List.Nodup
        [("tenant_id", .str m.tenantId), ("total_input_tokens", nat m.totalInputTokens.toNat),
          ("total_output_tokens", nat m.totalOutputTokens.toNat), ("token_costs_by_provider",
            .obj (m.tokenCostsByProvider.map fun p => (p.1, .obj p.2.fields)))] :=
      ⟨trivial, trivial, trivial, ⟨hcosts, hproviders⟩, trivial⟩
    have hpart : ∀ v ∈ m.kafkaPartition.map fun p => Json.num (.ofInt p.toInt),
        Json.Keyed List.Nodup v := by
      intro v hv
      obtain ⟨p, -, rfl⟩ := Option.map_eq_some_iff.mp hv
      trivial
    have hoffset : ∀ v ∈ m.kafkaOffset.map fun o => Json.num (.ofInt o.toInt),
        Json.Keyed List.Nodup v := by
      intro v hv
      obtain ⟨o, -, rfl⟩ := Option.map_eq_some_iff.mp hv
      trivial
    have h := keyedFields_append hhead (keyedFields_member "closing_image_path" (keyed_str m.closingImagePath))
    have h := keyedFields_append h hmid
    have h := keyedFields_append h (keyedFields_member "in_progress" (keyed_str m.inProgress))
    have h := keyedFields_append h (keyedFields_member "kafka_partition" hpart)
    have h := keyedFields_append h (keyedFields_member "kafka_offset" hoffset)
    exact keyedFields_append h ⟨trivial, trivial, trivial, trivial, trivial, trivial⟩

/-- `json.dumps` with its indent, and a newline after it. -/
def dumps (fields : Fields) : List Char := Json.print .pretty 0 (.obj fields) ++ ['\n']

def setCounters (annotated skipped : Int) (fields : Fields) : Fields :=
  Json.putDict "skipped_steps" (.num (.ofInt skipped))
    (Json.putDict "annotated_steps" (.num (.ofInt annotated)) fields)

/-- `_update_metadata_counters`: what it writes to metadata.json. -/
def updateMetadataCounters (annotated skipped : Int) (file : ByteArray) : Option ByteArray :=
  match (decodeUtf8 file).bind Reasoning.loads with
  | some (.obj fields) => some (encodeUtf8 (dumps (setCounters annotated skipped fields)))
  | _ => none

/-- The file on the annotator's machine after updates of the counters, one
after the other. An update that fails leaves the file as it was. -/
def localFile (file : ByteArray) (updates : List (Int × Int)) : ByteArray :=
  updates.foldl (fun file u => (updateMetadataCounters u.1 u.2 file).getD file) file

/-- `RemoteFetcher.upload` of the file that has been written. -/
def remoteUpload (sessionId : String) (file : ByteArray) : Upload :=
  ⟨sessionId, "metadata.json", file, "application/json"⟩

/-- A file that is the text of an object without repeated keys. -/
def Contains (file : ByteArray) (fields : Fields) : Prop :=
  (Json.obj fields).Distinct ∧ (decodeUtf8 file).bind Json.parse = some (.obj fields)

theorem contains_write (m : MetadataFile) : Contains m.write m.fields := by
  refine ⟨m.distinct, ?_⟩
  rw [MetadataFile.write, decodeUtf8_encode, Option.bind_some]
  exact Json.parse_print .pretty 0 (.obj m.fields)

theorem contains_dumps {fields : Fields} (h : (Json.obj fields).Distinct) :
    Contains (encodeUtf8 (dumps fields)) fields := by
  refine ⟨h, ?_⟩
  have hnewline : ∀ c ∈ ['\n'], Json.isBlank c = true := by decide
  rw [decodeUtf8_encode, Option.bind_some, dumps]
  exact Json.parse_of_lexes (Json.lexes_blanks (Json.lexes_print .pretty 0 (.obj fields)) hnewline)

theorem distinct_setCounters (annotated skipped : Int) {fields : Fields}
    (h : (Json.obj fields).Distinct) : (Json.obj (setCounters annotated skipped fields)).Distinct := by
  apply Json.distinct_putDict
  · trivial
  · apply Json.distinct_putDict
    · trivial
    · exact h

theorem lookup_setCounters (annotated skipped : Int) (fields : Fields) {key : String}
    (hkey : key ∉ counters) : (setCounters annotated skipped fields).lookup key = fields.lookup key := by
  have hskipped : key ≠ "skipped_steps" := fun h => hkey (by simp [h, counters])
  have hannotated : key ≠ "annotated_steps" := fun h => hkey (by simp [h, counters])
  rw [setCounters, Json.lookup_putDict, if_neg hskipped, Json.lookup_putDict, if_neg hannotated]

theorem loads_contains {file : ByteArray} {fields : Fields} (h : Contains file fields) :
    (decodeUtf8 file).bind Reasoning.loads = some (.obj fields) := by
  obtain ⟨text, htext, hparse⟩ := Option.bind_eq_some_iff.mp h.2
  rw [htext, Option.bind_some, Reasoning.loads, hparse, Option.map_some, Json.rebuild_putDict _ h.1]

/-- An update keeps every member but the counters. -/
theorem update_contains (annotated skipped : Int) {file : ByteArray} {fields : Fields}
    (h : Contains file fields) :
    ∃ file', updateMetadataCounters annotated skipped file = some file' ∧
      Contains file' (setCounters annotated skipped fields) := by
  refine ⟨encodeUtf8 (dumps (setCounters annotated skipped fields)), ?_, ?_⟩
  · rw [updateMetadataCounters, loads_contains h]
  · exact contains_dumps (distinct_setCounters annotated skipped h.1)

theorem localFile_contains (updates : List (Int × Int)) {file : ByteArray} {fields : Fields}
    (h : Contains file fields) :
    ∃ fields', Contains (localFile file updates) fields' ∧
      ∀ key, key ∉ counters → fields'.lookup key = fields.lookup key := by
  induction updates generalizing file fields with
  | nil => exact ⟨fields, h, fun _ _ => rfl⟩
  | cons u updates ih =>
    obtain ⟨file', hfile, h'⟩ := update_contains u.1 u.2 h
    obtain ⟨fields', hlast, hkeep⟩ := ih h'
    refine ⟨fields', ?_, fun key hkey => ?_⟩
    · rw [localFile, List.foldl_cons, hfile]
      exact hlast
    · rw [hkeep key hkey, lookup_setCounters u.1 u.2 fields hkey]

section Handler

variable (serdeError : List Char → String)

/-- The handler takes the upload, and the metadata.json that the server has
then gives the counters of the client. -/
def CountersShared (s : Server) (fault : Option String) (u : Upload) (annotated skipped : Int) : Prop :=
  (uploadFile serdeError s fault u).2 = .fileUploaded u.sessionId u.relativePath ∧
    ∃ record loc stored, s.redis.get u.sessionId = .ok record ∧
      s.location record u.sessionId u.relativePath = .ok loc ∧
      (uploadFile serdeError s fault u).1.object loc = some stored ∧
      stored.lookup "annotated_steps" = some (.num (.ofInt annotated)) ∧
      stored.lookup "skipped_steps" = some (.num (.ofInt skipped))

theorem mapFromStr_contains {text : List Char} {fields : Fields} (h : Json.parse text = some (.obj fields)) :
    mapFromStr text = some (Json.rebuildFields Json.putSorted [] fields) := by
  rw [mapFromStr, h]
  rfl

/-- The check refuses a body that has a status. -/
theorem enforce_status {file : ByteArray} {fields : Fields} (h : Contains file fields)
    (hstatus : (fields.lookup "status").isSome) :
    enforceMetadataAnnotatorFields serdeError file =
      .error ("Annotators may not update the 'status' field in metadata.json. " ++
        "Status transitions are controlled by ma-core.") := by
  obtain ⟨text, htext, hparse⟩ := Option.bind_eq_some_iff.mp h.2
  have hsome : ((Json.rebuildFields Json.putSorted [] fields).lookup "status").isSome := by
    rw [Json.lookup_rebuildFields_distinct .nil h.1.1, List.lookup_nil, Option.or_none, Option.isSome_map]
    exact hstatus
  rw [enforceMetadataAnnotatorFields, htext]
  dsimp only
  rw [mapFromStr_contains hparse]
  dsimp only
  rw [if_pos hsome]

theorem writeBytes_metadata (sessionId : String) (file : ByteArray) :
    (remoteUpload sessionId file).writeBytes serdeError =
      (enforceMetadataAnnotatorFields serdeError file).mapError fun e =>
        s!"metadata.json parse error: {e}" := by
  have hne : "metadata.json" ≠ allowedReasoning := by decide
  rw [Upload.writeBytes, remoteUpload, if_neg hne]

theorem upload_status (s : Server) (fault : Option String) (sessionId : String) {file : ByteArray}
    {fields : Fields} (h : Contains file fields) (hstatus : (fields.lookup "status").isSome) :
    ∃ code message,
      (uploadFile serdeError s fault (remoteUpload sessionId file)).2 = .error code message := by
  unfold uploadFile
  split
  · exact ⟨_, _, rfl⟩
  split
  · exact ⟨_, _, rfl⟩
  · rw [writeBytes_metadata, enforce_status serdeError h hstatus]
    exact ⟨_, _, rfl⟩

/-- The object of the two counters, as the check writes it. -/
def counterFields (annotated skipped : Int) : Fields :=
  [("annotated_steps", .num (.ofInt annotated)), ("skipped_steps", .num (.ofInt skipped))]

/-- No update of the counters is ever shared: ma-core's metadata.json has a
status, the body has it too, and the handler refuses it. -/
theorem counters_never_shared (s : Server) (fault : Option String) (m : MetadataFile)
    (sessionId : String) (updates : List (Int × Int)) (annotated skipped : Int) :
    ∃ file, updateMetadataCounters annotated skipped (localFile m.write updates) = some file ∧
      (uploadFile serdeError s fault (remoteUpload sessionId file)).1 = s ∧
      ¬ CountersShared serdeError s fault (remoteUpload sessionId file) annotated skipped := by
  obtain ⟨fields, hfields, hkeep⟩ := localFile_contains updates (contains_write m)
  obtain ⟨file, hfile, hcontains⟩ := update_contains annotated skipped hfields
  have hstatus : ((setCounters annotated skipped fields).lookup "status").isSome := by
    rw [lookup_setCounters annotated skipped fields (by decide), hkeep "status" (by decide)]
    rfl
  obtain ⟨code, message, hrefused⟩ := upload_status serdeError s fault sessionId hcontains hstatus
  refine ⟨file, hfile, uploadFile_refused serdeError s fault _ code message hrefused, fun hshared => ?_⟩
  have haccepted := hshared.1
  rw [hrefused] at haccepted
  cases haccepted

end Handler

/-- The metadata of a session with two steps that has been captured. -/
def capturedMetadata : MetadataFile where
  memoryName := "demo"
  memoryDescription := ""
  sessionId := "s1"
  mode := "manual"
  status := "complete"
  os := ⟨"LINUX", "Ubuntu 24.04 LTS", "x86_64", "env-1"⟩
  captureServerId := "eyes-1"
  actuationServerId := "cc-1"
  reasoningModelId := none
  maCoreAddr := ""
  actuationAgentVersion := "1.2.2"
  actuationTransport := "tls"
  actuationServerVersion := "1.2.2"
  createdAt := "2026-01-01T00:00:00Z"
  completedAt := some "2026-01-01T00:10:00Z"
  totalSteps := 2
  annotatedSteps := 0
  skippedSteps := 0
  steps := []
  skippedImageFetches := [(1, "command failed"), (2, "command failed")]
  closingImagePath := none
  tenantId := "acme"
  totalInputTokens := 0
  totalOutputTokens := 0
  tokenCostsByProvider := []
  inProgress := none
  kafkaPartition := none
  kafkaOffset := none
  modelProvider := ""
  fallbackModelProvider := ""
  fallbackModelEndpoint := ""
  captureServerAddr := ""
  theEyesAddr := ""
  providers_nodup := List.nodup_nil

/-- The first step is annotated, and the server refuses to hear of it. -/
theorem counters_refused :
    ∃ file, updateMetadataCounters 1 0 capturedMetadata.write = some file ∧
      ¬ CountersShared (fun _ => "expected value") (sampleServer capturedMetadata.fields) none
        (remoteUpload "s1" file) 1 0 := by
  obtain ⟨file, hfile, hcontains⟩ := update_contains 1 0 (contains_write capturedMetadata)
  have hstatus : ((setCounters 1 0 capturedMetadata.fields).lookup "status").isSome := by decide
  obtain ⟨code, message, hrefused⟩ := upload_status (fun _ => "expected value")
    (sampleServer capturedMetadata.fields) none "s1" hcontains hstatus
  refine ⟨file, hfile, fun hshared => ?_⟩
  have haccepted := hshared.1
  rw [hrefused] at haccepted
  cases haccepted

end MemoryArchive.Tui
