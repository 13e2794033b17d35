import MemoryArchive.Data.Table
import MemoryArchive.Json.Number
import MemoryArchive.Registry.Redis

namespace MemoryArchive.Registry.Hash

section Spellings

/-- serde's `rename_all = "snake_case"`, applied to the name of a variant. -/
def snakeCase (variant : String) : String :=
  String.ofList (variant.toList.zipIdx.flatMap fun (c, i) =>
    if 0 < i ∧ c.isUpper then ['_', c.toLower] else [c.toLower])

def statuses : List SessionStatus :=
  [.active, SessionStatus.pendingAnnotation, SessionStatus.pendingHumanAnnotation, .annotating,
    SessionStatus.pendingCompilation, .reasoningDegraded, .complete, .incomplete]

def variant : SessionStatus → String
  | .active => "Active"
  | SessionStatus.pendingAnnotation => "PendingAnnotation"
  | SessionStatus.pendingHumanAnnotation => "PendingHumanAnnotation"
  | .annotating => "Annotating"
  | .pendingCompilation => "PendingCompilation"
  | .reasoningDegraded => "ReasoningDegraded"
  | .complete => "Complete"
  | .incomplete => "Incomplete"

/-- What serde says of a name that is none of the variants. -/
def unknownVariant (text : String) : String :=
  s!"unknown variant `{text}`, expected one of " ++
    ", ".intercalate (statuses.map fun status => "`" ++ snakeCase (variant status) ++ "`")

def displayStatus (status : SessionStatus) : String := snakeCase (variant status)

def parseStatus (text : String) : Except String SessionStatus :=
  match statuses.find? fun status => snakeCase (variant status) = text with
  | some status => .ok status
  | none => .error s!"Unknown session status '{text}': {unknownVariant text}"

def displayMode : SessionMode → String
  | .manual => "manual"
  | .automated => "automated"

def parseMode (text : String) : Except String SessionMode :=
  if text = "manual" then .ok .manual
  else if text = "automated" then .ok .automated
  else .error s!"Unknown session mode '{text}' — expected 'manual' or 'automated'"

/-- One more digit of a number that has to fit into 32 bits. -/
def nextDigit (n : Nat) (c : Char) : Except String Nat :=
  if c.isDigit then
    if n * 10 + (c.toNat - '0'.toNat) < 2 ^ 32 then .ok (n * 10 + (c.toNat - '0'.toNat))
    else .error "number too large to fit in target type"
  else .error "invalid digit found in string"

/-- `u32::from_str`, which takes a plus sign before the digits. -/
def parseU32 (text : String) : Except String UInt32 :=
  match text.toList with
  | [] => .error "cannot parse integer from empty string"
  | ['+'] => .error "invalid digit found in string"
  | '+' :: cs => (cs.foldlM nextDigit 0).map UInt32.ofNat
  | cs => (cs.foldlM nextDigit 0).map UInt32.ofNat

def displayU32 (n : UInt32) : String := String.ofList (Json.digits n.toNat)

end Spellings

/-- chrono's text of a time and its parser. -/
structure Chrono (Time : Type) where
  toRfc3339 : Time → String
  parse : String → Except String Time

def Chrono.Inverse {Time : Type} (chrono : Chrono Time) : Prop :=
  ∀ time, chrono.parse (chrono.toRfc3339 time) = .ok time

/-- All of a session record. -/
structure StoredRecord (Time : Type) where
  sessionId : String
  mode : SessionMode
  status : SessionStatus
  osType : String
  osVersion : String
  osArchitecture : String
  osEnvironmentId : String
  captureServerId : String
  actuationServerId : String
  reasoningModelId : Option String
  memoryName : String
  memoryPath : String
  maCoreAddr : String
  createdAt : Time
  updatedAt : Time
  totalSteps : UInt32
  annotatedSteps : UInt32
  skippedSteps : UInt32
  tenantId : String
  modelProvider : String
  modelEndpoint : String
  modelApiKeyRef : String
  contextWindowSteps : UInt32
  fallbackModelProvider : String
  fallbackModelEndpoint : String
  fallbackApiKeyRef : String
  storageBackend : String
  captureServerAddr : String
  theEyesAddr : String
  deriving DecidableEq

/-- The fields of a hash with their values. -/
abbrev Fields := List (String × String)

def put (key value : String) : Fields → Fields
  | [] => [(key, value)]
  | (k, v) :: hash => if k = key then (key, value) :: hash else (k, v) :: put key value hash

/-- `HSET` -/
def hset (hash pairs : Fields) : Fields := pairs.foldl (fun hash p => put p.1 p.2 hash) hash

section Schema

variable {Time : Type} (chrono : Chrono Time)

def StoredRecord.toRedisPairs (r : StoredRecord Time) : Fields :=
  [("session_id", r.sessionId), ("mode", displayMode r.mode), ("status", displayStatus r.status),
    ("os_type", r.osType), ("os_version", r.osVersion), ("os_architecture", r.osArchitecture),
    ("os_environment_id", r.osEnvironmentId), ("capture_server_id", r.captureServerId),
    ("actuation_server_id", r.actuationServerId), ("memory_name", r.memoryName),
    ("memory_path", r.memoryPath), ("ma_core_addr", r.maCoreAddr),
    ("created_at", chrono.toRfc3339 r.createdAt), ("updated_at", chrono.toRfc3339 r.updatedAt),
    ("total_steps", displayU32 r.totalSteps), ("annotated_steps", displayU32 r.annotatedSteps),
    ("skipped_steps", displayU32 r.skippedSteps), ("tenant_id", r.tenantId),
    ("model_provider", r.modelProvider), ("model_endpoint", r.modelEndpoint),
    ("model_api_key_ref", r.modelApiKeyRef), ("context_window_steps", displayU32 r.contextWindowSteps),
    ("fallback_model_provider", r.fallbackModelProvider),
    ("fallback_model_endpoint", r.fallbackModelEndpoint), ("fallback_api_key_ref", r.fallbackApiKeyRef),
    ("storage_backend", r.storageBackend), ("capture_server_addr", r.captureServerAddr),
    ("the_eyes_addr", r.theEyesAddr)] ++
  (r.reasoningModelId.map fun modelId => ("reasoning_model_id", modelId)).toList

def getField (hash : Fields) (key : String) : Except String String :=
  match hash.lookup key with
  | some value => .ok value
  | none => .error s!"Missing Redis field: '{key}'"

/-- A field that is empty when it is missing. -/
def getOrDefault (hash : Fields) (key : String) : String := (hash.lookup key).getD ""

def contextWindow (hash : Fields) : UInt32 :=
  ((hash.lookup "context_window_steps").bind fun text => (parseU32 text).toOption).getD 5

def fromRedisMap (hash : Fields) : Except String (StoredRecord Time) := do
  let sessionId ← getField hash "session_id"
  let mode ← parseMode (← getField hash "mode")
  let status ← parseStatus (← getField hash "status")
  let osType ← getField hash "os_type"
  let osVersion ← getField hash "os_version"
  let osArchitecture ← getField hash "os_architecture"
  let osEnvironmentId ← getField hash "os_environment_id"
  let captureServerId ← getField hash "capture_server_id"
  let actuationServerId ← getField hash "actuation_server_id"
  let memoryName ← getField hash "memory_name"
  let memoryPath ← getField hash "memory_path"
  let createdAt ← chrono.parse (← getField hash "created_at")
  let updatedAt ← chrono.parse (← getField hash "updated_at")
  let totalSteps ← parseU32 (← getField hash "total_steps")
  let annotatedSteps ← parseU32 (← getField hash "annotated_steps")
  let skippedSteps ← parseU32 (← getField hash "skipped_steps")
  .ok {
    sessionId, mode, status, osType, osVersion, osArchitecture, osEnvironmentId, captureServerId
    actuationServerId, memoryName, memoryPath, createdAt, updatedAt, totalSteps, annotatedSteps
    skippedSteps
    reasoningModelId := hash.lookup "reasoning_model_id"
    maCoreAddr := getOrDefault hash "ma_core_addr"
    tenantId := getOrDefault hash "tenant_id"
    modelProvider := getOrDefault hash "model_provider"
    modelEndpoint := getOrDefault hash "model_endpoint"
    modelApiKeyRef := getOrDefault hash "model_api_key_ref"
    contextWindowSteps := contextWindow hash
    fallbackModelProvider := getOrDefault hash "fallback_model_provider"
    fallbackModelEndpoint := getOrDefault hash "fallback_model_endpoint"
    fallbackApiKeyRef := getOrDefault hash "fallback_api_key_ref"
    storageBackend := getOrDefault hash "storage_backend"
    captureServerAddr := getOrDefault hash "capture_server_addr"
    theEyesAddr := getOrDefault hash "the_eyes_addr" }

/-- The record that the reply to `HGETALL` holds. -/
def get (sessionId : String) (hash : Fields) : Except String (StoredRecord Time) :=
  if hash = [] then .error s!"Session '{sessionId}' not found in registry"
  else
    match fromRedisMap chrono hash with
    | .ok r => .ok r
    | .error _ => .error "Failed to deserialise session record from Redis"

/-- A write of single fields, at a time. -/
inductive Update (Time : Type)
  | status (new : SessionStatus) (now : Time)
  | annotationCounters (annotated skipped : UInt32) (now : Time)
  | memoryPath (path : String) (now : Time)

def updateStatus (new : SessionStatus) (now : Time) (hash : Fields) : Fields :=
  hset hash [("status", displayStatus new), ("updated_at", chrono.toRfc3339 now)]

def updateAnnotationCounters (annotated skipped : UInt32) (now : Time) (hash : Fields) : Fields :=
  hset hash [("annotated_steps", displayU32 annotated), ("skipped_steps", displayU32 skipped),
    ("updated_at", chrono.toRfc3339 now)]

def updateMemoryPath (path : String) (now : Time) (hash : Fields) : Fields :=
  hset hash [("memory_path", path), ("updated_at", chrono.toRfc3339 now)]

def Update.write (u : Update Time) (hash : Fields) : Fields :=
  match u with
  | .status new now => updateStatus chrono new now hash
  | .annotationCounters annotated skipped now => updateAnnotationCounters chrono annotated skipped now hash
  | .memoryPath path now => updateMemoryPath chrono path now hash

/-- The record with the fields of the write changed, and no others. -/
def Update.revise (r : StoredRecord Time) : Update Time → StoredRecord Time
  | .status new now => { r with status := new, updatedAt := now }
  | .annotationCounters annotated skipped now =>
      { r with annotatedSteps := annotated, skippedSteps := skipped, updatedAt := now }
  | .memoryPath path now => { r with memoryPath := path, updatedAt := now }

/-- What the handlers read of a record. -/
def StoredRecord.summary (r : StoredRecord Time) : SessionRecord :=
  { sessionId := r.sessionId
    mode := r.mode
    status := r.status
    memoryName := r.memoryName
    memoryPath := r.memoryPath
    createdAt := chrono.toRfc3339 r.createdAt
    totalSteps := r.totalSteps
    annotatedSteps := r.annotatedSteps
    skippedSteps := r.skippedSteps
    tenantId := r.tenantId
    storageBackend := r.storageBackend }

def entry (hash : Fields) : Entry :=
  if hash = [] then .absent
  else
    match fromRedisMap chrono hash with
    | .ok r => .record (r.summary chrono)
    | .error _ => .fragment ((hash.lookup "status").bind fun text => (parseStatus text).toOption)

def Update.onEntry (u : Update Time) (e : Entry) : Entry :=
  match u with
  | .status new _ => e.setStatus new
  | .annotationCounters annotated skipped _ => e.setCounters annotated skipped
  | .memoryPath path _ => e.setMemoryPath path

end Schema

theorem parse_displayStatus (status : SessionStatus) : parseStatus (displayStatus status) = .ok status := by
  cases status <;> rfl

theorem parse_displayMode (mode : SessionMode) : parseMode (displayMode mode) = .ok mode := by
  cases mode <;> rfl

section Numbers

theorem le_ofDigitChars (cs : List Char) (n : Nat) : n ≤ Nat.ofDigitChars 10 cs n := by
  induction cs generalizing n with
  | nil => exact Nat.le_refl n
  | cons c cs ih =>
    rw [Nat.ofDigitChars_cons]
    refine Nat.le_trans ?_ (ih _)
    omega

/-- Digits that stay below the bound are read to their end. -/
theorem foldlM_nextDigit (cs : List Char) (n : Nat) (hdigits : ∀ c ∈ cs, c.isDigit = true)
    (hfits : Nat.ofDigitChars 10 cs n < 2 ^ 32) :
    cs.foldlM nextDigit n = .ok (Nat.ofDigitChars 10 cs n) := by
  induction cs generalizing n with
  | nil => rfl
  | cons c cs ih =>
    obtain ⟨hc, hcs⟩ := List.forall_mem_cons.mp hdigits
    rw [Nat.ofDigitChars_cons, Nat.mul_comm] at hfits ⊢
    have hnext : nextDigit n c = .ok (n * 10 + (c.toNat - '0'.toNat)) := by
      rw [nextDigit, if_pos hc, if_pos (Nat.lt_of_le_of_lt (le_ofDigitChars cs _) hfits)]
    rw [List.foldlM_cons, hnext]
    exact ih _ hcs hfits

theorem parse_displayU32 (n : UInt32) : parseU32 (displayU32 n) = .ok n := by
  have hdigits := Json.digits_isDigit n.toNat
  have hvalue : Nat.ofDigitChars 10 (Json.digits n.toNat) 0 = n.toNat := Json.digitsValue_digits n.toNat
  have hplus : ∀ cs, Json.digits n.toNat ≠ '+' :: cs := by
    intro cs hcs
    have hdigit := hdigits '+' (hcs ▸ List.mem_cons_self)
    exact absurd hdigit (by decide)
  have hread : (Json.digits n.toNat).foldlM nextDigit 0 = .ok n.toNat := by
    rw [foldlM_nextDigit _ 0 hdigits (by rw [hvalue]; exact n.toNat_lt), hvalue]
  rw [parseU32, displayU32, String.toList_ofList]
  split
  · rename_i hnil
    exact absurd hnil Nat.toDigits_ne_nil
  · rename_i hcs
    exact absurd hcs (hplus [])
  · rename_i cs _ hcs
    exact absurd hcs (hplus cs)
  · rw [hread]
    exact congrArg Except.ok (UInt32.ofNat_toNat)

end Numbers

section Fields

/-- A field that is new is put at the end. -/
theorem put_append {key : String} (value : String) {hash : Fields} (h : key ∉ hash.map Prod.fst) :
    put key value hash = hash ++ [(key, value)] := by
  induction hash with
  | nil => rfl
  | cons p hash ih =>
    rw [List.map_cons, List.mem_cons, not_or] at h
    rw [put, if_neg (Ne.symm h.1), ih h.2]
    rfl

theorem hset_append {hash pairs : Fields} (h : ((hash ++ pairs).map Prod.fst).Nodup) :
    hset hash pairs = hash ++ pairs := by
  induction pairs generalizing hash with
  | nil => exact (List.append_nil hash).symm
  | cons p pairs ih =>
    have hnew : p.1 ∉ hash.map Prod.fst := by
      rw [List.map_append, List.map_cons] at h
      exact fun hmem => (List.nodup_append.mp h).2.2 p.1 hmem p.1 List.mem_cons_self rfl
    rw [List.append_cons] at h
    rw [hset, List.foldl_cons, put_append p.2 hnew]
    exact (ih h).trans (List.append_cons hash p pairs).symm

end Fields

section Records

variable {Time : Type} (chrono : Chrono Time)

theorem nodup_keys (r : StoredRecord Time) : ((r.toRedisPairs chrono).map Prod.fst).Nodup := by
  rw [StoredRecord.toRedisPairs]
  cases r.reasoningModelId with
  | none =>
    simp only [Option.map_none, Option.toList_none, List.append_nil, List.map_cons, List.map_nil]
    decide +kernel
  | some modelId =>
    simp only [Option.map_some, Option.toList_some, List.cons_append, List.nil_append, List.map_cons,
      List.map_nil]
    decide +kernel

theorem hset_toRedisPairs (r : StoredRecord Time) :
    hset [] (r.toRedisPairs chrono) = r.toRedisPairs chrono := by
  have hkeys : (([] ++ r.toRedisPairs chrono).map Prod.fst).Nodup := nodup_keys chrono r
  exact hset_append hkeys

theorem write_toRedisPairs (r : StoredRecord Time) (u : Update Time) :
    u.write chrono (r.toRedisPairs chrono) = (u.revise r).toRedisPairs chrono := by
  cases u with
  | status new now => rfl
  | annotationCounters annotated skipped now => rfl
  | memoryPath path now => rfl

theorem toRedisPairs_ne_nil (r : StoredRecord Time) : r.toRedisPairs chrono ≠ [] := List.cons_ne_nil _ _

theorem getField_of_lookup {hash : Fields} {key value : String} (h : hash.lookup key = some value) :
    getField hash key = .ok value := by
  rw [getField, h]

theorem getOrDefault_of_lookup {hash : Fields} {key value : String} (h : hash.lookup key = some value) :
    getOrDefault hash key = value := by
  rw [getOrDefault, h, Option.getD_some]

theorem fromRedisMap_toRedisPairs (h : chrono.Inverse) (r : StoredRecord Time) :
    fromRedisMap chrono (r.toRedisPairs chrono) = .ok r := by
  have hfield : ∀ key value, (r.toRedisPairs chrono).lookup key = some value →
      getField (r.toRedisPairs chrono) key = .ok value := fun _ _ => getField_of_lookup
  have hdefault : ∀ key value, (r.toRedisPairs chrono).lookup key = some value →
      getOrDefault (r.toRedisPairs chrono) key = value := fun _ _ => getOrDefault_of_lookup
  have hmodel : (r.toRedisPairs chrono).lookup "reasoning_model_id" = r.reasoningModelId := by
    rw [StoredRecord.toRedisPairs]
    cases r.reasoningModelId with
    | none => rfl
    | some modelId => rfl
  have hwindow : contextWindow (r.toRedisPairs chrono) = r.contextWindowSteps := by
    have hlookup : (r.toRedisPairs chrono).lookup "context_window_steps" =
        some (displayU32 r.contextWindowSteps) := rfl
    rw [contextWindow, hlookup, Option.bind_some, parse_displayU32]
    rfl
  have hok : ∀ {α β : Type} (a : α) (f : α → Except String β), (Except.ok a >>= f) = f a :=
    fun _ _ => rfl
  rw [fromRedisMap, hfield "session_id" _ rfl, hok, hfield "mode" _ rfl, hok, parse_displayMode, hok,
    hfield "status" _ rfl, hok, parse_displayStatus, hok, hfield "os_type" _ rfl, hok,
    hfield "os_version" _ rfl, hok, hfield "os_architecture" _ rfl, hok,
    hfield "os_environment_id" _ rfl, hok, hfield "capture_server_id" _ rfl, hok,
    hfield "actuation_server_id" _ rfl, hok, hfield "memory_name" _ rfl, hok,
    hfield "memory_path" _ rfl, hok, hfield "created_at" _ rfl, hok, h, hok,
    hfield "updated_at" _ rfl, hok, h, hok, hfield "total_steps" _ rfl, hok, parse_displayU32, hok,
    hfield "annotated_steps" _ rfl, hok, parse_displayU32, hok, hfield "skipped_steps" _ rfl, hok,
    parse_displayU32, hok, hmodel, hwindow]
  rfl

/-- A record is stored and read back, and after any writes of single fields it is read
back with just these fields changed. -/
theorem record_roundTrip (h : chrono.Inverse) (r : StoredRecord Time) :
    fromRedisMap chrono (hset [] (r.toRedisPairs chrono)) = .ok r ∧
      ∀ (sessionId : String) (updates : List (Update Time)),
        get chrono sessionId
            (updates.foldl (fun hash u => u.write chrono hash) (hset [] (r.toRedisPairs chrono))) =
          .ok (updates.foldl Update.revise r) := by
  rw [hset_toRedisPairs]
  refine ⟨fromRedisMap_toRedisPairs chrono h r, fun sessionId updates => ?_⟩
  induction updates generalizing r with
  | nil =>
    rw [List.foldl_nil, get, if_neg (toRedisPairs_ne_nil chrono r), fromRedisMap_toRedisPairs chrono h r]
    rfl
  | cons u updates ih =>
    rw [List.foldl_cons, List.foldl_cons, write_toRedisPairs]
    exact ih (u.revise r)

/-- Two seconds of a day. -/
def sampleChrono : Chrono Bool where
  toRfc3339 later := if later then "2026-01-01T00:00:01+00:00" else "2026-01-01T00:00:00+00:00"
  parse text :=
    if text = "2026-01-01T00:00:00+00:00" then .ok false
    else if text = "2026-01-01T00:00:01+00:00" then .ok true
    else .error "input contains invalid characters"

def sampleRecord : StoredRecord Bool :=
  ⟨"s1", .manual, .active, "LINUX", "Ubuntu 24.04 LTS", "x86_64", "env-1", "eyes-1", "cc-1", none, "demo",
    "/memories/demo", "", false, false, 3, 0, 0, "", "", "", "", 5, "", "", "", "default", "", ""⟩

theorem record_roundTrip_sample :
    get sampleChrono "s1" ((Update.status SessionStatus.pendingAnnotation true).write sampleChrono
      (hset [] (sampleRecord.toRedisPairs sampleChrono))) =
        .ok { sampleRecord with status := SessionStatus.pendingAnnotation, updatedAt := true } :=
  (record_roundTrip sampleChrono (fun time => by cases time <;> rfl) sampleRecord).2 "s1"
    [.status SessionStatus.pendingAnnotation true]

end Records

end MemoryArchive.Registry.Hash
