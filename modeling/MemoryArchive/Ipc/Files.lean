import Mathlib.Algebra.Group.Int.Defs
import Mathlib.Algebra.Group.Nat.Defs
import Mathlib.Data.List.Infix
import MemoryArchive.Ipc.Messages
import MemoryArchive.Json.Lines
import MemoryArchive.Registry.Redis
import MemoryArchive.Storage.Router

namespace MemoryArchive.Ipc

open Json (Fields)
open Registry Storage

def decodeUtf8 (bytes : ByteArray) : Option (List Char) := bytes.utf8Decode?.map Array.toList

def encodeUtf8 (text : List Char) : ByteArray := (String.ofList text).toByteArray

theorem decodeUtf8_encode (text : List Char) : decodeUtf8 (encodeUtf8 text) = some text := by
  simp [decodeUtf8, encodeUtf8, String.toByteArray_ofList, List.utf8Decode?_utf8Encode]

/-- Read a text as a `serde_json::Map`, which holds its members in key order. -/
def mapFromStr (text : List Char) : Option Fields :=
  match (Json.parse text).map (Json.rebuild Json.putSorted) with
  | some (.obj fields) => some fields
  | _ => none

/-- `is_u64() || is_i64()`: a literal is kept as an integer when it fits in 64
bits; every other number, and minus zero, is a float. -/
def isInteger : Json → Bool
  | .num n =>
      match n.toInt? with
      | some i => n.literal ≠ ['-', '0'] && -(2 ^ 63 : Int) ≤ i && i < (2 ^ 64 : Int)
      | none => false
  | _ => false

def counters : List String := ["annotated_steps", "skipped_steps"]

/-- Take one counter of an upload over into the object that is written. -/
def takeCounter (incoming : Fields) (allowed : Fields) (key : String) : Except String Fields :=
  match incoming.lookup key with
  | none => .ok allowed
  | some val =>
      if isInteger val then .ok (Json.putSorted key val allowed)
      else .error s!"Field '{key}' must be an integer"

section Enforce

-- What serde_json says of a text that it cannot read.
variable (serdeError : List Char → String)

def enforceMetadataAnnotatorFields (bytes : ByteArray) : Except String ByteArray :=
  match decodeUtf8 bytes with
  | none => .error "metadata.json is not valid UTF-8"
  | some text =>
      match mapFromStr text with
      | none => .error s!"metadata.json is not valid JSON: {serdeError text}"
      | some incoming =>
          if (incoming.lookup "status").isSome then
            .error ("Annotators may not update the 'status' field in metadata.json. " ++
              "Status transitions are controlled by ma-core.")
          else
            match counters.foldlM (takeCounter incoming) [] with
            | .error e => .error e
            | .ok [] =>
                .error ("metadata.json upload from annotator must contain at least one of: " ++
                  "annotated_steps, skipped_steps")
            | .ok allowed => .ok (encodeUtf8 (Json.print .pretty 0 (.obj allowed)))

/-- Read the lines of a reasoning upload from line `lineNo` on, each with its
source set to human. -/
def humanLines : Nat → List (List Char) → Except String (List (List Char))
  | _, [] => .ok []
  | lineNo, line :: rest =>
      let line := Lines.trim line
      if line = [] then humanLines (lineNo + 1) rest
      else
        match mapFromStr line with
        | none => .error s!"Line {lineNo}: not valid JSON: {serdeError line}"
        | some obj =>
            let out := Json.print .compact 0 (.obj (Json.putSorted "source" (.str "human") obj))
            (humanLines (lineNo + 1) rest).map (out :: ·)

def enforceReasoningSourceHuman (bytes : ByteArray) : Except String ByteArray :=
  match decodeUtf8 bytes with
  | none => .error "reasoning.jsonl is not valid UTF-8"
  | some text =>
      match humanLines serdeError 1 (Lines.lines text) with
      | .error e => .error e
      | .ok [] => .error "reasoning.jsonl upload contains no valid entries"
      | .ok out => .ok (encodeUtf8 (Lines.unlines out))

/-- What the handlers use of the program: its configuration, the registry and
the stored files. -/
structure Server where
  storageMode : String
  router : StorageRouter
  redis : Redis
  files : Location → Option ByteArray

def maxUploadBytes : Nat := 50 * 1024 * 1024

def allowedReasoning : String := "reasoning/reasoning.jsonl"

def allowedMetadata : String := "metadata.json"

/-- Where a file of a session is read and written. -/
def Server.location (s : Server) (record : SessionRecord) (sessionId relativePath : String) :
    Except String Location :=
  if s.storageMode = "cloud_primary" then
    .ok (.object (s.router.resolveForSession record) sessionId
      (record.memoryName ++ "/" ++ relativePath))
  else (validateRelativePath record.memoryPath relativePath).map Location.file

/-- The FetchFile handler. `ioError` is what a failed read ends with. -/
def fetchFile (s : Server) (ioError sessionId relativePath : String) : OutboundMessage :=
  match s.redis.get sessionId with
  | .error e => .error "SESSION_NOT_FOUND" e
  | .ok record =>
      if s.storageMode = "cloud_primary" ∧
          (['.', '.'] <:+: relativePath.toList ∨ relativePath.toList.head? = some '/') then
        .error "INVALID_PATH" "relative_path must not contain '..' or start with '/'"
      else
        match s.location record sessionId relativePath with
        | .error e => .error "INVALID_PATH" e
        | .ok loc =>
            match s.files loc with
            | some bytes => .fileData sessionId relativePath bytes bytes.size
            | none => .error "FILE_NOT_FOUND" s!"Could not read '{relativePath}': {ioError}"

/-- The ListSessionFiles handler. `listing` is what a backend or a directory
lists under a location; a directory that cannot be read lists nothing. -/
def listSessionFiles (s : Server) (listing : Location → Except String (List FileEntry))
    (sessionId lead : String) : OutboundMessage :=
  match s.redis.get sessionId with
  | .error e => .error "SESSION_NOT_FOUND" e
  | .ok record =>
      if s.storageMode = "cloud_primary" then
        let path := record.memoryName ++ "/" ++ lead
        match listing (.object (s.router.resolveForSession record) sessionId path) with
        | .error e => .error "LIST_FAILED" e
        | .ok files => .sessionFileList sessionId files
      else
        let dir := if lead = "" then .ok (components record.memoryPath.toList)
          else validateRelativePath record.memoryPath lead
        match dir with
        | .error e => .error "INVALID_PATH" e
        | .ok path =>
            match listing (.file path) with
            | .error _ => .sessionFileList sessionId []
            | .ok files => .sessionFileList sessionId files

/-- The bytes that an upload writes to its file. -/
def Upload.writeBytes (u : Upload) : Except String ByteArray :=
  if u.relativePath = allowedReasoning then
    (enforceReasoningSourceHuman serdeError u.bytes).mapError fun e =>
      s!"reasoning.jsonl parse error: {e}"
  else
    (enforceMetadataAnnotatorFields serdeError u.bytes).mapError fun e =>
      s!"metadata.json parse error: {e}"

/-- The UploadFile handler. The operator's and the annotator's are the same; an
annotator's claim is checked before. `fault` is the error that the write itself
ends with, if any. -/
def uploadFile (s : Server) (fault : Option String) (u : Upload) : Server × OutboundMessage :=
  if u.relativePath ≠ allowedReasoning ∧ u.relativePath ≠ allowedMetadata then
    (s, .error "WRITE_FORBIDDEN"
      (s!"Annotators may only write to '{allowedReasoning}' or '{allowedMetadata}'. " ++
        s!"Path '{u.relativePath}' is not permitted."))
  else if maxUploadBytes < u.bytes.size then
    (s, .error "PAYLOAD_TOO_LARGE" s!"Upload exceeds maximum allowed size of {maxUploadBytes} bytes")
  else
    match u.writeBytes serdeError with
    | .error e => (s, .error "INVALID_PAYLOAD" e)
    | .ok bytes =>
        match s.redis.get u.sessionId with
        | .error e => (s, .error "SESSION_NOT_FOUND" e)
        | .ok record =>
            match s.location record u.sessionId u.relativePath with
            | .error e => (s, .error "INVALID_PATH" e)
            | .ok loc =>
                match fault with
                | some e => (s, .error "UPLOAD_FAILED" s!"Could not write '{u.relativePath}': {e}")
                | none =>
                    ({ s with files := Function.update s.files loc (some bytes) },
                      .fileUploaded u.sessionId u.relativePath)

/-- The object that a file holds. -/
def Server.object (s : Server) (loc : Location) : Option Fields :=
  ((s.files loc).bind decodeUtf8).bind mapFromStr

/-- An upload that is answered with FileUploaded wrote its checked bytes to the
one file it names, and did nothing else. -/
theorem uploadFile_accepted (s : Server) (fault : Option String) (u : Upload)
    (h : (uploadFile serdeError s fault u).2 = .fileUploaded u.sessionId u.relativePath) :
    ∃ record loc bytes, s.redis.get u.sessionId = .ok record ∧
      s.location record u.sessionId u.relativePath = .ok loc ∧ u.writeBytes serdeError = .ok bytes ∧
      (uploadFile serdeError s fault u).1 =
        { s with files := Function.update s.files loc (some bytes) } := by
  revert h
  unfold uploadFile
  split
  · intro h; cases h
  split
  · intro h; cases h
  split
  · intro h; cases h
  rename_i bytes hbytes
  split
  · intro h; cases h
  rename_i record hrecord
  split
  · intro h; cases h
  rename_i loc hloc
  split
  · intro h; cases h
  · intro _
    exact ⟨record, loc, bytes, hrecord, hloc, hbytes, rfl⟩

/-- A refused upload leaves every file as it was. -/
theorem uploadFile_refused (s : Server) (fault : Option String) (u : Upload) (code message : String)
    (h : (uploadFile serdeError s fault u).2 = .error code message) :
    (uploadFile serdeError s fault u).1 = s := by
  revert h
  unfold uploadFile
  split
  · intro _; rfl
  split
  · intro _; rfl
  split
  · intro _; rfl
  split
  · intro _; rfl
  split
  · intro _; rfl
  split
  · intro _; rfl
  · intro h; cases h

/-- What the check lets through of an upload: counters only, in key order. -/
structure Counters (allowed : Fields) : Prop where
  sorted : (Json.obj allowed).Sorted
  keys : ∀ key ∈ allowed.map Prod.fst, key ∈ counters

theorem counters_takeCounter {incoming allowed allowed' : Fields} {key : String} (hk : key ∈ counters)
    (h : Counters allowed) (ht : takeCounter incoming allowed key = .ok allowed') :
    Counters allowed' := by
  unfold takeCounter at ht
  split at ht
  · cases ht
    exact h
  · rename_i val hval
    split at ht
    · rename_i hint
      cases ht
      have hv : val.Sorted := by
        cases val with
        | num n => trivial
        | _ => cases hint
      have hs := h.sorted
      simp only [Json.Sorted, Json.Keyed] at hs
      refine ⟨?_, fun key' hk' => ?_⟩
      · exact Json.keeps_putSorted key val allowed hs.1 hs.2 hv
      · obtain rfl | hmem := mem_insertRow key val allowed key' hk'
        · exact hk
        · exact h.keys key' hmem
    · cases ht

theorem counters_foldlM {incoming : Fields} (keys : List String) (hk : ∀ key ∈ keys, key ∈ counters)
    (allowed allowed' : Fields) (h : Counters allowed)
    (hf : keys.foldlM (takeCounter incoming) allowed = .ok allowed') : Counters allowed' := by
  induction keys generalizing allowed with
  | nil =>
    cases hf
    exact h
  | cons key keys ih =>
    rw [List.foldlM_cons] at hf
    cases ht : takeCounter incoming allowed key with
    | error e => rw [ht] at hf; cases hf
    | ok next =>
      rw [ht] at hf
      have hnext := counters_takeCounter (hk key (by simp)) h ht
      exact ih (fun key' hk' => hk key' (List.mem_cons_of_mem key hk')) next hnext hf

theorem enforceMetadata_ok {bytes out : ByteArray}
    (h : enforceMetadataAnnotatorFields serdeError bytes = .ok out) :
    ∃ allowed, Counters allowed ∧ out = encodeUtf8 (Json.print .pretty 0 (.obj allowed)) := by
  unfold enforceMetadataAnnotatorFields at h
  split at h
  · cases h
  split at h
  · cases h
  split at h
  · cases h
  split at h
  · cases h
  · cases h
  · rename_i allowed hne hfold
    cases h
    have hnil : Counters [] := ⟨⟨.nil, trivial⟩, by simp⟩
    exact ⟨allowed, counters_foldlM counters (fun _ hk => hk) [] allowed hnil hfold, rfl⟩

theorem mapFromStr_print {fields : Fields} (h : (Json.obj fields).Sorted) :
    mapFromStr (Json.print .pretty 0 (.obj fields)) = some fields := by
  simp [mapFromStr, Json.parse_print, Json.rebuild_putSorted _ h]

/-- A key of an object that is no counter is not among its counters. -/
theorem Counters.lookup_eq_none {allowed : Fields} (h : Counters allowed) {key : String}
    (hk : key ∉ counters) : allowed.lookup key = none := by
  refine List.lookup_eq_none_iff.mpr fun r hr => bne_iff_ne.mpr ?_
  rintro rfl
  exact hk (h.keys r.1 (List.mem_map.mpr ⟨r, hr, rfl⟩))

/-- After an accepted metadata upload the file holds the counters of the body
and nothing else. -/
theorem object_uploadFile (s : Server) (fault : Option String) (u : Upload)
    (hpath : u.relativePath = allowedMetadata) {record : SessionRecord} {loc : Location}
    (hrecord : s.redis.get u.sessionId = .ok record)
    (hloc : s.location record u.sessionId u.relativePath = .ok loc)
    (h : (uploadFile serdeError s fault u).2 = .fileUploaded u.sessionId u.relativePath) :
    ∃ allowed, Counters allowed ∧ (uploadFile serdeError s fault u).1.object loc = some allowed := by
  obtain ⟨record', loc', bytes, hrecord', hloc', hbytes, hserver⟩ := uploadFile_accepted serdeError s fault u h
  rw [hrecord] at hrecord'
  cases hrecord'
  rw [hloc] at hloc'
  cases hloc'
  have hne : allowedMetadata ≠ allowedReasoning := by decide
  rw [Upload.writeBytes, hpath, if_neg hne] at hbytes
  cases henf : enforceMetadataAnnotatorFields serdeError u.bytes with
  | error e => rw [henf] at hbytes; cases hbytes
  | ok out =>
    rw [henf] at hbytes
    cases hbytes
    obtain ⟨allowed, hc, rfl⟩ := enforceMetadata_ok serdeError henf
    refine ⟨allowed, hc, ?_⟩
    simp [hserver, Server.object, decodeUtf8_encode, mapFromStr_print hc.sorted]

end Enforce

/-- A local session whose metadata.json holds the given object. -/
def sampleServer (stored : Fields) : Server where
  storageMode := "local"
  router := ⟨["local"], [], Storage.local_ne_nil⟩
  redis :=
    { sessions := fun _ => .record
        { sessionId := "s1", mode := .manual, status := .annotating, memoryName := "demo",
          memoryPath := "/memories/demo", createdAt := "2026-01-01T00:00:00Z", totalSteps := 4,
          annotatedSteps := 0, skippedSteps := 0, tenantId := "acme", storageBackend := "local" }
      index := fun _ => []
      claims := fun _ => none
      annotators := fun _ => none }
  files loc :=
    if loc = sampleLocation then some (encodeUtf8 (Json.print .pretty 0 (.obj stored))) else none
where
  sampleLocation : Location :=
    .file [.rootDir, .normal "memories".toList, .normal "demo".toList, .normal "metadata.json".toList]

def sampleUpload (body : String) : Upload := ⟨"s1", allowedMetadata, body.toByteArray, "application/json"⟩

theorem object_sampleServer {stored : Fields} (h : (Json.obj stored).Sorted) :
    (sampleServer stored).object sampleServer.sampleLocation = some stored := by
  simp [Server.object, sampleServer, decodeUtf8_encode, mapFromStr_print h]

/-- The file holds an object before and after, and the two agree on every key
but the counters. -/
def CounterFrame (s s' : Server) (loc : Location) : Prop :=
  ∃ before after, s.object loc = some before ∧ s'.object loc = some after ∧
    ∀ key, key ∉ counters → after.lookup key = before.lookup key

/-- An accepted upload of counters changes the counters only, if and only if
the stored metadata has no other key. -/
theorem upload_counters_frame_iff (serdeError : List Char → String) (s : Server)
    (fault : Option String) (u : Upload) (record : SessionRecord) (loc : Location) (stored : Fields)
    (hpath : u.relativePath = allowedMetadata) (hrecord : s.redis.get u.sessionId = .ok record)
    (hloc : s.location record u.sessionId u.relativePath = .ok loc)
    (hstored : s.object loc = some stored)
    (h : (uploadFile serdeError s fault u).2 = .fileUploaded u.sessionId u.relativePath) :
    CounterFrame s (uploadFile serdeError s fault u).1 loc ↔
      ∀ key, (stored.lookup key).isSome → key ∈ counters := by
  obtain ⟨allowed, hc, hafter⟩ := object_uploadFile serdeError s fault u hpath hrecord hloc h
  constructor
  · rintro ⟨before, after, hbefore, hobj, hframe⟩ key hkey
    rw [hstored] at hbefore
    cases hbefore
    rw [hafter] at hobj
    cases hobj
    by_contra hk
    rw [← hframe key hk, hc.lookup_eq_none hk] at hkey
    cases hkey
  · intro hkeys
    refine ⟨stored, allowed, hstored, hafter, fun key hk => ?_⟩
    rw [hc.lookup_eq_none hk]
    cases hl : stored.lookup key with
    | none => rfl
    | some v => exact absurd (hkeys key (by simp [hl])) hk

theorem upload_counters_frame_sample :
    CounterFrame (sampleServer [("annotated_steps", .num (.ofNat 3))])
      (uploadFile (fun _ => "expected value") (sampleServer [("annotated_steps", .num (.ofNat 3))]) none
        (sampleUpload "\x7b\"skipped_steps\": 2, \"note\": \"done\"\x7d")).1
      sampleServer.sampleLocation := by
  have hsorted : (Json.obj [("annotated_steps", .num (.ofNat 3))]).Sorted := by
    simp [Json.Keyed, Json.KeyedFields]
  refine (upload_counters_frame_iff (fun _ => "expected value") _ none _ _ _ _ rfl rfl ?_
    (object_sampleServer hsorted) ?_).mpr ?_
  · decide +kernel
  · decide +kernel
  · intro key hkey
    by_cases hk : key = "annotated_steps"
    · rw [hk]
      decide
    · rw [Table.lookup_cons_ite, if_neg hk] at hkey
      cases hkey

/-- An accepted body of one counter replaces the whole metadata of a session. -/
theorem upload_replaces_metadata :
    (uploadFile (fun _ => "expected value")
        (sampleServer [("session_id", .str "s1"), ("status", .str "annotating")]) none
        (sampleUpload "\x7b\"annotated_steps\": 4\x7d")).2 = .fileUploaded "s1" "metadata.json" ∧
      ¬ CounterFrame (sampleServer [("session_id", .str "s1"), ("status", .str "annotating")])
        (uploadFile (fun _ => "expected value")
          (sampleServer [("session_id", .str "s1"), ("status", .str "annotating")]) none
          (sampleUpload "\x7b\"annotated_steps\": 4\x7d")).1
        sampleServer.sampleLocation := by
  refine ⟨by decide +kernel, ?_⟩
  rintro ⟨before, after, hbefore, hafter, hframe⟩
  have hsorted : (Json.obj [("session_id", .str "s1"), ("status", .str "annotating")]).Sorted :=
    ⟨by decide, trivial, trivial, trivial⟩
  rw [object_sampleServer hsorted] at hbefore
  cases hbefore
  have hgone : ((uploadFile (fun _ => "expected value")
      (sampleServer [("session_id", .str "s1"), ("status", .str "annotating")]) none
      (sampleUpload "\x7b\"annotated_steps\": 4\x7d")).1.object sampleServer.sampleLocation).map
        (fun after => (after.lookup "status").isSome) = some false := by
    decide +kernel
  rw [hafter, Option.map_some, hframe "status" (by decide)] at hgone
  cases hgone

end MemoryArchive.Ipc
