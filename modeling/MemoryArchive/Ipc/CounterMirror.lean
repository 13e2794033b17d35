import MemoryArchive.Ipc.Lifecycle
import MemoryArchive.Ipc.RegistryWrites
import MemoryArchive.Ipc.Startup
import MemoryArchive.Tui.Counters

namespace MemoryArchive.Ipc.CounterMirror

open Capture (Control)
open Registry Runs Storage
open Tui (Contains ManifestEntry MetadataFile nat setCounters updateMetadataCounters)

/-- A session with both places that keep its counters: the registry of the server
and its metadata.json. A live watch loop has the metadata in memory, and the
session has left capture once such a loop, or a Done without one, has ended it. -/
structure Mirror where
  server : Server
  metadata : Option ByteArray
  recording : Option MetadataFile
  left : Bool

/-- A message, an expiry of a claim, the client's own update of metadata.json on
the machine of ma-core, or a step of the capture. Handlers meet the watch loops
in any state. -/
inductive Act
  | annotator (annotatorId : String) (env : Env) (msg : InboundMessage)
  | operator (control : String → Control) (env : OperatorEnv) (msg : OperatorMessage)
  | expire (sid : String)
  | client (annotated skipped : Int)
  | start
  | event (entry : ManifestEntry) (flushed : Bool)
  | revise (others : MetadataFile) (flushed : Bool)
  | finish (now : String) (doneCleanly wasDegraded flushed : Bool) (renamed : Option String)
  | done (now : String) (others : MetadataFile) (written : Bool)

def appendStep (entry : ManifestEntry) (m : MetadataFile) : MetadataFile :=
  { m with totalSteps := m.totalSteps + 1, steps := m.steps ++ [entry] }

/-- Any change of the metadata but to its counters. -/
def reviseOthers (m others : MetadataFile) : MetadataFile :=
  { others with
    totalSteps := m.totalSteps
    annotatedSteps := m.annotatedSteps
    skippedSteps := m.skippedSteps }

def markComplete (now : String) (m : MetadataFile) : MetadataFile :=
  { m with status := "complete", completedAt := some now, inProgress := none }

def markIncomplete (m : MetadataFile) : MetadataFile := { m with status := "incomplete" }

def markInterrupted (m : MetadataFile) : MetadataFile :=
  { markIncomplete m with inProgress := some "interrupted" }

/-- An update of the counters: of those in the registry, or of those in
metadata.json. -/
inductive Update
  | progress (sid : String) (annotated skipped : UInt32)
  | upload (upload : Upload)

def Update.ofInbound : InboundMessage → Option Update
  | .updateAnnotationProgress sid annotated skipped => some (.progress sid annotated skipped)
  | .uploadFile u => some (.upload u)
  | _ => none

def Update.ofOperator : OperatorMessage → Option Update
  | .updateAnnotationProgress sid annotated skipped => some (.progress sid annotated skipped)
  | .uploadFile u => some (.upload u)
  | _ => none

/-- A member of the object that metadata.json holds. -/
def field (metadata : Option ByteArray) (key : String) : Option Json :=
  ((metadata.bind decodeUtf8).bind mapFromStr).bind fun fields => fields.lookup key

section Session

-- The session, and what serde reads from its metadata.json.
variable (sid : String) (readMetadata : ByteArray → Option MetadataFile)

/-- The update concerns the session and is accepted. -/
def Update.Accepted (reply : Option OutboundMessage) : Update → Prop
  | progress t annotated skipped =>
      t = sid ∧ reply = some (.annotationProgressUpdated sid annotated skipped)
  | upload u =>
      u.sessionId = sid ∧ u.relativePath = allowedMetadata ∧
        reply = some (.fileUploaded sid allowedMetadata)

instance (reply : Option OutboundMessage) (u : Update) : Decidable (u.Accepted sid reply) :=
  match u with
  | .progress _ _ _ => inferInstanceAs (Decidable (_ ∧ _))
  | .upload _ => inferInstanceAs (Decidable (_ ∧ _))

/-- What an update that is answered so writes to the metadata.json of the session. -/
def Update.writes (serdeError : List Char → String) (reply : Option OutboundMessage) (u : Update) :
    Option ByteArray :=
  match u with
  | .progress _ _ _ => none
  | .upload body => if u.Accepted sid reply then (body.writeBytes serdeError).toOption else none

namespace Mirror

variable (w : Mirror)

/-- Ids are fresh, so no other session is registered under this one. -/
def registers (env : OperatorEnv) : OperatorMessage → Bool
  | .registerSession _ => env.sessionId = sid
  | _ => false

/-- The metadata that the end of a watch loop writes. In local mode an
interrupted one rewrites the file, not what the loop has in memory. -/
def finalMetadata (now : String) (doneCleanly flushed : Bool) : Option MetadataFile :=
  if flushed = false then none
  else if doneCleanly then w.recording.map (markComplete now)
  else if w.server.storageMode = "cloud_primary" then w.recording.map markInterrupted
  else (w.metadata.bind readMetadata).map markIncomplete

/-- Done without a loop: the counts of tokens and the end of the recording go
into the file. -/
def directMetadata (now : String) (others : MetadataFile) (written : Bool) : Option MetadataFile :=
  if written then (w.metadata.bind readMetadata).map fun m => markComplete now (reviseOthers m others)
  else none

/-- Keep a change of the metadata in memory, and flush it. -/
def record (m : MetadataFile) (flushed : Bool) : Mirror :=
  { w with recording := some m, metadata := if flushed then some m.write else w.metadata }

/-- One loop at a time records the session. -/
def step : Act → Mirror
  | .annotator annotatorId env msg =>
      let (server, reply) := handleAnnotatorMessage w.server env annotatorId msg
      { w with
        server := server
        metadata := ((Update.ofInbound msg).bind (Update.writes sid env.serdeError (some reply))).or
          w.metadata }
  | .operator control env msg =>
      if registers sid env msg then w
      else
        let (s, reply) := handleMessage ⟨w.server, control⟩ env msg
        { w with
          server := s.server
          metadata := ((Update.ofOperator msg).bind (Update.writes sid env.env.serdeError reply)).or
            w.metadata }
  | .expire t => { w with server := { w.server with redis := w.server.redis.releaseClaim t } }
  | .client annotated skipped =>
      { w with metadata := (w.metadata.bind (updateMetadataCounters annotated skipped)).or w.metadata }
  | .start =>
      match w.recording, w.server.redis.get sid, w.metadata.bind readMetadata with
      | none, .ok _, some m => { w with recording := some m, left := false }
      | _, _, _ => w
  | .event entry flushed =>
      match w.recording with
      | some m => w.record (appendStep entry m) flushed
      | none => w
  | .revise others flushed =>
      match w.recording with
      | some m => w.record (reviseOthers m others) flushed
      | none => w
  | .finish now doneCleanly wasDegraded flushed renamed =>
      match w.recording with
      | some _ =>
          { server := (endLoop ⟨w.server, fun _ => .idle⟩ sid doneCleanly wasDegraded renamed).server
            metadata := ((w.finalMetadata readMetadata now doneCleanly flushed).map MetadataFile.write).or
              w.metadata
            recording := none
            left := true }
      | none => w
  | .done now others written =>
      match w.recording, w.server.redis.get sid with
      | none, .ok _ =>
          { w with
            metadata := ((w.directMetadata readMetadata now others written).map MetadataFile.write).or
              w.metadata
            left := true }
      | _, _ => w

/-- Once the session has left capture, the record counts the steps of metadata.json. -/
def TotalsAgree : Prop :=
  w.left = true → ∀ r, w.server.redis.get sid = .ok r →
    field w.metadata "total_steps" = some (nat r.totalSteps.toNat)

/-- The record has the counters of metadata.json, and they are no more than its
steps. -/
def CountersAgree : Prop :=
  ∀ r, w.server.redis.get sid = .ok r →
    field w.metadata "annotated_steps" = some (nat r.annotatedSteps.toNat) ∧
      field w.metadata "skipped_steps" = some (nat r.skippedSteps.toNat) ∧
      r.annotatedSteps.toNat + r.skippedSteps.toNat ≤ r.totalSteps.toNat

/-- The act is an update of the counters that is accepted. -/
def Updates : Act → Prop
  | .annotator annotatorId env msg =>
      ∃ u, Update.ofInbound msg = some u ∧
        u.Accepted sid (some (handleAnnotatorMessage w.server env annotatorId msg).2)
  | .operator control env msg =>
      ∃ u, Update.ofOperator msg = some u ∧
        u.Accepted sid (handleMessage ⟨w.server, control⟩ env msg).2
  | _ => False

def Mirrored (act : Act) (w' : Mirror) : Prop :=
  w'.TotalsAgree sid ∧ (w.Updates sid act → w'.CountersAgree sid)

end Mirror

/-- A counter in the body of an upload. -/
def bodyField (u : Upload) (key : String) : Option Json := field (some u.bytes) key

/-- The condition on an accepted update: it counts nothing, where nothing has
been counted. An upload takes the total out of metadata.json, so it must come
before the session leaves capture. -/
def Mirror.Admits (w : Mirror) : Update → Prop
  | .progress _ annotated skipped =>
      ∀ r, w.server.redis.get sid = .ok r →
        (annotated = 0 ∧ skipped = 0) ∧ field w.metadata "annotated_steps" = some (nat 0) ∧
          field w.metadata "skipped_steps" = some (nat 0)
  | .upload u =>
      w.left = false ∧
        (∀ r, w.server.redis.get sid = .ok r → r.annotatedSteps = 0 ∧ r.skippedSteps = 0) ∧
        bodyField u "annotated_steps" = some (nat 0) ∧ bodyField u "skipped_steps" = some (nat 0)

/-- What is written last counts no step; where nothing is written, the file that
is there does not. -/
def Mirror.Empty (w : Mirror) : Option MetadataFile → Prop
  | some m => m.totalSteps = 0
  | none => field w.metadata "total_steps" = some (nat 0)

/-- The metadata that a session leaves capture with counts no step. -/
def Mirror.NoSteps (w : Mirror) (final : Option MetadataFile) : Prop :=
  (∃ r, w.server.redis.get sid = .ok r) → w.Empty final

/-- No step is captured, and no accepted update counts anything. -/
def Uncounted (w : Mirror) : Act → Prop
  | .annotator annotatorId env msg =>
      ∀ u, Update.ofInbound msg = some u →
        u.Accepted sid (some (handleAnnotatorMessage w.server env annotatorId msg).2) → w.Admits sid u
  | .operator control env msg =>
      ∀ u, Update.ofOperator msg = some u →
        u.Accepted sid (handleMessage ⟨w.server, control⟩ env msg).2 → w.Admits sid u
  | .finish now doneCleanly _ flushed _ =>
      w.recording.isSome → w.NoSteps sid (w.finalMetadata readMetadata now doneCleanly flushed)
  | .done now others written =>
      w.recording = none → w.NoSteps sid (w.directMetadata readMetadata now others written)
  | _ => True

end Session

section Field

open Json (Fields)

theorem lookup_takeCounter {incoming allowed allowed' : Fields} {key : String}
    (hsorted : (allowed.map Prod.fst).Pairwise (· < ·))
    (ht : takeCounter incoming allowed key = .ok allowed') (k : String) :
    allowed'.lookup k = if k = key then (incoming.lookup key).or (allowed.lookup key) else allowed.lookup
      k := by
  rw [takeCounter] at ht
  cases hval : incoming.lookup key with
  | none =>
    rw [hval] at ht
    cases ht
    rw [Option.none_or]
    split
    · rename_i hk
      rw [hk]
    · rfl
  | some val =>
    rw [hval] at ht
    dsimp only at ht
    split at ht
    · cases ht
      rw [Json.putSorted, Table.lookup_insertRow key val allowed k hsorted, Option.some_or]
    · cases ht

theorem lookup_foldlM {incoming : Fields} (keys : List String) (hnodup : keys.Nodup)
    (hkeys : ∀ key ∈ keys, key ∈ counters) (allowed allowed' : Fields) (h : Counters allowed)
    (hf : keys.foldlM (takeCounter incoming) allowed = .ok allowed') (k : String) :
    allowed'.lookup k = if k ∈ keys then (incoming.lookup k).or (allowed.lookup k) else allowed.lookup
      k := by
  induction keys generalizing allowed with
  | nil =>
    cases hf
    rw [if_neg List.not_mem_nil]
  | cons key keys ih =>
    obtain ⟨hnew, hrest⟩ := List.nodup_cons.mp hnodup
    rw [List.foldlM_cons] at hf
    cases ht : takeCounter incoming allowed key with
    | error e => rw [ht] at hf; cases hf
    | ok next =>
      rw [ht] at hf
      have hnext := counters_takeCounter (hkeys key List.mem_cons_self) h ht
      have hfirst := lookup_takeCounter h.sorted.1 ht k
      rw [ih hrest (fun key' hk' => hkeys key' (List.mem_cons_of_mem key hk')) next hnext hf, hfirst]
      by_cases hk : k = key
      · subst hk
        rw [if_neg hnew, if_pos rfl, if_pos List.mem_cons_self]
      · simp only [List.mem_cons, hk, false_or, if_false]

theorem field_contains {file : ByteArray} {fields : Fields} (h : Contains file fields) (key : String) :
    field (some file) key = (fields.lookup key).map (Json.rebuild Json.putSorted) := by
  obtain ⟨text, htext, hparse⟩ := Option.bind_eq_some_iff.mp h.2
  rw [field, Option.bind_some, htext, Option.bind_some, Tui.mapFromStr_contains hparse, Option.bind_some,
    Json.lookup_rebuildFields_distinct .nil h.1.1, List.lookup_nil, Option.or_none]

theorem field_write (m : MetadataFile) :
    field (some m.write) "total_steps" = some (nat m.totalSteps.toNat) := by
  rw [field_contains (Tui.contains_write m)]
  rfl

/-- The client's update keeps the total. -/
theorem field_client (annotated skipped : Int) {file file' : ByteArray} {fields : Fields}
    (h : Contains file fields) (hfile : updateMetadataCounters annotated skipped file = some file') :
    field (some file') "total_steps" = field (some file) "total_steps" ∧ ∃ fields', Contains file' fields' := by
  obtain ⟨file'', hfile'', h'⟩ := Tui.update_contains annotated skipped h
  obtain rfl := Option.some.inj (hfile''.symm.trans hfile)
  refine ⟨?_, _, h'⟩
  rw [field_contains h', field_contains h, Tui.lookup_setCounters annotated skipped fields (by decide)]

/-- What the check lets through of a body holds the counters of the body and no
total. -/
theorem field_enforce {serdeError : List Char → String} {u : Upload} {bytes : ByteArray}
    (hpath : u.relativePath = allowedMetadata) (h : u.writeBytes serdeError = .ok bytes) :
    (∀ key ∈ counters, field (some bytes) key = bodyField u key) ∧ field (some bytes) "total_steps" = none ∧
      ∃ fields, Contains bytes fields := by
  have hne : allowedMetadata ≠ allowedReasoning := by decide
  rw [Upload.writeBytes, hpath, if_neg hne] at h
  cases henf : enforceMetadataAnnotatorFields serdeError u.bytes with
  | error e => rw [henf] at h; cases h
  | ok out =>
    rw [henf] at h
    cases h
    rw [enforceMetadataAnnotatorFields] at henf
    split at henf
    · cases henf
    rename_i text htext
    split at henf
    · cases henf
    rename_i incoming hincoming
    split at henf
    · cases henf
    split at henf
    · cases henf
    · cases henf
    rename_i allowed _ hfold
    cases henf
    have hnil : Counters [] := ⟨⟨.nil, trivial⟩, by simp⟩
    have hallowed : Counters allowed := counters_foldlM counters (fun _ hk => hk) [] allowed hnil hfold
    have hlookup := lookup_foldlM counters (by decide) (fun _ hk => hk) [] allowed hnil hfold
    have hfield (key : String) : field (some (encodeUtf8 (Json.print .pretty 0 (.obj allowed)))) key =
        allowed.lookup key := by
      rw [field, Option.bind_some, decodeUtf8_encode, Option.bind_some, mapFromStr_print hallowed.sorted,
        Option.bind_some]
    refine ⟨fun key hkey => ?_, ?_, allowed, ?_⟩
    · rw [hfield, hlookup, if_pos hkey, List.lookup_nil, Option.or_none, bodyField, field, Option.bind_some,
        htext, Option.bind_some, hincoming, Option.bind_some]
    · rw [hfield, hallowed.lookup_eq_none (by decide)]
    · refine ⟨hallowed.sorted.distinct, ?_⟩
      rw [decodeUtf8_encode, Option.bind_some]
      exact Json.parse_print .pretty 0 (.obj allowed)

end Field

/-- What an accepted update does to the registry. -/
def Update.Effect (sid : String) (serdeError : List Char → String) (redis redis' : Redis) : Update → Prop
  | progress _ annotated skipped => redis'.sessions sid = (redis.sessions sid).setCounters annotated skipped
  | upload u =>
      redis' = redis ∧ (∃ r, redis.get sid = .ok r) ∧ ∃ bytes, u.writeBytes serdeError = .ok bytes

theorem effect_upload (sid : String) (serdeError : List Char → String) (s : Server) (fault : Option String)
    (u : Upload)
    (h : (Update.upload u).Accepted sid (some (uploadFile serdeError s fault u).2)) :
    (Update.upload u).Effect sid serdeError s.redis (uploadFile serdeError s fault u).1.redis := by
  obtain ⟨hsid, hpath, hreply⟩ := h
  have haccepted : (uploadFile serdeError s fault u).2 = .fileUploaded u.sessionId u.relativePath := by
    rw [hsid, hpath]
    exact Option.some.inj hreply
  obtain ⟨r, loc, bytes, hr, -, hbytes, -⟩ := uploadFile_accepted serdeError s fault u haccepted
  exact ⟨uploadFile_redis serdeError s fault u, ⟨r, hsid ▸ hr⟩, bytes, hbytes⟩

theorem effect_annotator (sid : String) (s : Server) (env : Env) (b : String) (msg : InboundMessage)
    (u : Update) (hu : Update.ofInbound msg = some u)
    (h : u.Accepted sid (some (handleAnnotatorMessage s env b msg).2)) :
    u.Effect sid env.serdeError s.redis (handleAnnotatorMessage s env b msg).1.redis := by
  cases msg with
  | updateAnnotationProgress t annotated skipped =>
    obtain rfl := Option.some.inj hu
    obtain ⟨rfl, hreply⟩ := h
    change (handleClaimedOp s env b (.updateAnnotationProgress t annotated skipped)).1.redis.sessions t = _
    change some (handleClaimedOp s env b (.updateAnnotationProgress t annotated skipped)).2 = _ at hreply
    rw [handleClaimedOp] at hreply ⊢
    dsimp only [opSession] at hreply ⊢
    split at hreply
    · cases hreply
    · rename_i howner
      rw [if_neg howner]
      exact Function.update_self _ _ _
  | uploadFile upload =>
    obtain rfl := Option.some.inj hu
    have hnotOwner : ¬ (Update.upload upload).Accepted sid (some (notOwner upload.sessionId)) :=
      fun haccepted => by cases haccepted.2.2
    change (Update.upload upload).Accepted sid (some (handleClaimedOp s env b (.uploadFile upload)).2) at h
    change (Update.upload upload).Effect sid env.serdeError s.redis
      (handleClaimedOp s env b (.uploadFile upload)).1.redis
    rw [handleClaimedOp] at h ⊢
    dsimp only [opSession] at h ⊢
    split at h
    · exact absurd h hnotOwner
    · rename_i howner
      rw [if_neg howner]
      exact effect_upload sid env.serdeError s env.fault upload h
  | _ => cases hu

theorem effect_operator (sid : String) (s : System) (env : OperatorEnv) (msg : OperatorMessage)
    (u : Update) (hu : Update.ofOperator msg = some u) (h : u.Accepted sid (handleMessage s env msg).2) :
    u.Effect sid env.env.serdeError s.server.redis (handleMessage s env msg).1.server.redis := by
  cases msg with
  | updateAnnotationProgress t annotated skipped =>
    obtain rfl := Option.some.inj hu
    obtain ⟨rfl, -⟩ := h
    exact Function.update_self _ _ _
  | uploadFile upload =>
    obtain rfl := Option.some.inj hu
    exact effect_upload sid env.env.serdeError s.server env.env.fault upload h
  | _ => cases hu


/-- The record of the session counts no steps, its metadata.json is the text of
an object, and the totals agree. -/
structure Consistent (sid : String) (w : Mirror) : Prop where
  none_counted : ∀ r, w.server.redis.sessions sid = .record r → r.totalSteps = 0
  text : ∀ file, w.metadata = some file → ∃ fields, Contains file fields
  live : w.recording.isSome → w.left = false
  agree : w.TotalsAgree sid

section Steps

variable {sid : String} {w w' : Mirror}

theorem Consistent.zero (h : Consistent sid w) {r : SessionRecord} (hr : w.server.redis.get sid = .ok r) :
    r.totalSteps = 0 := h.none_counted r ((w.server.redis.get_eq_ok sid r).mp hr)

/-- A step that has neither to do with metadata.json nor ends the capture. -/
theorem totalsAgree_of_same (h : Consistent sid w) (hleft : w'.left = true → w.left = true)
    (hmeta : field w'.metadata "total_steps" = field w.metadata "total_steps")
    (hrecord : ∀ r', w'.server.redis.sessions sid = .record r' →
      ∃ r, w.server.redis.sessions sid = .record r ∧ Revised r r') : w'.TotalsAgree sid := by
  intro hw' r' hr'
  obtain ⟨r, hr, hrevised⟩ := hrecord r' ((w'.server.redis.get_eq_ok sid r').mp hr')
  rw [hmeta, hrevised.totalSteps]
  exact h.agree (hleft hw') r ((w.server.redis.get_eq_ok sid r).mpr hr)

/-- Zero is the only count that sums to no more than zero. -/
theorem zero_of_le {annotated skipped total : UInt32} (htotal : total = 0)
    (hle : annotated.toNat + skipped.toNat ≤ total.toNat) : annotated = 0 ∧ skipped = 0 := by
  rw [htotal] at hle
  have hzero : (0 : UInt32).toNat = 0 := rfl
  refine ⟨UInt32.toNat_inj.mp ?_, UInt32.toNat_inj.mp ?_⟩
  · omega
  · omega

variable {serdeError : List Char → String} {reply : Option OutboundMessage}

theorem progress_iff (h : Consistent sid w) {t : String} {annotated skipped : UInt32}
    (hmeta : w'.metadata = w.metadata)
    (hrecord : ∀ r', w'.server.redis.sessions sid = .record r' →
      ∃ r, w.server.redis.sessions sid = .record r ∧ Revised r r')
    (heffect : (Update.progress t annotated skipped).Effect sid serdeError w.server.redis w'.server.redis) :
    w'.CountersAgree sid ↔ w.Admits sid (.progress t annotated skipped) := by
  have hsessions : w'.server.redis.sessions sid =
      (w.server.redis.sessions sid).setCounters annotated skipped := heffect
  constructor
  · intro hcounters r hr
    rw [Redis.get_eq_ok] at hr
    have hr' : w'.server.redis.get sid =
        .ok { r with annotatedSteps := annotated, skippedSteps := skipped } := by
      rw [Redis.get_eq_ok, hsessions, hr]
      rfl
    obtain ⟨ha, hs, hle⟩ := hcounters _ hr'
    obtain ⟨rfl, rfl⟩ := zero_of_le (h.none_counted r hr) hle
    rw [hmeta] at ha hs
    exact ⟨⟨rfl, rfl⟩, ha, hs⟩
  · intro hadmits r' hr'
    rw [Redis.get_eq_ok] at hr'
    obtain ⟨r, hr, -⟩ := hrecord r' hr'
    obtain ⟨⟨rfl, rfl⟩, ha, hs⟩ := hadmits r ((w.server.redis.get_eq_ok sid r).mpr hr)
    rw [hsessions, hr] at hr'
    obtain rfl := Entry.record.inj hr'
    rw [hmeta]
    exact ⟨ha, hs, Nat.zero_le _⟩

theorem upload_iff (h : Consistent sid w) {u : Upload} {bytes : ByteArray}
    (hleft : w'.left = w.left) (hmeta : w'.metadata = some bytes)
    (hpath : u.relativePath = allowedMetadata) (hbytes : u.writeBytes serdeError = .ok bytes)
    (hredis : w'.server.redis = w.server.redis) (hrecord : ∃ r, w.server.redis.get sid = .ok r) :
    w'.TotalsAgree sid ∧ w'.CountersAgree sid ↔ w.Admits sid (.upload u) := by
  obtain ⟨hfield, htotal, -⟩ := field_enforce hpath hbytes
  have ha := hfield "annotated_steps" (by decide)
  have hs := hfield "skipped_steps" (by decide)
  obtain ⟨r, hr⟩ := hrecord
  have hr' : w'.server.redis.get sid = .ok r := hredis ▸ hr
  constructor
  · rintro ⟨htotals, hcounters⟩
    obtain ⟨hannotated, hskipped, hle⟩ := hcounters r hr'
    obtain ⟨hzero, hzero'⟩ := zero_of_le (h.zero hr) hle
    rw [hmeta, ha, hzero] at hannotated
    rw [hmeta, hs, hzero'] at hskipped
    refine ⟨?_, fun r₀ hr₀ => ?_, hannotated, hskipped⟩
    · by_contra hnot
      have hfinal := htotals (hleft.trans (Bool.eq_true_of_not_eq_false hnot)) r hr'
      rw [hmeta, htotal] at hfinal
      cases hfinal
    · obtain rfl := Except.ok.inj (hr.symm.trans hr₀)
      exact ⟨hzero, hzero'⟩
  · rintro ⟨hearly, hcounted, hannotated, hskipped⟩
    refine ⟨fun hw' => ?_, fun r₀ hr₀ => ?_⟩
    · rw [hleft, hearly] at hw'
      cases hw'
    · obtain rfl := Except.ok.inj (hr'.symm.trans hr₀)
      obtain ⟨hzero, hzero'⟩ := hcounted r hr
      rw [hmeta, ha, hs, hannotated, hskipped, hzero, hzero']
      exact ⟨rfl, rfl, Nat.zero_le _⟩

/-- A message mirrors the counters if and only if it is no accepted update or one
that counts nothing. -/
theorem message_iff (h : Consistent sid w) {update : Option Update} (hleft : w'.left = w.left)
    (hmeta : w'.metadata = (update.bind (Update.writes sid serdeError reply)).or w.metadata)
    (hrecord : ∀ r', w'.server.redis.sessions sid = .record r' →
      ∃ r, w.server.redis.sessions sid = .record r ∧ Revised r r')
    (heffect : ∀ u, update = some u → u.Accepted sid reply →
      u.Effect sid serdeError w.server.redis w'.server.redis) :
    (w'.TotalsAgree sid ∧ ((∃ u, update = some u ∧ u.Accepted sid reply) → w'.CountersAgree sid)) ↔
      ∀ u, update = some u → u.Accepted sid reply → w.Admits sid u := by
  by_cases haccepted : ∃ u, update = some u ∧ u.Accepted sid reply
  · obtain ⟨u, rfl, hu⟩ := haccepted
    have heffect := heffect u rfl hu
    have hboth : (w'.TotalsAgree sid ∧ w'.CountersAgree sid) ↔ w.Admits sid u := by
      cases u with
      | progress t annotated skipped =>
        have hsame : w'.metadata = w.metadata := hmeta
        rw [progress_iff h hsame hrecord heffect]
        exact and_iff_right (totalsAgree_of_same h (fun hw' => hleft ▸ hw') (by rw [hsame]) hrecord)
      | upload u =>
        obtain ⟨hredis, hr, bytes, hbytes⟩ := heffect
        have hwritten : w'.metadata = some bytes := by
          rw [hmeta, Option.bind_some, Update.writes, if_pos hu, hbytes]
          rfl
        exact upload_iff h hleft hwritten hu.2.1 hbytes hredis hr
    constructor
    · rintro ⟨htotals, hcounters⟩ u' hu' -
      obtain rfl := Option.some.inj hu'
      exact hboth.mp ⟨htotals, hcounters ⟨u, rfl, hu⟩⟩
    · intro hadmits
      obtain ⟨htotals, hcounters⟩ := hboth.mpr (hadmits u rfl hu)
      exact ⟨htotals, fun _ => hcounters⟩
  · have hsame : w'.metadata = w.metadata := by
      rw [hmeta]
      cases update with
      | none => rfl
      | some u =>
        have hu : ¬ u.Accepted sid reply := fun hu => haccepted ⟨u, rfl, hu⟩
        cases u with
        | progress t annotated skipped => rfl
        | upload u => rw [Option.bind_some, Update.writes, if_neg hu, Option.none_or]
    refine iff_of_true ⟨?_, fun hu => absurd hu haccepted⟩ fun u hu hok => absurd ⟨u, hu, hok⟩ haccepted
    exact totalsAgree_of_same h (fun hw' => hleft ▸ hw') (by rw [hsame]) hrecord

variable {readMetadata : ByteArray → Option MetadataFile}

theorem revised_annotator (b : String) (env : Env) (msg : InboundMessage) {r' : SessionRecord}
    (hr' : (handleAnnotatorMessage w.server env b msg).1.redis.sessions sid = .record r') :
    ∃ r, w.server.redis.sessions sid = .record r ∧ Revised r r' := by
  have hwrites : Writes (.annotator b env msg) w.server.redis _ := writes_annotator w.server env b msg
  exact hwrites.revised (fun ⟨_, _, hi, _⟩ => by cases hi) hr'

theorem revised_operator (control : String → Control) (env : OperatorEnv) (msg : OperatorMessage)
    (hfresh : Mirror.registers sid env msg = false) {r' : SessionRecord}
    (hr' : (handleMessage ⟨w.server, control⟩ env msg).1.server.redis.sessions sid = .record r') :
    ∃ r, w.server.redis.sessions sid = .record r ∧ Revised r r' := by
  have hwrites := writes_operator (s := ⟨w.server, control⟩) env msg
  refine hwrites.revised ?_ hr'
  rintro ⟨env', registration, hi, hsid⟩
  cases hi
  rw [Mirror.registers, hsid, decide_eq_true rfl] at hfresh
  cases hfresh

theorem revised_endLoop (doneCleanly wasDegraded : Bool) (renamed : Option String) {r' : SessionRecord}
    (hr' : (endLoop ⟨w.server, fun _ => .idle⟩ sid doneCleanly wasDegraded renamed).server.redis.sessions
      sid =
      .record r') :
    ∃ r, w.server.redis.sessions sid = .record r ∧ Revised r r' := by
  have hwrites : Writes (.expire sid) w.server.redis _ :=
    writes_endLoop ⟨w.server, fun _ => .idle⟩ sid doneCleanly wasDegraded renamed
  exact hwrites.revised (fun ⟨_, _, hi, _⟩ => by cases hi) hr'

theorem record_endLoop (doneCleanly wasDegraded : Bool) (renamed : Option String) {r : SessionRecord}
    (hr : w.server.redis.sessions sid = .record r) :
    ∃ r', (endLoop ⟨w.server, fun _ => .idle⟩ sid doneCleanly wasDegraded renamed).server.redis.sessions
      sid =
      .record r' := by
  have hstatus (new : SessionStatus) :
      (w.server.redis.updateStatus sid new).sessions sid = .record { r with status := new } := by
    rw [updateStatus_self, hr]
    rfl
  obtain heq | ⟨path, -, -, heq⟩ :=
    endLoop_eq ⟨w.server, fun _ => .idle⟩ sid doneCleanly wasDegraded renamed
  · rw [heq]
    exact ⟨_, hstatus _⟩
  · rw [heq]
    refine ⟨{ r with status := .incomplete, memoryPath := path }, ?_⟩
    exact (Function.update_self _ _ _).trans (congrArg (Entry.setMemoryPath path) (hstatus .incomplete))

theorem nat_inj {n k : Nat} (h : nat n = nat k) : n = k := by
  have hvalue := congrArg Json.Number.toNat? (Json.num.inj h)
  rw [Json.toNat?_ofNat, Json.toNat?_ofNat] at hvalue
  exact Option.some.inj hvalue

/-- The end of the capture mirrors the total if and only if it leaves none. -/
theorem ends_iff (h : Consistent sid w) (final : Option MetadataFile) (hleft : w'.left = true)
    (hmeta : w'.metadata = (final.map MetadataFile.write).or w.metadata)
    (hrecord : ∀ r', w'.server.redis.sessions sid = .record r' →
      ∃ r, w.server.redis.sessions sid = .record r ∧ Revised r r')
    (hkept : ∀ r, w.server.redis.sessions sid = .record r → ∃ r', w'.server.redis.sessions sid =
      .record r') :
    w'.TotalsAgree sid ↔ w.NoSteps sid final := by
  have htotal : field w'.metadata "total_steps" = some (nat 0) ↔ w.Empty final := by
    rw [hmeta]
    cases final with
    | none => exact Iff.rfl
    | some m =>
      rw [Option.map_some, Option.some_or, field_write]
      exact ⟨fun hzero => UInt32.toNat_inj.mp (nat_inj (Option.some.inj hzero)),
        fun hzero => by rw [hzero]; rfl⟩
  constructor
  · rintro htotals ⟨r, hr⟩
    obtain ⟨r', hr'⟩ := hkept r ((w.server.redis.get_eq_ok sid r).mp hr)
    obtain ⟨r₀, hr₀, hrevised⟩ := hrecord r' hr'
    have hagree := htotals hleft r' ((w'.server.redis.get_eq_ok sid r').mpr hr')
    rw [hrevised.totalSteps, h.none_counted r₀ hr₀] at hagree
    exact htotal.mp hagree
  · intro hnone _ r' hr'
    obtain ⟨r, hr, hrevised⟩ := hrecord r' ((w'.server.redis.get_eq_ok sid r').mp hr')
    rw [hrevised.totalSteps, h.none_counted r hr]
    exact htotal.mpr (hnone ⟨r, (w.server.redis.get_eq_ok sid r).mpr hr⟩)

/-- A step mirrors the counters if and only if it counts nothing. -/
theorem mirrored_iff (h : Consistent sid w) (act : Act) :
    w.Mirrored sid act (w.step sid readMetadata act) ↔ Uncounted sid readMetadata w act := by
  have hquiet : ∀ w' : Mirror, (w'.left = true → w.left = true) →
      field w'.metadata "total_steps" = field w.metadata "total_steps" →
      w'.server.redis.sessions = w.server.redis.sessions →
      (w'.TotalsAgree sid ∧ (False → w'.CountersAgree sid) ↔ True) := by
    intro w' hleft hmeta hsame
    refine iff_true_intro ⟨totalsAgree_of_same h hleft hmeta fun r' hr' => ?_, False.elim⟩
    exact ⟨r', hsame ▸ hr', .refl r'⟩
  cases act with
  | annotator b env msg =>
    exact message_iff h rfl rfl (fun r' hr' => revised_annotator b env msg hr')
      (effect_annotator sid w.server env b msg)
  | operator control env msg =>
    rw [Mirror.step]
    by_cases hfresh : Mirror.registers sid env msg = true
    · rw [if_pos hfresh]
      have hnone : Update.ofOperator msg = none := by
        cases msg with
        | registerSession registration => rfl
        | _ => cases hfresh
      refine iff_of_true ⟨h.agree, ?_⟩ fun u hu => by rw [hnone] at hu; cases hu
      rintro ⟨u, hu, -⟩
      rw [hnone] at hu
      cases hu
    · rw [if_neg hfresh]
      exact message_iff h rfl rfl
        (fun r' hr' => revised_operator control env msg (Bool.eq_false_of_not_eq_true hfresh) hr')
        (effect_operator sid ⟨w.server, control⟩ env msg)
  | expire t => exact hquiet _ id rfl rfl
  | client annotated skipped =>
    refine hquiet _ id ?_ rfl
    rw [Mirror.step]
    cases hfile : w.metadata with
    | none => rfl
    | some file =>
      rw [Option.bind_some]
      cases hnew : updateMetadataCounters annotated skipped file with
      | none => rfl
      | some file' =>
        obtain ⟨fields, hfields⟩ := h.text file hfile
        exact (field_client annotated skipped hfields hnew).1
  | start =>
    rw [Mirror.step]
    split
    · exact hquiet _ nofun rfl rfl
    · exact hquiet w id rfl rfl
  | event entry flushed =>
    rw [Mirror.step]
    split
    · rename_i m hm
      have hlive := h.live (by rw [hm]; rfl)
      refine iff_of_true ⟨fun hleft => ?_, False.elim⟩ trivial
      cases hlive.symm.trans hleft
    · exact hquiet w id rfl rfl
  | revise others flushed =>
    rw [Mirror.step]
    split
    · rename_i m hm
      have hlive := h.live (by rw [hm]; rfl)
      refine iff_of_true ⟨fun hleft => ?_, False.elim⟩ trivial
      cases hlive.symm.trans hleft
    · exact hquiet w id rfl rfl
  | finish now doneCleanly wasDegraded flushed renamed =>
    rw [Mirror.step, Uncounted]
    cases hm : w.recording with
    | none => exact (hquiet w id rfl rfl).trans (iff_of_true trivial fun hsome => by cases hsome)
    | some m =>
      dsimp only
      refine (and_iff_left False.elim).trans ?_
      exact (ends_iff h _ rfl rfl (fun r' hr' => revised_endLoop doneCleanly wasDegraded renamed hr')
        fun r hr => record_endLoop doneCleanly wasDegraded renamed hr).trans
        ⟨fun hnone _ => hnone, fun hnone => hnone rfl⟩
  | done now others written =>
    rw [Mirror.step, Uncounted]
    cases hm : w.recording with
    | some m => exact (hquiet w id rfl rfl).trans (iff_of_true trivial nofun)
    | none =>
      cases hr : w.server.redis.get sid with
      | error e =>
        refine (hquiet w id rfl rfl).trans (iff_of_true trivial ?_)
        rintro - ⟨r, hr'⟩
        rw [hr] at hr'
        cases hr'
      | ok r =>
        dsimp only
        refine (and_iff_left False.elim).trans ?_
        refine Iff.trans (ends_iff h (w.directMetadata readMetadata now others written) rfl rfl
          (fun r' hr' => ⟨r', hr', .refl r'⟩) fun r hr => ⟨r, hr⟩) ?_
        exact ⟨fun hnone _ => hnone, fun hnone => hnone rfl⟩

theorem text_write (final : Option MetadataFile) (h : Consistent sid w) {file : ByteArray}
    (hfile : (final.map MetadataFile.write).or w.metadata = some file) : ∃ fields, Contains file fields :=
      by
  cases final with
  | none => exact h.text file hfile
  | some m =>
    obtain rfl := Option.some.inj hfile
    exact ⟨m.fields, Tui.contains_write m⟩

theorem text_update (update : Option Update) (h : Consistent sid w) {file : ByteArray}
    (hfile : (update.bind (Update.writes sid serdeError reply)).or w.metadata = some file) :
    ∃ fields, Contains file fields := by
  cases hwritten : update.bind (Update.writes sid serdeError reply) with
  | none =>
    rw [hwritten] at hfile
    exact h.text file hfile
  | some bytes =>
    rw [hwritten] at hfile
    obtain rfl := Option.some.inj hfile
    obtain ⟨u, -, hu⟩ := Option.bind_eq_some_iff.mp hwritten
    cases u with
    | progress _ _ _ => cases hu
    | upload body =>
      rw [Update.writes] at hu
      split at hu
      · rename_i haccepted
        cases hbytes : body.writeBytes serdeError with
        | error e => rw [hbytes] at hu; cases hu
        | ok out =>
          rw [hbytes] at hu
          obtain rfl := Option.some.inj hu
          exact (field_enforce haccepted.2.1 hbytes).2.2
      · cases hu

/-- A loop that records keeps the file the text of an object. -/
theorem consistent_record (h : Consistent sid w) (hlive : w.left = false) (m : MetadataFile)
    (flushed : Bool) : Consistent sid (w.record m flushed) := by
  refine ⟨h.none_counted, fun file hfile => ?_, fun _ => hlive, fun hleft => ?_⟩
  · rw [Mirror.record] at hfile
    dsimp only at hfile
    split at hfile
    · obtain rfl := Option.some.inj hfile
      exact ⟨m.fields, Tui.contains_write m⟩
    · exact h.text file hfile
  · cases hlive.symm.trans hleft

theorem Consistent.revised (h : Consistent sid w) {redis : Redis}
    (hrecord : ∀ r', redis.sessions sid = .record r' →
      ∃ r, w.server.redis.sessions sid = .record r ∧ Revised r r') :
    ∀ r', redis.sessions sid = .record r' → r'.totalSteps = 0 := by
  intro r' hr'
  obtain ⟨r, hr, hrevised⟩ := hrecord r' hr'
  rw [hrevised.totalSteps]
  exact h.none_counted r hr

/-- A step that mirrors the counters keeps what the next one relies on. -/
theorem consistent_step (h : Consistent sid w) (act : Act)
    (hmirrored : w.Mirrored sid act (w.step sid readMetadata act)) :
    Consistent sid (w.step sid readMetadata act) := by
  have hagree := hmirrored.1
  cases act with
  | annotator b env msg =>
    exact ⟨h.revised fun r' hr' => revised_annotator b env msg hr', fun file =>
      text_update _ h, h.live, hagree⟩
  | operator control env msg =>
    rw [Mirror.step] at hagree ⊢
    by_cases hfresh : Mirror.registers sid env msg = true
    · rw [if_pos hfresh]
      exact h
    · rw [if_neg hfresh] at hagree ⊢
      exact ⟨h.revised fun r' hr' =>
          revised_operator control env msg (Bool.eq_false_of_not_eq_true hfresh) hr',
        fun file => text_update _ h, h.live, hagree⟩
  | expire t => exact ⟨h.none_counted, h.text, h.live, hagree⟩
  | client annotated skipped =>
    refine ⟨h.none_counted, fun file hfile => ?_, h.live, hagree⟩
    rw [Mirror.step] at hfile
    dsimp only at hfile
    cases hold : w.metadata with
    | none =>
      rw [hold] at hfile
      cases hfile
    | some old =>
      rw [hold, Option.bind_some] at hfile
      cases hnew : updateMetadataCounters annotated skipped old with
      | none =>
        rw [hnew] at hfile
        exact h.text file (hold.trans hfile)
      | some new =>
        rw [hnew] at hfile
        obtain rfl := Option.some.inj hfile
        obtain ⟨fields, hfields⟩ := h.text old hold
        exact (field_client annotated skipped hfields hnew).2
  | start =>
    rw [Mirror.step] at hagree ⊢
    split at hagree
    · exact ⟨h.none_counted, h.text, fun _ => rfl, hagree⟩
    · exact h
  | event entry flushed =>
    rw [Mirror.step]
    split
    · rename_i m hm
      exact consistent_record h (h.live (by rw [hm]; rfl)) (appendStep entry m) flushed
    · exact h
  | revise others flushed =>
    rw [Mirror.step]
    split
    · rename_i m hm
      exact consistent_record h (h.live (by rw [hm]; rfl)) (reviseOthers m others) flushed
    · exact h
  | finish now doneCleanly wasDegraded flushed renamed =>
    rw [Mirror.step] at hagree ⊢
    split at hagree
    · exact ⟨h.revised fun r' hr' => revised_endLoop doneCleanly wasDegraded renamed hr',
        fun file => text_write _ h, nofun, hagree⟩
    · exact h
  | done now others written =>
    rw [Mirror.step] at hagree ⊢
    split at hagree
    · rename_i hnone _
      refine ⟨h.none_counted, fun file => text_write _ h, fun hlive => ?_, hagree⟩
      rw [hnone] at hlive
      cases hlive
    · exact h

end Steps

/-- No record of the registry counts steps. -/
def NoTotals (redis : Redis) : Prop := ∀ sid r, redis.sessions sid = .record r → r.totalSteps = 0

theorem noTotals_write (i : SystemInput) (redis : Redis) (write : Write) (h : NoTotals redis)
    (hwrite : write.Of i) : NoTotals (write.apply redis) := by
  intro sid r' hr'
  obtain ⟨r, hr, hrevised⟩ | ⟨rfl, -⟩ := write.record_cases hr'
  · exact hrevised.totalSteps.trans (h sid r hr)
  · exact hwrite.2

theorem noTotals_run (server : Server) (is : List SystemInput) :
    NoTotals (run System.step (.start server) is).server.redis := by
  have hstart : NoTotals (System.start server).server.redis := fun _ _ hr => by cases hr
  exact kept_run noTotals_write _ is hstart

/-- A session before its capture, with the metadata.json that its registration
has written, if any. -/
def Mirror.start (server : Server) (metadata : Option MetadataFile) : Mirror :=
  ⟨server, metadata.map MetadataFile.write, none, false⟩

/-- The registry mirrors metadata.json in a run if and only if no step is
captured and no accepted update counts anything. -/
theorem counters_mirrored_iff (readMetadata : ByteArray → Option MetadataFile) (server : Server)
    (is : List SystemInput) (sid : String) (metadata : Option MetadataFile) (acts : List Act) :
    Along (Mirror.step sid readMetadata) (Mirror.Mirrored sid)
        (Mirror.start (run System.step (.start server) is).server metadata) acts ↔
      Guarded (Mirror.step sid readMetadata) (Uncounted sid readMetadata)
        (Mirror.start (run System.step (.start server) is).server metadata) acts := by
  have hstart : Consistent sid (Mirror.start (run System.step (.start server) is).server metadata) := by
    refine ⟨noTotals_run server is sid, fun file hfile => ?_, nofun, nofun⟩
    obtain ⟨m, -, rfl⟩ := Option.map_eq_some_iff.mp hfile
    exact ⟨m.fields, Tui.contains_write m⟩
  have hstep : ∀ w act, Consistent sid w →
      (w.Mirrored sid act (w.step sid readMetadata act) ↔ Uncounted sid readMetadata w act) :=
    fun w act h => mirrored_iff h act
  have hkeep : ∀ w act, Consistent sid w → w.Mirrored sid act (w.step sid readMetadata act) →
      Consistent sid (w.step sid readMetadata act) :=
    fun w act h hmirrored => consistent_step h act hmirrored
  exact along_iff_guarded_steps hstep hkeep _ acts hstart

/-- The metadata that a session is registered with. -/
def registeredMetadata : MetadataFile :=
  { Tui.capturedMetadata with
    status := "active"
    completedAt := none
    totalSteps := 0
    skippedImageFetches := [] }

def clickStep : ManifestEntry where
  stepId := 1
  timestamp := "2026-01-01T00:00:05Z"
  actionType := "mouse"
  actionSubtype := "click"
  imagePath := none
  imageFetched := false
  marked := false
  beforeImagePath := none
  afterImagePath := none
  rawCommand := "dm:10,20"
  convertedCommand := "click at 10, 20"
  recordSuspect := none

/-- A session is registered, and one step is captured before its Done. -/
def registration : List SystemInput :=
  [.operator lifecycleEnv (.registerSession ⟨"manual", "demo", none, none, "", ""⟩)]

def oneStep : List Act :=
  [.start, .event clickStep true, .finish "2026-01-01T00:01:00Z" true false true none]

def registeredRecord : SessionRecord where
  sessionId := "s1"
  mode := .manual
  status := .active
  memoryName := "demo"
  memoryPath := "/memories/demo"
  createdAt := "2026-02-25T12:58:04+00:00"
  totalSteps := 0
  annotatedSteps := 0
  skippedSteps := 0
  tenantId := ""
  storageBackend := "local"

theorem step_not_mirrored :
    ¬ Along (Mirror.step "s1" fun _ => some registeredMetadata) (Mirror.Mirrored "s1")
      (Mirror.start (run System.step (.start (sampleServer [])) registration).server
        (some registeredMetadata))
      oneStep := by
  rintro ⟨-, -, hfinish, -⟩
  have hr : (run System.step (.start (sampleServer [])) registration).server.redis.sessions "s1" =
      .record registeredRecord := by
    decide +kernel
  generalize (run System.step (.start (sampleServer [])) registration).server = server at hr hfinish
  have hget : server.redis.get "s1" = .ok registeredRecord := (server.redis.get_eq_ok "s1" _).mpr hr
  have hstart : (Mirror.start server (some registeredMetadata)).step "s1" (fun _ => some registeredMetadata)
      .start = ⟨server, some registeredMetadata.write, some registeredMetadata, false⟩ := by
    rw [Mirror.step, Mirror.start]
    dsimp only
    rw [hget]
    rfl
  rw [hstart] at hfinish
  -- The step is in the file, and the record has not heard of it.
  let recorded : Mirror := ⟨server, none, none, false⟩
  obtain ⟨r', hr'⟩ := record_endLoop (w := recorded) true false none hr
  obtain ⟨r, hr₀, hrevised⟩ := revised_endLoop (w := recorded) true false none hr'
  obtain rfl := Entry.record.inj (hr.symm.trans hr₀)
  have hagree := hfinish.1 rfl r' ((Redis.get_eq_ok _ _ _).mpr hr')
  change field (some (MetadataFile.write _)) "total_steps" = _ at hagree
  rw [field_write, hrevised.totalSteps] at hagree
  have hone := nat_inj (Option.some.inj hagree)
  revert hone
  decide

end MemoryArchive.Ipc.CounterMirror
