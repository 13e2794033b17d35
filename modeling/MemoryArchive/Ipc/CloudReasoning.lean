import MemoryArchive.Ipc.Lifecycle
import MemoryArchive.Reasoning.Upserts

namespace MemoryArchive.Ipc

open Capture (StepEntry)
open Reasoning Registry Runs Storage

/-- The program in cloud_primary mode, with the reasoning.jsonl below each memory
path of its scratch space and an account of the entries written for each session. -/
structure CloudWorld where
  system : System
  scratch : List Component → File
  history : String → List (Int × Json)

/-- `step` is what the session's metadata has for the step, `stored` whether the
storage takes the file, `annotatorId` who uploads, an operator if none. -/
inductive CloudInput
  | reasoningResult (sid : String) (stepId : UInt32) (step : Option StepEntry)
      (model : AutomatedReasoning) (now : String) (stored : Bool)
  | placeholders (sid : String) (steps : List StepEntry) (now : UInt32 → String) (stored : Bool)
  | upload (env : Env) (annotatorId : Option String) (sid : String) (bytes : ByteArray)
      (contentType : String)
  | register (env : OperatorEnv) (r : Registration) (metadata : Option ByteArray)
  | restart (keeps : List Component → Bool)

def scratchPlace (record : SessionRecord) : List Component := components record.memoryPath.toList

def reasoningUpload (sid : String) (bytes : ByteArray) (contentType : String) : Upload :=
  ⟨sid, allowedReasoning, bytes, contentType⟩

namespace CloudWorld

variable (w : CloudWorld)

def get (sid : String) : Except String SessionRecord := w.system.server.redis.get sid

def reasoningObject (sid : String) (record : SessionRecord) : Location :=
  .object (w.system.server.router.resolveForSession record) sid
    (record.memoryName ++ "/" ++ allowedReasoning)

def objectText (loc : Location) : Text := ((w.system.server.files loc).bind decodeUtf8).getD []

/-- The lines of the stored object of a session. -/
def storedRows (sid : String) (record : SessionRecord) : List (Int × Json) :=
  rowsOf (w.objectText (w.reasoningObject sid record))

/-- Put a file into the storage, if the storage takes it. A failure is only logged. -/
def put (loc : Location) (bytes : ByteArray) (stored : Bool) : CloudWorld :=
  if stored then
    { w with system.server.files := Function.update w.system.server.files loc (some bytes) }
  else w

/-- Entries are written to the scratch file, which is then stored as a whole. -/
def writeEntries (sid : String) (record : SessionRecord) (entries : List ReasoningEntry) (stored : Bool) :
    CloudWorld :=
  if entries.isEmpty then w
  else
    let file := upsertAll (w.scratch (scratchPlace record)) entries
    { w with
      scratch := Function.update w.scratch (scratchPlace record) file
      history := Function.update w.history sid (w.history sid ++ entries.map entryRow) }.put
      (w.reasoningObject sid record) (encodeUtf8 (file.getD [])) stored

/-- The entry of a ReasoningResult. -/
def resultEntry (stepId : UInt32) (step : Option StepEntry) (model : AutomatedReasoning) (now : String) :
    ReasoningEntry :=
  buildAutomatedEntry ((step.filter fun s => s.stepId = stepId).getD (bareStep stepId)) model now

/-- The entries that a message of the model writes for a session. -/
def modelEntries (record : SessionRecord) : CloudInput → List ReasoningEntry
  | .reasoningResult _ stepId step model now _ => [resultEntry stepId step model now]
  | .placeholders _ steps now _ => missingEntries (w.scratch (scratchPlace record)) steps now
  | _ => []

/-- A directory of the scratch space is removed with all that is below it. -/
def removeScratch (place : List Component) : CloudWorld :=
  { w with scratch := fun p => if place.isPrefixOf p then none else w.scratch p }

def sendUpload (env : Env) (annotatorId : Option String) (u : Upload) : Server × OutboundMessage :=
  match annotatorId with
  | none => uploadFile env.serdeError w.system.server env.fault u
  | some id => handleClaimedOp w.system.server env id (.uploadFile u)

/-- The lines of an upload as they are stored. -/
def uploadedRows (env : Env) (u : Upload) : List (Int × Json) :=
  match u.writeBytes env.serdeError with
  | .ok bytes => rowsOf ((decodeUtf8 bytes).getD [])
  | .error _ => []

def upload (env : Env) (annotatorId : Option String) (u : Upload) : CloudWorld :=
  match w.sendUpload env annotatorId u with
  | (server, .fileUploaded _ _) =>
      { w with
        system.server := server
        history := Function.update w.history u.sessionId
          (w.history u.sessionId ++ uploadedRows env u) }
  | (server, _) => { w with system.server := server }

/-- `initialise` removes what is left below the memory path, and the handler
removes the new directory once its metadata is stored. -/
def register (env : OperatorEnv) (r : Registration) (metadata : Option ByteArray) : CloudWorld :=
  let place := components (env.storagePath ++ "/" ++ r.memoryName).toList
  match registerSession w.system env r with
  | (system, .sessionRegistered sid) =>
      let w' := { w with system := system }.removeScratch place
      match w'.get sid with
      | .error _ => w'
      | .ok record =>
          w'.put (.object record.storageBackend sid (record.memoryName ++ "/" ++ allowedMetadata))
            (metadata.getD .empty) metadata.isSome
  | (system, .error code _) =>
      if code = "DIR_INIT_FAILED" ∧ env.dirRemoved then { w with system := system }.removeScratch place
      else { w with system := system }
  | (system, _) => { w with system := system }

def step (w : CloudWorld) (i : CloudInput) : CloudWorld :=
  match i with
  | .reasoningResult sid _ _ _ _ stored | .placeholders sid _ _ stored =>
      match w.get sid with
      | .error _ => w
      | .ok record => w.writeEntries sid record (w.modelEntries record i) stored
  | .upload env annotatorId sid bytes contentType =>
      w.upload env annotatorId (reasoningUpload sid bytes contentType)
  | .register env r metadata => w.register env r metadata
  | .restart keeps => { w with scratch := fun p => if keeps p then w.scratch p else none }

/-- The object of a session holds the last entry written for each step, and only
entries written for the session. -/
structure Intact (sid : String) (record : SessionRecord) : Prop where
  latest : ∀ k, lastFor (w.storedRows sid record) k = lastFor (w.history sid) k
  own : ∀ r ∈ w.storedRows sid record, r ∈ w.history sid

def AllIntact : Prop := ∀ sid record, w.get sid = .ok record → w.Intact sid record

/-- A world in order: a session that is not registered has no object and no
entry. -/
structure InOrder : Prop where
  mode : w.system.server.storageMode = "cloud_primary"
  intact : w.AllIntact
  blank : ∀ sid, w.system.server.redis.sessions sid = .absent → w.history sid = [] ∧
    ∀ backend name, w.objectText (.object backend sid (name ++ "/" ++ allowedReasoning)) = []

/-- What the scratch file has for every other step is what was last written for
the session. Where the storage takes nothing, nothing new may be written. -/
def Covered (sid : String) (record : SessionRecord) (entries : List ReasoningEntry) (stored : Bool) : Prop :=
  if entries.isEmpty then True
  else if stored then
    ∀ k, k ∉ entries.map ReasoningEntry.key →
      (keptEntries (w.scratch (scratchPlace record))).get? k = lastFor (w.history sid) k
  else ∀ k j, lastFor (entries.map entryRow) k = some j → lastFor (w.history sid) k = some j

/-- The steps that keep every object in order: a model writes what is covered, and
an upload has a line for every step that an entry was written for. -/
def Keeps (i : CloudInput) : Prop :=
  match i with
  | .reasoningResult sid _ _ _ _ stored | .placeholders sid _ _ stored =>
      ∀ record, w.get sid = .ok record → w.Covered sid record (w.modelEntries record i) stored
  | .upload env annotatorId sid bytes contentType =>
      let u := reasoningUpload sid bytes contentType
      (w.sendUpload env annotatorId u).2 = .fileUploaded sid allowedReasoning →
        ∀ k ∈ (w.history sid).map Prod.fst, k ∈ (uploadedRows env u).map Prod.fst
  | .register _ _ _ | .restart _ => True

variable {w}

/-- A step that leaves a session and its objects alone. -/
structure Leaves (w w' : CloudWorld) (sid : String) : Prop where
  entry : w'.system.server.redis.sessions sid = w.system.server.redis.sessions sid
  history : w'.history sid = w.history sid
  files : ∀ backend name,
    w'.system.server.files (.object backend sid (name ++ "/" ++ allowedReasoning)) =
      w.system.server.files (.object backend sid (name ++ "/" ++ allowedReasoning))

/-- The configuration does not change. -/
structure SameConfig (w w' : CloudWorld) : Prop where
  router : w'.system.server.router = w.system.server.router
  mode : w'.system.server.storageMode = w.system.server.storageMode

theorem SameConfig.refl (w : CloudWorld) : SameConfig w w := ⟨rfl, rfl⟩

theorem Leaves.refl (w : CloudWorld) (sid : String) : Leaves w w sid := ⟨rfl, rfl, fun _ _ => rfl⟩

theorem get_eq_ok {sid : String} {record : SessionRecord} :
    w.get sid = .ok record ↔ w.system.server.redis.sessions sid = .record record :=
  Redis.get_eq_ok _ _ _

theorem storedRows_of_leaves {w' : CloudWorld} (hc : SameConfig w w') {sid : String} (h : Leaves w w' sid)
    (record : SessionRecord) : w'.storedRows sid record = w.storedRows sid record := by
  rw [storedRows, storedRows, reasoningObject, reasoningObject, objectText, objectText, hc.router, h.files]

theorem Intact.of_leaves {w' : CloudWorld} (hc : SameConfig w w') {sid : String} (h : Leaves w w' sid)
    {record : SessionRecord} (hi : w.Intact sid record) : w'.Intact sid record := by
  have hrows := storedRows_of_leaves hc h record
  constructor
  · intro k
    rw [hrows, h.history]
    exact hi.latest k
  · intro r hr
    rw [hrows] at hr
    rw [h.history]
    exact hi.own r hr

/-- A step for one session keeps all objects in order when it keeps its own. -/
theorem allIntact_iff {w' : CloudWorld} (hw : w.InOrder) (hc : SameConfig w w') {sid : String}
    {record : SessionRecord} (hget : w'.get sid = .ok record)
    (hothers : ∀ t, t ≠ sid → Leaves w w' t) : w'.AllIntact ↔ w'.Intact sid record := by
  constructor
  · intro h
    exact h sid record hget
  · intro h t other ht
    by_cases he : t = sid
    · subst he
      rw [hget] at ht
      cases ht
      exact h
    · have hleaves := hothers t he
      rw [get_eq_ok, hleaves.entry, ← get_eq_ok] at ht
      exact (hw.intact t other ht).of_leaves hc hleaves

theorem InOrder.of_allIntact {w' : CloudWorld} (hw : w.InOrder) (hc : SameConfig w w')
    (hothers : ∀ sid, w'.system.server.redis.sessions sid = .absent → Leaves w w' sid)
    (h : w'.AllIntact) : w'.InOrder where
  mode := hc.mode.trans hw.mode
  intact := h
  blank sid hsid := by
    have hleaves := hothers sid hsid
    have habsent : w.system.server.redis.sessions sid = .absent := by rw [← hleaves.entry, hsid]
    obtain ⟨hhistory, hobjects⟩ := hw.blank sid habsent
    refine ⟨by rw [hleaves.history, hhistory], fun backend name => ?_⟩
    rw [objectText, hleaves.files]
    exact hobjects backend name

theorem lastFor_entries (entries : List ReasoningEntry) (k : Int) :
    lastFor (entries.map entryRow) k = none ↔ k ∉ entries.map ReasoningEntry.key := by
  rw [lastFor_eq_none, List.map_map]
  rfl

/-- An entry that was written for a step stands for it from then on. -/
theorem or_eq_or {α : Type} {o : Option α} {a b : Option α} :
    o.or a = o.or b ↔ (o = none → a = b) := by
  cases o <;> simp

theorem eq_or {α : Type} {o b : Option α} : o = o.or b ↔ (o = none → b = none) := by
  cases o <;> simp [eq_comm]

section Writes

variable {sid : String} {record : SessionRecord} {entries : List ReasoningEntry}

theorem writeEntries_leaves (stored : Bool) {t : String} (ht : t ≠ sid) :
    Leaves w (w.writeEntries sid record entries stored) t := by
  rw [writeEntries]
  split
  · exact Leaves.refl w t
  · cases stored with
    | false => exact ⟨rfl, Function.update_of_ne ht _ _, fun _ _ => rfl⟩
    | true =>
      refine ⟨rfl, Function.update_of_ne ht _ _, fun backend name => ?_⟩
      exact Function.update_of_ne (fun he => ht (Location.object.inj he).2.1) _ _

theorem writeEntries_config (stored : Bool) : SameConfig w (w.writeEntries sid record entries stored) := by
  rw [writeEntries]
  split
  · exact SameConfig.refl w
  · cases stored <;> exact ⟨rfl, rfl⟩

theorem get_writeEntries (stored : Bool) (t : String) :
    (w.writeEntries sid record entries stored).get t = w.get t := by
  rw [writeEntries]
  split
  · rfl
  · cases stored <;> rfl

theorem history_writeEntries (stored : Bool) (hne : entries.isEmpty = false) :
    (w.writeEntries sid record entries stored).history sid =
      w.history sid ++ entries.map entryRow := by
  rw [writeEntries, hne]
  cases stored <;> exact Function.update_self _ _ _

theorem storedRows_writeEntries (hne : entries.isEmpty = false) :
    (w.writeEntries sid record entries true).storedRows sid record =
      (keptEntries (upsertAll (w.scratch (scratchPlace record)) entries)).rows := by
  have hobject : (w.writeEntries sid record entries true).system.server.files
      (w.reasoningObject sid record) =
        some (encodeUtf8 ((upsertAll (w.scratch (scratchPlace record)) entries).getD [])) := by
    rw [writeEntries, hne]
    exact Function.update_self _ _ _
  have hloc : (w.writeEntries sid record entries true).reasoningObject sid record =
      w.reasoningObject sid record := by
    rw [reasoningObject, (writeEntries_config true).router]
    rfl
  rw [storedRows, hloc, objectText, hobject, Option.bind_some, decodeUtf8_encode, Option.getD_some]
  exact rowsOf_upsertAll _ entries (by simpa using hne)

/-- A model's write keeps the object in order just when it is covered. -/
theorem intact_writeEntries_iff (hi : w.Intact sid record) (stored : Bool) :
    (w.writeEntries sid record entries stored).Intact sid record ↔ w.Covered sid record entries stored := by
  cases hne : entries.isEmpty with
  | true =>
    rw [writeEntries, Covered, if_pos hne, if_pos hne]
    exact iff_of_true hi trivial
  | false =>
    have hhistory : (w.writeEntries sid record entries stored).history sid =
        w.history sid ++ entries.map entryRow := history_writeEntries stored hne
    rw [Covered, hne]
    cases stored with
    | true =>
      have hrows : (w.writeEntries sid record entries true).storedRows sid record =
          (keptEntries (upsertAll (w.scratch (scratchPlace record)) entries)).rows :=
        storedRows_writeEntries hne
      have hlast : ∀ k, lastFor ((w.writeEntries sid record entries true).storedRows sid record) k =
          lastFor ((w.writeEntries sid record entries true).history sid) k ↔
            (k ∉ entries.map ReasoningEntry.key →
              (keptEntries (w.scratch (scratchPlace record))).get? k = lastFor (w.history sid) k) := by
        intro k
        rw [hrows, hhistory, Table.lastFor_rows, keptEntries_upsertAll, lastFor_append, or_eq_or,
          lastFor_entries]
      refine ⟨fun h k => (hlast k).mp (h.latest k), fun h => ⟨fun k => (hlast k).mpr (h k), fun r hr => ?_⟩⟩
      obtain ⟨k, j⟩ := r
      have hget := (hlast k).mpr (h k)
      rw [hrows] at hr
      rw [hrows, Table.lastFor_rows, (Table.mem_rows_iff _ k j).mp hr] at hget
      exact mem_of_lastFor hget.symm
    | false =>
      have hrows : (w.writeEntries sid record entries false).storedRows sid record =
          w.storedRows sid record := by
        rw [writeEntries, hne]
        rfl
      have hlast : ∀ k, lastFor ((w.writeEntries sid record entries false).storedRows sid record) k =
          lastFor ((w.writeEntries sid record entries false).history sid) k ↔
            ∀ j, lastFor (entries.map entryRow) k = some j → lastFor (w.history sid) k = some j := by
        intro k
        rw [hrows, hhistory, lastFor_append, hi.latest]
        cases lastFor (entries.map entryRow) k with
        | none => simp
        | some j => simp
      refine ⟨fun h k => (hlast k).mp (h.latest k), fun h => ⟨fun k => (hlast k).mpr (h k), fun r hr => ?_⟩⟩
      rw [hrows] at hr
      rw [hhistory]
      exact List.mem_append_left _ (hi.own r hr)

end Writes

section Uploads

variable (env : Env) (annotatorId : Option String) (u : Upload)

theorem uploadFile_reply (s : Server) (fault : Option String) :
    (∃ code message, (uploadFile env.serdeError s fault u).2 = .error code message) ∨
      (uploadFile env.serdeError s fault u).2 = .fileUploaded u.sessionId u.relativePath := by
  unfold uploadFile
  repeat (first | exact .inl ⟨_, _, rfl⟩ | exact .inr rfl | split)

/-- An upload is refused and changes nothing, or it is the upload of an operator. -/
theorem sendUpload_cases :
    (∃ code message, w.sendUpload env annotatorId u = (w.system.server, .error code message)) ∨
      w.sendUpload env annotatorId u = uploadFile env.serdeError w.system.server env.fault u := by
  cases annotatorId with
  | none => exact .inr rfl
  | some id =>
    rw [sendUpload, handleClaimedOp]
    dsimp only [opSession]
    split
    · exact .inl ⟨_, _, rfl⟩
    · exact .inr rfl

theorem upload_refused {code message : String}
    (h : w.sendUpload env annotatorId u = (w.system.server, .error code message)) :
    w.upload env annotatorId u = w := by
  rw [upload, h]

/-- An accepted upload stores its lines as the session's object. -/
theorem upload_cases (hmode : w.system.server.storageMode = "cloud_primary") :
    (w.upload env annotatorId u = w ∧
        (w.sendUpload env annotatorId u).2 ≠ .fileUploaded u.sessionId u.relativePath) ∨
      ∃ record bytes, w.get u.sessionId = .ok record ∧ u.writeBytes env.serdeError = .ok bytes ∧
        (w.sendUpload env annotatorId u).2 = .fileUploaded u.sessionId u.relativePath ∧
        w.upload env annotatorId u =
          { w.put (.object (w.system.server.router.resolveForSession record) u.sessionId
              (record.memoryName ++ "/" ++ u.relativePath)) bytes true with
            history := Function.update w.history u.sessionId
              (w.history u.sessionId ++ uploadedRows env u) } := by
  obtain ⟨code, message, hsend⟩ | hsend := sendUpload_cases (w := w) env annotatorId u
  · exact .inl ⟨upload_refused env annotatorId u hsend, by rw [hsend]; simp⟩
  · obtain ⟨code, message, hreply⟩ | hreply := uploadFile_reply env u w.system.server env.fault
    · have hsame := uploadFile_refused env.serdeError _ _ u code message hreply
      have hrefused : w.sendUpload env annotatorId u = (w.system.server, .error code message) :=
        hsend.trans (Prod.ext hsame hreply)
      exact .inl ⟨upload_refused env annotatorId u hrefused, by rw [hrefused]; simp⟩
    · obtain ⟨record, loc, bytes, hrecord, hloc, hbytes, hserver⟩ :=
        uploadFile_accepted env.serdeError _ _ u hreply
      rw [Server.location, if_pos hmode] at hloc
      cases hloc
      refine .inr ⟨record, bytes, hrecord, hbytes, by rw [hsend, hreply], ?_⟩
      have hpair : w.sendUpload env annotatorId u =
          ((uploadFile env.serdeError w.system.server env.fault u).1,
            .fileUploaded u.sessionId u.relativePath) := hsend.trans (Prod.ext rfl hreply)
      rw [upload, hpair, hserver]
      rfl

/-- An accepted upload keeps the object in order just when it has a line for every
step that an entry was written for. -/
theorem intact_upload_iff {sid : String} {record : SessionRecord} {bytes written : ByteArray}
    {contentType : String}
    (hwritten : (reasoningUpload sid bytes contentType).writeBytes env.serdeError = .ok written)
    {w' : CloudWorld}
    (hw' : w' =
      { w.put (w.reasoningObject sid record) written true with
        history := Function.update w.history sid
          (w.history sid ++ uploadedRows env (reasoningUpload sid bytes contentType)) }) :
    w'.Intact sid record ↔ ∀ k ∈ (w.history sid).map Prod.fst,
      k ∈ (uploadedRows env (reasoningUpload sid bytes contentType)).map Prod.fst := by
  have hrows : w'.storedRows sid record = uploadedRows env (reasoningUpload sid bytes contentType) := by
    rw [uploadedRows, hwritten, hw']
    change rowsOf (((Function.update w.system.server.files (w.reasoningObject sid record) (some written)
      (w.reasoningObject sid record)).bind decodeUtf8).getD []) = _
    rw [Function.update_self, Option.bind_some]
  have hhistory : w'.history sid =
      w.history sid ++ uploadedRows env (reasoningUpload sid bytes contentType) := by
    rw [hw']
    exact Function.update_self _ _ _
  have hlast : ∀ k, lastFor (w'.storedRows sid record) k = lastFor (w'.history sid) k ↔
      (k ∈ (w.history sid).map Prod.fst →
        k ∈ (uploadedRows env (reasoningUpload sid bytes contentType)).map Prod.fst) := by
    intro k
    rw [hrows, hhistory, lastFor_append, eq_or, lastFor_eq_none, lastFor_eq_none]
    exact not_imp_not
  refine ⟨fun h k => (hlast k).mp (h.latest k), fun h => ⟨fun k => (hlast k).mpr (h k), fun r hr => ?_⟩⟩
  rw [hrows] at hr
  rw [hhistory]
  exact List.mem_append_right _ hr

end Uploads

section Registrations

/-- A registration changes the registry only, and there only a session that was
not there. -/
theorem registerSession_spec (s : System) (env : OperatorEnv) (r : Registration) :
    (registerSession s env r).1.server =
        { s.server with redis := (registerSession s env r).1.server.redis } ∧
      ∀ sid, (registerSession s env r).1.server.redis.sessions sid = s.server.redis.sessions sid ∨
        s.server.redis.sessions sid = .absent ∧
          ∃ record, (registerSession s env r).1.server.redis.sessions sid = .record record := by
  obtain heq | ⟨record, redis, hid, -, -, hregister, hset⟩ := registerSession_eq s env r
  · rw [heq]
    exact ⟨rfl, fun sid => .inl rfl⟩
  obtain ⟨habsent, hsessions⟩ := Redis.register_ok hregister
  rw [hid] at habsent hsessions
  have hothers : ∀ sid, sid ≠ env.sessionId → redis.sessions sid = s.server.redis.sessions sid := by
    intro sid hsid
    rw [hsessions]
    exact Function.update_of_ne hsid _ _
  have hown : ∃ record, redis.sessions env.sessionId = .record record := by
    rw [hsessions]
    exact ⟨_, Function.update_self _ _ _⟩
  obtain heq | heq := hset
  · rw [heq]
    refine ⟨rfl, fun sid => ?_⟩
    by_cases hsid : sid = env.sessionId
    · subst hsid
      exact .inr ⟨habsent, hown⟩
    · exact .inl (hothers sid hsid)
  · rw [heq]
    refine ⟨rfl, fun sid => ?_⟩
    by_cases hsid : sid = env.sessionId
    · subst hsid
      obtain ⟨record, hrecord⟩ := hown
      have hset : (redis.updateStatus env.sessionId .incomplete).sessions env.sessionId =
          .record { record with status := .incomplete } := by
        rw [Redis.updateStatus, hrecord]
        exact Function.update_self _ _ _
      exact .inr ⟨habsent, _, hset⟩
    · refine .inl ((Function.update_of_ne hsid _ _).trans (hothers sid hsid))

theorem reasoning_ne_metadata (name name' : String) :
    name ++ "/" ++ allowedReasoning ≠ name' ++ "/" ++ allowedMetadata := by
  intro h
  have hlast := congrArg (fun text => text.toList.getLast?) h
  simp [allowedReasoning, allowedMetadata, String.toList_append] at hlast

/-- What a registration leaves of the world, besides the scratch space. -/
structure Registers (w w' : CloudWorld) : Prop where
  config : SameConfig w w'
  history : w'.history = w.history
  files : ∀ backend sid name,
    w'.system.server.files (.object backend sid (name ++ "/" ++ allowedReasoning)) =
      w.system.server.files (.object backend sid (name ++ "/" ++ allowedReasoning))
  sessions : ∀ sid,
    w'.system.server.redis.sessions sid = w.system.server.redis.sessions sid ∨
      w.system.server.redis.sessions sid = .absent ∧
        ∃ record, w'.system.server.redis.sessions sid = .record record

theorem Registers.put {w' : CloudWorld} (h : Registers w w') (backend sid name : String)
    (bytes : ByteArray) (stored : Bool) :
    Registers w (w'.put (.object backend sid (name ++ "/" ++ allowedMetadata)) bytes stored) := by
  cases stored with
  | false => exact h
  | true =>
    refine ⟨⟨h.config.router, h.config.mode⟩, h.history, fun backend' sid' name' => ?_, h.sessions⟩
    rw [← h.files]
    exact Function.update_of_ne (fun he => reasoning_ne_metadata _ _ (Location.object.inj he).2.2) _ _

theorem registers (env : OperatorEnv) (r : Registration) (metadata : Option ByteArray) :
    Registers w (w.register env r metadata) := by
  obtain ⟨hserver, hsessions⟩ := registerSession_spec w.system env r
  have hsystem : ∀ scratch, Registers w ⟨(registerSession w.system env r).1, scratch, w.history⟩ := by
    intro scratch
    refine ⟨⟨?_, ?_⟩, rfl, fun backend sid name => ?_, hsessions⟩
    · rw [hserver]
    · rw [hserver]
    · rw [hserver]
  rw [register]
  cases hreply : registerSession w.system env r with
  | mk system reply =>
    rw [hreply] at hsystem
    cases reply with
    | sessionRegistered sid =>
      dsimp only
      split
      · exact hsystem _
      · exact (hsystem _).put _ _ _ _ _
    | error code message =>
      dsimp only
      split
      · exact hsystem _
      · exact hsystem _
    | _ => exact hsystem _

theorem Registers.leaves {w' : CloudWorld} (h : Registers w w') {sid : String}
    (hsid : w'.system.server.redis.sessions sid = w.system.server.redis.sessions sid) :
    Leaves w w' sid :=
  ⟨hsid, congrFun h.history sid, fun backend name => h.files backend sid name⟩

/-- A registration keeps all objects in order: a new session has none. -/
theorem allIntact_of_registers {w' : CloudWorld} (hw : w.InOrder) (h : Registers w w') : w'.AllIntact := by
  intro sid record hget
  rw [get_eq_ok] at hget
  obtain hsame | ⟨habsent, -⟩ := h.sessions sid
  · rw [hsame, ← get_eq_ok] at hget
    exact (hw.intact sid record hget).of_leaves h.config (h.leaves hsame)
  · obtain ⟨hhistory, hobjects⟩ := hw.blank sid habsent
    have hrows : w'.storedRows sid record = [] := by
      have htext : w'.objectText (w'.reasoningObject sid record) = [] := by
        rw [objectText, reasoningObject, h.files]
        exact hobjects _ _
      rw [storedRows, htext]
      rfl
    have hnone : w'.history sid = [] := by rw [h.history, hhistory]
    refine ⟨fun k => by rw [hrows, hnone], fun r hr => ?_⟩
    rw [hrows] at hr
    cases hr

theorem inOrder_of_registers {w' : CloudWorld} (hw : w.InOrder) (h : Registers w w') : w'.InOrder := by
  refine hw.of_allIntact h.config (fun sid hsid => ?_) (allIntact_of_registers hw h)
  obtain hsame | ⟨-, record, hrecord⟩ := h.sessions sid
  · exact h.leaves hsame
  · rw [hsid] at hrecord
    cases hrecord

end Registrations

section Steps

/-- A step that reaches every session's object in order, or keeps it as it was. -/
structure Decides (w w' : CloudWorld) (keeps : Prop) : Prop where
  exact : w'.AllIntact ↔ keeps
  inOrder : w'.AllIntact → w'.InOrder

theorem decides_of_leaves {w' : CloudWorld} (hw : w.InOrder) (hc : SameConfig w w')
    (h : ∀ sid, Leaves w w' sid) {keeps : Prop} (hkeeps : keeps) : Decides w w' keeps := by
  have hall : w'.AllIntact := by
    intro sid record hget
    rw [get_eq_ok, (h sid).entry, ← get_eq_ok] at hget
    exact (hw.intact sid record hget).of_leaves hc (h sid)
  exact ⟨iff_of_true hall hkeeps, hw.of_allIntact hc fun sid _ => h sid⟩

/-- A step for one session. -/
theorem decides_of_session {w' : CloudWorld} (hw : w.InOrder) (hc : SameConfig w w') {sid : String}
    {record : SessionRecord} (hget : w.get sid = .ok record) (hget' : w'.get sid = .ok record)
    (hothers : ∀ t, t ≠ sid → Leaves w w' t) {keeps : Prop} (hkeeps : w'.Intact sid record ↔ keeps) :
    Decides w w' keeps := by
  refine ⟨(allIntact_iff hw hc hget' hothers).trans hkeeps, hw.of_allIntact hc fun t ht => hothers t ?_⟩
  rintro rfl
  rw [get_eq_ok] at hget'
  rw [hget'] at ht
  cases ht

theorem decides_model (hw : w.InOrder) (i : CloudInput) (sid : String) (stored : Bool)
    (hstep : w.step i = match w.get sid with
      | .error _ => w
      | .ok record => w.writeEntries sid record (w.modelEntries record i) stored) :
    Decides w (w.step i)
      (∀ record, w.get sid = .ok record → w.Covered sid record (w.modelEntries record i) stored) := by
  rw [hstep]
  cases hget : w.get sid with
  | error e =>
    exact decides_of_leaves hw (.refl w) (Leaves.refl w) fun record h => by cases h
  | ok record =>
    refine decides_of_session hw (writeEntries_config stored) hget ?_
      (fun t ht => writeEntries_leaves stored ht) ?_
    · rw [get_writeEntries, hget]
    · rw [intact_writeEntries_iff (hw.intact sid record hget)]
      constructor
      · intro h other hother
        cases hother
        exact h
      · intro h
        exact h record rfl

theorem decides_upload (hw : w.InOrder) (env : Env) (annotatorId : Option String) (sid : String)
    (bytes : ByteArray) (contentType : String) :
    Decides w (w.step (.upload env annotatorId sid bytes contentType))
      (w.Keeps (.upload env annotatorId sid bytes contentType)) := by
  change Decides w (w.upload env annotatorId (reasoningUpload sid bytes contentType)) _
  obtain ⟨hsame, hreply⟩ | ⟨record, written, hget, hwritten, hreply, hworld⟩ :=
    upload_cases env annotatorId (reasoningUpload sid bytes contentType) hw.mode
  · rw [hsame]
    exact decides_of_leaves hw (.refl w) (Leaves.refl w) fun h => absurd h hreply
  · have hintact := intact_upload_iff env hwritten hworld
    have hconfig : SameConfig w (w.upload env annotatorId (reasoningUpload sid bytes contentType)) := by
      rw [hworld]
      exact ⟨rfl, rfl⟩
    have hget' : (w.upload env annotatorId (reasoningUpload sid bytes contentType)).get sid = .ok record := by
      rw [hworld]
      exact hget
    refine decides_of_session hw hconfig hget hget' (fun t ht => ?_) (hintact.trans ?_)
    · rw [hworld]
      refine ⟨rfl, Function.update_of_ne ht _ _, fun backend name => ?_⟩
      exact Function.update_of_ne (fun he => ht (Location.object.inj he).2.1) _ _
    · exact ⟨fun h _ => h, fun h => h hreply⟩

theorem decides_step (hw : w.InOrder) (i : CloudInput) : Decides w (w.step i) (w.Keeps i) := by
  cases i with
  | reasoningResult sid stepId step model now stored => exact decides_model hw _ sid stored rfl
  | placeholders sid steps now stored => exact decides_model hw _ sid stored rfl
  | upload env annotatorId sid bytes contentType =>
    exact decides_upload hw env annotatorId sid bytes contentType
  | register env r metadata =>
    have hregisters := registers (w := w) env r metadata
    exact ⟨iff_of_true (allIntact_of_registers hw hregisters) trivial,
      fun _ => inOrder_of_registers hw hregisters⟩
  | restart keeps =>
    have hleaves : ∀ sid, Leaves w (w.step (.restart keeps)) sid := fun sid => ⟨rfl, rfl, fun _ _ => rfl⟩
    have hconfig : SameConfig w (w.step (.restart keeps)) := ⟨rfl, rfl⟩
    exact decides_of_leaves hw hconfig hleaves trivial

end Steps

section Scratch

/-- The scratch file has just what was last written for the session. -/
def InStep (w : CloudWorld) (sid : String) (record : SessionRecord) : Prop :=
  ∀ k, (keptEntries (w.scratch (scratchPlace record))).get? k = lastFor (w.history sid) k

/-- The steps that leave the scratch file to the session: no other session writes
below its memory path, nothing is uploaded for it, no registration takes its
memory path, and a restart keeps the file. -/
def Spares (w : CloudWorld) (sid : String) (record : SessionRecord) : CloudInput → Prop
  | .reasoningResult t _ _ _ _ _ | .placeholders t _ _ _ =>
      t = sid ∨ ∀ other, w.get t = .ok other → scratchPlace other ≠ scratchPlace record
  | .upload _ _ t _ _ => t ≠ sid
  | .register env r _ =>
      (components (env.storagePath ++ "/" ++ r.memoryName).toList).isPrefixOf (scratchPlace record) = false
  | .restart keeps => keeps (scratchPlace record) = true

variable {sid : String} {record : SessionRecord}

/-- What the scratch file is in step with is covered. -/
theorem covered_of_inStep (h : w.InStep sid record) (entries : List ReasoningEntry) :
    w.Covered sid record entries true := by
  rw [Covered]
  split
  · trivial
  · exact fun k _ => h k

theorem scratch_writeEntries (entries : List ReasoningEntry) (stored : Bool) :
    (w.writeEntries sid record entries stored).scratch =
      Function.update w.scratch (scratchPlace record)
        (upsertAll (w.scratch (scratchPlace record)) entries) := by
  rw [writeEntries]
  split
  · rename_i hne
    rw [List.isEmpty_iff.mp hne]
    exact (Function.update_eq_self _ _).symm
  · cases stored <;> rfl

theorem inStep_writeEntries (h : w.InStep sid record) (entries : List ReasoningEntry) (stored : Bool) :
    (w.writeEntries sid record entries stored).InStep sid record := by
  cases hne : entries.isEmpty with
  | true =>
    rw [writeEntries, if_pos hne]
    exact h
  | false =>
    intro k
    rw [scratch_writeEntries, Function.update_self, history_writeEntries stored hne, keptEntries_upsertAll,
      lastFor_append, h k]

theorem inStep_of_same {w' : CloudWorld} (h : w.InStep sid record)
    (hscratch : w'.scratch (scratchPlace record) = w.scratch (scratchPlace record))
    (hhistory : w'.history sid = w.history sid) : w'.InStep sid record := by
  intro k
  rw [hscratch, hhistory]
  exact h k

theorem scratch_register (env : OperatorEnv) (r : Registration) (metadata : Option ByteArray)
    (place : List Component)
    (hplace : (components (env.storagePath ++ "/" ++ r.memoryName).toList).isPrefixOf place = false) :
    (w.register env r metadata).scratch place = w.scratch place := by
  have hremoved : ∀ system, (CloudWorld.removeScratch ⟨system, w.scratch, w.history⟩
      (components (env.storagePath ++ "/" ++ r.memoryName).toList)).scratch place = w.scratch place := by
    intro system
    rw [removeScratch]
    dsimp only
    rw [hplace]
    rfl
  rw [register]
  cases registerSession w.system env r with
  | mk system reply =>
    cases reply with
    | sessionRegistered t =>
      dsimp only
      split
      · exact hremoved system
      · cases metadata with
        | none => exact hremoved system
        | some bytes => exact hremoved system
    | error code message =>
      dsimp only
      split
      · exact hremoved system
      · rfl
    | _ => rfl

theorem inStep_model (h : w.InStep sid record) (hget : w.get sid = .ok record) (i : CloudInput) (t : String)
    (stored : Bool)
    (hstep : w.step i = match w.get t with
      | .error _ => w
      | .ok other => w.writeEntries t other (w.modelEntries other i) stored)
    (hspares : t = sid ∨ ∀ other, w.get t = .ok other → scratchPlace other ≠ scratchPlace record) :
    (w.step i).InStep sid record := by
  rw [hstep]
  cases hother : w.get t with
  | error e => exact h
  | ok other =>
    by_cases ht : t = sid
    · subst ht
      rw [hget] at hother
      cases hother
      exact inStep_writeEntries h _ stored
    · have hplace := hspares.resolve_left ht other hother
      refine inStep_of_same h ?_ ((writeEntries_leaves stored (Ne.symm ht)).history)
      rw [scratch_writeEntries]
      exact Function.update_of_ne (Ne.symm hplace) _ _

/-- A step that spares the scratch file keeps it in step. -/
theorem inStep_step (hmode : w.system.server.storageMode = "cloud_primary") (h : w.InStep sid record)
    (hget : w.get sid = .ok record) (i : CloudInput) (hspares : w.Spares sid record i) : (w.step i).InStep sid record := by
  cases i with
  | reasoningResult t stepId step model now stored => exact inStep_model h hget _ t stored rfl hspares
  | placeholders t steps now stored => exact inStep_model h hget _ t stored rfl hspares
  | upload env annotatorId t bytes contentType =>
    change (w.upload env annotatorId (reasoningUpload t bytes contentType)).InStep sid record
    obtain ⟨hsame, -⟩ | ⟨_, _, _, _, _, hworld⟩ :=
      upload_cases env annotatorId (reasoningUpload t bytes contentType) hmode
    · rw [hsame]
      exact h
    · rw [hworld]
      exact inStep_of_same h rfl (Function.update_of_ne (Ne.symm hspares) _ _)
  | register env r metadata =>
    exact inStep_of_same h (scratch_register env r metadata _ hspares)
      (congrFun (registers (w := w) env r metadata).history sid)
  | restart keeps => exact inStep_of_same h (if_pos hspares) rfl

/-- No step changes the configuration or the record of a registered session. -/
theorem record_step (hmode : w.system.server.storageMode = "cloud_primary") (hget : w.get sid = .ok record)
    (i : CloudInput) : SameConfig w (w.step i) ∧ (w.step i).get sid = .ok record := by
  have hmodel : ∀ t stored, (w.step i = match w.get t with
      | .error _ => w
      | .ok other => w.writeEntries t other (w.modelEntries other i) stored) →
      SameConfig w (w.step i) ∧ (w.step i).get sid = .ok record := by
    intro t stored hstep
    rw [hstep]
    cases w.get t with
    | error e => exact ⟨.refl w, hget⟩
    | ok other => exact ⟨writeEntries_config stored, by rw [get_writeEntries, hget]⟩
  cases i with
  | reasoningResult t stepId step model now stored => exact hmodel t stored rfl
  | placeholders t steps now stored => exact hmodel t stored rfl
  | upload env annotatorId t bytes contentType =>
    change SameConfig w (w.upload env annotatorId (reasoningUpload t bytes contentType)) ∧
      (w.upload env annotatorId (reasoningUpload t bytes contentType)).get sid = .ok record
    obtain ⟨hsame, -⟩ | ⟨_, _, _, _, _, hworld⟩ :=
      upload_cases env annotatorId (reasoningUpload t bytes contentType) hmode
    · rw [hsame]
      exact ⟨.refl w, hget⟩
    · rw [hworld]
      exact ⟨⟨rfl, rfl⟩, hget⟩
  | register env r metadata =>
    have hregisters := registers (w := w) env r metadata
    refine ⟨hregisters.config, ?_⟩
    rw [get_eq_ok] at hget ⊢
    obtain hsame | ⟨habsent, -⟩ := hregisters.sessions sid
    · exact hsame.trans hget
    · rw [habsent] at hget
      cases hget
  | restart keeps => exact ⟨⟨rfl, rfl⟩, hget⟩

/-- In a run that spares the scratch file of a session, each of its model's writes
is covered. -/
theorem inStep_run (is : List CloudInput) (hmode : w.system.server.storageMode = "cloud_primary")
    (hget : w.get sid = .ok record) (h : w.InStep sid record)
    (hg : Guarded step (fun w i => w.Spares sid record i) w is) : (run step w is).InStep sid record := by
  have hstep : ∀ (w : CloudWorld) (i : CloudInput),
      (w.system.server.storageMode = "cloud_primary" ∧ w.get sid = .ok record ∧ w.InStep sid record) →
      w.Spares sid record i →
      (w.step i).system.server.storageMode = "cloud_primary" ∧ (w.step i).get sid = .ok record ∧
        (w.step i).InStep sid record := by
    rintro w i ⟨hm, hr, hs⟩ hi
    obtain ⟨hconfig, hrecord⟩ := record_step hm hr i
    exact ⟨hconfig.mode.trans hm, hrecord, inStep_step hm hs hr i hi⟩
  exact (invariant_run hstep w is ⟨hmode, hget, h⟩ hg).2.2

theorem inStep_blank (hscratch : w.scratch (scratchPlace record) = none) (hhistory : w.history sid = []) :
    w.InStep sid record := by
  intro k
  rw [hscratch, hhistory]
  rfl

theorem keeps_result {stepId : UInt32} {metadata : Option StepEntry} {model : AutomatedReasoning}
    {now : String} (hget : w.get sid = .ok record) (h : w.InStep sid record) :
    w.Keeps (.reasoningResult sid stepId metadata model now true) := by
  intro other hother
  rw [hget] at hother
  cases hother
  exact covered_of_inStep h _

end Scratch

end CloudWorld

/-- The objects stay in order along a run just when each of its steps keeps them. -/
theorem cloud_reasoning_intact (w : CloudWorld) (is : List CloudInput) (hw : w.InOrder) :
    Along CloudWorld.step (fun _ _ w' => w'.AllIntact) w is ↔ Guarded CloudWorld.step CloudWorld.Keeps w is :=
  along_iff_guarded_of (fun _ i h => (CloudWorld.decides_step h i).exact)
    (fun _ i h hnext => (CloudWorld.decides_step h i).inOrder hnext) w is hw

/-- A program that has not registered any session. -/
def cloudStart : CloudWorld where
  system :=
    { server :=
        { storageMode := "cloud_primary"
          router := ⟨["s3"], [], by simp⟩
          redis := ⟨fun _ => .absent, fun _ => [], fun _ => none, fun _ => none⟩
          files := fun _ => none }
      control := fun _ => .idle }
  scratch _ := none
  history _ := []

theorem inOrder_cloudStart : cloudStart.InOrder where
  mode := rfl
  intact sid record h := by cases h
  blank sid _ := ⟨rfl, fun _ _ => rfl⟩

def modelText (reasoning : String) : AutomatedReasoning where
  reasoning := reasoning
  source := "model"
  provider := some "openai"
  modelId := some "gpt"
  apiVersion := some "1"
  inputTokens := some 120
  outputTokens := some 30
  latencyMs := some 900
  actionIntent := none
  confidence := none
  keyboardVisualAnnotation := none

/-- A session under the memory name demo. -/
def registerDemo (sid : String) : CloudInput :=
  .register { lifecycleEnv with sessionId := sid } ⟨"automated", "demo", none, none, "", ""⟩ none

def demoRecord (sid : String) : SessionRecord where
  sessionId := sid
  mode := .automated
  status := .active
  memoryName := "demo"
  memoryPath := "/memories/demo"
  createdAt := "2026-02-25T12:58:04+00:00"
  totalSteps := 0
  annotatedSteps := 0
  skippedSteps := 0
  tenantId := ""
  storageBackend := "s3"

def result (sid : String) (stepId : UInt32) : CloudInput :=
  .reasoningResult sid stepId none (modelText "Opens the menu.") "now" true

def humanUpload (body : String) : CloudInput :=
  .upload lifecycleEnv.env none "s1" body.toByteArray "application/json"

/-- The model writes two steps with a restart between them, and a person goes over
both. -/
def oneSession : List CloudInput :=
  [registerDemo "s1", result "s1" 1, .restart fun _ => true, result "s1" 2,
    humanUpload "\x7b\"step_id\": 1\x7d\n\x7b\"step_id\": 2\x7d\n"]

theorem cloud_reasoning_intact_one :
    Along CloudWorld.step (fun _ _ w' => w'.AllIntact) cloudStart oneSession := by
  refine (cloud_reasoning_intact cloudStart oneSession inOrder_cloudStart).mpr ?_
  have hget : (cloudStart.step (registerDemo "s1")).get "s1" = .ok (demoRecord "s1") :=
    CloudWorld.get_eq_ok.mpr (by decide +kernel)
  have hfirst : (cloudStart.step (registerDemo "s1")).InStep "s1" (demoRecord "s1") :=
    CloudWorld.inStep_blank (by decide +kernel) rfl
  have hlater := CloudWorld.inStep_run [result "s1" 1, .restart fun _ => true] rfl hget hfirst
    ⟨.inl rfl, rfl, trivial⟩
  have hget' : (run CloudWorld.step cloudStart (oneSession.take 3)).get "s1" = .ok (demoRecord "s1") :=
    CloudWorld.get_eq_ok.mpr (by decide +kernel)
  refine ⟨trivial, CloudWorld.keeps_result hget hfirst, trivial,
    CloudWorld.keeps_result hget' hlater, fun _ => ?_, trivial⟩
  decide +kernel

/-- A restart loses the scratch space between two results. -/
def lostScratch : List CloudInput :=
  [registerDemo "s1", result "s1" 1, .restart fun _ => false, result "s1" 2]

/-- Two sessions have one memory name, and with it one scratch file. -/
def sharedName : List CloudInput :=
  [registerDemo "s1", registerDemo "s2", result "s1" 1, result "s2" 2]

/-- A person goes over the first step before the model writes the second. -/
def uploadBetween : List CloudInput :=
  [registerDemo "s1", result "s1" 1, humanUpload "\x7b\"step_id\": 1\x7d\n", result "s1" 2]

/-- A result that is stored writes one entry. -/
theorem step_result {w : CloudWorld} {sid : String} {record : SessionRecord} {stepId : UInt32}
    (hget : w.get sid = .ok record) :
    w.step (result sid stepId) = w.writeEntries sid record
      [CloudWorld.resultEntry stepId none (modelText "Opens the menu.") "now"] true := by
  rw [result, CloudWorld.step, hget]
  rfl

/-- The storage takes an upload of an operator. -/
theorem upload_operator {w : CloudWorld} {sid : String} {record : SessionRecord} {bytes : ByteArray}
    (hmode : w.system.server.storageMode = "cloud_primary") (hget : w.get sid = .ok record)
    (hsize : bytes.size ≤ maxUploadBytes)
    (hrows : CloudWorld.uploadedRows lifecycleEnv.env (reasoningUpload sid bytes "application/json") ≠ []) :
    (w.step (.upload lifecycleEnv.env none sid bytes "application/json")).scratch = w.scratch ∧
      (w.step (.upload lifecycleEnv.env none sid bytes "application/json")).history sid =
        w.history sid ++
          CloudWorld.uploadedRows lifecycleEnv.env (reasoningUpload sid bytes "application/json") := by
  have hreply : (w.sendUpload lifecycleEnv.env none (reasoningUpload sid bytes "application/json")).2 =
      .fileUploaded sid allowedReasoning := by
    cases hbytes : (reasoningUpload sid bytes "application/json").writeBytes lifecycleEnv.env.serdeError with
    | error e => simp [CloudWorld.uploadedRows, hbytes] at hrows
    | ok written =>
      have hlocation : w.system.server.location record sid allowedReasoning =
          .ok (w.reasoningObject sid record) := if_pos hmode
      have hsize' : ¬ maxUploadBytes < (reasoningUpload sid bytes "application/json").bytes.size :=
        Nat.not_lt.mpr hsize
      have hget' : w.system.server.redis.get sid = .ok record := hget
      rw [CloudWorld.sendUpload, uploadFile, if_neg (by simp [reasoningUpload]), if_neg hsize', hbytes]
      dsimp only [reasoningUpload]
      rw [hget']
      dsimp only
      rw [hlocation]
      rfl
  obtain ⟨-, hrefused⟩ | ⟨_, _, _, _, _, hworld⟩ :=
    CloudWorld.upload_cases lifecycleEnv.env none (reasoningUpload sid bytes "application/json") hmode
  · exact absurd hreply hrefused
  · rw [CloudWorld.step, hworld]
    exact ⟨rfl, Function.update_self _ _ _⟩

/-- The object loses the first step, holds a step of the other session, or falls
back to the model's entry of the first step. -/
theorem cloud_reasoning_lost :
    ¬ Along CloudWorld.step (fun _ _ w' => w'.AllIntact) cloudStart lostScratch ∧
      ¬ Along CloudWorld.step (fun _ _ w' => w'.AllIntact) cloudStart sharedName ∧
      ¬ Along CloudWorld.step (fun _ _ w' => w'.AllIntact) cloudStart uploadBetween := by
  have hstep : ∀ (w : CloudWorld) (i : CloudInput), w.InOrder →
      ((w.step i).AllIntact ↔ w.Keeps i) :=
    fun w i h => (CloudWorld.decides_step h i).exact
  have hkeep : ∀ (w : CloudWorld) (i : CloudInput), w.InOrder → (w.step i).AllIntact →
      (w.step i).InOrder :=
    fun w i h hnext => (CloudWorld.decides_step h i).inOrder hnext
  have hguarded : ∀ is, Along CloudWorld.step (fun _ _ w' => w'.AllIntact) cloudStart is →
      Guarded CloudWorld.step CloudWorld.Keeps cloudStart is := fun is =>
    (along_iff_guarded_of hstep hkeep cloudStart is inOrder_cloudStart).mp
  -- In each run the scratch file is behind when the second result comes in.
  have hcovered : ∀ (w : CloudWorld) (sid : String), w.get sid = .ok (demoRecord sid) →
      w.Keeps (result sid 2) →
      (keptEntries (w.scratch (scratchPlace (demoRecord sid)))).get? 1 = lastFor (w.history sid) 1 := by
    intro w sid hget hkeeps
    have hkey : (1 : Int) ∉ [CloudWorld.resultEntry 2 none (modelText "Opens the menu.") "now"].map
        ReasoningEntry.key := by decide +kernel
    exact hkeeps (demoRecord sid) hget 1 hkey
  have hget : (cloudStart.step (registerDemo "s1")).get "s1" = .ok (demoRecord "s1") :=
    CloudWorld.get_eq_ok.mpr (by decide +kernel)
  refine ⟨fun h => ?_, fun h => ?_, fun h => ?_⟩
  · have hget' : (run CloudWorld.step cloudStart (lostScratch.take 3)).get "s1" = .ok (demoRecord "s1") :=
      CloudWorld.get_eq_ok.mpr (by decide +kernel)
    have hlost := hcovered _ "s1" hget' (hguarded lostScratch h).2.2.2.1
    have hhistory : (run CloudWorld.step cloudStart (lostScratch.take 3)).history "s1" =
        [entryRow (CloudWorld.resultEntry 1 none (modelText "Opens the menu.") "now")] := by
      change ((cloudStart.step (registerDemo "s1")).step (result "s1" 1)).history "s1" = _
      rw [step_result hget]
      exact CloudWorld.history_writeEntries true rfl
    rw [hhistory] at hlost
    cases hlost
  · have hgets : ∀ sid ∈ ["s1", "s2"],
        (run CloudWorld.step cloudStart (sharedName.take 2)).get sid = .ok (demoRecord sid) := by
      intro sid hsid
      obtain rfl | rfl : sid = "s1" ∨ sid = "s2" := by simpa using hsid
      · exact CloudWorld.get_eq_ok.mpr (by decide +kernel)
      · exact CloudWorld.get_eq_ok.mpr (by decide +kernel)
    have hrun : run CloudWorld.step cloudStart (sharedName.take 3) =
        (run CloudWorld.step cloudStart (sharedName.take 2)).writeEntries "s1" (demoRecord "s1")
          [CloudWorld.resultEntry 1 none (modelText "Opens the menu.") "now"] true :=
      step_result (hgets "s1" (by simp))
    have hget' : (run CloudWorld.step cloudStart (sharedName.take 3)).get "s2" = .ok (demoRecord "s2") := by
      rw [hrun, CloudWorld.get_writeEntries]
      exact hgets "s2" (by simp)
    have hforeign := hcovered _ "s2" hget' (hguarded sharedName h).2.2.2.1
    have hplace : scratchPlace (demoRecord "s2") = scratchPlace (demoRecord "s1") := rfl
    rw [hrun, hplace, CloudWorld.scratch_writeEntries, Function.update_self, keptEntries_upsertAll,
      (CloudWorld.writeEntries_leaves true (by decide)).history] at hforeign
    cases hforeign
  · have hrows : CloudWorld.uploadedRows lifecycleEnv.env
        (reasoningUpload "s1" "\x7b\"step_id\": 1\x7d\n".toByteArray "application/json") ≠ [] := by
      decide +kernel
    have hget' : (run CloudWorld.step cloudStart (uploadBetween.take 2)).get "s1" = .ok (demoRecord "s1") :=
      CloudWorld.get_eq_ok.mpr (by decide +kernel)
    obtain ⟨hscratch, hhistory⟩ := upload_operator rfl hget' (by decide +kernel) hrows
    have hget'' := (CloudWorld.record_step rfl hget' (humanUpload "\x7b\"step_id\": 1\x7d\n")).2
    have hsource := hcovered _ "s1" hget'' (hguarded uploadBetween h).2.2.2.1
    have hrun : run CloudWorld.step cloudStart (uploadBetween.take 2) =
        (cloudStart.step (registerDemo "s1")).writeEntries "s1" (demoRecord "s1")
          [CloudWorld.resultEntry 1 none (modelText "Opens the menu.") "now"] true :=
      step_result hget
    rw [humanUpload, hscratch, hhistory, hrun, CloudWorld.scratch_writeEntries, Function.update_self,
      keptEntries_upsertAll, lastFor_append] at hsource
    have hhuman : ((lastFor (CloudWorld.uploadedRows lifecycleEnv.env
        (reasoningUpload "s1" "\x7b\"step_id\": 1\x7d\n".toByteArray "application/json")) 1).map
          fun j => (j.get? "source").bind asString) = some (some "human") := by
      decide +kernel
    cases hlast : lastFor (CloudWorld.uploadedRows lifecycleEnv.env
        (reasoningUpload "s1" "\x7b\"step_id\": 1\x7d\n".toByteArray "application/json")) 1 with
    | none => simp [hlast] at hhuman
    | some j =>
      rw [hlast] at hhuman hsource
      have hmodel := congrArg (Option.map fun j => (j.get? "source").bind asString) hsource
      rw [Option.some_or, hhuman] at hmodel
      revert hmodel
      decide +kernel

end MemoryArchive.Ipc
