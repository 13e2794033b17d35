import MemoryArchive.Ipc.NoGhosts
import MemoryArchive.Storage.Disk

namespace MemoryArchive.Ipc

open Capture (Control LoopControl)
open Registry Runs Storage

/-- What the directory of an interrupted session is marked with. -/
def incompleteMark : String := " (incomplete)"

/-- `Uuid::parse_str`, of which only the shape of what it accepts counts. -/
structure UuidTest where
  test : String → Bool
  plain : ∀ text, test text = true → Plain text ∧ ∀ name, text ≠ name ++ incompleteMark

/-- The directory of a watch loop and the session in the metadata that it has
read there. -/
structure LoopDir where
  path : String
  owner : String

/-- The program in local mode with its disk. Closing images are fetched in the
background, into the directory that the session had at its Done. A session is
created when its RegisterSession has made its directory. -/
structure LocalWorld where
  system : System
  root : String
  uuid : UuidTest
  dirs : Dirs
  loopDirs : String → Nat → Option LoopDir
  closing : List (String × String)
  created : String → Bool

inductive LocalInput
  | register (env : OperatorEnv) (r : Registration) (leavesDir : Bool)
  | startWatch (env : OperatorEnv) (sid : String)
  | done (env : OperatorEnv) (sid : String)
  | delete (env : OperatorEnv) (sid : String) (force : Bool)
  | connect (sid : String) (id : Nat) (connected : Bool)
  | event (sid : String) (id : Nat)
  | leave (sid : String) (id : Nat) (doneCleanly : Bool)
  | finish (sid : String) (id : Nat) (placeholders : Bool) (renamed : Option String)
  | closingImage (k : Nat)

/-- A change below a path on behalf of a session. -/
structure Touch where
  sid : String
  path : List Component
  removes : Bool
  deriving DecidableEq

/-- A touch changes something inside a directory, or takes the directory away. -/
def Touch.Reaches (t : Touch) (d : List Component) : Prop :=
  d <+: t.path ∨ t.removes = true ∧ t.path <+: d

def entryPath : Entry → Option String
  | .record r => some r.memoryPath
  | .absent | .fragment _ => none

/-- The memory path of the record of a session. -/
def recordPath (redis : Redis) (sid : String) : Option String := entryPath (redis.sessions sid)

namespace LocalWorld

variable (w : LocalWorld)

/-- The disk answers for a path what a message asks about it. -/
def envFor (env : OperatorEnv) (path : String) : OperatorEnv :=
  { env with
    storagePath := w.root
    isUuid := w.uuid.test
    dirExists := fun path => (w.dirs (place path)).isSome
    dirError :=
      if (w.dirs (place path)).isSome then
        some s!"Memory directory already exists: {path} — choose a different memory_name"
      else env.dirError
    metadataLoads := env.metadataLoads && (w.dirs.owner (place path)).isSome }

def memoryPath? (sid : String) : Option String := recordPath w.system.server.redis sid

/-- The directory of a loop in a phase. -/
def loopDir? (sid : String) (id : Nat) (inPhase : LoopControl → Bool) : Option LoopDir :=
  match (w.system.control sid).loop? id with
  | some l => if inPhase l then w.loopDirs sid id else none
  | none => none

def isConnecting (l : LoopControl) : Bool := l.phase = .connecting

def isRunning (l : LoopControl) : Bool := l.phase = .running

def isLeaving (doneCleanly : Bool) (l : LoopControl) : Bool := l.phase = .leaving doneCleanly

/-- The directories that `initialise` makes for a session. -/
def memoryDirs (dirs : Dirs) (p : List Component) : Dirs :=
  let sub (names : List String) := p ++ names.map fun name => Component.normal name.toList
  ((dirs.make (sub ["commands"])).make (sub ["vision", "frames"])).make (sub ["reasoning"])

/-- A registration whose directory cannot be made leaves its record behind, and
maybe a part of the directory. -/
def register (env : OperatorEnv) (r : Registration) (leavesDir : Bool) : LocalWorld :=
  let path := w.root ++ "/" ++ r.memoryName
  match registerSession w.system (w.envFor env path) r with
  | (system, .sessionRegistered sid) =>
      { w with
        system := system
        dirs := (memoryDirs w.dirs (place path)).setOwner (place path) sid
        created := Function.update w.created sid true }
  | (system, _) =>
      if recordPath system.server.redis env.sessionId = w.memoryPath? env.sessionId then
        { w with system := system }
      else
        { w with
          system := system
          dirs :=
            if (w.dirs (place path)).isNone && leavesDir then memoryDirs w.dirs (place path) else w.dirs
          created := Function.update w.created env.sessionId false }

def startWatch (env : OperatorEnv) (sid : String) : LocalWorld :=
  match w.memoryPath? sid with
  | none => w
  | some path =>
      let id := (w.system.control sid).nextLoop
      { w with
        system := (Ipc.startWatch w.system (w.envFor env path) sid).1
        loopDirs := Function.update w.loopDirs sid (Function.update (w.loopDirs sid) id
          ((w.dirs.owner (place path)).map fun owner => ⟨path, owner⟩)) }

def done (env : OperatorEnv) (sid : String) : LocalWorld :=
  match w.memoryPath? sid with
  | none => { w with system := (Ipc.done w.system env sid).1 }
  | some path =>
      { w with
        system := (Ipc.done w.system env sid).1
        closing := w.closing ++ [(sid, path)] }

/-- `purge_memory_dir` removes a directory only from its owner. -/
def purge (dirs : Dirs) (sid : String) (p : List Component) : Dirs :=
  if dirs.owner p = some sid then dirs.removeTree p else dirs

def delete (env : OperatorEnv) (sid : String) (force : Bool) : LocalWorld :=
  match Ipc.deleteSession w.system (w.envFor env "") sid force with
  | (system, .sessionDeleted _ _ _ _ _) =>
      let dirs := w.dirs.removeTree (place (w.root ++ "/" ++ sid))
      { w with
        system := system
        dirs :=
          match w.memoryPath? sid with
          | none => dirs
          | some path => purge (purge dirs sid (place path)) sid (place (path ++ incompleteMark)) }
  | (system, _) => { w with system := system }

/-- A loop writes the metadata that it holds. -/
def flush (dir : LoopDir) : LocalWorld :=
  { w with dirs := w.dirs.setOwner (place dir.path) dir.owner }

def connect (sid : String) (id : Nat) (connected : Bool) : LocalWorld :=
  let w' := { w with system := connectLoop w.system sid id connected }
  match w.loopDir? sid id isConnecting with
  | some dir => if connected then w'.flush dir else w'
  | none => w'

def event (sid : String) (id : Nat) : LocalWorld :=
  match w.loopDir? sid id isRunning with
  | some dir => w.flush dir
  | none => w

/-- The place of the directory of an interrupted session. A directory is not
marked twice. -/
def incompletePlace (p : List Component) : Option (List Component) :=
  match p.getLast? with
  | some (.normal name) =>
      if incompleteMark.toList.isSuffixOf name then some p
      else some (p.dropLast ++ [.normal (name ++ incompleteMark.toList)])
  | _ => none

/-- The disk after `mark_incomplete`, whose rename succeeds when there is a
directory to move and nothing in its way. -/
def rename (p : List Component) (renamed : Option String) : Option (String × Dirs) :=
  match renamed with
  | none => none
  | some path =>
      if incompletePlace p = some (place path) then
        if place path = p then some (path, w.dirs)
        else if (w.dirs p).isSome && (w.dirs (place path)).isNone then
          some (path, w.dirs.moveTree p (place path))
        else none
      else none

def finish (sid : String) (id : Nat) (placeholders : Bool) (renamed : Option String) : LocalWorld :=
  match w.loopDir? sid id (isLeaving true), w.loopDir? sid id (isLeaving false) with
  | some dir, _ =>
      let w' := { w with system := finishLoop w.system sid id none }.flush dir
      if placeholders then
        { w' with dirs := w'.dirs.make (place dir.path ++ [.normal "reasoning".toList]) }
      else w'
  | none, some dir =>
      match w.rename (place dir.path) renamed with
      | some (path, dirs) =>
          { w with system := finishLoop w.system sid id (some path), dirs := dirs }
      | none => { w with system := finishLoop w.system sid id none }
  | none, none => { w with system := finishLoop w.system sid id none }

def step (w : LocalWorld) : LocalInput → LocalWorld
  | .register env r leavesDir => w.register env r leavesDir
  | .startWatch env sid => w.startWatch env sid
  | .done env sid => w.done env sid
  | .delete env sid force => w.delete env sid force
  | .connect sid id connected => w.connect sid id connected
  | .event sid id => w.event sid id
  | .leave sid id doneCleanly => { w with system := w.system.watch sid (.leave id doneCleanly) }
  | .finish sid id placeholders renamed => w.finish sid id placeholders renamed
  | .closingImage k => { w with closing := w.closing.eraseIdx k }

/-- What an input changes on the disk, and for which session. -/
def touches (w : LocalWorld) : LocalInput → List Touch
  | .register env r _ =>
      let path := w.root ++ "/" ++ r.memoryName
      let system := (registerSession w.system (w.envFor env path) r).1
      if (w.dirs (place path)).isSome ∨
          recordPath system.server.redis env.sessionId = w.memoryPath? env.sessionId then []
      else [⟨env.sessionId, place path, false⟩]
  | .done _ sid =>
      match (w.system.control sid).handle, w.memoryPath? sid with
      | none, some path => [⟨sid, place path, false⟩]
      | _, _ => []
  | .delete env sid force =>
      match (Ipc.deleteSession w.system (w.envFor env "") sid force).2 with
      | .sessionDeleted _ _ _ _ _ =>
          let owned :=
            match w.memoryPath? sid with
            | none => []
            | some path => [place path, place (path ++ incompleteMark)].filter fun p =>
                w.dirs.owner p = some sid
          ⟨sid, place (w.root ++ "/" ++ sid), true⟩ :: owned.map fun p => ⟨sid, p, true⟩
      | _ => []
  | .connect sid id connected =>
      match w.loopDir? sid id isConnecting with
      | some dir => if connected then [⟨sid, place dir.path, false⟩] else []
      | none => []
  | .event sid id =>
      match w.loopDir? sid id isRunning with
      | some dir => [⟨sid, place dir.path, false⟩]
      | none => []
  | .finish sid id _ renamed =>
      match w.loopDir? sid id (isLeaving true), w.loopDir? sid id (isLeaving false) with
      | some dir, _ => [⟨sid, place dir.path, false⟩]
      | none, some dir =>
          match w.rename (place dir.path) renamed with
          | some (path, _) => [⟨sid, place dir.path, true⟩, ⟨sid, place path, false⟩]
          | none => [⟨sid, place dir.path, false⟩]
      | none, none => []
  | .closingImage k =>
      match w.closing[k]? with
      | some (sid, path) => [⟨sid, place path, false⟩]
      | none => []
  | .startWatch _ _ | .leave _ _ _ => []

/-- An input changes nothing inside a directory whose metadata names another
session. -/
def Respects (w : LocalWorld) (i : LocalInput) (_ : LocalWorld) : Prop :=
  ∀ t ∈ w.touches i, ∀ d owner, w.dirs.owner d = some owner → owner ≠ t.sid → ¬ t.Reaches d

/-- The session has made its directory, and it is the one that a loop or a
closing image still has. -/
def holds (sid path : String) : Bool := w.created sid && w.memoryPath? sid = some path

/-- No memory is named like a session id; a session is recorded or finished only
if its RegisterSession made its directory, and only in the directory that its
record still names. -/
def Careful (w : LocalWorld) : LocalInput → Bool
  | .register _ r _ => !w.uuid.test r.memoryName
  | .startWatch _ sid | .done _ sid => (w.memoryPath? sid).isNone || w.created sid
  | .connect sid id connected =>
      !connected || (w.loopDir? sid id isConnecting).all fun dir => w.holds sid dir.path
  | .event sid id => (w.loopDir? sid id isRunning).all fun dir => w.holds sid dir.path
  | .finish sid id _ _ =>
      ((w.loopDir? sid id (isLeaving true)).all fun dir => w.holds sid dir.path) &&
        (w.loopDir? sid id (isLeaving false)).all fun dir => w.holds sid dir.path
  | .closingImage k => (w.closing[k]?).all fun c => w.holds c.1 c.2
  | .delete _ _ _ | .leave _ _ _ => true

/-- Where the directories of the root are. -/
def base : List Component := place (w.root ++ "/")

/-- Directories with an owner lie side by side, and a created session owns the
directory that its record names. -/
structure Owned : Prop where
  flat : ∀ d owner, w.dirs.owner d = some owner →
    ∃ name, Plain name ∧ w.uuid.test name = false ∧ d = w.base ++ [.normal name.toList]
  created : ∀ sid path, w.created sid = true → w.memoryPath? sid = some path →
    w.dirs.owner (place path) = some sid
  loops : ∀ sid id dir, w.loopDirs sid id = some dir → dir.owner = sid
  inLocal : w.system.server.storageMode ≠ "cloud_primary"

end LocalWorld

section Paths

variable {redis redis' : Redis}

theorem recordPath_update {t : String} {e : Entry}
    (h : redis'.sessions = Function.update redis.sessions t e) (sid : String) :
    recordPath redis' sid = if sid = t then entryPath e else recordPath redis sid := by
  rw [recordPath, h, Function.update_apply]
  split
  · rfl
  · rfl

@[simp] theorem recordPath_updateStatus (t : String) (new : SessionStatus) :
    recordPath (redis.updateStatus t new) = recordPath redis := by
  funext sid
  rw [recordPath_update rfl sid]
  split
  · rename_i hsid
    rw [hsid, recordPath]
    cases redis.sessions t with
    | absent => rfl
    | fragment status => rfl
    | record r => rfl
  · rfl

theorem recordPath_updateMemoryPath (t path sid : String) :
    recordPath (redis.updateMemoryPath t path) sid =
      if sid = t then (recordPath redis t).map fun _ => path else recordPath redis sid := by
  rw [recordPath_update rfl sid]
  split
  · rw [recordPath]
    cases redis.sessions t with
    | absent => rfl
    | fragment status => rfl
    | record r => rfl
  · rfl

variable (s : System)

theorem recordPath_startWatch (env : OperatorEnv) (sid : String) :
    recordPath (startWatch s env sid).1.server.redis = recordPath s.server.redis := by
  obtain heq | ⟨r, -, -, heq | heq⟩ := startWatch_eq s env sid
  · rw [heq]
  · rw [heq]
    rfl
  · rw [heq]
    exact recordPath_updateStatus sid .incomplete

theorem recordPath_done (env : OperatorEnv) (sid : String) :
    recordPath (done s env sid).1.server.redis = recordPath s.server.redis := by
  obtain heq | heq | ⟨r, -, heq⟩ := done_eq s env sid
  · rw [heq]
  · rw [heq]
    rfl
  · rw [heq]
    exact recordPath_updateStatus sid _

theorem recordPath_connectLoop (sid : String) (id : Nat) (connected : Bool) :
    recordPath (connectLoop s sid id connected).server.redis = recordPath s.server.redis := by
  obtain heq | ⟨_, -, -, ⟨-, heq⟩ | ⟨-, heq⟩⟩ := connectLoop_eq s sid id connected
  · rw [heq]
  · rw [heq]
    rfl
  · rw [heq]
    exact recordPath_updateStatus sid .incomplete

/-- The end of a loop changes no path but that of its session, to the one that
its directory was renamed to. -/
theorem recordPath_finishLoop (sid : String) (id : Nat) (renamed : Option String) (t : String) :
    recordPath (finishLoop s sid id renamed).server.redis t = recordPath s.server.redis t ∨
      t = sid ∧ ∃ path, renamed = some path ∧
        recordPath (finishLoop s sid id renamed).server.redis t =
          (recordPath s.server.redis sid).map fun _ => path := by
  obtain heq | ⟨l, doneCleanly, -, -, heq⟩ := finishLoop_eq s sid id renamed
  · rw [heq]
    exact .inl rfl
  rw [heq]
  have hset : ∀ new, recordPath ((s.watch sid (.finish id)).setStatus sid new).server.redis =
      recordPath s.server.redis := fun new => recordPath_updateStatus sid new
  obtain hend | ⟨path, hrenamed, -, hend⟩ :=
    endLoop_eq (s.watch sid (.finish id)) sid doneCleanly l.wasDegraded renamed
  · rw [hend, hset]
    exact .inl rfl
  · have hpath : recordPath (((s.watch sid (.finish id)).setStatus sid .incomplete).setRedis
        (((s.watch sid (.finish id)).setStatus sid .incomplete).server.redis.updateMemoryPath
          sid path)).server.redis t = _ := recordPath_updateMemoryPath sid path t
    rw [hset] at hpath
    rw [hend]
    by_cases ht : t = sid
    · rw [if_pos ht] at hpath
      exact .inr ⟨ht, path, hrenamed, hpath⟩
    · rw [if_neg ht] at hpath
      exact .inl hpath

/-- A check that answers with an error message where it fails. -/
def Refuses {α : Type} (x : Except OutboundMessage α) : Prop := ∀ m, x = .error m → m.IsError

theorem refuses_ok {α : Type} (a : α) : Refuses (.ok a) := fun _ h => by cases h

theorem refuses_error {α : Type} (code message : String) :
    Refuses (.error (.error code message) : Except OutboundMessage α) := by
  intro m h
  cases h
  exact ⟨code, message, rfl⟩

theorem Refuses.bind {α γ : Type} {x : Except OutboundMessage α} {f : α → Except OutboundMessage γ}
    (hx : Refuses x) (hf : ∀ a, Refuses (f a)) : Refuses (x >>= f) := by
  intro m h
  cases x with
  | error m' =>
    cases h
    exact hx m rfl
  | ok a => exact hf a m h

theorem refuses_firstError (checks : List (Bool × String)) : Refuses (firstError checks) := by
  induction checks with
  | nil => exact refuses_ok ()
  | cons c checks ih =>
    rw [firstError]
    split
    · exact refuses_error _ _
    · exact ih

theorem refuses_config (cfg : SessionConfig) : Refuses cfg.check := by
  rw [SessionConfig.check]
  refine (refuses_firstError _).bind fun _ => ?_
  split
  · exact refuses_ok ()
  · exact refuses_firstError _

theorem refuses_cleanTenantId (tenantId : Option String) : Refuses (cleanTenantId tenantId) := by
  cases tenantId with
  | none => exact refuses_ok ""
  | some tenantId =>
    rw [cleanTenantId]
    split
    · exact refuses_error _ _
    split
    · exact refuses_error _ _
    split
    · exact refuses_ok _
    · exact refuses_error _ _

theorem refuses_checkServerAddr (debugText : String → String) (field addr : String) :
    Refuses (checkServerAddr debugText field addr) := by
  rw [checkServerAddr]
  split
  · exact refuses_ok ()
  · exact refuses_error _ _

theorem refuses_parseMode (mode : String) : Refuses (parseMode mode) := by
  rw [parseMode]
  split
  · exact refuses_ok _
  split
  · exact refuses_ok _
  · exact refuses_error _ _

theorem refuses_check (debugText : String → String) (r : Registration) :
    Refuses (r.check debugText) := by
  have hrest : ∀ u : Unit, Refuses (do
      let tenantId ← cleanTenantId r.tenantId
      checkServerAddr debugText "capture_server_addr" r.captureServerAddr
      checkServerAddr debugText "the_eyes_addr" r.theEyesAddr
      r.sessionConfig.elim (.ok ()) SessionConfig.check
      let mode ← parseMode r.mode
      .ok (tenantId, mode)) := by
    intro _
    refine (refuses_cleanTenantId _).bind fun tenantId => ?_
    refine (refuses_checkServerAddr _ _ _).bind fun _ => ?_
    refine (refuses_checkServerAddr _ _ _).bind fun _ => Refuses.bind ?_ fun _ => ?_
    · cases r.sessionConfig with
      | none => exact refuses_ok ()
      | some cfg => exact refuses_config cfg
    · exact (refuses_parseMode _).bind fun mode => refuses_ok _
  rw [Registration.check]
  by_cases hbad : badMemoryName r.memoryName = true
  · rw [if_pos hbad]
    exact refuses_error _ _
  · rw [if_neg hbad]
    exact hrest ()

theorem plain_of_good {name : String} (h : badMemoryName name = false) : Plain name := by
  simp only [badMemoryName, Bool.or_eq_false_iff, decide_eq_false_iff_not] at h
  obtain ⟨⟨⟨⟨hempty, hslash⟩, -⟩, -⟩, hdot⟩ := h
  refine ⟨?_, ?_, ?_, ?_⟩
  · rintro rfl
    exact hempty rfl
  · rintro rfl
    exact hdot rfl
  · rintro rfl
    exact hdot rfl
  · intro hmem
    rw [List.contains_iff_mem.mpr hmem] at hslash
    cases hslash

theorem plain_of_check {debugText : String → String} {r : Registration} {x : String × SessionMode}
    (h : r.check debugText = .ok x) : Plain r.memoryName := by
  refine plain_of_good (Bool.eq_false_iff.mpr fun hbad => ?_)
  rw [Registration.check, if_pos hbad] at h
  cases h

/-- RegisterSession either changes nothing, or it stores a record with its path
under an id that stored none, and says whether the directory was made. -/
theorem registerSession_cases (env : OperatorEnv) (r : Registration) :
    (registerSession s env r).1 = s ∧ (∀ sid, (registerSession s env r).2 ≠ .sessionRegistered sid) ∨
      Plain r.memoryName ∧ recordPath s.server.redis env.sessionId = none ∧
        (∀ sid, recordPath (registerSession s env r).1.server.redis sid =
          if sid = env.sessionId then some (env.storagePath ++ "/" ++ r.memoryName)
          else recordPath s.server.redis sid) ∧
        (registerSession s env r).2 =
          match env.dirError with
          | none => .sessionRegistered env.sessionId
          | some e => .error "DIR_INIT_FAILED" e := by
  rw [registerSession]
  split
  · rename_i e he
    refine .inl ⟨rfl, fun sid hsid => ?_⟩
    obtain ⟨code, message, hm⟩ := refuses_check env.debugText r e he
    cases hm.symm.trans hsid
  rename_i tenantId mode hcheck
  dsimp only
  split
  · exact .inl ⟨rfl, fun sid hsid => by cases hsid⟩
  rename_i redis hregister
  obtain ⟨habsent, hsessions⟩ := Redis.register_ok hregister
  have hpath : ∀ sid, recordPath redis sid =
      if sid = env.sessionId then some (env.storagePath ++ "/" ++ r.memoryName)
      else recordPath s.server.redis sid := fun sid => recordPath_update hsessions sid
  have hnone : recordPath s.server.redis env.sessionId = none := by
    rw [recordPath, habsent]
    rfl
  refine .inr ⟨plain_of_check hcheck, hnone, ?_⟩
  cases env.dirError with
  | none => exact ⟨hpath, rfl⟩
  | some e =>
    refine ⟨fun sid => ?_, rfl⟩
    have hset : recordPath (redis.updateStatus env.sessionId .incomplete) = recordPath redis :=
      recordPath_updateStatus env.sessionId .incomplete
    exact (congrFun hset sid).trans (hpath sid)

end Paths

end MemoryArchive.Ipc
