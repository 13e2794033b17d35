import Mathlib.Data.List.TakeWhile
import MemoryArchive.Storage.SyncWorker

namespace MemoryArchive.Storage.CloudCopy

open Function (update)
open Runs Sync

variable {β : Type}

/-- A session in local mode with a cloud provider, and the path of its memory
directory. -/
structure Session where
  sid : String
  dir : String
  syncRetryMax : Nat

def Session.settings (c : Session) : Settings := ⟨true, c.syncRetryMax⟩

def Session.event (c : Session) (path : String) : FileWrittenEvent := ⟨c.sid, path, c.dir ++ "/" ++ path⟩

/-- What a watch loop does with the files of the memory directory. -/
inductive Action (β : Type)
  | write (path : String) (content : β)
  | announce (path : String)

def commandFiles : List String :=
  ["commands/raw_input.md", "commands/converted_input.md", "commands/actuation_commands.json",
    "commands/cc_commands.json"]

def finalisedFiles : List String := ["commands/actuation_commands.json", "commands/cc_commands.json"]

def metadataFile : String := "metadata.json"

def reasoningFile : String := "reasoning/reasoning.jsonl"

/-- An event that is recorded: what the command files hold after it, of which
`appended` are written before an error, its frames, and the metadata if they are
due. -/
structure Recorded (β : Type) where
  raw : β
  converted : β
  actuation : β
  cc : β
  appended : Nat
  frames : List (String × β)
  flush : Except String (Option β)

def writes (files : List (String × β)) : List (Action β) := files.map fun f => .write f.1 f.2

def announces (paths : List String) : List (Action β) := paths.map .announce

/-- Metadata are announced whenever their flush does not fail, due or not. -/
def flushScript : Except String (Option β) → List (Action β)
  | .error _ => []
  | .ok content => (content.map fun b => .write metadataFile b).toList ++ [.announce metadataFile]

def eventScript (e : Recorded β) : List (Action β) :=
  writes ((commandFiles.zip [e.raw, e.converted, e.actuation, e.cc]).take e.appended) ++
    if e.appended < commandFiles.length then []
    else announces commandFiles ++ writes e.frames ++ announces (e.frames.map Prod.fst) ++ flushScript e.flush

/-- How a capture ends, with what is written on the way. -/
inductive Ending (β : Type)
  | done (actuation cc : β) (finalised : Nat) (metadata : Except String β) (placeholders : Option β)
  | disconnect (metadata : Option β) (renames : Bool)

/-- Neither the placeholders nor the status of an interrupted session are announced. -/
def endScript : Ending β → List (Action β)
  | .done actuation cc finalised metadata placeholders =>
      writes ((finalisedFiles.zip [actuation, cc]).take finalised) ++
      (if finalised < finalisedFiles.length then [] else announces finalisedFiles) ++
      flushScript (metadata.map some) ++ (placeholders.map fun b => .write reasoningFile b).toList
  | .disconnect metadata _ => (metadata.map fun b => .write metadataFile b).toList

inductive Loop
  | capturing
  | leaving (disconnected renames : Bool)
  | ended (disconnected : Bool)
  deriving DecidableEq

inductive Push
  | fileWritten (path : String)
  | sessionComplete
  | sessionDisconnected
  | other
  deriving DecidableEq

/-- The client goes from receiving pushes to `shutdown_worker`, and returns from it. -/
inductive Client
  | receiving | stopping | returned
  deriving DecidableEq

/-- The files are those of the memory directory under either of its names, and
`worker.disk` is the sync log in it. The store has the objects under the key
prefix of the session, `sessions/[session]/[memory]/`. The rest is an account: the
files that the loop has written, and those announced since they were written. -/
structure State (β : Type) where
  files : String → Option β
  renamed : Bool
  script : List (Action β)
  loop : Loop
  queue : List Push
  client : Client
  worker : Worker
  reading : Option β
  store : String → Option β
  wrote : List String
  announced : String → Bool

inductive Input (β : Type)
  | event (e : Recorded β)
  | leave (x : Ending β)
  | act
  | closing (path : String) (content : β)
  | closingAnnounce (path : String)
  | other
  | complete
  | receive
  | resume (path : String)
  | work (m : Meets)
  | join

def pushCapacity : Nat := 16

namespace State

variable (c : Session) (s : State β)

/-- The loop starts over the files of the directory, with its first flush. -/
def start (files : String → Option β) (log : SyncLog) (metadata : Option β) : State β where
  files := files
  renamed := false
  script := (metadata.map fun b => .write metadataFile b).toList
  loop := .capturing
  queue := []
  client := .receiving
  worker := { Worker.start (fun _ => log) with phase := .waiting }
  reading := none
  store _ := none
  wrote := []
  announced _ := false

def Room : Prop := s.queue.length < pushCapacity

instance : Decidable s.Room := inferInstanceAs (Decidable (_ < _))

def trySend (p : Push) : State β := if s.Room then { s with queue := s.queue ++ [p] } else s

def writeFile (path : String) (content : β) : State β :=
  { s with
    files := update s.files path (some content)
    announced := update s.announced path false
    worker := s.worker.step c.settings (.write (c.sid, path)) }

def announce (path : String) : State β :=
  { s.trySend (.fileWritten path) with announced := update s.announced path true }

/-- The next thing that the loop does. The disconnect is sent when the queue has
room. -/
def act : State β :=
  match s.script with
  | .write path content :: rest =>
      { s.writeFile c path content with script := rest, wrote := s.wrote ++ [path] }
  | .announce path :: rest => { s.announce path with script := rest }
  | [] =>
      match s.loop with
      | .capturing | .ended _ => s
      | .leaving disconnected true => { s with renamed := true, loop := .leaving disconnected false }
      | .leaving true false =>
          if s.Room then { s.trySend .sessionDisconnected with loop := .ended true } else s
      | .leaving false false => { s with loop := .ended false }

def receive : State β :=
  match s.client, s.queue with
  | .receiving, .fileWritten path :: rest =>
      { s with queue := rest, worker := s.worker.step c.settings (.enqueue (c.event path)) }
  | .receiving, .other :: rest => { s with queue := rest }
  | .receiving, .sessionComplete :: rest | .receiving, .sessionDisconnected :: rest =>
      { s with queue := rest, client := .stopping, worker := s.worker.step c.settings .stop }
  | _, _ => s

/-- The directory of the events is the one under its first name. -/
def meets (m : Meets) : Meets where
  dirExists := !s.renamed
  saved := m.saved && !s.renamed
  upload := if s.reading.isSome then m.upload else .error "No such file or directory"

/-- A step of the worker. An attempt reads the file, and a successful one stores
what it has read. -/
def work (m : Meets) : State β :=
  let s' := { s with worker := s.worker.step c.settings (.work (s.meets m)) }
  match s.worker.phase with
  | .attempting e attempt _ =>
      if attempt ≤ c.syncRetryMax then
        { s' with reading := if s.renamed then none else s.files e.relativePath }
      else s'
  | .uploading e _ _ =>
      match (s.meets m).upload with
      | .ok _ => { s' with store := update s.store e.relativePath s.reading }
      | .error _ => s'
  | _ => s'

def step : Input β → State β
  | .event e => if s.loop = .capturing ∧ s.script.isEmpty then { s with script := eventScript e } else s
  | .leave x =>
      if s.loop = .capturing ∧ s.script.isEmpty then
        { s with
          script := endScript x
          loop := match x with
            | .done _ _ _ _ _ => .leaving false false
            | .disconnect _ renames => .leaving true renames }
      else s
  | .act => s.act c
  | .closing path content => if s.renamed then s else s.writeFile c path content
  | .closingAnnounce path => s.announce path
  | .other => s.trySend .other
  | .complete => if s.loop = .ended false then s.trySend .sessionComplete else s
  | .receive => s.receive c
  | .resume path => { s with worker := s.worker.step c.settings (.enqueue (c.event path)) }
  | .work m => s.work c m
  | .join =>
      if s.client = .stopping ∧ s.worker.phase = .stopped then { s with client := .returned } else s

/-- Each file that the loop wrote is stored as it is, or the log in its directory
lists it. -/
def Complete : Prop :=
  (∃ disconnected, s.loop = .ended disconnected) → s.client = .returned →
    ∀ path ∈ s.wrote, s.store path = s.files path ∨ (s.worker.disk c.sid).Listed path

/-- An announcement of the file still waits to be read. -/
def Unread (path : String) : Prop :=
  .fileWritten path ∈ s.queue ∨ some (c.event path) ∈ s.worker.queue ∨ s.worker.phase = .taken (c.event path)

/-- The announcement of a file is not dropped while none of it is waiting; the directory
is renamed when each file is stored or listed, and none is uploaded as it was
before; the session ends, for the client, when each file has been announced since
it was written; and the log can be written. -/
def Kept : Input β → Prop
  | .act =>
      match s.script with
      | .announce path :: _ => path ∈ s.wrote → s.announced path = false → s.Room ∨ s.Unread c path
      | .write _ _ :: _ => True
      | [] =>
          match s.loop with
          | .leaving _ true => ∀ path ∈ s.wrote,
              (s.store path = s.files path ∨ (s.worker.disk c.sid).Listed path) ∧
                ∀ e attempt version, s.worker.phase = .uploading e attempt version →
                  e.relativePath = path → s.reading = s.files path
          | _ => True
  | .closing path _ => s.renamed = false → path ∈ s.wrote → s.client = .receiving
  | .closingAnnounce path => path ∈ s.wrote → s.announced path = false → s.Room ∨ s.Unread c path
  | .receive =>
      match s.queue with
      | .sessionComplete :: rest | .sessionDisconnected :: rest =>
          s.renamed = false → ∀ path ∈ s.wrote, s.announced path = true ∧ .fileWritten path ∉ rest
      | _ => True
  | .work m =>
      match s.worker.phase with
      | .saving _ _ => s.renamed = false → m.saved = true
      | _ => True
  | .event _ | .leave _ | .other | .complete | .resume _ | .join => True

end State

/-- What the worker goes on with once it has written a log. -/
def core : Phase → Phase
  | .saving _ next => core next
  | phase => phase

/-- What follows the writing of a log. -/
def Resumes : Phase → Prop
  | .waiting | .attempting _ _ _ | .alerting _ _ => True
  | _ => False

/-- The worker is at work for the session only. -/
def Local (sid : String) : Phase → Prop
  | .stopped | .waiting => True
  | .onDisk _ => False
  | .taken e | .attempting e _ _ | .uploading e _ _ | .uploaded e _ | .failed e _ _ | .givingUp e _
  | .alerting e _ => e.sessionId = sid
  | .saving sid' next => sid' = sid ∧ Local sid next ∧ Resumes next

/-- The events that come before the stop sentinel. -/
def pending (queue : List (Option FileWrittenEvent)) : List FileWrittenEvent :=
  (queue.takeWhile Option.isSome).filterMap id

/-- The worker has a log of the session from the first event on. -/
def Logged : Phase → Prop
  | .attempting _ _ _ | .uploading _ _ _ | .uploaded _ _ | .failed _ _ _ | .givingUp _ _ => True
  | _ => False

/-- A phase ends with the file stored as it is or listed. -/
def Handles (reading stored file : Option β) (path : String) : Phase → Prop
  | .taken e | .attempting e _ _ | .failed e _ _ | .givingUp e _ => e.relativePath = path
  | .uploading e _ _ => e.relativePath = path ∧ reading = file
  | .uploaded e _ => e.relativePath = path ∧ stored = file
  | _ => False

/-- An upload of the file is under way. -/
def Busy (path : String) : Phase → Prop
  | .uploading e _ _ | .uploaded e _ => e.relativePath = path
  | _ => False

section Worker

variable {w : Worker} {sid : String} {e : FileWrittenEvent} {next : Phase} {log : SyncLog} {path path' : String}

theorem listed_put_of_ne (r : FileRecord) (hne : path' ≠ path) :
    (log.put path r).Listed path' ↔ log.Listed path' := by
  rw [listed_iff, listed_iff, get_put_of_ne log r hne]

theorem listed_put_self (r : FileRecord) :
    (log.put path r).Listed path ↔ (r.synced = true → r.failedPermanent = true) := by
  rw [listed_iff, get_put_self]
  constructor
  · rintro ⟨r', hr', h⟩
    cases hr'
    exact h
  · exact fun h => ⟨r, rfl, h⟩

theorem listed_markPending (h : log.Listed path') : (log.markPending path).Listed path' := by
  rw [SyncLog.markPending]
  split
  · exact h
  · by_cases hpath : path' = path
    · subst hpath
      exact (listed_put_self .new).mpr (by rintro ⟨⟩)
    · exact (listed_put_of_ne .new hpath).mpr h

/-- The log of a session as the worker has it. -/
def logOf (w : Worker) (sid : String) : SyncLog := (w.logs sid).getD (w.disk sid)

/-- A change of the log of the session, and what it leaves. -/
structure Marks (w w' : Worker) (sid : String) (f : SyncLog → SyncLog) (next : Phase) : Prop where
  queue : w'.queue = w.queue
  disk : w'.disk = w.disk
  logs : w'.logs sid = (w.logs sid).map f
  phase : w'.phase = next ∧ w'.logs sid = w.logs sid ∨ w'.phase = .saving sid next

theorem marks_mark (he : e.sessionId = sid) (f : SyncLog → SyncLog) (next : Phase) :
    Marks w (w.mark e f next) sid f next := by
  subst he
  rw [Worker.mark]
  cases hlog : w.logs e.sessionId with
  | none =>
    refine ⟨rfl, rfl, ?_, .inl ⟨rfl, rfl⟩⟩
    rw [hlog]
    rfl
  | some log =>
    refine ⟨rfl, rfl, ?_, .inr rfl⟩
    rw [hlog]
    exact Function.update_self _ _ _

theorem marks_markPending (he : e.sessionId = sid) (next : Phase) :
    Marks w (w.markPending e next) sid (·.markPending e.relativePath) next := by
  rw [Worker.markPending]
  split
  · rename_i r hr
    obtain ⟨log, hlog, hget⟩ := Option.bind_eq_some_iff.mp hr
    rw [he] at hlog
    refine ⟨rfl, rfl, ?_, .inl ⟨rfl, rfl⟩⟩
    rw [hlog, Option.map_some, SyncLog.markPending, hget]
  · exact marks_mark he _ next

theorem Marks.core {w' : Worker} {f : SyncLog → SyncLog} (h : Marks w w' sid f next) :
    core w'.phase = core next := by
  obtain ⟨hphase, -⟩ | hphase := h.phase
  · rw [hphase]
  · rw [hphase]
    rfl

theorem Resumes.phase (h : Resumes next) :
    core next = next ∧ next ≠ .stopped ∧ (∀ sid next', next ≠ .saving sid next') ∧
      (∀ e attempt version, next ≠ .uploading e attempt version) ∧ ∀ path, ¬ Busy path next := by
  cases next with
  | waiting => exact ⟨rfl, nofun, nofun, nofun, fun _ => nofun⟩
  | attempting e attempt lastError => exact ⟨rfl, nofun, nofun, nofun, fun _ => nofun⟩
  | alerting e lastError => exact ⟨rfl, nofun, nofun, nofun, fun _ => nofun⟩
  | stopped | taken | onDisk | uploading | uploaded | failed | givingUp | saving => exact h.elim

theorem Marks.atHome {w' : Worker} {f : SyncLog → SyncLog} (h : Marks w w' sid f next)
    (hnext : Local sid next) (hresumes : Resumes next) : Local sid w'.phase := by
  obtain ⟨hphase, -⟩ | hphase := h.phase
  · rwa [hphase]
  · rw [hphase]
    exact ⟨rfl, hnext, hresumes⟩

theorem Marks.logOf {w' : Worker} {f : SyncLog → SyncLog} (h : Marks w w' sid f next)
    (hf : (logOf w sid).Listed path → (f (logOf w sid)).Listed path) (hlisted : (logOf w sid).Listed path) :
    (CloudCopy.logOf w' sid).Listed path := by
  rw [CloudCopy.logOf, h.logs, h.disk]
  rw [CloudCopy.logOf] at hf hlisted
  cases hlog : w.logs sid with
  | none =>
    rw [hlog] at hlisted
    exact hlisted
  | some log =>
    rw [hlog] at hf hlisted
    exact hf hlisted

theorem logOf_getLog (he : e.sessionId = sid) (dirExists : Bool) :
    logOf (w.getLog e dirExists) sid = logOf w sid := by
  subst he
  rw [Worker.getLog]
  cases hlog : w.logs e.sessionId with
  | some log => rfl
  | none =>
    dsimp only
    split
    · rw [logOf, logOf, Worker.setLog]
      dsimp only
      rw [Function.update_self, hlog]
      rfl
    · rfl

/-- The log of the worker after it has been fetched is the one from before, or the
one on disk. -/
theorem logs_getLog (he : e.sessionId = sid) (dirExists : Bool) :
    (w.getLog e dirExists).logs sid = w.logs sid ∨
      (w.getLog e dirExists).logs sid = some (w.disk sid) := by
  subst he
  rw [Worker.getLog]
  split
  · exact .inl rfl
  split
  · exact .inr (Function.update_self _ _ _)
  · exact .inl rfl

theorem getLog_frame (dirExists : Bool) :
    (w.getLog e dirExists).queue = w.queue ∧ (w.getLog e dirExists).disk = w.disk ∧
      (w.getLog e dirExists).phase = w.phase := by
  rw [Worker.getLog]
  split
  · exact ⟨rfl, rfl, rfl⟩
  split
  · exact ⟨rfl, rfl, rfl⟩
  · exact ⟨rfl, rfl, rfl⟩

theorem logs_getLog_some (he : e.sessionId = sid) : (w.getLog e true).logs sid ≠ none := by
  subst he
  rw [Worker.getLog]
  split
  · rename_i log hlog
    rw [hlog]
    exact Option.some_ne_none log
  · rw [if_pos rfl, Worker.setLog]
    dsimp only
    rw [Function.update_self]
    exact Option.some_ne_none _

theorem pending_cons (rest : List (Option FileWrittenEvent)) : pending (some e :: rest) = e :: pending rest := rfl

theorem mem_pending {queue : List (Option FileWrittenEvent)} (hnone : none ∉ queue) (h : some e ∈ queue) :
    e ∈ pending queue := by
  have hall : ∀ x ∈ queue, x.isSome = true := fun x hx =>
    Option.isSome_iff_ne_none.mpr fun hx' => hnone (hx' ▸ hx)
  rw [pending, List.takeWhile_eq_self_iff.mpr hall, List.mem_filterMap]
  exact ⟨some e, h, rfl⟩

theorem pending_append {queue : List (Option FileWrittenEvent)} (more : List (Option FileWrittenEvent))
    (h : e ∈ pending queue) : e ∈ pending (queue ++ more) := by
  induction queue with
  | nil => cases h
  | cons x queue ih =>
    cases x with
    | none => cases h
    | some e' =>
      obtain rfl | h := List.mem_cons.mp h
      · exact List.mem_cons_self
      · exact List.mem_cons_of_mem _ (ih h)

end Worker

namespace State

variable (c : Session) (s : State β)

def Settled (path : String) : Prop :=
  s.store path = s.files path ∨ (logOf s.worker c.sid).Listed path

/-- What is announced goes its way, or has come to its end. -/
inductive Covered (path : String) : Prop
  | queued (hclient : s.client = .receiving) (h : .fileWritten path ∈ s.queue)
  | enqueued (hphase : s.worker.phase ≠ .stopped) (e : FileWrittenEvent) (h : e ∈ pending s.worker.queue)
      (hpath : e.relativePath = path)
  | handled (h : Handles s.reading (s.store path) (s.files path) path (core s.worker.phase))
  | settled (h : s.Settled c path) (hidle : ¬ Busy path (core s.worker.phase))

structure Sound : Prop where
  covered : s.renamed = false → ∀ path ∈ s.wrote, s.announced path = true → s.Covered c path
  atHome : Local c.sid s.worker.phase ∧ ∀ e, some e ∈ s.worker.queue → e.sessionId = c.sid
  saved : s.renamed = false → core s.worker.phase = s.worker.phase →
    ∀ log, s.worker.logs c.sid = some log → s.worker.disk c.sid = log
  logged : s.renamed = false → Logged (core s.worker.phase) → s.worker.logs c.sid ≠ none
  moved : s.renamed = true → ∀ path ∈ s.wrote,
    (s.store path = s.files path ∨ (s.worker.disk c.sid).Listed path) ∧
      ∀ e attempt version, s.worker.phase = .uploading e attempt version → e.relativePath = path →
        s.reading = none ∨ s.reading = s.files path
  receiving : s.client = .receiving → none ∉ s.worker.queue ∧ s.worker.phase ≠ .stopped
  told : s.client ≠ .receiving → s.renamed = false → ∀ path ∈ s.wrote, s.announced path = true
  finished : .sessionComplete ∈ s.queue ∨ .sessionDisconnected ∈ s.queue ∨ s.client ≠ .receiving →
    ∃ disconnected, s.loop = .ended disconnected
  ended : ∀ disconnected, s.loop = .ended disconnected → s.script = []
  left : s.renamed = true → s.script = [] ∧ s.loop ≠ .capturing
  returned : s.client = .returned → s.worker.phase = .stopped

/-- The state after a step of the worker. -/
def after (w : Worker) (reading : Option β) (store : String → Option β) : State β :=
  { s with worker := w, reading := reading, store := store }

variable {c s}

/-- What is covered stays so where only more is under way. -/
theorem Covered.mono {s' : State β} {path : String} (h : s.Covered c path) (hclient : s'.client = s.client)
    (hqueue : .fileWritten path ∈ s.queue → .fileWritten path ∈ s'.queue)
    (hphase : s'.worker.phase = s.worker.phase)
    (hpending : ∀ e ∈ pending s.worker.queue, e ∈ pending s'.worker.queue)
    (hlog : logOf s'.worker c.sid = logOf s.worker c.sid) (hreading : s'.reading = s.reading)
    (hstore : s'.store path = s.store path) (hfile : s'.files path = s.files path) : s'.Covered c path := by
  cases h with
  | queued hc hq => exact .queued (hclient.trans hc) (hqueue hq)
  | enqueued hp e he hpath => exact .enqueued (by rwa [hphase]) e (hpending e he) hpath
  | handled hh =>
    refine .handled ?_
    rw [hreading, hstore, hfile, hphase]
    exact hh
  | settled hset hidle =>
    refine .settled ?_ (by rwa [hphase])
    rw [Settled, hstore, hfile, hlog]
    exact hset

theorem Sound.client (hs : s.Sound c) (h : ∀ disconnected, s.loop ≠ .ended disconnected) :
    s.client = .receiving := by
  by_contra hclient
  obtain ⟨disconnected, hloop⟩ := hs.finished (.inr (.inr hclient))
  exact h disconnected hloop

end State

section Work

open State

variable {c : Session} {s : State β} {w : Worker} {reading : Option β} {store : String → Option β} {m : Meets}

/-- A step of the worker that neither takes an event nor stops. -/
theorem State.Sound.turn (hs : s.Sound c) (hrun : s.worker.phase ≠ .stopped)
    (hqueue : w.queue = s.worker.queue) (hphase : w.phase ≠ .stopped) (hhome : Local c.sid w.phase)
    (hkeeps : s.renamed = false → ∀ path,
      Handles s.reading (s.store path) (s.files path) path (core s.worker.phase) ∨
        s.Settled c path ∧ ¬ Busy path (core s.worker.phase) → (s.after w reading store).Covered c path)
    (hsaved : s.renamed = false → core w.phase = w.phase → ∀ log, w.logs c.sid = some log → w.disk c.sid = log)
    (hlogged : s.renamed = false → Logged (core w.phase) → w.logs c.sid ≠ none)
    (hmoved : s.renamed = true → w.disk c.sid = s.worker.disk c.sid ∧
      (∀ path ∈ s.wrote, store path = s.store path ∨ store path = s.files path) ∧
      ∀ e attempt version, w.phase = .uploading e attempt version → reading = none) :
    (s.after w reading store).Sound c where
  covered hrenamed path hpath hannounced := by
    cases hs.covered hrenamed path hpath hannounced with
    | queued hclient h => exact .queued hclient h
    | enqueued _ e h hp => exact .enqueued hphase e (by rwa [← hqueue] at h) hp
    | handled h => exact hkeeps hrenamed path (.inl h)
    | settled h hidle => exact hkeeps hrenamed path (.inr ⟨h, hidle⟩)
  atHome := ⟨hhome, fun e he => hs.atHome.2 e (hqueue ▸ he)⟩
  saved := hsaved
  logged := hlogged
  moved hrenamed path hpath := by
    obtain ⟨hdisk, hstore, hreading⟩ := hmoved hrenamed
    obtain ⟨hsettled, -⟩ := hs.moved hrenamed path hpath
    refine ⟨?_, fun e attempt version h _ => .inl (hreading e attempt version h)⟩
    change store path = s.files path ∨ (w.disk c.sid).Listed path
    rw [hdisk]
    obtain hsame | hfile := hstore path hpath
    · rwa [hsame]
    · exact .inl hfile
  receiving h := ⟨hqueue ▸ (hs.receiving h).1, hphase⟩
  told := hs.told
  finished := hs.finished
  ended := hs.ended
  left := hs.left
  returned h := absurd (hs.returned h) hrun

/-- A step of the worker that changes its log. -/
theorem State.Sound.marked (hs : s.Sound c) (hrun : s.worker.phase ≠ .stopped) {v : Worker}
    {f : SyncLog → SyncLog} {next : Phase} (hm : Marks v w c.sid f next)
    (hqueue : v.queue = s.worker.queue) (hdisk : v.disk = s.worker.disk)
    (hclean : s.renamed = false → ∀ log, v.logs c.sid = some log → v.disk c.sid = log)
    (hresumes : Resumes next) (hhome : Local c.sid next)
    (hkeeps : s.renamed = false → ∀ path,
      Handles s.reading (s.store path) (s.files path) path (core s.worker.phase) ∨
        s.Settled c path ∧ ¬ Busy path (core s.worker.phase) →
      Handles s.reading (s.store path) (s.files path) path next ∨
        (s.store path = s.files path ∨ (logOf w c.sid).Listed path) ∧ ¬ Busy path next)
    (hlogged : s.renamed = false → Logged next → v.logs c.sid ≠ none) :
    (s.after w s.reading s.store).Sound c := by
  obtain ⟨hcore, hnext, hplain, hidle, -⟩ := hresumes.phase
  have hnow : core w.phase = next := hm.core.trans hcore
  refine hs.turn hrun (hm.queue.trans hqueue) ?_ (hm.atHome hhome hresumes) ?_ ?_ ?_ ?_
  · obtain ⟨hphase, -⟩ | hphase := hm.phase
    · rwa [hphase]
    · rw [hphase]
      nofun
  · intro hrenamed path hpath
    obtain h | ⟨h, hnot⟩ := hkeeps hrenamed path hpath
    · exact .handled (hnow ▸ h)
    · exact .settled h (hnow ▸ hnot)
  · intro hrenamed hsame log hlog
    obtain ⟨-, hlogs⟩ | hphase := hm.phase
    · rw [hm.disk]
      exact hclean hrenamed log (hlogs ▸ hlog)
    · rw [hnow, hphase] at hsame
      exact absurd hsame (hplain _ _)
  · intro hrenamed hlog
    rw [hm.logs, Ne, Option.map_eq_none_iff]
    exact hlogged hrenamed (hnow ▸ hlog)
  · refine fun _ => ⟨by rw [hm.disk, hdisk], fun _ _ => .inl rfl, fun e attempt version h => ?_⟩
    obtain ⟨hphase, -⟩ | hphase := hm.phase
    · exact absurd (hphase.symm.trans h) (hidle e attempt version)
    · rw [hphase] at h
      cases h

theorem sound_taken (hs : s.Sound c) {e : FileWrittenEvent} (hphase : s.worker.phase = .taken e) :
    (s.work c m).Sound c := by
  have hhome := hs.atHome.1
  rw [hphase] at hhome
  have he : e.sessionId = c.sid := hhome
  have hwork : s.work c m = s.after ((s.worker.getLog e (!s.renamed)).markPending e (.attempting e 1 none))
      s.reading s.store := by
    rw [State.work, hphase]
    change { s with worker := s.worker.work c.settings (s.meets m) } = _
    rw [Worker.work, hphase]
    rfl
  rw [hwork]
  obtain ⟨hqueue, hdisk, -⟩ := getLog_frame (w := s.worker) (e := e) (!s.renamed)
  have hm : Marks (s.worker.getLog e (!s.renamed)) _ c.sid _ _ := marks_markPending he (.attempting e 1 none)
  refine hs.marked ?_ hm hqueue hdisk ?_ trivial he ?_ ?_
  · rw [hphase]
    rintro ⟨⟩
  · intro hrenamed log hlog
    rw [hdisk]
    obtain hold | hnew := logs_getLog he (!s.renamed)
    · exact hs.saved hrenamed (by rw [hphase]; rfl) log (hold ▸ hlog)
    · exact Option.some.inj (hnew.symm.trans hlog)
  · intro hrenamed path hpath
    rw [hphase] at hpath
    obtain h | ⟨h, -⟩ := hpath
    · exact .inl h
    · refine .inr ⟨h.imp_right fun hlisted => ?_, (by rintro ⟨⟩)⟩
      exact hm.logOf listed_markPending (by rwa [logOf_getLog he])
  · intro hrenamed _
    rw [hrenamed]
    exact logs_getLog_some he

theorem sound_attempting (hs : s.Sound c) {e : FileWrittenEvent} {attempt : Nat} {lastError : Option String}
    (hphase : s.worker.phase = .attempting e attempt lastError) : (s.work c m).Sound c := by
  have hhome := hs.atHome.1
  rw [hphase] at hhome
  have hcore : core s.worker.phase = .attempting e attempt lastError := by rw [hphase]; rfl
  have hrun : s.worker.phase ≠ .stopped := by rw [hphase]; rintro ⟨⟩
  have hlogs : s.renamed = false → s.worker.logs c.sid ≠ none :=
    fun hrenamed => hs.logged hrenamed (by rw [hcore]; trivial)
  have hclean := fun hrenamed => hs.saved hrenamed (by rw [hphase]; rfl)
  by_cases hmore : attempt ≤ c.syncRetryMax
  · have hwork : s.work c m = s.after
        { s.worker with phase := .uploading e attempt (s.worker.written e.file) }
        (if s.renamed then none else s.files e.relativePath) s.store := by
      rw [State.work, hphase]
      dsimp only
      rw [if_pos hmore]
      change { s with worker := s.worker.work c.settings (s.meets m), reading := _ } = _
      rw [Worker.work, hphase]
      dsimp only
      rw [show c.settings.syncRetryMax = c.syncRetryMax from rfl, if_pos hmore]
      rfl
    rw [hwork]
    refine hs.turn hrun rfl (by rintro ⟨⟩) hhome ?_ (fun hrenamed _ => hclean hrenamed) (fun hrenamed _ => hlogs hrenamed) ?_
    · intro hrenamed path hpath
      rw [hcore] at hpath
      have hread : (if s.renamed then none else s.files e.relativePath) = s.files e.relativePath := by
        rw [hrenamed]
        rfl
      by_cases hp : e.relativePath = path
      · refine .handled ⟨hp, ?_⟩
        rw [← hp]
        exact hread
      · obtain h | ⟨h, -⟩ := hpath
        · exact absurd h hp
        · exact .settled h hp
    · intro hrenamed
      refine ⟨rfl, fun _ _ => .inl rfl, fun _ _ _ _ => ?_⟩
      rw [hrenamed]
      rfl
  · have hwork : s.work c m = s.after { s.worker with phase := .givingUp e lastError } s.reading s.store := by
      rw [State.work, hphase]
      dsimp only
      rw [if_neg hmore]
      change { s with worker := s.worker.work c.settings (s.meets m) } = _
      rw [Worker.work, hphase]
      dsimp only
      rw [show c.settings.syncRetryMax = c.syncRetryMax from rfl, if_neg hmore]
      rfl
    rw [hwork]
    refine hs.turn hrun rfl (by rintro ⟨⟩) hhome ?_ (fun hrenamed _ => hclean hrenamed) (fun hrenamed _ => hlogs hrenamed) ?_
    · intro hrenamed path hpath
      rw [hcore] at hpath
      obtain h | ⟨h, -⟩ := hpath
      · exact .handled h
      · exact .settled h (by rintro ⟨⟩)
    · exact fun _ => ⟨rfl, fun _ _ => .inl rfl, (by rintro _ _ _ ⟨⟩)⟩

theorem sound_uploading (hs : s.Sound c) {e : FileWrittenEvent} {attempt version : Nat}
    (hphase : s.worker.phase = .uploading e attempt version) : (s.work c m).Sound c := by
  have hhome := hs.atHome.1
  rw [hphase] at hhome
  have hcore : core s.worker.phase = .uploading e attempt version := by rw [hphase]; rfl
  have hrun : s.worker.phase ≠ .stopped := by rw [hphase]; rintro ⟨⟩
  have hlogs : s.renamed = false → s.worker.logs c.sid ≠ none :=
    fun hrenamed => hs.logged hrenamed (by rw [hcore]; trivial)
  have hclean := fun hrenamed => hs.saved hrenamed (by rw [hphase]; rfl)
  cases hupload : (s.meets m).upload with
  | ok cloudPath =>
    have hwork : s.work c m = s.after
        { s.worker.uploadVersion e.file version with phase := .uploaded e cloudPath } s.reading
        (update s.store e.relativePath s.reading) := by
      rw [State.work, hphase]
      dsimp only
      rw [hupload]
      change { s with worker := s.worker.work c.settings (s.meets m), store := _ } = _
      rw [Worker.work, hphase]
      dsimp only
      rw [hupload]
      rfl
    have hread : s.reading.isSome = true := by
      rw [State.meets] at hupload
      dsimp only at hupload
      split at hupload
      · assumption
      · cases hupload
    rw [hwork]
    refine hs.turn hrun rfl (by rintro ⟨⟩) hhome ?_ (fun hrenamed _ => hclean hrenamed) (fun hrenamed _ => hlogs hrenamed) ?_
    · intro hrenamed path hpath
      rw [hcore] at hpath
      obtain ⟨rfl, h⟩ | ⟨h, hidle⟩ := hpath
      · refine .handled ⟨rfl, ?_⟩
        change update s.store e.relativePath s.reading e.relativePath = s.files e.relativePath
        rw [Function.update_self]
        exact h
      · refine .settled ?_ hidle
        change update s.store e.relativePath s.reading path = s.files path ∨ (logOf s.worker c.sid).Listed path
        rw [Function.update_of_ne fun h => hidle h.symm]
        exact h
    · intro hrenamed
      refine ⟨rfl, fun path hpath => ?_, (by rintro _ _ _ ⟨⟩)⟩
      by_cases hp : e.relativePath = path
      · obtain hnone | hfile := (hs.moved hrenamed path hpath).2 e attempt version hphase hp
        · rw [hnone] at hread
          cases hread
        · refine .inr ?_
          rw [← hp, Function.update_self, hp]
          exact hfile
      · exact .inl (Function.update_of_ne (Ne.symm hp) _ _)
  | error message =>
    have hwork : s.work c m = s.after { s.worker with phase := .failed e attempt message } s.reading s.store := by
      rw [State.work, hphase]
      dsimp only
      rw [hupload]
      change { s with worker := s.worker.work c.settings (s.meets m) } = _
      rw [Worker.work, hphase]
      dsimp only
      rw [hupload]
      rfl
    rw [hwork]
    refine hs.turn hrun rfl (by rintro ⟨⟩) hhome ?_ (fun hrenamed _ => hclean hrenamed) (fun hrenamed _ => hlogs hrenamed) ?_
    · intro hrenamed path hpath
      rw [hcore] at hpath
      obtain ⟨h, -⟩ | ⟨h, -⟩ := hpath
      · exact .handled h
      · exact .settled h (by rintro ⟨⟩)
    · exact fun _ => ⟨rfl, fun _ _ => .inl rfl, (by rintro _ _ _ ⟨⟩)⟩

/-- A step that only changes the log and leaves its phase for another. -/
theorem sound_mark {e : FileWrittenEvent} (f : SyncLog → SyncLog) (next : Phase) (hs : s.Sound c)
    (he : e.sessionId = c.sid) (hrun : s.worker.phase ≠ .stopped)
    (hcore : core s.worker.phase = s.worker.phase) (hlogged : Logged s.worker.phase)
    (hwork : s.work c m = s.after (s.worker.mark e f next) s.reading s.store)
    (hresumes : Resumes next) (hhome : Local c.sid next)
    (hput : ∃ r : SyncLog → FileRecord, f = fun log => log.put e.relativePath (r log))
    (hdone : ∀ path log, Handles s.reading (s.store path) (s.files path) path s.worker.phase →
      Handles s.reading (s.store path) (s.files path) path next ∨ s.store path = s.files path ∨
        (f log).Listed path)
    (hown : ∀ log, ¬ Busy e.relativePath s.worker.phase →
      Handles s.reading (s.store e.relativePath) (s.files e.relativePath) e.relativePath next ∨
        (f log).Listed e.relativePath) : (s.work c m).Sound c := by
  have hlogs : s.renamed = false → s.worker.logs c.sid ≠ none :=
    fun hrenamed => hs.logged hrenamed (by rw [hcore]; exact hlogged)
  have hidle := hresumes.phase.2.2.2.2
  have hm : Marks s.worker (s.worker.mark e f next) c.sid f next := marks_mark he f next
  rw [hwork]
  refine hs.marked hrun hm rfl rfl (fun hrenamed => hs.saved hrenamed hcore) hresumes hhome ?_
    (fun hrenamed _ => hlogs hrenamed)
  · intro hrenamed path hpath
    rw [hcore] at hpath
    obtain ⟨log, hlog⟩ := Option.ne_none_iff_exists'.mp (hlogs hrenamed)
    have hnow : logOf (s.worker.mark e f next) c.sid = f log := by
      rw [logOf, hm.logs, hlog]
      rfl
    have hbefore : logOf s.worker c.sid = log := by
      rw [logOf, hlog]
      rfl
    rw [hnow]
    obtain h | ⟨h, hnot⟩ := hpath
    · exact (hdone path log h).imp_right fun h => ⟨h, hidle path⟩
    · by_cases hp : path = e.relativePath
      · subst hp
        exact (hown log hnot).imp_right fun h => ⟨.inr h, hidle _⟩
      · refine .inr ⟨h.imp_right fun hlisted => ?_, hidle path⟩
        obtain ⟨r, rfl⟩ := hput
        exact (listed_put_of_ne (r log) hp).mpr (hbefore ▸ hlisted)

theorem sound_uploaded (hs : s.Sound c) {e : FileWrittenEvent} {cloudPath : String}
    (hphase : s.worker.phase = .uploaded e cloudPath) : (s.work c m).Sound c := by
  have hhome := hs.atHome.1
  rw [hphase] at hhome
  refine sound_mark (·.markSynced e.relativePath cloudPath) .waiting hs hhome ?_ ?_ ?_ ?_ trivial trivial
    ⟨_, rfl⟩ ?_ ?_
  · rw [hphase]
    nofun
  · rw [hphase]
    rfl
  · rw [hphase]
    trivial
  · rw [State.work, hphase]
    change { s with worker := s.worker.work c.settings (s.meets m) } = _
    rw [Worker.work, hphase]
    rfl
  · intro path log h
    rw [hphase] at h
    exact .inr (.inl h.2)
  · intro log h
    rw [hphase] at h
    exact absurd rfl h

theorem sound_failed (hs : s.Sound c) {e : FileWrittenEvent} {attempt : Nat} {message : String}
    (hphase : s.worker.phase = .failed e attempt message) : (s.work c m).Sound c := by
  have hhome := hs.atHome.1
  rw [hphase] at hhome
  refine sound_mark (·.markFailed e.relativePath message) (.attempting e (attempt + 1) (some message)) hs
    hhome ?_ ?_ ?_ ?_ trivial hhome ⟨_, rfl⟩ ?_ ?_
  · rw [hphase]
    nofun
  · rw [hphase]
    rfl
  · rw [hphase]
    trivial
  · rw [State.work, hphase]
    change { s with worker := s.worker.work c.settings (s.meets m) } = _
    rw [Worker.work, hphase]
    rfl
  · intro path log h
    rw [hphase] at h
    exact .inl h
  · exact fun log _ => .inl rfl

theorem sound_givingUp (hs : s.Sound c) {e : FileWrittenEvent} {lastError : Option String}
    (hphase : s.worker.phase = .givingUp e lastError) : (s.work c m).Sound c := by
  have hhome := hs.atHome.1
  rw [hphase] at hhome
  have hlisted : ∀ log : SyncLog, (log.markPermanentFailure e.relativePath).Listed e.relativePath :=
    fun log => (listed_put_self _).mpr fun _ => rfl
  refine sound_mark (·.markPermanentFailure e.relativePath) (.alerting e lastError) hs hhome ?_ ?_ ?_ ?_
    trivial hhome ⟨_, rfl⟩ ?_ ?_
  · rw [hphase]
    nofun
  · rw [hphase]
    rfl
  · rw [hphase]
    trivial
  · rw [State.work, hphase]
    change { s with worker := s.worker.work c.settings (s.meets m) } = _
    rw [Worker.work, hphase]
    rfl
  · intro path log h
    rw [hphase] at h
    obtain rfl : e.relativePath = path := h
    exact .inr (.inr (hlisted log))
  · exact fun log _ => .inr (hlisted log)

theorem sound_alerting (hs : s.Sound c) {e : FileWrittenEvent} {lastError : Option String}
    (hphase : s.worker.phase = .alerting e lastError) : (s.work c m).Sound c := by
  have hwork : s.work c m = s.after
      { s.worker with
        alerts := s.worker.alerts ++ [.permanentFailure e c.settings.syncRetryMax lastError]
        phase := .waiting } s.reading s.store := by
    rw [State.work, hphase]
    change { s with worker := s.worker.work c.settings (s.meets m) } = _
    rw [Worker.work, hphase]
    rfl
  rw [hwork]
  refine hs.turn ?_ rfl (by rintro ⟨⟩) trivial ?_ (fun hrenamed _ => hs.saved hrenamed ?_) (fun _ => (by rintro ⟨⟩)) ?_
  · rw [hphase]
    rintro ⟨⟩
  · intro hrenamed path hpath
    rw [hphase] at hpath
    obtain h | ⟨h, -⟩ := hpath
    · cases h
    · exact .settled h (by rintro ⟨⟩)
  · rw [hphase]
    rfl
  · exact fun _ => ⟨rfl, fun _ _ => .inl rfl, (by rintro _ _ _ ⟨⟩)⟩

/-- The log is written, unless the directory has another name by now. -/
theorem sound_saving (hs : s.Sound c) {sid' : String} {next : Phase}
    (hphase : s.worker.phase = .saving sid' next) (hsave : s.renamed = false → m.saved = true) :
    (s.work c m).Sound c := by
  have hhome := hs.atHome.1
  rw [hphase] at hhome
  obtain ⟨rfl, hhome, hresumes⟩ : sid' = c.sid ∧ Local c.sid next ∧ Resumes next := hhome
  obtain ⟨-, hstop, -, hidle, -⟩ := hresumes.phase
  have hcore : core s.worker.phase = core next := by rw [hphase]; rfl
  have hrun : s.worker.phase ≠ .stopped := by rw [hphase]; rintro ⟨⟩
  have hwork : s.work c m = s.after
      (if m.saved && !s.renamed then
        { s.worker with
          disk := update s.worker.disk c.sid (logOf s.worker c.sid)
          phase := next }
      else { s.worker with phase := next }) s.reading s.store := by
    rw [State.work, hphase]
    change { s with worker := s.worker.work c.settings (s.meets m) } = _
    rw [Worker.work, hphase]
    rfl
  rw [hwork]
  cases hrenamed : s.renamed with
  | false =>
    rw [hsave hrenamed, Bool.not_false, Bool.and_true, if_pos rfl]
    have hlog : logOf ({ s.worker with
        disk := update s.worker.disk c.sid (logOf s.worker c.sid), phase := next } : Worker) c.sid =
          logOf s.worker c.sid := by
      rw [logOf]
      dsimp only
      rw [Function.update_self, logOf]
      cases s.worker.logs c.sid with
      | none => rfl
      | some log => rfl
    refine hs.turn hrun rfl hstop hhome ?_ ?_ ?_ fun h => by rw [hrenamed] at h; cases h
    · intro _ path hpath
      rw [hcore] at hpath
      obtain h | ⟨h, hnot⟩ := hpath
      · exact .handled h
      · refine .settled (h.imp_right fun hlisted => ?_) hnot
        rw [← hlog] at hlisted
        exact hlisted
    · intro _ _ log hsome
      change update s.worker.disk c.sid (logOf s.worker c.sid) c.sid = log
      have hsome' : s.worker.logs c.sid = some log := hsome
      rw [Function.update_self, logOf, hsome']
      rfl
    · exact fun hrenamed hlogged => hs.logged hrenamed (hcore ▸ hlogged)
  | true =>
    rw [Bool.not_true, Bool.and_false, if_neg Bool.false_ne_true]
    have hnot : ¬ s.renamed = false := by rw [hrenamed]; rintro ⟨⟩
    exact hs.turn hrun rfl hstop hhome (fun h => absurd h hnot) (fun h => absurd h hnot)
      (fun h => absurd h hnot) fun _ => ⟨rfl, fun _ _ => .inl rfl, fun e attempt version h =>
        absurd h (hidle e attempt version)⟩

theorem sound_waiting (hs : s.Sound c) (hphase : s.worker.phase = .waiting) : (s.work c m).Sound c := by
  have hclean := fun hrenamed => hs.saved hrenamed (by rw [hphase]; rfl)
  have hnot : s.client ≠ .returned := by
    intro h
    rw [hs.returned h] at hphase
    cases hphase
  have hwork : s.work c m = { s with worker := s.worker.work c.settings (s.meets m) } := by
    rw [State.work, hphase]
    rfl
  have hidle : ∀ path, ¬ Handles s.reading (s.store path) (s.files path) path (core s.worker.phase) := by
    intro path
    rw [hphase]
    rintro ⟨⟩
  rw [hwork, Worker.work, hphase]
  dsimp only
  cases hqueue : s.worker.queue with
  | nil => exact hs
  | cons item rest =>
    cases item with
    | none =>
      refine { hs with
        covered := fun hrenamed path hpath hannounced => ?_
        atHome := ⟨trivial, fun e he => hs.atHome.2 e (by rw [hqueue]; exact List.mem_cons_of_mem _ he)⟩
        saved := fun hrenamed _ => hclean hrenamed
        logged := fun _ => (by rintro ⟨⟩)
        moved := fun hrenamed path hpath => ⟨(hs.moved hrenamed path hpath).1, (by rintro _ _ _ ⟨⟩)⟩
        receiving := fun h => absurd (by rw [hqueue]; exact List.mem_cons_self) (hs.receiving h).1
        returned := fun _ => rfl }
      cases hs.covered hrenamed path hpath hannounced with
      | queued hclient h => exact .queued hclient h
      | enqueued _ e h hp =>
        rw [hqueue] at h
        cases h
      | handled h => exact absurd h (hidle path)
      | settled h hbusy => exact .settled h (by rintro ⟨⟩)
    | some e =>
      refine { hs with
        covered := fun hrenamed path hpath hannounced => ?_
        atHome := ?_
        saved := fun hrenamed _ => hclean hrenamed
        logged := fun _ => (by rintro ⟨⟩)
        moved := fun hrenamed path hpath => ⟨(hs.moved hrenamed path hpath).1, (by rintro _ _ _ ⟨⟩)⟩
        receiving := fun h => ⟨fun hmem => (hs.receiving h).1 (by rw [hqueue]; exact List.mem_cons_of_mem _ hmem),
          (by rintro ⟨⟩)⟩
        returned := fun h => absurd h hnot }
      · cases hs.covered hrenamed path hpath hannounced with
        | queued hclient h => exact .queued hclient h
        | enqueued _ e' h hp =>
          rw [hqueue, pending_cons] at h
          obtain rfl | h := List.mem_cons.mp h
          · exact .handled hp
          · exact .enqueued (by rintro ⟨⟩) e' h hp
        | handled h => exact absurd h (hidle path)
        | settled h hbusy => exact .settled h (by rintro ⟨⟩)
      · exact ⟨hs.atHome.2 e (by rw [hqueue]; exact List.mem_cons_self),
          fun e' he' => hs.atHome.2 e' (by rw [hqueue]; exact List.mem_cons_of_mem _ he')⟩

/-- A step of the worker. -/
theorem sound_work (hs : s.Sound c) (hkept : s.Kept c (.work m)) : (s.work c m).Sound c := by
  rw [State.Kept] at hkept
  cases hphase : s.worker.phase with
  | stopped =>
    have hwork : s.work c m = s := by
      rw [State.work, hphase]
      change { s with worker := s.worker.work c.settings (s.meets m) } = s
      rw [Worker.work, hphase]
    rw [hwork]
    exact hs
  | waiting => exact sound_waiting hs hphase
  | taken e => exact sound_taken hs hphase
  | onDisk e =>
    have hhome := hs.atHome.1
    rw [hphase] at hhome
    exact hhome.elim
  | attempting e attempt lastError => exact sound_attempting hs hphase
  | uploading e attempt version => exact sound_uploading hs hphase
  | uploaded e cloudPath => exact sound_uploaded hs hphase
  | failed e attempt message => exact sound_failed hs hphase
  | givingUp e lastError => exact sound_givingUp hs hphase
  | alerting e lastError => exact sound_alerting hs hphase
  | saving sid next =>
    rw [hphase] at hkept
    exact sound_saving hs hphase hkept

end Work

end MemoryArchive.Storage.CloudCopy
