import MemoryArchive.Data.Runs
import MemoryArchive.Storage.SyncLog

namespace MemoryArchive.Storage.Sync

open Runs

structure FileWrittenEvent where
  sessionId : String
  relativePath : String
  absPath : String
  deriving DecidableEq

abbrev File := String × String

def FileWrittenEvent.file (e : FileWrittenEvent) : File := (e.sessionId, e.relativePath)

/-- Whether a cloud provider is configured, and how often an upload is attempted. -/
structure Settings where
  provider : Bool
  syncRetryMax : Nat

inductive Alert
  | permanentFailure (e : FileWrittenEvent) (maxAttempts : Nat) (lastError : Option String)
  | noMemoryDir (sessionId : String)
  deriving DecidableEq

/-- Where the worker thread is. It waits for an item, dispatches an event, or writes the log of a
session before it goes on. -/
inductive Phase
  | stopped
  | waiting
  | taken (e : FileWrittenEvent)
  | onDisk (e : FileWrittenEvent)
  | attempting (e : FileWrittenEvent) (attempt : Nat) (lastError : Option String)
  | uploading (e : FileWrittenEvent) (attempt : Nat) (version : Nat)
  | uploaded (e : FileWrittenEvent) (cloudPath : String)
  | failed (e : FileWrittenEvent) (attempt : Nat) (error : String)
  | givingUp (e : FileWrittenEvent) (lastError : Option String)
  | alerting (e : FileWrittenEvent) (lastError : Option String)
  | saving (sessionId : String) (next : Phase)
  deriving DecidableEq

/-- A worker with its queue, in which `none` is the stop sentinel, its logs by session and its
alerts, and the logs on disk. The rest is an account: for each file the version that was last
written, the one that was last enqueued, and the newest one that has been uploaded. -/
structure Worker where
  queue : List (Option FileWrittenEvent)
  phase : Phase
  logs : String → Option SyncLog
  disk : String → SyncLog
  alerts : List Alert
  written : File → Nat
  enqueued : File → Nat
  uploaded : File → Nat

/-- What a step of the worker thread meets. -/
structure Meets where
  dirExists : Bool
  saved : Bool
  upload : Except String String

namespace Worker

variable (w : Worker)

/-- Before the first start, over the logs that are on disk. -/
def start (disk : String → SyncLog) : Worker where
  queue := []
  phase := .stopped
  logs _ := none
  disk := disk
  alerts := []
  written _ := 0
  enqueued _ := 0
  uploaded _ := 0

def enqueue (e : FileWrittenEvent) : Worker :=
  { w with
    queue := w.queue ++ [some e]
    enqueued := Function.update w.enqueued e.file (w.written e.file) }

def setLog (sid : String) (log : SyncLog) : Worker :=
  { w with logs := Function.update w.logs sid (some log) }

/-- Change the log of a session, where there is one, and write it. -/
def mark (e : FileWrittenEvent) (f : SyncLog → SyncLog) (next : Phase) : Worker :=
  match w.logs e.sessionId with
  | none => { w with phase := next }
  | some log => { w.setLog e.sessionId (f log) with phase := .saving e.sessionId next }

/-- A log that exists is kept, else the one on disk is loaded. -/
def getLog (e : FileWrittenEvent) (dirExists : Bool) : Worker :=
  match w.logs e.sessionId with
  | some _ => w
  | none =>
      if dirExists then w.setLog e.sessionId (w.disk e.sessionId)
      else { w with alerts := w.alerts ++ [.noMemoryDir e.sessionId] }

/-- A file that is recorded already is not written to the log again. -/
def markPending (e : FileWrittenEvent) (next : Phase) : Worker :=
  match (w.logs e.sessionId).bind (·.get e.relativePath) with
  | some _ => { w with phase := next }
  | none => w.mark e (·.markPending e.relativePath) next

def uploadVersion (file : File) (version : Nat) : Worker :=
  { w with uploaded := Function.update w.uploaded file (max (w.uploaded file) version) }

/-- One step of the worker thread. An upload reads the file when it begins. -/
def work (settings : Settings) (m : Meets) : Worker :=
  match w.phase with
  | .stopped => w
  | .waiting =>
      match w.queue with
      | [] => w
      | none :: rest => { w with queue := rest, phase := .stopped }
      | some e :: rest => { w with queue := rest, phase := .taken e }
  | .taken e =>
      (w.getLog e m.dirExists).markPending e (if settings.provider then .attempting e 1 none else .onDisk e)
  | .onDisk e =>
      (w.uploadVersion e.file (w.written e.file)).mark e (·.markSynced e.relativePath e.absPath) .waiting
  | .attempting e attempt lastError =>
      if attempt ≤ settings.syncRetryMax then { w with phase := .uploading e attempt (w.written e.file) }
      else { w with phase := .givingUp e lastError }
  | .uploading e attempt version =>
      match m.upload with
      | .ok cloudPath => { w.uploadVersion e.file version with phase := .uploaded e cloudPath }
      | .error error => { w with phase := .failed e attempt error }
  | .uploaded e cloudPath => w.mark e (·.markSynced e.relativePath cloudPath) .waiting
  | .failed e attempt error =>
      w.mark e (·.markFailed e.relativePath error) (.attempting e (attempt + 1) (some error))
  | .givingUp e lastError => w.mark e (·.markPermanentFailure e.relativePath) (.alerting e lastError)
  | .alerting e lastError =>
      { w with
        alerts := w.alerts ++ [.permanentFailure e settings.syncRetryMax lastError]
        phase := .waiting }
  | .saving sid next =>
      if m.saved then
        { w with disk := Function.update w.disk sid ((w.logs sid).getD (w.disk sid)), phase := next }
      else { w with phase := next }

end Worker

/-- A file is written, then its writer enqueues it; the worker is started, goes one step, is told
to stop, or dies with its process. -/
inductive Input
  | write (file : File)
  | enqueue (e : FileWrittenEvent)
  | start
  | work (m : Meets)
  | stop
  | die

def Worker.step (settings : Settings) (w : Worker) : Input → Worker
  | .write file => { w with written := Function.update w.written file (w.written file + 1) }
  | .enqueue e => w.enqueue e
  | .start => if w.phase = .stopped then { w with phase := .waiting } else w
  | .work m => w.work settings m
  | .stop => { w with queue := w.queue ++ [none] }
  | .die => { w with queue := [], phase := .stopped, logs := fun _ => none, alerts := [] }

def Worker.Unsynced (w : Worker) (sid path : String) : Prop :=
  w.uploaded (sid, path) < w.enqueued (sid, path)

/-- The logs of the worker and those on disk are honest. -/
def Worker.Visible (w : Worker) : Prop :=
  ∀ sid, Honest (w.disk sid) (w.Unsynced sid) ∧
    ∀ log, w.logs sid = some log → Honest log (w.Unsynced sid)

/-- The file of an event is in the lists of its log and of the one on disk. -/
def Worker.ListedFor (w : Worker) (e : FileWrittenEvent) : Prop :=
  (w.disk e.sessionId).Listed e.relativePath ∧
    ∀ log, w.logs e.sessionId = some log → log.Listed e.relativePath

/-- A file that is enqueued is uploaded in that version already or listed; a file is recorded as
synced only if no newer version has been enqueued and it is not permanently failed, and as
permanently failed only if it is not recorded as synced. -/
def Tracked (w : Worker) : Input → Prop
  | .enqueue e => w.uploaded e.file < w.written e.file → w.ListedFor e
  | .work _ =>
      match w.phase with
      | .onDisk e => ∀ log, w.logs e.sessionId = some log →
          (log.record e.relativePath).failedPermanent = false
      | .uploaded e _ => ∀ log, w.logs e.sessionId = some log →
          (log.record e.relativePath).failedPermanent = false ∧ w.enqueued e.file ≤ w.uploaded e.file
      | .givingUp e _ => ∀ log, w.logs e.sessionId = some log →
          (log.record e.relativePath).synced = false
      | _ => True
  | .write _ | .start | .stop | .die => True

section Steps

variable {w w' : Worker} {settings : Settings}

theorem Worker.Visible.of_same (h : w.Visible) (hdisk : w'.disk = w.disk) (hlogs : w'.logs = w.logs)
    (hsub : ∀ sid path, w'.Unsynced sid path → w.Unsynced sid path) : w'.Visible := by
  intro sid
  obtain ⟨hd, hl⟩ := h sid
  rw [hdisk, hlogs]
  exact ⟨hd.mono (hsub sid), fun log hlog => (hl log hlog).mono (hsub sid)⟩

theorem visible_phase (h : w.Visible) (phase : Phase) : ({ w with phase := phase } : Worker).Visible :=
  h.of_same rfl rfl fun _ _ hu => hu

/-- A log that is put in place matters for its own session only. -/
theorem visible_setLog (h : w.Visible) (sid : String) (log : SyncLog) :
    (w.setLog sid log).Visible ↔ Honest log (w.Unsynced sid) := by
  have hself : (w.setLog sid log).logs sid = some log := Function.update_self _ _ _
  have hother : ∀ sid', sid' ≠ sid → (w.setLog sid log).logs sid' = w.logs sid' :=
    fun sid' hne => Function.update_of_ne hne _ _
  constructor
  · exact fun h' => (h' sid).2 log hself
  · intro hlog sid'
    refine ⟨(h sid').1, fun log' hlog' => ?_⟩
    by_cases hsid : sid' = sid
    · subst hsid
      obtain rfl := Option.some.inj (hself.symm.trans hlog')
      exact hlog
    · rw [hother sid' hsid] at hlog'
      exact (h sid').2 log' hlog'

theorem visible_mark (h : w.Visible) (e : FileWrittenEvent) (f : SyncLog → SyncLog) (next : Phase) :
    (w.mark e f next).Visible ↔
      ∀ log, w.logs e.sessionId = some log → Honest (f log) (w.Unsynced e.sessionId) := by
  rw [Worker.mark]
  cases hlog : w.logs e.sessionId with
  | none => exact iff_of_true (visible_phase h next) nofun
  | some log =>
    have hset := visible_setLog h e.sessionId (f log)
    refine ⟨fun h' log' hlog' => ?_, fun hall => visible_phase (hset.mpr (hall log rfl)) _⟩
    obtain rfl := Option.some.inj hlog'
    exact hset.mp (h'.of_same rfl rfl fun _ _ hu => hu)

theorem visible_getLog (h : w.Visible) (e : FileWrittenEvent) (dirExists : Bool) :
    (w.getLog e dirExists).Visible := by
  rw [Worker.getLog]
  split
  · exact h
  split
  · exact (visible_setLog h e.sessionId _).mpr (h e.sessionId).1
  · exact h.of_same rfl rfl fun _ _ hu => hu

theorem visible_markPending (h : w.Visible) (e : FileWrittenEvent) (next : Phase) :
    (w.markPending e next).Visible := by
  rw [Worker.markPending]
  split
  · exact visible_phase h next
  · exact (visible_mark h e _ next).mpr fun log hlog => ((h e.sessionId).2 log hlog).markPending e.relativePath

theorem unsynced_uploadVersion (file : File) (version : Nat) (sid path : String)
    (hu : (w.uploadVersion file version).Unsynced sid path) : w.Unsynced sid path := by
  rw [Worker.Unsynced, Worker.uploadVersion] at hu
  dsimp only at hu
  by_cases hfile : (sid, path) = file
  · rw [← hfile, Function.update_self] at hu
    exact lt_of_le_of_lt (le_max_left _ _) hu
  · rwa [Function.update_of_ne hfile] at hu

theorem visible_uploadVersion (h : w.Visible) (file : File) (version : Nat) :
    (w.uploadVersion file version).Visible :=
  h.of_same rfl rfl (unsynced_uploadVersion file version)

theorem visible_save (h : w.Visible) (sid : String) (next : Phase) :
    ({ w with
        disk := Function.update w.disk sid ((w.logs sid).getD (w.disk sid))
        phase := next } : Worker).Visible := by
  intro sid'
  refine ⟨?_, (h sid').2⟩
  dsimp only
  by_cases hsid : sid' = sid
  · subst hsid
    rw [Function.update_self]
    cases hlog : w.logs sid' with
    | none => exact (h sid').1
    | some log => exact (h sid').2 log hlog
  · rw [Function.update_of_ne hsid]
    exact (h sid').1

theorem visible_enqueue (h : w.Visible) (e : FileWrittenEvent) :
    (w.enqueue e).Visible ↔ (w.uploaded e.file < w.written e.file → w.ListedFor e) := by
  have hself : (w.enqueue e).Unsynced e.sessionId e.relativePath ↔ w.uploaded e.file < w.written e.file := by
    rw [Worker.Unsynced, Worker.enqueue]
    dsimp only
    rw [show (e.sessionId, e.relativePath) = e.file from rfl, Function.update_self]
  have hother : ∀ sid path, (sid, path) ≠ e.file →
      ((w.enqueue e).Unsynced sid path ↔ w.Unsynced sid path) := by
    intro sid path hne
    rw [Worker.Unsynced, Worker.enqueue]
    dsimp only
    rw [Function.update_of_ne hne]
    rfl
  have hfile : ∀ path, path ≠ e.relativePath → (e.sessionId, path) ≠ e.file :=
    fun path hne heq => hne (congrArg Prod.snd heq)
  have hat : ∀ log, Honest log (w.Unsynced e.sessionId) →
      (Honest log ((w.enqueue e).Unsynced e.sessionId) ↔
        (w.uploaded e.file < w.written e.file → log.Listed e.relativePath)) := by
    intro log hlog
    rw [hlog.at_iff fun path hne => hother e.sessionId path (hfile path hne), hself]
  constructor
  · intro h' hnew
    obtain ⟨hdisk, hlogs⟩ := h' e.sessionId
    exact ⟨(hat _ (h e.sessionId).1).mp hdisk hnew,
      fun log hlog => (hat log ((h e.sessionId).2 log hlog)).mp (hlogs log hlog) hnew⟩
  · intro hlisted sid
    obtain ⟨hdisk, hlogs⟩ := h sid
    by_cases hsid : sid = e.sessionId
    · subst hsid
      exact ⟨(hat _ hdisk).mpr fun hnew => (hlisted hnew).1,
        fun log hlog => (hat log (hlogs log hlog)).mpr fun hnew => (hlisted hnew).2 log hlog⟩
    · have hsub : ∀ path, (w.enqueue e).Unsynced sid path → w.Unsynced sid path :=
        fun path => (hother sid path fun heq => hsid (congrArg Prod.fst heq)).mp
      exact ⟨hdisk.mono hsub, fun log hlog => (hlogs log hlog).mono hsub⟩

/-- No version is enqueued before it is written. -/
def Worker.Ordered (w : Worker) : Prop := ∀ file, w.enqueued file ≤ w.written file

theorem not_unsynced_onDisk (ho : w.Ordered) (e : FileWrittenEvent) :
    ¬ (w.uploadVersion e.file (w.written e.file)).Unsynced e.sessionId e.relativePath := by
  rw [Worker.Unsynced, Worker.uploadVersion]
  dsimp only
  rw [show (e.sessionId, e.relativePath) = e.file from rfl, Function.update_self, not_lt]
  exact le_max_of_le_right (ho e.file)

theorem visible_work (settings : Settings) (h : w.Visible) (ho : w.Ordered) (m : Meets) :
    (w.work settings m).Visible ↔ Tracked w (.work m) := by
  rw [Worker.work, Tracked]
  cases w.phase with
  | stopped => exact iff_of_true h trivial
  | waiting =>
    refine iff_of_true ?_ trivial
    dsimp only
    split
    · exact h
    · exact h.of_same rfl rfl fun _ _ hu => hu
    · exact h.of_same rfl rfl fun _ _ hu => hu
  | taken e => exact iff_of_true (visible_markPending (visible_getLog h e m.dirExists) e _) trivial
  | onDisk e =>
    have hup := visible_uploadVersion h e.file (w.written e.file)
    refine (visible_mark hup e _ .waiting).trans (forall₂_congr fun log hlog => ?_)
    rw [((hup e.sessionId).2 log hlog).markSynced_iff]
    exact and_iff_left (not_unsynced_onDisk ho e)
  | attempting e attempt lastError =>
    refine iff_of_true ?_ trivial
    dsimp only
    split
    · exact visible_phase h _
    · exact visible_phase h _
  | uploading e attempt version =>
    refine iff_of_true ?_ trivial
    dsimp only
    split
    · exact visible_phase (visible_uploadVersion h e.file version) _
    · exact visible_phase h _
  | uploaded e cloudPath =>
    refine (visible_mark h e _ .waiting).trans (forall₂_congr fun log hlog => ?_)
    rw [((h e.sessionId).2 log hlog).markSynced_iff]
    exact and_congr_right' not_lt
  | failed e attempt error =>
    refine iff_of_true ((visible_mark h e _ _).mpr fun log hlog => ?_) trivial
    exact ((h e.sessionId).2 log hlog).markFailed e.relativePath error
  | givingUp e lastError =>
    refine (visible_mark h e _ _).trans (forall₂_congr fun log hlog => ?_)
    exact ((h e.sessionId).2 log hlog).markPermanentFailure_iff e.relativePath
  | alerting e lastError => exact iff_of_true (h.of_same rfl rfl fun _ _ hu => hu) trivial
  | saving sid next =>
    refine iff_of_true ?_ trivial
    dsimp only
    split
    · exact visible_save h sid next
    · exact visible_phase h next

theorem visible_step (settings : Settings) (h : w.Visible) (ho : w.Ordered) (i : Input) :
    (w.step settings i).Visible ↔ Tracked w i := by
  cases i with
  | write file => exact iff_of_true (h.of_same rfl rfl fun _ _ hu => hu) trivial
  | enqueue e => exact visible_enqueue h e
  | start =>
    refine iff_of_true ?_ trivial
    rw [Worker.step]
    split
    · exact visible_phase h .waiting
    · exact h
  | work m => exact visible_work settings h ho m
  | stop => exact iff_of_true (h.of_same rfl rfl fun _ _ hu => hu) trivial
  | die => exact iff_of_true (fun sid => ⟨(h sid).1, nofun⟩) trivial

/-- The account of the versions that are written and enqueued. -/
def Worker.versions (w : Worker) : (File → Nat) × (File → Nat) := (w.written, w.enqueued)

theorem versions_mark (e : FileWrittenEvent) (f : SyncLog → SyncLog) (next : Phase) :
    (w.mark e f next).versions = w.versions := by
  rw [Worker.mark]
  split
  · rfl
  · rfl

theorem versions_getLog (e : FileWrittenEvent) (dirExists : Bool) :
    (w.getLog e dirExists).versions = w.versions := by
  rw [Worker.getLog]
  split
  · rfl
  split
  · rfl
  · rfl

theorem versions_markPending (e : FileWrittenEvent) (next : Phase) :
    (w.markPending e next).versions = w.versions := by
  rw [Worker.markPending]
  split
  · rfl
  · exact versions_mark e _ next

theorem versions_work (settings : Settings) (m : Meets) : (w.work settings m).versions = w.versions := by
  rw [Worker.work]
  cases w.phase with
  | stopped | alerting _ _ => rfl
  | waiting =>
    dsimp only
    split
    · rfl
    · rfl
    · rfl
  | taken e => exact (versions_markPending e _).trans (versions_getLog e m.dirExists)
  | onDisk e => exact versions_mark e _ .waiting
  | attempting _ _ _ | uploading _ _ _ | saving _ _ =>
    dsimp only
    split
    · rfl
    · rfl
  | uploaded e _ | failed e _ _ | givingUp e _ => exact versions_mark e _ _

theorem Worker.Ordered.step (ho : w.Ordered) (settings : Settings) (i : Input) :
    (w.step settings i).Ordered := by
  cases i with
  | write file =>
    intro file'
    rw [Worker.step]
    dsimp only
    by_cases hfile : file' = file
    · rw [hfile, Function.update_self]
      exact Nat.le_succ_of_le (ho file)
    · rw [Function.update_of_ne hfile]
      exact ho file'
  | enqueue e =>
    intro file'
    rw [Worker.step, Worker.enqueue]
    dsimp only
    by_cases hfile : file' = e.file
    · rw [hfile, Function.update_self]
    · rw [Function.update_of_ne hfile]
      exact ho file'
  | work m =>
    have hsame : (w.step settings (.work m)).versions = w.versions := versions_work settings m
    obtain ⟨hwritten, henqueued⟩ := Prod.mk.inj hsame
    intro file
    rw [hwritten, henqueued]
    exact ho file
  | start =>
    rw [Worker.step]
    split
    · exact ho
    · exact ho
  | stop | die => exact ho

end Steps

/-- In every run the logs hide no file that is not synced, and record none as both synced and
permanently failed, if and only if each step meets the condition. -/
theorem never_hidden_iff (settings : Settings) (is : List Input) :
    Along (Worker.step settings) (fun _ _ w' => w'.Visible) (.start fun _ => .empty) is ↔
      Guarded (Worker.step settings) Tracked (.start fun _ => .empty) is := by
  have hstart : (Worker.start fun _ => .empty).Visible ∧ (Worker.start fun _ => .empty).Ordered :=
    ⟨fun sid => ⟨⟨fun _ hu => absurd hu (lt_irrefl 0), nofun⟩, nofun⟩, fun _ => le_refl 0⟩
  have hstep : ∀ w i, Worker.Visible w ∧ w.Ordered → ((w.step settings i).Visible ↔ Tracked w i) :=
    fun w i h => visible_step settings h.1 h.2 i
  have hkeep : ∀ w i, Worker.Visible w ∧ w.Ordered → (w.step settings i).Visible →
      (w.step settings i).Visible ∧ (w.step settings i).Ordered :=
    fun w i h hnext => ⟨hnext, h.2.step settings i⟩
  exact along_iff_guarded_of hstep hkeep _ is hstart

def reasoningWritten : FileWrittenEvent :=
  ⟨"s1", "reasoning/reasoning.jsonl", "/memories/demo/reasoning/reasoning.jsonl"⟩

/-- A file is synced, written again and enqueued, and the worker has begun to dispatch it when
its process dies. -/
def rewritten : List Input :=
  [.start, .write reasoningWritten.file, .enqueue reasoningWritten] ++
    List.replicate 8 (.work ⟨true, true, .ok "s3://bucket/reasoning.jsonl"⟩) ++
    [.write reasoningWritten.file, .enqueue reasoningWritten] ++
    List.replicate 2 (.work ⟨true, true, .ok "s3://bucket/reasoning.jsonl"⟩) ++ [.die]

theorem rewritten_file_hidden :
    ¬ (run (Worker.step ⟨true, 5⟩) (.start fun _ => .empty) rewritten).Visible := by
  intro h
  have hunsynced : (run (Worker.step ⟨true, 5⟩) (.start fun _ => .empty) rewritten).Unsynced "s1"
      "reasoning/reasoning.jsonl" := by
    rw [Worker.Unsynced]
    decide +kernel
  have hrecord : ((run (Worker.step ⟨true, 5⟩) (.start fun _ => .empty) rewritten).disk "s1").get
      "reasoning/reasoning.jsonl" = some ⟨true, some "s3://bucket/reasoning.jsonl", 0, false, none⟩ := by
    decide +kernel
  obtain ⟨r, hr, himp⟩ := listed_iff.mp ((h "s1").1.listed _ hunsynced)
  obtain rfl := Option.some.inj (hrecord.symm.trans hr)
  exact Bool.false_ne_true (himp rfl)

end MemoryArchive.Storage.Sync
