import MemoryArchive.Storage.SyncWorker

namespace MemoryArchive.Storage.Sync

open Runs

/-- How far `shutdown_worker` is: not called, after its drain, after the stop sentinel, or back. -/
inductive Stage
  | running | drained | stopping | returned
  deriving DecidableEq

/-- The life of a worker, with an account of the alerts that callers of `drain_alerts` have
received and of the files that the worker has given up, as often as it did. -/
structure Life where
  worker : Worker
  stage : Stage
  received : List Alert
  givenUp : List File

inductive LifeInput
  | write (file : File)
  | enqueue (e : FileWrittenEvent)
  | work (m : Meets)
  | drain
  | shutdown
  | stop
  | join

namespace Life

variable (settings : Settings) (s : Life)

/-- `init_worker`, over the logs that are on disk. -/
def start (disk : String → SyncLog) : Life where
  worker := { Worker.start disk with phase := .waiting }
  stage := .running
  received := []
  givenUp := []

def drainAlerts : Life :=
  { s with worker := { s.worker with alerts := [] }, received := s.received ++ s.worker.alerts }

def givesUp : Phase → List File
  | .givingUp e _ => [e.file]
  | _ => []

/-- The thread that shuts the worker down is the one that drains its alerts before. -/
def step : LifeInput → Life
  | .write file => { s with worker := s.worker.step settings (.write file) }
  | .enqueue e => { s with worker := s.worker.step settings (.enqueue e) }
  | .work m =>
      { s with worker := s.worker.step settings (.work m), givenUp := s.givenUp ++ givesUp s.worker.phase }
  | .drain => if s.stage = .running then s.drainAlerts else s
  | .shutdown => if s.stage = .running then { s.drainAlerts with stage := .drained } else s
  | .stop =>
      if s.stage = .drained then { s with worker := s.worker.step settings .stop, stage := .stopping } else s
  | .join => if s.stage = .stopping ∧ s.worker.phase = .stopped then { s with stage := .returned } else s

end Life

def Alert.file? : Alert → Option File
  | .permanentFailure e _ _ => some e.file
  | .noMemoryDir _ => none

def alertsFor (file : File) (alerts : List Alert) : List Alert := alerts.filter fun a => a.file? = some file

/-- There is one alert for each file that has been given up, and a caller has received it. -/
def Life.Reported (s : Life) : Prop :=
  ∀ file ∈ s.givenUp, (alertsFor file (s.received ++ s.worker.alerts)).length = 1 ∧
    (alertsFor file s.received).length = 1

/-- No file is given up twice, and the alert of one is recorded before the worker is shut down. -/
def Timely (s : Life) : LifeInput → Prop
  | .work _ =>
      match s.worker.phase with
      | .givingUp e _ => e.file ∉ s.givenUp
      | .alerting _ _ => s.stage = .running
      | _ => True
  | _ => True

instance decidableTimely (s : Life) (i : LifeInput) : Decidable (Timely s i) :=
  match i with
  | .work _ =>
      match hphase : s.worker.phase with
      | .givingUp e _ => decidable_of_iff (e.file ∉ s.givenUp) (by rw [Timely, hphase])
      | .alerting _ _ => decidable_of_iff (s.stage = .running) (by rw [Timely, hphase])
      | .stopped | .waiting | .taken _ | .onDisk _ | .attempting _ _ _ | .uploading _ _ _ | .uploaded _ _
      | .failed _ _ _ | .saving _ _ => isTrue (by rw [Timely, hphase]; trivial)
  | .write _ | .enqueue _ | .drain | .shutdown | .stop | .join => isTrue trivial

/-- The file that the worker has given up and has no alert for yet. -/
def Phase.telling : Phase → Option File
  | .alerting e _ => some e.file
  | .saving _ next => next.telling
  | _ => none

section Work

variable (settings : Settings) (w : Worker)

theorem mark_tells (e : FileWrittenEvent) (f : SyncLog → SyncLog) (next : Phase) :
    (w.mark e f next).alerts = w.alerts ∧ (w.mark e f next).phase.telling = next.telling := by
  rw [Worker.mark]
  split
  · exact ⟨rfl, rfl⟩
  · exact ⟨rfl, rfl⟩

theorem markPending_tells (e : FileWrittenEvent) (next : Phase) :
    (w.markPending e next).alerts = w.alerts ∧ (w.markPending e next).phase.telling = next.telling := by
  rw [Worker.markPending]
  split
  · exact ⟨rfl, rfl⟩
  · exact mark_tells w e _ next

theorem getLog_alerts (e : FileWrittenEvent) (dirExists : Bool) :
    ∃ more, (w.getLog e dirExists).alerts = w.alerts ++ more ∧ ∀ file, alertsFor file more = [] := by
  rw [Worker.getLog]
  split
  · exact ⟨[], (List.append_nil _).symm, fun _ => rfl⟩
  split
  · exact ⟨[], (List.append_nil _).symm, fun _ => rfl⟩
  · exact ⟨_, rfl, fun _ => rfl⟩

/-- The alerts of files that a step records. -/
def alertsOf (file : File) : Phase → List Alert
  | .alerting e lastError => alertsFor file [.permanentFailure e settings.syncRetryMax lastError]
  | _ => []

/-- What a step of the worker records, and what it still has to. -/
theorem work_tells (m : Meets) :
    (∃ more, (w.work settings m).alerts = w.alerts ++ more ∧
      ∀ file, alertsFor file more = alertsOf settings file w.phase) ∧
    (w.work settings m).phase.telling =
      match w.phase with
      | .alerting _ _ => none
      | .givingUp e _ => some e.file
      | phase => phase.telling := by
  have hsame : ∀ w' : Worker, w'.alerts = w.alerts →
      ∃ more, w'.alerts = w.alerts ++ more ∧ ∀ file, alertsFor file more = [] :=
    fun w' h => ⟨[], by rw [h, List.append_nil], fun _ => rfl⟩
  rw [Worker.work]
  cases hphase : w.phase with
  | stopped => exact ⟨hsame w rfl, congrArg Phase.telling hphase⟩
  | waiting =>
    dsimp only
    split
    · exact ⟨hsame w rfl, congrArg Phase.telling hphase⟩
    · exact ⟨hsame _ rfl, rfl⟩
    · exact ⟨hsame _ rfl, rfl⟩
  | taken e =>
    obtain ⟨halerts, htelling⟩ := markPending_tells (w.getLog e m.dirExists) e
      (if settings.provider then .attempting e 1 none else .onDisk e)
    obtain ⟨more, hmore, hnone⟩ := getLog_alerts w e m.dirExists
    refine ⟨⟨more, halerts.trans hmore, hnone⟩, htelling.trans ?_⟩
    split
    · rfl
    · rfl
  | onDisk e =>
    obtain ⟨halerts, htelling⟩ := mark_tells (w.uploadVersion e.file (w.written e.file)) e
      (·.markSynced e.relativePath e.absPath) .waiting
    exact ⟨hsame _ halerts, htelling⟩
  | attempting _ _ _ | uploading _ _ _ =>
    dsimp only
    split
    · exact ⟨hsame _ rfl, rfl⟩
    · exact ⟨hsame _ rfl, rfl⟩
  | uploaded e _ | failed e _ _ | givingUp e _ =>
    obtain ⟨halerts, htelling⟩ := mark_tells w e _ _
    exact ⟨hsame _ halerts, htelling⟩
  | alerting e lastError => exact ⟨⟨_, rfl, fun _ => rfl⟩, rfl⟩
  | saving sid next =>
    dsimp only
    split
    · exact ⟨hsame _ rfl, rfl⟩
    · exact ⟨hsame _ rfl, rfl⟩

end Work

section Property

variable {settings : Settings} {s : Life}

/-- Each file has an alert for every time it has been given up, but for the one that the worker is
about to record; and after the shutdown the worker is stopped. -/
structure Accounted (s : Life) : Prop where
  told : ∀ file, (alertsFor file (s.received ++ s.worker.alerts)).length +
    (if s.worker.phase.telling = some file then 1 else 0) = s.givenUp.count file
  stopped : s.stage = .returned → s.worker.phase = .stopped

/-- No alert of a file is left with the worker once it is shut down, and no file has been given
up twice. -/
structure Clean (s : Life) : Prop where
  left : s.stage ≠ .running → ∀ file, alertsFor file s.worker.alerts = []
  once : s.givenUp.Nodup

theorem alertsFor_append (file : File) (alerts more : List Alert) :
    alertsFor file (alerts ++ more) = alertsFor file alerts ++ alertsFor file more := List.filter_append _ _

theorem length_alertsFor (e : FileWrittenEvent) (maxAttempts : Nat) (lastError : Option String) (file : File) :
    (alertsFor file [.permanentFailure e maxAttempts lastError]).length =
      if some e.file = some file then 1 else 0 := by
  rw [alertsFor, List.filter_singleton]
  by_cases hfile : some e.file = some file
  · simp [Alert.file?, hfile]
  · simp [Alert.file?, hfile]

theorem accounted_work (h : Accounted s) (m : Meets) : Accounted (s.step settings (.work m)) := by
  obtain ⟨⟨more, hmore, hof⟩, htelling⟩ := work_tells settings s.worker m
  refine ⟨fun file => ?_, fun hstage => ?_⟩
  · have htold := h.told file
    change (alertsFor file (s.received ++ (s.worker.work settings m).alerts)).length +
      (if (s.worker.work settings m).phase.telling = some file then 1 else 0) = (s.givenUp ++ _).count file
    rw [hmore, ← List.append_assoc, alertsFor_append, hof, htelling, List.length_append, List.count_append]
    cases hphase : s.worker.phase with
    | alerting e lastError =>
      have hone : (alertsOf settings file (.alerting e lastError)).length =
          if (Phase.alerting e lastError).telling = some file then 1 else 0 := length_alertsFor _ _ _ file
      rw [hphase] at htold
      rw [hone]
      exact htold
    | givingUp e lastError =>
      rw [hphase] at htold
      change _ + 0 + (if some e.file = some file then 1 else 0) = _ + [e.file].count file
      rw [List.count_singleton, ← htold]
      simp [Phase.telling]
    | stopped | waiting | taken _ | onDisk _ | attempting _ _ _ | uploading _ _ _ | uploaded _ _ | failed _ _ _
    | saving _ _ =>
      rw [hphase] at htold
      exact htold
  · have hphase := h.stopped hstage
    change (s.worker.work settings m).phase = .stopped
    rw [Worker.work, hphase]
    exact hphase

theorem accounted_step (h : Accounted s) (i : LifeInput) : Accounted (s.step settings i) := by
  have hdrain : ∀ file, (alertsFor file (s.drainAlerts.received ++ s.drainAlerts.worker.alerts)).length =
      (alertsFor file (s.received ++ s.worker.alerts)).length := by
    intro file
    rw [Life.drainAlerts]
    dsimp only
    rw [List.append_nil]
  cases i with
  | write file => exact ⟨h.told, h.stopped⟩
  | enqueue e => exact ⟨h.told, h.stopped⟩
  | work m => exact accounted_work h m
  | drain =>
    rw [Life.step]
    split
    · exact ⟨fun file => by rw [hdrain]; exact h.told file, h.stopped⟩
    · exact h
  | shutdown =>
    rw [Life.step]
    split
    · exact ⟨fun file => (congrArg (· + _) (hdrain file)).trans (h.told file), nofun⟩
    · exact h
  | stop =>
    rw [Life.step]
    split
    · exact ⟨h.told, nofun⟩
    · exact h
  | join =>
    rw [Life.step]
    split
    · rename_i hdone
      exact ⟨h.told, fun _ => hdone.2⟩
    · exact h

theorem clean_work (m : Meets) :
    Clean (s.step settings (.work m)) ↔
      (s.stage ≠ .running → ∀ file,
        alertsFor file s.worker.alerts = [] ∧ alertsOf settings file s.worker.phase = []) ∧
      (s.givenUp ++ Life.givesUp s.worker.phase).Nodup := by
  obtain ⟨⟨more, hmore, hof⟩, -⟩ := work_tells settings s.worker m
  have halerts : ∀ file, alertsFor file (s.worker.work settings m).alerts = [] ↔
      alertsFor file s.worker.alerts = [] ∧ alertsOf settings file s.worker.phase = [] := by
    intro file
    rw [hmore, alertsFor_append, hof, List.append_eq_nil_iff]
  constructor
  · rintro ⟨hleft, honce⟩
    exact ⟨fun hstage file => (halerts file).mp (hleft hstage file), honce⟩
  · rintro ⟨hleft, honce⟩
    exact ⟨fun hstage file => (halerts file).mpr (hleft hstage file), honce⟩

theorem clean_step (h : Clean s) (i : LifeInput) : Clean (s.step settings i) ↔ Timely s i := by
  cases i with
  | work m =>
    rw [clean_work, Timely]
    cases hphase : s.worker.phase with
    | alerting e lastError =>
      dsimp only
      have honce : (s.givenUp ++ Life.givesUp (.alerting e lastError)).Nodup := by
        rw [show Life.givesUp (.alerting e lastError) = [] from rfl, List.append_nil]
        exact h.once
      refine ⟨fun hclean => ?_, fun hrunning => ⟨fun hstage => absurd hrunning hstage, honce⟩⟩
      by_contra hstage
      obtain ⟨-, hnone⟩ := hclean.1 hstage e.file
      have hone : (alertsOf settings e.file (.alerting e lastError)).length = 1 :=
        (length_alertsFor e settings.syncRetryMax lastError e.file).trans (if_pos rfl)
      rw [hnone] at hone
      cases hone
    | givingUp e lastError =>
      dsimp only
      have hnodup : (s.givenUp ++ [e.file]).Nodup ↔ e.file ∉ s.givenUp := by
        rw [List.nodup_append_comm, List.singleton_append, List.nodup_cons]
        exact and_iff_left h.once
      refine (and_iff_right fun hstage file => ?_).trans hnodup
      exact ⟨h.left hstage file, rfl⟩
    | stopped | waiting | taken _ | onDisk _ | attempting _ _ _ | uploading _ _ _ | uploaded _ _ | failed _ _ _
    | saving _ _ =>
      refine iff_of_true ⟨fun hstage file => ⟨h.left hstage file, rfl⟩, ?_⟩ trivial
      exact (List.append_nil s.givenUp).symm ▸ h.once
  | write _ | enqueue _ => exact iff_of_true ⟨h.left, h.once⟩ trivial
  | drain =>
    refine iff_of_true ?_ trivial
    rw [Life.step]
    split
    · exact ⟨fun _ _ => rfl, h.once⟩
    · exact h
  | shutdown =>
    refine iff_of_true ?_ trivial
    rw [Life.step]
    split
    · exact ⟨fun _ _ => rfl, h.once⟩
    · exact h
  | stop =>
    refine iff_of_true ?_ trivial
    rw [Life.step]
    split
    · rename_i hdrained
      exact ⟨fun _ => h.left (by rw [hdrained]; exact nofun), h.once⟩
    · exact h
  | join =>
    refine iff_of_true ?_ trivial
    rw [Life.step]
    split
    · rename_i hdone
      exact ⟨fun _ => h.left (by rw [hdone.1]; exact nofun), h.once⟩
    · exact h

/-- What is not clean stays so. -/
theorem clean_before (i : LifeInput) (h : Clean (s.step settings i)) : Clean s := by
  cases i with
  | work m =>
    obtain ⟨hleft, honce⟩ := (clean_work m).mp h
    exact ⟨fun hstage file => (hleft hstage file).1, (List.nodup_append.mp honce).1⟩
  | write _ | enqueue _ => exact ⟨h.left, h.once⟩
  | drain =>
    rw [Life.step] at h
    split at h
    · rename_i hrunning
      exact ⟨fun hstage => absurd hrunning hstage, h.once⟩
    · exact h
  | shutdown =>
    rw [Life.step] at h
    split at h
    · rename_i hrunning
      exact ⟨fun hstage => absurd hrunning hstage, h.once⟩
    · exact h
  | stop =>
    rw [Life.step] at h
    split at h
    · exact ⟨fun _ => h.left nofun, h.once⟩
    · exact h
  | join =>
    rw [Life.step] at h
    split at h
    · exact ⟨fun _ => h.left nofun, h.once⟩
    · exact h

/-- When the shutdown is over, the alerts are reported if nothing is left and nothing was given
up twice. -/
theorem reported_iff (h : Accounted s) (hreturned : s.stage = .returned) : s.Reported ↔ Clean s := by
  have htold : ∀ file, (alertsFor file (s.received ++ s.worker.alerts)).length = s.givenUp.count file := by
    intro file
    have htold := h.told file
    rwa [h.stopped hreturned] at htold
  have hsplit : ∀ file, (alertsFor file (s.received ++ s.worker.alerts)).length =
      (alertsFor file s.received).length + (alertsFor file s.worker.alerts).length := by
    intro file
    rw [alertsFor_append, List.length_append]
  constructor
  · intro hreported
    refine ⟨fun _ file => List.eq_nil_of_length_eq_zero ?_, List.nodup_iff_count_le_one.mpr fun file => ?_⟩
    · by_cases hmem : file ∈ s.givenUp
      · obtain ⟨hall, hreceived⟩ := hreported file hmem
        rw [hsplit] at hall
        omega
      · have hcount := htold file
        rw [List.count_eq_zero_of_not_mem hmem, hsplit] at hcount
        omega
    · by_cases hmem : file ∈ s.givenUp
      · rw [← htold, (hreported file hmem).1]
      · rw [List.count_eq_zero_of_not_mem hmem]
        exact Nat.zero_le 1
  · rintro ⟨hleft, honce⟩ file hmem
    have hcount : s.givenUp.count file = 1 := List.count_eq_one_of_mem honce hmem
    have hnone := hleft (by rw [hreturned]; exact nofun) file
    have hall := (htold file).trans hcount
    refine ⟨hall, ?_⟩
    rwa [hsplit, hnone, List.length_nil, Nat.add_zero] at hall

/-- By the time that `shutdown_worker` is back, each file that the worker has given up has one
alert, which a caller has received, if and only if no file was given up twice and none after the
drain. -/
theorem failures_reported_iff (settings : Settings) (disk : String → SyncLog) (is : List LifeInput)
    (hreturned : (run (Life.step settings) (.start disk) is).stage = .returned) :
    (run (Life.step settings) (.start disk) is).Reported ↔
      Guarded (Life.step settings) Timely (.start disk) is := by
  have hstart : Accounted (.start disk) := ⟨fun _ => rfl, nofun⟩
  have hclean : Clean (.start disk) := ⟨fun _ _ => rfl, .nil⟩
  have hkeep : ∀ s i, Accounted s → Accounted (Life.step settings s i) := fun s i h => accounted_step h i
  have hend : Accounted (run (Life.step settings) (.start disk) is) :=
    invariant_run (fun s i h _ => hkeep s i h) _ is hstart (guarded_true _ is)
  have hstep : ∀ s i, Accounted s → Clean s → (Clean (Life.step settings s i) ↔ Timely s i) :=
    fun _ i _ h => clean_step h i
  have hlost : ∀ s i, Accounted s → ¬ Clean s → ¬ Clean (Life.step settings s i) :=
    fun _ i _ h hnext => h (clean_before i hnext)
  rw [reported_iff hend hreturned]
  exact run_iff_guarded hstep hlost hkeep _ is hstart hclean

end Property

/-- An upload that fails once, with the alert recorded before the shutdown. -/
def failedBefore : List LifeInput :=
  [.write reasoningWritten.file, .enqueue reasoningWritten] ++
    List.replicate 11 (.work ⟨true, true, .error "timed out"⟩) ++
    [.shutdown, .stop, .work ⟨true, true, .error ""⟩, .join]

theorem failures_reported_iff_sample :
    (run (Life.step ⟨true, 1⟩) (.start fun _ => .empty) failedBefore).Reported :=
  (failures_reported_iff ⟨true, 1⟩ (fun _ => .empty) failedBefore (by decide +kernel)).mpr (by decide +kernel)

/-- The same upload, which the worker comes to while it is being stopped. -/
def failedDuring : List LifeInput :=
  [.write reasoningWritten.file, .enqueue reasoningWritten, .shutdown, .stop] ++
    List.replicate 12 (.work ⟨true, true, .error "timed out"⟩) ++ [.join]

theorem failure_unreported :
    (run (Life.step ⟨true, 1⟩) (.start fun _ => .empty) failedDuring).stage = .returned ∧
      ¬ (run (Life.step ⟨true, 1⟩) (.start fun _ => .empty) failedDuring).Reported := by
  refine ⟨by decide +kernel, fun h => ?_⟩
  have hgiven : reasoningWritten.file ∈
      (run (Life.step ⟨true, 1⟩) (.start fun _ => .empty) failedDuring).givenUp := by
    decide +kernel
  have hreceived : (run (Life.step ⟨true, 1⟩) (.start fun _ => .empty) failedDuring).received = [] := by
    decide +kernel
  have hone := (h _ hgiven).2
  rw [hreceived] at hone
  cases hone

end MemoryArchive.Storage.Sync
