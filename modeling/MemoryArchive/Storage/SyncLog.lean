import Mathlib.Data.String.Basic
import MemoryArchive.Data.Table

namespace MemoryArchive.Storage.Sync

structure FileRecord where
  synced : Bool
  cloudPath : Option String
  retryCount : Nat
  failedPermanent : Bool
  lastError : Option String
  deriving DecidableEq

def FileRecord.new : FileRecord := ⟨false, none, 0, false, none⟩

/-- The records of the files of one session by relative path. -/
structure SyncLog where
  files : Table String FileRecord

namespace SyncLog

variable (log : SyncLog) (path : String)

def empty : SyncLog := ⟨.empty⟩

def get (path : String) : Option FileRecord := log.files.get? path

def put (r : FileRecord) : SyncLog := ⟨log.files.insert path r⟩

def record : FileRecord := (log.get path).getD .new

/-- A file that has a record keeps it. -/
def markPending : SyncLog :=
  match log.get path with
  | some _ => log
  | none => log.put path .new

def markSynced (cloudPath : String) : SyncLog :=
  log.put path { log.record path with synced := true, cloudPath := some cloudPath, lastError := none }

def markFailed (error : String) : SyncLog :=
  log.put path
    { log.record path with
      synced := false
      retryCount := (log.record path).retryCount + 1
      lastError := some error }

def markPermanentFailure : SyncLog :=
  log.put path { log.record path with failedPermanent := true }

def pendingFiles : List String :=
  (log.files.rows.filter fun row => !row.2.synced && !row.2.failedPermanent).map Prod.fst

def failedPermanentFiles : List String := (log.files.rows.filter fun row => row.2.failedPermanent).map Prod.fst

def Listed : Prop := path ∈ log.pendingFiles ∨ path ∈ log.failedPermanentFiles

end SyncLog

section Marks

variable {log : SyncLog} {path : String} {unsynced unsynced' : String → Prop}

theorem get_put_self (log : SyncLog) (path : String) (r : FileRecord) : (log.put path r).get path = some r := by
  rw [SyncLog.get, SyncLog.put, Table.get?_insert, if_pos rfl]

theorem get_put_of_ne (log : SyncLog) (r : FileRecord) {p : String} (hp : p ≠ path) :
    (log.put path r).get p = log.get p := by
  rw [SyncLog.get, SyncLog.put, Table.get?_insert, if_neg hp]
  rfl

theorem mem_pendingFiles :
    path ∈ log.pendingFiles ↔
      ∃ r, log.get path = some r ∧ r.synced = false ∧ r.failedPermanent = false := by
  rw [SyncLog.pendingFiles, List.mem_map]
  constructor
  · rintro ⟨⟨p, r⟩, hmem, rfl⟩
    obtain ⟨hrow, hpending⟩ := List.mem_filter.mp hmem
    exact ⟨r, (log.files.mem_rows_iff p r).mp hrow, by simpa using hpending⟩
  · rintro ⟨r, hr, hsynced, hfailed⟩
    have hrow := (log.files.mem_rows_iff path r).mpr hr
    exact ⟨(path, r), List.mem_filter.mpr ⟨hrow, by simp [hsynced, hfailed]⟩, rfl⟩

theorem mem_failedPermanentFiles :
    path ∈ log.failedPermanentFiles ↔ ∃ r, log.get path = some r ∧ r.failedPermanent = true := by
  rw [SyncLog.failedPermanentFiles, List.mem_map]
  constructor
  · rintro ⟨⟨p, r⟩, hmem, rfl⟩
    obtain ⟨hrow, hfailed⟩ := List.mem_filter.mp hmem
    exact ⟨r, (log.files.mem_rows_iff p r).mp hrow, hfailed⟩
  · rintro ⟨r, hr, hfailed⟩
    exact ⟨(path, r), List.mem_filter.mpr ⟨(log.files.mem_rows_iff path r).mpr hr, hfailed⟩, rfl⟩

/-- A file is listed unless it is recorded as synced, or not recorded. -/
theorem listed_iff :
    log.Listed path ↔ ∃ r, log.get path = some r ∧ (r.synced = true → r.failedPermanent = true) := by
  rw [SyncLog.Listed, mem_pendingFiles, mem_failedPermanentFiles]
  constructor
  · rintro (⟨r, hr, hsynced, -⟩ | ⟨r, hr, hfailed⟩)
    · exact ⟨r, hr, fun h => by rw [hsynced] at h; cases h⟩
    · exact ⟨r, hr, fun _ => hfailed⟩
  · rintro ⟨r, hr, himp⟩
    cases hfailed : r.failedPermanent with
    | true => exact .inr ⟨r, hr, hfailed⟩
    | false =>
      refine .inl ⟨r, hr, ?_, hfailed⟩
      rw [hfailed] at himp
      exact Bool.eq_false_iff.mpr fun hsynced => Bool.false_ne_true (himp hsynced)

/-- A log lists each file that is not synced, and records none as both synced and permanently
failed. -/
structure Honest (log : SyncLog) (unsynced : String → Prop) : Prop where
  listed : ∀ path, unsynced path → log.Listed path
  single : ∀ path r, log.get path = some r → ¬ (r.synced = true ∧ r.failedPermanent = true)

theorem Honest.mono (h : Honest log unsynced) (hsub : ∀ path, unsynced' path → unsynced path) :
    Honest log unsynced' := ⟨fun path hpath => h.listed path (hsub path hpath), h.single⟩

/-- What is not synced changes for one file. -/
theorem Honest.at_iff (h : Honest log unsynced) (hsub : ∀ p, p ≠ path → (unsynced' p ↔ unsynced p)) :
    Honest log unsynced' ↔ (unsynced' path → log.Listed path) := by
  constructor
  · exact fun h' => h'.listed path
  · refine fun hpath => ⟨fun p hp => ?_, h.single⟩
    by_cases hp' : p = path
    · subst hp'
      exact hpath hp
    · exact h.listed p ((hsub p hp').mp hp)

/-- A record that is written matters for its own file only. -/
theorem Honest.put_iff (h : Honest log unsynced) (path : String) (r : FileRecord) :
    Honest (log.put path r) unsynced ↔
      (unsynced path → r.synced = true → r.failedPermanent = true) ∧
        ¬ (r.synced = true ∧ r.failedPermanent = true) := by
  have hself : (log.put path r).get path = some r := get_put_self log path r
  have hother : ∀ p, p ≠ path → (log.put path r).get p = log.get p := fun p => get_put_of_ne log r
  constructor
  · refine fun h' => ⟨fun hpath hsynced => ?_, h'.single path r hself⟩
    obtain ⟨r', hr', himp⟩ := listed_iff.mp (h'.listed path hpath)
    obtain rfl := Option.some.inj (hself.symm.trans hr')
    exact himp hsynced
  · rintro ⟨hlisted, hsingle⟩
    refine ⟨fun p hp => listed_iff.mpr ?_, fun p r' hr' => ?_⟩
    · by_cases hp' : p = path
      · subst hp'
        exact ⟨r, hself, hlisted hp⟩
      · rw [hother p hp']
        exact listed_iff.mp (h.listed p hp)
    · by_cases hp' : p = path
      · subst hp'
        obtain rfl := Option.some.inj (hself.symm.trans hr')
        exact hsingle
      · rw [hother p hp'] at hr'
        exact h.single p r' hr'

theorem Honest.markPending (h : Honest log unsynced) (path : String) :
    Honest (log.markPending path) unsynced := by
  rw [SyncLog.markPending]
  split
  · exact h
  · exact (h.put_iff path .new).mpr ⟨fun _ => nofun, nofun⟩

theorem Honest.markFailed (h : Honest log unsynced) (path error : String) :
    Honest (log.markFailed path error) unsynced :=
  (h.put_iff path _).mpr ⟨fun _ => nofun, fun hboth => by cases hboth.1⟩

theorem Honest.markPermanentFailure_iff (h : Honest log unsynced) (path : String) :
    Honest (log.markPermanentFailure path) unsynced ↔ (log.record path).synced = false := by
  rw [SyncLog.markPermanentFailure, h.put_iff]
  simp

theorem Honest.markSynced_iff (h : Honest log unsynced) (path cloudPath : String) :
    Honest (log.markSynced path cloudPath) unsynced ↔
      (log.record path).failedPermanent = false ∧ ¬ unsynced path := by
  rw [SyncLog.markSynced, h.put_iff]
  cases (log.record path).failedPermanent <;> simp

end Marks

end MemoryArchive.Storage.Sync
