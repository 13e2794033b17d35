import MemoryArchive.Ipc.Directories

namespace MemoryArchive.Ipc

open Registry Storage

/-- `validate_session_id`. An absolute path has a slash. -/
def validSessionId (sid : String) : Bool :=
  !(sid = "" || sid = "." || sid = ".." || sid.toList.contains '/' || sid.toList.contains '\\' ||
    decide (['.', '.'] <:+: sid.toList))

inductive BackendKind
  | localTree | objectStore
  deriving DecidableEq

/-- How the purges of one deletion go. The removal of a directory that fails
leaves the directory, with some of its files. -/
structure PurgeFaults where
  listed : Bool
  deletable : String → Bool
  treeRemovable : Bool
  treeLeft : String → Bool
  dirRemovable : String → Bool
  ownerLeft : String → Bool

def PurgeFaults.never : PurgeFaults where
  listed := true
  deletable _ := true
  treeRemovable := true
  treeLeft _ := false
  dirRemovable _ := true
  ownerLeft _ := false

/-- `delete_all`: the objects that are left, and the count unless there was an
error. A session whose tree is missing has no objects in it. -/
def deleteAll (kind : BackendKind) (f : PurgeFaults) (sid : String) (paths : List String) :
    List String × Option Nat :=
  if validSessionId sid = false then (paths, none)
  else
    match kind with
    | .localTree =>
        if f.treeRemovable then ([], some (if f.listed then paths.length else 0))
        else (paths.filter f.treeLeft, none)
    | .objectStore =>
        if f.listed then
          (paths.dropWhile f.deletable, if paths.all f.deletable then some paths.length else none)
        else (paths, none)

/-- The directories by path, each with the session in its metadata if that can be
read. -/
abbrev Disk := String → Option (Option String)

def memoryDirs (memoryPath : String) : List String := [memoryPath, memoryPath ++ incompleteMark]

/-- The loop of `purge_memory_dir`. An error ends it. -/
def purgeDirs (f : PurgeFaults) (sid : String) (removed : Bool) (disk : Disk) :
    List String → Disk × Option Bool
  | [] => (disk, some removed)
  | path :: paths =>
      match disk path with
      | none => purgeDirs f sid removed disk paths
      | some owner =>
          if owner = some sid then
            if f.dirRemovable path then
              purgeDirs f sid true (Function.update disk path none) paths
            else
              let owner := if f.ownerLeft path then owner else none
              (Function.update disk path (some owner), none)
          else purgeDirs f sid removed disk paths

def purgeMemoryDir (f : PurgeFaults) (memoryPath sid : String) (disk : Disk) : Disk × Option Bool :=
  purgeDirs f sid false disk (memoryDirs memoryPath)

/-- The program with the objects of each backend, by session, and the memory
directories. -/
structure Stores where
  system : System
  kind : String → BackendKind
  objects : String → String → List String
  disk : Disk

/-- A DeleteSession, or the retention sweep over the keys that a scan gives. -/
inductive Deletion
  | request (env : OperatorEnv) (faults : PurgeFaults) (sid : String) (force : Bool)
  | sweep (faults : String → PurgeFaults) (expired : String → Bool) (keys : List String)

/-- The sessions that are incomplete since before the cutoff. -/
def listIncompleteBefore (redis : Redis) (expired : String → Bool) (keys : List String) : List String :=
  keys.filterMap fun key =>
    match redis.sessions key with
    | .record r =>
        if r.status = .incomplete && expired key && r.sessionId ≠ "" then some r.sessionId else none
    | .absent | .fragment _ => none

namespace Stores

variable (w : Stores)

def entry (sid : String) : Entry := w.system.entry sid

def backendOf (r : SessionRecord) : String := w.system.server.router.resolveForSession r

/-- An error is only logged. -/
def purgeObjects (f : PurgeFaults) (backend sid : String) : Stores × Nat :=
  let (left, count) := deleteAll (w.kind backend) f sid (w.objects backend sid)
  ({ w with objects := Function.update w.objects backend (Function.update (w.objects backend) sid left) },
    count.getD 0)

def purgeDir (f : PurgeFaults) (memoryPath sid : String) : Stores × Bool :=
  let (disk, removed) := purgeMemoryDir f memoryPath sid w.disk
  ({ w with disk := disk }, removed.getD false)

/-- The purges after the record is gone. -/
def purgeData (f : PurgeFaults) (sid : String) (r : SessionRecord) : Stores × Nat × Bool :=
  let (w, count) := w.purgeObjects f (w.backendOf r) sid
  let (w, removed) := w.purgeDir f r.memoryPath sid
  (w, count, removed)

/-- DeleteSession. Without a record only what is stored under the session id can
be found. -/
def deleteSession (env : OperatorEnv) (f : PurgeFaults) (sid : String) (force : Bool) :
    Stores × OutboundMessage :=
  match Ipc.deleteSession w.system env sid force with
  | (system, .sessionDeleted _ memoryName redisRemoved _ _) =>
      match w.system.server.redis.get sid with
      | .ok r =>
          let (w, count, removed) := { w with system := system }.purgeData f sid r
          (w, .sessionDeleted sid memoryName redisRemoved count removed)
      | .error _ =>
          let (w, count) :=
            { w with system := system }.purgeObjects f (w.system.server.router.resolve "") sid
          (w, .sessionDeleted sid memoryName redisRemoved count false)
  | (system, reply) => ({ w with system := system }, reply)

/-- One session of the retention sweep. -/
def sweepSession (faults : String → PurgeFaults) (w : Stores) (sid : String) : Stores :=
  match w.system.server.redis.get sid with
  | .error _ => w
  | .ok r =>
      match w.system.server.redis.deleteSession sid with
      | .error _ => w
      | .ok (redis, _) => ({ w with system := w.system.setRedis redis }.purgeData (faults sid) sid r).1

def delete (w : Stores) : Deletion → Stores
  | .request env f sid force => (w.deleteSession env f sid force).1
  | .sweep faults expired keys =>
      (listIncompleteBefore w.system.server.redis expired keys).foldl (sweepSession faults) w

/-- A directory is there and its metadata names no other session. -/
def Mine (sid path : String) : Prop := w.disk path = some none ∨ w.disk path = some (some sid)

/-- Something of a session is left after a deletion: an object, or a directory
that was its own. -/
def Remains (sid : String) (r : SessionRecord) (w' : Stores) : Prop :=
  w'.objects (w.backendOf r) sid ≠ [] ∨
    ∃ path ∈ memoryDirs r.memoryPath, w.Mine sid path ∧ w'.disk path ≠ none

/-- A session of which something is left still has its record. -/
def Retryable (w' : Stores) : Prop :=
  ∀ sid r, w.entry sid = .record r → w.Remains sid r w' → w'.entry sid = .record r

/-- Every object of a session can be deleted. -/
def ObjectsGo (f : PurgeFaults) (sid backend : String) : Prop :=
  w.objects backend sid = [] ∨
    validSessionId sid = true ∧
      match w.kind backend with
      | .localTree => f.treeRemovable = true ∨ ∀ path ∈ w.objects backend sid, f.treeLeft path = false
      | .objectStore => f.listed = true ∧ ∀ path ∈ w.objects backend sid, f.deletable path = true

/-- Every directory of a session names it and can be removed. -/
def DirsGo (f : PurgeFaults) (sid memoryPath : String) : Prop :=
  ∀ path ∈ memoryDirs memoryPath, w.Mine sid path →
    w.disk path = some (some sid) ∧ f.dirRemovable path = true

def Clearable (f : PurgeFaults) (sid : String) (r : SessionRecord) : Prop :=
  w.ObjectsGo f sid (w.backendOf r) ∧ w.DirsGo f sid r.memoryPath

/-- What the deletion takes from the registry can be purged everywhere else. -/
def Clears : Deletion → Prop
  | .request env f sid force =>
      purges w.system env sid force → ∀ r, w.entry sid = .record r → w.Clearable f sid r
  | .sweep faults expired keys =>
      ∀ sid ∈ listIncompleteBefore w.system.server.redis expired keys,
        ∀ r, w.entry sid = .record r → w.Clearable (faults sid) sid r

end Stores

section Purges

variable {f : PurgeFaults} {sid t path : String} {removed : Bool} {disk : Disk}

theorem deleteAll_eq_nil (kind : BackendKind) (paths : List String) :
    (deleteAll kind f sid paths).1 = [] ↔
      paths = [] ∨
        validSessionId sid = true ∧
          match kind with
          | .localTree => f.treeRemovable = true ∨ ∀ path ∈ paths, f.treeLeft path = false
          | .objectStore => f.listed = true ∧ ∀ path ∈ paths, f.deletable path = true := by
  cases hvalid : validSessionId sid with
  | false => simp [deleteAll, hvalid]
  | true =>
    cases kind with
    | localTree =>
      cases htree : f.treeRemovable with
      | true => simp [deleteAll, hvalid, htree]
      | false =>
        simp only [deleteAll, hvalid, htree, Bool.true_eq_false, Bool.false_eq_true, if_false,
          List.filter_eq_nil_iff, Bool.not_eq_true, false_or, true_and]
        refine ⟨.inr, ?_⟩
        rintro (rfl | h)
        · simp
        · exact h
    | objectStore =>
      cases hlisted : f.listed with
      | false => simp [deleteAll, hvalid, hlisted]
      | true =>
        simp only [deleteAll, hvalid, hlisted, Bool.true_eq_false, if_false, if_true,
          List.dropWhile_eq_nil_iff, true_and]
        refine ⟨.inr, ?_⟩
        rintro (rfl | h)
        · simp
        · exact h

/-- The purge changes only directories of its session. -/
theorem purgeDirs_other (paths : List String) (h : disk path ≠ some (some sid)) :
    (purgeDirs f sid removed disk paths).1 path = disk path := by
  induction paths generalizing removed disk with
  | nil => rfl
  | cons p paths ih =>
    rw [purgeDirs]
    split
    · exact ih h
    rename_i owner howner
    split
    · rename_i hsid
      have hne : path ≠ p := by
        rintro rfl
        exact h (howner.trans (congrArg some hsid))
      split
      · have hkept : Function.update disk p none path = disk path := Function.update_of_ne hne _ _
        rw [ih (by rwa [hkept]), hkept]
      · exact Function.update_of_ne hne _ _
    · exact ih h

/-- It makes no session an owner. -/
theorem purgeDirs_owner (paths : List String)
    (h : (purgeDirs f sid removed disk paths).1 path = some (some t)) :
    disk path = some (some t) := by
  by_cases hsid : disk path = some (some sid)
  · induction paths generalizing removed disk with
    | nil => exact h
    | cons p paths ih =>
      rw [purgeDirs] at h
      split at h
      · exact ih h hsid
      rename_i owner howner
      split at h
      · rename_i howned
        by_cases hp : path = p
        · subst hp
          split at h
          · have hnone : Function.update disk path none path = none := Function.update_self path _ _
            rw [purgeDirs_other paths (by simp), hnone] at h
            cases h
          · simp only [Function.update_self] at h
            split at h
            · rw [howner, h]
            · cases h
        · have hkept : ∀ o, Function.update disk p o path = disk path :=
            fun o => Function.update_of_ne hp _ _
          split at h
          · rw [← hkept none]
            exact ih h (by rwa [hkept])
          · dsimp only at h
            rwa [hkept] at h
      · exact ih h hsid
  · rwa [purgeDirs_other paths hsid] at h

/-- A directory that is not the session's or that cannot be removed stays. -/
theorem purgeDirs_stays (paths : List String) (hthere : disk path ≠ none)
    (hstuck : f.dirRemovable path = true → disk path ≠ some (some sid)) :
    (purgeDirs f sid removed disk paths).1 path ≠ none := by
  induction paths generalizing removed disk with
  | nil => exact hthere
  | cons p paths ih =>
    rw [purgeDirs]
    split
    · exact ih hthere hstuck
    rename_i owner howner
    split
    · rename_i hsid
      split
      · rename_i hremovable
        have hne : path ≠ p := by
          rintro rfl
          exact hstuck hremovable (howner.trans (congrArg some hsid))
        have hkept : Function.update disk p none path = disk path := Function.update_of_ne hne _ _
        exact ih (by rwa [hkept]) (by rwa [hkept])
      · dsimp only
        rw [Function.update_apply]
        split
        · simp
        · exact hthere
    · exact ih hthere hstuck

/-- When all that is the session's can be removed, all of it goes. -/
theorem purgeDirs_gone (paths : List String)
    (hgo : ∀ p ∈ paths, disk p = some (some sid) → f.dirRemovable p = true) (hmem : path ∈ paths)
    (hsid : disk path = some (some sid)) : (purgeDirs f sid removed disk paths).1 path = none := by
  induction paths generalizing removed disk with
  | nil => cases hmem
  | cons p paths ih =>
    have hrest : ∀ q ∈ paths, disk q = some (some sid) → f.dirRemovable q = true :=
      fun q hq => hgo q (List.mem_cons_of_mem p hq)
    rw [purgeDirs]
    by_cases hp : path = p
    · subst hp
      rw [hsid]
      dsimp only
      rw [if_pos rfl, if_pos (hgo path hmem hsid)]
      have hnone : Function.update disk path none path = none := Function.update_self path _ _
      rw [purgeDirs_other paths (by simp), hnone]
    have hmem' : path ∈ paths := (List.mem_cons.mp hmem).resolve_left hp
    split
    · exact ih hrest hmem' hsid
    rename_i owner howner
    split
    · rename_i howned
      rw [if_pos (hgo p List.mem_cons_self (howner.trans (congrArg some howned)))]
      refine ih (fun q hq hq' => ?_) hmem' ?_
      · rw [Function.update_apply] at hq'
        split at hq'
        · cases hq'
        · exact hrest q hq hq'
      · rw [Function.update_of_ne hp]
        exact hsid
    · exact ih hrest hmem' hsid

end Purges

/-- What a deletion of other sessions keeps for a session: its objects, and the
directories that have no other owner. -/
structure Stores.Keeps (w w' : Stores) (sid : String) : Prop where
  router : w'.system.server.router = w.system.server.router
  kind : w'.kind = w.kind
  objects : ∀ backend, w'.objects backend sid = w.objects backend sid
  dirs : ∀ path, (∀ t, t ≠ sid → w.disk path ≠ some (some t)) → w'.disk path = w.disk path
  owners : ∀ path t, w'.disk path = some (some t) → w.disk path = some (some t)

section Sweep

variable {w v v' : Stores} {sid t : String} {r : SessionRecord}

theorem Stores.Keeps.refl (w : Stores) (sid : String) : w.Keeps w sid :=
  ⟨rfl, rfl, fun _ => rfl, fun _ _ => rfl, fun _ _ h => h⟩

theorem Stores.Keeps.trans (h : w.Keeps v sid) (h' : v.Keeps v' sid) : w.Keeps v' sid where
  router := h'.router.trans h.router
  kind := h'.kind.trans h.kind
  objects backend := (h'.objects backend).trans (h.objects backend)
  dirs path hown := (h'.dirs path fun t ht hpath => hown t ht (h.owners path t hpath)).trans (h.dirs path hown)
  owners path t hpath := h.owners path t (h'.owners path t hpath)

theorem Stores.Mine.not_foreign {path : String} (h : w.Mine sid path) (ht : t ≠ sid) :
    w.disk path ≠ some (some t) := by
  intro hpath
  obtain hnone | hsid := h
  · rw [hnone] at hpath
    cases hpath
  · rw [hsid] at hpath
    cases hpath
    exact ht rfl

theorem objects_purgeData (w : Stores) (f : PurgeFaults) (sid : String) (r : SessionRecord) :
    (w.purgeData f sid r).1.objects = Function.update w.objects (w.backendOf r)
      (Function.update (w.objects (w.backendOf r)) sid
        (deleteAll (w.kind (w.backendOf r)) f sid (w.objects (w.backendOf r) sid)).1) := rfl

theorem disk_purgeData (w : Stores) (f : PurgeFaults) (sid : String) (r : SessionRecord) :
    (w.purgeData f sid r).1.disk = (purgeDirs f sid false w.disk (memoryDirs r.memoryPath)).1 := rfl

/-- The purges for another session. -/
theorem keeps_purgeData (w : Stores) (f : PurgeFaults) (r : SessionRecord) (hne : t ≠ sid) :
    w.Keeps (w.purgeData f t r).1 sid where
  router := rfl
  kind := rfl
  objects backend := by
    rw [objects_purgeData, Function.update_apply]
    split
    · rename_i hbackend
      rw [hbackend, Function.update_of_ne hne.symm]
    · rfl
  dirs path hown := by
    rw [disk_purgeData]
    exact purgeDirs_other _ (hown t hne)
  owners path t' hpath := by
    rw [disk_purgeData] at hpath
    exact purgeDirs_owner _ hpath

theorem keeps_sweepSession (faults : String → PurgeFaults) (w : Stores)
    (h : t ≠ sid ∨ w.entry t = .absent) :
    w.Keeps (w.sweepSession faults t) sid ∧ (w.sweepSession faults t).entry sid = w.entry sid := by
  rw [Stores.sweepSession]
  split
  · exact ⟨.refl w sid, rfl⟩
  rename_i r hr
  obtain hne | habsent := h
  · split
    · exact ⟨.refl w sid, rfl⟩
    rename_i redis removed hdelete
    have hkeeps := keeps_purgeData { w with system := w.system.setRedis redis } (faults t) r hne
    refine ⟨⟨hkeeps.router, hkeeps.kind, hkeeps.objects, hkeeps.dirs, hkeeps.owners⟩, ?_⟩
    · change redis.sessions sid = _
      rw [Redis.deleteSession_ok hdelete, Function.update_of_ne hne.symm]
      rfl
  · have hrecord : w.entry t = .record r := (w.system.server.redis.get_eq_ok t r).mp hr
    cases hrecord.symm.trans habsent

theorem keeps_sweep (faults : String → PurgeFaults) (w : Stores) (sids : List String)
    (h : sid ∉ sids ∨ w.entry sid = .absent) :
    w.Keeps (sids.foldl (Stores.sweepSession faults) w) sid ∧
      (sids.foldl (Stores.sweepSession faults) w).entry sid = w.entry sid := by
  induction sids generalizing w with
  | nil => exact ⟨.refl w sid, rfl⟩
  | cons t sids ih =>
    have hfirst : t ≠ sid ∨ w.entry t = .absent := by
      by_cases ht : t = sid
      · subst ht
        exact .inr (h.resolve_left fun hmem => hmem List.mem_cons_self)
      · exact .inl ht
    obtain ⟨hkeeps, hentry⟩ := keeps_sweepSession faults w hfirst
    have hrest : sid ∉ sids ∨ (w.sweepSession faults t).entry sid = .absent := by
      rw [hentry]
      exact h.imp (fun hmem hmem' => hmem (List.mem_cons_of_mem t hmem')) id
    obtain ⟨hkeeps', hentry'⟩ := ih (w.sweepSession faults t) hrest
    exact ⟨hkeeps.trans hkeeps', hentry'.trans hentry⟩

/-- After the purges for a session something of it is left exactly if not all of
it could be purged. -/
theorem remains_purgeData (f : PurgeFaults) (h : w.Keeps v sid) :
    w.Remains sid r (v.purgeData f sid r).1 ↔ ¬ w.Clearable f sid r := by
  have hbackend : v.backendOf r = w.backendOf r := by rw [Stores.backendOf, h.router, Stores.backendOf]
  have hobjects : (v.purgeData f sid r).1.objects (w.backendOf r) sid = [] ↔
      w.ObjectsGo f sid (w.backendOf r) := by
    rw [objects_purgeData, hbackend, Function.update_self, Function.update_self, h.kind, h.objects]
    exact deleteAll_eq_nil _ _
  have hmine : ∀ path, w.Mine sid path → v.disk path = w.disk path :=
    fun path hmine => h.dirs path fun t ht => hmine.not_foreign ht
  have hdirs : (∃ path ∈ memoryDirs r.memoryPath, w.Mine sid path ∧
      (v.purgeData f sid r).1.disk path ≠ none) ↔ ¬ w.DirsGo f sid r.memoryPath := by
    rw [disk_purgeData]
    constructor
    · rintro ⟨path, hmem, hpath, hleft⟩ hgo
      refine hleft (purgeDirs_gone _ (fun p hp howned => ?_) hmem ?_)
      · exact (hgo p hp (.inr (h.owners p sid howned))).2
      · rw [hmine path hpath]
        exact (hgo path hmem hpath).1
    · intro hno
      rw [Stores.DirsGo] at hno
      push Not at hno
      obtain ⟨path, hmem, hpath, hstuck⟩ := hno
      refine ⟨path, hmem, hpath, purgeDirs_stays _ ?_ ?_⟩
      · rw [hmine path hpath]
        obtain hnone | hsid := hpath
        · simp [hnone]
        · simp [hsid]
      · intro hremovable howned
        exact hstuck (h.owners path sid howned) hremovable
  rw [Stores.Remains, hdirs, Stores.Clearable, not_and_or, ← hobjects]

/-- Deletions of other sessions change nothing about what remains of a session. -/
theorem remains_keeps (howners : ∀ path t, v.disk path = some (some t) → w.disk path = some (some t))
    (h : v.Keeps v' sid) : w.Remains sid r v' ↔ w.Remains sid r v := by
  have hdirs : ∀ path, w.Mine sid path → v'.disk path = v.disk path :=
    fun path hmine => h.dirs path fun t ht hpath => hmine.not_foreign ht (howners path t hpath)
  rw [Stores.Remains, Stores.Remains, h.objects]
  refine or_congr_right (exists_congr fun path => and_congr_right fun _ => and_congr_right fun hmine => ?_)
  rw [hdirs path hmine]

/-- What a scan lists: the sessions whose records are incomplete and past their retention. -/
theorem mem_listIncompleteBefore {redis : Redis} {expired : String → Bool} {keys : List String} :
    sid ∈ listIncompleteBefore redis expired keys ↔
      ∃ key ∈ keys, ∃ r, redis.sessions key = .record r ∧ r.sessionId = sid ∧ r.status = .incomplete ∧
        expired key = true ∧ sid ≠ "" := by
  rw [listIncompleteBefore, List.mem_filterMap]
  refine exists_congr fun key => and_congr_right fun _ => ?_
  cases redis.sessions key with
  | absent | fragment _ => exact iff_of_false (fun h => by cases h) fun ⟨_, h, _⟩ => by cases h
  | record r =>
    dsimp only
    split
    case isTrue hlisted =>
      simp only [Bool.and_eq_true, decide_eq_true_eq] at hlisted
      obtain ⟨⟨hstatus, hexpired⟩, hne⟩ := hlisted
      constructor
      · rintro h
        obtain rfl := Option.some.inj h
        exact ⟨r, rfl, rfl, hstatus, hexpired, hne⟩
      · rintro ⟨_, hr, rfl, -⟩
        rw [Entry.record.inj hr]
    case isFalse hlisted =>
      refine iff_of_false (fun h => by cases h) ?_
      rintro ⟨_, hr, rfl, hstatus, hexpired, hne⟩
      obtain rfl := Entry.record.inj hr
      exact hlisted (by simp [hstatus, hexpired, hne])

/-- The sweep comes to a session of its list and purges it. -/
theorem remains_sweep (faults : String → PurgeFaults) {sids : List String} (hmem : sid ∈ sids)
    (hne : sid ≠ "") (hr : w.entry sid = .record r) :
    (sids.foldl (Stores.sweepSession faults) w).entry sid = .absent ∧
      (w.Remains sid r (sids.foldl (Stores.sweepSession faults) w) ↔ ¬ w.Clearable (faults sid) sid r) := by
  obtain ⟨before, after, rfl, hfirst⟩ := List.eq_append_cons_of_mem hmem
  rw [List.foldl_append, List.foldl_cons]
  obtain ⟨hkeeps, hentry⟩ := keeps_sweep faults w before (.inl hfirst)
  generalize before.foldl (Stores.sweepSession faults) w = v at hkeeps hentry
  rw [hr] at hentry
  have hget : v.system.server.redis.get sid = .ok r := (v.system.server.redis.get_eq_ok sid r).mpr hentry
  obtain ⟨redis, removed, hdelete⟩ : ∃ redis removed,
      v.system.server.redis.deleteSession sid = .ok (redis, removed) := by
    rw [Redis.deleteSession, if_neg hne]
    exact ⟨_, _, rfl⟩
  have hpurge : v.sweepSession faults sid =
      ({ v with system := v.system.setRedis redis }.purgeData (faults sid) sid r).1 := by
    rw [Stores.sweepSession, hget]
    dsimp only
    rw [hdelete]
  have hgone : (v.sweepSession faults sid).entry sid = .absent := by
    rw [hpurge]
    change redis.sessions sid = _
    rw [Redis.deleteSession_ok hdelete, Function.update_self]
  have hkeeps' : w.Keeps { v with system := v.system.setRedis redis } sid :=
    ⟨hkeeps.router, hkeeps.kind, hkeeps.objects, hkeeps.dirs, hkeeps.owners⟩
  have howners : ∀ path t, (v.sweepSession faults sid).disk path = some (some t) →
      w.disk path = some (some t) := by
    intro path t hpath
    rw [hpurge, disk_purgeData] at hpath
    exact hkeeps.owners path t (purgeDirs_owner _ hpath)
  obtain ⟨hafter, hentry'⟩ := keeps_sweep faults (v.sweepSession faults sid) after (.inr hgone)
  refine ⟨hentry'.trans hgone, ?_⟩
  rw [remains_keeps howners hafter, hpurge]
  exact remains_purgeData (faults sid) hkeeps'

end Sweep

section Request

variable {w : Stores} {env : OperatorEnv} {f : PurgeFaults} {sid t : String} {force : Bool}

/-- The answer of DeleteSession says whether the record is gone. -/
theorem deleteSession_answer (s : System) (env : OperatorEnv) (sid : String) (force : Bool) :
    (purges s env sid force ∧ ∃ system name removed count dir,
        Ipc.deleteSession s env sid force = (system, .sessionDeleted sid name removed count dir) ∧
          system.server.redis.sessions = Function.update s.server.redis.sessions sid .absent ∧
          system.server.router = s.server.router) ∨
      ¬ purges s env sid force ∧ ∃ system code message,
        Ipc.deleteSession s env sid force = (system, .error code message) ∧ system.server = s.server := by
  obtain ⟨_, -, -, ⟨hp, redis, _, _, _, _, hdelete, heq⟩ | ⟨hno, _, _, heq⟩⟩ :=
    deleteSession_eq s env sid force
  · exact .inl ⟨hp, _, _, _, _, _, heq, Redis.deleteSession_ok hdelete, rfl⟩
  · exact .inr ⟨hno, _, _, _, heq, rfl⟩

theorem entry_deleteSession (w : Stores) (env : OperatorEnv) (f : PurgeFaults) (sid t : String)
    (force : Bool) (h : t ≠ sid ∨ ¬ purges w.system env sid force) :
    (w.deleteSession env f sid force).1.entry t = w.entry t := by
  rw [Stores.deleteSession]
  obtain ⟨hp, system, name, removed, count, dir, heq, hsessions, -⟩ | ⟨-, system, code, message, heq, hserver⟩ :=
    deleteSession_answer w.system env sid force
  · have hkept : system.server.redis.sessions t = w.entry t := by
      rw [hsessions, Function.update_of_ne (h.resolve_right fun hno => hno hp)]
      rfl
    rw [heq]
    dsimp only
    split
    · exact hkept
    · exact hkept
  · rw [heq]
    change system.server.redis.sessions t = _
    rw [hserver]
    rfl

/-- A DeleteSession that goes through takes the record first and then purges. -/
theorem remains_deleteSession {r : SessionRecord} (hp : purges w.system env sid force)
    (hr : w.entry sid = .record r) :
    (w.deleteSession env f sid force).1.entry sid = .absent ∧
      (w.Remains sid r (w.deleteSession env f sid force).1 ↔ ¬ w.Clearable f sid r) := by
  obtain ⟨-, system, name, removed, count, dir, heq, hsessions, hrouter⟩ | ⟨hno, -⟩ :=
    deleteSession_answer w.system env sid force
  · have hget : w.system.server.redis.get sid = .ok r := (w.system.server.redis.get_eq_ok sid r).mpr hr
    have hdelete : (w.deleteSession env f sid force).1 =
        ({ w with system := system }.purgeData f sid r).1 := by
      rw [Stores.deleteSession, heq]
      dsimp only
      rw [hget]
    have hkeeps : w.Keeps { w with system := system } sid :=
      ⟨hrouter, rfl, fun _ => rfl, fun _ _ => rfl, fun _ _ h => h⟩
    rw [hdelete]
    refine ⟨?_, remains_purgeData f hkeeps⟩
    change system.server.redis.sessions sid = _
    rw [hsessions, Function.update_self]
  · exact absurd hp hno

end Request

theorem deletion_retryable_iff (w : Stores) (d : Deletion) : w.Retryable (w.delete d) ↔ w.Clears d := by
  cases d with
  | request env f sid force =>
    rw [Stores.delete, Stores.Clears]
    constructor
    · intro h hp r hr
      obtain ⟨hgone, hremains⟩ := remains_deleteSession hp hr
      by_contra hno
      have hkept := h sid r hr (hremains.mpr hno)
      cases hgone.symm.trans hkept
    · intro h t r hr hleft
      by_cases ht : t = sid ∧ purges w.system env sid force
      · obtain ⟨rfl, hp⟩ := ht
        exact absurd (h hp r hr) ((remains_deleteSession hp hr).2.mp hleft)
      · rw [entry_deleteSession w env f sid t force (not_and_or.mp ht)]
        exact hr
  | sweep faults expired keys =>
    rw [Stores.delete, Stores.Clears]
    constructor
    · intro h sid hmem r hr
      obtain ⟨_, -, _, -, -, -, -, hne⟩ := mem_listIncompleteBefore.mp hmem
      obtain ⟨hgone, hremains⟩ := remains_sweep faults hmem hne hr
      by_contra hno
      have hkept := h sid r hr (hremains.mpr hno)
      cases hgone.symm.trans hkept
    · intro h t r hr hleft
      by_cases hmem : t ∈ listIncompleteBefore w.system.server.redis expired keys
      · obtain ⟨_, -, _, -, -, -, -, hne⟩ := mem_listIncompleteBefore.mp hmem
        have hremains := (remains_sweep faults hmem hne hr).2
        exact absurd (h t hmem r hr) (hremains.mp hleft)
      · rw [(keeps_sweep faults w _ (.inl hmem)).2]
        exact hr

/-- An interrupted session with its directory. -/
def interruptedStores : Stores where
  system := System.setStatus ⟨sampleServer [], fun _ => .idle⟩ "s1" .incomplete
  kind _ := .localTree
  objects _ _ := []
  disk path := if path = "/memories/demo" then some (some "s1") else none

def stuckDir : PurgeFaults :=
  { PurgeFaults.never with dirRemovable := fun _ => false, ownerLeft := fun _ => true }

def sweepOf (f : PurgeFaults) : Deletion := .sweep (fun _ => f) (fun _ => true) ["s1"]

/-- A directory that cannot be removed outlives the record of its session, and
no later deletion finds it. -/
theorem deletion_not_retryable :
    ¬ interruptedStores.Retryable (interruptedStores.delete (sweepOf stuckDir)) ∧
      (((interruptedStores.delete (sweepOf stuckDir)).delete
        (.request lifecycleEnv PurgeFaults.never "s1" true)).delete (sweepOf PurgeFaults.never)).disk
          "/memories/demo" = some (some "s1") := by
  refine ⟨fun h => ?_, by decide +kernel⟩
  have hleft : (interruptedStores.delete (sweepOf stuckDir)).disk "/memories/demo" ≠ none := by
    decide +kernel
  have hgone : (interruptedStores.delete (sweepOf stuckDir)).entry "s1" = .absent := by
    decide +kernel
  have hkept := h "s1" _ rfl (.inr ⟨"/memories/demo", by decide, .inr (by decide), hleft⟩)
  cases hgone.symm.trans hkept

end MemoryArchive.Ipc
