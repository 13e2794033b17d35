import MemoryArchive.Data.Interleaving
import MemoryArchive.Registry.Redis

namespace MemoryArchive.Registry

open Interleaving Runs

/-- SADD to the index set of a status. -/
def Redis.sadd (s : Redis) (set : SessionStatus) (sessionId : String) : Redis :=
  { s with
    index := Function.update s.index set
      (if sessionId ∈ s.index set then s.index set else s.index set ++ [sessionId]) }

/-- SREM from the index set of a status. -/
def Redis.srem (s : Redis) (set : SessionStatus) (sessionId : String) : Redis :=
  { s with index := Function.update s.index set ((s.index set).filter (· ≠ sessionId)) }

/-- HSET or DEL of the hash of a session. -/
def Redis.put (s : Redis) (sessionId : String) (e : Entry) : Redis :=
  { s with sessions := Function.update s.sessions sessionId e }

/-- The calls that keep the status index sets. -/
inductive Call
  | register (record : SessionRecord)
  | updateStatus (sessionId : String) (new : SessionStatus)
  | deleteSession (sessionId : String)

/-- A call before its next command, named after the command. -/
inductive Task
  | registerExists (record : SessionRecord)
  | registerHset (record : SessionRecord)
  | registerSadd (record : SessionRecord)
  | updateHget (sessionId : String) (new : SessionStatus)
  | updateSrem (sessionId : String) (old new : SessionStatus)
  | updateHset (sessionId : String) (new : SessionStatus)
  | updateSadd (sessionId : String) (new : SessionStatus)
  | updatePersist (sessionId : String)
  | deleteDel (sessionId : String)
  | deleteSrem (sessionId : String) (sets : List SessionStatus)
  deriving DecidableEq

def Call.start : Call → Task
  | .register record => .registerExists record
  | .updateStatus sessionId new => .updateHget sessionId new
  | .deleteSession sessionId => .deleteDel sessionId

namespace Task

def sessionId : Task → String
  | registerExists record | registerHset record | registerSadd record => record.sessionId
  | updateHget sessionId _ | updateSrem sessionId _ _ | updateHset sessionId _
  | updateSadd sessionId _ | updatePersist sessionId | deleteDel sessionId
  | deleteSrem sessionId _ => sessionId

/-- The call has sent no command yet. -/
def isFresh : Task → Bool
  | registerExists _ | updateHget _ _ | deleteDel _ => true
  | _ => false

/-- A command of `update_status`. -/
def isUpdate : Task → Bool
  | updateHget _ _ | updateSrem _ _ _ | updateHset _ _ | updateSadd _ _ | updatePersist _ => true
  | _ => false

/-- The status sets from which a deleted session is removed, in their order. -/
def statusSets : List SessionStatus :=
  [.active, SessionStatus.pendingAnnotation, SessionStatus.pendingHumanAnnotation, .annotating,
    .pendingCompilation, .reasoningDegraded]

/-- One command. PERSIST changes no field; the last command of a deletion removes
the claim. -/
def step (s : Redis) : Task → Redis × Option Task
  | registerExists record =>
      if s.sessions record.sessionId = .absent then (s, some (registerHset record)) else (s, none)
  | registerHset record => (s.put record.sessionId (.record record), some (registerSadd record))
  | registerSadd record =>
      (if record.status.indexed then s.sadd record.status record.sessionId else s, none)
  | updateHget sessionId new =>
      match (s.sessions sessionId).status with
      | some old =>
          (s, some (if old.indexed then updateSrem sessionId old new else updateHset sessionId new))
      | none => (s, some (updateHset sessionId new))
  | updateSrem sessionId old new => (s.srem old sessionId, some (updateHset sessionId new))
  | updateHset sessionId new =>
      (s.put sessionId ((s.sessions sessionId).setStatus new),
        some (if new.indexed then updateSadd sessionId new else updatePersist sessionId))
  | updateSadd sessionId new => (s.sadd new sessionId, some (updatePersist sessionId))
  | updatePersist _ => (s, none)
  | deleteDel sessionId =>
      if sessionId = "" then (s, none)
      else (s.put sessionId .absent, some (deleteSrem sessionId statusSets))
  | deleteSrem sessionId (set :: sets) => (s.srem set sessionId, some (deleteSrem sessionId sets))
  | deleteSrem sessionId [] =>
      ({ s with claims := Function.update s.claims sessionId none }, none)

end Task

/-- Calls on the registry whose commands may be interleaved. -/
def registry : Machine Call Redis Task String where
  start := Call.start
  step := Task.step
  key := Task.sessionId
  fresh := Task.isFresh
  fresh_start c := by cases c <;> rfl

/-- A session is in the index set of its status, and in no other. -/
def IndexedAt (sessionId : String) (s : Redis) : Prop :=
  ∀ status, sessionId ∈ s.index status ↔
    (s.sessions sessionId).status = some status ∧ status.indexed = true

def Unindexed (sessionId : String) (s : Redis) : Prop := ∀ status, sessionId ∉ s.index status

def Redis.IndexConsistent (s : Redis) : Prop := ∀ sessionId, IndexedAt sessionId s

/-- What holds before each command of a call that runs alone on its session. -/
def Task.At : Task → Redis → Prop
  | registerExists _, _ | updateHget _ _, _ | deleteDel _, _ => True
  | registerHset record, s => s.sessions record.sessionId = .absent ∧ Unindexed record.sessionId s
  | registerSadd record, s =>
      (s.sessions record.sessionId).status = some record.status ∧ Unindexed record.sessionId s
  | updateSrem sessionId old _, s =>
      IndexedAt sessionId s ∧ (s.sessions sessionId).status = some old
  | updateHset sessionId _, s => Unindexed sessionId s
  | updateSadd sessionId new, s =>
      (s.sessions sessionId).status = some new ∧ new.indexed = true ∧ Unindexed sessionId s
  | updatePersist sessionId, s => IndexedAt sessionId s
  | deleteSrem sessionId sets, s =>
      s.sessions sessionId = .absent ∧ ∀ status, sessionId ∈ s.index status → status ∈ sets

section Outline

variable {s : Redis} {sessionId id : String} {set status : SessionStatus}

theorem mem_sadd : id ∈ (s.sadd set sessionId).index status ↔
    id ∈ s.index status ∨ status = set ∧ id = sessionId := by
  simp only [Redis.sadd, Function.update_apply]
  by_cases hset : status = set
  · subst hset
    by_cases hmem : sessionId ∈ s.index status
    · rw [if_pos rfl, if_pos hmem]
      constructor
      · exact .inl
      · rintro (h | ⟨-, rfl⟩)
        · exact h
        · exact hmem
    · simp [hmem]
  · simp [hset]

theorem mem_srem : id ∈ (s.srem set sessionId).index status ↔
    id ∈ s.index status ∧ ¬ (status = set ∧ id = sessionId) := by
  simp only [Redis.srem, Function.update_apply]
  by_cases hset : status = set
  · subst hset
    simp
  · simp [hset]

/-- Where nothing is stored or the status has no index set, no set has the session. -/
theorem IndexedAt.unindexed (h : IndexedAt sessionId s)
    (hs : ∀ status, (s.sessions sessionId).status = some status → status.indexed = false) :
    Unindexed sessionId s := by
  intro status hmem
  obtain ⟨hstatus, hindexed⟩ := (h status).mp hmem
  rw [hs status hstatus] at hindexed
  cases hindexed

/-- Taken out of the set of its status, a session is in none. -/
theorem unindexed_srem {old : SessionStatus} (h : IndexedAt sessionId s)
    (hold : (s.sessions sessionId).status = some old) : Unindexed sessionId (s.srem old sessionId) := by
  intro status hmem
  obtain ⟨hmem, hne⟩ := mem_srem.mp hmem
  have hstatus := ((h status).mp hmem).1
  rw [hold] at hstatus
  exact hne ⟨(Option.some_inj.mp hstatus).symm, rfl⟩

/-- Put into the set of its status, a session that was in none is indexed. -/
theorem indexedAt_sadd {new : SessionStatus} (h : Unindexed sessionId s)
    (hnew : (s.sessions sessionId).status = some new) (hindexed : new.indexed = true) :
    IndexedAt sessionId (s.sadd new sessionId) := by
  intro status
  have hkept : (s.sadd new sessionId).sessions = s.sessions := rfl
  rw [mem_sadd, hkept, hnew]
  constructor
  · rintro (hmem | ⟨rfl, -⟩)
    · exact absurd hmem (h status)
    · exact ⟨rfl, hindexed⟩
  · rintro ⟨hstatus, -⟩
    exact .inr ⟨(Option.some_inj.mp hstatus).symm, rfl⟩

theorem indexedAt_of_none (h : Unindexed sessionId s)
    (hs : ∀ status, (s.sessions sessionId).status = some status → status.indexed = false) :
    IndexedAt sessionId s := by
  refine fun status => ⟨fun hmem => absurd hmem (h status), fun ⟨hstatus, hindexed⟩ => ?_⟩
  rw [hs status hstatus] at hindexed
  cases hindexed

/-- A command changes neither the hash nor the index entries of another session. -/
theorem step_elsewhere (t : Task) (h : id ≠ t.sessionId) :
    (t.step s).1.sessions id = s.sessions id ∧
      ∀ status, id ∈ (t.step s).1.index status ↔ id ∈ s.index status := by
  have hput : ∀ e, (s.put t.sessionId e).sessions id = s.sessions id :=
    fun e => by simp only [Redis.put, Function.update_of_ne h]
  have hsadd : ∀ set status, id ∈ (s.sadd set t.sessionId).index status ↔ id ∈ s.index status :=
    fun set status => by rw [mem_sadd]; simp [h]
  have hsrem : ∀ set status, id ∈ (s.srem set t.sessionId).index status ↔ id ∈ s.index status :=
    fun set status => by rw [mem_srem]; simp [h]
  cases t with
  | registerExists record =>
    rw [Task.step]
    split <;> exact ⟨rfl, fun _ => Iff.rfl⟩
  | registerHset record => exact ⟨hput _, fun _ => Iff.rfl⟩
  | registerSadd record =>
    rw [Task.step]
    dsimp only
    split
    · exact ⟨rfl, hsadd _⟩
    · exact ⟨rfl, fun _ => Iff.rfl⟩
  | updateHget sessionId new =>
    rw [Task.step]
    split <;> exact ⟨rfl, fun _ => Iff.rfl⟩
  | updateSrem sessionId old new => exact ⟨rfl, hsrem _⟩
  | updateHset sessionId new => exact ⟨hput _, fun _ => Iff.rfl⟩
  | updateSadd sessionId new => exact ⟨rfl, hsadd _⟩
  | updatePersist sessionId => exact ⟨rfl, fun _ => Iff.rfl⟩
  | deleteDel sessionId =>
    rw [Task.step]
    split
    · exact ⟨rfl, fun _ => Iff.rfl⟩
    · exact ⟨hput _, fun _ => Iff.rfl⟩
  | deleteSrem sessionId sets =>
    cases sets with
    | nil => exact ⟨rfl, fun _ => Iff.rfl⟩
    | cons set sets => exact ⟨rfl, hsrem _⟩

theorem IndexedAt.congr {s' : Redis} (hs : s'.sessions id = s.sessions id)
    (hi : ∀ status, id ∈ s'.index status ↔ id ∈ s.index status) (h : IndexedAt id s) : IndexedAt id s' := by
  intro status
  rw [hi, hs]
  exact h status

theorem Unindexed.congr {s' : Redis} (hi : ∀ status, id ∈ s'.index status ↔ id ∈ s.index status)
    (h : Unindexed id s) : Unindexed id s' :=
  fun status hmem => h status ((hi status).mp hmem)

/-- What a call assumes depends on its own session only. -/
theorem Task.At.congr {s' : Redis} {t : Task} (hs : s'.sessions t.sessionId = s.sessions t.sessionId)
    (hi : ∀ status, t.sessionId ∈ s'.index status ↔ t.sessionId ∈ s.index status) (h : t.At s) :
    t.At s' := by
  cases t with
  | registerExists record => trivial
  | registerHset record => exact ⟨hs.trans h.1, h.2.congr hi⟩
  | registerSadd record => exact ⟨(congrArg Entry.status hs).trans h.1, h.2.congr hi⟩
  | updateHget sessionId new => trivial
  | updateSrem sessionId old new => exact ⟨h.1.congr hs hi, (congrArg Entry.status hs).trans h.2⟩
  | updateHset sessionId new => exact Unindexed.congr hi h
  | updateSadd sessionId new =>
    exact ⟨(congrArg Entry.status hs).trans h.1, h.2.1, h.2.2.congr hi⟩
  | updatePersist sessionId => exact IndexedAt.congr hs hi h
  | deleteDel sessionId => trivial
  | deleteSrem sessionId sets => exact ⟨hs.trans h.1, fun status hmem => h.2 status ((hi status).mp hmem)⟩

theorem status_put (e : Entry) : ((s.put sessionId e).sessions sessionId).status = e.status := by
  simp only [Redis.put, Function.update_self]

theorem mem_statusSets (h : status.indexed = true) : status ∈ Task.statusSets := by
  cases status <;> first | decide | cases h

/-- The first command of a call. -/
theorem begin_call (t : Task) (hfresh : t.isFresh = true) (h : IndexedAt t.sessionId s) :
    registry.Reaches IndexedAt Task.At t.sessionId (t.step s) := by
  cases t with
  | registerExists record =>
    rw [Task.step]
    split
    · rename_i habsent
      refine ⟨rfl, rfl, habsent, h.unindexed fun status hstatus => ?_⟩
      rw [Task.sessionId, habsent] at hstatus
      cases hstatus
    · exact h
  | updateHget sessionId new =>
    rw [Task.step]
    cases hstatus : (s.sessions sessionId).status with
    | none =>
      refine ⟨rfl, rfl, h.unindexed fun status hs => ?_⟩
      rw [Task.sessionId, hstatus] at hs
      cases hs
    | some old =>
      dsimp only
      split
      · exact ⟨rfl, rfl, h, hstatus⟩
      · rename_i hindexed
        refine ⟨rfl, rfl, h.unindexed fun status hs => ?_⟩
        rw [Task.sessionId, hstatus] at hs
        cases hs
        simpa using hindexed
  | deleteDel sessionId =>
    rw [Task.step]
    split
    · exact h
    · refine ⟨rfl, rfl, ?_, fun status hmem => mem_statusSets ((h status).mp hmem).2⟩
      simp only [Redis.put, Function.update_self]
  | registerHset _ | registerSadd _ | updateSrem _ _ _ | updateHset _ _ | updateSadd _ _
  | updatePersist _ | deleteSrem _ _ => cases hfresh

/-- A later command of a call. -/
theorem next_command (t : Task) (hfresh : t.isFresh = false) (h : t.At s) :
    registry.Reaches IndexedAt Task.At t.sessionId (t.step s) := by
  cases t with
  | registerExists _ | updateHget _ _ | deleteDel _ => cases hfresh
  | registerHset record => exact ⟨rfl, rfl, status_put _, h.2⟩
  | registerSadd record =>
    obtain ⟨hstatus, hnone⟩ := h
    rw [Task.step]
    split
    · rename_i hindexed
      exact indexedAt_sadd hnone hstatus hindexed
    · rename_i hindexed
      refine indexedAt_of_none hnone fun status hs => ?_
      cases hstatus.symm.trans hs
      simpa using hindexed
  | updateSrem sessionId old new => exact ⟨rfl, rfl, unindexed_srem h.1 h.2⟩
  | updateHset sessionId new =>
    have hstatus : ((s.put sessionId ((s.sessions sessionId).setStatus new)).sessions sessionId).status =
        some new := (status_put _).trans (Entry.status_setStatus _ new)
    rw [Task.step]
    split
    · rename_i hindexed
      exact ⟨rfl, rfl, hstatus, hindexed, h⟩
    · rename_i hindexed
      refine ⟨rfl, rfl, indexedAt_of_none h fun status hs => ?_⟩
      rw [hstatus] at hs
      cases hs
      simpa using hindexed
  | updateSadd sessionId new => exact ⟨rfl, rfl, indexedAt_sadd h.2.2 h.1 h.2.1⟩
  | updatePersist sessionId => exact h
  | deleteSrem sessionId sets =>
    obtain ⟨habsent, hsets⟩ := h
    cases sets with
    | nil =>
      refine indexedAt_of_none (fun status hmem => ?_) fun status hs => ?_
      · cases hsets status hmem
      · change (s.sessions sessionId).status = some status at hs
        rw [habsent] at hs
        cases hs
    | cons set sets =>
      refine ⟨rfl, rfl, habsent, fun status hmem => ?_⟩
      obtain ⟨hmem, hne⟩ := mem_srem.mp hmem
      obtain rfl | hrest := List.mem_cons.mp (hsets status hmem)
      · exact absurd ⟨rfl, rfl⟩ hne
      · exact hrest

theorem registry_outline : registry.Outline IndexedAt Task.At where
  begin _ t hfresh h := begin_call t hfresh h
  next _ t hfresh h := next_command t hfresh h
  frame s t k hk h := by
    obtain ⟨hs, hi⟩ := step_elsewhere (s := s) t hk
    exact IndexedAt.congr hs hi h
  frameAt s t t' hk h := by
    obtain ⟨hs, hi⟩ := step_elsewhere (s := s) t hk
    exact h.congr hs hi

end Outline

/-- A call as one step. -/
def Call.apply (s : Redis) : Call → Redis
  | .register record => (s.register record).toOption.getD s
  | .updateStatus sessionId new => s.updateStatus sessionId new
  | .deleteSession sessionId => ((s.deleteSession sessionId).map Prod.fst).toOption.getD s

/-- Another command of `update_status` for the same session follows. -/
theorem update_next {redis : Redis} {t t' : Task} (hu : t.isUpdate = true)
    (hnext : (t.step redis).2 = some t') : t'.sessionId = t.sessionId ∧ t'.isUpdate = true := by
  cases t with
  | updateHget sid new =>
    rw [Task.step] at hnext
    split at hnext
    · cases hnext
      split
      · exact ⟨rfl, rfl⟩
      · exact ⟨rfl, rfl⟩
    · cases hnext
      exact ⟨rfl, rfl⟩
  | updateSrem sid old new =>
    cases hnext
    exact ⟨rfl, rfl⟩
  | updateHset sid new =>
    rw [Task.step] at hnext
    cases hnext
    split
    · exact ⟨rfl, rfl⟩
    · exact ⟨rfl, rfl⟩
  | updateSadd sid new =>
    cases hnext
    exact ⟨rfl, rfl⟩
  | updatePersist sid => cases hnext
  | registerExists _ | registerHset _ | registerSadd _ | deleteDel _ | deleteSrem _ _ => cases hu

theorem update_claims {redis : Redis} {t : Task} (hu : t.isUpdate = true) :
    (t.step redis).1.claims = redis.claims := by
  cases t with
  | updateHget sid new =>
    rw [Task.step]
    split <;> rfl
  | updateSrem _ _ _ | updateHset _ _ | updateSadd _ _ | updatePersist _ => rfl
  | registerExists _ | registerHset _ | registerSadd _ | deleteDel _ | deleteSrem _ _ => cases hu

/-- No command writes the record of an annotator. -/
theorem step_annotators (redis : Redis) (t : Task) : (t.step redis).1.annotators = redis.annotators := by
  cases t with
  | updateHget _ _ | registerExists _ | deleteDel _ =>
    rw [Task.step]
    split <;> rfl
  | registerSadd _ =>
    rw [Task.step]
    dsimp only
    split <;> rfl
  | deleteSrem _ sets => cases sets <;> rfl
  | updateSrem _ _ _ | updateHset _ _ | updateSadd _ _ | updatePersist _ | registerHset _ => rfl

section Alone

variable {s : Redis} {sessionId : String}

/-- The task is the only one and takes its step. -/
theorem run_alone (t : Task) (n : Nat) :
    run registry.move ⟨s, [t]⟩ (List.replicate (n + 1) (.run 0)) =
      run registry.move ⟨(t.step s).1, (t.step s).2.toList⟩ (List.replicate n (.run 0)) := by
  rw [List.replicate_succ, run, List.foldl_cons, run]
  congr 1
  simp [registry, Machine.move]

theorem run_ended (n : Nat) :
    run registry.move ⟨s, []⟩ (List.replicate n (.run 0)) = ⟨s, []⟩ := by
  induction n with
  | zero => rfl
  | succ n ih => exact ih

theorem moveIndex_eq (old : Option SessionStatus) (new : SessionStatus) {s' : Redis}
    (hdrop : ∀ status, dropIndex s.index sessionId old status = s'.index status) :
    moveIndex s.index sessionId old new =
      (if new.indexed then s'.sadd new sessionId else s').index := by
  funext status
  rw [moveIndex, hdrop]
  by_cases hnew : new = status
  · subst hnew
    by_cases hindexed : new.indexed = true
    · by_cases hmem : sessionId ∈ s'.index new
      · simp [hindexed, hmem, Redis.sadd]
      · simp [hindexed, hmem, Redis.sadd]
    · simp [hindexed]
  · have hne : status ≠ new := fun he => hnew he.symm
    by_cases hindexed : new.indexed = true
    · simp [hnew, hindexed, Redis.sadd, hne]
    · simp [hnew, hindexed]

/-- SADD of a status that has a set completes a move between the sets. -/
theorem with_moveIndex (old : Option SessionStatus) (new : SessionStatus) (sessions : String → Entry)
    {s' : Redis} (hdrop : ∀ status, dropIndex s.index sessionId old status = s'.index status)
    (hs' : s' = { s with sessions := sessions, index := s'.index }) :
    { s with sessions := sessions, index := moveIndex s.index sessionId old new } =
      if new.indexed then s'.sadd new sessionId else s' := by
  rw [moveIndex_eq old new hdrop]
  split
  · conv => rhs; rw [hs']
    rfl
  · exact hs'.symm

theorem register_alone (record : SessionRecord) (n : Nat) :
    run registry.move ⟨s, [.registerExists record]⟩ (List.replicate (n + 8) (.run 0)) =
      ⟨(Call.register record).apply s, []⟩ := by
  rw [run_alone, Task.step, Call.apply, Redis.register]
  by_cases habsent : s.sessions record.sessionId = .absent
  · rw [if_pos habsent, if_pos habsent]
    dsimp only [Option.toList_some]
    rw [run_alone, Task.step]
    dsimp only [Option.toList_some]
    rw [run_alone, Task.step]
    dsimp only [Option.toList_none]
    rw [run_ended]
    have hadd : { s with
          sessions := Function.update s.sessions record.sessionId (.record record)
          index := moveIndex s.index record.sessionId none record.status } =
        if record.status.indexed then
          (s.put record.sessionId (.record record)).sadd record.status record.sessionId
        else s.put record.sessionId (.record record) :=
      with_moveIndex none record.status _ (fun _ => rfl) rfl
    exact congrArg (fun redis => State.mk redis []) hadd.symm
  · rw [if_neg habsent, if_neg habsent]
    exact run_ended _

theorem dropIndex_self {old : Option SessionStatus}
    (h : ∀ status, sessionId ∈ s.index status → old ≠ some status) (status : SessionStatus) :
    dropIndex s.index sessionId old status = s.index status := by
  rw [dropIndex]
  split
  · rename_i hold
    refine List.filter_eq_self.mpr fun id hid => ?_
    rw [decide_eq_true_eq]
    rintro rfl
    exact h status hid hold
  · rfl

/-- The commands of `update_status` from its HSET on. -/
theorem updateHset_alone (s' : Redis) (hs' : s' = { s with index := s'.index }) (new : SessionStatus)
    (hdrop : ∀ status, dropIndex s.index sessionId (s.sessions sessionId).status status = s'.index status)
    (n : Nat) :
    run registry.move ⟨s', [.updateHset sessionId new]⟩ (List.replicate (n + 3) (.run 0)) =
      ⟨s.updateStatus sessionId new, []⟩ := by
  have hsessions : s'.sessions = s.sessions := by rw [hs']
  have hadd : s.updateStatus sessionId new =
      if new.indexed then
        (s'.put sessionId ((s'.sessions sessionId).setStatus new)).sadd new sessionId
      else s'.put sessionId ((s'.sessions sessionId).setStatus new) := by
    refine with_moveIndex _ new _ hdrop ?_
    rw [Redis.put, hsessions]
    conv => lhs; rw [hs']
  rw [run_alone, Task.step, hadd]
  split
  · dsimp only [Option.toList_some]
    rw [run_alone, Task.step]
    dsimp only [Option.toList_some]
    rw [run_alone, Task.step]
    exact run_ended n
  · dsimp only [Option.toList_some]
    rw [run_alone, Task.step]
    exact run_ended (n + 1)

theorem updateStatus_alone (h : IndexedAt sessionId s) (new : SessionStatus) (n : Nat) :
    run registry.move ⟨s, [.updateHget sessionId new]⟩ (List.replicate (n + 8) (.run 0)) =
      ⟨s.updateStatus sessionId new, []⟩ := by
  have hplain : (∀ status, (s.sessions sessionId).status = some status → status.indexed = false) →
      ∀ status, dropIndex s.index sessionId (s.sessions sessionId).status status = s.index status := by
    intro hs
    refine dropIndex_self fun status hmem hstatus => ?_
    have hindexed := ((h status).mp hmem).2
    rw [hs status hstatus] at hindexed
    cases hindexed
  rw [run_alone, Task.step]
  cases hstatus : (s.sessions sessionId).status with
  | none =>
    refine updateHset_alone s rfl new (hplain fun status hs => ?_) (n + 4)
    cases hstatus.symm.trans hs
  | some old =>
    dsimp only
    split
    · dsimp only [Option.toList_some]
      rw [run_alone, Task.step]
      refine updateHset_alone (s.srem old sessionId) rfl new (fun status => ?_) (n + 3)
      simp only [dropIndex, hstatus, Redis.srem, Function.update_apply]
      by_cases hold : old = status
      · rw [hold, if_pos rfl, if_pos rfl]
      · rw [if_neg fun he => hold (Option.some_inj.mp he), if_neg fun he => hold he.symm]
    · rename_i hindexed
      refine updateHset_alone s rfl new (hplain fun status hs => ?_) (n + 4)
      cases hstatus.symm.trans hs
      simpa using hindexed

/-- The SREM commands of `delete_session` and its last command. -/
theorem deleteSrem_alone (sessionId : String) (sets : List SessionStatus) (s : Redis) (n : Nat) :
    run registry.move ⟨s, [.deleteSrem sessionId sets]⟩ (List.replicate (n + sets.length + 1) (.run 0)) =
      ⟨{ s with
          index := fun status =>
            if status ∈ sets then (s.index status).filter (· ≠ sessionId) else s.index status
          claims := Function.update s.claims sessionId none }, []⟩ := by
  induction sets generalizing s with
  | nil =>
    rw [run_alone, Task.step]
    exact run_ended _
  | cons set sets ih =>
    rw [run_alone, Task.step]
    dsimp only [Option.toList_some]
    rw [List.length_cons, ← Nat.add_assoc, ih]
    have hindex : ∀ status, (if status ∈ sets then ((s.srem set sessionId).index status).filter (· ≠ sessionId)
        else (s.srem set sessionId).index status) =
        if status ∈ set :: sets then (s.index status).filter (· ≠ sessionId) else s.index status := by
      intro status
      simp only [Redis.srem, Function.update_apply, List.mem_cons]
      by_cases hset : status = set
      · simp [hset]
      · simp [hset]
    rw [funext hindex]
    rfl

theorem deleteSession_alone (h : IndexedAt sessionId s) (n : Nat) :
    run registry.move ⟨s, [.deleteDel sessionId]⟩ (List.replicate (n + 8) (.run 0)) =
      ⟨(Call.deleteSession sessionId).apply s, []⟩ := by
  rw [run_alone, Task.step, Call.apply, Redis.deleteSession]
  by_cases hempty : sessionId = ""
  · rw [if_pos hempty, if_pos hempty]
    exact run_ended _
  · rw [if_neg hempty, if_neg hempty]
    dsimp only [Option.toList_some]
    have hindex : ∀ status, (if status ∈ Task.statusSets then (s.index status).filter (· ≠ sessionId)
        else s.index status) = (s.index status).filter (· ≠ sessionId) := by
      intro status
      split
      · rfl
      · rename_i hset
        refine (List.filter_eq_self.mpr fun id hid => ?_).symm
        rw [decide_eq_true_eq]
        rintro rfl
        exact hset (mem_statusSets ((h status).mp hid).2)
    have hsrem := deleteSrem_alone sessionId Task.statusSets (s.put sessionId .absent) n
    have hsets : (fun status => if status ∈ Task.statusSets
        then ((s.put sessionId .absent).index status).filter (· ≠ sessionId)
        else (s.put sessionId .absent).index status) =
        fun status => (s.index status).filter (· ≠ sessionId) := funext hindex
    rw [hsets] at hsrem
    exact hsrem

/-- A call whose commands follow each other on a consistent registry does what it
does as one step. -/
theorem Call.alone (h : s.IndexConsistent) (c : Call) (n : Nat) :
    run registry.move ⟨s, []⟩ (.call c :: List.replicate (n + 8) (.run 0)) = ⟨c.apply s, []⟩ := by
  have hcall : ∀ is, run registry.move ⟨s, []⟩ (.call c :: is) = run registry.move ⟨s, [c.start]⟩ is :=
    fun _ => rfl
  rw [hcall]
  cases c with
  | register record => exact register_alone record n
  | updateStatus sessionId new => exact updateStatus_alone (h sessionId) new n
  | deleteSession sessionId => exact deleteSession_alone (h sessionId) n

end Alone

/-- When the commands of two calls on one session are never interleaved, each
session is in the index set of its status, and in no other, whenever all calls
have completed. -/
theorem indexConsistent_run (redis : Redis) (is : List (Move Call)) (h : redis.IndexConsistent)
    (hg : Guarded registry.move (fun s i => registry.Exclusive s i = true) ⟨redis, []⟩ is) :
    Along registry.move (fun _ _ s' => s'.tasks = [] → s'.shared.IndexConsistent) ⟨redis, []⟩ is := by
  have hstart : registry.Held IndexedAt Task.At ⟨redis, []⟩ :=
    ⟨fun sid _ => h sid, fun t ht => by cases ht⟩
  refine (registry_outline.quiet_run _ is hstart hg).imp fun s i s' hquiet hdone sid => ?_
  refine hquiet sid fun t ht => ?_
  rw [hdone] at ht
  cases ht

def emptyRegistry : Redis := ⟨fun _ => .absent, fun _ => [], fun _ => none, fun _ => none⟩

theorem indexConsistent_empty : emptyRegistry.IndexConsistent := by
  intro sid status
  constructor
  · intro h
    cases h
  · rintro ⟨h, -⟩
    cases h

def sampleRecord (sid : String) : SessionRecord where
  sessionId := sid
  mode := .automated
  status := .active
  memoryName := "demo"
  memoryPath := "/memories/demo"
  createdAt := "2026-01-01T00:00:00Z"
  totalSteps := 0
  annotatedSteps := 0
  skippedSteps := 0
  tenantId := ""
  storageBackend := "local"

/-- Two sessions are registered at the same time. The first is updated while a
deletion waits for it, and is then deleted. -/
def apart : List (Move Call) :=
  [.call (.register (sampleRecord "s1")), .call (.register (sampleRecord "s2")), .run 0, .run 1, .run 0,
    .run 0, .run 0, .run 0, .call (.updateStatus "s1" SessionStatus.pendingAnnotation),
    .call (.deleteSession "s1")] ++ List.replicate 13 (.run 0)

theorem indexConsistent_apart :
    Along registry.move (fun _ _ s' => s'.tasks = [] → s'.shared.IndexConsistent) ⟨emptyRegistry, []⟩
      apart :=
  indexConsistent_run emptyRegistry apart indexConsistent_empty (by decide +kernel)

/-- Two updates of the status of one session, each of which reads the status before
the other has changed it. -/
def overlapping : List (Move Call) :=
  [.call (.register (sampleRecord "s1")), .run 0, .run 0, .run 0,
    .call (.updateStatus "s1" SessionStatus.pendingAnnotation),
    .call (.updateStatus "s1" .reasoningDegraded), .run 0, .run 1] ++ List.replicate 7 (.run 0)

/-- Then the session is in the index sets of both statuses. -/
theorem two_index_sets :
    ¬ Along registry.move (fun _ _ s' => s'.tasks = [] → s'.shared.IndexConsistent) ⟨emptyRegistry, []⟩
      (overlapping ++ [.run 0]) := by
  intro h
  obtain ⟨-, hlast, -⟩ := (along_append _ overlapping [.run 0]).mp h
  have hconsistent := hlast (by decide +kernel) "s1"
  have hpending := ((hconsistent SessionStatus.pendingAnnotation).mp (by decide +kernel)).1
  have hdegraded := ((hconsistent .reasoningDegraded).mp (by decide +kernel)).1
  cases hpending.symm.trans hdegraded

end MemoryArchive.Registry
