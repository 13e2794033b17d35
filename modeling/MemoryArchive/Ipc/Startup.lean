import MemoryArchive.Ipc.Retention
import MemoryArchive.Registry.Commands
import MemoryArchive.Registry.Reconcile

namespace MemoryArchive.Ipc

open Registry Runs

/-- What a startup meets of the sessions: the status and the progress in the metadata that
can be read, whether a replay recovers an interrupted capture, where the directory of an
incomplete one has moved, and which sessions a scan finds past their retention. -/
structure Startup where
  metadata : String → Option (String × Option String)
  recovers : String → Bool
  renamed : String → Option String
  expired : String → Bool
  keys : List String

def cleanupStaleIndex (redis : Redis) : Redis :=
  { redis with
    index := fun status =>
      if status.indexed then (redis.index status).filter fun sid => redis.sessions sid ≠ .absent
      else redis.index status }

namespace Startup

variable (st : Startup)

def markIncomplete (redis : Redis) (sid : String) : Redis :=
  ((st.renamed sid).elim redis (redis.updateMemoryPath sid)).updateStatus sid .incomplete

/-- The startup sweep for a session found active. -/
def sweepActive (redis : Redis) (sid : String) : Redis :=
  match redis.get sid with
  | .error _ => redis.srem .active sid
  | .ok _ =>
      match st.metadata sid with
      | none => st.markIncomplete redis sid
      | some (status, inProgress) =>
          match activeSweepRestoreTarget status with
          | some restore => redis.updateStatus sid restore
          | none =>
              match inProgress with
              | none => st.markIncomplete redis sid
              | some value =>
                  if value = "interrupted" ∧ st.recovers sid then
                    redis.updateStatus sid SessionStatus.pendingAnnotation
                  else if value = "capturing" ∨ value = "interrupted" then st.markIncomplete redis sid
                  else redis

/-- The reconcile sweep for a session that may be stale. -/
def reconcile (redis : Redis) (sid : String) : Redis :=
  match redis.get sid with
  | .error _ => redis
  | .ok r =>
      match st.metadata sid with
      | none => redis
      | some (status, _) =>
          match reconcileTarget r.status status with
          | none => redis
          | some target => redis.updateStatus sid target

def purgeRecord (redis : Redis) (sid : String) : Redis :=
  match redis.get sid with
  | .error _ => redis
  | .ok _ => ((redis.deleteSession sid).map Prod.fst).toOption.getD redis

def staleCandidates (redis : Redis) : List String :=
  redis.index .annotating ++ redis.index .pendingCompilation ++ redis.index .reasoningDegraded

def startupSweep (redis : Redis) : Redis := (redis.index .active).foldl st.sweepActive redis

def reconcileSweep (redis : Redis) : Redis := (staleCandidates redis).foldl st.reconcile redis

def retentionSweep (redis : Redis) : Redis :=
  (listIncompleteBefore redis st.expired st.keys).foldl purgeRecord redis

/-- A startup, as far as the registry goes. -/
def run (redis : Redis) : Redis :=
  st.retentionSweep (st.reconcileSweep (st.startupSweep (cleanupStaleIndex redis)))

end Startup

/-- Each record is stored under its own id and is in the index set of its status, and in
no other. -/
def RecordsSound (s : Redis) : Prop :=
  ∀ sid r, s.sessions sid = .record r → r.sessionId = sid ∧ IndexedAt sid s

/-- A change that concerns one session, which is no new record. -/
structure OnlyAt (s s' : Redis) (sid : String) : Prop where
  sessions : ∀ id, id ≠ sid → s'.sessions id = s.sessions id
  claims : ∀ id, id ≠ sid → s'.claims id = s.claims id
  index : ∀ id, id ≠ sid → ∀ status, id ∈ s'.index status ↔ id ∈ s.index status
  record : ∀ r', s'.sessions sid = .record r' → ∃ r, s.sessions sid = .record r ∧
    r'.sessionId = r.sessionId ∧ (IndexedAt sid s → IndexedAt sid s')

section OnlyAt

variable {s s' s'' : Redis} {sid id : String}

theorem RecordsSound.onlyAt (h : RecordsSound s) (ho : OnlyAt s s' sid) : RecordsSound s' := by
  intro id r hr
  by_cases hid : id = sid
  · subst hid
    obtain ⟨r₀, hr₀, hsame, hindexed⟩ := ho.record r hr
    obtain ⟨hname, hat⟩ := h id r₀ hr₀
    exact ⟨hsame.trans hname, hindexed hat⟩
  · rw [ho.sessions id hid] at hr
    obtain ⟨hname, hat⟩ := h id r hr
    refine ⟨hname, fun status => ?_⟩
    rw [ho.index id hid, ho.sessions id hid]
    exact hat status

theorem OnlyAt.refl (s : Redis) (sid : String) : OnlyAt s s sid :=
  ⟨fun _ _ => rfl, fun _ _ => rfl, fun _ _ _ => Iff.rfl, fun r hr => ⟨r, hr, rfl, fun h => h⟩⟩

theorem OnlyAt.trans (h : OnlyAt s s' sid) (h' : OnlyAt s' s'' sid) : OnlyAt s s'' sid where
  sessions id hid := (h'.sessions id hid).trans (h.sessions id hid)
  claims id hid := (h'.claims id hid).trans (h.claims id hid)
  index id hid status := (h'.index id hid status).trans (h.index id hid status)
  record r'' hr'' := by
    obtain ⟨r', hr', hname', hindexed'⟩ := h'.record r'' hr''
    obtain ⟨r, hr, hname, hindexed⟩ := h.record r' hr'
    exact ⟨r, hr, hname'.trans hname, fun hat => hindexed' (hindexed hat)⟩

theorem updateStatus_self (s : Redis) (sid : String) (new : SessionStatus) :
    (s.updateStatus sid new).sessions sid = (s.sessions sid).setStatus new := Function.update_self _ _ _

theorem onlyAt_updateStatus (s : Redis) (sid : String) (new : SessionStatus) :
    OnlyAt s (s.updateStatus sid new) sid where
  sessions id hid := Function.update_of_ne hid _ _
  claims _ _ := rfl
  index id hid status := by
    rw [Redis.updateStatus, mem_moveIndex]
    simp [hid]
  record r' hr' := by
    rw [updateStatus_self] at hr'
    cases hentry : s.sessions sid with
    | absent | fragment _ =>
      rw [hentry] at hr'
      cases hr'
    | record r =>
      rw [hentry] at hr'
      cases hr'
      refine ⟨r, rfl, rfl, fun hat status => ?_⟩
      rw [updateStatus_self, Entry.status_setStatus, Redis.updateStatus, mem_moveIndex, hat status]
      constructor
      · rintro (⟨-, rfl, hindexed⟩ | ⟨⟨hold, -⟩, hne⟩)
        · exact ⟨rfl, hindexed⟩
        · exact absurd hold (hne rfl)
      · rintro ⟨hnew, hindexed⟩
        exact .inl ⟨rfl, Option.some.inj hnew, hindexed⟩

/-- A change of other fields of a record. -/
theorem onlyAt_fields (s : Redis) (sid : String) {f : Entry → Entry}
    (hstatus : ∀ e, (f e).status = e.status)
    (hrecord : ∀ e r', f e = .record r' → ∃ r, e = .record r ∧ r'.sessionId = r.sessionId) :
    OnlyAt s { s with sessions := Function.update s.sessions sid (f (s.sessions sid)) } sid where
  sessions id hid := Function.update_of_ne hid _ _
  claims _ _ := rfl
  index _ _ _ := Iff.rfl
  record r' hr' := by
    dsimp only at hr'
    rw [Function.update_self] at hr'
    obtain ⟨r, hr, hname⟩ := hrecord _ r' hr'
    refine ⟨r, hr, hname, fun hat status => ?_⟩
    dsimp only
    rw [Function.update_self, hstatus]
    exact hat status

theorem onlyAt_updateCounters (s : Redis) (sid : String) (annotated skipped : UInt32) :
    OnlyAt s (s.updateAnnotationCounters sid annotated skipped) sid := by
  refine onlyAt_fields s sid (Entry.status_setCounters · annotated skipped) fun e r' hr' => ?_
  cases e with
  | absent | fragment _ => cases hr'
  | record r =>
    cases hr'
    exact ⟨r, rfl, rfl⟩

theorem onlyAt_updateMemoryPath (s : Redis) (sid path : String) :
    OnlyAt s (s.updateMemoryPath sid path) sid := by
  refine onlyAt_fields s sid (Entry.status_setMemoryPath · path) fun e r' hr' => ?_
  cases e with
  | absent | fragment _ => cases hr'
  | record r =>
    cases hr'
    exact ⟨r, rfl, rfl⟩

theorem onlyAt_claim (s : Redis) (sid : String) (claim : Option String) :
    OnlyAt s { s with claims := Function.update s.claims sid claim } sid :=
  ⟨fun _ _ => rfl, fun _ hid => Function.update_of_ne hid _ _, fun _ _ _ => Iff.rfl,
    fun r hr => ⟨r, hr, rfl, fun h => h⟩⟩

/-- What is not a record is taken out of an index set. -/
theorem onlyAt_srem (set : SessionStatus) {e : String} (hget : s.get sid = .error e) :
    OnlyAt s (s.srem set sid) sid where
  sessions _ _ := rfl
  claims _ _ := rfl
  index id hid status := by
    rw [mem_srem]
    simp [hid]
  record r' hr' := by
    rw [(s.get_eq_ok sid r').mpr hr'] at hget
    cases hget

theorem onlyAt_deleteSession {s' : Redis} {removed : Bool} (h : s.deleteSession sid = .ok (s', removed)) :
    OnlyAt s s' sid ∧ s'.sessions sid = .absent := by
  rw [Redis.deleteSession] at h
  split at h
  · cases h
  · cases h
    refine ⟨⟨fun id hid => Function.update_of_ne hid _ _, fun id hid => Function.update_of_ne hid _ _,
      fun id hid status => ?_, fun r' hr' => ?_⟩, Function.update_self _ _ _⟩
    · simp [hid]
    · dsimp only at hr'
      rw [Function.update_self] at hr'
      cases hr'

/-- What steps that each concern one session leave of the others. -/
theorem fold_elsewhere {f : Redis → String → Redis} (hf : ∀ s sid, OnlyAt s (f s sid) sid)
    (ids : List String) (s : Redis) (hid : id ∉ ids) :
    (ids.foldl f s).sessions id = s.sessions id ∧ (ids.foldl f s).claims id = s.claims id := by
  induction ids generalizing s with
  | nil => exact ⟨rfl, rfl⟩
  | cons sid ids ih =>
    obtain ⟨hne, hrest⟩ := not_or.mp (List.mem_cons.not.mp hid)
    obtain ⟨hsessions, hclaims⟩ := ih (f s sid) hrest
    exact ⟨hsessions.trans ((hf s sid).sessions id hne), hclaims.trans ((hf s sid).claims id hne)⟩

theorem RecordsSound.fold {f : Redis → String → Redis} (hf : ∀ s sid, OnlyAt s (f s sid) sid)
    (ids : List String) (h : RecordsSound s) : RecordsSound (ids.foldl f s) := by
  have hstep : ∀ (s : Redis) sid, RecordsSound s → True → RecordsSound (f s sid) :=
    fun s sid h _ => h.onlyAt (hf s sid)
  exact invariant_run hstep s ids h (guarded_true s ids)

end OnlyAt

section Sweeps

variable {s : Redis} {sid : String} {r : SessionRecord} (st : Startup)

/-- An index set has no entry of a session that is not stored. -/
theorem RecordsSound.cleanup (h : RecordsSound s) : RecordsSound (cleanupStaleIndex s) := by
  intro sid r hr
  obtain ⟨hname, hat⟩ := h sid r hr
  refine ⟨hname, fun status => ?_⟩
  have hstored : s.sessions sid ≠ .absent := fun habsent => by
    change s.sessions sid = _ at hr
    rw [habsent] at hr
    cases hr
  rw [← show s.sessions = (cleanupStaleIndex s).sessions from rfl, ← hat status, cleanupStaleIndex]
  dsimp only
  split
  · simp [hstored]
  · rfl

theorem onlyAt_markIncomplete (s : Redis) (sid : String) : OnlyAt s (st.markIncomplete s sid) sid := by
  rw [Startup.markIncomplete]
  cases st.renamed sid with
  | none => exact onlyAt_updateStatus s sid .incomplete
  | some path => exact (onlyAt_updateMemoryPath s sid path).trans (onlyAt_updateStatus _ sid .incomplete)

theorem onlyAt_sweepActive (s : Redis) (sid : String) : OnlyAt s (st.sweepActive s sid) sid := by
  rw [Startup.sweepActive]
  split
  · rename_i e hget
    exact onlyAt_srem .active hget
  split
  · exact onlyAt_markIncomplete st s sid
  split
  · exact onlyAt_updateStatus s sid _
  split
  · exact onlyAt_markIncomplete st s sid
  split
  · exact onlyAt_updateStatus s sid _
  split
  · exact onlyAt_markIncomplete st s sid
  · exact .refl s sid

theorem onlyAt_reconcile (s : Redis) (sid : String) : OnlyAt s (st.reconcile s sid) sid := by
  rw [Startup.reconcile]
  split
  · exact .refl s sid
  split
  · exact .refl s sid
  split
  · exact .refl s sid
  · exact onlyAt_updateStatus s sid _

theorem onlyAt_purgeRecord (s : Redis) (sid : String) : OnlyAt s (Startup.purgeRecord s sid) sid := by
  rw [Startup.purgeRecord]
  split
  · exact .refl s sid
  · cases hdelete : s.deleteSession sid with
    | error _ => exact .refl s sid
    | ok result => exact (onlyAt_deleteSession hdelete).1

theorem RecordsSound.startupSweep (h : RecordsSound s) : RecordsSound (st.startupSweep s) :=
  h.fold (onlyAt_sweepActive st) _

theorem RecordsSound.reconcileSweep (h : RecordsSound s) : RecordsSound (st.reconcileSweep s) :=
  h.fold (onlyAt_reconcile st) _

/-- The startup keeps the records and their index entries in order. -/
theorem RecordsSound.startup (h : RecordsSound s) : RecordsSound (st.run s) :=
  ((h.cleanup.startupSweep st).reconcileSweep st).fold onlyAt_purgeRecord _

/-- The status that the reconcile sweep leaves. -/
def Startup.settled (sid : String) (status : SessionStatus) : SessionStatus :=
  match st.metadata sid with
  | none => status
  | some (metadataStatus, _) => (reconcileTarget status metadataStatus).getD status

theorem reconcileTarget_again {status target : SessionStatus} {metadataStatus : String}
    (h : reconcileTarget status metadataStatus = some target) :
    reconcileTarget target metadataStatus = none := by
  unfold reconcileTarget at h
  split at h
  · rename_i hcomplete
    split at h
    · cases h
      unfold reconcileTarget
      rw [if_pos hcomplete]
    · cases h
  rename_i hopen
  split at h
  · cases h
  have hsame : target.text = metadataStatus := by
    split_ifs at h with h₁ h₂ h₃ h₄ h₅
    · cases h
      exact h₁.symm
    · cases h
      exact h₂.symm
    · cases h
      exact h₃.symm
    · cases h
      exact h₄.symm
    · cases h
      exact h₅.symm
  unfold reconcileTarget
  rw [if_neg hopen, if_pos hsame]

theorem settled_settled (sid : String) (status : SessionStatus) :
    st.settled sid (st.settled sid status) = st.settled sid status := by
  unfold Startup.settled
  cases st.metadata sid with
  | none => rfl
  | some found =>
    dsimp only
    cases htarget : reconcileTarget status found.1 with
    | none => rw [Option.getD_none, htarget, Option.getD_none]
    | some target => rw [Option.getD_some, reconcileTarget_again htarget, Option.getD_none]

theorem reconcile_self (hr : s.sessions sid = .record r) :
    (st.reconcile s sid).sessions sid = .record { r with status := st.settled sid r.status } ∧
      (st.reconcile s sid).claims sid = s.claims sid := by
  rw [Startup.reconcile, (s.get_eq_ok sid r).mpr hr, Startup.settled]
  dsimp only
  cases st.metadata sid with
  | none => exact ⟨hr, rfl⟩
  | some found =>
    dsimp only
    cases reconcileTarget r.status found.1 with
    | none => exact ⟨hr, rfl⟩
    | some target =>
      refine ⟨?_, rfl⟩
      dsimp only
      rw [updateStatus_self, hr]
      rfl

/-- The reconcile sweep settles the sessions it comes across, however often. -/
theorem reconcile_fold (ids : List String) (hr : s.sessions sid = .record r) :
    (ids.foldl st.reconcile s).sessions sid =
        .record { r with status := if sid ∈ ids then st.settled sid r.status else r.status } ∧
      (ids.foldl st.reconcile s).claims sid = s.claims sid := by
  induction ids generalizing s r with
  | nil => exact ⟨hr, rfl⟩
  | cons id ids ih =>
    rw [List.foldl_cons]
    by_cases hid : sid = id
    · subst hid
      obtain ⟨hself, hclaims⟩ := reconcile_self st hr
      obtain ⟨hrest, hkept⟩ := ih hself
      refine ⟨?_, hkept.trans hclaims⟩
      rw [hrest, if_pos List.mem_cons_self]
      dsimp only
      rw [settled_settled, ite_self]
    · have honly := onlyAt_reconcile st s id
      obtain ⟨hrest, hkept⟩ := ih ((honly.sessions sid hid).trans hr)
      refine ⟨?_, hkept.trans (honly.claims sid hid)⟩
      rw [hrest]
      simp [hid]

theorem purgeRecord_fold (sid : String) (ids : List String) (s : Redis) :
    (ids.foldl Startup.purgeRecord s).sessions sid = s.sessions sid ∨
      (ids.foldl Startup.purgeRecord s).sessions sid = .absent := by
  induction ids generalizing s with
  | nil => exact .inl rfl
  | cons id ids ih =>
    have hstep : (Startup.purgeRecord s id).sessions sid = s.sessions sid ∨
        (Startup.purgeRecord s id).sessions sid = .absent := by
      by_cases hid : sid = id
      · subst hid
        rw [Startup.purgeRecord]
        split
        · exact .inl rfl
        · cases hdelete : s.deleteSession sid with
          | error _ => exact .inl rfl
          | ok result => exact .inr (onlyAt_deleteSession hdelete).2
      · exact .inl ((onlyAt_purgeRecord s id).sessions sid hid)
    obtain hrest | hrest := ih (Startup.purgeRecord s id)
    · exact hstep.imp hrest.trans hrest.trans
    · exact .inr hrest

/-- Only incomplete sessions are past their retention. -/
theorem incomplete_of_listed (h : RecordsSound s) (hr : s.sessions sid = .record r)
    (hmem : sid ∈ listIncompleteBefore s st.expired st.keys) : r.status = .incomplete := by
  obtain ⟨key, -, found, hentry, rfl, hstatus, -, -⟩ := mem_listIncompleteBefore.mp hmem
  rw [(h key found hentry).1, hentry] at hr
  obtain rfl := Entry.record.inj hr
  exact hstatus

/-- The statuses of the sessions that the reconcile sweep looks at. -/
def mayBeStale (status : SessionStatus) : Bool :=
  status = .annotating || status = .pendingCompilation || status = .reasoningDegraded

theorem mem_staleCandidates (h : RecordsSound s) (hr : s.sessions sid = .record r) :
    sid ∈ Startup.staleCandidates s ↔ mayBeStale r.status = true := by
  have hat := (h sid r hr).2
  rw [Startup.staleCandidates, List.mem_append, List.mem_append, hat, hat, hat, hr]
  cases hstatus : r.status <;> simp [Entry.status, mayBeStale, SessionStatus.indexed, hstatus]

/-- A session past its capture is not active for the startup sweep. -/
theorem startupSweep_record (h : RecordsSound s) (hr : s.sessions sid = .record r) (hactive : r.status ≠ .active) :
    (st.startupSweep s).sessions sid = .record r ∧ (st.startupSweep s).claims sid = s.claims sid := by
  have hkept : sid ∉ s.index .active := by
    rw [(h sid r hr).2, hr]
    rintro ⟨hstatus, -⟩
    exact hactive (Option.some.inj hstatus)
  obtain ⟨hsessions, hclaims⟩ := fold_elsewhere (onlyAt_sweepActive st) _ s hkept
  exact ⟨hsessions.trans hr, hclaims⟩

theorem reconcileSweep_record (h : RecordsSound s) (hr : s.sessions sid = .record r) :
    (st.reconcileSweep s).sessions sid =
        .record { r with status := if mayBeStale r.status then st.settled sid r.status else r.status } ∧
      (st.reconcileSweep s).claims sid = s.claims sid := by
  obtain ⟨hsessions, hclaims⟩ := reconcile_fold st (Startup.staleCandidates s) hr
  rw [if_congr (mem_staleCandidates h hr) rfl rfl] at hsessions
  exact ⟨hsessions, hclaims⟩

theorem retentionSweep_record (h : RecordsSound s) (hr : s.sessions sid = .record r)
    (hstatus : r.status ≠ .incomplete) :
    (st.retentionSweep s).sessions sid = .record r ∧ (st.retentionSweep s).claims sid = s.claims sid := by
  have hkept : sid ∉ listIncompleteBefore s st.expired st.keys :=
    fun hmem => hstatus (incomplete_of_listed st h hr hmem)
  obtain ⟨hsessions, hclaims⟩ := fold_elsewhere onlyAt_purgeRecord _ s hkept
  exact ⟨hsessions.trans hr, hclaims⟩

/-- The status that a startup leaves to a session past its capture. -/
def Startup.statusAfter (sid : String) (status : SessionStatus) : SessionStatus :=
  if mayBeStale status then st.settled sid status else status

/-- The record before the retention sweep of a startup. -/
theorem reconciled_record (h : RecordsSound s) (hr : s.sessions sid = .record r) (hactive : r.status ≠ .active) :
    (st.reconcileSweep (st.startupSweep (cleanupStaleIndex s))).sessions sid =
        .record { r with status := st.statusAfter sid r.status } ∧
      (st.reconcileSweep (st.startupSweep (cleanupStaleIndex s))).claims sid = s.claims sid := by
  have hclean := h.cleanup
  obtain ⟨hswept, hclaimed⟩ := startupSweep_record st hclean hr hactive
  obtain ⟨hsettled, hheld⟩ := reconcileSweep_record st (hclean.startupSweep st) hswept
  exact ⟨hsettled, hheld.trans hclaimed⟩

theorem run_record (h : RecordsSound s) (hr : s.sessions sid = .record r) (hactive : r.status ≠ .active)
    (hstatus : st.statusAfter sid r.status ≠ .incomplete) :
    (st.run s).sessions sid = .record { r with status := st.statusAfter sid r.status } ∧
      (st.run s).claims sid = s.claims sid := by
  obtain ⟨hrecord, hclaims⟩ := reconciled_record st h hr hactive
  have hsound := (h.cleanup.startupSweep st).reconcileSweep st
  obtain ⟨hend, hlast⟩ := retentionSweep_record st hsound hrecord hstatus
  exact ⟨hend, hlast.trans hclaims⟩

/-- Whatever record a startup leaves has the status that the sweeps before the last gave it. -/
theorem status_run (h : RecordsSound s) (hr : s.sessions sid = .record r) (hactive : r.status ≠ .active)
    {r' : SessionRecord} (hr' : (st.run s).sessions sid = .record r') :
    r'.status = st.statusAfter sid r.status := by
  obtain ⟨hrecord, -⟩ := reconciled_record st h hr hactive
  rw [Startup.run, Startup.retentionSweep] at hr'
  obtain hsame | hgone := purgeRecord_fold sid (listIncompleteBefore _ st.expired st.keys) _
  · rw [hsame, hrecord] at hr'
    obtain rfl := Entry.record.inj hr'
    rfl
  · rw [hgone] at hr'
    cases hr'

end Sweeps

end MemoryArchive.Ipc
