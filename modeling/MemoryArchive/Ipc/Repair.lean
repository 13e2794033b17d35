import MemoryArchive.Capture.Metadata
import MemoryArchive.Ipc.Lifecycle
import MemoryArchive.Ipc.RegistryWrites
import MemoryArchive.Ipc.Waiting

namespace MemoryArchive.Ipc.Repair

open Registry Runs

/-- A restart: its storage mode, what the metadata of each session says, in the cloud and on
the local disk, where it can be read, and what the sweeps meet otherwise. -/
structure Restart where
  cloudPrimary : Bool
  kafkaBroker : Bool
  cloud : String → Option (String × Option String)
  disk : String → Option (String × Option String)
  recovers : String → Bool
  renamed : String → Option String
  expired : String → Bool
  keys : List String

namespace Restart

variable (w : Restart)

def withKafka : Bool := w.cloudPrimary && w.kafkaBroker

/-- What the startup sweep reads. -/
def sweepRead (sid : String) : Option (String × Option String) :=
  if w.withKafka then (w.cloud sid).or (w.disk sid) else w.disk sid

/-- Whether the startup sweep replays the events of a session that it finds active. -/
def replays (sid : String) : Bool :=
  match w.sweepRead sid with
  | some (status, progress) =>
      status ≠ "complete" && progress = some "interrupted" && w.withKafka && w.recovers sid
  | none => false

/-- What the reconcile sweep reads. A replay has marked the metadata recovered. -/
def reconcileRead (redis : Redis) (sid : String) : Option (String × Option String) :=
  if sid ∈ redis.index .active ∧ w.replays sid then some ("pending_annotation", none)
  else if w.withKafka then w.cloud sid
  else w.disk sid

def sweeping : Startup where
  metadata := w.sweepRead
  recovers sid := w.withKafka && w.recovers sid
  renamed sid := if w.withKafka then none else w.renamed sid
  expired := w.expired
  keys := w.keys

def reconciling (redis : Redis) : Startup := { w.sweeping with metadata := w.reconcileRead redis }

/-- The registry after the sweeps. -/
def run (redis : Redis) : Redis :=
  let cleaned := cleanupStaleIndex redis
  w.sweeping.retentionSweep ((w.reconciling cleaned).reconcileSweep (w.sweeping.startupSweep cleaned))

/-- The metadata that a capture stores last. -/
def authoritative (sid : String) : Option (String × Option String) :=
  if w.cloudPrimary then w.cloud sid else w.disk sid

def Complete (sid : String) : Prop := ∃ progress, w.authoritative sid = some ("complete", progress)

/-- The startup sweep restores the session after its recording, by its metadata or by a replay. -/
def Restores (sid : String) : Prop :=
  (∃ progress, w.sweepRead sid = some ("complete", progress)) ∨ w.replays sid = true

/-- The startup sweep makes nothing of the progress in the metadata. -/
def Skips (sid : String) : Prop :=
  ∃ status value, w.sweepRead sid = some (status, some value) ∧ status ≠ "complete" ∧
    value ≠ "capturing" ∧ value ≠ "interrupted"

/-- The session is in the index of the active ones and the startup sweep decides on it. -/
def Swept (redis : Redis) (sid : String) : Prop := sid ∈ redis.index .active ∧ ¬ w.Skips sid

/-- The session is in an index that the reconcile sweep goes through, and stays there when the
startup sweep takes it out of the index of its status. -/
def Candidate (redis : Redis) (sid : String) (status : SessionStatus) : Prop :=
  ∃ set, mayBeStale set = true ∧ sid ∈ redis.index set ∧ ¬ (w.Swept redis sid ∧ status = set)

end Restart

/-- The statuses of metadata that the reconcile sweep takes over. -/
def takenOver (metadataStatus : String) : Option SessionStatus :=
  [SessionStatus.pendingAnnotation, SessionStatus.pendingHumanAnnotation, .pendingCompilation,
    .reasoningDegraded, .incomplete].find? fun status => status.text = metadataStatus

/-- The status that the metadata gives a session in the reconcile sweep. -/
def Restart.named (w : Restart) (redis : Redis) (sid : String) : Option SessionStatus :=
  (w.reconcileRead redis sid).bind fun found => takenOver found.1

/-- The status of a session whose recording has ended and is whole. -/
def PostCapture (status : SessionStatus) : Prop :=
  status ≠ .active ∧ status ≠ .reasoningDegraded ∧ status ≠ .incomplete

/-- What the sweeps of a restart are for. -/
structure Repaired (w : Restart) (redis redis' : Redis) : Prop where
  settled : ∀ sid r, redis'.sessions sid = .record r → r.status ≠ .active ∧ r.status ≠ .reasoningDegraded
  complete : ∀ sid r, redis.sessions sid = .record r → w.Complete sid →
    ∃ r', redis'.sessions sid = .record r' ∧ PostCapture r'.status
  claimed : ∀ sid r, redis.sessions sid = .record r → redis.claims sid ≠ none →
    ∃ r', redis'.sessions sid = .record r' ∧ r'.status = r.status

/-- The reconcile sweep takes a status over from the metadata of the session. -/
def Restart.Follows (w : Restart) (redis : Redis) (sid : String) (before status : SessionStatus) : Prop :=
  w.Candidate redis sid before ∧ w.named redis sid = some status

/-- The reconcile sweep finds the recording of the session complete. -/
def Restart.Returns (w : Restart) (redis : Redis) (sid : String) (before : SessionStatus) : Prop :=
  w.Candidate redis sid before ∧ ∃ progress, w.reconcileRead redis sid = some ("complete", progress)

/-- What the sweeps need to find for a session. -/
structure Repairable (w : Restart) (redis : Redis) (sid : String) (r : SessionRecord) : Prop where
  followed : ∀ status, w.Follows redis sid r.status status →
    status ≠ .reasoningDegraded ∧ (w.Complete sid → status ≠ .incomplete) ∧
      (redis.claims sid ≠ none → r.status = status)
  swept : (∀ status, ¬ w.Follows redis sid r.status status) → w.Swept redis sid →
    (w.Complete sid → w.Restores sid) ∧
      (redis.claims sid ≠ none →
        (w.Restores sid → r.status = SessionStatus.pendingAnnotation) ∧
          (¬ w.Restores sid → r.status = .incomplete))
  kept : (∀ status, ¬ w.Follows redis sid r.status status) → ¬ w.Swept redis sid →
    r.status ≠ .active ∧ r.status ≠ .reasoningDegraded ∧
      (w.Complete sid → r.status ≠ .incomplete) ∧
      (redis.claims sid ≠ none → w.Returns redis sid r.status → r.status ≠ .annotating)
  retained : redis.claims sid ≠ none → r.status = .incomplete →
    ¬ (sid ∈ w.keys ∧ w.expired sid = true ∧ sid ≠ "")

/-- Each record is stored under its own id. -/
def Named (s : Redis) : Prop := ∀ sid r, s.sessions sid = .record r → r.sessionId = sid

section Sweeps

variable {s s' : Redis} {sid : String} {r : SessionRecord} (w : Restart)

theorem Named.onlyAt (h : Named s) (ho : OnlyAt s s' sid) : Named s' := by
  intro id r hr
  by_cases hid : id = sid
  · subst hid
    obtain ⟨r₀, hr₀, hsame, -⟩ := ho.record r hr
    exact hsame.trans (h id r₀ hr₀)
  · rw [ho.sessions id hid] at hr
    exact h id r hr

theorem Named.fold {f : Redis → String → Redis} (hf : ∀ s sid, OnlyAt s (f s sid) sid) (ids : List String)
    (h : Named s) : Named (ids.foldl f s) := by
  induction ids generalizing s with
  | nil => exact h
  | cons sid ids ih => exact ih (h.onlyAt (hf s sid))

/-- A session gets a status and moves from the index of its old one. -/
structure Gives (s s' : Redis) (sid : String) (old new : SessionStatus) : Prop where
  record : ∃ r', s'.sessions sid = .record r' ∧ r'.status = new
  index : s'.index = moveIndex s.index sid (some old) new

theorem gives_updateStatus (hr : s.sessions sid = .record r) (new : SessionStatus) :
    Gives s (s.updateStatus sid new) sid r.status new := by
  have hself := updateStatus_self s sid new
  rw [hr] at hself
  refine ⟨⟨_, hself, rfl⟩, ?_⟩
  rw [Redis.updateStatus, hr]
  rfl

theorem gives_markIncomplete (st : Startup) (hr : s.sessions sid = .record r) :
    Gives s (st.markIncomplete s sid) sid r.status .incomplete := by
  rw [Startup.markIncomplete]
  cases st.renamed sid with
  | none => exact gives_updateStatus hr .incomplete
  | some path =>
    have hmoved : (s.updateMemoryPath sid path).sessions sid = .record { r with memoryPath := path } := by
      rw [Redis.updateMemoryPath]
      dsimp only
      rw [Function.update_self, hr]
      rfl
    obtain ⟨hrecord, hindex⟩ := gives_updateStatus hmoved .incomplete
    exact ⟨hrecord, hindex⟩

/-- What the startup sweep makes of a session that is stored, by its metadata. -/
theorem sweepActive_read (hr : s.sessions sid = .record r) {status : String} {progress : Option String}
    (hread : w.sweepRead sid = some (status, progress)) :
    w.sweeping.sweepActive s sid =
      if status = "complete" ∨ w.replays sid = true then s.updateStatus sid SessionStatus.pendingAnnotation
      else if progress ∈ [none, some "capturing", some "interrupted"] then w.sweeping.markIncomplete s sid
      else s := by
  rw [Startup.sweepActive, (s.get_eq_ok sid r).mpr hr]
  dsimp only
  rw [show w.sweeping.metadata sid = _ from hread, Restart.replays, hread]
  dsimp only
  rw [activeSweepRestoreTarget]
  by_cases hcomplete : status = "complete"
  · rw [if_pos hcomplete, if_pos (.inl hcomplete)]
  rw [if_neg hcomplete]
  cases progress with
  | none => simp [hcomplete]
  | some value => simp [hcomplete, Restart.sweeping, and_assoc]

theorem sweepActive_skips (hr : s.sessions sid = .record r) (h : w.Skips sid) :
    w.sweeping.sweepActive s sid = s := by
  obtain ⟨status, value, hread, hopen, hcapturing, hinterrupted⟩ := h
  rw [sweepActive_read w hr hread, Restart.replays, hread]
  simp [hopen, hcapturing, hinterrupted]

theorem sweepActive_restores (hr : s.sessions sid = .record r) (h : w.Restores sid) :
    w.sweeping.sweepActive s sid = s.updateStatus sid SessionStatus.pendingAnnotation := by
  cases hread : w.sweepRead sid with
  | none =>
    rw [Restart.Restores, Restart.replays, hread] at h
    simp at h
  | some found =>
    have hrestored : found.1 = "complete" ∨ w.replays sid = true := by
      refine h.imp_left ?_
      rintro ⟨progress, hcomplete⟩
      obtain rfl := Option.some.inj (hread.symm.trans hcomplete)
      rfl
    rw [sweepActive_read w hr hread, if_pos hrestored]

theorem sweepActive_demotes (hr : s.sessions sid = .record r) (h : ¬ w.Restores sid) (hskip : ¬ w.Skips sid) :
    w.sweeping.sweepActive s sid = w.sweeping.markIncomplete s sid := by
  cases hread : w.sweepRead sid with
  | none =>
    rw [Startup.sweepActive, (s.get_eq_ok sid r).mpr hr]
    dsimp only
    rw [show w.sweeping.metadata sid = _ from hread]
  | some found =>
    obtain ⟨status, progress⟩ := found
    have hopen : ¬ (status = "complete" ∨ w.replays sid = true) := by
      refine fun hrestored => h (hrestored.imp_left ?_)
      rintro rfl
      exact ⟨progress, hread⟩
    have hknown : progress ∈ [none, some "capturing", some "interrupted"] := by
      by_contra hunknown
      cases progress with
      | none => simp at hunknown
      | some value =>
        simp only [List.mem_cons, reduceCtorEq, Option.some.injEq, List.not_mem_nil, or_false, false_or,
          not_or] at hunknown
        exact hskip ⟨status, value, hread, fun h => hopen (.inl h), hunknown.1, hunknown.2⟩
    rw [sweepActive_read w hr hread, if_neg hopen, if_pos hknown]

/-- Sweeping a session, once or more, gives it a status and takes it out of the index of its
old one. -/
theorem gives_fold {f : Redis → String → Redis} {new : SessionStatus} (hf : ∀ s id, OnlyAt s (f s id) id)
    (hnew : mayBeStale new = false)
    (hgives : ∀ s r, s.sessions sid = .record r → Gives s (f s sid) sid r.status new) (ids : List String)
    (hr : s.sessions sid = .record r) :
    (∃ r', (ids.foldl f s).sessions sid = .record r' ∧
        r'.status = if sid ∈ ids then new else r.status) ∧
      ∀ set, mayBeStale set = true →
        (sid ∈ (ids.foldl f s).index set ↔ sid ∈ s.index set ∧ ¬ (sid ∈ ids ∧ r.status = set)) := by
  induction ids generalizing s r with
  | nil => exact ⟨⟨r, hr, rfl⟩, fun set _ => by simp⟩
  | cons id ids ih =>
    rw [List.foldl_cons]
    by_cases hid : sid = id
    · subst hid
      obtain ⟨⟨r', hr', hstatus⟩, hindex⟩ := hgives s r hr
      obtain ⟨⟨r'', hr'', hend⟩, hrest⟩ := ih hr'
      refine ⟨⟨r'', hr'', ?_⟩, fun set hset => ?_⟩
      · rw [hend, hstatus, ite_self, if_pos List.mem_cons_self]
      · have hne : new ≠ set := by
          rintro rfl
          rw [hnew] at hset
          cases hset
        rw [hrest set hset, hindex, mem_moveIndex, hstatus]
        simp [hne]
    · have honly := hf s id
      obtain ⟨⟨r', hr', hend⟩, hrest⟩ := ih ((honly.sessions sid hid).trans hr)
      refine ⟨⟨r', hr', ?_⟩, fun set hset => ?_⟩
      · rw [hend]
        simp [hid]
      · rw [hrest set hset, honly.index sid hid]
        simp [hid]

/-- Sweeping a session that each sweep leaves alone. -/
theorem skips_fold {f : Redis → String → Redis} (hf : ∀ s id, OnlyAt s (f s id) id)
    (hskip : ∀ s r, s.sessions sid = .record r → f s sid = s) (ids : List String)
    (hr : s.sessions sid = .record r) :
    (ids.foldl f s).sessions sid = .record r ∧ ∀ set, sid ∈ (ids.foldl f s).index set ↔ sid ∈ s.index set := by
  induction ids generalizing s with
  | nil => exact ⟨hr, fun _ => Iff.rfl⟩
  | cons id ids ih =>
    rw [List.foldl_cons]
    by_cases hid : sid = id
    · subst hid
      rw [hskip s r hr]
      exact ih hr
    · have honly := hf s id
      obtain ⟨hrecord, hindex⟩ := ih ((honly.sessions sid hid).trans hr)
      exact ⟨hrecord, fun set => (hindex set).trans (honly.index sid hid set)⟩

theorem mem_cleanup (hr : s.sessions sid = .record r) (status : SessionStatus) :
    sid ∈ (cleanupStaleIndex s).index status ↔ sid ∈ s.index status := by
  rw [cleanupStaleIndex]
  dsimp only
  split
  · simp [hr]
  · rfl

theorem mem_candidates {sid : String} :
    sid ∈ Startup.staleCandidates s ↔ ∃ set, mayBeStale set = true ∧ sid ∈ s.index set := by
  rw [Startup.staleCandidates, List.mem_append, List.mem_append]
  constructor
  · rintro ((h | h) | h)
    · exact ⟨_, rfl, h⟩
    · exact ⟨_, rfl, h⟩
    · exact ⟨_, rfl, h⟩
  · rintro ⟨set, hset, h⟩
    cases set with
    | annotating => exact .inl (.inl h)
    | pendingCompilation => exact .inl (.inr h)
    | reasoningDegraded => exact .inr h
    | active | pendingAnnotation | pendingHumanAnnotation | complete | incomplete => cases hset

/-- What the startup sweep leaves of a session, and whether the reconcile sweep looks at it. -/
structure SweptTo (redis swept : Redis) (sid : String) (r : SessionRecord) : Prop where
  record : ∃ r', swept.sessions sid = .record r' ∧
    (¬ w.Swept redis sid → r'.status = r.status) ∧
    (w.Swept redis sid →
      (w.Restores sid → r'.status = SessionStatus.pendingAnnotation) ∧
        (¬ w.Restores sid → r'.status = .incomplete))
  candidate : sid ∈ Startup.staleCandidates swept ↔ w.Candidate redis sid r.status

theorem sweptTo (hr : s.sessions sid = .record r) :
    SweptTo w s (w.sweeping.startupSweep (cleanupStaleIndex s)) sid r := by
  have hclean : (cleanupStaleIndex s).sessions sid = .record r := hr
  have honly := onlyAt_sweepActive w.sweeping
  by_cases hskip : w.Skips sid
  · have hstays : ¬ w.Swept s sid := fun h => h.2 hskip
    obtain ⟨hrecord, hindex⟩ := skips_fold honly (fun s r hr => sweepActive_skips w hr hskip)
      ((cleanupStaleIndex s).index .active) hclean
    refine ⟨⟨r, hrecord, fun _ => rfl, fun h => absurd h hstays⟩, ?_⟩
    rw [mem_candidates, Restart.Candidate]
    refine exists_congr fun set => and_congr_right fun _ => ?_
    rw [Startup.startupSweep, hindex, mem_cleanup hr]
    exact (and_iff_left fun h => hstays h.1).symm
  have hswept : w.Swept s sid ↔ sid ∈ (cleanupStaleIndex s).index .active := by
    rw [mem_cleanup hr]
    exact and_iff_left hskip
  have hgives : ∀ new, mayBeStale new = false →
      (∀ s r, s.sessions sid = .record r → Gives s (w.sweeping.sweepActive s sid) sid r.status new) →
      (∃ r', (w.sweeping.startupSweep (cleanupStaleIndex s)).sessions sid = .record r' ∧
        (¬ w.Swept s sid → r'.status = r.status) ∧ (w.Swept s sid → r'.status = new)) ∧
      (sid ∈ Startup.staleCandidates (w.sweeping.startupSweep (cleanupStaleIndex s)) ↔
        w.Candidate s sid r.status) := by
    intro new hnew hgives
    obtain ⟨⟨r', hr', hstatus⟩, hindex⟩ := gives_fold honly hnew hgives
      ((cleanupStaleIndex s).index .active) hclean
    refine ⟨⟨r', hr', fun h => ?_, fun h => ?_⟩, ?_⟩
    · rw [hstatus, if_neg (hswept.not.mp h)]
    · rw [hstatus, if_pos (hswept.mp h)]
    · rw [mem_candidates, Restart.Candidate]
      refine exists_congr fun set => and_congr_right fun hset => ?_
      rw [Startup.startupSweep, hindex set hset, mem_cleanup hr, hswept]
  by_cases hrestores : w.Restores sid
  · obtain ⟨⟨r', hr', hstays, hmoves⟩, hcandidate⟩ := hgives SessionStatus.pendingAnnotation rfl
      fun s r hr => by
        rw [sweepActive_restores w hr hrestores]
        exact gives_updateStatus hr _
    exact ⟨⟨r', hr', hstays, fun h => ⟨fun _ => hmoves h, fun hno => absurd hrestores hno⟩⟩, hcandidate⟩
  · obtain ⟨⟨r', hr', hstays, hmoves⟩, hcandidate⟩ := hgives .incomplete rfl fun s r hr => by
      rw [sweepActive_demotes w hr hrestores hskip]
      exact gives_markIncomplete w.sweeping hr
    exact ⟨⟨r', hr', hstays, fun h => ⟨fun h => absurd h hrestores, fun _ => hmoves h⟩⟩, hcandidate⟩

/-- The reconcile sweep, by what the metadata names. -/
theorem reconcileTarget_takenOver (status : SessionStatus) (metadataStatus : String) :
    (reconcileTarget status metadataStatus).getD status =
      if metadataStatus = "complete" ∧ status = .annotating then SessionStatus.pendingAnnotation
      else (takenOver metadataStatus).getD status := by
  by_cases hcomplete : metadataStatus = "complete"
  · subst hcomplete
    cases status <;> decide
  by_cases hnamed : ∃ t ∈ [SessionStatus.pendingAnnotation, SessionStatus.pendingHumanAnnotation,
      .pendingCompilation, .reasoningDegraded, .incomplete], t.text = metadataStatus
  · obtain ⟨t, ht, rfl⟩ := hnamed
    simp only [List.mem_cons, List.not_mem_nil, or_false] at ht
    obtain rfl | rfl | rfl | rfl | rfl := ht <;> cases status <;> decide
  · have hnone : takenOver metadataStatus = none := by
      rw [takenOver, List.find?_eq_none]
      intro t ht h
      exact hnamed ⟨t, ht, of_decide_eq_true h⟩
    simp only [List.mem_cons, List.not_mem_nil, or_false, exists_eq_or_imp, exists_eq_left, not_or,
      SessionStatus.text] at hnamed
    obtain ⟨h₁, h₂, h₃, h₄, h₅⟩ := hnamed
    unfold reconcileTarget
    rw [if_neg hcomplete, if_neg (Ne.symm h₁), if_neg (Ne.symm h₂), if_neg (Ne.symm h₃),
      if_neg (Ne.symm h₄), if_neg (Ne.symm h₅), ite_self, hnone, if_neg fun h => hcomplete h.1]

theorem reconcileRead_cleanup (hr : s.sessions sid = .record r) :
    w.reconcileRead (cleanupStaleIndex s) sid = w.reconcileRead s sid := by
  rw [Restart.reconcileRead, Restart.reconcileRead, if_congr (and_congr_left' (mem_cleanup hr _)) rfl rfl]

/-- What the reconcile sweep makes of the status that a session has by then. -/
structure Reconciles (redis : Redis) (sid : String) (before status after : SessionStatus) : Prop where
  followed : ∀ t, w.Follows redis sid before t → after = t
  returned : (∀ t, ¬ w.Follows redis sid before t) → w.Returns redis sid before → status = .annotating →
    after = SessionStatus.pendingAnnotation
  kept : (∀ t, ¬ w.Follows redis sid before t) → ¬ (w.Returns redis sid before ∧ status = .annotating) →
    after = status

theorem reconciles {swept : Redis} {r' : SessionRecord} (hr : s.sessions sid = .record r)
    (hr' : swept.sessions sid = .record r')
    (hcandidate : sid ∈ Startup.staleCandidates swept ↔ w.Candidate s sid r.status) :
    ∃ r'', ((w.reconciling (cleanupStaleIndex s)).reconcileSweep swept).sessions sid = .record r'' ∧
      Reconciles w s sid r.status r'.status r''.status := by
  obtain ⟨hsettled, -⟩ :=
    reconcile_fold (w.reconciling (cleanupStaleIndex s)) (Startup.staleCandidates swept) hr'
  refine ⟨_, hsettled, ?_⟩
  dsimp only
  by_cases hc : w.Candidate s sid r.status
  · have hread : (w.reconciling (cleanupStaleIndex s)).metadata sid = w.reconcileRead s sid :=
      reconcileRead_cleanup w hr
    rw [if_pos (hcandidate.mpr hc), Startup.settled, hread]
    cases hfound : w.reconcileRead s sid with
    | none =>
      have hnone : w.named s sid = none := by rw [Restart.named, hfound]; rfl
      refine ⟨fun t h => ?_, fun _ h => ?_, fun _ _ => rfl⟩
      · rw [Restart.Follows, hnone] at h
        cases h.2
      · obtain ⟨progress, hcomplete⟩ := h.2
        rw [hfound] at hcomplete
        cases hcomplete
    | some found =>
      have hnamed : w.named s sid = takenOver found.1 := by rw [Restart.named, hfound]; rfl
      have hcomplete : w.Returns s sid r.status ↔ found.1 = "complete" := by
        rw [Restart.Returns, hfound]
        refine (and_iff_right hc).trans ⟨?_, fun h => ⟨found.2, ?_⟩⟩
        · rintro ⟨progress, ⟨⟩⟩
          rfl
        · rw [← h]
      dsimp only
      rw [reconcileTarget_takenOver]
      refine ⟨fun t h => ?_, fun _ hreturns hannotating => ?_, fun hno hkept => ?_⟩
      · have htaken : takenOver found.1 = some t := hnamed ▸ h.2
        have hopen : found.1 ≠ "complete" := by
          intro h
          rw [h, show takenOver "complete" = none by decide +kernel] at htaken
          cases htaken
        rw [if_neg fun h => hopen h.1, htaken, Option.getD_some]
      · rw [if_pos ⟨hcomplete.mp hreturns, hannotating⟩]
      · rw [if_neg fun h => hkept ⟨hcomplete.mpr h.1, h.2⟩]
        cases htaken : takenOver found.1 with
        | none => rfl
        | some t => exact absurd ⟨hc, hnamed.trans htaken⟩ (hno t)
  · rw [if_neg (hcandidate.not.mpr hc)]
    exact ⟨fun t h => absurd h.1 hc, fun _ h => absurd h.1 hc, fun _ _ => rfl⟩

/-- A session that a scan finds past its retention. -/
theorem mem_listIncompleteBefore_iff (h : Named s) (hr : s.sessions sid = .record r) (expired : String → Bool)
    (keys : List String) :
    sid ∈ listIncompleteBefore s expired keys ↔
      r.status = .incomplete ∧ sid ∈ keys ∧ expired sid = true ∧ sid ≠ "" := by
  rw [mem_listIncompleteBefore]
  constructor
  · rintro ⟨key, hkey, found, hentry, rfl, hstatus, hexpired, hne⟩
    rw [h key found hentry] at hr hne ⊢
    obtain rfl := Entry.record.inj (hentry.symm.trans hr)
    exact ⟨hstatus, hkey, hexpired, hne⟩
  · rintro ⟨hstatus, hkey, hexpired, hne⟩
    exact ⟨sid, hkey, r, hr, h sid r hr, hstatus, hexpired, hne⟩

theorem purgeRecord_absent (hgone : s.sessions sid = .absent) (ids : List String) :
    (ids.foldl Startup.purgeRecord s).sessions sid = .absent := by
  obtain h | h := purgeRecord_fold sid ids s
  · exact h.trans hgone
  · exact h

theorem purgeRecord_gone (ids : List String) (hmem : sid ∈ ids) (hne : sid ≠ "")
    (hr : s.sessions sid = .record r) : (ids.foldl Startup.purgeRecord s).sessions sid = .absent := by
  induction ids generalizing s with
  | nil => cases hmem
  | cons id ids ih =>
    rw [List.foldl_cons]
    by_cases hid : sid = id
    · subst hid
      refine purgeRecord_absent ?_ ids
      rw [Startup.purgeRecord, (s.get_eq_ok sid r).mpr hr]
      dsimp only
      rw [Redis.deleteSession, if_neg hne]
      exact Function.update_self _ _ _
    · refine ih ((List.mem_cons.mp hmem).resolve_left hid) ?_
      exact ((onlyAt_purgeRecord s id).sessions sid hid).trans hr

/-- The retention sweep keeps a record or removes it. -/
theorem retention_record (h : Named s) (hr : s.sessions sid = .record r) :
    (w.sweeping.retentionSweep s).sessions sid =
      if r.status = .incomplete ∧ sid ∈ w.keys ∧ w.expired sid = true ∧ sid ≠ "" then .absent
      else .record r := by
  have hlisted := mem_listIncompleteBefore_iff h hr w.expired w.keys
  split
  · rename_i hpast
    exact purgeRecord_gone _ (hlisted.mpr hpast) hpast.2.2.2 hr
  · rename_i hkept
    exact (fold_elsewhere onlyAt_purgeRecord _ s (hlisted.not.mpr hkept)).1.trans hr

end Sweeps

section Property

variable {redis : Redis} {sid : String} {r : SessionRecord} (w : Restart)

/-- The status that the sweeps give a session, and whether the session is past its retention. -/
structure Ends (redis : Redis) (sid : String) (r : SessionRecord) (status : SessionStatus) : Prop where
  swept : ∃ mid, (¬ w.Swept redis sid → mid = r.status) ∧
    (w.Swept redis sid →
      (w.Restores sid → mid = SessionStatus.pendingAnnotation) ∧ (¬ w.Restores sid → mid = .incomplete)) ∧
    Reconciles w redis sid r.status mid status
  stored : ∃ r', r'.status = status ∧ (w.run redis).sessions sid =
    if status = .incomplete ∧ sid ∈ w.keys ∧ w.expired sid = true ∧ sid ≠ "" then .absent else .record r'

theorem ends (h : Named redis) (hr : redis.sessions sid = .record r) : ∃ status, Ends w redis sid r status := by
  obtain ⟨⟨r', hr', hstays, hmoves⟩, hcandidate⟩ := sweptTo w hr
  obtain ⟨r'', hr'', hreconciles⟩ := reconciles w hr hr' hcandidate
  refine ⟨r''.status, ⟨r'.status, hstays, hmoves, hreconciles⟩, r'', rfl, ?_⟩
  have hclean : Named (cleanupStaleIndex redis) := h
  have hswept := hclean.fold (onlyAt_sweepActive w.sweeping) ((cleanupStaleIndex redis).index .active)
  exact retention_record w (hswept.fold (onlyAt_reconcile (w.reconciling (cleanupStaleIndex redis))) _) hr''

theorem record_fold {f : Redis → String → Redis} (hf : ∀ s sid, OnlyAt s (f s sid) sid) (ids : List String)
    {r' : SessionRecord} (hr' : (ids.foldl f redis).sessions sid = .record r') :
    ∃ r, redis.sessions sid = .record r := by
  induction ids generalizing redis with
  | nil => exact ⟨r', hr'⟩
  | cons id ids ih =>
    obtain ⟨r, hr⟩ := ih hr'
    by_cases hid : sid = id
    · subst hid
      obtain ⟨r₀, hr₀, -⟩ := (hf redis sid).record r hr
      exact ⟨r₀, hr₀⟩
    · exact ⟨r, ((hf redis id).sessions sid hid).symm.trans hr⟩

/-- The sweeps bring no session back. -/
theorem record_before {r' : SessionRecord} (hr' : (w.run redis).sessions sid = .record r') :
    ∃ r, redis.sessions sid = .record r := by
  obtain ⟨_, hreconciled⟩ := record_fold onlyAt_purgeRecord _ hr'
  obtain ⟨_, hswept⟩ := record_fold (onlyAt_reconcile (w.reconciling (cleanupStaleIndex redis))) _ hreconciled
  obtain ⟨r, hr⟩ := record_fold (onlyAt_sweepActive w.sweeping) _ hswept
  exact ⟨r, hr⟩

/-- The status that the sweeps give a session is one that it may be left with. -/
structure Fine (redis : Redis) (sid : String) (r : SessionRecord) (status : SessionStatus) : Prop where
  settled : status ≠ .active ∧ status ≠ .reasoningDegraded
  complete : w.Complete sid → status ≠ .incomplete
  claimed : redis.claims sid ≠ none → status = r.status
  retained : redis.claims sid ≠ none → r.status = .incomplete →
    ¬ (sid ∈ w.keys ∧ w.expired sid = true ∧ sid ≠ "")

theorem repaired_iff_fine (h : Named redis) :
    Repaired w redis (w.run redis) ↔
      ∀ sid r status, redis.sessions sid = .record r → Ends w redis sid r status →
        Fine w redis sid r status := by
  constructor
  · rintro ⟨hsettled, hcomplete, hclaimed⟩ sid r status hr ⟨-, r', rfl, hstored⟩
    refine ⟨?_, fun hwhole => ?_, fun hheld => ?_, fun hheld hstatus hpast => ?_⟩
    · by_cases hincomplete : r'.status = .incomplete
      · rw [hincomplete]
        exact ⟨nofun, nofun⟩
      · rw [if_neg fun h => hincomplete h.1] at hstored
        exact hsettled sid r' hstored
    · obtain ⟨r'', hr'', -, -, hpost⟩ := hcomplete sid r hr hwhole
      rw [hr''] at hstored
      split at hstored
      · cases hstored
      · cases hstored
        exact hpost
    · obtain ⟨r'', hr'', hsame⟩ := hclaimed sid r hr hheld
      rw [hr''] at hstored
      split at hstored
      · cases hstored
      · cases hstored
        exact hsame
    · obtain ⟨r'', hr'', hsame⟩ := hclaimed sid r hr hheld
      rw [hr''] at hstored
      split at hstored
      · cases hstored
      · rename_i hkept
        cases hstored
        exact hkept ⟨hsame.trans hstatus, hpast⟩
  · intro hfine
    have hall : ∀ sid r, redis.sessions sid = .record r → ∃ r', Fine w redis sid r r'.status ∧
        (w.run redis).sessions sid =
          if r'.status = .incomplete ∧ sid ∈ w.keys ∧ w.expired sid = true ∧ sid ≠ "" then .absent
          else .record r' := by
      intro sid r hr
      obtain ⟨status, hends⟩ := ends w h hr
      obtain ⟨r', rfl, hstored⟩ := hends.stored
      exact ⟨r', hfine sid r _ hr hends, hstored⟩
    refine ⟨fun sid r' hr' => ?_, fun sid r hr hwhole => ?_, fun sid r hr hheld => ?_⟩
    · obtain ⟨r, hr⟩ := record_before w hr'
      obtain ⟨r'', hgood, hstored⟩ := hall sid r hr
      rw [hr'] at hstored
      split at hstored
      · cases hstored
      · cases hstored
        exact hgood.settled
    · obtain ⟨r', hgood, hstored⟩ := hall sid r hr
      have hpost := hgood.complete hwhole
      rw [if_neg fun h => hpost h.1] at hstored
      exact ⟨r', hstored, hgood.settled.1, hgood.settled.2, hpost⟩
    · obtain ⟨r', hgood, hstored⟩ := hall sid r hr
      have hsame := hgood.claimed hheld
      rw [if_neg fun h => hgood.retained hheld (hsame.symm.trans h.1) h.2] at hstored
      exact ⟨r', hstored, hsame⟩

theorem takenOver_ne_active {metadataStatus : String} {status : SessionStatus}
    (h : takenOver metadataStatus = some status) : status ≠ .active := by
  rintro rfl
  have hmem := List.mem_of_find?_eq_some h
  revert hmem
  decide

theorem named_ne_active {status : SessionStatus} (h : w.named redis sid = some status) : status ≠ .active := by
  obtain ⟨found, -, htaken⟩ := Option.bind_eq_some_iff.mp h
  exact takenOver_ne_active htaken

theorem fine_iff {status : SessionStatus} (h : Ends w redis sid r status) :
    Fine w redis sid r status ↔ Repairable w redis sid r := by
  obtain ⟨⟨mid, hstays, hmoves, hreconciles⟩, -⟩ := h
  by_cases hfollows : ∃ t, w.Follows redis sid r.status t
  · -- The metadata names the status.
    obtain ⟨t, ht⟩ := hfollows
    obtain rfl := hreconciles.followed t ht
    have hactive := named_ne_active w ht.2
    constructor
    · rintro ⟨⟨-, hdegraded⟩, hcomplete, hclaimed, hretained⟩
      refine ⟨fun t' ht' => ?_, fun hno => absurd ht (hno _), fun hno => absurd ht (hno _), hretained⟩
      obtain rfl := Option.some.inj (ht.2.symm.trans ht'.2)
      exact ⟨hdegraded, hcomplete, fun hheld => (hclaimed hheld).symm⟩
    · rintro ⟨hfollowed, -, -, hretained⟩
      obtain ⟨hdegraded, hcomplete, hclaimed⟩ := hfollowed _ ht
      exact ⟨⟨hactive, hdegraded⟩, hcomplete, fun hheld => (hclaimed hheld).symm, hretained⟩
  have hno : ∀ t, ¬ w.Follows redis sid r.status t := fun t ht => hfollows ⟨t, ht⟩
  by_cases hswept : w.Swept redis sid
  · -- The startup sweep decides the status.
    obtain ⟨hrestored, hdemoted⟩ := hmoves hswept
    by_cases hrestores : w.Restores sid
    · obtain rfl := hrestored hrestores
      obtain rfl := hreconciles.kept hno fun h => (by cases h.2)
      constructor
      · rintro ⟨-, -, hclaimed, hretained⟩
        refine ⟨fun t ht => absurd ht (hno t), fun _ _ => ⟨fun _ => hrestores, fun hheld => ?_⟩,
          fun _ h => absurd hswept h, hretained⟩
        exact ⟨fun _ => (hclaimed hheld).symm, fun h => absurd hrestores h⟩
      · rintro ⟨-, hdecided, -, hretained⟩
        obtain ⟨-, hclaimed⟩ := hdecided hno hswept
        exact ⟨⟨nofun, nofun⟩, fun _ => nofun, fun hheld => ((hclaimed hheld).1 hrestores).symm, hretained⟩
    · obtain rfl := hdemoted hrestores
      obtain rfl := hreconciles.kept hno fun h => (by cases h.2)
      constructor
      · rintro ⟨-, hcomplete, hclaimed, hretained⟩
        refine ⟨fun t ht => absurd ht (hno t), fun _ _ => ⟨fun h => absurd rfl (hcomplete h), fun hheld => ?_⟩,
          fun _ h => absurd hswept h, hretained⟩
        exact ⟨fun h => absurd h hrestores, fun _ => (hclaimed hheld).symm⟩
      · rintro ⟨-, hdecided, -, hretained⟩
        obtain ⟨hcomplete, hclaimed⟩ := hdecided hno hswept
        exact ⟨⟨nofun, nofun⟩, fun h => absurd (hcomplete h) hrestores,
          fun hheld => ((hclaimed hheld).2 hrestores).symm, hretained⟩
  · -- The session keeps its status, unless its annotation is interrupted.
    obtain rfl := hstays hswept
    by_cases hreturns : w.Returns redis sid r.status ∧ r.status = .annotating
    · obtain ⟨hreturned, hannotating⟩ := hreturns
      obtain rfl := hreconciles.returned hno hreturned hannotating
      constructor
      · rintro ⟨-, -, hclaimed, hretained⟩
        refine ⟨fun t ht => absurd ht (hno t), fun _ h => absurd h hswept, fun _ _ => ?_, hretained⟩
        rw [hannotating] at hclaimed ⊢
        exact ⟨nofun, nofun, fun _ => nofun, fun hheld => absurd (hclaimed hheld) nofun⟩
      · rintro ⟨-, -, hkept, hretained⟩
        obtain ⟨-, -, -, hclaimed⟩ := hkept hno hswept
        exact ⟨⟨nofun, nofun⟩, fun _ => nofun,
          fun hheld => absurd hannotating (hclaimed hheld hreturned), hretained⟩
    · obtain rfl := hreconciles.kept hno hreturns
      constructor
      · rintro ⟨⟨hactive, hdegraded⟩, hcomplete, -, hretained⟩
        refine ⟨fun t ht => absurd ht (hno t), fun _ h => absurd h hswept, fun _ _ => ?_, hretained⟩
        exact ⟨hactive, hdegraded, hcomplete, fun _ hreturned hannotating => hreturns ⟨hreturned, hannotating⟩⟩
      · rintro ⟨-, -, hkept, hretained⟩
        obtain ⟨hactive, hdegraded, hcomplete, -⟩ := hkept hno hswept
        exact ⟨⟨hactive, hdegraded⟩, hcomplete, fun _ => rfl, hretained⟩

/-- The sweeps of a restart repair the registry exactly if they find what they need for every
session. -/
theorem repaired_iff (h : Named redis) :
    Repaired w redis (w.run redis) ↔ ∀ sid r, redis.sessions sid = .record r → Repairable w redis sid r := by
  rw [repaired_iff_fine w h]
  constructor
  · intro hfine sid r hr
    obtain ⟨status, hends⟩ := ends w h hr
    exact (fine_iff w hends).mp (hfine sid r status hr hends)
  · intro hall sid r status hr hends
    exact (fine_iff w hends).mpr (hall sid r hr)

end Property

theorem named_write (redis : Redis) (write : Write) (h : Named redis) : Named (write.apply redis) := by
  intro sid r' hr'
  obtain ⟨r, hr, hrevised⟩ | ⟨-, hsid⟩ := write.record_cases hr'
  · exact hrevised.sessionId.trans (h sid r hr)
  · exact hsid

/-- What a run leaves when it stops has each record under its own id. -/
theorem named_run (server : Server) (is : List SystemInput) :
    Named (run System.step (.start server) is).server.redis := by
  have hstart : Named (System.start server).server.redis := fun _ _ hr => by cases hr
  exact kept_run (fun _ redis write h _ => named_write redis write h) _ is hstart

/-- A restart in local mode after a capture that was stopped. -/
def leftBehind (m : Capture.SessionMetadata) : Restart where
  cloudPrimary := false
  kafkaBroker := false
  cloud _ := none
  disk _ := some (m.status, m.inProgress)
  recovers _ := false
  renamed _ := none
  expired _ := false
  keys := []

def capturing : Restart := leftBehind (Capture.SessionMetadata.initial.setInProgress "capturing")

/-- The reasoning of a session degrades while it is recorded. -/
def degradedCapture : List SystemInput :=
  [.operator lifecycleEnv (.registerSession ⟨"automated", "demo", none, none, "", ""⟩),
    .operator lifecycleEnv (.startWatch "s1"), .connect "s1" 0 true,
    .operator lifecycleEnv (.reasoningDegraded "s1" 1)]

def capturedRecord (status : SessionStatus) : SessionRecord where
  sessionId := "s1"
  mode := .automated
  status := status
  memoryName := "demo"
  memoryPath := "/memories/demo"
  createdAt := "2026-02-25T12:58:04+00:00"
  totalSteps := 0
  annotatedSteps := 0
  skippedSteps := 0
  tenantId := ""
  storageBackend := "local"

theorem degraded_capture_stays :
    ¬ Repaired capturing (run System.step (.start (sampleServer [])) degradedCapture).server.redis
      (capturing.run (run System.step (.start (sampleServer [])) degradedCapture).server.redis) := by
  intro h
  have hstays : (capturing.run
      (run System.step (.start (sampleServer [])) degradedCapture).server.redis).sessions "s1" =
        .record (capturedRecord .reasoningDegraded) := by
    decide +kernel
  exact (h.settled "s1" _ hstays).2 rfl

/-- A registry with one session. -/
def oneSession (r : SessionRecord) : Redis where
  sessions sid := if sid = r.sessionId then .record r else .absent
  index status := if status = r.status then [r.sessionId] else []
  claims _ := none
  annotators _ := none

theorem repaired_iff_sample :
    Repaired capturing (oneSession (capturedRecord .active))
      (capturing.run (oneSession (capturedRecord .active))) := by
  have hone : ∀ sid r, (oneSession (capturedRecord .active)).sessions sid = .record r →
      sid = "s1" ∧ r = capturedRecord .active := by
    intro sid r hr
    change (if sid = "s1" then Entry.record (capturedRecord .active) else .absent) = .record r at hr
    split at hr
    · rename_i hsid
      exact ⟨hsid, (Entry.record.inj hr).symm⟩
    · cases hr
  have hnamed : Named (oneSession (capturedRecord .active)) := by
    intro sid r hr
    obtain ⟨rfl, rfl⟩ := hone sid r hr
    rfl
  refine (repaired_iff capturing hnamed).mpr fun sid r hr => ?_
  obtain ⟨rfl, rfl⟩ := hone sid r hr
  have hnone : takenOver "active" = none := by decide +kernel
  have hdecided : ¬ capturing.Skips "s1" := by
    rintro ⟨status, value, hread, -, hother, -⟩
    obtain rfl := Option.some.inj (congrArg Prod.snd (Option.some.inj hread))
    exact hother rfl
  have hswept : capturing.Swept (oneSession (capturedRecord .active)) "s1" :=
    ⟨List.mem_singleton_self _, hdecided⟩
  refine ⟨fun t ht => ?_, fun _ _ => ⟨?_, fun h => absurd rfl h⟩, fun _ h => absurd hswept h,
    fun h => absurd rfl h⟩
  · cases hnone.symm.trans ht.2
  · rintro ⟨progress, hcomplete⟩
    have hactive : "active" = "complete" := congrArg Prod.fst (Option.some.inj hcomplete)
    exact absurd hactive (by decide)

end MemoryArchive.Ipc.Repair
