import MemoryArchive.Capture.KafkaPosition
import MemoryArchive.Registry.Reconcile

namespace MemoryArchive.Capture

open Registry (SessionStatus reconcileTarget activeSweepRestoreTarget)
open Runs

/-- A record of a partition. It has an event when it is a command event of the
session at hand. -/
structure KafkaRecord where
  offset : Int64
  event : Option CommandEvent
  deriving DecidableEq

/-- The events of some records, and the step events among them. -/
def recordEvents (rs : List KafkaRecord) : List (Int64 × CommandEvent) :=
  rs.filterMap fun r => r.event.map fun e => (r.offset, e)

def stepEvents (rs : List KafkaRecord) : List (Int64 × CommandEvent) :=
  (recordEvents rs).filter fun e => e.2.actionType ≠ "position"

/-- What one poll of the recovery consumer gives. -/
inductive Poll
  | timeout
  | error
  | message (r : KafkaRecord)
  deriving DecidableEq

inductive ReplayEnd
  | watermark | error
  deriving DecidableEq

/-- The replay loop: the events it sends and how it ends. It goes on as long as
the polls give no reason to end. -/
def replayLoop (highWatermark : Int64) : Int64 → List Poll → Option (List (Int64 × CommandEvent) × ReplayEnd)
  | _, [] => none
  | lastSeen, .timeout :: polls =>
      if highWatermark - 1 ≤ lastSeen then some ([], .watermark)
      else replayLoop highWatermark lastSeen polls
  | _, .error :: _ => some ([], .error)
  | _, .message r :: polls =>
      let sent := recordEvents [r]
      if highWatermark - 1 ≤ r.offset then some (sent, .watermark)
      else (replayLoop highWatermark r.offset polls).map fun p => (sent ++ p.1, p.2)

/-- `replay_session_events` after its consumer is there. -/
def replaySessionEvents (startOffset highWatermark : Int64) (polls : List Poll) :
    Option (List (Int64 × CommandEvent) × ReplayEnd) :=
  if highWatermark ≤ startOffset then some ([], .watermark)
  else replayLoop highWatermark (startOffset - 1) polls

def SessionMetadata.markRecovered (m : SessionMetadata) : SessionMetadata :=
  { m with status := "pending_annotation", inProgress := none }

/-- The step that the recovery appends for an event. -/
def SessionMetadata.replayEvent (ctx : Context) (part : Int32) (m : SessionMetadata)
    (e : Int64 × CommandEvent) : SessionMetadata :=
  if e.2.actionType = "position" then m
  else (m.appendStep (stepEntry ctx (m.totalSteps + 1) e.2)).updateKafkaPosition (some (part, e.1))

/-- What a startup meets: whether the session is degraded in the registry,
whether its stored metadata can be read, a local copy from the registration, the
consumer of a replay, its polls, and whether the recovered metadata is stored. -/
structure Startup where
  degraded : Bool
  readable : Bool
  leftover : Bool
  consumer : Bool
  highWatermark : Int64
  polls : List Poll
  flushed : Bool

/-- A session after the startup. -/
structure Settled where
  status : SessionStatus
  stored : Option SessionMetadata

namespace Startup

variable (st : Startup)

/-- The metadata that the startup sweep reads. -/
def readMetadata (stored : Option SessionMetadata) : Option SessionMetadata :=
  if st.readable then stored else if st.leftover then some .initial else none

/-- The recovery of an interrupted session. Without a result it goes on. -/
def recover (ctx : Context) (m : SessionMetadata) (part : Int32) (offset : Int64)
    (stored : Option SessionMetadata) : Option Settled :=
  if st.consumer then
    (replaySessionEvents (offset + 1) st.highWatermark st.polls).map fun (events, _) =>
      if st.flushed then
        { status := SessionStatus.pendingAnnotation
          stored := some (events.foldl (SessionMetadata.replayEvent ctx part) m).markRecovered }
      else ⟨.incomplete, stored⟩
  else some ⟨.incomplete, stored⟩

/-- The startup sweep for an active session on Kafka. -/
def sweep (ctx : Context) (stored : Option SessionMetadata) : Option Settled :=
  match st.readMetadata stored with
  | none => some ⟨.incomplete, stored⟩
  | some m =>
      match activeSweepRestoreTarget m.status with
      | some status => some ⟨status, stored⟩
      | none =>
          match m.inProgress with
          | none => some ⟨.incomplete, stored⟩
          | some value =>
              if value = "interrupted" then
                match m.kafkaPartition, m.kafkaOffset with
                | some part, some offset => st.recover ctx m part offset stored
                | _, _ => some ⟨.incomplete, stored⟩
              else if value = "capturing" then some ⟨.incomplete, stored⟩
              else some ⟨.active, stored⟩

/-- The reconcile sweep for a degraded session. -/
def reconcile (stored : Option SessionMetadata) : Settled :=
  match (if st.readable then stored else none) with
  | none => ⟨.reasoningDegraded, stored⟩
  | some m => ⟨(reconcileTarget .reasoningDegraded m.status).getD .reasoningDegraded, stored⟩

def run (ctx : Context) (stored : Option SessionMetadata) : Option Settled :=
  if st.degraded then some (st.reconcile stored) else st.sweep ctx stored

end Startup

/-- A session in its first watch, with the records of its partition that the
watch has not come to yet. A signal handler has read the metadata it will put. -/
structure Capturing where
  watch : KafkaWatch
  rest : List KafkaRecord
  fetched : Option SessionMetadata

inductive CaptureInput
  | connect (flushed : Bool)
  | take (now : Text) (image : Vision) (flushed : Bool) (fault : Option Nat)
  | done
  | leave (doneCleanly : Bool)
  | finish (fault : Option Nat) (flushed : Bool)
  | signalRead
  | signalPut (stored : Bool)

namespace Capturing

def start (ctx : Context) (log : List KafkaRecord) : Capturing :=
  ⟨.start ctx .initial (fun _ => none) .new, log, none⟩

/-- The consumer passes the next record on if it is an event of the session. -/
def take (ctx : Context) (part : Int32) (c : Capturing) (now : Text) (image : Vision) (flushed : Bool)
    (fault : Option Nat) : Capturing :=
  match c.watch.running, c.rest with
  | some _, r :: rest =>
      match r.event with
      | none => { c with rest := rest }
      | some e =>
          { c with
            watch := c.watch.step ctx
              (.deliver part r.offset ⟨e, now, fun _ => none, image, none, flushed, fault⟩)
            rest := rest }
  | _, _ => c

/-- The shutdown signal flags the sessions whose done handle is there. The loop
goes on until the program exits. -/
def step (ctx : Context) (part : Int32) (c : Capturing) : CaptureInput → Capturing
  | .connect flushed => { c with watch := c.watch.step ctx (.connect flushed) }
  | .take now image flushed fault => c.take ctx part now image flushed fault
  | .done => { c with watch := c.watch.step ctx .done }
  | .leave doneCleanly => { c with watch := c.watch.step ctx (.leave doneCleanly) }
  | .finish fault flushed => { c with watch := c.watch.step ctx (.finish fault flushed) }
  | .signalRead =>
      if c.watch.session.handle.isSome then { c with fetched := c.watch.session.stored } else c
  | .signalPut stored =>
      match c.fetched with
      | some m =>
          if stored then { c with watch.session.stored := some (m.setInProgress "interrupted") } else c
      | none => c

end Capturing

/-- The steps of some events, with the ids from 1 on. -/
def numberedSteps (ctx : Context) (es : List CommandEvent) : List StepEntry :=
  (es.zipIdx 1).map fun (e, n) => stepEntry ctx (.ofNat n) e

/-- A command file lists just these events. -/
def ListsAll (ctx : Context) (file : CommandFile) (content : Option Text) (es : List CommandEvent) : Prop :=
  ∃ ws : List Written, ws.map Written.event = es ∧
    (∀ w ∈ ws, w.converted = (ctx.toHumanReadable w.event).toList) ∧
    (content.getD [] = fileText ctx.toCcCommand file ws ∨
      ∃ values, fileValues ctx.toCcCommand file ws = some values ∧ content = some (arrayText values))

/-- The step events of the session: those taken before a Done that was carried
through, and without one those of its partition. -/
def sessionEvents (log : List KafkaRecord) (c : Capturing) (m : SessionMetadata) : List CommandEvent :=
  if m.status = "complete" then c.watch.delivered.map fun d => d.written.event
  else (stepEvents log).map Prod.snd

/-- The startup leaves the session pending annotation with all its step events in
the metadata and in every command file, or incomplete with what was stored. A
replay that an error ended is not reported. -/
def RecoversExactly (ctx : Context) (log : List KafkaRecord) (c : Capturing) (st : Startup) : Prop :=
  ∃ settled, st.run ctx c.watch.session.stored = some settled ∧
    (settled = ⟨.incomplete, c.watch.session.stored⟩ ∨
      ∃ m m', st.readMetadata c.watch.session.stored = some m ∧ settled = Settled.mk SessionStatus.pendingAnnotation (some m') ∧
        m'.steps.map StepEntry.bare = numberedSteps ctx (sessionEvents log c m) ∧
        (∀ file, ListsAll ctx file (c.watch.session.files file) (sessionEvents log c m)) ∧
        (m.status ≠ "complete" → ∀ offset, m.kafkaOffset = some offset → ∀ events,
          replaySessionEvents (offset + 1) st.highWatermark st.polls ≠ some (events, .error)))

/-- Where the startup reports a session as pending annotation, every command file
lists the events of the session before it, and the replay ends at the watermark.
A degraded session is one that was cut off. -/
def Recoverable (ctx : Context) (log : List KafkaRecord) (c : Capturing) (st : Startup) : Prop :=
  if st.degraded then
    st.readable = true ∧ ∃ m, c.watch.session.stored = some m ∧ m.status = "incomplete"
  else
    ∀ m, st.readMetadata c.watch.session.stored = some m →
      if m.status = "complete" then
        ∀ file, ListsAll ctx file (c.watch.session.files file) (sessionEvents log c m)
      else ∀ part offset, m.inProgress = some "interrupted" → m.kafkaPartition = some part →
        m.kafkaOffset = some offset → st.consumer = true →
          ∃ events ending,
            replaySessionEvents (offset + 1) st.highWatermark st.polls = some (events, ending) ∧
            (st.flushed = true → ending = .watermark ∧
              ∀ file, ListsAll ctx file (c.watch.session.files file) (sessionEvents log c m))

theorem succ_le_iff {o b r : Int64} (h : o < b) : o + 1 ≤ r ↔ o < r := by
  rw [Int64.le_iff_toInt_le, Int64.lt_iff_toInt_lt, Int64.toInt_add]
  rw [Int64.lt_iff_toInt_lt] at h
  have hb := Int64.toInt_lt b
  have ho := Int64.le_toInt o
  have hone : (1 : Int64).toInt = 1 := rfl
  rw [hone, Int.bmod_eq_of_le] <;> omega

theorem toInt_pred {a w : Int64} (h : a < w) : (w - 1).toInt = w.toInt - 1 := by
  rw [Int64.lt_iff_toInt_lt] at h
  have hw := Int64.toInt_lt w
  have ha := Int64.le_toInt a
  have hone : (1 : Int64).toInt = 1 := rfl
  rw [Int64.toInt_sub, hone, Int.bmod_eq_of_le] <;> omega

theorem not_pred_le {r s w : Int64} (hr : r < s) (hs : s < w) : ¬ w - 1 ≤ r := by
  rw [Int64.le_iff_toInt_le, toInt_pred hs]
  rw [Int64.lt_iff_toInt_lt] at hr hs
  omega

section Replay

/-- The records that the polls of a replay give. -/
def polledRecords (polls : List Poll) : List KafkaRecord :=
  polls.filterMap fun
    | .message r => some r
    | .timeout | .error => none

theorem recordEvents_cons (r : KafkaRecord) (rs : List KafkaRecord) :
    recordEvents (r :: rs) = recordEvents [r] ++ recordEvents rs := by
  change recordEvents ([r] ++ rs) = _
  exact List.filterMap_append

/-- A replay that ends at the watermark has sent the events of the first records,
and the last of them is at the watermark. -/
theorem replayLoop_watermark {highWatermark lastSeen : Int64} {polls : List Poll}
    {events : List (Int64 × CommandEvent)} (hseen : ¬ highWatermark - 1 ≤ lastSeen)
    (h : replayLoop highWatermark lastSeen polls = some (events, .watermark)) :
    ∃ rs r, rs ++ [r] <+: polledRecords polls ∧ events = recordEvents (rs ++ [r]) ∧
      highWatermark - 1 ≤ r.offset := by
  induction polls generalizing lastSeen events with
  | nil => cases h
  | cons poll polls ih =>
    cases poll with
    | timeout =>
      rw [replayLoop, if_neg hseen] at h
      exact ih hseen h
    | error =>
      rw [replayLoop] at h
      cases h
    | message r =>
      rw [replayLoop] at h
      split at h
      · rename_i hlast
        cases h
        exact ⟨[], r, ⟨polledRecords polls, rfl⟩, rfl, hlast⟩
      · rename_i hmore
        rw [Option.map_eq_some_iff] at h
        obtain ⟨⟨sent, ending⟩, hrest, he⟩ := h
        cases he
        obtain ⟨rs, last, hpolled, rfl, hlast⟩ := ih hmore hrest
        refine ⟨r :: rs, last, ?_, ?_, hlast⟩
        · exact List.cons_prefix_cons.mpr ⟨rfl, hpolled⟩
        · exact (recordEvents_cons r (rs ++ [last])).symm

theorem offset_recordEvents {rs : List KafkaRecord} {e : Int64 × CommandEvent} (h : e ∈ recordEvents rs) :
    ∃ r ∈ rs, r.offset = e.1 := by
  obtain ⟨r, hr, he⟩ := List.mem_filterMap.mp h
  obtain ⟨event, -, rfl⟩ := Option.map_eq_some_iff.mp he
  exact ⟨r, hr, rfl⟩

theorem recordEvents_filter (p : Int64 → Bool) (rs : List KafkaRecord) :
    recordEvents (rs.filter fun r => p r.offset) = (recordEvents rs).filter fun e => p e.1 := by
  induction rs with
  | nil => rfl
  | cons r rs ih =>
    rw [recordEvents_cons, List.filter_append, ← ih, List.filter_cons]
    by_cases hp : p r.offset = true
    · rw [if_pos hp, recordEvents_cons]
      congr 1
      cases he : r.event <;> simp [recordEvents, he, hp]
    · rw [if_neg hp]
      cases he : r.event <;> simp [recordEvents, he, hp]

/-- The records of a partition are in order, and below the high watermark. The
polls of a replay give them from its first offset on. -/
structure Serves (log : List KafkaRecord) (stored : Option SessionMetadata) (st : Startup) : Prop where
  increasing : log.Pairwise fun r r' => r.offset < r'.offset
  below : ∀ r ∈ log, r.offset < st.highWatermark
  served : ∀ m offset, stored = some m → m.kafkaOffset = some offset →
    polledRecords st.polls <+: log.filter fun r => offset + 1 ≤ r.offset

/-- A replay that ends at the watermark has sent all events after its offset. -/
theorem replay_complete {log : List KafkaRecord} {polls : List Poll} {highWatermark offset : Int64}
    {events : List (Int64 × CommandEvent)} (hlog : log.Pairwise fun r r' => r.offset < r'.offset)
    (hbelow : ∀ r ∈ log, r.offset < highWatermark) (hoffset : offset < highWatermark)
    (hserved : polledRecords polls <+: log.filter fun r => offset + 1 ≤ r.offset)
    (h : replaySessionEvents (offset + 1) highWatermark polls = some (events, .watermark)) :
    events = (recordEvents log).filter fun e => offset < e.1 := by
  have htail : ∀ rs : List KafkaRecord, recordEvents (rs.filter fun r => offset + 1 ≤ r.offset) =
      (recordEvents rs).filter fun e => offset < e.1 := by
    intro rs
    rw [recordEvents_filter fun o => decide (offset + 1 ≤ o)]
    refine List.filter_congr fun e _ => ?_
    simp [succ_le_iff hoffset]
  rw [← htail]
  rw [replaySessionEvents] at h
  split at h
  · rename_i hnone
    cases h
    have hempty : (log.filter fun r => offset + 1 ≤ r.offset) = [] := by
      refine List.filter_eq_nil_iff.mpr fun r hr => ?_
      have hlt : r.offset < offset + 1 := Int64.lt_of_lt_of_le (hbelow r hr) hnone
      simpa using hlt
    rw [hempty]
    rfl
  · rename_i hsome
    have hnext : offset < offset + 1 := (succ_le_iff hoffset).mp (Int64.le_refl _)
    have hseen : ¬ highWatermark - 1 ≤ offset + 1 - 1 := by
      rw [Int64.add_sub_cancel]
      exact not_pred_le hnext (Int64.not_le.mp hsome)
    obtain ⟨rs, r, hpolled, rfl, hlast⟩ := replayLoop_watermark hseen h
    obtain ⟨rest, hrest⟩ := hpolled.trans hserved
    cases rest with
    | nil => rw [← hrest, List.append_nil]
    | cons r' rest =>
      -- A record after the last one would be at the watermark or above it.
      have hpairs := hlog.filter fun r => decide (offset + 1 ≤ r.offset)
      rw [← hrest, List.append_assoc] at hpairs
      have hlt : r.offset < r'.offset := by
        have hmid := (List.pairwise_append.mp hpairs).2.1
        exact List.rel_of_pairwise_cons hmid (by simp)
      have hmem : r' ∈ log := by
        have hin : r' ∈ log.filter fun r => offset + 1 ≤ r.offset := by rw [← hrest]; simp
        exact List.mem_of_mem_filter hin
      exact absurd hlast (not_pred_le hlt (hbelow r' hmem))

end Replay
section Steps

variable {ctx : Context} {m : SessionMetadata} {es : List CommandEvent}

/-- The metadata has the steps of some events, with the ids from 1 on. -/
structure SessionMetadata.Has (ctx : Context) (m : SessionMetadata) (es : List CommandEvent) : Prop where
  steps : m.steps.map StepEntry.bare = numberedSteps ctx es
  total : m.totalSteps = .ofNat es.length

theorem numberedSteps_append (es : List CommandEvent) (e : CommandEvent) :
    numberedSteps ctx (es ++ [e]) = numberedSteps ctx es ++ [stepEntry ctx (.ofNat (es.length + 1)) e] := by
  simp [numberedSteps, List.zipIdx_append, Nat.add_comm]

theorem has_appendStep (h : m.Has ctx es) (e : CommandEvent) {stepId : UInt32}
    (hid : stepId = .ofNat (es.length + 1)) : (m.appendStep (stepEntry ctx stepId e)).Has ctx (es ++ [e]) where
  steps := by
    rw [numberedSteps_append, ← h.steps, ← hid]
    exact List.map_append
  total := by
    change m.totalSteps + 1 = _
    rw [h.total, counter_succ, List.length_append]
    rfl

theorem has_congr {m' : SessionMetadata} (h : m.Has ctx es) (hsteps : m'.steps = m.steps)
    (htotal : m'.totalSteps = m.totalSteps) : m'.Has ctx es :=
  ⟨by rw [hsteps, h.steps], by rw [htotal, h.total]⟩

theorem has_addImage (h : m.Has ctx es) (stepId : UInt32) (image : Vision) :
    (m.addImage stepId image).Has ctx es := by
  obtain ⟨hsteps, htotal⟩ := m.map_addImage StepEntry.bare (fun _ _ => rfl) stepId image
  exact ⟨hsteps.trans h.steps, htotal.trans h.total⟩

theorem has_recordEvent (h : m.Has ctx es) (input : EventInput) {stepId : UInt32}
    (hid : stepId = .ofNat (es.length + 1)) :
    (m.recordEvent ctx stepId input).Has ctx (es ++ [input.event]) := by
  refine has_addImage (has_appendStep (has_congr h ?_ ?_) input.event hid) _ _
  · exact (updateKafkaPosition_steps _).1.trans (recordAgentVersion_steps _).1
  · exact (updateKafkaPosition_steps _).2.trans (recordAgentVersion_steps _).2

/-- A replay appends the step events that it is sent. -/
theorem has_replay (h : m.Has ctx es) (part : Int32) (events : List (Int64 × CommandEvent)) :
    (events.foldl (SessionMetadata.replayEvent ctx part) m).Has ctx
      (es ++ (events.filter fun e => e.2.actionType ≠ "position").map Prod.snd) := by
  induction events generalizing m es with
  | nil => simpa using h
  | cons e events ih =>
    rw [List.foldl_cons, List.filter_cons]
    by_cases hpos : e.2.actionType = "position"
    · rw [SessionMetadata.replayEvent, if_pos hpos, if_neg (by simp [hpos])]
      exact ih h
    · have hstep : (m.replayEvent ctx part e).Has ctx (es ++ [e.2]) := by
        rw [SessionMetadata.replayEvent, if_neg hpos]
        have hid : m.totalSteps + 1 = .ofNat (es.length + 1) := by rw [h.total, counter_succ]
        exact has_congr (has_appendStep h e.2 hid) rfl rfl
      rw [if_pos (by simp [hpos]), List.map_cons, ← List.singleton_append, ← List.append_assoc]
      exact ih hstep

end Steps

open KafkaWatch

section Tracking

variable {ctx : Context} {log : List KafkaRecord} {c : Capturing}

/-- Metadata with the steps of some deliveries, and the position of the last. -/
structure Snapshot (ctx : Context) (ds : List Delivery) (m : SessionMetadata) : Prop where
  has : m.Has ctx (ds.map fun d => d.written.event)
  position : m.kafkaOffset = ds.getLast?.map Delivery.offset
  progress : m.inProgress = none ∨ m.inProgress = some "capturing" ∨ m.inProgress = some "interrupted"

/-- The metadata that a watch has not ended with a Done. -/
def Open (m : SessionMetadata) : Prop := m.status = "active" ∨ m.status = "incomplete"

/-- What is stored is a snapshot of the watch, and a last one where it says that
the recording is complete. -/
structure Tracks (ctx : Context) (log : List KafkaRecord) (c : Capturing) : Prop where
  watching : Watching ctx c.watch
  loop : ∀ l ∈ c.watch.session.loops, Snapshot ctx c.watch.delivered l.metadata ∧ Open l.metadata
  log : ∃ taken, log = taken ++ c.rest ∧
    stepEvents taken = c.watch.delivered.map fun d => (d.offset, d.written.event)
  stored : ∀ m, c.watch.session.stored = some m →
    (∃ ds, ds <+: c.watch.delivered ∧ Snapshot ctx ds m) ∧
      (Open m ∨ m.status = "complete" ∧ c.watch.session.loops = [] ∧ c.watch.session.handle = none ∧
        Snapshot ctx c.watch.delivered m)
  fetched : ∀ m, c.fetched = some m → (∃ ds, ds <+: c.watch.delivered ∧ Snapshot ctx ds m) ∧ Open m

theorem tracks_start (hcloud : ctx.isCloudPrimary = true) : Tracks ctx log (.start ctx log) where
  watching := watching_start _ _ _ hcloud
  loop l hl := by
    obtain rfl := List.mem_singleton.mp hl
    exact ⟨⟨⟨rfl, rfl⟩, rfl, .inl rfl⟩, .inl rfl⟩
  log := ⟨[], rfl, rfl⟩
  stored m hm := by
    cases hm
    exact ⟨⟨[], List.nil_prefix, ⟨⟨rfl, rfl⟩, rfl, .inl rfl⟩⟩, .inl (.inl rfl)⟩
  fetched m hm := by cases hm

/-- A step of the loop that is there, which stores a snapshot or nothing. -/
theorem Tracks.next {w' : KafkaWatch} {rest : List KafkaRecord} (h : Tracks ctx log c)
    (hlive : c.watch.session.loops ≠ []) (hwatching : Watching ctx w')
    (hgrows : c.watch.delivered <+: w'.delivered)
    (hlog : ∃ taken, log = taken ++ rest ∧
      stepEvents taken = w'.delivered.map fun d => (d.offset, d.written.event))
    (hloop : ∀ l ∈ w'.session.loops, Snapshot ctx w'.delivered l.metadata ∧ Open l.metadata)
    (hstored : w'.session.stored = c.watch.session.stored ∨
      ∃ m, w'.session.stored = some m ∧ Snapshot ctx w'.delivered m ∧
        (Open m ∨ m.status = "complete" ∧ w'.session.loops = [] ∧ w'.session.handle = none)) :
    Tracks ctx log ⟨w', rest, c.fetched⟩ where
  watching := hwatching
  loop := hloop
  log := hlog
  stored m hm := by
    obtain hsame | ⟨m', hm', hsnap, hstatus⟩ := hstored
    · obtain ⟨⟨ds, hds, hsnap⟩, hopen | ⟨-, hloops, -⟩⟩ := h.stored m (hsame ▸ hm)
      · exact ⟨⟨ds, hds.trans hgrows, hsnap⟩, .inl hopen⟩
      · exact absurd hloops hlive
    · obtain rfl : m' = m := Option.some.inj (hm'.symm.trans hm)
      refine ⟨⟨_, List.prefix_refl _, hsnap⟩, hstatus.imp id fun hc => ?_⟩
      exact ⟨hc.1, hc.2.1, hc.2.2, hsnap⟩
  fetched m hm := by
    obtain ⟨⟨ds, hds, hsnap⟩, hopen⟩ := h.fetched m hm
    exact ⟨⟨ds, hds.trans hgrows, hsnap⟩, hopen⟩

theorem Snapshot.of_same {ds : List Delivery} {m m' : SessionMetadata} (h : Snapshot ctx ds m)
    (hsteps : m'.steps = m.steps) (htotal : m'.totalSteps = m.totalSteps)
    (hoffset : m'.kafkaOffset = m.kafkaOffset)
    (hprogress : m'.inProgress = m.inProgress ∨ m'.inProgress = none ∨ m'.inProgress = some "capturing" ∨
      m'.inProgress = some "interrupted") : Snapshot ctx ds m' := by
  refine ⟨has_congr h.has hsteps htotal, hoffset.trans h.position, ?_⟩
  obtain hsame | hnew := hprogress
  · rw [hsame]
    exact h.progress
  · exact hnew

/-- The loop that is there. -/
theorem Tracks.cases (h : Tracks ctx log c) :
    c.watch.session.loops = [] ∨ ∃ l, c.watch.session.loops = [l] ∧ c.watch.session.loop? 0 = some l ∧
      l.id = 0 ∧ Takes ctx c.watch.delivered l ∧ Snapshot ctx c.watch.delivered l.metadata ∧
        Open l.metadata := by
  obtain hnone | ⟨l, hloops, hid, hl⟩ := h.watching
  · exact .inl hnone
  · obtain ⟨hsnap, hopen⟩ := h.loop l (by rw [hloops]; exact List.mem_cons_self)
    exact .inr ⟨l, hloops, loop?_some hloops hid, hid, hl, hsnap, hopen⟩

theorem live_of {l : WatchLoop} (hloops : c.watch.session.loops = [l]) : c.watch.session.loops ≠ [] := by
  rw [hloops]
  exact List.cons_ne_nil _ _

/-- The one loop of a session after a step of it. -/
theorem snapshot_setLoop {s : Session} {l k : WatchLoop} {ds : List Delivery} (hloops : s.loops = [l])
    (hid : l.id = k.id) (hk : Snapshot ctx ds k.metadata ∧ Open k.metadata) :
    ∀ j ∈ (s.setLoop k).loops, Snapshot ctx ds j.metadata ∧ Open j.metadata := by
  intro j hj
  rw [setLoop_single hloops hid] at hj
  obtain rfl := List.mem_singleton.mp hj
  exact hk

theorem tracks_connect (h : Tracks ctx log c) (part : Int32) (flushed : Bool) :
    Tracks ctx log (c.step ctx part (.connect flushed)) := by
  have hwatching := (decides_connect h.watching flushed).watching
  obtain hnone | ⟨l, hloops, hloop, hid, hl, hsnap, hopen⟩ := h.cases
  · have hsame : c.watch.step ctx (.connect flushed) = c.watch := by
      rw [KafkaWatch.step, Session.step, loop?_none hnone]
    rw [Capturing.step, hsame]
    exact h
  · by_cases hphase : l.phase = .connecting
    · refine h.next (live_of hloops) hwatching (List.prefix_refl _) h.log ?_ ?_
      · rw [KafkaWatch.step, Session.step, hloop]
        dsimp only
        rw [if_pos hphase, Session.connect, if_pos rfl]
        exact snapshot_setLoop hloops rfl
          ⟨hsnap.of_same rfl rfl rfl (.inr (.inr (.inl rfl))), hopen⟩
      · rw [KafkaWatch.step, Session.step, hloop]
        dsimp only
        rw [if_pos hphase, Session.connect, if_pos rfl]
        cases flushed with
        | true =>
          exact .inr ⟨_, rfl, hsnap.of_same rfl rfl rfl (.inr (.inr (.inl rfl))), .inl hopen⟩
        | false => exact .inl rfl
    · have hsame : c.watch.step ctx (.connect flushed) = c.watch := by
        rw [KafkaWatch.step, Session.step, hloop]
        dsimp only
        rw [if_neg hphase]
      rw [Capturing.step, hsame]
      exact h

/-- What Done, a leave or a signal does to the watch. -/
theorem Tracks.of_same {w' : KafkaWatch} (h : Tracks ctx log c) (hwatching : Watching ctx w')
    (hdelivered : w'.delivered = c.watch.delivered) (hstored : w'.session.stored = c.watch.session.stored)
    (hloop : ∀ l ∈ w'.session.loops, Snapshot ctx c.watch.delivered l.metadata ∧ Open l.metadata)
    (hgone : c.watch.session.loops = [] ∧ c.watch.session.handle = none →
      w'.session.loops = [] ∧ w'.session.handle = none) : Tracks ctx log ⟨w', c.rest, c.fetched⟩ where
  watching := hwatching
  loop := by
    dsimp only
    rw [hdelivered]
    exact hloop
  log := by
    dsimp only
    rw [hdelivered]
    exact h.log
  stored m hm := by
    dsimp only at hm ⊢
    rw [hdelivered]
    obtain ⟨hsnap, hopen | ⟨hstatus, hloops, hhandle, hlast⟩⟩ := h.stored m (hstored ▸ hm)
    · exact ⟨hsnap, .inl hopen⟩
    · exact ⟨hsnap, .inr ⟨hstatus, (hgone ⟨hloops, hhandle⟩).1, (hgone ⟨hloops, hhandle⟩).2, hlast⟩⟩
  fetched := by
    dsimp only
    rw [hdelivered]
    exact h.fetched

theorem tracks_done (h : Tracks ctx log c) (part : Int32) : Tracks ctx log (c.step ctx part .done) :=
  h.of_same h.watching rfl rfl h.loop fun hgone => ⟨hgone.1, rfl⟩

theorem tracks_leave (h : Tracks ctx log c) (part : Int32) (doneCleanly : Bool) :
    Tracks ctx log (c.step ctx part (.leave doneCleanly)) := by
  have hwatching := (decides_leave h.watching doneCleanly).watching
  obtain hnone | ⟨l, hloops, hloop, hid, hl, hsnap, hopen⟩ := h.cases
  · have hsame : c.watch.step ctx (.leave doneCleanly) = c.watch := by
      rw [KafkaWatch.step, Session.step, loop?_none hnone]
    rw [Capturing.step, hsame]
    exact h
  · rw [Capturing.step]
    have hlive := live_of hloops
    rw [KafkaWatch.step, Session.step, hloop] at hwatching ⊢
    dsimp only at hwatching ⊢
    split at hwatching
    · rename_i hphase
      rw [if_pos hphase]
      rw [Session.leave] at hwatching ⊢
      split at hwatching
      · rename_i hstays
        rw [if_pos hstays]
        exact h
      · rename_i hleaves
        rw [if_neg hleaves]
        refine h.of_same hwatching rfl rfl ?_ fun hgone => absurd hgone.1 hlive
        exact snapshot_setLoop hloops rfl ⟨hsnap, hopen⟩
    · rename_i hphase
      rw [if_neg hphase]
      exact h

theorem tracks_finish (hcloud : ctx.isCloudPrimary = true) (h : Tracks ctx log c) (part : Int32)
    (fault : Option Nat) (flushed : Bool) :
    Tracks ctx log (c.step ctx part (.finish fault flushed)) := by
  have hwatching := (decides_finish hcloud h.watching fault flushed).watching
  obtain hnone | ⟨l, hloops, hloop, hid, hl, hsnap, hopen⟩ := h.cases
  · have hsame : c.watch.step ctx (.finish fault flushed) = c.watch := by
      rw [KafkaWatch.step, Session.step, loop?_none hnone]
    rw [Capturing.step, hsame]
    exact h
  · cases hphase : l.phase with
    | connecting | running =>
      have hsame : c.watch.step ctx (.finish fault flushed) = c.watch := by
        rw [KafkaWatch.step, Session.step, hloop]
        dsimp only
        rw [hphase]
      rw [Capturing.step, hsame]
      exact h
    | leaving doneCleanly =>
      have hstep : c.watch.step ctx (.finish fault flushed) =
          ⟨c.watch.session.finish ctx l doneCleanly fault flushed, c.watch.delivered⟩ := by
        rw [KafkaWatch.step, Session.step, hloop]
        dsimp only
        rw [hphase]
      rw [hstep, finish_cloud hcloud] at hwatching
      rw [Capturing.step, hstep, finish_cloud hcloud]
      refine h.next (live_of hloops) hwatching (List.prefix_refl _) h.log ?_ ?_
      · intro j hj
        have hnil : j ∈ (c.watch.session.dropLoop l.id).loops := hj
        rw [dropLoop_single hloops] at hnil
        cases hnil
      · cases flushed with
        | false => exact .inl rfl
        | true =>
          obtain ⟨hsteps, htotal, -, hoffset⟩ := lastMetadata_frame l.metadata doneCleanly
          refine .inr ⟨_, rfl, hsnap.of_same hsteps htotal hoffset ?_, ?_⟩
          · cases doneCleanly with
            | true => exact .inr (.inl rfl)
            | false => exact .inr (.inr (.inr rfl))
          · cases doneCleanly with
            | true => exact .inr ⟨rfl, dropLoop_single hloops, rfl⟩
            | false => exact .inl (.inr rfl)

theorem tracks_signalRead (h : Tracks ctx log c) (part : Int32) :
    Tracks ctx log (c.step ctx part .signalRead) := by
  rw [Capturing.step]
  split
  · rename_i hhandle
    refine ⟨h.watching, h.loop, h.log, h.stored, fun m hm => ?_⟩
    obtain ⟨hsnap, hopen | ⟨-, -, hnone, -⟩⟩ := h.stored m hm
    · exact ⟨hsnap, hopen⟩
    · rw [hnone] at hhandle
      cases hhandle
  · exact h

theorem tracks_signalPut (h : Tracks ctx log c) (part : Int32) (stored : Bool) :
    Tracks ctx log (c.step ctx part (.signalPut stored)) := by
  rw [Capturing.step]
  cases hfetched : c.fetched with
  | none => exact h
  | some m =>
    cases stored with
    | false => exact h
    | true =>
      obtain ⟨⟨ds, hds, hsnap⟩, hopen⟩ := h.fetched m hfetched
      refine ⟨h.watching, h.loop, h.log, fun m' hm' => ?_, fun m' hm' => h.fetched m' (hfetched ▸ hm')⟩
      cases hm'
      exact ⟨⟨ds, hds, hsnap.of_same rfl rfl rfl (.inr (.inr (.inr rfl)))⟩, .inl hopen⟩

theorem stepEvents_append (rs rs' : List KafkaRecord) :
    stepEvents (rs ++ rs') = stepEvents rs ++ stepEvents rs' := by
  rw [stepEvents, recordEvents, List.filterMap_append, List.filter_append]
  rfl

/-- The next record goes over to the records that the watch has come to. -/
theorem log_take {taken rest : List KafkaRecord} {r : KafkaRecord} {ds : List Delivery} (ds' : List Delivery)
    (hlog : log = taken ++ r :: rest)
    (htaken : stepEvents taken = ds.map fun d => (d.offset, d.written.event))
    (hr : stepEvents [r] = ds'.map fun d => (d.offset, d.written.event)) :
    ∃ taken', log = taken' ++ rest ∧
      stepEvents taken' = (ds ++ ds').map fun d => (d.offset, d.written.event) := by
  refine ⟨taken ++ [r], by rw [hlog]; simp, ?_⟩
  rw [stepEvents_append, htaken, hr, List.map_append]

theorem recordEvent_frame (ctx : Context) (m : SessionMetadata) (stepId : UInt32) (input : EventInput) :
    (m.recordEvent ctx stepId input).inProgress = m.inProgress ∧
      (m.recordEvent ctx stepId input).status = m.status := by
  have hversion : (m.recordAgentVersion input.event.agentVersion).inProgress = m.inProgress ∧
      (m.recordAgentVersion input.event.agentVersion).status = m.status := by
    rw [SessionMetadata.recordAgentVersion]
    split <;> exact ⟨rfl, rfl⟩
  rw [SessionMetadata.recordEvent]
  cases input.image <;> cases input.kafka <;> exact hversion

/-- An event at the loop: what it stores is a snapshot that has the event. -/
theorem snapshot_event (hcloud : ctx.isCloudPrimary = true) {l : WatchLoop} {s : Session}
    {ds : List Delivery} (hloops : s.loops = [l]) (hl : Takes ctx ds l)
    (hsnap : Snapshot ctx ds l.metadata) (hopen : Open l.metadata) (d : Delivery) (input : EventInput)
    (hkafka : input.kafka = some (d.part, d.offset)) (hd : d.written = input.written ctx)
    (hpos : input.event.actionType ≠ "position") :
    (∀ j ∈ (s.event ctx l input).loops, Snapshot ctx (ds ++ [d]) j.metadata ∧ Open j.metadata) ∧
      ((s.event ctx l input).stored = s.stored ∨
        ∃ m, (s.event ctx l input).stored = some m ∧ Snapshot ctx (ds ++ [d]) m ∧ Open m) := by
  have hnext := buffered_event (hl.buffers s.files) (input.written ctx)
  have hcounter := hnext.counter
  rw [List.length_append, List.length_map] at hcounter
  rw [event_cloud hcloud (hl.buffers s.files).mode input hpos]
  dsimp only
  generalize (Recording.step ctx.toCcCommand ⟨l.writer, s.files⟩
    (.event (input.written ctx))).writer = writer at hcounter ⊢
  obtain ⟨hprogress, hstatus⟩ := recordEvent_frame ctx l.metadata writer.stepCounter input
  have hrecorded : Snapshot ctx (ds ++ [d]) (l.metadata.recordEvent ctx writer.stepCounter input) := by
    refine ⟨?_, ?_, ?_⟩
    · rw [List.map_append, List.map_singleton, hd]
      exact has_recordEvent hsnap.has input (by rw [List.length_map]; exact hcounter)
    · rw [(recordEvent_position ctx l.metadata _ hkafka).2, List.getLast?_concat]
      rfl
    · rw [hprogress]
      exact hsnap.progress
  have hopen' : Open (l.metadata.recordEvent ctx writer.stepCounter input) := by
    rw [Open, hstatus]
    exact hopen
  have hdrained : Snapshot ctx (ds ++ [d])
      ((l.metadata.recordEvent ctx writer.stepCounter input).drain s.maps).1 :=
    hrecorded.of_same rfl rfl rfl (.inl rfl)
  split
  · split
    · exact ⟨snapshot_setLoop hloops rfl ⟨hdrained, hopen'⟩, .inr ⟨_, rfl, hdrained, hopen'⟩⟩
    · exact ⟨snapshot_setLoop hloops rfl ⟨hdrained, hopen'⟩, .inl rfl⟩
  · exact ⟨snapshot_setLoop hloops rfl ⟨hrecorded, hopen'⟩, .inl rfl⟩

theorem tracks_take (hcloud : ctx.isCloudPrimary = true) (h : Tracks ctx log c) (part : Int32)
    (now : Text) (image : Vision) (flushed : Bool) (fault : Option Nat) :
    Tracks ctx log (c.step ctx part (.take now image flushed fault)) := by
  rw [Capturing.step, Capturing.take]
  split
  · rename_i l r rest hrun hrest
    obtain ⟨hloop, hphase⟩ := running_spec hrun
    obtain hnone | ⟨k, hloops, -, hid, hk, hsnap, hopen⟩ := h.cases
    · rw [loop?_none hnone] at hloop
      cases hloop
    obtain rfl := loop?_single hloops hloop
    obtain ⟨taken, hlog, htaken⟩ := h.log
    rw [hrest] at hlog
    cases hevent : r.event with
    | none =>
      have hr : stepEvents [r] = [] := by simp [stepEvents, recordEvents, hevent]
      refine ⟨h.watching, h.loop, ?_, h.stored, h.fetched⟩
      obtain ⟨taken', hlog', htaken'⟩ := log_take [] hlog htaken hr
      exact ⟨taken', hlog', by rw [htaken', List.append_nil]⟩
    | some e =>
      dsimp only
      have hwatching := (decides_deliver hcloud h.watching part r.offset
        ⟨e, now, fun _ => none, image, none, flushed, fault⟩).watching
      rw [deliver_running hrun] at hwatching ⊢
      by_cases hpos : e.actionType = "position"
      · have hr : stepEvents [r] = [] := by simp [stepEvents, recordEvents, hevent, hpos]
        obtain ⟨taken', hlog', htaken'⟩ := log_take [] hlog htaken hr
        rw [List.append_nil] at htaken'
        have hevent' : c.watch.session.event ctx l
            ⟨e, now, fun _ => none, image, some (part, r.offset), flushed, fault⟩ =
            c.watch.session.setLoop { l with metadata := l.metadata.recordAgentVersion e.agentVersion } := by
          rw [Session.event]
          exact if_pos hpos
        have hversion : Snapshot ctx c.watch.delivered (l.metadata.recordAgentVersion e.agentVersion) ∧
            Open (l.metadata.recordAgentVersion e.agentVersion) := by
          rw [SessionMetadata.recordAgentVersion]
          split
          · exact ⟨hsnap.of_same rfl rfl rfl (.inl rfl), hopen⟩
          · exact ⟨hsnap, hopen⟩
        dsimp only at hwatching ⊢
        rw [if_neg (not_not.mpr hpos), hevent'] at hwatching ⊢
        exact h.next (live_of hloops) hwatching (List.prefix_refl _) ⟨taken', hlog', htaken'⟩
          (snapshot_setLoop hloops rfl hversion) (.inl rfl)
      · have hr : stepEvents [r] = [(⟨part, r.offset,
            EventInput.written ctx ⟨e, now, fun _ => none, image, some (part, r.offset), flushed, fault⟩⟩ :
              Delivery)].map fun d => (d.offset, d.written.event) := by
          simp [stepEvents, recordEvents, hevent, hpos, EventInput.written]
        obtain ⟨hloop', hstored'⟩ := snapshot_event hcloud hloops hk hsnap hopen
          ⟨part, r.offset, EventInput.written ctx
            ⟨e, now, fun _ => none, image, some (part, r.offset), flushed, fault⟩⟩
          ⟨e, now, fun _ => none, image, some (part, r.offset), flushed, fault⟩ rfl rfl hpos
        dsimp only at hwatching ⊢
        rw [if_pos hpos] at hwatching ⊢
        refine h.next (live_of hloops) hwatching (List.prefix_append _ _) (log_take [_] hlog htaken hr) hloop' ?_
        obtain hsame | ⟨m, hm, hsnap', hopen'⟩ := hstored'
        · exact .inl hsame
        · exact .inr ⟨m, hm, hsnap', .inl hopen'⟩
  · exact h

theorem tracks_step (hcloud : ctx.isCloudPrimary = true) (h : Tracks ctx log c) (part : Int32)
    (i : CaptureInput) : Tracks ctx log (c.step ctx part i) := by
  cases i with
  | connect flushed => exact tracks_connect h part flushed
  | take now image flushed fault => exact tracks_take hcloud h part now image flushed fault
  | done => exact tracks_done h part
  | leave doneCleanly => exact tracks_leave h part doneCleanly
  | finish fault flushed => exact tracks_finish hcloud h part fault flushed
  | signalRead => exact tracks_signalRead h part
  | signalPut stored => exact tracks_signalPut h part stored

theorem tracks_run (hcloud : ctx.isCloudPrimary = true) (part : Int32) (log : List KafkaRecord)
    (is : List CaptureInput) : Tracks ctx log (run (Capturing.step ctx part) (.start ctx log) is) := by
  have hstep : ∀ (c : Capturing) (i : CaptureInput), Tracks ctx log c → True →
      Tracks ctx log (c.step ctx part i) := fun c i h _ => tracks_step hcloud h part i
  exact invariant_run hstep _ is (tracks_start hcloud) (guarded_true _ is)

/-- The steps of a snapshot and the step events after its position are all the
step events. -/
theorem steps_after {ds : List Delivery} {m : SessionMetadata} {offset : Int64} {rest : List (Int64 × CommandEvent)}
    (hlog : log.Pairwise fun r r' => r.offset < r'.offset)
    (hsplit : stepEvents log = (ds.map fun d => (d.offset, d.written.event)) ++ rest)
    (hsnap : Snapshot ctx ds m) (hoffset : m.kafkaOffset = some offset) :
    (∃ r ∈ log, r.offset = offset) ∧
      ((recordEvents log).filter fun e => offset < e.1).filter (fun e => e.2.actionType ≠ "position") = rest := by
  have hlast := hsnap.position.symm.trans hoffset
  obtain ⟨d, hd, rfl⟩ := Option.map_eq_some_iff.mp hlast
  obtain ⟨ds', rfl⟩ := List.getLast?_eq_some_iff.mp hd
  have hmem : (d.offset, d.written.event) ∈ stepEvents log := by rw [hsplit]; simp
  refine ⟨offset_recordEvents (List.mem_of_mem_filter hmem), ?_⟩
  have hrecords : (recordEvents log).Pairwise fun e e' => e.1 < e'.1 := by
    refine List.Pairwise.filterMap _ (fun r r' hr e he e' he' => ?_) hlog
    obtain ⟨_, -, rfl⟩ := Option.map_eq_some_iff.mp he
    obtain ⟨_, -, rfl⟩ := Option.map_eq_some_iff.mp he'
    exact hr
  have hsteps : (stepEvents log).Pairwise fun e e' => e.1 < e'.1 := hrecords.filter _
  have hcomm : ((recordEvents log).filter fun e => d.offset < e.1).filter
      (fun e => e.2.actionType ≠ "position") = (stepEvents log).filter fun e => d.offset < e.1 := by
    rw [stepEvents, List.filter_filter, List.filter_filter]
    exact List.filter_congr fun e _ => Bool.and_comm _ _
  rw [hcomm, hsplit, List.filter_append]
  rw [hsplit, List.pairwise_append] at hsteps
  obtain ⟨hbefore, -, hafter⟩ := hsteps
  rw [List.map_append, List.map_singleton, List.pairwise_append] at hbefore
  have hnone : (((ds' ++ [d]).map fun d => (d.offset, d.written.event)).filter fun e =>
      d.offset < e.1) = [] := by
    refine List.filter_eq_nil_iff.mpr fun e he => ?_
    rw [List.map_append, List.map_singleton] at he
    obtain he | he := List.mem_append.mp he
    · have hlt := hbefore.2.2 e he _ (List.mem_singleton_self _)
      simpa using Int64.le_of_lt hlt
    · obtain rfl := List.mem_singleton.mp he
      simp
  have hall : (rest.filter fun e => d.offset < e.1) = rest := by
    refine List.filter_eq_self.mpr fun e he => ?_
    have hlt := hafter (d.offset, d.written.event) (by simp) e he
    simpa using hlt
  rw [hnone, hall, List.nil_append]

end Tracking

section Exact

variable {ctx : Context} {log : List KafkaRecord} {c : Capturing} {st : Startup}

theorem Tracks.split (h : Tracks ctx log c) {ds : List Delivery} (hds : ds <+: c.watch.delivered) :
    ∃ rest, stepEvents log = (ds.map fun d => (d.offset, d.written.event)) ++ rest := by
  obtain ⟨taken, hlog, htaken⟩ := h.log
  obtain ⟨ds', hds'⟩ := hds
  refine ⟨(ds'.map fun d => (d.offset, d.written.event)) ++ stepEvents c.rest, ?_⟩
  rw [hlog, stepEvents_append, htaken, ← hds', List.map_append, List.append_assoc]

/-- The metadata of a replay that ends at the watermark has all step events. -/
theorem has_recovered (h : Tracks ctx log c) (hserves : Serves log c.watch.session.stored st)
    {m : SessionMetadata} (hm : c.watch.session.stored = some m) (part : Int32) {offset : Int64}
    (hoffset : m.kafkaOffset = some offset) {events : List (Int64 × CommandEvent)}
    (hreplay : replaySessionEvents (offset + 1) st.highWatermark st.polls = some (events, .watermark)) :
    (events.foldl (SessionMetadata.replayEvent ctx part) m).Has ctx ((stepEvents log).map Prod.snd) := by
  obtain ⟨⟨ds, hds, hsnap⟩, -⟩ := h.stored m hm
  obtain ⟨rest, hsplit⟩ := h.split hds
  obtain ⟨⟨r, hr, hroffset⟩, hrest⟩ := steps_after hserves.increasing hsplit hsnap hoffset
  have hbelow := hserves.below r hr
  rw [hroffset] at hbelow
  have hevents := replay_complete hserves.increasing hserves.below hbelow
    (hserves.served m offset hm hoffset) hreplay
  have hhas := has_replay hsnap.has part events
  rw [hevents, hrest] at hhas
  rw [hsplit, List.map_append, List.map_map]
  exact hevents ▸ hhas

theorem exactly_of_incomplete (h : st.run ctx c.watch.session.stored = some ⟨.incomplete, c.watch.session.stored⟩) :
    RecoversExactly ctx log c st := ⟨_, h, .inl rfl⟩

/-- A session that is reported as pending annotation. -/
theorem exactly_iff_of_pending {m m' : SessionMetadata} (hread : st.readMetadata c.watch.session.stored = some m)
    (h : st.run ctx c.watch.session.stored = some (Settled.mk SessionStatus.pendingAnnotation (some m'))) :
    RecoversExactly ctx log c st ↔
      m'.steps.map StepEntry.bare = numberedSteps ctx (sessionEvents log c m) ∧
        (∀ file, ListsAll ctx file (c.watch.session.files file) (sessionEvents log c m)) ∧
        (m.status ≠ "complete" → ∀ offset, m.kafkaOffset = some offset → ∀ events,
          replaySessionEvents (offset + 1) st.highWatermark st.polls ≠ some (events, .error)) := by
  constructor
  · rintro ⟨settled, hsettled, hcase⟩
    rw [h] at hsettled
    cases hsettled
    obtain hincomplete | ⟨k, k', hk, hk', hexact⟩ := hcase
    · cases hincomplete
    · rw [hread] at hk
      cases hk
      cases hk'
      exact hexact
  · intro hexact
    exact ⟨_, h, .inr ⟨m, m', hread, rfl, hexact⟩⟩

/-- A session that is neither reported nor incomplete. -/
theorem not_exactly_of_status {settled : Settled} (h : st.run ctx c.watch.session.stored = some settled)
    (hincomplete : settled.status ≠ .incomplete) (hpending : settled.status ≠ SessionStatus.pendingAnnotation) :
    ¬ RecoversExactly ctx log c st := by
  rintro ⟨settled', hsettled, hcase⟩
  rw [h] at hsettled
  cases hsettled
  obtain rfl | ⟨m, m', -, rfl, -⟩ := hcase
  · exact hincomplete rfl
  · exact hpending rfl

theorem Tracks.status (h : Tracks ctx log c) {m : SessionMetadata} (hm : c.watch.session.stored = some m) :
    m.status = "active" ∨ m.status = "incomplete" ∨ m.status = "complete" := by
  obtain ⟨-, (hactive | hincomplete) | ⟨hcomplete, -⟩⟩ := h.stored m hm
  · exact .inl hactive
  · exact .inr (.inl hincomplete)
  · exact .inr (.inr hcomplete)

theorem recovers_iff_degraded (h : Tracks ctx log c) (hdegraded : st.degraded = true) :
    RecoversExactly ctx log c st ↔ Recoverable ctx log c st := by
  have hrun : st.run ctx c.watch.session.stored = some (st.reconcile c.watch.session.stored) := by
    rw [Startup.run, if_pos hdegraded]
  rw [Recoverable, if_pos hdegraded]
  have hlost : (if st.readable then c.watch.session.stored else none) = none ↔
      ¬ (st.readable = true ∧ ∃ m, c.watch.session.stored = some m) := by
    cases st.readable <;> cases c.watch.session.stored <;> simp
  cases hread : (if st.readable then c.watch.session.stored else none) with
  | none =>
    have hsettled : st.reconcile c.watch.session.stored = ⟨.reasoningDegraded, c.watch.session.stored⟩ := by
      rw [Startup.reconcile, hread]
    rw [hsettled] at hrun
    refine iff_of_false (not_exactly_of_status hrun (by simp) (by simp)) fun hr => ?_
    exact hlost.mp hread ⟨hr.1, hr.2.choose, hr.2.choose_spec.1⟩
  | some m =>
    have hreadable : st.readable = true := by
      cases hr : st.readable with
      | true => rfl
      | false => rw [hr] at hread; cases hread
    rw [hreadable, if_pos rfl] at hread
    have hsettled : st.reconcile c.watch.session.stored =
        ⟨(reconcileTarget .reasoningDegraded m.status).getD .reasoningDegraded, c.watch.session.stored⟩ := by
      rw [Startup.reconcile, hreadable, if_pos rfl, hread]
    rw [hsettled] at hrun
    have hstatus : (st.readable = true ∧ ∃ m, c.watch.session.stored = some m ∧ m.status = "incomplete") ↔
        m.status = "incomplete" := by
      rw [hread]
      simp [hreadable]
    rw [hstatus]
    obtain hactive | hincomplete | hcomplete := h.status hread
    · have hstays : (reconcileTarget .reasoningDegraded m.status).getD .reasoningDegraded =
          .reasoningDegraded := by rw [hactive]; rfl
      rw [hstays] at hrun
      exact iff_of_false (not_exactly_of_status hrun (by simp) (by simp)) (by rw [hactive]; decide)
    · rw [hincomplete] at hrun ⊢
      exact iff_of_true (exactly_of_incomplete hrun) rfl
    · have hstays : (reconcileTarget .reasoningDegraded m.status).getD .reasoningDegraded =
          .reasoningDegraded := by rw [hcomplete]; rfl
      rw [hstays] at hrun
      exact iff_of_false (not_exactly_of_status hrun (by simp) (by simp)) (by rw [hcomplete]; decide)

theorem readMetadata_cases {m : SessionMetadata} (hread : st.readMetadata c.watch.session.stored = some m) :
    c.watch.session.stored = some m ∨ m = .initial := by
  rw [Startup.readMetadata] at hread
  split at hread
  · exact .inl hread
  · split at hread
    · exact .inr (Option.some.inj hread).symm
    · cases hread

theorem recovers_iff_complete (h : Tracks ctx log c) (hdegraded : st.degraded = false) {m : SessionMetadata}
    (hread : st.readMetadata c.watch.session.stored = some m) (hcomplete : m.status = "complete") :
    RecoversExactly ctx log c st ↔ Recoverable ctx log c st := by
  have hstored : c.watch.session.stored = some m := by
    obtain hstored | rfl := readMetadata_cases hread
    · exact hstored
    · simp [SessionMetadata.initial] at hcomplete
  have hrun : st.run ctx c.watch.session.stored = some (Settled.mk SessionStatus.pendingAnnotation (some m)) := by
    rw [Startup.run, hdegraded, if_neg (by simp), Startup.sweep, hread]
    dsimp only
    rw [activeSweepRestoreTarget, if_pos hcomplete, hstored]
  obtain ⟨-, hopen | ⟨-, -, -, hsnap⟩⟩ := h.stored m hstored
  · obtain hactive | hincomplete := hopen
    · simp [hactive] at hcomplete
    · simp [hincomplete] at hcomplete
  · rw [exactly_iff_of_pending hread hrun, Recoverable, if_neg (by simp [hdegraded])]
    have hsteps : m.steps.map StepEntry.bare = numberedSteps ctx (sessionEvents log c m) := by
      rw [sessionEvents, if_pos hcomplete]
      exact hsnap.has.steps
    constructor
    · rintro ⟨-, hfiles, -⟩ k hk
      rw [hread] at hk
      cases hk
      rw [if_pos hcomplete]
      exact hfiles
    · intro hr
      have hfiles := hr m hread
      rw [if_pos hcomplete] at hfiles
      exact ⟨hsteps, hfiles, fun hne => absurd hcomplete hne⟩

/-- The sweep of a session whose recording is not complete. -/
theorem sweep_open {m : SessionMetadata} {stored : Option SessionMetadata}
    (hread : st.readMetadata stored = some m) (hopen : m.status ≠ "complete") :
    st.sweep ctx stored = match m.inProgress with
      | none => some ⟨.incomplete, stored⟩
      | some value =>
          if value = "interrupted" then
            match m.kafkaPartition, m.kafkaOffset with
            | some part, some offset => st.recover ctx m part offset stored
            | _, _ => some ⟨.incomplete, stored⟩
          else if value = "capturing" then some ⟨.incomplete, stored⟩
          else some ⟨.active, stored⟩ := by
  rw [Startup.sweep, hread]
  dsimp only
  rw [activeSweepRestoreTarget, if_neg hopen]

/-- A session that is left as it was, without a replay in sight. -/
theorem recovers_iff_left (hdegraded : st.degraded = false) {m : SessionMetadata}
    (hread : st.readMetadata c.watch.session.stored = some m) (hopen : m.status ≠ "complete")
    (hleft : st.sweep ctx c.watch.session.stored = some ⟨.incomplete, c.watch.session.stored⟩)
    (hnone : ∀ part offset, m.inProgress = some "interrupted" → m.kafkaPartition = some part →
      m.kafkaOffset = some offset → st.consumer = false) :
    RecoversExactly ctx log c st ↔ Recoverable ctx log c st := by
  have hrun : st.run ctx c.watch.session.stored = some ⟨.incomplete, c.watch.session.stored⟩ := by
    rw [Startup.run, hdegraded, if_neg (by simp), hleft]
  refine iff_of_true (exactly_of_incomplete hrun) ?_
  rw [Recoverable, if_neg (by simp [hdegraded])]
  intro k hk
  rw [hread] at hk
  cases hk
  rw [if_neg hopen]
  intro part offset hprogress hpart hoffset hconsumer
  rw [hnone part offset hprogress hpart hoffset] at hconsumer
  cases hconsumer

theorem recovers_iff_replay (h : Tracks ctx log c) (hserves : Serves log c.watch.session.stored st)
    (hdegraded : st.degraded = false) {m : SessionMetadata}
    (hread : st.readMetadata c.watch.session.stored = some m) (hopen : m.status ≠ "complete")
    (hstored : c.watch.session.stored = some m) {part : Int32} {offset : Int64}
    (hprogress : m.inProgress = some "interrupted") (hpart : m.kafkaPartition = some part)
    (hoffset : m.kafkaOffset = some offset) (hconsumer : st.consumer = true) :
    RecoversExactly ctx log c st ↔ Recoverable ctx log c st := by
  have hrun : st.run ctx c.watch.session.stored =
      st.recover ctx m part offset c.watch.session.stored := by
    rw [Startup.run, hdegraded, if_neg (by simp), sweep_open hread hopen, hprogress]
    dsimp only
    rw [if_pos rfl, hpart, hoffset]
  rw [Startup.recover, if_pos hconsumer] at hrun
  have hguard : Recoverable ctx log c st ↔ ∃ events ending,
      replaySessionEvents (offset + 1) st.highWatermark st.polls = some (events, ending) ∧
      (st.flushed = true → ending = .watermark ∧
        ∀ file, ListsAll ctx file (c.watch.session.files file) (sessionEvents log c m)) := by
    rw [Recoverable, if_neg (by simp [hdegraded])]
    constructor
    · intro hr
      have hm := hr m hread
      rw [if_neg hopen] at hm
      exact hm part offset hprogress hpart hoffset hconsumer
    · intro hr k hk
      rw [hread] at hk
      cases hk
      rw [if_neg hopen]
      intro part' offset' _ _ hoffset' _
      cases hoffset.symm.trans hoffset'
      exact hr
  rw [hguard]
  cases hreplay : replaySessionEvents (offset + 1) st.highWatermark st.polls with
  | none =>
    rw [hreplay] at hrun
    refine iff_of_false ?_ ?_
    · rintro ⟨settled, hsettled, -⟩
      rw [hrun] at hsettled
      cases hsettled
    · rintro ⟨_, _, he, -⟩
      cases he
  | some result =>
    obtain ⟨events, ending⟩ := result
    rw [hreplay, Option.map_some] at hrun
    dsimp only at hrun
    cases hflushed : st.flushed with
    | false =>
      rw [hflushed, if_neg (by simp)] at hrun
      exact iff_of_true (exactly_of_incomplete hrun) ⟨events, ending, rfl, fun hc => by cases hc⟩
    | true =>
      rw [hflushed, if_pos rfl] at hrun
      rw [exactly_iff_of_pending hread hrun]
      constructor
      · rintro ⟨-, hfiles, herror⟩
        refine ⟨events, ending, rfl, fun _ => ⟨?_, hfiles⟩⟩
        cases ending with
        | watermark => rfl
        | error => exact absurd hreplay (herror hopen offset hoffset events)
      · rintro ⟨events', ending', he, hends⟩
        cases he
        obtain ⟨rfl, hfiles⟩ := hends rfl
        refine ⟨?_, hfiles, fun _ offset' hoffset' events' => ?_⟩
        · rw [sessionEvents, if_neg hopen]
          exact (has_recovered h hserves hstored part hoffset hreplay).steps
        · cases hoffset.symm.trans hoffset'
          rw [hreplay]
          simp

theorem recovers_iff (h : Tracks ctx log c) (hserves : Serves log c.watch.session.stored st) :
    RecoversExactly ctx log c st ↔ Recoverable ctx log c st := by
  cases hdegraded : st.degraded with
  | true => exact recovers_iff_degraded h hdegraded
  | false =>
    cases hread : st.readMetadata c.watch.session.stored with
    | none =>
      have hrun : st.run ctx c.watch.session.stored = some ⟨.incomplete, c.watch.session.stored⟩ := by
        rw [Startup.run, hdegraded, if_neg (by simp), Startup.sweep, hread]
      refine iff_of_true (exactly_of_incomplete hrun) ?_
      rw [Recoverable, if_neg (by simp [hdegraded])]
      intro m hm
      rw [hread] at hm
      cases hm
    | some m =>
      by_cases hcomplete : m.status = "complete"
      · exact recovers_iff_complete h hdegraded hread hcomplete
      · have hsweep : st.sweep ctx _ = _ := sweep_open hread hcomplete
        obtain hstored | rfl := readMetadata_cases hread
        · obtain ⟨⟨ds, -, hsnap⟩, -⟩ := h.stored m hstored
          obtain hnone | hcapturing | hinterrupted := hsnap.progress
          · rw [hnone] at hsweep
            refine recovers_iff_left hdegraded hread hcomplete hsweep fun part offset hc => ?_
            rw [hnone] at hc
            cases hc
          · rw [hcapturing] at hsweep
            refine recovers_iff_left hdegraded hread hcomplete hsweep fun part offset hc => ?_
            rw [hcapturing] at hc
            simp at hc
          · rw [hinterrupted] at hsweep
            dsimp only at hsweep
            rw [if_pos rfl] at hsweep
            cases hpart : m.kafkaPartition with
            | none =>
              rw [hpart] at hsweep
              refine recovers_iff_left hdegraded hread hcomplete hsweep fun part offset _ hc => ?_
              rw [hpart] at hc
              cases hc
            | some part =>
              cases hoffset : m.kafkaOffset with
              | none =>
                rw [hpart, hoffset] at hsweep
                refine recovers_iff_left hdegraded hread hcomplete hsweep fun part offset _ _ hc => ?_
                rw [hoffset] at hc
                cases hc
              | some offset =>
                cases hconsumer : st.consumer with
                | false =>
                  rw [hpart, hoffset] at hsweep
                  dsimp only at hsweep
                  rw [Startup.recover, hconsumer, if_neg (by simp)] at hsweep
                  exact recovers_iff_left hdegraded hread hcomplete hsweep fun _ _ _ _ _ => hconsumer
                | true =>
                  exact recovers_iff_replay h hserves hdegraded hread hcomplete hstored hinterrupted hpart
                    hoffset hconsumer
        · refine recovers_iff_left hdegraded hread hcomplete hsweep fun part offset hc => ?_
          cases hc

end Exact

/-- Whenever the program stops, the next startup recovers the session exactly just
when the command files are complete where it reports the session, and no replay
was cut short. -/
theorem crash_recovery_exact (ctx : Context) (hcloud : ctx.isCloudPrimary = true) (part : Int32)
    (log : List KafkaRecord) (is : List CaptureInput) (st : Startup)
    (hserves : Serves log (run (Capturing.step ctx part) (.start ctx log) is).watch.session.stored st) :
    RecoversExactly ctx log (run (Capturing.step ctx part) (.start ctx log) is) st ↔
      Recoverable ctx log (run (Capturing.step ctx part) (.start ctx log) is) st :=
  recovers_iff (tracks_run hcloud part log is) hserves

def takeSample : CaptureInput := .take "2026-02-25 12:58:04 UTC".toList .off true none

/-- The program is shut down after the first event of its log. -/
def shutDown : List CaptureInput := [.connect true, takeSample, .signalRead, .signalPut true]

def sampleLog (e : CommandEvent) : List KafkaRecord := [⟨7, some sampleEvent⟩, ⟨8, some e⟩]

def positionEvent : CommandEvent := { sampleEvent with actionType := "position" }

def sampleStartup (polls : List Poll) : Startup := ⟨false, true, false, true, 9, polls, true⟩

theorem serves_sample (e : CommandEvent) {polls : List Poll}
    (hpolls : polledRecords polls <+: [⟨8, some e⟩]) :
    Serves (sampleLog e)
      (run (Capturing.step cloudContext 3) (.start cloudContext (sampleLog e)) shutDown).watch.session.stored
      (sampleStartup polls) where
  increasing := by simp [sampleLog]
  below r hr := by
    obtain rfl | rfl : r = ⟨7, some sampleEvent⟩ ∨ r = ⟨8, some e⟩ := by simpa [sampleLog] using hr
    · change (7 : Int64) < 9
      decide
    · change (8 : Int64) < 9
      decide
  served m offset hm hoffset := by
    cases hm
    cases hoffset
    exact hpolls

/-- After the shutdown every file has the line of the one event. -/
theorem files_sample (e : CommandEvent) (file : CommandFile) :
    ((run (Capturing.step cloudContext 3) (.start cloudContext (sampleLog e)) shutDown).watch.session.files
      file).getD [] = fileText cloudContext.toCcCommand file
        [⟨sampleEvent, sampleEvent.rawCommand.toList, "2026-02-25 12:58:04 UTC".toList⟩] := by
  have hcloud : cloudContext.isCloudPrimary = true := rfl
  obtain hnone | ⟨l, hloops, -, hl⟩ := (tracks_run hcloud 3 (sampleLog e) shutDown).watching
  · cases hnone
  · cases hloops
    have hbuf := (hl.buffers fun _ => none).buf file
    cases file <;> exact hbuf

theorem lists_sample (e : CommandEvent) (file : CommandFile) :
    ListsAll cloudContext file
      ((run (Capturing.step cloudContext 3) (.start cloudContext (sampleLog e)) shutDown).watch.session.files
        file) [sampleEvent] := by
  refine ⟨[⟨sampleEvent, sampleEvent.rawCommand.toList, "2026-02-25 12:58:04 UTC".toList⟩], rfl, ?_,
    .inl (files_sample e file)⟩
  intro w hw
  obtain rfl := List.mem_singleton.mp hw
  rfl

theorem crash_recovery_exact_sample :
    RecoversExactly cloudContext (sampleLog positionEvent)
      (run (Capturing.step cloudContext 3) (.start cloudContext (sampleLog positionEvent)) shutDown)
      (sampleStartup [.timeout, .message ⟨8, some positionEvent⟩]) := by
  refine (crash_recovery_exact cloudContext rfl 3 (sampleLog positionEvent) shutDown _
    (serves_sample positionEvent (List.prefix_refl _))).mpr ?_
  intro m hm
  cases hm
  intro part offset _ _ hoffset _
  cases hoffset
  exact ⟨_, .watermark, rfl, fun _ => ⟨rfl, lists_sample positionEvent⟩⟩

/-- A file of actuation commands is decided by its events. -/
theorem listsAll_actuation {ctx : Context} {content : Option Text} {es : List CommandEvent}
    (h : ListsAll ctx .actuationCommands content es) :
    content.getD [] = Json.render .compact (es.map CommandEvent.toJson) ∨
      content.getD [] = arrayText (es.map fun e => Json.rebuild Json.putSorted e.toJson) := by
  obtain ⟨ws, rfl, -, htext | ⟨values, hvalues, rfl⟩⟩ := h
  · rw [fileText_actuation] at htext
    exact .inl (by rw [htext, List.map_map]; rfl)
  · cases hvalues
    exact .inr (by rw [List.map_map]; rfl)

/-- The files keep the one event, whatever the startup adds to the metadata. -/
theorem not_lists_sample (e : CommandEvent) :
    ¬ ListsAll cloudContext .actuationCommands
      ((run (Capturing.step cloudContext 3) (.start cloudContext (sampleLog e)) shutDown).watch.session.files
        .actuationCommands) [sampleEvent, sampleEvent] := by
  intro h
  have htext := listsAll_actuation h
  rw [files_sample, fileText_actuation] at htext
  revert htext
  decide +kernel

/-- An event that the loop has not taken comes into the metadata only, and a
consumer error in front of it passes for the end of the replay. -/
theorem recovery_not_exact :
    (Serves (sampleLog sampleEvent)
        (run (Capturing.step cloudContext 3) (.start cloudContext (sampleLog sampleEvent))
          shutDown).watch.session.stored (sampleStartup [.message ⟨8, some sampleEvent⟩]) ∧
      ¬ RecoversExactly cloudContext (sampleLog sampleEvent)
        (run (Capturing.step cloudContext 3) (.start cloudContext (sampleLog sampleEvent)) shutDown)
        (sampleStartup [.message ⟨8, some sampleEvent⟩])) ∧
      Serves (sampleLog sampleEvent)
        (run (Capturing.step cloudContext 3) (.start cloudContext (sampleLog sampleEvent))
          shutDown).watch.session.stored (sampleStartup [.error]) ∧
      ¬ RecoversExactly cloudContext (sampleLog sampleEvent)
        (run (Capturing.step cloudContext 3) (.start cloudContext (sampleLog sampleEvent)) shutDown)
        (sampleStartup [.error]) := by
  have hcloud : cloudContext.isCloudPrimary = true := rfl
  have htracks := tracks_run hcloud 3 (sampleLog sampleEvent) shutDown
  have hserves : ∀ polls, polledRecords polls <+: [⟨8, some sampleEvent⟩] → _ :=
    fun polls hpolls => serves_sample sampleEvent hpolls
  refine ⟨⟨hserves _ (List.prefix_refl _), fun h => ?_⟩, hserves [.error] List.nil_prefix, fun h => ?_⟩
  · have hr := (recovers_iff htracks (hserves _ (List.prefix_refl _))).mp h
    obtain ⟨events, ending, -, hends⟩ := hr _ rfl 3 7 rfl rfl rfl rfl
    exact not_lists_sample sampleEvent ((hends rfl).2 .actuationCommands)
  · have hr := (recovers_iff htracks (hserves [.error] List.nil_prefix)).mp h
    obtain ⟨events, ending, hreplay, hends⟩ := hr _ rfl 3 7 rfl rfl rfl rfl
    obtain ⟨rfl, -⟩ := hends rfl
    cases hreplay

end MemoryArchive.Capture
