import MemoryArchive.Capture.Recovery
import MemoryArchive.Capture.Wire

namespace MemoryArchive.Capture.Redelivery

open KafkaWatch (Watching)
open Runs

/-- A message of the topic, with its payload unless that is empty. -/
structure Message where
  offset : Int64
  payload : Option Text

def Message.event? (msg : Message) : Option (String × CommandEvent) := msg.payload.bind consume

/-- The messages of each partition. The key of a message is its session id. -/
structure Topic where
  messages : Int32 → List Message
  home : String → Int32
  increasing : ∀ p, (messages p).Pairwise fun msg msg' => msg.offset < msg'.offset
  keyed : ∀ p msg sid e, msg ∈ messages p → msg.event? = some (sid, e) → p = home sid

/-- What a session may take of a message. -/
def Message.recordFor (sid : String) (msg : Message) : KafkaRecord :=
  ⟨msg.offset, msg.event?.bind fun (sid', e) => if sid' = sid then some e else none⟩

/-- The command events of a session, in offset order. -/
def Topic.commands (topic : Topic) (sid : String) : List (Int64 × CommandEvent) :=
  stepEvents ((topic.messages (topic.home sid)).map (Message.recordFor sid))

/-- A watch loop with the events in its channel. The sender of the channel is in the
session map as long as the session is routed. Of the past there are the events that
were sent to the channel, and the one that found it full. -/
structure Watched where
  capture : Capturing
  routed : Bool
  sent : List KafkaRecord
  missed : Option KafkaRecord

/-- The consumer with its position in each partition, and the sessions that are
watched. -/
structure Consumer where
  next : Int32 → Nat
  sessions : String → Option Watched

/-- A step of a watch loop. It is closed when its source has no more events for it. -/
inductive WatchAct
  | connect (flushed : Bool)
  | take (now : Text) (image : Vision) (flushed : Bool) (fault : Option Nat)
  | done
  | closed
  | doneSignal
  | eyesDown
  | finish (fault : Option Nat) (flushed : Bool)

/-- A session is watched once. The broker may go back to any earlier message. -/
inductive Act
  | start (sid : String)
  | deliver (part : Int32)
  | rewind (part : Int32) (position : Nat)
  | watch (sid : String) (act : WatchAct)

namespace Watched

variable (w : Watched)

def start (ctx : Context) : Watched := ⟨.start ctx [], true, [], none⟩

/-- `try_send`, after which a full or closed channel is no longer routed to. -/
def trySend (capacity : Nat) (r : KafkaRecord) : Watched :=
  if w.capture.watch.session.loops = [] then { w with routed := false }
  else if w.capture.rest.length < capacity then
    { w with capture.rest := w.capture.rest ++ [r], sent := w.sent ++ [r] }
  else { w with routed := false, missed := some r }

/-- A loop that leaves takes its session out of the map. -/
def leave (ctx : Context) (part : Int32) (doneCleanly : Bool) : Watched :=
  let capture := w.capture.step ctx part (.leave doneCleanly)
  { w with
    capture := capture
    routed := w.routed && (capture.watch.running.isSome || w.capture.watch.running.isNone) }

def step (ctx : Context) (part : Int32) : WatchAct → Watched
  | .connect flushed => { w with capture := w.capture.step ctx part (.connect flushed) }
  | .take now image flushed fault =>
      { w with capture := w.capture.step ctx part (.take now image flushed fault) }
  | .done => { w with capture := w.capture.step ctx part .done }
  | .closed => if w.routed = false ∧ w.capture.rest = [] then w.leave ctx part false else w
  | .doneSignal => w.leave ctx part true
  | .eyesDown => w.leave ctx part false
  | .finish fault flushed => { w with capture := w.capture.step ctx part (.finish fault flushed) }

end Watched

namespace Consumer

variable (ctx : Context) (topic : Topic) (capacity : Nat) (s : Consumer)

def empty : Consumer := ⟨fun _ => 0, fun _ => none⟩

def setSession (sid : String) (w : Watched) : Consumer :=
  { s with sessions := Function.update s.sessions sid (some w) }

/-- One round of `run_kafka_consumer`. -/
def deliver (part : Int32) : Consumer :=
  match (topic.messages part)[s.next part]? with
  | none => s
  | some msg =>
      let s := { s with next := Function.update s.next part (s.next part + 1) }
      match msg.event? with
      | none => s
      | some (sid, e) =>
          match s.sessions sid with
          | none => s
          | some w => if w.routed then s.setSession sid (w.trySend capacity ⟨msg.offset, some e⟩) else s

def step (s : Consumer) : Act → Consumer
  | .start sid =>
      if (s.sessions sid).isNone && decide (0 < capacity) then s.setSession sid (.start ctx) else s
  | .deliver part => s.deliver topic capacity part
  | .rewind part position =>
      { s with next := Function.update s.next part (min position (s.next part)) }
  | .watch sid act =>
      match s.sessions sid with
      | none => s
      | some w => s.setSession sid (w.step ctx (topic.home sid) act)

end Consumer

section Properties

variable (ctx : Context) (topic : Topic) (sid : String)

/-- The command events from the first one that was delivered. -/
def fromFirst (w : Watched) : List (Int64 × CommandEvent) :=
  match (stepEvents w.sent).head? with
  | none => []
  | some first => (topic.commands sid).dropWhile fun c => c.1 < first.1

/-- The metadata has the steps of just these command events. -/
def Holds (m : SessionMetadata) (cs : List (Int64 × CommandEvent)) : Prop :=
  m.steps.map StepEntry.bare = numberedSteps ctx (cs.map Prod.snd)

/-- The steps of a session are its command events from the first one delivered, and if it
missed an event, it has ended incomplete with those before this event. -/
structure GapFree (w : Watched) : Prop where
  recorded : ∀ m, (∃ l ∈ w.capture.watch.session.loops, l.metadata = m) ∨
      w.capture.watch.session.stored = some m →
    ∃ cs, cs <+: fromFirst topic sid w ∧ Holds ctx m cs
  cut : ∀ r, w.missed = some r → w.capture.watch.session.loops = [] →
    ∃ m, w.capture.watch.session.stored = some m ∧ m.status = "incomplete" ∧
      Holds ctx m ((fromFirst topic sid w).takeWhile fun c => c.1 < r.offset)

/-- A message that is not above the recorded offset makes no step. -/
def NoReplay (w w' : Watched) : Prop :=
  ∀ l r rest offset, w.capture.watch.running = some l → w.capture.rest = r :: rest →
    l.metadata.kafkaOffset = some offset → r.offset ≤ offset →
    ∀ l' ∈ w'.capture.watch.session.loops, l'.metadata.steps = l.metadata.steps

def Idempotent (s : Consumer) (act : Act) (s' : Consumer) : Prop :=
  (∀ sid w, s'.sessions sid = some w → GapFree ctx topic sid w) ∧
    ∀ sid now image flushed fault w w', act = .watch sid (.take now image flushed fault) →
      s.sessions sid = some w → s'.sessions sid = some w' → NoReplay w w'

/-- While a session is routed, no command event comes a second time, and no event at all
when the channel is full. A session that missed an event takes what is left in its
channel, without a Done, and its last metadata is stored. -/
def Careful (capacity : Nat) (s : Consumer) : Act → Prop
  | .deliver part => ∀ msg sid e w, (topic.messages part)[s.next part]? = some msg →
      msg.event? = some (sid, e) → s.sessions sid = some w → w.routed = true →
      e.actionType ≠ "position" ∨ capacity ≤ w.capture.rest.length →
      ∀ c ∈ stepEvents w.sent, c.1 < msg.offset
  | .watch sid act => ∀ w, s.sessions sid = some w → w.missed.isSome = true →
      match act with
      | .doneSignal => w.capture.watch.session.handle = some 0
      | .eyesDown => w.capture.rest = []
      | .finish _ flushed => flushed = true
      | .connect _ | .take _ _ _ _ | .done | .closed => True
  | .start _ | .rewind _ _ => True

end Properties

section Segments

variable {α : Type} {R : α → α → Prop} {A B S D : List α}

/-- Where a segment ends that lies before a place and has no gap up to there. -/
theorem suffix_of_segment (hL : (A ++ B).Pairwise R) {C : List α} (hsplit : A ++ B = C ++ S ++ D)
    (hne : S ≠ []) (hbefore : ∀ b ∈ B, b ∉ S) (hgap : ∀ a ∈ A, ∃ x ∈ S, ¬ R x a) : A = C ++ S ∧ B = D := by
  obtain ⟨E, hE, hB⟩ | ⟨E, hA, hD⟩ := List.append_eq_append_iff.mp hsplit
  · obtain rfl | ⟨E, e, rfl⟩ := E.eq_nil_or_concat
    · exact ⟨by rw [hE, List.append_nil], hB⟩
    · -- The last of the segment would come after the place.
      have hlast : e = S.getLast hne := by
        have hends := congrArg List.getLast? hE
        rw [List.getLast?_append_of_ne_nil _ hne, List.getLast?_eq_some_getLast hne, List.concat_eq_append,
          ← List.append_assoc, List.getLast?_concat] at hends
        exact (Option.some.inj hends).symm
      refine absurd (hlast ▸ List.getLast_mem hne) (hbefore e ?_)
      rw [hB, List.concat_eq_append]
      exact List.mem_append_left _ (List.mem_append_right _ List.mem_cons_self)
  · cases E with
    | nil => exact ⟨by rw [hA, List.append_nil], hD.symm⟩
    | cons a E =>
      obtain ⟨x, hx, hno⟩ := hgap a (hA ▸ List.mem_append_right _ List.mem_cons_self)
      rw [hsplit] at hL
      refine absurd ((List.pairwise_append.mp hL).2.2 x (List.mem_append_right C hx) a ?_) hno
      exact hD ▸ List.mem_cons_self

end Segments

section Topics

variable (topic : Topic) (sid : String)

theorem stepEvents_pairwise {rs : List KafkaRecord} (h : rs.Pairwise fun r r' => r.offset < r'.offset) :
    (stepEvents rs).Pairwise fun c c' => c.1 < c'.1 := by
  refine List.Pairwise.filter _ (h.filterMap _ fun r r' hlt c hc c' hc' => ?_)
  obtain ⟨e, -, rfl⟩ := Option.map_eq_some_iff.mp hc
  obtain ⟨e', -, rfl⟩ := Option.map_eq_some_iff.mp hc'
  exact hlt

theorem commands_pairwise : (topic.commands sid).Pairwise fun c c' => c.1 < c'.1 :=
  stepEvents_pairwise ((topic.increasing (topic.home sid)).map _ fun _ _ h => h)

/-- The records of a session before a position in its partition. -/
def recordsBefore (n : Nat) : List KafkaRecord :=
  ((topic.messages (topic.home sid)).take n).map (Message.recordFor sid)

def recordsFrom (n : Nat) : List KafkaRecord :=
  ((topic.messages (topic.home sid)).drop n).map (Message.recordFor sid)

theorem commands_split (n : Nat) :
    topic.commands sid = stepEvents (recordsBefore topic sid n) ++ stepEvents (recordsFrom topic sid n) := by
  rw [← stepEvents_append, recordsBefore, recordsFrom, ← List.map_append, List.take_append_drop]
  rfl

theorem recordsBefore_succ {n : Nat} {msg : Message}
    (h : (topic.messages (topic.home sid))[n]? = some msg) :
    recordsBefore topic sid (n + 1) = recordsBefore topic sid n ++ [msg.recordFor sid] := by
  rw [recordsBefore, recordsBefore, List.take_add_one, h, List.map_append]
  rfl

/-- Nothing from a position on is below the message there. -/
theorem not_below_recordsFrom {n : Nat} {msg : Message}
    (h : (topic.messages (topic.home sid))[n]? = some msg) :
    ∀ c ∈ stepEvents (recordsFrom topic sid n), ¬ c.1 < msg.offset := by
  intro c hc
  have hpairwise := (topic.increasing (topic.home sid)).drop (i := n)
  obtain ⟨r, hr, hrc⟩ := List.mem_filterMap.mp (List.mem_of_mem_filter hc)
  obtain ⟨e, -, rfl⟩ := Option.map_eq_some_iff.mp hrc
  obtain ⟨msg', hmsg', rfl⟩ := List.mem_map.mp hr
  obtain ⟨hn, rfl⟩ := List.getElem?_eq_some_iff.mp h
  rw [List.drop_eq_getElem_cons hn] at hpairwise hmsg'
  obtain rfl | hlater := List.mem_cons.mp hmsg'
  · exact Int64.lt_irrefl
  · exact Int64.lt_asymm (List.rel_of_pairwise_cons hpairwise hlater)

end Topics

section Loops

variable {ctx : Context} {log : List KafkaRecord} {c : Capturing} {l : WatchLoop}

/-- An event replaces its loop by one in the same phase. -/
theorem event_setLoop (ctx : Context) (s : Session) (l : WatchLoop) (input : EventInput) :
    ∃ k : WatchLoop, k.id = l.id ∧ k.phase = l.phase ∧
      (s.event ctx l input).loops = (s.setLoop k).loops := by
  rw [Session.event]
  dsimp only
  split
  · exact ⟨{ l with metadata := l.metadata.recordAgentVersion input.event.agentVersion }, rfl, rfl, rfl⟩
  split
  · rename_i writer files _
    exact ⟨{ l with
      metadata := (l.metadata.recordAgentVersion input.event.agentVersion).updateKafkaPosition input.kafka
      writer := writer }, rfl, rfl, rfl⟩
  · rename_i writer files step _
    obtain ⟨hid, hphase, -, -, hloops, -⟩ := flushIfDue_kept ctx { s with files := files }
      { l with
        metadata := (((l.metadata.recordAgentVersion input.event.agentVersion).updateKafkaPosition
          input.kafka).appendStep (stepEntry ctx step input.event)).addImage step input.image
        writer := writer } input.flushed
    refine ⟨_, hid, hphase, ?_⟩
    exact congrArg (List.map fun k => if k.id = _ then _ else k) hloops

theorem running_single (hloops : c.watch.session.loops = [l]) (hid : l.id = 0) :
    c.watch.running = if l.phase = .running then some l else none := by
  rw [KafkaWatch.running, KafkaWatch.loop?_some hloops hid, Option.filter_some]
  split
  · rename_i h
    rw [if_pos (of_decide_eq_true h)]
  · rename_i h
    rw [if_neg fun hphase => h (decide_eq_true hphase)]

/-- A watch without its loop stays so. -/
theorem step_gone (hloops : c.watch.session.loops = []) (part : Int32) {i : CaptureInput}
    (hi : i ≠ .signalRead ∧ ∀ stored, i ≠ .signalPut stored) :
    (c.step ctx part i).watch.session.loops = [] ∧
      (c.step ctx part i).watch.session.stored = c.watch.session.stored := by
  have hloop : c.watch.session.loop? 0 = none := KafkaWatch.loop?_none hloops
  cases i with
  | connect flushed =>
    rw [Capturing.step, KafkaWatch.step, Session.step, hloop]
    exact ⟨hloops, rfl⟩
  | take now image flushed fault =>
    have hrun : c.watch.running = none := by rw [KafkaWatch.running, hloop, Option.filter_none]
    rw [Capturing.step, Capturing.take, hrun]
    exact ⟨hloops, rfl⟩
  | done => exact ⟨hloops, rfl⟩
  | leave doneCleanly =>
    rw [Capturing.step, KafkaWatch.step, Session.step, hloop]
    exact ⟨hloops, rfl⟩
  | finish fault flushed =>
    rw [Capturing.step, KafkaWatch.step, Session.step, hloop]
    exact ⟨hloops, rfl⟩
  | signalRead => exact absurd rfl hi.1
  | signalPut stored => exact absurd rfl (hi.2 stored)

/-- What a step makes of the loop: it leaves only when it is told to, and it is gone
once its last metadata has been written. -/
theorem step_live (hcloud : ctx.isCloudPrimary = true) (hloops : c.watch.session.loops = [l])
    (hid : l.id = 0) (part : Int32) {i : CaptureInput}
    (hi : i ≠ .signalRead ∧ ∀ stored, i ≠ .signalPut stored) :
    (∃ k, (c.step ctx part i).watch.session.loops = [k] ∧ k.id = 0 ∧
        ∀ doneCleanly, k.phase = .leaving doneCleanly → k = l ∨
          i = .leave doneCleanly ∧ l.phase = .running ∧ k.metadata = l.metadata ∧
            ¬ (doneCleanly = true ∧ c.watch.session.handle = some 0)) ∨
      ∃ doneCleanly fault flushed, i = .finish fault flushed ∧ l.phase = .leaving doneCleanly ∧
        (c.step ctx part i).watch.session.loops = [] ∧
        (flushed = true → ∃ m, (c.step ctx part i).watch.session.stored = some m ∧
          m.steps = l.metadata.steps ∧ (doneCleanly = false → m.status = "incomplete")) := by
  have hloop : c.watch.session.loop? 0 = some l := KafkaWatch.loop?_some hloops hid
  have hsame : ∀ c' : Capturing, c'.watch.session.loops = c.watch.session.loops →
      ∃ k, c'.watch.session.loops = [k] ∧ k.id = 0 ∧
        ∀ doneCleanly, k.phase = .leaving doneCleanly → k = l ∨
          i = .leave doneCleanly ∧ l.phase = .running ∧ k.metadata = l.metadata ∧
            ¬ (doneCleanly = true ∧ c.watch.session.handle = some 0) :=
    fun c' hc' => ⟨l, hc'.trans hloops, hid, fun _ _ => .inl rfl⟩
  cases i with
  | connect flushed =>
    refine .inl ?_
    rw [Capturing.step, KafkaWatch.step, Session.step, hloop]
    dsimp only
    split
    · rw [Session.connect, if_pos rfl]
      exact ⟨_, setLoop_single hloops rfl, hid, fun _ hphase => by cases hphase⟩
    · exact hsame c rfl
  | take now image flushed fault =>
    refine .inl ?_
    rw [Capturing.step, Capturing.take]
    split
    · rename_i l' r rest hrun hrest
      have hrunning := running_single hloops hid
      rw [hrun] at hrunning
      split at hrunning
      · rename_i hphase
        obtain rfl : l' = l := Option.some.inj hrunning
        cases r.event with
        | none => exact hsame c rfl
        | some e =>
          dsimp only
          rw [KafkaWatch.deliver_running hrun]
          obtain ⟨k, hkid, hkphase, hk⟩ := event_setLoop ctx c.watch.session l'
            ⟨e, now, fun _ => none, image, some (part, r.offset), flushed, fault⟩
          refine ⟨k, hk.trans (setLoop_single hloops hkid.symm), hkid.trans hid, fun _ hleaves => ?_⟩
          rw [hkphase, hphase] at hleaves
          cases hleaves
      · cases hrunning
    · exact hsame c rfl
  | done => exact .inl (hsame _ rfl)
  | leave doneCleanly =>
    refine .inl ?_
    rw [Capturing.step, KafkaWatch.step, Session.step, hloop]
    dsimp only
    split
    · rename_i hphase
      rw [Session.leave]
      split
      · exact hsame c rfl
      · rename_i hleaves
        refine ⟨_, setLoop_single hloops rfl, hid, fun doneCleanly' hk => .inr ?_⟩
        cases hk
        exact ⟨rfl, hphase, rfl, hid ▸ hleaves⟩
    · exact hsame c rfl
  | finish fault flushed =>
    rw [Capturing.step, KafkaWatch.step, Session.step, hloop]
    dsimp only
    split
    · rename_i doneCleanly hphase
      refine .inr ⟨doneCleanly, fault, flushed, rfl, hphase, ?_⟩
      rw [KafkaWatch.finish_cloud hcloud]
      refine ⟨dropLoop_single hloops, fun hflushed => ⟨_, if_pos hflushed, ?_, fun hd => ?_⟩⟩
      · exact (KafkaWatch.lastMetadata_frame l.metadata doneCleanly).1
      · rw [hd]
        rfl
    · exact .inl (hsame c rfl)
    · exact .inl (hsame c rfl)
  | signalRead => exact absurd rfl hi.1
  | signalPut stored => exact absurd rfl (hi.2 stored)

end Loops

section Invariant

variable {ctx : Context} {topic : Topic} {sid : String} {n : Nat} {w : Watched}

theorem fromFirst_nil (h : stepEvents w.sent = []) : fromFirst topic sid w = [] := by
  rw [fromFirst, h]
  rfl

theorem fromFirst_eq {C D : List (Int64 × CommandEvent)} (hne : stepEvents w.sent ≠ [])
    (h : topic.commands sid = C ++ stepEvents w.sent ++ D) :
    fromFirst topic sid w = stepEvents w.sent ++ D := by
  have hpairs := commands_pairwise topic sid
  rw [fromFirst]
  cases hsent : stepEvents w.sent with
  | nil => exact absurd hsent hne
  | cons first later =>
    rw [hsent, List.append_assoc] at h
    rw [h] at hpairs ⊢
    have hbelow : ∀ c ∈ C, decide (c.1 < first.1) = true := fun c hc =>
      decide_eq_true ((List.pairwise_append.mp hpairs).2.2 c hc first List.mem_cons_self)
    change (C ++ (first :: later ++ D)).dropWhile _ = _
    rw [List.dropWhile_append_of_pos hbelow]
    exact List.dropWhile_cons_of_neg (by simp)

theorem recordsBefore_mono {k : Nat} (h : k ≤ n) {a : Int64 × CommandEvent}
    (ha : a ∈ stepEvents (recordsBefore topic sid k)) : a ∈ stepEvents (recordsBefore topic sid n) := by
  obtain ⟨rest, hrest⟩ := (List.take_prefix_take_left h (l := topic.messages (topic.home sid))).map
    (Message.recordFor sid)
  change a ∈ stepEvents (((topic.messages (topic.home sid)).take n).map _)
  rw [← hrest, stepEvents_append]
  exact List.mem_append_left _ ha

/-- The sent events are a segment of the partition without a gap, and a routed session
has come up to the position of the consumer. A session that missed an event has all
before it, or still takes them. -/
structure Sound (ctx : Context) (topic : Topic) (sid : String) (n : Nat) (w : Watched) : Prop where
  tracks : Tracks ctx w.sent w.capture
  segment : ∃ C D, topic.commands sid = C ++ stepEvents w.sent ++ D
  behind : w.routed = true → stepEvents w.sent ≠ [] →
    ∀ a ∈ stepEvents (recordsBefore topic sid n), ∃ c ∈ stepEvents w.sent, ¬ c.1 < a.1
  attending : w.routed = true → ∀ l ∈ w.capture.watch.session.loops, ∀ d, l.phase ≠ .leaving d
  missed : ∀ r, w.missed = some r → w.routed = false ∧
    stepEvents w.sent = (fromFirst topic sid w).takeWhile fun c => c.1 < r.offset
  drained : w.missed.isSome = true →
    (∀ l ∈ w.capture.watch.session.loops, ∀ d, l.phase = .leaving d →
      d = false ∧ Holds ctx l.metadata (stepEvents w.sent)) ∧
    (w.capture.watch.session.loops = [] → ∃ m, w.capture.watch.session.stored = some m ∧
      m.status = "incomplete" ∧ Holds ctx m (stepEvents w.sent))

theorem sound_start (hcloud : ctx.isCloudPrimary = true) : Sound ctx topic sid n (.start ctx) where
  tracks := tracks_start hcloud
  segment := ⟨[], topic.commands sid, rfl⟩
  behind _ hne := absurd rfl hne
  attending _ l hl d hphase := by
    obtain rfl := List.mem_singleton.mp hl
    cases hphase
  missed _ h := by cases h
  drained h := by cases h

theorem Sound.rewind (h : Sound ctx topic sid n w) {k : Nat} (hk : k ≤ n) : Sound ctx topic sid k w :=
  { h with behind := fun hrouted hne a ha => h.behind hrouted hne a (recordsBefore_mono hk ha) }

/-- A message without a command event of the session. -/
theorem Sound.pass (h : Sound ctx topic sid n w) {msg : Message}
    (hmsg : (topic.messages (topic.home sid))[n]? = some msg) (hnone : stepEvents [msg.recordFor sid] = []) :
    Sound ctx topic sid (n + 1) w := by
  refine { h with behind := fun hrouted hne a ha => h.behind hrouted hne a ?_ }
  rwa [recordsBefore_succ topic sid hmsg, stepEvents_append, hnone, List.append_nil] at ha

/-- A session that is not routed any more does not care for the position. -/
theorem Sound.unrouted (h : Sound ctx topic sid n w) (hrouted : w.routed = false) (k : Nat) :
    Sound ctx topic sid k w :=
  { h with behind := fun hc => by rw [hrouted] at hc; cases hc }

theorem Sound.close (h : Sound ctx topic sid n w) (k : Nat) :
    Sound ctx topic sid k { w with routed := false } where
  tracks := h.tracks
  segment := h.segment
  behind hc := by cases hc
  attending hc := by cases hc
  missed r hr := ⟨rfl, (h.missed r hr).2⟩
  drained := h.drained

theorem Sound.missed_none (h : Sound ctx topic sid n w) (hrouted : w.routed = true) : w.missed = none := by
  cases hmissed : w.missed with
  | none => rfl
  | some r =>
    have hnot := (h.missed r hmissed).1
    rw [hrouted] at hnot
    cases hnot

/-- The place of a message in the commands, when the sent events lie before it. -/
theorem Sound.place (h : Sound ctx topic sid n w) (hrouted : w.routed = true) {msg : Message}
    (hmsg : (topic.messages (topic.home sid))[n]? = some msg)
    (hnew : ∀ c ∈ stepEvents w.sent, c.1 < msg.offset) :
    ∃ C, stepEvents (recordsBefore topic sid n) = C ++ stepEvents w.sent := by
  by_cases hne : stepEvents w.sent = []
  · exact ⟨_, by rw [hne, List.append_nil]⟩
  · obtain ⟨C, D, hsplit⟩ := h.segment
    have hpairs := commands_pairwise topic sid
    have hcommands := commands_split topic sid n
    rw [hcommands] at hpairs hsplit
    exact ⟨C, (suffix_of_segment hpairs hsplit hne
      (fun b hb hin => not_below_recordsFrom topic sid hmsg b hb (hnew b hin)) (h.behind hrouted hne)).1⟩

theorem Sound.put (h : Sound ctx topic sid n w) (hrouted : w.routed = true) {msg : Message} {e : CommandEvent}
    (hmsg : (topic.messages (topic.home sid))[n]? = some msg)
    (hrecord : msg.recordFor sid = ⟨msg.offset, some e⟩)
    (hnew : e.actionType ≠ "position" → ∀ c ∈ stepEvents w.sent, c.1 < msg.offset) :
    Sound ctx topic sid (n + 1) { w with
      capture.rest := w.capture.rest ++ [⟨msg.offset, some e⟩]
      sent := w.sent ++ [⟨msg.offset, some e⟩] } := by
  have hmissed := h.missed_none hrouted
  have htracks : Tracks ctx (w.sent ++ [⟨msg.offset, some e⟩])
      { w.capture with rest := w.capture.rest ++ [⟨msg.offset, some e⟩] } := by
    obtain ⟨taken, hlog, htaken⟩ := h.tracks.log
    refine ⟨h.tracks.watching, h.tracks.loop, ⟨taken, ?_, htaken⟩, h.tracks.stored, h.tracks.fetched⟩
    rw [hlog, List.append_assoc]
  by_cases hpos : e.actionType = "position"
  · have hnone : stepEvents [⟨msg.offset, some e⟩] = [] := by simp [stepEvents, recordEvents, hpos]
    have hpassed := h.pass hmsg (by rw [hrecord, hnone])
    have hsame : stepEvents (w.sent ++ [⟨msg.offset, some e⟩]) = stepEvents w.sent := by
      rw [stepEvents_append, hnone, List.append_nil]
    refine ⟨htracks, ?_, fun _ => ?_, h.attending, fun r hr => ?_, fun hr => ?_⟩
    · dsimp only
      rw [hsame]
      exact h.segment
    · dsimp only
      rw [hsame]
      exact hpassed.behind hrouted
    · rw [hmissed] at hr
      cases hr
    · rw [hmissed] at hr
      cases hr
  · have hone : stepEvents [⟨msg.offset, some e⟩] = [(msg.offset, e)] := by
      simp [stepEvents, recordEvents, hpos]
    have hgrown : stepEvents (w.sent ++ [⟨msg.offset, some e⟩]) =
        stepEvents w.sent ++ [(msg.offset, e)] := by
      rw [stepEvents_append, hone]
    have hbefore := recordsBefore_succ topic sid hmsg
    rw [hrecord] at hbefore
    obtain ⟨C, hC⟩ := h.place hrouted hmsg (hnew hpos)
    have hcommands := commands_split topic sid (n + 1)
    rw [hbefore, stepEvents_append, hone, hC, List.append_assoc C] at hcommands
    refine ⟨htracks, ⟨C, stepEvents (recordsFrom topic sid (n + 1)), ?_⟩,
      fun _ _ a ha => ⟨(msg.offset, e), ?_, ?_⟩, h.attending, fun r hr => ?_, fun hr => ?_⟩
    · dsimp only
      rw [hgrown]
      exact hcommands
    · dsimp only
      rw [hgrown]
      exact List.mem_append_right _ List.mem_cons_self
    · -- The event is the last one before the new position.
      have hpairs := commands_pairwise topic sid
      rw [commands_split topic sid (n + 1), hbefore, stepEvents_append, hone] at hpairs
      rw [hbefore, stepEvents_append, hone] at ha
      obtain hearlier | hlast := List.mem_append.mp ha
      · exact Int64.lt_asymm ((List.pairwise_append.mp (List.pairwise_append.mp hpairs).1).2.2 a hearlier
          (msg.offset, e) List.mem_cons_self)
      · rw [List.mem_singleton.mp hlast]
        exact Int64.lt_irrefl
    · rw [hmissed] at hr
      cases hr
    · rw [hmissed] at hr
      cases hr

theorem Sound.miss (h : Sound ctx topic sid n w) (hrouted : w.routed = true) {msg : Message}
    (hmsg : (topic.messages (topic.home sid))[n]? = some msg)
    (hnew : ∀ c ∈ stepEvents w.sent, c.1 < msg.offset) (hlive : w.capture.watch.session.loops ≠ [])
    {r : KafkaRecord} (hr : r.offset = msg.offset) (k : Nat) :
    Sound ctx topic sid k { w with routed := false, missed := some r } where
  tracks := h.tracks
  segment := h.segment
  behind hc := by cases hc
  attending hc := by cases hc
  missed r' hr' := by
    cases hr'
    refine ⟨rfl, ?_⟩
    dsimp only
    rw [hr]
    by_cases hne : stepEvents w.sent = []
    · rw [fromFirst_nil (w := ⟨w.capture, false, w.sent, some r⟩) hne, hne]
      rfl
    · obtain ⟨C, hC⟩ := h.place hrouted hmsg hnew
      have hcommands := commands_split topic sid n
      rw [hC] at hcommands
      rw [fromFirst_eq (w := ⟨w.capture, false, w.sent, some r⟩) hne hcommands,
        List.takeWhile_append_of_pos fun c hc => decide_eq_true (hnew c hc)]
      have hstop : (stepEvents (recordsFrom topic sid n)).takeWhile (fun c => decide (c.1 < msg.offset)) = [] := by
        cases hfrom : stepEvents (recordsFrom topic sid n) with
        | nil => rfl
        | cons b later =>
          have hb := not_below_recordsFrom topic sid hmsg b (hfrom ▸ List.mem_cons_self)
          exact List.takeWhile_cons_of_neg (by simpa using hb)
      rw [hstop, List.append_nil]
  drained _ := ⟨fun l hl d hphase => absurd hphase (h.attending hrouted l hl d), fun hgone => absurd hgone hlive⟩

end Invariant

section Acts

variable {ctx : Context} {topic : Topic} {sid : String} {n : Nat} {w : Watched}

theorem Sound.holds_taken (h : Sound ctx topic sid n w) (hrest : w.capture.rest = []) {l : WatchLoop}
    (hl : l ∈ w.capture.watch.session.loops) : Holds ctx l.metadata (stepEvents w.sent) := by
  obtain ⟨taken, hlog, htaken⟩ := h.tracks.log
  rw [hrest, List.append_nil] at hlog
  rw [Holds, hlog, htaken, List.map_map]
  exact (h.tracks.loop l hl).1.has.steps

/-- What the acts of a watch must keep to when an event was missed. -/
def Drains (w : Watched) : CaptureInput → Prop
  | .leave doneCleanly =>
      if doneCleanly = true then w.capture.watch.session.handle = some 0 else w.capture.rest = []
  | .finish _ flushed => flushed = true
  | .connect _ | .take _ _ _ _ | .done | .signalRead | .signalPut _ => True

theorem Sound.act (hcloud : ctx.isCloudPrimary = true) (h : Sound ctx topic sid n w) (part : Int32)
    {i : CaptureInput} (hi : i ≠ .signalRead ∧ ∀ stored, i ≠ .signalPut stored) {b : Bool}
    (hb : b = true → w.routed = true ∧ ((w.capture.step ctx part i).watch.running.isSome = true ∨
      w.capture.watch.running.isNone = true ∨ ∀ d, i ≠ .leave d))
    (hdrains : w.missed.isSome = true → Drains w i) :
    Sound ctx topic sid n { w with capture := w.capture.step ctx part i, routed := b } where
  tracks := tracks_step hcloud h.tracks part i
  segment := h.segment
  behind hrouted := h.behind (hb hrouted).1
  attending hrouted k hk d hphase := by
    obtain ⟨hwas, hstill⟩ := hb hrouted
    obtain hnone | ⟨l, hloops, -, hid, -⟩ := h.tracks.cases
    · dsimp only at hk
      rw [(step_gone hnone part hi).1] at hk
      cases hk
    · obtain ⟨k', hk', hid', hleaving⟩ | ⟨-, -, -, -, -, hgone, -⟩ := step_live hcloud hloops hid part hi
      · obtain rfl : k = k' := List.mem_singleton.mp (hk' ▸ hk)
        obtain rfl | ⟨rfl, hrunning, -⟩ := hleaving d hphase
        · exact h.attending hwas k (hloops ▸ List.mem_cons_self) d hphase
        · obtain hsome | hnone | hother := hstill
          · rw [running_single hk' hid', if_neg (by rw [hphase]; exact fun hc => by cases hc)] at hsome
            cases hsome
          · rw [running_single hloops hid, if_pos hrunning] at hnone
            cases hnone
          · exact hother d rfl
      · dsimp only at hk
        rw [hgone] at hk
        cases hk
  missed r hr := by
    obtain ⟨hnot, hsent⟩ := h.missed r hr
    refine ⟨?_, hsent⟩
    cases b with
    | false => rfl
    | true => exact absurd (hb rfl).1 (by rw [hnot]; exact Bool.false_ne_true)
  drained hmissed := by
    obtain ⟨hleaving, hended⟩ := h.drained hmissed
    obtain hnone | ⟨l, hloops, -, hid, -⟩ := h.tracks.cases
    · obtain ⟨hloops, hstored⟩ : (w.capture.step ctx part i).watch.session.loops = [] ∧ _ :=
        step_gone hnone part hi
      refine ⟨fun k hk => ?_, fun _ => ?_⟩
      · dsimp only at hk
        rw [hloops] at hk
        cases hk
      · dsimp only
        rw [hstored]
        exact hended hnone
    · have hl : l ∈ w.capture.watch.session.loops := hloops ▸ List.mem_cons_self
      obtain ⟨k', hk', -, hk'leaving⟩ | ⟨d, fault, flushed, rfl, hphase, hgone, hstored⟩ :=
        step_live hcloud hloops hid part hi
      · refine ⟨fun k hk d hphase => ?_, fun hgone => ?_⟩
        · obtain rfl : k = k' := List.mem_singleton.mp (hk' ▸ hk)
          obtain rfl | ⟨rfl, -, hmetadata, hleaves⟩ := hk'leaving d hphase
          · exact hleaving k hl d hphase
          · have hcareful := hdrains hmissed
            cases d with
            | true => exact absurd ⟨rfl, hcareful⟩ hleaves
            | false =>
              rw [hmetadata]
              exact ⟨rfl, h.holds_taken hcareful hl⟩
        · dsimp only at hgone
          rw [hk'] at hgone
          cases hgone
      · refine ⟨fun k hk => ?_, fun _ => ?_⟩
        · dsimp only at hk
          rw [hgone] at hk
          cases hk
        · obtain ⟨hclean, hholds⟩ := hleaving l hl d hphase
          obtain ⟨m, hm, hsteps, hincomplete⟩ := hstored (hdrains hmissed)
          exact ⟨m, hm, hincomplete hclean, by rw [Holds, hsteps]; exact hholds⟩

theorem Sound.leave (hcloud : ctx.isCloudPrimary = true) (h : Sound ctx topic sid n w) (part : Int32)
    (doneCleanly : Bool) (hdrains : w.missed.isSome = true → Drains w (.leave doneCleanly)) :
    Sound ctx topic sid n (w.leave ctx part doneCleanly) := by
  refine h.act hcloud part ⟨by simp, by simp⟩ (fun hb => ?_) hdrains
  obtain ⟨hwas, hstill⟩ := (Bool.and_eq_true _ _).mp hb
  exact ⟨hwas, ((Bool.or_eq_true _ _).mp hstill).imp id .inl⟩

theorem Sound.watch (hcloud : ctx.isCloudPrimary = true) (h : Sound ctx topic sid n w) (part : Int32)
    (act : WatchAct)
    (hcareful : w.missed.isSome = true →
      match act with
      | .doneSignal => w.capture.watch.session.handle = some 0
      | .eyesDown => w.capture.rest = []
      | .finish _ flushed => flushed = true
      | .connect _ | .take _ _ _ _ | .done | .closed => True) :
    Sound ctx topic sid n (w.step ctx part act) := by
  cases act with
  | connect flushed => exact h.act hcloud part ⟨by simp, by simp⟩ (fun hb => ⟨hb, by simp⟩) fun _ => trivial
  | take now image flushed fault =>
    exact h.act hcloud part ⟨by simp, by simp⟩ (fun hb => ⟨hb, by simp⟩) fun _ => trivial
  | done => exact h.act hcloud part ⟨by simp, by simp⟩ (fun hb => ⟨hb, by simp⟩) fun _ => trivial
  | closed =>
    rw [Watched.step]
    split
    · rename_i hempty
      exact h.leave hcloud part false fun _ => hempty.2
    · exact h
  | doneSignal => exact h.leave hcloud part true hcareful
  | eyesDown => exact h.leave hcloud part false hcareful
  | finish fault flushed =>
    exact h.act hcloud part ⟨by simp, by simp⟩ (fun hb => ⟨hb, by simp⟩) hcareful

theorem Sound.gapFree (h : Sound ctx topic sid n w) : GapFree ctx topic sid w := by
  obtain ⟨C, D, hsplit⟩ := h.segment
  obtain ⟨taken, hlog, htaken⟩ := h.tracks.log
  have hsent : stepEvents w.sent <+: fromFirst topic sid w := by
    by_cases hne : stepEvents w.sent = []
    · rw [hne]
      exact List.nil_prefix
    · rw [fromFirst_eq hne hsplit]
      exact List.prefix_append _ _
  have hdelivered : (w.capture.watch.delivered.map fun d => (d.offset, d.written.event)) <+:
      stepEvents w.sent := by
    rw [hlog, stepEvents_append, htaken]
    exact List.prefix_append _ _
  have hsnapshot : ∀ ds m, ds <+: w.capture.watch.delivered → Snapshot ctx ds m →
      ∃ cs, cs <+: fromFirst topic sid w ∧ Holds ctx m cs := by
    intro ds m hds hsnap
    refine ⟨ds.map fun d => (d.offset, d.written.event), (hds.map _).trans (hdelivered.trans hsent), ?_⟩
    rw [Holds, List.map_map]
    exact hsnap.has.steps
  constructor
  · rintro m (⟨l, hl, rfl⟩ | hstored)
    · exact hsnapshot _ _ (List.prefix_refl _) (h.tracks.loop l hl).1
    · obtain ⟨⟨ds, hds, hsnap⟩, -⟩ := h.tracks.stored m hstored
      exact hsnapshot ds m hds hsnap
  · intro r hr hgone
    obtain ⟨m, hm, hstatus, hholds⟩ := (h.drained (by rw [hr]; rfl)).2 hgone
    exact ⟨m, hm, hstatus, (h.missed r hr).2 ▸ hholds⟩

/-- The recorded offset is that of the last step, and every later step event is above it. -/
theorem Sound.noReplay (h : Sound ctx topic sid n w) (part : Int32) (now : Text) (image : Vision)
    (flushed : Bool) (fault : Option Nat) :
    NoReplay w (w.step ctx part (.take now image flushed fault)) := by
  intro l r rest offset hrun hrest hoffset hnot l' hl'
  obtain ⟨hloop, hphase⟩ := KafkaWatch.running_spec hrun
  obtain hnone | ⟨k, hloops, -, hid, -, hsnap, -⟩ := h.tracks.cases
  · rw [KafkaWatch.loop?_none hnone] at hloop
    cases hloop
  obtain rfl := loop?_single hloops hloop
  rw [Watched.step, Capturing.step, Capturing.take, hrun, hrest] at hl'
  dsimp only at hl'
  cases hevent : r.event with
  | none =>
    rw [hevent] at hl'
    obtain rfl : l' = l := List.mem_singleton.mp (hloops ▸ hl')
    rfl
  | some e =>
    rw [hevent] at hl'
    dsimp only at hl'
    rw [KafkaWatch.deliver_running hrun] at hl'
    by_cases hpos : e.actionType = "position"
    · have hsame : w.capture.watch.session.event ctx l
          ⟨e, now, fun _ => none, image, some (part, r.offset), flushed, fault⟩ =
          w.capture.watch.session.setLoop
            { l with metadata := l.metadata.recordAgentVersion e.agentVersion } := by
        rw [Session.event]
        exact if_pos hpos
      rw [hsame] at hl'
      have hsingle : (w.capture.watch.session.setLoop
          { l with metadata := l.metadata.recordAgentVersion e.agentVersion }).loops = _ :=
        setLoop_single hloops rfl
      obtain rfl := List.mem_singleton.mp (hsingle ▸ hl')
      exact (recordAgentVersion_steps e.agentVersion).1
    · -- The event was sent after the one at the recorded offset.
      refine absurd hnot (Int64.not_le.mpr ?_)
      obtain ⟨C, D, hsplit⟩ := h.segment
      obtain ⟨taken, hlog, htaken⟩ := h.tracks.log
      have hpairs := commands_pairwise topic sid
      rw [hsplit, hlog, hrest, stepEvents_append, htaken] at hpairs
      have hordered := (List.pairwise_append.mp (List.pairwise_append.mp
        (List.pairwise_append.mp hpairs).1).2.1).2.2
      rw [hsnap.position] at hoffset
      obtain ⟨last, hlast, rfl⟩ := Option.map_eq_some_iff.mp hoffset
      refine hordered (last.offset, last.written.event) ?_ (r.offset, e) ?_
      · exact List.mem_map_of_mem (List.mem_of_getLast? hlast)
      · simp [stepEvents, recordEvents, hevent, hpos]

end Acts

section Rounds

variable {ctx : Context} {topic : Topic} {capacity : Nat} {s : Consumer}

/-- Every watched session is sound at the position of its partition. -/
def AllSound (ctx : Context) (topic : Topic) (s : Consumer) : Prop :=
  ∀ sid w, s.sessions sid = some w → Sound ctx topic sid (s.next (topic.home sid)) w

theorem recordFor_none {msg : Message} {sid : String} (h : ∀ e, msg.event? ≠ some (sid, e)) :
    stepEvents [msg.recordFor sid] = [] := by
  have hnone : (msg.recordFor sid).event = none := by
    rw [Message.recordFor]
    cases hevent : msg.event? with
    | none => rfl
    | some p =>
      obtain ⟨sid', e⟩ := p
      exact if_neg fun (hsame : sid' = sid) => h e (hsame ▸ hevent)
  simp [stepEvents, recordEvents, hnone]

/-- A session that a message is not for. -/
theorem AllSound.pass (h : AllSound ctx topic s) {part : Int32} {msg : Message}
    (hmsg : (topic.messages part)[s.next part]? = some msg) {sid : String} {w : Watched}
    (hw : s.sessions sid = some w) (hnot : ∀ e, msg.event? ≠ some (sid, e)) :
    Sound ctx topic sid (Function.update s.next part (s.next part + 1) (topic.home sid)) w := by
  by_cases hpart : topic.home sid = part
  · subst hpart
    rw [Function.update_self]
    exact (h sid w hw).pass hmsg (recordFor_none hnot)
  · rw [Function.update_of_ne hpart]
    exact h sid w hw

theorem sound_trySend {sid : String} {w : Watched} {n : Nat} (h : Sound ctx topic sid n w)
    (hrouted : w.routed = true) {msg : Message} {e : CommandEvent}
    (hmsg : (topic.messages (topic.home sid))[n]? = some msg) (hevent : msg.event? = some (sid, e))
    (hcareful : e.actionType ≠ "position" ∨ capacity ≤ w.capture.rest.length →
      ∀ c ∈ stepEvents w.sent, c.1 < msg.offset) :
    Sound ctx topic sid (n + 1) (w.trySend capacity ⟨msg.offset, some e⟩) := by
  rw [Watched.trySend]
  split
  · exact h.close (n + 1)
  · rename_i hlive
    split
    · refine h.put hrouted hmsg ?_ fun hpos => hcareful (.inl hpos)
      rw [Message.recordFor, hevent]
      exact congrArg (KafkaRecord.mk msg.offset) (if_pos rfl)
    · rename_i hfull
      exact h.miss hrouted hmsg (hcareful (.inr (Nat.not_lt.mp hfull))) hlive rfl (n + 1)

theorem sound_setSession (h : AllSound ctx topic s) {sid : String} {w : Watched}
    (hw : Sound ctx topic sid (s.next (topic.home sid)) w) : AllSound ctx topic (s.setSession sid w) := by
  intro sid' w' hw'
  change Function.update s.sessions sid (some w) sid' = some w' at hw'
  by_cases hsame : sid' = sid
  · subst hsame
    rw [Function.update_self] at hw'
    obtain rfl := Option.some.inj hw'
    exact hw
  · rw [Function.update_of_ne hsame] at hw'
    exact h sid' w' hw'

theorem sound_deliver (h : AllSound ctx topic s) (part : Int32)
    (hcareful : Careful topic capacity s (.deliver part)) :
    AllSound ctx topic (s.deliver topic capacity part) := by
  rw [Consumer.deliver]
  cases hmsg : (topic.messages part)[s.next part]? with
  | none => exact h
  | some msg =>
    dsimp only
    cases hevent : msg.event? with
    | none => exact fun sid w hw => h.pass hmsg hw fun e => by rw [hevent]; exact fun hc => by cases hc
    | some p =>
      obtain ⟨sid, e⟩ := p
      have hothers : ∀ sid' w', sid' ≠ sid → s.sessions sid' = some w' →
          Sound ctx topic sid' (Function.update s.next part (s.next part + 1) (topic.home sid')) w' := by
        intro sid' w' hne hw'
        refine h.pass hmsg hw' fun e' hc => hne ?_
        rw [hevent] at hc
        cases hc
        rfl
      obtain rfl : part = topic.home sid :=
        topic.keyed part msg sid e (List.mem_of_getElem? hmsg) hevent
      dsimp only
      cases hsession : s.sessions sid with
      | none =>
        intro sid' w' hw'
        refine hothers sid' w' (fun hsame => ?_) hw'
        rw [hsame, hsession] at hw'
        cases hw'
      | some w =>
        dsimp only
        have hw := h sid w hsession
        split
        · rename_i hrouted
          intro sid' w' hw'
          change Function.update s.sessions sid (some _) sid' = some w' at hw'
          by_cases hsame : sid' = sid
          · subst hsame
            rw [Function.update_self] at hw'
            obtain rfl := Option.some.inj hw'
            change Sound ctx topic sid' (Function.update s.next _ _ _) _
            rw [Function.update_self]
            exact sound_trySend hw hrouted hmsg hevent (hcareful msg sid' e w hmsg hevent hsession hrouted)
          · rw [Function.update_of_ne hsame] at hw'
            exact hothers sid' w' hsame hw'
        · rename_i hnot
          intro sid' w' hw'
          by_cases hsame : sid' = sid
          · subst hsame
            obtain rfl := Option.some.inj (hsession.symm.trans hw')
            exact hw.unrouted (Bool.eq_false_iff.mpr hnot) _
          · exact hothers sid' w' hsame hw'

theorem sound_step (hcloud : ctx.isCloudPrimary = true) (h : AllSound ctx topic s) (act : Act)
    (hcareful : Careful topic capacity s act) : AllSound ctx topic (s.step ctx topic capacity act) := by
  cases act with
  | start sid =>
    rw [Consumer.step]
    split
    · exact sound_setSession h (sound_start hcloud)
    · exact h
  | deliver part => exact sound_deliver h part hcareful
  | rewind part position =>
    intro sid w hw
    change Sound ctx topic sid (Function.update s.next part _ (topic.home sid)) w
    by_cases hpart : topic.home sid = part
    · subst hpart
      rw [Function.update_self]
      exact (h sid w hw).rewind (min_le_right _ _)
    · rw [Function.update_of_ne hpart]
      exact h sid w hw
  | watch sid act =>
    rw [Consumer.step]
    cases hw : s.sessions sid with
    | none => exact h
    | some w => exact sound_setSession h ((h sid w hw).watch hcloud _ act (hcareful w hw))

theorem idempotent_step (hcloud : ctx.isCloudPrimary = true) (h : AllSound ctx topic s) (act : Act)
    (hcareful : Careful topic capacity s act) :
    Idempotent ctx topic s act (s.step ctx topic capacity act) := by
  refine ⟨fun sid w hw => (sound_step hcloud h act hcareful sid w hw).gapFree, ?_⟩
  rintro sid now image flushed fault w w' rfl hw hw'
  rw [Consumer.step, hw] at hw'
  change Function.update s.sessions sid _ sid = some w' at hw'
  rw [Function.update_self] at hw'
  rw [← Option.some.inj hw']
  exact (h sid w hw).noReplay (topic.home sid) now image flushed fault

end Rounds

/-- As long as no command event comes to a routed session again, and a session that missed
an event is drained, the steps of every session are its events in order without a gap. -/
theorem redelivery_idempotent (ctx : Context) (hcloud : ctx.isCloudPrimary = true) (topic : Topic)
    (capacity : Nat) (acts : List Act)
    (hcareful : Guarded (Consumer.step ctx topic capacity) (Careful topic capacity) Consumer.empty acts) :
    Along (Consumer.step ctx topic capacity) (Idempotent ctx topic) Consumer.empty acts := by
  have hstep : ∀ s act, AllSound ctx topic s → Careful topic capacity s act →
      AllSound ctx topic (s.step ctx topic capacity act) :=
    fun s act h hcareful => sound_step hcloud h act hcareful
  have hkeep : ∀ s act, AllSound ctx topic s → Careful topic capacity s act →
      Idempotent ctx topic s act (s.step ctx topic capacity act) :=
    fun s act h hcareful => idempotent_step hcloud h act hcareful
  exact along_run hstep hkeep Consumer.empty acts (fun sid w hw => by cases hw) hcareful

/-- Two events of one session. -/
def sampleTopic : Topic where
  messages p := if p = 0 then [⟨7, publish "s" sampleEvent⟩, ⟨8, publish "s" sampleEvent⟩] else []
  home _ := 0
  increasing p := by
    split
    · exact List.pairwise_pair.mpr (by decide)
    · exact List.Pairwise.nil
  keyed p msg sid e hmsg _ := by
    split at hmsg
    · rename_i hp
      exact hp
    · cases hmsg

def sampleTake : WatchAct := .take "2026-02-25 12:58:04 UTC".toList .off true none

theorem redelivery_idempotent_sample :
    Along (Consumer.step cloudContext sampleTopic 4) (Idempotent cloudContext sampleTopic) Consumer.empty
      [.start "s", .watch "s" (.connect true), .deliver 0, .watch "s" sampleTake] := by
  refine redelivery_idempotent cloudContext rfl sampleTopic 4 _
    ⟨trivial, fun _ _ _ => trivial, ?_, fun _ _ _ => trivial, trivial⟩
  intro msg sid e w _ _ hw _ _ c hc
  by_cases hs : sid = "s"
  · subst hs
    cases hw
    cases hc
  · change (Function.update (Function.update (fun _ => none) "s" _) "s" _ : String → Option Watched) sid =
      some w at hw
    rw [Function.update_of_ne hs, Function.update_of_ne hs] at hw
    cases hw

theorem event_sample (offset : Int64) :
    (Message.mk offset (publish "s" sampleEvent)).event? = some ("s", sampleEvent) :=
  (consume_publish "s" sampleEvent).trans (if_neg Bool.false_ne_true)

/-- The consumer is at a position of the topic, and the session at a state of its watch. -/
def At (s : Consumer) (n : Nat) (w : Watched) : Prop := s.next 0 = n ∧ s.sessions "s" = some w

section Samples

variable {s : Consumer} {n : Nat} {w : Watched} {capacity : Nat}

theorem setSession_self (s : Consumer) (sid : String) (w : Watched) :
    (s.setSession sid w).sessions sid = some w := by
  change Function.update s.sessions sid (some w) sid = some w
  rw [Function.update_self]

theorem at_message (capacity : Nat) (h : At s n w) {msg : Message} {e : CommandEvent}
    (hmsg : (sampleTopic.messages 0)[n]? = some msg) (hevent : msg.event? = some ("s", e))
    (hrouted : w.routed = true) :
    At (s.step cloudContext sampleTopic capacity (.deliver 0)) (n + 1)
      (w.trySend capacity ⟨msg.offset, some e⟩) := by
  obtain ⟨rfl, hw⟩ := h
  rw [Consumer.step, Consumer.deliver, hmsg]
  dsimp only
  rw [hevent]
  dsimp only
  rw [hw]
  dsimp only
  rw [if_pos hrouted]
  refine ⟨?_, setSession_self _ _ _⟩
  change Function.update s.next 0 (s.next 0 + 1) 0 = s.next 0 + 1
  rw [Function.update_self]

/-- The next of the two events goes to the watch. -/
theorem at_deliver (capacity : Nat) (h : At s n w) {offset : Int64}
    (hmsg : (sampleTopic.messages 0)[n]? = some ⟨offset, publish "s" sampleEvent⟩) (hrouted : w.routed = true) :
    At (s.step cloudContext sampleTopic capacity (.deliver 0)) (n + 1)
      (w.trySend capacity ⟨offset, some sampleEvent⟩) :=
  at_message capacity h hmsg (event_sample offset) hrouted

theorem at_watch (capacity : Nat) (h : At s n w) (act : WatchAct) :
    At (s.step cloudContext sampleTopic capacity (.watch "s" act)) n (w.step cloudContext 0 act) := by
  rw [Consumer.step, h.2]
  exact ⟨h.1, setSession_self _ _ _⟩

theorem at_rewind (capacity : Nat) (h : At s n w) :
    At (s.step cloudContext sampleTopic capacity (.rewind 0 0)) 0 w := by
  refine ⟨?_, h.2⟩
  change Function.update s.next 0 (min 0 (s.next 0)) 0 = 0
  rw [Function.update_self, Nat.zero_min]

theorem at_start (capacity : Nat) (hcapacity : 0 < capacity) :
    At (Consumer.empty.step cloudContext sampleTopic capacity (.start "s")) 0 (.start cloudContext) := by
  rw [Consumer.step, decide_eq_true hcapacity]
  exact ⟨rfl, setSession_self .empty "s" _⟩

end Samples

/-- The session has taken its event, and the channel has the event again. -/
def resent : Watched :=
  ((((Watched.start cloudContext).step cloudContext 0 (.connect true)).trySend 4 ⟨7, some sampleEvent⟩).trySend 4
    ⟨7, some sampleEvent⟩).step cloudContext 0 sampleTake

theorem replay_resent : ¬ NoReplay resent (resent.step cloudContext 0 sampleTake) := by
  intro h
  have hrun : (resent.capture.watch.running.map fun l => (l.metadata.kafkaOffset, l.metadata.steps.length)) =
      some (some 7, 1) := by decide +kernel
  obtain ⟨l, hl, hfields⟩ := Option.map_eq_some_iff.mp hrun
  obtain ⟨hoffset, hlength⟩ := Prod.mk.inj hfields
  have hnext : ((resent.step cloudContext 0 sampleTake).capture.watch.session.loops.map fun l' =>
      l'.metadata.steps.length) = [2] := by decide +kernel
  obtain ⟨l', hl', hsteps⟩ := List.mem_map.mp (hnext ▸ List.mem_cons_self)
  have hsame := h l ⟨7, some sampleEvent⟩ [] 7 hl (by decide +kernel) hoffset (Int64.le_refl 7) l' hl'
  rw [hsame, hlength] at hsteps
  cases hsteps

/-- The session has missed the second event, and ends with a Done. -/
def cutOff : Watched :=
  (((((((Watched.start cloudContext).step cloudContext 0 (.connect true)).trySend 1
    ⟨7, some sampleEvent⟩).trySend 1 ⟨8, some sampleEvent⟩).step cloudContext 0 sampleTake).step cloudContext 0
      .done).step cloudContext 0 .doneSignal).step cloudContext 0 (.finish none true)

theorem complete_cutOff : ¬ GapFree cloudContext sampleTopic "s" cutOff := by
  intro h
  have hmissed : cutOff.missed = some ⟨8, some sampleEvent⟩ := by decide +kernel
  have hgone : cutOff.capture.watch.session.loops.length = 0 := by decide +kernel
  have hstatus : (cutOff.capture.watch.session.stored.map SessionMetadata.status) = some "complete" := by
    decide +kernel
  obtain ⟨m, hm, hincomplete, -⟩ := h.cut _ hmissed (List.length_eq_zero_iff.mp hgone)
  rw [hm, Option.map_some, hincomplete] at hstatus
  exact absurd hstatus (by decide)

/-- An event that the broker sends again is a second step. Without this, a session that
missed the second event is complete after a Done. -/
theorem redelivery_not_idempotent :
    ¬ Along (Consumer.step cloudContext sampleTopic 4) (Idempotent cloudContext sampleTopic) Consumer.empty
        [.start "s", .watch "s" (.connect true), .deliver 0, .rewind 0 0, .deliver 0,
          .watch "s" sampleTake, .watch "s" sampleTake] ∧
      ¬ Along (Consumer.step cloudContext sampleTopic 1) (Idempotent cloudContext sampleTopic) Consumer.empty
        [.start "s", .watch "s" (.connect true), .deliver 0, .deliver 0, .watch "s" sampleTake,
          .watch "s" .done, .watch "s" .doneSignal, .watch "s" (.finish none true)] := by
  constructor
  · rintro ⟨-, -, -, -, -, -, h, -⟩
    have hconnected := at_watch 4 (at_start 4 (by decide)) (.connect true)
    have hsent := at_deliver 4 hconnected rfl rfl
    have hresent := at_watch 4 (at_deliver 4 (at_rewind 4 hsent) rfl (by decide +kernel)) sampleTake
    exact replay_resent (h.2 "s" _ _ _ _ _ _ rfl hresent.2 (at_watch 4 hresent sampleTake).2)
  · rintro ⟨-, -, -, -, -, -, -, h, -⟩
    have hconnected := at_watch 1 (at_start 1 (by decide)) (.connect true)
    have hsent := at_deliver 1 hconnected rfl rfl
    have hmissed := at_deliver 1 hsent rfl (by decide +kernel)
    have hdone := at_watch 1 (at_watch 1 hmissed sampleTake) .done
    exact complete_cutOff (h.1 "s" _ (at_watch 1 (at_watch 1 hdone .doneSignal) (.finish none true)).2)

end MemoryArchive.Capture.Redelivery
