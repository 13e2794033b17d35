import MemoryArchive.Capture.EventSources
import MemoryArchive.Capture.Stream

namespace MemoryArchive.Capture.Stream

inductive DisconnectReason
  | agentDisconnected
  | silenceTimeout
  | transportError (status : String)
  | agentRecordsLossy (refusal : String)
  deriving DecidableEq

/-- What the stream gives when it is asked for its next message. -/
inductive Received
  | elapsed
  | failed (status : String)
  | closed
  | event (event : CommandEvent)

/-- What `WatchStream` keeps between two calls. -/
structure WatchStream where
  disconnectReason : Option DisconnectReason
  allowUnsupported : Bool
  checkedAgentVersion : String

namespace WatchStream

def connected (allowUnsupported : Bool) : WatchStream := ⟨none, allowUnsupported, ""⟩

def disconnect (w : WatchStream) (reason : DisconnectReason) : WatchStream :=
  { w with disconnectReason := some reason }

/-- Check the agent version of an event unless it is blank or the one that was checked
last, and say why the agent is refused. -/
def checkAgent (w : WatchStream) (agentVersion : String) : WatchStream × Option String :=
  if Lines.trim agentVersion.toList ≠ [] ∧ agentVersion ≠ w.checkedAgentVersion then
    let w := { w with checkedAgentVersion := agentVersion }
    match (evaluateAgent agentVersion).refusal with
    | some refusal => (w, if w.allowUnsupported then none else some refusal)
    | none => (w, none)
  else (w, none)

/-- The next event that is no heartbeat, and what is left of the stream. A stream that
gives no more messages is silent. -/
def nextEvent (w : WatchStream) : List Received → Option CommandEvent × WatchStream × List Received
  | [] => (none, w.disconnect .silenceTimeout, [])
  | .elapsed :: rest => (none, w.disconnect .silenceTimeout, rest)
  | .failed status :: rest => (none, w.disconnect (.transportError status), rest)
  | .closed :: rest => (none, w.disconnect .agentDisconnected, rest)
  | .event event :: rest =>
      match w.checkAgent event.agentVersion with
      | (w, some refusal) => (none, w.disconnect (.agentRecordsLossy refusal), rest)
      | (w, none) => if event.isHeartbeat then w.nextEvent rest else (some event, w, rest)

/-- The events up to the first call that gives none, if that comes within so many calls. -/
def drain (w : WatchStream) (stream : List Received) : Nat → Option (List CommandEvent × WatchStream)
  | 0 => none
  | calls + 1 =>
      match w.nextEvent stream with
      | (none, w, _) => some ([], w)
      | (some event, w, rest) => (w.drain rest calls).map fun (events, w) => (event :: events, w)

end WatchStream

/-- The version parses to one below the fidelity floor. -/
def belowFloor (agentVersion : String) : Bool :=
  (Version.parse agentVersion).any fun found => found.lt recordFidelityMin

/-- The last agent version that is not blank. -/
def lastVersion (events : List CommandEvent) : Option String :=
  ((events.map CommandEvent.agentVersion).filter fun version => Lines.trim version.toList ≠ []).getLast?

/-- The events before the first one of an agent below the floor and before the end of
the stream, and what follows them. -/
def untilReport : List Received → List CommandEvent × List Received
  | .event event :: rest =>
      if belowFloor event.agentVersion then ([], .event event :: rest)
      else
        let (passed, rest) := untilReport rest
        (event :: passed, rest)
  | stream => ([], stream)

/-- Why the stream ends there. -/
def endReason : List Received → DisconnectReason
  | [] | .elapsed :: _ => .silenceTimeout
  | .failed status :: _ => .transportError status
  | .closed :: _ => .agentDisconnected
  | .event event :: _ => .agentRecordsLossy ((evaluateAgent event.agentVersion).refusal.getD "")

/-- What is yielded of a stream and why it ended: the events that are no heartbeats, of
those before the first one whose last reported version is below the floor. -/
structure Gated (stream : List Received) (events : List CommandEvent) (reason : Option DisconnectReason)
    (passed : List CommandEvent) (rest : List Received) : Prop where
  split : stream = passed.map .event ++ rest
  whole : ∀ event after, rest = .event event :: after → belowFloor event.agentVersion = true
  yields : events = passed.filter fun event => !event.isHeartbeat
  clean : ∀ before event after, passed = before ++ event :: after →
    ∀ version, lastVersion (before ++ [event]) = some version → belowFloor version = false
  refused : (∃ refusal, reason = some (.agentRecordsLossy refusal)) ↔
    ∃ event after, rest = .event event :: after ∧ belowFloor event.agentVersion = true

theorem belowFloor_eq (agentVersion : String) : belowFloor agentVersion = recordsLossy agentVersion := by
  rw [belowFloor, recordsLossy, evaluateAgent]
  cases Version.parse agentVersion with
  | none => rfl
  | some found =>
    rw [Option.any_some]
    dsimp only
    split
    case isTrue h => exact h
    case isFalse h => exact Bool.eq_false_iff.mpr h

/-- A blank version is below no floor. -/
theorem belowFloor_blank {agentVersion : String} (h : Lines.trim agentVersion.toList = []) :
    belowFloor agentVersion = false :=
  (belowFloor_eq agentVersion).trans (recordsLossy_blank h)

section Gate

variable {w : WatchStream}

/-- The versions that were let through are not below the floor. -/
structure WatchStream.Strict (w : WatchStream) : Prop where
  allow : w.allowUnsupported = false
  checked : belowFloor w.checkedAgentVersion = false

theorem strict_connected : (WatchStream.connected false).Strict :=
  ⟨rfl, belowFloor_blank rfl⟩

/-- An agent is refused exactly if its version is below the floor. -/
theorem checkAgent_spec (h : w.Strict) (agentVersion : String) :
    if belowFloor agentVersion then
      (w.checkAgent agentVersion).2 = some ((evaluateAgent agentVersion).refusal.getD "")
    else (w.checkAgent agentVersion).2 = none ∧ (w.checkAgent agentVersion).1.Strict := by
  rw [WatchStream.checkAgent]
  split
  case isTrue hbelow =>
    have hlossy := (belowFloor_eq agentVersion).symm.trans hbelow
    obtain ⟨refusal, hrefusal⟩ := Option.isSome_iff_exists.mp hlossy
    have hchecked : Lines.trim agentVersion.toList ≠ [] ∧ agentVersion ≠ w.checkedAgentVersion := by
      refine ⟨fun hblank => ?_, fun hsame => ?_⟩
      · rw [belowFloor_blank hblank] at hbelow
        cases hbelow
      · rw [hsame, h.checked] at hbelow
        cases hbelow
    rw [if_pos hchecked]
    dsimp only
    rw [hrefusal, h.allow]
    rfl
  case isFalse hbelow =>
    rw [Bool.not_eq_true] at hbelow
    have hrefusal : (evaluateAgent agentVersion).refusal = none := by
      have hlossy := (belowFloor_eq agentVersion).symm.trans hbelow
      exact Option.not_isSome_iff_eq_none.mp (Bool.eq_false_iff.mp hlossy)
    split
    · dsimp only
      rw [hrefusal]
      exact ⟨rfl, h.allow, hbelow⟩
    · exact ⟨rfl, h⟩

theorem split_untilReport (stream : List Received) :
    stream = (untilReport stream).1.map .event ++ (untilReport stream).2 := by
  induction stream with
  | nil => rfl
  | cons received rest ih =>
    cases received with
    | event event =>
      rw [untilReport]
      split
      · rfl
      · exact congrArg (_ :: ·) ih
    | _ => rfl

/-- The calls give the events before the first report, without the heartbeats. -/
theorem drain_spec (h : w.Strict) (stream : List Received) (calls : Nat) (hcalls : stream.length < calls) :
    ∃ w', w.drain stream calls =
        some ((untilReport stream).1.filter (fun event => !event.isHeartbeat), w') ∧
      w'.disconnectReason = some (endReason (untilReport stream).2) := by
  induction stream generalizing w calls with
  | nil =>
    obtain ⟨calls, rfl⟩ := Nat.exists_eq_succ_of_ne_zero (Nat.ne_of_gt hcalls)
    exact ⟨_, rfl, rfl⟩
  | cons received rest ih =>
    obtain ⟨calls, rfl⟩ := Nat.exists_eq_succ_of_ne_zero (Nat.ne_of_gt (Nat.zero_lt_of_lt hcalls))
    have hrest : rest.length < calls := Nat.lt_of_succ_lt_succ hcalls
    cases received with
    | elapsed | failed _ | closed => exact ⟨_, rfl, rfl⟩
    | event event =>
      have hspec := checkAgent_spec h event.agentVersion
      rw [untilReport, WatchStream.drain, WatchStream.nextEvent]
      generalize w.checkAgent event.agentVersion = checked at hspec
      obtain ⟨w₁, refusal⟩ := checked
      split at hspec
      case isTrue hbelow =>
        obtain rfl := hspec
        rw [if_pos hbelow]
        exact ⟨_, rfl, rfl⟩
      case isFalse hbelow =>
        obtain ⟨rfl, hstrict⟩ := hspec
        rw [if_neg hbelow]
        dsimp only
        cases hbeat : event.isHeartbeat with
        | true =>
          -- A heartbeat is passed over within the call.
          obtain ⟨w', hdrain, hreason⟩ := ih hstrict (calls + 1) (Nat.lt_succ_of_lt hrest)
          refine ⟨w', ?_, hreason⟩
          rw [List.filter_cons_of_neg (by simp [hbeat])]
          exact hdrain
        | false =>
          obtain ⟨w', hdrain, hreason⟩ := ih hstrict calls hrest
          refine ⟨w', ?_, hreason⟩
          rw [List.filter_cons_of_pos (by simp [hbeat])]
          exact congrArg (Option.map _) hdrain

theorem not_below_untilReport (stream : List Received) :
    ∀ event ∈ (untilReport stream).1, belowFloor event.agentVersion = false := by
  induction stream with
  | nil => exact fun _ h => absurd h List.not_mem_nil
  | cons received rest ih =>
    cases received with
    | elapsed | failed _ | closed => exact fun _ h => absurd h List.not_mem_nil
    | event event =>
      rw [untilReport]
      split
      case isTrue => exact fun _ h => absurd h List.not_mem_nil
      case isFalse hbelow =>
        exact List.forall_mem_cons.mpr ⟨Bool.eq_false_iff.mpr hbelow, ih⟩

theorem below_untilReport {stream : List Received} {event : CommandEvent} {after : List Received}
    (h : (untilReport stream).2 = .event event :: after) : belowFloor event.agentVersion = true := by
  induction stream with
  | nil => cases h
  | cons received rest ih =>
    cases received with
    | elapsed | failed _ | closed => cases h
    | event first =>
      rw [untilReport] at h
      split at h
      case isTrue hbelow =>
        cases h
        exact hbelow
      case isFalse => exact ih h

/-- The last version of some events is the version of one of them. -/
theorem mem_lastVersion {events : List CommandEvent} {version : String}
    (h : lastVersion events = some version) : ∃ event ∈ events, event.agentVersion = version := by
  have hmem := (List.mem_filter.mp (List.mem_of_getLast? h)).1
  exact List.mem_map.mp hmem

/-- An event ends the stream exactly if an agent is refused. -/
theorem endReason_refused (stream : List Received) :
    (∃ refusal, some (endReason stream) = some (.agentRecordsLossy refusal)) ↔
      ∃ event after, stream = .event event :: after := by
  constructor
  · rintro ⟨refusal, hrefusal⟩
    cases stream with
    | nil => cases hrefusal
    | cons received after =>
      cases received with
      | event event => exact ⟨event, after, rfl⟩
      | elapsed | failed _ | closed => cases hrefusal
  · rintro ⟨event, after, rfl⟩
    exact ⟨_, rfl⟩

/-- With the escape hatch off, a stream is taken to its end in finitely many calls, up to
the first report of an agent below the floor, and only such a report is given as the
reason that an agent is refused. -/
theorem stream_gated (stream : List Received) :
    ∃ events w passed rest,
      (WatchStream.connected false).drain stream (stream.length + 1) = some (events, w) ∧
        Gated stream events w.disconnectReason passed rest := by
  obtain ⟨w, hdrain, hreason⟩ := drain_spec strict_connected stream _ (Nat.lt_succ_self _)
  refine ⟨_, w, (untilReport stream).1, (untilReport stream).2, hdrain, split_untilReport stream,
    fun event after h => below_untilReport h, rfl, fun before event after hpassed version hversion => ?_, ?_⟩
  · obtain ⟨found, hfound, rfl⟩ := mem_lastVersion hversion
    refine not_below_untilReport stream found ?_
    rw [hpassed, List.append_cons]
    exact List.mem_append_left after hfound
  · rw [hreason, endReason_refused]
    refine ⟨fun ⟨event, after, hrest⟩ => ⟨event, after, hrest, below_untilReport hrest⟩, ?_⟩
    exact fun ⟨event, after, hrest, _⟩ => ⟨event, after, hrest⟩

end Gate

end MemoryArchive.Capture.Stream
