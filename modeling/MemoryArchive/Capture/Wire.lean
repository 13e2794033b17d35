import Mathlib.Algebra.Group.Int.Defs
import Mathlib.Algebra.Group.Nat.Defs
import MemoryArchive.Capture.Event
import MemoryArchive.Json.Value

namespace MemoryArchive.Capture

structure Version where
  major : Nat
  minor : Nat
  patch : Nat
  deriving DecidableEq

namespace Version

/-- Rust's `u32::from_str`. A sign cannot occur here, since the core of a version ends before one. -/
def number? (cs : Text) : Option Nat :=
  if cs ≠ [] ∧ cs.all Char.isDigit ∧ Json.digitsValue cs < 2 ^ 32 then some (Json.digitsValue cs) else none

/-- Parse `1.2.1`, with an optional `v` before and a `-` or `+` suffix after it. -/
def parse (raw : String) : Option Version :=
  let trimmed := Lines.trim raw.toList
  let trimmed := if trimmed.head? = some 'v' then trimmed.tail else trimmed
  let core := trimmed.takeWhile fun c => c ≠ '-' ∧ c ≠ '+'
  match core.splitOn '.' with
  | [major, minor, patch] => do
      let major ← number? major
      let minor ← number? minor
      let patch ← number? patch
      return ⟨major, minor, patch⟩
  | _ => none

def lt (v w : Version) : Bool :=
  v.major < w.major || v.major = w.major && (v.minor < w.minor || v.minor = w.minor && v.patch < w.patch)

def text (v : Version) : String :=
  toString v.major ++ "." ++ toString v.minor ++ "." ++ toString v.patch

end Version

/-- The oldest agent that reports a typed command faithfully. -/
def recordFidelityMin : Version := ⟨1, 2, 2⟩

inductive AgentFidelity
  | faithful (found : Version)
  | lossy (found min : Version)
  | unknown (reported : String)

def evaluateAgent (reported : String) : AgentFidelity :=
  match Version.parse reported with
  | none => .unknown reported
  | some found => if found.lt recordFidelityMin then .lossy found recordFidelityMin else .faithful found

/-- Why an agent is refused. -/
def AgentFidelity.refusal : AgentFidelity → Option String
  | faithful _ | unknown _ => none
  | lossy found min => some <|
      "Control-Center agent " ++ found.text ++ " does not record typed commands faithfully. Below " ++ min.text ++
      " the agent rebuilt its own report of what it typed by scanning for a closing quote, so any command " ++
      "containing one is stored truncated at that quote. The keystrokes actuate correctly and the artifact on " ++
      "disk is byte-exact — only the record is damaged, so nothing at capture time looks wrong and the loss is " ++
      "found long after the environment that produced it is gone. Refusing to record rather than write a trace " ++
      "that cannot be trusted. Upgrade the Control-Center agent to " ++ min.text ++ " or later (the server " ++
      "version is checked separately and does not cover this — the defect is in the agent). To record anyway, " ++
      "set `control_center_allow_unsupported = true`."

/-- The version is known to record lossily. -/
def recordsLossy (agentVersion : String) : Bool := (evaluateAgent agentVersion).refusal.isSome

/-- A blank version is unknown, not lossy. -/
theorem recordsLossy_blank {agentVersion : String} (h : Lines.trim agentVersion.toList = []) :
    recordsLossy agentVersion = false := by
  have hparse : Version.parse agentVersion = none := by
    rw [Version.parse, h]
    rfl
  rw [recordsLossy, evaluateAgent, hparse]
  rfl

section Codec

def str? (key : String) (j : Json) : Option String :=
  match j.get? key with
  | some (.str s) => some s
  | _ => none

def bool? (key : String) (j : Json) : Option Bool :=
  match j.get? key with
  | some (.bool b) => some b
  | _ => none

def int32? (key : String) (j : Json) : Option Int32 :=
  match j.get? key with
  | some (.num n) =>
      n.toInt?.bind fun i => if -2 ^ 31 ≤ i ∧ i < 2 ^ 31 then some (.ofInt i) else none
  | _ => none

/-- An event as it is read from the payload of an envelope: no field may be missing. -/
def CommandEvent.ofJson? (j : Json) : Option CommandEvent := do
  let sessionId ← str? "session_id" j
  let agentId ← str? "agent_id" j
  let agentVersion ← str? "agent_version" j
  let osType ← str? "os_type" j
  let timestamp ← str? "timestamp" j
  let rawCommand ← str? "raw_command" j
  let actionType ← str? "action_type" j
  let actionSubtype ← str? "action_subtype" j
  let isHereCommand ← bool? "is_here_command" j
  let success ← bool? "success" j
  let errorMessage ← str? "error_message" j
  let executionTimeMs ← int32? "execution_time_ms" j
  let mouseX ← int32? "mouse_x" j
  let mouseY ← int32? "mouse_y" j
  let positionCaptured ← bool? "position_captured" j
  let isHeartbeat ← bool? "is_heartbeat" j
  let agentAlive ← bool? "agent_alive" j
  return ⟨sessionId, agentId, agentVersion, osType, timestamp, rawCommand, actionType, actionSubtype,
    isHereCommand, success, errorMessage, executionTimeMs, mouseX, mouseY, positionCaptured, isHeartbeat,
    agentAlive⟩

/-- What the producer sends for an event. The payload is a map in key order. -/
structure KafkaEnvelope where
  schemaVersion : String
  sessionId : String
  eventType : String
  timestamp : String
  payload : Json

def KafkaEnvelope.toJson (e : KafkaEnvelope) : Json := .obj
  [("schema_version", .str e.schemaVersion), ("session_id", .str e.sessionId), ("event_type", .str e.eventType),
    ("timestamp", .str e.timestamp), ("payload", e.payload)]

def KafkaEnvelope.ofJson? (j : Json) : Option KafkaEnvelope := do
  let schemaVersion ← str? "schema_version" j
  let sessionId ← str? "session_id" j
  let eventType ← str? "event_type" j
  let timestamp ← str? "timestamp" j
  let payload ← j.get? "payload"
  return ⟨schemaVersion, sessionId, eventType, timestamp, payload⟩

/-- The message of an event. A heartbeat is not published. -/
def publish (sessionId : String) (e : CommandEvent) : Option Text :=
  if e.isHeartbeat then none
  else
    let payload := Json.rebuild Json.putSorted e.toJson
    some (Json.print .compact 0 (KafkaEnvelope.toJson ⟨"1.0", sessionId, "command_event", e.timestamp, payload⟩))

/-- The session and the event of a message, as the consumer reads them. -/
def consume (message : Text) : Option (String × CommandEvent) := do
  let j ← Json.parse message
  let envelope ← KafkaEnvelope.ofJson? (Json.rebuild Json.putSorted j)
  if envelope.eventType = "command_event" then do
    let event ← CommandEvent.ofJson? envelope.payload
    return (envelope.sessionId, event)
  else none

/-- A member of an object whose names differ is found in the object put in order. -/
theorem get?_rebuild (j : Json) {fields : Json.Fields} (hj : j = .obj fields)
    (hkeys : (fields.map Prod.fst).Nodup)
    {key : String} {v : Json} (h : j.get? key = some v) :
    (Json.rebuild Json.putSorted j).get? key = some (Json.rebuild Json.putSorted v) := by
  have hall : ∀ (fields acc : Json.Fields), (fields.map Prod.fst).Nodup →
      (acc.map Prod.fst).Pairwise (· < ·) → fields.lookup key = some v →
      (Json.rebuildFields Json.putSorted acc fields).lookup key = some (Json.rebuild Json.putSorted v) := by
    intro fields
    induction fields with
    | nil => exact nofun
    | cons f fields ih =>
      obtain ⟨k, w⟩ := f
      intro acc hnodup hacc h
      rw [List.map_cons, List.nodup_cons] at hnodup
      have hnext := pairwise_insertRow k (Json.rebuild Json.putSorted w) acc hacc
      rw [Json.rebuildFields, Json.putSorted]
      by_cases hk : key = k
      · subst hk
        rw [List.lookup_cons_self] at h
        cases h
        rw [Json.lookup_rebuildFields hnext hnodup.1, Table.lookup_insertRow key _ acc key hacc, if_pos rfl]
      · have hkey : (key == k) = false := beq_false_of_ne hk
        rw [List.lookup_cons, hkey] at h
        exact ih _ hnodup.2 hnext h
  subst hj
  exact hall fields [] hkeys .nil h

theorem int32?_of_get? {key : String} {j : Json} {i : Int32} (h : j.get? key = some (integer i)) :
    int32? key j = some i := by
  have hrange : -2 ^ 31 ≤ i.toInt ∧ i.toInt < 2 ^ 31 := ⟨i.le_toInt, i.toInt_lt⟩
  rw [int32?, h, integer]
  dsimp only
  rw [Json.toInt?_ofInt, Option.bind_some, if_pos hrange, Int32.ofInt_toInt]

/-- An event is read back as it was. -/
theorem ofJson?_toJson (e : CommandEvent) :
    CommandEvent.ofJson? (Json.rebuild Json.putSorted e.toJson) = some e := by
  have hkeys : ["session_id", "agent_id", "agent_version", "os_type", "timestamp", "raw_command", "action_type",
      "action_subtype", "is_here_command", "success", "error_message", "execution_time_ms", "mouse_x", "mouse_y",
      "position_captured", "is_heartbeat", "agent_alive"].Nodup := by
    decide
  have hget : ∀ key v, e.toJson.get? key = some v →
      (Json.rebuild Json.putSorted e.toJson).get? key = some (Json.rebuild Json.putSorted v) :=
    fun key v h => get?_rebuild e.toJson rfl hkeys h
  have hstr : ∀ key s, e.toJson.get? key = some (.str s) →
      str? key (Json.rebuild Json.putSorted e.toJson) = some s := by
    intro key s h
    rw [str?, hget key _ h]
    rfl
  have hbool : ∀ key b, e.toJson.get? key = some (.bool b) →
      bool? key (Json.rebuild Json.putSorted e.toJson) = some b := by
    intro key b h
    rw [bool?, hget key _ h]
    rfl
  have hint : ∀ key i, e.toJson.get? key = some (integer i) →
      int32? key (Json.rebuild Json.putSorted e.toJson) = some i :=
    fun key i h => int32?_of_get? (hget key _ h)
  rw [CommandEvent.ofJson?, hstr "session_id" _ rfl, hstr "agent_id" _ rfl, hstr "agent_version" _ rfl,
    hstr "os_type" _ rfl, hstr "timestamp" _ rfl, hstr "raw_command" _ rfl, hstr "action_type" _ rfl,
    hstr "action_subtype" _ rfl, hbool "is_here_command" _ rfl, hbool "success" _ rfl,
    hstr "error_message" _ rfl, hint "execution_time_ms" _ rfl, hint "mouse_x" _ rfl, hint "mouse_y" _ rfl,
    hbool "position_captured" _ rfl, hbool "is_heartbeat" _ rfl, hbool "agent_alive" _ rfl]
  rfl

theorem envelope_ofJson? (e : KafkaEnvelope) (hpayload : Json.Sorted e.payload) :
    KafkaEnvelope.ofJson? (Json.rebuild Json.putSorted e.toJson) = some e := by
  have hkeys : ["schema_version", "session_id", "event_type", "timestamp", "payload"].Nodup := by decide
  have hget : ∀ key v, e.toJson.get? key = some v →
      (Json.rebuild Json.putSorted e.toJson).get? key = some (Json.rebuild Json.putSorted v) :=
    fun key v h => get?_rebuild e.toJson rfl hkeys h
  have hstr : ∀ key s, e.toJson.get? key = some (.str s) →
      str? key (Json.rebuild Json.putSorted e.toJson) = some s := by
    intro key s h
    rw [str?, hget key _ h]
    rfl
  rw [KafkaEnvelope.ofJson?, hstr "schema_version" _ rfl, hstr "session_id" _ rfl, hstr "event_type" _ rfl,
    hstr "timestamp" _ rfl, hget "payload" _ rfl, Json.rebuild_putSorted _ hpayload]
  rfl

/-- The consumer gets every event that is published, and no heartbeat. -/
theorem consume_publish (sessionId : String) (e : CommandEvent) :
    (publish sessionId e).bind consume = if e.isHeartbeat then none else some (sessionId, e) := by
  cases hbeat : e.isHeartbeat with
  | true => rw [publish, if_pos hbeat]; rfl
  | false =>
    have hpayload := ofJson?_toJson e
    have hsorted : Json.Sorted (Json.rebuild Json.putSorted e.toJson) := Json.sorted_rebuild _
    rw [publish, if_neg (by rw [hbeat]; exact Bool.false_ne_true), if_neg Bool.false_ne_true]
    dsimp only
    generalize Json.rebuild Json.putSorted e.toJson = payload at hpayload hsorted
    have henvelope := envelope_ofJson? ⟨"1.0", sessionId, "command_event", e.timestamp, payload⟩ hsorted
    simp [consume, Json.parse_print, henvelope, hpayload]

end Codec

end MemoryArchive.Capture
