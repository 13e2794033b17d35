import MemoryArchive.Data.Runs

namespace MemoryArchive.Ipc.PushQueue

open Function (update)
open Runs

/-- A connection of the IPC socket. -/
abbrev Conn := Nat

/-- What is sent to a client that has not asked for it. -/
inductive Push
  | sessionStarted (sessionId : String)
  | stepReadyForReasoning (sessionId : String) (stepId : Nat)
  | fileWritten (sessionId relativePath : String)
  | sessionDisconnected (sessionId : String)
  | sessionComplete (sessionId : String) (totalSteps : Nat)
  deriving DecidableEq

/-- Where the task of a connection is: it selects between the next line and the
next push, or it is inside the handler of a message. A handler that is `pushing`
has taken the sender of a connection out of the push handles, and one that is
`sending` has found its queue full and waits. -/
inductive Task
  | select
  | starting (sessionId : String) (id : Nat)
  | failed (sessionId : String)
  | waiting (sessionId : String) (id : Nat)
  | finalising (sessionId : String) (totalSteps : Nat)
  | completing (sessionId : String) (totalSteps : Nat)
  | pushing (sessionId : String) (totalSteps : Nat) (target : Conn)
  | sending (sessionId : String) (totalSteps : Nat) (target : Conn)
  | closed
  deriving DecidableEq

inductive Phase
  | connecting
  | ready
  | recording
  | leaving (doneCleanly : Bool)
  | releasing
  deriving DecidableEq

/-- A watch loop, with the connection whose StartWatch has spawned it. -/
structure WatchLoop where
  id : Nat
  sessionId : String
  pushTx : Conn
  isAutomated : Bool
  phase : Phase
  stepCount : Nat
  deriving DecidableEq

/-- The task that fetches a closing image, and the files it has written and has
not pushed. -/
structure ClosingImage where
  sessionId : String
  syncTx : Conn
  written : Option (List String)
  deriving DecidableEq

structure State where
  queues : Conn → List Push
  tasks : Conn → Task
  loops : List WatchLoop
  images : List ClosingImage
  pushHandles : String → Option Conn
  doneHandles : String → Option Nat
  results : Nat → Nat
  next : Nat

/-- The messages that reach the handles. `admitted` says that StartWatch finds the
session and its directory, `recorded` what Done reads as the steps of the session
if the registry knows it, and `active` that DeleteSession is forced on an active
session. -/
inductive Request
  | startWatch (sessionId : String) (admitted isAutomated : Bool)
  | done (sessionId : String) (recorded : Option Nat)
  | deleteSession (sessionId : String) (active : Bool)
  | other

/-- A message arrives, a handler goes on, a push is written to the client, a
connection ends; or a watch loop or the task of a closing image takes a step. -/
inductive Act
  | request (c : Conn) (r : Request)
  | serve (c : Conn)
  | drain (c : Conn)
  | close (c : Conn)
  | connect (id : Nat) (connected : Bool)
  | insert (id : Nat)
  | event (id : Nat)
  | emitFileWritten (id : Nat) (rel : String)
  | stepReady (id : Nat)
  | leave (id : Nat) (doneCleanly : Bool)
  | exit (id : Nat)
  | fetched (k : Nat) (ext : String)
  | emitImage (k : Nat)

namespace State

def start : State := ⟨fun _ => [], fun _ => .select, [], [], fun _ => none, fun _ => none, fun _ => 0, 0⟩

variable (cap : Nat) (s : State)

def setTask (c : Conn) (task : Task) : State := { s with tasks := update s.tasks c task }

def loop? (id : Nat) : Option WatchLoop := s.loops.find? fun l => l.id = id

def setLoop (l : WatchLoop) : State :=
  { s with loops := s.loops.map fun l' => if l'.id = l.id then l else l' }

def dropLoop (id : Nat) : State := { s with loops := s.loops.filter fun l => l.id ≠ id }

/-- A send to the connection succeeds or fails at once: the channel is closed, or
the queue has room. -/
def Room (c : Conn) : Prop := s.tasks c = .closed ∨ (s.queues c).length < cap

instance (c : Conn) : Decidable (s.Room cap c) := inferInstanceAs (Decidable (_ ∨ _))

def trySend (c : Conn) (p : Push) : State :=
  if s.tasks c ≠ .closed ∧ (s.queues c).length < cap then
    { s with queues := update s.queues c (s.queues c ++ [p]) }
  else s

/-- The task that fetches the closing image, with the sender that the push handles
have for the session. -/
def spawnImage (sessionId : String) : State :=
  { s with
    images := s.images ++ (s.pushHandles sessionId).toList.map fun t => ⟨sessionId, t, none⟩ }

def startWatch (c : Conn) (sessionId : String) (isAutomated : Bool) : State :=
  { s.setTask c (.starting sessionId s.next) with
    pushHandles := update s.pushHandles sessionId (some c)
    loops := s.loops ++ [⟨s.next, sessionId, c, isAutomated, .connecting, 0⟩]
    next := s.next + 1 }

def done (c : Conn) (sessionId : String) (recorded : Option Nat) : State :=
  match s.doneHandles sessionId, recorded with
  | some id, some _ =>
      { (s.spawnImage sessionId).setTask c (.waiting sessionId id) with
        doneHandles := update s.doneHandles sessionId none }
  | some id, none =>
      { s.setTask c (.waiting sessionId id) with
        doneHandles := update s.doneHandles sessionId none }
  | none, some totalSteps => s.setTask c (.finalising sessionId totalSteps)
  | none, none => s

def request (c : Conn) : Request → State
  | .startWatch sessionId admitted isAutomated =>
      if admitted then s.startWatch c sessionId isAutomated else s
  | .done sessionId recorded => s.done c sessionId recorded
  | .deleteSession sessionId active =>
      if active then
        { s with
          doneHandles := update s.doneHandles sessionId none
          pushHandles := update s.pushHandles sessionId none }
      else s
  | .other => s

/-- The send of SessionComplete, which waits for room. -/
def send (c : Conn) (sessionId : String) (totalSteps : Nat) (target : Conn) : State :=
  if s.Room cap target then
    (s.trySend cap target (.sessionComplete sessionId totalSteps)).setTask c .select
  else s.setTask c (.sending sessionId totalSteps target)

def serve (c : Conn) : Task → State
  | .select | .closed | .starting _ _ => s
  | .failed sessionId =>
      { s.setTask c .select with pushHandles := update s.pushHandles sessionId none }
  | .waiting sessionId id =>
      if (s.loop? id).isNone then s.setTask c (.completing sessionId (s.results id)) else s
  | .finalising sessionId totalSteps =>
      (s.spawnImage sessionId).setTask c (.completing sessionId totalSteps)
  | .completing sessionId totalSteps =>
      match s.pushHandles sessionId with
      | some target =>
          { s.setTask c (.pushing sessionId totalSteps target) with
            pushHandles := update s.pushHandles sessionId none }
      | none => s.setTask c .select
  | .pushing sessionId totalSteps target | .sending sessionId totalSteps target =>
      s.send cap c sessionId totalSteps target

/-- The handler of StartWatch that waits for the loop goes on. -/
def signalReady (l : WatchLoop) (task : Task) : State :=
  if s.tasks l.pushTx = .starting l.sessionId l.id then s.setTask l.pushTx task else s

/-- The loop says that it is ready, and its StartWatch is answered; or that it is
not, and ends. -/
def connect (l : WatchLoop) (connected : Bool) : State :=
  if connected then (s.setLoop { l with phase := .ready }).signalReady l .select
  else (s.dropLoop l.id).signalReady l (.failed l.sessionId)

def insert (l : WatchLoop) : State :=
  let s := { s.setLoop { l with phase := .recording } with
    doneHandles := update s.doneHandles l.sessionId (some l.id) }
  if l.isAutomated then s.trySend cap l.pushTx (.sessionStarted l.sessionId) else s

def exit (l : WatchLoop) : State :=
  match l.phase with
  | .connecting | .ready | .recording => s
  | .leaving true => s.setLoop { l with phase := .releasing }
  | .leaving false =>
      -- the handler of a disconnect waits for room as well
      if s.Room cap l.pushTx then
        (s.trySend cap l.pushTx (.sessionDisconnected l.sessionId)).setLoop
          { l with phase := .releasing }
      else s
  | .releasing =>
      { s.dropLoop l.id with
        doneHandles := update s.doneHandles l.sessionId none
        results := update s.results l.id l.stepCount }

/-- A step of the watch loop. -/
def loopStep (l : WatchLoop) : Act → State
  | .connect _ connected => if l.phase = .connecting then s.connect l connected else s
  | .insert _ => if l.phase = .ready then s.insert cap l else s
  | .event _ =>
      if l.phase = .recording then s.setLoop { l with stepCount := l.stepCount + 1 } else s
  | .emitFileWritten _ rel =>
      if l.phase = .recording ∨ l.phase = .leaving true then
        s.trySend cap l.pushTx (.fileWritten l.sessionId rel)
      else s
  | .stepReady _ =>
      if l.phase = .recording ∧ l.isAutomated then
        s.trySend cap l.pushTx (.stepReadyForReasoning l.sessionId l.stepCount)
      else s
  | .leave _ doneCleanly =>
      -- the done channel of a loop is closed once its handle is out of the map
      if l.phase = .recording ∧ ¬ (doneCleanly ∧ s.doneHandles l.sessionId = some l.id) then
        s.setLoop { l with phase := .leaving doneCleanly }
      else s
  | .exit _ => s.exit cap l
  | _ => s

def fetched (k : Nat) (ext : String) (image : ClosingImage) : State :=
  { s with
    images := s.images.set k
      { image with written := some [s!"vision/frames/closing_state.{ext}", "metadata.json"] } }

def emitImage (k : Nat) (image : ClosingImage) : State :=
  match image.written with
  | some (rel :: rest) =>
      { s.trySend cap image.syncTx (.fileWritten image.sessionId rel) with
        images := s.images.set k { image with written := some rest } }
  | _ => s

/-- A step of the watch loop with the identity, if there is one. -/
def atLoop (id : Nat) (i : Act) : State :=
  match s.loop? id with
  | some l => s.loopStep cap l i
  | none => s

def step (s : State) : Act → State
  | .request c r => if s.tasks c = .select then s.request c r else s
  | .serve c => s.serve cap c (s.tasks c)
  | .drain c =>
      if s.tasks c = .select then { s with queues := update s.queues c (s.queues c).tail } else s
  | .close c =>
      if s.tasks c = .select then
        { s.setTask c .closed with queues := update s.queues c [] }
      else s
  | .connect id connected => s.atLoop cap id (.connect id connected)
  | .insert id => s.atLoop cap id (.insert id)
  | .event id => s.atLoop cap id (.event id)
  | .emitFileWritten id rel => s.atLoop cap id (.emitFileWritten id rel)
  | .stepReady id => s.atLoop cap id (.stepReady id)
  | .leave id doneCleanly => s.atLoop cap id (.leave id doneCleanly)
  | .exit id => s.atLoop cap id (.exit id)
  | .fetched k ext =>
      match s.images[k]? with
      | some image => if image.written = none then s.fetched k ext image else s
      | none => s
  | .emitImage k =>
      match s.images[k]? with
      | some image => s.emitImage cap k image
      | none => s

/-- The task of the connection waits inside a handler to send on its own queue,
which is full. -/
def Stuck (c : Conn) : Prop :=
  ∃ sid total, s.tasks c = .sending sid total c ∧ cap ≤ (s.queues c).length

/-- A SessionComplete that a handler is about to send on the queue of its own
connection finds room there. -/
def RoomForOwn (s : State) : Act → Prop
  | .serve c => ∀ sid total, s.tasks c = .pushing sid total c → (s.queues c).length < cap
  | _ => True

@[simp] theorem setTask_tasks (c : Conn) (task : Task) :
    (s.setTask c task).tasks = update s.tasks c task := rfl

@[simp] theorem trySend_tasks (c : Conn) (p : Push) : (s.trySend cap c p).tasks = s.tasks := by
  unfold trySend
  split <;> rfl

@[simp] theorem trySend_pushHandles (c : Conn) (p : Push) :
    (s.trySend cap c p).pushHandles = s.pushHandles := by
  unfold trySend
  split <;> rfl

theorem trySend_queues (c : Conn) (p : Push) (c' : Conn) :
    s.queues c' <+: (s.trySend cap c p).queues c' := by
  unfold trySend
  split
  · dsimp only
    obtain rfl | hne := eq_or_ne c' c
    · rw [Function.update_self]
      exact List.prefix_append _ _
    · exact Function.update_of_ne hne (s.queues c ++ [p]) s.queues ▸ List.prefix_rfl
  · exact List.prefix_rfl

/-- What a step can do with the task of a connection. -/
inductive Moves (i : Act) (c : Conn) : Task → Task → Prop
  | same (task : Task) : Moves i c task task
  | startWatch {sid : String} {admitted isAutomated : Bool}
      (hi : i = .request c (.startWatch sid admitted isAutomated)) :
      Moves i c .select (.starting sid s.next)
  | done {sid : String} {recorded : Option Nat} {id : Nat} (hi : i = .request c (.done sid recorded)) :
      Moves i c .select (.waiting sid id)
  | direct {sid : String} {total : Nat} (hi : i = .request c (.done sid (some total))) :
      Moves i c .select (.finalising sid total)
  | close : Moves i c .select .closed
  | started (sid : String) (id : Nat) : Moves i c (.starting sid id) .select
  | refused (sid : String) (id : Nat) : Moves i c (.starting sid id) (.failed sid)
  | failed (sid : String) : Moves i c (.failed sid) .select
  | result (sid : String) (id : Nat) : Moves i c (.waiting sid id) (.completing sid (s.results id))
  | finalised (sid : String) (total : Nat) : Moves i c (.finalising sid total) (.completing sid total)
  | answered (sid : String) (total : Nat) : Moves i c (.completing sid total) .select
  | taken {sid : String} {total : Nat} {t : Conn} (hpush : s.pushHandles sid = some t) :
      Moves i c (.completing sid total) (.pushing sid total t)
  | pushed {sid : String} {total : Nat} {t : Conn} (hroom : s.Room cap t) :
      Moves i c (.pushing sid total t) .select
  | sent {sid : String} {total : Nat} {t : Conn} (hroom : s.Room cap t) :
      Moves i c (.sending sid total t) .select
  | full {sid : String} {total : Nat} {t : Conn} (hi : i = .serve c) (hroom : ¬ s.Room cap t) :
      Moves i c (.pushing sid total t) (.sending sid total t)

/-- What a step can do with the tasks, the queues and the push handles. While a handler
is at work, nobody takes pushes out of the queue of its connection. -/
structure Effect (i : Act) (s' : State) : Prop where
  tasks : ∀ c, Moves cap s i c (s.tasks c) (s'.tasks c)
  queues : ∀ c, s.tasks c ≠ .select → s.queues c <+: s'.queues c
  pushHandles : ∀ sid t, s'.pushHandles sid = some t →
    s.pushHandles sid = some t ∨
      ∃ admitted isAutomated, i = .request t (.startWatch sid admitted isAutomated)

variable {cap s}

theorem Moves.of_eq {i : Act} {c : Conn} {task task' : Task} (h : task' = task) :
    Moves cap s i c task task' := h ▸ .same _

theorem Effect.quiet {i : Act} {s' : State} (htasks : s'.tasks = s.tasks)
    (hqueues : s'.queues = s.queues) (hpush : s'.pushHandles = s.pushHandles) :
    Effect cap s i s' where
  tasks c := .of_eq (congrFun htasks c)
  queues c _ := hqueues ▸ List.prefix_rfl
  pushHandles sid t h := .inl (by rwa [hpush] at h)

theorem Effect.refl (i : Act) : Effect cap s i s := .quiet rfl rfl rfl

/-- A push that is dropped or put into a queue changes nothing else. -/
theorem Effect.trySend {i : Act} {s' : State} (h : Effect cap s i s') (c : Conn) (p : Push) :
    Effect cap s i (s'.trySend cap c p) where
  tasks c' := by
    rw [trySend_tasks]
    exact h.tasks c'
  queues c' hbusy := (h.queues c' hbusy).trans (trySend_queues cap s' c p c')
  pushHandles sid t hpush := h.pushHandles sid t (by rwa [trySend_pushHandles] at hpush)

theorem Effect.moved {i : Act} {s' : State} {c : Conn} {task : Task}
    (h : Moves cap s i c (s.tasks c) task) (htasks : s'.tasks = update s.tasks c task)
    (hqueues : s'.queues = s.queues)
    (hpush : ∀ sid t, s'.pushHandles sid = some t → s.pushHandles sid = some t) :
    Effect cap s i s' where
  tasks c' := by
    rw [htasks]
    obtain rfl | hne := eq_or_ne c' c
    · rw [Function.update_self]
      exact h
    · exact .of_eq (Function.update_of_ne hne task s.tasks)
  queues c' _ := hqueues ▸ List.prefix_rfl
  pushHandles sid t h := .inl (hpush sid t h)

theorem Effect.setTask {i : Act} {c : Conn} {task : Task} (h : Moves cap s i c (s.tasks c) task) :
    Effect cap s i (s.setTask c task) := .moved h rfl rfl fun _ _ h => h

theorem pushHandles_erased {handles : String → Option Conn} {sid sid' : String} {t : Conn}
    (h : update handles sid none sid' = some t) : handles sid' = some t := by
  obtain rfl | hne := eq_or_ne sid' sid
  · rw [Function.update_self] at h
    cases h
  · rwa [Function.update_of_ne hne] at h

theorem effect_startWatch {c : Conn} (hselect : s.tasks c = .select) (sid : String)
    (admitted isAutomated : Bool) :
    Effect cap s (.request c (.startWatch sid admitted isAutomated)) (s.startWatch c sid isAutomated) := by
  have hmoves : Moves cap s (.request c (.startWatch sid admitted isAutomated)) c (s.tasks c)
      (.starting sid s.next) := by
    rw [hselect]
    exact .startWatch rfl
  refine ⟨(Effect.setTask hmoves).tasks, fun _ _ => List.prefix_rfl, fun sid' t hpush => ?_⟩
  obtain rfl | hne := eq_or_ne sid' sid
  · have ht : t = c := by
      change update s.pushHandles sid' (some c) sid' = some t at hpush
      rw [Function.update_self] at hpush
      exact (Option.some.inj hpush).symm
    rw [ht]
    exact .inr ⟨admitted, isAutomated, rfl⟩
  · change update s.pushHandles sid (some c) sid' = some t at hpush
    rw [Function.update_of_ne hne] at hpush
    exact .inl hpush

theorem effect_request {c : Conn} (hselect : s.tasks c = .select) (r : Request) :
    Effect cap s (.request c r) (s.request c r) := by
  cases r with
  | startWatch sid admitted isAutomated =>
    rw [request]
    split
    · exact effect_startWatch hselect sid admitted isAutomated
    · exact .refl _
  | done sid recorded =>
    change Effect cap s _ (s.done c sid recorded)
    unfold done
    split
    · refine .moved (c := c) ?_ rfl rfl fun _ _ h => h
      rw [hselect]
      exact .done rfl
    · refine .moved (c := c) ?_ rfl rfl fun _ _ h => h
      rw [hselect]
      exact .done rfl
    · refine .setTask ?_
      rw [hselect]
      exact .direct rfl
    · exact .refl _
  | deleteSession sid active =>
    rw [request]
    split
    · exact ⟨fun _ => .same _, fun _ _ => List.prefix_rfl, fun _ _ h => .inl (pushHandles_erased h)⟩
    · exact .refl _
  | other => exact .refl _

theorem effect_send {i : Act} {c t : Conn} {sid : String} {total : Nat}
    (hroom : s.Room cap t → Moves cap s i c (s.tasks c) .select)
    (hfull : ¬ s.Room cap t → Moves cap s i c (s.tasks c) (.sending sid total t)) :
    Effect cap s i (s.send cap c sid total t) := by
  rw [send]
  split
  case isTrue h =>
    have hset := Effect.setTask (hroom h)
    have hsame : Effect cap s i s := .refl i
    have hsend := hsame.trySend t (.sessionComplete sid total)
    refine ⟨fun c' => ?_, hsend.queues, hsend.pushHandles⟩
    rw [setTask_tasks, trySend_tasks]
    exact hset.tasks c'
  case isFalse h => exact .setTask (hfull h)

theorem effect_serve (c : Conn) : Effect cap s (.serve c) (s.serve cap c (s.tasks c)) := by
  cases h : s.tasks c with
  | select | closed | starting => exact .refl _
  | failed sid =>
    refine .moved (c := c) ?_ rfl rfl fun _ _ h => pushHandles_erased h
    rw [h]
    exact .failed sid
  | waiting sid id =>
    rw [serve]
    split
    · refine .setTask ?_
      rw [h]
      exact .result sid id
    · exact .refl _
  | finalising sid total =>
    refine .moved (c := c) ?_ rfl rfl fun _ _ h => h
    rw [h]
    exact .finalised sid total
  | completing sid total =>
    rw [serve]
    split
    case h_1 t hpush =>
      refine .moved (c := c) ?_ rfl rfl fun _ _ h => pushHandles_erased h
      rw [h]
      exact .taken hpush
    case h_2 =>
      refine .setTask ?_
      rw [h]
      exact .answered sid total
  | pushing sid total t =>
    refine effect_send (fun hroom => ?_) (fun hroom => ?_)
    · rw [h]
      exact .pushed hroom
    · rw [h]
      exact .full rfl hroom
  | sending sid total t =>
    refine effect_send (fun hroom => ?_) (fun hroom => ?_)
    · rw [h]
      exact .sent hroom
    · exact .of_eq h.symm

theorem effect_signalReady {i : Act} {l : WatchLoop} {task : Task} {s₀ : State}
    (htasks : s₀.tasks = s.tasks) (hqueues : s₀.queues = s.queues)
    (hpush : s₀.pushHandles = s.pushHandles)
    (h : Moves cap s i l.pushTx (.starting l.sessionId l.id) task) :
    Effect cap s i (s₀.signalReady l task) := by
  rw [signalReady]
  split
  case isTrue hwaits =>
    rw [htasks] at hwaits
    have hmoves : Moves cap s i l.pushTx (s.tasks l.pushTx) task := by rwa [hwaits]
    refine .moved hmoves ?_ hqueues fun sid t h => ?_
    · rw [setTask_tasks, htasks]
    · change s₀.pushHandles sid = some t at h
      rwa [hpush] at h
  case isFalse => exact .quiet htasks hqueues hpush

theorem effect_exit (i : Act) (l : WatchLoop) : Effect cap s i (s.exit cap l) := by
  unfold exit
  split
  · exact .refl i
  · exact .refl i
  · exact .refl i
  · exact .quiet rfl rfl rfl
  · split
    · have hsame : Effect cap s i s := .refl i
      have h := hsame.trySend l.pushTx (.sessionDisconnected l.sessionId)
      exact ⟨h.tasks, h.queues, h.pushHandles⟩
    · exact .refl i
  · exact .quiet rfl rfl rfl

theorem effect_atLoop (id : Nat) (i : Act) : Effect cap s i (s.atLoop cap id i) := by
  rw [atLoop]
  split
  case h_2 => exact .refl i
  case h_1 l _ =>
    unfold loopStep
    split
    case h_1 =>
      split
      · rw [connect]
        split
        · exact effect_signalReady rfl rfl rfl (.started l.sessionId l.id)
        · exact effect_signalReady rfl rfl rfl (.refused l.sessionId l.id)
      · exact .refl _
    case h_2 =>
      split
      · unfold insert
        dsimp only
        split
        · refine Effect.trySend ?_ _ _
          exact .quiet rfl rfl rfl
        · exact .quiet rfl rfl rfl
      · exact .refl _
    case h_3 =>
      split
      · exact .quiet rfl rfl rfl
      · exact .refl _
    case h_4 =>
      split
      · exact (Effect.refl _).trySend _ _
      · exact .refl _
    case h_5 =>
      split
      · exact (Effect.refl _).trySend _ _
      · exact .refl _
    case h_6 =>
      split
      · exact .quiet rfl rfl rfl
      · exact .refl _
    case h_7 => exact effect_exit _ l
    case h_8 => exact .refl _

theorem effect_close {c : Conn} (hselect : s.tasks c = .select) :
    Effect cap s (.close c) { s.setTask c .closed with queues := update s.queues c [] } := by
  have hmoves : Moves cap s (.close c) c (s.tasks c) .closed := by
    rw [hselect]
    exact .close
  refine ⟨(Effect.setTask hmoves).tasks, fun c' hbusy => ?_, fun _ _ h => .inl h⟩
  have hne : c' ≠ c := by
    rintro rfl
    exact hbusy hselect
  have hother : update s.queues c [] c' = s.queues c' := Function.update_of_ne hne _ _
  exact hother ▸ List.prefix_rfl

theorem effect_drain {c : Conn} (hselect : s.tasks c = .select) :
    Effect cap s (.drain c) { s with queues := update s.queues c (s.queues c).tail } := by
  refine ⟨fun _ => .same _, fun c' hbusy => ?_, fun _ _ h => .inl h⟩
  have hne : c' ≠ c := by
    rintro rfl
    exact hbusy hselect
  have hother : update s.queues c (s.queues c).tail c' = s.queues c' := Function.update_of_ne hne _ _
  exact hother ▸ List.prefix_rfl

theorem effect_step (cap : Nat) (s : State) (i : Act) : Effect cap s i (s.step cap i) := by
  cases i with
  | request c r =>
    rw [step]
    split
    case isTrue hselect => exact effect_request hselect r
    case isFalse => exact .refl _
  | serve c => exact effect_serve c
  | drain c =>
    rw [step]
    split
    case isTrue hselect => exact effect_drain hselect
    case isFalse => exact .refl _
  | close c =>
    rw [step]
    split
    case isTrue hselect => exact effect_close hselect
    case isFalse => exact .refl _
  | connect id | insert id | event id | emitFileWritten id | stepReady id | leave id | exit id =>
    exact effect_atLoop id _
  | fetched k ext =>
    rw [step]
    split
    · split
      · exact .quiet rfl rfl rfl
      · exact .refl _
    · exact .refl _
  | emitImage k =>
    rw [step]
    split
    · rw [emitImage]
      split
      · have hsame : Effect cap s (.emitImage k) s := .refl _
        have h := hsame.trySend
        exact ⟨(h _ _).tasks, (h _ _).queues, (h _ _).pushHandles⟩
      · exact .refl _
    · exact .refl _

/-- A handler comes to wait for room only if it finds none. -/
theorem sending_step {i : Act} {c t : Conn} {sid : String} {total : Nat}
    (h : (s.step cap i).tasks c = .sending sid total t) :
    s.tasks c = .sending sid total t ∨
      i = .serve c ∧ s.tasks c = .pushing sid total t ∧ ¬ s.Room cap t := by
  have hmoves := (effect_step cap s i).tasks c
  rw [h] at hmoves
  generalize s.tasks c = task at hmoves ⊢
  cases hmoves with
  | same => exact .inl rfl
  | full hi hroom => exact .inr ⟨hi, rfl, hroom⟩

theorem step_full {c t : Conn} {sid : String} {total : Nat} (h : s.tasks c = .pushing sid total t)
    (hroom : ¬ s.Room cap t) : s.step cap (.serve c) = s.setTask c (.sending sid total t) := by
  rw [step, h, serve, send, if_neg hroom]

/-- No handler waits to send on the queue of its own connection. -/
def NoneSending (s : State) : Prop := ∀ c sid total, s.tasks c ≠ .sending sid total c

theorem stuck_of_full {c : Conn} {sid : String} {total : Nat} (h : s.tasks c = .pushing sid total c)
    (hfull : cap ≤ (s.queues c).length) : (s.step cap (.serve c)).Stuck cap c := by
  have hroom : ¬ s.Room cap c := by
    rintro (hclosed | hlt)
    · rw [h] at hclosed
      cases hclosed
    · exact absurd hlt (Nat.not_lt.mpr hfull)
  rw [step_full h hroom]
  exact ⟨sid, total, Function.update_self _ _ _, hfull⟩

theorem stuck_step_iff (s : State) (i : Act) (hs : s.NoneSending) :
    (∀ c, ¬ (s.step cap i).Stuck cap c) ↔ s.RoomForOwn cap i := by
  constructor
  · intro hfree
    cases i with
    | serve c =>
      intro sid total h
      by_contra hfull
      exact hfree c (stuck_of_full h (Nat.not_lt.mp hfull))
    | _ => trivial
  · rintro hguard c ⟨sid, total, hsending, -⟩
    obtain hsending | ⟨rfl, hpushing, hroom⟩ := sending_step hsending
    · exact hs c sid total hsending
    · exact hroom (.inr (hguard sid total hpushing))

theorem noneSending_step (s : State) (i : Act) (hs : s.NoneSending)
    (hfree : ∀ c, ¬ (s.step cap i).Stuck cap c) : (s.step cap i).NoneSending := by
  intro c sid total hsending
  obtain hsending | ⟨rfl, hpushing, hroom⟩ := sending_step hsending
  · exact hs c sid total hsending
  · exact hroom (.inr ((stuck_step_iff s _ hs).mp hfree sid total hpushing))

/-- In every run of any number of connections, no task comes to wait on its own full
queue exactly if each SessionComplete that is sent on the queue of the handler's own
connection finds room there. -/
theorem never_stuck_iff (cap : Nat) (acts : List Act) :
    Along (State.step cap) (fun _ _ s' => ∀ c, ¬ s'.Stuck cap c) start acts ↔
      Guarded (State.step cap) (RoomForOwn cap) start acts :=
  along_iff_guarded_steps stuck_step_iff noneSending_step start acts (fun _ _ _ => nofun)

/-- What the watch loop pushes for a step that it writes. -/
def writeStep (id : Nat) : List Act :=
  .event id :: ["commands/raw_input.md", "commands/converted_input.md",
    "commands/actuation_commands.json", "commands/cc_commands.json"].map (.emitFileWritten id)

/-- One connection starts a session, and four steps are written while its Done waits
for the watch loop. -/
def fillingRun : List Act :=
  [.request 0 (.startWatch "s" true false), .connect 0 true, .insert 0,
    .request 0 (.done "s" (some 0))] ++
  (List.replicate 4 (writeStep 0)).flatten ++
  [.leave 0 true, .exit 0, .exit 0, .serve 0, .serve 0, .serve 0]

theorem own_queue_full : (run (State.step 16) start fillingRun).Stuck 16 0 :=
  ⟨"s", 4, by decide +kernel, by decide +kernel⟩

/-- StartWatch comes from some connections and Done from others. -/
def Apart (watches : Conn → Bool) (_ : State) : Act → Prop
  | .request c (.startWatch _ _ _) => watches c
  | .request c (.done _ _) => watches c = false
  | _ => True

end State

end MemoryArchive.Ipc.PushQueue
