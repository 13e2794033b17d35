import MemoryArchive.Model.Circuit

namespace MemoryArchive.Model.Breaker

open Function (update)
open ReasoningPipeline (fullyOpen)

variable {β : Type}

/-- A call of `_call_vlm`: the hint and the router it has read, and the backends
that the fallback loop has tried. -/
structure Call (β : Type) where
  hint : String
  router : ModelRouter β
  tried : Finset String

/-- How far the worker of a step is. Between two of its places it takes the lock at
most once. From `failed` on it is in the callback of a failed step, where a hint
that is carried on stands for a policy other than fallback. -/
inductive Place (β : Type)
  | queued
  | resolving (call : Call β)
  | calling (call : Call β) (name : String) (backend : β) (attempt : Nat) (last : CallError)
  | opening (call : Call β) (name : String)
  | scheduling (call : Call β) (name : String)
  | succeeded
  | failed
  | failing (hint : String)
  | counted (hint : String) (count : Nat)
  | unmarked (hint : String)
  | marking (hint : String)
  | marked (hint : String)
  | testing (hint : Option String)
  | judging (hint : Option String) (circuits : Option (Finset String))
  | sparing
  | degrading (hint : Option String)
  | reporting (hint : Option String)
  | rescheduling (hint : Option String)
  | ended

/-- A step in the executor, with the number of its calls of a model that failed, and
whether it found no backend while circuits of its session were open. -/
structure Worker (β : Type) where
  sid : String
  stepId : Nat
  failedCalls : Nat
  shutOut : Bool
  place : Place β

inductive TrialPlace (β : Type)
  | sleeping
  | pinging (router : ModelRouter β)
  | closing (backend : β)
  | reviewing (sids : List String)
  | judging (sid : String) (circuits : Option (Finset String)) (rest : List String)
  | resuming (sid : String) (rest : List String)
  | resetting (sid : String) (rest : List String)
  | ended

/-- The timer of a half-open trial: of the global router, or of a session's own. -/
structure Trial (β : Type) where
  owner : Option String
  name : String
  place : TrialPlace β

/-- A change of the degraded flag that a message tells ma-core. -/
inductive Change
  | raised
  | cleared
  deriving DecidableEq

/-- The pipeline with its threads. `known` are the sessions that have a state. For
each session it has the messages that were sent, the changes of the degraded flag
whose messages have not been sent, and the calls of a model that failed. -/
structure Pipeline (β : Type) where
  router : ModelRouter β
  sessionRouters : String → Option (ModelRouter β)
  sessionProviders : String → Option String
  threshold : Nat
  maxRetries : Nat
  known : List String
  states : String → SessionState
  workers : List (Worker β)
  trials : List (Trial β)
  sent : String → List PipelineMessage
  unsent : String → List Change
  failedCalls : String → Nat

/-- What one block of a thread does to the pipeline. -/
inductive Effect
  | quiet
  | make (sid : String)
  | fail (sid : String)
  | openCircuit (sid name : String)
  | count (sid : String)
  | zero (sid : String)
  | degrade (sid : String)
  | reportDegraded (sid : String) (stepId : Nat)
  | schedule (sid name : String)
  | close (owner : Option String) (name : String)
  | resume (sid : String)
  | reportReset (sid : String)
  | mark (sid : String)
  | pop (sid : String)
  deriving DecidableEq

/-- The methods of the pipeline, and the next block of a worker or of a trial. The
limiter and the model answer the worker, and the backend answers the ping of the
trial. -/
inductive Act (β : Type)
  | setSessionProvider (sid name : String)
  | setSessionConfig (sid primary : String) (primaryBackend : β) (fallback : String) (fallbackBackend : β)
  | submit (sid : String) (stepId : Nat)
  | work (k : Nat) (budgetExceeded : Bool) (answer : Attempt)
  | trial (k : Nat) (alive : Bool)
  | markSessionDegraded (sid : String)
  | resetSession (sid : String)

theorem countP_set {α : Type} {l : List α} {k : Nat} {a : α} (h : l[k]? = some a) (a' : α)
    (q : α → Bool) : (l.set k a').countP q + (q a).toNat = l.countP q + (q a').toNat := by
  obtain ⟨hk, rfl⟩ := List.getElem?_eq_some_iff.mp h
  have hset := List.countP_set (p := q) (a := a') hk
  have hpos : (if q l[k] then 1 else 0) ≤ l.countP q := by
    split
    · exact List.countP_pos_iff.mpr ⟨l[k], List.getElem_mem hk, by assumption⟩
    · exact Nat.zero_le _
  rw [hset]
  cases hq : q l[k] <;> cases hq' : q a' <;> simp_all

namespace Pipeline

variable (hash : String → Int) (p : Pipeline β)

def routerFor (sid : String) : ModelRouter β := (p.sessionRouters sid).getD p.router

def providerHint (sid : String) : String := (p.sessionProviders sid).getD ""

def state? (sid : String) : Option SessionState :=
  if sid ∈ p.known then some (p.states sid) else none

/-- The state of a session, as `setdefault` finds or makes it. -/
def state (sid : String) : SessionState := (p.state? sid).getD .fresh

def setState (sid : String) (state : SessionState) : Pipeline β :=
  { p with
    known := if sid ∈ p.known then p.known else p.known ++ [sid]
    states := update p.states sid state }

/-- The open circuits of a session. -/
def circuits (sid : String) : Finset String := (p.state sid).openCircuits

def degraded (sid : String) : Bool := (p.state sid).degraded

/-- Which router serves the session: the global one or its own. -/
def owner (sid : String) : Option String := if (p.sessionRouters sid).isSome then some sid else none

/-- The sessions whose circuits a trial closes. -/
def Concerns : Option String → String → Prop
  | none, sid => p.sessionRouters sid = none
  | some t, sid => sid = t

instance (owner : Option String) (sid : String) : Decidable (p.Concerns owner sid) :=
  match owner with
  | none => decidable_of_iff ((p.sessionRouters sid).isNone = true) Option.isNone_iff_eq_none
  | some t => inferInstanceAs (Decidable (sid = t))

/-- Some session that uses the global router has the circuit open. -/
def anyOpen (name : String) : Bool :=
  p.known.any fun sid => (p.sessionRouters sid).isNone && name ∈ (p.states sid).openCircuits

/-- `is_fully_degraded`, once it has copied the circuits. -/
def isFullyDegraded (sid : String) : Option (Finset String) → Bool
  | none => false
  | some circuits => fullyOpen (p.routerFor sid) (p.providerHint sid) circuits

def closeCircuit (owner : Option String) (name : String) : Pipeline β :=
  { p with
    states := fun sid =>
      if p.Concerns owner sid then
        { p.states sid with openCircuits := (p.states sid).openCircuits.erase name }
      else p.states sid }

def apply : Effect → Pipeline β
  | .quiet => p
  | .make sid => p.setState sid (p.state sid)
  | .fail sid => { p with failedCalls := update p.failedCalls sid (p.failedCalls sid + 1) }
  | .openCircuit sid name =>
      p.setState sid { p.state sid with openCircuits := insert name (p.circuits sid) }
  | .count sid =>
      p.setState sid { p.state sid with consecutiveFailures := (p.state sid).consecutiveFailures + 1 }
  | .zero sid =>
      if sid ∈ p.known then p.setState sid { p.state sid with consecutiveFailures := 0 } else p
  | .degrade sid =>
      { p.setState sid { p.state sid with degraded := true } with
        unsent := update p.unsent sid (p.unsent sid ++ [.raised]) }
  | .reportDegraded sid stepId =>
      { p with
        sent := update p.sent sid (p.sent sid ++ [.reasoningDegraded sid stepId])
        unsent := update p.unsent sid ((p.unsent sid).erase .raised) }
  | .schedule sid name => { p with trials := p.trials ++ [⟨p.owner sid, name, .sleeping⟩] }
  | .close owner name => p.closeCircuit owner name
  | .resume sid =>
      { p.setState sid { p.state sid with degraded := false, consecutiveFailures := 0 } with
        unsent := update p.unsent sid (p.unsent sid ++ [.cleared]) }
  | .reportReset sid =>
      { p with
        sent := update p.sent sid (p.sent sid ++ [.circuitReset sid])
        unsent := update p.unsent sid ((p.unsent sid).erase .cleared) }
  | .mark sid => p.setState sid { p.state sid with degraded := true }
  | .pop sid => { p with known := p.known.filter (· ≠ sid) }

/-- An exception of the retry loop: the fallback loop catches the one kind. -/
def raised (call : Call β) (name : String) (e : CallError) : Place β :=
  if call.router.policy = .fallback ∧ e = .nonRetryable then .opening call name else .failed

/-- The next block of a worker. -/
def workerStep [DecidableEq β] (w : Worker β) (budgetExceeded : Bool) (answer : Attempt) :
    Effect × Worker β :=
  match w.place with
  | .queued =>
      (.quiet,
        { w with
          place :=
            if budgetExceeded then .failed
            else .resolving ⟨p.providerHint w.sid, p.routerFor w.sid, ∅⟩ })
  | .resolving call =>
      match call.router.resolve hash w.sid call.hint (p.circuits w.sid) with
      | none => (.make w.sid, { w with shutOut := p.circuits w.sid ≠ ∅, place := .failed })
      | some backend =>
          let name := call.router.entryNameFor backend
          if call.router.policy = .fallback ∧ name ∈ call.tried then
            (.make w.sid, { w with place := .failed })
          else
            (.make w.sid,
              { w with
                place := .calling { call with tried := insert name call.tried } name backend 1 .other })
  | .calling call name backend attempt last =>
      if p.maxRetries < attempt then (.quiet, { w with place := raised call name last })
      else
        match answer with
        | .success => (.quiet, { w with place := .succeeded })
        | .noSlot =>
            (.quiet, { w with place := .calling call name backend (attempt + 1) .retryable })
        | .failed .retryable =>
            (.fail w.sid,
              { w with
                failedCalls := w.failedCalls + 1
                place := .calling call name backend (attempt + 1) .retryable })
        | .failed e =>
            (.fail w.sid, { w with failedCalls := w.failedCalls + 1, place := raised call name e })
  | .opening call name => (.openCircuit w.sid name, { w with place := .scheduling call name })
  | .scheduling call name => (.schedule w.sid name, { w with place := .resolving call })
  | .succeeded => (.zero w.sid, { w with place := .ended })
  | .failed => (.quiet, { w with place := .failing (p.providerHint w.sid) })
  | .failing hint =>
      (.count w.sid, { w with place := .counted hint ((p.state w.sid).consecutiveFailures + 1) })
  | .counted hint count =>
      (.quiet, { w with place := if count < p.threshold ∨ p.degraded w.sid then .ended else .unmarked hint })
  | .unmarked hint =>
      (.quiet,
        { w with
          place := if (p.routerFor w.sid).policy = .fallback then .testing none else .marking hint })
  | .marking hint => (.openCircuit w.sid hint, { w with place := .marked hint })
  | .marked hint => (.schedule w.sid hint, { w with place := .testing (some hint) })
  | .testing hint =>
      (.quiet, { w with place := .judging hint ((p.state? w.sid).map SessionState.openCircuits) })
  | .judging hint circuits =>
      (.quiet, { w with place := if p.isFullyDegraded w.sid circuits then .degrading hint else .sparing })
  | .sparing => (.zero w.sid, { w with place := .ended })
  | .degrading hint => (.degrade w.sid, { w with place := .reporting hint })
  | .reporting hint => (.reportDegraded w.sid w.stepId, { w with place := .rescheduling hint })
  | .rescheduling hint => (hint.elim .quiet (.schedule w.sid), { w with place := .ended })
  | .ended => (.quiet, w)

/-- The sessions that a trial looks at after it has closed their circuit. -/
def toReview (t : Trial β) : List String :=
  match t.owner with
  | none =>
      p.known.filter fun sid =>
        (p.sessionRouters sid).isNone && (t.name ∈ (p.states sid).openCircuits && (p.states sid).degraded)
  | some sid => [sid]

/-- The router that a trial pings, if the circuit is open still. -/
def pinged (t : Trial β) : Option (ModelRouter β) :=
  match t.owner with
  | none => if p.anyOpen t.name then some p.router else none
  | some sid => if t.name ∈ p.circuits sid then p.sessionRouters sid else none

/-- The next block of a trial. A trial that failed is scheduled again. -/
def trialStep (t : Trial β) (alive : Bool) : Effect × Trial β :=
  match t.place with
  | .sleeping => (.quiet, { t with place := (p.pinged t).elim .ended .pinging })
  | .pinging router =>
      (.quiet,
        { t with
          place :=
            match router.byName t.name with
            | some e => if alive then .closing e.backend else .sleeping
            | none => .sleeping })
  | .closing _ => (.close t.owner t.name, { t with place := .reviewing (p.toReview t) })
  | .reviewing [] => (.quiet, { t with place := .ended })
  | .reviewing (sid :: rest) =>
      (.quiet, { t with place := .judging sid ((p.state? sid).map SessionState.openCircuits) rest })
  | .judging sid circuits rest =>
      (.quiet,
        { t with place := if p.isFullyDegraded sid circuits then .reviewing rest else .resuming sid rest })
  | .resuming sid rest =>
      if p.degraded sid then (.resume sid, { t with place := .resetting sid rest })
      else (.quiet, { t with place := .reviewing rest })
  | .resetting sid rest => (.reportReset sid, { t with place := .reviewing rest })
  | .ended => (.quiet, t)

def setWorker (k : Nat) (w : Worker β) : Pipeline β := { p with workers := p.workers.set k w }

def setTrial (k : Nat) (t : Trial β) : Pipeline β := { p with trials := p.trials.set k t }

def setSessionProvider (sid name : String) : Pipeline β :=
  if name = "" then p else { p with sessionProviders := update p.sessionProviders sid (some name) }

/-- The router of a session with one provider or with two. -/
def sessionRouter (primary : String) (primaryBackend : β) (fallback : String) (fallbackBackend : β) :
    ModelRouter β :=
  if fallback = "" then ⟨[⟨primary, primaryBackend, 1⟩], .pinned, by simp⟩
  else ⟨[⟨primary, primaryBackend, 1⟩, ⟨fallback, fallbackBackend, 2⟩], .fallback, by simp⟩

def setSessionConfig (sid primary : String) (primaryBackend : β) (fallback : String)
    (fallbackBackend : β) : Pipeline β :=
  if primary = "" then p
  else
    { p with
      sessionRouters :=
        update p.sessionRouters sid (some (sessionRouter primary primaryBackend fallback fallbackBackend))
      sessionProviders := update p.sessionProviders sid (some primary) }

def submit (sid : String) (stepId : Nat) : Pipeline β :=
  if sid = "" ∨ stepId = 0 then p
  else
    let p := p.apply (.make sid)
    if p.degraded sid then p else { p with workers := p.workers ++ [⟨sid, stepId, 0, false, .queued⟩] }

def step [DecidableEq β] (p : Pipeline β) : Act β → Pipeline β
  | .setSessionProvider sid name => p.setSessionProvider sid name
  | .setSessionConfig sid primary primaryBackend fallback fallbackBackend =>
      p.setSessionConfig sid primary primaryBackend fallback fallbackBackend
  | .submit sid stepId => p.submit sid stepId
  | .work k budgetExceeded answer =>
      match p.workers[k]? with
      | some w =>
          let (e, w) := p.workerStep hash w budgetExceeded answer
          (p.apply e).setWorker k w
      | none => p
  | .trial k alive =>
      match p.trials[k]? with
      | some t =>
          let (e, t) := p.trialStep t alive
          (p.apply e).setTrial k t
      | none => p
  | .markSessionDegraded sid => p.apply (.mark sid)
  | .resetSession sid => p.apply (.pop sid)

/-- A pipeline before its first step. -/
def start (router : ModelRouter β) (sessionRouters : String → Option (ModelRouter β))
    (sessionProviders : String → Option String) (threshold maxRetries : Nat) : Pipeline β where
  router := router
  sessionRouters := sessionRouters
  sessionProviders := sessionProviders
  threshold := threshold
  maxRetries := maxRetries
  known := []
  states _ := .fresh
  workers := []
  trials := []
  sent _ := []
  unsent _ := []
  failedCalls _ := 0

/-- A pool of one backend. -/
def openaiPool : ModelRouter Nat := ⟨[⟨"openai", 0, 1⟩], .pinned, openai_ne_nil⟩

/-- One step fails, and the backend answers the ping of its trial. -/
def recovery : List (Act Nat) :=
  .submit "s" 1 :: List.replicate 13 (.work 0 false (.failed .nonRetryable)) ++
    List.replicate 7 (.trial 0 true)

theorem state?_setState (t sid : String) (state : SessionState) :
    (p.setState t state).state? sid = if sid = t then some state else p.state? sid := by
  rw [state?, setState]
  dsimp only
  by_cases hsid : sid = t
  · subst hsid
    have hmem : sid ∈ if sid ∈ p.known then p.known else p.known ++ [sid] := by
      split
      · assumption
      · exact List.mem_append_right _ (List.mem_singleton_self sid)
    rw [if_pos hmem, if_pos rfl, Function.update_self]
  · have hmem : (sid ∈ if t ∈ p.known then p.known else p.known ++ [t]) ↔ sid ∈ p.known := by
      split
      · exact Iff.rfl
      · simp [hsid]
    rw [if_neg hsid, Function.update_of_ne hsid, state?]
    simp only [hmem]

theorem state_setState (t sid : String) (state : SessionState) :
    (p.setState t state).state sid = if sid = t then state else p.state sid := by
  rw [Pipeline.state, state?_setState]
  split
  · rfl
  · rfl

theorem state_closeCircuit (owner : Option String) (name sid : String) :
    (p.closeCircuit owner name).state sid =
      if p.Concerns owner sid then
        { p.state sid with openCircuits := (p.circuits sid).erase name }
      else p.state sid := by
  rw [circuits, Pipeline.state, Pipeline.state, state?, state?]
  change ((if sid ∈ p.known then some (if p.Concerns owner sid then
    { p.states sid with openCircuits := (p.states sid).openCircuits.erase name } else p.states sid)
      else none).getD .fresh) = _
  by_cases hknown : sid ∈ p.known
  · simp only [if_pos hknown, Option.getD_some]
  · have hempty : (∅ : Finset String).erase name = ∅ := Finset.erase_eq_of_notMem (Finset.notMem_empty name)
    simp only [if_neg hknown, Option.getD_none, SessionState.fresh, hempty, ite_self]

/-- The state of a session after a block. -/
def stateAfter (sid : String) : Effect → SessionState
  | .openCircuit t name =>
      if sid = t then { p.state sid with openCircuits := insert name (p.circuits sid) } else p.state sid
  | .count t =>
      if sid = t then
        { p.state sid with consecutiveFailures := (p.state sid).consecutiveFailures + 1 }
      else p.state sid
  | .zero t => if sid = t then { p.state sid with consecutiveFailures := 0 } else p.state sid
  | .degrade t | .mark t => if sid = t then { p.state sid with degraded := true } else p.state sid
  | .close owner name =>
      if p.Concerns owner sid then { p.state sid with openCircuits := (p.circuits sid).erase name }
      else p.state sid
  | .resume t =>
      if sid = t then { p.state sid with degraded := false, consecutiveFailures := 0 } else p.state sid
  | .pop t => if sid = t then .fresh else p.state sid
  | _ => p.state sid

theorem state_apply (sid : String) (e : Effect) : (p.apply e).state sid = p.stateAfter sid e := by
  have hset : ∀ t (f : SessionState → SessionState), (p.setState t (f (p.state t))).state sid =
      if sid = t then f (p.state sid) else p.state sid := fun t f => by
    rw [state_setState]
    split
    case isTrue h => rw [h]
    case isFalse => rfl
  cases e with
  | quiet | fail | reportDegraded | schedule | reportReset => rfl
  | make t => exact (hset t id).trans (ite_self _)
  | openCircuit t name => exact hset t fun st => { st with openCircuits := insert name st.openCircuits }
  | count t => exact hset t fun st => { st with consecutiveFailures := st.consecutiveFailures + 1 }
  | zero t =>
    rw [apply, stateAfter]
    split
    case isTrue => exact hset t fun st => { st with consecutiveFailures := 0 }
    case isFalse hknown =>
      split
      case isTrue hsid =>
        rw [hsid, Pipeline.state, state?, if_neg hknown]
        rfl
      case isFalse => rfl
  | degrade t => exact hset t fun st => { st with degraded := true }
  | mark t => exact hset t fun st => { st with degraded := true }
  | close owner name => exact p.state_closeCircuit owner name sid
  | resume t => exact hset t fun st => { st with degraded := false, consecutiveFailures := 0 }
  | pop t =>
    rw [apply, stateAfter, Pipeline.state, state?]
    simp only [List.mem_filter, decide_eq_true_eq]
    split
    case isTrue hmem =>
      rw [if_neg hmem.2, Pipeline.state, state?, if_pos hmem.1]
    case isFalse hmem =>
      split
      case isTrue => rfl
      case isFalse hsid =>
        rw [Pipeline.state, state?, if_neg fun h => hmem ⟨h, hsid⟩]

/-- What a block leaves as it was. -/
structure Configured (p p' : Pipeline β) : Prop where
  router : p'.router = p.router
  sessionRouters : p'.sessionRouters = p.sessionRouters
  sessionProviders : p'.sessionProviders = p.sessionProviders
  maxRetries : p'.maxRetries = p.maxRetries
  workers : p'.workers = p.workers

theorem configured_apply (e : Effect) : Configured p (p.apply e) := by
  cases e with
  | zero t =>
    rw [apply]
    split <;> exact ⟨rfl, rfl, rfl, rfl, rfl⟩
  | _ => exact ⟨rfl, rfl, rfl, rfl, rfl⟩

theorem trials_apply (e : Effect) :
    (p.apply e).trials =
      match e with
      | .schedule sid name => p.trials ++ [⟨p.owner sid, name, .sleeping⟩]
      | _ => p.trials := by
  cases e with
  | zero t =>
    rw [apply]
    split <;> rfl
  | _ => rfl

theorem circuits_apply (sid : String) (e : Effect) :
    (p.apply e).circuits sid =
      match e with
      | .openCircuit t name => if sid = t then insert name (p.circuits sid) else p.circuits sid
      | .close owner name => if p.Concerns owner sid then (p.circuits sid).erase name else p.circuits sid
      | .pop t => if sid = t then ∅ else p.circuits sid
      | _ => p.circuits sid := by
  rw [circuits, state_apply]
  cases e with
  | quiet | make | fail | reportDegraded | schedule | reportReset => rfl
  | openCircuit | close | pop => exact apply_ite SessionState.openCircuits _ _ _
  | count | zero | degrade | resume | mark =>
    exact (apply_ite SessionState.openCircuits _ _ _).trans (ite_self _)

theorem degraded_apply (sid : String) (e : Effect) :
    (p.apply e).degraded sid =
      match e with
      | .degrade t | .mark t => if sid = t then true else p.degraded sid
      | .resume t | .pop t => if sid = t then false else p.degraded sid
      | _ => p.degraded sid := by
  rw [degraded, state_apply]
  cases e with
  | quiet | make | fail | reportDegraded | schedule | reportReset => rfl
  | degrade | resume | mark | pop => exact apply_ite SessionState.degraded _ _ _
  | openCircuit | count | zero | close =>
    exact (apply_ite SessionState.degraded _ _ _).trans (ite_self _)

variable {p}

theorem opened_apply {e : Effect} {sid name : String} (h : name ∈ (p.apply e).circuits sid) :
    name ∈ p.circuits sid ∨ e = .openCircuit sid name := by
  rw [circuits_apply] at h
  cases e with
  | openCircuit t other =>
    dsimp only at h
    split at h
    case isTrue hsid =>
      obtain rfl | h := Finset.mem_insert.mp h
      · exact .inr (by rw [hsid])
      · exact .inl h
    case isFalse => exact .inl h
  | close owner other =>
    dsimp only at h
    split at h
    · exact .inl (Finset.mem_of_mem_erase h)
    · exact .inl h
  | pop t =>
    dsimp only at h
    split at h
    · exact absurd h (Finset.notMem_empty name)
    · exact .inl h
  | _ => exact .inl h

theorem closed_apply {e : Effect} {sid name : String} (hopen : name ∈ p.circuits sid)
    (h : name ∉ (p.apply e).circuits sid) :
    e = .pop sid ∨ ∃ owner, e = .close owner name ∧ p.Concerns owner sid := by
  rw [circuits_apply] at h
  cases e with
  | openCircuit t other =>
    dsimp only at h
    split at h
    · exact absurd (Finset.mem_insert_of_mem hopen) h
    · exact absurd hopen h
  | close owner other =>
    dsimp only at h
    split at h
    case isTrue hconcerns =>
      obtain rfl : name = other := by
        by_contra hne
        exact h (Finset.mem_erase.mpr ⟨hne, hopen⟩)
      exact .inr ⟨owner, rfl, hconcerns⟩
    case isFalse => exact absurd hopen h
  | pop t =>
    dsimp only at h
    split at h
    case isTrue hsid => exact .inl (by rw [hsid])
    case isFalse => exact absurd hopen h
  | _ => exact absurd hopen h

/-- The last circuit of a session closes. -/
theorem emptied_apply {e : Effect} {sid : String} (hopen : p.circuits sid ≠ ∅)
    (h : (p.apply e).circuits sid = ∅) :
    e = .pop sid ∨ ∃ owner name, name ∈ p.circuits sid ∧ e = .close owner name ∧ p.Concerns owner sid := by
  obtain ⟨name, hname⟩ := Finset.nonempty_iff_ne_empty.mpr hopen
  have hclosed : name ∉ (p.apply e).circuits sid := by
    rw [h]
    exact Finset.notMem_empty name
  obtain hpops | ⟨owner, hcloses, hconcerns⟩ := closed_apply hname hclosed
  · exact .inl hpops
  · exact .inr ⟨owner, name, hname, hcloses, hconcerns⟩

theorem degrades_apply {e : Effect} {sid : String} (hunset : p.degraded sid = false)
    (h : (p.apply e).degraded sid = true) : e = .degrade sid ∨ e = .mark sid := by
  rw [degraded_apply] at h
  cases e with
  | degrade t =>
    dsimp only at h
    split at h
    case isTrue hsid => exact .inl (by rw [hsid])
    case isFalse => exact absurd h (by simp [hunset])
  | mark t =>
    dsimp only at h
    split at h
    case isTrue hsid => exact .inr (by rw [hsid])
    case isFalse => exact absurd h (by simp [hunset])
  | resume | pop =>
    dsimp only at h
    split at h
    · cases h
    · exact absurd h (by simp [hunset])
  | _ => exact absurd h (by simp [hunset])

theorem counts_apply {e : Effect} {sid : String}
    (h : (p.state sid).consecutiveFailures < ((p.apply e).state sid).consecutiveFailures) :
    e = .count sid := by
  rw [state_apply] at h
  cases e with
  | count t =>
    rw [stateAfter] at h
    split at h
    case isTrue hsid => rw [hsid]
    case isFalse => exact absurd h (lt_irrefl _)
  | quiet | make | fail | reportDegraded | schedule | reportReset => exact absurd h (lt_irrefl _)
  | openCircuit | degrade | mark | close =>
    rw [stateAfter] at h
    split at h <;> exact absurd h (lt_irrefl _)
  | zero | resume | pop =>
    rw [stateAfter] at h
    split at h
    · exact absurd h (Nat.not_lt_zero _)
    · exact absurd h (lt_irrefl _)

variable (p)

/-- What the next block of a worker can be. -/
inductive Works [DecidableEq β] (w : Worker β) (budgetExceeded : Bool) (answer : Attempt) :
    Effect → Worker β → Prop
  | refused (hplace : w.place = .queued) (hbudget : budgetExceeded = true) :
      Works w budgetExceeded answer .quiet { w with place := .failed }
  | admitted (hplace : w.place = .queued) :
      Works w budgetExceeded answer .quiet
        { w with place := .resolving ⟨p.providerHint w.sid, p.routerFor w.sid, ∅⟩ }
  | none {call : Call β} (hplace : w.place = .resolving call)
      (hnone : call.router.resolve hash w.sid call.hint (p.circuits w.sid) = none) :
      Works w budgetExceeded answer (.make w.sid)
        { w with shutOut := p.circuits w.sid ≠ ∅, place := .failed }
  | repeated {call : Call β} {name : String} (hplace : w.place = .resolving call) (htried : name ∈ call.tried) :
      Works w budgetExceeded answer (.make w.sid) { w with place := .failed }
  | picked {call : Call β} {name : String} {backend : β} (hplace : w.place = .resolving call) :
      Works w budgetExceeded answer (.make w.sid)
        { w with place := .calling { call with tried := insert name call.tried } name backend 1 .other }
  | exhausted {call : Call β} {name : String} {backend : β} {attempt : Nat} {last : CallError}
      (hplace : w.place = .calling call name backend attempt last) (hlast : p.maxRetries < attempt) :
      Works w budgetExceeded answer .quiet { w with place := raised call name last }
  | answered {call : Call β} {name : String} {backend : β} {attempt : Nat} {last : CallError}
      (hplace : w.place = .calling call name backend attempt last) :
      Works w budgetExceeded answer .quiet { w with place := .succeeded }
  | noSlot {call : Call β} {name : String} {backend : β} {attempt : Nat} {last : CallError}
      (hplace : w.place = .calling call name backend attempt last) :
      Works w budgetExceeded answer .quiet
        { w with place := .calling call name backend (attempt + 1) .retryable }
  | retried {call : Call β} {name : String} {backend : β} {attempt : Nat} {last : CallError}
      (hplace : w.place = .calling call name backend attempt last) :
      Works w budgetExceeded answer (.fail w.sid)
        { w with
          failedCalls := w.failedCalls + 1
          place := .calling call name backend (attempt + 1) .retryable }
  | raised {call : Call β} {name : String} {backend : β} {attempt : Nat} {last e : CallError}
      (hplace : w.place = .calling call name backend attempt last) :
      Works w budgetExceeded answer (.fail w.sid)
        { w with failedCalls := w.failedCalls + 1, place := raised call name e }
  | opened {call : Call β} {name : String} (hplace : w.place = .opening call name) :
      Works w budgetExceeded answer (.openCircuit w.sid name) { w with place := .scheduling call name }
  | scheduled {call : Call β} {name : String} (hplace : w.place = .scheduling call name) :
      Works w budgetExceeded answer (.schedule w.sid name) { w with place := .resolving call }
  | reset (hplace : w.place = .succeeded ∨ w.place = .sparing) :
      Works w budgetExceeded answer (.zero w.sid) { w with place := .ended }
  | hinted (hplace : w.place = .failed) :
      Works w budgetExceeded answer .quiet { w with place := .failing (p.providerHint w.sid) }
  | counted {hint : String} (hplace : w.place = .failing hint) :
      Works w budgetExceeded answer (.count w.sid)
        { w with place := .counted hint ((p.state w.sid).consecutiveFailures + 1) }
  | left {hint : String} {count : Nat} (hplace : w.place = .counted hint count) :
      Works w budgetExceeded answer .quiet { w with place := .ended }
  | unmarked {hint : String} {count : Nat} (hplace : w.place = .counted hint count) :
      Works w budgetExceeded answer .quiet { w with place := .unmarked hint }
  | exempted {hint : String} (hplace : w.place = .unmarked hint) :
      Works w budgetExceeded answer .quiet { w with place := .testing none }
  | chosen {hint : String} (hplace : w.place = .unmarked hint) :
      Works w budgetExceeded answer .quiet { w with place := .marking hint }
  | marked {hint : String} (hplace : w.place = .marking hint) :
      Works w budgetExceeded answer (.openCircuit w.sid hint) { w with place := .marked hint }
  | timed {hint : String} (hplace : w.place = .marked hint) :
      Works w budgetExceeded answer (.schedule w.sid hint) { w with place := .testing (some hint) }
  | tested {hint : Option String} (hplace : w.place = .testing hint) :
      Works w budgetExceeded answer .quiet
        { w with place := .judging hint ((p.state? w.sid).map SessionState.openCircuits) }
  | condemned {hint : Option String} {circuits : Option (Finset String)}
      (hplace : w.place = .judging hint circuits) :
      Works w budgetExceeded answer .quiet { w with place := .degrading hint }
  | spared {hint : Option String} {circuits : Option (Finset String)}
      (hplace : w.place = .judging hint circuits) :
      Works w budgetExceeded answer .quiet { w with place := .sparing }
  | degraded {hint : Option String} (hplace : w.place = .degrading hint) :
      Works w budgetExceeded answer (.degrade w.sid) { w with place := .reporting hint }
  | reported {hint : Option String} (hplace : w.place = .reporting hint) :
      Works w budgetExceeded answer (.reportDegraded w.sid w.stepId) { w with place := .rescheduling hint }
  | rescheduled {hint : String} (hplace : w.place = .rescheduling (some hint)) :
      Works w budgetExceeded answer (.schedule w.sid hint) { w with place := .ended }
  | finished (hplace : w.place = .rescheduling none ∨ w.place = .ended) :
      Works w budgetExceeded answer .quiet { w with place := .ended }

theorem works_workerStep [DecidableEq β] (w : Worker β) (budgetExceeded : Bool) (answer : Attempt) :
    Works hash p w budgetExceeded answer (p.workerStep hash w budgetExceeded answer).1
      (p.workerStep hash w budgetExceeded answer).2 := by
  unfold workerStep
  split
  case h_1 hplace =>
    dsimp only
    split
    case isTrue hbudget => exact .refused hplace hbudget
    case isFalse => exact .admitted hplace
  case h_2 call hplace =>
    split
    case h_1 hnone => exact .none hplace hnone
    case h_2 backend _ =>
      dsimp only
      split
      case isTrue htried => exact .repeated hplace htried.2
      case isFalse => exact .picked hplace
  case h_3 call name backend attempt last hplace =>
    split
    case isTrue hlast => exact .exhausted hplace hlast
    case isFalse =>
      split
      · exact .answered hplace
      · exact .noSlot hplace
      · exact .retried hplace
      · exact .raised hplace
  case h_4 hplace => exact .opened hplace
  case h_5 hplace => exact .scheduled hplace
  case h_6 hplace => exact .reset (.inl hplace)
  case h_7 hplace => exact .hinted hplace
  case h_8 hplace => exact .counted hplace
  case h_9 hplace =>
    dsimp only
    split
    · exact .left hplace
    · exact .unmarked hplace
  case h_10 hplace =>
    dsimp only
    split
    · exact .exempted hplace
    · exact .chosen hplace
  case h_11 hplace => exact .marked hplace
  case h_12 hplace => exact .timed hplace
  case h_13 hplace => exact .tested hplace
  case h_14 hplace =>
    dsimp only
    split
    · exact .condemned hplace
    · exact .spared hplace
  case h_15 hplace => exact .reset (.inr hplace)
  case h_16 hplace => exact .degraded hplace
  case h_17 hplace => exact .reported hplace
  case h_18 hint hplace =>
    cases hint with
    | none => exact .finished (.inl hplace)
    | some hint => exact .rescheduled hplace
  case h_19 hplace =>
    have hsame : w = { w with place := .ended } := by rw [← hplace]
    rw [hsame]
    exact .finished (.inr rfl)

/-- What the next block of a trial can be. -/
inductive Tries (t : Trial β) (alive : Bool) : Effect → Trial β → Prop
  | idle (hplace : t.place = .sleeping) (hnone : p.pinged t = none) :
      Tries t alive .quiet { t with place := .ended }
  | woken {router : ModelRouter β} (hplace : t.place = .sleeping) (hrouter : p.pinged t = some router) :
      Tries t alive .quiet { t with place := .pinging router }
  | answered {router : ModelRouter β} {e : BackendEntry β} (hplace : t.place = .pinging router)
      (hentry : router.byName t.name = some e) (halive : alive = true) :
      Tries t alive .quiet { t with place := .closing e.backend }
  | failed {router : ModelRouter β} (hplace : t.place = .pinging router) :
      Tries t alive .quiet { t with place := .sleeping }
  | closed {backend : β} (hplace : t.place = .closing backend) :
      Tries t alive (.close t.owner t.name) { t with place := .reviewing (p.toReview t) }
  | finished (hplace : t.place = .reviewing [] ∨ t.place = .ended) :
      Tries t alive .quiet { t with place := .ended }
  | reviewed {sid : String} {rest : List String} (hplace : t.place = .reviewing (sid :: rest)) :
      Tries t alive .quiet
        { t with place := .judging sid ((p.state? sid).map SessionState.openCircuits) rest }
  | left {sid : String} {circuits : Option (Finset String)} {rest : List String}
      (hplace : t.place = .judging sid circuits rest) (hfull : p.isFullyDegraded sid circuits = true) :
      Tries t alive .quiet { t with place := .reviewing rest }
  | freed {sid : String} {circuits : Option (Finset String)} {rest : List String}
      (hplace : t.place = .judging sid circuits rest) :
      Tries t alive .quiet { t with place := .resuming sid rest }
  | resumed {sid : String} {rest : List String} (hplace : t.place = .resuming sid rest)
      (hdegraded : p.degraded sid = true) :
      Tries t alive (.resume sid) { t with place := .resetting sid rest }
  | passed {sid : String} {rest : List String} (hplace : t.place = .resuming sid rest)
      (hdegraded : p.degraded sid = false) :
      Tries t alive .quiet { t with place := .reviewing rest }
  | told {sid : String} {rest : List String} (hplace : t.place = .resetting sid rest) :
      Tries t alive (.reportReset sid) { t with place := .reviewing rest }

theorem tries_trialStep (t : Trial β) (alive : Bool) :
    Tries p t alive (p.trialStep t alive).1 (p.trialStep t alive).2 := by
  unfold trialStep
  split
  case h_1 hplace =>
    cases hrouter : p.pinged t with
    | none => exact .idle hplace hrouter
    | some router => exact .woken hplace hrouter
  case h_2 router hplace =>
    cases hentry : router.byName t.name with
    | none => exact .failed hplace
    | some e =>
      cases alive with
      | true => exact .answered hplace hentry rfl
      | false => exact .failed hplace
  case h_3 hplace => exact .closed hplace
  case h_4 hplace => exact .finished (.inl hplace)
  case h_5 hplace => exact .reviewed hplace
  case h_6 sid circuits rest hplace =>
    dsimp only
    split
    case isTrue hfull => exact .left hplace hfull
    case isFalse => exact .freed hplace
  case h_7 sid rest hplace =>
    split
    case isTrue hdegraded => exact .resumed hplace hdegraded
    case isFalse hdegraded => exact .passed hplace (Bool.eq_false_iff.mpr hdegraded)
  case h_8 hplace => exact .told hplace
  case h_9 hplace =>
    have hsame : t = { t with place := .ended } := by rw [← hplace]
    rw [hsame]
    exact .finished (.inr rfl)

variable {p} in
theorem trials_tries {t t' : Trial β} {alive : Bool} {e : Effect} (h : Tries p t alive e t') :
    (p.apply e).trials = p.trials := by
  rw [trials_apply]
  cases h <;> rfl

/-- What a step does to the sessions. -/
def effect [DecidableEq β] : Act β → Effect
  | .setSessionProvider _ _ | .setSessionConfig _ _ _ _ _ => .quiet
  | .submit sid stepId => if sid = "" ∨ stepId = 0 then .quiet else .make sid
  | .work k budgetExceeded answer =>
      p.workers[k]?.elim .quiet fun w => (p.workerStep hash w budgetExceeded answer).1
  | .trial k alive => p.trials[k]?.elim .quiet fun t => (p.trialStep t alive).1
  | .markSessionDegraded sid => .mark sid
  | .resetSession sid => .pop sid

/-- Where the effect of a step comes from. -/
inductive Source [DecidableEq β] (i : Act β) : Effect → Prop
  | quiet : Source i .quiet
  | made (sid : String) : Source i (.make sid)
  | worked {k : Nat} {budgetExceeded : Bool} {answer : Attempt} {w w' : Worker β} {e : Effect}
      (hi : i = .work k budgetExceeded answer) (hw : p.workers[k]? = some w)
      (hworks : Works hash p w budgetExceeded answer e w') : Source i e
  | tried {k : Nat} {alive : Bool} {t t' : Trial β} {e : Effect} (hi : i = .trial k alive)
      (ht : p.trials[k]? = some t) (htries : Tries p t alive e t') : Source i e
  | marked {sid : String} (hi : i = .markSessionDegraded sid) : Source i (.mark sid)
  | popped {sid : String} (hi : i = .resetSession sid) : Source i (.pop sid)

theorem source_effect [DecidableEq β] (i : Act β) : Source hash p i (p.effect hash i) := by
  cases i with
  | setSessionProvider | setSessionConfig => exact .quiet
  | submit sid stepId =>
    rw [effect]
    split
    · exact .quiet
    · exact .made sid
  | work k budgetExceeded answer =>
    rw [effect]
    cases hw : p.workers[k]? with
    | none => exact .quiet
    | some w => exact .worked rfl hw (works_workerStep hash p w budgetExceeded answer)
  | trial k alive =>
    rw [effect]
    cases ht : p.trials[k]? with
    | none => exact .quiet
    | some t => exact .tried rfl ht (tries_trialStep p t alive)
  | markSessionDegraded => exact .marked rfl
  | resetSession => exact .popped rfl

/-- The same states, messages and calls of all sessions. -/
structure SameSessions (p p' : Pipeline β) : Prop where
  known : p'.known = p.known
  states : p'.states = p.states
  sent : p'.sent = p.sent
  unsent : p'.unsent = p.unsent
  failedCalls : p'.failedCalls = p.failedCalls

theorem sessions_step [DecidableEq β] (i : Act β) :
    SameSessions (p.apply (p.effect hash i)) (p.step hash i) := by
  cases i with
  | setSessionProvider sid name =>
    rw [step, setSessionProvider]
    split <;> exact ⟨rfl, rfl, rfl, rfl, rfl⟩
  | setSessionConfig sid primary =>
    rw [step, setSessionConfig]
    split <;> exact ⟨rfl, rfl, rfl, rfl, rfl⟩
  | submit sid stepId =>
    rw [step, submit, effect]
    split
    · exact ⟨rfl, rfl, rfl, rfl, rfl⟩
    dsimp only
    split <;> exact ⟨rfl, rfl, rfl, rfl, rfl⟩
  | work k =>
    rw [step, effect]
    split
    case h_1 w hw =>
      rw [hw]
      exact ⟨rfl, rfl, rfl, rfl, rfl⟩
    case h_2 hw =>
      rw [hw]
      exact ⟨rfl, rfl, rfl, rfl, rfl⟩
  | trial k =>
    rw [step, effect]
    split
    case h_1 t ht =>
      rw [ht]
      exact ⟨rfl, rfl, rfl, rfl, rfl⟩
    case h_2 ht =>
      rw [ht]
      exact ⟨rfl, rfl, rfl, rfl, rfl⟩
  | markSessionDegraded | resetSession => exact ⟨rfl, rfl, rfl, rfl, rfl⟩

variable {p} in
theorem SameSessions.state {p' : Pipeline β} (h : SameSessions p p') (sid : String) :
    p'.state sid = p.state sid := by
  rw [Pipeline.state, Pipeline.state, state?, state?, h.known, h.states]

variable {p} in
theorem SameSessions.circuits {p' : Pipeline β} (h : SameSessions p p') (sid : String) :
    p'.circuits sid = p.circuits sid := congrArg SessionState.openCircuits (h.state sid)

variable {p} in
theorem SameSessions.degraded {p' : Pipeline β} (h : SameSessions p p') (sid : String) :
    p'.degraded sid = p.degraded sid := congrArg SessionState.degraded (h.state sid)

end Pipeline

end MemoryArchive.Model.Breaker
