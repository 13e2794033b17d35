import Mathlib.Data.Finset.Erase
import MemoryArchive.Data.Runs
import MemoryArchive.Model.Pipeline

namespace MemoryArchive.Model

open Runs

/-- Why a call of a model fails. The third kind is any other exception. -/
inductive CallError
  | retryable
  | nonRetryable
  | other
  deriving DecidableEq

/-- One attempt of a call: it may find no slot within the request limit. -/
inductive Attempt
  | success
  | noSlot
  | failed (e : CallError)
  deriving DecidableEq

/-- What the calls of one step meet. -/
structure CallEnv (β : Type) where
  budgetExceeded : Bool
  attempt : β → Nat → Attempt

/-- The retry loop for one backend, with the number of calls that it makes. -/
def callWithRetries (answer : Nat → Attempt) : Nat → Nat → CallError → Except CallError Unit × Nat
  | 0, _, last => (.error last, 0)
  | n + 1, k, _ =>
      match answer k with
      | .success => (.ok (), 1)
      | .noSlot => callWithRetries answer n (k + 1) .retryable
      | .failed .retryable =>
          let (result, calls) := callWithRetries answer n (k + 1) .retryable
          (result, calls + 1)
      | .failed e => (.error e, 1)

/-- What the call for one step leaves: the open circuits, the number of calls
that were made, and the name of the backend that answered. -/
structure CallOutcome where
  circuits : Finset String
  calls : Nat
  result : Except CallError String

inductive PipelineInput (β : Type)
  | submit (sid : String) (stepId : Nat)
  | work (i : Nat) (env : CallEnv β)
  | trial (name : String) (alive : Bool)
  | sessionTrial (sid name : String) (alive : Bool)

namespace ReasoningPipeline

variable {β : Type} (hash : String → Int) (p : ReasoningPipeline β)

/-- All attempts of a step at one backend. -/
def callBackend (env : CallEnv β) (backend : β) : Except CallError Unit × Nat :=
  callWithRetries (env.attempt backend) p.maxRetries 1 .other

/-- The loop of the fallback policy. Each round tries a backend that was not
tried before, so that the pool bounds the number of rounds. -/
def fallbackLoop [DecidableEq β] (router : ModelRouter β) (hint : String) (call : β → Except CallError Unit × Nat) :
    Nat → Finset String → Finset String → CallError → Nat → CallOutcome
  | 0, _, circuits, last, calls => ⟨circuits, calls, .error last⟩
  | n + 1, tried, circuits, last, calls =>
      match router.resolveFallback hint circuits with
      | none => ⟨circuits, calls, .error .nonRetryable⟩
      | some backend =>
          let name := router.entryNameFor backend
          if name ∈ tried then ⟨circuits, calls, .error last⟩
          else
            match call backend with
            | (.ok _, k) => ⟨circuits, calls + k, .ok name⟩
            | (.error .nonRetryable, k) =>
                fallbackLoop router hint call n (insert name tried) (insert name circuits)
                  .nonRetryable (calls + k)
            | (.error e, k) => ⟨circuits, calls + k, .error e⟩

/-- `_call_vlm`, the call for one step of a session. -/
def callVlm [DecidableEq β] (env : CallEnv β) (sid : String) : CallOutcome :=
  let router := p.routerFor sid
  let hint := p.providerHint sid
  let circuits := (p.state sid).openCircuits
  if env.budgetExceeded then ⟨circuits, 0, .error .nonRetryable⟩
  else if router.policy = .fallback then
    fallbackLoop router hint (p.callBackend env) (router.entries.length + 1) ∅ circuits .nonRetryable 0
  else
    match router.resolve hash sid hint circuits with
    | none => ⟨circuits, 0, .error .nonRetryable⟩
    | some backend =>
        let (result, calls) := p.callBackend env backend
        ⟨circuits, calls, result.map fun _ => router.entryNameFor backend⟩

def setState (sid : String) (state : SessionState) : ReasoningPipeline β :=
  { p with sessionStates := Function.update p.sessionStates sid (some state) }

def submit (sid : String) (stepId : Nat) : ReasoningPipeline β :=
  if sid = "" ∨ stepId = 0 then p
  else
    let p := p.setState sid (p.state sid)
    if (p.state sid).degraded then p else { p with queue := p.queue ++ [(sid, stepId)] }

def sendDegraded (sid : String) (stepId : Nat) : ReasoningPipeline β :=
  { p with sent := Function.update p.sent sid (p.sent sid ++ [.reasoningDegraded sid stepId]) }

/-- The circuits after a failure that reached the threshold. The fallback loop
has opened its circuits before. -/
def checkedCircuits (sid : String) (circuits : Finset String) : Finset String :=
  if (p.routerFor sid).policy = .fallback then circuits else insert (p.providerHint sid) circuits

def checkCircuit (sid : String) (stepId count : Nat) : ReasoningPipeline β :=
  if count < p.threshold then p
  else
    let state := p.state sid
    if state.degraded then p
    else
      let circuits := p.checkedCircuits sid state.openCircuits
      let p := p.setState sid { state with openCircuits := circuits }
      if p.isFullyDegraded sid then
        (p.setState sid { p.state sid with degraded := true }).sendDegraded sid stepId
      else p.setState sid { p.state sid with consecutiveFailures := 0 }

def incrementFailures (sid : String) (stepId : Nat) : ReasoningPipeline β :=
  let state := p.state sid
  let count := state.consecutiveFailures + 1
  (p.setState sid { state with consecutiveFailures := count }).checkCircuit sid stepId count

def resetFailures (sid : String) : ReasoningPipeline β :=
  p.setState sid { p.state sid with consecutiveFailures := 0 }

/-- The step of a session leaves the queue with what its call has left. -/
def endCall (i : Nat) (sid : String) (outcome : CallOutcome) : ReasoningPipeline β :=
  { p.setState sid { p.state sid with openCircuits := outcome.circuits } with
    queue := p.queue.eraseIdx i
    calls := Function.update p.calls sid (p.calls sid + outcome.calls)
    ended := Function.update p.ended sid (p.ended sid + 1) }

/-- A worker takes a step, calls the model and accounts for the outcome. -/
def work [DecidableEq β] (i : Nat) (env : CallEnv β) : ReasoningPipeline β :=
  match p.queue[i]? with
  | none => p
  | some (sid, stepId) =>
      let outcome := p.callVlm hash env sid
      match outcome.result with
      | .ok _ => (p.endCall i sid outcome).resetFailures sid
      | .error _ => (p.endCall i sid outcome).incrementFailures sid stepId

/-- A session after a trial that found a backend alive: its circuit is closed,
and a session with a backend again resumes. -/
def reopened (name sid : String) : Option SessionState × List PipelineMessage :=
  match p.sessionStates sid with
  | none => (none, p.sent sid)
  | some state =>
      if name ∈ state.openCircuits then
        let circuits := state.openCircuits.erase name
        if state.degraded && !fullyOpen (p.routerFor sid) (p.providerHint sid) circuits then
          (some ⟨0, false, circuits⟩, p.sent sid ++ [.circuitReset sid])
        else (some { state with openCircuits := circuits }, p.sent sid)
      else (some state, p.sent sid)

def closeCircuits (concerns : String → Bool) (name : String) : ReasoningPipeline β :=
  { p with
    sessionStates := fun sid => if concerns sid then (p.reopened name sid).1 else p.sessionStates sid
    sent := fun sid => if concerns sid then (p.reopened name sid).2 else p.sent sid }

/-- The half-open trial of a backend of the global router, for the sessions
that use it. -/
def trial (name : String) (alive : Bool) : ReasoningPipeline β :=
  if alive && (p.router.byName name).isSome then
    p.closeCircuits (fun sid => (p.sessionRouters sid).isNone) name
  else p

/-- The half-open trial of a backend of a session's own router. -/
def sessionTrial (sid name : String) (alive : Bool) : ReasoningPipeline β :=
  match p.sessionRouters sid with
  | none => p
  | some router =>
      if alive && (router.byName name).isSome then p.closeCircuits (fun t => t = sid) name else p

def step [DecidableEq β] (p : ReasoningPipeline β) : PipelineInput β → ReasoningPipeline β
  | .submit sid stepId => p.submit sid stepId
  | .work i env => p.work hash i env
  | .trial name alive => p.trial name alive
  | .sessionTrial sid name alive => p.sessionTrial sid name alive

/-- A pipeline before its first step. -/
def start (router : ModelRouter β) (sessionRouters : String → Option (ModelRouter β))
    (sessionProviders : String → Option String) (threshold maxRetries : Nat) : ReasoningPipeline β where
  router := router
  sessionRouters := sessionRouters
  sessionProviders := sessionProviders
  threshold := threshold
  maxRetries := maxRetries
  sessionStates _ := none
  queue := []
  sent _ := []
  calls _ := 0
  ended _ := 0

@[simp] theorem state_setState (t sid : String) (state : SessionState) :
    (p.setState t state).state sid = if sid = t then state else p.state sid := by
  rw [ReasoningPipeline.state, setState]
  dsimp only
  rw [Function.update_apply]
  split
  · rfl
  · rfl

theorem isFullyDegraded_eq (sid : String) :
    p.isFullyDegraded sid =
      fullyOpen (p.routerFor sid) (p.providerHint sid) (p.state sid).openCircuits := by
  rw [isFullyDegraded, ReasoningPipeline.state]
  cases p.sessionStates sid with
  | some state => rfl
  | none => exact (fullyOpen_empty _ _).symm

/-- What a pipeline is configured with. -/
structure Configured (p p' : ReasoningPipeline β) : Prop where
  routerFor : p'.routerFor = p.routerFor
  providerHint : p'.providerHint = p.providerHint
  sessionRouters : p'.sessionRouters = p.sessionRouters
  threshold : p'.threshold = p.threshold

theorem Configured.refl : Configured p p := ⟨rfl, rfl, rfl, rfl⟩

variable {p} in
theorem Configured.trans {p' p'' : ReasoningPipeline β} (h : Configured p p') (h' : Configured p' p'') :
    Configured p p'' :=
  ⟨h'.routerFor.trans h.routerFor, h'.providerHint.trans h.providerHint,
    h'.sessionRouters.trans h.sessionRouters, h'.threshold.trans h.threshold⟩

theorem configured_setState (sid : String) (state : SessionState) :
    Configured p (p.setState sid state) := ⟨rfl, rfl, rfl, rfl⟩

theorem configured_checkCircuit (sid : String) (stepId count : Nat) :
    Configured p (p.checkCircuit sid stepId count) := by
  rw [checkCircuit]
  split
  · exact .refl p
  dsimp only
  split
  · exact .refl p
  split
  · exact ⟨rfl, rfl, rfl, rfl⟩
  · exact ⟨rfl, rfl, rfl, rfl⟩

theorem configured_work [DecidableEq β] (i : Nat) (env : CallEnv β) : Configured p (p.work hash i env) := by
  rw [work]
  split
  · exact .refl p
  dsimp only
  split
  · exact ⟨rfl, rfl, rfl, rfl⟩
  · rw [incrementFailures]
    refine Configured.trans ?_ (configured_checkCircuit _ _ _ _)
    exact ⟨rfl, rfl, rfl, rfl⟩

/-- No step changes the configuration. -/
theorem configured_step [DecidableEq β] (i : PipelineInput β) : Configured p (p.step hash i) := by
  cases i with
  | submit sid stepId =>
    rw [step, submit]
    split
    · exact .refl p
    dsimp only
    split
    · exact ⟨rfl, rfl, rfl, rfl⟩
    · exact ⟨rfl, rfl, rfl, rfl⟩
  | work i env => exact p.configured_work hash i env
  | trial name alive =>
    rw [step, trial]
    split
    · exact ⟨rfl, rfl, rfl, rfl⟩
    · exact .refl p
  | sessionTrial sid name alive =>
    rw [step, sessionTrial]
    split
    · exact .refl p
    split
    · exact ⟨rfl, rfl, rfl, rfl⟩
    · exact .refl p

/-- What the end of a step does to the state of its session, and the messages
that it sends. The circuits are those that the call has left. -/
inductive Ends (sid : String) (stepId : Nat) (circuits : Finset String) :
    Except CallError String → SessionState → List PipelineMessage → Prop
  | answered (name : String) : Ends sid stepId circuits (.ok name) ⟨0, (p.state sid).degraded, circuits⟩ []
  | counted (e : CallError) :
      (p.state sid).consecutiveFailures + 1 < p.threshold ∨ (p.state sid).degraded = true →
      Ends sid stepId circuits (.error e)
        ⟨(p.state sid).consecutiveFailures + 1, (p.state sid).degraded, circuits⟩ []
  | spared (e : CallError) : p.threshold ≤ (p.state sid).consecutiveFailures + 1 →
      (p.state sid).degraded = false →
      fullyOpen (p.routerFor sid) (p.providerHint sid) (p.checkedCircuits sid circuits) = false →
      Ends sid stepId circuits (.error e) ⟨0, false, p.checkedCircuits sid circuits⟩ []
  | gaveUp (e : CallError) : (p.state sid).degraded = false →
      fullyOpen (p.routerFor sid) (p.providerHint sid) (p.checkedCircuits sid circuits) = true →
      Ends sid stepId circuits (.error e)
        ⟨(p.state sid).consecutiveFailures + 1, true, p.checkedCircuits sid circuits⟩
        [.reasoningDegraded sid stepId]

/-- What a step of the pipeline does to one session: nothing, the end of one of
its steps, or a trial that closes one of its circuits. -/
inductive Effect [DecidableEq β] (sid : String) (i : PipelineInput β) (p' : ReasoningPipeline β) : Prop
  | kept : p'.state sid = p.state sid → p'.sent sid = p.sent sid → p'.calls sid = p.calls sid →
      p'.ended sid = p.ended sid → Effect sid i p'
  | ended (n stepId : Nat) (env : CallEnv β) (new : List PipelineMessage) :
      i = .work n env → p.queue[n]? = some (sid, stepId) →
      p.Ends sid stepId (p.callVlm hash env sid).circuits (p.callVlm hash env sid).result
        (p'.state sid) new →
      p'.sent sid = p.sent sid ++ new → p'.calls sid = p.calls sid + (p.callVlm hash env sid).calls →
      p'.ended sid = p.ended sid + 1 → Effect sid i p'
  | closed (name : String) : i = .trial name true ∧ p.sessionRouters sid = none ∨
        i = .sessionTrial sid name true →
      p'.calls sid = p.calls sid → p'.ended sid = p.ended sid →
      ((p.state sid).degraded = true ∧
          p'.state sid = ⟨0, false, (p.state sid).openCircuits.erase name⟩ ∨
        p'.state sid = { p.state sid with openCircuits := (p.state sid).openCircuits.erase name } ∧
          ((p.state sid).degraded = true → fullyOpen (p.routerFor sid) (p.providerHint sid)
              ((p.state sid).openCircuits.erase name) = true) ∧
          p'.sent sid = p.sent sid) →
      Effect sid i p'

@[simp] theorem state_sendDegraded (t sid : String) (stepId : Nat) :
    (p.sendDegraded t stepId).state sid = p.state sid := rfl

/-- The accounting of a failure, whose count is already in the state. -/
theorem ends_checkCircuit {p' : ReasoningPipeline β} {sid : String} {circuits : Finset String}
    (stepId : Nat) (e : CallError) (hconfig : Configured p p')
    (hstate : p'.state sid =
      ⟨(p.state sid).consecutiveFailures + 1, (p.state sid).degraded, circuits⟩) :
    ∃ new, p.Ends sid stepId circuits (.error e)
        ((p'.checkCircuit sid stepId ((p.state sid).consecutiveFailures + 1)).state sid) new ∧
      (p'.checkCircuit sid stepId ((p.state sid).consecutiveFailures + 1)).sent sid =
        p'.sent sid ++ new := by
  rw [checkCircuit, hconfig.threshold]
  split
  · rename_i hlt
    refine ⟨[], ?_, (List.append_nil _).symm⟩
    rw [hstate]
    exact .counted e (.inl hlt)
  rename_i hreached
  rw [hstate]
  dsimp only
  split
  · rename_i hdegraded
    refine ⟨[], ?_, (List.append_nil _).symm⟩
    rw [hstate]
    exact .counted e (.inr hdegraded)
  rename_i hdegraded
  have hnot : (p.state sid).degraded = false := by simpa using hdegraded
  have hcircuits : p'.checkedCircuits sid circuits = p.checkedCircuits sid circuits := by
    rw [checkedCircuits, checkedCircuits, hconfig.routerFor, hconfig.providerHint]
  have htest : ∀ state, (p'.setState sid state).isFullyDegraded sid =
      fullyOpen (p.routerFor sid) (p.providerHint sid) state.openCircuits := by
    intro state
    rw [isFullyDegraded_eq, state_setState, if_pos rfl]
    rw [← hconfig.routerFor, ← hconfig.providerHint]
    rfl
  rw [hcircuits, htest]
  dsimp only
  split
  · rename_i hopen
    refine ⟨[.reasoningDegraded sid stepId], ?_, ?_⟩
    · simp only [state_sendDegraded, state_setState, if_true]
      exact .gaveUp e hnot hopen
    · rw [sendDegraded]
      dsimp only
      rw [Function.update_self]
      rfl
  · rename_i hopen
    refine ⟨[], ?_, (List.append_nil _).symm⟩
    simp only [state_setState, if_true, hnot]
    exact .spared e (Nat.le_of_not_lt hreached) hnot (by simpa using hopen)

theorem state_endCall (i : Nat) (t sid : String) (outcome : CallOutcome) :
    (p.endCall i t outcome).state sid =
      if sid = t then { p.state t with openCircuits := outcome.circuits } else p.state sid :=
  p.state_setState t sid _

/-- The accounting of a failure, after the call has left its circuits. -/
theorem ends_incrementFailures {p' : ReasoningPipeline β} {sid : String} {circuits : Finset String}
    (stepId : Nat) (e : CallError) (hconfig : Configured p p')
    (hstate : p'.state sid = { p.state sid with openCircuits := circuits }) :
    ∃ new, p.Ends sid stepId circuits (.error e) ((p'.incrementFailures sid stepId).state sid) new ∧
      (p'.incrementFailures sid stepId).sent sid = p'.sent sid ++ new := by
  rw [incrementFailures, hstate]
  have hcounted := p'.state_setState sid sid
    ⟨(p.state sid).consecutiveFailures + 1, (p.state sid).degraded, circuits⟩
  rw [if_pos rfl] at hcounted
  exact p.ends_checkCircuit stepId e (hconfig.trans (p'.configured_setState sid _)) hcounted

theorem checkCircuit_frame (t sid : String) (stepId count : Nat) :
    (p.checkCircuit t stepId count).calls = p.calls ∧ (p.checkCircuit t stepId count).ended = p.ended ∧
      (sid ≠ t → (p.checkCircuit t stepId count).state sid = p.state sid ∧
        (p.checkCircuit t stepId count).sent sid = p.sent sid) := by
  rw [checkCircuit]
  split
  · exact ⟨rfl, rfl, fun _ => ⟨rfl, rfl⟩⟩
  dsimp only
  split
  · exact ⟨rfl, rfl, fun _ => ⟨rfl, rfl⟩⟩
  split
  · refine ⟨rfl, rfl, fun hne => ⟨?_, ?_⟩⟩
    · simp [hne]
    · rw [sendDegraded]
      dsimp only
      rw [Function.update_of_ne hne]
      rfl
  · refine ⟨rfl, rfl, fun hne => ⟨?_, rfl⟩⟩
    simp [hne]

/-- The accounting makes no call, and it concerns its own session. -/
theorem incrementFailures_frame (t sid : String) (stepId : Nat) :
    (p.incrementFailures t stepId).calls = p.calls ∧ (p.incrementFailures t stepId).ended = p.ended ∧
      (sid ≠ t → (p.incrementFailures t stepId).state sid = p.state sid ∧
        (p.incrementFailures t stepId).sent sid = p.sent sid) := by
  rw [incrementFailures]
  have hset := p.state_setState t sid
    { p.state t with consecutiveFailures := (p.state t).consecutiveFailures + 1 }
  obtain ⟨hcalls, hended, hother⟩ := (p.setState t
    { p.state t with consecutiveFailures := (p.state t).consecutiveFailures + 1 }).checkCircuit_frame
    t sid stepId ((p.state t).consecutiveFailures + 1)
  refine ⟨hcalls, hended, fun hne => ?_⟩
  obtain ⟨hstate, hsent⟩ := hother hne
  rw [if_neg hne] at hset
  exact ⟨hstate.trans hset, hsent⟩

theorem configured_endCall (n : Nat) (t : String) (outcome : CallOutcome) :
    Configured p (p.endCall n t outcome) := ⟨rfl, rfl, rfl, rfl⟩

theorem effect_work [DecidableEq β] (sid : String) (n : Nat) (env : CallEnv β) :
    Effect hash p sid (.work n env) (p.work hash n env) := by
  rw [work]
  split
  · exact .kept rfl rfl rfl rfl
  rename_i t stepId hqueue
  dsimp only
  have hcalls : (p.endCall n t (p.callVlm hash env t)).calls sid =
      if sid = t then p.calls t + (p.callVlm hash env t).calls else p.calls sid :=
    Function.update_apply p.calls t _ sid
  have hended : (p.endCall n t (p.callVlm hash env t)).ended sid =
      if sid = t then p.ended t + 1 else p.ended sid :=
    Function.update_apply p.ended t _ sid
  have hstate := p.state_endCall n t sid (p.callVlm hash env t)
  by_cases hsid : sid = t
  · subst hsid
    rw [if_pos rfl] at hcalls hended hstate
    split
    · rename_i name hresult
      refine .ended n stepId env [] rfl hqueue ?_ (List.append_nil _).symm hcalls hended
      rw [hresult, resetFailures, state_setState, if_pos rfl, hstate]
      exact .answered name
    · rename_i e hresult
      obtain ⟨new, hends, hsent⟩ := p.ends_incrementFailures stepId e
        (p.configured_endCall n sid (p.callVlm hash env sid)) hstate
      obtain ⟨hc, he, -⟩ := (p.endCall n sid (p.callVlm hash env sid)).incrementFailures_frame sid sid stepId
      rw [← hresult] at hends
      exact .ended n stepId env new rfl hqueue hends hsent ((congrFun hc sid).trans hcalls)
        ((congrFun he sid).trans hended)
  · rw [if_neg hsid] at hcalls hended hstate
    split
    · refine .kept ?_ rfl hcalls hended
      rw [resetFailures, state_setState, if_neg hsid, hstate]
    · obtain ⟨hc, he, hother⟩ :=
        (p.endCall n t (p.callVlm hash env t)).incrementFailures_frame t sid stepId
      obtain ⟨hs, hsent⟩ := hother hsid
      exact .kept (hs.trans hstate) hsent ((congrFun hc sid).trans hcalls)
        ((congrFun he sid).trans hended)

/-- A trial that found a backend alive, for a session that it concerns. -/
theorem effect_closeCircuits [DecidableEq β] {sid name : String} {i : PipelineInput β}
    {concerns : String → Bool} (hi : concerns sid = true →
      i = .trial name true ∧ p.sessionRouters sid = none ∨ i = .sessionTrial sid name true) :
    Effect hash p sid i (p.closeCircuits concerns name) := by
  have hstate : (p.closeCircuits concerns name).state sid =
      (if concerns sid then (p.reopened name sid).1 else p.sessionStates sid).getD .fresh := rfl
  have hsent : (p.closeCircuits concerns name).sent sid =
      if concerns sid then (p.reopened name sid).2 else p.sent sid := rfl
  by_cases hconcerns : concerns sid = true
  · rw [if_pos hconcerns] at hstate hsent
    rw [reopened] at hstate hsent
    cases hs : p.sessionStates sid with
    | none =>
      rw [hs] at hstate hsent
      refine .kept ?_ hsent rfl rfl
      rw [hstate, ReasoningPipeline.state, hs]
    | some state =>
      rw [hs] at hstate hsent
      have hold : p.state sid = state := by
        rw [ReasoningPipeline.state, hs]
        rfl
      dsimp only at hstate hsent
      split at hstate
      · rename_i hmem
        rw [if_pos hmem] at hsent
        refine .closed name (hi hconcerns) rfl rfl ?_
        rw [hold]
        split at hstate
        · rename_i hresume
          exact .inl ⟨(Bool.and_eq_true_iff.mp hresume).1, hstate⟩
        · rename_i hresume
          rw [if_neg hresume] at hsent
          refine .inr ⟨hstate, fun hdegraded => ?_, hsent⟩
          simpa [hdegraded] using hresume
      · rename_i hmem
        rw [if_neg hmem] at hsent
        exact .kept (hstate.trans hold.symm) hsent rfl rfl
  · rw [if_neg hconcerns] at hstate hsent
    exact .kept hstate hsent rfl rfl

theorem effect_step [DecidableEq β] (sid : String) (i : PipelineInput β) :
    Effect hash p sid i (p.step hash i) := by
  cases i with
  | submit t stepId =>
    rw [step, submit]
    split
    · exact .kept rfl rfl rfl rfl
    have hstate := p.state_setState t sid (p.state t)
    have hsame : (p.setState t (p.state t)).state sid = p.state sid := by
      rw [hstate]
      split
      · rename_i hsid
        rw [hsid]
      · rfl
    dsimp only
    split
    · exact .kept hsame rfl rfl rfl
    · exact .kept hsame rfl rfl rfl
  | work n env => exact p.effect_work hash sid n env
  | trial name alive =>
    rw [step, trial]
    split
    · rename_i halive
      refine p.effect_closeCircuits hash fun hconcerns => .inl ⟨?_, Option.isNone_iff_eq_none.mp hconcerns⟩
      rw [(Bool.and_eq_true_iff.mp halive).1]
    · exact .kept rfl rfl rfl rfl
  | sessionTrial t name alive =>
    rw [step, sessionTrial]
    split
    · exact .kept rfl rfl rfl rfl
    split
    · rename_i halive
      refine p.effect_closeCircuits hash fun hconcerns => .inr ?_
      rw [(Bool.and_eq_true_iff.mp halive).1, of_decide_eq_true hconcerns]
    · exact .kept rfl rfl rfl rfl

end ReasoningPipeline

end MemoryArchive.Model
