import MemoryArchive.Model.Breaker

namespace MemoryArchive.Model.Breaker

open Function (update)
open Runs

variable {β : Type}

namespace Pipeline

variable (hash : String → Int) (p : Pipeline β)

/-- The step of the worker has failed on its own account: one of its calls of a model
has failed, or it found no backend after calls for its session had failed. -/
def Blamed (w : Worker β) : Prop := 0 < w.failedCalls ∨ w.shutOut = true ∧ 0 < p.failedCalls w.sid

/-- The next block is that of a failed step of the session. -/
def OwnFailure (i : Act β) (sid : String) : Prop :=
  ∃ k budgetExceeded answer w, i = .work k budgetExceeded answer ∧ p.workers[k]? = some w ∧
    w.sid = sid ∧ p.Blamed w

/-- The next block is that of a trial whose ping was answered by the backend that the
router of the session has under the name. -/
def OwnPing (i : Act β) (sid name : String) : Prop :=
  ∃ k alive t e, i = .trial k alive ∧ p.trials[k]? = some t ∧ t.name = name ∧
    (p.routerFor sid).byName name = some e ∧ t.place = .closing e.backend

/-- A step of the pipeline as one session sees it. -/
structure Isolated (i : Act β) (p' : Pipeline β) (sid : String) : Prop where
  opened : ∀ name ∈ p'.circuits sid, name ∉ p.circuits sid → p.OwnFailure i sid
  counted : (p.state sid).consecutiveFailures < (p'.state sid).consecutiveFailures → p.OwnFailure i sid
  degraded : p.degraded sid = false → p'.degraded sid = true → p.OwnFailure i sid
  closed : ∀ name ∈ p.circuits sid, name ∉ p'.circuits sid → p.OwnPing i sid name

/-- The trial pings what it pings in the name of this router. -/
def Serves (t : Trial β) (router : ModelRouter β) : Prop :=
  match t.owner with
  | none => router = p.router
  | some sid => p.sessionRouters sid = some router

def inFlight (t : Trial β) : Bool :=
  match t.place with
  | .pinging _ | .closing _ => true
  | _ => false

/-- No step of the run is refused without a call: by the token budget or the request
limit, which all sessions share, by the number of attempts, or by a router that
has no backend for a session without open circuits. A session is not configured
while a trial of its router is in flight, it is marked as degraded from outside
only if it is so, and it is reset without open circuits only. -/
def unrefused [DecidableEq β] : Act β → Bool
  | .work k budgetExceeded _ =>
      match p.workers[k]? with
      | none => true
      | some w =>
          match w.place with
          | .queued => !budgetExceeded
          | .resolving call =>
              (call.router.resolve hash w.sid call.hint (p.circuits w.sid)).isSome || p.circuits w.sid ≠ ∅
          | .calling _ _ _ attempt _ => attempt ≤ p.maxRetries || 0 < w.failedCalls
          | _ => true
  | .setSessionConfig sid _ _ _ _ => p.trials.all fun t => t.owner ≠ some sid || !inFlight t
  | .markSessionDegraded sid => p.degraded sid
  | .resetSession sid => p.circuits sid = ∅
  | .setSessionProvider _ _ | .submit _ _ | .trial _ _ => true

/-- The places that only a failed step comes to. -/
def accuses : Place β → Bool
  | .queued | .calling _ _ _ _ _ | .succeeded | .ended => false
  | .resolving call => call.tried ≠ ∅
  | _ => true

def Pinged (t : Trial β) : Prop :=
  match t.place with
  | .pinging router => p.Serves t router
  | .closing backend => ∃ router e, p.Serves t router ∧ router.byName t.name = some e ∧ e.backend = backend
  | _ => True

structure Answerable : Prop where
  calls : ∀ w ∈ p.workers, 0 < w.failedCalls → 0 < p.failedCalls w.sid
  blamed : ∀ w ∈ p.workers, accuses w.place = true → p.Blamed w
  circuits : ∀ sid, p.circuits sid ≠ ∅ → 0 < p.failedCalls sid
  pinged : ∀ t ∈ p.trials, p.Pinged t

variable {hash p}

theorem failedCalls_apply (e : Effect) (sid : String) : p.failedCalls sid ≤ (p.apply e).failedCalls sid := by
  cases e with
  | fail t =>
    change p.failedCalls sid ≤ update p.failedCalls t _ sid
    rw [Function.update_apply]
    split
    case isTrue h =>
      rw [h]
      exact Nat.le_succ _
    case isFalse => exact le_rfl
  | zero t =>
    rw [apply]
    split <;> exact le_rfl
  | _ => exact le_rfl

theorem Blamed.mono {p' : Pipeline β} {w : Worker β} (h : p.Blamed w)
    (hle : ∀ sid, p.failedCalls sid ≤ p'.failedCalls sid) : p'.Blamed w :=
  h.imp_right fun h => ⟨h.1, h.2.trans_le (hle w.sid)⟩

/-- What a block does not change about who is to blame. -/
theorem Blamed.of_calls {p' : Pipeline β} {w w' : Worker β} (h : p.Blamed w)
    (hle : ∀ sid, p.failedCalls sid ≤ p'.failedCalls sid) (hsid : w'.sid = w.sid)
    (hcalls : w.failedCalls ≤ w'.failedCalls) (hshut : w'.shutOut = w.shutOut) : p'.Blamed w' := by
  obtain h | ⟨hout, hpos⟩ := h
  · exact .inl (h.trans_le hcalls)
  · refine .inr ⟨hshut.trans hout, ?_⟩
    rw [hsid]
    exact hpos.trans_le (hle w.sid)

/-- The next block of a worker that is not refused leaves it where it can be blamed. -/
theorem blamed_works [DecidableEq β] (hp : p.Answerable) {k : Nat} {w w' : Worker β}
    (hw : p.workers[k]? = some w) {budgetExceeded : Bool} {answer : Attempt} {e : Effect}
    (h : Works hash p w budgetExceeded answer e w')
    (hguard : p.unrefused hash (.work k budgetExceeded answer) = true)
    (haccuses : accuses w'.place = true) : (p.apply e).Blamed w' := by
  have hold := hp.blamed w (List.mem_of_getElem? hw)
  have hle := p.failedCalls_apply e
  rw [unrefused, hw] at hguard
  dsimp only at hguard
  cases h with
  | refused hplace hbudget =>
    rw [hplace, hbudget] at hguard
    cases hguard
  | admitted => cases haccuses
  | none hplace hnone =>
    rw [hplace] at hguard
    dsimp only at hguard
    rw [hnone] at hguard
    have hopen : p.circuits w.sid ≠ ∅ := of_decide_eq_true hguard
    exact .inr ⟨decide_eq_true hopen, (hp.circuits w.sid hopen).trans_le (hle w.sid)⟩
  | repeated hplace htried =>
    rw [hplace] at hold
    have htried := hold (decide_eq_true (Finset.ne_empty_of_mem htried))
    exact htried.of_calls hle rfl le_rfl rfl
  | exhausted hplace hlast =>
    rw [hplace] at hguard
    obtain hleft | hcalls := Bool.or_eq_true_iff.mp hguard
    · exact absurd (of_decide_eq_true hleft) (Nat.not_le.mpr hlast)
    · exact .inl (of_decide_eq_true hcalls)
  | retried hplace => cases haccuses
  | raised hplace => exact .inl (Nat.succ_pos _)
  | picked | answered | noSlot | left | reset | finished | rescheduled => cases haccuses
  | opened hplace | scheduled hplace | hinted hplace | counted hplace | unmarked hplace | exempted hplace
  | chosen hplace | marked hplace | timed hplace | tested hplace | condemned hplace | spared hplace
  | degraded hplace | reported hplace =>
    rw [hplace] at hold
    exact (hold rfl).of_calls hle rfl le_rfl rfl

theorem sid_works [DecidableEq β] {w w' : Worker β} {budgetExceeded : Bool} {answer : Attempt}
    {e : Effect} (h : Works hash p w budgetExceeded answer e w') : w'.sid = w.sid := by
  cases h <;> rfl

/-- A failed call counts for the session of its worker. -/
theorem calls_works [DecidableEq β] (hp : p.Answerable) {k : Nat} {w w' : Worker β}
    (hw : p.workers[k]? = some w) {budgetExceeded : Bool} {answer : Attempt} {e : Effect}
    (h : Works hash p w budgetExceeded answer e w') (hcalls : 0 < w'.failedCalls) :
    0 < (p.apply e).failedCalls w.sid := by
  have hold := hp.calls w (List.mem_of_getElem? hw)
  cases h with
  | retried | raised =>
    change 0 < update p.failedCalls w.sid _ w.sid
    rw [Function.update_self]
    exact Nat.succ_pos _
  | _ => exact (hold hcalls).trans_le (p.failedCalls_apply _ w.sid)

/-- A circuit is opened by a worker of the session that is to blame. -/
theorem circuits_works [DecidableEq β] (hp : p.Answerable) {k : Nat} {w w' : Worker β}
    (hw : p.workers[k]? = some w) {budgetExceeded : Bool} {answer : Attempt} {e : Effect}
    (h : Works hash p w budgetExceeded answer e w') {t name : String} (he : e = .openCircuit t name) :
    t = w.sid ∧ p.Blamed w := by
  have hold := hp.blamed w (List.mem_of_getElem? hw)
  cases h with
  | opened hplace | marked hplace =>
    obtain ⟨rfl, -⟩ := Effect.openCircuit.inj he
    rw [hplace] at hold
    exact ⟨rfl, hold rfl⟩
  | _ => cases he

theorem pos_of_blamed {w : Worker β} (hp : p.Answerable) (hw : w ∈ p.workers) (h : p.Blamed w) :
    0 < p.failedCalls w.sid := by
  obtain h | h := h
  · exact hp.calls w hw h
  · exact h.2

theorem Pinged.of_serves {p' : Pipeline β} {t : Trial β} (h : p.Pinged t)
    (hserves : ∀ router, p.Serves t router → p'.Serves t router) : p'.Pinged t := by
  unfold Pinged at h ⊢
  split
  case h_1 router hplace =>
    rw [hplace] at h
    exact hserves router h
  case h_2 backend hplace =>
    rw [hplace] at h
    obtain ⟨router, e, hrouter, hentry⟩ := h
    exact ⟨router, e, hserves router hrouter, hentry⟩
  case h_3 => trivial

theorem Configured.pinged {p' : Pipeline β} (h : Configured p p') {t : Trial β} (ht : p.Pinged t) :
    p'.Pinged t :=
  ht.of_serves fun router hserves => by
    rw [Serves, h.router, h.sessionRouters]
    exact hserves

theorem pinged_sleeping (owner : Option String) (name : String) : p.Pinged ⟨owner, name, .sleeping⟩ :=
  trivial

theorem pinged_tries {t t' : Trial β} (ht : p.Pinged t) {alive : Bool} {e : Effect}
    (h : Tries p t alive e t') : p.Pinged t' := by
  cases h with
  | woken _ hrouter =>
    change p.Serves t _
    unfold Serves
    unfold Pipeline.pinged at hrouter
    cases howner : t.owner with
    | none =>
      rw [howner] at hrouter
      dsimp only at hrouter ⊢
      split at hrouter
      · exact (Option.some.inj hrouter).symm
      · cases hrouter
    | some sid =>
      rw [howner] at hrouter
      dsimp only at hrouter ⊢
      split at hrouter
      · exact hrouter
      · cases hrouter
  | answered hplace hentry =>
    rw [Pinged, hplace] at ht
    exact ⟨_, _, ht, hentry, rfl⟩
  | _ => trivial

/-- A block that opens no circuit leaves those that are open to blame. -/
theorem circuits_blamed (hp : p.Answerable) {e : Effect}
    (hopens : ∀ t name, e = .openCircuit t name → 0 < p.failedCalls t) (sid : String)
    (hopen : (p.apply e).circuits sid ≠ ∅) : 0 < (p.apply e).failedCalls sid := by
  refine Nat.lt_of_lt_of_le ?_ (p.failedCalls_apply e sid)
  by_cases hbefore : p.circuits sid = ∅
  · rw [circuits_apply] at hopen
    cases e with
    | openCircuit t name =>
      dsimp only at hopen
      split at hopen
      case isTrue hsid =>
        rw [hsid]
        exact hopens t name rfl
      case isFalse => exact absurd hbefore hopen
    | close owner name =>
      have herased : (p.circuits sid).erase name = ∅ := by
        rw [hbefore]
        exact Finset.erase_eq_of_notMem (Finset.notMem_empty name)
      dsimp only at hopen
      rw [herased, hbefore, ite_self] at hopen
      exact absurd rfl hopen
    | pop t =>
      dsimp only at hopen
      rw [hbefore, ite_self] at hopen
      exact absurd rfl hopen
    | _ => exact absurd hbefore hopen
  · exact hp.circuits sid hbefore

theorem answerable_work [DecidableEq β] (hp : p.Answerable) {k : Nat} {w w' : Worker β}
    (hw : p.workers[k]? = some w) {budgetExceeded : Bool} {answer : Attempt} {e : Effect}
    (h : Works hash p w budgetExceeded answer e w')
    (hguard : p.unrefused hash (.work k budgetExceeded answer) = true) :
    ((p.apply e).setWorker k w').Answerable := by
  have hle := p.failedCalls_apply e
  have hworkers : ∀ v ∈ ((p.apply e).setWorker k w').workers, v = w' ∨ v ∈ p.workers := fun v hv => by
    rw [setWorker, (p.configured_apply e).workers] at hv
    exact (List.mem_or_eq_of_mem_set hv).symm
  have hopens : ∀ t name, e = .openCircuit t name → 0 < p.failedCalls t := fun t name he => by
    obtain ⟨rfl, hblamed⟩ := circuits_works hp hw h he
    exact pos_of_blamed hp (List.mem_of_getElem? hw) hblamed
  refine ⟨fun v hv hcalls => ?_, fun v hv haccuses => ?_, circuits_blamed hp hopens, fun t ht => ?_⟩
  · obtain rfl | hv := hworkers v hv
    · have hpos := calls_works hp hw h hcalls
      rw [sid_works h]
      exact hpos
    · exact (hp.calls v hv hcalls).trans_le (hle v.sid)
  · obtain rfl | hv := hworkers v hv
    · exact blamed_works hp hw h hguard haccuses
    · exact (hp.blamed v hv haccuses).of_calls hle rfl le_rfl rfl
  · refine (p.configured_apply e).pinged ?_
    change t ∈ (p.apply e).trials at ht
    rw [trials_apply] at ht
    split at ht
    · obtain ht | ht := List.mem_append.mp ht
      · exact hp.pinged t ht
      · rw [List.mem_singleton.mp ht]
        exact pinged_sleeping _ _
    · exact hp.pinged t ht

theorem answerable_try (hp : p.Answerable) {k : Nat} {t t' : Trial β} (ht : p.trials[k]? = some t)
    {alive : Bool} {e : Effect} (h : Tries p t alive e t') : ((p.apply e).setTrial k t').Answerable := by
  have hle := p.failedCalls_apply e
  have hworkers : ((p.apply e).setTrial k t').workers = p.workers := (p.configured_apply e).workers
  have htrials : ((p.apply e).setTrial k t').trials = p.trials.set k t' := by
    rw [setTrial, trials_apply]
    cases h <;> rfl
  have hopens : ∀ t name, e = .openCircuit t name → 0 < p.failedCalls t := fun t name he => by
    rw [he] at h
    cases h
  refine ⟨fun v hv hcalls => ?_, fun v hv haccuses => ?_, circuits_blamed hp hopens, fun u hu => ?_⟩
  · rw [hworkers] at hv
    exact (hp.calls v hv hcalls).trans_le (hle v.sid)
  · rw [hworkers] at hv
    exact (hp.blamed v hv haccuses).of_calls hle rfl le_rfl rfl
  · rw [htrials] at hu
    have hpinged : p.Pinged u := by
      obtain hu | rfl := List.mem_or_eq_of_mem_set hu
      · exact hp.pinged u hu
      · exact pinged_tries (hp.pinged t (List.mem_of_getElem? ht)) h
    exact (p.configured_apply e).pinged hpinged

theorem answerable_step [DecidableEq β] (p : Pipeline β) (i : Act β) (hp : p.Answerable)
    (hguard : p.unrefused hash i = true) : (p.step hash i).Answerable := by
  cases i with
  | setSessionProvider sid name =>
    rw [step, setSessionProvider]
    split
    · exact hp
    · exact ⟨hp.calls, hp.blamed, hp.circuits, hp.pinged⟩
  | setSessionConfig sid primary =>
    rw [step, setSessionConfig]
    split
    · exact hp
    refine ⟨hp.calls, hp.blamed, hp.circuits, fun t ht => ?_⟩
    obtain hother | hresting := Bool.or_eq_true_iff.mp (List.all_eq_true.mp hguard t ht)
    · refine (hp.pinged t ht).of_serves fun router hserves => ?_
      rw [Serves] at hserves ⊢
      split at hserves
      · exact hserves
      case h_2 owner howner =>
        have hne : owner ≠ sid := fun he => of_decide_eq_true hother (howner.trans (congrArg some he))
        exact (Function.update_of_ne hne _ _).trans hserves
    · rw [Pinged]
      rw [inFlight] at hresting
      split at hresting
      · cases hresting
      · cases hresting
      · trivial
  | submit sid stepId =>
    have hmake : (p.apply (.make sid)).Answerable :=
      ⟨hp.calls, hp.blamed, circuits_blamed hp fun _ _ => (by rintro ⟨⟩), hp.pinged⟩
    rw [step, submit]
    split
    · exact hp
    dsimp only
    split
    · exact hmake
    · refine ⟨fun w hw hcalls => ?_, fun w hw haccuses => ?_, hmake.circuits, hmake.pinged⟩
      · obtain hw | hw := List.mem_append.mp hw
        · exact hp.calls w hw hcalls
        · rw [List.mem_singleton.mp hw] at hcalls
          exact absurd hcalls (lt_irrefl 0)
      · obtain hw | hw := List.mem_append.mp hw
        · exact hp.blamed w hw haccuses
        · rw [List.mem_singleton.mp hw] at haccuses
          cases haccuses
  | work k budgetExceeded answer =>
    rw [step]
    split
    case h_1 w hw => exact answerable_work hp hw (works_workerStep hash p w budgetExceeded answer) hguard
    case h_2 => exact hp
  | trial k alive =>
    rw [step]
    split
    case h_1 t ht => exact answerable_try hp ht (tries_trialStep p t alive)
    case h_2 => exact hp
  | markSessionDegraded sid =>
    exact ⟨hp.calls, hp.blamed, circuits_blamed hp fun _ _ => (by rintro ⟨⟩), hp.pinged⟩
  | resetSession sid => exact ⟨hp.calls, hp.blamed, circuits_blamed hp fun _ _ => (by rintro ⟨⟩), hp.pinged⟩

/-- A step that opens a circuit, counts a failure or degrades is a block of a worker of
the session. -/
theorem ownFailure_of [DecidableEq β] (hp : p.Answerable) {i : Act β} {sid : String}
    (h : (∃ name, p.effect hash i = .openCircuit sid name) ∨ p.effect hash i = .count sid ∨
      p.effect hash i = .degrade sid) : p.OwnFailure i sid := by
  have hsource := p.source_effect hash i
  generalize p.effect hash i = e at h hsource
  cases hsource with
  | worked hi hw hworks =>
    have hold := hp.blamed _ (List.mem_of_getElem? hw)
    refine ⟨_, _, _, _, hi, hw, ?_⟩
    cases hworks with
    | opened hplace | marked hplace | counted hplace | degraded hplace =>
      rw [hplace] at hold
      obtain ⟨name, h⟩ | h | h := h <;> cases h
      exact ⟨rfl, hold rfl⟩
    | _ => obtain ⟨name, h⟩ | h | h := h <;> cases h
  | tried _ _ htries => cases htries <;> obtain ⟨name, h⟩ | h | h := h <;> cases h
  | quiet | made | marked | popped => obtain ⟨name, h⟩ | h | h := h <;> cases h

/-- A circuit is closed by a trial that has pinged the router of the session. -/
theorem ownPing_of [DecidableEq β] (hp : p.Answerable) {i : Act β} {owner : Option String}
    {name sid : String} (h : p.effect hash i = .close owner name) (hconcerns : p.Concerns owner sid) :
    p.OwnPing i sid name := by
  have hsource := p.source_effect hash i
  rw [h] at hsource
  cases hsource with
  | worked _ _ hworks => cases hworks
  | tried hi ht htries =>
    have hold := hp.pinged _ (List.mem_of_getElem? ht)
    cases htries with
    | closed hplace =>
      rw [Pinged, hplace] at hold
      obtain ⟨router, e, hserves, hentry, rfl⟩ := hold
      have hrouter : p.routerFor sid = router := by
        rw [routerFor]
        rw [Serves] at hserves
        split at hserves
        case h_1 howner =>
          rw [howner] at hconcerns
          have hnone : p.sessionRouters sid = none := hconcerns
          rw [hnone, hserves]
          rfl
        case h_2 t howner =>
          rw [howner] at hconcerns
          have hsid : sid = t := hconcerns
          rw [hsid, hserves]
          rfl
      exact ⟨_, _, _, e, hi, ht, rfl, hrouter ▸ hentry, hplace⟩

theorem isolated_step [DecidableEq β] (p : Pipeline β) (i : Act β) (hp : p.Answerable)
    (hguard : p.unrefused hash i = true) (sid : String) : p.Isolated i (p.step hash i) sid := by
  have hsame := p.sessions_step hash i
  refine ⟨fun name hname hclosed => ?_, fun hcount => ?_, fun hunset hset => ?_, fun name hopen hclosed => ?_⟩
  · rw [hsame.circuits] at hname
    obtain hopen | hopens := opened_apply hname
    · exact absurd hopen hclosed
    · exact ownFailure_of hp (.inl ⟨name, hopens⟩)
  · rw [hsame.state] at hcount
    exact ownFailure_of hp (.inr (.inl (counts_apply hcount)))
  · rw [hsame.degraded] at hset
    obtain hdegrades | hmarks := degrades_apply hunset hset
    · exact ownFailure_of hp (.inr (.inr hdegrades))
    · have hsource := p.source_effect hash i
      rw [hmarks] at hsource
      cases hsource with
      | worked _ _ hworks => cases hworks
      | tried _ _ htries => cases htries
      | marked hi =>
        rw [hi] at hguard
        exact absurd hguard (by simp [unrefused, hunset])
  · rw [hsame.circuits] at hclosed
    obtain hpops | ⟨owner, hcloses, hconcerns⟩ := closed_apply hopen hclosed
    · have hsource := p.source_effect hash i
      rw [hpops] at hsource
      cases hsource with
      | worked _ _ hworks => cases hworks
      | tried _ _ htries => cases htries
      | popped hi =>
        rw [hi] at hguard
        have hnone : p.circuits sid = ∅ := of_decide_eq_true hguard
        rw [hnone] at hopen
        exact absurd hopen (Finset.notMem_empty name)
    · exact ownPing_of hp hcloses hconcerns

section Runs

variable [DecidableEq β] (hash : String → Int) (router : ModelRouter β)
  (sessionRouters : String → Option (ModelRouter β)) (sessionProviders : String → Option String)
  (threshold maxRetries : Nat)

/-- No step of the run is refused without a call. -/
def Unrefused (p : Pipeline β) (i : Act β) : Prop := p.unrefused hash i = true

instance (p : Pipeline β) (i : Act β) : Decidable (Unrefused hash p i) :=
  inferInstanceAs (Decidable (_ = true))

theorem answerable_start :
    (start router sessionRouters sessionProviders threshold maxRetries).Answerable where
  calls _ hw := absurd hw List.not_mem_nil
  blamed _ hw := absurd hw List.not_mem_nil
  circuits _ hopen := absurd rfl hopen
  pinged _ ht := absurd ht List.not_mem_nil

/-- In every run in which no step is refused without a call, a session is changed by
the failures of its own steps and by pings of its own router. -/
theorem sessions_isolated (acts : List (Act β))
    (h : Guarded (Pipeline.step hash) (Unrefused hash)
      (start router sessionRouters sessionProviders threshold maxRetries) acts) :
    Along (Pipeline.step hash) (fun p i p' => ∀ sid, p.Isolated i p' sid)
      (start router sessionRouters sessionProviders threshold maxRetries) acts :=
  along_run answerable_step isolated_step _ acts
    (answerable_start router sessionRouters sessionProviders threshold maxRetries) h

end Runs

theorem sessions_isolated_recovery :
    Along (Pipeline.step fun _ => 0) (fun p i p' => ∀ sid, p.Isolated i p' sid)
      (start openaiPool (fun _ => none) (fun _ => some "openai") 1 1) recovery :=
  sessions_isolated (fun _ => 0) openaiPool (fun _ => none) (fun _ => some "openai") 1 1 recovery
    (by decide +kernel)

/-- The steps of one session use up the token budget, and five of another one are
refused. -/
def refusals : List (Act Nat) :=
  .submit "a" 1 :: List.replicate 3 (.work 0 false .success) ++
    [.submit "b" 1, .submit "b" 2, .submit "b" 3, .submit "b" 4, .submit "b" 5] ++
    [1, 2, 3, 4, 5].flatMap (fun k => List.replicate 4 (.work k true .noSlot)) ++
    List.replicate 5 (.work 5 true .noSlot)

/-- The session is degraded, though no call for it was made. -/
theorem refused_session_degrades :
    ¬ Along (Pipeline.step fun _ => 0) (fun p i p' => ∀ sid, p.Isolated i p' sid)
      (start openaiPool (fun _ => none) (fun _ => some "openai") 5 3)
      (refusals ++ [.work 5 true .noSlot]) := by
  rw [along_append]
  rintro ⟨-, hlast, -⟩
  have hunset : (run (Pipeline.step fun _ => 0)
      (start openaiPool (fun _ => none) (fun _ => some "openai") 5 3) refusals).degraded "b" = false := by
    decide +kernel
  have hset : ((run (Pipeline.step fun _ => 0)
      (start openaiPool (fun _ => none) (fun _ => some "openai") 5 3) refusals).step (fun _ => 0)
        (.work 5 true .noSlot)).degraded "b" = true := by
    decide +kernel
  have hnone : (run (Pipeline.step fun _ => 0)
      (start openaiPool (fun _ => none) (fun _ => some "openai") 5 3) refusals).workers.all
        (fun w => w.failedCalls = 0 && !w.shutOut) = true := by
    decide +kernel
  obtain ⟨k, budgetExceeded, answer, w, -, hw, -, hblamed⟩ := (hlast "b").degraded hunset hset
  have hw := List.all_eq_true.mp hnone w (List.mem_of_getElem? hw)
  obtain ⟨hcalls, hshut⟩ := Bool.and_eq_true_iff.mp hw
  obtain hpos | ⟨hout, -⟩ := hblamed
  · rw [of_decide_eq_true hcalls] at hpos
    exact absurd hpos (lt_irrefl 0)
  · rw [hout] at hshut
    cases hshut

end Pipeline

end MemoryArchive.Model.Breaker
