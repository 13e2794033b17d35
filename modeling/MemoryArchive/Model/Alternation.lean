import MemoryArchive.Model.Breaker

namespace MemoryArchive.Model.Breaker

open Function (update)
open Runs

variable {β : Type}

/-- The change of the degraded flag that a message tells. -/
def change : PipelineMessage → Change
  | .reasoningDegraded _ _ => .raised
  | .circuitReset _ => .cleared

/-- The flag after the changes, if each of them changes it. -/
def follow : Bool → List Change → Option Bool
  | flag, [] => some flag
  | false, .raised :: changes => follow true changes
  | true, .cleared :: changes => follow false changes
  | _, _ => none

theorem follow_append (flag : Bool) (changes changes' : List Change) :
    follow flag (changes ++ changes') = (follow flag changes).bind fun flag => follow flag changes' := by
  induction changes generalizing flag with
  | nil => rfl
  | cons c changes ih =>
    cases flag <;> cases c
    · exact ih true
    · rfl
    · rfl
    · exact ih false

def Effect.raises (sid : String) : Effect → Bool
  | .degrade t => t = sid
  | _ => false

def Effect.tellsRaised (sid : String) : Effect → Bool
  | .reportDegraded t _ => t = sid
  | _ => false

def Effect.clears (sid : String) : Effect → Bool
  | .resume t => t = sid
  | _ => false

def Effect.tellsCleared (sid : String) : Effect → Bool
  | .reportReset t => t = sid
  | _ => false

/-- The worker has set the flag of the session and has not sent its message. -/
def Worker.reports (sid : String) (w : Worker β) : Bool :=
  match w.place with
  | .reporting _ => w.sid = sid
  | _ => false

/-- The trial has cleared the flag of the session and has not sent its message. -/
def Trial.resets (sid : String) (t : Trial β) : Bool :=
  match t.place with
  | .resetting t _ => t = sid
  | _ => false

namespace Pipeline

/-- The changes of a session's flag, told or not told yet. -/
def changes (p : Pipeline β) (sid : String) : List Change := (p.sent sid).map change ++ p.unsent sid

/-- A callback that degrades a session finds its flag unset, and a message that is
sent tells the earliest change that has not been told. -/
def inTurn (p : Pipeline β) : Effect → Bool
  | .degrade sid => !p.degraded sid
  | .reportDegraded sid _ => (p.unsent sid).head? = some .raised
  | .reportReset sid => (p.unsent sid).head? = some .cleared
  | .mark sid => p.degraded sid
  | .pop sid => !p.degraded sid
  | _ => true

variable {hash : String → Int} {p : Pipeline β}

theorem reports_of_raised {w : Worker β} {call : Call β} {name : String} {e : CallError}
    (hplace : w.place = raised call name e) (sid : String) : w.reports sid = false := by
  rw [raised] at hplace
  split at hplace <;> rw [Worker.reports, hplace]

/-- A worker is between its change and its message for as long as it reports. -/
theorem reports_works [DecidableEq β] {w w' : Worker β} {budgetExceeded : Bool} {answer : Attempt}
    {e : Effect}
    (h : Works hash p w budgetExceeded answer e w') (sid : String) :
    (w'.reports sid).toNat + (e.tellsRaised sid).toNat = (w.reports sid).toNat + (e.raises sid).toNat ∧
      e.clears sid = false ∧ e.tellsCleared sid = false := by
  refine ⟨?_, by cases h <;> rfl, by cases h <;> rfl⟩
  rw [Worker.reports.eq_def sid w]
  cases h with
  | exhausted hplace | raised hplace =>
    rw [reports_of_raised rfl, hplace]
    rfl
  | reset hplace | finished hplace => obtain hplace | hplace := hplace <;> (rw [hplace]; rfl)
  | degraded hplace =>
    rw [hplace]
    simp [Worker.reports, Effect.tellsRaised, Effect.raises]
  | reported hplace =>
    rw [hplace]
    simp [Worker.reports, Effect.tellsRaised, Effect.raises]
  | refused hplace | admitted hplace | none hplace | repeated hplace | picked hplace | answered hplace
  | noSlot hplace | retried hplace | opened hplace | scheduled hplace | hinted hplace | counted hplace
  | left hplace | unmarked hplace | exempted hplace | chosen hplace | marked hplace | timed hplace
  | tested hplace | condemned hplace | spared hplace | rescheduled hplace =>
    rw [hplace]
    rfl

theorem resets_tries {t t' : Trial β} {alive : Bool} {e : Effect} (h : Tries p t alive e t')
    (sid : String) :
    (t'.resets sid).toNat + (e.tellsCleared sid).toNat = (t.resets sid).toNat + (e.clears sid).toNat ∧
      e.raises sid = false ∧ e.tellsRaised sid = false := by
  refine ⟨?_, by cases h <;> rfl, by cases h <;> rfl⟩
  rw [Trial.resets.eq_def sid t]
  cases h with
  | finished hplace => obtain hplace | hplace := hplace <;> (rw [hplace]; rfl)
  | resumed hplace =>
    rw [hplace]
    simp [Trial.resets, Effect.tellsCleared, Effect.clears]
  | told hplace =>
    rw [hplace]
    simp [Trial.resets, Effect.tellsCleared, Effect.clears]
  | idle hplace | woken hplace | answered hplace | failed hplace | closed hplace | reviewed hplace
  | left hplace | freed hplace | passed hplace =>
    rw [hplace]
    rfl

/-- The threads that are between a change of the flag and its message are as many as
the changes that have not been told. -/
structure Counted (p : Pipeline β) (sid : String) : Prop where
  raised : (p.unsent sid).count .raised = p.workers.countP (Worker.reports sid)
  cleared : (p.unsent sid).count .cleared = p.trials.countP (Trial.resets sid)

theorem count_unsent (p : Pipeline β) (sid : String) (e : Effect)
    (hraised : e.tellsRaised sid = true → .raised ∈ p.unsent sid)
    (hcleared : e.tellsCleared sid = true → .cleared ∈ p.unsent sid) :
    ((p.apply e).unsent sid).count .raised + (e.tellsRaised sid).toNat =
        (p.unsent sid).count .raised + (e.raises sid).toNat ∧
      ((p.apply e).unsent sid).count .cleared + (e.tellsCleared sid).toNat =
        (p.unsent sid).count .cleared + (e.clears sid).toNat := by
  cases e with
  | quiet | make | fail | openCircuit | count | schedule | close | mark | pop => exact ⟨rfl, rfl⟩
  | zero t =>
    rw [apply]
    split <;> exact ⟨rfl, rfl⟩
  | degrade t | resume t =>
    by_cases hsid : sid = t
    · subst hsid
      simp [apply, Effect.tellsRaised, Effect.raises, Effect.tellsCleared, Effect.clears]
    · simp [apply, Effect.tellsRaised, Effect.raises, Effect.tellsCleared, Effect.clears, hsid, Ne.symm hsid]
  | reportDegraded t stepId =>
    by_cases hsid : sid = t
    · subst hsid
      have hpos := List.count_pos_iff.mpr (hraised (decide_eq_true rfl))
      simp [apply, Effect.tellsRaised, Effect.raises, Effect.tellsCleared, Effect.clears]
      omega
    · simp [apply, Effect.tellsRaised, Effect.raises, Effect.tellsCleared, Effect.clears, hsid, Ne.symm hsid]
  | reportReset t =>
    by_cases hsid : sid = t
    · subst hsid
      have hpos := List.count_pos_iff.mpr (hcleared (decide_eq_true rfl))
      simp [apply, Effect.tellsRaised, Effect.raises, Effect.tellsCleared, Effect.clears]
      omega
    · simp [apply, Effect.tellsRaised, Effect.raises, Effect.tellsCleared, Effect.clears, hsid, Ne.symm hsid]

/-- The next block of a thread: what it does, and its new place. -/
theorem counted_work [DecidableEq β] {sid : String} (hp : p.Counted sid) {k : Nat} {w w' : Worker β}
    (hw : p.workers[k]? = some w) {budgetExceeded : Bool} {answer : Attempt} {e : Effect}
    (h : Works hash p w budgetExceeded answer e w') : ((p.apply e).setWorker k w').Counted sid := by
  obtain ⟨hreports, hclears, htells⟩ := reports_works h sid
  have hset := countP_set hw w' (Worker.reports sid)
  have hmem : e.tellsRaised sid = true → Change.raised ∈ p.unsent sid := fun htold => by
    have hraises : e.raises sid = false := by cases h <;> first | rfl | cases htold
    rw [htold, hraises] at hreports
    have hpos : 0 < p.workers.countP (Worker.reports sid) := by
      refine List.countP_pos_iff.mpr ⟨w, List.mem_of_getElem? hw, ?_⟩
      cases hrep : w.reports sid with
      | true => rfl
      | false => simp [hrep] at hreports
    rw [← hp.raised] at hpos
    exact List.count_pos_iff.mp hpos
  obtain ⟨hraised, hcleared⟩ := count_unsent p sid e hmem fun h => absurd h (by simp [htells])
  have hworkers : ((p.apply e).setWorker k w').workers = p.workers.set k w' := by
    rw [setWorker, (p.configured_apply e).workers]
  have htrials : (p.apply e).trials.countP (Trial.resets sid) = p.trials.countP (Trial.resets sid) := by
    rw [trials_apply]
    split
    · simp [Trial.resets]
    · rfl
  refine ⟨?_, ?_⟩
  · change ((p.apply e).unsent sid).count .raised = _
    rw [hworkers]
    have := hp.raised
    omega
  · change ((p.apply e).unsent sid).count .cleared = (p.apply e).trials.countP (Trial.resets sid)
    rw [htrials, ← hp.cleared]
    rw [htells, hclears] at hcleared
    exact hcleared

theorem counted_try {sid : String} (hp : p.Counted sid) {k : Nat} {t t' : Trial β}
    (ht : p.trials[k]? = some t) {alive : Bool} {e : Effect} (h : Tries p t alive e t') :
    ((p.apply e).setTrial k t').Counted sid := by
  obtain ⟨hresets, hraises, htells⟩ := resets_tries h sid
  have hset := countP_set ht t' (Trial.resets sid)
  have hmem : e.tellsCleared sid = true → Change.cleared ∈ p.unsent sid := fun htold => by
    have hclears : e.clears sid = false := by cases h <;> first | rfl | cases htold
    rw [htold, hclears] at hresets
    have hpos : 0 < p.trials.countP (Trial.resets sid) := by
      refine List.countP_pos_iff.mpr ⟨t, List.mem_of_getElem? ht, ?_⟩
      cases hres : t.resets sid with
      | true => rfl
      | false => simp [hres] at hresets
    rw [← hp.cleared] at hpos
    exact List.count_pos_iff.mp hpos
  obtain ⟨hraised, hcleared⟩ := count_unsent p sid e (fun h => absurd h (by simp [htells])) hmem
  have htrials : ((p.apply e).setTrial k t').trials = p.trials.set k t' := by
    rw [setTrial, trials_tries h]
  refine ⟨?_, ?_⟩
  · change ((p.apply e).unsent sid).count .raised = (p.apply e).workers.countP (Worker.reports sid)
    rw [(p.configured_apply e).workers, ← hp.raised]
    rw [htells, hraises] at hraised
    exact hraised
  · change ((p.apply e).unsent sid).count .cleared = _
    rw [htrials]
    have := hp.cleared
    omega

theorem counted_step [DecidableEq β] {sid : String} (p : Pipeline β) (i : Act β) (hp : p.Counted sid) :
    (p.step hash i).Counted sid := by
  cases i with
  | setSessionProvider t name =>
    rw [step, setSessionProvider]
    split
    · exact hp
    · exact ⟨hp.raised, hp.cleared⟩
  | setSessionConfig t primary =>
    rw [step, setSessionConfig]
    split
    · exact hp
    · exact ⟨hp.raised, hp.cleared⟩
  | submit t stepId =>
    rw [step, submit]
    split
    · exact hp
    dsimp only
    split
    · exact ⟨hp.raised, hp.cleared⟩
    · refine ⟨?_, hp.cleared⟩
      change (p.unsent sid).count .raised = (p.workers ++ [_]).countP (Worker.reports sid)
      rw [List.countP_append, ← hp.raised]
      rfl
  | work k budgetExceeded answer =>
    rw [step]
    split
    case h_1 w hw => exact counted_work hp hw (works_workerStep hash p w budgetExceeded answer)
    case h_2 => exact hp
  | trial k alive =>
    rw [step]
    split
    case h_1 t ht => exact counted_try hp ht (tries_trialStep p t alive)
    case h_2 => exact hp
  | markSessionDegraded t => exact ⟨hp.raised, hp.cleared⟩
  | resetSession t => exact ⟨hp.raised, hp.cleared⟩

/-- A trial only clears a flag that is set. -/
theorem degraded_of_resume [DecidableEq β] {i : Act β} {sid : String}
    (h : p.effect hash i = .resume sid) : p.degraded sid = true := by
  have hsource := p.source_effect hash i
  rw [h] at hsource
  cases hsource with
  | worked _ _ hworks => cases hworks
  | tried _ _ htries =>
    cases htries with
    | resumed _ hdegraded => exact hdegraded

/-- The changes of the session's flag that a block makes. -/
def newChanges (sid : String) : Effect → List Change
  | .degrade t => if sid = t then [.raised] else []
  | .resume t => if sid = t then [.cleared] else []
  | _ => []

theorem changes_apply {e : Effect} (sid : String) (hturn : p.inTurn e = true) :
    (p.apply e).changes sid = p.changes sid ++ newChanges sid e := by
  cases e with
  | quiet | make | fail | openCircuit | count | schedule | close | mark | pop =>
    exact (List.append_nil _).symm
  | zero t =>
    rw [apply]
    split <;> exact (List.append_nil _).symm
  | degrade t =>
    change (p.sent sid).map change ++ update p.unsent t (p.unsent t ++ [.raised]) sid = _
    rw [Function.update_apply, newChanges, changes]
    split
    case isTrue hsid => rw [hsid, List.append_assoc]
    case isFalse => rw [List.append_nil]
  | resume t =>
    change (p.sent sid).map change ++ update p.unsent t (p.unsent t ++ [.cleared]) sid = _
    rw [Function.update_apply, newChanges, changes]
    split
    case isTrue hsid => rw [hsid, List.append_assoc]
    case isFalse => rw [List.append_nil]
  | reportDegraded t stepId =>
    have hhead : (p.unsent t).head? = some .raised := of_decide_eq_true hturn
    obtain ⟨rest, hrest⟩ := List.head?_eq_some_iff.mp hhead
    by_cases hsid : sid = t
    · subst hsid
      simp [apply, changes, hrest, change, newChanges]
    · simp [apply, changes, hsid, newChanges]
  | reportReset t =>
    have hhead : (p.unsent t).head? = some .cleared := of_decide_eq_true hturn
    obtain ⟨rest, hrest⟩ := List.head?_eq_some_iff.mp hhead
    by_cases hsid : sid = t
    · subst hsid
      simp [apply, changes, hrest, change, newChanges]
    · simp [apply, changes, hsid, newChanges]

/-- The changes lead from an unset flag to the flag. -/
def Told (p : Pipeline β) (sid : String) : Prop := follow false (p.changes sid) = some (p.degraded sid)

theorem told_apply {e : Effect} {sid : String} (hp : p.Told sid) (hturn : p.inTurn e = true)
    (hresume : ∀ sid, e = .resume sid → p.degraded sid = true) : (p.apply e).Told sid := by
  rw [Told] at hp ⊢
  rw [changes_apply sid hturn, follow_append, hp, Option.bind_some, degraded_apply]
  cases e with
  | quiet | make | fail | openCircuit | count | schedule | close | zero | reportDegraded | reportReset => rfl
  | degrade t =>
    by_cases hsid : sid = t
    · subst hsid
      have hunset : p.degraded sid = false := by simpa [inTurn] using hturn
      simp [newChanges, hunset, follow]
    · simp [newChanges, hsid, follow]
  | resume t =>
    by_cases hsid : sid = t
    · subst hsid
      simp [newChanges, hresume sid rfl, follow]
    · simp [newChanges, hsid, follow]
  | mark t =>
    by_cases hsid : sid = t
    · subst hsid
      have hset : p.degraded sid = true := hturn
      simp [newChanges, hset, follow]
    · simp [newChanges, hsid, follow]
  | pop t =>
    by_cases hsid : sid = t
    · subst hsid
      have hunset : p.degraded sid = false := by simpa [inTurn] using hturn
      simp [newChanges, hunset, follow]
    · simp [newChanges, hsid, follow]

theorem SameSessions.told {p' : Pipeline β} (h : SameSessions p p') {sid : String} (hp : p.Told sid) :
    p'.Told sid := by
  rw [Told, changes, h.sent, h.unsent, h.degraded]
  exact hp

/-- No thread has changed the flag of the session without having sent the message. -/
def Settled (p : Pipeline β) (sid : String) : Prop :=
  (∀ w ∈ p.workers, w.reports sid = false) ∧ ∀ t ∈ p.trials, t.resets sid = false

theorem unsent_of_settled {p : Pipeline β} {sid : String} (hp : p.Counted sid) (h : p.Settled sid) :
    p.unsent sid = [] := by
  have hraised : (p.unsent sid).count .raised = 0 := by
    rw [hp.raised, List.countP_eq_zero]
    exact fun w hw => by simp [h.1 w hw]
  have hcleared : (p.unsent sid).count .cleared = 0 := by
    rw [hp.cleared, List.countP_eq_zero]
    exact fun t ht => by simp [h.2 t ht]
  refine List.eq_nil_iff_forall_not_mem.mpr fun c hc => ?_
  cases c with
  | raised => exact List.count_eq_zero.mp hraised hc
  | cleared => exact List.count_eq_zero.mp hcleared hc

section Runs

variable [DecidableEq β] (hash : String → Int) (router : ModelRouter β)
  (sessionRouters : String → Option (ModelRouter β)) (sessionProviders : String → Option String)
  (threshold maxRetries : Nat)

/-- The next block of the run is in turn. -/
def InTurn (p : Pipeline β) (i : Act β) : Prop := p.inTurn (p.effect hash i) = true

instance (p : Pipeline β) (i : Act β) : Decidable (InTurn hash p i) :=
  inferInstanceAs (Decidable (_ = true))

/-- In every run in which each callback that degrades a session finds it not degraded
and the messages are sent in the order of the changes they tell, the messages of
each session alternate, and once they are sent the last of them tells the flag. -/
theorem messages_alternate (acts : List (Act β))
    (h : Guarded (Pipeline.step hash) (InTurn hash)
      (start router sessionRouters sessionProviders threshold maxRetries) acts) (sid : String) :
    let p := run (Pipeline.step hash)
      (start router sessionRouters sessionProviders threshold maxRetries) acts
    ∃ flag, follow false ((p.sent sid).map change) = some flag ∧
      (p.Settled sid → flag = p.degraded sid) := by
  intro p
  have hstep : ∀ (p : Pipeline β) i, p.Counted sid ∧ p.Told sid → InTurn hash p i →
      (p.step hash i).Counted sid ∧ (p.step hash i).Told sid := fun p i hp hi =>
    ⟨counted_step p i hp.1, (p.sessions_step hash i).told (told_apply hp.2 hi fun _ => degraded_of_resume)⟩
  have hstart : (start router sessionRouters sessionProviders threshold maxRetries).Counted sid ∧
      (start router sessionRouters sessionProviders threshold maxRetries).Told sid := ⟨⟨rfl, rfl⟩, rfl⟩
  obtain ⟨hcounted, htold⟩ := invariant_run hstep _ acts hstart h
  rw [Told, changes, follow_append] at htold
  obtain ⟨flag, hsent, hunsent⟩ := Option.bind_eq_some_iff.mp htold
  refine ⟨flag, hsent, fun hsettled => ?_⟩
  rw [unsent_of_settled hcounted hsettled] at hunsent
  exact Option.some.inj hunsent

end Runs

theorem messages_alternate_recovery :
    let p := run (Pipeline.step fun _ => 0) (start openaiPool (fun _ => none) (fun _ => some "openai") 1 1)
      recovery
    p.sent "s" = [.reasoningDegraded "s" 1, .circuitReset "s"] ∧
      ∃ flag, follow false ((p.sent "s").map change) = some flag ∧
        (p.Settled "s" → flag = p.degraded "s") :=
  ⟨by decide +kernel, messages_alternate (fun _ => 0) openaiPool (fun _ => none) (fun _ => some "openai")
    1 1 recovery (by decide +kernel) "s"⟩

/-- Two steps of a session fail at one time. Each callback finds the flag unset, and
each degrades the session. -/
def twoFailures : List (Act Nat) :=
  .submit "s" 1 :: .submit "s" 2 :: (List.replicate 13
    [.work 0 false (.failed .nonRetryable), .work 1 false (.failed .nonRetryable)]).flatten

theorem degraded_twice :
    ¬ ∃ flag, follow false (((run (Pipeline.step fun _ => 0)
      (start openaiPool (fun _ => none) (fun _ => some "openai") 1 1) twoFailures).sent "s").map change) =
        some flag := by
  have htwice : follow false (((run (Pipeline.step fun _ => 0)
      (start openaiPool (fun _ => none) (fun _ => some "openai") 1 1) twoFailures).sent "s").map change) =
        none := by
    decide +kernel
  rw [htwice]
  rintro ⟨flag, ⟨⟩⟩

end Pipeline

end MemoryArchive.Model.Breaker
