import MemoryArchive.Model.Router

namespace MemoryArchive.Model

/-- The state of the circuit breaker of one session. -/
structure SessionState where
  consecutiveFailures : Nat
  degraded : Bool
  openCircuits : Finset String
  deriving DecidableEq

/-- A session that has not failed. -/
def SessionState.fresh : SessionState := ⟨0, false, ∅⟩

inductive PipelineMessage
  | reasoningDegraded (sid : String) (stepRangeStart : Nat)
  | circuitReset (sid : String)
  deriving DecidableEq

/-- The pipeline: its routers and hints, its sessions, the steps that wait for a
worker, and, for each session, the messages it has sent, the calls of a model
and the steps that have ended. -/
structure ReasoningPipeline (β : Type) where
  router : ModelRouter β
  sessionRouters : String → Option (ModelRouter β)
  sessionProviders : String → Option String
  threshold : Nat
  maxRetries : Nat
  sessionStates : String → Option SessionState
  queue : List (String × Nat)
  sent : String → List PipelineMessage
  calls : String → Nat
  ended : String → Nat

namespace ReasoningPipeline

variable {β : Type} (p : ReasoningPipeline β)

/-- The router of the session, or the global one. -/
def routerFor (sid : String) : ModelRouter β := (p.sessionRouters sid).getD p.router

def providerHint (sid : String) : String := (p.sessionProviders sid).getD ""

/-- The state of a session, which is made when it is first needed. -/
def state (sid : String) : SessionState := (p.sessionStates sid).getD .fresh

/-- The test that ends the reasoning of a session. It looks at the names only. -/
def fullyOpen (router : ModelRouter β) (hint : String) (circuits : Finset String) : Bool :=
  match router.policy with
  | .pinned =>
      let pinned := if hint ≠ "" then hint else router.firstName
      pinned ≠ "" && pinned ∈ circuits
  | .fallback | .loadBalance =>
      !router.priorityOrder.isEmpty && router.priorityOrder.all (· ∈ circuits)

def isFullyDegraded (sid : String) : Bool :=
  match p.sessionStates sid with
  | none => false
  | some state => fullyOpen (p.routerFor sid) (p.providerHint sid) state.openCircuits

end ReasoningPipeline

open ReasoningPipeline

variable {β : Type}

/-- The test looks at the circuit of the backend that the router picks, or at
one that is open or closed as that one is. -/
def Coherent (router : ModelRouter β) (hint : String) (circuits : Finset String) : Prop :=
  match router.policy with
  | .pinned =>
      if hint = "" then
        "" ∈ router.names → ("" ∈ circuits ↔ router.firstName ≠ "" ∧ router.firstName ∈ circuits)
      else hint ∈ router.names ∨ (hint ∈ circuits ↔ router.firstName ∈ circuits)
  | .fallback =>
      hint = "" → "" ∈ router.names → "" ∉ circuits → ∃ name ∈ router.names, name ≠ "" ∧ name ∉ circuits
  | .loadBalance => True

theorem fullyOpen_pinned {router : ModelRouter β} (hpolicy : router.policy = .pinned) (hint : String)
    (circuits : Finset String) :
    fullyOpen router hint circuits = true ↔
      if hint = "" then router.firstName ≠ "" ∧ router.firstName ∈ circuits else hint ∈ circuits := by
  rw [fullyOpen, hpolicy]
  by_cases hhint : hint = ""
  · simp [hhint]
  · simp [hhint]

theorem fullyOpen_names {router : ModelRouter β} (hpolicy : router.policy ≠ .pinned) (hint : String)
    (circuits : Finset String) :
    fullyOpen router hint circuits = true ↔ ∀ name ∈ router.names, name ∈ circuits := by
  have hall : (!router.priorityOrder.isEmpty && router.priorityOrder.all (· ∈ circuits)) = true ↔
      ∀ name ∈ router.names, name ∈ circuits := by
    obtain ⟨rest, horder⟩ := router.priorityOrder_eq_cons
    have hempty : router.priorityOrder.isEmpty = false := by rw [horder]; rfl
    rw [hempty, Bool.not_false, Bool.true_and, List.all_eq_true]
    simp only [router.mem_priorityOrder, decide_eq_true_eq]
  rw [fullyOpen]
  cases h : router.policy with
  | pinned => exact absurd h hpolicy
  | fallback => exact hall
  | loadBalance => exact hall

theorem fullyOpen_empty (router : ModelRouter β) (hint : String) : fullyOpen router hint ∅ = false := by
  refine Bool.eq_false_iff.mpr fun h => ?_
  by_cases hpolicy : router.policy = .pinned
  · have hopen := (fullyOpen_pinned hpolicy hint ∅).mp h
    split at hopen
    · exact absurd hopen.2 (Finset.notMem_empty _)
    · exact absurd hopen (Finset.notMem_empty _)
  · have hopen := (fullyOpen_names hpolicy hint ∅).mp h router.firstName router.firstName_mem
    exact absurd hopen (Finset.notMem_empty _)

theorem fullyOpen_iff_resolve (hash : String → Int) (sid : String) (router : ModelRouter β)
    (hint : String) (circuits : Finset String) :
    (fullyOpen router hint circuits = true ↔ router.resolve hash sid hint circuits = none) ↔
      Coherent router hint circuits := by
  rw [Coherent, ModelRouter.resolve]
  cases hpolicy : router.policy with
  | pinned =>
    dsimp only
    rw [fullyOpen_pinned hpolicy, ModelRouter.resolvePinned_eq_none]
    by_cases hhint : hint = ""
    · subst hhint
      simp only [if_true]
      by_cases hmem : "" ∈ router.names
      · simp only [hmem, if_true, true_implies]
        exact iff_comm
      · have hfirst : router.firstName ≠ "" := fun he => hmem (he ▸ router.firstName_mem)
        simp [hmem, hfirst]
    · by_cases hmem : hint ∈ router.names
      · simp [hhint, hmem]
      · simp [hhint, hmem]
  | fallback =>
    dsimp only
    rw [fullyOpen_names (by rw [hpolicy]; decide), ModelRouter.resolveFallback_eq_none]
    simp only [ModelRouter.mem_fallbackOrder]
    constructor
    · intro h hhint hmem hclosed
      by_contra hno
      refine hclosed (h.mpr ?_ "" hmem)
      rintro name ⟨hname, hne⟩
      by_contra hopen
      exact hno ⟨name, hname, fun he => hne (he.trans hhint.symm) hhint, hopen⟩
    · intro h
      constructor
      · rintro hall name ⟨hname, -⟩
        exact hall name hname
      · intro hall name hname
        by_cases he : name = hint ∧ hint = ""
        · obtain ⟨rfl, rfl⟩ := he
          by_contra hclosed
          obtain ⟨other, hother, hne, hopen⟩ := h rfl hname hclosed
          exact hopen (hall other ⟨hother, fun he => absurd he hne⟩)
        · exact hall name ⟨hname, fun hn hh => he ⟨hn, hh⟩⟩
  | loadBalance =>
    dsimp only
    rw [fullyOpen_names (by rw [hpolicy]; decide), ModelRouter.resolveLb_eq_none]
    simp

/-- A pipeline finds a session fully degraded exactly when its router has no
backend for it, if and only if the test looks at the circuit that counts. -/
theorem isFullyDegraded_iff_resolve (hash : String → Int) (p : ReasoningPipeline β) (sid : String) :
    (p.isFullyDegraded sid = true ↔
        (p.routerFor sid).resolve hash sid (p.providerHint sid) (p.state sid).openCircuits = none) ↔
      Coherent (p.routerFor sid) (p.providerHint sid) (p.state sid).openCircuits := by
  rw [← fullyOpen_iff_resolve hash sid, isFullyDegraded, state]
  cases p.sessionStates sid with
  | some state => exact Iff.rfl
  | none =>
    have hclosed := fullyOpen_empty (p.routerFor sid) (p.providerHint sid)
    simp only [Option.getD_none, SessionState.fresh, hclosed]

/-- A pipeline with a pool of one backend, for a session whose hint names
another one. -/
def strayHint : ReasoningPipeline Nat where
  router := ⟨[⟨"openai", 0, 1⟩], .pinned, openai_ne_nil⟩
  sessionRouters _ := none
  sessionProviders _ := some "grok"
  threshold := 5
  maxRetries := 3
  sessionStates _ := some ⟨5, false, {"grok"}⟩
  queue := []
  sent _ := []
  calls _ := 0
  ended _ := 0

/-- The session is given up, though the router has a backend for it. -/
theorem stray_hint_gives_up :
    ¬ (strayHint.isFullyDegraded "s1" = true ↔
      (strayHint.routerFor "s1").resolve (fun _ => 0) "s1" (strayHint.providerHint "s1")
        (strayHint.state "s1").openCircuits = none) := by
  have htest : strayHint.isFullyDegraded "s1" = true := by decide +kernel
  have hresolve : (strayHint.routerFor "s1").resolve (fun _ => 0) "s1" (strayHint.providerHint "s1")
      (strayHint.state "s1").openCircuits = some 0 := by
    decide +kernel
  intro h
  cases hresolve.symm.trans (h.mp htest)

end MemoryArchive.Model
