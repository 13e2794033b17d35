import Mathlib.Algebra.BigOperators.Group.List.Basic
import Mathlib.Algebra.Order.Field.Rat
import Mathlib.Logic.Function.Basic
import MemoryArchive.Data.Runs
import MemoryArchive.Data.Window

namespace MemoryArchive.Model.RateLimiter

open Window (evict)

/-- The limits, which the constructor refuses when they are not positive. -/
structure Limits where
  requestsPerMinute : Nat
  tokenBudgetPerHour : Nat
  positive : 0 < requestsPerMinute ∧ 0 < tokenBudgetPerHour

/-- Where a call of `acquire_request_slot` is: before it takes the lock, not before it is
awake, or behind it, having seen the oldest request of a full window. -/
inductive Call
  | idle
  | waiting (deadline wake : ℚ)
  | full (deadline seen oldest : ℚ)
  deriving DecidableEq

structure State where
  requestTimestamps : List ℚ
  tokenEvents : List (ℚ × ℤ)
  calls : Nat → Call

inductive Input
  | acquireRequestSlot (id : Nat) (timeoutSeconds : ℚ)
  | look (id : Nat)
  | check (id : Nat)
  | recordTokens (inputTokens outputTokens : ℤ)
  | isTokenBudgetExceeded
  | tokensUsedThisHour
  | requestsInCurrentMinute

/-- A step of some thread, and what its clock reads. -/
structure Event where
  now : ℚ
  input : Input

inductive Answer
  | slot (id : Nat) (acquired : Bool)
  | exceeded (exceeded : Bool)
  | used (tokens : ℤ)
  | requests (count : Nat)
  deriving DecidableEq

def State.new : State := ⟨[], [], fun _ => .idle⟩

/-- How long the oldest request is in the window yet, and a bit. -/
def waitFor (seen oldest : ℚ) : ℚ := 60 - (seen - oldest) + 1 / 100

def totalTokens (inputTokens outputTokens : ℤ) : ℤ := max 0 inputTokens + max 0 outputTokens

namespace State

variable (l : Limits) (s : State) (now : ℚ)

/-- `_evict_old_requests` -/
def freshRequests : List ℚ := evict id 60 now s.requestTimestamps

/-- `_evict_old_tokens` -/
def freshTokens : List (ℚ × ℤ) := evict Prod.fst 3600 now s.tokenEvents

def setCall (id : Nat) (c : Call) : State := { s with calls := Function.update s.calls id c }

/-- The block under the lock. -/
def look (id : Nat) : State × Option Answer :=
  match s.calls id with
  | .waiting deadline wake =>
      if now < wake then (s, none)
      else if (s.freshRequests now).length < l.requestsPerMinute then
        (({ s with requestTimestamps := s.freshRequests now ++ [now] }).setCall id .idle, some (.slot id true))
      else
        (({ s with requestTimestamps := s.freshRequests now }).setCall id
          (.full deadline now ((s.freshRequests now).headD now)), none)
  | _ => (s, none)

/-- The look at the deadline, with the sleep that follows. -/
def check (id : Nat) : State × Option Answer :=
  match s.calls id with
  | .full deadline seen oldest =>
      let wait := waitFor seen oldest
      let remaining := deadline - now
      if remaining ≤ 0 ∨ wait > remaining then (s.setCall id .idle, some (.slot id false))
      else (s.setCall id (.waiting deadline (now + min wait (1 / 4))), none)
  | _ => (s, none)

def recordTokens (inputTokens outputTokens : ℤ) : State :=
  let total := totalTokens inputTokens outputTokens
  let events := if total > 0 then s.tokenEvents ++ [(now, total)] else s.tokenEvents
  { s with tokenEvents := evict Prod.fst 3600 now events }

def withFreshTokens : State := { s with tokenEvents := s.freshTokens now }

def tokensUsed : ℤ := ((s.freshTokens now).map Prod.snd).sum

/-- One thread takes one step at a time, with an answer when its call returns. -/
def respond : Input → State × Option Answer
  | .acquireRequestSlot id timeoutSeconds =>
      match s.calls id with
      | .idle => (s.setCall id (.waiting (now + timeoutSeconds) now), none)
      | _ => (s, none)
  | .look id => s.look l now id
  | .check id => s.check now id
  | .recordTokens inputTokens outputTokens => (s.recordTokens now inputTokens outputTokens, none)
  | .isTokenBudgetExceeded =>
      (s.withFreshTokens now, some (.exceeded (decide (s.tokensUsed now ≥ l.tokenBudgetPerHour))))
  | .tokensUsedThisHour => (s.withFreshTokens now, some (.used (s.tokensUsed now)))
  | .requestsInCurrentMinute =>
      ({ s with requestTimestamps := s.freshRequests now }, some (.requests (s.freshRequests now).length))

end State

/-- The limiter with its clock, all slots it has granted and all tokens it was told of. -/
structure History where
  state : State
  clock : ℚ
  granted : List ℚ
  recorded : List (ℚ × ℤ)

namespace History

variable (l : Limits) (h : History) (e : Event)

def new (clock : ℚ) : History := ⟨.new, clock, [], []⟩

def answer : Option Answer := (h.state.respond l e.now e.input).2

def grants (now : ℚ) : Option Answer → List ℚ
  | some (.slot _ true) => [now]
  | _ => []

def records (now : ℚ) : Input → List (ℚ × ℤ)
  | .recordTokens inputTokens outputTokens => [(now, totalTokens inputTokens outputTokens)]
  | _ => []

def step : History where
  state := (h.state.respond l e.now e.input).1
  clock := e.now
  granted := h.granted ++ grants e.now (h.answer l e)
  recorded := h.recorded ++ records e.now e.input

/-- The slots granted in a time. -/
def slots (I : ℚ → Bool) : Nat := (h.granted.filter I).length

/-- All slots of the sixty seconds up to a moment are taken. -/
def Full (now : ℚ) : Prop := l.requestsPerMinute ≤ h.slots fun t => decide (now - 60 < t ∧ t ≤ now)

/-- The tokens of the last hour. -/
def tokensOfHour (now : ℚ) : ℤ :=
  ((h.recorded.filter fun r => decide (now - 3600 < r.1 ∧ r.1 ≤ now)).map Prod.snd).sum

end History

/-- What a step may do. No minute gets more slots than allowed, wherever it begins or ends. A
slot is acquired within the timeout. A call gives up, after looks at a full window only, when
the window stays full until a hundredth of a second before its deadline; else it sleeps, and
not beyond its deadline. The budget is exceeded by the tokens of the last hour. -/
structure Correct (l : Limits) (h : History) (e : Event) : Prop where
  window : ∀ a, ((h.step l e).slots fun t => decide (a ≤ t ∧ t < a + 60)) ≤ l.requestsPerMinute ∧
    ((h.step l e).slots fun t => decide (a < t ∧ t ≤ a + 60)) ≤ l.requestsPerMinute
  acquired : ∀ id, h.answer l e = some (.slot id true) →
    ∃ deadline wake, h.state.calls id = .waiting deadline wake ∧ e.now ≤ deadline
  looked : ∀ id deadline wake, h.state.calls id = .waiting deadline wake →
    ∀ deadline' seen oldest, (h.step l e).state.calls id = .full deadline' seen oldest →
      deadline' = deadline ∧ seen = e.now ∧ h.Full l e.now
  refused : ∀ id, h.answer l e = some (.slot id false) →
    ∃ deadline seen oldest, h.state.calls id = .full deadline seen oldest ∧
      ∀ τ, seen ≤ τ → τ < deadline - 1 / 100 → h.Full l τ
  sleeps : ∀ id deadline seen oldest, h.state.calls id = .full deadline seen oldest →
    ∀ deadline' wake, (h.step l e).state.calls id = .waiting deadline' wake →
      deadline' = deadline ∧ e.now + 1 / 100 ≤ wake ∧ wake ≤ deadline
  budget : ∀ b, h.answer l e = some (.exceeded b) →
    (b = true ↔ l.tokenBudgetPerHour ≤ h.tokensOfHour e.now)

/-- A step takes place no earlier than the one before it. -/
def Timed (h : History) (e : Event) : Prop := h.clock ≤ e.now

/-- A call that finds room looks by its deadline; and one that does not has its deadline checked
while what is left is more than what the oldest request takes to leave the window, if that
leaves it in time. -/
def onTime (l : Limits) (h : History) (e : Event) : Bool :=
  match e.input with
  | .look id =>
      match h.state.calls id with
      | .waiting deadline wake =>
          decide (wake ≤ e.now → (h.state.freshRequests e.now).length < l.requestsPerMinute → e.now ≤ deadline)
      | _ => true
  | .check id =>
      match h.state.calls id with
      | .full deadline seen oldest =>
          decide (oldest + 60 + 1 / 100 ≤ deadline → (e.now - seen) + (oldest + 60 + 1 / 100) ≤ deadline)
      | _ => true
  | _ => true

def Prompt (l : Limits) (h : History) (e : Event) : Prop := onTime l h e = true

instance (l : Limits) (h : History) (e : Event) : Decidable (Prompt l h e) :=
  inferInstanceAs (Decidable (_ = true))

instance (h : History) (e : Event) : Decidable (Timed h e) := inferInstanceAs (Decidable (_ ≤ _))

/-- What a step can do. -/
inductive Does (l : Limits) (s : State) (now : ℚ) : Input → State × Option Answer → Prop
  | begun (id : Nat) (timeoutSeconds : ℚ) : Does l s now (.acquireRequestSlot id timeoutSeconds) (s, none)
  | asleep (id : Nat) : Does l s now (.look id) (s, none)
  | unseen (id : Nat) : Does l s now (.check id) (s, none)
  | begins (id : Nat) (timeoutSeconds : ℚ) : s.calls id = .idle →
      Does l s now (.acquireRequestSlot id timeoutSeconds)
        (s.setCall id (.waiting (now + timeoutSeconds) now), none)
  | acquires (id : Nat) (deadline wake : ℚ) : s.calls id = .waiting deadline wake → wake ≤ now →
      (s.freshRequests now).length < l.requestsPerMinute →
      Does l s now (.look id)
        (({ s with requestTimestamps := s.freshRequests now ++ [now] }).setCall id .idle, some (.slot id true))
  | sees (id : Nat) (deadline wake : ℚ) : s.calls id = .waiting deadline wake → wake ≤ now →
      l.requestsPerMinute ≤ (s.freshRequests now).length →
      Does l s now (.look id)
        (({ s with requestTimestamps := s.freshRequests now }).setCall id
          (.full deadline now ((s.freshRequests now).headD now)), none)
  | refuses (id : Nat) (deadline seen oldest : ℚ) : s.calls id = .full deadline seen oldest →
      deadline - now ≤ 0 ∨ waitFor seen oldest > deadline - now →
      Does l s now (.check id) (s.setCall id .idle, some (.slot id false))
  | sleeps (id : Nat) (deadline seen oldest : ℚ) : s.calls id = .full deadline seen oldest →
      waitFor seen oldest ≤ deadline - now →
      Does l s now (.check id)
        (s.setCall id (.waiting deadline (now + min (waitFor seen oldest) (1 / 4))), none)
  | records (inputTokens outputTokens : ℤ) :
      Does l s now (.recordTokens inputTokens outputTokens) (s.recordTokens now inputTokens outputTokens, none)
  | exceeds : Does l s now .isTokenBudgetExceeded
      (s.withFreshTokens now, some (.exceeded (decide (s.tokensUsed now ≥ l.tokenBudgetPerHour))))
  | uses : Does l s now .tokensUsedThisHour (s.withFreshTokens now, some (.used (s.tokensUsed now)))
  | counts : Does l s now .requestsInCurrentMinute
      ({ s with requestTimestamps := s.freshRequests now }, some (.requests (s.freshRequests now).length))

theorem look_does (l : Limits) (s : State) (now : ℚ) (id : Nat) :
    Does l s now (.look id) (s.look l now id) := by
  rw [State.look]
  cases hcall : s.calls id with
  | idle => exact .asleep id
  | full deadline seen oldest => exact .asleep id
  | waiting deadline wake =>
    dsimp only
    by_cases hwake : now < wake
    · rw [if_pos hwake]
      exact .asleep id
    · rw [if_neg hwake]
      by_cases hroom : (s.freshRequests now).length < l.requestsPerMinute
      · rw [if_pos hroom]
        exact .acquires id deadline wake hcall (not_lt.mp hwake) hroom
      · rw [if_neg hroom]
        exact .sees id deadline wake hcall (not_lt.mp hwake) (Nat.le_of_not_lt hroom)

theorem check_does (l : Limits) (s : State) (now : ℚ) (id : Nat) :
    Does l s now (.check id) (s.check now id) := by
  rw [State.check]
  cases hcall : s.calls id with
  | idle => exact .unseen id
  | waiting deadline wake => exact .unseen id
  | full deadline seen oldest =>
    dsimp only
    by_cases hlate : deadline - now ≤ 0 ∨ waitFor seen oldest > deadline - now
    · rw [if_pos hlate]
      exact .refuses id deadline seen oldest hcall hlate
    · rw [if_neg hlate]
      exact .sleeps id deadline seen oldest hcall (not_lt.mp (not_or.mp hlate).2)

theorem respond_does (l : Limits) (s : State) (now : ℚ) (i : Input) : Does l s now i (s.respond l now i) := by
  cases i with
  | acquireRequestSlot id timeoutSeconds =>
    rw [State.respond]
    cases hcall : s.calls id with
    | idle => exact .begins id timeoutSeconds hcall
    | waiting deadline wake => exact .begun id timeoutSeconds
    | full deadline seen oldest => exact .begun id timeoutSeconds
  | look id => exact look_does l s now id
  | check id => exact check_does l s now id
  | recordTokens inputTokens outputTokens => exact .records inputTokens outputTokens
  | isTokenBudgetExceeded => exact .exceeds
  | tokensUsedThisHour => exact .uses
  | requestsInCurrentMinute => exact .counts

/-- The timestamps are those of the slots granted since some time, which are in their order and
within the limit; and where a call has seen a full window it was one. -/
structure SlotsInv (l : Limits) (h : History) : Prop where
  ordered : h.granted.Pairwise (· ≤ ·)
  before : ∀ t ∈ h.granted, t ≤ h.clock
  requests : ∃ since ≤ h.clock, h.state.requestTimestamps = h.granted.filter (Window.recent id 60 since)
  bounded : ∀ I, Window.Narrow 60 I → (h.granted.filter I).length ≤ l.requestsPerMinute
  full : ∀ id deadline seen oldest, h.state.calls id = .full deadline seen oldest →
    seen ≤ h.clock ∧ seen - oldest < 60 ∧ l.requestsPerMinute ≤ h.slots fun t => decide (oldest ≤ t ∧ t ≤ seen)

/-- Whether there is an event for some tokens. -/
def counts (r : ℚ × ℤ) : Bool := decide (0 < r.2)

/-- The events are the tokens recorded since some time, in their order. -/
structure TokensInv (h : History) : Prop where
  ordered : h.recorded.Pairwise fun r r' => r.1 ≤ r'.1
  before : ∀ r ∈ h.recorded, r.1 ≤ h.clock ∧ 0 ≤ r.2
  events : ∃ since ≤ h.clock, h.state.tokenEvents =
    (h.recorded.filter counts).filter (Window.recent Prod.fst 3600 since)

section Requests

variable {l : Limits} {h : History} {now : ℚ} {i : Input} {r : State × Option Answer}

theorem SlotsInv.fresh (hinv : SlotsInv l h) (hle : h.clock ≤ now) :
    h.state.freshRequests now = h.granted.filter (Window.recent id 60 now) := by
  obtain ⟨since, hsince, hrequests⟩ := hinv.requests
  rw [State.freshRequests, hrequests]
  exact Window.evict_filter hinv.ordered (hsince.trans hle)

theorem slots_mono {p q : ℚ → Bool} (hpq : ∀ t ∈ h.granted, p t = true → q t = true) :
    h.slots p ≤ h.slots q := by
  rw [History.slots, History.slots, ← List.countP_eq_length_filter, ← List.countP_eq_length_filter]
  exact List.countP_mono_left hpq

/-- A full window has its oldest request in front. -/
theorem SlotsInv.oldest (hinv : SlotsInv l h) (hle : h.clock ≤ now)
    (hfull : l.requestsPerMinute ≤ (h.state.freshRequests now).length) :
    now - (h.state.freshRequests now).headD now < 60 ∧
      l.requestsPerMinute ≤ h.slots fun t => decide ((h.state.freshRequests now).headD now ≤ t ∧ t ≤ now) := by
  have hfresh := hinv.fresh hle
  have hsorted : (h.state.freshRequests now).Pairwise (· ≤ ·) := by
    rw [hfresh]
    exact hinv.ordered.filter _
  cases hcases : h.state.freshRequests now with
  | nil =>
    rw [hcases] at hfull
    exact absurd l.positive.1 (Nat.not_lt.mpr hfull)
  | cons oldest rest =>
    have hfirst : ∀ t ∈ oldest :: rest, oldest ≤ t := by
      rw [hcases] at hsorted
      exact List.forall_mem_cons.mpr ⟨le_rfl, (List.pairwise_cons.mp hsorted).1⟩
    rw [hcases] at hfull hfresh
    constructor
    · have hmem : oldest ∈ h.granted.filter (Window.recent id 60 now) := hfresh ▸ List.mem_cons_self
      exact of_decide_eq_true (List.mem_filter.mp hmem).2
    · rw [congrArg List.length hfresh] at hfull
      refine hfull.trans (slots_mono fun t ht hrecent => decide_eq_true ⟨?_, (hinv.before t ht).trans hle⟩)
      exact hfirst t (hfresh ▸ List.mem_filter.mpr ⟨ht, hrecent⟩)

theorem SlotsInv.seen_full (hinv : SlotsInv l h) (hle : h.clock ≤ now)
    (hfull : l.requestsPerMinute ≤ (h.state.freshRequests now).length) : h.Full l now := by
  obtain ⟨hold, hslots⟩ := hinv.oldest hle hfull
  refine hslots.trans (slots_mono fun t _ ht => decide_eq_true ?_)
  obtain ⟨hge, hle⟩ := of_decide_eq_true ht
  exact ⟨by linarith, hle⟩

theorem calls_setCall {s : State} {c c' : Call} {id id' : Nat} (hc : (s.setCall id c).calls id' = c') :
    id' = id ∧ c' = c ∨ s.calls id' = c' := by
  change Function.update s.calls id c id' = c' at hc
  by_cases hid : id' = id
  · rw [hid, Function.update_self] at hc
    exact .inl ⟨hid, hc.symm⟩
  · rw [Function.update_of_ne hid] at hc
    exact .inr hc

/-- A step without a slot keeps the slots, when it does not see a full window. -/
theorem SlotsInv.keep (hinv : SlotsInv l h) (hle : h.clock ≤ now) (s : State) (recorded : List (ℚ × ℤ))
    (hrequests : s.requestTimestamps = h.state.requestTimestamps ∨
      s.requestTimestamps = h.state.freshRequests now)
    (hcalls : ∀ id deadline seen oldest, s.calls id = .full deadline seen oldest →
      h.state.calls id = .full deadline seen oldest ∨ seen = now ∧ now - oldest < 60 ∧
        l.requestsPerMinute ≤ h.slots fun t => decide (oldest ≤ t ∧ t ≤ now)) :
    SlotsInv l ⟨s, now, h.granted, recorded⟩ where
  ordered := hinv.ordered
  before t ht := (hinv.before t ht).trans hle
  requests := by
    obtain hsame | hfresh := hrequests
    · obtain ⟨since, hsince, hold⟩ := hinv.requests
      exact ⟨since, hsince.trans hle, hsame.trans hold⟩
    · exact ⟨now, le_rfl, hfresh.trans (hinv.fresh hle)⟩
  bounded := hinv.bounded
  full id deadline seen oldest hcall := by
    obtain hsame | ⟨rfl, hold, hslots⟩ := hcalls id deadline seen oldest hcall
    · obtain ⟨hseen, hold, hslots⟩ := hinv.full id deadline seen oldest hsame
      exact ⟨hseen.trans hle, hold, hslots⟩
    · exact ⟨le_rfl, hold, hslots⟩

/-- A slot is granted where there is room. -/
theorem SlotsInv.grant (hinv : SlotsInv l h) (hle : h.clock ≤ now) {caller : Nat} (recorded : List (ℚ × ℤ))
    (hroom : (h.state.freshRequests now).length < l.requestsPerMinute) :
    SlotsInv l ⟨({ h.state with requestTimestamps := h.state.freshRequests now ++ [now] }).setCall caller .idle,
      now, h.granted ++ [now], recorded⟩ where
  ordered := List.pairwise_append.mpr ⟨hinv.ordered, List.pairwise_singleton _ _, fun t ht t' ht' =>
    List.mem_singleton.mp ht' ▸ (hinv.before t ht).trans hle⟩
  before t ht := by
    obtain ht | ht := List.mem_append.mp ht
    · exact (hinv.before t ht).trans hle
    · exact (List.mem_singleton.mp ht).le
  requests := by
    refine ⟨now, le_rfl, ?_⟩
    have hnow : Window.recent id 60 now now = true := decide_eq_true (by simp)
    change h.state.freshRequests now ++ [now] = (h.granted ++ [now]).filter _
    rw [List.filter_append, List.filter_cons_of_pos hnow, List.filter_nil, hinv.fresh hle]
  bounded I hI := by
    rw [hinv.fresh hle] at hroom
    exact Window.bounded_append hroom hinv.bounded hI
  full id' deadline seen oldest hcall := by
    obtain ⟨-, hidle⟩ | hsame := calls_setCall hcall
    · cases hidle
    · obtain ⟨hseen, hold, hslots⟩ := hinv.full id' deadline seen oldest hsame
      refine ⟨hseen.trans hle, hold, hslots.trans ?_⟩
      change (h.granted.filter _).length ≤ ((h.granted ++ [now]).filter _).length
      rw [List.filter_append, List.length_append]
      exact Nat.le_add_right _ _

/-- What a step preserves of the slots. -/
theorem slots_step (hinv : SlotsInv l h) (hle : h.clock ≤ now) (recorded : List (ℚ × ℤ))
    (hd : Does l h.state now i r) :
    SlotsInv l ⟨r.1, now, h.granted ++ History.grants now r.2, recorded⟩ := by
  have hother : ∀ {id c}, (∀ deadline seen oldest, c ≠ .full deadline seen oldest) →
      ∀ id' deadline seen oldest, (h.state.setCall id c).calls id' = .full deadline seen oldest →
        h.state.calls id' = .full deadline seen oldest := by
    intro id c hc id' deadline seen oldest hcall
    obtain ⟨-, hfull⟩ | hsame := calls_setCall hcall
    · exact absurd hfull.symm (hc deadline seen oldest)
    · exact hsame
  cases hd with
  | acquires id deadline wake hcall hwake hroom => exact hinv.grant hle recorded hroom
  | sees id deadline wake hcall hwake hfull =>
    change SlotsInv l ⟨_, now, h.granted ++ [], recorded⟩
    rw [List.append_nil]
    refine hinv.keep hle _ recorded (.inr rfl) fun id' deadline' seen oldest hcall => ?_
    obtain ⟨-, heq⟩ | hsame := calls_setCall hcall
    · cases heq
      exact .inr ⟨rfl, hinv.oldest hle hfull⟩
    · exact .inl hsame
  | begins id timeoutSeconds hcall =>
    change SlotsInv l ⟨_, now, h.granted ++ [], recorded⟩
    rw [List.append_nil]
    exact hinv.keep hle _ recorded (.inl rfl) fun id' d s o hc =>
      .inl (hother (fun _ _ _ heq => by cases heq) id' d s o hc)
  | refuses id deadline seen oldest hcall hlate =>
    change SlotsInv l ⟨_, now, h.granted ++ [], recorded⟩
    rw [List.append_nil]
    exact hinv.keep hle _ recorded (.inl rfl) fun id' d s o hc =>
      .inl (hother (fun _ _ _ heq => by cases heq) id' d s o hc)
  | sleeps id deadline seen oldest hcall hwait =>
    change SlotsInv l ⟨_, now, h.granted ++ [], recorded⟩
    rw [List.append_nil]
    exact hinv.keep hle _ recorded (.inl rfl) fun id' d s o hc =>
      .inl (hother (fun _ _ _ heq => by cases heq) id' d s o hc)
  | counts =>
    change SlotsInv l ⟨_, now, h.granted ++ [], recorded⟩
    rw [List.append_nil]
    exact hinv.keep hle _ recorded (.inr rfl) fun _ _ _ _ hc => .inl hc
  | begun | asleep | unseen | records | exceeds | uses =>
    change SlotsInv l ⟨_, now, h.granted ++ [], recorded⟩
    rw [List.append_nil]
    exact hinv.keep hle _ recorded (.inl rfl) fun _ _ _ _ hc => .inl hc

end Requests

section Tokens

variable {l : Limits} {h : History} {now : ℚ} {i : Input} {r : State × Option Answer}

theorem TokensInv.fresh (hinv : TokensInv h) (hle : h.clock ≤ now) :
    h.state.freshTokens now = (h.recorded.filter counts).filter (Window.recent Prod.fst 3600 now) := by
  obtain ⟨since, hsince, hevents⟩ := hinv.events
  rw [State.freshTokens, hevents]
  exact Window.evict_filter (hinv.ordered.filter _) (hsince.trans hle)

theorem sum_counted {rows : List (ℚ × ℤ)} (hrows : ∀ r ∈ rows, 0 ≤ r.2) :
    ((rows.filter counts).map Prod.snd).sum = (rows.map Prod.snd).sum := by
  induction rows with
  | nil => rfl
  | cons r rows ih =>
    obtain ⟨hr, hrest⟩ := List.forall_mem_cons.mp hrows
    rw [List.map_cons, List.sum_cons, ← ih hrest]
    by_cases hpos : 0 < r.2
    · rw [List.filter_cons_of_pos (p := counts) (decide_eq_true hpos), List.map_cons, List.sum_cons]
    · have hzero : r.2 = 0 := le_antisymm (not_lt.mp hpos) hr
      rw [List.filter_cons_of_neg (p := counts) (by simpa [counts] using hpos), hzero, zero_add]

/-- What is summed up is the tokens of the last hour. -/
theorem TokensInv.used (hinv : TokensInv h) (hle : h.clock ≤ now) :
    h.state.tokensUsed now = h.tokensOfHour now := by
  have hsame : (h.recorded.filter counts).filter (Window.recent Prod.fst 3600 now) =
      (h.recorded.filter fun r => decide (now - 3600 < r.1 ∧ r.1 ≤ now)).filter counts := by
    rw [List.filter_filter, List.filter_filter]
    refine List.filter_congr fun r hr => ?_
    rw [Bool.and_comm]
    congr 1
    have hbefore := (hinv.before r hr).1.trans hle
    refine decide_eq_decide.mpr ⟨fun hrecent => ⟨by linarith, hbefore⟩, fun hrecent => ?_⟩
    linarith [hrecent.1]
  rw [State.tokensUsed, hinv.fresh hle, hsame, History.tokensOfHour]
  exact sum_counted fun r hr => (hinv.before r (List.mem_of_mem_filter hr)).2

theorem TokensInv.keep (hinv : TokensInv h) (hle : h.clock ≤ now) (s : State) (granted : List ℚ)
    (hevents : s.tokenEvents = h.state.tokenEvents ∨ s.tokenEvents = h.state.freshTokens now) :
    TokensInv ⟨s, now, granted, h.recorded⟩ where
  ordered := hinv.ordered
  before r hr := ⟨(hinv.before r hr).1.trans hle, (hinv.before r hr).2⟩
  events := by
    obtain hsame | hfresh := hevents
    · obtain ⟨since, hsince, hold⟩ := hinv.events
      exact ⟨since, hsince.trans hle, hsame.trans hold⟩
    · exact ⟨now, le_rfl, hfresh.trans (hinv.fresh hle)⟩

theorem totalTokens_nonneg (inputTokens outputTokens : ℤ) : 0 ≤ totalTokens inputTokens outputTokens :=
  add_nonneg (le_max_left 0 inputTokens) (le_max_left 0 outputTokens)

theorem TokensInv.record (hinv : TokensInv h) (hle : h.clock ≤ now) (granted : List ℚ)
    (inputTokens outputTokens : ℤ) :
    TokensInv ⟨h.state.recordTokens now inputTokens outputTokens, now, granted,
      h.recorded ++ [(now, totalTokens inputTokens outputTokens)]⟩ where
  ordered := List.pairwise_append.mpr ⟨hinv.ordered, List.pairwise_singleton _ _, fun r hr r' hr' =>
    List.mem_singleton.mp hr' ▸ (hinv.before r hr).1.trans hle⟩
  before r hr := by
    obtain hr | hr := List.mem_append.mp hr
    · exact ⟨(hinv.before r hr).1.trans hle, (hinv.before r hr).2⟩
    · rw [List.mem_singleton.mp hr]
      exact ⟨le_rfl, totalTokens_nonneg inputTokens outputTokens⟩
  events := by
    obtain ⟨since, hsince, hevents⟩ := hinv.events
    refine ⟨now, le_rfl, ?_⟩
    have hrecent : Window.recent Prod.fst 3600 since (now, totalTokens inputTokens outputTokens) = true := by
      refine decide_eq_true ?_
      change since - now < 3600
      linarith
    have hsorted : (h.recorded ++ [(now, totalTokens inputTokens outputTokens)]).Pairwise
        fun r r' => r.1 ≤ r'.1 := List.pairwise_append.mpr
      ⟨hinv.ordered, List.pairwise_singleton _ _, fun r hr r' hr' =>
        List.mem_singleton.mp hr' ▸ (hinv.before r hr).1.trans hle⟩
    -- The events before the eviction are those recorded since the last one, the new one included.
    have hlonger : (if totalTokens inputTokens outputTokens > 0 then
        h.state.tokenEvents ++ [(now, totalTokens inputTokens outputTokens)] else h.state.tokenEvents) =
          ((h.recorded ++ [(now, totalTokens inputTokens outputTokens)]).filter counts).filter
            (Window.recent Prod.fst 3600 since) := by
      rw [List.filter_append, List.filter_append, ← hevents]
      by_cases hpos : 0 < totalTokens inputTokens outputTokens
      · rw [if_pos hpos, List.filter_cons_of_pos (p := counts) (decide_eq_true hpos), List.filter_nil,
          List.filter_cons_of_pos hrecent, List.filter_nil]
      · rw [if_neg hpos, List.filter_cons_of_neg (p := counts) (by simpa [counts] using hpos),
          List.filter_nil, List.filter_nil, List.append_nil]
    change Window.evict Prod.fst 3600 now _ = _
    rw [hlonger]
    exact Window.evict_filter (hsorted.filter _) (hsince.trans hle)

/-- What a step preserves of the tokens. -/
theorem tokens_step (hinv : TokensInv h) (hle : h.clock ≤ now) (granted : List ℚ)
    (hd : Does l h.state now i r) : TokensInv ⟨r.1, now, granted, h.recorded ++ History.records now i⟩ := by
  cases hd with
  | records inputTokens outputTokens => exact hinv.record hle granted inputTokens outputTokens
  | exceeds | uses =>
    change TokensInv ⟨_, now, granted, h.recorded ++ []⟩
    rw [List.append_nil]
    exact hinv.keep hle _ granted (.inr rfl)
  | begun | asleep | unseen | begins | acquires | sees | refuses | sleeps | counts =>
    change TokensInv ⟨_, now, granted, h.recorded ++ []⟩
    rw [List.append_nil]
    exact hinv.keep hle _ granted (.inl rfl)

end Tokens

/-- What holds in every history. -/
def Inv (l : Limits) (h : History) : Prop := SlotsInv l h ∧ TokensInv h

theorem inv_new (l : Limits) (clock : ℚ) : Inv l (.new clock) := by
  refine ⟨⟨.nil, nofun, ⟨clock, le_rfl, rfl⟩, fun _ _ => Nat.zero_le _, nofun⟩, ?_⟩
  exact ⟨.nil, nofun, ⟨clock, le_rfl, rfl⟩⟩

theorem inv_step {l : Limits} (h : History) (e : Event) (hinv : Inv l h) (hle : Timed h e) :
    Inv l (h.step l e) :=
  have hd := respond_does l h.state e.now e.input
  ⟨slots_step hinv.1 hle _ hd, tokens_step hinv.2 hle _ hd⟩

section Answers

variable {l : Limits} {s : State} {now : ℚ} {i : Input} {r : State × Option Answer} {id : Nat}

theorem acquired_of_does (hd : Does l s now i r) (hr : r.2 = some (.slot id true)) :
    i = .look id ∧ ∃ deadline wake, s.calls id = .waiting deadline wake ∧ wake ≤ now ∧
      (s.freshRequests now).length < l.requestsPerMinute := by
  cases hd with
  | acquires id' deadline wake hcall hwake hroom =>
    cases hr
    exact ⟨rfl, deadline, wake, hcall, hwake, hroom⟩
  | begun | asleep | unseen | begins | sees | refuses | sleeps | records | exceeds | uses | counts => cases hr

theorem refused_of_does (hd : Does l s now i r) (hr : r.2 = some (.slot id false)) :
    i = .check id ∧ ∃ deadline seen oldest, s.calls id = .full deadline seen oldest ∧
      (deadline - now ≤ 0 ∨ waitFor seen oldest > deadline - now) := by
  cases hd with
  | refuses id' deadline seen oldest hcall hlate =>
    cases hr
    exact ⟨rfl, deadline, seen, oldest, hcall, hlate⟩
  | begun | asleep | unseen | begins | acquires | sees | sleeps | records | exceeds | uses | counts => cases hr

theorem exceeded_of_does (hd : Does l s now i r) {b : Bool} (hr : r.2 = some (.exceeded b)) :
    b = decide (s.tokensUsed now ≥ l.tokenBudgetPerHour) := by
  cases hd with
  | exceeds =>
    cases hr
    rfl
  | begun | asleep | unseen | begins | acquires | sees | refuses | sleeps | records | uses | counts => cases hr

/-- The call that a step sets, if it sets one. -/
theorem call_of_setCall {id' : Nat} {c c' c'' : Call} (hold : s.calls id = c) (hne : c ≠ c'')
    {t : State} (hcalls : t.calls = s.calls) (hnew : (t.setCall id' c').calls id = c'') :
    id = id' ∧ c'' = c' := by
  obtain hset | hsame := calls_setCall hnew
  · exact hset
  · rw [hcalls, hold] at hsame
    exact absurd hsame hne

theorem looked_of_does {deadline wake deadline' seen oldest : ℚ} (hd : Does l s now i r)
    (hold : s.calls id = .waiting deadline wake) (hnew : r.1.calls id = .full deadline' seen oldest) :
    deadline' = deadline ∧ seen = now ∧ l.requestsPerMinute ≤ (s.freshRequests now).length := by
  have hne : Call.waiting deadline wake ≠ .full deadline' seen oldest := fun heq => by cases heq
  cases hd with
  | sees id' deadline wake hcall hwake hfull =>
    obtain ⟨rfl, heq⟩ := call_of_setCall hold hne rfl hnew
    rw [hcall] at hold
    cases hold
    cases heq
    exact ⟨rfl, rfl, hfull⟩
  | begins | acquires | refuses | sleeps =>
    exact absurd (call_of_setCall hold hne rfl hnew).2 fun heq => by cases heq
  | begun | asleep | unseen | records | exceeds | uses | counts => exact absurd (hold.symm.trans hnew) hne

theorem sleeps_of_does {deadline seen oldest deadline' wake : ℚ} (hd : Does l s now i r)
    (hold : s.calls id = .full deadline seen oldest) (hnew : r.1.calls id = .waiting deadline' wake) :
    deadline' = deadline ∧ wake = now + min (waitFor seen oldest) (1 / 4) ∧
      waitFor seen oldest ≤ deadline - now := by
  have hne : Call.full deadline seen oldest ≠ .waiting deadline' wake := fun heq => by cases heq
  cases hd with
  | sleeps id' deadline seen oldest hcall hwait =>
    obtain ⟨rfl, heq⟩ := call_of_setCall hold hne rfl hnew
    rw [hcall] at hold
    cases hold
    cases heq
    exact ⟨rfl, rfl, hwait⟩
  | begins id' timeoutSeconds hcall =>
    obtain ⟨rfl, -⟩ := call_of_setCall hold hne rfl hnew
    rw [hcall] at hold
    cases hold
  | acquires | sees | refuses =>
    exact absurd (call_of_setCall hold hne rfl hnew).2 fun heq => by cases heq
  | begun | asleep | unseen | records | exceeds | uses | counts => exact absurd (hold.symm.trans hnew) hne

end Answers

section Steps

variable {l : Limits} {h : History} {e : Event}

/-- Where a call gives up in time, the window it saw stays full until then. -/
theorem refused_full (hinv : SlotsInv l h) (hprompt : Prompt l h e) {id : Nat}
    (hr : h.answer l e = some (.slot id false)) :
    ∃ deadline seen oldest, h.state.calls id = .full deadline seen oldest ∧
      ∀ τ, seen ≤ τ → τ < deadline - 1 / 100 → h.Full l τ := by
  obtain ⟨hinput, deadline, seen, oldest, hcall, hlate⟩ :=
    refused_of_does (respond_does l h.state e.now e.input) hr
  obtain ⟨-, hold, hslots⟩ := hinv.full id deadline seen oldest hcall
  refine ⟨deadline, seen, oldest, hcall, fun τ hseen hτ => hslots.trans (slots_mono fun t _ ht => ?_)⟩
  obtain ⟨hge, hle⟩ := of_decide_eq_true ht
  refine decide_eq_true ⟨?_, hle.trans hseen⟩
  -- Otherwise the oldest request leaves the window in time, and the call would have slept.
  by_contra hout
  rw [Prompt, onTime, hinput] at hprompt
  dsimp only at hprompt
  rw [hcall] at hprompt
  have hleft := of_decide_eq_true hprompt (by linarith)
  rw [waitFor] at hlate
  obtain hlate | hlate := hlate
  · linarith
  · linarith

theorem correct_step (hinv : Inv l h) (hle : Timed h e) (hprompt : Prompt l h e) : Correct l h e where
  window a := by
    have hnext := (inv_step h e hinv hle).1.bounded
    exact ⟨hnext _ (Window.narrow_right a), hnext _ (Window.narrow_left a)⟩
  acquired id hr := by
    obtain ⟨hinput, deadline, wake, hcall, hwake, hroom⟩ :=
      acquired_of_does (respond_does l h.state e.now e.input) hr
    rw [Prompt, onTime, hinput] at hprompt
    dsimp only at hprompt
    rw [hcall] at hprompt
    exact ⟨deadline, wake, hcall, of_decide_eq_true hprompt hwake hroom⟩
  looked id deadline wake hold deadline' seen oldest hnew := by
    obtain ⟨hdeadline, hseen, hfull⟩ := looked_of_does (respond_does l h.state e.now e.input) hold hnew
    exact ⟨hdeadline, hseen, hinv.1.seen_full hle hfull⟩
  refused id hr := refused_full hinv.1 hprompt hr
  sleeps id deadline seen oldest hold deadline' wake hnew := by
    obtain ⟨hdeadline, rfl, hwait⟩ := sleeps_of_does (respond_does l h.state e.now e.input) hold hnew
    obtain ⟨-, hyoung, -⟩ := hinv.1.full id deadline seen oldest hold
    have hlong : 1 / 100 ≤ waitFor seen oldest := by
      rw [waitFor]
      linarith
    have hmin : (1 / 100 : ℚ) ≤ min (waitFor seen oldest) (1 / 4) := le_min hlong (by norm_num)
    have hmin' := min_le_left (waitFor seen oldest) (1 / 4)
    exact ⟨hdeadline, by linarith, by linarith⟩
  budget b hr := by
    rw [exceeded_of_does (respond_does l h.state e.now e.input) hr, decide_eq_true_iff, hinv.2.used hle]

end Steps

theorem correct_from {l : Limits} (h : History) (es : List Event) (hinv : Inv l h)
    (htimed : Runs.Guarded (History.step l) Timed h es)
    (hprompt : Runs.Guarded (History.step l) (Prompt l) h es) :
    Runs.Along (History.step l) (fun h e _ => Correct l h e) h es := by
  induction es generalizing h with
  | nil => trivial
  | cons e es ih =>
    have hnext := inv_step h e hinv htimed.1
    exact ⟨correct_step hinv htimed.1 hprompt.1, ih (h.step l e) hnext htimed.2 hprompt.2⟩

/-- In every history whose steps follow each other in time, and in which no call that waits is
held up, every step is correct. -/
theorem limiter_correct (l : Limits) (clock : ℚ) (es : List Event)
    (htimed : Runs.Guarded (History.step l) Timed (.new clock) es)
    (hprompt : Runs.Guarded (History.step l) (Prompt l) (.new clock) es) :
    Runs.Along (History.step l) (fun h e _ => Correct l h e) (.new clock) es :=
  correct_from (.new clock) es (inv_new l clock) htimed hprompt

def oneAMinute : Limits := ⟨1, 100, by decide⟩

/-- A call gets the only slot, another one gives up at once, and the budget is asked for. -/
def promptRun : List Event :=
  [⟨0, .acquireRequestSlot 0 30⟩, ⟨0, .look 0⟩, ⟨1, .recordTokens 60 50⟩, ⟨10, .acquireRequestSlot 1 30⟩,
    ⟨11, .look 1⟩, ⟨11, .check 1⟩, ⟨12, .isTokenBudgetExceeded⟩]

theorem limiter_correct_sample :
    Runs.Along (History.step oneAMinute) (fun h e _ => Correct oneAMinute h e) (.new 0) promptRun :=
  limiter_correct oneAMinute 0 promptRun (by decide +kernel) (by decide +kernel)

/-- The slot is free five seconds after the second call began, and its deadline is twenty-five
seconds later. -/
def delayedRun : List Event :=
  [⟨0, .acquireRequestSlot 0 30⟩, ⟨0, .look 0⟩, ⟨55, .acquireRequestSlot 1 30⟩, ⟨55, .look 1⟩]

/-- A call whose deadline is checked late gives up although there is room. -/
theorem free_slot_refused :
    ¬ Correct oneAMinute (Runs.run (History.step oneAMinute) (.new 0) delayedRun) ⟨82, .check 1⟩ := by
  intro h
  obtain ⟨deadline, seen, oldest, hcall, hfull⟩ := h.refused 1 (by decide +kernel)
  have hseen : (Runs.run (History.step oneAMinute) (.new 0) delayedRun).state.calls 1 = .full 85 55 0 := by
    decide +kernel
  rw [hseen] at hcall
  cases hcall
  have hnone := hfull 80 (by norm_num) (by norm_num)
  exact absurd hnone (by decide +kernel : ¬ 1 ≤ History.slots _ _)

end MemoryArchive.Model.RateLimiter
