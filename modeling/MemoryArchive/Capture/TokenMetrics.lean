import Mathlib.Algebra.GroupWithZero.Nat
import Mathlib.Data.UInt
import MemoryArchive.Capture.TokenTotals

namespace MemoryArchive.Capture.TokenMetrics

/-- What an update leaves, and whether it panicked on the way. -/
structure Outcome (α : Type) where
  state : α
  panicked : Bool

namespace Outcome

variable {α β : Type}

def map (f : α → β) (o : Outcome α) : Outcome β := ⟨f o.state, o.panicked⟩

def andThen (o : Outcome α) (f : α → Outcome α) : Outcome α := if o.panicked then o else f o.state

end Outcome

/-- `+=` on u64: builds with overflow checks panic before they store. -/
def addAssign (checked : Bool) (a b : UInt64) : Outcome UInt64 :=
  if checked = true ∧ 2 ^ 64 ≤ a.toNat + b.toNat then ⟨a, true⟩ else ⟨a + b, false⟩

/-- `+` on u32; without checks it wraps. -/
def addU32 (checked : Bool) (a b : UInt32) : Option UInt32 :=
  if checked = true ∧ 2 ^ 32 ≤ a.toNat + b.toNat then none else some (a + b)

def addCounts (checked : Bool) (t c : TokenCounts) : Outcome TokenCounts :=
  ((addAssign checked t.input c.input).map fun i => { t with input := i }).andThen fun t =>
    (addAssign checked t.output c.output).map fun o => { t with output := o }

def addTokens (checked : Bool) (m : ReasoningMaps) (c : TokenCounts) : Outcome ReasoningMaps :=
  (addCounts checked (m.tokens.getD 0) c).map fun t => { m with tokens := some t }

def addProviderTokens (checked : Bool) (m : ReasoningMaps) (provider : String) (c : TokenCounts) :
    Outcome ReasoningMaps :=
  if provider = "" then ⟨m, false⟩
  else
    let inner := m.providerTokens.getD .empty
    (addCounts checked (inner.count provider) c).map fun t =>
      { m with providerTokens := some (Function.update inner provider (some t)) }

/-- The metrics of model requests, and what waits for a flush in each session. -/
structure Totals where
  requests : UInt64
  requestsByProvider : String → UInt64
  consumed : UInt64
  maps : String → ReasoningMaps

/-- A ReasoningResult, with the errors that its session's lookup and the write of its
entry end in. -/
structure Message where
  sessionId : String
  stepId : UInt32
  result : ReasoningResult
  lookupError : Option String
  writeError : Option String

def Message.entryWritten (m : Message) : Bool := m.lookupError.isNone && m.writeError.isNone

inductive Reply
  | error (code message : String)
  | reasoningResultAccepted (sessionId : String) (stepId : UInt32)
  deriving DecidableEq

namespace Totals

variable (checked : Bool) (s : Totals) (m : Message)

def countRequest : Totals :=
  { s with
    requests := s.requests + 1
    requestsByProvider := Function.update s.requestsByProvider m.result.provider
      (s.requestsByProvider m.result.provider + 1) }

/-- The counter's own addition wraps in every build. -/
def consume (tokens : UInt64) : Totals := { s with consumed := s.consumed + tokens }

def setMaps (maps : ReasoningMaps) : Totals :=
  { s with maps := Function.update s.maps m.sessionId maps }

/-- The end of the handler, once the entry is written. -/
def account : Outcome Totals :=
  match addU32 checked m.result.inputTokens m.result.outputTokens with
  | none => ⟨s.countRequest m, true⟩
  | some tokens =>
      ((addTokens checked (s.maps m.sessionId) m.result.counts).andThen fun maps =>
        addProviderTokens checked maps m.result.provider m.result.counts).map
          (((s.countRequest m).consume tokens.toUInt64).setMaps m)

/-- A handler that panics does not reply. -/
def reasoningResult : Totals × Option Reply :=
  match m.lookupError with
  | some e => (s, some (.error "SESSION_NOT_FOUND" e))
  | none =>
      match m.writeError with
      | some e => (s, some (.error "WRITE_FAILED" ("Failed to write reasoning.jsonl: " ++ e)))
      | none =>
          let o := s.account checked m
          (o.state, if o.panicked then none else some (.reasoningResultAccepted m.sessionId m.stepId))

def run (s : Totals) : List Message → Totals
  | [] => s
  | m :: ms => run (s.reasoningResult checked m).1 ms

def replies (s : Totals) : List Message → List (Option Reply)
  | [] => []
  | m :: ms => (s.reasoningResult checked m).2 :: replies (s.reasoningResult checked m).1 ms

end Totals

/-- What tokens are counted in: the metric, and the pending totals. -/
inductive Total
  | consumed
  | input (sessionId : String) (account : Account)
  | output (sessionId : String) (account : Account)

namespace Total

def held : Total → Totals → Nat
  | consumed, s => s.consumed.toNat
  | input sessionId a, s => (a.pending (s.maps sessionId)).input.toNat
  | output sessionId a, s => (a.pending (s.maps sessionId)).output.toNat

/-- What a message adds, as natural numbers: nothing unless its entry was written. -/
def due (q : Total) (m : Message) : Nat :=
  if m.entryWritten then
    match q with
    | consumed => m.result.inputTokens.toNat + m.result.outputTokens.toNat
    | input sessionId a => if m.sessionId = sessionId then (a.credit m.result).input.toNat else 0
    | output sessionId a => if m.sessionId = sessionId then (a.credit m.result).output.toNat else 0
  else 0

end Total

/-- No total reaches the bound of u64. -/
def Fits (s : Totals) (ms : List Message) : Prop :=
  ∀ q : Total, q.held s + (ms.map q.due).sum < 2 ^ 64

/-- Every message is replied to, and every total grows by what the messages add. -/
def Accounted (checked : Bool) (s : Totals) (ms : List Message) : Prop :=
  (∀ reply ∈ s.replies checked ms, reply ≠ none) ∧
    ∀ q : Total, q.held (s.run checked ms) = q.held s + (ms.map q.due).sum

/-- The message's counts add up below the bound of u32. -/
def Message.Narrow (m : Message) : Prop :=
  m.entryWritten = true → m.result.inputTokens.toNat + m.result.outputTokens.toNat < 2 ^ 32

section Additions

variable (checked : Bool)

theorem toNat_add_of_fits {a b : UInt64} (h : a.toNat + b.toNat < 2 ^ 64) :
    (a + b).toNat = a.toNat + b.toNat := by
  rw [UInt64.toNat_add]
  exact Nat.mod_eq_of_lt h

theorem addAssign_of_fits {a b : UInt64} (h : a.toNat + b.toNat < 2 ^ 64) :
    addAssign checked a b = ⟨a + b, false⟩ :=
  if_neg fun hp => absurd hp.2 (by omega)

theorem addCounts_of_fits {t c : TokenCounts} (hi : t.input.toNat + c.input.toNat < 2 ^ 64)
    (ho : t.output.toNat + c.output.toNat < 2 ^ 64) : addCounts checked t c = ⟨t + c, false⟩ := by
  unfold addCounts
  rw [addAssign_of_fits checked hi]
  dsimp only [Outcome.map, Outcome.andThen]
  rw [addAssign_of_fits checked ho]
  rfl

theorem addU32_of_narrow {a b : UInt32} (h : a.toNat + b.toNat < 2 ^ 32) :
    addU32 checked a b = some (a + b) :=
  if_neg fun hp => absurd hp.2 (by omega)

theorem toNat_widened (a b : UInt32) :
    (a + b).toUInt64.toNat = (a.toNat + b.toNat) % 2 ^ 32 := by
  rw [UInt32.toNat_toUInt64, UInt32.toNat_add]

/-- The counts of a result fit in every account they go to. -/
def FitsIn (maps : ReasoningMaps) (r : ReasoningResult) : Prop :=
  ∀ a : Account, (a.pending maps).input.toNat + (a.credit r).input.toNat < 2 ^ 64 ∧
    (a.pending maps).output.toNat + (a.credit r).output.toNat < 2 ^ 64

theorem credit_provider {r : ReasoningResult} (h : r.provider ≠ "") :
    (Account.provider r.provider).credit r = r.counts :=
  if_pos ⟨h, rfl⟩

theorem addTokens_of_fits {maps : ReasoningMaps} {r : ReasoningResult} (h : FitsIn maps r) :
    addTokens checked maps r.counts = ⟨maps.addTokens r.counts, false⟩ := by
  obtain ⟨hi, ho⟩ := h .total
  unfold addTokens
  rw [addCounts_of_fits checked (t := maps.tokens.getD 0) (c := r.counts) hi ho]
  rfl

theorem addProviderTokens_of_fits {maps : ReasoningMaps} {r : ReasoningResult} (h : FitsIn maps r) :
    addProviderTokens checked (maps.addTokens r.counts) r.provider r.counts =
      ⟨(maps.addTokens r.counts).addProviderTokens r.provider r.counts, false⟩ := by
  unfold addProviderTokens ReasoningMaps.addProviderTokens
  by_cases hp : r.provider = ""
  · rw [if_pos hp, if_pos hp]
  · have hfit := h (.provider r.provider)
    rw [credit_provider hp] at hfit
    have hadd := addCounts_of_fits checked
      (t := (maps.providerTokens.getD .empty).count r.provider) (c := r.counts) hfit.1 hfit.2
    rw [if_neg hp, if_neg hp]
    dsimp only [ReasoningMaps.addTokens]
    rw [hadd]
    rfl

/-- Counts that fit are pending in every account afterwards. -/
theorem added_of_fits {maps : ReasoningMaps} {r : ReasoningResult} (h : FitsIn maps r) :
    ((addTokens checked maps r.counts).andThen fun maps =>
      addProviderTokens checked maps r.provider r.counts) =
        ⟨(maps.addTokens r.counts).addProviderTokens r.provider r.counts, false⟩ := by
  rw [addTokens_of_fits checked h]
  exact addProviderTokens_of_fits checked h

end Additions

section Messages

variable (checked : Bool) {s : Totals} {m : Message}

theorem reasoningResult_unwritten (h : ¬ m.entryWritten = true) :
    (s.reasoningResult checked m).1 = s ∧ (s.reasoningResult checked m).2 ≠ none := by
  cases hl : m.lookupError with
  | some e => simp [Totals.reasoningResult, hl]
  | none =>
    cases hw : m.writeError with
    | some e => simp [Totals.reasoningResult, hl, hw]
    | none =>
      have hwritten : m.entryWritten = true := by simp [Message.entryWritten, hl, hw]
      exact absurd hwritten h

theorem reasoningResult_written (h : m.entryWritten = true) :
    s.reasoningResult checked m = ((s.account checked m).state,
      if (s.account checked m).panicked then none
      else some (.reasoningResultAccepted m.sessionId m.stepId)) := by
  obtain ⟨hl, hw⟩ : m.lookupError = none ∧ m.writeError = none := by
    simpa [Message.entryWritten] using h
  simp [Totals.reasoningResult, hl, hw]

theorem due_unwritten (q : Total) (h : ¬ m.entryWritten = true) : q.due m = 0 := if_neg h

theorem due_consumed (h : m.entryWritten = true) :
    Total.consumed.due m = m.result.inputTokens.toNat + m.result.outputTokens.toNat := if_pos h

theorem due_input (h : m.entryWritten = true) (a : Account) :
    (Total.input m.sessionId a).due m = (a.credit m.result).input.toNat :=
  (if_pos h).trans (if_pos rfl)

theorem due_output (h : m.entryWritten = true) (a : Account) :
    (Total.output m.sessionId a).due m = (a.credit m.result).output.toNat :=
  (if_pos h).trans (if_pos rfl)

theorem due_input_other (sessionId : String) (a : Account) (h : m.sessionId ≠ sessionId) :
    (Total.input sessionId a).due m = 0 := by
  simp [Total.due, h]

theorem due_output_other (sessionId : String) (a : Account) (h : m.sessionId ≠ sessionId) :
    (Total.output sessionId a).due m = 0 := by
  simp [Total.due, h]

theorem credit_eq (a : Account) (r : ReasoningResult) : a.credit r = r.counts ∨ a.credit r = 0 := by
  cases a with
  | total => exact .inl rfl
  | provider name =>
    by_cases h : name ≠ "" ∧ r.provider = name
    · exact .inl (if_pos h)
    · exact .inr (if_neg h)

/-- No total grows by more than the metric. -/
theorem due_le (q : Total) (m : Message) :
    q.due m ≤ m.result.inputTokens.toNat + m.result.outputTokens.toNat := by
  by_cases h : m.entryWritten = true
  · cases q with
    | consumed => exact (due_consumed h).le
    | input sessionId a =>
      by_cases hs : m.sessionId = sessionId
      · subst hs
        rw [due_input h]
        obtain hc | hc := credit_eq a m.result <;> rw [hc]
        · exact (UInt32.toNat_toUInt64 _).le.trans (Nat.le_add_right _ _)
        · exact Nat.zero_le _
      · exact (due_input_other sessionId a hs).le.trans (Nat.zero_le _)
    | output sessionId a =>
      by_cases hs : m.sessionId = sessionId
      · subst hs
        rw [due_output h]
        obtain hc | hc := credit_eq a m.result <;> rw [hc]
        · exact (UInt32.toNat_toUInt64 _).le.trans (Nat.le_add_left _ _)
        · exact Nat.zero_le _
      · exact (due_output_other sessionId a hs).le.trans (Nat.zero_le _)
  · exact (due_unwritten q h).le.trans (Nat.zero_le _)

/-- The totals after a result whose counts all fit. -/
def credited (s : Totals) (m : Message) : Totals :=
  ((s.countRequest m).consume (m.result.inputTokens + m.result.outputTokens).toUInt64).setMaps m
    (((s.maps m.sessionId).addTokens m.result.counts).addProviderTokens m.result.provider m.result.counts)

/-- Where the pending totals have room, the handler panics at the addition of 32 bits
or nowhere. -/
theorem account_of_fits (h : m.entryWritten = true)
    (hfit : ∀ q : Total, q ≠ .consumed → q.held s + q.due m < 2 ^ 64) {tokens : UInt32}
    (htokens : addU32 checked m.result.inputTokens m.result.outputTokens = some tokens) :
    s.account checked m = ⟨((s.countRequest m).consume tokens.toUInt64).setMaps m
      (((s.maps m.sessionId).addTokens m.result.counts).addProviderTokens m.result.provider
        m.result.counts), false⟩ := by
  have hroom : FitsIn (s.maps m.sessionId) m.result := by
    intro a
    have hi := hfit (.input m.sessionId a) nofun
    have ho := hfit (.output m.sessionId a) nofun
    rw [due_input h] at hi
    rw [due_output h] at ho
    exact ⟨hi, ho⟩
  unfold Totals.account
  rw [htokens, added_of_fits checked hroom]
  rfl

/-- The pending totals grow by what is due. -/
theorem held_credited (h : m.entryWritten = true) (q : Total) (hq : q ≠ .consumed)
    (hfit : q.held s + q.due m < 2 ^ 64) : q.held (credited s m) = q.held s + q.due m := by
  cases q with
  | consumed => exact absurd rfl hq
  | input sessionId a =>
    by_cases hs : m.sessionId = sessionId
    · subst hs
      rw [due_input h] at hfit ⊢
      have hpending := Account.pending_result a (s.maps m.sessionId) m.result
      simp only [Total.held, credited, Totals.setMaps, Function.update_self, hpending]
      exact toNat_add_of_fits hfit
    · rw [due_input_other sessionId a hs]
      simp [Total.held, credited, Totals.setMaps, Totals.consume, Totals.countRequest,
        Function.update_of_ne (Ne.symm hs)]
  | output sessionId a =>
    by_cases hs : m.sessionId = sessionId
    · subst hs
      rw [due_output h] at hfit ⊢
      have hpending := Account.pending_result a (s.maps m.sessionId) m.result
      simp only [Total.held, credited, Totals.setMaps, Function.update_self, hpending]
      exact toNat_add_of_fits hfit
    · rw [due_output_other sessionId a hs]
      simp [Total.held, credited, Totals.setMaps, Totals.consume, Totals.countRequest,
        Function.update_of_ne (Ne.symm hs)]

theorem consumed_credited (hfit : Total.consumed.held s +
      (m.result.inputTokens.toNat + m.result.outputTokens.toNat) < 2 ^ 64) :
    Total.consumed.held (credited s m) = Total.consumed.held s +
      (m.result.inputTokens.toNat + m.result.outputTokens.toNat) % 2 ^ 32 := by
  have hwide := toNat_widened m.result.inputTokens m.result.outputTokens
  have hle := Nat.mod_le (m.result.inputTokens.toNat + m.result.outputTokens.toNat) (2 ^ 32)
  rw [← hwide] at hle ⊢
  exact toNat_add_of_fits (by
    have hheld : Total.consumed.held s = s.consumed.toNat := rfl
    dsimp only [Totals.countRequest]
    omega)

/-- A message whose counts add up in 32 bits is replied to, and every total grows by
what it adds. -/
theorem exact_of_narrow (hfit : ∀ q : Total, q.held s + q.due m < 2 ^ 64) (hnarrow : m.Narrow) :
    (s.reasoningResult checked m).2 ≠ none ∧
      ∀ q : Total, q.held (s.reasoningResult checked m).1 = q.held s + q.due m := by
  by_cases h : m.entryWritten = true
  · have haccount := account_of_fits checked h (fun q _ => hfit q)
      (addU32_of_narrow checked (hnarrow h))
    have hstep := reasoningResult_written (s := s) checked h
    rw [haccount] at hstep
    rw [hstep]
    refine ⟨by simp, fun q => ?_⟩
    by_cases hq : q = .consumed
    · subst hq
      have hconsumed := hfit .consumed
      rw [due_consumed h] at hconsumed ⊢
      refine (consumed_credited hconsumed).trans ?_
      rw [Nat.mod_eq_of_lt (hnarrow h)]
    · exact held_credited h q hq (hfit q)
  · obtain ⟨hstate, hreply⟩ := reasoningResult_unwritten (s := s) checked h
    refine ⟨hreply, fun q => ?_⟩
    rw [hstate, due_unwritten q h, Nat.add_zero]

theorem consumed_account_le (hfit : Total.consumed.held s +
      (m.result.inputTokens.toNat + m.result.outputTokens.toNat) < 2 ^ 64) :
    Total.consumed.held (s.account checked m).state ≤ Total.consumed.held s +
      (m.result.inputTokens.toNat + m.result.outputTokens.toNat) % 2 ^ 32 := by
  unfold Totals.account addU32
  by_cases hp : checked = true ∧ 2 ^ 32 ≤ m.result.inputTokens.toNat + m.result.outputTokens.toNat
  · rw [if_pos hp]
    exact Nat.le_add_right _ _
  · rw [if_neg hp]
    exact (consumed_credited hfit).le

/-- The metric never grows by more than what is due. -/
theorem consumed_step_le (hfit : Total.consumed.held s + Total.consumed.due m < 2 ^ 64) :
    Total.consumed.held (s.reasoningResult checked m).1 ≤
      Total.consumed.held s + Total.consumed.due m := by
  by_cases h : m.entryWritten = true
  · rw [due_consumed h] at hfit ⊢
    rw [reasoningResult_written checked h]
    refine (consumed_account_le checked hfit).trans ?_
    have hle := Nat.mod_le (m.result.inputTokens.toNat + m.result.outputTokens.toNat) (2 ^ 32)
    omega
  · rw [(reasoningResult_unwritten checked h).1]
    exact Nat.le_add_right _ _

/-- Counts that add up to more than 32 bits hold are lost to the metric, and with
overflow checks the reply is lost as well. -/
theorem short_of_wide (hfit : Total.consumed.held s + Total.consumed.due m < 2 ^ 64)
    (hwide : ¬ m.Narrow) :
    Total.consumed.held (s.reasoningResult checked m).1 <
      Total.consumed.held s + Total.consumed.due m := by
  unfold Message.Narrow at hwide
  push Not at hwide
  obtain ⟨h, hle⟩ := hwide
  rw [due_consumed h] at hfit ⊢
  rw [reasoningResult_written checked h]
  refine (consumed_account_le checked hfit).trans_lt ?_
  have hlt := Nat.mod_lt (m.result.inputTokens.toNat + m.result.outputTokens.toNat)
    (Nat.two_pow_pos 32)
  omega

end Messages

section Sequences

variable (checked : Bool)

theorem consumed_run_le (s : Totals) (ms : List Message)
    (hfit : Total.consumed.held s + (ms.map Total.consumed.due).sum < 2 ^ 64) :
    Total.consumed.held (s.run checked ms) ≤
      Total.consumed.held s + (ms.map Total.consumed.due).sum := by
  induction ms generalizing s with
  | nil => exact Nat.le_add_right _ _
  | cons m ms ih =>
    rw [List.map_cons, List.sum_cons] at hfit ⊢
    have hstep := consumed_step_le (s := s) (m := m) checked (by omega)
    have hrest := ih (s.reasoningResult checked m).1 (by omega)
    exact hrest.trans (by omega)

theorem fits_head {s : Totals} {m : Message} {ms : List Message} (h : Fits s (m :: ms)) (q : Total) :
    q.held s + q.due m < 2 ^ 64 := by
  have hq := h q
  rw [List.map_cons, List.sum_cons] at hq
  omega

theorem fits_tail {s s' : Totals} {m : Message} {ms : List Message} (h : Fits s (m :: ms))
    (hexact : ∀ q : Total, q.held s' = q.held s + q.due m) : Fits s' ms := by
  intro q
  have hq := h q
  rw [List.map_cons, List.sum_cons] at hq
  rw [hexact q]
  omega

/-- Every total is exact and every message replied to just when the two counts of each
written result add up to less than 2^32. -/
theorem accounted_iff (s : Totals) (ms : List Message) (hfit : Fits s ms) :
    Accounted checked s ms ↔ ∀ m ∈ ms, m.Narrow := by
  induction ms generalizing s with
  | nil =>
    refine ⟨fun _ m hm => absurd hm List.not_mem_nil, fun _ => ⟨?_, fun q => rfl⟩⟩
    intro reply hreply
    exact absurd hreply List.not_mem_nil
  | cons m ms ih =>
    rw [List.forall_mem_cons]
    by_cases hm : m.Narrow
    · obtain ⟨hreply, hexact⟩ := exact_of_narrow checked (fits_head hfit) hm
      have hrest := ih (s.reasoningResult checked m).1 (fits_tail hfit hexact)
      refine Iff.trans ?_ (hrest.trans ⟨fun h => ⟨hm, h⟩, fun h => h.2⟩)
      unfold Accounted
      refine and_congr ?_ (forall_congr' fun q => ?_)
      · exact List.forall_mem_cons.trans ⟨fun h => h.2, fun h => ⟨hreply, h⟩⟩
      · rw [List.map_cons, List.sum_cons, hexact q, Nat.add_assoc]
        rfl
    · refine ⟨fun h => ?_, fun h => absurd h.1 hm⟩
      have htotal := h.2 .consumed
      have hbound := hfit .consumed
      rw [List.map_cons, List.sum_cons] at htotal hbound
      have hshort := short_of_wide (s := s) checked (fits_head hfit .consumed) hm
      have hrest := consumed_run_le checked (s.reasoningResult checked m).1 ms (by omega)
      have hrun : s.run checked (m :: ms) = (s.reasoningResult checked m).1.run checked ms := rfl
      rw [hrun] at htotal
      omega

end Sequences

section Samples

def emptyTotals : Totals := ⟨0, fun _ => 0, 0, fun _ => .new⟩

def reported (inputTokens outputTokens : UInt32) : Message :=
  ⟨"s", 1, ⟨"openai", inputTokens, outputTokens⟩, none, none⟩

theorem held_empty (q : Total) : q.held emptyTotals = 0 := by
  cases q with
  | consumed => rfl
  | input sessionId a | output sessionId a => cases a <;> rfl

theorem fits_reported (inputTokens outputTokens : UInt32) :
    Fits emptyTotals [reported inputTokens outputTokens] := by
  intro q
  have hle := due_le q (reported inputTokens outputTokens)
  have hi := inputTokens.toNat_lt
  have ho := outputTokens.toNat_lt
  rw [List.map_cons, List.map_nil, List.sum_singleton, held_empty]
  change _ ≤ inputTokens.toNat + outputTokens.toNat at hle
  omega

theorem accounted_sample : Accounted true emptyTotals [reported 120 30] :=
  (accounted_iff true emptyTotals [reported 120 30] (fits_reported 120 30)).mpr (by
    simp only [List.forall_mem_singleton]
    intro _
    decide)

/-- A build with overflow checks does not reply, and one without counts no token. -/
theorem wide_lost (checked : Bool) : ¬ Accounted checked emptyTotals [reported (2 ^ 31) (2 ^ 31)] := by
  rintro ⟨hreplies, htotals⟩
  cases checked with
  | true =>
    have hreply := hreplies none (by decide +kernel)
    exact hreply rfl
  | false =>
    have hconsumed := htotals .consumed
    exact absurd hconsumed (by decide +kernel)

/-- Both kinds of build lose the tokens of one message. -/
theorem tokens_wrap : (¬ ∀ (s : Totals) (ms : List Message), Fits s ms → Accounted true s ms) ∧
    ¬ ∀ (s : Totals) (ms : List Message), Fits s ms → Accounted false s ms :=
  ⟨fun h => wide_lost true (h emptyTotals _ (fits_reported (2 ^ 31) (2 ^ 31))),
    fun h => wide_lost false (h emptyTotals _ (fits_reported (2 ^ 31) (2 ^ 31)))⟩

end Samples

end MemoryArchive.Capture.TokenMetrics
