import Mathlib.Data.Set.Card
import MemoryArchive.Ipc.LiveStatus

namespace MemoryArchive.Ipc

open Capture (Control LoopControl Watch)
open Registry Runs

/-- The sessions that are marked as degraded. -/
def System.marked (s : System) : Set String := { sid | (s.control sid).degraded = true }

/-- A loop of the session has not ended yet. -/
def Recording (c : Control) : Prop := ∃ l ∈ c.loops, l.phase = .connecting ∨ l.phase = .running

/-- The message of a circuit breaker: whose reasoning is degraded, or no longer is. -/
def SystemInput.report : SystemInput → Option (String × Bool)
  | .operator _ (.reasoningDegraded sid _) => some (sid, true)
  | .operator _ (.circuitReset sid) => some (sid, false)
  | _ => none

/-- What the handler of a message does to both gauges. It looks at the message only. -/
def SystemInput.gaugeChange (i : SystemInput) : Int :=
  match i.report with
  | some (_, true) => 1
  | some (_, false) => -1
  | none => 0

/-- The input registers the session, or starts a loop of it. -/
def Begins (s : System) (i : SystemInput) (sid : String) : Prop :=
  match i with
  | .operator env (.registerSession _) => env.sessionId = sid ∧ (s.step i).status sid ≠ s.status sid
  | .operator _ (.startWatch t) => t = sid ∧ (s.step i).control sid ≠ s.control sid
  | _ => False

/-- The input ends the capture of the session: its last loop ends, Done finishes it
without a loop, or it is deleted. -/
def Ends (s : System) (i : SystemInput) (sid : String) : Prop :=
  match i with
  | .operator _ (.done t) =>
      t = sid ∧ (s.control t).handle = none ∧ ∃ r, s.server.redis.get t = .ok r
  | .operator env (.deleteSession t force) => t = sid ∧ purges s env t force
  | .connect t _ _ | .leave t _ _ =>
      t = sid ∧ Recording (s.control sid) ∧ ¬ Recording ((s.step i).control sid)
  | _ => False

/-- The input makes the program forget the session, with its mark: a loop leaves, or
Done finishes the session without one. -/
def Forgets (s : System) (i : SystemInput) (sid : String) : Prop :=
  match i with
  | .operator _ (.done t) =>
      t = sid ∧ (s.control t).handle = none ∧ ∃ r, s.server.redis.get t = .ok r
  | .leave t id doneCleanly =>
      t = sid ∧ ∃ l, (s.control t).loop? id = some l ∧ l.phase = .running ∧
        ¬ (doneCleanly = true ∧ (s.control t).handle = some l.id)
  | _ => False

/-- The program with its two gauges of degraded sessions, and the sessions whose
capture has ended. -/
structure Gauged where
  system : System
  vlmCircuitBreakerOpen : Int
  sessionsReasoningDegraded : Int
  left : Set String

namespace Gauged

def start (server : Server) : Gauged := ⟨.start server, 0, 0, ∅⟩

def step (w : Gauged) (i : SystemInput) : Gauged where
  system := w.system.step i
  vlmCircuitBreakerOpen := w.vlmCircuitBreakerOpen + i.gaugeChange
  sessionsReasoningDegraded := w.sessionsReasoningDegraded + i.gaugeChange
  left := { sid | Ends w.system i sid ∨ sid ∈ w.left ∧ ¬ Begins w.system i sid }

/-- Both gauges count the sessions that are marked as degraded, and none of these has
left capture. -/
structure Exact (w : Gauged) : Prop where
  finite : w.system.marked.Finite
  vlmCircuitBreakerOpen : w.vlmCircuitBreakerOpen = w.system.marked.ncard
  sessionsReasoningDegraded : w.sessionsReasoningDegraded = w.system.marked.ncard
  nonneg : 0 ≤ w.sessionsReasoningDegraded
  left : ∀ sid ∈ w.left, sid ∉ w.system.marked

/-- A circuit is reported open for a session in capture that is not marked, and closed
for one that is; no marked session is forgotten or leaves capture. -/
def InTurn (w : Gauged) (i : SystemInput) : Prop :=
  match i.report with
  | some (sid, true) => sid ∉ w.system.marked ∧ sid ∉ w.left
  | some (sid, false) => sid ∈ w.system.marked
  | none => ∀ sid ∈ w.system.marked, ¬ Forgets w.system i sid ∧ ¬ Ends w.system i sid

end Gauged

section Marks

variable {s : System} {c : Control}

theorem mem_marked {sid : String} : sid ∈ s.marked ↔ (s.control sid).degraded = true := Iff.rfl

/-- Only the mark of one session changes. -/
theorem mem_marked_update {s' : System} {t : String}
    (hcontrol : s'.control = Function.update s.control t c) (sid : String) :
    sid ∈ s'.marked ↔ if sid = t then c.degraded = true else sid ∈ s.marked := by
  rw [mem_marked, hcontrol, Function.update_apply]
  split
  · rfl
  · rfl

theorem marked_congr {s' : System} (hcontrol : s'.control = s.control) : s'.marked = s.marked := by
  rw [System.marked, System.marked, hcontrol]

/-- The mark of the session is kept. -/
theorem marked_update {s' : System} {t : String} (hcontrol : s'.control = Function.update s.control t c)
    (hkept : c.degraded = (s.control t).degraded) : s'.marked = s.marked := by
  ext sid
  rw [mem_marked_update hcontrol]
  split
  case isTrue hsid => rw [hkept, hsid, mem_marked]
  case isFalse => rfl

theorem marked_setDegraded (sid : String) (degraded : Bool) (status : SessionStatus) :
    ((s.setDegraded sid degraded).setStatus sid status).marked =
      if degraded then insert sid s.marked else s.marked \ {sid} := by
  ext t
  rw [mem_marked_update rfl]
  cases degraded with
  | true =>
    rw [if_pos rfl, Set.mem_insert_iff]
    split
    case isTrue h => exact iff_of_true rfl (.inl h)
    case isFalse h => exact (or_iff_right h).symm
  | false =>
    rw [if_neg Bool.false_ne_true, Set.mem_sdiff, Set.mem_singleton_iff]
    split
    case isTrue h => exact iff_of_false Bool.false_ne_true fun hmem => hmem.2 h
    case isFalse h => exact (and_iff_left h).symm

/-- A report of a circuit breaker adds or removes the mark of its session. -/
theorem marked_reported {i : SystemInput} {sid : String} {degraded : Bool}
    (h : i.report = some (sid, degraded)) :
    (s.step i).marked = if degraded then insert sid s.marked else s.marked \ {sid} := by
  cases i with
  | operator env msg =>
    cases msg with
    | reasoningDegraded _ _ | circuitReset _ =>
      cases h
      exact marked_setDegraded _ _ _
    | _ => cases h
  | _ => cases h

theorem degraded_connect (c : Control) (id : Nat) (connected : Bool) :
    (c.step (.connect id connected)).degraded = c.degraded := by
  rw [Control.step]
  split
  · split
    · rw [Control.connect]
      split
      · rfl
      · rfl
    · rfl
  · rfl

theorem degraded_finish (c : Control) (id : Nat) : (c.step (.finish id)).degraded = c.degraded := by
  rw [Control.step]
  split
  · split
    · rfl
    · rfl
    · rfl
  · rfl

theorem degraded_leave (c : Control) (id : Nat) (doneCleanly : Bool) :
    (c.step (.leave id doneCleanly)).degraded = true ↔ c.degraded = true ∧
      ¬ ∃ l, c.loop? id = some l ∧ l.phase = .running ∧
        ¬ (doneCleanly = true ∧ c.handle = some l.id) := by
  rw [Control.step]
  cases hl : c.loop? id with
  | none => simp
  | some l =>
    dsimp only
    by_cases hphase : l.phase = .running
    · rw [if_pos hphase, Control.leave]
      by_cases hstays : doneCleanly = true ∧ c.handle = some l.id
      · rw [if_pos hstays]
        simp [hphase, hstays]
      · rw [if_neg hstays]
        exact iff_of_false Bool.false_ne_true fun h => h.2 ⟨l, rfl, hphase, hstays⟩
    · rw [if_neg hphase]
      simp [hphase]

theorem marked_startWatch (env : OperatorEnv) (t : String) : (startWatch s env t).1.marked = s.marked := by
  obtain heq | ⟨r, -, -, heq | heq⟩ := startWatch_eq s env t
  · rw [heq]
  · rw [heq]
    exact marked_update (s.control_watch t .start) rfl
  · rw [heq]
    rfl

theorem marked_registerSession (env : OperatorEnv) (r : Registration) :
    (registerSession s env r).1.marked = s.marked := by
  obtain heq | ⟨record, redis, -, -, -, -, heq | heq⟩ := registerSession_eq s env r
  · rw [heq]
  · rw [heq]
    rfl
  · rw [heq]
    rfl

theorem marked_operatorLoadSession (t : String) : (operatorLoadSession s t).1.marked = s.marked := by
  obtain heq | ⟨r, -, -, heq⟩ := operatorLoadSession_eq s t
  · rw [heq]
  · rw [heq]
    rfl

theorem marked_registerAnnotator (env : OperatorEnv) (annotatorId : String)
    (allowedTenantIds : List String) (maxClaims : UInt32) :
    (registerAnnotator s env annotatorId allowedTenantIds maxClaims).1.marked = s.marked := by
  rw [registerAnnotator]
  split
  · rfl
  · rfl

theorem marked_deleteSession (env : OperatorEnv) (t : String) (force : Bool) :
    (deleteSession s env t force).1.marked = s.marked := by
  obtain ⟨c, -, hdegraded, ⟨-, _, _, _, _, _, -, heq⟩ | ⟨-, _, _, heq⟩⟩ := deleteSession_eq s env t force
  · rw [heq]
    exact marked_update rfl hdegraded
  · rw [heq]
    exact marked_update rfl hdegraded

theorem mem_marked_done (env : OperatorEnv) (t sid : String) :
    sid ∈ (done s env t).1.marked ↔
      sid ∈ s.marked ∧ ¬ (t = sid ∧ (s.control t).handle = none ∧ ∃ r, s.server.redis.get t = .ok r) := by
  rw [done]
  have hstep : (s.control t).step .done = (s.control t).done := rfl
  cases hhandle : (s.control t).handle with
  | some id =>
    have hkept : (s.watch t .done).marked = s.marked := by
      refine marked_update (s.control_watch t .done) ?_
      rw [hstep, Control.done, hhandle]
    rw [hkept]
    exact (and_iff_left fun h => by cases h.2.1).symm
  | none =>
    cases hr : s.server.redis.get t with
    | error e => exact (and_iff_left fun h => by obtain ⟨r, hr⟩ := h.2.2; cases hr).symm
    | ok r =>
      dsimp only
      rw [marked_congr (System.control_setStatus _ t _), mem_marked_update (s.control_watch t .done),
        hstep, Control.done, hhandle]
      split
      case isTrue h => exact iff_of_false Bool.false_ne_true fun hmem => hmem.2 ⟨h.symm, rfl, r, rfl⟩
      case isFalse h => exact (and_iff_left fun hmem => h hmem.1.symm).symm

theorem marked_connectLoop (t : String) (id : Nat) (connected : Bool) :
    (connectLoop s t id connected).marked = s.marked := by
  have hwatch : (s.watch t (.connect id connected)).marked = s.marked :=
    marked_update (s.control_watch t _) (degraded_connect _ id connected)
  obtain heq | ⟨_, -, -, ⟨-, heq⟩ | ⟨-, heq⟩⟩ := connectLoop_eq s t id connected
  · rw [heq]
  · rw [heq]
    exact hwatch
  · rw [heq]
    exact hwatch

theorem mem_marked_leave (t : String) (id : Nat) (doneCleanly : Bool) (sid : String) :
    sid ∈ (s.watch t (.leave id doneCleanly)).marked ↔
      sid ∈ s.marked ∧ ¬ Forgets s (.leave t id doneCleanly) sid := by
  rw [mem_marked_update (s.control_watch t _), degraded_leave, Forgets, mem_marked]
  split
  case isTrue h =>
    subst h
    exact and_congr_right fun _ => not_congr ⟨fun hl => ⟨rfl, hl⟩, And.right⟩
  case isFalse h => exact (and_iff_left fun hforgets => h hforgets.1.symm).symm

theorem marked_finishLoop (t : String) (id : Nat) (renamed : Option String) :
    (finishLoop s t id renamed).marked = s.marked := by
  have hwatch : (s.watch t (.finish id)).marked = s.marked :=
    marked_update (s.control_watch t _) (degraded_finish _ id)
  obtain heq | ⟨l, doneCleanly, -, -, heq⟩ := finishLoop_eq s t id renamed
  · rw [heq]
  rw [heq]
  obtain hset | ⟨path, -, -, hset⟩ := endLoop_eq (s.watch t (.finish id)) t doneCleanly l.wasDegraded renamed
  · rw [hset]
    exact hwatch
  · rw [hset]
    exact hwatch

/-- What else removes the mark of a session is that the session is forgotten. -/
theorem marked_unreported {i : SystemInput} (h : i.report = none) (sid : String) :
    sid ∈ (s.step i).marked ↔ sid ∈ s.marked ∧ ¬ Forgets s i sid := by
  have hkept : (s.step i).marked = s.marked → (∀ t, ¬ Forgets s i t) →
      (sid ∈ (s.step i).marked ↔ sid ∈ s.marked ∧ ¬ Forgets s i sid) := fun hmarked hforgets => by
    rw [hmarked]
    exact (and_iff_left (hforgets sid)).symm
  cases i with
  | operator env msg =>
    cases msg with
    | reasoningDegraded _ _ | circuitReset _ => cases h
    | registerSession r => exact hkept (marked_registerSession env r) fun _ => id
    | startWatch t => exact hkept (marked_startWatch env t) fun _ => id
    | done t => exact mem_marked_done env t sid
    | loadSession t => exact hkept (marked_operatorLoadSession t) fun _ => id
    | registerAnnotator annotatorId allowedTenantIds maxClaims =>
      exact hkept (marked_registerAnnotator env annotatorId allowedTenantIds maxClaims) fun _ => id
    | deleteSession t force => exact hkept (marked_deleteSession env t force) fun _ => id
    | _ => exact hkept rfl fun _ => id
  | annotator annotatorId env msg => exact hkept rfl fun _ => id
  | expire t => exact hkept rfl fun _ => id
  | connect t id connected => exact hkept (marked_connectLoop t id connected) fun _ => False.elim
  | leave t id doneCleanly => exact mem_marked_leave t id doneCleanly sid
  | finish t id renamed => exact hkept (marked_finishLoop t id renamed) fun _ => False.elim

end Marks

section Exact

variable {w : Gauged}

open Gauged

theorem gaugeChange_reported {i : SystemInput} {sid : String} {degraded : Bool}
    (h : i.report = some (sid, degraded)) : i.gaugeChange = if degraded then 1 else -1 := by
  rw [SystemInput.gaugeChange, h]
  cases degraded with
  | true => rfl
  | false => rfl

theorem gaugeChange_unreported {i : SystemInput} (h : i.report = none) : i.gaugeChange = 0 := by
  rw [SystemInput.gaugeChange, h]

/-- A report neither starts nor ends a capture. -/
theorem left_reported {i : SystemInput} {sid : String} {degraded : Bool}
    (h : i.report = some (sid, degraded)) : (w.step i).left = w.left := by
  cases i with
  | operator env msg =>
    cases msg with
    | reasoningDegraded _ _ | circuitReset _ =>
      ext t
      exact ⟨fun hleft => hleft.elim False.elim And.left, fun hleft => .inr ⟨hleft, id⟩⟩
    | _ => cases h
  | _ => cases h

/-- The gauges stay exact if the number of marks changes as they do. -/
theorem exact_step (h : w.Exact) (i : SystemInput)
    (hcount : (w.system.marked.ncard : Int) + i.gaugeChange = (w.system.step i).marked.ncard)
    (hfinite : (w.system.step i).marked.Finite)
    (hleft : ∀ sid ∈ (w.step i).left, sid ∉ (w.system.step i).marked) : (w.step i).Exact where
  finite := hfinite
  vlmCircuitBreakerOpen := (congrArg (· + i.gaugeChange) h.vlmCircuitBreakerOpen).trans hcount
  sessionsReasoningDegraded := (congrArg (· + i.gaugeChange) h.sessionsReasoningDegraded).trans hcount
  nonneg := by
    have hgauge := (congrArg (· + i.gaugeChange) h.sessionsReasoningDegraded).trans hcount
    exact (Int.natCast_nonneg _).trans_eq hgauge.symm
  left := hleft

theorem count_step (h : w.Exact) {i : SystemInput} (h' : (w.step i).Exact) :
    (w.system.marked.ncard : Int) + i.gaugeChange = (w.system.step i).marked.ncard := by
  rw [← h.vlmCircuitBreakerOpen]
  exact h'.vlmCircuitBreakerOpen

theorem exact_opened {i : SystemInput} {sid : String} (h : w.Exact) (hi : i.report = some (sid, true)) :
    (w.step i).Exact ↔ sid ∉ w.system.marked ∧ sid ∉ w.left := by
  have hmarked : (w.system.step i).marked = insert sid w.system.marked := marked_reported hi
  have hchange : i.gaugeChange = 1 := gaugeChange_reported hi
  constructor
  · intro h'
    have hcount := count_step h h'
    rw [hchange, hmarked] at hcount
    have hmem : sid ∈ (w.system.step i).marked := hmarked ▸ Set.mem_insert sid _
    refine ⟨fun hsid => ?_, fun hsid => ?_⟩
    · rw [Set.insert_eq_of_mem hsid] at hcount
      omega
    · rw [← left_reported hi] at hsid
      exact h'.left sid hsid hmem
  · rintro ⟨hnew, hstays⟩
    refine exact_step h i ?_ ?_ fun t ht => ?_
    · rw [hchange, hmarked, Set.ncard_insert_of_notMem hnew h.finite]
      omega
    · rw [hmarked]
      exact h.finite.insert sid
    · rw [left_reported hi] at ht
      rw [hmarked, Set.mem_insert_iff, not_or]
      exact ⟨fun hsame => hstays (hsame ▸ ht), h.left t ht⟩

theorem exact_closed {i : SystemInput} {sid : String} (h : w.Exact) (hi : i.report = some (sid, false)) :
    (w.step i).Exact ↔ sid ∈ w.system.marked := by
  have hmarked : (w.system.step i).marked = w.system.marked \ {sid} := marked_reported hi
  have hchange : i.gaugeChange = -1 := gaugeChange_reported hi
  constructor
  · intro h'
    have hcount := count_step h h'
    rw [hchange, hmarked] at hcount
    by_contra hsid
    rw [Set.sdiff_singleton_eq_self hsid] at hcount
    omega
  · intro hsid
    refine exact_step h i ?_ ?_ fun t ht => ?_
    · rw [hchange, hmarked]
      have hcard := Set.ncard_sdiff_singleton_add_one hsid h.finite
      omega
    · rw [hmarked]
      exact h.finite.sdiff
    · rw [left_reported hi] at ht
      rw [hmarked]
      exact fun hmem => h.left t ht hmem.1

theorem exact_unreported {i : SystemInput} (h : w.Exact) (hi : i.report = none) :
    (w.step i).Exact ↔ ∀ sid ∈ w.system.marked, ¬ Forgets w.system i sid ∧ ¬ Ends w.system i sid := by
  have hchange := gaugeChange_unreported hi
  have hsubset : (w.system.step i).marked ⊆ w.system.marked := fun sid hsid =>
    ((marked_unreported hi sid).mp hsid).1
  constructor
  · intro h' sid hsid
    have hcount := count_step h h'
    rw [hchange, add_zero, Int.natCast_inj] at hcount
    have hsame := Set.eq_of_subset_of_ncard_le hsubset hcount.le h.finite
    have hmem : sid ∈ (w.system.step i).marked := hsame.symm ▸ hsid
    exact ⟨((marked_unreported hi sid).mp hmem).2, fun hends => h'.left sid (.inl hends) hmem⟩
  · intro hkeeps
    have hsame : (w.system.step i).marked = w.system.marked := by
      refine hsubset.antisymm fun sid hsid => ?_
      exact (marked_unreported hi sid).mpr ⟨hsid, (hkeeps sid hsid).1⟩
    refine exact_step h i ?_ ?_ fun sid hleft hsid => ?_
    · rw [hchange, add_zero, hsame]
    · rw [hsame]
      exact h.finite
    · rw [hsame] at hsid
      obtain hends | ⟨hleft, -⟩ := hleft
      · exact (hkeeps sid hsid).2 hends
      · exact h.left sid hleft hsid

theorem exact_start (server : Server) : (Gauged.start server).Exact := by
  have hempty : (Gauged.start server).system.marked = ∅ :=
    Set.eq_empty_of_forall_notMem fun _ => Bool.false_ne_true
  constructor
  · rw [hempty]
    exact Set.finite_empty
  · rw [hempty, Set.ncard_empty]
    rfl
  · rw [hempty, Set.ncard_empty]
    rfl
  · exact le_rfl
  · exact fun _ hsid => absurd hsid (Set.notMem_empty _)

/-- The gauges of a run are exact exactly as long as every report of a circuit breaker
changes a mark, of a session in capture, and no marked session is forgotten or leaves
capture. -/
theorem exact_iff_inTurn (server : Server) (is : List SystemInput) :
    Along Gauged.step (fun _ _ w' => w'.Exact) (Gauged.start server) is ↔
      Guarded Gauged.step InTurn (Gauged.start server) is := by
  refine along_iff_guarded (fun w i h => ?_) (Gauged.start server) is (exact_start server)
  rw [InTurn]
  split
  case h_1 hi => exact exact_opened h hi
  case h_2 hi => exact exact_closed h hi
  case h_3 hi => exact exact_unreported h hi

end Exact

/-- An outage of the reasoning model lasts until the recording is finished. -/
def degradedRecording : List SystemInput :=
  [.operator lifecycleEnv (.registerSession ⟨"automated", "demo", none, none, "", ""⟩),
    .operator lifecycleEnv (.startWatch "s1"), .connect "s1" 0 true,
    .operator lifecycleEnv (.reasoningDegraded "s1" 1), .operator lifecycleEnv (.done "s1"),
    .leave "s1" 0 true]

/-- The loop forgets the mark of its session, and the gauges keep it. -/
theorem degradedRecording_not_exact :
    ¬ Along Gauged.step (fun _ _ w' => w'.Exact) (.start (sampleServer [])) degradedRecording := by
  rintro ⟨-, -, -, -, hdone, hleave, -⟩
  have hkeeps := (exact_unreported hdone rfl).mp hleave "s1" (mem_marked.mpr (by decide +kernel))
  refine hkeeps.1 ⟨rfl, ⟨0, .running, false⟩, ?_, rfl, ?_⟩
  · decide +kernel
  · decide +kernel

end MemoryArchive.Ipc
