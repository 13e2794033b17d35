import Mathlib.Data.List.Nodup
import MemoryArchive.Capture.Session
import MemoryArchive.Data.Runs

namespace MemoryArchive.Capture

/-- A watch loop without what it records. A loop that leaves notes whether its
session was degraded. -/
structure LoopControl where
  id : Nat
  phase : Phase
  wasDegraded : Bool
  deriving DecidableEq

/-- How the watch loops of a session stand: what StartWatch, Done and the registry
see of them. -/
structure Control where
  loops : List LoopControl
  handle : Option Nat
  nextLoop : Nat
  degraded : Bool
  deriving DecidableEq

namespace Control

def idle : Control := ⟨[], none, 0, false⟩

def loop? (c : Control) (id : Nat) : Option LoopControl := c.loops.find? fun l => l.id = id

def setLoop (c : Control) (l : LoopControl) : Control :=
  { c with loops := c.loops.map fun k => if k.id = l.id then l else k }

def dropLoop (c : Control) (id : Nat) : Control :=
  { c with loops := c.loops.filter fun l => l.id ≠ id }

def startWatch (c : Control) : Control :=
  { c with loops := c.loops ++ [⟨c.nextLoop, .connecting, false⟩], nextLoop := c.nextLoop + 1 }

def connect (c : Control) (l : LoopControl) (connected : Bool) : Control :=
  if connected then { c with handle := some l.id }.setLoop { l with phase := .running }
  else c.dropLoop l.id

def leave (c : Control) (l : LoopControl) (doneCleanly : Bool) : Control :=
  if doneCleanly ∧ c.handle = some l.id then c
  else { c with degraded := false }.setLoop ⟨l.id, .leaving doneCleanly, c.degraded⟩

def finish (c : Control) (l : LoopControl) : Control := { c with handle := none }.dropLoop l.id

/-- Done signals the loop of its handle. Without one it forgets the session. -/
def done (c : Control) : Control :=
  match c.handle with
  | some _ => { c with handle := none }
  | none => { c with degraded := false }

end Control

/-- A step of the watch loops of a session. -/
inductive Watch
  | start
  | connect (id : Nat) (connected : Bool)
  | leave (id : Nat) (doneCleanly : Bool)
  | finish (id : Nat)
  | done
  deriving DecidableEq

def Control.step (c : Control) : Watch → Control
  | .start => c.startWatch
  | .connect id connected =>
      match c.loop? id with
      | some l => if l.phase = .connecting then c.connect l connected else c
      | none => c
  | .leave id doneCleanly =>
      match c.loop? id with
      | some l => if l.phase = .running then c.leave l doneCleanly else c
      | none => c
  | .finish id =>
      match c.loop? id with
      | some l =>
          match l.phase with
          | .leaving _ => c.finish l
          | .connecting | .running => c
      | none => c
  | .done => c.done

theorem Control.loop?_id {c : Control} {id : Nat} {l : LoopControl} (h : c.loop? id = some l) :
    l.id = id := by
  simpa using List.find?_some h

theorem Control.step_connect {c : Control} {id : Nat} {l : LoopControl} (hl : c.loop? id = some l)
    (hphase : l.phase = .connecting) (connected : Bool) :
    c.step (.connect id connected) = c.connect l connected := by
  simp only [Control.step, hl, if_pos hphase]

theorem Control.step_finish {c : Control} {id : Nat} {l : LoopControl} {doneCleanly : Bool}
    (hl : c.loop? id = some l) (hphase : l.phase = .leaving doneCleanly) :
    c.step (.finish id) = c.finish l := by
  simp only [Control.step, hl, hphase]

/-- The step of the watch loops in an input of a session. -/
def Input.watch (s : Session) : Input → Option Watch
  | .startWatch => if s.registered ∧ s.stored.isSome then some .start else none
  | .connect id connected _ => some (.connect id connected)
  | .leave id doneCleanly => some (.leave id doneCleanly)
  | .finish id _ _ => some (.finish id)
  | .done _ => if s.handle.isSome ∨ s.registered then some .done else none
  | .event _ _ | .reasoningResult _ _ => none

/-- The loops have ids of their own, from which the next one differs. -/
structure Control.Distinct (c : Control) : Prop where
  nodup : (c.loops.map LoopControl.id).Nodup
  below : ∀ k ∈ c.loops, k.id < c.nextLoop

namespace Control.Distinct

variable {c : Control}

theorem idle : Control.idle.Distinct := ⟨List.nodup_nil, by simp [Control.idle]⟩

theorem setLoop (h : c.Distinct) (k : LoopControl) : (c.setLoop k).Distinct := by
  have hids : (c.setLoop k).loops.map LoopControl.id = c.loops.map LoopControl.id := by
    rw [Control.setLoop, List.map_map]
    refine List.map_congr_left fun l _ => ?_
    by_cases hid : l.id = k.id <;> simp [hid]
  refine ⟨hids ▸ h.nodup, fun l hl => ?_⟩
  have hmem : l.id ∈ c.loops.map LoopControl.id := hids ▸ List.mem_map_of_mem hl
  obtain ⟨l', hl', he⟩ := List.mem_map.mp hmem
  exact he ▸ h.below l' hl'

theorem dropLoop (h : c.Distinct) (id : Nat) : (c.dropLoop id).Distinct where
  nodup := h.nodup.sublist (List.filter_sublist.map _)
  below k hk := h.below k (List.mem_of_mem_filter hk)

theorem startWatch (h : c.Distinct) : c.startWatch.Distinct where
  nodup := by
    rw [Control.startWatch, List.map_append]
    refine List.Nodup.append h.nodup (List.nodup_singleton _) ?_
    rw [List.map_cons, List.map_nil, List.disjoint_singleton]
    intro hmem
    obtain ⟨k, hk, he⟩ := List.mem_map.mp hmem
    exact (h.below k hk).ne he
  below k hk := by
    obtain hk | hk := List.mem_append.mp hk
    · exact (h.below k hk).trans (Nat.lt_succ_self _)
    · obtain rfl := List.mem_singleton.mp hk
      exact Nat.lt_succ_self _

theorem step (h : c.Distinct) (w : Watch) : (c.step w).Distinct := by
  cases w with
  | start => exact h.startWatch
  | connect id connected =>
    unfold Control.step
    dsimp only
    split
    · rename_i l _
      split
      · unfold Control.connect
        split
        · have hhandle : ({ c with handle := some l.id } : Control).Distinct := ⟨h.nodup, h.below⟩
          exact hhandle.setLoop _
        · exact h.dropLoop _
      · exact h
    · exact h
  | leave id doneCleanly =>
    unfold Control.step
    dsimp only
    split
    · split
      · unfold Control.leave
        split
        · exact h
        · have hreset : ({ c with degraded := false } : Control).Distinct := ⟨h.nodup, h.below⟩
          exact hreset.setLoop _
      · exact h
    · exact h
  | finish id =>
    unfold Control.step
    dsimp only
    split
    · split
      · have hhandle : ({ c with handle := none } : Control).Distinct := ⟨h.nodup, h.below⟩
        exact hhandle.dropLoop _
      · exact h
      · exact h
    · exact h
  | done =>
    unfold Control.step Control.done
    dsimp only
    split <;> exact ⟨h.nodup, h.below⟩

end Control.Distinct

/-- With distinct ids only the loop itself has its id. -/
theorem Control.setLoop_self {c : Control} (h : c.Distinct) {k : LoopControl}
    (hk : c.loop? k.id = some k) : c.setLoop k = c := by
  have hmem : k ∈ c.loops := List.mem_of_find?_eq_some hk
  have hloops : (c.loops.map fun l => if l.id = k.id then k else l) = c.loops := by
    refine (List.map_congr_left fun l hl => ?_).trans (List.map_id _)
    by_cases hid : l.id = k.id
    · rw [if_pos hid]
      exact (List.inj_on_of_nodup_map h.nodup hl hmem hid).symm
    · rw [if_neg hid]
      rfl
  rw [Control.setLoop, hloops]

/-- A loop stands as in the control state. -/
def LoopControl.Of (l : WatchLoop) (k : LoopControl) : Prop := l.id = k.id ∧ l.phase = k.phase

/-- The loops of a session stand as in its control state. -/
structure Session.Stands (s : Session) (c : Control) : Prop where
  loops : List.Forall₂ LoopControl.Of s.loops c.loops
  handle : s.handle = c.handle
  nextLoop : s.nextLoop = c.nextLoop
  degraded : s.maps.degraded = c.degraded

variable {ctx : Context} {s : Session} {c : Control}

theorem find?_of {ls : List WatchLoop} {ks : List LoopControl}
    (h : List.Forall₂ LoopControl.Of ls ks) (id : Nat) :
    (ls.find? fun l => l.id = id) = none ∧ (ks.find? fun k => k.id = id) = none ∨
      ∃ l k, (ls.find? fun l => l.id = id) = some l ∧ (ks.find? fun k => k.id = id) = some k ∧
        LoopControl.Of l k := by
  induction h with
  | nil => exact .inl ⟨rfl, rfl⟩
  | @cons l k ls ks hk _ ih =>
    by_cases hid : l.id = id
    · have hid' : k.id = id := hk.1.symm.trans hid
      exact .inr ⟨l, k, by simp [hid], by simp [hid'], hk⟩
    · have hid' : ¬ k.id = id := fun he => hid (hk.1.trans he)
      simpa [hid, hid'] using ih

theorem filter_of {ls : List WatchLoop} {ks : List LoopControl}
    (h : List.Forall₂ LoopControl.Of ls ks) (id : Nat) :
    List.Forall₂ LoopControl.Of (ls.filter fun l => l.id ≠ id) (ks.filter fun k => k.id ≠ id) := by
  refine List.rel_filter (fun l k hk => ?_) h
  simp [hk.1]

theorem stands_setLoop {l : WatchLoop} {k : LoopControl} (h : s.Stands c) (hk : LoopControl.Of l k) :
    (s.setLoop l).Stands (c.setLoop k) := by
  refine ⟨?_, h.handle, h.nextLoop, h.degraded⟩
  refine List.forall₂_map_left_iff.mpr (List.forall₂_map_right_iff.mpr (h.loops.imp ?_))
  intro l' k' hk'
  by_cases hid : l'.id = l.id
  · have hid' : k'.id = k.id := hk'.1.symm.trans (hid.trans hk.1)
    rwa [if_pos hid, if_pos hid']
  · have hid' : k'.id ≠ k.id := fun he => hid (hk'.1.trans (he.trans hk.1.symm))
    rwa [if_neg hid, if_neg hid']

theorem stands_dropLoop (h : s.Stands c) (id : Nat) : (s.dropLoop id).Stands (c.dropLoop id) :=
  ⟨filter_of h.loops id, h.handle, h.nextLoop, h.degraded⟩

/-- A step that finds its loop finds it on both sides. -/
theorem stands_at_loop {s' : WatchLoop → Session} {c' : LoopControl → Control} (h : s.Stands c)
    (id : Nat) (hstep : ∀ l k, LoopControl.Of l k → (s' l).Stands (c' k)) :
    (match s.loop? id with
      | some l => s' l
      | none => s).Stands
      (match c.loop? id with
      | some k => c' k
      | none => c) := by
  obtain ⟨hl, hk⟩ | ⟨l, k, hl, hk, hof⟩ := find?_of h.loops id
  · rw [Session.loop?, Control.loop?, hl, hk]
    exact h
  · rw [Session.loop?, Control.loop?, hl, hk]
    exact hstep l k hof

theorem stands_startWatch (ctx : Context) (h : s.Stands c) :
    (s.startWatch ctx).Stands
      (if s.registered ∧ s.stored.isSome then c.startWatch else c) := by
  unfold Session.startWatch
  by_cases hr : s.registered = true
  · cases hm : s.stored with
    | none =>
      rw [if_pos hr, if_neg (by simp)]
      exact h
    | some m =>
      rw [if_pos hr, if_pos ⟨hr, rfl⟩]
      have hnew : LoopControl.Of ⟨s.nextLoop, .connecting, m, 0, .new ctx.isCloudPrimary⟩
          ⟨c.nextLoop, .connecting, false⟩ := ⟨h.nextLoop, rfl⟩
      exact ⟨List.rel_append h.loops (.cons hnew .nil), h.handle,
        congrArg (· + 1) h.nextLoop, h.degraded⟩
  · rw [if_neg hr, if_neg fun hc => hr hc.1]
    exact h

theorem stands_connect {l : WatchLoop} {k : LoopControl} (h : s.Stands c) (hof : LoopControl.Of l k)
    (connected flushed : Bool) : (s.connect l connected flushed).Stands (c.connect k connected) := by
  unfold Session.connect Control.connect
  cases connected with
  | true =>
    refine stands_setLoop ⟨h.loops, congrArg some hof.1, h.nextLoop, h.degraded⟩ ?_
    exact ⟨hof.1, rfl⟩
  | false =>
    rw [if_neg (by simp), if_neg (by simp), hof.1]
    exact stands_dropLoop h k.id

theorem stands_flushIfDue (ctx : Context) (l : WatchLoop) (h : s.Stands c) (flushed : Bool) :
    (s.flushIfDue ctx l flushed).2.1.Stands c := by
  unfold Session.flushIfDue
  dsimp only
  split
  · exact ⟨h.loops, h.handle, h.nextLoop, h.degraded⟩
  · exact h

theorem stands_leave {l : WatchLoop} {k : LoopControl} (h : s.Stands c) (hof : LoopControl.Of l k)
    (doneCleanly : Bool) : (s.leave l doneCleanly).Stands (c.leave k doneCleanly) := by
  unfold Session.leave Control.leave
  by_cases hstays : doneCleanly ∧ c.handle = some k.id
  · rw [if_pos hstays, if_pos ⟨hstays.1, by rw [h.handle, hof.1, hstays.2]⟩]
    exact h
  · rw [if_neg hstays, if_neg fun hc => hstays ⟨hc.1, by rw [← h.handle, ← hof.1, hc.2]⟩]
    refine stands_setLoop ⟨h.loops, h.handle, h.nextLoop, rfl⟩ ?_
    exact ⟨hof.1, rfl⟩

theorem stands_finish {l : WatchLoop} {k : LoopControl} (h : s.Stands c) (hof : LoopControl.Of l k)
    (doneCleanly : Bool) (fault : Option Nat) (flushed : Bool) :
    (s.finish ctx l doneCleanly fault flushed).Stands (c.finish k) := by
  unfold Session.finish Control.finish
  dsimp only
  rw [hof.1]
  refine stands_dropLoop ?_ k.id
  split
  · exact ⟨h.loops, rfl, h.nextLoop, h.degraded⟩
  · split
    · exact ⟨h.loops, rfl, h.nextLoop, h.degraded⟩
    · exact ⟨h.loops, rfl, h.nextLoop, h.degraded⟩

theorem stands_done (ctx : Context) (h : s.Stands c) (input : DoneInput) :
    (s.done ctx input).Stands (if s.handle.isSome ∨ s.registered then c.done else c) := by
  unfold Session.done Control.done
  rw [h.handle]
  cases hh : c.handle with
  | some id => exact ⟨h.loops, rfl, h.nextLoop, h.degraded⟩
  | none =>
    by_cases hr : s.registered = true
    · rw [if_pos hr, if_pos (.inr hr)]
      exact ⟨h.loops, h.handle.trans hh, h.nextLoop, rfl⟩
    · rw [if_neg hr, if_neg (by simpa using hr)]
      exact h

/-- An event leaves its loop where it is. -/
theorem stands_event {l : WatchLoop} {k : LoopControl} (h : s.Stands c) (hd : c.Distinct)
    (hk : c.loop? k.id = some k) (hof : LoopControl.Of l k) (input : EventInput) :
    (s.event ctx l input).Stands c := by
  have hself : ∀ (s' : Session) (l' : WatchLoop), s'.Stands c → LoopControl.Of l' k →
      (s'.setLoop l').Stands c := by
    intro s' l' hs' hof'
    have hset := stands_setLoop hs' hof'
    rwa [Control.setLoop_self hd hk] at hset
  unfold Session.event
  dsimp only
  split
  · exact hself s _ h hof
  split
  · exact hself _ _ ⟨h.loops, h.handle, h.nextLoop, h.degraded⟩ hof
  · rename_i writer files step _
    have hfiles : Session.Stands { s with files := files } c :=
      ⟨h.loops, h.handle, h.nextLoop, h.degraded⟩
    refine hself _ _ ?_ ?_
    · have hdue := fun l => stands_flushIfDue ctx l hfiles input.flushed
      exact ⟨(hdue _).loops, (hdue _).handle, (hdue _).nextLoop, (hdue _).degraded⟩
    · unfold Session.flushIfDue
      dsimp only
      split <;> exact hof

/-- A session takes its inputs as its control state takes their watch steps. -/
theorem stands_step (ctx : Context) (h : s.Stands c) (hd : c.Distinct) (i : Input) :
    (s.step ctx i).Stands ((i.watch s).elim c c.step) := by
  cases i with
  | startWatch =>
    have hstart := stands_startWatch ctx h
    by_cases hc : s.registered ∧ s.stored.isSome
    · rw [if_pos hc] at hstart
      rw [Input.watch, if_pos hc]
      exact hstart
    · rw [if_neg hc] at hstart
      rw [Input.watch, if_neg hc]
      exact hstart
  | connect id connected flushed =>
    refine stands_at_loop h id fun l k hof => ?_
    rw [hof.2]
    split
    · exact stands_connect h hof connected flushed
    · exact h
  | event id input =>
    simp only [Session.step]
    split
    · rename_i l hl
      split
      · obtain ⟨hnone, -⟩ | ⟨l', k, hl', hk, hof⟩ := find?_of h.loops id
        · rw [Session.loop?, hnone] at hl
          cases hl
        · rw [Session.loop?, hl'] at hl
          cases hl
          have hid : k.id = id := by simpa using List.find?_some hk
          exact stands_event h hd (by rw [hid]; exact hk) hof input
      · exact h
    · exact h
  | leave id doneCleanly =>
    refine stands_at_loop h id fun l k hof => ?_
    rw [hof.2]
    split
    · exact stands_leave h hof doneCleanly
    · exact h
  | finish id fault flushed =>
    refine stands_at_loop h id fun l k hof => ?_
    rw [hof.2]
    cases k.phase with
    | leaving doneCleanly => exact stands_finish h hof doneCleanly fault flushed
    | connecting => exact h
    | running => exact h
  | done input =>
    have hdone := stands_done ctx h input
    by_cases hc : s.handle.isSome ∨ s.registered
    · rw [if_pos hc] at hdone
      rw [Input.watch, if_pos hc]
      exact hdone
    · rw [if_neg hc] at hdone
      rw [Input.watch, if_neg hc]
      exact hdone
  | reasoningResult r written =>
    simp only [Session.step, Session.reasoningResult]
    split
    · refine ⟨h.loops, h.handle, h.nextLoop, ?_⟩
      unfold ReasoningMaps.addProviderTokens
      split <;> exact h.degraded
    · exact h

theorem stands_start (uploaded : Bool) : (Session.start uploaded).Stands .idle :=
  ⟨.nil, rfl, rfl, rfl⟩

theorem distinct_run (ws : List Watch) : (Runs.run Control.step .idle ws).Distinct := by
  have hstep : ∀ (c : Control) (w : Watch), c.Distinct → True → (c.step w).Distinct :=
    fun _ w h _ => h.step w
  exact Runs.invariant_run hstep Control.idle ws .idle (Runs.guarded_true Control.idle ws)

/-- Every run of a session is a run of its control state. -/
theorem stands_run (ctx : Context) (uploaded : Bool) (is : List Input) :
    ∃ ws : List Watch, (Runs.run (Session.step ctx) (.start uploaded) is).Stands
      (Runs.run Control.step .idle ws) := by
  have hstep : ∀ (s : Session) (i : Input),
      (∃ ws, s.Stands (Runs.run Control.step .idle ws)) → True →
        ∃ ws, (s.step ctx i).Stands (Runs.run Control.step .idle ws) := by
    rintro s i ⟨ws, h⟩ -
    have hnext := stands_step ctx h (distinct_run ws) i
    cases hw : i.watch s with
    | none =>
      rw [hw] at hnext
      exact ⟨ws, hnext⟩
    | some w =>
      rw [hw] at hnext
      refine ⟨ws ++ [w], ?_⟩
      rw [Runs.run, List.foldl_append]
      exact hnext
  exact Runs.invariant_run hstep (.start uploaded) is ⟨[], stands_start uploaded⟩
    (Runs.guarded_true _ is)

end MemoryArchive.Capture
