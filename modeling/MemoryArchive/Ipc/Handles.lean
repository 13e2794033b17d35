import MemoryArchive.Ipc.Operator

namespace MemoryArchive.Ipc

open Registry Runs

/-- How far a watch loop is. A loop that has left finalises its command files and
its metadata, sets the status, removes the done handle and sends its result. -/
inductive Stage
  | connecting
  | ready
  | recording
  | finalising (doneCleanly : Bool)
  | settling (doneCleanly : Bool)
  | releasing
  | reporting
  deriving DecidableEq

structure Watching where
  id : Nat
  stage : Stage
  deriving DecidableEq

/-- A StartWatch or Done that has not been answered. StartWatch waits for its loop
to connect, and undoes its push handle and the status if it does not. Done waits
for the result of the loop whose handle it took; without a handle it finalises
the session itself. -/
inductive Request
  | starting (id : Nat)
  | failed (id : Nat)
  | failing (id : Nat)
  | waiting (id : Nat)
  | finalising
  | settling
  | answering
  deriving DecidableEq

/-- One session as its StartWatch and Done requests and their loops see it. Each
handle is that of a loop. `finalised` says that the command files have been
finalised since the last StartWatch. -/
structure Watches where
  loops : List Watching
  requests : List Request
  handle : Option Nat
  push : Option Nat
  status : SessionStatus
  finalised : Bool
  next : Nat
  deriving DecidableEq

/-- A request comes in, a loop takes a step, or a request that waits goes on. -/
inductive Turn
  | startWatch (admitted : Bool)
  | done (known : Bool)
  | connect (id : Nat) (connected : Bool)
  | insert (id : Nat)
  | leave (id : Nat) (doneCleanly : Bool)
  | exit (id : Nat) (wasDegraded : Bool)
  | serve (k : Nat) (wasDegraded : Bool)

namespace Watches

/-- A registered session that has not been recorded. -/
def start : Watches := ⟨[], [], none, none, .active, false, 0⟩

variable (isCloudPrimary : Bool) (s : Watches)

def loop? (id : Nat) : Option Watching := s.loops.find? fun l => l.id = id

def setStage (id : Nat) (stage : Stage) : Watches :=
  { s with loops := s.loops.map fun l => if l.id = id then ⟨id, stage⟩ else l }

def dropLoop (id : Nat) : Watches := { s with loops := s.loops.filter fun l => l.id ≠ id }

/-- A request goes on, or it has been answered. -/
def setRequest (k : Nat) (r : Option Request) : Watches :=
  { s with requests := s.requests.take k ++ r.toList ++ s.requests.drop (k + 1) }

def startWatch : Watches :=
  { s with
    loops := s.loops ++ [⟨s.next, .connecting⟩]
    requests := s.requests ++ [.starting s.next]
    push := some s.next
    finalised := false
    next := s.next + 1 }

def done (known : Bool) : Watches :=
  match s.handle with
  | some id => { s with handle := none, requests := s.requests ++ [.waiting id] }
  | none => if known then { s with requests := s.requests ++ [.finalising] } else s

/-- The loop says that it is ready, and its StartWatch is answered; or that it is
not, and ends. -/
def connect (id : Nat) (connected : Bool) : Watches :=
  if connected then
    { s with requests := s.requests.filter (· ≠ Request.starting id) }.setStage id .ready
  else
    { s with requests := s.requests.map fun r => if r = Request.starting id then .failed id else r }.dropLoop id

def exit (id : Nat) (wasDegraded : Bool) : Stage → Watches
  | .connecting | .ready | .recording => s
  | .finalising doneCleanly =>
      { s with finalised := s.finalised || doneCleanly || isCloudPrimary }.setStage id
        (.settling doneCleanly)
  | .settling doneCleanly =>
      { s with status := if doneCleanly then doneStatus wasDegraded else .incomplete }.setStage id
        .releasing
  | .releasing => { s with handle := none }.setStage id .reporting
  | .reporting => s.dropLoop id

def serve (k : Nat) (wasDegraded : Bool) : Request → Watches
  | .starting _ => s
  | .failed id => { s with push := none }.setRequest k (some (.failing id))
  | .failing _ => { s with status := .incomplete }.setRequest k none
  | .waiting id =>
      if (s.loop? id).isNone then { s with push := none }.setRequest k none else s
  | .finalising => { s with finalised := true }.setRequest k (some .settling)
  | .settling => { s with status := doneStatus wasDegraded }.setRequest k (some .answering)
  | .answering => { s with push := none }.setRequest k none

def step (s : Watches) : Turn → Watches
  | .startWatch admitted => if admitted then s.startWatch else s
  | .done known => s.done known
  | .connect id connected =>
      match s.loop? id with
      | some l => if l.stage = .connecting then s.connect id connected else s
      | none => s
  | .insert id =>
      match s.loop? id with
      | some l => if l.stage = .ready then { s with handle := some id }.setStage id .recording else s
      | none => s
  | .leave id doneCleanly =>
      match s.loop? id with
      | some l =>
          -- the done channel of a loop is closed once its handle is out of the map
          if l.stage = .recording ∧ ¬ (doneCleanly ∧ s.handle = some id) then
            s.setStage id (.finalising doneCleanly)
          else s
      | none => s
  | .exit id wasDegraded =>
      match s.loop? id with
      | some l => s.exit isCloudPrimary id wasDegraded l.stage
      | none => s
  | .serve k wasDegraded =>
      match s.requests[k]? with
      | some r => s.serve k wasDegraded r
      | none => s

def Recording : Prop := ∃ l ∈ s.loops, l.stage = .recording

/-- The turn answers a Done with SessionComplete. -/
def Answers : Turn → Prop
  | .serve k _ => (∃ id, s.requests[k]? = some (.waiting id) ∧ s.loop? id = none) ∨
      s.requests[k]? = some .answering
  | _ => False

/-- The turn finalises the command files. -/
def Finalises : Turn → Prop
  | .exit id _ => ∃ l doneCleanly, s.loop? id = some l ∧ l.stage = .finalising doneCleanly ∧
      (doneCleanly || isCloudPrimary) = true
  | .serve k _ => s.requests[k]? = some .finalising
  | _ => False

/-- The turn moves the status to a pending one. -/
def Settles : Turn → Prop
  | .exit id _ => ∃ l, s.loop? id = some l ∧ l.stage = .settling true
  | .serve k _ => s.requests[k]? = some .settling
  | _ => False

/-- A step of a StartWatch that fails. -/
def Fails : Turn → Prop
  | .serve k _ => ∃ id, s.requests[k]? = some (.failed id) ∨ s.requests[k]? = some (.failing id)
  | _ => False

/-- What the requests and loops of a session may do to each other. -/
structure Orderly (s : Watches) (i : Turn) (s' : Watches) : Prop where
  single : s'.loops.length ≤ 1
  answers : s.Answers i → ¬ s.Recording
  finalises : s.Finalises isCloudPrimary i → ¬ s.Recording ∧ s.finalised = false
  settles : s.Settles i → ¬ s.Recording
  inserts : ∀ id l, i = .insert id → s.loop? id = some l → l.stage = .ready → s.handle = none
  leaves : ∀ id l, i = .leave id true → s.loop? id = some l → l.stage = .recording →
    s.handle ≠ some id → .waiting id ∈ s.requests
  fails : s.Fails i → ∀ l ∈ s.loops, l.stage = .recording →
    s'.handle = s.handle ∧ s'.push = some l.id ∧ s'.status = s.status
  releases : ∀ id l wasDegraded, i = .exit id wasDegraded → s.loop? id = some l →
    l.stage = .releasing → s.handle = none ∨ s.handle = some id

/-- StartWatch comes when nothing of the session is going on; Done comes while the
done handle is in the map, or for a session without a loop that has not been
finalised since its last StartWatch. -/
def Careful (s : Watches) : Turn → Bool
  | .startWatch admitted => !admitted || (s.loops = [] && s.requests = [])
  | .done known =>
      s.handle.isSome || !known ||
        (s.loops = [] && !s.finalised && !s.requests.contains .finalising)
  | _ => true

/-- The only loop, and what it and its requests rely on. -/
structure Live (s : Watches) (l : Watching) : Prop where
  only : s.loops = [l]
  requests : ∀ r ∈ s.requests, r = .starting l.id ∨ r = .waiting l.id
  handle : s.handle = none ∨ s.handle = some l.id
  stage : match l.stage with
    | .connecting | .ready =>
        s.handle = none ∧ s.finalised = false ∧ s.push = some l.id ∧ .waiting l.id ∉ s.requests
    | .recording =>
        s.finalised = false ∧ s.push = some l.id ∧ (s.handle = none → .waiting l.id ∈ s.requests)
    | .finalising _ => s.finalised = false
    | .settling _ | .releasing => True
    | .reporting => s.handle = none

/-- Without a loop at most one Done finalises the session, if it has not been. -/
structure Idle (s : Watches) : Prop where
  loops : s.loops = []
  handle : s.handle = none
  once : s.requests.count .finalising ≤ 1
  pending : .finalising ∈ s.requests → s.finalised = false

def Tidy (s : Watches) : Prop := s.Idle ∨ ∃ l, s.Live l

section Turns

variable {s : Watches} {l : Watching}

theorem Live.loop?_iff (h : s.Live l) (id : Nat) (k : Watching) :
    s.loop? id = some k ↔ id = l.id ∧ k = l := by
  rw [loop?, h.only]
  simp [eq_comm]

theorem Idle.loop? (h : s.Idle) (id : Nat) : s.loop? id = none := by
  rw [Watches.loop?, h.loops]
  rfl

theorem Idle.not_recording (h : s.Idle) : ¬ s.Recording := by
  rintro ⟨l, hl, -⟩
  rw [h.loops] at hl
  cases hl

theorem Live.recording (h : s.Live l) (hr : s.Recording) : l.stage = .recording := by
  obtain ⟨k, hk, hstage⟩ := hr
  rw [h.only, List.mem_singleton] at hk
  exact hk ▸ hstage

theorem Live.setStage (h : s.Live l) (stage : Stage) :
    (s.setStage l.id stage).loops = [⟨l.id, stage⟩] := by
  rw [Watches.setStage, h.only]
  simp

theorem Live.dropLoop (h : s.Live l) : (s.dropLoop l.id).loops = [] := by
  rw [Watches.dropLoop, h.only]
  simp

theorem Live.request {r : Request} {k : Nat} (h : s.Live l) (hr : s.requests[k]? = some r) :
    r = .starting l.id ∨ r = .waiting l.id :=
  h.requests r (List.mem_of_getElem? hr)

theorem Tidy.single (h : s.Tidy) : s.loops.length ≤ 1 := by
  obtain h | ⟨l, h⟩ := h
  · rw [h.loops]
    exact Nat.zero_le 1
  · rw [h.only]
    exact le_refl 1

theorem tidy_start : start.Tidy := .inl ⟨rfl, rfl, Nat.zero_le 1, fun h => by cases h⟩

theorem tidy_startWatch (hloops : s.loops = []) (hrequests : s.requests = []) (hhandle : s.handle = none) :
    s.startWatch.Tidy := by
  refine .inr ⟨⟨s.next, .connecting⟩, ?_, fun r hr => ?_, .inl hhandle, hhandle, rfl, rfl, ?_⟩
  · rw [Watches.startWatch, hloops]
    rfl
  · rw [Watches.startWatch, hrequests] at hr
    exact .inl (List.mem_singleton.mp hr)
  · rw [Watches.startWatch, hrequests]
    simp

theorem tidy_done (h : s.Tidy) (known : Bool) (hi : s.Careful (.done known) = true) :
    (s.done known).Tidy := by
  rw [done]
  obtain h | ⟨l, h⟩ := h
  · rw [h.handle]
    cases known with
    | false => exact .inl h
    | true =>
      rw [Careful, h.handle] at hi
      simp only [Option.isSome_none, Bool.not_true, Bool.false_or, Bool.and_eq_true, decide_eq_true_eq,
        Bool.not_eq_true', List.contains_eq_mem, decide_eq_false_iff_not] at hi
      obtain ⟨⟨-, hfinalised⟩, hnone⟩ := hi
      dsimp only
      rw [if_pos rfl]
      refine .inl ⟨h.loops, rfl, ?_, fun _ => hfinalised⟩
      rw [List.count_append, List.count_eq_zero_of_not_mem hnone]
      decide
  · obtain hhandle | hhandle := h.handle
    · rw [hhandle]
      cases known with
      | false => exact .inr ⟨l, h⟩
      | true =>
        rw [Careful, hhandle, h.only] at hi
        simp at hi
    · rw [hhandle]
      have hstage := h.stage
      refine .inr ⟨l, h.only, fun r hr => ?_, .inl rfl, ?_⟩
      · obtain hr | hr := List.mem_append.mp hr
        · exact h.requests r hr
        · exact .inr (List.mem_singleton.mp hr)
      · cases hl : l.stage with
        | connecting | ready =>
          rw [hl] at hstage
          cases hstage.1.symm.trans hhandle
        | recording =>
          rw [hl] at hstage
          exact ⟨hstage.1, hstage.2.1, fun _ => List.mem_append_right _ List.mem_cons_self⟩
        | finalising doneCleanly =>
          rw [hl] at hstage
          exact hstage
        | settling _ => trivial
        | releasing => trivial
        | reporting => rfl

theorem tidy_connect (h : s.Live l) (hstage : l.stage = .connecting) (connected : Bool) :
    (s.connect l.id connected).Tidy := by
  have hrest := h.stage
  rw [hstage] at hrest
  obtain ⟨hhandle, hfinalised, hpush, hwaiting⟩ := hrest
  cases connected with
  | true =>
    have hnone : ∀ r ∈ s.requests.filter (· ≠ Request.starting l.id), False := by
      intro r hr
      obtain ⟨hr, hne⟩ := List.mem_filter.mp hr
      obtain rfl | rfl := h.requests r hr
      · simp at hne
      · exact hwaiting hr
    refine .inr ⟨⟨l.id, .ready⟩, ?_, fun r hr => (hnone r hr).elim, .inl hhandle, hhandle, hfinalised,
      hpush, fun hr => hnone _ hr⟩
    rw [Watches.connect, if_pos rfl, Watches.setStage, h.only]
    simp
  | false =>
    have hfailed : ∀ r ∈ s.requests.map fun r => if r = Request.starting l.id then .failed l.id else r,
        r ≠ .finalising := by
      intro r hr
      obtain ⟨r', hr', rfl⟩ := List.mem_map.mp hr
      obtain rfl | rfl := h.requests r' hr'
      · simp
      · simp
    refine .inl ⟨?_, hhandle, ?_, fun hr => absurd rfl (hfailed _ hr)⟩
    · rw [Watches.connect, if_neg Bool.false_ne_true, Watches.dropLoop, h.only]
      simp
    · rw [Watches.connect, if_neg Bool.false_ne_true]
      refine le_of_eq_of_le (List.count_eq_zero_of_not_mem fun hr => hfailed _ hr rfl) (Nat.zero_le 1)

theorem tidy_insert (h : s.Live l) (hstage : l.stage = .ready) :
    ({ s with handle := some l.id }.setStage l.id .recording).Tidy := by
  have hrest := h.stage
  rw [hstage] at hrest
  obtain ⟨-, hfinalised, hpush, -⟩ := hrest
  refine .inr ⟨⟨l.id, .recording⟩, ?_, h.requests, .inr rfl, hfinalised, hpush, fun hh => by cases hh⟩
  rw [Watches.setStage, h.only]
  simp

theorem tidy_leave (h : s.Live l) (hstage : l.stage = .recording) (doneCleanly : Bool) :
    (s.setStage l.id (.finalising doneCleanly)).Tidy := by
  have hrest := h.stage
  rw [hstage] at hrest
  exact .inr ⟨⟨l.id, .finalising doneCleanly⟩, h.setStage _, h.requests, h.handle, hrest.1⟩

theorem tidy_exit (isCloudPrimary : Bool) (h : s.Live l) (wasDegraded : Bool) :
    (s.exit isCloudPrimary l.id wasDegraded l.stage).Tidy := by
  have hrest := h.stage
  cases hstage : l.stage with
  | connecting | ready | recording => exact .inr ⟨l, h⟩
  | finalising doneCleanly =>
    refine .inr ⟨⟨l.id, .settling doneCleanly⟩, ?_, h.requests, h.handle, trivial⟩
    rw [Watches.exit, Watches.setStage, h.only]
    simp
  | settling doneCleanly =>
    refine .inr ⟨⟨l.id, .releasing⟩, ?_, h.requests, h.handle, trivial⟩
    rw [Watches.exit, Watches.setStage, h.only]
    simp
  | releasing =>
    refine .inr ⟨⟨l.id, .reporting⟩, ?_, h.requests, .inl rfl, rfl⟩
    rw [Watches.exit, Watches.setStage, h.only]
    simp
  | reporting =>
    rw [hstage] at hrest
    have hnone : Request.finalising ∉ s.requests := by
      intro hr
      obtain hr | hr := h.requests _ hr
      · cases hr
      · cases hr
    exact .inl ⟨h.dropLoop, hrest, (List.count_eq_zero_of_not_mem hnone).trans_le (Nat.zero_le 1),
      fun hr => absurd hr hnone⟩

/-- One request goes on, or it has been answered. -/
theorem Idle.setRequest (h : s.Idle) {k : Nat} {r : Request} (hr : s.requests[k]? = some r)
    {next : Option Request} (hnext : next ≠ some .finalising) {s' : Watches} (hloops : s'.loops = [])
    (hhandle : s'.handle = none)
    (hrequests : s'.requests = s.requests.take k ++ next.toList ++ s.requests.drop (k + 1))
    (hfinalised : r ≠ .finalising → s'.finalised = s.finalised) : s'.Idle := by
  obtain ⟨hk, rfl⟩ := List.getElem?_eq_some_iff.mp hr
  have hsplit : s.requests.take k ++ s.requests[k] :: s.requests.drop (k + 1) = s.requests := by
    rw [← List.drop_eq_getElem_cons hk, List.take_append_drop]
  have hzero : next.toList.count .finalising = 0 := by
    refine List.count_eq_zero_of_not_mem fun hmem => hnext ?_
    exact Option.mem_toList.mp hmem
  have hcount : s'.requests.count .finalising =
      (s.requests.take k).count .finalising + (s.requests.drop (k + 1)).count .finalising := by
    rw [hrequests, List.count_append, List.count_append, hzero, Nat.add_zero]
  have hold : (s.requests.take k).count .finalising + (s.requests.drop (k + 1)).count .finalising +
      (if s.requests[k] = .finalising then 1 else 0) = s.requests.count .finalising := by
    conv => rhs; rw [← hsplit]
    rw [List.count_append, List.count_cons]
    simp [Nat.add_assoc]
  have honce := h.once
  refine ⟨hloops, hhandle, by omega, fun hmem => ?_⟩
  have hpos := List.count_pos_iff.mpr hmem
  by_cases hfin : s.requests[k] = .finalising
  · rw [if_pos hfin] at hold
    omega
  · rw [hfinalised hfin]
    rw [if_neg hfin] at hold
    exact h.pending (List.count_pos_iff.mp (by omega))

theorem idle_serve (h : s.Idle) {k : Nat} {r : Request} (hr : s.requests[k]? = some r)
    (wasDegraded : Bool) : (s.serve k wasDegraded r).Idle := by
  cases r with
  | starting id => exact h
  | failed id => exact h.setRequest hr (by simp) h.loops h.handle rfl fun _ => rfl
  | failing id => exact h.setRequest hr (by simp) h.loops h.handle rfl fun _ => rfl
  | waiting id =>
    rw [serve]
    split
    · exact h.setRequest hr (by simp) h.loops h.handle rfl fun _ => rfl
    · exact h
  | finalising => exact h.setRequest hr (by simp) h.loops h.handle rfl fun hne => absurd rfl hne
  | settling => exact h.setRequest hr (by simp) h.loops h.handle rfl fun _ => rfl
  | answering => exact h.setRequest hr (by simp) h.loops h.handle rfl fun _ => rfl

/-- While a loop lives its requests wait. -/
theorem Live.serve (h : s.Live l) {k : Nat} {r : Request} (hr : s.requests[k]? = some r)
    (wasDegraded : Bool) : s.serve k wasDegraded r = s := by
  obtain rfl | rfl := h.request hr
  · rfl
  · have hloop : s.loop? l.id = some l := (h.loop?_iff l.id l).mpr ⟨rfl, rfl⟩
    rw [Watches.serve, hloop]
    rfl

/-- A turn of a loop finds the only loop, or nothing. -/
theorem tidy_at_loop (h : s.Tidy) (id : Nat) {next : Watching → Watches}
    (hnext : ∀ l, s.Live l → id = l.id → (next l).Tidy) :
    (match s.loop? id with
      | some l => next l
      | none => s).Tidy := by
  split
  · rename_i k hk
    obtain h | ⟨l, h⟩ := h
    · rw [h.loop?] at hk
      cases hk
    · obtain ⟨hid, rfl⟩ := (h.loop?_iff id k).mp hk
      exact hnext k h hid
  · exact h

theorem tidy_step (isCloudPrimary : Bool) (s : Watches) (i : Turn) (h : s.Tidy)
    (hi : s.Careful i = true) : (s.step isCloudPrimary i).Tidy := by
  cases i with
  | startWatch admitted =>
    cases admitted with
    | false => exact h
    | true =>
      rw [Careful, Bool.not_true, Bool.false_or, Bool.and_eq_true, decide_eq_true_eq,
        decide_eq_true_eq] at hi
      obtain ⟨hloops, hrequests⟩ := hi
      obtain h | ⟨l, h⟩ := h
      · exact tidy_startWatch hloops hrequests h.handle
      · rw [h.only] at hloops
        cases hloops
  | done known => exact tidy_done h known hi
  | serve k wasDegraded =>
    rw [step]
    split
    · rename_i r hr
      obtain h | ⟨l, h⟩ := h
      · exact .inl (idle_serve h hr wasDegraded)
      · rw [h.serve hr wasDegraded]
        exact .inr ⟨l, h⟩
    · exact h
  | connect id connected =>
    refine tidy_at_loop h id fun l hl hid => ?_
    subst hid
    split
    · rename_i hstage
      exact tidy_connect hl hstage connected
    · exact h
  | insert id =>
    refine tidy_at_loop h id fun l hl hid => ?_
    subst hid
    split
    · rename_i hstage
      exact tidy_insert hl hstage
    · exact h
  | leave id doneCleanly =>
    refine tidy_at_loop h id fun l hl hid => ?_
    subst hid
    split
    · rename_i hleaves
      exact tidy_leave hl hleaves.1 doneCleanly
    · exact h
  | exit id wasDegraded =>
    refine tidy_at_loop h id fun l hl hid => ?_
    subst hid
    exact tidy_exit isCloudPrimary hl wasDegraded

theorem Idle.orderly (h : s.Idle) (isCloudPrimary : Bool) (i : Turn) {s' : Watches}
    (hsingle : s'.loops.length ≤ 1) : s.Orderly isCloudPrimary i s' where
  single := hsingle
  answers _ := h.not_recording
  finalises hf := by
    refine ⟨h.not_recording, ?_⟩
    cases i with
    | exit id wasDegraded =>
      obtain ⟨l, doneCleanly, hl, -⟩ := hf
      rw [h.loop?] at hl
      cases hl
    | serve k wasDegraded => exact h.pending (List.mem_of_getElem? hf)
    | startWatch _ | done _ | connect _ _ | insert _ | leave _ _ => exact hf.elim
  settles _ := h.not_recording
  inserts id l _ hl := by
    rw [h.loop?] at hl
    cases hl
  leaves id l _ hl := by
    rw [h.loop?] at hl
    cases hl
  fails _ l hl := by
    rw [h.loops] at hl
    cases hl
  releases id l _ _ hl := by
    rw [h.loop?] at hl
    cases hl

/-- No request but one that waits for the loop. -/
theorem Live.no_request (h : s.Live l) {k : Nat} {r : Request} (hr : s.requests[k]? = some r)
    (hstarting : r ≠ .starting l.id) (hwaiting : r ≠ .waiting l.id) : False :=
  (h.request hr).elim hstarting hwaiting

theorem Live.orderly (h : s.Live l) (isCloudPrimary : Bool) (i : Turn) {s' : Watches}
    (hsingle : s'.loops.length ≤ 1) : s.Orderly isCloudPrimary i s' := by
  have hstage := h.stage
  refine ⟨hsingle, fun ha => ?_, fun hf => ?_, fun hset => ?_, fun id k _ hk hready => ?_,
    fun id k _ hk hrecording hhandle => ?_, fun hfail => ?_, fun id k _ _ hk _ => ?_⟩
  · cases i with
    | serve k wasDegraded =>
      obtain ⟨id, hr, hnone⟩ | hr := ha
      · obtain hr' | hr' := h.request hr
        · cases hr'
        · obtain rfl := Request.waiting.inj hr'
          rw [(h.loop?_iff l.id l).mpr ⟨rfl, rfl⟩] at hnone
          cases hnone
      · exact (h.no_request hr (by simp) (by simp)).elim
    | startWatch _ | done _ | connect _ _ | insert _ | leave _ _ | exit _ _ => exact ha.elim
  · cases i with
    | exit id wasDegraded =>
      obtain ⟨k, doneCleanly, hk, hfinalising, -⟩ := hf
      obtain ⟨-, rfl⟩ := (h.loop?_iff id k).mp hk
      rw [hfinalising] at hstage
      refine ⟨fun hr => ?_, hstage⟩
      cases hfinalising.symm.trans (h.recording hr)
    | serve k wasDegraded => exact (h.no_request hf (by simp) (by simp)).elim
    | startWatch _ | done _ | connect _ _ | insert _ | leave _ _ => exact hf.elim
  · cases i with
    | exit id wasDegraded =>
      obtain ⟨k, hk, hsettling⟩ := hset
      obtain ⟨-, rfl⟩ := (h.loop?_iff id k).mp hk
      intro hr
      cases hsettling.symm.trans (h.recording hr)
    | serve k wasDegraded => exact (h.no_request hset (by simp) (by simp)).elim
    | startWatch _ | done _ | connect _ _ | insert _ | leave _ _ => exact hset.elim
  · obtain ⟨-, rfl⟩ := (h.loop?_iff id k).mp hk
    rw [hready] at hstage
    exact hstage.1
  · obtain ⟨rfl, rfl⟩ := (h.loop?_iff id k).mp hk
    rw [hrecording] at hstage
    exact hstage.2.2 (h.handle.resolve_right hhandle)
  · cases i with
    | serve k wasDegraded =>
      obtain ⟨id, hr | hr⟩ := hfail
      · exact (h.no_request hr (by simp) (by simp)).elim
      · exact (h.no_request hr (by simp) (by simp)).elim
    | startWatch _ | done _ | connect _ _ | insert _ | leave _ _ | exit _ _ => exact hfail.elim
  · obtain ⟨rfl, rfl⟩ := (h.loop?_iff id k).mp hk
    exact h.handle

end Turns

/-- In a run of careful requests at most one loop of the session lives, and requests
and loops do not get in each other's way. -/
theorem orderly_of_careful (isCloudPrimary : Bool) (is : List Turn)
    (hg : Guarded (step isCloudPrimary) (fun s i => s.Careful i = true) start is) :
    Along (step isCloudPrimary) (fun s i s' => s.Orderly isCloudPrimary i s') start is := by
  have hstep : ∀ s i, Tidy s → s.Careful i = true → (step isCloudPrimary s i).Tidy :=
    fun s i h hi => tidy_step isCloudPrimary s i h hi
  have horderly : ∀ s i, Tidy s → s.Careful i = true →
      s.Orderly isCloudPrimary i (step isCloudPrimary s i) := by
    intro s i h hi
    have hsingle := (hstep s i h hi).single
    obtain h | ⟨l, h⟩ := h
    · exact h.orderly isCloudPrimary i hsingle
    · exact h.orderly isCloudPrimary i hsingle
  exact along_run hstep horderly start is tidy_start hg

/-- A StartWatch that fails, and one that succeeds. Done comes while the loop
records. -/
def secondTry : List Turn :=
  [.startWatch true, .connect 0 false, .serve 0 false, .serve 0 false, .startWatch true,
    .connect 1 true, .insert 1, .done true, .startWatch false, .leave 1 true, .exit 1 false,
    .exit 1 false, .exit 1 false, .exit 1 false, .serve 0 false]

theorem orderly_secondTry :
    Along (step false) (fun s i s' => s.Orderly false i s') start secondTry :=
  orderly_of_careful false secondTry (by decide +kernel)

theorem not_orderly {is : List Turn} {i : Turn}
    (h : ¬ (run (step false) start is).Orderly false i (run (step false) start (is ++ [i]))) :
    ¬ Along (step false) (fun s i s' => s.Orderly false i s') start (is ++ [i]) := by
  intro halong
  obtain ⟨-, hlast, -⟩ := (along_append _ is [i]).mp halong
  rw [run_append] at h
  exact h hlast

instance (s : Watches) : Decidable s.Recording := inferInstanceAs (Decidable (∃ l ∈ s.loops, _))

/-- Done comes before the handle of a loop that is ready, and finalises what the
loop records; the first loop leaves as if done when a second one replaces its
handle, and removes that handle when it ends; and a second StartWatch that fails
takes the push handle of the first. -/
theorem loops_collide :
    ¬ Along (step false) (fun s i s' => s.Orderly false i s') start
        ([.startWatch true, .connect 0 true, .done true, .insert 0] ++ [.serve 0 false]) ∧
      ¬ Along (step false) (fun s i s' => s.Orderly false i s') start
        ([.startWatch true, .connect 0 true, .insert 0, .startWatch true, .connect 1 true,
          .insert 1] ++ [.leave 0 true]) ∧
      ¬ Along (step false) (fun s i s' => s.Orderly false i s') start
        ([.startWatch true, .connect 0 true, .insert 0, .startWatch true, .connect 1 true,
          .insert 1, .leave 0 true, .exit 0 false, .exit 0 false] ++ [.exit 0 false]) ∧
      ¬ Along (step false) (fun s i s' => s.Orderly false i s') start
        ([.startWatch true, .connect 0 true, .insert 0, .startWatch true, .connect 1 false] ++
          [.serve 0 false]) := by
  refine ⟨not_orderly fun h => ?_, not_orderly fun h => ?_, not_orderly fun h => ?_,
    not_orderly fun h => ?_⟩
  · have hrequest : (run (step false) start
        [.startWatch true, .connect 0 true, .done true, .insert 0]).requests[0]? =
        some .finalising := by
      decide +kernel
    exact (h.finalises hrequest).1 (by decide +kernel)
  · exact absurd (h.leaves 0 ⟨0, .recording⟩ rfl (by decide +kernel) rfl (by decide +kernel))
      (by decide +kernel)
  · exact absurd (h.releases 0 ⟨0, .releasing⟩ false rfl (by decide +kernel) rfl) (by decide +kernel)
  · exact absurd (h.fails ⟨1, .inl (by decide +kernel)⟩ ⟨0, .recording⟩ (by decide +kernel) rfl).2.1
      (by decide +kernel)

end Watches

end MemoryArchive.Ipc
