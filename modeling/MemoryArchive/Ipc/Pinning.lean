import MemoryArchive.Ipc.Retention
import MemoryArchive.Registry.Commands
import MemoryArchive.Storage.Startup

namespace MemoryArchive.Ipc.Pinning

open Registry Runs Storage.Startup

/-- The id that a session gets when it is registered, the text of a fresh UUID. -/
structure SessionId where
  text : String
  valid : validSessionId text = true

/-- A session with a record, and the store that its registration resolved. -/
structure Registered where
  record : SessionRecord
  resolved : Store

def Registered.Pinned (g : Registered) : Prop := g.record.storageBackend ≠ ""

inductive Stage
  | fresh
  | live (g : Registered)
  | deleted

/-- A running ma-core. -/
structure Process where
  config : Config
  router : Router

/-- One session, with the backends that its watch loops have been given and the
objects that every store has for it. -/
structure State where
  process : Option Process
  stage : Stage
  loops : List Client
  objects : Store → List String

def State.initial : State := ⟨none, .fresh, [], fun _ => []⟩

/-- A call that reads or writes an object. One that fails changes nothing. -/
inductive Call
  | put (path : String) (ok : Bool)
  | get (path : String)
  | list (lead : String)
  | delete (path : String) (ok : Bool)

def Call.apply (paths : List String) : Call → List String
  | .put path ok => if ok && !paths.contains path then paths ++ [path] else paths
  | .delete path ok => if ok then paths.filter (· ≠ path) else paths
  | .get _ | .list _ => paths

/-- `readable` says whether the record can be read, `removed` whether the registry
can be purged. -/
inductive Input
  | start (c : Config) (b : Boot)
  | register (r : SessionRecord) (uploaded : Bool)
  | status (status : SessionStatus)
  | startWatch (dirExists : Bool)
  | call (call : Call)
  | done (readable : Bool) (call : Call)
  | loopCall (k : Nat) (call : Call)
  | loopEnd (k : Nat)
  | deleteSession (force readable removed : Bool) (f : PurgeFaults)
  | sweep (removed : Bool) (f : PurgeFaults)

def kind : Store → BackendKind
  | .localDir _ => .localTree
  | .s3 _ | .azure _ _ | .gcp _ => .objectStore

namespace State

variable (s : State)

def live? : Option Registered :=
  match s.stage with
  | .live g => some g
  | .fresh | .deleted => none

/-- What a handler resolves that goes on without the record. -/
def closing (p : Process) (readable : Bool) : Client :=
  match s.live? with
  | some g => if readable then p.router.resolveForSession g.record else (p.router.resolve "").2
  | none => (p.router.resolve "").2

/-- The deletion gets past its checks and past the registry. -/
def purges (force readable removed : Bool) : Bool :=
  match s.live? with
  | some g => removed && !(readable && inFlight g.record force)
  | none => removed

/-- The store on which a step carries out its call. In local mode the files of a
session are not reached through a backend, but a deletion purges it all the same. -/
def targetIn (p : Process) : Input → Option Store
  | .register r _ =>
      match s.stage with
      | .fresh => if p.config.isCloudPrimary then some (p.router.resolve r.tenantId).2.store else none
      | .live _ | .deleted => none
  | .call _ =>
      if p.config.isCloudPrimary then
        s.live?.map fun g => (p.router.resolveForSession g.record).store
      else none
  | .done readable _ => if p.config.isCloudPrimary then some (s.closing p readable).store else none
  | .loopCall k _ => if p.config.isCloudPrimary then s.loops[k]?.map Client.store else none
  | .deleteSession force readable removed _ =>
      if s.purges force readable removed then some (s.closing p readable).store else none
  | .sweep removed _ =>
      if removed then
        (s.live?.filter fun g => g.record.status = .incomplete).map fun g =>
          (p.router.resolveForSession g.record).store
      else none
  | .start _ _ | .status _ | .startWatch _ | .loopEnd _ => none

def target (i : Input) : Option Store := s.process.bind fun p => s.targetIn p i

/-- The step is a DeleteSession that is answered with success. -/
def reports : Input → Bool
  | .deleteSession force readable removed _ => s.process.isSome && s.purges force readable removed
  | _ => false

def perform (i : Input) (change : Store → List String → List String) : State :=
  match s.target i with
  | none => s
  | some st => { s with objects := Function.update s.objects st (change st (s.objects st)) }

def setStatus (status : SessionStatus) : State :=
  match s.stage with
  | .live g => { s with stage := .live { g with record := { g.record with status := status } } }
  | .fresh | .deleted => s

end State

/-- RegisterSession: only the name of the backend is kept. -/
def register (s : State) (r : SessionRecord) (uploaded : Bool) : State :=
  match s.process, s.stage with
  | some p, .fresh =>
      let chosen := p.router.resolve r.tenantId
      let metadata := Call.put (r.memoryName ++ "/metadata.json") uploaded
      { s.perform (.register r uploaded) fun _ paths => metadata.apply paths with
        stage := .live ⟨{ r with status := .active, storageBackend := chosen.1 }, chosen.2.store⟩ }
  | _, _ => s

/-- StartWatch gives the loop its backend. -/
def startWatch (s : State) (dirExists : Bool) : State :=
  match s.process, s.live? with
  | some p, some g =>
      if p.config.isCloudPrimary || dirExists then
        { s with loops := s.loops ++ [p.router.resolveForSession g.record] }
      else s
  | _, _ => s

variable (sid : SessionId)

/-- A deletion that gets past the registry: the record goes, and then the objects
as far as they can be deleted. -/
def purge (s : State) (i : Input) (f : PurgeFaults) : State :=
  match s.target i with
  | none => s
  | some _ =>
      { s.perform i fun st paths => (deleteAll (kind st) f sid.text paths).1 with stage := .deleted }

def step (s : State) (i : Input) : State :=
  match i with
  | .start c b => { s with process := (c.buildRouter b).map fun router => ⟨c, router⟩, loops := [] }
  | .register r uploaded => register s r uploaded
  | .status status => s.setStatus status
  | .startWatch dirExists => startWatch s dirExists
  | .call call | .done _ call | .loopCall _ call => s.perform i fun _ paths => call.apply paths
  | .loopEnd k => { s with loops := s.loops.eraseIdx k }
  | .deleteSession _ _ _ f | .sweep _ f => purge sid s i f

/-- A process that runs has the session, and its loops, on the store of its
registration. -/
structure Bound (s : State) : Prop where
  resolved : ∀ g, s.stage = .live g → g.Pinned → ∀ p, s.process = some p →
    (p.router.resolveForSession g.record).store = g.resolved
  loops : ∀ g, s.stage = .live g → g.Pinned → ∀ client ∈ s.loops, client.store = g.resolved
  fresh : s.stage = .fresh → s.loops = []

/-- A step carries its call out on the store of the registration or not at all,
and a DeleteSession that reports success leaves nothing in that store. -/
def Faithful (s : State) (i : Input) (s' : State) : Prop :=
  ∀ g, s.stage = .live g → g.Pinned →
    (∀ st, s.target i = some st → st = g.resolved) ∧ (s.reports i = true → s'.objects g.resolved = [])

/-- `delete_all` deletes all of the objects. -/
def Registered.Clears (g : Registered) (f : PurgeFaults) (paths : List String) : Prop :=
  paths = [] ∨
    match kind g.resolved with
    | .localTree => f.treeRemovable = true ∨ ∀ path ∈ paths, f.treeLeft path = false
    | .objectStore => f.listed = true ∧ ∀ path ∈ paths, f.deletable path = true

/-- The configuration gives the pinned name the store of the registration; where
it has no such name, the tenant is sent there. -/
def Registered.Stays (g : Registered) (c : Config) (b : Boot) : Prop :=
  ∀ router, c.buildRouter b = some router →
    match (c.backends b).bind fun rows => lastFor rows g.record.storageBackend with
    | some client => client.store = g.resolved
    | none => (router.resolve g.record.tenantId).2.store = g.resolved

/-- A step that goes on without the record is led to the store all the same. -/
def Registered.Unread (g : Registered) (s : State) (readable : Bool) : Prop :=
  readable = false → ∀ p, s.process = some p → (p.router.resolve "").2.store = g.resolved

def Keeps (s : State) (i : Input) : Prop :=
  ∀ g, s.stage = .live g → g.Pinned →
    match i with
    | .start c b => g.Stays c b
    | .done readable _ => (s.target i).isSome → g.Unread s readable
    | .deleteSession _ readable _ f =>
        s.reports i = true → g.Unread s readable ∧ g.Clears f (s.objects g.resolved)
    | _ => True

section Frame

variable {s : State} {i : Input} {g : Registered}

theorem live?_of (h : s.stage = .live g) : s.live? = some g := by
  rw [State.live?, h]

theorem of_live? (h : s.live? = some g) : s.stage = .live g := by
  rw [State.live?] at h
  split at h
  · rename_i hstage
    cases h
    exact hstage
  · cases h
  · cases h

@[simp] theorem process_perform (change : Store → List String → List String) :
    (s.perform i change).process = s.process := by
  rw [State.perform]
  split <;> rfl

@[simp] theorem stage_perform (change : Store → List String → List String) :
    (s.perform i change).stage = s.stage := by
  rw [State.perform]
  split <;> rfl

@[simp] theorem loops_perform (change : Store → List String → List String) :
    (s.perform i change).loops = s.loops := by
  rw [State.perform]
  split <;> rfl

/-- What a step other than a start and a registration leaves of a session: the
same pin in the same process, and loops that were given its backend. -/
structure Follows (s s' : State) : Prop where
  process : s'.process = s.process
  stage : ∀ g', s'.stage = .live g' → ∃ g, s.stage = .live g ∧ g'.resolved = g.resolved ∧
    g'.record.storageBackend = g.record.storageBackend ∧ g'.record.tenantId = g.record.tenantId
  loops : ∀ client ∈ s'.loops, client ∈ s.loops ∨ ∃ p g, s.process = some p ∧ s.stage = .live g ∧
    client = p.router.resolveForSession g.record
  fresh : s'.stage = .fresh → s.stage = .fresh

theorem Follows.of_same {s' : State} (hprocess : s'.process = s.process) (hstage : s'.stage = s.stage)
    (hloops : ∀ client ∈ s'.loops, client ∈ s.loops) : Follows s s' where
  process := hprocess
  stage g' hg' := ⟨g', hstage ▸ hg', rfl, rfl, rfl⟩
  loops client hclient := .inl (hloops client hclient)
  fresh h := hstage ▸ h

theorem follows_perform (s : State) (i : Input) (change : Store → List String → List String) :
    Follows s (s.perform i change) :=
  .of_same (process_perform change) (stage_perform change) fun client h => by rwa [loops_perform] at h

theorem follows_setStatus (s : State) (status : SessionStatus) : Follows s (s.setStatus status) := by
  rw [State.setStatus]
  split
  · rename_i g hg
    refine ⟨rfl, fun g' hg' => ?_, fun _ h => .inl h, fun h => (by cases h)⟩
    cases hg'
    exact ⟨g, hg, rfl, rfl, rfl⟩
  · exact .of_same rfl rfl fun _ h => h
  · exact .of_same rfl rfl fun _ h => h

theorem follows_startWatch (s : State) (dirExists : Bool) : Follows s (startWatch s dirExists) := by
  rw [startWatch]
  split
  · rename_i p g hp hg
    split
    · refine ⟨rfl, fun g' hg' => ⟨g', hg', rfl, rfl, rfl⟩, fun client hclient => ?_, fun h => h⟩
      obtain hold | hnew := List.mem_append.mp hclient
      · exact .inl hold
      · exact .inr ⟨p, g, hp, of_live? hg, List.mem_singleton.mp hnew⟩
    · exact .of_same rfl rfl fun _ h => h
  · exact .of_same rfl rfl fun _ h => h

theorem follows_purge (s : State) (i : Input) (f : PurgeFaults) : Follows s (purge sid s i f) := by
  rw [purge]
  split
  · exact .of_same rfl rfl fun _ h => h
  · refine ⟨process_perform _, fun g' hg' => (by cases hg'), fun client hclient => .inl ?_,
      fun h => (by cases h)⟩
    rwa [← loops_perform]

theorem resolveForSession_congr (router : Router) {r r' : SessionRecord}
    (hpin : r'.storageBackend = r.storageBackend) (htenant : r'.tenantId = r.tenantId) :
    router.resolveForSession r' = router.resolveForSession r := by
  rw [Router.resolveForSession, Router.resolveForSession, hpin, htenant]

theorem Bound.follows {s' : State} (hb : Bound s) (h : Follows s s') : Bound s' where
  resolved g' hg' hpin p hp := by
    obtain ⟨g, hg, hresolved, hname, htenant⟩ := h.stage g' hg'
    rw [Registered.Pinned, hname] at hpin
    rw [h.process] at hp
    rw [hresolved, resolveForSession_congr p.router hname htenant]
    exact hb.resolved g hg hpin p hp
  loops g' hg' hpin client hclient := by
    obtain ⟨g, hg, hresolved, hname, -⟩ := h.stage g' hg'
    rw [Registered.Pinned, hname] at hpin
    rw [hresolved]
    obtain hold | ⟨p, g₁, hp, hg₁, rfl⟩ := h.loops client hclient
    · exact hb.loops g hg hpin client hold
    · rw [hg] at hg₁
      cases hg₁
      exact hb.resolved g hg hpin p hp
  fresh hfresh := by
    have hnone := hb.fresh (h.fresh hfresh)
    refine List.eq_nil_iff_forall_not_mem.mpr fun client hclient => ?_
    obtain hold | ⟨p, g, -, hg, -⟩ := h.loops client hclient
    · rw [hnone] at hold
      cases hold
    · rw [h.fresh hfresh] at hg
      cases hg

theorem bound_register (hb : Bound s) (r : SessionRecord) (uploaded : Bool) :
    Bound (register s r uploaded) := by
  rw [register]
  split
  · rename_i p hp hfresh
    have hloops := hb.fresh hfresh
    refine ⟨fun g hg hpin p' hp' => ?_, fun g hg hpin client hclient => ?_, fun h => (by cases h)⟩
    · rw [process_perform, hp] at hp'
      cases hp'
      cases hg
      exact congrArg Client.store (Router.resolveForSession_pinned hpin (p.router.get?_resolve r.tenantId))
    · rw [loops_perform, hloops] at hclient
      cases hclient
  · exact hb

theorem resolveForSession_store {c : Config} {b : Boot} {router : Router} (h : c.buildRouter b = some router)
    (hpin : g.Pinned) : (router.resolveForSession g.record).store = g.resolved ↔
      match (c.backends b).bind fun rows => lastFor rows g.record.storageBackend with
      | some client => client.store = g.resolved
      | none => (router.resolve g.record.tenantId).2.store = g.resolved := by
  have hne : g.record.storageBackend ≠ "" := hpin
  rw [Router.resolveForSession, if_pos hne, get?_buildRouter h]
  cases (c.backends b).bind fun rows => lastFor rows g.record.storageBackend with
  | some client => exact Iff.rfl
  | none => exact Iff.rfl

/-- A start leaves the session on its store exactly if the configuration does. -/
theorem bound_start_iff (c : Config) (b : Boot) :
    Bound { s with process := (c.buildRouter b).map fun router => ⟨c, router⟩, loops := [] } ↔
      ∀ g, s.stage = .live g → g.Pinned → g.Stays c b := by
  constructor
  · intro h g hg hpin router hrouter
    refine (resolveForSession_store hrouter hpin).mp (h.resolved g hg hpin ⟨c, router⟩ ?_)
    rw [hrouter]
    rfl
  · intro h
    refine ⟨fun g hg hpin p hp => ?_, fun _ _ _ _ hclient => absurd hclient List.not_mem_nil, fun _ => rfl⟩
    obtain ⟨router, hrouter, rfl⟩ := Option.map_eq_some_iff.mp hp
    exact (resolveForSession_store hrouter hpin).mpr (h g hg hpin router hrouter)

/-- Every step but a start leaves a session on its store. -/
theorem bound_step (hb : Bound s) (hi : ∀ c b, i ≠ .start c b) : Bound (step sid s i) := by
  cases i with
  | start c b => exact absurd rfl (hi c b)
  | register r uploaded => exact bound_register hb r uploaded
  | status status => exact hb.follows (follows_setStatus s status)
  | startWatch dirExists => exact hb.follows (follows_startWatch s dirExists)
  | call call => exact hb.follows (follows_perform s (.call call) fun _ paths => call.apply paths)
  | done readable call => exact hb.follows (follows_perform s (.done readable call) fun _ paths => call.apply paths)
  | loopCall k call => exact hb.follows (follows_perform s (.loopCall k call) fun _ paths => call.apply paths)
  | loopEnd k => exact hb.follows (.of_same rfl rfl fun _ h => List.mem_of_mem_eraseIdx h)
  | deleteSession force readable removed f => exact hb.follows (follows_purge sid s _ f)
  | sweep removed f => exact hb.follows (follows_purge sid s _ f)

theorem closing_live (hg : s.stage = .live g) (p : Process) (readable : Bool) :
    s.closing p readable =
      if readable then p.router.resolveForSession g.record else (p.router.resolve "").2 := by
  rw [State.closing, live?_of hg]

theorem Bound.closing (hb : Bound s) (hg : s.stage = .live g) (hpin : g.Pinned) {p : Process}
    (hp : s.process = some p) {readable : Bool} (hread : g.Unread s readable) :
    (s.closing p readable).store = g.resolved := by
  rw [closing_live hg]
  cases readable with
  | true => exact hb.resolved g hg hpin p hp
  | false => exact hread rfl p hp

/-- Whether the step reads the record before it makes its call. -/
def Input.readable : Input → Bool
  | .done readable _ | .deleteSession _ readable _ _ => readable
  | _ => true

/-- A session on its store is reached there. -/
theorem Bound.target (hb : Bound s) (hg : s.stage = .live g) (hpin : g.Pinned)
    (hread : g.Unread s i.readable) {st : Store} (h : s.target i = some st) : st = g.resolved := by
  obtain ⟨p, hp, h⟩ := Option.bind_eq_some_iff.mp h
  have hresolved := hb.resolved g hg hpin p hp
  cases i with
  | start c b => cases h
  | register r uploaded =>
    rw [State.targetIn, hg] at h
    cases h
  | status status => cases h
  | startWatch dirExists => cases h
  | call call =>
    rw [State.targetIn, live?_of hg] at h
    split at h
    · cases h
      exact hresolved
    · cases h
  | done readable call =>
    rw [State.targetIn] at h
    split at h
    · cases h
      exact hb.closing hg hpin hp hread
    · cases h
  | loopCall k call =>
    rw [State.targetIn] at h
    split at h
    · obtain ⟨client, hclient, rfl⟩ := Option.map_eq_some_iff.mp h
      exact hb.loops g hg hpin client (List.mem_of_getElem? hclient)
    · cases h
  | loopEnd k => cases h
  | deleteSession force readable removed f =>
    rw [State.targetIn] at h
    split at h
    · cases h
      exact hb.closing hg hpin hp hread
    · cases h
  | sweep removed f =>
    rw [State.targetIn, live?_of hg] at h
    split at h
    · obtain ⟨g', hg', rfl⟩ := Option.map_eq_some_iff.mp h
      cases (Option.filter_eq_some_iff.mp hg').1
      exact hresolved
    · cases h

theorem reports_delete {force readable removed : Bool} {f : PurgeFaults}
    (h : s.reports (.deleteSession force readable removed f) = true) :
    ∃ p, s.process = some p ∧
      s.target (.deleteSession force readable removed f) = some (s.closing p readable).store := by
  rw [State.reports, Bool.and_eq_true, Option.isSome_iff_exists] at h
  obtain ⟨⟨p, hp⟩, hpurges⟩ := h
  refine ⟨p, hp, ?_⟩
  rw [State.target, hp, Option.bind_some, State.targetIn, if_pos hpurges]

theorem objects_purge (f : PurgeFaults) {st : Store} (h : s.target i = some st) :
    (purge sid s i f).objects st = (deleteAll (kind st) f sid.text (s.objects st)).1 := by
  rw [purge, h]
  dsimp only
  rw [State.perform, h]
  dsimp only
  rw [Function.update_self]

theorem clears_iff (f : PurgeFaults) (paths : List String) :
    (deleteAll (kind g.resolved) f sid.text paths).1 = [] ↔ g.Clears f paths := by
  rw [deleteAll_eq_nil, Registered.Clears, sid.valid]
  exact or_congr_right (and_iff_right rfl)

/-- The record is not needed where the call goes to the right store without it. -/
theorem unread_of_target (hg : s.stage = .live g) {p : Process} (hp : s.process = some p) {readable : Bool}
    (h : (s.closing p readable).store = g.resolved) : g.Unread s readable := by
  rintro rfl p' hp'
  rw [hp] at hp'
  cases hp'
  rwa [closing_live hg] at h

/-- What exactly keeps the calls of a session on its store, and lets its
DeleteSession tell the truth. -/
theorem faithful_iff (hb : Bound s) (hi : ∀ c b, i ≠ .start c b) :
    Faithful s i (step sid s i) ↔ Keeps s i := by
  constructor
  · intro h g hg hpin
    obtain ⟨htarget, hcleared⟩ := h g hg hpin
    cases i with
    | start c b => exact absurd rfl (hi c b)
    | done readable call =>
      intro hsome
      obtain ⟨st, hst⟩ := Option.isSome_iff_exists.mp hsome
      have hsame := htarget st hst
      obtain ⟨p, hp, hst⟩ := Option.bind_eq_some_iff.mp hst
      rw [State.targetIn] at hst
      split at hst
      · cases hst
        exact unread_of_target hg hp hsame
      · cases hst
    | deleteSession force readable removed f =>
      intro hreports
      obtain ⟨p, hp, hst⟩ := reports_delete hreports
      have hsame := htarget _ hst
      rw [hsame] at hst
      have hempty := hcleared hreports
      rw [step, objects_purge sid f hst, clears_iff] at hempty
      exact ⟨unread_of_target hg hp hsame, hempty⟩
    | register | status | startWatch | call | loopCall | loopEnd | sweep => trivial
  · intro h g hg hpin
    have hkeeps := h g hg hpin
    constructor
    · intro st hst
      refine hb.target hg hpin ?_ hst
      cases i with
      | done readable call => exact hkeeps (Option.isSome_iff_exists.mpr ⟨st, hst⟩)
      | deleteSession force readable removed f =>
        refine (hkeeps ?_).1
        obtain ⟨p, hp, hst⟩ := Option.bind_eq_some_iff.mp hst
        rw [State.targetIn] at hst
        split at hst
        · rename_i hpurges
          rw [State.reports, hp, hpurges]
          rfl
        · cases hst
      | start | register | status | startWatch | call | loopCall | loopEnd | sweep => exact fun h => by cases h
    · intro hreports
      cases i with
      | deleteSession force readable removed f =>
        obtain ⟨hread, hclears⟩ := hkeeps hreports
        obtain ⟨p, hp, hst⟩ := reports_delete hreports
        rw [hb.closing hg hpin hp hread] at hst
        rw [step, objects_purge sid f hst, clears_iff]
        exact hclears
      | start | register | status | startWatch | call | done | loopCall | loopEnd | sweep => cases hreports

/-- One step keeps the calls of a session, its DeleteSession and the process itself
to the store exactly if it meets the condition. -/
theorem keeps_iff (hb : Bound s) : Faithful s i (step sid s i) ∧ Bound (step sid s i) ↔ Keeps s i := by
  by_cases hi : ∃ c b, i = .start c b
  · obtain ⟨c, b, rfl⟩ := hi
    have hstart : Bound (step sid s (.start c b)) ↔ Keeps s (.start c b) := bound_start_iff c b
    rw [hstart, and_iff_right]
    refine fun g hg hpin => ⟨fun st hst => ?_, fun h => by cases h⟩
    obtain ⟨p, -, hst⟩ := Option.bind_eq_some_iff.mp hst
    cases hst
  · have hne : ∀ c b, i ≠ .start c b := fun c b h => hi ⟨c, b, h⟩
    rw [faithful_iff sid hb hne, and_iff_left (bound_step sid hb hne)]

end Frame

theorem bound_initial : Bound .initial :=
  ⟨fun _ h => (by cases h), fun _ h => (by cases h), fun _ => rfl⟩

/-- Every run keeps its sessions on the stores of their registrations exactly if
all its steps meet the condition, and a tenant has one backend in every process
exactly if its configuration leaves no choice. -/
theorem pinning_iff (is : List Input) (c : Config) (tenantId : String) :
    (Along (step sid) (fun s i s' => Faithful s i s' ∧ Bound s') .initial is ↔
      Guarded (step sid) Keeps .initial is) ∧
    (c.Selects tenantId ↔ c.Settles tenantId) := by
  refine ⟨?_, selects_iff_settles c tenantId⟩
  have hstep : ∀ s i, Bound s → (Faithful s i (step sid s i) ∧ Bound (step sid s i) ↔ Keeps s i) :=
    fun s i hb => keeps_iff sid hb
  exact along_iff_guarded_steps (P := fun s i s' => Faithful s i s' ∧ Bound s') hstep (fun _ _ _ h => h.2)
    .initial is bound_initial

def sampleId : SessionId := ⟨"5b1a6c0e-6d0f-4a57-9a55-1d2f3a4b5c6d", by decide +kernel⟩

def sampleConfig : Config where
  storageMode := "cloud_primary"
  storagePath := "/memories"
  cloud := ⟨"aws", "captures", "eu-west-1", "", "", "", [], []⟩

/-- A session is captured into a bucket and finished; after a restart that cannot
reach the bucket, it is deleted. -/
def unreachableRun : List Input :=
  [.start sampleConfig ⟨fun _ => true, 0⟩, .register (Registry.sampleRecord "s1") true, .status .complete,
    .start sampleConfig ⟨fun _ => false, 0⟩, .deleteSession false true true .never]

theorem pin_lost : ¬ Along (step sampleId) Faithful .initial unreachableRun := by
  rintro ⟨-, -, -, -, hlast, -⟩
  generalize hs : step sampleId _ (Input.start sampleConfig ⟨fun _ => false, 0⟩) = s at hlast
  have hlive : s.live?.map (fun g => (g.record.storageBackend, g.resolved)) =
      some ("aws", Store.s3 "captures") := by
    rw [← hs]
    decide +kernel
  obtain ⟨g, hg, hpair⟩ := Option.map_eq_some_iff.mp hlive
  have hname : g.record.storageBackend = "aws" := congrArg Prod.fst hpair
  have hresolved : g.resolved = .s3 "captures" := congrArg Prod.snd hpair
  have hpin : g.Pinned := by
    rw [Registered.Pinned, hname]
    decide
  have hcleared := (hlast g (of_live? hg) hpin).2
  have hreports : s.reports (.deleteSession false true true .never) = true := by
    rw [← hs]
    decide +kernel
  have hleft : (step sampleId s (.deleteSession false true true .never)).objects (.s3 "captures") ≠ [] := by
    rw [← hs]
    decide +kernel
  rw [hresolved] at hcleared
  exact hleft (hcleared hreports)

end MemoryArchive.Ipc.Pinning
