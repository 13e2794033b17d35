import MemoryArchive.Ipc.Directories
import MemoryArchive.Registry.Commands

namespace MemoryArchive.Ipc

open Registry Runs

/-- The memory directory of a session and the one that it is renamed to when the
session is interrupted. -/
inductive Place
  | plain
  | marked
  deriving DecidableEq

/-- The next step of a watch loop. Its exit stores the last files, writes the
placeholders, sets the status and renames the directory. -/
inductive LoopPoint
  | running
  | storing (doneCleanly : Bool)
  | placing
  | updating (doneCleanly : Bool) (t : Task)
  | moving
  | pathing
  | ended
  deriving DecidableEq

/-- The next step of DeleteSession, with the record that it has read. -/
inductive DeletePoint
  | asked
  | registry (r : Option SessionRecord) (t : Task)
  | listing (r : Option SessionRecord)
  | removing (r : Option SessionRecord) (objects : List String)
  | purging (places : List Place)
  | ended
  deriving DecidableEq

/-- The session that a loop records and DeleteSession deletes. -/
structure Deleted where
  sid : String
  path : String
  isCloudPrimary : Bool

namespace Deleted

variable (c : Deleted)

def alreadyMarked : Bool := incompleteMark.toList.isSuffixOf c.path.toList

def markedPath : String := if c.alreadyMarked then c.path else c.path ++ incompleteMark

def reasoningObject : String := "reasoning/reasoning.jsonl"

/-- What is stored for the session, with its loop and its deletion. A directory
that exists may hold metadata that names the session. -/
structure State where
  redis : Redis
  handle : Bool
  objects : List String
  dirs : Place → Option Bool
  loop : LoopPoint
  del : DeletePoint

inductive Input
  | write (object : String)
  | signal
  | leave (doneCleanly : Bool)
  | advance (wasDegraded placeholders : Bool)
  | delete

/-- Files of a loop are objects in the cloud; metadata is written to a local
directory that exists. -/
def write (s : State) (object : String) : State :=
  if c.isCloudPrimary then { s with objects := if object ∈ s.objects then s.objects else s.objects ++ [object] }
  else { s with dirs := Function.update s.dirs .plain ((s.dirs .plain).map fun _ => true) }

/-- `write_degraded_placeholders` makes the directory where it is missing. -/
def place (s : State) : State :=
  let s := { s with dirs := Function.update s.dirs .plain (some ((s.dirs .plain).getD false)) }
  if c.isCloudPrimary then c.write s reasoningObject else s

def finish (s : State) : State := { s with loop := .ended, handle := false }

/-- The next step of a loop that has left. A rename needs its directory, and
nothing in its way. -/
def advance (s : State) (wasDegraded placeholders : Bool) : State :=
  match s.loop with
  | .running | .ended => s
  | .storing true => { s with loop := .placing }
  | .storing false => { s with loop := .updating false (.updateHget c.sid .incomplete) }
  | .placing =>
      { (if placeholders then c.place s else s) with
        loop := .updating true (.updateHget c.sid (doneStatus wasDegraded)) }
  | .updating doneCleanly t =>
      match t.step s.redis with
      | (redis, some t') => { s with redis := redis, loop := .updating doneCleanly t' }
      | (redis, none) =>
          if doneCleanly || c.isCloudPrimary then finish { s with redis := redis }
          else { s with redis := redis, loop := .moving }
  | .moving =>
      if c.alreadyMarked then { s with loop := .pathing }
      else
        match s.dirs .plain, s.dirs .marked with
        | some owned, none =>
            { s with
              dirs := Function.update (Function.update s.dirs .plain none) .marked (some owned)
              loop := .pathing }
        | _, _ => finish s
  | .pathing =>
      finish { s with redis := s.redis.put c.sid ((s.redis.sessions c.sid).setMemoryPath c.markedPath) }

/-- The directories that `purge_memory_dir` looks at. -/
def places : Option SessionRecord → List Place
  | none => []
  | some r => if r.memoryPath = c.path then [.plain, .marked] else [.marked]

/-- The next step of DeleteSession with `force`. It ends a recording by dropping
the done handle, if the status is active. -/
def delete (s : State) : State :=
  match s.del with
  | .asked =>
      match s.redis.get c.sid with
      | .ok r =>
          { s with
            handle := if r.status = .active then false else s.handle
            del := .registry (some r) (.deleteDel c.sid) }
      | .error _ => { s with del := .registry none (.deleteDel c.sid) }
  | .registry r t =>
      match t.step s.redis with
      | (redis, some t') => { s with redis := redis, del := .registry r t' }
      | (redis, none) => { s with redis := redis, del := .listing r }
  | .listing r =>
      if c.isCloudPrimary then { s with del := .removing r s.objects }
      else { s with objects := [], del := .purging (c.places r) }
  | .removing r (object :: rest) =>
      { s with objects := s.objects.filter (· ≠ object), del := .removing r rest }
  | .removing r [] => { s with del := .purging (c.places r) }
  | .purging (p :: ps) =>
      { s with
        dirs := Function.update s.dirs p (if s.dirs p = some true then none else s.dirs p)
        del := .purging ps }
  | .purging [] => { s with del := .ended }
  | .ended => s

/-- A loop leaves cleanly once its done handle is gone. -/
def leave (s : State) (doneCleanly : Bool) : State :=
  match s.loop with
  | .running =>
      if doneCleanly && s.handle then s else { s with loop := .storing doneCleanly }
  | _ => s

/-- Whether a loop writes files. One that was interrupted stores them in the cloud
only. -/
def writes (s : State) : Bool :=
  match s.loop with
  | .running | .storing true => true
  | .storing false => c.isCloudPrimary
  | _ => false

def step (s : State) : Input → State
  | .write object => if c.writes s then c.write s object else s
  | .signal => { s with handle := false }
  | .leave doneCleanly => leave s doneCleanly
  | .advance wasDegraded placeholders => c.advance s wasDegraded placeholders
  | .delete => c.delete s

/-- Nothing is left of the session. -/
structure Gone (s : State) : Prop where
  hash : s.redis.sessions c.sid = .absent
  index : ∀ status, status.indexed = true → c.sid ∉ s.redis.index status
  claim : s.redis.claims c.sid = none
  objects : s.objects = []
  dirs : ∀ p, s.dirs p = none

/-- An object that is written now will still be deleted. -/
def mayPut (s : State) (object : String) : Bool :=
  match s.del with
  | .asked | .registry _ _ | .listing _ => true
  | .removing _ rest => rest.contains object
  | .purging _ | .ended => false

/-- The hash has not been deleted. -/
def mayHset (s : State) : Bool :=
  match s.del with
  | .asked | .registry _ (.deleteDel _) => true
  | _ => false

/-- The session will still be taken out of the index set. -/
def mayAdd (s : State) (status : SessionStatus) : Bool :=
  match s.del with
  | .asked | .registry _ (.deleteDel _) => true
  | .registry _ (.deleteSrem _ sets) => sets.contains status
  | _ => false

/-- The loop writes nothing that has been deleted, and every directory that it
writes to or DeleteSession looks at has metadata that names the session. -/
def InTime (s : State) : Input → Bool
  | .write object => !c.writes s || !c.isCloudPrimary || mayPut s object
  | .advance _ placeholders =>
      match s.loop with
      | .placing =>
          !placeholders || ((s.dirs .plain).isSome && (!c.isCloudPrimary || mayPut s reasoningObject))
      | .updating _ (.updateHset _ _) | .pathing => mayHset s
      | .updating _ (.updateSadd _ status) => mayAdd s status
      | _ => true
  | .delete =>
      match s.del with
      | .purging (p :: _) => s.dirs p ≠ some false
      | _ => true
  | .signal | .leave _ => true

section Clearing

variable {c : Deleted} {s : State}

/-- The registry has nothing of the session. -/
def Cleared (c : Deleted) (redis : Redis) : Prop :=
  redis.sessions c.sid = .absent ∧ (∀ status, status.indexed = true → c.sid ∉ redis.index status) ∧
    redis.claims c.sid = none

/-- DeleteSession looks at every directory that there may be. -/
def Covers (c : Deleted) (s : State) (r : SessionRecord) : Prop :=
  r.memoryPath = c.path ∨ s.dirs .plain = none

/-- The loop sets the status of its own session, and marks the path of a directory
that is not at its old place. -/
def LoopStands (c : Deleted) (s : State) : Prop :=
  match s.loop with
  | .updating _ t => t.sessionId = c.sid ∧ t.isUpdate = true
  | .pathing => c.alreadyMarked = true ∨ s.dirs .plain = none
  | _ => True

/-- What DeleteSession has removed, before each of its steps. -/
def DeleteStands (c : Deleted) (s : State) : Prop :=
  match s.del with
  | .asked => ∃ r, s.redis.get c.sid = .ok r ∧ Covers c s r
  | .registry o t =>
      t.sessionId = c.sid ∧ (∃ r, o = some r ∧ Covers c s r) ∧
        match t with
        | .deleteDel _ => True
        | .deleteSrem _ sets =>
            s.redis.sessions c.sid = .absent ∧
              ∀ status, status.indexed = true → c.sid ∈ s.redis.index status → status ∈ sets
        | _ => False
  | .listing o => (∃ r, o = some r ∧ Covers c s r) ∧ Cleared c s.redis
  | .removing o rest =>
      (∃ r, o = some r ∧ Covers c s r) ∧ Cleared c s.redis ∧ ∀ object ∈ s.objects, object ∈ rest
  | .purging ps =>
      Cleared c s.redis ∧ s.objects = [] ∧ ps <:+ [.plain, .marked] ∧ ∀ p, p ∉ ps → s.dirs p = none
  | .ended => Cleared c s.redis ∧ s.objects = [] ∧ ∀ p, s.dirs p = none

structure Stands (c : Deleted) (s : State) : Prop where
  loop : LoopStands c s
  del : DeleteStands c s

/-- A step of the loop keeps what DeleteSession relies on, if it removes what is
stored or writes only what may still be written. -/
structure Allowed (c : Deleted) (s s' : State) : Prop where
  del : s'.del = s.del
  record : mayHset s = true → ∀ r, s.redis.get c.sid = .ok r → Covers c s r →
    ∃ r', s'.redis.get c.sid = .ok r' ∧ Covers c s' r'
  hash : mayHset s = false → s'.redis.sessions c.sid = s.redis.sessions c.sid
  index : ∀ status, status.indexed = true → c.sid ∈ s'.redis.index status →
    c.sid ∈ s.redis.index status ∨ mayAdd s status = true
  claims : s'.redis.claims = s.redis.claims
  objects : ∀ object ∈ s'.objects, object ∈ s.objects ∨ mayPut s object = true
  dirs : ∀ p, s'.dirs p = none ∨ s.dirs p ≠ none ∨ p = .marked ∧ s.dirs .plain ≠ none
  plain : s.dirs .plain = none → s'.dirs .plain = none

theorem marked_mem {ps : List Place} (h : ps <:+ [.plain, .marked]) (hplain : Place.plain ∈ ps) :
    Place.marked ∈ ps := by
  simp only [List.suffix_cons_iff, List.suffix_nil] at h
  obtain rfl | rfl | rfl := h
  · decide
  · exact absurd hplain (by decide)
  · cases hplain

theorem Covers.of_plain {s' : State} {r : SessionRecord}
    (hplain : s.dirs .plain = none → s'.dirs .plain = none) (h : Covers c s r) : Covers c s' r :=
  h.imp_right hplain

/-- What DeleteSession has removed stays removed in an allowed step of the loop. -/
theorem Allowed.deleteStands {s' : State} (ha : Allowed c s s') (h : DeleteStands c s) :
    DeleteStands c s' := by
  have hcovers : ∀ o, (∃ r, o = some r ∧ Covers c s r) → ∃ r, o = some r ∧ Covers c s' r :=
    fun o ⟨r, ho, hr⟩ => ⟨r, ho, hr.of_plain ha.plain⟩
  have hcleared : mayHset s = false → (∀ status, mayAdd s status = false) → Cleared c s.redis →
      Cleared c s'.redis := by
    rintro hhset hadd ⟨hhash, hindex, hclaim⟩
    refine ⟨(ha.hash hhset).trans hhash, fun status hindexed hmem => ?_, ?_⟩
    · obtain hmem | hmay := ha.index status hindexed hmem
      · exact hindex status hindexed hmem
      · rw [hadd status] at hmay
        cases hmay
    · rw [ha.claims]
      exact hclaim
  have hobjects : (∀ object, mayPut s object = false) → s.objects = [] → s'.objects = [] := by
    intro hput hnone
    refine List.eq_nil_iff_forall_not_mem.mpr fun object hmem => ?_
    obtain hmem | hmay := ha.objects object hmem
    · rw [hnone] at hmem
      cases hmem
    · rw [hput object] at hmay
      cases hmay
  rw [DeleteStands, ha.del]
  rw [DeleteStands] at h
  have hhset := ha.hash
  have hindex := ha.index
  have hrecord := ha.record
  have hput := ha.objects
  unfold mayHset at hhset hcleared hrecord
  unfold mayAdd at hindex hcleared
  unfold mayPut at hput hobjects
  cases hdel : s.del with
  | asked =>
    rw [hdel] at h hrecord
    obtain ⟨r, hr, hcov⟩ := h
    exact hrecord rfl r hr hcov
  | registry o t =>
    rw [hdel] at h hhset hindex
    obtain ⟨hid, hcov, hpoint⟩ := h
    refine ⟨hid, hcovers o hcov, ?_⟩
    cases t with
    | deleteDel _ => trivial
    | deleteSrem _ sets =>
      obtain ⟨habsent, hsets⟩ := hpoint
      refine ⟨(hhset rfl).trans habsent, fun status hindexed hmem => ?_⟩
      obtain hmem | hmay := hindex status hindexed hmem
      · exact hsets status hindexed hmem
      · exact List.contains_iff_mem.mp hmay
    | registerExists _ | registerHset _ | registerSadd _ | updateHget _ _ | updateSrem _ _ _
    | updateHset _ _ | updateSadd _ _ | updatePersist _ => exact hpoint
  | listing o =>
    rw [hdel] at h hcleared
    exact ⟨hcovers o h.1, hcleared rfl (fun _ => rfl) h.2⟩
  | removing o rest =>
    rw [hdel] at h hcleared hput
    obtain ⟨hcov, hclear, hrest⟩ := h
    refine ⟨hcovers o hcov, hcleared rfl (fun _ => rfl) hclear, fun object hmem => ?_⟩
    obtain hmem | hmay := hput object hmem
    · exact hrest object hmem
    · exact List.contains_iff_mem.mp hmay
  | purging ps =>
    rw [hdel] at h hcleared hobjects
    obtain ⟨hclear, hnone, hps, hdirs⟩ := h
    refine ⟨hcleared rfl (fun _ => rfl) hclear, hobjects (fun _ => rfl) hnone, hps, fun p hp => ?_⟩
    obtain hnone' | hsome | ⟨rfl, hsome⟩ := ha.dirs p
    · exact hnone'
    · exact absurd (hdirs p hp) hsome
    · exact absurd (hdirs .plain fun hplain => hp (marked_mem hps hplain)) hsome
  | ended =>
    rw [hdel] at h hcleared hobjects
    obtain ⟨hclear, hnone, hdirs⟩ := h
    refine ⟨hcleared rfl (fun _ => rfl) hclear, hobjects (fun _ => rfl) hnone, fun p => ?_⟩
    obtain hnone' | hsome | ⟨-, hsome⟩ := ha.dirs p
    · exact hnone'
    · exact absurd (hdirs p) hsome
    · exact absurd (hdirs .plain) hsome

/-- A step that changes the hash, an index set or nothing of the registry. -/
theorem Allowed.of_redis {s' : State} (hdel : s'.del = s.del) (hobjects : s'.objects = s.objects)
    (hdirs : s'.dirs = s.dirs)
    (hrecord : ∀ r, s.redis.get c.sid = .ok r → Covers c s r →
      ∃ r', s'.redis.get c.sid = .ok r' ∧ Covers c s r')
    (hhash : mayHset s = false → s'.redis.sessions c.sid = s.redis.sessions c.sid)
    (hindex : ∀ status, c.sid ∈ s'.redis.index status →
      c.sid ∈ s.redis.index status ∨ mayAdd s status = true)
    (hclaims : s'.redis.claims = s.redis.claims) : Allowed c s s' where
  del := hdel
  record _ r hr hcov := by
    obtain ⟨r', hr', hcov'⟩ := hrecord r hr hcov
    exact ⟨r', hr', hcov'.of_plain fun h => by rw [hdirs, h]⟩
  hash := hhash
  index status _ hmem := hindex status hmem
  claims := hclaims
  objects object hmem := .inl (hobjects ▸ hmem)
  dirs p := by
    rw [hdirs]
    by_cases hp : s.dirs p = none
    · exact .inl hp
    · exact .inr (.inl hp)
  plain h := by rw [hdirs, h]

theorem Allowed.of_same {s' : State} (hdel : s'.del = s.del) (hredis : s'.redis = s.redis)
    (hobjects : s'.objects = s.objects) (hdirs : s'.dirs = s.dirs) : Allowed c s s' := by
  refine .of_redis hdel hobjects hdirs (fun r hr hcov => ⟨r, hredis ▸ hr, hcov⟩) (fun _ => ?_)
    (fun status hmem => .inl (hredis ▸ hmem)) ?_
  · rw [hredis]
  · rw [hredis]

/-- The object is put, or metadata goes to a directory that exists. -/
theorem allowed_write (object : String) (h : (!c.isCloudPrimary || mayPut s object) = true) :
    Allowed c s (c.write s object) := by
  rw [write]
  split
  · rename_i hcloud
    rw [hcloud, Bool.not_true, Bool.false_or] at h
    have hsame : Allowed c s s := .of_same rfl rfl rfl rfl
    refine ⟨rfl, hsame.record, fun _ => rfl, fun _ _ hmem => .inl hmem, rfl, fun o ho => ?_,
      hsame.dirs, fun hplain => hplain⟩
    dsimp only at ho
    split at ho
    · exact .inl ho
    · obtain ho | ho := List.mem_append.mp ho
      · exact .inl ho
      · rw [List.mem_singleton.mp ho]
        exact .inr h
  · have hplain : s.dirs .plain = none →
        Function.update s.dirs .plain ((s.dirs .plain).map fun _ => true) .plain = none := by
      intro hnone
      rw [Function.update_self, hnone]
      rfl
    refine ⟨rfl, fun _ r hr hcov => ⟨r, hr, hcov.of_plain hplain⟩, fun _ => rfl,
      fun _ _ hmem => .inl hmem, rfl, fun _ ho => .inl ho, fun p => ?_, hplain⟩
    by_cases hp : s.dirs p = none
    · refine .inl ?_
      cases p with
      | plain => exact hplain hp
      | marked => exact hp
    · exact .inr (.inl hp)

theorem allowed_place (hdir : (s.dirs .plain).isSome = true)
    (h : (!c.isCloudPrimary || mayPut s reasoningObject) = true) : Allowed c s (c.place s) := by
  have hdirs : ∀ o, s.dirs .plain = some o →
      Function.update s.dirs .plain (some ((s.dirs .plain).getD false)) = s.dirs := by
    intro o ho
    rw [ho, Option.getD_some, ← ho, Function.update_eq_self]
  obtain ⟨o, ho⟩ := Option.isSome_iff_exists.mp hdir
  rw [place, hdirs o ho]
  split
  · exact allowed_write reasoningObject h
  · exact .of_same rfl rfl rfl rfl

theorem Allowed.trans_same {s' s'' : State} (h : Allowed c s s') (hdel : s''.del = s'.del)
    (hredis : s''.redis = s'.redis) (hobjects : s''.objects = s'.objects) (hdirs : s''.dirs = s'.dirs) :
    Allowed c s s'' where
  del := hdel.trans h.del
  record hm r hr hcov := by
    obtain ⟨r', hr', hcov'⟩ := h.record hm r hr hcov
    exact ⟨r', hredis ▸ hr', hcov'.of_plain fun hp => by rw [hdirs, hp]⟩
  hash hm := by rw [hredis, h.hash hm]
  index status hi hmem := h.index status hi (hredis ▸ hmem)
  claims := by rw [hredis, h.claims]
  objects object hmem := h.objects object (hobjects ▸ hmem)
  dirs p := by
    rw [hdirs]
    exact h.dirs p
  plain hp := by rw [hdirs, h.plain hp]

/-- A hash that may still be set is set. -/
theorem allowed_put {s' : State} (e : Entry → Entry) (hm : mayHset s = true) (hdel : s'.del = s.del)
    (hredis : s'.redis = s.redis.put c.sid (e (s.redis.sessions c.sid)))
    (hobjects : s'.objects = s.objects) (hdirs : s'.dirs = s.dirs)
    (hrecord : ∀ r, Covers c s r → ∃ r', e (.record r) = .record r' ∧ Covers c s r') :
    Allowed c s s' := by
  refine .of_redis hdel hobjects hdirs (fun r hr hcov => ?_) (fun hno => ?_)
    (fun status hmem => .inl ?_) ?_
  · obtain ⟨r', he, hcov'⟩ := hrecord r hcov
    refine ⟨r', (s'.redis.get_eq_ok c.sid r').mpr ?_, hcov'⟩
    rw [hredis, Redis.put, (s.redis.get_eq_ok c.sid r).mp hr, ← he]
    exact Function.update_self _ _ _
  · rw [hm] at hno
    cases hno
  · rw [hredis] at hmem
    exact hmem
  · rw [hredis]
    rfl

theorem allowed_updating {s' : State} {t : Task} (hid : t.sessionId = c.sid) (hu : t.isUpdate = true)
    (hhset : ∀ sid new, t = .updateHset sid new → mayHset s = true)
    (hadd : ∀ sid new, t = .updateSadd sid new → mayAdd s new = true)
    (hdel : s'.del = s.del) (hredis : s'.redis = (t.step s.redis).1)
    (hobjects : s'.objects = s.objects) (hdirs : s'.dirs = s.dirs) : Allowed c s s' := by
  cases t with
  | updateHget sid new =>
    refine .of_same hdel (hredis.trans ?_) hobjects hdirs
    rw [Task.step]
    split
    · rfl
    · rfl
  | updateSrem sid old new =>
    refine .of_redis hdel hobjects hdirs (fun r hr hcov => ⟨r, hredis ▸ hr, hcov⟩)
      (fun _ => by rw [hredis]; rfl) (fun status hmem => .inl ?_) (by rw [hredis]; rfl)
    rw [hredis] at hmem
    exact (mem_srem.mp hmem).1
  | updateHset sid new =>
    obtain rfl : sid = c.sid := hid
    exact allowed_put (Entry.setStatus new) (hhset _ _ rfl) hdel hredis hobjects hdirs
      fun r hcov => ⟨{ r with status := new }, rfl, hcov⟩
  | updateSadd sid new =>
    refine .of_redis hdel hobjects hdirs (fun r hr hcov => ⟨r, hredis ▸ hr, hcov⟩)
      (fun _ => by rw [hredis]; rfl) (fun status hmem => ?_) (by rw [hredis]; rfl)
    rw [hredis] at hmem
    obtain hmem | ⟨rfl, -⟩ := mem_sadd.mp hmem
    · exact .inl hmem
    · exact .inr (hadd _ _ rfl)
  | updatePersist sid => exact .of_same hdel hredis hobjects hdirs
  | registerExists _ | registerHset _ | registerSadd _ | deleteDel _ | deleteSrem _ _ => cases hu

/-- The directory moves to its marked place. -/
theorem allowed_moving {s' : State} {owned : Bool} (hplain : s.dirs .plain = some owned)
    (hdel : s'.del = s.del) (hredis : s'.redis = s.redis) (hobjects : s'.objects = s.objects)
    (hgone : s'.dirs .plain = none) : Allowed c s s' where
  del := hdel
  record _ r hr _ := ⟨r, hredis ▸ hr, .inr hgone⟩
  hash _ := by rw [hredis]
  index status _ hmem := .inl (hredis ▸ hmem)
  claims := by rw [hredis]
  objects object hmem := .inl (hobjects ▸ hmem)
  dirs p := by
    cases p with
    | plain => exact .inl hgone
    | marked => exact .inr (.inr ⟨rfl, by rw [hplain]; simp⟩)
  plain _ := hgone

/-- A step of a loop that has left keeps both. -/
theorem stands_advance (h : Stands c s) (wasDegraded placeholders : Bool)
    (hi : c.InTime s (.advance wasDegraded placeholders) = true) :
    Stands c (c.advance s wasDegraded placeholders) := by
  obtain ⟨hloop, hdel⟩ := h
  have hsame : ∀ s' : State, s'.del = s.del → s'.redis = s.redis → s'.objects = s.objects →
      s'.dirs = s.dirs → DeleteStands c s' :=
    fun s' h1 h2 h3 h4 => (Allowed.of_same h1 h2 h3 h4).deleteStands hdel
  rw [InTime] at hi
  rw [LoopStands] at hloop
  rw [advance]
  cases hl : s.loop with
  | running => exact ⟨by rw [LoopStands, hl]; trivial, hdel⟩
  | ended => exact ⟨by rw [LoopStands, hl]; trivial, hdel⟩
  | storing doneCleanly =>
    cases doneCleanly with
    | true => exact ⟨trivial, hsame _ rfl rfl rfl rfl⟩
    | false => exact ⟨⟨rfl, rfl⟩, hsame _ rfl rfl rfl rfl⟩
  | placing =>
    rw [hl] at hi
    refine ⟨⟨rfl, rfl⟩, ?_⟩
    dsimp only
    split
    · rename_i hplaceholders
      rw [hplaceholders, Bool.not_true, Bool.false_or, Bool.and_eq_true] at hi
      exact ((allowed_place hi.1 hi.2).trans_same rfl rfl rfl rfl).deleteStands hdel
    · exact hsame _ rfl rfl rfl rfl
  | updating doneCleanly t =>
    rw [hl] at hi hloop
    obtain ⟨hid, hu⟩ := hloop
    have hhset : ∀ sid new, t = .updateHset sid new → mayHset s = true := by
      rintro sid new rfl
      exact hi
    have hadd : ∀ sid new, t = .updateSadd sid new → mayAdd s new = true := by
      rintro sid new rfl
      exact hi
    have hallowed : ∀ s' : State, s'.del = s.del → s'.redis = (t.step s.redis).1 →
        s'.objects = s.objects → s'.dirs = s.dirs → DeleteStands c s' :=
      fun s' h1 h2 h3 h4 => (allowed_updating hid hu hhset hadd h1 h2 h3 h4).deleteStands hdel
    dsimp only
    split
    · rename_i redis t' hstep
      have hnext : (t.step s.redis).2 = some t' := by rw [hstep]
      obtain ⟨hid', hu'⟩ := update_next hu hnext
      exact ⟨⟨hid'.trans hid, hu'⟩, hallowed _ rfl (by rw [hstep]) rfl rfl⟩
    · rename_i redis hstep
      split
      · exact ⟨trivial, hallowed _ rfl (by rw [hstep]; rfl) rfl rfl⟩
      · exact ⟨trivial, hallowed _ rfl (by rw [hstep]) rfl rfl⟩
  | moving =>
    dsimp only
    split
    · rename_i hmarked
      exact ⟨.inl hmarked, hsame _ rfl rfl rfl rfl⟩
    · split
      · rename_i owned hplain hnone
        have hgone : Function.update (Function.update s.dirs .plain none) .marked (some owned) .plain =
            none := by
          rw [Function.update_of_ne (show Place.plain ≠ .marked by decide), Function.update_self]
        exact ⟨.inr hgone, Allowed.deleteStands (s := s) (allowed_moving hplain rfl rfl rfl hgone) hdel⟩
      · exact ⟨trivial, hsame _ rfl rfl rfl rfl⟩
  | pathing =>
    rw [hl] at hi hloop
    refine ⟨trivial, Allowed.deleteStands ?_ hdel⟩
    refine allowed_put (Entry.setMemoryPath c.markedPath) hi rfl rfl rfl rfl fun r hcov => ?_
    refine ⟨{ r with memoryPath := c.markedPath }, rfl, ?_⟩
    obtain hmarked | hplain := hloop
    · exact .inl (if_pos hmarked)
    · exact .inr hplain

theorem covers_purge {o : Option SessionRecord} (h : ∃ r, o = some r ∧ Covers c s r) :
    c.places o <:+ [.plain, .marked] ∧ ∀ p, p ∉ c.places o → s.dirs p = none := by
  obtain ⟨r, rfl, hcov⟩ := h
  rw [places]
  split
  · refine ⟨List.suffix_refl _, fun p hp => ?_⟩
    cases p with
    | plain => exact absurd List.mem_cons_self hp
    | marked => exact absurd (List.mem_cons_of_mem _ List.mem_cons_self) hp
  · rename_i hpath
    refine ⟨List.suffix_cons _ _, fun p hp => ?_⟩
    cases p with
    | plain => exact hcov.resolve_left hpath
    | marked => exact absurd List.mem_cons_self hp

/-- A step of DeleteSession removes what it says. -/
theorem deleteStands_delete (hsid : c.sid ≠ "") (h : DeleteStands c s)
    (hi : c.InTime s .delete = true) : DeleteStands c (c.delete s) := by
  rw [DeleteStands] at h
  rw [InTime] at hi
  rw [delete]
  cases hdel : s.del with
  | asked =>
    rw [hdel] at h
    obtain ⟨r, hr, hcov⟩ := h
    dsimp only
    rw [hr]
    exact ⟨rfl, ⟨r, rfl, hcov⟩, trivial⟩
  | registry o t =>
    rw [hdel] at h
    obtain ⟨hid, hcov, hpoint⟩ := h
    cases t with
    | deleteDel sid =>
      obtain rfl : sid = c.sid := hid
      dsimp only
      rw [Task.step, if_neg hsid]
      refine ⟨rfl, hcov, ?_, fun status hindexed _ => mem_statusSets hindexed⟩
      rw [Redis.put]
      exact Function.update_self _ _ _
    | deleteSrem sid sets =>
      obtain rfl : sid = c.sid := hid
      obtain ⟨habsent, hsets⟩ := hpoint
      cases sets with
      | nil =>
        refine ⟨hcov, habsent, fun status hindexed hmem => ?_, Function.update_self _ _ _⟩
        cases hsets status hindexed hmem
      | cons set sets =>
        refine ⟨rfl, hcov, habsent, fun status hindexed hmem => ?_⟩
        obtain ⟨hmem, hne⟩ := mem_srem.mp hmem
        obtain rfl | hrest := List.mem_cons.mp (hsets status hindexed hmem)
        · exact absurd ⟨rfl, rfl⟩ hne
        · exact hrest
    | registerExists _ | registerHset _ | registerSadd _ | updateHget _ _ | updateSrem _ _ _
    | updateHset _ _ | updateSadd _ _ | updatePersist _ => exact hpoint.elim
  | listing o =>
    rw [hdel] at h
    obtain ⟨hcov, hclear⟩ := h
    dsimp only
    split
    · exact ⟨hcov, hclear, fun _ ho => ho⟩
    · exact ⟨hclear, rfl, covers_purge hcov⟩
  | removing o rest =>
    rw [hdel] at h
    obtain ⟨hcov, hclear, hrest⟩ := h
    cases rest with
    | nil =>
      refine ⟨hclear, List.eq_nil_iff_forall_not_mem.mpr fun object ho => ?_, covers_purge hcov⟩
      cases hrest object ho
    | cons object rest =>
      refine ⟨hcov, hclear, fun object' ho => ?_⟩
      obtain ⟨ho, hne⟩ := List.mem_filter.mp ho
      exact (List.mem_cons.mp (hrest object' ho)).resolve_left (of_decide_eq_true hne)
  | purging ps =>
    rw [hdel] at h hi
    obtain ⟨hclear, hnone, hps, hdirs⟩ := h
    cases ps with
    | nil => exact ⟨hclear, hnone, fun p => hdirs p List.not_mem_nil⟩
    | cons p ps =>
      have howns : s.dirs p ≠ some false := of_decide_eq_true hi
      have hpurged : ∀ q, q ∉ ps →
          Function.update s.dirs p (if s.dirs p = some true then none else s.dirs p) q = none := by
        intro q hq
        by_cases hqp : q = p
        · rw [hqp, Function.update_self]
          split
          · rfl
          · rename_i howned
            cases hp : s.dirs p with
            | none => rfl
            | some owned =>
              cases owned with
              | true => exact absurd hp howned
              | false => exact absurd hp howns
        · rw [Function.update_of_ne hqp]
          refine hdirs q fun hmem => ?_
          exact (List.mem_cons.mp hmem).elim hqp hq
      exact ⟨hclear, hnone, (List.suffix_cons p ps).trans hps, hpurged⟩
  | ended =>
    rw [hdel] at h
    rw [DeleteStands, hdel]
    exact h

/-- DeleteSession leaves the loop where it is, and makes no directory. -/
theorem delete_frame (c : Deleted) (s : State) :
    (c.delete s).loop = s.loop ∧ (s.dirs .plain = none → (c.delete s).dirs .plain = none) := by
  rw [delete]
  cases s.del with
  | asked =>
    dsimp only
    split
    · exact ⟨rfl, fun h => h⟩
    · exact ⟨rfl, fun h => h⟩
  | registry r t =>
    dsimp only
    split
    · exact ⟨rfl, fun h => h⟩
    · exact ⟨rfl, fun h => h⟩
  | listing r =>
    dsimp only
    split
    · exact ⟨rfl, fun h => h⟩
    · exact ⟨rfl, fun h => h⟩
  | removing r rest =>
    cases rest with
    | nil => exact ⟨rfl, fun h => h⟩
    | cons object rest => exact ⟨rfl, fun h => h⟩
  | purging ps =>
    cases ps with
    | nil => exact ⟨rfl, fun h => h⟩
    | cons p ps =>
      refine ⟨rfl, fun h => ?_⟩
      dsimp only
      rw [Function.update_apply]
      split
      · rename_i hp
        rw [← hp, h]
        rfl
      · exact h
  | ended => exact ⟨rfl, fun h => h⟩

/-- Every input in time keeps what has been removed. -/
theorem stands_step (hsid : c.sid ≠ "") (i : Input) (h : Stands c s) (hi : c.InTime s i = true) :
    Stands c (c.step s i) := by
  obtain ⟨hloop, hdel⟩ := h
  have hsame : ∀ s' : State, s'.del = s.del → s'.redis = s.redis → s'.objects = s.objects →
      s'.dirs = s.dirs → DeleteStands c s' :=
    fun s' h1 h2 h3 h4 => (Allowed.of_same h1 h2 h3 h4).deleteStands hdel
  cases i with
  | write object =>
    rw [step]
    split
    · rename_i hwrites
      rw [InTime, hwrites, Bool.not_true, Bool.false_or] at hi
      refine ⟨?_, (allowed_write object hi).deleteStands hdel⟩
      have hpoint : (c.write s object).loop = s.loop := by
        rw [write]
        split
        · rfl
        · rfl
      rw [writes] at hwrites
      rw [LoopStands, hpoint]
      cases hl : s.loop with
      | running => trivial
      | storing doneCleanly => trivial
      | placing | updating _ _ | moving | pathing | ended =>
        rw [hl] at hwrites
        cases hwrites
    · exact ⟨hloop, hdel⟩
  | signal => exact ⟨hloop, hsame _ rfl rfl rfl rfl⟩
  | leave doneCleanly =>
    rw [step, leave]
    split
    · split
      · exact ⟨hloop, hdel⟩
      · exact ⟨trivial, hsame _ rfl rfl rfl rfl⟩
    · exact ⟨hloop, hdel⟩
  | advance wasDegraded placeholders => exact stands_advance ⟨hloop, hdel⟩ wasDegraded placeholders hi
  | delete =>
    obtain ⟨hpoint, hplain⟩ := delete_frame c s
    refine ⟨?_, deleteStands_delete hsid hdel hi⟩
    rw [LoopStands] at hloop
    rw [LoopStands, step, hpoint]
    cases hl : s.loop with
    | updating doneCleanly t =>
      rw [hl] at hloop
      exact hloop
    | pathing =>
      rw [hl] at hloop
      exact hloop.imp_right hplain
    | running | storing _ | placing | moving | ended => trivial

theorem Stands.gone (h : Stands c s) (hdel : s.del = .ended) : c.Gone s := by
  obtain ⟨-, hstands⟩ := h
  rw [DeleteStands, hdel] at hstands
  obtain ⟨⟨hhash, hindex, hclaim⟩, hobjects, hdirs⟩ := hstands
  exact ⟨hhash, hindex, hclaim, hobjects, hdirs⟩

end Clearing

/-- A session is recorded when DeleteSession is asked for. -/
def start (redis : Redis) (handle : Bool) (objects : List String) (dirs : Place → Option Bool) : State :=
  ⟨redis, handle, objects, dirs, .running, .asked⟩

/-- If its loop writes in time, nothing is left of a session when its loop and its
DeleteSession have finished. -/
theorem gone_of_inTime (c : Deleted) (hsid : c.sid ≠ "") (redis : Redis) (r : SessionRecord)
    (handle : Bool) (objects : List String) (dirs : Place → Option Bool) (is : List Input)
    (hr : redis.get c.sid = .ok r) (hpath : r.memoryPath = c.path)
    (hg : Guarded c.step (fun s i => c.InTime s i = true) (start redis handle objects dirs) is) :
    Along c.step (fun _ _ s' => s'.loop = .ended → s'.del = .ended → c.Gone s')
      (start redis handle objects dirs) is := by
  have hstep : ∀ s i, Stands c s → c.InTime s i = true → Stands c (c.step s i) :=
    fun _ i h hi => stands_step hsid i h hi
  have hgone : ∀ s i, Stands c s → c.InTime s i = true →
      (c.step s i).loop = .ended → (c.step s i).del = .ended → c.Gone (c.step s i) :=
    fun s i h hi _ hdel => (hstep s i h hi).gone hdel
  exact along_run hstep hgone (start redis handle objects dirs) is
    ⟨trivial, ⟨r, hr, .inl hpath⟩⟩ hg

def demo : Deleted := ⟨"s1", "/memories/demo", false⟩

/-- A local session that is recorded. -/
def recorded (status : SessionStatus) : State :=
  start
    { emptyRegistry with
      sessions := Function.update emptyRegistry.sessions "s1"
        (.record { sampleRecord "s1" with status := status })
      index := Function.update emptyRegistry.index status ["s1"] }
    true [] (fun p => if p = .plain then some true else none)

/-- DeleteSession drops the done handle, and the loop has set its last status
before the hash is deleted. -/
def inTime : List Input :=
  [.write "commands/raw_input.md", .delete, .leave true, .write "metadata.json", .advance false true,
    .advance false true, .advance false true, .advance false true, .advance false true, .delete,
    .advance false true, .advance false true] ++ List.replicate 11 .delete

theorem gone_inTime :
    Along demo.step (fun _ _ s' => s'.loop = .ended → s'.del = .ended → demo.Gone s') (recorded .active)
      inTime :=
  gone_of_inTime demo (by decide) _ { sampleRecord "s1" with status := .active } _ _ _ inTime rfl rfl
    (by decide +kernel)

theorem not_gone {is : List Input} {i : Input} {s : State} (hloop : (run demo.step s (is ++ [i])).loop = .ended)
    (hdel : (run demo.step s (is ++ [i])).del = .ended)
    (hhash : (run demo.step s (is ++ [i])).redis.sessions "s1" ≠ .absent) :
    ¬ Along demo.step (fun _ _ s' => s'.loop = .ended → s'.del = .ended → demo.Gone s') s (is ++ [i]) := by
  intro h
  obtain ⟨-, hlast, -⟩ := (along_append s is [i]).mp h
  rw [run_append] at hloop hdel hhash
  exact hhash (hlast hloop hdel).hash

/-- The loop that was woken by a dropped done handle, or the loop of a degraded
session whose source ends later, sets its status after the hash was deleted. -/
theorem hash_is_back :
    ¬ Along demo.step (fun _ _ s' => s'.loop = .ended → s'.del = .ended → demo.Gone s') (recorded .active)
        ((List.replicate 13 .delete ++ .leave true :: List.replicate 6 (.advance false false)) ++
          [.advance false false]) ∧
      ¬ Along demo.step (fun _ _ s' => s'.loop = .ended → s'.del = .ended → demo.Gone s')
        (recorded .reasoningDegraded)
        ((List.replicate 13 .delete ++ .leave false :: List.replicate 4 (.advance false false)) ++
          [.advance false false]) :=
  ⟨not_gone (by decide +kernel) (by decide +kernel) (by decide +kernel),
    not_gone (by decide +kernel) (by decide +kernel) (by decide +kernel)⟩

end Deleted

end MemoryArchive.Ipc
