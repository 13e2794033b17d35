import MemoryArchive.Data.Runs

namespace MemoryArchive.Storage.Fetch

open Function (update)
open Runs

variable {β : Type}

/-- The objects under the key prefix of a session, by the rest of their keys, which
are file names without directories of the same name. `marker` says that there is an
object whose key is the prefix itself; it stands for no file. -/
structure Objects (β : Type) where
  rows : List (String × β)
  marker : Bool
  distinct : (rows.map Prod.fst).Nodup

def Objects.empty : Objects β := ⟨[], false, .nil⟩

def Objects.content (o : Objects β) (path : String) : Option β := o.rows.lookup path

inductive Cloud
  | aws | azureBlob | azureAdls | azureFiles | gcp
  deriving DecidableEq

/-- The marker is among what is listed, and is not looked at before there is said
to be nothing. -/
def Cloud.countsMarker : Cloud → Bool
  | .azureBlob | .gcp => true
  | .aws | .azureAdls | .azureFiles => false

/-- All is listed before the first download. -/
def Cloud.listsFirst : Cloud → Bool
  | .aws => false
  | .azureBlob | .azureAdls | .azureFiles | .gcp => true

inductive Provider
  | unset
  | cloud (c : Cloud)
  | unknown
  deriving DecidableEq

structure Settings where
  cloudPrimary : Bool
  provider : Provider
  configured : Bool

/-- Where an attempt fails: at a listing after some objects, or in the middle of an
object, of which something may be left. -/
inductive Fault (β : Type)
  | listing (after : Nat)
  | download (k : Nat) (left : Option β)

inductive Dest (β : Type)
  | absent
  | file
  | directory (files : String → Option β)

def Dest.exists : Dest β → Bool
  | .absent => false
  | .file | .directory _ => true

/-- What an attempt leaves: the files, whether a directory has been made for one of
them, and whether it has come to its end. -/
structure Outcome (β : Type) where
  files : List (String × β)
  begun : Bool
  completed : Bool

/-- All of the objects, unless there are none. -/
def fetchAll (c : Cloud) (o : Objects β) : Outcome β :=
  if o.rows.isEmpty && !(o.marker && c.countsMarker) then ⟨[], false, false⟩
  else ⟨o.rows, !o.rows.isEmpty, true⟩

/-- `_fetch_aws`, `_fetch_azure` and `_fetch_gcp`. -/
def fetchFrom (c : Cloud) (o : Objects β) : Option (Fault β) → Outcome β
  | none => fetchAll c o
  | some (.listing after) =>
      let files := if c.listsFirst then [] else o.rows.take after
      ⟨files, !files.isEmpty, false⟩
  | some (.download k left) =>
      match o.rows[k]? with
      | none => fetchAll c o
      | some (path, _) => ⟨o.rows.take k ++ (left.map fun b => (path, b)).toList, true, false⟩

/-- A session in one of the clouds, with the two places where a fetch may put it:
the temporary directory (`true`) and the memory path. -/
structure State (β : Type) where
  home : Cloud
  objects : Objects β
  dest : Bool → Dest β

inductive Input (β : Type)
  | fetch (m : Settings) (fault : Option (Fault β))
  | store (o : Objects β)
  | edit (path : String) (content : Option β)
  | clear (gone : Bool) (kept : String → Bool)

namespace State

variable (s : State β)

def setDest (mode : Bool) (d : Dest β) : State β := { s with dest := update s.dest mode d }

def objectsIn (c : Cloud) : Objects β := if c = s.home then s.objects else .empty

/-- What the attempt is that a call makes, if it comes to one. -/
def attempt (m : Settings) (fault : Option (Fault β)) : Outcome β :=
  match m.provider with
  | .unset | .unknown => ⟨[], false, false⟩
  | .cloud c => if m.configured then fetchFrom c (s.objectsIn c) fault else ⟨[], false, false⟩

/-- `fetch_session_if_missing`, and whether it returns a path. The temporary
directory is made before the attempt. -/
def fetchSessionIfMissing (m : Settings) (fault : Option (Fault β)) : State β × Bool :=
  if (s.dest m.cloudPrimary).exists then (s, true)
  else if m.provider = .unset then (s, false)
  else
    let outcome := s.attempt m fault
    if m.cloudPrimary || outcome.begun then
      (s.setDest m.cloudPrimary (.directory fun path => outcome.files.lookup path), outcome.completed)
    else (s, outcome.completed)

/-- A file of the temporary directory is written or removed. -/
def edit (path : String) (content : Option β) : State β :=
  match s.dest true with
  | .directory files => s.setDest true (.directory (update files path content))
  | .absent | .file => s

/-- The temporary directory is removed, as far as that goes. -/
def clear (gone : Bool) (kept : String → Bool) : State β :=
  if gone then s.setDest true .absent
  else
    match s.dest true with
    | .directory files => s.setDest true (.directory fun path => if kept path then files path else none)
    | .absent | .file => s

def step : Input β → State β
  | .fetch m fault => (s.fetchSessionIfMissing m fault).1
  | .store o => { s with objects := o }
  | .edit path content => s.edit path content
  | .clear gone kept => s.clear gone kept

/-- The temporary directory holds exactly the objects. -/
def Holds : Prop := s.dest true = .directory s.objects.content

/-- A call that returns at once returns the session. -/
def Ready : Prop := s.dest true = .absent ∨ s.Holds

/-- A call in cloud_primary mode that returns a path has the session there, and one
that fails leaves nothing. -/
def Complete (i : Input β) (s' : State β) : Prop :=
  match i with
  | .fetch m fault =>
      ((s.fetchSessionIfMissing m fault).2 = true → m.cloudPrimary = true → s'.Holds) ∧
        ((s.fetchSessionIfMissing m fault).2 = false → s'.dest m.cloudPrimary = .absent)
  | _ => True

/-- The attempt runs through: the session is in the cloud that is asked, with
something to list, and neither a listing nor a download fails. -/
def Completes (m : Settings) (fault : Option (Fault β)) : Prop :=
  m.provider = .cloud s.home ∧ m.configured = true ∧
    (s.objects.rows ≠ [] ∨ s.objects.marker = true ∧ s.home.countsMarker = true) ∧
    match fault with
    | none => True
    | some (.listing _) => False
    | some (.download k _) => s.objects.rows.length ≤ k

/-- The attempt comes to the first object. -/
def Begins (m : Settings) (fault : Option (Fault β)) : Prop :=
  m.provider = .cloud s.home ∧ m.configured = true ∧ s.objects.rows ≠ [] ∧
    match fault with
    | none | some (.download _ _) => True
    | some (.listing after) => s.home.listsFirst = false ∧ 0 < after

/-- A call that finds nothing either has no provider, or runs through, or (in local
mode) does not come to the first object; while the temporary directory exists, it and
the objects stay as they are. -/
def Steady : Input β → Prop
  | .fetch m fault =>
      (s.dest m.cloudPrimary).exists = false → m.provider ≠ .unset →
        s.Completes m fault ∨ m.cloudPrimary = false ∧ ¬ s.Begins m fault
  | .store o => s.dest true = .absent ∨ o.content = s.objects.content
  | .edit path content => s.dest true = .absent ∨ content = s.objects.content path
  | .clear gone kept =>
      gone = true ∨ s.dest true = .absent ∨ ∀ path, s.objects.content path ≠ none → kept path = true

end State

section Attempt

open State

variable {s : State β} {m : Settings} {fault : Option (Fault β)}

theorem completed_fetchAll (c : Cloud) (o : Objects β) :
    (fetchAll c o).completed = true ↔ o.rows ≠ [] ∨ o.marker = true ∧ c.countsMarker = true := by
  rw [fetchAll]
  split
  · rename_i hnone
    simp only [Bool.and_eq_true, List.isEmpty_iff, Bool.not_eq_true', Bool.and_eq_false_iff] at hnone
    obtain ⟨hrows, hmarker⟩ := hnone
    refine iff_of_false Bool.false_ne_true ?_
    rintro (h | ⟨h, h'⟩)
    · exact h hrows
    · rw [h, h'] at hmarker
      simp at hmarker
  · rename_i hsome
    refine iff_of_true rfl ?_
    by_contra hnot
    rw [not_or, not_not, not_and, Bool.not_eq_true] at hnot
    apply hsome
    rw [hnot.1]
    cases hmarker : o.marker with
    | false => rfl
    | true =>
      rw [hnot.2 hmarker]
      rfl

theorem files_fetchAll (c : Cloud) (o : Objects β) :
    (fetchAll c o).files = o.rows ∧ ((fetchAll c o).begun = true ↔ o.rows ≠ []) := by
  rw [fetchAll]
  split
  · rename_i hnone
    rw [Bool.and_eq_true, List.isEmpty_iff] at hnone
    rw [hnone.1]
    exact ⟨rfl, iff_of_false Bool.false_ne_true fun h => h rfl⟩
  · refine ⟨rfl, ?_⟩
    rw [Bool.not_eq_true', Bool.eq_false_iff, Ne, List.isEmpty_iff]

theorem objectsIn_home (s : State β) : s.objectsIn s.home = s.objects := if_pos rfl

theorem fetchFrom_empty (c : Cloud) (fault : Option (Fault β)) :
    (fetchFrom c .empty fault).completed = false ∧ (fetchFrom c .empty fault).begun = false := by
  cases fault with
  | none => exact ⟨rfl, rfl⟩
  | some fault =>
    cases fault with
    | listing after =>
      rw [fetchFrom, Objects.empty, List.take_nil, ite_self]
      exact ⟨rfl, rfl⟩
    | download k left => exact ⟨rfl, rfl⟩

/-- An attempt that asks the right cloud is one on the objects of the session; any
other does nothing. -/
theorem attempt_cases (s : State β) (m : Settings) (fault : Option (Fault β)) :
    (m.provider = .cloud s.home ∧ m.configured = true ∧ s.attempt m fault = fetchFrom s.home s.objects fault) ∨
      (¬ (m.provider = .cloud s.home ∧ m.configured = true) ∧ (s.attempt m fault).completed = false ∧
        (s.attempt m fault).begun = false) := by
  rw [State.attempt]
  split
  · rename_i h
    exact .inr ⟨fun hm => (by rw [h] at hm; cases hm.1), rfl, rfl⟩
  · rename_i h
    exact .inr ⟨fun hm => (by rw [h] at hm; cases hm.1), rfl, rfl⟩
  · rename_i c h
    split
    · rename_i hconfigured
      by_cases hhome : c = s.home
      · subst hhome
        exact .inl ⟨h, hconfigured, by rw [objectsIn_home]⟩
      · refine .inr ⟨fun hm => ?_, ?_⟩
        · rw [h] at hm
          exact hhome (Provider.cloud.inj hm.1)
        · rw [State.objectsIn, if_neg hhome]
          exact fetchFrom_empty c fault
    · rename_i hconfigured
      exact .inr ⟨fun hm => hconfigured hm.2, rfl, rfl⟩

theorem completed_iff : (s.attempt m fault).completed = true ↔ s.Completes m fault := by
  obtain ⟨hprovider, hconfigured, hattempt⟩ | ⟨hnot, hcompleted, -⟩ := attempt_cases s m fault
  · unfold State.Completes
    rw [hattempt, and_iff_right hprovider, and_iff_right hconfigured]
    cases fault with
    | none => exact (completed_fetchAll s.home s.objects).trans (and_iff_left trivial).symm
    | some fault =>
      cases fault with
      | listing after => exact iff_of_false Bool.false_ne_true fun h => h.2
      | download k left =>
        rw [fetchFrom]
        cases hrow : s.objects.rows[k]? with
        | none =>
          have hlength := List.getElem?_eq_none_iff.mp hrow
          exact (completed_fetchAll s.home s.objects).trans (and_iff_left hlength).symm
        | some row =>
          obtain ⟨hlt, -⟩ := List.getElem?_eq_some_iff.mp hrow
          exact iff_of_false Bool.false_ne_true fun h => Nat.not_le.mpr hlt h.2
  · rw [hcompleted]
    exact iff_of_false Bool.false_ne_true fun h => hnot ⟨h.1, h.2.1⟩

theorem begun_iff : (s.attempt m fault).begun = true ↔ s.Begins m fault := by
  obtain ⟨hprovider, hconfigured, hattempt⟩ | ⟨hnot, -, hbegun⟩ := attempt_cases s m fault
  · unfold State.Begins
    rw [hattempt, and_iff_right hprovider, and_iff_right hconfigured]
    cases fault with
    | none => exact (files_fetchAll s.home s.objects).2.trans (and_iff_left trivial).symm
    | some fault =>
      cases fault with
      | listing after =>
        rw [fetchFrom]
        cases hfirst : s.home.listsFirst with
        | true => exact iff_of_false Bool.false_ne_true fun h => by cases h.2.1
        | false =>
          change (!(s.objects.rows.take after).isEmpty) = true ↔ _
          rw [Bool.not_eq_true', Bool.eq_false_iff, Ne, List.isEmpty_iff, List.take_eq_nil_iff, not_or, and_comm]
          exact and_congr Iff.rfl ⟨fun h => ⟨rfl, Nat.pos_of_ne_zero h⟩, fun h => Nat.pos_iff_ne_zero.mp h.2⟩
      | download k left =>
        rw [fetchFrom]
        cases hrow : s.objects.rows[k]? with
        | none => exact (files_fetchAll s.home s.objects).2.trans (and_iff_left trivial).symm
        | some row =>
          refine iff_of_true rfl ⟨?_, trivial⟩
          intro hnil
          rw [hnil] at hrow
          cases hrow
  · rw [hbegun]
    exact iff_of_false Bool.false_ne_true fun h => hnot ⟨h.1, h.2.1⟩

/-- An attempt that runs through leaves the objects. -/
theorem files_of_completed (h : (s.attempt m fault).completed = true) :
    (s.attempt m fault).files = s.objects.rows := by
  obtain ⟨-, -, hattempt⟩ | ⟨-, hcompleted, -⟩ := attempt_cases s m fault
  · rw [hattempt] at h ⊢
    cases fault with
    | none => exact (files_fetchAll s.home s.objects).1
    | some fault =>
      cases fault with
      | listing after => cases h
      | download k left =>
        rw [fetchFrom] at h ⊢
        cases hrow : s.objects.rows[k]? with
        | none => exact (files_fetchAll s.home s.objects).1
        | some row =>
          rw [hrow] at h
          cases h
  · rw [hcompleted] at h
    cases h

end Attempt

section Property

open State

variable {s : State β}

theorem dest_setDest (s : State β) (mode : Bool) (d : Dest β) : (s.setDest mode d).dest mode = d :=
  Function.update_self _ _ _

theorem absent_of_exists {d : Dest β} (h : d.exists = false) : d = .absent := by
  cases d with
  | absent => rfl
  | file => cases h
  | directory files => cases h

/-- A call that finds a directory leaves it. -/
theorem fetch_exists {m : Settings} (fault : Option (Fault β)) (h : (s.dest m.cloudPrimary).exists = true) :
    s.fetchSessionIfMissing m fault = (s, true) := if_pos h

/-- A call that finds nothing, and has a provider, makes a directory in cloud_primary
mode, and otherwise with the first object. -/
theorem fetch_absent {m : Settings} (fault : Option (Fault β)) (h : (s.dest m.cloudPrimary).exists = false)
    (hset : m.provider ≠ .unset) :
    s.fetchSessionIfMissing m fault =
      (if m.cloudPrimary || (s.attempt m fault).begun then
        s.setDest m.cloudPrimary (.directory fun path => (s.attempt m fault).files.lookup path)
      else s, (s.attempt m fault).completed) := by
  rw [State.fetchSessionIfMissing, h, if_neg Bool.false_ne_true, if_neg hset]
  dsimp only
  split <;> rfl

/-- A call that runs through leaves the objects. -/
theorem holds_of_completed {m : Settings} {fault : Option (Fault β)}
    (h : (s.attempt m fault).completed = true) :
    (s.setDest true (.directory fun path => (s.attempt m fault).files.lookup path)).Holds := by
  rw [State.Holds, dest_setDest, files_of_completed h]
  rfl

/-- The memory path is no temporary directory. -/
theorem ready_setDest_local (hs : s.Ready) (d : Dest β) : (s.setDest false d).Ready := by
  have hother : (s.setDest false d).dest true = s.dest true :=
    Function.update_of_ne Bool.false_ne_true.symm d s.dest
  rw [State.Ready, State.Holds, hother]
  exact hs

theorem fetch_iff (hs : s.Ready) (m : Settings) (fault : Option (Fault β)) :
    s.Complete (.fetch m fault) (s.step (.fetch m fault)) ∧ (s.step (.fetch m fault)).Ready ↔
      s.Steady (.fetch m fault) := by
  rw [State.Complete, State.step, State.Steady]
  cases hexists : (s.dest m.cloudPrimary).exists with
  | true =>
    rw [fetch_exists fault hexists]
    refine iff_of_true ⟨⟨fun _ hmode => ?_, fun h => by cases h⟩, hs⟩ fun h => by cases h
    obtain habsent | hholds := hs
    · rw [hmode, habsent] at hexists
      cases hexists
    · exact hholds
  | false =>
    have habsent := absent_of_exists hexists
    by_cases hunset : m.provider = .unset
    · rw [State.fetchSessionIfMissing, hexists, if_neg Bool.false_ne_true, if_pos hunset]
      exact iff_of_true ⟨⟨fun h => (by cases h), fun _ => habsent⟩, hs⟩ fun _ hset => absurd hunset hset
    · rw [fetch_absent fault hexists hunset, ← completed_iff, ← begun_iff]
      have hguard (Q : Prop) : (false = false → m.provider ≠ .unset → Q) ↔ Q :=
        ⟨fun h => h rfl hunset, fun h _ _ => h⟩
      rw [hguard]
      dsimp only
      cases hmode : m.cloudPrimary with
      | true =>
        rw [Bool.true_or, if_pos rfl]
        cases hcompleted : (s.attempt m fault).completed with
        | true =>
          have hholds := holds_of_completed hcompleted
          exact iff_of_true ⟨⟨fun _ _ => hholds, fun h => (by cases h)⟩, .inr hholds⟩ (.inl rfl)
        | false =>
          refine iff_of_false ?_ ?_
          · rintro ⟨⟨-, hnothing⟩, -⟩
            have hdest := hnothing rfl
            rw [dest_setDest] at hdest
            cases hdest
          · rintro (h | ⟨h, -⟩) <;> cases h
      | false =>
        rw [hmode] at habsent
        rw [Bool.false_or]
        cases hbegun : (s.attempt m fault).begun with
        | false =>
          rw [if_neg Bool.false_ne_true]
          refine iff_of_true ⟨⟨fun _ h => (by cases h), fun _ => habsent⟩, hs⟩ ?_
          exact .inr ⟨rfl, Bool.false_ne_true⟩
        | true =>
          rw [if_pos rfl]
          have hready := ready_setDest_local hs (.directory fun path => (s.attempt m fault).files.lookup path)
          cases hcompleted : (s.attempt m fault).completed with
          | true => exact iff_of_true ⟨⟨fun _ h => (by cases h), fun h => (by cases h)⟩, hready⟩ (.inl rfl)
          | false =>
            refine iff_of_false ?_ ?_
            · rintro ⟨⟨-, hnothing⟩, -⟩
              have hdest := hnothing rfl
              rw [dest_setDest] at hdest
              cases hdest
            · rintro (h | ⟨-, h⟩)
              · cases h
              · exact h rfl

theorem store_iff (hs : s.Ready) (o : Objects β) :
    s.Complete (.store o) (s.step (.store o)) ∧ (s.step (.store o)).Ready ↔ s.Steady (.store o) := by
  refine Iff.trans (and_iff_right trivial) ?_
  change s.dest true = .absent ∨ s.dest true = .directory o.content ↔ _
  rw [State.Steady]
  obtain habsent | hholds := hs
  · exact iff_of_true (.inl habsent) (.inl habsent)
  · rw [show s.dest true = .directory s.objects.content from hholds, Dest.directory.injEq]
    exact or_congr Iff.rfl eq_comm

theorem edit_iff (hs : s.Ready) (path : String) (content : Option β) :
    s.Complete (.edit path content) (s.step (.edit path content)) ∧ (s.step (.edit path content)).Ready ↔
      s.Steady (.edit path content) := by
  refine Iff.trans (and_iff_right trivial) ?_
  rw [State.step, State.Steady, State.edit]
  obtain habsent | hholds := hs
  · rw [habsent]
    exact iff_of_true (.inl habsent) (.inl rfl)
  · rw [show s.dest true = .directory s.objects.content from hholds]
    rw [State.Ready, State.Holds, dest_setDest, Dest.directory.injEq]
    change _ ∨ update s.objects.content path content = s.objects.content ↔ _
    rw [Function.update_eq_self_iff]
    refine or_congr (iff_of_false ?_ ?_) Iff.rfl <;> intro h <;> cases h

/-- A removal that stops half-way changes nothing exactly if it keeps all there is. -/
theorem keeps_iff (files : String → Option β) (kept : String → Bool) :
    (fun path => if kept path then files path else none) = files ↔
      ∀ path, files path ≠ none → kept path = true := by
  refine funext_iff.trans (forall_congr' fun path => ?_)
  cases hkept : kept path with
  | true => exact iff_of_true (if_pos rfl) fun _ => rfl
  | false =>
    rw [if_neg Bool.false_ne_true]
    constructor
    · intro h hne
      exact absurd h.symm hne
    · intro h
      by_contra hne
      cases h (Ne.symm hne)

theorem clear_iff (hs : s.Ready) (gone : Bool) (kept : String → Bool) :
    s.Complete (.clear gone kept) (s.step (.clear gone kept)) ∧ (s.step (.clear gone kept)).Ready ↔
      s.Steady (.clear gone kept) := by
  refine Iff.trans (and_iff_right trivial) ?_
  rw [State.step, State.Steady, State.clear]
  cases gone with
  | true => exact iff_of_true (.inl (dest_setDest s true .absent)) (.inl rfl)
  | false =>
    rw [if_neg Bool.false_ne_true]
    obtain habsent | hholds := hs
    · rw [habsent]
      exact iff_of_true (.inl habsent) (.inr (.inl rfl))
    · rw [show s.dest true = .directory s.objects.content from hholds]
      rw [State.Ready, State.Holds, dest_setDest, Dest.directory.injEq]
      change _ ∨ (fun path => if kept path then s.objects.content path else none) = s.objects.content ↔ _
      rw [keeps_iff, or_iff_right Bool.false_ne_true]
      refine or_congr (iff_of_false ?_ ?_) Iff.rfl <;> intro h <;> cases h

/-- A step keeps the promise exactly if it is steady. -/
theorem step_iff (hs : s.Ready) (i : Input β) :
    s.Complete i (s.step i) ∧ (s.step i).Ready ↔ s.Steady i := by
  cases i with
  | fetch m fault => exact fetch_iff hs m fault
  | store o => exact store_iff hs o
  | edit path content => exact edit_iff hs path content
  | clear gone kept => exact clear_iff hs gone kept

/-- A run that starts with the session or with nothing keeps the promise at every call, and at
every later one, exactly if all its inputs are steady. -/
theorem fetch_complete_iff (s : State β) (is : List (Input β)) :
    s.Ready ∧ Along State.step (fun s i s' => s.Complete i s' ∧ s'.Ready) s is ↔
      s.Ready ∧ Guarded State.step State.Steady s is := by
  have hstep (s : State β) (i : Input β) (hs : s.Ready) :
      s.Complete i (s.step i) ∧ (s.step i).Ready ↔ s.Steady i := step_iff hs i
  have hkeep (s : State β) (i : Input β) (_ : s.Ready) (h : s.Complete i (s.step i) ∧ (s.step i).Ready) :
      (s.step i).Ready := h.2
  exact and_congr_right fun hs => along_iff_guarded_steps hstep hkeep s is hs

end Property

section FirstFailure

/-- The session in AWS is one step; there is no directory yet. -/
def sampleObjects : State Nat := ⟨.aws, ⟨[("step_0001.json", 1)], false, by decide⟩, fun _ => .absent⟩

def sampleSettings : Settings := ⟨true, .cloud .aws, true⟩

/-- The first download fails and leaves the directory that was made for it, which a second
call returns at once, without the step. -/
theorem fetch_incomplete :
    ¬ (sampleObjects.Ready → Along State.step State.Complete sampleObjects
      [.fetch sampleSettings (some (.download 0 none)), .fetch sampleSettings none]) ∧
    ((sampleObjects.step (.fetch sampleSettings (some (.download 0 none)))).fetchSessionIfMissing
      sampleSettings none).2 = true ∧
    ¬ ((sampleObjects.step (.fetch sampleSettings (some (.download 0 none)))).fetchSessionIfMissing
      sampleSettings none).1.Holds := by
  refine ⟨fun h => ?_, rfl, fun hholds => ?_⟩
  · obtain ⟨⟨-, hnothing⟩, -⟩ := h (.inl rfl)
    cases hnothing rfl
  · have hfile := congrFun (Dest.directory.inj hholds) "step_0001.json"
    cases hfile

end FirstFailure

end MemoryArchive.Storage.Fetch
