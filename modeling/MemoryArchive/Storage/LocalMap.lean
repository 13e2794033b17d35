import MemoryArchive.Data.Runs
import MemoryArchive.Data.Table
import MemoryArchive.Data.Walk
import MemoryArchive.Ipc.Confinement

namespace MemoryArchive.Storage.LocalMap

open Walk (childrenOf)

attribute [local instance] lawful_path

variable {β : Type}

/-- `with_extension("tmp")` -/
def temporary (p : Path) : Path := p.dropLast ++ (p.getLast?.map Ipc.Confinement.withTmp).toList

/-- A put under way. It has written its temporary file or not yet. -/
structure Flight (β : Type) where
  path : Path
  bytes : β
  written : Bool

/-- The directory of a session, by paths below it, and the puts under way. -/
structure State (β : Type) where
  files : List (Path × β)
  dirs : List Path
  flights : Nat → Option (Flight β)

/-- The steps of a put and a delete. -/
inductive Input (β : Type)
  | create (id : Nat) (path : Path) (bytes : β)
  | write (id : Nat)
  | rename (id : Nat)
  | delete (path : Path)

def empty : State β := ⟨[], [], fun _ => none⟩

namespace State

variable (s : State β)

/-- Only a regular file is read. -/
def get (p : Path) : Option β := s.files.lookup p

/-- `list`, whose paths are those below the session. -/
def list (lead : Path) : Option (List Path) :=
  if lead ∈ s.dirs then some (Walk.walk s.dirs (s.files.map Prod.fst) s.dirs.length [lead] [])
  else if (s.get lead).isSome then none
  else some []

def without (p : Path) : List (Path × β) := s.files.filter (·.1 ≠ p)

def writeFile (p : Path) (bytes : β) : State β := { s with files := (p, bytes) :: s.without p }

/-- `create_dir_all` finds a file in the place of a directory. -/
def blocked (p : Path) : Bool := p.dropLast.inits.any fun q => (s.get q).isSome

def createDirs (p : Path) : List Path := s.dirs ++ p.dropLast.inits.filter (· ∉ s.dirs)

/-- `rename`, of a file that is there to a place that is no directory. -/
def renameFile (p p' : Path) : State β :=
  match s.get p with
  | none => s
  | some bytes =>
      if p' ∈ s.dirs ∨ p = p' then s
      else { s with files := (p', bytes) :: (s.without p).filter (·.1 ≠ p') }

def leave (id : Nat) : State β := { s with flights := Function.update s.flights id none }

def enter (id : Nat) (f : Flight β) : State β := { s with flights := Function.update s.flights id (some f) }

/-- `put` and the local `put_file`, one call to the file system after the other, and `delete`.
What fails ends its put. -/
def step : Input β → State β
  | .create id p bytes =>
      if (s.flights id).isSome then s
      else if s.blocked p then s
      else { s with dirs := s.createDirs p }.enter id ⟨p, bytes, false⟩
  | .write id =>
      match s.flights id with
      | some ⟨p, bytes, false⟩ =>
          if temporary p ∈ s.dirs then s.leave id
          else (s.writeFile (temporary p) bytes).enter id ⟨p, bytes, true⟩
      | _ => s
  | .rename id =>
      match s.flights id with
      | some ⟨p, _, true⟩ => (s.renameFile (temporary p) p).leave id
      | _ => s
  | .delete p => { s with files := s.without p }

/-- The put that comes to its end in a step, whatever its answer. -/
def ended : Input β → Option (Path × β)
  | .create id p bytes => if (s.flights id).isNone && s.blocked p then some (p, bytes) else none
  | .write id =>
      match s.flights id with
      | some ⟨p, bytes, false⟩ => if temporary p ∈ s.dirs then some (p, bytes) else none
      | _ => none
  | .rename id =>
      match s.flights id with
      | some ⟨p, bytes, true⟩ => some (p, bytes)
      | _ => none
  | .delete _ => none

end State

/-- A session as a map: a put that has ended sets its path, and a delete unsets it. -/
def expect (m : Path → Option β) (s : State β) : Input β → Path → Option β
  | .delete p => Function.update m p none
  | i =>
      match s.ended i with
      | some (p, bytes) => Function.update m p (some bytes)
      | none => m

/-- A session and the map that it should be. -/
structure Session (β : Type) where
  state : State β
  map : Path → Option β

def Session.step (t : Session β) (i : Input β) : Session β := ⟨t.state.step i, expect t.map t.state i⟩

/-- Paths of regular files: none is a directory of another. -/
structure Names where
  carrier : Set Path
  nonempty : ∀ p ∈ carrier, p ≠ []
  apart : ∀ p ∈ carrier, ∀ q ∈ carrier, p <+: q → p = q

/-- The paths of an input are among the names. -/
def Names.Covers (names : Names) : Input β → Prop
  | .create _ p _ | .delete p => p ∈ names.carrier
  | .write _ | .rename _ => True

/-- A path holds the temporary file of a put under way. -/
def State.Temporary (s : State β) (p : Path) : Prop :=
  ∃ id f, s.flights id = some f ∧ f.written = true ∧ temporary f.path = p

/-- Every path reads as in the map, but for the temporary files of puts under way; and
without these the listing is that of the map. -/
structure Session.IsMap (t : Session β) : Prop where
  gets : ∀ p, ¬ t.state.Temporary p → t.state.get p = t.map p
  lists : (∀ p, ¬ t.state.Temporary p) →
    ∃ paths, t.state.list [] = some paths ∧ paths.Nodup ∧ ∀ p, p ∈ paths ↔ (t.map p).isSome = true

/-- A put whose temporary file has a name of its own, and a delete of no temporary file. -/
def State.Apart (s : State β) : Input β → Prop
  | .create id p _ =>
      (s.flights id).isNone = true →
        (temporary p ≠ p → s.get (temporary p) = none) ∧ temporary p ∉ s.dirs ∧
          ∀ id' f, s.flights id' = some f →
            temporary f.path ≠ temporary p ∧ temporary f.path ≠ p ∧ temporary p ≠ f.path ∧
              ¬ temporary f.path <+: p
  | .delete p => ¬ s.Temporary p
  | .write _ | .rename _ => True

section Paths

variable {p q : Path}

/-- The proper beginnings of a path are those of its directory. -/
theorem above_iff (hp : p ≠ []) : q <+: p.dropLast ↔ q <+: p ∧ q ≠ p := by
  obtain ⟨dir, name, rfl⟩ := (List.eq_nil_or_concat' p).resolve_left hp
  rw [List.dropLast_concat]
  constructor
  · intro hpre
    refine ⟨hpre.trans (List.prefix_append dir [name]), ?_⟩
    rintro rfl
    have hlen := hpre.length_le
    rw [List.length_append, List.length_singleton] at hlen
    omega
  · rintro ⟨hpre, hne⟩
    exact (List.prefix_concat_iff.mp hpre).resolve_left hne

theorem temporary_eq (hp : p ≠ []) : ∃ name, temporary p = p.dropLast ++ [name] := by
  refine ⟨Ipc.Confinement.withTmp (p.getLast hp), ?_⟩
  rw [temporary, List.getLast?_eq_getLast_of_ne_nil hp]
  rfl

theorem temporary_above (hp : p ≠ []) (hpre : q <+: temporary p) (hne : q ≠ temporary p) :
    q <+: p.dropLast := by
  obtain ⟨name, htemp⟩ := temporary_eq hp
  rw [htemp] at hpre hne
  exact (List.prefix_concat_iff.mp hpre).resolve_left hne

/-- A temporary file is no directory of its path. -/
theorem temporary_not_above (hp : p ≠ []) : ¬ temporary p <+: p.dropLast := by
  obtain ⟨name, htemp⟩ := temporary_eq hp
  intro hpre
  have hlen := hpre.length_le
  rw [htemp, List.length_append, List.length_singleton] at hlen
  omega

end Paths

section Files

variable {s : State β} {p q : Path} {bytes : β}

theorem get_without : (s.without p).lookup q = if q = p then none else s.get q := by
  by_cases hq : q = p
  · rw [if_pos hq, List.lookup_eq_none_iff]
    intro f hf
    have hne := of_decide_eq_true (List.mem_filter.mp hf).2
    rw [hq]
    exact bne_iff_ne.mpr (Ne.symm hne)
  · rw [if_neg hq]
    exact lookup_filter (fun key => decide (key ≠ p)) (decide_eq_true hq) s.files

theorem get_writeFile : (s.writeFile p bytes).get q = if q = p then some bytes else s.get q := by
  change List.lookup q ((p, bytes) :: s.without p) = _
  rw [List.lookup_cons, get_without]
  by_cases hq : q = p
  · rw [if_pos hq, if_pos hq, beq_iff_eq.mpr hq]
  · rw [if_neg hq, if_neg hq, beq_eq_false_iff_ne.mpr hq]

theorem get_rename (hget : s.get p = some bytes) (hdir : q ∉ s.dirs) (r : Path) :
    (s.renameFile p q).get r = if r = q then some bytes else if r = p then none else s.get r := by
  rw [State.renameFile, hget]
  dsimp only
  by_cases hpq : p = q
  · rw [if_pos (.inr hpq)]
    by_cases hr : r = q
    · rw [if_pos hr, hr, ← hpq]
      exact hget
    · rw [if_neg hr, if_neg (hpq ▸ hr)]
  · rw [if_neg (not_or.mpr ⟨hdir, hpq⟩)]
    change List.lookup r ((q, bytes) :: ((s.without p).filter (·.1 ≠ q))) = _
    rw [List.lookup_cons]
    by_cases hr : r = q
    · rw [if_pos hr, beq_iff_eq.mpr hr]
    · rw [if_neg hr, beq_eq_false_iff_ne.mpr hr]
      refine (lookup_filter (fun key => decide (key ≠ q)) (decide_eq_true hr) (s.without p)).trans ?_
      exact get_without

theorem keys_without (h : (s.files.map Prod.fst).Nodup) : ((s.without p).map Prod.fst).Nodup :=
  h.sublist (List.filter_sublist.map Prod.fst)

theorem not_mem_keys : p ∉ (s.without p).map Prod.fst := by
  rintro hmem
  obtain ⟨f, hf, hkey⟩ := List.mem_map.mp hmem
  exact of_decide_eq_true (List.mem_filter.mp hf).2 hkey

theorem mem_keys : p ∈ s.files.map Prod.fst ↔ (s.get p).isSome = true := by
  rw [State.get, List.lookup_isSome_iff, List.mem_map]
  constructor
  · rintro ⟨f, hf, rfl⟩
    exact ⟨f, hf, beq_self_eq_true f.1⟩
  · rintro ⟨f, hf, hkey⟩
    exact ⟨f, hf, (beq_iff_eq.mp hkey).symm⟩

theorem keys_rename (h : (s.files.map Prod.fst).Nodup) : ((s.renameFile p q).files.map Prod.fst).Nodup := by
  rw [State.renameFile]
  cases s.get p with
  | none => exact h
  | some bytes =>
    dsimp only
    split
    · exact h
    · refine List.nodup_cons.mpr ⟨?_, (keys_without h).sublist (List.filter_sublist.map Prod.fst)⟩
      intro hmem
      obtain ⟨f, hf, hkey⟩ := List.mem_map.mp hmem
      exact of_decide_eq_true (List.mem_filter.mp hf).2 hkey

theorem mem_createDirs : q ∈ s.createDirs p ↔ q ∈ s.dirs ∨ q <+: p.dropLast := by
  rw [State.createDirs, List.mem_append, List.mem_filter, List.mem_inits, decide_eq_true_iff]
  by_cases hq : q ∈ s.dirs
  · exact iff_of_true (.inl hq) (.inl hq)
  · rw [or_iff_right hq, or_iff_right hq, and_iff_left hq]

theorem nodup_inits (p : Path) : p.inits.Nodup := by
  induction p with
  | nil => exact List.nodup_singleton []
  | cons name p ih =>
    rw [List.inits_cons]
    refine List.nodup_cons.mpr ⟨fun hmem => ?_, ih.map (List.cons_injective)⟩
    obtain ⟨q, -, hq⟩ := List.mem_map.mp hmem
    cases hq

theorem nodup_createDirs (h : s.dirs.Nodup) : (s.createDirs p).Nodup := by
  refine List.nodup_append.mpr ⟨h, (nodup_inits p.dropLast).filter _, fun d hd e he => ?_⟩
  rintro rfl
  exact of_decide_eq_true (List.mem_filter.mp he).2 hd

end Files

/-- Nothing but names and temporary files is stored, in directories that are there, and the
puts under way keep out of each other's way. -/
structure Inv (names : Names) (t : Session β) : Prop where
  keys : (t.state.files.map Prod.fst).Nodup
  dirs : t.state.dirs.Nodup
  aboveDir : ∀ d ∈ t.state.dirs, ∀ q, q <+: d → q ∈ t.state.dirs
  named : ∀ d ∈ t.state.dirs, ∃ p ∈ names.carrier, d <+: p ∧ d ≠ p
  files : ∀ p, (t.state.get p).isSome = true → p ∈ names.carrier ∨ t.state.Temporary p
  aboveFile : ∀ p, (t.state.get p).isSome = true → ∀ q, q <+: p → q ≠ p → q ∈ t.state.dirs
  flying : ∀ id f, t.state.flights id = some f → f.path ∈ names.carrier ∧
    (∀ q, q <+: f.path.dropLast → q ∈ t.state.dirs) ∧ temporary f.path ∉ t.state.dirs ∧
      (f.written = true → t.state.get (temporary f.path) = some f.bytes) ∧
        (temporary f.path ≠ f.path → t.map (temporary f.path) = none)
  apart : ∀ id id' f f', id ≠ id' → t.state.flights id = some f → t.state.flights id' = some f' →
    temporary f.path ≠ temporary f'.path ∧ temporary f.path ≠ f'.path
  gets : ∀ p, ¬ t.state.Temporary p → t.state.get p = t.map p

section Invariant

variable {names : Names} {t : Session β}

/-- No name is a directory. -/
theorem Inv.name_file (h : Inv names t) {p : Path} (hp : p ∈ names.carrier) : p ∉ t.state.dirs := by
  intro hdir
  obtain ⟨q, hq, hpre, hne⟩ := h.named p hdir
  exact hne (names.apart p hp q hq hpre)

theorem Inv.file_not_dir (h : Inv names t) {p : Path} (hp : (t.state.get p).isSome = true) :
    p ∉ t.state.dirs := by
  obtain hname | ⟨id, f, hf, -, rfl⟩ := h.files p hp
  · exact h.name_file hname
  · exact (h.flying id f hf).2.2.1

theorem Inv.closed (h : Inv names t) : Walk.Closed t.state.dirs (t.state.files.map Prod.fst) where
  aboveDir := h.aboveDir
  aboveFile _ hp := h.aboveFile _ (mem_keys.mp hp)
  disjoint _ hp := h.file_not_dir (mem_keys.mp hp)
  nodup := h.dirs

/-- The listing of a session without temporary files is its names. -/
theorem Inv.list_eq (h : Inv names t) (hnone : ∀ p, ¬ t.state.Temporary p) :
    ∃ paths, t.state.list [] = some paths ∧ paths.Nodup ∧
      ∀ p, p ∈ paths ↔ (t.state.get p).isSome = true := by
  by_cases hroot : [] ∈ t.state.dirs
  · have hunder : ∀ paths : List Path, paths.filter (Walk.under [[]]) = paths := fun paths =>
      List.filter_eq_self.mpr fun p _ => Walk.under_iff.mpr ⟨[], List.mem_singleton.mpr rfl, List.nil_prefix⟩
    have hperm := Walk.walk_perm h.closed t.state.dirs.length [[]] []
      (fun d hd => List.mem_singleton.mp hd ▸ hroot) (List.pairwise_singleton _ _) (by rw [hunder])
    rw [hunder, List.nil_append] at hperm
    refine ⟨_, if_pos hroot, hperm.nodup_iff.mpr h.keys, fun p => ?_⟩
    rw [hperm.mem_iff, mem_keys]
  · have hempty : ∀ p, ¬ (t.state.get p).isSome = true := by
      intro p hp
      have hname := (h.files p hp).resolve_right (hnone p)
      exact hroot (h.aboveFile p hp [] List.nil_prefix (Ne.symm (names.nonempty p hname)))
    refine ⟨[], ?_, List.nodup_nil, fun p => iff_of_false List.not_mem_nil (hempty p)⟩
    rw [State.list, if_neg hroot, if_neg (hempty [])]

theorem Inv.isMap (h : Inv names t) : t.IsMap := by
  refine ⟨h.gets, fun hnone => ?_⟩
  obtain ⟨paths, hlist, hnodup, hmem⟩ := h.list_eq hnone
  refine ⟨paths, hlist, hnodup, fun p => ?_⟩
  rw [hmem, h.gets p (hnone p)]

end Invariant

section Steps

variable {names : Names} {t : Session β} {s : State β} {id id' : Nat} {f g : Flight β} {p q : Path} {bytes : β}

theorem flights_enter : (s.enter id g).flights id' = some f ↔
    id' = id ∧ f = g ∨ id' ≠ id ∧ s.flights id' = some f := by
  change Function.update s.flights id (some g) id' = some f ↔ _
  by_cases hid : id' = id
  · rw [hid, Function.update_self, Option.some.injEq]
    simp [eq_comm]
  · simp [hid]

theorem flights_leave : (s.leave id).flights id' = some f ↔ id' ≠ id ∧ s.flights id' = some f := by
  change Function.update s.flights id none id' = some f ↔ _
  by_cases hid : id' = id
  · rw [hid, Function.update_self]
    simp
  · simp [hid]

/-- A put that begins finds all its directories free. -/
theorem not_blocked (h : Inv names t) (hp : p ∈ names.carrier)
    (hout : ∀ id f, t.state.flights id = some f → ¬ temporary f.path <+: p) : t.state.blocked p = false := by
  rw [State.blocked, List.any_eq_false]
  intro q hq hfile
  obtain ⟨hpre, hne⟩ := (above_iff (names.nonempty p hp)).mp ((List.mem_inits q _).mp hq)
  obtain hname | ⟨id, f, hf, -, rfl⟩ := h.files q hfile
  · exact hne (names.apart q hname p hp hpre)
  · exact hout id f hf hpre

theorem step_create (hid : t.state.flights id = none) (hblocked : t.state.blocked p = false) :
    t.step (.create id p bytes) =
      ⟨({ t.state with dirs := t.state.createDirs p }).enter id ⟨p, bytes, false⟩, t.map⟩ := by
  have hstate : t.state.step (.create id p bytes) =
      ({ t.state with dirs := t.state.createDirs p }).enter id ⟨p, bytes, false⟩ := by
    rw [State.step, hid, hblocked]
    rfl
  have hended : t.state.ended (.create id p bytes) = none := by
    rw [State.ended, hid, hblocked]
    rfl
  rw [Session.step, hstate, expect, hended]
  exact nofun

theorem inv_create (h : Inv names t) (hid : t.state.flights id = none) (hp : p ∈ names.carrier)
    (hapart : t.state.Apart (.create id p bytes)) : Inv names (t.step (.create id p bytes)) := by
  have hne := names.nonempty p hp
  obtain ⟨hfree, hdir, hothers⟩ := hapart (by rw [hid]; rfl)
  have hblocked := not_blocked h hp fun id f hf => (hothers id f hf).2.2.2
  rw [step_create hid hblocked]
  have hTemporary : ∀ q,
      (({ t.state with dirs := t.state.createDirs p }).enter id ⟨p, bytes, false⟩).Temporary q ↔
        t.state.Temporary q := by
    intro q
    constructor
    · rintro ⟨id', f, hf, hwritten, rfl⟩
      obtain ⟨-, rfl⟩ | ⟨-, hf⟩ := flights_enter.mp hf
      · cases hwritten
      · exact ⟨id', f, hf, hwritten, rfl⟩
    · rintro ⟨id', f, hf, hwritten, rfl⟩
      refine ⟨id', f, flights_enter.mpr (.inr ⟨?_, hf⟩), hwritten, rfl⟩
      rintro rfl
      rw [hid] at hf
      cases hf
  refine ⟨h.keys, nodup_createDirs h.dirs, ?_, ?_, ?_, ?_, ?_, ?_, ?_⟩
  · intro d hd q hq
    obtain hd | hd := mem_createDirs.mp hd
    · exact mem_createDirs.mpr (.inl (h.aboveDir d hd q hq))
    · exact mem_createDirs.mpr (.inr (hq.trans hd))
  · intro d hd
    obtain hd | hd := mem_createDirs.mp hd
    · exact h.named d hd
    · exact ⟨p, hp, (above_iff hne).mp hd⟩
  · intro q hq
    rw [hTemporary]
    exact h.files q hq
  · intro q hq d hd hdq
    exact mem_createDirs.mpr (.inl (h.aboveFile q hq d hd hdq))
  · intro id' f hf
    obtain ⟨-, rfl⟩ | ⟨-, hf⟩ := flights_enter.mp hf
    · refine ⟨hp, fun q hq => mem_createDirs.mpr (.inr hq), fun hmem => ?_, nofun, fun hother => ?_⟩
      · exact (mem_createDirs.mp hmem).elim hdir (temporary_not_above hne)
      · rw [← h.gets (temporary p), hfree hother]
        rintro ⟨id', f, hf, -, heq⟩
        exact (hothers id' f hf).1 heq
    · obtain ⟨hname, habove, hnodir, hwritten, hmap⟩ := h.flying id' f hf
      refine ⟨hname, fun q hq => mem_createDirs.mpr (.inl (habove q hq)), fun hmem => ?_, hwritten, hmap⟩
      obtain hmem | hpre := mem_createDirs.mp hmem
      · exact hnodir hmem
      · exact (hothers id' f hf).2.2.2 ((above_iff hne).mp hpre).1
  · intro id₁ id₂ f₁ f₂ hids hf₁ hf₂
    obtain ⟨rfl, rfl⟩ | ⟨-, hg₁⟩ := flights_enter.mp hf₁
    · obtain ⟨rfl, -⟩ | ⟨-, hg₂⟩ := flights_enter.mp hf₂
      · exact absurd rfl hids
      · exact ⟨Ne.symm (hothers id₂ f₂ hg₂).1, (hothers id₂ f₂ hg₂).2.2.1⟩
    · obtain ⟨rfl, rfl⟩ | ⟨-, hg₂⟩ := flights_enter.mp hf₂
      · exact ⟨(hothers id₁ f₁ hg₁).1, (hothers id₁ f₁ hg₁).2.1⟩
      · exact h.apart id₁ id₂ f₁ f₂ hids hg₁ hg₂
  · intro q hq
    rw [hTemporary] at hq
    exact h.gets q hq

theorem step_write (hid : t.state.flights id = some ⟨p, bytes, false⟩) (hdir : temporary p ∉ t.state.dirs) :
    t.step (.write id) = ⟨(t.state.writeFile (temporary p) bytes).enter id ⟨p, bytes, true⟩, t.map⟩ := by
  have hstate : t.state.step (.write id) =
      (t.state.writeFile (temporary p) bytes).enter id ⟨p, bytes, true⟩ := by
    rw [State.step, hid]
    exact if_neg hdir
  have hended : t.state.ended (.write id) = none := by
    rw [State.ended, hid]
    exact if_neg hdir
  rw [Session.step, hstate, expect, hended]
  exact nofun

/-- The temporary file is all that a put writes before it is renamed. -/
theorem inv_write (h : Inv names t) (hid : t.state.flights id = some ⟨p, bytes, false⟩) :
    Inv names (t.step (.write id)) := by
  obtain ⟨hname, habove, hdir, -, hmap⟩ := h.flying id _ hid
  have hne := names.nonempty p hname
  rw [step_write hid hdir]
  have hget : ∀ q, ((t.state.writeFile (temporary p) bytes).enter id ⟨p, bytes, true⟩).get q =
      if q = temporary p then some bytes else t.state.get q := fun q => get_writeFile
  have hTemporary : ∀ q, ((t.state.writeFile (temporary p) bytes).enter id ⟨p, bytes, true⟩).Temporary q ↔
      q = temporary p ∨ t.state.Temporary q := by
    intro q
    constructor
    · rintro ⟨id', f, hf, hwritten, rfl⟩
      obtain ⟨-, rfl⟩ | ⟨-, hf⟩ := flights_enter.mp hf
      · exact .inl rfl
      · exact .inr ⟨id', f, hf, hwritten, rfl⟩
    · rintro (rfl | ⟨id', f, hf, hwritten, rfl⟩)
      · exact ⟨id, _, flights_enter.mpr (.inl ⟨rfl, rfl⟩), rfl, rfl⟩
      · refine ⟨id', f, flights_enter.mpr (.inr ⟨?_, hf⟩), hwritten, rfl⟩
        rintro rfl
        rw [hid] at hf
        cases hf
        cases hwritten
  refine ⟨List.nodup_cons.mpr ⟨not_mem_keys, keys_without h.keys⟩, h.dirs, h.aboveDir, h.named, ?_, ?_, ?_,
    ?_, ?_⟩
  · intro q hq
    rw [hTemporary]
    rw [hget] at hq
    split at hq
    · rename_i htemp
      exact .inr (.inl htemp)
    · exact (h.files q hq).imp_right .inr
  · intro q hq d hd hdq
    rw [hget] at hq
    split at hq
    · rename_i htemp
      rw [htemp] at hd hdq
      exact habove d (temporary_above hne hd hdq)
    · exact h.aboveFile q hq d hd hdq
  · intro id' f hf
    obtain ⟨-, rfl⟩ | ⟨hids, hf⟩ := flights_enter.mp hf
    · refine ⟨hname, habove, hdir, fun _ => ?_, hmap⟩
      rw [hget, if_pos rfl]
    · obtain ⟨hname', habove', hdir', hwritten', hmap'⟩ := h.flying id' f hf
      refine ⟨hname', habove', hdir', fun hw => ?_, hmap'⟩
      rw [hget, if_neg (h.apart id' id f _ hids hf hid).1]
      exact hwritten' hw
  · intro id₁ id₂ f₁ f₂ hids hf₁ hf₂
    obtain ⟨rfl, rfl⟩ | ⟨-, hg₁⟩ := flights_enter.mp hf₁
    · obtain ⟨rfl, -⟩ | ⟨-, hg₂⟩ := flights_enter.mp hf₂
      · exact absurd rfl hids
      · exact h.apart id₁ id₂ ⟨p, bytes, false⟩ f₂ hids hid hg₂
    · obtain ⟨rfl, rfl⟩ | ⟨-, hg₂⟩ := flights_enter.mp hf₂
      · exact h.apart id₁ id₂ f₁ ⟨p, bytes, false⟩ hids hg₁ hid
      · exact h.apart id₁ id₂ f₁ f₂ hids hg₁ hg₂
  · intro q hq
    rw [hTemporary, not_or] at hq
    rw [hget, if_neg hq.1]
    exact h.gets q hq.2

theorem step_rename (hid : t.state.flights id = some ⟨p, bytes, true⟩) :
    t.step (.rename id) =
      ⟨(t.state.renameFile (temporary p) p).leave id, Function.update t.map p (some bytes)⟩ := by
  have hstate : t.state.step (.rename id) = (t.state.renameFile (temporary p) p).leave id := by
    rw [State.step, hid]
  have hended : t.state.ended (.rename id) = some (p, bytes) := by
    rw [State.ended, hid]
  rw [Session.step, hstate, expect, hended]
  exact nofun

theorem dirs_rename : (s.renameFile p q).dirs = s.dirs := by
  rw [State.renameFile]
  cases s.get p with
  | none => rfl
  | some bytes =>
    dsimp only
    split
    · rfl
    · rfl

theorem flights_rename : (s.renameFile p q).flights = s.flights := by
  rw [State.renameFile]
  cases s.get p with
  | none => rfl
  | some bytes =>
    dsimp only
    split
    · rfl
    · rfl

/-- A rename puts the file in its place, and takes the temporary one away. -/
theorem inv_rename (h : Inv names t) (hid : t.state.flights id = some ⟨p, bytes, true⟩) :
    Inv names (t.step (.rename id)) := by
  obtain ⟨hname, habove, hdir, hwritten, hmap⟩ := h.flying id _ hid
  have hne := names.nonempty p hname
  rw [step_rename hid]
  have hget : ∀ q, ((t.state.renameFile (temporary p) p).leave id).get q =
      if q = p then some bytes else if q = temporary p then none else t.state.get q :=
    get_rename (hwritten rfl) (h.name_file hname)
  have hdirs : ((t.state.renameFile (temporary p) p).leave id).dirs = t.state.dirs := dirs_rename
  have hflights : ∀ {id' f}, ((t.state.renameFile (temporary p) p).leave id).flights id' = some f ↔
      id' ≠ id ∧ t.state.flights id' = some f := by
    intro id' f
    rw [flights_leave, flights_rename]
  have hTemporary : ∀ q, t.state.Temporary q ↔
      q = temporary p ∨ ((t.state.renameFile (temporary p) p).leave id).Temporary q := by
    intro q
    constructor
    · rintro ⟨id', f, hf, hw, rfl⟩
      by_cases hids : id' = id
      · rw [hids, hid] at hf
        cases hf
        exact .inl rfl
      · exact .inr ⟨id', f, hflights.mpr ⟨hids, hf⟩, hw, rfl⟩
    · rintro (rfl | ⟨id', f, hf, hw, rfl⟩)
      · exact ⟨id, _, hid, rfl, rfl⟩
      · exact ⟨id', f, (hflights.mp hf).2, hw, rfl⟩
  refine ⟨keys_rename h.keys, ?_, ?_, ?_, ?_, ?_, ?_, ?_, ?_⟩
  · exact hdirs ▸ h.dirs
  · rw [hdirs]
    exact h.aboveDir
  · rw [hdirs]
    exact h.named
  · intro q hq
    rw [hget] at hq
    split at hq
    · rename_i heq
      exact .inl (heq ▸ hname)
    split at hq
    · cases hq
    · rename_i htemp
      exact (h.files q hq).imp_right fun hq => ((hTemporary q).mp hq).resolve_left htemp
  · intro q hq d hd hdq
    rw [hdirs]
    rw [hget] at hq
    split at hq
    · rename_i heq
      rw [heq] at hd hdq
      exact habove d ((above_iff hne).mpr ⟨hd, hdq⟩)
    split at hq
    · cases hq
    · exact h.aboveFile q hq d hd hdq
  · intro id' f hf
    obtain ⟨hids, hf⟩ := hflights.mp hf
    obtain ⟨hname', habove', hdir', hwritten', hmap'⟩ := h.flying id' f hf
    obtain ⟨htemp, hpath⟩ := h.apart id' id f _ hids hf hid
    rw [hdirs]
    refine ⟨hname', habove', hdir', fun hw => ?_, fun hother => ?_⟩
    · rw [hget, if_neg hpath, if_neg htemp]
      exact hwritten' hw
    · exact (Function.update_of_ne hpath (some bytes) t.map).trans (hmap' hother)
  · intro id₁ id₂ f₁ f₂ hids hf₁ hf₂
    exact h.apart id₁ id₂ f₁ f₂ hids (hflights.mp hf₁).2 (hflights.mp hf₂).2
  · intro q hq
    rw [hget]
    by_cases heq : q = p
    · rw [if_pos heq, heq]
      exact (Function.update_self p (some bytes) t.map).symm
    · rw [if_neg heq]
      refine Eq.trans ?_ (Function.update_of_ne heq (some bytes) t.map).symm
      by_cases htemp : q = temporary p
      · rw [if_pos htemp, htemp]
        exact (hmap fun hsame => heq (htemp.trans hsame)).symm
      · rw [if_neg htemp]
        exact h.gets q fun hq' => hq (((hTemporary q).mp hq').resolve_left htemp)

/-- A delete of no temporary file is one of the map. -/
theorem inv_delete (h : Inv names t) (hp : ¬ t.state.Temporary p) : Inv names (t.step (.delete p)) := by
  have hstep : t.step (.delete p) =
      ⟨{ t.state with files := t.state.without p }, Function.update t.map p none⟩ := rfl
  have hget : ∀ q, ({ t.state with files := t.state.without p } : State β).get q =
      if q = p then none else t.state.get q := fun q => get_without
  rw [hstep]
  refine ⟨keys_without h.keys, h.dirs, h.aboveDir, h.named, ?_, ?_, ?_, h.apart, ?_⟩
  · intro q hq
    rw [hget] at hq
    split at hq
    · cases hq
    · exact h.files q hq
  · intro q hq
    rw [hget] at hq
    split at hq
    · cases hq
    · exact h.aboveFile q hq
  · intro id f hf
    obtain ⟨hname, habove, hdir, hwritten, hmap⟩ := h.flying id f hf
    refine ⟨hname, habove, hdir, fun hw => ?_, fun hother => ?_⟩
    · rw [hget, if_neg]
      · exact hwritten hw
      · exact fun heq => hp ⟨id, f, hf, hw, heq⟩
    · by_cases heq : temporary f.path = p
      · rw [heq]
        exact Function.update_self p none t.map
      · exact (Function.update_of_ne heq none t.map).trans (hmap hother)
  · intro q hq
    rw [hget]
    by_cases heq : q = p
    · rw [if_pos heq, heq]
      exact (Function.update_self p none t.map).symm
    · rw [if_neg heq]
      exact (h.gets q hq).trans (Function.update_of_ne heq none t.map).symm

/-- A put that is under way already is not begun again. -/
theorem step_taken (hid : t.state.flights id = some f) : t.step (.create id p bytes) = t := by
  have hstate : t.state.step (.create id p bytes) = t.state := by rw [State.step, hid]; rfl
  have hended : t.state.ended (.create id p bytes) = none := by rw [State.ended, hid]; rfl
  rw [Session.step, hstate, expect, hended]
  exact nofun

theorem step_unwritable (hid : ∀ p bytes, t.state.flights id ≠ some ⟨p, bytes, false⟩) :
    t.step (.write id) = t := by
  have hidle : t.state.step (.write id) = t.state ∧ t.state.ended (.write id) = none := by
    rw [State.step, State.ended]
    cases hflight : t.state.flights id with
    | none => exact ⟨rfl, rfl⟩
    | some f =>
      obtain ⟨p, bytes, written⟩ := f
      cases written with
      | false => exact absurd hflight (hid p bytes)
      | true => exact ⟨rfl, rfl⟩
  rw [Session.step, hidle.1, expect, hidle.2]
  exact nofun

theorem step_unnamed (hid : ∀ p bytes, t.state.flights id ≠ some ⟨p, bytes, true⟩) :
    t.step (.rename id) = t := by
  have hidle : t.state.step (.rename id) = t.state ∧ t.state.ended (.rename id) = none := by
    rw [State.step, State.ended]
    cases hflight : t.state.flights id with
    | none => exact ⟨rfl, rfl⟩
    | some f =>
      obtain ⟨p, bytes, written⟩ := f
      cases written with
      | true => exact absurd hflight (hid p bytes)
      | false => exact ⟨rfl, rfl⟩
  rw [Session.step, hidle.1, expect, hidle.2]
  exact nofun

/-- What one step preserves. -/
theorem inv_step (t : Session β) (i : Input β) (h : Inv names t) (hi : names.Covers i ∧ t.state.Apart i) :
    Inv names (t.step i) := by
  cases i with
  | create id p bytes =>
    cases hid : t.state.flights id with
    | none => exact inv_create h hid hi.1 hi.2
    | some f =>
      rw [step_taken hid]
      exact h
  | write id =>
    by_cases hsome : ∃ p bytes, t.state.flights id = some ⟨p, bytes, false⟩
    · obtain ⟨p, bytes, hid⟩ := hsome
      exact inv_write h hid
    · rw [step_unwritable fun p bytes hid => hsome ⟨p, bytes, hid⟩]
      exact h
  | rename id =>
    by_cases hsome : ∃ p bytes, t.state.flights id = some ⟨p, bytes, true⟩
    · obtain ⟨p, bytes, hid⟩ := hsome
      exact inv_rename h hid
    · rw [step_unnamed fun p bytes hid => hsome ⟨p, bytes, hid⟩]
      exact h
  | delete p => exact inv_delete h hi.2

end Steps

/-- A session before its first put. -/
def Session.new : Session β := ⟨empty, fun _ => none⟩

theorem inv_new (names : Names) : Inv names (Session.new : Session β) where
  keys := List.nodup_nil
  dirs := List.nodup_nil
  aboveDir _ hd := absurd hd List.not_mem_nil
  named _ hd := absurd hd List.not_mem_nil
  files _ hp := nomatch hp
  aboveFile _ hp := nomatch hp
  flying _ _ hf := nomatch hf
  apart _ _ _ _ _ hf := nomatch hf
  gets _ _ := rfl

theorem map_from {names : Names} (t : Session β) (is : List (Input β)) (h : Inv names t)
    (hnames : ∀ i ∈ is, names.Covers i) (hapart : Runs.Guarded Session.step (fun t i => t.state.Apart i) t is) :
    Runs.Along Session.step (fun _ _ t => t.IsMap) t is := by
  induction is generalizing t with
  | nil => trivial
  | cons i is ih =>
    obtain ⟨hi, hrest⟩ := List.forall_mem_cons.mp hnames
    have hnext := inv_step t i h ⟨hi, hapart.1⟩
    exact ⟨hnext.isMap, ih (t.step i) hnext hrest hapart.2⟩

/-- A session whose puts and deletes keep to the names of regular files, and out of the way of
each other's temporary files, is a map in every state. -/
theorem local_map (names : Names) (is : List (Input β)) (hnames : ∀ i ∈ is, names.Covers i)
    (hapart : Runs.Guarded Session.step (fun t i => t.state.Apart i) .new is) :
    Runs.Along Session.step (fun _ _ t => t.IsMap) .new is :=
  map_from .new is (inv_new names) hnames hapart

def file (name : String) : Path := [name.toList]

def sampleFiles : List Path := [file "a.json", file "b.webp"]

def sampleNames : Names where
  carrier := {p | p ∈ sampleFiles}
  nonempty := (by decide : ∀ p ∈ sampleFiles, p ≠ [])
  apart := (by decide : ∀ p ∈ sampleFiles, ∀ q ∈ sampleFiles, p <+: q → p = q)

/-- Two puts under way at one time. -/
def sampleRun : List (Input Nat) :=
  [.create 0 (file "a.json") 1, .create 1 (file "b.webp") 2, .write 1, .write 0, .rename 0, .rename 1]

theorem local_map_sample : Runs.Along Session.step (fun _ _ t => t.IsMap) .new sampleRun := by
  refine local_map sampleNames sampleRun ?_ ⟨?_, ?_, trivial, trivial, trivial, trivial, trivial⟩
  · intro i hi
    obtain rfl | rfl | rfl | rfl | rfl | rfl : i = _ ∨ i = _ ∨ i = _ ∨ i = _ ∨ i = _ ∨ i = _ := by
      simpa [sampleRun] using hi
    · exact (by decide : file "a.json" ∈ sampleFiles)
    · exact (by decide : file "b.webp" ∈ sampleFiles)
    · trivial
    · trivial
    · trivial
    · trivial
  · exact fun _ => ⟨fun _ => rfl, List.not_mem_nil, fun _ _ hf => nomatch hf⟩
  · refine fun _ => ⟨fun _ => rfl, by decide, fun id f hf => ?_⟩
    obtain ⟨-, rfl⟩ | ⟨-, hf⟩ := flights_enter.mp hf
    · decide
    · cases hf

/-- One put after the other. -/
def sharedRun : List (Input Nat) :=
  [.create 0 (file "a.tmp") 1, .write 0, .rename 0, .create 0 (file "a.json") 2, .write 0, .rename 0]

/-- The put of another path has taken the file away. -/
theorem shared_lost : ¬ (Runs.run Session.step .new sharedRun).IsMap := by
  intro h
  have hnone : ∀ id, (Runs.run Session.step .new sharedRun).state.flights id = none := by
    intro id
    cases id with
    | zero => rfl
    | succ id => rfl
  have hget := h.gets (file "a.tmp") fun ⟨id, f, hf, _⟩ => by
    rw [hnone id] at hf
    cases hf
  exact absurd hget (by decide)

end MemoryArchive.Storage.LocalMap
