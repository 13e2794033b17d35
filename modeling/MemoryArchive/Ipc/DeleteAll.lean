import MemoryArchive.Ipc.Register
import MemoryArchive.Ipc.Retention
import MemoryArchive.Storage.Backends
import MemoryArchive.Text.Search

namespace MemoryArchive.Ipc.DeleteAll

open Storage

attribute [local instance] lawful_path

/-- A session that was registered, and whether its memory was marked as incomplete. -/
structure Registered where
  id : String
  memoryName : String
  interrupted : Bool
  accepted : badMemoryName memoryName = false

/-- The name of the directory with its memory. -/
def Registered.dirName (r : Registered) : String :=
  if r.interrupted && !incompleteMark.toList.isSuffixOf r.memoryName.toList then
    r.memoryName ++ incompleteMark
  else r.memoryName

/-- What a local backend and an object store hold, and the sessions. -/
structure Store where
  tree : Tree
  storagePath : Path
  bucket : Bucket
  sessions : List Registered

/-- `remove_dir_all` -/
def removeDirAll (t : Tree) (dir : Path) : Tree where
  files := t.files.filter fun f => !dir.isPrefixOf f.1
  dirs := t.dirs.filter fun p => !dir.isPrefixOf p
  named f hf := t.named f (List.mem_of_mem_filter hf)
  parents f hf p hp hne := by
    obtain ⟨hmem, hout⟩ := List.mem_filter.mp hf
    refine List.mem_filter.mpr ⟨t.parents f hmem p hp hne, ?_⟩
    rw [Bool.not_eq_true', ← Bool.not_eq_true, List.isPrefixOf_iff_prefix] at hout ⊢
    exact fun hin => hout (hin.trans hp)
  disjoint f hf hdir := t.disjoint f (List.mem_of_mem_filter hf) (List.mem_of_mem_filter hdir)

/-- The bucket without the object of a key, in its listings too. -/
def removeObject (b : Bucket) (key : List Char) : Bucket where
  objects := b.objects.filter (·.1 ≠ key)
  pages lead := (b.pages lead).map (·.filter (· ≠ key))
  pages_perm lead := by
    have hperm := (b.pages_perm lead).filter (· ≠ key)
    rw [← List.filter_flatten]
    refine hperm.trans (List.Perm.of_eq ?_)
    rw [List.filter_filter, List.filter_map, List.filter_map, List.filter_filter]
    congr 1
    exact List.filter_congr fun o _ => Bool.and_comm _ _
  xml := b.xml
  xml_names := b.xml_names
  addressed := b.addressed

namespace Store

variable (s : Store) (sid : String)

def sessionDir : Path := s.storagePath ++ [sid.toList]

/-- `delete_all` of the local backend. The path of a file is no directory that could be
removed. -/
def deleteAllLocal : Store × Option Nat :=
  if validSessionId sid = false then (s, none)
  else if s.sessionDir sid ∈ s.tree.dirs then
    ({ s with tree := removeDirAll s.tree (s.sessionDir sid) },
      some (s.tree.files.filter fun f => (s.sessionDir sid).isPrefixOf f.1).length)
  else if (s.tree.files.lookup (s.sessionDir sid)).isSome then (s, none)
  else (s, some 0)

/-- `list` of a whole session, over all pages. -/
def listAll : List (List Char) :=
  ((s.bucket.pages (objectKey sid "")).flatten.map (stripLead (objectKey sid ""))).filter (· ≠ [])

def delete (b : Bucket) (relativePath : List Char) : Bucket :=
  removeObject b (objectKey sid (.ofList relativePath))

/-- `delete_all` of the object stores. -/
def deleteAllObjects : Store × Option Nat :=
  if validSessionId sid = false then (s, none)
  else ({ s with bucket := (s.listAll sid).foldl (delete sid) s.bucket }, some (s.listAll sid).length)

/-- A place outside the directory of a session, or in that of another one, or in the memory
of another one. -/
def Foreign (p : Path) : Prop :=
  ¬ s.sessionDir sid <+: p ∨ (∃ other, other ≠ sid ∧ s.sessionDir other <+: p) ∨
    ∃ r ∈ s.sessions, r.id ≠ sid ∧ s.storagePath ++ [r.dirName.toList] <+: p

/-- A local session is removed and nothing else. -/
structure ExactLocal : Prop where
  refused : validSessionId sid = false → s.deleteAllLocal sid = (s, none)
  removed : validSessionId sid = true →
    ∀ f ∈ (s.deleteAllLocal sid).1.tree.files, s.sessionDir sid <+: f.1 → f.1 = s.sessionDir sid
  kept : ∀ p, s.Foreign sid p →
    (p ∈ (s.deleteAllLocal sid).1.tree.dirs ↔ p ∈ s.tree.dirs) ∧
      (s.deleteAllLocal sid).1.tree.files.lookup p = s.tree.files.lookup p
  bucket : (s.deleteAllLocal sid).1.bucket = s.bucket

/-- The key of an object that is not one of the session, or one of another session. -/
def ForeignKey (key : List Char) : Prop :=
  ¬ objectKey sid "" <+: key ∨ ∃ other, other ≠ sid ∧ '/' ∉ other.toList ∧ objectKey other "" <+: key

/-- The objects of a session are removed and nothing else. -/
structure ExactObjects : Prop where
  refused : validSessionId sid = false → s.deleteAllObjects sid = (s, none)
  removed : validSessionId sid = true →
    ∀ o ∈ (s.deleteAllObjects sid).1.bucket.objects, ¬ objectKey sid "" <+: o.1
  kept : ∀ o, ForeignKey sid o.1 →
    (o ∈ (s.deleteAllObjects sid).1.bucket.objects ↔ o ∈ s.bucket.objects)
  tree : (s.deleteAllObjects sid).1.tree = s.tree

/-- No memory of another session has the id for its name. -/
def Unnamed : Prop :=
  validSessionId sid = true → s.sessionDir sid ∈ s.tree.dirs →
    ∀ r ∈ s.sessions, r.dirName = sid → r.id = sid

/-- No object stands for the directory of the session itself. -/
def Unmarked : Prop := validSessionId sid = true → objectKey sid "" ∉ s.bucket.objects.map Prod.fst

section Local

variable {s sid}

theorem lookup_removeDirAll {t : Tree} {dir p : Path} (h : ¬ dir <+: p) :
    (removeDirAll t dir).files.lookup p = t.files.lookup p := by
  have hkeep : (!dir.isPrefixOf p) = true := by
    rw [Bool.not_eq_true', ← Bool.not_eq_true, List.isPrefixOf_iff_prefix]
    exact h
  exact lookup_filter (fun p => !dir.isPrefixOf p) hkeep t.files

theorem mem_dirs_removeDirAll {t : Tree} {dir p : Path} :
    p ∈ (removeDirAll t dir).dirs ↔ p ∈ t.dirs ∧ ¬ dir <+: p := by
  change p ∈ t.dirs.filter (fun p => !dir.isPrefixOf p) ↔ _
  rw [List.mem_filter, Bool.not_eq_true', ← Bool.not_eq_true, List.isPrefixOf_iff_prefix]

theorem mem_files_removeDirAll {t : Tree} {dir : Path} {f : Path × ByteArray} :
    f ∈ (removeDirAll t dir).files ↔ f ∈ t.files ∧ ¬ dir <+: f.1 := by
  change f ∈ t.files.filter (fun f => !dir.isPrefixOf f.1) ↔ _
  rw [List.mem_filter, Bool.not_eq_true', ← Bool.not_eq_true, List.isPrefixOf_iff_prefix]

theorem prefix_entry {root p : Path} {name : List Char} :
    root ++ [name] <+: p ↔ ∃ rest, p = root ++ name :: rest := by
  constructor
  · rintro ⟨rest, rfl⟩
    exact ⟨rest, by rw [List.append_assoc, List.singleton_append]⟩
  · rintro ⟨rest, rfl⟩
    exact ⟨rest, by rw [List.append_assoc, List.singleton_append]⟩

/-- A place lies below one entry of the storage only. -/
theorem entry_unique {root p : Path} {name name' : List Char} (h : root ++ [name] <+: p)
    (h' : root ++ [name'] <+: p) : name = name' := by
  obtain ⟨rest, rfl⟩ := prefix_entry.mp h
  obtain ⟨rest', heq⟩ := prefix_entry.mp h'
  exact (List.cons.inj (List.append_cancel_left heq)).1

/-- What another session has does not lie in the directory of a session whose id is no
other session's memory. -/
theorem not_below (hnamed : ∀ r ∈ s.sessions, r.dirName = sid → r.id = sid) {p : Path} (hp : s.Foreign sid p) :
    ¬ s.sessionDir sid <+: p := by
  intro hbelow
  obtain hout | ⟨other, hother, hin⟩ | ⟨r, hr, hid, hin⟩ := hp
  · exact hout hbelow
  · exact hother (String.toList_inj.mp (entry_unique hin hbelow))
  · exact hid (hnamed r hr (String.toList_inj.mp (entry_unique hin hbelow)))

theorem deleteAllLocal_invalid (h : validSessionId sid = false) : s.deleteAllLocal sid = (s, none) := if_pos h

theorem deleteAllLocal_dir (hvalid : validSessionId sid = true) (hdir : s.sessionDir sid ∈ s.tree.dirs) :
    (s.deleteAllLocal sid).1 = { s with tree := removeDirAll s.tree (s.sessionDir sid) } := by
  have hnot : ¬ validSessionId sid = false := by rw [hvalid]; decide
  rw [deleteAllLocal, if_neg hnot, if_pos hdir]

theorem deleteAllLocal_missing (hdir : s.sessionDir sid ∉ s.tree.dirs) : (s.deleteAllLocal sid).1 = s := by
  rw [deleteAllLocal, if_neg hdir]
  split
  · rfl
  split
  · rfl
  · rfl

/-- Below a place that is no directory there is no file but itself. -/
theorem file_of_missing (hdir : s.sessionDir sid ∉ s.tree.dirs) {f : Path × ByteArray} (hf : f ∈ s.tree.files)
    (hpre : s.sessionDir sid <+: f.1) : f.1 = s.sessionDir sid := by
  by_contra hne
  exact hdir (s.tree.parents f hf _ hpre (Ne.symm hne))

theorem exactLocal_iff : s.ExactLocal sid ↔ s.Unnamed sid := by
  constructor
  · intro h hvalid hdir r hr hname
    by_contra hid
    have hforeign : s.Foreign sid (s.sessionDir sid) := by
      refine .inr (.inr ⟨r, hr, hid, ?_⟩)
      rw [hname]
      exact List.prefix_rfl
    have hkept := (h.kept _ hforeign).1.mpr hdir
    rw [deleteAllLocal_dir hvalid hdir] at hkept
    exact (mem_dirs_removeDirAll.mp hkept).2 List.prefix_rfl
  · intro h
    refine ⟨deleteAllLocal_invalid, fun hvalid => ?_, fun p hp => ?_, ?_⟩
    · by_cases hdir : s.sessionDir sid ∈ s.tree.dirs
      · rw [deleteAllLocal_dir hvalid hdir]
        exact fun f hf hpre => absurd hpre (mem_files_removeDirAll.mp hf).2
      · rw [deleteAllLocal_missing hdir]
        exact fun f hf hpre => file_of_missing hdir hf hpre
    · by_cases hdir : s.sessionDir sid ∈ s.tree.dirs
      · cases hvalid : validSessionId sid with
        | false =>
          rw [deleteAllLocal_invalid hvalid]
          exact ⟨Iff.rfl, rfl⟩
        | true =>
          have hout := not_below (h hvalid hdir) hp
          rw [deleteAllLocal_dir hvalid hdir]
          exact ⟨mem_dirs_removeDirAll.trans (and_iff_left hout), lookup_removeDirAll hout⟩
      · rw [deleteAllLocal_missing hdir]
        exact ⟨Iff.rfl, rfl⟩
    · by_cases hdir : s.sessionDir sid ∈ s.tree.dirs
      · cases hvalid : validSessionId sid with
        | false => rw [deleteAllLocal_invalid hvalid]
        | true => rw [deleteAllLocal_dir hvalid hdir]
      · rw [deleteAllLocal_missing hdir]

end Local

section Objects

variable {s sid}

theorem objectKey_ofList (sid : String) (rel : List Char) :
    objectKey sid (.ofList rel) = objectKey sid "" ++ rel := by
  rw [objectKey, objectKey, String.toList_ofList, List.append_assoc, List.append_assoc]
  rfl

/-- The keys under a session are the names that the listing gives, and the bare one. -/
theorem mem_listAll {rel : List Char} : rel ∈ s.listAll sid ↔
    rel ≠ [] ∧ objectKey sid "" ++ rel ∈ s.bucket.objects.map Prod.fst := by
  have hlead := stripLead_append (objectKey sid "")
  rw [listAll, List.mem_filter, decide_eq_true_iff, and_comm, List.mem_map]
  refine and_congr_right fun _ => ⟨?_, fun h => ⟨_, ?_, hlead rel⟩⟩
  · rintro ⟨key, hkey, rfl⟩
    obtain ⟨hmem, hpre⟩ := List.mem_filter.mp ((s.bucket.pages_perm _).mem_iff.mp hkey)
    obtain ⟨rel, rfl⟩ := List.isPrefixOf_iff_prefix.mp hpre
    rw [hlead]
    exact hmem
  · refine (s.bucket.pages_perm _).mem_iff.mpr (List.mem_filter.mpr ⟨h, ?_⟩)
    exact List.isPrefixOf_iff_prefix.mpr (List.prefix_append _ rel)

/-- One deletion after the other takes away the keys of all of them. -/
theorem mem_deletes (sid : String) (paths : List (List Char)) (b : Bucket) {o : List Char × ByteArray} :
    o ∈ (paths.foldl (delete sid) b).objects ↔
      o ∈ b.objects ∧ ∀ rel ∈ paths, o.1 ≠ objectKey sid "" ++ rel := by
  induction paths generalizing b with
  | nil => exact (and_iff_left fun rel hrel => absurd hrel List.not_mem_nil).symm
  | cons rel paths ih =>
    have hone : o ∈ (delete sid b rel).objects ↔ o ∈ b.objects ∧ o.1 ≠ objectKey sid "" ++ rel := by
      change o ∈ b.objects.filter (fun o => decide (o.1 ≠ objectKey sid (.ofList rel))) ↔ _
      rw [List.mem_filter, decide_eq_true_iff, objectKey_ofList]
    rw [List.foldl_cons, ih, hone, List.forall_mem_cons, and_assoc]

theorem deleteAllObjects_invalid (h : validSessionId sid = false) : s.deleteAllObjects sid = (s, none) :=
  if_pos h

theorem deleteAllObjects_valid (h : validSessionId sid = true) :
    (s.deleteAllObjects sid).1 = { s with bucket := (s.listAll sid).foldl (delete sid) s.bucket } := by
  have hnot : ¬ validSessionId sid = false := by rw [h]; decide
  rw [deleteAllObjects, if_neg hnot]

/-- What is left of the objects. -/
theorem mem_deleteAllObjects (h : validSessionId sid = true) {o : List Char × ByteArray} :
    o ∈ (s.deleteAllObjects sid).1.bucket.objects ↔
      o ∈ s.bucket.objects ∧ (objectKey sid "" <+: o.1 → o.1 = objectKey sid "") := by
  rw [deleteAllObjects_valid h]
  refine (mem_deletes sid (s.listAll sid) s.bucket).trans (and_congr_right fun ho => ⟨?_, ?_⟩)
  · rintro hnone ⟨rel, hrel⟩
    by_contra hne
    refine hnone rel (mem_listAll.mpr ⟨?_, ?_⟩) hrel.symm
    · rintro rfl
      rw [List.append_nil] at hrel
      exact hne hrel.symm
    · rw [hrel]
      exact List.mem_map_of_mem ho
  · intro hbare rel hrel heq
    have hpre : objectKey sid "" <+: o.1 := ⟨rel, heq.symm⟩
    rw [heq] at hbare
    have hnil := List.append_right_eq_self.mp (hbare (List.prefix_append _ rel))
    exact (mem_listAll.mp hrel).1 hnil

theorem validSessionId_slash (h : validSessionId sid = true) : '/' ∉ sid.toList := by
  intro hslash
  have hcontains : sid.toList.contains '/' = true := List.contains_iff_mem.mpr hslash
  rw [validSessionId, hcontains] at h
  simp at h

/-- A key lies under one id without a slash only. -/
theorem id_unique {key : List Char} {other : String} (hsid : '/' ∉ sid.toList) (hother : '/' ∉ other.toList)
    (h : objectKey sid "" <+: key) (h' : objectKey other "" <+: key) : other = sid := by
  obtain ⟨back, rfl⟩ := h
  obtain ⟨back', heq⟩ := h'
  rw [objectKey, objectKey, List.append_assoc, List.append_assoc, List.append_assoc, List.append_assoc] at heq
  exact String.toList_inj.mp (Lines.front_unique hother hsid (List.append_cancel_left heq))

theorem exactObjects_iff : s.ExactObjects sid ↔ s.Unmarked sid := by
  constructor
  · intro h hvalid hmarker
    obtain ⟨o, ho, hkey⟩ := List.mem_map.mp hmarker
    refine h.removed hvalid o ((mem_deleteAllObjects hvalid).mpr ⟨ho, fun _ => hkey⟩) ?_
    rw [hkey]
  · intro h
    refine ⟨deleteAllObjects_invalid, fun hvalid o ho hpre => ?_, fun o hforeign => ?_, ?_⟩
    · obtain ⟨hmem, hbare⟩ := (mem_deleteAllObjects hvalid).mp ho
      exact h hvalid (List.mem_map.mpr ⟨o, hmem, hbare hpre⟩)
    · cases hvalid : validSessionId sid with
      | false => rw [deleteAllObjects_invalid hvalid]
      | true =>
        refine (mem_deleteAllObjects hvalid).trans (and_iff_left fun hpre => ?_)
        obtain hout | ⟨other, hne, hslash, hother⟩ := hforeign
        · exact absurd hpre hout
        · exact absurd (id_unique (validSessionId_slash hvalid) hslash hpre hother) hne
    · cases hvalid : validSessionId sid with
      | false => rw [deleteAllObjects_invalid hvalid]
      | true => rw [deleteAllObjects_valid hvalid]

end Objects

end Store

open Store in
/-- A local deletion is exact just when the id is no other session's memory, and one of an
object store just when no object stands for the session's directory. -/
theorem deleteAll_exact_iff (s : Store) (sid : String) :
    (s.ExactLocal sid ↔ s.Unnamed sid) ∧ (s.ExactObjects sid ↔ s.Unmarked sid) :=
  ⟨exactLocal_iff, exactObjects_iff⟩

/-- A memory by the name of an id. -/
def namesake : Registered := ⟨"s2", "0b9d2b0e-5d6c-4a55-9d0e-6b8e3a1f7c21", false, by decide +kernel⟩

def sharedRoot : Store where
  tree := .ofFiles [([namesake.memoryName.toList, "metadata.json".toList], ⟨#[]⟩)] (by decide +kernel)
    (by decide +kernel)
  storagePath := []
  bucket := .ofObjects []
  sessions := [namesake]

/-- The memory of another session goes with the id that it is named like. -/
theorem namesake_lost : ¬ sharedRoot.ExactLocal "0b9d2b0e-5d6c-4a55-9d0e-6b8e3a1f7c21" := by
  intro h
  have hid := Store.exactLocal_iff.mp h (by decide +kernel) (by decide +kernel) namesake List.mem_cons_self rfl
  exact absurd hid (by decide)

end MemoryArchive.Ipc.DeleteAll
