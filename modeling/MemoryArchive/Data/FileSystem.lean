import Mathlib.Data.List.Infix
import Mathlib.Logic.Function.Basic

namespace MemoryArchive.FileSystem

abbrev Name := List Char

/-- A place on a disk, from the root on. -/
abbrev Path := List Name

abbrev Bytes := List UInt8

/-- What a disk notes of a directory. Every change of it counts. -/
structure Attr where
  mode : Nat
  changes : Nat

structure Inode where
  data : Bytes
  mode : Nat
  changes : Nat

/-- A file is the number of its inode, which may have several names. -/
inductive Entry
  | dir (attr : Attr)
  | file (ino : Nat)
  | link (target : List Char)

def DirAt (entries : Path → Option Entry) (p : Path) : Prop := ∃ a, entries p = some (.dir a)

/-- What is below the root is in a directory, and every file has an inode. -/
structure Disk where
  entries : Path → Option Entry
  inodes : Nat → Inode
  fresh : Nat
  root : DirAt entries []
  tree : ∀ p c, entries (p ++ [c]) ≠ none → DirAt entries p
  used : ∀ p i, entries p = some (.file i) → i < fresh

def names (path : List Char) : List Name := (path.splitOn '/').filter (· ≠ [])

def isAbsolute (path : List Char) : Bool := path.head? = some '/'

/-- The place that names lead to from a directory. `next` follows a link. A strict lookup goes
on only below directories. -/
def follow (d : Disk) (strict : Bool) (next : Path → List Name → Option Path) : Path → List Name → Option Path
  | cur, [] => some cur
  | cur, c :: cs =>
      if c = ['.'] then follow d strict next cur cs
      else if c = ['.', '.'] then follow d strict next cur.dropLast cs
      else
        match d.entries (cur ++ [c]) with
        | some (.link target) => next (if isAbsolute target then [] else cur) (names target ++ cs)
        | some (.dir _) => follow d strict next (cur ++ [c]) cs
        | _ => if strict = true ∧ cs ≠ [] then none else follow d strict next (cur ++ [c]) cs

/-- A lookup that follows no more links than the limit. -/
def walk (d : Disk) (strict : Bool) : Nat → Path → List Name → Option Path
  | 0 => follow d strict fun _ _ => none
  | limit + 1 => follow d strict (walk d strict limit)

abbrev IsDir (d : Disk) (p : Path) : Prop := DirAt d.entries p

instance (entries : Path → Option Entry) (p : Path) : Decidable (DirAt entries p) :=
  match h : entries p with
  | some (.dir a) => .isTrue ⟨a, h⟩
  | some (.file _) => .isFalse fun ⟨_, ha⟩ => by cases h.symm.trans ha
  | some (.link _) => .isFalse fun ⟨_, ha⟩ => by cases h.symm.trans ha
  | none => .isFalse fun ⟨_, ha⟩ => by cases h.symm.trans ha

section Updates

variable {entries : Path → Option Entry} {loc : Path}

/-- The entries of a disk after one was made or taken away. -/
def putEntry (entries : Path → Option Entry) (loc : Path) (e : Option Entry) (a : Attr) : Path → Option Entry :=
  Function.update (Function.update entries loc e) loc.dropLast (some (.dir { a with changes := a.changes + 1 }))

theorem putEntry_other {e : Option Entry} {a : Attr} {p : Path} (hparent : p ≠ loc.dropLast) (hloc : p ≠ loc) :
    putEntry entries loc e a p = entries p := by
  rw [putEntry, Function.update_of_ne hparent, Function.update_of_ne hloc]

theorem putEntry_parent (e : Option Entry) (a : Attr) :
    putEntry entries loc e a loc.dropLast = some (.dir { a with changes := a.changes + 1 }) :=
  Function.update_self ..

theorem putEntry_dir {e : Option Entry} {a : Attr} (hloc : ¬ DirAt entries loc) {p : Path}
    (h : DirAt entries p) : DirAt (putEntry entries loc e a) p := by
  by_cases hparent : p = loc.dropLast
  · rw [hparent]
    exact ⟨_, putEntry_parent e a⟩
  · have hne : p ≠ loc := fun heq => hloc (heq ▸ h)
    rw [DirAt, putEntry_other hparent hne]
    exact h

theorem putEntry_tree {e : Option Entry} {a : Attr} (htree : ∀ p c, entries (p ++ [c]) ≠ none → DirAt entries p)
    (hparent : DirAt entries loc.dropLast) (hloc : ¬ DirAt entries loc) (p : Path) (c : Name)
    (h : putEntry entries loc e a (p ++ [c]) ≠ none) : DirAt (putEntry entries loc e a) p := by
  by_cases hl : p ++ [c] = loc
  · have hlast : (p ++ [c]).dropLast = p := List.dropLast_concat
    rw [← hlast, hl]
    exact ⟨_, putEntry_parent e a⟩
  · by_cases hp : p ++ [c] = loc.dropLast
    · refine putEntry_dir hloc (htree p c ?_)
      obtain ⟨b, hb⟩ := hparent
      rw [hp, hb]
      exact Option.some_ne_none _
    · rw [putEntry_other hp hl] at h
      exact putEntry_dir hloc (htree p c h)

theorem putEntry_file {e : Option Entry} {a : Attr} {p : Path} {i : Nat}
    (h : putEntry entries loc e a p = some (.file i)) : e = some (.file i) ∨ entries p = some (.file i) := by
  by_cases hparent : p = loc.dropLast
  · rw [hparent, putEntry_parent] at h
    cases h
  · by_cases hl : p = loc
    · rw [putEntry, Function.update_of_ne hparent, hl, Function.update_self] at h
      exact .inl h
    · rw [putEntry_other hparent hl] at h
      exact .inr h

end Updates

namespace Disk

variable (d : Disk)

/-- An entry that is no directory is made or taken away, or a directory is made. -/
def put (loc : Path) (e : Option Entry) (he : ∀ i, e = some (.file i) → i < d.fresh) : Option Disk :=
  match hparent : d.entries loc.dropLast with
  | some (.dir a) =>
      if hloc : loc = [] ∨ IsDir d loc then none
      else
        some
          { d with
            entries := putEntry d.entries loc e a
            root := putEntry_dir (fun h => hloc (.inr h)) d.root
            tree := putEntry_tree d.tree ⟨a, hparent⟩ fun h => hloc (.inr h)
            used := fun p i h => (putEntry_file h).elim (he i) (d.used p i) }
  | _ => none

/-- A new inode, which has no name yet. -/
def alloc (data : Bytes) (mode : Nat) : Disk :=
  { d with
    inodes := Function.update d.inodes d.fresh ⟨data, mode, (d.inodes d.fresh).changes + 1⟩
    fresh := d.fresh + 1
    used := fun p i h => Nat.lt_succ_of_lt (d.used p i h) }

def setInode (i : Nat) (data : Bytes) (mode : Nat) : Disk :=
  { d with inodes := Function.update d.inodes i ⟨data, mode, (d.inodes i).changes + 1⟩ }

/-- The mode of a directory or a file. -/
def chmod (loc : Path) (mode : Nat) : Disk :=
  match h : d.entries loc with
  | some (.dir a) =>
      have hdir : ∀ p, DirAt d.entries p →
          DirAt (Function.update d.entries loc (some (.dir ⟨mode, a.changes + 1⟩))) p := by
        intro p hp
        by_cases hl : p = loc
        · rw [hl]
          exact ⟨_, Function.update_self ..⟩
        · rw [DirAt, Function.update_of_ne hl]
          exact hp
      { d with
        entries := Function.update d.entries loc (some (.dir ⟨mode, a.changes + 1⟩))
        root := hdir [] d.root
        tree := by
          intro p c hp
          refine hdir p (d.tree p c ?_)
          by_cases hl : p ++ [c] = loc
          · rw [hl, h]
            exact Option.some_ne_none _
          · rw [Function.update_of_ne hl] at hp
            exact hp
        used := by
          intro p i hp
          by_cases hl : p = loc
          · rw [hl, Function.update_self] at hp
            cases hp
          · rw [Function.update_of_ne hl] at hp
            exact d.used p i hp }
  | some (.file i) => d.setInode i (d.inodes i).data mode
  | _ => d

end Disk

/-- Beside a directory nothing differs: not the entries, and not the files that have a name
there. -/
def SameOutside (top : Path) (d d' : Disk) : Prop :=
  ∀ p, ¬ top <+: p → d'.entries p = d.entries p ∧ ∀ i, d.entries p = some (.file i) → d'.inodes i = d.inodes i

/-- Beside a directory something counts a change. -/
def ChangedOutside (top : Path) (d d' : Disk) : Prop :=
  (∃ p a a', ¬ top <+: p ∧ d.entries p = some (.dir a) ∧ d'.entries p = some (.dir a') ∧
    a.changes < a'.changes) ∨
    ∃ p i, ¬ top <+: p ∧ d.entries p = some (.file i) ∧ (d.inodes i).changes < (d'.inodes i).changes

/-- Directories stay, and no count goes back. -/
structure Later (d d' : Disk) : Prop where
  dirs : ∀ p a, d.entries p = some (.dir a) → ∃ a', d'.entries p = some (.dir a') ∧ a.changes ≤ a'.changes
  inodes : ∀ i, (d.inodes i).changes ≤ (d'.inodes i).changes

/-- All names of a file are in a directory. -/
def Private (top : Path) (d : Disk) (i : Nat) : Prop := ∀ p, d.entries p = some (.file i) → top <+: p

section Order

variable {top : Path} {d d' d'' : Disk}

theorem Later.refl (d : Disk) : Later d d := ⟨fun _ a h => ⟨a, h, Nat.le_refl _⟩, fun _ => Nat.le_refl _⟩

theorem Later.trans (h : Later d d') (h' : Later d' d'') : Later d d'' := by
  refine ⟨fun p a hp => ?_, fun i => (h.inodes i).trans (h'.inodes i)⟩
  obtain ⟨a', hp', hle⟩ := h.dirs p a hp
  obtain ⟨a'', hp'', hle'⟩ := h'.dirs p a' hp'
  exact ⟨a'', hp'', hle.trans hle'⟩

theorem SameOutside.refl (top : Path) (d : Disk) : SameOutside top d d := fun _ _ => ⟨rfl, fun _ _ => rfl⟩

theorem SameOutside.trans (h : SameOutside top d d') (h' : SameOutside top d' d'') : SameOutside top d d'' := by
  intro p hp
  obtain ⟨hentry, hinodes⟩ := h p hp
  obtain ⟨hentry', hinodes'⟩ := h' p hp
  refine ⟨hentry'.trans hentry, fun i hi => ?_⟩
  exact (hinodes' i (hentry.trans hi)).trans (hinodes i hi)

/-- What is the same as before is the same afterwards if it was in between. -/
theorem SameOutside.rest (h : SameOutside top d d') (h' : SameOutside top d d'') : SameOutside top d' d'' := by
  intro p hp
  obtain ⟨hentry, hinodes⟩ := h p hp
  obtain ⟨hentry', hinodes'⟩ := h' p hp
  refine ⟨hentry'.trans hentry.symm, fun i hi => ?_⟩
  have hi' := hentry.symm.trans hi
  exact (hinodes' i hi').trans (hinodes i hi').symm

/-- A change that was counted is not undone. -/
theorem ChangedOutside.later (h : ChangedOutside top d d') (h' : Later d' d'') : ChangedOutside top d d'' := by
  obtain ⟨p, a, a', hp, hd, hd', hlt⟩ | ⟨p, i, hp, hd, hlt⟩ := h
  · obtain ⟨a'', hd'', hle⟩ := h'.dirs p a' hd'
    exact .inl ⟨p, a, a'', hp, hd, hd'', hlt.trans_le hle⟩
  · exact .inr ⟨p, i, hp, hd, hlt.trans_le (h'.inodes i)⟩

theorem ChangedOutside.before (hsame : SameOutside top d d') (h : ChangedOutside top d' d'') :
    ChangedOutside top d d'' := by
  obtain ⟨p, a, a', hp, hd, hd', hlt⟩ | ⟨p, i, hp, hd, hlt⟩ := h
  · exact .inl ⟨p, a, a', hp, (hsame p hp).1.symm.trans hd, hd', hlt⟩
  · have hentry := (hsame p hp).1.symm.trans hd
    rw [(hsame p hp).2 i hentry] at hlt
    exact .inr ⟨p, i, hp, hentry, hlt⟩

end Order

section Changes

variable {top loc : Path} {d d' : Disk}

/-- What an operation does beside a directory: nothing if it is safe, and a change that counts
if it is not. One that fails is safe. -/
def Outcome (top : Path) (d : Disk) (safe : Prop) : Option Disk → Prop
  | none => safe
  | some d' => Later d d' ∧ (safe → SameOutside top d d') ∧ (¬ safe → ChangedOutside top d d')

end Changes

section Lookup

variable {d : Disk}

/-- A directory, or a place in one that is no link. -/
def Placed (d : Disk) (loc : Path) : Prop :=
  IsDir d loc ∨ (IsDir d loc.dropLast ∧ loc ≠ [] ∧ ∀ target, d.entries loc ≠ some (.link target))

end Lookup

end MemoryArchive.FileSystem
