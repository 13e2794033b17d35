import Mathlib.Data.Char
import Mathlib.Data.List.Lex
import Mathlib.Data.List.Sort
import MemoryArchive.Data.FileSystem

namespace MemoryArchive.Updater.Archive

open FileSystem

abbrev Text := List Char

inductive Kind
  | file (data : Bytes)
  | dir
  | sym (linkname : Text)
  | lnk (linkname : Text)

structure TarInfo where
  name : Text
  mode : Nat
  kind : Kind

section Check

variable (limit : Nat) (d : Disk) (dest : Path)

/-- `Path(name).parts` -/
def parts (name : Text) : List Name := (names name).filter (· ≠ ['.'])

/-- `_within`: where the links of the disk lead. A loop of links is an error. -/
def within (target : List Name) : Bool :=
  match walk d false limit dest target with
  | some p => dest.isPrefixOf p
  | none => false

/-- The checks of one member. -/
def accepts (m : TarInfo) : Bool :=
  !isAbsolute m.name && !(parts m.name).contains ['.', '.'] && within limit d dest (parts m.name) &&
    match m.kind with
    | .sym linkname => !isAbsolute linkname && within limit d dest ((parts m.name).dropLast ++ parts linkname)
    | .lnk linkname => !isAbsolute linkname && within limit d dest (parts linkname)
    | _ => true

end Check

/-- How many links a lookup of the system follows. -/
def maxLinks : Nat := 40

section Lookup

variable (d : Disk) (dest : Path)

/-- The place that a name leads to, with all links. -/
def lookup (target : List Name) : Option Path := walk d true maxLinks dest target

def exists_ (target : List Name) : Bool := ((lookup d dest target).bind d.entries).isSome

/-- The place of a name itself, where a link is not followed any more. -/
def place (target : List Name) : Option Path :=
  match target.getLast? with
  | none => none
  | some c =>
      if c = ['.'] ∨ c = ['.', '.'] then none
      else (lookup d dest target.dropLast).bind fun p => if IsDir d p then some (p ++ [c]) else none

end Lookup

/-- What is made in the place of a member. -/
inductive Deed
  | write (data : Bytes) (mode : Nat)
  | mkdir
  | symlink (linkname : Text)
  | link (linkname : Text)

/-- `tarfile` makes a copy of the member that a hard link refers to if it cannot link. The
members before it are given, the latest first. -/
def copyOf : List TarInfo → Text → Option Deed
  | [], _ => none
  | m :: ms, linkname =>
      if parts m.name = parts linkname then
        match m.kind with
        | .file data => some (.write data m.mode)
        | .dir => some .mkdir
        | .sym linkname => some (.symlink linkname)
        | .lnk linkname => copyOf ms linkname
      else copyOf ms linkname

/-- What is extracted, step by step. -/
inductive Step
  /-- A directory that a member is in. -/
  | ensure (target : List Name)
  | make (before : List TarInfo) (m : TarInfo)
  | attrs (target : List Name) (mode : Nat)

def memberSteps (before : List TarInfo) (m : TarInfo) : List Step :=
  (names m.name).dropLast.inits.tail.map .ensure ++ [.make before m] ++
    match m.kind with
    | .lnk _ => [.attrs (names m.name) m.mode]
    | _ => []

def stepsFrom : List TarInfo → List TarInfo → List Step
  | _, [] => []
  | before, m :: ms => memberSteps before m ++ stepsFrom (m :: before) ms

def isDirectory (m : TarInfo) : Bool :=
  match m.kind with
  | .dir => true
  | _ => false

/-- `extractall`: the members in order, and last the attributes of the directories. -/
def steps (archive : List TarInfo) : List Step :=
  stepsFrom [] archive ++
    ((archive.filter isDirectory).insertionSort fun a b => b.name ≤ a.name).map fun m =>
      .attrs (names m.name) m.mode

section Extraction

variable (d : Disk) (dest : Path)

/-- A hard link is made where nothing is, of a file or a link that leads to something. -/
def canLink (target : List Name) (linkname : Text) : Bool :=
  match place d dest target, place d dest (names linkname) with
  | some loc, some src =>
      exists_ d dest (names linkname) && (d.entries loc).isNone &&
        match d.entries src with
        | some (.dir _) => false
        | e => e.isSome
  | _, _ => false

def deed (before : List TarInfo) (m : TarInfo) : Option Deed :=
  match m.kind with
  | .file data => some (.write data m.mode)
  | .dir => some .mkdir
  | .sym linkname => some (.symlink linkname)
  | .lnk linkname =>
      if canLink d dest (names m.name) linkname then some (.link linkname) else copyOf before linkname

def mkdir (loc : Path) (mode : Nat) : Option Disk := d.put loc (some (.dir ⟨mode, 0⟩)) (by simp)

/-- `open(target, "wb")` follows links. -/
def write (target : List Name) (data : Bytes) (mode : Nat) : Option Disk :=
  (lookup d dest target).bind fun loc =>
    match d.entries loc with
    | some (.file i) => some (d.setInode i data mode)
    | none => (d.alloc data mode).put loc (some (.file d.fresh)) (by simp [Disk.alloc])
    | _ => none

/-- A directory that is already there is taken as it is. -/
def asDir (target : List Name) : Option Disk :=
  if (lookup d dest target).any fun p => IsDir d p then some d else none

def makedir (target : List Name) : Option Disk :=
  match place d dest target with
  | some loc => if (d.entries loc).isNone then mkdir d loc 0o700 else asDir d dest target
  | none => asDir d dest target

/-- An old file or link of that name goes first. -/
def symlink (target : List Name) (linkname : Text) : Option Disk :=
  (place d dest target).bind fun loc => d.put loc (some (.link linkname)) (by simp)

def link (target : List Name) (linkname : Text) : Option Disk :=
  (place d dest target).bind fun loc => (place d dest (names linkname)).bind fun src =>
    if (d.entries loc).isSome then none else d.put loc (d.entries src) fun i hi => d.used src i hi

def perform (target : List Name) : Deed → Option Disk
  | .write data mode => write d dest target data mode
  | .mkdir => makedir d dest target
  | .symlink linkname => symlink d dest target linkname
  | .link linkname => link d dest target linkname

/-- `makedirs`, one directory. -/
def ensure (target : List Name) : Option Disk :=
  if exists_ d dest target then some d
  else (place d dest target).bind fun loc => if (d.entries loc).isNone then mkdir d loc 0o755 else none

/-- An error here is not fatal. -/
def setAttrs (target : List Name) (mode : Nat) : Disk :=
  match lookup d dest target with
  | none => d
  | some loc => d.chmod loc mode

/-- One step. A step that fails leaves the disk as it is. -/
def exec : Step → Option Disk
  | .ensure target => ensure d dest target
  | .make before m => (deed d dest before m).bind (perform d dest (names m.name))
  | .attrs target mode => some (setAttrs d dest target mode)

/-- The extraction ends with the first error. -/
def run : Disk → List Step → Disk
  | d, [] => d
  | d, s :: ss =>
      match exec d dest s with
      | some d' => run d' ss
      | none => d

end Extraction

/-- A place in the destination. A file there has no name anywhere else. -/
def Own (d : Disk) (dest loc : Path) : Prop :=
  match d.entries loc with
  | some (.file i) => Private dest d i
  | _ => dest <+: loc

section Safety

variable (d : Disk) (dest : Path)

/-- The place that the name leads to on the disk is the destination's own. -/
def SafeDeed (target : List Name) : Deed → Prop
  | .write _ _ => ∀ loc, lookup d dest target = some loc → ¬ IsDir d loc → Own d dest loc
  | .mkdir => ∀ loc, place d dest target = some loc → d.entries loc = none → dest <+: loc
  | .symlink _ => ∀ loc, place d dest target = some loc → ¬ IsDir d loc → dest <+: loc
  | .link linkname => ∀ loc src, place d dest target = some loc → place d dest (names linkname) = some src →
      d.entries loc = none → dest <+: loc

def Safe : Step → Prop
  | .ensure target => exists_ d dest target = false →
      ∀ loc, place d dest target = some loc → d.entries loc = none → dest <+: loc
  | .make before m => ∀ done, deed d dest before m = some done → SafeDeed d dest (names m.name) done
  | .attrs target _ => ∀ loc, lookup d dest target = some loc → d.entries loc ≠ none → Own d dest loc

end Safety

section Steps

variable {d : Disk} {dest : Path} {target : List Name}

end Steps

section Escape

end Escape

end MemoryArchive.Updater.Archive
