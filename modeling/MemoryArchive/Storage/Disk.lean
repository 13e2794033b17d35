import Mathlib.Data.List.Infix
import Mathlib.Logic.Function.Basic
import MemoryArchive.Storage.Router

namespace MemoryArchive.Storage

/-- One step down a path, where `..` leads back up. -/
def descend (done : List Component) : Component → List Component
  | .parentDir => (popComponent done).getD done
  | .curDir => done
  | c => done ++ [c]

/-- The place in the file system that a path names. Links are not modelled. -/
def place (path : String) : List Component := (components path.toList).foldl descend []

/-- The directories of a disk. Each may hold the id of the session that owns it,
in its metadata. -/
abbrev Dirs := List Component → Option (Option String)

namespace Dirs

variable (dirs : Dirs)

def owner (p : List Component) : Option String := (dirs p).join

/-- `create_dir_all` -/
def make (p : List Component) : Dirs := fun q => if q <+: p then (dirs q).or (some none) else dirs q

/-- Metadata is written to a directory that exists. -/
def setOwner (p : List Component) (sid : String) : Dirs :=
  if (dirs p).isSome then Function.update dirs p (some (some sid)) else dirs

/-- `remove_dir_all` -/
def removeTree (p : List Component) : Dirs := fun q => if p <+: q then none else dirs q

/-- `rename`, to a place where nothing is. -/
def moveTree (p p' : List Component) : Dirs := fun q =>
  if p' <+: q then dirs (p ++ q.drop p'.length) else if p <+: q then none else dirs q

variable {dirs} {p p' q : List Component} {sid : String}

theorem owner_some : dirs.owner p = some sid ↔ dirs p = some (some sid) := by
  rw [owner, Option.join_eq_some_iff]

@[simp] theorem owner_make (p q : List Component) : (dirs.make p).owner q = dirs.owner q := by
  rw [owner, make]
  split
  · rw [owner]
    cases dirs q with
    | none => rfl
    | some o => rfl
  · rfl

theorem owner_setOwner (h : (dirs p).isSome = true) (q : List Component) :
    (dirs.setOwner p sid).owner q = if q = p then some sid else dirs.owner q := by
  rw [owner, setOwner, if_pos h, Function.update_apply]
  split
  · rfl
  · rfl

theorem owner_removeTree (p q : List Component) :
    (dirs.removeTree p).owner q = if p <+: q then none else dirs.owner q := by
  rw [owner, removeTree]
  split
  · rfl
  · rfl

theorem owner_moveTree (p p' q : List Component) :
    (dirs.moveTree p p').owner q =
      if p' <+: q then dirs.owner (p ++ q.drop p'.length) else if p <+: q then none else dirs.owner q := by
  rw [owner, moveTree]
  split
  · rfl
  split
  · rfl
  · rfl

end Dirs

/-- A text that names an entry of a directory. -/
def Plain (name : String) : Prop := name ≠ "" ∧ name ≠ "." ∧ name ≠ ".." ∧ '/' ∉ name.toList

instance (name : String) : Decidable (Plain name) := inferInstanceAs (Decidable (_ ∧ _))

theorem splitFrom_slash (a b acc : List Char) :
    Lines.splitFrom (· = '/') acc (a ++ '/' :: b) =
      Lines.splitFrom (· = '/') acc (a ++ ['/']) ++ Lines.split (· = '/') b := by
  induction a generalizing acc with
  | nil => simp [Lines.splitFrom, Lines.split]
  | cons c a ih =>
    by_cases hc : c = '/'
    · simp only [List.cons_append, Lines.splitFrom, hc, decide_true, if_true, ih]
    · simp only [List.cons_append, Lines.splitFrom, hc, decide_false, Bool.false_eq_true, if_false, ih]

theorem splitFrom_slash_ne_nil (a acc : List Char) :
    Lines.splitFrom (· = '/') acc (a ++ ['/']) ≠ [] := by
  induction a generalizing acc with
  | nil => simp [Lines.splitFrom]
  | cons c a ih =>
    by_cases hc : c = '/'
    · simp [Lines.splitFrom, hc]
    · simpa [Lines.splitFrom, hc] using ih (c :: acc)

theorem Plain.split {name : String} (h : Plain name) :
    Lines.split (· = '/') name.toList = [name.toList] := by
  obtain ⟨hempty, -, -, hslash⟩ := h
  have hall : name.toList.all (fun c => !decide (c = '/')) = true := by
    rw [List.all_eq_true]
    intro c hc
    have hne : c ≠ '/' := fun he => hslash (he ▸ hc)
    simpa using hne
  have hsplit := Lines.splitFrom_append (· = '/') name.toList [] [] hall
  rw [List.append_nil, List.append_nil] at hsplit
  rw [Lines.split, hsplit, Lines.splitFrom, List.reverse_reverse]
  have hne : name.toList ≠ [] := fun he => hempty (String.toList_inj.mp he)
  simp [hne]

/-- A plain name is one step down from the directory that it is joined to. -/
theorem place_join {name : String} (root : String) (h : Plain name) :
    place (root ++ "/" ++ name) = place (root ++ "/") ++ [.normal name.toList] := by
  have hcomponents : components (root ++ "/" ++ name).toList =
      components (root ++ "/").toList ++ [.normal name.toList] := by
    have htext : (root ++ "/" ++ name).toList = root.toList ++ '/' :: name.toList := by simp
    have hroot : (root ++ "/").toList = root.toList ++ ['/'] := by simp
    have hne := splitFrom_slash_ne_nil root.toList []
    have hname := h.split
    obtain ⟨hempty, hdot, hdots, -⟩ := h
    have h1 : name.toList ≠ [] := fun he => hempty (String.toList_inj.mp he)
    have h2 : name.toList ≠ ['.'] := fun he => hdot (String.toList_inj.mp he)
    have h3 : name.toList ≠ ['.', '.'] := fun he => hdots (String.toList_inj.mp he)
    rw [components, components, htext, hroot, Lines.split, splitFrom_slash, hname]
    have hhead : ∀ tail : List Char, (root.toList ++ '/' :: tail).head? = (root.toList ++ ['/']).head? := by
      intro tail
      cases root.toList with
      | nil => rfl
      | cons c cs => rfl
    have hpiece : (Lines.splitFrom (· = '/') [] (root.toList ++ ['/']) ++ [name.toList]).head? =
        (Lines.splitFrom (· = '/') [] (root.toList ++ ['/'])).head? := by
      rw [List.head?_append]
      cases hs : Lines.splitFrom (· = '/') [] (root.toList ++ ['/']) with
      | nil => exact absurd hs hne
      | cons piece pieces => rfl
    have hlast : List.filterMap (fun piece : List Char => if piece = [] ∨ piece = ['.'] then none
        else if piece = ['.', '.'] then some Component.parentDir else some (.normal piece))
        [name.toList] = [.normal name.toList] := by
      simp [h1, h2, h3]
    rw [hhead name.toList, hpiece, List.filterMap_append, hlast, List.append_assoc, Lines.split]
  rw [place, place, hcomponents, List.foldl_append]
  rfl

end MemoryArchive.Storage
