import MemoryArchive.Registry.Schema
import MemoryArchive.Text.Lines

namespace MemoryArchive.Storage

open Registry

theorem lawful_name : LawfulBEq (List Char) := inferInstance

theorem lawful_path : LawfulBEq (List (List Char)) := inferInstance

inductive RuleMatcher
  | tenantPrefix (lead : String)
  | default

def RuleMatcher.matches : RuleMatcher → String → Bool
  | .tenantPrefix lead, tenantId => tenantId ≠ "" && lead.toList.isPrefixOf tenantId.toList
  | .default, _ => true

structure RoutingRule where
  matcher : RuleMatcher
  backendName : String

/-- The configured backends by name, in the order in which the pool lists them.
Without a backend the program does not start. -/
structure StorageRouter where
  pool : List String
  rules : List RoutingRule
  nonempty : pool ≠ []

theorem local_ne_nil : ["local"] ≠ [] := List.cons_ne_nil _ _

/-- The first rule that matches and names a backend of the pool decides. -/
def StorageRouter.resolve (r : StorageRouter) (tenantId : String) : String :=
  match r.rules.find? fun rule => rule.matcher.matches tenantId && r.pool.contains rule.backendName with
  | some rule => rule.backendName
  | none => r.pool.head r.nonempty

def StorageRouter.resolveForSession (r : StorageRouter) (record : SessionRecord) : String :=
  if record.storageBackend ≠ "" ∧ record.storageBackend ∈ r.pool then record.storageBackend
  else r.resolve record.tenantId

inductive Component
  | rootDir | curDir | parentDir
  | normal (name : List Char)
  deriving DecidableEq

/-- The components of a path: empty pieces are dropped, and so is a dot that is
not the first piece. -/
def components (path : List Char) : List Component :=
  let pieces := Lines.split (· = '/') path
  let component (piece : List Char) : Option Component :=
    if piece = [] ∨ piece = ['.'] then none
    else if piece = ['.', '.'] then some .parentDir
    else some (.normal piece)
  let first : List Component :=
    if path.head? = some '/' then [.rootDir]
    else if pieces.head? = some ['.'] then [.curDir]
    else []
  first ++ pieces.filterMap component

def join (base relative : List Char) : List Char :=
  if relative.head? = some '/' then relative
  else if base = [] ∨ base.getLast? = some '/' then base ++ relative
  else base ++ '/' :: relative

/-- Drop the last component, unless there is none or it is the root. -/
def popComponent (path : List Component) : Option (List Component) :=
  match path.getLast? with
  | none | some .rootDir => none
  | some _ => some path.dropLast

def traverses : String := "relative_path traverses outside session directory"

def normalise : List Component → List Component → Except String (List Component)
  | done, [] => .ok done
  | done, .parentDir :: rest =>
      match popComponent done with
      | some done => normalise done rest
      | none => .error traverses
  | done, .curDir :: rest => normalise done rest
  | done, c :: rest => normalise (done ++ [c]) rest

def validateRelativePath (memoryPath relativePath : String) : Except String (List Component) :=
  if relativePath = "" then .error "relative_path must not be empty"
  else
    match normalise [] (components (join memoryPath.toList relativePath.toList)) with
    | .error e => .error e
    | .ok path =>
        if (components memoryPath.toList).isPrefixOf path then .ok path else .error traverses

/-- An accepted path lies under the directory of the session. -/
theorem validateRelativePath_prefix (memoryPath relativePath : String) (path : List Component)
    (h : validateRelativePath memoryPath relativePath = .ok path) :
    components memoryPath.toList <+: path := by
  unfold validateRelativePath at h
  split at h
  · cases h
  · split at h
    · cases h
    · split at h
      · rename_i hp
        cases h
        exact List.isPrefixOf_iff_prefix.mp hp
      · cases h

/-- Where a file of a session is stored: as an object of a backend, or in the
file system. -/
inductive Location
  | object (backend sessionId path : String)
  | file (path : List Component)
  deriving DecidableEq

end MemoryArchive.Storage
