import MemoryArchive.Ipc.Directories
import MemoryArchive.Registry.Hash
import MemoryArchive.Tui.Counters

namespace MemoryArchive.Ipc.Purge

open Registry (SessionStatus)
open Registry.Hash (StoredRecord Update displayMode displayStatus)
open Storage
open Tui (MetadataFile)

/-- A directory with its metadata.json, if that can be read. For which session it was
made is not written on the disk. -/
structure Folder where
  metadata : Option ByteArray
  madeFor : Option String

abbrev Tree := List Component → Option Folder

namespace Tree

variable (tree : Tree)

/-- What stands at a path. Nothing is at the empty path. -/
def find (path : String) : Option Folder := if path = "" then none else tree (place path)

def madeFor (path : String) : Option String := (tree.find path).bind Folder.madeFor

/-- `create_dir_all` -/
def make (p : List Component) : Tree := fun q => if q <+: p then (tree q).or (some ⟨none, none⟩) else tree q

/-- `remove_dir_all` -/
def remove (p : List Component) : Tree := fun q => if p <+: q then none else tree q

def move (p p' : List Component) : Tree := fun q =>
  if p' <+: q then tree (p ++ q.drop p'.length) else if p <+: q then none else tree q

/-- `rename`, which replaces an empty directory and nothing else. -/
def rename (overEmpty : Bool) (p p' : List Component) : Option Tree :=
  match tree p, tree p' with
  | none, _ => none
  | some _, none => some (tree.move p p')
  | some _, some folder => if folder.metadata.isNone && overEmpty then some (tree.move p p') else none

end Tree

/-- The non-empty string under `session_id` in metadata.json, read as untyped JSON. -/
def readOwnerSessionId (metadata : Option ByteArray) : Option String :=
  match (((metadata.bind decodeUtf8).bind Json.parse).map (Json.rebuild Json.putSorted)).bind
      (Json.get? "session_id") with
  | some (.str sessionId) => if sessionId = "" then none else some sessionId
  | _ => none

/-- The session that owns the directory at a path. -/
def Tree.owner (tree : Tree) (path : String) : Option String :=
  (tree.find path).bind fun folder => readOwnerSessionId folder.metadata

/-- How removals go that the system may refuse. A refused removal leaves any part of the
directory. -/
structure Removals where
  refused : List Component → Bool
  residue : Tree

def Removals.never : Removals := ⟨fun _ => false, fun _ => none⟩

section Purge

variable (rm : Removals) (sessionId : String)

/-- The loop of `purge_memory_dir`. An error ends it. -/
def purgeDirs (removed : Bool) (tree : Tree) : List String → Tree × Except String Bool
  | [] => (tree, .ok removed)
  | candidate :: candidates =>
      match tree.find candidate with
      | none => purgeDirs removed tree candidates
      | some folder =>
          if readOwnerSessionId folder.metadata = some sessionId then
            if rm.refused (place candidate) then
              (fun q => if place candidate <+: q then rm.residue q else tree q,
                .error s!"Failed to remove memory directory: {candidate}")
            else purgeDirs true (tree.remove (place candidate)) candidates
          else purgeDirs removed tree candidates

def candidates (memoryPath : String) : List String := [memoryPath, memoryPath ++ incompleteMark]

def purgeMemoryDir (memoryPath : String) (tree : Tree) : Tree × Except String Bool :=
  purgeDirs rm sessionId false tree (candidates memoryPath)

end Purge

/-- Whatever changes is at or below a directory at the path or its sibling, and the metadata
of this directory holds the id of the session. -/
def Confined (sessionId memoryPath : String) (tree tree' : Tree) : Prop :=
  ∀ p, tree' p ≠ tree p →
    ∃ candidate ∈ candidates memoryPath, tree.owner candidate = some sessionId ∧ place candidate <+: p

/-- What was made for the session at the path or its sibling is gone, unless the system
refused to remove a directory of the session. -/
def Purged (rm : Removals) (sessionId memoryPath : String) (tree : Tree)
    (result : Tree × Except String Bool) : Prop :=
  (∀ candidate ∈ candidates memoryPath, tree.madeFor candidate = some sessionId →
      result.1.find candidate = none ∧ result.2 = .ok true) ∨
    ∃ candidate ∈ candidates memoryPath, tree.owner candidate = some sessionId ∧
      rm.refused (place candidate) = true ∧
      result.2 = .error s!"Failed to remove memory directory: {candidate}"

def componentText : Component → List Char
  | .rootDir => []
  | .curDir => ['.']
  | .parentDir => ['.', '.']
  | .normal name => name

/-- A path with these components, where no slash is doubled. -/
def pathText : List Component → String
  | [.rootDir] => "/"
  | parts => String.ofList (['/'].intercalate (parts.map componentText))

def markIncomplete (overEmpty : Bool) (memoryDir : String) (tree : Tree) : Tree × Except String String :=
  let parts := components memoryDir.toList
  match parts.getLast? with
  | none | some .rootDir => (tree, .error "Memory directory has no parent")
  | some .curDir | some .parentDir => (tree, .error "Memory directory has no name")
  | some (.normal name) =>
      if incompleteMark.toList.isSuffixOf name then (tree, .ok memoryDir)
      else
        let incompleteDir := parts.dropLast ++ [.normal (name ++ incompleteMark.toList)]
        match tree.rename overEmpty (place memoryDir) (incompleteDir.foldl descend []) with
        | some tree => (tree, .ok (pathText incompleteDir))
        | none => (tree, .error s!"Failed to rename {memoryDir} → {pathText incompleteDir}")

/-- Where `initialise` may fail. -/
inductive InitFault
  | removal
  | directories (reached : Bool)
  | metadata

variable {Time : Type}

def buildInitialMetadata (now : String) (record : StoredRecord Time) : MetadataFile where
  memoryName := record.memoryName
  memoryDescription := ""
  sessionId := record.sessionId
  mode := displayMode record.mode
  status := displayStatus record.status
  os := ⟨record.osType, record.osVersion, record.osArchitecture, record.osEnvironmentId⟩
  captureServerId := record.captureServerId
  actuationServerId := record.actuationServerId
  reasoningModelId := record.reasoningModelId
  maCoreAddr := record.maCoreAddr
  actuationAgentVersion := ""
  actuationTransport := ""
  actuationServerVersion := ""
  createdAt := now
  completedAt := none
  totalSteps := 0
  annotatedSteps := 0
  skippedSteps := 0
  steps := []
  skippedImageFetches := []
  closingImagePath := none
  tenantId := record.tenantId
  totalInputTokens := 0
  totalOutputTokens := 0
  tokenCostsByProvider := []
  inProgress := none
  kafkaPartition := none
  kafkaOffset := none
  modelProvider := record.modelProvider
  fallbackModelProvider := record.fallbackModelProvider
  fallbackModelEndpoint := record.fallbackModelEndpoint
  captureServerAddr := record.captureServerAddr
  theEyesAddr := record.theEyesAddr
  providers_nodup := List.nodup_nil

/-- The subdirectories of a new memory directory. -/
def subdirs (isCloudPrimary : Bool) : List (List String) :=
  if isCloudPrimary then [["commands"]] else [["commands"], ["vision", "frames"], ["reasoning"]]

/-- The part of `initialise` that makes the directory and writes its metadata. -/
def makeMemoryDir (fault : Option InitFault) (now : String) (record : StoredRecord Time)
    (isCloudPrimary : Bool) (memoryDir : String) (tree : Tree) : Tree × Except String String :=
  let p := place memoryDir
  let made := (subdirs isCloudPrimary).foldl
    (fun tree sub => tree.make (p ++ sub.map fun name => .normal name.toList)) tree
  match fault with
  | some (.directories reached) =>
      (if reached then made else tree, .error s!"Failed to create directory: {memoryDir}")
  | some .metadata => (made, .error s!"Failed to write temp metadata: {memoryDir}/metadata.json.tmp")
  | some .removal | none =>
      (Function.update made p
        (some ⟨some (buildInitialMetadata now record).write, some record.sessionId⟩), .ok memoryDir)

def initialise (fault : Option InitFault) (now : String) (record : StoredRecord Time)
    (storagePath : String) (isCloudPrimary : Bool) (tree : Tree) : Tree × Except String String :=
  let memoryDir := String.ofList (join storagePath.toList record.memoryName.toList)
  match isCloudPrimary, tree.find memoryDir, fault with
  | true, some _, some .removal =>
      (tree, .error s!"Failed to remove stale memory directory: {memoryDir}")
  | true, _, _ => makeMemoryDir fault now record true memoryDir (tree.remove (place memoryDir))
  | false, some _, _ =>
      (tree, .error s!"Memory directory already exists: {memoryDir} — choose a different memory_name")
  | false, none, _ => makeMemoryDir fault now record false memoryDir tree

/-- What `Uuid::new_v4` gives is not empty. -/
structure NewId where
  text : String
  nonempty : text ≠ ""

/-- The disk and the records of the registry. -/
structure World (Time : Type) where
  tree : Tree
  records : String → Option (StoredRecord Time)

/-- RegisterSession, a `mark_incomplete` of the directory of a session, a write of
metadata that was read from the same file before, or a deletion. -/
inductive Act (Time : Type)
  | register (isCloudPrimary : Bool) (storagePath : String) (id : NewId) (record : StoredRecord Time)
      (now : String) (fault : Option InitFault) (scratchStays : Bool)
  | markIncomplete (sessionId : String) (overEmpty updated : Bool) (now : Time)
  | rewrite (path : String) (metadata : MetadataFile)
  | delete (sessionId : String)

namespace World

variable (w : World Time)

/-- Before the first session is registered, any directories may be there. -/
def start (metadata : List Component → Option (Option ByteArray)) : World Time where
  tree p := (metadata p).map fun file => ⟨file, none⟩
  records _ := none

def register (isCloudPrimary : Bool) (storagePath : String) (id : NewId) (record : StoredRecord Time)
    (now : String) (fault : Option InitFault) (scratchStays : Bool) : World Time :=
  if badMemoryName record.memoryName || (w.records id.text).isSome then w
  else
    let record := { record with
      sessionId := id.text
      status := .active
      memoryPath := storagePath ++ "/" ++ record.memoryName }
    match initialise fault now record storagePath isCloudPrimary w.tree with
    | (tree, .ok memoryDir) =>
        { tree := if isCloudPrimary && !scratchStays then tree.remove (place memoryDir) else tree
          records := Function.update w.records id.text (some record) }
    | (tree, .error _) =>
        { tree := tree
          records := Function.update w.records id.text (some { record with status := .incomplete }) }

/-- The record follows the directory, unless its update fails. -/
def markIncomplete (sessionId : String) (overEmpty updated : Bool) (now : Time) : World Time :=
  match w.records sessionId with
  | none => w
  | some record =>
      match Purge.markIncomplete overEmpty record.memoryPath w.tree with
      | (tree, .ok path) =>
          { tree := tree
            records :=
              if updated then
                Function.update w.records sessionId (some ((Update.memoryPath path now).revise record))
              else w.records }
      | (_, .error _) => w

def rewrite (path : String) (metadata : MetadataFile) : World Time :=
  match w.tree.find path with
  | some folder =>
      if readOwnerSessionId folder.metadata = some metadata.sessionId then
        { w with
          tree := Function.update w.tree (place path) (some { folder with metadata := some metadata.write }) }
      else w
  | none => w

def delete (sessionId : String) : World Time :=
  match w.records sessionId with
  | none => w
  | some record =>
      { tree := (purgeMemoryDir .never sessionId record.memoryPath w.tree).1
        records := Function.update w.records sessionId none }

def step (w : World Time) : Act Time → World Time
  | .register isCloudPrimary storagePath id record now fault scratchStays =>
      w.register isCloudPrimary storagePath id record now fault scratchStays
  | .markIncomplete sessionId overEmpty updated now => w.markIncomplete sessionId overEmpty updated now
  | .rewrite path metadata => w.rewrite path metadata
  | .delete sessionId => w.delete sessionId

end World

section Owner

theorem readOwner_write (m : MetadataFile) (h : m.sessionId ≠ "") :
    readOwnerSessionId (some m.write) = some m.sessionId := by
  obtain ⟨hdistinct, hparse⟩ := Tui.contains_write m
  have hfield : m.fields.lookup "session_id" = some (.str m.sessionId) := rfl
  have hget : (Json.rebuild Json.putSorted (.obj m.fields)).get? "session_id" = some (.str m.sessionId) := by
    change (Json.rebuildFields Json.putSorted [] m.fields).lookup "session_id" = _
    rw [Json.lookup_rebuildFields_distinct .nil hdistinct.1, hfield]
    rfl
  rw [readOwnerSessionId, Option.bind_some, hparse, Option.map_some, Option.bind_some, hget]
  exact if_neg h

theorem readOwner_ne {metadata : Option ByteArray} {sid : String}
    (h : readOwnerSessionId metadata = some sid) : sid ≠ "" := by
  rw [readOwnerSessionId] at h
  split at h
  · split at h
    · cases h
    · rename_i hne
      exact Option.some_inj.mp h ▸ hne
  · cases h

theorem find_some {tree : Tree} {path : String} {folder : Folder} (h : tree.find path = some folder) :
    tree (place path) = some folder := by
  rw [Tree.find] at h
  split at h
  · cases h
  · exact h

/-- A directory that was made for a session names the session in its metadata. -/
def Sound (tree : Tree) : Prop :=
  ∀ p folder sid, tree p = some folder → folder.madeFor = some sid →
    readOwnerSessionId folder.metadata = some sid

variable {tree tree' : Tree}

/-- Directories that come from others, or were made for no session, change nothing. -/
theorem Sound.of_old (h : Sound tree)
    (hold : ∀ p folder, tree' p = some folder → (∃ q, tree q = some folder) ∨ folder.madeFor = none) :
    Sound tree' := by
  intro p folder sid hp hmade
  obtain ⟨q, hq⟩ | hnone := hold p folder hp
  · exact h q folder sid hq hmade
  · cases hnone.symm.trans hmade

theorem Sound.remove (h : Sound tree) (p : List Component) : Sound (tree.remove p) := by
  refine h.of_old fun q folder hq => .inl ⟨q, ?_⟩
  rw [Tree.remove] at hq
  split at hq
  · cases hq
  · exact hq

theorem Sound.make (h : Sound tree) (p : List Component) : Sound (tree.make p) := by
  refine h.of_old fun q folder hq => ?_
  rw [Tree.make] at hq
  split at hq
  · cases hold : tree q with
    | none =>
      rw [hold] at hq
      cases hq
      exact .inr rfl
    | some old =>
      rw [hold] at hq
      cases hq
      exact .inl ⟨q, hold⟩
  · exact .inl ⟨q, hq⟩

theorem Sound.move (h : Sound tree) (p p' : List Component) : Sound (tree.move p p') := by
  refine h.of_old fun q folder hq => .inl ?_
  rw [Tree.move] at hq
  split at hq
  · exact ⟨_, hq⟩
  split at hq
  · cases hq
  · exact ⟨q, hq⟩

theorem Sound.rename (h : Sound tree) {overEmpty : Bool} {p p' : List Component}
    (hrename : tree.rename overEmpty p p' = some tree') : Sound tree' := by
  rw [Tree.rename] at hrename
  split at hrename
  · cases hrename
  · cases hrename
    exact h.move p p'
  · split at hrename
    · cases hrename
      exact h.move p p'
    · cases hrename

theorem Sound.update (h : Sound tree) (p : List Component) {folder : Folder}
    (hfolder : ∀ sid, folder.madeFor = some sid → readOwnerSessionId folder.metadata = some sid) :
    Sound (Function.update tree p (some folder)) := by
  intro q found sid hq hmade
  rw [Function.update_apply] at hq
  split at hq
  · cases hq
    exact hfolder sid hmade
  · exact h q found sid hq hmade

theorem Sound.markIncomplete (h : Sound tree) (overEmpty : Bool) (memoryDir : String) :
    Sound (Purge.markIncomplete overEmpty memoryDir tree).1 := by
  rw [Purge.markIncomplete]
  dsimp only
  split
  · exact h
  · exact h
  · exact h
  · exact h
  · split
    · exact h
    · split
      · rename_i hrename
        exact h.rename hrename
      · exact h

theorem Sound.foldl_make (h : Sound tree) (ps : List (List Component)) :
    Sound (ps.foldl (fun tree p => tree.make p) tree) := by
  induction ps generalizing tree with
  | nil => exact h
  | cons p ps ih => exact ih (h.make p)

variable {Time : Type} {record : StoredRecord Time}

theorem Sound.makeMemoryDir (h : Sound tree) (hid : record.sessionId ≠ "") (fault : Option InitFault)
    (now : String) (isCloudPrimary : Bool) (memoryDir : String) :
    Sound (Purge.makeMemoryDir fault now record isCloudPrimary memoryDir tree).1 := by
  have hmade : Sound ((subdirs isCloudPrimary).foldl
      (fun tree sub => tree.make (place memoryDir ++ sub.map fun name => .normal name.toList)) tree) := by
    have hfold := h.foldl_make ((subdirs isCloudPrimary).map fun sub =>
      place memoryDir ++ sub.map fun name => .normal name.toList)
    rw [List.foldl_map] at hfold
    exact hfold
  have hwritten : ∀ tree, Sound tree → Sound (Function.update tree (place memoryDir)
      (some ⟨some (buildInitialMetadata now record).write, some record.sessionId⟩)) := by
    intro tree htree
    refine htree.update _ fun sid hsid => ?_
    cases hsid
    exact readOwner_write (buildInitialMetadata now record) hid
  unfold Purge.makeMemoryDir
  dsimp only
  split
  · split
    · exact hmade
    · exact h
  · exact hmade
  · exact hwritten _ hmade
  · exact hwritten _ hmade

theorem Sound.initialise (h : Sound tree) (hid : record.sessionId ≠ "") (fault : Option InitFault)
    (now storagePath : String) (isCloudPrimary : Bool) :
    Sound (Purge.initialise fault now record storagePath isCloudPrimary tree).1 := by
  unfold Purge.initialise
  dsimp only
  split
  · exact h
  · exact (h.remove _).makeMemoryDir hid _ now true _
  · exact h
  · exact h.makeMemoryDir hid _ now false _

end Owner

section Purge

variable (rm : Removals) (sid : String) (tree : Tree)

theorem find_remove (p : List Component) (path : String) :
    (tree.remove p).find path = if p <+: place path then none else tree.find path := by
  rw [Tree.find, Tree.find, Tree.remove]
  split
  · split
    · rfl
    · rfl
  · rfl

/-- A removal gives no directory an owner. -/
theorem owner_remove {p : List Component} {path : String} (h : (tree.remove p).owner path = some sid) :
    tree.owner path = some sid := by
  rw [Tree.owner, find_remove] at h
  split at h
  · cases h
  · exact h

theorem purgeDirs_changes (removed : Bool) (paths : List String) (p : List Component)
    (h : (purgeDirs rm sid removed tree paths).1 p ≠ tree p) :
    ∃ path ∈ paths, tree.owner path = some sid ∧ place path <+: p := by
  induction paths generalizing tree removed with
  | nil => exact absurd rfl h
  | cons path paths ih =>
    have hrest : (∃ path ∈ paths, tree.owner path = some sid ∧ place path <+: p) →
        ∃ path' ∈ path :: paths, tree.owner path' = some sid ∧ place path' <+: p :=
      fun ⟨path', hmem, hpath⟩ => ⟨path', List.mem_cons_of_mem _ hmem, hpath⟩
    rw [purgeDirs] at h
    split at h
    case h_1 => exact hrest (ih tree removed h)
    case h_2 folder hfound =>
      split at h
      case isFalse => exact hrest (ih tree removed h)
      case isTrue howner =>
        have hhere : place path <+: p →
            ∃ path' ∈ path :: paths, tree.owner path' = some sid ∧ place path' <+: p := by
          intro hbelow
          refine ⟨path, List.mem_cons_self, ?_, hbelow⟩
          rw [Tree.owner, hfound]
          exact howner
        by_cases hbelow : place path <+: p
        · exact hhere hbelow
        split at h
        case isTrue => exact absurd (if_neg hbelow) h
        case isFalse =>
          have hsame : tree.remove (place path) p = tree p := if_neg hbelow
          rw [← hsame] at h
          obtain ⟨path', hmem, howner', hbelow'⟩ := ih _ true h
          exact ⟨path', List.mem_cons_of_mem _ hmem, owner_remove sid tree howner', hbelow'⟩

/-- The loop takes directories away until the system refuses a removal. -/
theorem purgeDirs_result (removed : Bool) (paths : List String) :
    (∃ removed', (purgeDirs rm sid removed tree paths).2 = .ok removed' ∧
        (removed = true → removed' = true) ∧
        (∀ path, tree.find path = none → (purgeDirs rm sid removed tree paths).1.find path = none) ∧
        ∀ path ∈ paths, tree.owner path = some sid →
          (purgeDirs rm sid removed tree paths).1.find path = none ∧ removed' = true) ∨
      ∃ path ∈ paths, tree.owner path = some sid ∧ rm.refused (place path) = true ∧
        (purgeDirs rm sid removed tree paths).2 = .error s!"Failed to remove memory directory: {path}" := by
  induction paths generalizing tree removed with
  | nil => exact .inl ⟨removed, rfl, id, fun _ h => h, fun _ h => absurd h List.not_mem_nil⟩
  | cons path paths ih =>
    -- A directory that the loop passes over is none of the session's.
    have hskip : tree.owner path ≠ some sid →
        purgeDirs rm sid removed tree (path :: paths) = purgeDirs rm sid removed tree paths := by
      intro hother
      rw [purgeDirs]
      split
      · rfl
      · rename_i folder hfound
        rw [Tree.owner, hfound] at hother
        exact if_neg hother
    by_cases howner : tree.owner path = some sid
    · obtain ⟨folder, hfound, hid⟩ := Option.bind_eq_some_iff.mp howner
      rw [purgeDirs, hfound]
      dsimp only
      rw [if_pos hid]
      by_cases hrefused : rm.refused (place path) = true
      · rw [if_pos hrefused]
        exact .inr ⟨path, List.mem_cons_self, howner, hrefused, rfl⟩
      rw [if_neg hrefused]
      obtain ⟨removed', hresult, hflag, hgone, hpaths⟩ | ⟨path', hmem, howner', hrefused', hresult⟩ :=
        ih (tree.remove (place path)) true
      · have hhere : (purgeDirs rm sid true (tree.remove (place path)) paths).1.find path = none := by
          refine hgone path ?_
          rw [find_remove, if_pos (List.prefix_refl _)]
        refine .inl ⟨removed', hresult, fun _ => hflag rfl, fun path' hnone => hgone path' ?_, ?_⟩
        · rw [find_remove, hnone, ite_self]
        · refine List.forall_mem_cons.mpr ⟨fun _ => ⟨hhere, hflag rfl⟩, fun path' hmem howner' => ?_⟩
          -- A later candidate may have gone with the directory that was removed.
          by_cases hbelow : place path <+: place path'
          · exact ⟨hgone path' (by rw [find_remove, if_pos hbelow]), hflag rfl⟩
          · refine hpaths path' hmem ?_
            rw [Tree.owner, find_remove, if_neg hbelow]
            exact howner'
      · exact .inr ⟨path', List.mem_cons_of_mem _ hmem, owner_remove sid tree howner', hrefused', hresult⟩
    · rw [hskip howner]
      obtain ⟨removed', hresult, hflag, hgone, hpaths⟩ | ⟨path', hmem, howner', hrefused', hresult⟩ :=
        ih tree removed
      · exact .inl ⟨removed', hresult, hflag, hgone,
          List.forall_mem_cons.mpr ⟨fun hother => absurd hother howner, hpaths⟩⟩
      · exact .inr ⟨path', List.mem_cons_of_mem _ hmem, howner', hrefused', hresult⟩

theorem sound_purge {tree : Tree} (h : Sound tree) (sid memoryPath : String) :
    Sound (purgeMemoryDir .never sid memoryPath tree).1 := by
  have hdirs : ∀ paths removed tree, Sound tree → Sound (purgeDirs .never sid removed tree paths).1 := by
    intro paths
    induction paths with
    | nil => exact fun _ _ h => h
    | cons path paths ih =>
      intro removed tree h
      rw [purgeDirs]
      split
      · exact ih removed tree h
      split
      · exact ih true _ (h.remove _)
      · exact ih removed tree h
  exact hdirs (candidates memoryPath) false tree h

/-- The directories with their owners. -/
def Tree.dirs (tree : Tree) : Dirs := fun p => (tree p).map fun folder => readOwnerSessionId folder.metadata

end Purge

section Runs

variable {Time : Type} {w : World Time}

theorem sound_start (metadata : List Component → Option (Option ByteArray)) :
    Sound (World.start metadata : World Time).tree := by
  intro p folder sid hp hmade
  obtain ⟨file, -, rfl⟩ := Option.map_eq_some_iff.mp hp
  cases hmade

theorem sound_step (h : Sound w.tree) (a : Act Time) : Sound (w.step a).tree := by
  cases a with
  | register isCloudPrimary storagePath id record now fault scratchStays =>
    rw [World.step, World.register]
    split
    · exact h
    dsimp only
    have hinit : ∀ record : StoredRecord Time, record.sessionId = id.text →
        Sound (initialise fault now record storagePath isCloudPrimary w.tree).1 :=
      fun record hid => h.initialise (hid ▸ id.nonempty) fault now storagePath isCloudPrimary
    replace hinit := hinit { record with
      sessionId := id.text
      status := .active
      memoryPath := storagePath ++ "/" ++ record.memoryName } rfl
    split
    · rename_i tree memoryDir heq
      rw [heq] at hinit
      dsimp only
      split
      · exact hinit.remove _
      · exact hinit
    · rename_i tree e heq
      rw [heq] at hinit
      exact hinit
  | markIncomplete sessionId overEmpty updated now =>
    rw [World.step, World.markIncomplete]
    split
    · exact h
    · rename_i record hrecord
      have hmark := h.markIncomplete overEmpty record.memoryPath
      split
      · rename_i tree path heq
        rw [heq] at hmark
        exact hmark
      · exact h
  | rewrite path metadata =>
    rw [World.step, World.rewrite]
    split
    · rename_i folder hfound
      split
      · rename_i howner
        refine h.update _ fun sid hmade => ?_
        have hold := h _ folder sid (find_some hfound) hmade
        have hsid : metadata.sessionId = sid := Option.some_inj.mp (howner.symm.trans hold)
        rw [readOwner_write metadata (readOwner_ne howner), hsid]
      · exact h
    · exact h
  | delete sessionId =>
    rw [World.step, World.delete]
    split
    · exact h
    · exact sound_purge h sessionId _

/-- Purging a session changes nothing but directories that name it in their metadata. After
any registrations and marks, it takes away what was made for the session at its path
or the sibling. -/
theorem purge_confined :
    (∀ (rm : Removals) (sid memoryPath : String) (tree : Tree),
      Confined sid memoryPath tree (purgeMemoryDir rm sid memoryPath tree).1) ∧
    ∀ (Time : Type) (metadata : List Component → Option (Option ByteArray)) (acts : List (Act Time))
      (rm : Removals) (sid memoryPath : String),
      let tree := (Runs.run World.step (World.start metadata) acts).tree
      Purged rm sid memoryPath tree (purgeMemoryDir rm sid memoryPath tree) := by
  refine ⟨fun rm sid memoryPath tree p h => purgeDirs_changes rm sid tree false _ p h, ?_⟩
  intro Time metadata acts rm sid memoryPath tree
  have hstep : ∀ (w : World Time) a, Sound w.tree → True → Sound (w.step a).tree :=
    fun w a h _ => sound_step h a
  have hsound : Sound tree :=
    Runs.invariant_run hstep _ acts (sound_start metadata) (Runs.guarded_true _ _)
  obtain ⟨removed, hresult, -, -, hgone⟩ | hrefused :=
    purgeDirs_result rm sid tree false (candidates memoryPath)
  · refine .inl fun candidate hmem hmade => ?_
    obtain ⟨folder, hfound, hfor⟩ := Option.bind_eq_some_iff.mp hmade
    have howner : tree.owner candidate = some sid := by
      rw [Tree.owner, hfound]
      exact hsound _ folder sid (find_some hfound) hfor
    obtain ⟨hnone, htrue⟩ := hgone candidate hmem howner
    exact ⟨hnone, htrue ▸ hresult⟩
  · exact .inr hrefused

end Runs

end MemoryArchive.Ipc.Purge
