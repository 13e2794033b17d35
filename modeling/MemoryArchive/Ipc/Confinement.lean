import MemoryArchive.Ipc.Annotator
import MemoryArchive.Ipc.Listing

namespace MemoryArchive.Ipc

open Registry Storage

attribute [local instance] lawful_path

/-- The entries that a path names on its way, as far as it gets. -/
def looks (t : Tree) : Path → List (List Char) → List Path
  | _, [] => []
  | cur, piece :: rest =>
      if cur ∈ t.dirs then
        (if isNamed piece ∧ piece ≠ ['.', '.'] then [cur ++ [piece]] else []) ++
          looks t (advance cur piece) rest
      else []

namespace Confinement

variable (s : Server) (h : Host)

/-- Where FetchFile reads, or how it is refused. -/
def fetchLocation (sessionId relativePath : String) : Except OutboundMessage Location :=
  match s.redis.get sessionId with
  | .error e => .error (.error "SESSION_NOT_FOUND" e)
  | .ok record =>
      if s.storageMode = "cloud_primary" ∧
          (['.', '.'] <:+: relativePath.toList ∨ relativePath.toList.head? = some '/') then
        .error (.error "INVALID_PATH" "relative_path must not contain '..' or start with '/'")
      else (s.location record sessionId relativePath).mapError (.error "INVALID_PATH")

/-- Where ListSessionFiles lists, or how it is refused. -/
def listLocation (sessionId lead : String) : Except OutboundMessage (SessionRecord × Location) :=
  match s.redis.get sessionId with
  | .error e => .error (.error "SESSION_NOT_FOUND" e)
  | .ok record =>
      if s.storageMode = "cloud_primary" then
        .ok (record, .object (s.router.resolveForSession record) sessionId (cloudPath record lead))
      else if lead = "" then .ok (record, .file (components record.memoryPath.toList))
      else
        ((validateRelativePath record.memoryPath lead).mapError (OutboundMessage.error "INVALID_PATH")).map
          fun path => (record, .file path)

/-- Where UploadFile writes, and what, or how it is refused. -/
def uploadLocation (serdeError : List Char → String) (u : Upload) :
    Except OutboundMessage (Location × ByteArray) :=
  if u.relativePath ≠ allowedReasoning ∧ u.relativePath ≠ allowedMetadata then
    .error (.error "WRITE_FORBIDDEN"
      (s!"Annotators may only write to '{allowedReasoning}' or '{allowedMetadata}'. " ++
        s!"Path '{u.relativePath}' is not permitted."))
  else if maxUploadBytes < u.bytes.size then
    .error (.error "PAYLOAD_TOO_LARGE" s!"Upload exceeds maximum allowed size of {maxUploadBytes} bytes")
  else
    match u.writeBytes serdeError with
    | .error e => .error (.error "INVALID_PAYLOAD" e)
    | .ok bytes =>
        match s.redis.get u.sessionId with
        | .error e => .error (.error "SESSION_NOT_FOUND" e)
        | .ok record =>
            match s.location record u.sessionId u.relativePath with
            | .error e => .error (.error "INVALID_PATH" e)
            | .ok loc => .ok (loc, bytes)

/-- UploadFile changes no file but the one at its location. -/
theorem uploadFile_eq (serdeError : List Char → String) (fault : Option String) (u : Upload) :
    uploadFile serdeError s fault u =
      match uploadLocation s serdeError u with
      | .error reply => (s, reply)
      | .ok (loc, bytes) =>
          match fault with
          | some e => (s, .error "UPLOAD_FAILED" s!"Could not write '{u.relativePath}': {e}")
          | none => ({ s with files := Function.update s.files loc (some bytes) },
              .fileUploaded u.sessionId u.relativePath) := by
  rw [uploadFile, uploadLocation]
  split
  · rfl
  split
  · rfl
  cases u.writeBytes serdeError with
  | error e => rfl
  | ok bytes =>
    dsimp only
    cases s.redis.get u.sessionId with
    | error e => rfl
    | ok record =>
      dsimp only
      cases s.location record u.sessionId u.relativePath with
      | error e => rfl
      | ok loc => rfl

/-- What the local backend looks up for a path: the names on its way and its end. -/
def diskTouch (sessionId path : String) : List Path :=
  looks h.tree (h.sessionDir sessionId) (pieces path.toList) ++ (h.resolve sessionId path).toList

/-- What a read at a location looks at. -/
def readTouch : Location → List Storage.Place
  | .object backend sessionId path =>
      match h.kind backend with
      | .localDisk => (diskTouch h sessionId path).map .file
      | .s3 | .gcp => [.object backend (objectKey sessionId path)]
      | .azure => [.object backend ((h.bucket backend).addressed (objectKey sessionId path))]
  | .file path => [.file (names path)]

/-- What a listing under a location looks at, and what it lists. -/
def listTouch (base : List Component) (loc : Location) : List Storage.Place :=
  (match loc with
    | .object backend sessionId path =>
        match h.kind backend with
        | .localDisk => (diskTouch h sessionId path).map .file
        | _ => []
    | .file dir => [.file (names dir)]) ++
  match listAt h base loc with
  | .error _ => []
  | .ok files => files.map Prod.fst

/-- `with_extension("tmp")` of a name. -/
def withTmp (name : List Char) : List Char :=
  (match name.reverse.dropWhile (· ≠ '.') with
    | [] | [_] => name
    | _ :: stem => stem.reverse) ++ ".tmp".toList

/-- What a write at a location creates or replaces. -/
def writeTouch : Location → List Storage.Place
  | .object backend sessionId path =>
      match h.kind backend with
      | .localDisk =>
          let target := (pieces path.toList).foldl advance (h.sessionDir sessionId)
          [.file (target.dropLast ++ (target.getLast?.map withTmp).toList), .file target]
      | .s3 | .gcp => [.object backend (objectKey sessionId path)]
      | .azure => [.object backend ((h.bucket backend).addressed (objectKey sessionId path))]
  | .file path => [.file (names path)]

/-- What an annotator's message reads, lists or writes. -/
def touched (serdeError : List Char → String) (annotatorId : String) (msg : InboundMessage) :
    List Storage.Place :=
  match opSession msg with
  | none => []
  | some sid =>
      if s.redis.getClaimOwner sid ≠ some annotatorId then []
      else
        match msg with
        | .fetchFile sessionId relativePath =>
            match fetchLocation s sessionId relativePath with
            | .error _ => []
            | .ok loc => readTouch h loc
        | .listSessionFiles sessionId lead =>
            match listLocation s sessionId lead with
            | .error _ => []
            | .ok (record, loc) => listTouch h (components record.memoryPath.toList) loc
        | .uploadFile u =>
            match uploadLocation s serdeError u with
            | .error _ => []
            | .ok (loc, _) => writeTouch h loc
        | _ => []

/-- The tree of a session: its memory directory, or its part of its backend. -/
def Own (record : SessionRecord) (sessionId : String) : Storage.Place → Prop
  | .file path =>
      if s.storageMode = "cloud_primary" then h.sessionDir sessionId <+: path
      else names (components record.memoryPath.toList) <+: path
  | .object backend key =>
      backend = s.router.resolveForSession record ∧ objectKey sessionId "" <+: key

/-- A path that stays in a directory: every name on its way is that of the
directory or of something in it, and so is its end. -/
structure StaysIn (dir : Path) (path : String) : Prop where
  named : ∀ before piece rest, pieces path.toList = before ++ piece :: rest → isNamed piece = true →
    piece ≠ ['.', '.'] → ∀ cur, h.tree.walk dir before = some cur → cur ∈ h.tree.dirs →
      dir <+: cur ++ [piece]
  ends : ∀ p, h.tree.walk dir (pieces path.toList) = some p → dir <+: p

theorem mem_looks {t : Tree} {start p : Path} {ps : List (List Char)} :
    p ∈ looks t start ps ↔ ∃ before piece rest cur, ps = before ++ piece :: rest ∧ isNamed piece = true ∧
      piece ≠ ['.', '.'] ∧ t.walk start before = some cur ∧ cur ∈ t.dirs ∧ p = cur ++ [piece] := by
  induction ps generalizing start with
  | nil =>
    constructor
    · intro hp
      cases hp
    · rintro ⟨before, piece, rest, -, hps, -⟩
      cases before with
      | nil => cases hps
      | cons _ _ => cases hps
  | cons first ps ih =>
    rw [looks]
    by_cases hdir : start ∈ t.dirs
    · rw [if_pos hdir, List.mem_append, ih]
      constructor
      · rintro (hp | ⟨before, piece, rest, cur, rfl, hnamed, hup, hwalk, hcur, rfl⟩)
        · split at hp
          · rename_i hname
            exact ⟨[], first, ps, start, rfl, hname.1, hname.2, rfl, hdir, List.mem_singleton.mp hp⟩
          · cases hp
        · refine ⟨first :: before, piece, rest, cur, rfl, hnamed, hup, ?_, hcur, rfl⟩
          rw [Tree.walk, if_pos hdir, hwalk]
      · rintro ⟨before, piece, rest, cur, hps, hnamed, hup, hwalk, hcur, rfl⟩
        cases before with
        | nil =>
          cases hps
          cases hwalk
          exact .inl (by rw [if_pos ⟨hnamed, hup⟩]; exact List.mem_singleton_self _)
        | cons b before =>
          cases hps
          rw [Tree.walk, if_pos hdir] at hwalk
          exact .inr ⟨before, piece, rest, cur, rfl, hnamed, hup, hwalk, hcur, rfl⟩
    · rw [if_neg hdir]
      constructor
      · intro hp
        cases hp
      · rintro ⟨before, piece, rest, cur, hps, -, -, hwalk, hcur, -⟩
        cases before with
        | nil =>
          cases hwalk
          exact absurd hcur hdir
        | cons b before =>
          cases hps
          rw [Tree.walk, if_neg hdir] at hwalk
          cases hwalk

/-- A path without a piece that leads up stays where it starts. -/
theorem staysIn_of_no_dots {dir : Path} {path : String} (hup : ['.', '.'] ∉ pieces path.toList) :
    StaysIn h dir path := by
  constructor
  · intro before piece rest hps _ _ cur hwalk _
    have hbefore : ['.', '.'] ∉ before := fun hmem => hup (hps ▸ List.mem_append_left _ hmem)
    rw [walk_down h.tree hbefore hwalk, List.append_assoc]
    exact List.prefix_append dir _
  · intro p hwalk
    rw [walk_down h.tree hup hwalk]
    exact List.prefix_append dir _

theorem diskTouch_staysIn {sessionId path : String} :
    (∀ p ∈ diskTouch h sessionId path, h.sessionDir sessionId <+: p) ↔
      StaysIn h (h.sessionDir sessionId) path := by
  constructor
  · intro hall
    constructor
    · intro before piece rest hps hnamed hup cur hwalk hcur
      exact hall _ (List.mem_append_left _
        (mem_looks.mpr ⟨before, piece, rest, cur, hps, hnamed, hup, hwalk, hcur, rfl⟩))
    · intro p hwalk
      exact hall p (List.mem_append_right _ (Option.mem_toList.mpr hwalk))
  · intro hstays p hp
    obtain hp | hp := List.mem_append.mp hp
    · obtain ⟨before, piece, rest, cur, hps, hnamed, hup, hwalk, hcur, rfl⟩ := mem_looks.mp hp
      exact hstays.named before piece rest hps hnamed hup cur hwalk hcur
    · exact hstays.ends p (Option.mem_toList.mp hp)

/-- The condition on a message: on Azure the URL addresses a name of the
session, and on the local backend the prefix of a listing does not lead out of
the session's directory. -/
def Safe (serdeError : List Char → String) (record : SessionRecord) : InboundMessage → Prop
  | .fetchFile sessionId relativePath =>
      h.kind (s.router.resolveForSession record) = .azure →
        ¬ (['.', '.'] <:+: relativePath.toList ∨ relativePath.toList.head? = some '/') →
        objectKey sessionId "" <+: (h.bucket (s.router.resolveForSession record)).addressed
          (objectKey sessionId (cloudPath record relativePath))
  | .listSessionFiles sessionId lead =>
      h.kind (s.router.resolveForSession record) = .localDisk →
        StaysIn h (h.sessionDir sessionId) (cloudPath record lead)
  | .uploadFile u =>
      h.kind (s.router.resolveForSession record) = .azure → (uploadLocation s serdeError u).isOk →
        objectKey u.sessionId "" <+: (h.bucket (s.router.resolveForSession record)).addressed
          (objectKey u.sessionId (cloudPath record u.relativePath))
  | _ => True

variable {s h} {record : SessionRecord} {sessionId : String}

theorem objectKey_own (path : String) : objectKey sessionId "" <+: objectKey sessionId path := by
  refine ⟨path.toList, ?_⟩
  rw [objectKey, objectKey, List.append_assoc]
  rfl

/-- A path that has been checked lies in the memory directory. -/
theorem validated_own {relativePath : String} {path : List Component}
    (hv : validateRelativePath record.memoryPath relativePath = .ok path) :
    names (components record.memoryPath.toList) <+: names path := by
  have hunder := validateRelativePath_prefix record.memoryPath relativePath path hv
  exact hunder.filterMap _

theorem own_object {path : String} :
    Own s h record sessionId (.object (s.router.resolveForSession record) (objectKey sessionId path)) :=
  ⟨rfl, objectKey_own path⟩

theorem own_disk {p : Path} (hmode : s.storageMode = "cloud_primary") :
    Own s h record sessionId (.file p) ↔ h.sessionDir sessionId <+: p := by
  rw [Own, if_pos hmode]

theorem own_local {p : Path} (hmode : s.storageMode ≠ "cloud_primary") :
    Own s h record sessionId (.file p) ↔ names (components record.memoryPath.toList) <+: p := by
  rw [Own, if_neg hmode]

/-- A path that the handler lets through has no piece that leads up. -/
theorem no_dots_cloudPath (hname : IsName record.memoryName.toList) {relativePath : String}
    (hok : ¬ ['.', '.'] <:+: relativePath.toList) :
    ['.', '.'] ∉ pieces (cloudPath record relativePath).toList := by
  rw [toList_cloudPath, pieces_slash, pieces_name hname.2.2.2, List.mem_append, List.mem_singleton]
  rintro (hmem | hmem)
  · exact hname.2.2.1 hmem.symm
  · exact hok (dots_of_piece hmem)

/-- What FetchFile looks at is the session's if and only if the message is safe. -/
theorem fetch_own_iff (hmode : s.storageMode = "cloud_primary") (hname : IsName record.memoryName.toList)
    (serdeError : List Char → String) {relativePath : String}
    (hok : ¬ (['.', '.'] <:+: relativePath.toList ∨ relativePath.toList.head? = some '/')) :
    (∀ place ∈ readTouch h (.object (s.router.resolveForSession record) sessionId
        (cloudPath record relativePath)), Own s h record sessionId place) ↔
      Safe s h serdeError record (.fetchFile sessionId relativePath) := by
  rw [readTouch, Safe]
  cases h.kind (s.router.resolveForSession record) with
  | localDisk =>
    refine ⟨fun _ hazure => (by cases hazure), fun _ place hplace => ?_⟩
    obtain ⟨p, hp, rfl⟩ := List.mem_map.mp hplace
    have hdots := no_dots_cloudPath hname (not_or.mp hok).1
    exact (own_disk hmode).mpr ((diskTouch_staysIn h).mpr (staysIn_of_no_dots h hdots) p hp)
  | s3 =>
    refine ⟨fun _ hazure => (by cases hazure), fun _ place hplace => ?_⟩
    obtain rfl := List.mem_singleton.mp hplace
    exact own_object
  | gcp =>
    refine ⟨fun _ hazure => (by cases hazure), fun _ place hplace => ?_⟩
    obtain rfl := List.mem_singleton.mp hplace
    exact own_object
  | azure =>
    constructor
    · intro hall _ _
      exact (hall _ (List.mem_singleton_self _)).2
    · intro hsafe place hplace
      obtain rfl := List.mem_singleton.mp hplace
      exact ⟨rfl, hsafe rfl hok⟩

theorem mem_listTouch {base : List Component} {loc : Location} {place : Storage.Place}
    (hplace : place ∈ (match listAt h base loc with
      | .error _ => []
      | .ok files => files.map Prod.fst)) :
    ∃ files, listAt h base loc = .ok files ∧ place ∈ files.map Prod.fst := by
  cases hlist : listAt h base loc with
  | error e =>
    rw [hlist] at hplace
    cases hplace
  | ok files =>
    rw [hlist] at hplace
    exact ⟨files, rfl, hplace⟩

theorem map_ok {entries : Except String (List (Storage.Place × List Char))}
    {files : List (Storage.Place × FileEntry)}
    (hmap : entries.map (·.map fun e => (e.1, entryOf e.2)) = .ok files) {place : Storage.Place}
    (hplace : place ∈ files.map Prod.fst) :
    ∃ listed, entries = .ok listed ∧ place ∈ listed.map Prod.fst := by
  cases entries with
  | error e => cases hmap
  | ok listed =>
    cases hmap
    rw [List.map_map] at hplace
    exact ⟨listed, rfl, hplace⟩

/-- What a bucket lists has the session's part of the keys in front. -/
theorem listBucket_own {backend path : String} {place : Storage.Place}
    (hplace : place ∈ (h.listBucket backend sessionId path).map Prod.fst) :
    ∃ key, place = .object backend key ∧ objectKey sessionId "" <+: key := by
  obtain ⟨e, he, rfl⟩ := List.mem_map.mp hplace
  rw [Host.listBucket] at he
  obtain ⟨keys, hkeys, he⟩ := List.mem_flatMap.mp he
  obtain ⟨⟨key, name⟩, hnamed, hsome⟩ := List.mem_filterMap.mp he
  have hkey : key ∈ keys := by
    rw [Host.named] at hnamed
    split at hnamed
    · exact (List.of_mem_zip hnamed).1
    · exact (List.of_mem_zip hnamed).1
  dsimp only at hsome
  split at hsome
  · cases hsome
  · cases hsome
    have hpage := ((h.bucket backend).pages_perm (objectKey sessionId path)).mem_iff.mp
      (List.mem_flatten.mpr ⟨keys, hkeys, hkey⟩)
    have hunder := List.isPrefixOf_iff_prefix.mp (List.mem_filter.mp hpage).2
    exact ⟨key, rfl, (objectKey_own path).trans hunder⟩

/-- What ListSessionFiles lists is the session's if and only if the message is safe. -/
theorem list_own_iff (hmode : s.storageMode = "cloud_primary") (serdeError : List Char → String)
    (base : List Component) (lead : String) :
    (∀ place ∈ listTouch h base (.object (s.router.resolveForSession record) sessionId
        (cloudPath record lead)), Own s h record sessionId place) ↔
      Safe s h serdeError record (.listSessionFiles sessionId lead) := by
  have hbucket (hk : h.kind (s.router.resolveForSession record) ≠ .localDisk) :
      ∀ place ∈ listTouch h base (.object (s.router.resolveForSession record) sessionId
        (cloudPath record lead)), Own s h record sessionId place := by
    intro place hplace
    obtain hlook | hlisted := List.mem_append.mp hplace
    · dsimp only at hlook
      split at hlook
      · rename_i hdisk
        exact absurd hdisk hk
      · cases hlook
    · obtain ⟨files, hfiles, hin⟩ := mem_listTouch hlisted
      obtain ⟨listed, hlist, hmem⟩ := map_ok hfiles hin
      rw [Host.list] at hlist
      split at hlist
      · rename_i hdisk
        exact absurd hdisk hk
      · cases hlist
        obtain ⟨key, rfl, hkey⟩ := listBucket_own hmem
        exact ⟨rfl, hkey⟩
  rw [Safe]
  by_cases hk : h.kind (s.router.resolveForSession record) = .localDisk
  · have hdisk : ∀ path, h.list (s.router.resolveForSession record) sessionId path =
        h.listDisk sessionId path := by
      intro path
      rw [Host.list, hk]
    rw [← diskTouch_staysIn]
    constructor
    · intro hall _ p hp
      have hmem : Storage.Place.file p ∈ listTouch h base (.object (s.router.resolveForSession record)
          sessionId (cloudPath record lead)) := by
        refine List.mem_append_left _ ?_
        dsimp only
        rw [hk]
        exact List.mem_map.mpr ⟨p, hp, rfl⟩
      exact (own_disk hmode).mp (hall _ hmem)
    · intro hsafe place hplace
      obtain hlook | hlisted := List.mem_append.mp hplace
      · dsimp only at hlook
        rw [hk] at hlook
        obtain ⟨p, hp, rfl⟩ := List.mem_map.mp hlook
        exact (own_disk hmode).mpr (hsafe hk p hp)
      · obtain ⟨files, hfiles, hin⟩ := mem_listTouch hlisted
        obtain ⟨listed, hlist, hmem⟩ := map_ok hfiles hin
        rw [hdisk] at hlist
        obtain ⟨e, he, rfl⟩ := List.mem_map.mp hmem
        obtain ⟨dir, rest, bytes, hdir, -, -, -, rfl⟩ := mem_listDisk hlist he
        have hin := hsafe hk dir (List.mem_append_right _ (Option.mem_toList.mpr hdir))
        exact (own_disk hmode).mpr (hin.trans (List.prefix_append dir rest))
  · exact ⟨fun _ hdisk => absurd hdisk hk, fun _ => hbucket hk⟩

theorem foldl_advance {ps : List (List Char)} (hup : ['.', '.'] ∉ ps) (cur : Path) :
    ps.foldl advance cur = cur ++ ps.filter isNamed := by
  induction ps generalizing cur with
  | nil => rw [List.foldl_nil, List.filter_nil, List.append_nil]
  | cons piece ps ih =>
    rw [List.mem_cons, not_or] at hup
    rw [List.foldl_cons, ih hup.2, advance, if_neg (Ne.symm hup.1)]
    by_cases hname : isNamed piece = true
    · have hgo : ¬ (piece = [] ∨ piece = ['.']) := by
        rintro (rfl | rfl)
        · cases hname
        · cases hname
      rw [if_neg hgo, List.filter_cons, if_pos hname, List.append_assoc, List.singleton_append]
    · have hstay : piece = [] ∨ piece = ['.'] := by
        by_contra hgo
        rw [not_or] at hgo
        exact hname (by simp [isNamed, hgo.1, hgo.2])
      rw [if_pos hstay, List.filter_cons, if_neg hname]

theorem uploadLocation_ok {serdeError : List Char → String} {u : Upload} {loc : Location}
    {bytes : ByteArray} (hrecord : s.redis.get u.sessionId = .ok record)
    (hok : uploadLocation s serdeError u = .ok (loc, bytes)) :
    (u.relativePath = allowedReasoning ∨ u.relativePath = allowedMetadata) ∧
      s.location record u.sessionId u.relativePath = .ok loc := by
  rw [uploadLocation] at hok
  split at hok
  · cases hok
  rename_i hpath
  split at hok
  · cases hok
  split at hok
  · cases hok
  rw [hrecord] at hok
  dsimp only at hok
  split at hok
  · cases hok
  rename_i loc' hloc
  cases hok
  refine ⟨?_, hloc⟩
  by_contra hne
  exact hpath (not_or.mp hne)

/-- What UploadFile writes is the session's if and only if the message is safe. -/
theorem upload_own_iff (hmode : s.storageMode = "cloud_primary") (hname : IsName record.memoryName.toList)
    {serdeError : List Char → String} {u : Upload} {bytes : ByteArray}
    (hrecord : s.redis.get u.sessionId = .ok record) {loc : Location}
    (hok : uploadLocation s serdeError u = .ok (loc, bytes)) :
    (∀ place ∈ writeTouch h loc, Own s h record u.sessionId place) ↔
      Safe s h serdeError record (.uploadFile u) := by
  obtain ⟨hpath, hloc⟩ := uploadLocation_ok hrecord hok
  have hcloud : loc = .object (s.router.resolveForSession record) u.sessionId
      (cloudPath record u.relativePath) := by
    rw [Server.location, if_pos hmode] at hloc
    exact (Except.ok.inj hloc).symm
  rw [hcloud, writeTouch, Safe, hok]
  cases h.kind (s.router.resolveForSession record) with
  | localDisk =>
    refine ⟨fun _ hazure => (by cases hazure), fun _ place hplace => ?_⟩
    have hdots : ¬ ['.', '.'] <:+: u.relativePath.toList := by
      obtain hpath | hpath := hpath
      · rw [hpath]
        decide +kernel
      · rw [hpath]
        decide +kernel
    have htarget := foldl_advance (no_dots_cloudPath hname hdots) (h.sessionDir u.sessionId)
    rw [named_pieces_cloudPath hname] at htarget
    rw [htarget] at hplace
    obtain rfl | hplace := List.mem_cons.mp hplace
    · rw [own_disk hmode, List.dropLast_append_of_ne_nil (List.cons_ne_nil _ _), List.append_assoc]
      exact List.prefix_append _ _
    · obtain rfl := List.mem_singleton.mp hplace
      exact (own_disk hmode).mpr (List.prefix_append _ _)
  | s3 =>
    refine ⟨fun _ hazure => (by cases hazure), fun _ place hplace => ?_⟩
    obtain rfl := List.mem_singleton.mp hplace
    exact own_object
  | gcp =>
    refine ⟨fun _ hazure => (by cases hazure), fun _ place hplace => ?_⟩
    obtain rfl := List.mem_singleton.mp hplace
    exact own_object
  | azure =>
    constructor
    · intro hall _ _
      exact (hall _ (List.mem_singleton_self _)).2
    · intro hsafe place hplace
      obtain rfl := List.mem_singleton.mp hplace
      exact ⟨rfl, hsafe rfl rfl⟩

/-- In local mode every message stays in the memory directory. -/
theorem local_own (hmode : s.storageMode ≠ "cloud_primary") {relativePath : String} {loc : Location}
    (hloc : s.location record sessionId relativePath = .ok loc) :
    ∃ path, loc = .file path ∧ Own s h record sessionId (.file (names path)) := by
  rw [Server.location, if_neg hmode] at hloc
  cases hv : validateRelativePath record.memoryPath relativePath with
  | error e =>
    rw [hv] at hloc
    cases hloc
  | ok path =>
    rw [hv] at hloc
    cases hloc
    exact ⟨path, rfl, (own_local hmode).mpr (validated_own hv)⟩

theorem listDirRecursive_below {t : Tree} {dir base : Path} {e : Storage.Place × FileEntry}
    (he : e ∈ listDirRecursive t dir base) : ∃ p, e.1 = .file p ∧ dir <+: p := by
  rw [listDirRecursive] at he
  split at he
  · obtain ⟨f, hf, rfl⟩ := List.mem_map.mp he
    have hunder := (List.mem_filter.mp hf).2
    rw [Bool.and_eq_true] at hunder
    exact ⟨f.1, rfl, List.isPrefixOf_iff_prefix.mp hunder.1⟩
  · cases he

theorem list_local_own (hmode : s.storageMode ≠ "cloud_primary") {lead : String} {loc : Location}
    (hrecord : s.redis.get sessionId = .ok record)
    (hok : listLocation s sessionId lead = .ok (record, loc)) :
    ∀ place ∈ listTouch h (components record.memoryPath.toList) loc, Own s h record sessionId place := by
  have hdir : ∃ dir, loc = .file dir ∧ names (components record.memoryPath.toList) <+: names dir := by
    rw [listLocation, hrecord] at hok
    dsimp only at hok
    rw [if_neg hmode] at hok
    split at hok
    · cases hok
      exact ⟨_, rfl, List.prefix_rfl⟩
    · cases hv : validateRelativePath record.memoryPath lead with
      | error e =>
        rw [hv] at hok
        cases hok
      | ok path =>
        rw [hv] at hok
        cases hok
        exact ⟨path, rfl, validated_own hv⟩
  obtain ⟨dir, rfl, hdir⟩ := hdir
  intro place hplace
  obtain hlook | hlisted := List.mem_append.mp hplace
  · obtain rfl := List.mem_singleton.mp hlook
    exact (own_local hmode).mpr hdir
  · obtain ⟨e, he, rfl⟩ := List.mem_map.mp hlisted
    obtain ⟨p, hp, hbelow⟩ := listDirRecursive_below he
    rw [hp]
    exact (own_local hmode).mpr (hdir.trans hbelow)

section Messages

variable {serdeError : List Char → String} {annotatorId : String}

theorem touched_owner {msg : InboundMessage} (hsid : opSession msg = some sessionId)
    (howner : s.redis.getClaimOwner sessionId ≠ some annotatorId) :
    touched s h serdeError annotatorId msg = [] := by
  unfold touched
  rw [hsid]
  dsimp only
  rw [if_pos howner]

theorem touched_fetch {relativePath : String} (hrecord : s.redis.get sessionId = .ok record)
    (hname : IsName record.memoryName.toList)
    (howner : s.redis.getClaimOwner sessionId = some annotatorId) :
    (∀ place ∈ touched s h serdeError annotatorId (.fetchFile sessionId relativePath),
        Own s h record sessionId place) ↔
      (s.storageMode = "cloud_primary" →
        Safe s h serdeError record (.fetchFile sessionId relativePath)) := by
  rw [touched, opSession]
  dsimp only
  rw [if_neg (not_not.mpr howner), fetchLocation, hrecord]
  dsimp only
  by_cases hmode : s.storageMode = "cloud_primary"
  · rw [forall_prop_of_true hmode]
    by_cases hbad : ['.', '.'] <:+: relativePath.toList ∨ relativePath.toList.head? = some '/'
    · rw [if_pos ⟨hmode, hbad⟩]
      exact ⟨fun _ _ hok => absurd hbad hok, fun _ _ hplace => (List.not_mem_nil hplace).elim⟩
    · rw [if_neg fun hrefused => hbad hrefused.2, Server.location, if_pos hmode]
      exact fetch_own_iff hmode hname serdeError hbad
  · refine ⟨fun _ hcloud => absurd hcloud hmode, fun _ place hplace => ?_⟩
    rw [if_neg fun hrefused => hmode hrefused.1] at hplace
    cases hloc : s.location record sessionId relativePath with
    | error e =>
      rw [hloc] at hplace
      cases hplace
    | ok loc =>
      rw [hloc] at hplace
      obtain ⟨path, rfl, hown⟩ := local_own hmode hloc
      obtain rfl := List.mem_singleton.mp hplace
      exact hown

theorem touched_list {lead : String} (hrecord : s.redis.get sessionId = .ok record)
    (howner : s.redis.getClaimOwner sessionId = some annotatorId) :
    (∀ place ∈ touched s h serdeError annotatorId (.listSessionFiles sessionId lead),
        Own s h record sessionId place) ↔
      (s.storageMode = "cloud_primary" →
        Safe s h serdeError record (.listSessionFiles sessionId lead)) := by
  rw [touched, opSession]
  dsimp only
  rw [if_neg (not_not.mpr howner)]
  by_cases hmode : s.storageMode = "cloud_primary"
  · rw [forall_prop_of_true hmode, listLocation, hrecord]
    dsimp only
    rw [if_pos hmode]
    exact list_own_iff hmode serdeError (components record.memoryPath.toList) lead
  · refine ⟨fun _ hcloud => absurd hcloud hmode, fun _ place hplace => ?_⟩
    cases hok : listLocation s sessionId lead with
    | error e =>
      rw [hok] at hplace
      cases hplace
    | ok found =>
      obtain ⟨record', loc⟩ := found
      rw [hok] at hplace
      obtain rfl : record' = record := by
        rw [listLocation, hrecord] at hok
        dsimp only at hok
        rw [if_neg hmode] at hok
        split at hok
        · cases hok
          rfl
        · cases hv : validateRelativePath record.memoryPath lead with
          | error e =>
            rw [hv] at hok
            cases hok
          | ok path =>
            rw [hv] at hok
            cases hok
            rfl
      exact list_local_own hmode hrecord hok place hplace

theorem touched_upload {u : Upload} (hrecord : s.redis.get u.sessionId = .ok record)
    (hname : IsName record.memoryName.toList)
    (howner : s.redis.getClaimOwner u.sessionId = some annotatorId) :
    (∀ place ∈ touched s h serdeError annotatorId (.uploadFile u),
        Own s h record u.sessionId place) ↔
      (s.storageMode = "cloud_primary" → Safe s h serdeError record (.uploadFile u)) := by
  rw [touched, opSession]
  dsimp only
  rw [if_neg (not_not.mpr howner)]
  cases hok : uploadLocation s serdeError u with
  | error e =>
    refine ⟨fun _ _ _ haccepted => ?_, fun _ _ hplace => (List.not_mem_nil hplace).elim⟩
    rw [hok] at haccepted
    cases haccepted
  | ok written =>
    obtain ⟨loc, bytes⟩ := written
    dsimp only
    by_cases hmode : s.storageMode = "cloud_primary"
    · rw [forall_prop_of_true hmode]
      exact upload_own_iff hmode hname hrecord hok
    · refine ⟨fun _ hcloud => absurd hcloud hmode, fun _ place hplace => ?_⟩
      obtain ⟨path, rfl, hown⟩ := local_own hmode (uploadLocation_ok hrecord hok).2
      obtain rfl := List.mem_singleton.mp hplace
      exact hown

theorem touched_iff {msg : InboundMessage} (hsid : opSession msg = some sessionId)
    (hrecord : s.redis.get sessionId = .ok record) (hname : IsName record.memoryName.toList)
    (howner : s.redis.getClaimOwner sessionId = some annotatorId) :
    (∀ place ∈ touched s h serdeError annotatorId msg, Own s h record sessionId place) ↔
      (s.storageMode = "cloud_primary" → Safe s h serdeError record msg) := by
  have hother (hnone : touched s h serdeError annotatorId msg = [])
      (hsafe : Safe s h serdeError record msg) :
      (∀ place ∈ touched s h serdeError annotatorId msg, Own s h record sessionId place) ↔
        (s.storageMode = "cloud_primary" → Safe s h serdeError record msg) := by
    rw [hnone]
    exact ⟨fun _ _ => hsafe, fun _ _ hplace => (List.not_mem_nil hplace).elim⟩
  have howned : ¬ s.redis.getClaimOwner sessionId ≠ some annotatorId := not_not.mpr howner
  cases msg with
  | fetchFile sid relativePath =>
    cases hsid
    exact touched_fetch hrecord hname howner
  | listSessionFiles sid lead =>
    cases hsid
    exact touched_list hrecord howner
  | uploadFile u =>
    cases hsid
    exact touched_upload hrecord hname howner
  | _ =>
    refine hother ?_ trivial
    unfold touched
    rw [hsid]
    dsimp only
    rw [if_neg howned]

end Messages

end Confinement

open Confinement in
/-- What a message of an annotator reads, lists or writes lies in the tree of
the session that it names and the annotator has claimed. -/
def FilesConfined (s : Server) (h : Host) (serdeError : List Char → String) (annotatorId : String)
    (msg : InboundMessage) : Prop :=
  ∀ sid record, opSession msg = some sid → s.redis.get sid = .ok record →
    ∀ place ∈ touched s h serdeError annotatorId msg, Own s h record sid place

open Confinement in
/-- Every message of an annotator stays in the session's tree if and only if it is
safe: the prefix of a listing is checked in local mode only, and a URL may
address another name than the one that was checked. -/
theorem files_confined_iff (s : Server) (h : Host) (serdeError : List Char → String)
    (annotatorId : String) (msg : InboundMessage)
    (hnames : ∀ sid record, s.redis.get sid = .ok record → IsName record.memoryName.toList) :
    FilesConfined s h serdeError annotatorId msg ↔
      (s.storageMode = "cloud_primary" → ∀ sid record, opSession msg = some sid →
        s.redis.get sid = .ok record → s.redis.getClaimOwner sid = some annotatorId →
          Safe s h serdeError record msg) := by
  constructor
  · intro hconfined hmode sid record hsid hrecord howner
    exact (touched_iff hsid hrecord (hnames sid record hrecord) howner).mp
      (hconfined sid record hsid hrecord) hmode
  · intro hsafe sid record hsid hrecord
    by_cases howner : s.redis.getClaimOwner sid = some annotatorId
    · exact (touched_iff hsid hrecord (hnames sid record hrecord) howner).mpr fun hmode =>
        hsafe hmode sid record hsid hrecord howner
    · rw [touched_owner hsid howner]
      exact fun place hplace => (List.not_mem_nil hplace).elim

open Confinement in
open Confinement in
open Confinement in
/-- The first session of two on a local backend is claimed. -/
def claimedCloud : Server :=
  { sampleCloud with
    redis := { sampleCloud.redis with claims := fun sid => if sid = "s1" then some "ann:5c1b" else none } }

def sharedHost : Host where
  tree := .ofFiles [(["data", "s1", "demo", "metadata.json"].map String.toList, "\x7b\x7d".toByteArray),
    (["data", "s2", "plan", "metadata.json"].map String.toList, "\x7b\x7d".toByteArray)]
    (by decide +kernel) (by decide +kernel)
  storagePath := ["data".toList]
  kind _ := .localDisk
  bucket _ := .ofObjects []

theorem files_confined_sample : FilesConfined claimedCloud sharedHost (fun _ => "expected value") "ann"
    (.listSessionFiles "s1" "vision/") := by
  refine (files_confined_iff claimedCloud sharedHost (fun _ => "expected value") "ann"
    (.listSessionFiles "s1" "vision/") fun sid record hrecord => ?_).mpr fun _ sid record hsid hrecord _ _ => ?_
  · cases hrecord
    decide
  · cases hsid
    cases hrecord
    exact Confinement.staysIn_of_no_dots sharedHost (by decide +kernel)

/-- The prefix `../../s2/` shows what the other session has. -/
theorem listing_leaves_session : ¬ FilesConfined claimedCloud sharedHost (fun _ => "expected value") "ann"
    (.listSessionFiles "s1" "../../s2/") := by
  intro hconfined
  have hlisted : Storage.Place.file (["data", "s2", "plan", "metadata.json"].map String.toList) ∈
      Confinement.touched claimedCloud sharedHost (fun _ => "expected value") "ann"
        (.listSessionFiles "s1" "../../s2/") := by
    decide +kernel
  have hown := hconfined "s1" sampleStored rfl rfl _ hlisted
  rw [Confinement.own_disk rfl] at hown
  revert hown
  decide +kernel

end MemoryArchive.Ipc
