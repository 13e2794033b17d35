import MemoryArchive.Ipc.Files
import MemoryArchive.Storage.Backends

namespace MemoryArchive.Ipc

open Registry Storage

attribute [local instance] lawful_path

/-- The names of a path that has been put in order. -/
def names (path : List Component) : Path :=
  path.filterMap fun
    | .normal name => some name
    | _ => none

/-- `list_dir_recursive`: it goes ten directories deep, and skips what it cannot read. -/
def listDirRecursive (t : Tree) (dir base : Path) : List (Storage.Place × FileEntry) :=
  if dir ∈ t.dirs then
    (t.files.filter fun f => dir.isPrefixOf f.1 && f.1.length ≤ dir.length + 11).map fun f =>
      (.file f.1, ⟨String.ofList (render (f.1.drop base.length)), f.2.size⟩)
  else []

def entryOf (name : List Char) : FileEntry := ⟨String.ofList name, 0⟩

/-- What a handler reads at a location, and where it lies. -/
def readAt (h : Host) : Location → Option (Storage.Place × ByteArray)
  | .object backend sessionId path => h.get backend sessionId path
  | .file path => (h.tree.files.lookup (names path)).map fun bytes => (.file (names path), bytes)

/-- What a handler lists under a location, for a session whose memory is in `base`. -/
def listAt (h : Host) (base : List Component) : Location → Except String (List (Storage.Place × FileEntry))
  | .object backend sessionId path =>
      (h.list backend sessionId path).map (·.map fun e => (e.1, entryOf e.2))
  | .file dir => .ok (listDirRecursive h.tree (names dir) (names base))

/-- The server over a host. -/
def Server.over (s : Server) (h : Host) : Server :=
  { s with files := fun loc => (readAt h loc).map Prod.snd }

/-- The ListSessionFiles handler over a host. -/
def listOver (s : Server) (h : Host) (record : SessionRecord) (sessionId lead : String) :
    OutboundMessage :=
  listSessionFiles (s.over h)
    (fun loc => (listAt h (components record.memoryPath.toList) loc).map (·.map Prod.snd)) sessionId lead

section CloudPrimary

variable (s : Server) (ioError : String) (h : Host) (record : SessionRecord) (sessionId lead : String)

/-- The path under which the handlers ask the backend. -/
def cloudPath (relativePath : String) : String := record.memoryName ++ "/" ++ relativePath

/-- Everything that is listed can be fetched under its name and is what it was
listed for, and the objects under the prefix are listed once each. -/
def FetchesListed : Prop :=
  ∃ entries, h.list (s.router.resolveForSession record) sessionId (cloudPath record lead) = .ok entries ∧
    listOver s h record sessionId lead = .sessionFileList sessionId (entries.map fun e => entryOf e.2) ∧
    (∀ e ∈ entries, ∃ bytes,
      h.get (s.router.resolveForSession record) sessionId (cloudPath record (String.ofList e.2)) =
        some (e.1, bytes) ∧
      fetchFile (s.over h) ioError sessionId (String.ofList e.2) =
        .fileData sessionId (String.ofList e.2) bytes bytes.size) ∧
    (entries.map Prod.fst).Perm
      (h.under (s.router.resolveForSession record) sessionId (cloudPath record lead))

/-- Two listings with the same files, in whatever order. -/
def SameListing (reply reply' : OutboundMessage) : Prop :=
  ∃ files files', reply = .sessionFileList sessionId files ∧
    reply' = .sessionFileList sessionId files' ∧ files.Perm files'

/-- Listing and fetching agree with every kind of backend, and the kinds with each other. -/
def ListingAgrees : Prop :=
  (∀ k, FetchesListed s ioError (h.withKind k) record sessionId lead) ∧
    ∀ k k', SameListing sessionId (listOver s (h.withKind k) record sessionId lead)
      (listOver s (h.withKind k') record sessionId lead)

/-- Nothing is stored where the prefix points: no object's name starts with it,
and on the disk it leads to no file and to no directory with files. -/
structure NothingThere : Prop where
  objects : ∀ key ∈ (h.bucket (s.router.resolveForSession record)).objects.map Prod.fst,
    ¬ objectKey sessionId (cloudPath record lead) <+: key
  disk : ∀ base, h.resolve sessionId (cloudPath record lead) = some base →
    ∀ f ∈ h.tree.files, ¬ base <+: f.1

/-- The bucket and the disk hold the same objects. -/
def SameContent : Prop := h.stored.Perm (h.bucket (s.router.resolveForSession record)).objects

variable {s ioError h record sessionId lead}

theorem listOver_cloud (hmode : s.storageMode = "cloud_primary") (hrecord : s.redis.get sessionId = .ok record)
    {entries : List (Storage.Place × List Char)}
    (hlist : h.list (s.router.resolveForSession record) sessionId (cloudPath record lead) = .ok entries) :
    listOver s h record sessionId lead =
      .sessionFileList sessionId (entries.map fun e => entryOf e.2) := by
  have hget : (s.over h).redis.get sessionId = .ok record := hrecord
  have hcloud : (s.over h).storageMode = "cloud_primary" := hmode
  have hlisted : h.list ((s.over h).router.resolveForSession record) sessionId
      (record.memoryName ++ "/" ++ lead) = .ok entries := hlist
  rw [listOver, listSessionFiles, hget]
  dsimp only
  rw [if_pos hcloud]
  dsimp only [listAt]
  rw [hlisted]
  simp [Except.map, Function.comp_def]

theorem isNamed_name {name : List Char} (h : IsName name) : isNamed name = true := by
  simp [isNamed, h.1, h.2.1]

theorem toList_cloudPath (relativePath : String) : (cloudPath record relativePath).toList =
    record.memoryName.toList ++ '/' :: relativePath.toList := by
  simp [cloudPath, String.toList_append]

/-- The memory directory stands before what the handler is asked for. -/
theorem named_pieces_cloudPath (hname : IsName record.memoryName.toList) (relativePath : String) :
    (pieces (cloudPath record relativePath).toList).filter isNamed =
      record.memoryName.toList :: (pieces relativePath.toList).filter isNamed := by
  rw [toList_cloudPath, pieces_slash, pieces_name hname.2.2.2, List.filter_append, List.filter_cons,
    isNamed_name hname]
  rfl

theorem mem_listDisk {path : String} {entries : List (Storage.Place × List Char)}
    (hlist : h.listDisk sessionId path = .ok entries) {e : Storage.Place × List Char} (he : e ∈ entries) :
    ∃ base rest bytes, h.resolve sessionId path = some base ∧ rest ≠ [] ∧ (∀ name ∈ rest, IsName name) ∧
      (base ++ rest, bytes) ∈ h.tree.files ∧
      e = (.file (base ++ rest), join path.toList (render rest)) := by
  rw [Host.listDisk] at hlist
  split at hlist
  · cases hlist
    cases he
  rename_i base hbase
  split at hlist
  · rename_i hdir
    cases hlist
    obtain ⟨f, hf, rfl⟩ := List.mem_map.mp he
    obtain ⟨hfile, hunder⟩ := List.mem_filter.mp hf
    obtain ⟨rest, hrest⟩ := List.isPrefixOf_iff_prefix.mp hunder
    have hnames := h.tree.named f hfile
    have hother := h.tree.disjoint f hfile
    obtain ⟨path', bytes⟩ := f
    dsimp only at hrest hnames hother
    subst hrest
    refine ⟨base, rest, bytes, hbase, ?_, fun name hn => ?_, hfile, ?_⟩
    · rintro rfl
      rw [List.append_nil] at hother
      exact hother hdir
    · exact hnames name (List.mem_append_right base hn)
    · rw [List.drop_left]
  · split at hlist
    · cases hlist
    · cases hlist
      cases he

/-- A name that the local backend lists has the memory directory in front, and
the handler puts it there once more. -/
theorem disk_misses (hname : IsName record.memoryName.toList) {entries : List (Storage.Place × List Char)}
    (hlist : h.listDisk sessionId (cloudPath record lead) = .ok entries) {e : Storage.Place × List Char}
    (he : e ∈ entries) (hdots : ¬ ['.', '.'] <:+: e.2) {p : Path}
    (hp : h.resolve sessionId (cloudPath record (String.ofList e.2)) = some p) : e.1 ≠ .file p := by
  obtain ⟨base, rest, bytes, hbase, hne, hrest, hfile, rfl⟩ := mem_listDisk hlist he
  intro hplace
  obtain rfl := Storage.Place.file.inj hplace
  have hslash : ∀ name ∈ rest, '/' ∉ name := fun name hn => (hrest name hn).2.2.2
  have hrender : pieces (render rest) = rest := pieces_render hne hslash
  have hhead : (render rest).head? ≠ some '/' := by
    intro hhead
    obtain ⟨tail, htail⟩ := List.head?_eq_some_iff.mp hhead
    have hempty := pieces_slash [] tail
    rw [List.nil_append, ← htail, hrender] at hempty
    have hmem : [] ∈ rest := by
      rw [hempty]
      simp [pieces, Lines.split, Lines.splitFrom]
    exact (hrest [] hmem).1 rfl
  have hall : rest.filter isNamed = rest :=
    List.filter_eq_self.mpr fun name hn => isNamed_name (hrest name hn)
  have hjoin : (cloudPath record lead).toList <+:
      join (cloudPath record lead).toList (render rest) := by
    rw [join, if_neg hhead]
    split
    · exact List.prefix_append _ _
    · exact List.prefix_append _ _
  have hup : ['.', '.'] ∉ pieces (cloudPath record lead).toList :=
    fun hmem => hdots ((dots_of_piece hmem).trans hjoin.isInfix)
  have hup' : ['.', '.'] ∉ pieces (cloudPath record
      (String.ofList (join (cloudPath record lead).toList (render rest)))).toList := by
    rw [toList_cloudPath, pieces_slash, pieces_name hname.2.2.2, List.mem_append, List.mem_singleton,
      String.toList_ofList]
    rintro (hmem | hmem)
    · exact hname.2.2.1 hmem.symm
    · exact hdots (dots_of_piece hmem)
  have hdown := walk_down h.tree hup hbase
  have hdown' := walk_down h.tree hup' hp
  rw [named_pieces_cloudPath hname, String.toList_ofList, named_pieces_join hhead, hrender, hall] at hdown'
  rw [hdown] at hdown'
  have hlength := congrArg List.length hdown'
  simp only [List.length_append, List.length_cons] at hlength
  omega

theorem fetch_accepted (hmode : s.storageMode = "cloud_primary")
    (hrecord : s.redis.get sessionId = .ok record) {relativePath : String} {bytes : ByteArray} {size : Nat}
    (hfetch : fetchFile (s.over h) ioError sessionId relativePath =
      .fileData sessionId relativePath bytes size) :
    ¬ (['.', '.'] <:+: relativePath.toList ∨ relativePath.toList.head? = some '/') := by
  intro hbad
  have hget : (s.over h).redis.get sessionId = .ok record := hrecord
  rw [fetchFile, hget] at hfetch
  dsimp only at hfetch
  rw [if_pos ⟨hmode, hbad⟩] at hfetch
  cases hfetch

/-- The local backend lists a file only to have it missed. -/
theorem disk_lists_nothing (hname : IsName record.memoryName.toList)
    (hmode : s.storageMode = "cloud_primary") (hrecord : s.redis.get sessionId = .ok record)
    (hf : FetchesListed s ioError (h.withKind .localDisk) record sessionId lead) :
    h.listDisk sessionId (cloudPath record lead) = .ok [] ∧
      (h.withKind .localDisk).under (s.router.resolveForSession record) sessionId
        (cloudPath record lead) = [] := by
  obtain ⟨entries, hlist, -, hfetch, hperm⟩ := hf
  have hdisk : h.listDisk sessionId (cloudPath record lead) = .ok entries := hlist
  have hnil : entries = [] := by
    apply List.eq_nil_iff_forall_not_mem.mpr
    intro e he
    obtain ⟨bytes, hget, hreply⟩ := hfetch e he
    have hok := fetch_accepted hmode hrecord hreply
    rw [not_or, String.toList_ofList] at hok
    have hget' : ((h.resolve sessionId (cloudPath record (String.ofList e.2))).bind fun p =>
        (h.tree.files.lookup p).map fun bytes => (Storage.Place.file p, bytes)) = some (e.1, bytes) := hget
    obtain ⟨p, hp, hread⟩ := Option.bind_eq_some_iff.mp hget'
    obtain ⟨b, -, heq⟩ := Option.map_eq_some_iff.mp hread
    exact disk_misses hname hdisk he hok.1 hp (congrArg Prod.fst heq).symm
  rw [hnil] at hdisk hperm
  exact ⟨hdisk, hperm.symm.eq_nil⟩

theorem lookup_of_mem {t : Tree} {f : Path × ByteArray} (hf : f ∈ t.files) :
    (t.files.lookup f.1).isSome := by
  rw [Option.isSome_iff_ne_none, Ne, List.lookup_eq_none_iff]
  push Not
  exact ⟨f, hf, by simp⟩

/-- What is below a place that is asked for is listed, or the listing fails. -/
theorem nothing_listed {path : String} (hlist : h.listDisk sessionId path = .ok []) {base : Path}
    (hbase : h.resolve sessionId path = some base) : ∀ f ∈ h.tree.files, ¬ base <+: f.1 := by
  intro f hf hunder
  rw [Host.listDisk, hbase] at hlist
  dsimp only at hlist
  split at hlist
  · rw [Except.ok.injEq, List.map_eq_nil_iff, List.filter_eq_nil_iff] at hlist
    exact hlist f hf (List.isPrefixOf_iff_prefix.mpr hunder)
  · rename_i hdir
    have hsame : base = f.1 := by
      by_contra hne
      exact hdir (h.tree.parents f hf base hunder hne)
    rw [hsame, if_pos (lookup_of_mem hf)] at hlist
    cases hlist

theorem mem_stored {o : List Char × ByteArray} :
    o ∈ h.stored ↔ ∃ f ∈ h.tree.files, h.storagePath <+: f.1 ∧ o = (h.diskKey f.1, f.2) := by
  rw [Host.stored, List.mem_map]
  constructor
  · rintro ⟨f, hf, rfl⟩
    obtain ⟨hfile, hroot⟩ := List.mem_filter.mp hf
    exact ⟨f, hfile, List.isPrefixOf_iff_prefix.mp hroot, rfl⟩
  · rintro ⟨f, hfile, hroot, rfl⟩
    exact ⟨f, List.mem_filter.mpr ⟨hfile, List.isPrefixOf_iff_prefix.mpr hroot⟩, rfl⟩

/-- With the same content, no object is under the prefix on the disk if and
only if none is in the bucket. -/
theorem under_disk_nil (hsame : SameContent s h record) :
    (h.withKind .localDisk).under (s.router.resolveForSession record) sessionId
        (cloudPath record lead) = [] ↔
      ∀ key ∈ (h.bucket (s.router.resolveForSession record)).objects.map Prod.fst,
        ¬ objectKey sessionId (cloudPath record lead) <+: key := by
  change (h.tree.files.filter fun f => h.storagePath.isPrefixOf f.1 &&
    (objectKey sessionId (cloudPath record lead)).isPrefixOf (h.diskKey f.1)).map _ = [] ↔ _
  rw [List.map_eq_nil_iff, List.filter_eq_nil_iff]
  simp only [Bool.and_eq_true, List.isPrefixOf_iff_prefix, not_and]
  constructor
  · intro hnone key hkey hunder
    obtain ⟨o, ho, rfl⟩ := List.mem_map.mp hkey
    obtain ⟨f, hf, hroot, rfl⟩ := mem_stored.mp (hsame.mem_iff.mpr ho)
    exact hnone f hf hroot hunder
  · intro hnone f hf hroot hunder
    have ho := hsame.mem_iff.mp (mem_stored.mpr ⟨f, hf, hroot, rfl⟩)
    exact hnone (h.diskKey f.1) (List.mem_map.mpr ⟨_, ho, rfl⟩) hunder

theorem listDisk_nil (hn : NothingThere s h record sessionId lead) :
    h.listDisk sessionId (cloudPath record lead) = .ok [] := by
  cases hbase : h.resolve sessionId (cloudPath record lead) with
  | none => rw [Host.listDisk, hbase]
  | some base =>
    have hnone := hn.disk base hbase
    rw [Host.listDisk, hbase]
    dsimp only
    split
    · rw [Except.ok.injEq, List.map_eq_nil_iff, List.filter_eq_nil_iff]
      exact fun f hf hunder => hnone f hf (List.isPrefixOf_iff_prefix.mp hunder)
    · have hnofile : h.tree.files.lookup base = none := by
        rw [List.lookup_eq_none_iff]
        intro f hf
        rw [bne_iff_ne]
        intro heq
        exact hnone f hf (heq ▸ List.prefix_rfl)
      rw [hnofile, if_neg (by decide)]

/-- A bucket without a key under the prefix answers with empty pages. -/
theorem listBucket_nil {backend path : String}
    (hn : ∀ key ∈ (h.bucket backend).objects.map Prod.fst, ¬ objectKey sessionId path <+: key) :
    h.listBucket backend sessionId path = [] := by
  have hfilter : ((h.bucket backend).objects.map Prod.fst).filter
      ((objectKey sessionId path).isPrefixOf ·) = [] := by
    rw [List.filter_eq_nil_iff]
    exact fun key hkey hunder => hn key hkey (List.isPrefixOf_iff_prefix.mp hunder)
  have hpages := (h.bucket backend).pages_perm (objectKey sessionId path)
  rw [hfilter] at hpages
  have hempty := List.flatten_eq_nil_iff.mp hpages.eq_nil
  rw [Host.listBucket, List.flatMap_eq_nil_iff]
  intro keys hkeys
  obtain rfl := hempty keys hkeys
  rw [Host.named]
  split
  · rfl
  · rfl

theorem list_nil (hsame : SameContent s h record) (hn : NothingThere s h record sessionId lead)
    (k : Storage.BackendKind) :
    (h.withKind k).list (s.router.resolveForSession record) sessionId (cloudPath record lead) = .ok [] ∧
      (h.withKind k).under (s.router.resolveForSession record) sessionId (cloudPath record lead) = [] := by
  have hbucket (k' : Storage.BackendKind) := listBucket_nil (h := h.withKind k') hn.objects
  have hunder : (((h.bucket (s.router.resolveForSession record)).objects.map Prod.fst).filter
      ((objectKey sessionId (cloudPath record lead)).isPrefixOf ·)).map
        (Storage.Place.object (s.router.resolveForSession record)) = [] := by
    rw [List.map_eq_nil_iff, List.filter_eq_nil_iff]
    exact fun key hkey hpre => hn.objects key hkey (List.isPrefixOf_iff_prefix.mp hpre)
  cases k with
  | localDisk =>
    have hdisk : h.listDisk sessionId (cloudPath record lead) = .ok [] := listDisk_nil hn
    exact ⟨hdisk, (under_disk_nil hsame).mpr hn.objects⟩
  | s3 => exact ⟨congrArg Except.ok (hbucket .s3), hunder⟩
  | azure => exact ⟨congrArg Except.ok (hbucket .azure), hunder⟩
  | gcp => exact ⟨congrArg Except.ok (hbucket .gcp), hunder⟩

/-- What is left of a key when it is asked for by name from its memory directory. -/
def Fetchable (rest : List Char) : Prop :=
  rest ≠ [] ∧ ¬ (['.', '.'] <:+: rest ∨ rest.head? = some '/')

theorem objectKey_cloudPath (rest : List Char) : objectKey sessionId (cloudPath record lead) ++ rest =
    objectKey sessionId (cloudPath record (String.ofList (lead.toList ++ rest))) := by
  rw [objectKey, objectKey, toList_cloudPath, toList_cloudPath, String.toList_ofList]
  simp only [List.append_assoc, List.cons_append]

theorem objectKey_inj {path path' : String} (h : objectKey sessionId path = objectKey sessionId path') :
    path.toList = path'.toList := by
  rw [objectKey, objectKey] at h
  exact (List.cons.inj (List.append_cancel_left h)).2

/-- The names of a bucket as S3 and Google give them. -/
theorem listBucket_eq {backend path : String} (hk : h.kind backend = .s3 ∨ h.kind backend = .gcp) :
    h.listBucket backend sessionId path =
      ((h.bucket backend).pages (objectKey sessionId path)).flatten.filterMap fun key =>
        if stripLead (objectKey sessionId path) key = [] then none
        else some (.object backend key, stripLead (objectKey sessionId path) key) := by
  have hnamed (keys : List (List Char)) : h.named backend keys = keys.map fun key => (key, key) := by
    have hzip : keys.zip keys = keys.map fun key => (key, key) := by
      induction keys with
      | nil => rfl
      | cons key keys ih => rw [List.zip_cons_cons, List.map_cons, ih]
    obtain hk | hk := hk
    · rw [Host.named, hk]
      exact hzip
    · rw [Host.named, hk]
      exact hzip
  rw [Host.listBucket, ← List.flatMap_id, List.filterMap_flatMap]
  simp only [hnamed, List.filterMap_map, Function.comp_def, id]

theorem mem_listBucket {backend path : String} (hk : h.kind backend = .s3 ∨ h.kind backend = .gcp)
    {e : Storage.Place × List Char} (he : e ∈ h.listBucket backend sessionId path) :
    ∃ rest, rest ≠ [] ∧ objectKey sessionId path ++ rest ∈ (h.bucket backend).objects.map Prod.fst ∧
      e = (.object backend (objectKey sessionId path ++ rest), rest) := by
  rw [listBucket_eq hk] at he
  obtain ⟨key, hkey, hsome⟩ := List.mem_filterMap.mp he
  have hperm := (h.bucket backend).pages_perm (objectKey sessionId path)
  obtain ⟨hmem, hunder⟩ := List.mem_filter.mp (hperm.mem_iff.mp hkey)
  obtain ⟨rest, rfl⟩ := List.isPrefixOf_iff_prefix.mp hunder
  rw [stripLead_append] at hsome
  split at hsome
  · cases hsome
  · rename_i hne
    cases hsome
    exact ⟨rest, hne, hmem, rfl⟩

/-- What a bucket has under a prefix, when nothing is taken up by the prefix. -/
theorem perm_listBucket {backend path : String} (hk : h.kind backend = .s3 ∨ h.kind backend = .gcp)
    (hrest : objectKey sessionId path ∉ (h.bucket backend).objects.map Prod.fst) :
    ((h.listBucket backend sessionId path).map Prod.fst).Perm (h.under backend sessionId path) := by
  have hperm := (h.bucket backend).pages_perm (objectKey sessionId path)
  have hall : ∀ keys : List (List Char), (∀ key ∈ keys, key ∈ (h.bucket backend).objects.map Prod.fst ∧
        objectKey sessionId path <+: key) →
      (keys.filterMap fun key => if stripLead (objectKey sessionId path) key = [] then none
        else some (Storage.Place.object backend key, stripLead (objectKey sessionId path) key)).map Prod.fst =
      keys.map (Storage.Place.object backend) := by
    intro keys hkeys
    induction keys with
    | nil => rfl
    | cons key keys ih =>
      obtain ⟨hmem, rest, rfl⟩ := hkeys key (by simp)
      have hne : rest ≠ [] := by
        rintro rfl
        rw [List.append_nil] at hmem
        exact hrest hmem
      rw [List.filterMap_cons, stripLead_append, if_neg hne]
      dsimp only
      rw [List.map_cons, List.map_cons, ih fun key' hk' => hkeys key' (by simp [hk'])]
  have hunder : h.under backend sessionId path = (((h.bucket backend).objects.map Prod.fst).filter
      ((objectKey sessionId path).isPrefixOf ·)).map (Storage.Place.object backend) := by
    obtain hk | hk := hk
    · rw [Host.under, hk]
    · rw [Host.under, hk]
  rw [listBucket_eq hk, hunder, hall]
  · exact hperm.map (Storage.Place.object backend)
  · intro key hkey
    obtain ⟨hmem, hpre⟩ := List.mem_filter.mp (hperm.mem_iff.mp hkey)
    exact ⟨hmem, List.isPrefixOf_iff_prefix.mp hpre⟩

theorem get_bucket {backend path : String} (hk : h.kind backend = .s3 ∨ h.kind backend = .gcp) :
    h.get backend sessionId path =
      ((h.bucket backend).objects.lookup (objectKey sessionId path)).map fun bytes =>
        (Storage.Place.object backend (objectKey sessionId path), bytes) := by
  obtain hk | hk := hk
  · rw [Host.get, hk]
  · rw [Host.get, hk]

theorem lookup_key {objects : List (List Char × ByteArray)} {key : List Char}
    (hkey : key ∈ objects.map Prod.fst) : ∃ bytes, objects.lookup key = some bytes := by
  cases hlookup : objects.lookup key with
  | some bytes => exact ⟨bytes, rfl⟩
  | none =>
    obtain ⟨o, ho, rfl⟩ := List.mem_map.mp hkey
    have hne := List.lookup_eq_none_iff.mp hlookup o ho
    simp at hne

theorem fetch_answer (hmode : s.storageMode = "cloud_primary")
    (hrecord : s.redis.get sessionId = .ok record) {relativePath : String} {place : Storage.Place}
    {bytes : ByteArray}
    (hget : h.get (s.router.resolveForSession record) sessionId (cloudPath record relativePath) =
      some (place, bytes))
    (hok : ¬ (['.', '.'] <:+: relativePath.toList ∨ relativePath.toList.head? = some '/')) :
    fetchFile (s.over h) ioError sessionId relativePath =
      .fileData sessionId relativePath bytes bytes.size := by
  have hredis : (s.over h).redis.get sessionId = .ok record := hrecord
  have hcloud : (s.over h).storageMode = "cloud_primary" := hmode
  have hloc : (s.over h).location record sessionId relativePath =
      .ok (.object (s.router.resolveForSession record) sessionId (cloudPath record relativePath)) := by
    rw [Server.location, if_pos hcloud]
    rfl
  have hfile : (s.over h).files (.object (s.router.resolveForSession record) sessionId
      (cloudPath record relativePath)) = some bytes := congrArg (Option.map Prod.snd) hget
  rw [fetchFile, hredis]
  dsimp only
  rw [if_neg fun hbad => hok hbad.2, hloc]
  dsimp only
  rw [hfile]

/-- With S3 or Google, what is listed can be fetched if and only if the prefix
is empty and no name under it stands in the way. -/
theorem bucket_fetches_iff (hmode : s.storageMode = "cloud_primary")
    (hrecord : s.redis.get sessionId = .ok record)
    (hk : h.kind (s.router.resolveForSession record) = .s3 ∨
      h.kind (s.router.resolveForSession record) = .gcp) :
    FetchesListed s ioError h record sessionId lead ↔
      ∀ rest, objectKey sessionId (cloudPath record lead) ++ rest ∈
          (h.bucket (s.router.resolveForSession record)).objects.map Prod.fst →
        lead = "" ∧ Fetchable rest := by
  have hlist : h.list (s.router.resolveForSession record) sessionId (cloudPath record lead) =
      .ok (h.listBucket (s.router.resolveForSession record) sessionId (cloudPath record lead)) := by
    obtain hk | hk := hk
    · rw [Host.list, hk]
    · rw [Host.list, hk]
  constructor
  · rintro ⟨entries, hlist', -, hfetch, hperm⟩ rest hrest
    rw [hlist, Except.ok.injEq] at hlist'
    subst hlist'
    have hunder : Storage.Place.object (s.router.resolveForSession record)
        (objectKey sessionId (cloudPath record lead) ++ rest) ∈
        h.under (s.router.resolveForSession record) sessionId (cloudPath record lead) := by
      have hmem := List.mem_map_of_mem (f := Storage.Place.object (s.router.resolveForSession record))
        (List.mem_filter.mpr ⟨hrest, List.isPrefixOf_iff_prefix.mpr (List.prefix_append
          (objectKey sessionId (cloudPath record lead)) rest)⟩)
      obtain hk | hk := hk
      · rw [Host.under, hk]
        exact hmem
      · rw [Host.under, hk]
        exact hmem
    obtain ⟨e, he, hplace⟩ := List.mem_map.mp (hperm.mem_iff.mpr hunder)
    obtain ⟨rest', hne, -, rfl⟩ := mem_listBucket hk he
    obtain rfl : rest' = rest := List.append_cancel_left (Storage.Place.object.inj hplace).2
    obtain ⟨bytes, hget, hreply⟩ := hfetch _ he
    have hok := fetch_accepted hmode hrecord hreply
    rw [String.toList_ofList] at hok
    refine ⟨?_, hne, hok⟩
    rw [get_bucket hk] at hget
    obtain ⟨b, -, heq⟩ := Option.map_eq_some_iff.mp hget
    have hkey := (Storage.Place.object.inj (congrArg Prod.fst heq)).2
    rw [objectKey_cloudPath] at hkey
    have hpath := objectKey_inj hkey
    rw [toList_cloudPath, toList_cloudPath, String.toList_ofList, String.toList_ofList] at hpath
    have htail := (List.cons.inj (List.append_cancel_left hpath)).2
    exact String.toList_eq_nil_iff.mp (List.self_eq_append_left.mp htail)
  · intro hall
    refine ⟨_, hlist, listOver_cloud hmode hrecord hlist, fun e he => ?_, ?_⟩
    · obtain ⟨rest, hne, hmem, rfl⟩ := mem_listBucket hk he
      obtain ⟨rfl, hfetchable⟩ := hall rest hmem
      obtain ⟨bytes, hbytes⟩ := lookup_key hmem
      have hkey : objectKey sessionId (cloudPath record "") ++ rest =
          objectKey sessionId (cloudPath record (String.ofList rest)) := objectKey_cloudPath rest
      rw [hkey] at hbytes ⊢
      have hget : h.get (s.router.resolveForSession record) sessionId
          (cloudPath record (String.ofList rest)) =
            some (.object (s.router.resolveForSession record)
              (objectKey sessionId (cloudPath record (String.ofList rest))), bytes) := by
        rw [get_bucket hk, hbytes]
        rfl
      exact ⟨bytes, hget, fetch_answer hmode hrecord hget (String.toList_ofList ▸ hfetchable.2)⟩
    · apply perm_listBucket hk
      intro hmem
      rw [← List.append_nil (objectKey sessionId (cloudPath record lead))] at hmem
      exact (hall [] hmem).2.1 rfl

/-- Listing and fetching agree with every kind of backend if and only if there
is nothing to list: the local backend keeps the memory directory in the names
that it gives. -/
theorem listing_agrees_iff (s : Server) (ioError : String) (h : Host) (record : SessionRecord)
    (sessionId lead : String) (hmode : s.storageMode = "cloud_primary")
    (hrecord : s.redis.get sessionId = .ok record) (hname : IsName record.memoryName.toList)
    (hsame : SameContent s h record) :
    ListingAgrees s ioError h record sessionId lead ↔ NothingThere s h record sessionId lead := by
  constructor
  · rintro ⟨hkinds, -⟩
    obtain ⟨hlist, hunder⟩ := disk_lists_nothing hname hmode hrecord (hkinds .localDisk)
    exact ⟨(under_disk_nil hsame).mp hunder, fun base hbase => nothing_listed hlist hbase⟩
  · intro hn
    have hreply (k : Storage.BackendKind) : listOver s (h.withKind k) record sessionId lead =
        .sessionFileList sessionId [] := listOver_cloud hmode hrecord (list_nil hsame hn k).1
    refine ⟨fun k => ?_, fun k k' => ⟨[], [], hreply k, hreply k', .nil⟩⟩
    obtain ⟨hlist, hunder⟩ := list_nil hsame hn k
    refine ⟨[], hlist, hreply k, fun e he => (List.not_mem_nil he).elim, ?_⟩
    rw [hunder]
    exact .nil

end CloudPrimary

def sampleFiles : List (Path × ByteArray) :=
  [(["data", "s1", "demo", "metadata.json"].map String.toList, "\x7b\x7d".toByteArray),
    (["data", "s1", "demo", "vision", "step_1.png"].map String.toList, "png".toByteArray)]

def sampleObjects : List (List Char × ByteArray) :=
  [("sessions/s1/demo/metadata.json".toList, "\x7b\x7d".toByteArray),
    ("sessions/s1/demo/vision/step_1.png".toList, "png".toByteArray)]

/-- Two files of one session, on the disk and in the bucket. -/
def sampleHost : Host where
  tree := .ofFiles sampleFiles (by decide +kernel) (by decide +kernel)
  storagePath := ["data".toList]
  kind _ := .localDisk
  bucket _ := .ofObjects sampleObjects

def sampleStored : SessionRecord :=
  { sessionId := "s1", mode := .manual, status := .annotating, memoryName := "demo",
    memoryPath := "/data/demo", createdAt := "2026-01-01T00:00:00Z", totalSteps := 1,
    annotatedSteps := 0, skippedSteps := 0, tenantId := "acme", storageBackend := "main" }

def sampleCloud : Server where
  storageMode := "cloud_primary"
  router := ⟨["main"], [], by simp⟩
  redis :=
    { sessions := fun _ => .record sampleStored
      index := fun _ => []
      claims := fun _ => none
      annotators := fun _ => none }
  files _ := none

theorem sameContent_sample : SameContent sampleCloud sampleHost sampleStored := by
  have heq : sampleHost.stored = sampleObjects := by decide +kernel
  rw [SameContent, heq]
  exact .refl _

theorem listing_agrees_sample :
    ListingAgrees sampleCloud "not found" sampleHost sampleStored "s1" "frames/" := by
  refine (listing_agrees_iff sampleCloud "not found" sampleHost sampleStored "s1" "frames/" rfl rfl
    (by decide) sameContent_sample).mpr ⟨by decide +kernel, fun base hbase => ?_⟩
  have hnone : sampleHost.resolve "s1" (cloudPath sampleStored "frames/") = none := by decide +kernel
  rw [hnone] at hbase
  cases hbase

/-- The image that S3 lists under `vision/` is not found under the name that it gives. -/
theorem listed_not_fetched :
    ¬ ListingAgrees sampleCloud "not found" sampleHost sampleStored "s1" "vision/" := by
  intro hagrees
  have hfetch := hagrees.1 .s3
  rw [bucket_fetches_iff rfl rfl (.inl rfl)] at hfetch
  obtain ⟨hlead, -⟩ := hfetch "step_1.png".toList (by decide +kernel)
  revert hlead
  decide

end MemoryArchive.Ipc
