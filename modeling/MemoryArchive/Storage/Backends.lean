import MemoryArchive.Storage.Disk

namespace MemoryArchive.Storage

/-- The names that lead to a file or a directory from the root. -/
abbrev Path := List (List Char)

/-- A name that a directory can give to one of its entries. -/
def IsName (name : List Char) : Prop :=
  name ≠ [] ∧ name ≠ ['.'] ∧ name ≠ ['.', '.'] ∧ '/' ∉ name

instance (name : List Char) : Decidable (IsName name) := inferInstanceAs (Decidable (_ ∧ _))

/-- The files and directories of a file system without links. -/
structure Tree where
  files : List (Path × ByteArray)
  dirs : List Path
  named : ∀ f ∈ files, ∀ name ∈ f.1, IsName name
  parents : ∀ f ∈ files, ∀ p, p <+: f.1 → p ≠ f.1 → p ∈ dirs
  disjoint : ∀ f ∈ files, f.1 ∉ dirs

/-- The tree of files that lie in no other directories than they need. -/
def Tree.ofFiles (files : List (Path × ByteArray)) (named : ∀ f ∈ files, ∀ name ∈ f.1, IsName name)
    (disjoint : ∀ f ∈ files, f.1 ∉ files.flatMap fun g => g.1.inits.filter (· ≠ g.1)) : Tree where
  files := files
  dirs := files.flatMap fun g => g.1.inits.filter (· ≠ g.1)
  named := named
  parents f hf p hp hne := by
    refine List.mem_flatMap.mpr ⟨f, hf, List.mem_filter.mpr ⟨(List.mem_inits p f.1).mpr hp, ?_⟩⟩
    exact decide_eq_true hne
  disjoint := disjoint

/-- The pieces of a path between its slashes, empty ones included. -/
def pieces (path : List Char) : List (List Char) := Lines.split (· = '/') (path ++ ['/'])

/-- Where a piece of a path leads from a directory. -/
def advance (cur : Path) (piece : List Char) : Path :=
  if piece = [] ∨ piece = ['.'] then cur
  else if piece = ['.', '.'] then cur.dropLast
  else cur ++ [piece]

namespace Tree

variable (t : Tree)

/-- Follow a path piece by piece; every place it goes through is a directory. -/
def walk : Path → List (List Char) → Option Path
  | cur, [] => some cur
  | cur, piece :: rest => if cur ∈ t.dirs then walk (advance cur piece) rest else none

end Tree

theorem pieces_slash (a b : List Char) : pieces (a ++ '/' :: b) = pieces a ++ pieces b := by
  rw [pieces, pieces, pieces, Lines.split, Lines.split, List.append_assoc, List.cons_append]
  exact splitFrom_slash a (b ++ ['/']) []

theorem pieces_name {name : List Char} (h : '/' ∉ name) : pieces name = [name] := by
  have hall : name.all (fun c => !decide (c = '/')) = true := by
    rw [List.all_eq_true]
    intro c hc
    have hne : c ≠ '/' := fun he => h (he ▸ hc)
    simpa using hne
  rw [pieces, Lines.split, Lines.splitFrom_append (· = '/') name ['/'] [] hall]
  simp [Lines.splitFrom]

/-- A path with its names joined by slashes. -/
def render : Path → List Char
  | [] => []
  | [name] => name
  | name :: rest => name ++ '/' :: render rest

theorem pieces_render {p : Path} (hne : p ≠ []) (h : ∀ name ∈ p, '/' ∉ name) : pieces (render p) = p := by
  induction p with
  | nil => exact absurd rfl hne
  | cons name rest ih =>
    have hname : '/' ∉ name := h name (by simp)
    cases rest with
    | nil => exact pieces_name hname
    | cons next rest =>
      rw [render, pieces_slash, pieces_name hname, ih (by simp) fun n hn => h n (by simp [hn])]
      · rfl
      · simp

/-- A piece that names something, which neither stays nor leads up. -/
def isNamed (piece : List Char) : Bool := piece ≠ [] && piece ≠ ['.']

/-- Without a piece that leads up, a path goes down by one for each name. -/
theorem walk_down (t : Tree) {ps : List (List Char)} (h : ['.', '.'] ∉ ps) {cur p : Path}
    (hw : t.walk cur ps = some p) : p = cur ++ ps.filter isNamed := by
  induction ps generalizing cur with
  | nil =>
    rw [Tree.walk, Option.some.injEq] at hw
    rw [hw, List.filter_nil, List.append_nil]
  | cons piece ps ih =>
    rw [List.mem_cons, not_or] at h
    rw [Tree.walk] at hw
    split at hw
    · have hp := ih h.2 hw
      rw [advance, if_neg (Ne.symm h.1)] at hp
      split at hp
      · rename_i hstay
        have hnot : isNamed piece = false := by
          obtain rfl | rfl := hstay
          · rfl
          · rfl
        rw [List.filter_cons, hnot, if_neg (by decide)]
        exact hp
      · rename_i hgo
        rw [not_or] at hgo
        have hname : isNamed piece = true := by simp [isNamed, hgo.1, hgo.2]
        rw [List.filter_cons, hname, if_pos rfl, hp, List.append_assoc, List.singleton_append]
    · cases hw

/-- The text before the first place where the mark stands, and the text after it. -/
def cut (mark : List Char) : List Char → Option (List Char × List Char)
  | [] => none
  | c :: cs =>
      if mark.isPrefixOf (c :: cs) then some ([], (c :: cs).drop mark.length)
      else (cut mark cs).map fun parts => (c :: parts.1, parts.2)

def openTag (tag : String) : List Char := '<' :: (tag.toList ++ ['>'])

def closeTag (tag : String) : List Char := '<' :: '/' :: (tag.toList ++ ['>'])

/-- The loop of `extract_xml_tag_values`. Every turn takes some of the text. -/
def extractFrom (tag : String) : Nat → List Char → List (List Char)
  | 0, _ => []
  | fuel + 1, rest =>
      match cut (openTag tag) rest with
      | none => []
      | some (_, rest) =>
          match cut (closeTag tag) rest with
          | none => []
          | some (value, rest) => value :: extractFrom tag fuel rest

def extractXmlTagValues (xml : List Char) (tag : String) : List (List Char) :=
  extractFrom tag xml.length xml

/-- How a character stands in the text of an element. -/
def xmlEscape (c : Char) : List Char :=
  if c = '&' then "&amp;".toList
  else if c = '<' then "&lt;".toList
  else if c = '>' then "&gt;".toList
  else [c]

/-- A bucket. A cloud service answers a listing with the pages of the keys that
start with what is asked for. Azure's pages are XML, and its objects are
addressed by an URL that the HTTP client puts in order first. -/
structure Bucket where
  objects : List (List Char × ByteArray)
  pages : List Char → List (List (List Char))
  pages_perm : ∀ lead, (pages lead).flatten.Perm ((objects.map Prod.fst).filter (lead.isPrefixOf ·))
  xml : List (List Char) → List Char
  xml_names : ∀ keys, extractXmlTagValues (xml keys) "Name" = keys.map (·.flatMap xmlEscape)
  addressed : List Char → List Char

/-- A mark whose first character is not in the value before it ends the value. -/
theorem cut_value (m : Char) (mark value rest : List Char) (hm : m ∉ value) :
    cut (m :: mark) (value ++ (m :: mark) ++ rest) = some (value, rest) := by
  induction value with
  | nil =>
    have hpre : (m :: mark).isPrefixOf (m :: (mark ++ rest)) = true :=
      List.isPrefixOf_iff_prefix.mpr (List.prefix_append (m :: mark) rest)
    rw [List.nil_append, List.cons_append, cut, if_pos hpre, ← List.cons_append, List.drop_left]
  | cons c value ih =>
    rw [List.mem_cons, not_or] at hm
    have hpre : ¬ (m :: mark).isPrefixOf (c :: (value ++ (m :: mark) ++ rest)) = true := by
      rw [List.isPrefixOf_iff_prefix, List.cons_prefix_cons]
      exact fun h => hm.1 h.1
    rw [List.cons_append, List.cons_append, cut, if_neg hpre, ih hm.2]
    rfl

theorem xmlEscape_lt (c : Char) : '<' ∉ xmlEscape c := by
  rw [xmlEscape]
  split
  · decide
  split
  · decide
  split
  · decide
  · rename_i hlt _
    simpa using Ne.symm hlt

/-- The names of a page, each in an element of its own. -/
def nameElements (keys : List (List Char)) : List Char :=
  keys.flatMap fun key => openTag "Name" ++ key.flatMap xmlEscape ++ closeTag "Name"

/-- The value of an element, and what is behind it. -/
theorem extractFrom_element (tag : String) {value : List Char} (hvalue : '<' ∉ value) (rest : List Char)
    (fuel : Nat) :
    extractFrom tag (fuel + 1) (openTag tag ++ value ++ closeTag tag ++ rest) =
      value :: extractFrom tag fuel rest := by
  have hopen : cut (openTag tag) ([] ++ openTag tag ++ (value ++ closeTag tag ++ rest)) =
      some ([], value ++ closeTag tag ++ rest) :=
    cut_value '<' _ [] _ List.not_mem_nil
  have hclose : cut (closeTag tag) (value ++ closeTag tag ++ rest) = some (value, rest) :=
    cut_value '<' _ _ _ hvalue
  have hparts : openTag tag ++ value ++ closeTag tag ++ rest =
      [] ++ openTag tag ++ (value ++ closeTag tag ++ rest) := by
    simp only [List.append_assoc, List.nil_append]
  rw [extractFrom, hparts, hopen]
  dsimp only
  rw [hclose]

theorem extractFrom_nameElements (keys : List (List Char)) (fuel : Nat) (hfuel : keys.length ≤ fuel) :
    extractFrom "Name" fuel (nameElements keys) = keys.map (·.flatMap xmlEscape) := by
  induction keys generalizing fuel with
  | nil =>
    cases fuel with
    | zero => rfl
    | succ fuel => rfl
  | cons key keys ih =>
    cases fuel with
    | zero => cases hfuel
    | succ fuel =>
      have hvalue : '<' ∉ key.flatMap xmlEscape := by
        rw [List.mem_flatMap]
        rintro ⟨c, -, hc⟩
        exact xmlEscape_lt c hc
      rw [nameElements, List.flatMap_cons, extractFrom_element "Name" hvalue, List.map_cons]
      exact congrArg _ (ih fuel (Nat.le_of_succ_le_succ hfuel))

theorem length_nameElements (keys : List (List Char)) : keys.length ≤ (nameElements keys).length := by
  induction keys with
  | nil => exact Nat.zero_le 0
  | cons key keys ih =>
    rw [nameElements, List.flatMap_cons, List.length_append, List.length_cons]
    have hone : 1 ≤ (openTag "Name" ++ key.flatMap xmlEscape ++ closeTag "Name").length := by
      rw [openTag, List.cons_append, List.cons_append, List.length_cons]
      omega
    rw [nameElements] at ih
    omega

/-- A bucket whose listings fit one page, and whose names need no order. -/
def Bucket.ofObjects (objects : List (List Char × ByteArray)) : Bucket where
  objects := objects
  pages lead := [(objects.map Prod.fst).filter (lead.isPrefixOf ·)]
  pages_perm lead := by
    rw [List.flatten_cons, List.flatten_nil, List.append_nil]
  xml := nameElements
  xml_names keys := extractFrom_nameElements keys _ (length_nameElements keys)
  addressed := id

inductive BackendKind
  | localDisk | s3 | azure | gcp
  deriving DecidableEq

/-- An object of the bucket of a backend, or a file. -/
inductive Place
  | file (path : Path)
  | object (backend : String) (key : List Char)
  deriving DecidableEq

/-- The disk under ma-core and the buckets of its backends. -/
structure Host where
  tree : Tree
  storagePath : Path
  kind : String → BackendKind
  bucket : String → Bucket

def keyRoot : List Char := "sessions/".toList

def objectKey (sessionId path : String) : List Char := keyRoot ++ sessionId.toList ++ '/' :: path.toList

/-- A key without the prefix it was asked for; no other key is changed. -/
def stripLead (lead key : List Char) : List Char :=
  if lead.isPrefixOf key then key.drop lead.length else key

theorem stripLead_append (full rest : List Char) : stripLead full (full ++ rest) = rest := by
  rw [stripLead, if_pos (List.isPrefixOf_iff_prefix.mpr (List.prefix_append full rest)), List.drop_left]

namespace Host

variable (h : Host)

/-- Where the local backend keeps a session. -/
def sessionDir (sessionId : String) : Path := h.storagePath ++ [sessionId.toList]

/-- `LocalBackend::resolve`, as far as there is something. -/
def resolve (sessionId path : String) : Option Path :=
  h.tree.walk (h.sessionDir sessionId) (pieces path.toList)

/-- `StorageBackend::get` of a backend: what it reads, and from where. -/
def get (backend sessionId path : String) : Option (Place × ByteArray) :=
  let object (key : List Char) :=
    ((h.bucket backend).objects.lookup key).map fun bytes => (Place.object backend key, bytes)
  match h.kind backend with
  | .localDisk =>
      (h.resolve sessionId path).bind fun p =>
        (h.tree.files.lookup p).map fun bytes => (Place.file p, bytes)
  | .s3 | .gcp => object (objectKey sessionId path)
  | .azure => object ((h.bucket backend).addressed (objectKey sessionId path))

/-- `LocalBackend::list`: the files below a directory, each with its name. -/
def listDisk (sessionId lead : String) : Except String (List (Place × List Char)) :=
  match h.resolve sessionId lead with
  | none => .ok []
  | some base =>
      if base ∈ h.tree.dirs then
        .ok ((h.tree.files.filter fun f => base.isPrefixOf f.1).map fun f =>
          (.file f.1, join lead.toList (render (f.1.drop base.length))))
      else if (h.tree.files.lookup base).isSome then .error "Not a directory"
      else .ok []

/-- A page of keys, each beside the name that the answer gives for it. -/
def named (backend : String) (keys : List (List Char)) : List (List Char × List Char) :=
  match h.kind backend with
  | .azure => keys.zip (extractXmlTagValues ((h.bucket backend).xml keys) "Name")
  | _ => keys.zip keys

/-- The `list` of S3, Google and Azure. A name that the prefix takes up is left out. -/
def listBucket (backend sessionId lead : String) : List (Place × List Char) :=
  let full := objectKey sessionId lead
  ((h.bucket backend).pages full).flatMap fun keys =>
    (h.named backend keys).filterMap fun (key, name) =>
      if stripLead full name = [] then none else some (.object backend key, stripLead full name)

/-- `StorageBackend::list` of a backend: the names it gives, each beside what it names. -/
def list (backend sessionId lead : String) : Except String (List (Place × List Char)) :=
  match h.kind backend with
  | .localDisk => h.listDisk sessionId lead
  | _ => .ok (h.listBucket backend sessionId lead)

/-- The key under which a bucket would hold a file of the local backend. -/
def diskKey (path : Path) : List Char := keyRoot ++ render (path.drop h.storagePath.length)

/-- What the local backend holds, as a bucket would. -/
def stored : List (List Char × ByteArray) :=
  (h.tree.files.filter fun f => h.storagePath.isPrefixOf f.1).map fun f => (h.diskKey f.1, f.2)

/-- The objects of a session whose names start with the prefix. -/
def under (backend sessionId lead : String) : List Place :=
  match h.kind backend with
  | .localDisk =>
      (h.tree.files.filter fun f => h.storagePath.isPrefixOf f.1 &&
        (objectKey sessionId lead).isPrefixOf (h.diskKey f.1)).map fun f => .file f.1
  | _ => (((h.bucket backend).objects.map Prod.fst).filter
      ((objectKey sessionId lead).isPrefixOf ·)).map (Place.object backend)

/-- The host with every backend of one kind. -/
def withKind (k : BackendKind) : Host := { h with kind := fun _ => k }

end Host

theorem infix_of_mem_splitFrom {acc text piece : List Char}
    (hp : piece ∈ Lines.splitFrom (· = '/') acc text) : piece <:+: acc.reverse ++ text := by
  induction text generalizing acc with
  | nil =>
    rw [Lines.splitFrom] at hp
    split at hp
    · cases hp
    · rw [List.mem_singleton.mp hp, List.append_nil]
  | cons c text ih =>
    rw [Lines.splitFrom] at hp
    split at hp
    · obtain rfl | hrest := List.mem_cons.mp hp
      · exact List.infix_append' [] acc.reverse (c :: text)
      · have hin := ih hrest
        rw [List.reverse_nil, List.nil_append] at hin
        exact hin.trans ((List.suffix_cons c text).isInfix.trans
          (List.suffix_append acc.reverse (c :: text)).isInfix)
    · have hin := ih hp
      rwa [List.reverse_cons, List.append_assoc, List.singleton_append] at hin

/-- A piece that leads up stands as two dots in the path. -/
theorem dots_of_piece {path : List Char} (h : ['.', '.'] ∈ pieces path) : ['.', '.'] <:+: path := by
  obtain ⟨a, b, hab⟩ := infix_of_mem_splitFrom h
  rw [List.reverse_nil, List.nil_append] at hab
  cases b using List.reverseRecOn with
  | nil =>
    rw [List.append_nil] at hab
    have hlast := congrArg List.getLast? hab
    simp at hlast
  | append_singleton b c =>
    rw [← List.append_assoc] at hab
    exact ⟨a, b, (List.append_inj' hab rfl).1⟩

theorem named_pieces_nil : (pieces []).filter isNamed = [] := rfl

/-- Joined paths go through the names of both. -/
theorem named_pieces_join {a b : List Char} (hb : b.head? ≠ some '/') :
    (pieces (join a b)).filter isNamed =
      (pieces a).filter isNamed ++ (pieces b).filter isNamed := by
  rw [join, if_neg hb]
  split
  · rename_i hend
    obtain rfl | hend := hend
    · rfl
    · obtain ⟨a', rfl⟩ := List.getLast?_eq_some_iff.mp hend
      rw [List.append_assoc, List.singleton_append, pieces_slash, pieces_slash, List.filter_append,
        List.filter_append, named_pieces_nil, List.append_nil]
  · rw [pieces_slash, List.filter_append]

end MemoryArchive.Storage
