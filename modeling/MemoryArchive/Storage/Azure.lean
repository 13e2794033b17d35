import Mathlib.Algebra.GroupWithZero.Nat
import Mathlib.Data.List.Perm.Lattice
import MemoryArchive.Ipc.Register
import MemoryArchive.Ipc.Retention
import MemoryArchive.Storage.Backends
import MemoryArchive.Text.UrlPath

namespace MemoryArchive.Storage.Azure

open Lines (dropBeginning dropBeginning_append)
open Ipc (badMemoryName validSessionId)

attribute [local instance] lawful_name

/-- The characters of accounts, containers and session ids. -/
def isName (c : Char) : Bool := c.isAlphanum || c == '-'

structure Backend where
  account : List Char
  container : List Char
  account_plain : ∀ c ∈ account, isName c = true
  container_plain : ∀ c ∈ container, isName c = true

/-- The text of a UUID. -/
structure SessionId where
  text : List Char
  nonempty : text ≠ []
  plain : ∀ c ∈ text, isName c = true

/-- The blobs of a container. -/
abbrev Container := List Char → Option ByteArray

def blobPath (sid : SessionId) (relativePath : List Char) : List Char :=
  keyRoot ++ sid.text ++ '/' :: relativePath

/-- What a URL is about: nothing that the service can read, nothing in the container, or a blob. -/
inductive Target
  | invalid
  | elsewhere
  | blob (name : List Char)
  deriving DecidableEq

namespace Backend

variable (b : Backend) (c : Container) (sid : SessionId) (relativePath : List Char)

def blobUrl (blobName : List Char) : List Char :=
  "https://".toList ++
    ((b.account ++ ".blob.core.windows.net".toList) ++ '/' :: (b.container ++ '/' :: blobName))

/-- What the service takes a URL for. -/
def target (url : List Char) : Target :=
  match Url.decodedPath url with
  | none => .invalid
  | some path => ((dropBeginning (b.container ++ ['/']) path).map .blob).getD .elsewhere

def addressed : Target := b.target (b.blobUrl (blobPath sid relativePath))

def put (bytes : ByteArray) : Option Container :=
  match b.addressed sid relativePath with
  | .blob name => some (Function.update c name (some bytes))
  | _ => none

def get : Option ByteArray :=
  match b.addressed sid relativePath with
  | .blob name => c name
  | _ => none

/-- A blob that is not there counts as deleted. -/
def delete : Option Container :=
  match b.addressed sid relativePath with
  | .blob name => some (Function.update c name none)
  | .elsewhere => some c
  | .invalid => none

end Backend

/-- How the service writes a character in the text of an element. -/
structure Service where
  escape : Char → List Char
  no_tag : ∀ c, '<' ∉ escape c
  sizes : ∀ c, escape c = [c] ∨ 2 ≤ (escape c).length
  plain : ∀ c, isName c = true ∨ c = '/' → escape c = [c]

def Service.text (svc : Service) (name : List Char) : List Char := name.flatMap svc.escape

/-- A part of the answer to a listing: the name of a blob, the marker of the next page, or any
other tag with the text behind it. -/
inductive Node
  | name (blob : List Char)
  | marker (value : List Char)
  | other (text : List Char)

def Node.Valid : Node → Prop
  | .other text =>
      '<' ∉ text ∧ ¬ "Name".toList ++ ['>'] <+: text ∧ ¬ "NextMarker".toList ++ ['>'] <+: text
  | _ => True

def Node.blob? : Node → Option (List Char)
  | .name blob => some blob
  | _ => none

def Node.marker? : Node → Option (List Char)
  | .marker value => some value
  | _ => none

def Service.render (svc : Service) : Node → List Char
  | .name blob => openTag "Name" ++ svc.text blob ++ closeTag "Name"
  | .marker value => openTag "NextMarker" ++ svc.text value ++ closeTag "NextMarker"
  | .other text => '<' :: text

/-- A page of a listing. -/
structure Page where
  head : List Char
  nodes : List Node
  head_plain : '<' ∉ head
  valid : ∀ node ∈ nodes, node.Valid

def Page.blobs (page : Page) : List (List Char) := page.nodes.filterMap Node.blob?

def Page.next (page : Page) : List Char := (page.nodes.filterMap Node.marker?).headD []

def Page.xml (svc : Service) (page : Page) : List Char := page.head ++ page.nodes.flatMap svc.render

/-- The blobs on the pages from a marker on. A marker has nothing to escape in it. -/
inductive Pages (svc : Service) (serve : Option (List Char) → List Char) :
    Option (List Char) → List (List Char) → Prop
  | last {marker} (page : Page) (hserve : serve marker = page.xml svc) (hnext : page.next = []) :
      Pages svc serve marker page.blobs
  | more {marker blobs} (page : Page) (hserve : serve marker = page.xml svc) (hnext : page.next ≠ [])
      (hmarker : svc.text page.next = page.next) (hrest : Pages svc serve (some page.next) blobs) :
      Pages svc serve marker (page.blobs ++ blobs)

/-- The pages together have every blob below a prefix once. -/
def Lists (svc : Service) (serve : Option (List Char) → List Char) (c : Container) (full : List Char) : Prop :=
  ∃ blobs, Pages svc serve none blobs ∧ blobs.Nodup ∧ ∀ name, name ∈ blobs ↔ full <+: name ∧ (c name).isSome

def stripped (full xml : List Char) : List (List Char) :=
  ((extractXmlTagValues xml "Name").map (stripLead full)).filter (· ≠ [])

def nextMarker (xml : List Char) : List Char := (extractXmlTagValues xml "NextMarker").headD []

/-- The loop of `list`, for so many pages at most. -/
def listFrom (serve : Option (List Char) → List Char) (full : List Char) :
    Nat → Option (List Char) → Option (List (List Char))
  | 0, _ => none
  | fuel + 1, marker =>
      let xml := serve marker
      if nextMarker xml = [] then some (stripped full xml)
      else (listFrom serve full fuel (some (nextMarker xml))).map (stripped full xml ++ ·)

def list (serve : Option (List Char) → List Char) (sid : SessionId) (lead : List Char) (fuel : Nat) :
    Option (List (List Char)) :=
  listFrom serve (blobPath sid lead) fuel none

def Backend.deleteAll (b : Backend) (serve : Option (List Char) → List Char) (sid : SessionId) (fuel : Nat)
    (c : Container) : Option Container :=
  if validSessionId (.ofList sid.text) = false then none
  else (list serve sid [] fuel).bind fun paths => paths.foldlM (fun c rel => b.delete c sid rel) c

/-- Paths below memories that registration accepts. -/
structure Paths where
  paths : List (List Char)
  nodup : paths.Nodup
  accepted : ∀ p ∈ paths, ∃ memoryName rel,
    badMemoryName memoryName = false ∧ p = memoryName.toList ++ '/' :: rel

def Backend.putAll (b : Backend) (sid : SessionId) (content : List Char → ByteArray) (c : Container)
    (paths : List (List Char)) : Option Container :=
  paths.foldlM (fun c p => b.put c sid p (content p)) c

/-- What is stored is listed, fetched and deleted. -/
structure Kept (b : Backend) (svc : Service) (sid : SessionId) (content : List Char → ByteArray)
    (before : Container) (paths : List (List Char)) (c : Container) : Prop where
  listed : ∀ serve, Lists svc serve c (blobPath sid []) →
    ∃ turns, ∀ fuel ≥ turns, ∃ found, list serve sid [] fuel = some found ∧ found.Perm paths
  fetched : ∀ p ∈ paths, b.get c sid p = some (content p)
  deleted : ∀ serve, Lists svc serve c (blobPath sid []) →
    ∃ turns, ∀ fuel ≥ turns, ∃ after, b.deleteAll serve sid fuel c = some after ∧
      ∀ name, after name = if blobPath sid [] <+: name then none else before name

/-- Every path is a blob of its own under its exact name, and what is stored is kept. -/
structure Exact (b : Backend) (svc : Service) (sid : SessionId) (content : List Char → ByteArray)
    (before : Container) (paths : List (List Char)) : Prop where
  addressed : ∀ p ∈ paths, b.addressed sid p = .blob (blobPath sid p)
  kept : ∃ c, b.putAll sid content before paths = some c ∧ Kept b svc sid content before paths c

/-- A container with nothing of a session in it. -/
def Fresh (sid : SessionId) (before : Container) : Prop := ∀ name, blobPath sid [] <+: name → before name = none

/-- A URL carries the path as it is, and the service has nothing to escape in it. -/
def Carried (svc : Service) (p : List Char) : Prop := Url.Safe p ∧ ∀ c ∈ p, svc.escape c = [c]

instance (svc : Service) (p : List Char) : Decidable (Carried svc p) :=
  inferInstanceAs (Decidable (Url.Safe p ∧ ∀ c ∈ p, svc.escape c = [c]))

section Extract

/-- The part of a text before a mark may be dropped, if the mark does not begin in it. -/
theorem cut_plain {m : Char} {mark body : List Char} (hbody : m ∉ body) (rest : List Char) :
    cut (m :: mark) (body ++ rest) = (cut (m :: mark) rest).map fun parts => (body ++ parts.1, parts.2) := by
  induction body with
  | nil => exact Option.map_id'.symm
  | cons d body ih =>
    rw [List.mem_cons, not_or] at hbody
    have hpre : ¬ (m :: mark).isPrefixOf (d :: (body ++ rest)) = true := by
      rw [List.isPrefixOf_iff_prefix, List.cons_prefix_cons]
      exact fun h => hbody.1 h.1
    rw [List.cons_append, cut, if_neg hpre, ih hbody.2, Option.map_map]
    rfl

theorem cut_other {m : Char} {mark body rest : List Char} (hbody : m ∉ body) (hmark : ¬ mark <+: body ++ rest) :
    cut (m :: mark) (m :: (body ++ rest)) =
      (cut (m :: mark) rest).map fun parts => (m :: (body ++ parts.1), parts.2) := by
  have hpre : ¬ (m :: mark).isPrefixOf (m :: (body ++ rest)) = true := by
    rw [List.isPrefixOf_iff_prefix, List.cons_prefix_cons]
    exact fun h => hmark h.2
  rw [cut, if_neg hpre, cut_plain hbody, Option.map_map]
  rfl

/-- Nothing is found before the next tag. -/
theorem extractFrom_skip {tag : String} (fuel : Nat) {text rest : List Char} (f : List Char → List Char)
    (h : cut (openTag tag) text = (cut (openTag tag) rest).map fun parts => (f parts.1, parts.2)) :
    extractFrom tag fuel text = extractFrom tag fuel rest := by
  cases fuel with
  | zero => rfl
  | succ fuel =>
    rw [extractFrom, extractFrom, h]
    cases cut (openTag tag) rest <;> rfl

/-- What is behind a tag begins with another tag or is nothing. -/
def Behind (rest : List Char) : Prop := rest = [] ∨ ∃ more, rest = '<' :: more

theorem not_begins {mark body rest : List Char} (hmark : '<' ∉ mark) (hbody : ¬ mark <+: body)
    (hrest : Behind rest) : ¬ mark <+: body ++ rest := by
  rintro ⟨more, hmore⟩
  obtain ⟨t, hlong, -⟩ | ⟨t, hlong, ht⟩ := List.append_eq_append_iff.mp hmore
  · exact hbody ⟨t, hlong.symm⟩
  · cases t with
    | nil => exact hbody ⟨[], by rw [List.append_nil, hlong, List.append_nil]⟩
    | cons d t =>
      obtain hnil | ⟨more, hmore⟩ := hrest
      · rw [hnil] at ht
        cases ht
      · rw [hmore] at ht
        refine hmark ?_
        rw [hlong, (List.cons.inj ht).1]
        exact List.mem_append_right body List.mem_cons_self

variable {tag : String} (htag : '<' ∉ tag.toList ++ ['>'])

include htag

/-- A tag other than the one that is looked for, with the text behind it. -/
theorem extractFrom_other {body rest : List Char} (hbody : '<' ∉ body) (hno : ¬ tag.toList ++ ['>'] <+: body)
    (hrest : Behind rest) (fuel : Nat) :
    extractFrom tag fuel ('<' :: (body ++ rest)) = extractFrom tag fuel rest :=
  extractFrom_skip fuel (fun front => '<' :: (body ++ front)) (cut_other hbody (not_begins htag hno hrest))

/-- An element of another kind. -/
theorem extractFrom_another {other : String} {value rest : List Char} (hother : '<' ∉ other.toList ++ ['>'])
    (hvalue : '<' ∉ value) (hopen : ¬ tag.toList ++ ['>'] <+: other.toList ++ ['>'] ++ value)
    (hclose : ¬ tag.toList ++ ['>'] <+: '/' :: (other.toList ++ ['>'])) (hrest : Behind rest) (fuel : Nat) :
    extractFrom tag fuel (openTag other ++ value ++ closeTag other ++ rest) = extractFrom tag fuel rest := by
  have hparts : openTag other ++ value ++ closeTag other ++ rest =
      '<' :: ((other.toList ++ ['>'] ++ value) ++ '<' :: (('/' :: (other.toList ++ ['>'])) ++ rest)) := by
    rw [openTag, closeTag]
    simp only [List.append_assoc, List.cons_append, List.nil_append]
  have hfirst : '<' ∉ other.toList ++ ['>'] ++ value := by
    rw [List.mem_append, not_or]
    exact ⟨hother, hvalue⟩
  have hsecond : '<' ∉ '/' :: (other.toList ++ ['>']) := by
    rw [List.mem_cons, not_or]
    exact ⟨by decide, hother⟩
  rw [hparts, extractFrom_other htag hfirst hopen (.inr ⟨_, rfl⟩), extractFrom_other htag hsecond hclose hrest]

end Extract

section Pages

variable {svc : Service}

theorem text_no_tag (name : List Char) : '<' ∉ svc.text name := by
  rw [Service.text, List.mem_flatMap]
  rintro ⟨c, -, hc⟩
  exact svc.no_tag c hc

theorem behind_nodes (nodes : List Node) : Behind (nodes.flatMap svc.render) := by
  cases nodes with
  | nil => exact .inl rfl
  | cons node nodes =>
    rw [List.flatMap_cons]
    cases node <;> exact .inr ⟨_, rfl⟩

theorem length_nodes (svc : Service) (nodes : List Node) :
    nodes.length ≤ (nodes.flatMap svc.render).length := by
  induction nodes with
  | nil => exact Nat.le_refl 0
  | cons node nodes ih =>
    have hpos : 0 < (svc.render node).length := by
      cases node <;> exact Nat.succ_pos _
    rw [List.flatMap_cons, List.length_append, List.length_cons]
    omega

/-- The nodes of one kind are the elements of one tag. -/
structure Kind (svc : Service) (tag : String) (pick : Node → Option (List Char)) : Prop where
  picked : ∀ node value, pick node = some value →
    svc.render node = openTag tag ++ svc.text value ++ closeTag tag
  passed : ∀ node, node.Valid → pick node = none → ∀ fuel rest, Behind rest →
    extractFrom tag fuel (svc.render node ++ rest) = extractFrom tag fuel rest

theorem extract_nodes {tag : String} {pick : Node → Option (List Char)} (hkind : Kind svc tag pick)
    {nodes : List Node} (hvalid : ∀ node ∈ nodes, node.Valid) (fuel : Nat) (hfuel : nodes.length ≤ fuel) :
    extractFrom tag fuel (nodes.flatMap svc.render) = (nodes.filterMap pick).map svc.text := by
  induction nodes generalizing fuel with
  | nil => cases fuel <;> rfl
  | cons node nodes ih =>
    obtain ⟨hnode, hrest⟩ := List.forall_mem_cons.mp hvalid
    rw [List.length_cons] at hfuel
    rw [List.flatMap_cons]
    cases hpick : pick node with
    | none =>
      rw [hkind.passed node hnode hpick fuel _ (behind_nodes nodes), List.filterMap_cons_none hpick]
      exact ih hrest fuel (Nat.le_of_succ_le hfuel)
    | some value =>
      obtain ⟨fuel, rfl⟩ := Nat.exists_eq_add_one_of_ne_zero (show fuel ≠ 0 by omega)
      rw [hkind.picked node value hpick, extractFrom_element tag (text_no_tag value),
        List.filterMap_cons_some hpick, List.map_cons]
      exact congrArg _ (ih hrest fuel (Nat.le_of_succ_le_succ hfuel))

theorem names_kind : Kind svc "Name" Node.blob? where
  picked node value h := by
    cases node with
    | name blob =>
      cases h
      rfl
    | marker value => cases h
    | other text => cases h
  passed node hvalid h fuel rest hrest := by
    cases node with
    | name blob => cases h
    | marker value =>
      refine extractFrom_another (by decide) (by decide) (text_no_tag value) ?_ (by decide) hrest fuel
      simp
    | other text => exact extractFrom_other (by decide) hvalid.1 hvalid.2.1 hrest fuel

theorem markers_kind : Kind svc "NextMarker" Node.marker? where
  picked node value h := by
    cases node with
    | name blob => cases h
    | marker value =>
      cases h
      rfl
    | other text => cases h
  passed node hvalid h fuel rest hrest := by
    cases node with
    | name blob =>
      refine extractFrom_another (by decide) (by decide) (text_no_tag blob) ?_ (by decide) hrest fuel
      simp
    | marker value => cases h
    | other text => exact extractFrom_other (by decide) hvalid.1 hvalid.2.2 hrest fuel

theorem extract_page {tag : String} {pick : Node → Option (List Char)} (hkind : Kind svc tag pick)
    (page : Page) :
    extractXmlTagValues (page.xml svc) tag = (page.nodes.filterMap pick).map svc.text := by
  have hlen := length_nodes svc page.nodes
  rw [extractXmlTagValues, Page.xml, extractFrom_skip _ _ (cut_plain page.head_plain _)]
  refine extract_nodes hkind page.valid _ ?_
  rw [List.length_append]
  omega

theorem stripped_page (full : List Char) (page : Page) :
    stripped full (page.xml svc) = ((page.blobs.map svc.text).map (stripLead full)).filter (· ≠ []) := by
  rw [stripped, extract_page names_kind]
  rfl

theorem nextMarker_page (page : Page) : nextMarker (page.xml svc) = svc.text page.next := by
  rw [nextMarker, extract_page markers_kind, Page.next]
  cases page.nodes.filterMap Node.marker? <;> rfl

/-- All pages are read, when there are turns enough for them. -/
theorem pages_list {serve : Option (List Char) → List Char} {marker : Option (List Char)}
    {blobs : List (List Char)} (h : Pages svc serve marker blobs) (full : List Char) :
    ∃ turns, ∀ fuel ≥ turns, listFrom serve full fuel marker =
      some (((blobs.map svc.text).map (stripLead full)).filter (· ≠ [])) := by
  induction h with
  | last page hserve hnext =>
    refine ⟨1, fun fuel hfuel => ?_⟩
    obtain ⟨fuel, rfl⟩ := Nat.exists_eq_add_one_of_ne_zero (show fuel ≠ 0 by omega)
    have hmarker : nextMarker (page.xml svc) = [] := by
      rw [nextMarker_page, hnext]
      rfl
    rw [listFrom, hserve, if_pos hmarker, stripped_page]
  | more page hserve hnext hmarker hrest ih =>
    obtain ⟨turns, hturns⟩ := ih
    refine ⟨turns + 1, fun fuel hfuel => ?_⟩
    obtain ⟨fuel, rfl⟩ := Nat.exists_eq_add_one_of_ne_zero (show fuel ≠ 0 by omega)
    rw [listFrom, hserve, nextMarker_page, hmarker, if_neg hnext, hturns fuel (by omega), stripped_page,
      List.map_append, List.map_append, List.filter_append]
    rfl

end Pages

section Addresses

variable {b : Backend} {sid : SessionId}

theorem blobPath_eq (sid : SessionId) (p : List Char) : blobPath sid p = blobPath sid [] ++ p := by
  rw [blobPath, blobPath]
  simp only [List.append_assoc, List.cons_append, List.nil_append]

theorem under_session (sid : SessionId) (p : List Char) : blobPath sid [] <+: blobPath sid p :=
  ⟨p, (blobPath_eq sid p).symm⟩

theorem blobPath_inj {p q : List Char} (h : blobPath sid p = blobPath sid q) : p = q := by
  rw [blobPath_eq, blobPath_eq sid q] at h
  exact List.append_cancel_left h

/-- A name has no character that means something in a URL. -/
theorem name_plain {c : Char} (h : isName c = true) :
    (Url.counts c && Url.inPath c && c != '\\') = true ∧ c ≠ '.' ∧ c ≠ '%' ∧ c ≠ '/' := by
  have hne : ∀ d : Char, isName d = false → c ≠ d := by
    rintro d hd rfl
    rw [h] at hd
    cases hd
  have hmarks : c ≠ '\t' ∧ c ≠ '\n' ∧ c ≠ '\r' ∧ c ≠ '?' ∧ c ≠ '#' ∧ c ≠ '\\' :=
    ⟨hne _ (by decide), hne _ (by decide), hne _ (by decide), hne _ (by decide), hne _ (by decide),
      hne _ (by decide)⟩
  refine ⟨?_, hne _ (by decide), hne _ (by decide), hne _ (by decide)⟩
  simp only [Url.counts, Url.inPath, Bool.and_eq_true, bne_iff_ne, ne_eq]
  exact ⟨⟨⟨⟨hmarks.1, hmarks.2.1⟩, hmarks.2.2.1⟩, hmarks.2.2.2.1, hmarks.2.2.2.2.1⟩, hmarks.2.2.2.2.2⟩

theorem host_plain (b : Backend) :
    ∀ c ∈ b.account ++ ".blob.core.windows.net".toList, Url.inHost c = true ∧ Url.counts c = true := by
  refine List.forall_mem_append.mpr ⟨fun c hc => ?_, by decide⟩
  obtain ⟨hplain, -, -, hslash⟩ := name_plain (b.account_plain c hc)
  simp only [Bool.and_eq_true, bne_iff_ne, ne_eq] at hplain
  simp only [Url.inHost, Bool.and_eq_true, bne_iff_ne, ne_eq]
  exact ⟨⟨⟨hslash, hplain.2⟩, hplain.1.2⟩, hplain.1.1⟩

theorem front_plain (b : Backend) (sid : SessionId) :
    ∀ c ∈ b.container ++ '/' :: (keyRoot ++ sid.text),
      (Url.counts c && Url.inPath c && c != '\\') = true ∧ c ≠ '.' ∧ c ≠ '%' := by
  have hname : ∀ c : Char, isName c = true →
      (Url.counts c && Url.inPath c && c != '\\') = true ∧ c ≠ '.' ∧ c ≠ '%' := fun c hc =>
    ⟨(name_plain hc).1, (name_plain hc).2.1, (name_plain hc).2.2.1⟩
  refine List.forall_mem_append.mpr ⟨fun c hc => hname c (b.container_plain c hc), ?_⟩
  refine List.forall_mem_cons.mpr ⟨by decide, List.forall_mem_append.mpr ⟨by decide, ?_⟩⟩
  exact fun c hc => hname c (sid.plain c hc)

theorem target_iff {url name : List Char} :
    b.target url = .blob name ↔ Url.decodedPath url = some (b.container ++ '/' :: name) := by
  have hall : b.container ++ '/' :: name = (b.container ++ ['/']) ++ name := by
    rw [List.append_assoc]
    rfl
  rw [Backend.target]
  cases Url.decodedPath url with
  | none => exact ⟨nofun, nofun⟩
  | some path =>
    rw [Option.some_inj, hall, ← Lines.dropBeginning_eq_some]
    dsimp only
    cases dropBeginning (b.container ++ ['/']) path with
    | none => exact ⟨nofun, nofun⟩
    | some name' =>
      rw [Option.some_inj]
      exact ⟨fun h => Target.blob.inj h, fun h => congrArg Target.blob h⟩

/-- A blob is addressed under its name exactly if its path is safe. -/
theorem addressed_iff {p : List Char} (hne : p ≠ []) :
    b.addressed sid p = .blob (blobPath sid p) ↔ Url.Safe p := by
  have hpath : b.container ++ '/' :: blobPath sid p =
      (b.container ++ '/' :: (keyRoot ++ sid.text)) ++ '/' :: p := by
    rw [blobPath]
    simp only [List.append_assoc, List.cons_append]
  have hread : Url.decodedPath (b.blobUrl (blobPath sid p)) = Url.decode (Url.percentDecode 0 (Url.percentEncode
      (Url.pathText (b.container ++ '/' :: blobPath sid p)))) :=
    Url.decodedPath_eq (host_plain b) _
  rw [Backend.addressed, target_iff, hread, Url.decode_pathText, hpath]
  exact Url.safe_below hne (front_plain b sid)

end Addresses

section Blobs

variable {b : Backend} {sid : SessionId} {content : List Char → ByteArray} {before : Container}
  {paths : List (List Char)}

/-- The container after the paths are stored. -/
def stored (sid : SessionId) (content : List Char → ByteArray) (before : Container) (paths : List (List Char)) :
    Container := fun name =>
  match paths.find? fun p => blobPath sid p = name with
  | some p => some (content p)
  | none => before name

theorem stored_at {p : List Char} (hp : p ∈ paths) :
    stored sid content before paths (blobPath sid p) = some (content p) := by
  rw [stored]
  cases hfind : paths.find? fun q => blobPath sid q = blobPath sid p with
  | none => exact absurd (decide_eq_true rfl) (List.find?_eq_none.mp hfind p hp)
  | some q =>
    have hq := List.find?_some (p := fun q => decide (blobPath sid q = blobPath sid p)) hfind
    rw [blobPath_inj (of_decide_eq_true hq)]

theorem stored_other {name : List Char} (h : ∀ p ∈ paths, blobPath sid p ≠ name) :
    stored sid content before paths name = before name := by
  have hfind : paths.find? (fun p => blobPath sid p = name) = none :=
    List.find?_eq_none.mpr fun p hp heq => h p hp (of_decide_eq_true heq)
  rw [stored, hfind]

theorem putAll_stored (h : ∀ p ∈ paths, b.addressed sid p = .blob (blobPath sid p)) :
    b.putAll sid content before paths = some (stored sid content before paths) := by
  induction paths generalizing before with
  | nil => rfl
  | cons p paths ih =>
    obtain ⟨hp, hrest⟩ := List.forall_mem_cons.mp h
    have hput : b.put before sid p (content p) =
        some (Function.update before (blobPath sid p) (some (content p))) := by
      rw [Backend.put, hp]
    rw [Backend.putAll, List.foldlM_cons, hput]
    refine (ih hrest).trans (congrArg some (funext fun name => ?_))
    by_cases hname : ∃ q ∈ paths, blobPath sid q = name
    · obtain ⟨q, hq, rfl⟩ := hname
      rw [stored_at hq, stored_at (List.mem_cons_of_mem p hq)]
    · have hnot : ∀ q ∈ paths, blobPath sid q ≠ name := fun q hq heq => hname ⟨q, hq, heq⟩
      rw [stored_other hnot]
      by_cases hfirst : blobPath sid p = name
      · rw [← hfirst, Function.update_self, stored_at List.mem_cons_self]
      · rw [Function.update_of_ne (Ne.symm hfirst)]
        exact (stored_other (List.forall_mem_cons.mpr ⟨hfirst, hnot⟩)).symm

/-- The container after the paths are deleted. -/
def without (sid : SessionId) (c : Container) (paths : List (List Char)) : Container := fun name =>
  if name ∈ paths.map (blobPath sid) then none else c name

theorem deletes {c : Container} (h : ∀ p ∈ paths, b.addressed sid p = .blob (blobPath sid p)) :
    paths.foldlM (fun c rel => b.delete c sid rel) c = some (without sid c paths) := by
  induction paths generalizing c with
  | nil => rfl
  | cons p paths ih =>
    obtain ⟨hp, hrest⟩ := List.forall_mem_cons.mp h
    have hdelete : b.delete c sid p = some (Function.update c (blobPath sid p) none) := by
      rw [Backend.delete, hp]
    rw [List.foldlM_cons, hdelete]
    refine (ih hrest).trans (congrArg some (funext fun name => ?_))
    rw [without, without, List.map_cons]
    by_cases hname : name ∈ paths.map (blobPath sid)
    · rw [if_pos hname, if_pos (List.mem_cons_of_mem _ hname)]
    · rw [if_neg hname]
      by_cases hfirst : name = blobPath sid p
      · rw [hfirst, Function.update_self, if_pos List.mem_cons_self]
      · rw [Function.update_of_ne hfirst, if_neg]
        rw [List.mem_cons, not_or]
        exact ⟨hfirst, hname⟩

end Blobs

section Listing

variable {svc : Service} {sid : SessionId} {content : List Char → ByteArray} {before : Container}
  {paths : List (List Char)}

theorem length_text (svc : Service) (name : List Char) :
    name.length ≤ (svc.text name).length ∧
      ((svc.text name).length = name.length → ∀ c ∈ name, svc.escape c = [c]) := by
  induction name with
  | nil => exact ⟨Nat.le_refl 0, fun _ _ h => absurd h List.not_mem_nil⟩
  | cons c name ih =>
    obtain ⟨hle, hsame⟩ := ih
    rw [Service.text, List.flatMap_cons, List.length_append, List.length_cons, ← Service.text]
    obtain hplain | hlong := svc.sizes c
    · rw [hplain, List.length_singleton]
      exact ⟨by omega, fun h => List.forall_mem_cons.mpr ⟨hplain, hsame (by omega)⟩⟩
    · exact ⟨by omega, fun h => by omega⟩

theorem text_eq_self {name : List Char} (h : ∀ c ∈ name, svc.escape c = [c]) : svc.text name = name := by
  induction name with
  | nil => rfl
  | cons c name ih =>
    obtain ⟨hc, hrest⟩ := List.forall_mem_cons.mp h
    rw [Service.text, List.flatMap_cons, ← Service.text, hc, ih hrest]
    rfl

/-- A name begins in the listing as it is stored. -/
theorem text_blobPath (p : List Char) : svc.text (blobPath sid p) = blobPath sid [] ++ svc.text p := by
  have hfront : ∀ c ∈ blobPath sid [], svc.escape c = [c] := by
    rw [blobPath]
    refine List.forall_mem_append.mpr ⟨List.forall_mem_append.mpr ⟨fun c hc => svc.plain c ?_, ?_⟩, ?_⟩
    · revert c
      decide
    · exact fun c hc => svc.plain c (.inl (sid.plain c hc))
    · exact List.forall_mem_cons.mpr ⟨svc.plain '/' (.inr rfl), fun _ h => absurd h List.not_mem_nil⟩
  rw [blobPath_eq, Service.text, List.flatMap_append]
  exact congrArg (· ++ svc.text p) (text_eq_self hfront)

/-- The blobs of a session are the paths. -/
theorem stored_some (hfresh : Fresh sid before) (name : List Char) :
    blobPath sid [] <+: name ∧ (stored sid content before paths name).isSome ↔
      name ∈ paths.map (blobPath sid) := by
  rw [List.mem_map]
  constructor
  · rintro ⟨hfull, hsome⟩
    by_contra hnone
    rw [stored_other fun p hp heq => hnone ⟨p, hp, heq⟩, hfresh name hfull] at hsome
    cases hsome
  · rintro ⟨p, hp, rfl⟩
    rw [stored_at hp]
    exact ⟨under_session sid p, rfl⟩

theorem lists_perm (hfresh : Fresh sid before) (hnodup : paths.Nodup) {blobs : List (List Char)}
    (hblobs : blobs.Nodup)
    (hmem : ∀ name, name ∈ blobs ↔ blobPath sid [] <+: name ∧ (stored sid content before paths name).isSome) :
    blobs.Perm (paths.map (blobPath sid)) :=
  (List.perm_ext_iff_of_nodup hblobs (hnodup.map fun _ _ => blobPath_inj)).mpr fun name =>
    (hmem name).trans (stored_some hfresh name)

/-- A listing finds the paths as the service writes them. -/
theorem list_found (hfresh : Fresh sid before) (hnodup : paths.Nodup)
    (hne : ∀ p ∈ paths, p ≠ []) {serve : Option (List Char) → List Char}
    (h : Lists svc serve (stored sid content before paths) (blobPath sid [])) :
    ∃ turns, ∀ fuel ≥ turns, ∃ found,
      list serve sid [] fuel = some found ∧ found.Perm (paths.map svc.text) := by
  obtain ⟨blobs, hpages, hblobs, hmem⟩ := h
  obtain ⟨turns, hturns⟩ := pages_list hpages (blobPath sid [])
  have hperm := lists_perm hfresh hnodup hblobs hmem
  refine ⟨turns, fun fuel hfuel => ⟨_, hturns fuel hfuel, ?_⟩⟩
  refine (((hperm.map svc.text).map (stripLead (blobPath sid []))).filter (· ≠ [])).trans (List.Perm.of_eq ?_)
  have hstrip : ((paths.map (blobPath sid)).map svc.text).map (stripLead (blobPath sid [])) =
      paths.map svc.text := by
    rw [List.map_map, List.map_map]
    refine List.map_congr_left fun p _ => ?_
    rw [Function.comp_apply, Function.comp_apply, text_blobPath, stripLead_append]
  rw [hstrip, List.filter_eq_self]
  intro name hname
  obtain ⟨p, hp, rfl⟩ := List.mem_map.mp hname
  refine decide_eq_true fun hnil => hne p hp (List.eq_nil_of_length_eq_zero ?_)
  have hlen := (length_text svc p).1
  rw [hnil] at hlen
  exact Nat.le_zero.mp hlen

theorem sum_eq_of_le {α : Type*} {l : List α} {f g : α → Nat} (hle : ∀ x ∈ l, f x ≤ g x) :
    (l.map f).sum ≤ (l.map g).sum ∧ ((l.map g).sum = (l.map f).sum → ∀ x ∈ l, g x = f x) := by
  induction l with
  | nil => exact ⟨Nat.le_refl 0, fun _ _ h => absurd h List.not_mem_nil⟩
  | cons x l ih =>
    obtain ⟨hx, hrest⟩ := List.forall_mem_cons.mp hle
    obtain ⟨hsum, hsame⟩ := ih hrest
    rw [List.map_cons, List.map_cons, List.sum_cons, List.sum_cons]
    exact ⟨by omega, fun h => List.forall_mem_cons.mpr ⟨by omega, hsame (by omega)⟩⟩

/-- Names that are the same with and without escapes have none. -/
theorem unescaped_of_perm (h : (paths.map svc.text).Perm paths) : ∀ p ∈ paths, ∀ c ∈ p, svc.escape c = [c] := by
  have hsum := (h.map List.length).sum_eq
  rw [List.map_map] at hsum
  have hlen := (sum_eq_of_le fun p _ => (length_text svc p).1).2 hsum
  exact fun p hp => (length_text svc p).2 (hlen p hp)

theorem session_valid (sid : SessionId) : validSessionId (.ofList sid.text) = true := by
  have hnot : ∀ c : Char, isName c = false → c ∉ sid.text := by
    intro c hc hmem
    rw [sid.plain c hmem] at hc
    cases hc
  have hdot := hnot '.' (by decide)
  have hlist : ∀ s : String, String.ofList sid.text = s → sid.text = s.toList := by
    rintro s rfl
    exact String.toList_ofList.symm
  have hempty : String.ofList sid.text ≠ "" := fun h => sid.nonempty (hlist _ h)
  have hone : String.ofList sid.text ≠ "." := fun h => by
    rw [hlist _ h] at hdot
    exact absurd hdot (by decide)
  have htwo : String.ofList sid.text ≠ ".." := fun h => by
    rw [hlist _ h] at hdot
    exact absurd hdot (by decide)
  have hdots : ¬ ['.', '.'] <:+: sid.text := fun h => hdot (h.subset List.mem_cons_self)
  simp [validSessionId, hempty, hone, htwo, hdots, hnot '/' (by decide), hnot '\\' (by decide)]

end Listing

section Main

variable {b : Backend} {svc : Service} {sid : SessionId} {content : List Char → ByteArray} {before : Container}
  {paths : List (List Char)}

/-- A page with the names of some blobs. -/
def pageOf (blobs : List (List Char)) : Page where
  head := []
  nodes := blobs.map .name
  head_plain := List.not_mem_nil
  valid node hnode := by
    obtain ⟨blob, -, rfl⟩ := List.mem_map.mp hnode
    trivial

theorem pageOf_blobs (blobs : List (List Char)) : (pageOf blobs).blobs = blobs := by
  induction blobs with
  | nil => rfl
  | cons blob blobs ih => exact congrArg _ ih

theorem pageOf_next (blobs : List (List Char)) : (pageOf blobs).next = [] := by
  induction blobs with
  | nil => rfl
  | cons blob blobs ih => exact ih

theorem pageOf_lists (hfresh : Fresh sid before) (hnodup : paths.Nodup) :
    Lists svc (fun _ => (pageOf (paths.map (blobPath sid))).xml svc) (stored sid content before paths)
      (blobPath sid []) := by
  refine ⟨paths.map (blobPath sid), ?_, hnodup.map fun _ _ => blobPath_inj,
    fun name => (stored_some hfresh name).symm⟩
  have hpage : Pages svc (fun _ => (pageOf (paths.map (blobPath sid))).xml svc) none
      (pageOf (paths.map (blobPath sid))).blobs := .last _ rfl (pageOf_next _)
  rwa [pageOf_blobs] at hpage

theorem kept_of_carried (hfresh : Fresh sid before) (hnodup : paths.Nodup) (hne : ∀ p ∈ paths, p ≠ [])
    (haddressed : ∀ p ∈ paths, b.addressed sid p = .blob (blobPath sid p))
    (hplain : ∀ p ∈ paths, ∀ c ∈ p, svc.escape c = [c]) :
    Kept b svc sid content before paths (stored sid content before paths) := by
  have htext : paths.map svc.text = paths := by
    refine (List.map_congr_left fun p hp => text_eq_self (hplain p hp)).trans (List.map_id paths)
  refine ⟨fun serve h => ?_, fun p hp => ?_, fun serve h => ?_⟩
  · have hfound := list_found hfresh hnodup hne h
    rwa [htext] at hfound
  · rw [Backend.get, haddressed p hp]
    exact stored_at hp
  · obtain ⟨turns, hturns⟩ := list_found hfresh hnodup hne h
    rw [htext] at hturns
    refine ⟨turns, fun fuel hfuel => ?_⟩
    obtain ⟨found, hlist, hperm⟩ := hturns fuel hfuel
    refine ⟨without sid (stored sid content before paths) found, ?_, fun name => ?_⟩
    · rw [Backend.deleteAll, session_valid, if_neg (by decide), hlist]
      exact deletes fun p hp => haddressed p (hperm.mem_iff.mp hp)
    · rw [without]
      have hmem : name ∈ found.map (blobPath sid) ↔ name ∈ paths.map (blobPath sid) := (hperm.map _).mem_iff
      by_cases hname : name ∈ paths.map (blobPath sid)
      · obtain ⟨p, hp, rfl⟩ := List.mem_map.mp hname
        rw [if_pos (hmem.mpr hname), if_pos (under_session sid p)]
      · rw [if_neg (mt hmem.mp hname), stored_other fun p hp heq => hname (List.mem_map.mpr ⟨p, hp, heq⟩)]
        split
        · rename_i hfull
          exact hfresh name hfull
        · rfl

end Main

/-- Paths of a session are stored, listed, fetched and deleted under their exact names exactly
if all of them are `Carried`. -/
theorem exact_names_iff (b : Backend) (svc : Service) (sid : SessionId) (content : List Char → ByteArray)
    (before : Container) (hfresh : Fresh sid before) (paths : Paths) :
    Exact b svc sid content before paths.paths ↔ ∀ p ∈ paths.paths, Carried svc p := by
  have hne : ∀ p ∈ paths.paths, p ≠ [] := by
    intro p hp
    obtain ⟨memoryName, rel, -, rfl⟩ := paths.accepted p hp
    exact List.append_ne_nil_of_right_ne_nil _ (List.cons_ne_nil _ _)
  constructor
  · rintro ⟨haddressed, c, hput, hkept⟩
    rw [putAll_stored haddressed] at hput
    obtain rfl := Option.some.inj hput
    have hlists : Lists svc (fun _ => (pageOf (paths.paths.map (blobPath sid))).xml svc)
        (stored sid content before paths.paths) (blobPath sid []) := pageOf_lists hfresh paths.nodup
    obtain ⟨turns, hturns⟩ := hkept.listed _ hlists
    obtain ⟨turns', hturns'⟩ := list_found hfresh paths.nodup hne hlists
    obtain ⟨found, hfound, hperm⟩ := hturns (max turns turns') (Nat.le_max_left _ _)
    obtain ⟨found', hfound', hperm'⟩ := hturns' (max turns turns') (Nat.le_max_right _ _)
    rw [hfound] at hfound'
    obtain rfl := Option.some.inj hfound'
    have hplain := unescaped_of_perm (hperm'.symm.trans hperm)
    exact fun p hp => ⟨(addressed_iff (hne p hp)).mp (haddressed p hp), hplain p hp⟩
  · intro h
    have haddressed : ∀ p ∈ paths.paths, b.addressed sid p = .blob (blobPath sid p) := fun p hp =>
      (addressed_iff (hne p hp)).mpr (h p hp).1
    exact ⟨haddressed, _, putAll_stored haddressed,
      kept_of_carried hfresh paths.nodup hne haddressed fun p hp => (h p hp).2⟩

def sampleBackend : Backend := ⟨"account".toList, "memories".toList, by decide, by decide⟩

def sampleSession : SessionId := ⟨"9f3c-41".toList, by decide, by decide⟩

def sampleService : Service where
  escape := xmlEscape
  no_tag := xmlEscape_lt
  sizes c := by
    rw [xmlEscape]
    split
    · exact .inr (by decide)
    split
    · exact .inr (by decide)
    split
    · exact .inr (by decide)
    · exact .inl rfl
  plain c hc := by
    have hne : ∀ d : Char, isName d = false → d ≠ '/' → c ≠ d := by
      rintro d hname hslash rfl
      obtain hc | hc := hc
      · rw [hname] at hc
        cases hc
      · exact hslash hc
    rw [xmlEscape, if_neg (hne _ (by decide) (by decide)), if_neg (hne _ (by decide) (by decide)),
      if_neg (hne _ (by decide) (by decide))]

/-- The metadata of one memory. -/
def metadataOf (memoryName : String) (h : badMemoryName memoryName = false) : Paths where
  paths := [memoryName.toList ++ '/' :: "metadata.json".toList]
  nodup := List.nodup_singleton _
  accepted p hp := ⟨memoryName, "metadata.json".toList, h, List.mem_singleton.mp hp⟩

theorem exact_names_sample :
    Exact sampleBackend sampleService sampleSession (fun _ => ByteArray.empty) (fun _ => none)
        (metadataOf "é 5% \"x\"" (by decide +kernel)).paths ∧
      ¬ Exact sampleBackend sampleService sampleSession (fun _ => ByteArray.empty) (fun _ => none)
        (metadataOf "a&b" (by decide +kernel)).paths := by
  constructor
  · exact (exact_names_iff sampleBackend sampleService sampleSession _ _ (fun _ _ => rfl) _).mpr
      (by decide +kernel)
  · intro h
    exact absurd ((exact_names_iff sampleBackend sampleService sampleSession _ _ (fun _ _ => rfl) _).mp h)
      (by decide +kernel)

/-- The path of a memory with a number sign in its name is cut there. -/
theorem sharp_cut :
    ¬ ∀ (b : Backend) (svc : Service) (sid : SessionId) (content : List Char → ByteArray) (before : Container)
      (paths : Paths), Fresh sid before → Exact b svc sid content before paths.paths := by
  intro h
  have hexact := h sampleBackend sampleService sampleSession (fun _ => ByteArray.empty) (fun _ => none)
    (metadataOf "a#b" (by decide +kernel)) fun _ _ => rfl
  have haddressed := hexact.addressed _ (List.mem_singleton_self _)
  exact absurd ((addressed_iff (by decide)).mp haddressed) (by decide +kernel)

end MemoryArchive.Storage.Azure
