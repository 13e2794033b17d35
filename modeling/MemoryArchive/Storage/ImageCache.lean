import Mathlib.Data.List.Infix
import Mathlib.Logic.Function.Basic
import MemoryArchive.Data.Runs
import MemoryArchive.Text.Lines

namespace MemoryArchive.Storage.ImageCache

open Runs

abbrev Bytes := List UInt8

/-- A place in the image cache, from its directory down. -/
abbrev Path := List (List Char)

/-- The parts of `Path(rel)`. -/
def parts (rel : String) : Path :=
  (Lines.split (· = '/') rel.toList).filter fun piece => piece ≠ [] ∧ piece ≠ ['.']

def isAbsolute (rel : String) : Bool := rel.toList.head? = some '/'

/-- The paths that `fetch_and_cache_image` takes. -/
def isSafe (rel : String) : Bool := !isAbsolute rel && ['.', '.'] ∉ parts rel

/-- One part further down, or up again. -/
def descend (here : Path) (part : List Char) : Option Path :=
  if part = ['.', '.'] then if here = [] then none else some here.dropLast
  else some (here ++ [part])

/-- The place that a path leads to, if it stays in the cache. -/
def place (rel : String) : Option Path :=
  if isAbsolute rel then none else (parts rel).foldlM descend []

/-- Bytes put into a file at an offset. A gap reads as zeros. -/
def overwrite (content : Bytes) (offset : Nat) (chunk : Bytes) : Bytes :=
  content.take offset ++ List.replicate (offset - content.length) 0 ++ chunk ++
    content.drop (offset + chunk.length)

/-- What a call of `fetch_and_cache_image` does next. -/
inductive Task
  | checking (rel : String)
  | fetching (rel : String)
  | making (rel : String) (data : Bytes)
  | opening (rel : String) (data : Bytes)
  | writing (rel : String) (data : Bytes) (offset : Nat)
  | returning (rel : String)

/-- The cache directory with the calls that are on their way, and what the server has
returned so far. -/
structure Cache where
  files : Path → Option Bytes
  dirs : Path → Bool
  tasks : Nat → Option Task
  served : List (String × Bytes)

/-- A call comes in, a call takes its next step or raises, the process is killed, or a
reader looks for a path. -/
inductive Act
  | call (id : Nat) (rel : String)
  | check (id : Nat)
  | reply (id : Nat) (data : Option Bytes)
  | mkdir (id : Nat)
  | openFile (id : Nat)
  | write (id n : Nat)
  | close (id : Nat)
  | ret (id : Nat)
  | fail (id : Nat)
  | kill
  | find (rel : String)

namespace Cache

variable (s : Cache)

def new : Cache := ⟨fun _ => none, fun p => p = [], fun _ => none, []⟩

def fileExists (p : Path) : Bool := (s.files p).isSome || s.dirs p

def become (id : Nat) (t : Task) : Cache := { s with tasks := Function.update s.tasks id (some t) }

def leave (id : Nat) : Cache := { s with tasks := Function.update s.tasks id none }

def put (p : Path) (content : Bytes) : Cache := { s with files := Function.update s.files p (some content) }

/-- Unsafe paths are rejected at once. -/
def call (id : Nat) (rel : String) : Cache :=
  if s.tasks id = none ∧ isSafe rel = true then s.become id (.checking rel) else s

def check (id : Nat) : Cache :=
  match s.tasks id with
  | some (.checking rel) =>
      if s.fileExists (parts rel) then s.become id (.returning rel) else s.become id (.fetching rel)
  | _ => s

def reply (id : Nat) (data : Option Bytes) : Cache :=
  match s.tasks id, data with
  | some (.fetching rel), some data =>
      { s.become id (.making rel data) with served := s.served ++ [(rel, data)] }
  | some (.fetching _), none => s.leave id
  | _, _ => s

/-- `mkdir` raises where a file stands in the way. -/
def mkdir (id : Nat) : Cache :=
  match s.tasks id with
  | some (.making rel data) =>
      if (parts rel).dropLast.inits.any fun q => (s.files q).isSome then s.leave id
      else
        { s.become id (.opening rel data) with
          dirs := fun q => s.dirs q || q.isPrefixOf (parts rel).dropLast }
  | _ => s

/-- `open` cuts the file down to nothing, and raises on a directory. -/
def openFile (id : Nat) : Cache :=
  match s.tasks id with
  | some (.opening rel data) =>
      if s.dirs (parts rel) then s.leave id
      else (s.become id (.writing rel data 0)).put (parts rel) []
  | _ => s

def write (id n : Nat) : Cache :=
  match s.tasks id with
  | some (.writing rel data offset) =>
      let chunk := (data.drop offset).take n
      (s.become id (.writing rel data (offset + chunk.length))).put (parts rel)
        (overwrite ((s.files (parts rel)).getD []) offset chunk)
  | _ => s

def close (id : Nat) : Cache :=
  match s.tasks id with
  | some (.writing rel data offset) =>
      if data.length ≤ offset then s.become id (.returning rel) else s
  | _ => s

def ret (id : Nat) : Cache :=
  match s.tasks id with
  | some (.returning _) => s.leave id
  | _ => s

def step : Cache → Act → Cache
  | s, .call id rel => s.call id rel
  | s, .check id => s.check id
  | s, .reply id data => s.reply id data
  | s, .mkdir id => s.mkdir id
  | s, .openFile id => s.openFile id
  | s, .write id n => s.write id n
  | s, .close id => s.close id
  | s, .ret id => s.ret id
  | s, .fail id => s.leave id
  | s, .kill => { s with tasks := fun _ => none }
  | s, .find _ => s

/-- The path that a call returns, or that a reader finds. -/
def seen : Act → Option (String × Path)
  | .ret id =>
      match s.tasks id with
      | some (.returning rel) => some (rel, parts rel)
      | _ => none
  | .find rel =>
      match place rel with
      | some p => if s.fileExists p then some (rel, p) else none
      | none => none
  | _ => none

/-- The file holds what the server returned for the path. -/
def Holds (rel : String) (p : Path) : Prop := ∃ data, s.files p = some data ∧ (rel, data) ∈ s.served

/-- Whatever is returned or found is an image of its path, whole. -/
def Serves (a : Act) : Prop := ∀ rel p, s.seen a = some (rel, p) → s.Holds rel p

/-- No call has the file open. -/
def Quiet (p : Path) : Prop := ∀ id rel data offset,
  s.tasks id = some (.writing rel data offset) → parts rel ≠ p

/-- A call has not begun to write, or has nothing left to write. -/
def Whole (id : Nat) : Prop := ∀ rel data offset,
  s.tasks id = some (.writing rel data offset) → data.length ≤ offset

end Cache

/-- Different paths lead to different files, and none to a directory of another. -/
structure Separate (rels : String → Prop) : Prop where
  apart : ∀ r r' p p', rels r → rels r' → r ≠ r' → place r = some p → place r' = some p' → ¬ p <+: p'
  inside : ∀ r, rels r → place r ≠ some []

/-- A file is opened, returned and found while no call has it open, and a call that
raises or is killed has written all of its file or nothing. -/
def Undisturbed (rels : String → Prop) (s : Cache) : Act → Prop
  | .call _ rel => rels rel
  | .openFile id => ∀ rel data, s.tasks id = some (.opening rel data) → s.Quiet (parts rel)
  | .ret id => ∀ rel, s.tasks id = some (.returning rel) → s.Quiet (parts rel)
  | .fail id => s.Whole id
  | .kill => ∀ id, s.Whole id
  | .find rel => rels rel ∧ ∀ p, place rel = some p → s.Quiet p
  | _ => True

def Task.rel : Task → String
  | .checking rel | .fetching rel | .making rel _ | .opening rel _ | .writing rel _ _ | .returning rel => rel

def Task.data : Task → Option Bytes
  | .making _ data | .opening _ data | .writing _ data _ => some data
  | _ => none

section Places

theorem descend_plain (here : Path) {ps : Path} (h : ['.', '.'] ∉ ps) :
    ps.foldlM descend here = some (here ++ ps) := by
  induction ps generalizing here with
  | nil => simp
  | cons part ps ih =>
    have hpart : part ≠ ['.', '.'] := fun he => h (he ▸ List.mem_cons_self)
    have hdescend : descend here part = some (here ++ [part]) := if_neg hpart
    rw [List.foldlM_cons, hdescend]
    exact (ih _ fun hin => h (List.mem_cons_of_mem _ hin)).trans (by simp)

theorem place_safe {rel : String} (h : isSafe rel = true) : place rel = some (parts rel) := by
  obtain ⟨habsolute, hup⟩ : isAbsolute rel = false ∧ ['.', '.'] ∉ parts rel := by
    simpa [isSafe] using h
  unfold place
  rw [if_neg (by simp [habsolute])]
  exact descend_plain [] hup

variable {rels : String → Prop} (hR : Separate rels)
include hR

theorem rel_unique {r r' : String} (hr : rels r) (hr' : rels r') {p : Path} (hp : place r = some p)
    (hp' : place r' = some p) : r = r' := by
  by_contra hne
  exact hR.apart r r' p p hr hr' hne hp hp' List.prefix_rfl

/-- No path of the run leads to a directory above a file. -/
theorem not_above {r r' : String} (hr : rels r) (hr' : rels r' ∧ isSafe r' = true) {p : Path}
    (hp : place r = some p) : ¬ p <+: (parts r').dropLast := by
  intro habove
  have hfile := place_safe hr'.2
  have hlead := habove.trans (List.dropLast_prefix (parts r'))
  by_cases hrr : r = r'
  · obtain rfl := hrr
    obtain rfl : p = parts r := Option.some.inj (hp.symm.trans hfile)
    have hlength := habove.length_le
    have hne : parts r ≠ [] := fun hnil => hR.inside r hr (hnil ▸ hfile)
    have hpos := List.length_pos_of_ne_nil hne
    rw [List.length_dropLast] at hlength
    omega
  · exact hR.apart r r' p (parts r') hr hr'.1 hrr hp hfile hlead

end Places

section Contents

theorem overwrite_next {data : Bytes} {offset n : Nat} (h : offset ≤ data.length) :
    overwrite (data.take offset) offset ((data.drop offset).take n) =
      data.take (offset + ((data.drop offset).take n).length) := by
  have hlength : (data.take offset).length = offset := by simp [h]
  have hdrop : (data.take offset).drop (offset + ((data.drop offset).take n).length) = [] :=
    List.drop_eq_nil_of_le (by omega)
  unfold overwrite
  rw [hlength, hdrop, Nat.sub_self, List.take_of_length_le hlength.le, List.take_add]
  simp

theorem next_le {data : Bytes} {offset : Nat} (n : Nat) (h : offset ≤ data.length) :
    offset + ((data.drop offset).take n).length ≤ data.length := by
  rw [List.length_take, List.length_drop]
  omega

end Contents

/-- A file that a call has open holds what the call has written, and any other file is
an image of its path. -/
structure Inv (rels : String → Prop) (s : Cache) : Prop where
  known : ∀ id t, s.tasks id = some t → rels t.rel ∧ isSafe t.rel = true
  fetched : ∀ id t data, s.tasks id = some t → t.data = some data → (t.rel, data) ∈ s.served
  writer : ∀ id rel data offset, s.tasks id = some (.writing rel data offset) →
    offset ≤ data.length ∧ s.files (parts rel) = some (data.take offset)
  alone : ∀ id id' rel data offset rel' data' offset', s.tasks id = some (.writing rel data offset) →
    s.tasks id' = some (.writing rel' data' offset') → parts rel = parts rel' → id = id'
  returning : ∀ id rel, s.tasks id = some (.returning rel) → (s.files (parts rel)).isSome = true
  files : ∀ p content, s.files p = some content →
    ∃ rel, (rels rel ∧ isSafe rel = true) ∧ p = parts rel ∧ (s.Quiet p → s.Holds rel p)
  dirs : ∀ p, s.dirs p = true →
    p = [] ∨ ∃ rel, (rels rel ∧ isSafe rel = true) ∧ p <+: (parts rel).dropLast

section Invariant

variable {rels : String → Prop} {s : Cache} {id : Nat}

theorem inv_new : Inv rels .new where
  known := nofun
  fetched := nofun
  writer := nofun
  alone := nofun
  returning := nofun
  files := nofun
  dirs _ hp := .inl (of_decide_eq_true hp)

/-- A file whose writers have nothing left to write is an image of its path. -/
theorem Inv.holds_of_whole (h : Inv rels s) {p : Path} {content : Bytes} (hp : s.files p = some content)
    (hwhole : ∀ id rel data offset, s.tasks id = some (.writing rel data offset) → parts rel = p →
      data.length ≤ offset) : ∃ rel, (rels rel ∧ isSafe rel = true) ∧ p = parts rel ∧ s.Holds rel p := by
  by_cases hquiet : s.Quiet p
  · obtain ⟨rel, hrel, hpath, hholds⟩ := h.files p content hp
    exact ⟨rel, hrel, hpath, hholds hquiet⟩
  · unfold Cache.Quiet at hquiet
    push Not at hquiet
    obtain ⟨id, rel, data, offset, htask, rfl⟩ := hquiet
    refine ⟨rel, h.known id _ htask, rfl, data, ?_, h.fetched id _ data htask rfl⟩
    have hcontent := (h.writer id rel data offset htask).2
    rw [List.take_of_length_le (hwhole id rel data offset htask rfl)] at hcontent
    exact hcontent

/-- A call may go on to anything that is no write, once its file is whole. -/
theorem Inv.update (h : Inv rels s) (o : Option Task) (hwhole : s.Whole id)
    (hknown : ∀ t, o = some t → rels t.rel ∧ isSafe t.rel = true)
    (hdata : ∀ t data, o = some t → t.data = some data → (t.rel, data) ∈ s.served)
    (hwriting : ∀ rel data offset, o ≠ some (.writing rel data offset))
    (hreturning : ∀ rel, o = some (.returning rel) → (s.files (parts rel)).isSome = true) :
    Inv rels { s with tasks := Function.update s.tasks id o } := by
  have hother (i : Nat) (t : Task) (ht : Function.update s.tasks id o i = some t) :
      i = id ∧ o = some t ∨ i ≠ id ∧ s.tasks i = some t := by
    by_cases hi : i = id
    · subst hi
      rw [Function.update_self] at ht
      exact .inl ⟨rfl, ht⟩
    · rw [Function.update_of_ne hi] at ht
      exact .inr ⟨hi, ht⟩
  have hwriter (i : Nat) (rel : String) (data : Bytes) (offset : Nat)
      (ht : Function.update s.tasks id o i = some (.writing rel data offset)) :
      s.tasks i = some (.writing rel data offset) := by
    obtain ⟨-, ho⟩ | ⟨-, hi⟩ := hother i _ ht
    · exact absurd ho (hwriting rel data offset)
    · exact hi
  refine ⟨?_, ?_, ?_, ?_, ?_, ?_, h.dirs⟩
  · intro i t ht
    obtain ⟨-, ho⟩ | ⟨-, hi⟩ := hother i t ht
    · exact hknown t ho
    · exact h.known i t hi
  · intro i t data ht hd
    obtain ⟨-, ho⟩ | ⟨-, hi⟩ := hother i t ht
    · exact hdata t data ho hd
    · exact h.fetched i t data hi hd
  · exact fun i rel data offset ht => h.writer i rel data offset (hwriter i rel data offset ht)
  · intro i j rel data offset rel' data' offset' hi hj
    exact h.alone i j rel data offset rel' data' offset' (hwriter i _ _ _ hi) (hwriter j _ _ _ hj)
  · intro i rel ht
    obtain ⟨-, ho⟩ | ⟨-, hi⟩ := hother i _ ht
    · exact hreturning rel ho
    · exact h.returning i rel hi
  · intro p content hp
    by_cases hquiet : ∃ i rel data offset, i ≠ id ∧ s.tasks i = some (.writing rel data offset) ∧
        parts rel = p
    · obtain ⟨i, rel, data, offset, hi, htask, rfl⟩ := hquiet
      refine ⟨rel, h.known i _ htask, rfl, fun hq => ?_⟩
      exact absurd rfl (hq i rel data offset (by simpa [Function.update_of_ne hi] using htask))
    · obtain ⟨rel, hrel, hpath, hholds⟩ := h.holds_of_whole hp fun i rel data offset htask hpath => by
        by_cases hi : i = id
        · subst hi
          exact hwhole rel data offset htask
        · exact absurd ⟨i, rel, data, offset, hi, htask, hpath⟩ hquiet
      exact ⟨rel, hrel, hpath, fun _ => hholds⟩

theorem Inv.leave (h : Inv rels s) (hwhole : s.Whole id) : Inv rels (s.leave id) :=
  h.update none hwhole nofun nofun nofun nofun

theorem whole_of_task {t : Task} (ht : s.tasks id = some t)
    (hwriting : ∀ rel data offset, t ≠ .writing rel data offset) : s.Whole id := by
  intro rel data offset htask
  exact absurd (Option.some.inj (ht.symm.trans htask)) (hwriting rel data offset)

theorem whole_of_none (ht : s.tasks id = none) : s.Whole id := by
  intro rel data offset htask
  simp [ht] at htask

/-- A call that is not writing goes on to another point of the same path. -/
theorem Inv.become (h : Inv rels s) {t t' : Task} (ht : s.tasks id = some t) (hwhole : s.Whole id)
    (hrel : t'.rel = t.rel) (hdata : ∀ data, t'.data = some data → (t.rel, data) ∈ s.served)
    (hwriting : ∀ rel data offset, t' ≠ .writing rel data offset)
    (hreturning : ∀ rel, t' = .returning rel → (s.files (parts rel)).isSome = true) :
    Inv rels (s.become id t') := by
  refine h.update (some t') hwhole ?_ ?_ ?_ ?_
  · intro u hu
    obtain rfl := Option.some.inj hu
    rw [hrel]
    exact h.known id t ht
  · intro u data hu hd
    obtain rfl := Option.some.inj hu
    rw [hrel]
    exact hdata data hd
  · exact fun rel data offset hu => hwriting rel data offset (Option.some.inj hu)
  · exact fun rel hu => hreturning rel (Option.some.inj hu)

theorem Inv.call (h : Inv rels s) (rel : String) (hrel : rels rel) : Inv rels (s.call id rel) := by
  unfold Cache.call
  split
  · rename_i hfree
    refine h.update (some (.checking rel)) (whole_of_none hfree.1) ?_ ?_ ?_ ?_
    · intro t ht
      obtain rfl := Option.some.inj ht
      exact ⟨hrel, hfree.2⟩
    · intro t data ht hd
      obtain rfl := Option.some.inj ht
      cases hd
    · exact fun _ _ _ ht => nomatch ht
    · exact fun _ ht => nomatch ht
  · exact h

/-- What exists at a safe path of the run is a file. -/
theorem Inv.isSome_of_exists (hR : Separate rels) (h : Inv rels s) {rel : String} (hrel : rels rel)
    {p : Path} (hp : place rel = some p) (hexists : s.fileExists p = true) :
    (s.files p).isSome = true := by
  obtain hfile | hdir := Bool.or_eq_true_iff.mp hexists
  · exact hfile
  · obtain rfl | ⟨r, hr, habove⟩ := h.dirs p hdir
    · exact absurd hp (hR.inside rel hrel)
    · exact absurd habove (not_above hR hrel hr hp)

theorem Inv.check (hR : Separate rels) (h : Inv rels s) : Inv rels (s.check id) := by
  unfold Cache.check
  split
  · rename_i rel ht
    have hwhole : s.Whole id := whole_of_task ht nofun
    have hknown := h.known id _ ht
    split
    · rename_i hexists
      refine h.become ht hwhole rfl nofun nofun fun r hr => ?_
      obtain rfl := Task.returning.inj hr
      exact h.isSome_of_exists hR hknown.1 (place_safe hknown.2) hexists
    · exact h.become ht hwhole rfl nofun nofun nofun
  · exact h

/-- What has been served before stays served. -/
theorem Inv.serve (h : Inv rels s) (x : String × Bytes) :
    Inv rels { s with served := s.served ++ [x] } := by
  refine ⟨h.known, ?_, h.writer, h.alone, h.returning, ?_, h.dirs⟩
  · exact fun i t data ht hd => List.mem_append_left _ (h.fetched i t data ht hd)
  · intro p content hp
    obtain ⟨rel, hrel, hpath, hholds⟩ := h.files p content hp
    refine ⟨rel, hrel, hpath, fun hq => ?_⟩
    obtain ⟨data, hdata, hserved⟩ := hholds hq
    exact ⟨data, hdata, List.mem_append_left _ hserved⟩

theorem Inv.reply (h : Inv rels s) (data : Option Bytes) : Inv rels (s.reply id data) := by
  unfold Cache.reply
  split
  · rename_i rel data ht
    have hserve := h.serve (rel, data)
    have hwhole : s.Whole id := whole_of_task ht nofun
    have hmaking : Inv rels (Cache.become { s with served := s.served ++ [(rel, data)] } id
        (.making rel data)) := by
      refine hserve.become ht hwhole rfl ?_ nofun nofun
      intro d hd
      obtain rfl := Option.some.inj hd
      exact List.mem_append_right _ List.mem_cons_self
    exact hmaking
  · rename_i rel ht
    exact h.leave (whole_of_task ht nofun)
  · exact h

theorem Inv.mkdir (h : Inv rels s) : Inv rels (s.mkdir id) := by
  unfold Cache.mkdir
  split
  · rename_i rel data ht
    have hwhole : s.Whole id := whole_of_task ht nofun
    have hknown := h.known id _ ht
    split
    · exact h.leave hwhole
    · have hbecome : Inv rels (s.become id (.opening rel data)) := by
        refine h.become ht hwhole rfl ?_ nofun nofun
        exact fun d hd => h.fetched id _ d ht hd
      refine ⟨hbecome.known, hbecome.fetched, hbecome.writer, hbecome.alone, hbecome.returning,
        hbecome.files, fun p hp => ?_⟩
      obtain hold | hnew := Bool.or_eq_true_iff.mp hp
      · exact h.dirs p hold
      · exact .inr ⟨rel, hknown, List.isPrefixOf_iff_prefix.mp hnew⟩
  · exact h

/-- A write to the file of a call, its own alone, leaves the other files as they are. -/
theorem Inv.put (h : Inv rels s) {rel : String} {data : Bytes} (offset : Nat) {t : Task}
    (ht : s.tasks id = some t) (hrel : t.rel = rel) (hdata : t.data = some data)
    (hoffset : offset ≤ data.length)
    (halone : ∀ i rel' data' offset', i ≠ id → s.tasks i = some (.writing rel' data' offset') →
      parts rel' ≠ parts rel) :
    Inv rels ((s.become id (.writing rel data offset)).put (parts rel) (data.take offset)) := by
  subst hrel
  have hother (i : Nat) (u : Task)
      (hu : Function.update s.tasks id (some (.writing t.rel data offset)) i = some u) :
      i = id ∧ u = .writing t.rel data offset ∨ i ≠ id ∧ s.tasks i = some u := by
    by_cases hi : i = id
    · subst hi
      rw [Function.update_self] at hu
      exact .inl ⟨rfl, (Option.some.inj hu).symm⟩
    · rw [Function.update_of_ne hi] at hu
      exact .inr ⟨hi, hu⟩
  refine ⟨?_, ?_, ?_, ?_, ?_, ?_, h.dirs⟩
  · intro i u hu
    obtain ⟨-, rfl⟩ | ⟨-, hi⟩ := hother i u hu
    · exact h.known id t ht
    · exact h.known i u hi
  · intro i u d hu hd
    obtain ⟨-, rfl⟩ | ⟨-, hi⟩ := hother i u hu
    · exact h.fetched id t d ht (hdata.trans hd)
    · exact h.fetched i u d hi hd
  · intro i rel' data' offset' hu
    obtain ⟨-, heq⟩ | ⟨hne, hi⟩ := hother i _ hu
    · cases heq
      exact ⟨hoffset, Function.update_self ..⟩
    · obtain ⟨hle, hfile⟩ := h.writer i rel' data' offset' hi
      exact ⟨hle, (Function.update_of_ne (halone i rel' data' offset' hne hi) ..).trans hfile⟩
  · intro i j rel₁ data₁ offset₁ rel₂ data₂ offset₂ hi hj hparts
    obtain ⟨rfl, heq⟩ | ⟨hni, hi'⟩ := hother i _ hi
    · cases heq
      obtain ⟨rfl, -⟩ | ⟨hnj, hj'⟩ := hother j _ hj
      · rfl
      · exact absurd hparts.symm (halone j _ _ _ hnj hj')
    · obtain ⟨rfl, heq⟩ | ⟨hnj, hj'⟩ := hother j _ hj
      · cases heq
        exact absurd hparts (halone i _ _ _ hni hi')
      · exact h.alone i j rel₁ data₁ offset₁ rel₂ data₂ offset₂ hi' hj' hparts
  · intro i rel' hu
    change (Function.update s.files (parts t.rel) _ (parts rel')).isSome = true
    by_cases hp : parts rel' = parts t.rel
    · rw [hp, Function.update_self]
      rfl
    · rw [Function.update_of_ne hp]
      obtain ⟨-, heq⟩ | ⟨-, hi⟩ := hother i _ hu
      · cases heq
      · exact h.returning i rel' hi
  · intro p content hp
    by_cases hpath : p = parts t.rel
    · subst hpath
      refine ⟨t.rel, h.known id t ht, rfl, fun hq => ?_⟩
      exact absurd rfl (hq id t.rel data offset (Function.update_self ..))
    · change Function.update s.files (parts t.rel) _ p = some content at hp
      rw [Function.update_of_ne hpath] at hp
      obtain ⟨rel', hrel', hpath', hholds⟩ := h.files p content hp
      refine ⟨rel', hrel', hpath', fun hq => ?_⟩
      have hquiet : s.Quiet p := by
        intro i r d o hi
        by_cases hid : i = id
        · subst hid
          obtain rfl := Option.some.inj (ht.symm.trans hi)
          exact fun hr => hpath hr.symm
        · exact hq i r d o ((Function.update_of_ne hid ..).trans hi)
      obtain ⟨d, hd, hserved⟩ := hholds hquiet
      exact ⟨d, (Function.update_of_ne hpath ..).trans hd, hserved⟩

theorem Inv.openFile (h : Inv rels s) (hg : Undisturbed rels s (.openFile id)) :
    Inv rels (s.openFile id) := by
  unfold Cache.openFile
  split
  · rename_i rel data ht
    split
    · exact h.leave (whole_of_task ht nofun)
    · exact h.put 0 ht rfl rfl (Nat.zero_le _)
        fun i rel' data' offset' _ hi => hg rel data ht i rel' data' offset' hi
  · exact h

theorem Inv.write (h : Inv rels s) (n : Nat) : Inv rels (s.write id n) := by
  unfold Cache.write
  split
  · rename_i rel data offset ht
    obtain ⟨hle, hfile⟩ := h.writer id rel data offset ht
    dsimp only
    rw [hfile, Option.getD_some, overwrite_next hle]
    refine h.put _ ht rfl rfl (next_le n hle) fun i rel' data' offset' hne hi hparts => hne ?_
    exact h.alone i id rel' data' offset' rel data offset hi ht hparts
  · exact h

theorem Inv.close (h : Inv rels s) : Inv rels (s.close id) := by
  unfold Cache.close
  split
  · rename_i rel data offset ht
    split
    · rename_i hdone
      refine h.become ht ?_ rfl nofun nofun fun r hr => ?_
      · intro rel' data' offset' ht'
        cases ht.symm.trans ht'
        exact hdone
      · obtain rfl := Task.returning.inj hr
        rw [(h.writer id rel data offset ht).2]
        rfl
    · exact h
  · exact h

theorem Inv.ret (h : Inv rels s) : Inv rels (s.ret id) := by
  unfold Cache.ret
  split
  · rename_i rel ht
    exact h.leave (whole_of_task ht nofun)
  · exact h

theorem Inv.kill (h : Inv rels s) (hwhole : ∀ id, s.Whole id) :
    Inv rels { s with tasks := fun _ => none } := by
  refine ⟨nofun, nofun, nofun, nofun, nofun, ?_, h.dirs⟩
  intro p content hp
  obtain ⟨rel, hrel, hpath, hholds⟩ := h.holds_of_whole hp
    fun id rel data offset ht _ => hwhole id rel data offset ht
  exact ⟨rel, hrel, hpath, fun _ => hholds⟩

theorem inv_step (hR : Separate rels) (s : Cache) (a : Act) (h : Inv rels s)
    (hg : Undisturbed rels s a) : Inv rels (s.step a) := by
  cases a with
  | call id rel => exact h.call rel hg
  | check id => exact h.check hR
  | reply id data => exact h.reply data
  | mkdir id => exact h.mkdir
  | openFile id => exact h.openFile hg
  | write id n => exact h.write n
  | close id => exact h.close
  | ret id => exact h.ret
  | fail id => exact h.leave hg
  | kill => exact h.kill hg
  | find rel => exact h

/-- A file that is there and not open is an image of the path it is looked for under. -/
theorem Inv.holds (hR : Separate rels) (h : Inv rels s) {rel : String} (hrel : rels rel) {p : Path}
    (hp : place rel = some p) (hfile : (s.files p).isSome = true) (hquiet : s.Quiet p) :
    s.Holds rel p := by
  obtain ⟨content, hcontent⟩ := Option.isSome_iff_exists.mp hfile
  obtain ⟨r, hr, rfl, hholds⟩ := h.files p content hcontent
  obtain rfl := rel_unique hR hrel hr.1 hp (place_safe hr.2)
  exact hholds hquiet

theorem Inv.serves (hR : Separate rels) (h : Inv rels s) (a : Act) (hg : Undisturbed rels s a) :
    s.Serves a := by
  intro rel p hseen
  cases a with
  | ret id =>
    cases ht : s.tasks id with
    | none => simp [Cache.seen, ht] at hseen
    | some t =>
      cases t with
      | returning r =>
        simp only [Cache.seen, ht, Option.some.injEq, Prod.mk.injEq] at hseen
        obtain ⟨rfl, rfl⟩ := hseen
        obtain ⟨hknown, hsafe⟩ := h.known id _ ht
        exact h.holds hR hknown (place_safe hsafe) (h.returning id r ht) (hg r ht)
      | _ => simp [Cache.seen, ht] at hseen
  | find r =>
    cases hplace : place r with
    | none => simp [Cache.seen, hplace] at hseen
    | some q =>
      by_cases hexists : s.fileExists q = true
      · simp only [Cache.seen, hplace, hexists, if_true, Option.some.injEq, Prod.mk.injEq] at hseen
        obtain ⟨rfl, rfl⟩ := hseen
        have hfile := h.isSome_of_exists hR hg.1 hplace hexists
        exact h.holds hR hg.1 hplace hfile (hg.2 q hplace)
      · simp [Cache.seen, hplace, hexists] at hseen
  | _ => cases hseen

end Invariant

/-- The cache serves whole images of its paths in every run in which no call that writes
a file is disturbed, under paths that lead to different files. -/
theorem serves_run (rels : String → Prop) (hR : Separate rels) (acts : List Act)
    (hg : Guarded Cache.step (Undisturbed rels) .new acts) :
    Along Cache.step (fun s a _ => s.Serves a) .new acts :=
  along_run (inv_step hR) (fun _ a h hu => h.serves hR a hu) _ acts inv_new hg

section Samples

def onlyA (rel : String) : Prop := rel = "a.png"

theorem separate_onlyA : Separate onlyA where
  apart r r' _ _ hr hr' hne := absurd (hr.trans hr'.symm) hne
  inside r hr := by
    obtain rfl : r = "a.png" := hr
    decide +kernel

/-- The first steps of a fetch, to where its file is opened. -/
def opening : List Act := [.call 0 "a.png", .check 0, .reply 0 (some [1, 2]), .mkdir 0]

/-- One call has begun, and it is not writing. -/
theorem quiet_of_others {s : Cache} {p : Path} (h : ∀ i, i ≠ 0 → s.tasks i = none)
    (h0 : ∀ rel data offset, s.tasks 0 ≠ some (.writing rel data offset)) : s.Quiet p := by
  intro i rel data offset ht
  by_cases hi : i = 0
  · subst hi
    exact absurd ht (h0 rel data offset)
  · simp [h i hi] at ht

theorem tasks_opening (i : Nat) : (run Cache.step .new opening).tasks i =
    if i = 0 then some (.opening "a.png" [1, 2]) else none := by
  by_cases hi : i = 0
  · subst hi
    rfl
  · simp only [hi, if_false]
    exact (Function.update_of_ne hi ..).trans ((Function.update_of_ne hi ..).trans
      ((Function.update_of_ne hi ..).trans (Function.update_of_ne hi ..)))

theorem tasks_written (i : Nat) : (run Cache.step .new (opening ++ [.openFile 0, .write 0 2])).tasks i =
    if i = 0 then some (.writing "a.png" [1, 2] 2) else none := by
  by_cases hi : i = 0
  · subst hi
    rfl
  · have hopening := tasks_opening i
    rw [if_neg hi] at hopening ⊢
    exact (Function.update_of_ne hi ..).trans ((Function.update_of_ne hi ..).trans hopening)

/-- A process that is killed with its file written leaves an image to the next one. -/
theorem image_served_sample : Along Cache.step (fun s a _ => s.Serves a) .new
    (opening ++ [.openFile 0, .write 0 2, .kill, .find "a.png"]) := by
  refine serves_run onlyA separate_onlyA _ ⟨rfl, trivial, trivial, trivial, ?_, trivial, ?_, ⟨rfl, ?_⟩, trivial⟩
  · intro rel data _
    refine quiet_of_others (fun i hi => (tasks_opening i).trans (if_neg hi)) fun r d o ht => ?_
    cases (tasks_opening 0).symm.trans ht
  · intro i rel data offset ht
    have htask := (tasks_written i).symm.trans ht
    by_cases hi : i = 0
    · rw [if_pos hi] at htask
      cases htask
      decide
    · rw [if_neg hi] at htask
      cases htask
  · exact fun _ _ => nofun

/-- A process that is killed after it has opened its file leaves an empty one. -/
theorem killed_serves_part : ¬ ∀ acts : List Act,
    Along Cache.step (fun s a _ => s.Serves a) .new acts := by
  intro h
  have hrun := (along_append (P := fun s a _ => Cache.Serves s a) _ opening _).mp
    (h (opening ++ [.openFile 0, .kill, .find "a.png"]))
  have hserves := hrun.2.2.2.1
  obtain ⟨data, hfile, hserved⟩ := hserves "a.png" (parts "a.png") (by decide +kernel)
  have hempty : data = [] := Option.some.inj (hfile.symm.trans (by decide +kernel))
  subst hempty
  exact absurd hserved (by decide +kernel)

end Samples

end MemoryArchive.Storage.ImageCache
