import MemoryArchive.Ipc.Files
import MemoryArchive.Json.Separators
import MemoryArchive.Reasoning.Readers

namespace MemoryArchive.Ipc.Uploads

open Json (Fields numbers mapFields mapNumbers putSorted)
open Reasoning (ReasoningEntry Text stripLines readEntries loaderReadReasoning scaffolderReadReasoning
  existingEntries stepId)

/-- An object in key order, each key with its last value. -/
def normal (fields : Fields) : Fields := Json.rebuildFields putSorted [] fields

/-- The object with the source set to human. -/
def withHuman (fields : Fields) : Fields := putSorted "source" (.str "human") (normal fields)

def jsonObject (line : Text) : Option Fields :=
  match Json.parse line with
  | some (.obj fields) => some fields
  | _ => none

/-- The objects of the lines that are not blank. -/
def objects (text : Text) : Option (List Fields) :=
  (stripLines Lines.trim (Lines.lines text)).mapM jsonObject

section Upload

-- What serde_json keeps of a number, unless it is out of range, and what it and
-- Python's json say of a text that they cannot read.
variable (held : Json.Number → Option Json.Number) (serdeError : Text → String) (decodeError : Text → String)

def keep (n : Json.Number) : Json.Number := (held n).getD n

/-- The values that serde_json reads: at most 127 levels, and numbers in range. -/
def InRange (j : Json) : Prop :=
  Json.depth j ≤ 127 ∧ ∀ n ∈ numbers j, (held n).isSome = true

instance (j : Json) : Decidable (InRange held j) := inferInstanceAs (Decidable (_ ∧ _))

/-- Read a text as a `serde_json::Map`. -/
def mapFromStr (text : Text) : Option Fields :=
  match jsonObject text with
  | some fields =>
      if InRange held (.obj fields) then some (normal (mapFields (keep held) fields)) else none
  | none => none

def humanLines : Nat → List Text → Except String (List Text)
  | _, [] => .ok []
  | lineNo, line :: rest =>
      let line := Lines.trim line
      if line = [] then humanLines (lineNo + 1) rest
      else
        match mapFromStr held line with
        | none => .error s!"Line {lineNo}: not valid JSON: {serdeError line}"
        | some obj =>
            let out := Json.print .compact 0 (.obj (putSorted "source" (.str "human") obj))
            (humanLines (lineNo + 1) rest).map (out :: ·)

def enforceReasoningSourceHuman (bytes : ByteArray) : Except String ByteArray :=
  match decodeUtf8 bytes with
  | none => .error "reasoning.jsonl is not valid UTF-8"
  | some text =>
      match humanLines held serdeError 1 (Lines.lines text) with
      | .error e => .error e
      | .ok [] => .error "reasoning.jsonl upload contains no valid entries"
      | .ok out => .ok (encodeUtf8 (Lines.unlines out))

/-- The bytes are UTF-8 and hold some JSON objects, one on each line that is not
blank. -/
def Holds (bytes : ByteArray) (objs : List Fields) : Prop :=
  objs ≠ [] ∧ ∃ text, decodeUtf8 bytes = some text ∧ objects text = some objs

/-- The same object with the source set to human. -/
def Human (fields out : Fields) : Prop := Json.SameValues (.obj (withHuman fields)) (.obj out)

/-- Every reader of reasoning.jsonl finds an entry on each line. The scaffolder
sorts them, and the annotation screen keeps them by step. -/
def Readable (text : Text) (outs : List Fields) : Prop :=
  outs.map (fun out => ReasoningEntry.fromJson (.obj out)) = (readEntries (some text)).map some ∧
    loaderReadReasoning decodeError (some text) = .ok (outs.map .obj) ∧
    (∃ entries, scaffolderReadReasoning decodeError (some text) = .ok entries ∧
      entries.Perm (outs.map .obj)) ∧
    ∃ rows, rows.map Prod.snd = outs.map Json.obj ∧ (∀ r ∈ rows, stepId r.2 = some r.1) ∧
      existingEntries (some text) = some (Table.ofRows rows)

/-- What an accepted upload of some objects is rewritten to. -/
def Rewritten (objs : List Fields) (bytes : ByteArray) : Prop :=
  ∃ outs, bytes = encodeUtf8 (Json.render .compact (outs.map .obj)) ∧ List.Forall₂ Human objs outs ∧
    enforceReasoningSourceHuman held serdeError bytes = .ok bytes ∧
    Readable decodeError (Json.render .compact (outs.map .obj)) outs

/-- An upload is refused just when it does not hold objects, and else rewritten
object for object. -/
def RewritesFaithfully (bytes : ByteArray) : Prop :=
  match enforceReasoningSourceHuman held serdeError bytes with
  | .error _ => ∀ objs, ¬ Holds bytes objs
  | .ok out => ∃ objs, Holds bytes objs ∧ Rewritten held serdeError decodeError objs out

/-- An object that the rewriting carries over: serde_json reads it, with the exact
value of each number and the same number the next time; it has the fields of an
entry, and no string of it a line separator. -/
structure Faithful (fields : Fields) : Prop where
  inRange : InRange held (.obj fields)
  exact : ∀ n ∈ numbers (.obj (withHuman fields)), (keep held n).value = n.value
  stable : ∀ n ∈ numbers (.obj (withHuman fields)), held (keep held n) = some (keep held n)
  entry : (ReasoningEntry.fromJson (mapNumbers (keep held) (.obj (withHuman fields)))).isSome = true
  oneLine : Json.allChars (fun c => !Lines.isSeparator c) (.obj (withHuman fields)) = true

def Clean (bytes : ByteArray) : Prop :=
  ∀ objs, Holds bytes objs → ∀ fields ∈ objs, Faithful held fields

end Upload

theorem jsonObject_eq {line : Text} {fields : Fields} :
    jsonObject line = some fields ↔ Json.parse line = some (.obj fields) := by
  unfold jsonObject
  split
  · rename_i fields' h
    rw [h, Option.some.injEq, Option.some.injEq, Json.obj.injEq]
  · rename_i hno
    refine iff_of_false (by simp) fun h => hno fields h

theorem objects_render (outs : List Fields) :
    objects (Json.render .compact (outs.map .obj)) = some outs := by
  have hobj : ∀ j ∈ outs.map Json.obj, ∃ fields, j = Json.obj fields := by
    intro j hj
    obtain ⟨fields, -, rfl⟩ := List.mem_map.mp hj
    exact ⟨fields, rfl⟩
  have hlines : stripLines Lines.trim (Lines.lines (Json.render .compact (outs.map .obj))) =
      (outs.map Json.obj).map (Json.print .compact 0) := by
    rw [Json.lines_render Json.oneLine_compact]
    exact Reasoning.stripLines_print Lines.isWhiteSpace rfl rfl .compact _ hobj
  rw [objects, hlines]
  clear hobj hlines
  induction outs with
  | nil => rfl
  | cons out outs ih =>
    have hout : jsonObject (Json.print .compact 0 (.obj out)) = some out :=
      jsonObject_eq.mpr (Json.parse_print .compact 0 (.obj out))
    rw [List.map_cons, List.map_cons, List.mapM_cons, hout, ih]
    rfl

theorem putSorted_putSorted (k : String) (v : Json) (fields : Fields) :
    putSorted k v (putSorted k v fields) = putSorted k v fields := by
  unfold putSorted
  induction fields with
  | nil => simp [insertRow]
  | cons field fields ih =>
    obtain ⟨k', v'⟩ := field
    simp only [insertRow]
    split
    · simp [insertRow]
    · split
      · simp [insertRow]
      · rename_i hne hlt
        rw [insertRow, if_neg hne, if_neg hlt, ih]

theorem sorted_withHuman (fields : Fields) : Json.Sorted (.obj (withHuman fields)) := by
  have hnormal : Json.Sorted (.obj (normal fields)) := by
    have h := Json.sorted_rebuild (.obj fields)
    rwa [Json.rebuild] at h
  exact Json.keeps_putSorted "source" (.str "human") (normal fields) hnormal.1 hnormal.2 trivial

section Numbers

variable (f : Json.Number → Json.Number)

/-- An object keeps its order whatever becomes of its numbers. -/
theorem sorted_mapNumbers {j : Json} (h : j.Sorted) : (mapNumbers f j).Sorted := by
  have hrebuild := Json.rebuild_mapNumbers f j
  rw [Json.rebuild_putSorted j h] at hrebuild
  exact hrebuild ▸ Json.sorted_rebuild (mapNumbers f j)

theorem normal_mapFields (fields : Fields) : normal (mapFields f fields) = mapFields f (normal fields) :=
  Json.rebuild_mapFields f fields []

/-- Setting the source again changes nothing. -/
theorem withHuman_mapFields (fields : Fields) :
    withHuman (mapFields f (withHuman fields)) = mapFields f (withHuman fields) := by
  have hsorted := sorted_mapNumbers f (sorted_withHuman fields)
  rw [mapNumbers] at hsorted
  have hnormal := Json.rebuild_putSorted _ hsorted
  rw [Json.rebuild, Json.obj.injEq] at hnormal
  rw [withHuman, normal, hnormal, withHuman, Json.mapFields_putSorted, mapNumbers, putSorted_putSorted]

end Numbers

section Rewriting

variable (held : Json.Number → Option Json.Number) (serdeError : Text → String) (decodeError : Text → String)

/-- The object that is written for an object. -/
def rewritten (fields : Fields) : Fields := mapFields (keep held) (withHuman fields)

theorem mapFromStr_eq {line : Text} {obj : Fields} : mapFromStr held line = some obj ↔
    ∃ fields, jsonObject line = some fields ∧ InRange held (.obj fields) ∧
      obj = mapFields (keep held) (normal fields) := by
  unfold mapFromStr
  split
  · rename_i fields hfields
    split
    · rename_i hrange
      rw [normal_mapFields, Option.some.injEq]
      constructor
      · rintro rfl
        exact ⟨fields, hfields, hrange, rfl⟩
      · rintro ⟨fields', hfields', -, rfl⟩
        cases hfields.symm.trans hfields'
        rfl
    · rename_i hrange
      refine iff_of_false (by simp) ?_
      rintro ⟨fields', hfields', hrange', -⟩
      cases hfields.symm.trans hfields'
      exact hrange hrange'
  · rename_i hnone
    refine iff_of_false (by simp) ?_
    rintro ⟨fields', hfields', -⟩
    cases hnone.symm.trans hfields'

theorem humanLines_eq (lineNo : Nat) (ls outs : List Text) :
    humanLines held serdeError lineNo ls = .ok outs ↔
      ∃ objs, (stripLines Lines.trim ls).mapM jsonObject = some objs ∧
        (∀ fields ∈ objs, InRange held (.obj fields)) ∧
        outs = (objs.map fun fields => Json.obj (rewritten held fields)).map (Json.print .compact 0) := by
  induction ls generalizing lineNo outs with
  | nil =>
    constructor
    · intro h
      cases h
      exact ⟨[], rfl, fun _ h => (by cases h), rfl⟩
    · rintro ⟨objs, hobjs, -, rfl⟩
      cases hobjs
      rfl
  | cons line ls ih =>
    rw [humanLines]
    by_cases hblank : Lines.trim line = []
    · have hstrip : stripLines Lines.trim (line :: ls) = stripLines Lines.trim ls := by
        simp [stripLines, hblank]
      rw [if_pos hblank, hstrip]
      exact ih (lineNo + 1) outs
    · have hstrip : stripLines Lines.trim (line :: ls) = Lines.trim line :: stripLines Lines.trim ls := by
        simp [stripLines, hblank]
      rw [if_neg hblank, hstrip, List.mapM_cons]
      cases hread : mapFromStr held (Lines.trim line) with
      | none =>
        refine iff_of_false (by simp) ?_
        rintro ⟨objs, hobjs, hrange, -⟩
        simp only [Option.bind_eq_bind, Option.bind_eq_some_iff, Option.pure_def, Option.some.injEq] at hobjs
        obtain ⟨fields, hfields, rest, -, rfl⟩ := hobjs
        have hsome := (mapFromStr_eq held).mpr ⟨fields, hfields, hrange fields List.mem_cons_self, rfl⟩
        rw [hread] at hsome
        cases hsome
      | some obj =>
        obtain ⟨fields, hfields, hrange, rfl⟩ := (mapFromStr_eq held).mp hread
        have hobj : putSorted "source" (.str "human") (mapFields (keep held) (normal fields)) =
            rewritten held fields := by
          rw [rewritten, withHuman, Json.mapFields_putSorted, mapNumbers]
        dsimp only
        rw [hobj, hfields]
        simp only [Option.bind_eq_bind, Option.bind_some, Option.bind_eq_some_iff, Option.pure_def,
          Option.some.injEq]
        constructor
        · intro h
          cases hrest : humanLines held serdeError (lineNo + 1) ls with
          | error e =>
            rw [hrest] at h
            cases h
          | ok outs' =>
            rw [hrest] at h
            cases h
            obtain ⟨objs, hobjs, hranges, rfl⟩ := (ih (lineNo + 1) outs').mp hrest
            exact ⟨fields :: objs, ⟨objs, hobjs, rfl⟩, List.forall_mem_cons.mpr ⟨hrange, hranges⟩, rfl⟩
        · rintro ⟨-, ⟨objs, hobjs, rfl⟩, hranges, rfl⟩
          rw [(ih (lineNo + 1) _).mpr ⟨objs, hobjs, (List.forall_mem_cons.mp hranges).2, rfl⟩]
          rfl

theorem enforce_eq (bytes out : ByteArray) :
    enforceReasoningSourceHuman held serdeError bytes = .ok out ↔
      ∃ objs, Holds bytes objs ∧ (∀ fields ∈ objs, InRange held (.obj fields)) ∧
        out = encodeUtf8 (Json.render .compact (objs.map fun fields => .obj (rewritten held fields))) := by
  unfold enforceReasoningSourceHuman Holds
  cases htext : decodeUtf8 bytes with
  | none => exact iff_of_false (by simp) (by simp)
  | some text =>
    have hlines := humanLines_eq held serdeError 1 (Lines.lines text)
    dsimp only
    cases hread : humanLines held serdeError 1 (Lines.lines text) with
    | error e =>
      refine iff_of_false (by simp) ?_
      rintro ⟨objs, ⟨-, text', htext', hobjs⟩, hrange, -⟩
      cases htext'
      have hok := (hlines _).mpr ⟨objs, hobjs, hrange, rfl⟩
      rw [hread] at hok
      cases hok
    | ok outs =>
      obtain ⟨objs, hobjs, hrange, rfl⟩ := (hlines outs).mp hread
      cases objs with
      | nil =>
        refine iff_of_false (by simp) ?_
        rintro ⟨objs, ⟨hne, text', htext', hobjs'⟩, -⟩
        cases htext'
        exact hne (Option.some.inj (hobjs'.symm.trans hobjs))
      | cons fields objs =>
        constructor
        · intro h
          exact ⟨fields :: objs, ⟨List.cons_ne_nil _ _, text, rfl, hobjs⟩, hrange, (Except.ok.inj h).symm⟩
        · rintro ⟨objs', ⟨-, text', htext', hobjs'⟩, -, rfl⟩
          cases htext'
          cases hobjs.symm.trans hobjs'
          rfl

theorem encodeUtf8_inj {text text' : Text} (h : encodeUtf8 text = encodeUtf8 text') : text = text' := by
  have hdecode := congrArg decodeUtf8 h
  rwa [decodeUtf8_encode, decodeUtf8_encode, Option.some.injEq] at hdecode

theorem render_inj {outs outs' : List Fields}
    (h : Json.render .compact (outs.map .obj) = Json.render .compact (outs'.map .obj)) : outs = outs' := by
  have hobjects := congrArg objects h
  rwa [objects_render, objects_render, Option.some.injEq] at hobjects

theorem depth_withHuman (fields : Fields) : Json.depth (.obj (withHuman fields)) ≤ Json.depth (.obj fields) := by
  have hnormal := Json.depth_rebuildFields fields []
  have hput := Json.depthFields_putSorted "source" (.str "human") (normal fields)
  rw [← normal] at hnormal
  simp only [withHuman, Json.depth, Json.depthFields] at hnormal hput ⊢
  omega

/-- A rewritten object is rewritten to itself when serde_json reads its numbers back. -/
theorem again_iff {fields : Fields} (hrange : InRange held (.obj fields)) :
    InRange held (.obj (rewritten held fields)) ∧ rewritten held (rewritten held fields) = rewritten held fields ↔
      ∀ n ∈ numbers (.obj (withHuman fields)), held (keep held n) = some (keep held n) := by
  have hdepth : Json.depth (.obj (rewritten held fields)) ≤ 127 := by
    have hmap := Json.depth_mapNumbers (keep held) (.obj (withHuman fields))
    rw [mapNumbers] at hmap
    rw [rewritten, hmap]
    exact Nat.le_trans (depth_withHuman fields) hrange.1
  have hsame : rewritten held (rewritten held fields) = rewritten held fields ↔
      ∀ n ∈ Json.numbersFields (withHuman fields), keep held (keep held n) = keep held n := by
    rw [rewritten, rewritten, withHuman_mapFields, Json.mapFields_eq_self, Json.numbers_mapFields,
      List.forall_mem_map]
  have hnumbers : Json.numbers (.obj (rewritten held fields)) =
      (Json.numbersFields (withHuman fields)).map (keep held) := by
    rw [Json.numbers, rewritten, Json.numbers_mapFields]
  have hread : ∀ n, held n = some n ↔ (held n).isSome = true ∧ keep held n = n := by
    intro n
    rw [keep]
    cases held n <;> simp
  rw [InRange, hnumbers, List.forall_mem_map, hsame, Json.numbers]
  constructor
  · rintro ⟨⟨-, hsome⟩, hkeep⟩ n hn
    exact (hread _).mpr ⟨hsome n hn, hkeep n hn⟩
  · intro h
    exact ⟨⟨hdepth, fun n hn => ((hread _).mp (h n hn)).1⟩, fun n hn => ((hread _).mp (h n hn)).2⟩

/-- Rewriting a rewritten upload changes nothing just when that holds of each object. -/
theorem enforce_again {objs : List Fields} (hne : objs ≠ [])
    (hrange : ∀ fields ∈ objs, InRange held (.obj fields)) :
    enforceReasoningSourceHuman held serdeError
        (encodeUtf8 (Json.render .compact ((objs.map (rewritten held)).map .obj))) =
          .ok (encodeUtf8 (Json.render .compact ((objs.map (rewritten held)).map .obj))) ↔
      ∀ fields ∈ objs, ∀ n ∈ numbers (.obj (withHuman fields)), held (keep held n) = some (keep held n) := by
  have hout : ∀ outs : List Fields, (outs.map fun fields => Json.obj (rewritten held fields)) =
      (outs.map (rewritten held)).map .obj := fun outs => (List.map_map ..).symm
  have hagain : (∀ fields ∈ objs, ∀ n ∈ numbers (.obj (withHuman fields)),
      held (keep held n) = some (keep held n)) ↔ ∀ fields ∈ objs,
        InRange held (.obj (rewritten held fields)) ∧
          rewritten held (rewritten held fields) = rewritten held fields :=
    forall₂_congr fun fields hfields => (again_iff held (hrange fields hfields)).symm
  rw [enforce_eq, hagain]
  constructor
  · rintro ⟨outs, ⟨-, text, htext, hobjects⟩, hranges, heq⟩
    rw [decodeUtf8_encode, Option.some.injEq] at htext
    subst htext
    rw [objects_render, Option.some.injEq] at hobjects
    subst hobjects
    rw [hout] at heq
    have hfix := render_inj (encodeUtf8_inj heq)
    rw [List.map_map, List.map_inj_left] at hfix
    intro fields hfields
    exact ⟨hranges _ (List.mem_map_of_mem hfields), (hfix fields hfields).symm⟩
  · intro h
    refine ⟨objs.map (rewritten held), ⟨by simpa using hne, _, decodeUtf8_encode _, objects_render _⟩, ?_, ?_⟩
    · exact List.forall_mem_map.mpr fun fields hfields => (h fields hfields).1
    · have hfix : (objs.map (rewritten held)).map (rewritten held) = objs.map (rewritten held) := by
        rw [List.map_map]
        exact List.map_congr_left fun fields hfields => (h fields hfields).2
      rw [hout, hfix]

theorem human_iff (fields : Fields) : Human fields (rewritten held fields) ↔
    ∀ n ∈ numbers (.obj (withHuman fields)), (keep held n).value = n.value := by
  have h := Json.sameValues_mapNumbers (keep held) (.obj (withHuman fields))
  rwa [mapNumbers] at h

end Rewriting

section Reading

variable {outs : List Fields}

theorem filterMap_map_iff {α β : Type} (f : α → Option β) (l : List α) :
    l.map f = (l.filterMap f).map some ↔ ∀ a ∈ l, (f a).isSome = true := by
  induction l with
  | nil => simp
  | cons a l ih =>
    rw [List.map_cons, List.filterMap_cons, List.forall_mem_cons]
    cases hfa : f a with
    | none =>
      refine iff_of_false (fun h => ?_) (by simp)
      have hmem : none ∈ (l.filterMap f).map some := h ▸ List.mem_cons_self
      simp at hmem
    | some b => simp [ih]

theorem noReturn_render (js : List Json) : '\r' ∉ Json.render .compact js := by
  have hcovers : Json.Covers (fun _ => true) (fun c => c ≠ '\r') .compact := by
    have hge : ∀ c : Char, 0x20 ≤ c.toNat → decide (c ≠ '\r') = true := by
      intro c hc
      refine decide_eq_true ?_
      rintro rfl
      revert hc
      decide
    exact Json.covers_oneLine Json.oneLine_compact
      (fun c h => hge c (Json.toNat_of_printable c h).1) (fun c _ h => hge c h)
  intro hmem
  obtain ⟨l, hl, hc⟩ := List.mem_flatMap.mp hmem
  obtain ⟨j, -, rfl⟩ := List.mem_map.mp hl
  obtain hc | hc := List.mem_append.mp hc
  · have hall := Json.all_print hcovers 0 j (Json.allChars_true j)
    simpa using List.all_eq_true.mp hall '\r' hc
  · simp at hc

/-- The loader makes an entry of every piece that is not blank. -/
theorem length_readLines (decodeError : Text → String) (error : String → Reasoning.ReadError)
    {lineno : Nat} {pieces : List Text} {entries : List Json}
    (h : Reasoning.readLines decodeError error lineno pieces = .ok entries) :
    entries.length = Lines.filled Lines.isPySpace pieces := by
  induction pieces generalizing lineno entries with
  | nil =>
    cases h
    rfl
  | cons piece pieces ih =>
    rw [Reasoning.readLines] at h
    by_cases hblank : Lines.pyStrip piece = []
    · rw [if_pos hblank] at h
      have hstrip : Lines.strip Lines.isPySpace piece = [] := hblank
      rw [ih h, Lines.filled, Lines.filled, List.countP_cons_of_neg (by simp [hstrip])]
    · rw [if_neg hblank] at h
      have hstrip : Lines.strip Lines.isPySpace piece ≠ [] := hblank
      split at h
      · cases h
      · cases hrest : Reasoning.readLines decodeError error (lineno + 1) pieces with
        | error e =>
          rw [hrest] at h
          cases h
        | ok rest =>
          rw [hrest] at h
          cases h
          rw [List.length_cons, ih hrest, Lines.filled, Lines.filled,
            List.countP_cons_of_pos (by simp [hstrip])]

theorem loads_sorted {j : Json} (h : j.Sorted) : Reasoning.loads (Json.print .compact 0 j) = some j := by
  rw [Reasoning.loads, Json.parse_print, Option.map_some, Json.rebuild_putDict j h.distinct]

theorem readLines_objects (decodeError : Text → String) (error : String → Reasoning.ReadError)
    (hsorted : ∀ out ∈ outs, Json.Sorted (.obj out)) (lineno : Nat) :
    Reasoning.readLines decodeError error lineno ((outs.map Json.obj).map (Json.print .compact 0)) =
      .ok (outs.map .obj) := by
  induction outs generalizing lineno with
  | nil => rfl
  | cons out outs ih =>
    obtain ⟨hout, houts⟩ := List.forall_mem_cons.mp hsorted
    have hstrip : Lines.pyStrip (Json.print .compact 0 (.obj out)) = Json.print .compact 0 (.obj out) :=
      Json.strip_print_obj Lines.isPySpace rfl rfl .compact out
    simp only [List.map_cons, Reasoning.readLines, hstrip, if_neg (Reasoning.print_obj_ne_nil .compact out),
      loads_sorted hout, ih houts (lineno + 1)]
    rfl

theorem readFile_objects (decodeError : Text → String) (error : String → Reasoning.ReadError)
    (hsorted : ∀ out ∈ outs, Json.Sorted (.obj out))
    (hline : ∀ out ∈ outs, Json.allChars (fun c => !Lines.isSeparator c) (.obj out) = true) :
    Reasoning.readFile decodeError error (some (Json.render .compact (outs.map .obj))) =
      .ok (outs.map .obj) := by
  rw [Reasoning.readFile, Json.splitlines_render Json.oneLine_compact _ (List.forall_mem_map.mpr hline)]
  exact readLines_objects decodeError error hsorted 1

/-- The loader finds the objects just when no line is cut. -/
theorem loader_iff (decodeError : Text → String) (hsorted : ∀ out ∈ outs, Json.Sorted (.obj out)) :
    loaderReadReasoning decodeError (some (Json.render .compact (outs.map .obj))) = .ok (outs.map .obj) ↔
      ∀ out ∈ outs, Json.allChars (fun c => !Lines.isSeparator c) (.obj out) = true := by
  constructor
  · intro h
    have hread := length_readLines decodeError .load h
    rw [Lines.readText_eq_self _ (noReturn_render _)] at hread
    have hbraces : ∀ l ∈ (outs.map Json.obj).map (Json.print .compact 0), ∃ first body last,
        l = first :: body ++ [last] ∧ Lines.isPySpace first = false ∧ Lines.isPySpace last = false := by
      intro l hl
      simp only [List.mem_map] at hl
      obtain ⟨-, ⟨out, -, rfl⟩, rfl⟩ := hl
      rw [Json.print]
      exact ⟨'{', _, '}', rfl, rfl, rfl⟩
    have hlines := (Lines.filled_unlines Lines.pySpace_of_pyBreak rfl _ hbraces).2
      (Nat.le_of_eq (hread.symm.trans (List.length_map _).symm))
    intro out hout
    have hall := hlines _ (List.mem_map_of_mem (List.mem_map_of_mem hout))
    refine Json.allChars_of_print Json.literal_separator .compact 0 _ ?_
    refine List.all_eq_true.mpr fun c hc => ?_
    have hbreak := List.all_eq_true.mp hall c hc
    simp only [Lines.isPyBreak, Bool.not_or, Bool.and_eq_true] at hbreak
    exact hbreak.2
  · intro h
    exact readFile_objects decodeError .load hsorted h

theorem lookup_eq_head (key : String) (fields : Fields) :
    fields.lookup key = (Reasoning.occurrences key fields).head? := by
  induction fields with
  | nil => rfl
  | cons r fields ih =>
    obtain ⟨k, v⟩ := r
    rw [Table.lookup_cons_ite, Reasoning.occurrences_cons]
    by_cases hk : key = k
    · rw [if_pos hk, if_pos hk.symm]
      rfl
    · rw [if_neg hk, if_neg (Ne.symm hk), ih]

theorem toInt?_of_toNat? {n : Json.Number} {v : Nat} (h : n.toNat? = some v) : n.toInt? = some (v : Int) := by
  unfold Json.Number.toNat? at h
  split at h
  · rename_i hall
    unfold Json.Number.toInt?
    split
    · rename_i ds hds
      rw [hds] at hall
      cases hall
    · rw [if_pos hall]
      cases h
      rfl
  · cases h

/-- An entry has its step id where the Python readers look for it. -/
theorem stepId_of_entry {out : Fields} (h : (ReasoningEntry.fromJson (.obj out)).isSome = true) :
    ∃ k, stepId (.obj out) = some k := by
  obtain ⟨e, he⟩ := Option.isSome_iff_exists.mp h
  obtain ⟨v, hv, -⟩ := Option.bind_eq_some_iff.mp he
  have hlookup := lookup_eq_head "step_id" out
  unfold Reasoning.required at hv
  split at hv
  · rename_i j hone
    rw [hone] at hlookup
    cases j with
    | num n =>
      obtain ⟨m, hm, -⟩ := Option.bind_eq_some_iff.mp hv
      exact ⟨m, Option.bind_eq_some_iff.mpr ⟨.num n, hlookup, toInt?_of_toNat? hm⟩⟩
    | _ => cases hv
  · cases hv

/-- The scaffolder finds entries, in the order of their steps. -/
theorem scaffolder_entries (decodeError : Text → String) (hsorted : ∀ out ∈ outs, Json.Sorted (.obj out))
    (hline : ∀ out ∈ outs, Json.allChars (fun c => !Lines.isSeparator c) (.obj out) = true)
    (hentry : ∀ out ∈ outs, (ReasoningEntry.fromJson (.obj out)).isSome = true) :
    ∃ entries, scaffolderReadReasoning decodeError (some (Json.render .compact (outs.map .obj))) =
      .ok entries ∧ entries.Perm (outs.map .obj) := by
  have hkeys : ∃ rows : List (Int × Json), rows.map Prod.snd = outs.map Json.obj ∧
      (outs.map Json.obj).mapM (fun e => (Reasoning.sortKey e).map fun k => (k, e)) = .ok rows := by
    clear hsorted hline
    induction outs with
    | nil => exact ⟨[], rfl, rfl⟩
    | cons out outs ih =>
      obtain ⟨hout, houts⟩ := List.forall_mem_cons.mp hentry
      obtain ⟨rows, hrows, hread⟩ := ih houts
      obtain ⟨k, hk⟩ := stepId_of_entry hout
      obtain ⟨j, hj, hint⟩ := Option.bind_eq_some_iff.mp hk
      have hkey : Reasoning.sortKey (.obj out) = .ok k := by
        simp only [Reasoning.sortKey, hj, hint]
      refine ⟨(k, .obj out) :: rows, by rw [List.map_cons, hrows, List.map_cons], ?_⟩
      rw [List.map_cons, List.mapM_cons, hkey, hread]
      rfl
  obtain ⟨rows, hrows, hread⟩ := hkeys
  refine ⟨(rows.insertionSort fun a b : Int × Json => a.1 ≤ b.1).map Prod.snd, ?_, ?_⟩
  · simp only [scaffolderReadReasoning, readFile_objects decodeError .compile hsorted hline]
    change (do
      let keys ← (outs.map Json.obj).mapM fun e => (Reasoning.sortKey e).map fun k => (k, e)
      Except.ok ((keys.insertionSort fun a b : Int × Json => a.1 ≤ b.1).map Prod.snd)) = _
    rw [hread]
    rfl
  · rw [← hrows]
    exact (List.perm_insertionSort _ rows).map Prod.snd

/-- The annotation screen keeps each entry under its step. -/
theorem existing_entries (hsorted : ∀ out ∈ outs, Json.Sorted (.obj out))
    (hline : ∀ out ∈ outs, Json.allChars (fun c => !Lines.isSeparator c) (.obj out) = true)
    (hentry : ∀ out ∈ outs, (ReasoningEntry.fromJson (.obj out)).isSome = true) :
    ∃ rows : List (Int × Json), rows.map Prod.snd = outs.map Json.obj ∧
      (∀ r ∈ rows, stepId r.2 = some r.1) ∧
      existingEntries (some (Json.render .compact (outs.map .obj))) = some (Table.ofRows rows) := by
  have hobj : ∀ j ∈ outs.map Json.obj, ∃ fields, j = Json.obj fields := by
    intro j hj
    obtain ⟨fields, -, rfl⟩ := List.mem_map.mp hj
    exact ⟨fields, rfl⟩
  rw [existingEntries, Option.getD_some,
    Reasoning.pyLines_render Json.oneLine_compact _ hobj (List.forall_mem_map.mpr hline)]
  have hfold : ∀ found : Table Int Json, ∃ rows : List (Int × Json),
      rows.map Prod.snd = outs.map Json.obj ∧ (∀ r ∈ rows, stepId r.2 = some r.1) ∧
      ((outs.map Json.obj).map (Json.print .compact 0)).foldlM Reasoning.addLine found =
        some (rows.foldl (fun t r => t.insert r.1 r.2) found) := by
    clear hobj hline
    induction outs with
    | nil => exact fun found => ⟨[], rfl, fun _ h => (by cases h), rfl⟩
    | cons out outs ih =>
      intro found
      obtain ⟨hout, houts⟩ := List.forall_mem_cons.mp hentry
      obtain ⟨hsort, hsorts⟩ := List.forall_mem_cons.mp hsorted
      obtain ⟨k, hk⟩ := stepId_of_entry hout
      obtain ⟨rows, hrows, hids, hread⟩ := ih hsorts houts (found.insert k (.obj out))
      have hadd : Reasoning.addLine found (Json.print .compact 0 (.obj out)) =
          some (found.insert k (.obj out)) := by
        simp only [Reasoning.addLine, loads_sorted hsort, hk]
      refine ⟨(k, .obj out) :: rows, by rw [List.map_cons, hrows, List.map_cons],
        List.forall_mem_cons.mpr ⟨hk, hids⟩, ?_⟩
      rw [List.map_cons, List.map_cons, List.foldlM_cons, hadd]
      exact hread
  exact hfold .empty

theorem readable_iff (decodeError : Text → String) (hsorted : ∀ out ∈ outs, Json.Sorted (.obj out)) :
    Readable decodeError (Json.render .compact (outs.map .obj)) outs ↔
      (∀ out ∈ outs, (ReasoningEntry.fromJson (.obj out)).isSome = true) ∧
        ∀ out ∈ outs, Json.allChars (fun c => !Lines.isSeparator c) (.obj out) = true := by
  have hobj : ∀ j ∈ outs.map Json.obj, ∃ fields, j = Json.obj fields := by
    intro j hj
    obtain ⟨fields, -, rfl⟩ := List.mem_map.mp hj
    exact ⟨fields, rfl⟩
  have hrust : outs.map (fun out => ReasoningEntry.fromJson (.obj out)) =
      (readEntries (some (Json.render .compact (outs.map .obj)))).map some ↔
        ∀ out ∈ outs, (ReasoningEntry.fromJson (.obj out)).isSome = true := by
    rw [Reasoning.readEntries_render Json.oneLine_compact _ hobj, List.filterMap_map]
    exact filterMap_map_iff _ outs
  rw [Readable, hrust, loader_iff decodeError hsorted]
  constructor
  · rintro ⟨hentry, hline, -⟩
    exact ⟨hentry, hline⟩
  · rintro ⟨hentry, hline⟩
    exact ⟨hentry, hline, scaffolder_entries decodeError hsorted hline hentry,
      existing_entries hsorted hline hentry⟩

end Reading

section Exact

variable (held : Json.Number → Option Json.Number) (serdeError : Text → String) (decodeError : Text → String)

theorem rewritten_iff {objs : List Fields} (hne : objs ≠ [])
    (hrange : ∀ fields ∈ objs, InRange held (.obj fields)) :
    Rewritten held serdeError decodeError objs
        (encodeUtf8 (Json.render .compact ((objs.map (rewritten held)).map .obj))) ↔
      ∀ fields ∈ objs, Faithful held fields := by
  have hsorted : ∀ out ∈ objs.map (rewritten held), Json.Sorted (.obj out) := by
    refine List.forall_mem_map.mpr fun fields _ => ?_
    have h := sorted_mapNumbers (keep held) (sorted_withHuman fields)
    rwa [mapNumbers] at h
  have hhuman : List.Forall₂ Human objs (objs.map (rewritten held)) ↔
      ∀ fields ∈ objs, ∀ n ∈ numbers (.obj (withHuman fields)), (keep held n).value = n.value := by
    rw [List.forall₂_map_right_iff, List.forall₂_same]
    exact forall₂_congr fun fields _ => human_iff held fields
  have hreadable := readable_iff decodeError hsorted
  have hchars : ∀ fields, Json.allChars (fun c => !Lines.isSeparator c) (.obj (rewritten held fields)) =
      Json.allChars (fun c => !Lines.isSeparator c) (.obj (withHuman fields)) := by
    intro fields
    have h := Json.allChars_mapNumbers (fun c => !Lines.isSeparator c) (keep held) (.obj (withHuman fields))
    rwa [mapNumbers] at h
  have hagain := enforce_again held serdeError hne hrange
  constructor
  · rintro ⟨outs, hbytes, hall, hfix, hread⟩
    obtain rfl := render_inj (encodeUtf8_inj hbytes)
    obtain ⟨hentry, hline⟩ := hreadable.mp hread
    intro fields hfields
    refine ⟨hrange fields hfields, hhuman.mp hall fields hfields, hagain.mp hfix fields hfields, ?_, ?_⟩
    · rw [mapNumbers]
      exact hentry _ (List.mem_map_of_mem hfields)
    · rw [← hchars]
      exact hline _ (List.mem_map_of_mem hfields)
  · intro h
    refine ⟨objs.map (rewritten held), rfl, hhuman.mpr fun fields hfields => (h fields hfields).exact,
      hagain.mpr fun fields hfields => (h fields hfields).stable, hreadable.mpr ⟨?_, ?_⟩⟩
    · refine List.forall_mem_map.mpr fun fields hfields => ?_
      have hentry := (h fields hfields).entry
      rwa [mapNumbers] at hentry
    · refine List.forall_mem_map.mpr fun fields hfields => ?_
      rw [hchars]
      exact (h fields hfields).oneLine

theorem Holds.unique {bytes : ByteArray} {objs objs' : List Fields} (h : Holds bytes objs)
    (h' : Holds bytes objs') : objs = objs' := by
  obtain ⟨-, text, htext, hobjs⟩ := h
  obtain ⟨-, text', htext', hobjs'⟩ := h'
  cases htext.symm.trans htext'
  exact Option.some.inj (hobjs.symm.trans hobjs')

/-- An object that the rewriting does not carry over spoils an upload. -/
theorem not_faithful_of_object {fields : Fields} (hrange : InRange held (.obj fields))
    (h : ¬ Faithful held fields) :
    ¬ RewritesFaithfully held serdeError decodeError (encodeUtf8 (Json.render .compact [.obj fields])) := by
  have hobjs : Holds (encodeUtf8 (Json.render .compact [.obj fields])) [fields] :=
    ⟨List.cons_ne_nil _ _, _, decodeUtf8_encode _, objects_render [fields]⟩
  have hranges : ∀ fields' ∈ [fields], InRange held (.obj fields') := List.forall_mem_singleton.mpr hrange
  have hok := (enforce_eq held serdeError _ _).mpr ⟨[fields], hobjs, hranges, rfl⟩
  unfold RewritesFaithfully
  rw [hok]
  rintro ⟨objs, hobjs', hrewritten⟩
  obtain rfl := hobjs.unique hobjs'
  have hall := (rewritten_iff held serdeError decodeError hobjs.1 hranges).mp hrewritten
  exact h (hall fields (List.mem_singleton_self fields))

/-- Uploads are rewritten faithfully just when each object of them carries over. -/
theorem rewrites_iff (bytes : ByteArray) :
    RewritesFaithfully held serdeError decodeError bytes ↔ Clean held bytes := by
  have heq := enforce_eq held serdeError bytes
  unfold RewritesFaithfully
  split
  · rename_i e herror
    constructor
    · intro h objs hobjs
      exact absurd hobjs (h objs)
    · intro hclean objs hobjs
      have hok := (heq _).mpr ⟨objs, hobjs, fun fields hfields => (hclean objs hobjs fields hfields).inRange, rfl⟩
      rw [herror] at hok
      cases hok
  · rename_i out hok
    obtain ⟨objs, hobjs, hrange, rfl⟩ := (heq out).mp hok
    have hrewritten := rewritten_iff held serdeError decodeError hobjs.1 hrange
    rw [List.map_map] at hrewritten
    constructor
    · rintro ⟨objs', hobjs', h⟩ objs'' hobjs''
      obtain rfl := hobjs.unique hobjs'
      obtain rfl := hobjs.unique hobjs''
      exact hrewritten.mp h
    · intro hclean
      exact ⟨objs, hobjs, hrewritten.mpr (hclean objs hobjs)⟩

/-- An object with nothing but a step id. -/
def bareObject : Fields := [("step_id", .num (.ofNat 1))]

/-- The Rust side passes over an object that lacks fields of an entry, and a
separator in a text makes the loader fail. -/
theorem rewrites_not_faithful :
    ¬ RewritesFaithfully some (fun _ => "") (fun _ => "")
        (encodeUtf8 (Json.render .compact [.obj bareObject])) ∧
      ¬ RewritesFaithfully some (fun _ => "") (fun _ => "")
        (encodeUtf8 (Json.render .compact
          [(Reasoning.sampleEntry 1 "First.\u2028Second.").toJson])) := by
  constructor
  · refine not_faithful_of_object _ _ _ ⟨by decide, fun _ _ => rfl⟩ fun h => ?_
    have hentry := h.entry
    revert hentry
    decide +kernel
  · refine not_faithful_of_object _ _ _ ⟨by decide +kernel, fun _ _ => rfl⟩ fun h => ?_
    have hline := h.oneLine
    revert hline
    decide +kernel

end Exact

end MemoryArchive.Ipc.Uploads
