import Mathlib.Data.List.Sort
import MemoryArchive.Reasoning.SharedFile

namespace MemoryArchive.Reasoning

open Runs

inductive ReadError
  | load (message : String)
  | compile (message : String)
  | attribute
  | type

def notValidJson (lineno : Nat) (e : String) : String :=
  s!"reasoning.jsonl line {lineno} is not valid JSON: {e}"

section Readers

variable (decodeError : Text → String) (error : String → ReadError)

/-- The loop of both `_read_reasoning` functions, which differ in the exception
they raise. The text of a `JSONDecodeError` is a parameter. -/
def readLines : Nat → List Text → Except ReadError (List Json)
  | _, [] => .ok []
  | lineno, line :: rest =>
      let line := Lines.pyStrip line
      if line = [] then readLines (lineno + 1) rest
      else match loads line with
        | none => .error (error (notValidJson lineno (decodeError line)))
        | some j => (readLines (lineno + 1) rest).map (j :: ·)

def readFile : File → Except ReadError (List Json)
  | none => .ok []
  | some text => readLines decodeError error 1 (Lines.splitlines (Lines.readText text))

def loaderReadReasoning (file : File) : Except ReadError (List Json) := readFile decodeError .load file

/-- The key the scaffolder sorts by. A step id that is not an integer does not
compare with one that is. -/
def sortKey (e : Json) : Except ReadError Int :=
  match e with
  | .obj fields =>
      match (Json.obj fields).get? "step_id" with
      | none => .ok 0
      | some j =>
          match asInt j with
          | some k => .ok k
          | none => .error .type
  | _ => .error .attribute

def scaffolderReadReasoning (file : File) : Except ReadError (List Json) := do
  let entries ← readFile decodeError .compile file
  let keys ← entries.mapM fun e => (sortKey e).map fun k => (k, e)
  return (keys.insertionSort fun a b : Int × Json => a.1 ≤ b.1).map Prod.snd

theorem readLines_print (L : Json.Layout) (rows : List (Int × Json))
    (h : ∀ r ∈ rows, Authored r.1 r.2) (lineno : Nat) :
    readLines decodeError error lineno ((rows.map Prod.snd).map (Json.print L 0)) =
      .ok (rows.map Prod.snd) := by
  induction rows generalizing lineno with
  | nil => rfl
  | cons r rows ih =>
    have ha := h r (by simp)
    have ih' := ih (fun r' h' => h r' (List.mem_cons_of_mem r h')) (lineno + 1)
    obtain ⟨fields, hf⟩ := ha.obj
    have hstrip : Lines.pyStrip (Json.print L 0 r.2) = Json.print L 0 r.2 := by
      rw [hf]
      exact Json.strip_print_obj Lines.isPySpace rfl rfl L fields
    have hne : Json.print L 0 r.2 ≠ [] := by
      rw [hf]
      exact print_obj_ne_nil L fields
    simp only [List.map_cons, readLines, hstrip, if_neg hne, loads_print ha L, ih']
    rfl

variable {file : File} {L : Json.Layout} {entries : Table Int Json}

/-- A file with no separator in it is read line by line. -/
theorem readFile_rows (hL : L.OneLine) (rows : List (Int × Json)) (h : ∀ r ∈ rows, Authored r.1 r.2)
    (hf : file.getD [] = Json.render L (rows.map Prod.snd))
    (hs : ∀ r ∈ rows, Json.allChars (fun c => !Lines.isSeparator c) r.2 = true) :
    readFile decodeError error file = .ok (rows.map Prod.snd) := by
  have hlines := Json.splitlines_render hL (rows.map Prod.snd) (List.forall_mem_map.mpr hs)
  have hread := readLines_print decodeError error L rows h 1
  cases file with
  | none =>
    have hnone : Lines.splitlines (Lines.readText (Option.getD none [])) = [] := rfl
    rw [hf, hlines] at hnone
    rw [List.map_eq_nil_iff.mp hnone]
    rfl
  | some text =>
    rw [Option.getD_some] at hf
    rw [readFile, hf, hlines]
    exact hread

theorem readFile_render (hL : L.OneLine) (h : AuthoredTable entries)
    (hf : file.getD [] = Json.render L entries.values)
    (hs : ∀ j ∈ entries.values, Json.allChars (fun c => !Lines.isSeparator c) j = true) :
    readFile decodeError error file = .ok entries.values :=
  readFile_rows decodeError error hL entries.rows (fun _ hr => h.mem hr) hf (List.forall_mem_map.mp hs)

theorem sortKey_authored {k : Int} {j : Json} (h : Authored k j) : sortKey j = .ok k := by
  obtain ⟨fields, rfl⟩ := h.obj
  obtain ⟨v, hv, hk⟩ := Option.bind_eq_some_iff.mp h.stepId_eq
  simp only [sortKey, hv, hk]

/-- A writer leaves its entries in step order, so the scaffolder's sort changes
nothing. -/
theorem scaffolder_render (hL : L.OneLine) (h : AuthoredTable entries)
    (hf : file.getD [] = Json.render L entries.values)
    (hs : ∀ j ∈ entries.values, Json.allChars (fun c => !Lines.isSeparator c) j = true) :
    scaffolderReadReasoning decodeError file = .ok entries.values := by
  have hkeys : ∀ rows : List (Int × Json), (∀ r ∈ rows, Authored r.1 r.2) →
      (rows.map Prod.snd).mapM (fun e => (sortKey e).map fun k => (k, e)) = .ok rows := by
    intro rows hr
    induction rows with
    | nil => rfl
    | cons r rows ih =>
      have ih' := ih fun r' h' => hr r' (List.mem_cons_of_mem r h')
      rw [List.map_cons, List.mapM_cons, sortKey_authored (hr r (by simp)), ih']
      rfl
  have hsorted : entries.rows.Pairwise (fun a b => a.1 ≤ b.1) :=
    (List.pairwise_map.mp entries.sorted).imp le_of_lt
  have hread := readFile_render decodeError .compile hL h hf hs
  simp only [scaffolderReadReasoning, hread, Table.values]
  change (do
    let keys ← (entries.rows.map Prod.snd).mapM fun e => (sortKey e).map fun k => (k, e)
    Except.ok ((keys.insertionSort fun a b : Int × Json => a.1 ≤ b.1).map Prod.snd)) = _
  rw [hkeys entries.rows fun r hr => h.mem hr]
  change Except.ok ((entries.rows.insertionSort fun a b : Int × Json => a.1 ≤ b.1).map Prod.snd) = _
  rw [hsorted.insertionSort_eq]

end Readers

def Write.reasoning : Write → String
  | .upsertEntry entry => entry.reasoning
  | .atomicUpsert step _ => step.reasoning

/-- The text of the last write of every step. -/
def lastText (texts : Int → Option String) (ws : List Write) : Int → Option String :=
  ws.foldl (fun t i => Function.update t i.key (some i.reasoning)) texts

def reasoningOf (j : Json) : Option String := (j.get? "reasoning").bind asString

/-- Every step has one entry with its text, if it has a text, and none if not. -/
def Yields (entries : List Json) (texts : Int → Option String) : Prop :=
  ∀ k, (entries.filter fun j => stepId j = some k).map reasoningOf = (texts k).toList.map some

/-- All readers of the file find the texts: the session loader, the scaffolder
and the next write of the annotation screen. -/
def ReadBack (decodeError : Text → String) (file : File) (texts : Int → Option String) : Prop :=
  ∃ entries : List Json, loaderReadReasoning decodeError file = .ok entries ∧
    scaffolderReadReasoning decodeError file = .ok entries ∧
    (existingEntries file).map Table.values = some entries ∧ Yields entries texts

/-- The writes that the readers can follow: no entry holds a line separator, and
the Rust side writes while every entry of another step is its own. -/
def Clean (w : World) (i : Write) : Prop :=
  SeparatorFree i.entry ∧
    match i with
    | .upsertEntry entry =>
        ∀ k j, k ≠ entry.key → w.latest k = some j → ∃ e : ReasoningEntry, j = e.toJson
    | .atomicUpsert _ _ => True

/-- The file is in order and its entries have the texts. -/
structure Tracks (w : World) (texts : Int → Option String) : Prop where
  produced : Produced w
  separatorFree : ∀ k j, w.latest k = some j → SeparatorFree j
  texts : ∀ k, (w.latest k).map reasoningOf = (texts k).map some

theorem Clean.safe {w : World} {texts : Int → Option String} {i : Write} (h : Tracks w texts)
    (hc : Clean w i) : Safe w i := by
  cases i with
  | upsertEntry entry => exact hc.2
  | atomicUpsert step now => exact h.separatorFree

theorem reasoningOf_entry (i : Write) : reasoningOf i.entry = some i.reasoning := by
  cases i with
  | upsertEntry entry =>
    cases hp : entry.imagePath <;>
      simp [reasoningOf, Write.entry, Write.reasoning, ReasoningEntry.toJson, ReasoningEntry.fields,
        Json.get?, member, List.lookup_cons, asString, hp]
  | atomicUpsert step now => rfl

theorem tracks_step {w : World} {texts : Int → Option String} {i : Write} (h : Tracks w texts)
    (hc : Clean w i) : Tracks (w.step i) (Function.update texts i.key (some i.reasoning)) := by
  have hs := hc.safe h
  obtain ⟨L, entries, hL, ha, hf, hl⟩ := h.produced
  obtain ⟨L', -, -, he⟩ := step_safe hL ha hf hl hs
  have hlatest : (w.step i).latest = Function.update w.latest i.key (some i.entry) := by
    rw [he]
    rfl
  refine ⟨produced_step h.produced hs, fun k j hj => ?_, fun k => ?_⟩
  · rw [hlatest, Function.update_apply] at hj
    split at hj
    · cases hj
      exact hc.1
    · exact h.separatorFree k j hj
  · rw [hlatest, Function.update_apply, Function.update_apply]
    split
    · simp [reasoningOf_entry]
    · exact h.texts k

theorem tracks_run (ws : List Write) (w : World) (texts : Int → Option String) (h : Tracks w texts)
    (hc : Guarded World.step Clean w ws) : Tracks (run World.step w ws) (lastText texts ws) := by
  induction ws generalizing w texts with
  | nil => exact h
  | cons i ws ih => exact ih (w.step i) _ (tracks_step h hc.1) hc.2

theorem readBack_of_tracks (decodeError : Text → String) {w : World} {texts : Int → Option String}
    (h : Tracks w texts) : ReadBack decodeError w.file texts := by
  obtain ⟨L, entries, hL, ha, hf, hl⟩ := h.produced
  have hs := SeparatorFree.values hl h.separatorFree
  have hphase : existingEntries w.file = some entries := by
    have he : existingEntries w.file = existingEntries (some (w.file.getD [])) := rfl
    rw [he, hf, existingEntries_render hL ha hs]
  refine ⟨entries.values, readFile_render decodeError .load hL ha hf hs,
    scaffolder_render decodeError hL ha hf hs, by rw [hphase]; rfl, fun k => ?_⟩
  rw [filter_values ha.filed, ← hl]
  have ht := congrArg Option.toList (h.texts k)
  simpa [Option.toList_map] using ht

theorem tracks_fresh : Tracks .fresh fun _ => none :=
  ⟨produced_fresh, fun _ _ h => (by cases h), fun _ => rfl⟩

/-- After any sequence of clean writes every reader finds the last text of each
step. -/
theorem readers_yield_last_text (decodeError : Text → String) (ws : List Write)
    (hc : Guarded World.step Clean .fresh ws) :
    ReadBack decodeError (run World.step .fresh ws).file (lastText (fun _ => none) ws) :=
  readBack_of_tracks decodeError (tracks_run ws .fresh (fun _ => none) tracks_fresh hc)

theorem readers_yield_last_text_sample :
    ReadBack (fun _ => "Expecting value")
      (run World.step .fresh [.upsertEntry (sampleEntry 1 "Öffnet das \"Menü\".\r\n"),
        .atomicUpsert (sampleStep 1 "Opens the menu.") "now"]).file
      (lastText (fun _ => none) [.upsertEntry (sampleEntry 1 "Öffnet das \"Menü\".\r\n"),
        .atomicUpsert (sampleStep 1 "Opens the menu.") "now"]) := by
  apply readers_yield_last_text
  refine ⟨⟨by decide +kernel, fun k j _ h => (by cases h)⟩, ⟨by decide +kernel, trivial⟩, trivial⟩

/-- A line separator in a text makes its line unreadable. -/
theorem separator_breaks_readers :
    ¬ ReadBack (fun _ => "Unterminated string starting at")
      (run World.step .fresh [.upsertEntry (sampleEntry 1 "First.\u2028Second.")]).file
      (lastText (fun _ => none) [.upsertEntry (sampleEntry 1 "First.\u2028Second.")]) := by
  rintro ⟨entries, hload, -⟩
  have hfail : (loaderReadReasoning (fun _ => "Unterminated string starting at")
      (run World.step .fresh [.upsertEntry (sampleEntry 1 "First.\u2028Second.")]).file).isOk = false := by
    decide +kernel
  rw [hload] at hfail
  cases hfail

end MemoryArchive.Reasoning
