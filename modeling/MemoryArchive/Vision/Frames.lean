import MemoryArchive.Capture.Event
import MemoryArchive.Data.TwoRuns
import MemoryArchive.Text.Offsets

namespace MemoryArchive.Vision.Frames

open Capture (CommandEvent Text)
open Lines (sliceTo)
open TwoRuns

inductive FetchDecision
  | skip (reason : String)
  | fetchAt (mark : Bool)
  | fetchAfter (delayMs : UInt64)
  deriving DecidableEq

def decide (event : CommandEvent) (pressDelayMs typeDelayMs : UInt64) : FetchDecision :=
  if event.success = false then .skip "command failed"
  else if event.actionType = "mouse" then .fetchAt event.positionCaptured
  else if event.actionType = "keyboard" then
    if event.actionSubtype = "type" then .fetchAfter typeDelayMs
    else if event.actionSubtype = "press" then .fetchAfter pressDelayMs
    else .skip "keyboard subtype does not trigger fetch"
  else .skip "action type does not trigger fetch"

def timestampCompact (ts : Text) : Text :=
  let s := (sliceTo ts 19).getD "0000-00-00T00:00:00".toList
  let digits := s.filter Char.isDigit
  if 14 ≤ digits.length then digits.take 8 ++ '_' :: (digits.drop 8).take 6 else "00000000_000000".toList

def extToContentType (ext : Text) : String :=
  let ext := ext.map Char.toLower
  if ext = "jpg".toList ∨ ext = "jpeg".toList then "image/jpeg"
  else if ext = "webp".toList then "image/webp"
  else if ext = "bmp".toList then "image/bmp"
  else if ext = "tiff".toList ∨ ext = "tif".toList then "image/tiff"
  else "image/png"

/-- The extension of a frame comes from its Content-Type, parameters left out. -/
def contentTypeToExt (contentType : Text) : Text :=
  let type := Lines.trim (contentType.takeWhile (· ≠ ';'))
  if type = "image/webp".toList then "webp".toList
  else if type = "image/jpeg".toList then "jpg".toList
  else if type = "image/bmp".toList then "bmp".toList
  else if type = "image/tiff".toList then "tiff".toList
  else "png".toList

/-- What the eyes answer: a body with its Content-Type, or nothing. -/
abbrev Answer := Option (ByteArray × Text)

/-- A frame and its extension. -/
def fetched (answer : Answer) : Option (ByteArray × Text) := answer.map fun a => (a.1, contentTypeToExt a.2)

/-- A number with zeros in front, up to a width. -/
def zeroPad (width n : Nat) : Text := List.replicate (width - (Json.digits n).length) '0' ++ Json.digits n

def frameFront : Text := "vision/frames/step_".toList

/-- `vision/frames/step_{:04}_{ts}_{suffix}.{ext}` -/
def framePath (stepId : UInt32) (timestamp suffix ext : Text) : Text :=
  frameFront ++ zeroPad 4 stepId.toNat ++ '_' :: timestampCompact timestamp ++
    '_' :: suffix ++ '.' :: ext

/-- A frame, with the type that an object of the backend has. -/
structure Stored where
  bytes : ByteArray
  contentType : Option String

abbrev Store := Text → Option Stored

/-- A write is done, or it fails and leaves something in the place. -/
inductive Outcome
  | done
  | failed (left : Option Stored)

/-- What the eyes answer for the three instants, and how the writes and reads of a step end. -/
structure Env where
  before : Answer
  action : Answer
  after : Answer
  writeAt : Outcome
  writeBefore : Outcome
  writeAfter : Outcome
  readable : Text → Bool

/-- `marker::mark`: the frame with a mark at a point, in the format of its extension. -/
abbrev Marker := ByteArray → Int32 → Int32 → Text → Option ByteArray

structure VisionPipeline where
  memoryName : Text
  pressDelayMs : UInt64
  typeDelayMs : UInt64
  isCloudPrimary : Bool
  isAutomated : Bool

structure StepImageResult where
  imagePath : Text
  marked : Bool
  beforeImagePath : Option Text
  afterImagePath : Option Text
  atFrameBytes : ByteArray
  beforeFrameBytes : ByteArray
  afterFrameBytes : ByteArray

namespace VisionPipeline

variable (p : VisionPipeline) (mark : Marker)

def cloudPath (relativePath : Text) : Text := p.memoryName ++ '/' :: relativePath

/-- Where a frame is: an object of the session, or a file of its directory. -/
def place (relativePath : Text) : Text := if p.isCloudPrimary then p.cloudPath relativePath else relativePath

/-- Only the backend keeps the type of a frame. -/
def stored (bytes : ByteArray) (contentType : String) : Stored :=
  ⟨bytes, if p.isCloudPrimary then some contentType else none⟩

def write (relativePath : Text) (bytes : ByteArray) (contentType : String) (o : Outcome) (store : Store) :
    Store × Bool :=
  match o with
  | .done => (Function.update store (p.place relativePath) (some (p.stored bytes contentType)), true)
  | .failed left => (Function.update store (p.place relativePath) left, false)

def saveAtMarked (rawBytes : ByteArray) (stepId : UInt32) (timestamp : Text) (mouseX mouseY : Int32)
    (ext : Text) (o : Outcome) (store : Store) : Store × Option (Text × Bool) :=
  match mark rawBytes mouseX mouseY ext with
  | none => (store, none)
  | some markedBytes =>
      let relPath := framePath stepId timestamp "at".toList ext
      let (store, ok) := p.write relPath markedBytes "image/png" o store
      (store, if ok then some (relPath, true) else none)

def saveAt (bytes : ByteArray) (stepId : UInt32) (timestamp : Text) (marked : Bool) (ext : Text) (o : Outcome)
    (store : Store) : Store × Option (Text × Bool) :=
  let relPath := framePath stepId timestamp "at".toList ext
  let (store, ok) := p.write relPath bytes (extToContentType ext) o store
  (store, if ok then some (relPath, marked) else none)

def saveFrame (bytes : ByteArray) (stepId : UInt32) (timestamp suffix ext : Text) (o : Outcome)
    (store : Store) : Store × Option Text :=
  let relPath := framePath stepId timestamp suffix ext
  let (store, ok) := p.write relPath bytes (extToContentType ext) o store
  (store, if ok then some relPath else none)

def readFrameBytes (env : Env) (store : Store) (relativePath : Text) : ByteArray :=
  if env.readable relativePath then ((store (p.place relativePath)).map Stored.bytes).getD .empty else .empty

/-- The frames around an action whose own frame has been saved. -/
def saveAround (event : CommandEvent) (stepId : UInt32) (env : Env) (store : Store) (imagePath : Text)
    (marked : Bool) : Store × StepImageResult :=
  let (store, beforeImagePath) :=
    match fetched env.before with
    | some (b, ext) => p.saveFrame b stepId event.timestamp.toList "before".toList ext env.writeBefore store
    | none => (store, none)
  let (store, afterImagePath) :=
    match fetched env.after with
    | some (b, ext) => p.saveFrame b stepId event.timestamp.toList "after".toList ext env.writeAfter store
    | none => (store, none)
  let read path := if p.isAutomated then p.readFrameBytes env store path else .empty
  (store, ⟨imagePath, marked, beforeImagePath, afterImagePath, read imagePath,
    (beforeImagePath.map read).getD .empty, (afterImagePath.map read).getD .empty⟩)

/-- The frame of the action is saved with the mark or as it is. -/
def saveAction (event : CommandEvent) (stepId : UInt32) (marks : Bool) (actionBytes : ByteArray)
    (actionExt : Text) (o : Outcome) (store : Store) : Store × Option (Text × Bool) :=
  let ts := event.timestamp.toList
  if marks then p.saveAtMarked mark actionBytes stepId ts event.mouseX event.mouseY actionExt o store
  else p.saveAt actionBytes stepId ts false actionExt o store

/-- What the two kinds of fetch share, once the frames have been fetched. -/
def saveFetched (event : CommandEvent) (stepId : UInt32) (marks : Bool) (env : Env) (store : Store) :
    Store × Option StepImageResult :=
  match fetched env.action with
  | none => (store, none)
  | some (actionBytes, actionExt) =>
      match p.saveAction mark event stepId marks actionBytes actionExt env.writeAt store with
      | (store, none) => (store, none)
      | (store, some (imagePath, marked)) =>
          let (store, result) := p.saveAround event stepId env store imagePath marked
          (store, some result)

def processDelayedFetch (event : CommandEvent) (stepId : UInt32) (env : Env) (store : Store) :
    Store × Option StepImageResult :=
  p.saveFetched mark event stepId false env store

def process (event : CommandEvent) (stepId : UInt32) (env : Env) (store : Store) :
    Store × Option StepImageResult :=
  match decide event p.pressDelayMs p.typeDelayMs with
  | .skip _ => (store, none)
  | .fetchAt marks => p.saveFetched mark event stepId marks env store
  | .fetchAfter _ => p.processDelayedFetch mark event stepId env store

end VisionPipeline

section Paths

variable {stepId stepId' : UInt32} {ts ts' suffix suffix' ext ext' : Text}

theorem digitsValue_zeros (k : Nat) (ds : Text) :
    Json.digitsValue (List.replicate k '0' ++ ds) = Json.digitsValue ds := by
  induction k with
  | zero => rfl
  | succ k ih =>
    rw [List.replicate_succ, List.cons_append, ← ih]
    rfl

theorem zeroPad_inj {width n m : Nat} (h : zeroPad width n = zeroPad width m) : n = m := by
  have hvalue := congrArg Json.digitsValue h
  rw [zeroPad, zeroPad, digitsValue_zeros, digitsValue_zeros, Json.digitsValue_digits,
    Json.digitsValue_digits] at hvalue
  exact hvalue

theorem zeroPad_isDigit (width n : Nat) : ∀ c ∈ zeroPad width n, c.isDigit = true := by
  intro c hc
  obtain hc | hc := List.mem_append.mp hc
  · rw [List.eq_of_mem_replicate hc]
    rfl
  · exact Json.digits_isDigit n c hc

/-- A text has one cut where the first character without a property is. -/
theorem cut_at {p : Char → Bool} {front front' back back' : Text} {c : Char} (hc : p c = false)
    (hfront : ∀ d ∈ front, p d = true) (hfront' : ∀ d ∈ front', p d = true)
    (h : front ++ c :: back = front' ++ c :: back') : front = front' ∧ back = back' := by
  have htake := congrArg (List.takeWhile p) h
  rw [List.takeWhile_append_of_pos hfront, List.takeWhile_append_of_pos hfront',
    List.takeWhile_cons_of_neg (by simp [hc]), List.takeWhile_cons_of_neg (by simp [hc]), List.append_nil,
    List.append_nil] at htake
  subst htake
  exact ⟨rfl, (List.cons.inj (List.append_cancel_left h)).2⟩

theorem framePath_eq : framePath stepId ts suffix ext = frameFront ++
    (zeroPad 4 stepId.toNat ++ '_' :: (timestampCompact ts ++ '_' :: (suffix ++ '.' :: ext))) := by
  simp only [framePath, List.append_assoc, List.cons_append]

/-- Frames of different steps have different paths, whatever their times and types are. -/
theorem framePath_step (h : framePath stepId ts suffix ext = framePath stepId' ts' suffix' ext') :
    stepId = stepId' := by
  rw [framePath_eq, framePath_eq] at h
  have hcut := cut_at (p := Char.isDigit) rfl (zeroPad_isDigit 4 _) (zeroPad_isDigit 4 _)
    (List.append_cancel_left h)
  exact UInt32.toNat_inj.mp (zeroPad_inj hcut.1)

/-- The frames of a step have different paths. -/
theorem framePath_suffix (hs : '.' ∉ suffix) (hs' : '.' ∉ suffix')
    (h : framePath stepId ts suffix ext = framePath stepId ts suffix' ext') : suffix = suffix' := by
  rw [framePath_eq, framePath_eq] at h
  have hback := (List.cons.inj (List.append_cancel_left (List.append_cancel_left h))).2
  have hend := (List.cons.inj (List.append_cancel_left hback)).2
  have hdot : ∀ {text : Text}, '.' ∉ text → ∀ d ∈ text, (fun d : Char => d != '.') d = true := by
    intro text htext d hd
    exact bne_iff_ne.mpr (ne_of_mem_of_not_mem hd htext)
  exact (cut_at (p := fun d => d != '.') rfl (hdot hs) (hdot hs') hend).1

end Paths

namespace VisionPipeline

section Step

variable {p : VisionPipeline} {mark : Marker} {store : Store}
  {rel rel' q : Text} {bytes : ByteArray} {contentType : String} {o : Outcome}

theorem place_inj (h : p.place rel = p.place rel') : rel = rel' := by
  rw [place, place] at h
  split at h
  · exact (List.cons.inj (List.append_cancel_left h)).2
  · exact h

/-- What stands in the place of a path. -/
def Holds (p : VisionPipeline) (store : Store) (rel : Text) (bytes : ByteArray) (contentType : String) : Prop :=
  store (p.place rel) = some (p.stored bytes contentType)

theorem write_other (h : q ≠ p.place rel) : (p.write rel bytes contentType o store).1 q = store q := by
  cases o with
  | done => exact Function.update_of_ne h _ _
  | failed left => exact Function.update_of_ne h _ _

theorem write_holds (h : (p.write rel bytes contentType o store).2 = true) :
    p.Holds (p.write rel bytes contentType o store).1 rel bytes contentType := by
  cases o with
  | done => exact Function.update_self _ _ _
  | failed left => cases h

variable {event : CommandEvent} {stepId : UInt32} {env : Env} {ts suffix ext : Text}
  {frame : Option (ByteArray × Text)}

/-- A frame is saved if there is one. -/
def saveOptional (p : VisionPipeline) (frame : Option (ByteArray × Text)) (stepId : UInt32) (ts suffix : Text)
    (o : Outcome) (store : Store) : Store × Option Text :=
  match frame with
  | some (b, ext) => p.saveFrame b stepId ts suffix ext o store
  | none => (store, none)

theorem saveOptional_other (h : ∀ ext, q ≠ p.place (framePath stepId ts suffix ext)) :
    (p.saveOptional frame stepId ts suffix o store).1 q = store q := by
  cases frame with
  | none => rfl
  | some f => exact write_other (h f.2)

theorem saveOptional_holds {path : Text} (h : (p.saveOptional frame stepId ts suffix o store).2 = some path) :
    ∃ b ext, frame = some (b, ext) ∧ path = framePath stepId ts suffix ext ∧
      p.Holds (p.saveOptional frame stepId ts suffix o store).1 path b (extToContentType ext) := by
  cases frame with
  | none => cases h
  | some f =>
    obtain ⟨b, ext⟩ := f
    change (if (p.write (framePath stepId ts suffix ext) b (extToContentType ext) o store).2 = true then some _
      else none) = some path at h
    split at h
    · rename_i hok
      cases h
      exact ⟨b, ext, rfl, rfl, write_holds hok⟩
    · cases h

theorem saveAround_eq {imagePath : Text} {marked : Bool} :
    p.saveAround event stepId env store imagePath marked =
      let before := p.saveOptional (fetched env.before) stepId event.timestamp.toList "before".toList
        env.writeBefore store
      let after := p.saveOptional (fetched env.after) stepId event.timestamp.toList "after".toList
        env.writeAfter before.1
      let read path := if p.isAutomated then p.readFrameBytes env after.1 path else .empty
      (after.1, ⟨imagePath, marked, before.2, after.2, read imagePath, (before.2.map read).getD .empty,
        (after.2.map read).getD .empty⟩) := rfl

variable {marks marked : Bool} {r : StepImageResult}

theorem saveAction_other (h : ∀ ext, q ≠ p.place (framePath stepId event.timestamp.toList "at".toList ext)) :
    (p.saveAction mark event stepId marks bytes ext o store).1 q = store q := by
  rw [saveAction]
  split
  · rw [saveAtMarked]
    split
    · rfl
    · exact write_other (h ext)
  · exact write_other (h ext)

/-- The frame as it is shown, with its type: with the mark, or as it was fetched. -/
def shown (mark : Marker) (event : CommandEvent) (marked : Bool)
    (bytes : ByteArray) (ext : Text) : Option (ByteArray × String) :=
  if marked then (mark bytes event.mouseX event.mouseY ext).map fun b => (b, "image/png")
  else some (bytes, extToContentType ext)

theorem saveAction_holds {path : Text}
    (h : (p.saveAction mark event stepId marks bytes ext o store).2 = some (path, marked)) :
    marked = marks ∧ path = framePath stepId event.timestamp.toList "at".toList ext ∧
      ∃ b contentType, shown mark event marked bytes ext = some (b, contentType) ∧
        p.Holds (p.saveAction mark event stepId marks bytes ext o store).1 path b contentType := by
  have hsaved : ∀ {b contentType} {m : Bool},
      (if (p.write (framePath stepId event.timestamp.toList "at".toList ext) b contentType o
          store).2 = true then
        some (framePath stepId event.timestamp.toList "at".toList ext, m) else none) = some (path, marked) →
      marked = m ∧ path = framePath stepId event.timestamp.toList "at".toList ext ∧
        p.Holds (p.write (framePath stepId event.timestamp.toList "at".toList ext) b contentType o store).1
          path b contentType := by
    intro b contentType m hif
    split at hif
    · rename_i hok
      cases hif
      exact ⟨rfl, rfl, write_holds hok⟩
    · cases hif
  cases marks with
  | true =>
    change (p.saveAtMarked mark bytes stepId _ _ _ ext o store).2 = _ at h
    change _ ∧ _ ∧ ∃ b contentType, _ ∧ p.Holds (p.saveAtMarked mark bytes stepId _ _ _ ext o store).1 path b
      contentType
    rw [saveAtMarked] at h ⊢
    cases hmark : mark bytes event.mouseX event.mouseY ext with
    | none =>
      rw [hmark] at h
      cases h
    | some b =>
      rw [hmark] at h
      obtain ⟨rfl, hpath, hholds⟩ := hsaved h
      exact ⟨rfl, hpath, b, "image/png", by rw [shown, hmark]; rfl, hholds⟩
  | false =>
    obtain ⟨rfl, hpath, hholds⟩ := hsaved h
    exact ⟨rfl, hpath, bytes, extToContentType ext, rfl, hholds⟩

/-- What is pushed of a frame. -/
def pushed (p : VisionPipeline) (env : Env) (path : Text) (b : ByteArray) : ByteArray :=
  if p.isAutomated && env.readable path then b else .empty

/-- A frame beside that of the action: it stands where the result says, and it is pushed. -/
def KeptBeside (p : VisionPipeline) (env : Env) (store : Store) (frame : Option (ByteArray × Text))
    (stepId : UInt32) (ts suffix : Text) (path : Option Text) (frameBytes : ByteArray) : Prop :=
  (path = none ∧ frameBytes = .empty) ∨ ∃ b ext, frame = some (b, ext) ∧
    path = some (framePath stepId ts suffix ext) ∧
      p.Holds store (framePath stepId ts suffix ext) b (extToContentType ext) ∧
      frameBytes = p.pushed env (framePath stepId ts suffix ext) b

/-- The frames of a result stand where it says, and are pushed as they stand there. -/
structure Kept (p : VisionPipeline) (mark : Marker)
    (event : CommandEvent) (stepId : UInt32) (env : Env) (r : StepImageResult) (store : Store) : Prop where
  marked : r.marked = true ↔ event.actionType = "mouse" ∧ event.positionCaptured = true
  image : ∃ bytes ext b contentType, fetched env.action = some (bytes, ext) ∧
    shown mark event r.marked bytes ext = some (b, contentType) ∧
      r.imagePath = framePath stepId event.timestamp.toList "at".toList ext ∧
        p.Holds store r.imagePath b contentType ∧ r.atFrameBytes = p.pushed env r.imagePath b
  before : KeptBeside p env store (fetched env.before) stepId event.timestamp.toList "before".toList
    r.beforeImagePath r.beforeFrameBytes
  after : KeptBeside p env store (fetched env.after) stepId event.timestamp.toList "after".toList
    r.afterImagePath r.afterFrameBytes

/-- Both hold of what stands in the places of the step. -/
theorem KeptBeside.congr {store' : Store} {path : Option Text} {frameBytes : ByteArray}
    (h : KeptBeside p env store frame stepId ts suffix path frameBytes)
    (hsame : ∀ ext, store' (p.place (framePath stepId ts suffix ext)) =
      store (p.place (framePath stepId ts suffix ext))) :
    KeptBeside p env store' frame stepId ts suffix path frameBytes := by
  obtain hnone | ⟨b, ext, hframe, hpath, hholds, hpushed⟩ := h
  · exact .inl hnone
  · refine .inr ⟨b, ext, hframe, hpath, ?_, hpushed⟩
    rw [Holds, hsame]
    exact hholds

theorem Kept.congr {store' : Store} (h : Kept p mark event stepId env r store)
    (hsame : ∀ suffix ext, store' (p.place (framePath stepId event.timestamp.toList suffix ext)) =
      store (p.place (framePath stepId event.timestamp.toList suffix ext))) :
    Kept p mark event stepId env r store' where
  marked := h.marked
  image := by
    obtain ⟨bytes, ext, b, contentType, haction, hshown, hpath, hholds, hpushed⟩ := h.image
    refine ⟨bytes, ext, b, contentType, haction, hshown, hpath, ?_, hpushed⟩
    rw [Holds, hpath, hsame, ← hpath]
    exact hholds
  before := h.before.congr fun ext => hsame _ ext
  after := h.after.congr fun ext => hsame _ ext

theorem suffixes_apart {suffix suffix' : Text} (hne : suffix ≠ suffix') (hs : '.' ∉ suffix)
    (hs' : '.' ∉ suffix') (ext ext' : Text) :
    p.place (framePath stepId ts suffix ext) ≠ p.place (framePath stepId ts suffix' ext') :=
  fun h => hne (framePath_suffix hs hs' (place_inj h))

theorem read_holds {b : ByteArray} (h : p.Holds store rel b contentType) :
    (if p.isAutomated then p.readFrameBytes env store rel else .empty) = p.pushed env rel b := by
  rw [pushed, readFrameBytes, h]
  cases p.isAutomated with
  | true => rfl
  | false => rfl

theorem before_apart_after {ext ext' : Text} : p.place (framePath stepId ts "before".toList ext) ≠
    p.place (framePath stepId ts "after".toList ext') :=
  suffixes_apart (by decide) (by decide) (by decide) ext ext'

theorem at_apart_before {ext ext' : Text} : p.place (framePath stepId ts "at".toList ext) ≠
    p.place (framePath stepId ts "before".toList ext') :=
  suffixes_apart (by decide) (by decide) (by decide) ext ext'

theorem at_apart_after {ext ext' : Text} : p.place (framePath stepId ts "at".toList ext) ≠
    p.place (framePath stepId ts "after".toList ext') :=
  suffixes_apart (by decide) (by decide) (by decide) ext ext'

/-- What is read back of a saved frame is the frame, also after another one was saved. -/
theorem keptBeside_of {after : Store}
    (hafter : ∀ ext, after (p.place (framePath stepId ts suffix ext)) =
      (p.saveOptional frame stepId ts suffix o store).1 (p.place (framePath stepId ts suffix ext))) :
    KeptBeside p env after frame stepId ts suffix (p.saveOptional frame stepId ts suffix o store).2
      (((p.saveOptional frame stepId ts suffix o store).2.map fun path =>
        if p.isAutomated then p.readFrameBytes env after path else .empty).getD .empty) := by
  cases hsaved : (p.saveOptional frame stepId ts suffix o store).2 with
  | none => exact .inl ⟨rfl, rfl⟩
  | some path =>
    obtain ⟨b, ext, hframe, rfl, hholds⟩ := saveOptional_holds hsaved
    have hstands : p.Holds after (framePath stepId ts suffix ext) b (extToContentType ext) := by
      rw [Holds, hafter]
      exact hholds
    exact .inr ⟨b, ext, hframe, rfl, hstands, read_holds hstands⟩

theorem saveAround_kept {b bytes : ByteArray}
    (hmarked : marked = true ↔ event.actionType = "mouse" ∧ event.positionCaptured = true)
    (haction : fetched env.action = some (bytes, ext))
    (hshown : shown mark event marked bytes ext = some (b, contentType))
    (hholds : p.Holds store (framePath stepId event.timestamp.toList "at".toList ext) b contentType) :
    Kept p mark event stepId env
      (p.saveAround event stepId env store (framePath stepId event.timestamp.toList "at".toList ext) marked).2
      (p.saveAround event stepId env store (framePath stepId event.timestamp.toList "at".toList ext)
        marked).1 := by
  rw [saveAround_eq]
  have hat : p.Holds (p.saveOptional (fetched env.after) stepId event.timestamp.toList "after".toList
      env.writeAfter (p.saveOptional (fetched env.before) stepId event.timestamp.toList "before".toList
        env.writeBefore store).1).1
      (framePath stepId event.timestamp.toList "at".toList ext) b contentType := by
    rw [Holds, saveOptional_other fun _ => at_apart_after, saveOptional_other fun _ => at_apart_before]
    exact hholds
  exact {
    marked := hmarked
    image := ⟨bytes, ext, b, contentType, haction, hshown, rfl, hat, read_holds hat⟩
    before := keptBeside_of fun ext => saveOptional_other fun _ => before_apart_after
    after := keptBeside_of fun _ => rfl }

theorem saveAround_other {imagePath : Text}
    (h : ∀ suffix ext, q ≠ p.place (framePath stepId event.timestamp.toList suffix ext)) :
    (p.saveAround event stepId env store imagePath marked).1 q = store q := by
  rw [saveAround_eq]
  dsimp only
  rw [saveOptional_other (h _), saveOptional_other (h _)]

theorem saveFetched_spec (hmarks : marks = true ↔ event.actionType = "mouse" ∧ event.positionCaptured = true) :
    (∀ r, (p.saveFetched mark event stepId marks env store).2 = some r →
      Kept p mark event stepId env r (p.saveFetched mark event stepId marks env store).1) ∧
    ∀ q, (∀ suffix ext, q ≠ p.place (framePath stepId event.timestamp.toList suffix ext)) →
      (p.saveFetched mark event stepId marks env store).1 q = store q := by
  rw [saveFetched]
  cases haction : fetched env.action with
  | none => exact ⟨by rintro _ ⟨⟩, fun _ _ => rfl⟩
  | some action =>
    obtain ⟨bytes, ext⟩ := action
    dsimp only
    have hother : ∀ q, (∀ suffix ext, q ≠ p.place (framePath stepId event.timestamp.toList suffix ext)) →
        (p.saveAction mark event stepId marks bytes ext env.writeAt store).1 q = store q :=
      fun q hq => saveAction_other (hq _)
    have hsaved : ∀ path marked, (p.saveAction mark event stepId marks bytes ext env.writeAt store).2 =
        some (path, marked) → marked = marks ∧ path = framePath stepId event.timestamp.toList "at".toList ext ∧
          ∃ b contentType, shown mark event marked bytes ext = some (b, contentType) ∧
            p.Holds (p.saveAction mark event stepId marks bytes ext env.writeAt store).1 path b contentType :=
      fun path marked h => saveAction_holds h
    generalize p.saveAction mark event stepId marks bytes ext env.writeAt store = saved at hother hsaved
    obtain ⟨store', _ | ⟨path, marked⟩⟩ := saved
    · exact ⟨by rintro _ ⟨⟩, hother⟩
    · obtain ⟨rfl, rfl, b, contentType, hshown, hholds⟩ := hsaved path marked rfl
      constructor
      · rintro _ ⟨⟩
        exact saveAround_kept hmarks haction hshown hholds
      · intro q hq
        change (p.saveAround event stepId env store' (framePath stepId event.timestamp.toList "at".toList ext)
          marked).1 q = store q
        rw [saveAround_other hq]
        exact hother q hq

theorem decide_fetchAt {pressDelayMs typeDelayMs : UInt64}
    (h : decide event pressDelayMs typeDelayMs = .fetchAt marks) :
    marks = true ↔ event.actionType = "mouse" ∧ event.positionCaptured = true := by
  rw [decide] at h
  split at h
  · cases h
  · split at h
    · rename_i hmouse
      cases h
      exact (and_iff_right hmouse).symm
    · split at h
      · split at h
        · cases h
        · split at h
          · cases h
          · cases h
      · cases h

theorem decide_fetchAfter {pressDelayMs typeDelayMs delayMs : UInt64}
    (h : decide event pressDelayMs typeDelayMs = .fetchAfter delayMs) : event.actionType ≠ "mouse" := by
  intro hmouse
  rw [decide, if_pos hmouse] at h
  split at h
  · cases h
  · cases h

/-- A result tells where the frames of the step stand, and only those are written. -/
theorem process_spec (p : VisionPipeline) (mark : Marker)
    (event : CommandEvent) (stepId : UInt32) (env : Env) (store : Store) :
    (∀ r, (p.process mark event stepId env store).2 = some r →
      Kept p mark event stepId env r (p.process mark event stepId env store).1) ∧
    ∀ q, (∀ suffix ext, q ≠ p.place (framePath stepId event.timestamp.toList suffix ext)) →
      (p.process mark event stepId env store).1 q = store q := by
  rw [process]
  cases hdecide : decide event p.pressDelayMs p.typeDelayMs with
  | skip reason => exact ⟨by rintro _ ⟨⟩, fun _ _ => rfl⟩
  | fetchAt marks => exact saveFetched_spec (decide_fetchAt hdecide)
  | fetchAfter delayMs =>
    exact saveFetched_spec (iff_of_false Bool.false_ne_true fun h => decide_fetchAfter hdecide h.1)

end Step

section Mirror

/-- The pipeline with the backend of a cloud session, and with a directory. -/
def inCloud (p : VisionPipeline) : VisionPipeline := { p with isCloudPrimary := true }

def onDisk (p : VisionPipeline) : VisionPipeline := { p with isCloudPrimary := false }

/-- The objects under the name of the session are the files of its directory, and the
others are as they were. -/
structure Mirrors (p : VisionPipeline) (start objects files : Store) : Prop where
  bytes : ∀ rel, (objects (p.cloudPath rel)).map Stored.bytes = (files rel).map Stored.bytes
  others : ∀ q, (∀ rel, q ≠ p.cloudPath rel) → objects q = start q

/-- The directory that holds what a backend holds of the session. -/
def directory (p : VisionPipeline) (objects : Store) : Store := fun rel => objects (p.cloudPath rel)

/-- Two results of a step are alike: in what is stored, and in what is reported. -/
def Alike {α : Type} (p : VisionPipeline) (start : Store) (r r' : Store × α) : Prop :=
  Mirrors p start r.1 r'.1 ∧ r.2 = r'.2

/-- A step of a session, and what it meets. -/
structure Shot where
  event : CommandEvent
  stepId : UInt32
  env : Env

def shoot (p : VisionPipeline) (mark : Marker) (store : Store)
    (shot : Shot) : Store × Option StepImageResult :=
  p.process mark shot.event shot.stepId shot.env store

variable {p : VisionPipeline} {mark : Marker}
  {start objects files : Store}

theorem update_mirrors (h : Mirrors p start objects files) (rel : Text) {new new' : Option Stored}
    (hnew : new.map Stored.bytes = new'.map Stored.bytes) :
    Mirrors p start (Function.update objects (p.cloudPath rel) new) (Function.update files rel new') := by
  constructor
  · intro rel'
    by_cases hrel : rel' = rel
    · subst hrel
      rw [Function.update_self, Function.update_self]
      exact hnew
    · have hpath : p.cloudPath rel' ≠ p.cloudPath rel :=
        fun heq => hrel (List.cons.inj (List.append_cancel_left heq)).2
      rw [Function.update_of_ne hpath, Function.update_of_ne hrel]
      exact h.bytes rel'
  · intro q hq
    rw [Function.update_of_ne (hq rel)]
    exact h.others q hq

theorem write_alike (h : Mirrors p start objects files) (rel : Text) (bytes : ByteArray) (contentType : String)
    (o : Outcome) : Alike p start (p.inCloud.write rel bytes contentType o objects)
      (p.onDisk.write rel bytes contentType o files) := by
  cases o with
  | done => exact ⟨update_mirrors h rel rfl, rfl⟩
  | failed left => exact ⟨update_mirrors h rel rfl, rfl⟩

theorem saveFrame_alike (h : Mirrors p start objects files) (bytes : ByteArray) (stepId : UInt32)
    (ts suffix ext : Text) (o : Outcome) :
    Alike p start (p.inCloud.saveFrame bytes stepId ts suffix ext o objects)
      (p.onDisk.saveFrame bytes stepId ts suffix ext o files) := by
  obtain ⟨hstore, hok⟩ := write_alike h (framePath stepId ts suffix ext) bytes (extToContentType ext) o
  exact ⟨hstore, congrArg (fun ok => if ok = true then some (framePath stepId ts suffix ext) else none) hok⟩

theorem saveOptional_alike (h : Mirrors p start objects files) (frame : Option (ByteArray × Text))
    (stepId : UInt32) (ts suffix : Text) (o : Outcome) :
    Alike p start (p.inCloud.saveOptional frame stepId ts suffix o objects)
      (p.onDisk.saveOptional frame stepId ts suffix o files) := by
  cases frame with
  | none => exact ⟨h, rfl⟩
  | some f => exact saveFrame_alike h f.1 stepId ts suffix f.2 o

theorem saveAction_alike (mark : Marker) (h : Mirrors p start objects files) (event : CommandEvent)
    (stepId : UInt32) (marks : Bool) (bytes : ByteArray) (ext : Text) (o : Outcome) :
    Alike p start (p.inCloud.saveAction mark event stepId marks bytes ext o objects)
      (p.onDisk.saveAction mark event stepId marks bytes ext o files) := by
  have hsaved : ∀ (path : Text) (b : ByteArray) (contentType : String) (marked : Bool), Alike p start
      ((p.inCloud.write path b contentType o objects).1,
        if (p.inCloud.write path b contentType o objects).2 = true then some (path, marked) else none)
      ((p.onDisk.write path b contentType o files).1,
        if (p.onDisk.write path b contentType o files).2 = true then some (path, marked) else none) := by
    intro path b contentType marked
    obtain ⟨hstore, hok⟩ := write_alike h path b contentType o
    exact ⟨hstore, congrArg (fun ok => if ok = true then some (path, marked) else none) hok⟩
  cases marks with
  | true =>
    change Alike p start (p.inCloud.saveAtMarked mark bytes stepId _ _ _ ext o objects)
      (p.onDisk.saveAtMarked mark bytes stepId _ _ _ ext o files)
    rw [saveAtMarked, saveAtMarked]
    cases mark bytes event.mouseX event.mouseY ext with
    | none => exact ⟨h, rfl⟩
    | some b => exact hsaved _ b "image/png" true
  | false => exact hsaved _ bytes (extToContentType ext) false

theorem read_alike (h : Mirrors p start objects files) (env : Env) (path : Text) :
    p.inCloud.readFrameBytes env objects path = p.onDisk.readFrameBytes env files path := by
  rw [readFrameBytes, readFrameBytes]
  split
  · exact congrArg (fun bytes => Option.getD bytes ByteArray.empty) (h.bytes path)
  · rfl

theorem saveAround_alike (h : Mirrors p start objects files) (event : CommandEvent) (stepId : UInt32)
    (env : Env) (imagePath : Text) (marked : Bool) :
    Alike p start (p.inCloud.saveAround event stepId env objects imagePath marked)
      (p.onDisk.saveAround event stepId env files imagePath marked) := by
  rw [saveAround_eq, saveAround_eq]
  obtain ⟨hbefore, hpath⟩ := saveOptional_alike h (fetched env.before) stepId event.timestamp.toList
    "before".toList env.writeBefore
  obtain ⟨hafter, hpath'⟩ := saveOptional_alike hbefore (fetched env.after) stepId event.timestamp.toList
    "after".toList env.writeAfter
  refine ⟨hafter, ?_⟩
  have hread := fun path => read_alike hafter env path
  have hmode : p.inCloud.isAutomated = p.onDisk.isAutomated := rfl
  dsimp only
  simp only [hpath, hpath', hread, hmode]

theorem process_alike (h : Mirrors p start objects files) (shot : Shot) :
    Alike p start (p.inCloud.shoot mark objects shot) (p.onDisk.shoot mark files shot) := by
  have hfetched : ∀ marks, Alike p start
      (p.inCloud.saveFetched mark shot.event shot.stepId marks shot.env objects)
      (p.onDisk.saveFetched mark shot.event shot.stepId marks shot.env files) := by
    intro marks
    rw [saveFetched, saveFetched]
    cases fetched shot.env.action with
    | none => exact ⟨h, rfl⟩
    | some action =>
      dsimp only
      obtain ⟨hstore, hsaved⟩ := saveAction_alike mark h shot.event shot.stepId marks action.1
        action.2 shot.env.writeAt
      generalize p.inCloud.saveAction mark shot.event shot.stepId marks action.1 action.2 shot.env.writeAt
        objects = cloud at hstore hsaved
      generalize p.onDisk.saveAction mark shot.event shot.stepId marks action.1 action.2 shot.env.writeAt
        files = disk at hstore hsaved
      obtain ⟨cloud, result⟩ := cloud
      obtain ⟨disk, result'⟩ := disk
      cases hsaved
      cases result with
      | none => exact ⟨hstore, rfl⟩
      | some saved =>
        obtain ⟨haround, hresult⟩ := saveAround_alike hstore shot.event shot.stepId shot.env saved.1 saved.2
        exact ⟨haround, congrArg some hresult⟩
  rw [shoot, shoot, process, process]
  have hsame : decide shot.event p.inCloud.pressDelayMs p.inCloud.typeDelayMs =
      decide shot.event p.onDisk.pressDelayMs p.onDisk.typeDelayMs := rfl
  rw [hsame]
  cases decide shot.event p.onDisk.pressDelayMs p.onDisk.typeDelayMs with
  | skip reason => exact ⟨h, rfl⟩
  | fetchAt marks => exact hfetched marks
  | fetchAfter delayMs => exact hfetched false

/-- A cloud session and a local one report the same frames for the same events, and what
the one stores under its name the other stores in its directory. -/
theorem cloud_mirrors_disk (p : VisionPipeline) (mark : Marker)
    (objects : Store) (shots : List Shot) :
    outputs (p.inCloud.shoot mark) objects shots = outputs (p.onDisk.shoot mark) (p.directory objects) shots ∧
      Mirrors p objects (final (p.inCloud.shoot mark) objects shots)
        (final (p.onDisk.shoot mark) (p.directory objects) shots) := by
  have hstep : ∀ objects' files shot, Mirrors p objects objects' files →
      (p.inCloud.shoot mark objects' shot).2 = (p.onDisk.shoot mark files shot).2 ∧
        Mirrors p objects (p.inCloud.shoot mark objects' shot).1 (p.onDisk.shoot mark files shot).1 :=
    fun objects' files shot h => (process_alike h shot).symm
  exact outputs_alike hstep objects (p.directory objects) shots ⟨fun rel => rfl, fun q hq => rfl⟩

end Mirror

end VisionPipeline

end MemoryArchive.Vision.Frames
